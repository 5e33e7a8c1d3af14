import LlmGateway.Cortex.Store
import LlmGateway.Foundations.Fallible

/-!
# Entity identity

Creation of entities, `entity_rekey`, `entity_retype` and `entity_merge`, and the resolution of references.
The four writers hold `WRITE_LOCK` or a transaction throughout and roll back on any exception, so each is a
function to the store it commits or to the exception it raises.

A merge leaves its source as a tombstone: lifecycle `merged`, and the id of the target under `merged_into`
in its attributes. `resolveEntityReference` follows that attribute once.

Of the tables that refer to entities, `entity_aliases`, `assertions` and `session_edges` are modelled; what
the statements on the others or the check of foreign keys raise is an argument (`failure`). The key
`(entity_id, alias)` of `entity_aliases` is not checked: rows are inserted only behind the deletion of the
entity's rows, without repetition.
-/

namespace LlmGateway.Cortex

variable {ρ : Type}

/-! ## Ids -/

/-- The part of an id behind its first colon. -/
def afterColon (id : String) : String := String.ofList ((id.toList.dropWhile (· != ':')).drop 1)

/-- `":" in id`. -/
def hasColon (id : String) : Bool := id.toList.contains ':'

/-- The `type:slug` form of an id. -/
def canonicalizeEntityId (rawId entityType : String) : Except Error String :=
  let start := entityType ++ ":"
  if Json.startsWith rawId start then
    if rawId.toList.length = start.toList.length then
      .error (httpException 422 ("Entity id " ++ Json.strRepr rawId ++
        " has an empty slug after the type prefix."))
    else .ok rawId
  else if hasColon rawId then
    .error (httpException 422 ("Entity id " ++ Json.strRepr rawId ++
      " carries a type-prefix that does not match type=" ++ Json.strRepr entityType ++ ". Pass id='" ++
      entityType ++ ":<slug>' (compound) or a bare slug (a bare slug is canonicalized to '" ++
      entityType ++ ":<slug>')."))
  else .ok (start ++ rawId)

def mintedTypes : List String := ["person", "organization"]

/-- What an id for a type with minted ids raises. -/
def rejectMintedTypeIdSupplied (entityType : String) : Error :=
  .http 422 (.obj [("code", .str "entity_id_minted_type"),
    ("message", .str ("Entity type " ++ Json.strRepr entityType ++
      " uses server-minted ids — omit id and supply the display string in name.")),
    ("source", .str "entity_create"), ("retryable", .bool false),
    ("data", .obj [("fix", .str ("omit id; set name=<display string> for type=" ++ entityType))])])

/-! ## Aliases -/

/-- `add` of `mint_entity_create_aliases`. -/
def addAlias (ordered : List String) (value : String) : List String :=
  let text := Json.strip value
  if text = "" || ordered.contains text then ordered else ordered ++ [text]

/-- `slug.replace("-", " ").replace("_", " ")`. -/
def slugWords (slug : String) : String :=
  String.ofList (slug.toList.map fun c => if c = '-' || c = '_' then ' ' else c)

/-- The caller's aliases with the forms of the id and the name. -/
def mintEntityCreateAliases (entityId name : String) (callerAliases : List String) : List String :=
  let ordered := addAlias (callerAliases.foldl addAlias []) entityId
  let ordered := if hasColon entityId then
    addAlias (addAlias ordered (afterColon entityId)) (slugWords (afterColon entityId)) else ordered
  if name = "" then ordered
  else
    let normName := String.ofList (collapseWhitespace false (Json.strip name).toList)
    let ordered := addAlias ordered name
    if normName = name then ordered else addAlias ordered normName

/-- `[name] ∪ aliases`, without repetition. -/
def indexedAliases (name : Option String) (aliases : List String) : List String :=
  let named := (name.map Json.strip).toList.filter fun text => text != ""
  aliases.foldl addAlias named

/-- The alias rows with those of one entity replaced. -/
def syncEntityAliases (rows : List AliasRow) (entityId entityType : String) (name : Option String)
    (aliases : List String) (lifecycle : Option Lifecycle) : List AliasRow :=
  let kept := rows.filter fun row => row.entityId != entityId
  if nonLiveLifecycle lifecycle then kept
  else kept ++ (indexedAliases name aliases).map fun text => ⟨entityId, entityType, text⟩

/-! ## Creation -/

inductive EntityStatus where
  | unsubstantiated
  | confirmed
  | provisional
  | merged
  | deprecated
  | reaped
  deriving DecidableEq

/-- The lifecycle that an entity is born with. -/
def birthLifecycle : Option EntityStatus → Lifecycle
  | some .merged => .merged
  | some .deprecated => .deprecated
  | some .reaped => .reaped
  | _ => .active

/-- `EntityCreate`, with the time of the call. -/
structure EntityCreate where
  id : Option String
  type : String
  name : String
  aliases : List String
  /-- The attributes as `normalize_create_write` leaves them. -/
  attributes : List (String × Json)
  status : Option EntityStatus
  /-- The slug that is drawn for a type with minted ids. -/
  slug : String
  /-- What the checks for the type raise. -/
  refused : Option Error
  now : String

/-- The id of a new entity. -/
def EntityCreate.entityId (body : EntityCreate) : Except Error String :=
  let supplied := body.id.filter fun id => Json.strip id != ""
  if mintedTypes.contains body.type then
    match supplied with
    | some _ => .error (rejectMintedTypeIdSupplied body.type)
    | none => .ok (body.type ++ ":" ++ body.slug)
  else
    match supplied with
    | some id => canonicalizeEntityId id body.type
    | none => .error (.http 422 (.obj [("error", .str "missing_required_fields"), ("field", .str "id"),
        ("message", .str "id is required")]))

/-- The row of a new entity. -/
def EntityCreate.row (body : EntityCreate) (id : String) : Entity where
  type := body.type
  name := body.name
  lifecycle := some (birthLifecycle body.status)
  attributes := body.attributes
  aliases := mintEntityCreateAliases id body.name body.aliases
  updatedAt := body.now

def createEntityImpl (s : Store ρ) (body : EntityCreate) : Except Error (String × Store ρ) := do
  let id ← body.entityId
  raiseIf body.refused
  if s.entities.contains id then .error (.integrity .entityId)
  else .ok (id, { s with
    entities := s.entities.set id (body.row id)
    entityAliases := syncEntityAliases s.entityAliases id body.type (some body.name)
      (body.row id).aliases none })

/-! ## Rewriting references -/

/-- `UPDATE assertions` under the unique index. -/
def updateIndexed (t : Table (Assertion ρ)) (p : ℕ → Assertion ρ → Bool)
    (f : Assertion ρ → Assertion ρ) : Except Error (Table (Assertion ρ)) :=
  if claimDedup (t.update p f) then .ok (t.update p f) else .error (.integrity .claimDedup)

/-- `UPDATE session_edges` of both ends. -/
def rewriteSessionEdgeNodes (t : Table SessionEdge) (oldId newId : String) : Table SessionEdge :=
  (t.update (fun _ e => e.fromNode == oldId) fun e => { e with fromNode := newId }).update
    (fun _ e => e.toNode == oldId) fun e => { e with toNode := newId }

/-- One evidence token. -/
def rewriteEvidenceToken (oldId newId token : String) : String :=
  if token = oldId then newId
  else if token = "cortex:" ++ oldId then "cortex:" ++ newId
  else if token = "entity:" ++ oldId then "entity:" ++ newId
  else token

/-- The evidence tokens of all assertions. -/
def rewriteAssertionEvidenceUris (t : Table (Assertion ρ)) (oldId newId : String) :
    Table (Assertion ρ) :=
  t.update (fun _ r => r.evidenceUris.isSome) fun r =>
    { r with evidenceUris := r.evidenceUris.map (List.map (rewriteEvidenceToken oldId newId)) }

def loadEntity (s : Store ρ) (entityId : String) : Except Error Entity :=
  match s.entities.get? entityId with
  | none => .error (httpException 404 ("Entity not found: " ++ entityId))
  | some e => .ok e

/-! ## Rekey and retype -/

/-- The new id is neither an entity nor an alias of another one. -/
def preflightNewIdAvailable (s : Store ρ) (newId entityType oldId : String) : Except Error Unit :=
  if s.entities.contains newId then
    .error (.http 409 (.obj [("detail", .str ("Entity already exists: " ++ newId)),
      ("hint", .str "Use entity_merge to fold into an existing id")]))
  else
    match s.entityAliases.find? fun row =>
      row.entityType == entityType && row.aliasText == newId && row.entityId != oldId with
    | some row => .error (.http 409 (.obj [("detail", .str ("new_id " ++ Json.strRepr newId ++
        " is already an alias of " ++ Json.strRepr row.entityId))]))
    | none => .ok ()

/-- The entity's aliases, the old id among them. -/
def existingAliasList (row : Entity) (oldId : String) : List String :=
  if row.aliases.contains oldId then row.aliases else row.aliases ++ [oldId]

/-- The transaction of a rekey and of a retype: the references, the row and its aliases. -/
def moveEntity (s : Store ρ) (row : Entity) (oldId newId newType now : String) (failure : Option Error) :
    Except Error (Store ρ) := do
  let moved ← updateIndexed s.assertions (fun _ r => r.entityId == oldId) fun r =>
    { r with entityId := newId }
  raiseIf failure
  let aliases := existingAliasList row oldId
  let rows := s.entityAliases.map fun a => if a.entityId = oldId then { a with entityId := newId } else a
  .ok {
    entities := (s.entities.erase oldId).set newId
      { row with type := newType, aliases := aliases, updatedAt := now }
    entityAliases := syncEntityAliases rows newId newType none aliases row.lifecycle
    assertions := rewriteAssertionEvidenceUris moved oldId newId
    sessionEdges := rewriteSessionEdgeNodes s.sessionEdges oldId newId }

/-- What a rekey checks before its transaction: the row and the new id. -/
def rekeyTarget (s : Store ρ) (oldId newId : String) : Except Error (Entity × String) := do
  let row ← loadEntity s oldId
  let canonicalNew ← canonicalizeEntityId newId row.type
  preflightNewIdAvailable s canonicalNew row.type oldId
  .ok (row, canonicalNew)

/-- `entity_rekey_impl`: the new id. -/
def entityRekeyImpl (s : Store ρ) (oldId newId now : String) (failure : Option Error) :
    Except Error (String × Store ρ) := do
  let (row, canonicalNew) ← rekeyTarget s oldId newId
  let s' ← moveEntity s row oldId canonicalNew row.type now failure
  .ok (canonicalNew, s')

def matterSpecies : List String := ["work", "finance", "case", "opportunity"]

/-- The old id as an alias under the old type. -/
def registerCrossTypeAlias (rows : List AliasRow) (entityId oldType oldId : String) : List AliasRow :=
  (rows.filter fun row => !(row.entityId == entityId && row.aliasText == oldId)) ++
    [⟨entityId, oldType, oldId⟩]

/-- The checks of a retype on the two types. -/
def checkRetype (entityId oldType newType : String) (force : Bool) : Except Error Unit :=
  if newType = "" then .error (httpException 422 "new_type is required")
  else if newType = oldType then
    .error (.http 422 (.obj [("detail", .str ("Entity " ++ Json.strRepr entityId ++ " is already type " ++
      Json.strRepr newType)), ("hint", .str ("entity_retype changes the type; use entity_rekey for a " ++
      "same-type slug change."))]))
  else if !force && matterSpecies.contains oldType then
    .error (.http 422 (.obj [("error", .str "matter_genus_retype_blocked"),
      ("entity_type", .str oldType), ("hint", .str ("genus is immutable at birth (matter-playbook §4.0); " ++
      "use entity_merge for duplicate handles or force=true for deliberate remediation"))]))
  else .ok ()

/-- What a retype checks before its transaction: the row and the new id. -/
def retypeTarget (s : Store ρ) (entityId newType : String) (force : Bool) :
    Except Error (Entity × String) := do
  let row ← loadEntity s entityId
  checkRetype entityId row.type newType force
  let slug := if hasColon entityId then afterColon entityId else entityId
  let canonicalNew ← canonicalizeEntityId slug newType
  preflightNewIdAvailable s canonicalNew newType entityId
  .ok (row, canonicalNew)

/-- `entity_retype_impl`: the new id. -/
def entityRetypeImpl (s : Store ρ) (entityId newType now : String) (force : Bool)
    (failure : Option Error) : Except Error (String × Store ρ) := do
  let (row, canonicalNew) ← retypeTarget s entityId newType force
  let s' ← moveEntity s row entityId canonicalNew newType now failure
  .ok (canonicalNew, { s' with
    entityAliases := registerCrossTypeAlias s'.entityAliases canonicalNew row.type entityId })

/-! ## Merge -/

/-- `_preflight_merge`: the source. -/
def preflightMerge (s : Store ρ) (sourceId targetId : String) : Except Error Entity :=
  if sourceId = targetId then .error (httpException 422 "source_id and target_id must differ")
  else do
    let source ← loadEntity s sourceId
    let target ← loadEntity s targetId
    if source.type = target.type then .ok source
    else .error (.http 422 (.obj [("detail", .str "Cross-type merge is not supported"),
      ("source_type", .str source.type), ("target_type", .str target.type)]))

/-- One row of `target_by_hash`. -/
def addHash (hashes : Dict String ℕ) (e : ℕ × Assertion ρ) : Dict String ℕ :=
  match e.2.claimHash with
  | none => hashes
  | some h => hashes.set h e.1

def targetByHash (t : Table (Assertion ρ)) (targetId : String) : Dict String ℕ :=
  (t.select fun _ r => r.entityId == targetId && r.active).foldl addHash ∅

/-- The rows of one entity that nothing supersedes. -/
def activeOf (entityId : String) (_ : ℕ) (r : Assertion ρ) : Bool := r.entityId == entityId && r.active

/-- One source row whose claim the target has: it is superseded by the target's. -/
def closeDuplicate (T : Text) (hashes : Dict String ℕ) (targetId now : String)
    (t : Table (Assertion ρ)) (e : ℕ × Assertion ρ) : Except Error (Table (Assertion ρ)) :=
  match hashes.get? (computeClaimHash T targetId e.2.claim) with
  | none => .ok t
  | some id => updateIndexed t (fun i _ => i == e.1) fun r =>
      { r with supersededBy := some id, updatedAt := some now }

/-- One source row that is left: it moves to the target, with its hash there. -/
def moveSurvivor (T : Text) (targetId now : String) (t : Table (Assertion ρ)) (e : ℕ × Assertion ρ) :
    Except Error (Table (Assertion ρ)) :=
  updateIndexed t (fun i _ => i == e.1) fun r =>
    { r with entityId := targetId, claimHash := some (computeClaimHash T targetId e.2.claim),
             updatedAt := some now }

def mergeAssertions (T : Text) (t : Table (Assertion ρ)) (sourceId targetId now : String) :
    Except Error (Table (Assertion ρ)) := do
  let closed ← (t.select (activeOf sourceId)).foldlM
    (closeDuplicate T (targetByHash t targetId) targetId now) t
  (closed.select (activeOf sourceId)).foldlM (moveSurvivor T targetId now) closed

/-- `_tombstone_source`. -/
def tombstone (source : Entity) (targetId now : String) : Entity :=
  { source with
    lifecycle := some .merged
    attributes := Json.set "merged_into" (.str targetId) source.attributes
    aliases := []
    updatedAt := now }

def entityMergeImpl (T : Text) (s : Store ρ) (sourceId targetId now : String) (failure : Option Error) :
    Except Error (Store ρ) := do
  let source ← preflightMerge s sourceId targetId
  let merged ← mergeAssertions T s.assertions sourceId targetId now
  raiseIf failure
  .ok {
    entities := s.entities.set sourceId (tombstone source targetId now)
    entityAliases := s.entityAliases.filter fun row => row.entityId != sourceId
    assertions := rewriteAssertionEvidenceUris merged sourceId targetId
    sessionEdges := rewriteSessionEdgeNodes s.sessionEdges sourceId targetId }

/-! ## Resolution -/

def mergedIntoTarget (attributes : List (String × Json)) : Option String :=
  let target := Json.get attributes "merged_into"
  if target.truthy then some target.text else none

structure ResolvedEntityRef where
  entityId : String
  resolvedAlias : Option AliasRow

/-- What a reference that nothing matches raises: `fileRefusal` when it names a file, else `404`. -/
def raiseMissingOrFile (fileRefusal : Option String) (missing : String) : Error :=
  match fileRefusal with
  | some refusal => httpException 422 refusal
  | none => httpException 404 missing

/-- The alias rows that match a reference, in the order of the query. -/
def matchingAliases (s : Store ρ) (ref : String) : List AliasRow :=
  let part := afterColon ref
  let candidates := if hasColon ref && part != "" then [ref, part] else [ref]
  let typeHint := if hasColon ref then String.ofList (ref.toList.takeWhile (· != ':')) else ""
  let rows := s.entityAliases.filter fun row =>
    candidates.contains row.aliasText && (typeHint == "" || row.entityType == typeHint)
  rows.mergeSort fun a b => a.entityType < b.entityType ||
    (a.entityType == b.entityType && (a.entityId < b.entityId || a.entityId == b.entityId))

/-- `s.title()`, on the ASCII letters; `inWord` when the character before is one. -/
def title : Bool → List Char → List Char
  | _, [] => []
  | inWord, c :: cs => (if inWord then c.toLower else c.toUpper) :: title c.isAlpha cs

/-- `resolve_entity_reference`; `label` is the caller's word for the reference and `fileRefusal` the answer
of the file lookup. -/
def resolveEntityReference (s : Store ρ) (ref : String) (resolveAliases rawId : Bool) (label : String)
    (fileRefusal : Option String) : Except Error ResolvedEntityRef :=
  let missing := raiseMissingOrFile fileRefusal
    (String.ofList (title false label.toList) ++ " entity not found: " ++ ref)
  match s.entities.get? ref with
  | some row =>
    if rawId then .ok ⟨ref, none⟩
    else if row.lifecycle = some .merged then
      match mergedIntoTarget row.attributes with
      | some target => .ok ⟨target, none⟩
      | none => .ok ⟨ref, none⟩
    else .ok ⟨ref, none⟩
  | none =>
    if rawId || !resolveAliases then .error missing
    else
      match matchingAliases s ref with
      | [] => .error missing
      | row :: rows =>
        if rows.all fun other => other.entityId == row.entityId then .ok ⟨row.entityId, some row⟩
        else .error (.http 400 (.obj [("detail", .str ("Ambiguous " ++ label ++ " entity alias: " ++ ref)),
          ("matches", .arr ((row :: rows).map fun a => .obj [("entity_id", .str a.entityId),
            ("entity_type", .str a.entityType), ("alias", .str a.aliasText)]))]))

end LlmGateway.Cortex
