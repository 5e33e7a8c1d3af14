import LlmGateway.Cortex.Store
import LlmGateway.Foundations.Session
import LlmGateway.Foundations.Fallible

/-!
# The assertion routes

`POST /assertions`, `POST /assertions/supersede` and `PATCH /assertions/{id}`. Each reads and validates on
its own connection without a lock, and then writes under `WRITE_LOCK` in one transaction; the two parts are
separate definitions here, since other calls may come between them. What a request is refused for by
validation that reads nothing of these tables is a field of the request.

The locked sections insert before they compare and swap: a create or a supersede whose target turns out to
be superseded already rolls its replacement back (`raiseConflict` behind `rollback`).

The commit that flags a near duplicate makes before the end of a create is left out: no modelled statement
behind it can fail.
-/

namespace LlmGateway.Cortex

variable {ρ : Type}

/-! ## Reads and statements -/

/-- `SELECT id FROM entities WHERE id = ?`, refused when there is no row. -/
def checkEntity (s : Store ρ) (entityId : String) : Except Error Unit :=
  if s.entities.contains entityId then .ok ()
  else .error (httpException 404 ("Entity not found: " ++ entityId))

/-- `SELECT … FROM assertions WHERE id = ?`, refused when there is no row. -/
def readAssertion (s : Store ρ) (id : ℕ) (missing : String) : Except Error (Assertion ρ) :=
  match s.assertions.get? id with
  | none => .error (httpException 404 missing)
  | some r => .ok r

/-- `UPDATE assertions SET f WHERE p`, with the number of rows. -/
def updateAssertions (p : ℕ → Assertion ρ → Bool) (f : Assertion ρ → Assertion ρ) :
    Session (Store ρ) Error ℕ := do
  let s ← Session.read
  Session.write fun s => { s with assertions := s.assertions.update p f }
  pure (s.assertions.select p).length

/-- `str(superseded_by)`. -/
def pointerText : Option ℕ → String
  | none => "None"
  | some n => toString n

/-- What a lost compare-and-swap raises: the row is gone, or another superseded it. -/
def raiseConflict {α : Type} (id : ℕ) (missing : String) (conflict : String → String) :
    Session (Store ρ) Error α := do
  let s ← Session.read
  match s.assertions.get? id with
  | none => Session.raise (httpException 404 missing)
  | some r => Session.raise (httpException 409 (conflict (pointerText r.supersededBy)))

/-- `SET superseded_by = ?, valid_until = ?, updated_at = ?`. -/
def Assertion.close (newId : ℕ) (now : String) (r : Assertion ρ) : Assertion ρ :=
  { r with supersededBy := some newId, validUntil := some now, updatedAt := some now }

/-- The reviewer's flag and notes. -/
def Assertion.annotate (flagged : Bool) (notes : ρ → ρ) (r : Assertion ρ) : Assertion ρ :=
  { r with reviewStatus := if flagged then some "flagged" else r.reviewStatus, columns := notes r.columns }

/-- An entity without lifecycle becomes active with its first assertion that is not staged. -/
def materializeGraduatedLifecycle (entityId now : String) (s : Store ρ) : Store ρ :=
  match s.entities.get? entityId with
  | none => s
  | some e =>
    let live := s.assertions.select fun _ r =>
      r.entityId == entityId && r.active && r.reviewStatus != some "staged"
    if e.lifecycle.isNone && !live.isEmpty then
      { s with entities := s.entities.set entityId { e with lifecycle := some .active, updatedAt := now } }
    else s

/-! ## Create -/

/-- `AssertionCreate`, with the time of the call and what the checks on the request alone yield. -/
structure AssertionCreate (ρ : Type) where
  entityId : String
  claim : String
  force : Bool
  supersedesId : Option ℕ
  dryRun : Bool
  evidenceUris : Option (List String)
  validUntil : Option String
  columns : ρ
  /-- What the validation of the payload raises. -/
  rejected : Option Error
  /-- What the belief guard raises. -/
  blocked : Option Error
  /-- The recorder knows the claim already. -/
  alreadyKnown : Bool
  /-- The status that validation and the guard give. -/
  reviewStatus : Option String
  /-- A contradiction or the predicate normalizer asks for a review. -/
  flagged : Bool
  notes : ρ → ρ
  now : String

/-- The target that `force` allows to supersede; an id of `0` counts as none. -/
def AssertionCreate.target (body : AssertionCreate ρ) : Option ℕ :=
  if body.force then body.supersedesId.filter fun id => id != 0 else none

/-- The row of the `INSERT`. -/
def AssertionCreate.row (T : Text) (body : AssertionCreate ρ) : Assertion ρ where
  entityId := body.entityId
  claim := body.claim
  claimHash := some (computeClaimHash T body.entityId body.claim)
  supersededBy := none
  evidenceUris := body.evidenceUris
  validUntil := body.validUntil
  reviewStatus := body.reviewStatus
  updatedAt := none
  columns := body.columns

/-- The lookup of `supersedes_id`, made when `force` is set. -/
def checkSupersedesTarget (s : Store ρ) (body : AssertionCreate ρ) : Except Error Unit :=
  match body.force, body.supersedesId with
  | true, some id => do
    let _ ← readAssertion s id ("supersedes_id assertion not found: " ++ toString id)
    .ok ()
  | _, _ => .ok ()

/-- The part of a create before the lock; `false` when the call returns without a write. -/
def prepareAssertionWrite (s : Store ρ) (body : AssertionCreate ρ) : Except Error Bool := do
  raiseIf body.rejected
  checkEntity s body.entityId
  if body.dryRun then .ok false
  else do
    checkSupersedesTarget s body
    raiseIf body.blocked
    .ok !body.alreadyKnown

/-- The statements of a create on its target: close it when nothing has superseded it yet. -/
def closeTarget (body : AssertionCreate ρ) (newId : ℕ) : Session (Store ρ) Error Unit :=
  match body.target with
  | none => pure ()
  | some id => do
    let rowcount ← updateAssertions (fun i r => i == id && r.active) (Assertion.close newId body.now)
    if rowcount = 0 then do
      Session.rollback
      raiseConflict id
        ("supersedes_id assertion " ++ toString id ++ " no longer exists (deleted concurrently)")
        fun by_ => "Assertion " ++ toString id ++ " is already superseded by " ++ by_ ++
          "; call POST /assertions/supersede with force=true to override an existing supersedence chain"
    else pure ()

/-- The part of a create under the lock, up to its commit: whether the assertion is new, and its id. -/
def writeAssertionLocked (T : Text) (body : AssertionCreate ρ) : Session (Store ρ) Error (Bool × ℕ) := do
  let s ← Session.read
  if claimDedup (s.assertions.insert (body.row T)) then
    if s.entities.contains body.entityId then do
      let newId := s.assertions.nextId
      Session.write fun s => { s with assertions := s.assertions.insert (body.row T) }
      closeTarget body newId
      let _ ← updateAssertions (fun i _ => i == newId) (Assertion.annotate body.flagged body.notes)
      Session.write fun s =>
        if body.reviewStatus = some "staged" then s
        else materializeGraduatedLifecycle body.entityId body.now s
      pure (true, newId)
    else Session.raise (.integrity .assertionEntity)
  else
    -- `INSERT OR IGNORE` was ignored: the id is that of the active assertion with the claim.
    let existing := s.assertions.select fun _ r => r.entityId == body.entityId &&
      r.claimHash == some (computeClaimHash T body.entityId body.claim) && r.active
    pure (false, (existing.head?.map Prod.fst).getD 0)

/-- `POST /assertions`: `none` when the call returns without a write. -/
def createAssertion (T : Text) (s : Store ρ) (body : AssertionCreate ρ) :
    Except Error (Option (Bool × ℕ)) × Store ρ :=
  match prepareAssertionWrite s body with
  | .error e => (.error e, s)
  | .ok false => (.ok none, s)
  | .ok true =>
    let out := Session.perform (Session.commitAfter (writeAssertionLocked T body)) s
    (out.1.map some, out.2)

/-! ## Supersede -/

/-- `SupersedeRequest`, with the time of the call and what the checks on the request alone yield. -/
structure SupersedeRequest (ρ : Type) where
  oldAssertionId : ℕ
  entityId : String
  claim : String
  force : Bool
  /-- `none` when the field is absent and the superseded assertion's value is carried over. -/
  evidenceUris : Option (Option (List String))
  sessionId : Option String
  agent : Option String
  /-- The other columns of the new row, from those of the superseded one. -/
  carryOver : ρ → ρ
  rejected : Option Error
  blocked : Option Error
  flagged : Bool
  notes : ρ → ρ
  now : String

/-- The row of the `INSERT`; it names no `claim_hash`. -/
def SupersedeRequest.row (body : SupersedeRequest ρ) (old : Assertion ρ) : Assertion ρ where
  entityId := body.entityId
  claim := body.claim
  claimHash := none
  supersededBy := none
  evidenceUris := body.evidenceUris.getD old.evidenceUris
  validUntil := none
  reviewStatus := none
  updatedAt := none
  columns := body.carryOver old.columns

/-- The edge between the two assertions. -/
def SupersedeRequest.edge (body : SupersedeRequest ρ) (newId : ℕ) : SessionEdge where
  sessionId := body.sessionId
  agent := body.agent
  fromNode := "assertion:" ++ toString newId
  toNode := "assertion:" ++ toString body.oldAssertionId
  edgeType := "supersedes"
  strength := .float "1.0"
  edgeSource := "derived"
  context := "auto-created by supersede tool"

/-- The text of a lost compare-and-swap that `force` would override. -/
def alreadySuperseded (id : ℕ) (by_ : String) : String :=
  "Assertion " ++ toString id ++ " is already superseded by " ++ by_ ++ "; pass force=true to override"

/-- The text of a row that is gone. -/
def deletedConcurrently (id : ℕ) : String :=
  "Assertion " ++ toString id ++ " no longer exists (deleted concurrently)"

/-- The part of a supersede under the lock, up to its commit. -/
def supersedeLocked (body : SupersedeRequest ρ) (old : Assertion ρ) : Session (Store ρ) Error ℕ := do
  let s ← Session.read
  if s.entities.contains body.entityId then do
    let newId := s.assertions.nextId
    Session.write fun s => { s with assertions := s.assertions.insert (body.row old) }
    let _ ← updateAssertions (fun i _ => i == newId) (Assertion.annotate body.flagged body.notes)
    let rowcount ← updateAssertions (fun i r => i == body.oldAssertionId && (body.force || r.active))
      (Assertion.close newId body.now)
    if rowcount = 0 then do
      Session.rollback
      raiseConflict body.oldAssertionId (deletedConcurrently body.oldAssertionId)
        (alreadySuperseded body.oldAssertionId)
    else do
      Session.write fun s => { s with sessionEdges := s.sessionEdges.insert (body.edge newId) }
      pure newId
  else Session.raise (.integrity .assertionEntity)

/-- The part of a supersede before the lock: the superseded assertion. -/
def prepareSupersede (s : Store ρ) (body : SupersedeRequest ρ) : Except Error (Assertion ρ) := do
  raiseIf body.rejected
  let old ← readAssertion s body.oldAssertionId
    ("Old assertion not found: " ++ toString body.oldAssertionId)
  checkEntity s body.entityId
  raiseIf body.blocked
  .ok old

/-- `POST /assertions/supersede`. -/
def supersedeAssertion (s : Store ρ) (body : SupersedeRequest ρ) : Except Error ℕ × Store ρ :=
  match prepareSupersede s body with
  | .error e => (.error e, s)
  | .ok old => Session.perform (Session.commitAfter (supersedeLocked body old)) s

/-! ## Update -/

/-- `AssertionUpdate`, with the time of the call and what the checks on the request alone yield. -/
structure AssertionUpdate (ρ : Type) where
  supersededBy : Option ℕ
  validUntil : Option String
  reviewStatus : Option String
  evidenceUris : Option (List String)
  /-- The other fields of the request, `none` when there are none. -/
  others : Option (ρ → ρ)
  force : Bool
  rejected : Option Error
  flagged : Bool
  notes : ρ → ρ
  now : String

/-- Whether the request names a column. -/
def AssertionUpdate.hasFields (body : AssertionUpdate ρ) : Bool :=
  body.supersededBy.isSome || body.validUntil.isSome || body.reviewStatus.isSome ||
    body.evidenceUris.isSome || body.others.isSome

/-- The `SET` clause: the columns that the request names. -/
def AssertionUpdate.set (body : AssertionUpdate ρ) (r : Assertion ρ) : Assertion ρ :=
  { r with
    supersededBy := body.supersededBy.or r.supersededBy
    validUntil := body.validUntil.or r.validUntil
    reviewStatus := body.reviewStatus.or r.reviewStatus
    evidenceUris := body.evidenceUris.or r.evidenceUris
    updatedAt := some body.now
    columns := (body.others.getD id) r.columns }

/-- The compare-and-swap: a request that sets `superseded_by` without `force`. -/
def AssertionUpdate.guarded (body : AssertionUpdate ρ) : Bool := body.supersededBy.isSome && !body.force

/-- The lookup of the superseding assertion. -/
def checkSuperseding (s : Store ρ) (body : AssertionUpdate ρ) : Except Error Unit :=
  match body.supersededBy with
  | none => .ok ()
  | some id => do
    let _ ← readAssertion s id ("Superseding assertion not found: " ++ toString id)
    .ok ()

/-- The part of an update before the lock: the assertion. -/
def prepareUpdate (s : Store ρ) (id : ℕ) (body : AssertionUpdate ρ) : Except Error (Assertion ρ) := do
  let existing ← readAssertion s id ("Assertion not found: " ++ toString id)
  checkSuperseding s body
  raiseIf body.rejected
  if body.hasFields then .ok existing
  else .error (httpException 422 "No updatable fields provided")

/-- The part of an update under the lock, up to its commit. -/
def updateLocked (id : ℕ) (body : AssertionUpdate ρ) (existing : Assertion ρ) :
    Session (Store ρ) Error Unit := do
  let rowcount ← updateAssertions (fun i r => i == id && (!body.guarded || r.active)) body.set
  if rowcount = 0 && body.guarded then
    raiseConflict id (deletedConcurrently id) (alreadySuperseded id)
  else do
    let _ ← updateAssertions (fun i _ => i == id) (Assertion.annotate body.flagged body.notes)
    Session.write fun s =>
      if body.reviewStatus = some "committed" && existing.entityId != "" then
        materializeGraduatedLifecycle existing.entityId body.now s
      else s

/-- The transaction of an update, and the row read back behind it. -/
def commitUpdate (s : Store ρ) (id : ℕ) (body : AssertionUpdate ρ) (existing : Assertion ρ) :
    Except Error Unit × Store ρ :=
  let out := Session.perform (Session.commitAfter (updateLocked id body existing)) s
  match out.1 with
  | .error e => (.error e, out.2)
  | .ok _ => if (out.2.assertions.get? id).isSome then out else (.error .indexError, out.2)

/-- `PATCH /assertions/{id}`. -/
def updateAssertion (s : Store ρ) (id : ℕ) (body : AssertionUpdate ρ) : Except Error Unit × Store ρ :=
  match prepareUpdate s id body with
  | .error e => (.error e, s)
  | .ok existing => commitUpdate s id body existing

end LlmGateway.Cortex
