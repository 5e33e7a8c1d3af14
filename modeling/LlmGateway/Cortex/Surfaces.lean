import LlmGateway.Cortex.Identity

/-!
# The child rows of an entity

The tables beside assertions and aliases that name entities, and what a rekey and a merge do to them. A rekey
rewrites the id; a merge moves the rows of its source to the target, or drops a row when the target has one with
the same key. Of each table the columns are modelled that a rekey or a merge reads or writes.

The key `(entity_id, agent, week_start)` of `entity_access_summary` is checked. What the unique indexes of the
other tables or the foreign keys raise is the argument `failure`, as it is for the store.
-/

namespace LlmGateway.Cortex

/-! ## Tables -/

/-- A row of `relationships`. -/
structure Relationship where
  type : String
  fromEntity : String
  toEntity : String
  active : Bool
  updatedAt : Option String

/-- A row of `tag_assignments`. -/
structure TagAssignment where
  tagName : String
  entityId : String

/-- A row of `surface_forms`. -/
structure SurfaceForm where
  mention : String
  entityId : String
  contextHash : Option String

/-- A row of `event_chain_members`. -/
structure ChainMember where
  chainId : String
  eventId : String
  deriving DecidableEq

/-- A row of `event_chains`. -/
structure EventChain where
  chainId : String
  rootEventId : Option String

/-- A row of `entity_access_log`. -/
structure AccessLogRow where
  entityId : String
  agent : Option String

/-- The counts of a row of `entity_access_summary`. -/
structure AccessCounts where
  agentAccessCount : Option ℤ
  bootAccessCount : Option ℤ
  sessionCount : Option ℤ

/-- The child tables; a row of the access summary is under its entity, agent and week. -/
structure Surfaces where
  relationships : Table Relationship
  tagAssignments : Table TagAssignment
  surfaceForms : Table SurfaceForm
  eventChainMembers : List ChainMember
  eventChains : List EventChain
  accessLog : List AccessLogRow
  accessSummary : Dict (String × String × String) AccessCounts

/-- The store with the child tables. -/
structure EntityStore (ρ : Type) where
  store : Store ρ
  surfaces : Surfaces

/-- What an operation raises: an exception of the store, or the key of the access summary. -/
inductive SurfaceError where
  | store (e : Error)
  | accessSummaryKey

/-- `new_id` in the place of `old_id`. -/
def renameId (oldId newId id : String) : String := if id = oldId then newId else id

/-! ## Rekey -/

/-- `UPDATE relationships` of both ends. -/
def Relationship.rename (oldId newId : String) (r : Relationship) : Relationship :=
  { r with fromEntity := renameId oldId newId r.fromEntity, toEntity := renameId oldId newId r.toEntity }

def TagAssignment.rename (oldId newId : String) (r : TagAssignment) : TagAssignment :=
  { r with entityId := renameId oldId newId r.entityId }

def SurfaceForm.rename (oldId newId : String) (r : SurfaceForm) : SurfaceForm :=
  { r with entityId := renameId oldId newId r.entityId }

def ChainMember.rename (oldId newId : String) (r : ChainMember) : ChainMember :=
  { r with eventId := renameId oldId newId r.eventId }

def EventChain.rename (oldId newId : String) (r : EventChain) : EventChain :=
  { r with rootEventId := r.rootEventId.map (renameId oldId newId) }

def AccessLogRow.rename (oldId newId : String) (r : AccessLogRow) : AccessLogRow :=
  { r with entityId := renameId oldId newId r.entityId }

/-- The rows of the access summary for an entity. -/
def summaryRows (d : Dict (String × String × String) AccessCounts) (entityId : String) :
    List ((String × String × String) × AccessCounts) :=
  d.items.filter fun e => e.1.1 == entityId

/-- A row of the access summary under another entity. -/
def moveSummaryRow (newId : String) (d : Dict (String × String × String) AccessCounts)
    (e : (String × String × String) × AccessCounts) : Dict (String × String × String) AccessCounts :=
  (d.erase e.1).set (newId, e.1.2) e.2

/-- `UPDATE entity_access_summary` under its primary key. -/
def renameSummary (d : Dict (String × String × String) AccessCounts) (oldId newId : String) :
    Except SurfaceError (Dict (String × String × String) AccessCounts) :=
  if (summaryRows d oldId).any fun e => d.contains (newId, e.1.2) then .error .accessSummaryKey
  else .ok ((summaryRows d oldId).foldl (moveSummaryRow newId) d)

/-- `rekey_child_surfaces`, beyond the assertions, aliases and session edges. -/
def Surfaces.rekey (c : Surfaces) (oldId newId : String) : Except SurfaceError Surfaces := do
  let accessSummary ← renameSummary c.accessSummary oldId newId
  .ok {
    relationships := c.relationships.update (fun _ _ => true) (Relationship.rename oldId newId)
    tagAssignments := c.tagAssignments.update (fun _ _ => true) (TagAssignment.rename oldId newId)
    surfaceForms := c.surfaceForms.update (fun _ _ => true) (SurfaceForm.rename oldId newId)
    eventChainMembers := c.eventChainMembers.map (ChainMember.rename oldId newId)
    eventChains := c.eventChains.map (EventChain.rename oldId newId)
    accessLog := c.accessLog.map (AccessLogRow.rename oldId newId)
    accessSummary := accessSummary }

/-! ## Merge -/

/-- The key that active relationships are compared by. -/
def Relationship.key (r : Relationship) : String × String × String := (r.fromEntity, r.toEntity, r.type)

/-- An active relationship of the entity. -/
def activeAt (entityId : String) (_ : ℕ) (r : Relationship) : Bool :=
  r.active && (r.fromEntity == entityId || r.toEntity == entityId)

def targetKeys (t : Table Relationship) (targetId : String) : Dict (String × String × String) ℕ :=
  (t.select (activeAt targetId)).foldl (fun keys e => keys.set e.2.key e.1) ∅

/-- One source relationship: it is closed as a loop or a duplicate, or it moves. -/
def mergeRelationship (sourceId targetId now : String)
    (a : Table Relationship × Dict (String × String × String) ℕ) (e : ℕ × Relationship) :
    Table Relationship × Dict (String × String × String) ℕ :=
  let moved := e.2.rename sourceId targetId
  let closed := a.1.update (fun i _ => i == e.1) fun r => { r with active := false, updatedAt := some now }
  if moved.fromEntity = moved.toEntity then (closed, a.2)
  else if (a.2.get? moved.key).any fun id => id != e.1 then (closed, a.2)
  else
    (a.1.update (fun i _ => i == e.1) fun r =>
      { r with fromEntity := moved.fromEntity, toEntity := moved.toEntity, updatedAt := some now },
      a.2.set moved.key e.1)

def mergeRelationships (t : Table Relationship) (sourceId targetId now : String) : Table Relationship :=
  ((t.select (activeAt sourceId)).foldl (mergeRelationship sourceId targetId now) (t, targetKeys t targetId)).1

/-- The loop of `_merge_tags` and `_merge_surface_forms`: a row that the target has is deleted, another moves. -/
def moveOrDrop {ρ : Type} (has : ρ → Bool) (move : ρ → ρ) (t : Table ρ) (rows : List (ℕ × ρ)) : Table ρ :=
  rows.foldl (fun t e =>
    if has e.2 then t.delete fun i _ => i == e.1 else t.update (fun i _ => i == e.1) move) t

def mergeTags (t : Table TagAssignment) (sourceId targetId : String) : Table TagAssignment :=
  let targetTags := (t.select fun _ r => r.entityId == targetId).map fun e => e.2.tagName
  moveOrDrop (fun r => targetTags.contains r.tagName) (fun r => { r with entityId := targetId }) t
    (t.select fun _ r => r.entityId == sourceId)

def mergeSurfaceForms (t : Table SurfaceForm) (sourceId targetId : String) : Table SurfaceForm :=
  let targetKeys := (t.select fun _ r => r.entityId == targetId).map fun e => (e.2.mention, e.2.contextHash)
  moveOrDrop (fun r => targetKeys.contains (r.mention, r.contextHash)) (fun r => { r with entityId := targetId })
    t (t.select fun _ r => r.entityId == sourceId)

/-- The sum of two counts, `NULL` counting as `0`. -/
def AccessCounts.add (a b : AccessCounts) : AccessCounts where
  agentAccessCount := some (a.agentAccessCount.getD 0 + b.agentAccessCount.getD 0)
  bootAccessCount := some (a.bootAccessCount.getD 0 + b.bootAccessCount.getD 0)
  sessionCount := some (a.sessionCount.getD 0 + b.sessionCount.getD 0)

/-- One source row of the access summary: its counts are added to those of the target, or it moves. -/
def mergeSummaryRow (targetId : String) (d : Dict (String × String × String) AccessCounts)
    (e : (String × String × String) × AccessCounts) : Dict (String × String × String) AccessCounts :=
  match d.get? (targetId, e.1.2) with
  | some merged => (d.set (targetId, e.1.2) (merged.add e.2)).erase e.1
  | none => moveSummaryRow targetId d e

def mergeAccessSummary (d : Dict (String × String × String) AccessCounts) (sourceId targetId : String) :
    Dict (String × String × String) AccessCounts :=
  (summaryRows d sourceId).foldl (mergeSummaryRow targetId) d

/-- What `_execute_entity_merge` does to the child tables. A membership of the source in an event chain is
dropped. -/
def Surfaces.merge (c : Surfaces) (sourceId targetId now : String) : Surfaces where
  relationships := mergeRelationships c.relationships sourceId targetId now
  tagAssignments := mergeTags c.tagAssignments sourceId targetId
  surfaceForms := mergeSurfaceForms c.surfaceForms sourceId targetId
  eventChainMembers := c.eventChainMembers.filter fun m => m.eventId != sourceId
  eventChains := c.eventChains.map (EventChain.rename sourceId targetId)
  accessLog := c.accessLog.map (AccessLogRow.rename sourceId targetId)
  accessSummary := mergeAccessSummary c.accessSummary sourceId targetId

/-! ## The operations on all tables -/

variable {ρ : Type}

/-- `entity_rekey_impl`, with the child tables. -/
def entityRekey (s : EntityStore ρ) (oldId newId now : String) (failure : Option Error) :
    Except SurfaceError (String × EntityStore ρ) :=
  match entityRekeyImpl s.store oldId newId now failure with
  | .error e => .error (.store e)
  | .ok (id, store) => (s.surfaces.rekey oldId id).map fun surfaces => (id, ⟨store, surfaces⟩)

/-- `entity_merge_impl`, with the child tables. -/
def entityMerge (T : Text) (s : EntityStore ρ) (sourceId targetId now : String) (failure : Option Error) :
    Except SurfaceError (EntityStore ρ) :=
  match entityMergeImpl T s.store sourceId targetId now failure with
  | .error e => .error (.store e)
  | .ok store => .ok ⟨store, s.surfaces.merge sourceId targetId now⟩

end LlmGateway.Cortex
