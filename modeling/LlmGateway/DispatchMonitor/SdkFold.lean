import LlmGateway.DispatchMonitor.SdkState

/-!
# The fold of the SDK dispatches

The fold keeps a row for each dispatch, under its preferred key, and redirects from the other ids of the dispatch.
Two lanes speak of one dispatch, often under different ids: `ensureCanonicalRow` merges the live rows of a record's
ids into the row of its key, and redirects the ids to the key.

A handler may raise: `int` of an infinite float does, and so does the assignment of `job`, which is no slot of a row.
What the handler has changed by then stays. What the folds of the other families do to the links between roots and
threads, which all folds share, is a parameter.
-/

namespace LlmGateway.DispatchMonitor

/-! ## Aliases -/

namespace Aliases

/-- The loop of `resolve`, through at most `n` redirects. -/
def follow (redirects : Dict String String) : ℕ → List String → String → String
  | 0, _, current => current
  | n + 1, seen, current =>
    match redirects.get? current with
    | none => current
    | some next => if seen.contains current then current else follow redirects n (current :: seen) next

/-- `SdkIdAliases.resolve`: no chain has more redirects than there are. -/
def resolve (redirects : Dict String String) (id : String) : String :=
  follow redirects (redirects.items.length + 1) [] id

def register (redirects : Dict String String) (alt canonical : String) : Dict String String :=
  let canonical := resolve redirects canonical
  if alt = canonical then redirects
  else
    let redirects := redirects.set alt canonical
    let resolved := resolve redirects alt
    if resolved = canonical then redirects else redirects.set resolved canonical

end Aliases

/-! ## Links -/

/-- The part of `CorrelationIndex` that the SDK fold reads or writes. -/
structure CorrelationIndex where
  rootByWorkerThread : Dict String String
  rootByDispatch : Dict String String
  dispatchesByRoot : Dict String (List String)
  threadByDispatch : Dict String String

namespace CorrelationIndex

def empty : CorrelationIndex := ⟨∅, ∅, ∅, ∅⟩

def rootForThread (x : CorrelationIndex) (thread : Option String) : Option String :=
  (thread.filter (· != "")).bind x.rootByWorkerThread.get?

def rootForDispatch (x : CorrelationIndex) (id : String) : Option String :=
  ((x.rootByDispatch.get? id).filter (· != "")).orElse fun _ => x.rootForThread (x.threadByDispatch.get? id)

def linkDispatch (x : CorrelationIndex) (id : String) (root thread : Option String) : CorrelationIndex :=
  if id = "" then x
  else
    let x := match thread.filter (· != "") with
      | none => x
      | some thread => { x with threadByDispatch := x.threadByDispatch.set id thread }
    match ((root.filter (· != "")).orElse fun _ => x.rootForThread thread).filter (· != "") with
    | none => x
    | some root =>
      let bucket := x.dispatchesByRoot.getD root []
      { x with
        rootByDispatch := x.rootByDispatch.set id root
        dispatchesByRoot := x.dispatchesByRoot.set root (if bucket.contains id then bucket else bucket ++ [id]) }

end CorrelationIndex

/-! ## The fold -/

/-- `SdkFold`, with the index. -/
structure SdkFold where
  index : CorrelationIndex
  dispatches : Dict String SdkState
  redirects : Dict String String
  pendingModels : Dict String String
  pendingCaller : Dict String (String × String)
  pendingLane : Dict String String
  pendingBranch : Dict String String
  duplicateRefused : Dict String (ℤ × String × String)
  leaseParks : List (String × String)
  writeLeaseHolderId : Option String

namespace SdkFold

/-- `SdkFold()`. -/
def new : SdkFold := ⟨.empty, ∅, ∅, ∅, ∅, ∅, ∅, ∅, [], none⟩

/-- `self._aliases.resolve(row_id)`. -/
def resolve (x : SdkFold) (id : String) : String := Aliases.resolve x.redirects id

/-- The row under a key that has one. -/
def row (x : SdkFold) (key : String) : SdkState := x.dispatches.getD key (.new key)

/-- The row under the key is changed. -/
def update (x : SdkFold) (key : String) (f : SdkState → SdkState) : SdkFold :=
  match x.dispatches.get? key with
  | none => x
  | some row => { x with dispatches := x.dispatches.set key (f row) }

/-! ### Rows of several ids -/

/-- A row under the key. -/
def openRow (x : SdkFold) (key : String) : SdkFold :=
  if x.dispatches.contains key then x else { x with dispatches := x.dispatches.set key (.new key) }

/-- One of the ids of `ensure_canonical_row`: a live row under it is merged into the row of the key. -/
def mergeAlt (key : String) (x : SdkFold) (alt : String) : SdkFold :=
  if alt = key then x
  else
    match x.dispatches.get? alt with
    | none => x
    | some altRow =>
      if !altRow.isLive then x
      else
        let x := (x.openRow key).update key fun row => row.merge altRow
        { x with dispatches := x.dispatches.erase alt, redirects := Aliases.register x.redirects alt key }

/-- An id is redirected to the key. -/
def redirect (key : String) (x : SdkFold) (id : String) : SdkFold :=
  { x with redirects := Aliases.register x.redirects id key }

/-- The ids of `ensure_canonical_row`, resolved, each once. -/
def resolvedIds (x : SdkFold) (preferred : String) (ids : List String) : List String :=
  ((x.resolve preferred :: ids).map x.resolve).eraseDups

/-- `ensure_canonical_row`; the row is the one under `x.resolve preferred`. -/
def ensureCanonicalRow (x : SdkFold) (preferred : String) (ids : List String) : SdkFold :=
  let key := x.resolve preferred
  (ids.foldl (redirect key) ((x.resolvedIds preferred ids).foldl (mergeAlt key) x)).openRow key

/-! ### Stashed texts -/

/-- Whether a stashed key is the id of the row or what it begins with. -/
def names (key id : String) : Bool := id == key || Json.startsWith id (key ++ "-")

/-- The stashed value for a row. -/
def pending {ν : Type} (stash : Dict String ν) (id : String) : Option ν :=
  (stash.items.find? fun e => names e.1 id).map Prod.snd

def applyPendingModel (x : SdkFold) (row : SdkState) : SdkState := row.fill .model (pending x.pendingModels row.dispatchId)

def applyPendingCaller (x : SdkFold) (row : SdkState) : SdkState :=
  if row.stamps .callerVia = some "mcp" then row
  else
    match pending x.pendingCaller row.dispatchId with
    | none => row
    | some (callerFrom, callerVia) => (row.fill .callerFrom (some callerFrom)).fill .callerVia (some callerVia)

def applyPendingLane (x : SdkFold) (row : SdkState) : SdkState :=
  (row.fill .checkoutLane (pending x.pendingLane row.dispatchId)).fill .checkoutBranch
    (pending x.pendingBranch row.dispatchId)

/-! ### The row of a record -/

def absorbIdentity (x : SdkFold) (key : String) (r : Record) : SdkFold :=
  let x := x.update key fun row => row.fillIdentity r
  let row := x.row key
  let x := { x with index := x.index.linkDispatch row.dispatchId (row.stamps .rootId) (row.stamps .threadId) }
  x.update key fun row => row.fill .rootId (x.index.rootForDispatch row.dispatchId)

/-- `_resolve_row` behind `ensure_canonical_row`. -/
def absorb (x : SdkFold) (key : String) (r : Record) : SdkFold :=
  let x := x.update key fun row => row.noteEmitter r.emitter
  let x := x.absorbIdentity key r
  x.update key fun row =>
    x.applyPendingLane (x.applyPendingCaller (x.applyPendingModel (row.applyProvenance r)))

/-- `_resolve_row` with a key: the fold, and the key of the row. -/
def resolveRow (x : SdkFold) (r : Record) (preferred : String) (ids : List String) : SdkFold × String :=
  let key := x.resolve preferred
  ((x.ensureCanonicalRow preferred ids).absorb key r, key)

def rowForId (x : SdkFold) (r : Record) (id : String) : SdkFold × String :=
  x.resolveRow r id (id :: (r.payloadAltIds false).2).eraseDups

/-- `_state`, and the row of `_on_queued`. -/
def stateOf (x : SdkFold) (r : Record) (queued : Bool) : Option (SdkFold × String) :=
  (r.payloadAltIds queued).1.map fun preferred => x.resolveRow r preferred (r.payloadAltIds queued).2

end SdkFold

end LlmGateway.DispatchMonitor
