import Mathlib.Data.Finset.Dedup
import LlmGateway.Foundations.Binary64
import LlmGateway.Foundations.Dict
import LlmGateway.Foundations.Fallible

/-!
# Gateway snapshots

What a routing decision reads of a gateway (`selection/types.py`): the free and the total memory, the models
that are loaded, busy and loading, and what is known of a model's footprint and of the time it was loaded.
Whether a loaded model is busy (`busy_view.py`) is the master's own record of the requests in flight where
there is one, and the gateway's telemetry where there is none; the models of the retrieval workload are
never to be evicted (`rag_protected_models.py`).

A model id is taken up to its `__eq__`, which compares the normalized id and the backend type.
-/

namespace LlmGateway.Eviction

/-- A `frozenset`, in the order in which it is iterated. -/
structure FrozenSet (α : Type*) where
  elems : List α
  nodup : elems.Nodup

namespace FrozenSet

variable {α : Type*}

instance : Membership α (FrozenSet α) := ⟨fun s a => a ∈ s.elems⟩

instance : EmptyCollection (FrozenSet α) := ⟨⟨[], List.nodup_nil⟩⟩

instance [DecidableEq α] (a : α) (s : FrozenSet α) : Decidable (a ∈ s) :=
  inferInstanceAs (Decidable (a ∈ s.elems))

/-- The elements that satisfy `p`. -/
def filter (s : FrozenSet α) (p : α → Bool) : FrozenSet α := ⟨s.elems.filter p, s.nodup.filter p⟩

end FrozenSet

/-- A `ModelId`, up to `__eq__`. -/
structure ModelId where
  normalized : String
  backendType : Option String
  deriving DecidableEq

def ModelId.routingKey (m : ModelId) : String := m.normalized

/-- A model that is to be placed. The footprint that the placement suggests is only logged: the
gateway's own figures are used in its stead. -/
structure Placement where
  modelId : ModelId

/-- `ModelDetails`, with the keys that resource checks read. -/
structure ModelDetails where
  vramUsage : Option ℤ
  ramUsage : Option ℤ

/-- A `Gateway`. The times of loading are clock readings, which are finite. -/
structure Gateway where
  name : String
  ramFreeMb : ℤ
  vramFreeMb : ℤ
  ramTotalMb : ℤ
  vramTotalMb : ℤ
  loadedModels : FrozenSet ModelId
  busyModels : FrozenSet ModelId
  loadingModels : FrozenSet ModelId
  modelDetails : Dict ModelId ModelDetails
  modelMeasuredVram : Dict ModelId ℤ
  modelLoadedAt : Dict ModelId ℚ

/-- `resource_margins`, where `None` is the same as the empty dictionary. -/
abbrev Margins := Dict String Number

def Gateway.getModelResourceUsage (g : Gateway) (m : ModelId) : ℤ × ℤ :=
  match g.modelDetails.get? m with
  | some details => (details.vramUsage.getD 0, details.ramUsage.getD 0)
  | none => (0, 0)

/-! ## The models of the retrieval workload -/

/-- The models that `pipelines/rag/models.yaml` and `pipelines/rag_contextualize/models.yaml` name: the
embedding model, parsed, and the routing key of the contextualize model. -/
structure RagModels where
  embedding : Option ModelId
  contextualizeRoutingKey : Option String

def RagModels.isRagProtectedModel (rag : RagModels) (m : ModelId) : Bool :=
  rag.embedding.any (fun emb => m == emb || m.routingKey == emb.routingKey) ||
    rag.contextualizeRoutingKey.any fun key => key != "" && m.routingKey == key

/-! ## Busy and idle models -/

/-- `_is_model_actually_busy`, with the routing keys in flight on the gateway where they are tracked. -/
def isModelActuallyBusy (g : Gateway) (keysInFlight : Option (List String)) (m : ModelId) : Bool :=
  match keysInFlight with
  | some keys => keys.contains m.routingKey
  | none => decide (m ∈ g.busyModels)

def actuallyBusyModels (g : Gateway) (keysInFlight : Option (List String)) : List ModelId :=
  g.loadedModels.elems.filter (isModelActuallyBusy g keysInFlight)

def idleModels (g : Gateway) (keysInFlight : Option (List String)) : List ModelId :=
  g.loadedModels.elems.filter fun m =>
    !(actuallyBusyModels g keysInFlight).contains m && decide (m ∉ g.loadingModels)

theorem mem_idleModels {g : Gateway} {keysInFlight : Option (List String)} {m : ModelId} :
    m ∈ idleModels g keysInFlight ↔
      m ∈ g.loadedModels ∧ isModelActuallyBusy g keysInFlight m = false ∧ m ∉ g.loadingModels := by
  have hmem : m ∈ g.loadedModels ↔ m ∈ g.loadedModels.elems := Iff.rfl
  rw [idleModels, List.mem_filter, hmem]
  simp only [actuallyBusyModels, Bool.and_eq_true, Bool.not_eq_true', decide_eq_true_eq,
    List.contains_eq_mem, List.mem_filter, decide_eq_false_iff_not, not_and, Bool.not_eq_true]
  tauto

end LlmGateway.Eviction
