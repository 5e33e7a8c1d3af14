import Mathlib.Data.List.Nodup
import LlmGateway.Foundations.Dict

/-!
# The outputs of a map step

`map_output_collection.py` and `iteration_output_ordering.py`. A collection holds the outputs of the iterations that
succeeded, without gaps, with the keys of these iterations and, in `output_positions`, their places among all
iterations, from which `outputs_aligned` puts the gaps back in.
-/

namespace LlmGateway.Pipeline.MapReduce

structure FailedIterationHint where
  index : ℕ
  errorMessage : String
  deriving DecidableEq

structure MapOutputCollection (Output : Type*) where
  outputs : List Output
  keys : List (Option String)
  keyMap : Dict String ℕ
  outputPositions : Option (List ℕ)
  totalCount : Option ℕ
  failedIterationHints : Option (List FailedIterationHint)

namespace MapOutputCollection

variable {Output : Type*}

/-- `{k: i for i, k in enumerate(keys) if k is not None}`. -/
def keyMapOf (keys : List (Option String)) : Dict String ℕ :=
  keys.zipIdx.foldl (fun d e => e.1.elim d fun key => d.set key e.2) ∅

/-- `__init__`. An empty list of positions or of hints counts as none. -/
def new (outputs : List Output) (keys : Option (List (Option String))) (outputPositions : Option (List ℕ))
    (totalCount : Option ℕ) (failedIterationHints : Option (List FailedIterationHint)) :
    MapOutputCollection Output :=
  let keys := keys.getD (List.replicate outputs.length none)
  { outputs := outputs
    keys := keys
    keyMap := keyMapOf keys
    outputPositions := outputPositions.filter (· ≠ [])
    totalCount := totalCount
    failedIterationHints := failedIterationHints.filter (· ≠ []) }

variable (c : MapOutputCollection Output)

/-- `aligned[pos] = output`, for all pairs. -/
def place : List (Option Output) → List (ℕ × Output) → Option (List (Option Output))
  | aligned, [] => some aligned
  | aligned, (position, output) :: rest =>
    if position < aligned.length then place (aligned.set position (some output)) rest else none

/-- `outputs_aligned`, unless it raises. -/
def outputsAligned : Option (List (Option Output)) :=
  match c.outputPositions, c.totalCount with
  | some positions, some total =>
    if positions.length = c.outputs.length then place (List.replicate total none) (positions.zip c.outputs) else none
  | _, _ => some (c.outputs.map some)

/-- `get_output`, unless it raises. -/
def getOutput (index : ℤ) : Option Output :=
  let index := if index < 0 then index + c.outputs.length else index
  if index < 0 then none else c.outputs[index.toNat]?

def getOutputByKey (key : String) : Option Output := (c.keyMap.get? key).bind fun i => c.outputs[i]?

end MapOutputCollection

/-- `ordered_successful_outputs`: the outputs there are, with their keys and indices. -/
def orderedSuccessfulOutputs {Output : Type*} (iterationMetadata : List (ℕ × Option String))
    (resultsByIndex : Dict ℕ Output) : List (Output × Option String × ℕ) :=
  iterationMetadata.filterMap fun e => (resultsByIndex.get? e.1).map fun output => (output, e.2, e.1)

/-! ## Keys and places -/

namespace MapOutputCollection

variable {Output : Type*} {keys : List (Option String)}

/-- No key is there twice. -/
def DistinctKeys (keys : List (Option String)) : Prop := (keys.filterMap id).Nodup

theorem keyMap_get? (h : DistinctKeys keys) (d : Dict String ℕ) (n : ℕ) (key : String) :
    ((keys.zipIdx n).foldl (fun d e => e.1.elim d fun key => d.set key e.2) d).get? key =
      if some key ∈ keys then (keys.idxOf? (some key)).map (n + ·) else d.get? key := by
  induction keys generalizing d n with
  | nil => rfl
  | cons k keys ih =>
    rw [List.zipIdx_cons, List.foldl_cons]
    cases k with
    | none =>
      rw [ih (by simpa [DistinctKeys] using h)]
      by_cases hmem : some key ∈ keys
      · simp [hmem, List.idxOf?_cons, Option.map_map, Function.comp_def, Nat.add_assoc, Nat.add_comm 1]
      · simp [hmem]
    | some k =>
      have hnodup : k ∉ keys.filterMap id ∧ (keys.filterMap id).Nodup := by
        simpa [DistinctKeys] using h
      rw [ih hnodup.2]
      by_cases hkey : key = k
      · subst hkey
        have hmem : some key ∉ keys := fun hmem => hnodup.1 (List.mem_filterMap.2 ⟨_, hmem, rfl⟩)
        simp [hmem, List.idxOf?_cons]
      · by_cases hmem : some key ∈ keys
        · simp [hmem, List.idxOf?_cons, Ne.symm hkey, Option.map_map, Function.comp_def, Nat.add_assoc,
            Nat.add_comm 1]
        · simp [hmem, hkey]

theorem DistinctKeys.inj (h : DistinctKeys keys) {i j : ℕ} {key : String} (hi : keys[i]? = some (some key))
    (hj : keys[j]? = some (some key)) : i = j := by
  have hpair := List.pairwise_iff_getElem.1 (List.pairwise_filterMap.1 h)
  obtain ⟨hilt, hi⟩ := List.getElem?_eq_some_iff.1 hi
  obtain ⟨hjlt, hj⟩ := List.getElem?_eq_some_iff.1 hj
  rcases lt_trichotomy i j with hlt | heq | hlt
  · exact (hpair i j hilt hjlt hlt key hi key hj rfl).elim
  · exact heq
  · exact (hpair j i hjlt hilt hlt key hj key hi rfl).elim

theorem keyMapOf_get? (h : DistinctKeys keys) (key : String) :
    (keyMapOf keys).get? key = keys.idxOf? (some key) := by
  rw [keyMapOf, keyMap_get? h]
  by_cases hmem : some key ∈ keys
  · simp [hmem]
  · rw [if_neg hmem, List.idxOf?_eq_none_iff.2 hmem]
    rfl

/-- **What `place` leaves**: the outputs at their positions, and elsewhere what was there. -/
theorem place_eq (entries : List (ℕ × Output)) (aligned : List (Option Output))
    (hlt : ∀ e ∈ entries, e.1 < aligned.length) (hnodup : (entries.map Prod.fst).Nodup) :
    ∃ l, place aligned entries = some l ∧ l.length = aligned.length ∧
      (∀ i output, (i, output) ∈ entries → l[i]? = some (some output)) ∧
      ∀ i, i ∉ entries.map Prod.fst → l[i]? = aligned[i]? := by
  induction entries generalizing aligned with
  | nil => exact ⟨aligned, rfl, rfl, fun _ _ h => (List.not_mem_nil h).elim, fun _ _ => rfl⟩
  | cons e entries ih =>
    obtain ⟨position, output⟩ := e
    rw [List.map_cons, List.nodup_cons] at hnodup
    have hposition : position < aligned.length := hlt _ List.mem_cons_self
    obtain ⟨l, hplace, hlength, hat, helse⟩ := ih (aligned.set position (some output))
      (fun e he => by rw [List.length_set]; exact hlt e (List.mem_cons_of_mem _ he)) hnodup.2
    refine ⟨l, by rw [place, if_pos hposition, hplace], by rw [hlength, List.length_set], ?_, ?_⟩
    · intro i o hmem
      obtain heq | hmem := List.mem_cons.1 hmem
      · obtain ⟨rfl, rfl⟩ := Prod.mk.inj heq
        rw [helse _ hnodup.1, List.getElem?_set_self hposition]
      · exact hat i o hmem
    · intro i hi
      rw [List.map_cons, List.mem_cons, not_or] at hi
      rw [helse i hi.2, List.getElem?_set_ne (Ne.symm hi.1)]

end MapOutputCollection

/-! ## Successful outputs in order -/

section Ordered

variable {Output : Type*} {keys : List (Option String)} {resultsByIndex : Dict ℕ Output} {i : ℕ} {output : Output}
  {key : Option String}

/-- `iteration_metadata`: the iterations are numbered as they come. -/
def iterationMetadata (keys : List (Option String)) : List (ℕ × Option String) := keys.zipIdx.map Prod.swap

theorem mem_iterationMetadata : (i, key) ∈ iterationMetadata keys ↔ keys[i]? = some key := by
  rw [iterationMetadata, List.mem_map]
  constructor
  · rintro ⟨⟨k, j⟩, hmem, heq⟩
    obtain ⟨rfl, rfl⟩ := Prod.mk.inj heq
    exact List.mem_zipIdx_iff_getElem?.1 hmem
  · exact fun h => ⟨(key, i), List.mem_zipIdx_iff_getElem?.2 h, rfl⟩

theorem map_fst_iterationMetadata (keys : List (Option String)) :
    (iterationMetadata keys).map Prod.fst = List.range keys.length := by
  rw [iterationMetadata, List.map_map, List.range_eq_range', ← List.zipIdx_map_snd 0 keys]
  rfl

theorem map_snd_iterationMetadata (keys : List (Option String)) :
    (iterationMetadata keys).map Prod.snd = keys := by
  rw [iterationMetadata, List.map_map]
  exact List.zipIdx_map_fst 0 keys

theorem mem_orderedSuccessfulOutputs :
    (output, key, i) ∈ orderedSuccessfulOutputs (iterationMetadata keys) resultsByIndex ↔
      keys[i]? = some key ∧ resultsByIndex.get? i = some output := by
  rw [orderedSuccessfulOutputs, List.mem_filterMap]
  constructor
  · rintro ⟨⟨j, k⟩, hmem, heq⟩
    simp only [Option.map_eq_some_iff, Prod.mk.injEq] at heq
    obtain ⟨o, ho, rfl, rfl, rfl⟩ := heq
    exact ⟨mem_iterationMetadata.1 hmem, ho⟩
  · rintro ⟨hkey, houtput⟩
    exact ⟨(i, key), mem_iterationMetadata.2 hkey, by rw [houtput]; rfl⟩

theorem sublist_orderedSuccessfulOutputs (resultsByIndex : Dict ℕ Output) (metadata : List (ℕ × Option String)) :
    ((orderedSuccessfulOutputs metadata resultsByIndex).map fun e => (e.2.2, e.2.1)).Sublist metadata := by
  induction metadata with
  | nil => exact List.Sublist.slnil
  | cons e metadata ih =>
    rw [orderedSuccessfulOutputs, List.filterMap_cons]
    cases resultsByIndex.get? e.1 with
    | none => exact ih.cons e
    | some output => exact ih.cons_cons e

theorem nodup_positions :
    ((orderedSuccessfulOutputs (iterationMetadata keys) resultsByIndex).map fun e => e.2.2).Nodup := by
  have hsub := (sublist_orderedSuccessfulOutputs resultsByIndex (iterationMetadata keys)).map Prod.fst
  rw [map_fst_iterationMetadata, List.map_map] at hsub
  exact List.nodup_range.sublist hsub

theorem distinctKeys_ordered (h : MapOutputCollection.DistinctKeys keys) : MapOutputCollection.DistinctKeys
    ((orderedSuccessfulOutputs (iterationMetadata keys) resultsByIndex).map fun e => e.2.1) := by
  have hsub := (sublist_orderedSuccessfulOutputs resultsByIndex (iterationMetadata keys)).map Prod.snd
  rw [map_snd_iterationMetadata, List.map_map] at hsub
  exact List.Nodup.sublist (hsub.filterMap id) h

end Ordered

end LlmGateway.Pipeline.MapReduce
