import LlmGateway.Foundations.Fallible
import LlmGateway.Pipeline.MapExecution

/-!
# Which map outputs are aligned with their iterations

The outputs of a map step pass through sets of tasks and a dictionary by index, lose the gaps of the iterations that
failed, and get them back. They come back where they were, and under their keys, in all modes of execution
(`aligned_collection`), but for one case: an empty list of positions counts as none, and then `outputs_aligned` has no
gaps at all. `executeMap_aligned_iff` says that this is the only one.
-/

namespace LlmGateway.Pipeline.MapReduce

variable {Output : Type} {keys : List (Option String)} {results : Dict ℕ Output} {outcome : ℕ → TaskOutcome Output}
  {batches : List (List ℕ)} {pending : List ℕ} {config : MapConfig} {coll : MapOutputCollection Output}

/-- **The collection is aligned**: at the place of an iteration, and under its key, is its output, if it succeeded. -/
structure Aligned (coll : MapOutputCollection Output) (keys : List (Option String)) (success : ℕ → Option Output) :
    Prop where
  aligned : coll.outputsAligned = some ((List.range keys.length).map success)
  keyed : ∀ i key, keys[i]? = some (some key) → coll.getOutputByKey key = success i

/-- How the iterations of a map end: each of them once, and where it stalls there is a timeout. -/
structure Schedule (config : MapConfig) (total : ℕ) (batches : List (List ℕ)) (pending : List ℕ) : Prop where
  perm : (batches.flatten ++ pending).Perm (List.range total)
  stalls : pending = [] ∨
    config.failFast = false ∧ (config.timeoutSeconds.isSome || config.inferenceTimeoutSeconds.isSome) = true

/-- The collection of the outputs there are. -/
def collectionOf (keys : List (Option String)) (results : Dict ℕ Output)
    (failedHints : Option (List FailedIterationHint)) : MapOutputCollection Output :=
  let outcome := accept keys results failedHints
  .new outcome.outputs (some outcome.outputKeys) (some outcome.outputPositions) (some keys.length) failedHints

/-! ## The collection -/

section Collection

variable {failedHints : Option (List FailedIterationHint)}

theorem getOutputByKey_collection (hkeys : MapOutputCollection.DistinctKeys keys) {i : ℕ} {key : String}
    (hkey : keys[i]? = some (some key)) : (collectionOf keys results failedHints).getOutputByKey key = results.get? i := by
  set entries := orderedSuccessfulOutputs (iterationMetadata keys) results with hentries
  have hmap : (collectionOf keys results failedHints).keyMap.get? key =
      (entries.map fun e => e.2.1).idxOf? (some key) :=
    MapOutputCollection.keyMapOf_get? (distinctKeys_ordered hkeys) key
  show ((collectionOf keys results failedHints).keyMap.get? key).bind _ = _
  rw [hmap]
  cases hidx : (entries.map fun e => e.2.1).idxOf? (some key) with
  | none =>
    -- the key of an iteration that has an output is among the keys
    cases hresult : results.get? i with
    | none => rfl
    | some output =>
      have hmem : (output, some key, i) ∈ entries := mem_orderedSuccessfulOutputs.2 ⟨hkey, hresult⟩
      have hnot : some key ∉ entries.map fun e => e.2.1 := List.idxOf?_eq_none_iff.1 hidx
      exact (hnot (List.mem_map.2 ⟨_, hmem, rfl⟩)).elim
  | some j =>
    obtain ⟨hj, hat, -⟩ := List.idxOf?_eq_some_iff.1 hidx
    rw [List.length_map] at hj
    obtain ⟨⟨output, key', i'⟩, he⟩ : ∃ e, entries[j]? = some e := ⟨_, List.getElem?_eq_getElem hj⟩
    have hmem := List.mem_of_getElem? he
    rw [List.getElem_map, (List.getElem?_eq_some_iff.1 he).2] at hat
    obtain rfl : key' = some key := hat
    obtain ⟨hkey', hresult⟩ := mem_orderedSuccessfulOutputs.1 hmem
    -- no other iteration has this key
    have hsame : i' = i := hkeys.inj hkey' hkey
    rw [Option.bind_some, ← hsame, hresult]
    show (entries.map fun e => e.1)[j]? = some output
    rw [List.getElem?_map, he]
    rfl

theorem outputsAligned_collection (hne : orderedSuccessfulOutputs (iterationMetadata keys) results ≠ []) :
    (collectionOf keys results failedHints).outputsAligned = some ((List.range keys.length).map results.get?) := by
  set entries := orderedSuccessfulOutputs (iterationMetadata keys) results with hentries
  have hpositions : (collectionOf keys results failedHints).outputPositions = some (entries.map fun e => e.2.2) := by
    show (some (entries.map fun e => e.2.2)).filter (· ≠ []) = _
    simp [Option.filter, hne]
  have hzip : (entries.map fun e => e.2.2).zip (entries.map fun e => e.1) = entries.map fun e => (e.2.2, e.1) :=
    List.zip_map'
  have hmem (i : ℕ) (output : Output) : (i, output) ∈ entries.map (fun e => (e.2.2, e.1)) ↔
      i < keys.length ∧ results.get? i = some output := by
    simp only [List.mem_map, Prod.mk.injEq]
    constructor
    · rintro ⟨⟨_, key, _⟩, he, rfl, rfl⟩
      obtain ⟨hkey, hresult⟩ := mem_orderedSuccessfulOutputs.1 he
      exact ⟨(List.getElem?_eq_some_iff.1 hkey).1, hresult⟩
    · rintro ⟨hlt, hresult⟩
      exact ⟨(output, keys[i], i), mem_orderedSuccessfulOutputs.2 ⟨List.getElem?_eq_getElem hlt, hresult⟩, rfl, rfl⟩
  obtain ⟨l, hplace, hlength, hat, helse⟩ := MapOutputCollection.place_eq (entries.map fun e => (e.2.2, e.1))
    (List.replicate keys.length none) (by
      rintro ⟨i, output⟩ he
      rw [List.length_replicate]
      exact ((hmem i output).1 he).1) (by
      rw [List.map_map]
      exact nodup_positions)
  rw [MapOutputCollection.outputsAligned, hpositions]
  show (if (entries.map fun e => e.2.2).length = (entries.map fun e => e.1).length then
    MapOutputCollection.place (List.replicate keys.length none)
      ((entries.map fun e => e.2.2).zip (entries.map fun e => e.1)) else none) = _
  rw [if_pos (by simp), hzip, hplace]
  refine congrArg some (List.ext_getElem? fun i => ?_)
  rw [List.length_replicate] at hlength
  by_cases hlt : i < keys.length
  · rw [List.getElem?_map, List.getElem?_range hlt, Option.map_some]
    cases hresult : results.get? i with
    | some output => exact hat i output ((hmem i output).2 ⟨hlt, hresult⟩)
    | none =>
      rw [helse i, List.getElem?_replicate, if_pos hlt]
      intro hin
      obtain ⟨⟨_, output⟩, he, rfl⟩ := List.mem_map.1 hin
      have := ((hmem _ output).1 he).2
      rw [hresult] at this
      cases this
  · rw [List.getElem?_eq_none (by omega), List.getElem?_eq_none (by simpa using hlt)]

theorem outputsAligned_of_empty (hnil : orderedSuccessfulOutputs (iterationMetadata keys) results = []) :
    (collectionOf keys results failedHints).outputsAligned = some [] := by
  simp [collectionOf, accept, hnil, MapOutputCollection.new, MapOutputCollection.outputsAligned, Option.filter]

theorem ordered_ne_nil_iff : orderedSuccessfulOutputs (iterationMetadata keys) results ≠ [] ↔
    ∃ i < keys.length, (results.get? i).isSome = true := by
  constructor
  · intro hne
    obtain ⟨⟨output, key, i⟩, he⟩ := List.exists_mem_of_ne_nil _ hne
    obtain ⟨hkey, hresult⟩ := mem_orderedSuccessfulOutputs.1 he
    exact ⟨i, (List.getElem?_eq_some_iff.1 hkey).1, by rw [hresult]; rfl⟩
  · rintro ⟨i, hlt, hsome⟩
    obtain ⟨output, hresult⟩ := Option.isSome_iff_exists.1 hsome
    exact List.ne_nil_of_mem (mem_orderedSuccessfulOutputs.2 ⟨List.getElem?_eq_getElem hlt, hresult⟩)

theorem aligned_collection_iff (hkeys : MapOutputCollection.DistinctKeys keys) (hpos : keys ≠ []) :
    Aligned (collectionOf keys results failedHints) keys results.get? ↔
      ∃ i < keys.length, (results.get? i).isSome = true := by
  rw [← ordered_ne_nil_iff]
  constructor
  · intro h hnil
    have hempty : (collectionOf keys results failedHints).outputsAligned = some [] := outputsAligned_of_empty hnil
    rw [h.aligned] at hempty
    have hlength := congrArg List.length (Option.some.inj hempty)
    rw [List.length_map, List.length_range, List.length_nil] at hlength
    exact hpos (List.length_eq_zero_iff.1 hlength)
  · exact fun hne => ⟨outputsAligned_collection hne, fun i key hkey => getOutputByKey_collection hkeys hkey⟩

end Collection

/-! ## The modes -/

theorem failFastLoop_eq_ok {total : ℕ} {threshold : Threshold} {done done' : List ℕ}
    (h : failFastLoop total threshold outcome done batches = .ok done') : done' = done ++ batches.flatten := by
  induction batches generalizing done with
  | nil =>
    obtain rfl := Except.ok.inj h
    rw [List.flatten_nil, List.append_nil]
  | cons batch batches ih =>
    simp only [failFastLoop] at h
    split_ifs at h
    rw [ih h, List.flatten_cons, List.append_assoc]

theorem map_ordered {β : Type} {metadata : List (ℕ × Option String)} (g : Output × Option String × ℕ → β)
    (g' : ℕ × Option String → Option β)
    (h : ∀ e ∈ metadata, (results.get? e.1).map (fun output => g (output, e.2, e.1)) = g' e) :
    (orderedSuccessfulOutputs metadata results).map g = metadata.filterMap g' := by
  rw [orderedSuccessfulOutputs, List.map_filterMap]
  refine List.filterMap_congr fun e he => ?_
  rw [Option.map_map]
  exact h e he

theorem gathered_eq (hperm : batches.flatten.Perm (List.range keys.length))
    {outputs : List Output} (h : gatherOutputs keys.length outcome batches.flatten = .ok outputs) :
    (⟨outputs, keys, List.range keys.length, none⟩ : MapOutcome Output) =
      accept keys (resultsByIndex outcome batches.flatten) none := by
  have hgathered : (∀ i ∈ batches.flatten, (outcome i).output?.isSome = true) ∧
      outputs = (List.range keys.length).filterMap fun i => (outcome i).output? := by
    simp only [gatherOutputs] at h
    split at h
    · rename_i hfind
      refine ⟨fun i hi => ?_, (Except.ok.inj h).symm⟩
      have hsome := List.find?_eq_none.1 hfind i hi
      rwa [Option.isNone_iff_eq_none, ← ne_eq, Option.ne_none_iff_isSome] at hsome
    · split at h <;> cases h
  have hresult : ∀ e ∈ iterationMetadata keys, ∃ output, (outcome e.1).output? = some output ∧
      (resultsByIndex outcome batches.flatten).get? e.1 = some output := by
    intro e he
    have hlt := (List.getElem?_eq_some_iff.1 (mem_iterationMetadata.1 he)).1
    have hmem := hperm.mem_iff.2 (List.mem_range.2 hlt)
    obtain ⟨output, houtput⟩ := Option.isSome_iff_exists.1 (hgathered.1 _ hmem)
    exact ⟨output, houtput, by rw [resultsByIndex_get?, if_pos hmem, houtput]⟩
  have houtputs : outputs = (accept keys (resultsByIndex outcome batches.flatten) none).outputs := by
    rw [hgathered.2, ← map_fst_iterationMetadata, List.filterMap_map]
    refine (map_ordered (fun e => e.1) _ fun e he => ?_).symm
    obtain ⟨output, houtput, hget⟩ := hresult e he
    rw [hget, Function.comp_apply, houtput]
    rfl
  have hkeys : keys = (accept keys (resultsByIndex outcome batches.flatten) none).outputKeys := by
    refine Eq.trans ?_ (map_ordered (fun e => e.2.1) (fun e => some e.2) fun e he => ?_).symm
    · show _ = (iterationMetadata keys).filterMap (some ∘ Prod.snd)
      rw [List.filterMap_eq_map, map_snd_iterationMetadata]
    · obtain ⟨output, -, hget⟩ := hresult e he
      rw [hget]
      rfl
  have hpositions : List.range keys.length = (accept keys (resultsByIndex outcome batches.flatten) none).outputPositions := by
    refine Eq.trans ?_ (map_ordered (fun e => e.2.2) (fun e => some e.1) fun e he => ?_).symm
    · show _ = (iterationMetadata keys).filterMap (some ∘ Prod.fst)
      rw [List.filterMap_eq_map, map_fst_iterationMetadata]
    · obtain ⟨output, -, hget⟩ := hresult e he
      rw [hget]
      rfl
  have heta (a b : MapOutcome Output) (h₁ : a.outputs = b.outputs) (h₂ : a.outputKeys = b.outputKeys)
      (h₃ : a.outputPositions = b.outputPositions) (h₄ : a.failedHints = b.failedHints) : a = b := by
    cases a
    cases b
    congr
  exact heta _ _ houtputs hkeys hpositions rfl

/-- **All modes collect the outputs there are.** -/
theorem executeMap_eq_ok (hpos : keys.length ≠ 0) (hschedule : Schedule config keys.length batches pending)
    (h : executeMap config keys outcome batches pending = .ok coll) :
    ∃ failedHints, coll = collectionOf keys (resultsByIndex outcome batches.flatten) failedHints := by
  rw [executeMap, if_neg hpos] at h
  obtain ⟨result, hresult, rfl⟩ := map_eq_ok.1 h
  suffices h : ∃ failedHints, result = accept keys (resultsByIndex outcome batches.flatten) failedHints by
    obtain ⟨failedHints, rfl⟩ := h
    exact ⟨failedHints, rfl⟩
  rw [executeMode] at hresult
  split_ifs at hresult with hfast htimeout
  · rw [executeWithFailFast, bind_eq_ok] at hresult
    obtain ⟨done, hdone, hresult⟩ := hresult
    obtain rfl := failFastLoop_eq_ok hdone
    dsimp only at hresult
    split_ifs at hresult
    exact ⟨_, (Except.ok.inj hresult).symm⟩
  · simp only [executeWithTimeout] at hresult
    split_ifs at hresult
    exact ⟨_, (Except.ok.inj hresult).symm⟩
  · obtain ⟨outputs, houtputs, rfl⟩ := map_eq_ok.1 hresult
    have hnil : pending = [] := by
      obtain hnil | ⟨-, hstall⟩ := hschedule.stalls
      · exact hnil
      · exact absurd hstall htimeout
    have hperm := hschedule.perm
    rw [hnil, List.append_nil] at hperm
    exact ⟨none, gathered_eq hperm houtputs⟩

/-- **When the outputs of a map are aligned**: whenever there were no iterations or one of them succeeded. -/
theorem executeMap_aligned_iff (hkeys : MapOutputCollection.DistinctKeys keys)
    (hschedule : Schedule config keys.length batches pending)
    (h : executeMap config keys outcome batches pending = .ok coll) :
    Aligned coll keys (fun i => if i ∈ batches.flatten then (outcome i).output? else none) ↔
      (keys = [] ∨ ∃ i ∈ batches.flatten, (outcome i).output?.isSome = true) := by
  by_cases hpos : keys.length = 0
  · rw [executeMap, if_pos hpos] at h
    obtain rfl := Except.ok.inj h
    obtain rfl := List.length_eq_zero_iff.1 hpos
    exact iff_of_true ⟨rfl, fun i key hkey => by cases hkey⟩ (.inl rfl)
  · obtain ⟨failedHints, rfl⟩ := executeMap_eq_ok hpos hschedule h
    have hne : keys ≠ [] := fun hnil => hpos (by rw [hnil]; rfl)
    have hsuccess : (fun i => if i ∈ batches.flatten then (outcome i).output? else none) =
        (resultsByIndex outcome batches.flatten).get? := funext fun i => (resultsByIndex_get? outcome _ i).symm
    rw [hsuccess, aligned_collection_iff hkeys hne, or_iff_right hne]
    constructor
    · rintro ⟨i, -, hsome⟩
      rw [resultsByIndex_get?] at hsome
      split_ifs at hsome with hmem
      · exact ⟨i, hmem, hsome⟩
      · cases hsome
    · rintro ⟨i, hmem, hsome⟩
      have hrange := hschedule.perm.mem_iff.1 (List.mem_append_left _ hmem)
      exact ⟨i, List.mem_range.1 hrange, by rw [resultsByIndex_get?, if_pos hmem]; exact hsome⟩

/-- Of two iterations the second succeeds, and is done first. -/
def secondOnly (i : ℕ) : TaskOutcome ℕ := if i = 0 then .failed "no" else .succeeded 7

/-- The plain mode, with a count of successes. -/
def plain (n : ℤ) : MapConfig := ⟨false, some 60, none, .count n⟩

theorem executeMap_aligned_secondOnly :
    ∃ coll, executeMap (plain 1) [some "a", some "b"] secondOnly [[1], [0]] [] = .ok coll ∧
      Aligned coll [some "a", some "b"] fun i => if i ∈ [[1], [0]].flatten then (secondOnly i).output? else none := by
  obtain ⟨coll, hcoll⟩ := exists_ok_of_isOk
    (show (executeMap (plain 1) [some "a", some "b"] secondOnly [[1], [0]] []).isOk = true by decide)
  have hdistinct : MapOutputCollection.DistinctKeys [some "a", some "b"] := by
    show (["a", "b"] : List String).Nodup
    decide
  refine ⟨coll, hcoll, (executeMap_aligned_iff hdistinct ⟨?_, .inl rfl⟩ hcoll).2 (.inr ⟨1, ?_, rfl⟩)⟩
  · decide
  · decide

/-- All iterations fail, none is required: two places are wanted, and none is there. -/
theorem all_failed_not_aligned :
    ∃ coll, executeMap (plain 0) [none, none] (fun _ => (.failed "no" : TaskOutcome ℕ)) [[0, 1]] [] = .ok coll ∧
      ¬ Aligned coll [none, none] fun _ => none := by
  refine ⟨_, rfl, fun h => ?_⟩
  have hlength := congrArg (Option.map List.length) h.aligned
  revert hlength
  decide

end LlmGateway.Pipeline.MapReduce
