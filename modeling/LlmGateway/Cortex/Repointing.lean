import LlmGateway.Cortex.References
import LlmGateway.Cortex.Redirects
import LlmGateway.Cortex.WriteOnce

/-!
# Rekey and merge repoint what refers to an entity

A rekey leaves the entity at its new id with all rows of the child tables (`Rekeyed`); a merge leaves them with
its target (`MergedInto`). `mergedEvent_not_kept` is a merge that drops a membership in an event chain.
-/

namespace LlmGateway.Cortex

variable {ρ : Type}

/-! ## The aliases of a moved entity -/

variable {newId now oldId ref sourceId targetId text : String} {row : Entity} {s s' : Store ρ}
  {failure : Option Error} {T : Text}

theorem mem_addAlias {ordered : List String} {value : String} :
    text ∈ addAlias ordered value ↔ text ∈ ordered ∨ (text = Json.strip value ∧ text ≠ "") := by
  unfold addAlias
  dsimp only
  split
  · rename_i h
    rw [Bool.or_eq_true, decide_eq_true_eq, List.contains_iff_mem] at h
    constructor
    · exact .inl
    · rintro (h' | ⟨rfl, hne⟩)
      · exact h'
      · exact h.resolve_left hne
  · rename_i h
    rw [Bool.or_eq_true, decide_eq_true_eq, not_or] at h
    rw [List.mem_append, List.mem_singleton]
    constructor
    · rintro (h' | rfl)
      · exact .inl h'
      · exact .inr ⟨rfl, h.1⟩
    · rintro (h' | ⟨rfl, -⟩)
      · exact .inl h'
      · exact .inr rfl

theorem mem_indexedAliases {aliases : List String} {value : String} (h : value ∈ aliases)
    (hne : Json.strip value ≠ "") (name : Option String) : Json.strip value ∈ indexedAliases name aliases := by
  have hloop : ∀ (l ordered : List String), Json.strip value ∈ ordered ∨ value ∈ l →
      Json.strip value ∈ l.foldl addAlias ordered := by
    intro l
    induction l with
    | nil => exact fun ordered hmem => hmem.resolve_right List.not_mem_nil
    | cons a l ih =>
      intro ordered hmem
      refine ih _ ?_
      rw [mem_addAlias]
      obtain hmem | hmem := hmem
      · exact .inl (.inl hmem)
      · obtain rfl | hmem := List.mem_cons.1 hmem
        · exact .inl (.inr ⟨rfl, hne⟩)
        · exact .inr hmem
  exact hloop aliases _ (.inr h)

theorem mem_existingAliasList :
    text ∈ existingAliasList row oldId ↔ text ∈ oldId :: row.aliases := by
  unfold existingAliasList
  split
  · rename_i h
    rw [List.contains_iff_mem] at h
    rw [List.mem_cons]
    exact ⟨.inr, fun h' => h'.elim (fun heq => heq ▸ h) id⟩
  · rw [List.mem_append, List.mem_singleton, List.mem_cons, or_comm]

theorem mem_matchingAliases {row : AliasRow} :
    row ∈ matchingAliases s ref ↔ row ∈ s.entityAliases ∧ answers ref row.entityType row.aliasText = true := by
  unfold matchingAliases
  rw [List.mem_mergeSort, List.mem_filter]
  rfl

theorem resolvesTo_of_aliases {id : String} (hnone : s.entities.get? ref = none)
    (hsome : ∃ row ∈ s.entityAliases, answers ref row.entityType row.aliasText = true)
    (hall : ∀ row ∈ s.entityAliases, answers ref row.entityType row.aliasText = true → row.entityId = id) :
    ResolvesTo s ref id := by
  intro label fileRefusal
  have hids : ∀ row ∈ matchingAliases s ref, row.entityId = id := fun row hrow =>
    hall row (mem_matchingAliases.1 hrow).1 (mem_matchingAliases.1 hrow).2
  obtain ⟨row₀, hrow₀, hanswers⟩ := hsome
  have hmem : row₀ ∈ matchingAliases s ref := mem_matchingAliases.2 ⟨hrow₀, hanswers⟩
  simp only [resolveEntityReference, hnone]
  rcases hmatch : matchingAliases s ref with _ | ⟨row, rows⟩
  · rw [hmatch] at hmem
    cases hmem
  · rw [hmatch] at hids
    have hhead := hids row List.mem_cons_self
    have hsame : (rows.all fun other => other.entityId == row.entityId) = true := by
      refine List.all_eq_true.2 fun other hother => beq_iff_eq.2 ?_
      rw [hids other (List.mem_cons_of_mem _ hother), hhead]
    exact ⟨⟨row.entityId, some row⟩, by simp [hsame], hhead⟩

theorem not_resolvesTo_of_aliases (hnone : s.entities.get? ref = none)
    (hall : ∀ row ∈ s.entityAliases, answers ref row.entityType row.aliasText = false) (id : String) :
    ¬ ResolvesTo s ref id := by
  intro h
  have hmatch : matchingAliases s ref = [] := by
    refine List.eq_nil_iff_forall_not_mem.2 fun row hrow => ?_
    obtain ⟨hmem, hanswers⟩ := mem_matchingAliases.1 hrow
    rw [hall row hmem] at hanswers
    cases hanswers
  obtain ⟨out, hout, -⟩ := h "" none
  simp [resolveEntityReference, hnone, hmatch] at hout

/-! ## Rekey -/

/-- What the transaction leaves. -/
structure Relabelled (row : Entity) (oldId newId : String) (s s' : Store ρ) : Prop where
  entities : ∃ row', row'.lifecycle = row.lifecycle ∧
    s'.entities = (s.entities.erase oldId).set newId row'
  entityAliases : s'.entityAliases = syncEntityAliases
    (s.entityAliases.map fun a => if a.entityId = oldId then { a with entityId := newId } else a)
    newId row.type none (existingAliasList row oldId) row.lifecycle
  assertions : ∀ i, s'.assertions.get? i = (s.assertions.get? i).map (Assertion.relabel oldId newId)

theorem moveEntity_relabels
    (h : moveEntity s row oldId newId row.type now failure = .ok s') : Relabelled row oldId newId s s' := by
  simp only [moveEntity, bind_eq_ok] at h
  obtain ⟨t, ht, -, -, hs'⟩ := h
  obtain rfl := Except.ok.inj hs'
  refine ⟨⟨{ row with aliases := existingAliasList row oldId, updatedAt := now }, rfl, rfl⟩, rfl, fun i => ?_⟩
  dsimp only
  rw [get?_rewriteAssertionEvidenceUris, (updateIndexed_eq_ok.1 ht).2, Table.get?_update, Option.map_map]
  congr 1
  funext r
  simp only [Function.comp_apply, Assertion.relabel, beq_iff_eq]
  split <;> rfl

theorem Relabelled.resolvesTo (h : Relabelled row oldId newId s s') (hlive : nonLiveLifecycle row.lifecycle = false)
    (halone : AnswersAlone s ref oldId) (htext : text ∈ oldId :: row.aliases)
    (hne : Json.strip text ≠ "") (hanswers : answers ref row.type (Json.strip text) = true) :
    ResolvesTo s' ref newId := by
  obtain ⟨row', hlifecycle, hentities⟩ := h.entities
  by_cases hnew : ref = newId
  · intro label fileRefusal
    subst hnew
    have hlive' : Live s' ref := by
      refine ⟨row', by rw [hentities, Dict.get?_set_self], fun hmerged => ?_⟩
      rw [← hlifecycle, hmerged] at hlive
      cases hlive
    exact ⟨⟨ref, none⟩, resolveEntityReference_live hlive' .., rfl⟩
  have hnone : s'.entities.get? ref = none := by
    rw [hentities, Dict.get?_set_ne _ hnew, Dict.get?_erase]
    split
    · rfl
    · rename_i hold
      exact halone.ids hold
  have haliases := h.entityAliases
  rw [syncEntityAliases, hlive, if_neg Bool.false_ne_true] at haliases
  refine resolvesTo_of_aliases hnone ⟨⟨newId, row.type, Json.strip text⟩, ?_, hanswers⟩ fun a ha hans => ?_
  · rw [haliases]
    have hmem := mem_indexedAliases (mem_existingAliasList.2 htext) hne none
    exact List.mem_append_right _ (List.mem_map_of_mem hmem)
  · rw [haliases, List.mem_append] at ha
    obtain ha | ha := ha
    · -- A row that is kept belongs to another entity, which does not answer the reference.
      obtain ⟨ha, -⟩ := List.mem_filter.1 ha
      obtain ⟨a₀, ha₀, rfl⟩ := List.mem_map.1 ha
      split at hans <;> rename_i hold
      · exact if_pos hold ▸ rfl
      · exact absurd (halone.aliases a₀ ha₀ hans) hold
    · obtain ⟨_, -, rfl⟩ := List.mem_map.1 ha
      rfl

theorem Relabelled.assertionsKept
    (h : Relabelled row oldId newId s s') (T : Text) : AssertionsKept T s s' oldId newId := by
  intro i r hr hold hactive
  refine ⟨i, Assertion.relabel oldId newId r, ?_, if_pos hold, hactive, .inl ⟨rfl, rfl⟩⟩
  rw [h.assertions, hr, Option.map_some]

theorem get?_update_all {α : Type} {t : Table α} {i : ℕ} {r : α} (h : t.get? i = some r) (f : α → α) :
    (t.update (fun _ _ => true) f).get? i = some (f r) := by
  simp [Table.get?_update, h]

theorem chainRoots_rename {c c' : Surfaces} {old new : String}
    (h : c'.eventChains = c.eventChains.map (EventChain.rename old new)) : ChainRootsKept c c' old new := by
  intro chain hchain hroot
  rw [h]
  refine List.mem_map.2 ⟨chain, hchain, ?_⟩
  rw [EventChain.rename, hroot, Option.map_some, renameId_self]

/-- **A rekey**, entity and child tables. -/
theorem entityRekey_rekeyed {s s' : EntityStore ρ} {id : String}
    (h : entityRekey s oldId newId now failure = .ok (id, s')) :
    Rekeyed T s s' oldId id := by
  unfold entityRekey at h
  rcases himpl : entityRekeyImpl s.store oldId newId now failure with e | ⟨id', store⟩
  · rw [himpl] at h
    cases h
  rw [himpl] at h
  dsimp only at h
  rcases hsurfaces : s.surfaces.rekey oldId id' with e | c'
  · rw [hsurfaces] at h
    cases h
  rw [hsurfaces] at h
  obtain ⟨rfl, rfl⟩ := Prod.mk.inj (Except.ok.inj h)
  simp only [entityRekeyImpl, bind_eq_ok, Except.ok.injEq, Prod.mk.injEq] at himpl
  obtain ⟨⟨row, id'⟩, htarget, store', hmove, rfl, rfl⟩ := himpl
  obtain ⟨hrow, hfree, -⟩ := rekeyTarget_ok htarget
  have hne : oldId ≠ id' := by
    rintro rfl
    exact Option.some_ne_none row (hrow.symm.trans hfree)
  have hstore := moveEntity_relabels hmove
  obtain ⟨d, hd, hc'⟩ := bind_eq_ok.1 hsurfaces
  obtain rfl := Except.ok.inj hc'
  constructor
  case references =>
    intro row' hrow' hlive ref halone text htext hstrip hanswers
    obtain rfl := Option.some.inj (hrow.symm.trans hrow')
    exact hstore.resolvesTo hlive halone htext hstrip hanswers
  case assertions => exact hstore.assertionsKept T
  case relationships =>
    intro i r hr hactive _
    exact ⟨i, r.rename oldId id', get?_update_all hr _, (activeAt_iff.1 hactive).1, rfl⟩
  case tags =>
    intro i r hr hold
    exact ⟨i, r.rename oldId id', get?_update_all hr _, if_pos hold, rfl⟩
  case surfaceForms =>
    intro i r hr hold
    exact ⟨i, r.rename oldId id', get?_update_all hr _, if_pos hold, rfl, rfl⟩
  case memberships =>
    intro m hm hold
    refine List.mem_map.2 ⟨m, hm, ?_⟩
    rw [ChainMember.rename, hold, renameId_self]
  case chainRoots => exact chainRoots_rename rfl
  case access => exact ⟨renameSummary_counts hne hd, countP_rename hne _⟩

/-! ## Merge -/

theorem Merged.assertionsKept (h : Merged T s sourceId targetId now s') (hne : sourceId ≠ targetId) :
    AssertionsKept T s s' sourceId targetId := by
  intro i r hr hold hactive
  have hactive : r.supersededBy = none := Option.isNone_iff_eq_none.1 hactive
  have hrow := h.assertions i
  rw [hr, Option.map_some, Assertion.mergeInto, if_pos ⟨hold, hactive⟩] at hrow
  rcases hv : (targetByHash s.assertions targetId).get? (computeClaimHash T targetId r.claim) with _ | v
  · rw [hv] at hrow
    exact ⟨i, _, hrow, rfl, Option.isNone_iff_eq_none.2 hactive, .inl ⟨rfl, rfl⟩⟩
  · -- The target's assertion with the hash stays active.
    obtain ⟨r₀, hr₀, hent, hact, hhash⟩ := targetByHash_spec hv
    have hrow₀ := h.assertions v
    have hother : ¬ (r₀.entityId = sourceId ∧ r₀.supersededBy = none) := fun h' => hne (h'.1.symm.trans hent)
    rw [hr₀, Option.map_some, Assertion.mergeInto, if_neg hother] at hrow₀
    exact ⟨v, _, hrow₀, hent, Option.isNone_iff_eq_none.2 hact, .inr hhash⟩

theorem Merged.resolvesTo
    (h : Merged T s sourceId targetId now s') (htarget : targetId ≠ "") : ResolvesTo s' sourceId targetId := by
  intro label fileRefusal
  obtain ⟨source, -, hentities⟩ := h.entities
  have hself : s'.entities.get? sourceId = some (tombstone source targetId now) := by
    rw [hentities, Dict.get?_set_self]
  refine ⟨_, resolveEntityReference_merged hself rfl .., ?_⟩
  rw [mergedIntoTarget_tombstone source htarget, Option.getD_some]

/-- **A merge**, entity and child tables. -/
theorem entityMerge_mergedInto {s s' : EntityStore ρ} (h : entityMerge T s sourceId targetId now failure = .ok s') :
    MergedInto T s s' sourceId targetId := by
  obtain ⟨-, e, herr⟩ | ⟨haccepted, store, hok, hmerged⟩ :=
    entityMergeImpl_cases T s.store sourceId targetId now failure
  · rw [entityMerge, herr] at h
    cases h
  rw [entityMerge, hok] at h
  obtain rfl := Except.ok.inj h
  have hne := haccepted.differ
  constructor
  case references => exact hmerged.resolvesTo
  case assertions => exact hmerged.assertionsKept hne
  case relationships => exact mergeRelationships_kept hne rfl
  case tags => exact mergeTags_kept hne rfl
  case surfaceForms => exact mergeSurfaceForms_kept hne rfl
  case memberships =>
    intro m hm
    exact bne_iff_ne.1 (List.mem_filter.1 hm).2
  case chainRoots => exact chainRoots_rename rfl
  case access => exact ⟨mergeAccessSummary_counts hne rfl, countP_rename hne _⟩

/-- **References after a rekey and a merge.** -/
theorem entity_references_repointed (T : Text) (s : EntityStore ρ) :
    (∀ oldId newId now failure id s', entityRekey s oldId newId now failure = .ok (id, s') →
      Rekeyed T s s' oldId id) ∧
    ∀ sourceId targetId now failure s', entityMerge T s sourceId targetId now failure = .ok s' →
      MergedInto T s s' sourceId targetId :=
  ⟨fun _ _ _ _ _ _ => entityRekey_rekeyed, fun _ _ _ _ _ => entityMerge_mergedInto⟩

/-- Two events of which one belongs to a chain. -/
def twoEvents : EntityStore Unit where
  store := {
    entities := ((∅ : Dict String Entity).set "event:launch"
      { type := "event", name := "Launch", lifecycle := some .active, attributes := [], aliases := ["lift-off"],
        updatedAt := "2026-01-01T00:00:00Z" }).set "event:release"
      { type := "event", name := "Release", lifecycle := some .active, attributes := [], aliases := [],
        updatedAt := "2026-01-01T00:00:00Z" }
    entityAliases := [⟨"event:launch", "event", "Launch"⟩, ⟨"event:launch", "event", "lift-off"⟩]
    assertions := ∅
    sessionEdges := ∅ }
  surfaces := {
    relationships := (∅ : Table Relationship).insert ⟨"precedes", "event:launch", "event:release", true, none⟩
    tagAssignments := ∅
    surfaceForms := ∅
    eventChainMembers := [⟨"chain:rollout", "event:launch"⟩]
    eventChains := [⟨"chain:rollout", some "event:launch"⟩]
    accessLog := []
    accessSummary := ∅ }

theorem twoEvents_repointed :
    (∃ s', entityRekey twoEvents "event:launch" "kickoff" "2026-01-02T00:00:00Z" none =
        .ok ("event:kickoff", s') ∧ Rekeyed asciiText twoEvents s' "event:launch" "event:kickoff") ∧
      ∃ s', entityMerge asciiText twoEvents "event:launch" "event:release" "2026-01-02T00:00:00Z" none = .ok s' ∧
        MergedInto asciiText twoEvents s' "event:launch" "event:release" :=
  ⟨⟨_, rfl, (entity_references_repointed asciiText twoEvents).1 "event:launch" "kickoff"
      "2026-01-02T00:00:00Z" none _ _ rfl⟩,
    ⟨_, rfl, (entity_references_repointed asciiText twoEvents).2 "event:launch" "event:release"
      "2026-01-02T00:00:00Z" none _ rfl⟩⟩

theorem merge_twoEvents_loses :
    ∃ s', entityMerge asciiText twoEvents "event:launch" "event:release" "2026-01-02T00:00:00Z" none = .ok s' ∧
      ¬ MembershipsKept twoEvents.surfaces s'.surfaces "event:launch" "event:release" ∧
      ¬ RelationshipsKept twoEvents.surfaces s'.surfaces "event:launch" "event:release" (fun _ => True) ∧
      ¬ ∀ ref, ResolvesTo twoEvents.store ref "event:launch" → ResolvesTo s'.store ref "event:release" := by
  refine ⟨_, rfl, fun h => ?_, fun h => ?_, fun h => ?_⟩
  · exact absurd (h ⟨"chain:rollout", "event:launch"⟩ (by decide) rfl) (by decide)
  · obtain ⟨j, r', hr', hactive, -⟩ := h 1 ⟨"precedes", "event:launch", "event:release", true, none⟩
      rfl (by decide) trivial
    have hclosed : ∀ e ∈ (mergeRelationships twoEvents.surfaces.relationships "event:launch" "event:release"
        "2026-01-02T00:00:00Z").rows.items, e.2.active = false := by decide
    rw [hclosed (j, r') (Dict.mem_items_iff.2 hr')] at hactive
    cases hactive
  · refine not_resolvesTo_of_aliases (by decide) (by decide) _ (h "lift-off" ?_)
    exact resolvesTo_of_aliases (by decide) (by decide) (by decide)

theorem twoEvents_not_kept :
    ¬ ∀ s', entityMerge asciiText twoEvents "event:launch" "event:release" "2026-01-02T00:00:00Z" none = .ok s' →
      ReferencesKept asciiText twoEvents s' "event:launch" "event:release" := by
  intro h
  obtain ⟨s', hs', hlost, -⟩ := merge_twoEvents_loses
  exact hlost (h s' hs').memberships

end LlmGateway.Cortex
