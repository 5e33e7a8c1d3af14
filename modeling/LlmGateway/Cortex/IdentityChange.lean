import LlmGateway.Cortex.Identity

/-!
# What the identity operations leave

A rekey or a retype that goes through moves the row of the entity and relabels its assertions
(`moveEntity_eq_ok`); their hashes stay as they were. A merge supersedes the source's active assertions
whose claims the target has, moves the others with a new hash (`mergeAssertions_get?`), and tombstones the
source (`entityMergeImpl_eq_ok`).
-/

namespace LlmGateway.Cortex

variable {ρ : Type}

variable {id newId now oldId sourceId targetId : String} {s : Store ρ} {t t' : Table (Assertion ρ)} {T : Text}

theorem loadEntity_eq_ok {e : Entity} :
    loadEntity s id = .ok e ↔ s.entities.get? id = some e := by
  unfold loadEntity
  split <;> simp_all

/-! ## Rekey and retype -/

/-- The evidence tokens of an assertion. -/
def Assertion.rewriteUris (oldId newId : String) (r : Assertion ρ) : Assertion ρ :=
  { r with evidenceUris := r.evidenceUris.map (List.map (rewriteEvidenceToken oldId newId)) }

/-- What a change of id does to an assertion. -/
def Assertion.relabel (oldId newId : String) (r : Assertion ρ) : Assertion ρ :=
  Assertion.rewriteUris oldId newId { r with entityId := if r.entityId = oldId then newId else r.entityId }

theorem get?_rewriteAssertionEvidenceUris (t : Table (Assertion ρ)) (oldId newId : String) (i : ℕ) :
    (rewriteAssertionEvidenceUris t oldId newId).get? i =
      (t.get? i).map (Assertion.rewriteUris oldId newId) := by
  rw [rewriteAssertionEvidenceUris, Table.get?_update]
  congr 1
  funext r
  cases h : r.evidenceUris with
  | none =>
    rw [if_neg (by simp)]
    cases r
    cases h
    rfl
  | some uris => rw [if_pos (Option.isSome_some), ← h, Assertion.rewriteUris]

theorem ClaimDedup.rewriteUris (h : ClaimDedup t) (oldId newId : String) :
    ClaimDedup (rewriteAssertionEvidenceUris t oldId newId) := by
  refine h.of_rows fun i r' hr' => ?_
  rw [get?_rewriteAssertionEvidenceUris, Option.map_eq_some_iff] at hr'
  obtain ⟨r, hr, rfl⟩ := hr'
  exact ⟨r, hr, ⟨rfl, rfl, rfl⟩, id⟩

theorem not_contains_of_preflight {entityType : String} {u : Unit}
    (h : preflightNewIdAvailable s newId entityType oldId = .ok u) : s.entities.get? newId = none := by
  unfold preflightNewIdAvailable at h
  split at h
  · cases h
  · rename_i hc
    rwa [Dict.contains, Option.not_isSome_iff_eq_none] at hc

/-- What a rekey or a retype leaves: the row under its new id, the assertions relabelled. -/
structure Moved (row : Entity) (oldId newId : String) (s s' : Store ρ) : Prop where
  loaded : s.entities.get? oldId = some row
  free : s.entities.get? newId = none
  dedup : ClaimDedup s'.assertions
  entities : ∃ row', row'.lifecycle = row.lifecycle ∧ row'.attributes = row.attributes ∧
    ∀ id, s'.entities.get? id = if id = newId then some row' else if id = oldId then none
      else s.entities.get? id
  assertions : ∀ i, s'.assertions.get? i = (s.assertions.get? i).map (Assertion.relabel oldId newId)

/-- The entity of every assertion exists. -/
def Linked (s : Store ρ) : Prop :=
  ∀ i r, s.assertions.get? i = some r → s.entities.contains r.entityId = true

theorem updateIndexed_eq_ok {p : ℕ → Assertion ρ → Bool} {f : Assertion ρ → Assertion ρ} :
    updateIndexed t p f = .ok t' ↔ ClaimDedup (t.update p f) ∧ t' = t.update p f := by
  unfold updateIndexed
  split
  · rename_i h
    simp [claimDedup_iff.1 h, eq_comm]
  · rename_i h
    simp [mt claimDedup_iff.2 h]

theorem ClaimDedup.relabel (h : ClaimDedup s.assertions) (hlinked : Linked s) (hfree : s.entities.get? newId = none) :
    ClaimDedup (s.assertions.update (fun _ r => r.entityId == oldId) fun r =>
      { r with entityId := newId }) := by
  have hne : ∀ i r, s.assertions.get? i = some r → r.entityId ≠ newId := by
    intro i r hr heq
    have hc := hlinked i r hr
    rw [heq, Dict.contains, hfree] at hc
    cases hc
  intro i j r r' hi hj hc
  obtain ⟨ha, ha', hsome, hhash, hent⟩ := clash_iff.1 hc
  obtain ⟨r₀, hr₀, hrow⟩ := Table.update_inv hi
  obtain ⟨r₀', hr₀', hrow'⟩ := Table.update_inv hj
  obtain ⟨hold, rfl⟩ | ⟨-, rfl⟩ := hrow
  · obtain ⟨hold', rfl⟩ | ⟨-, rfl⟩ := hrow'
    · have hent₀ : r₀.entityId = r₀'.entityId := (beq_iff_eq.1 hold).trans (beq_iff_eq.1 hold').symm
      exact h i j r₀ r₀' hr₀ hr₀' (clash_iff.2 ⟨ha, ha', hsome, hhash, hent₀⟩)
    · exact absurd hent.symm (hne j r' hr₀')
  · obtain ⟨-, rfl⟩ | ⟨-, rfl⟩ := hrow'
    · exact absurd hent (hne i r hr₀)
    · exact h i j r r' hr₀ hr₀' hc

/-- **The transaction of a rekey** goes through when nothing outside the model fails. -/
theorem moveEntity_ok (hdedup : ClaimDedup s.assertions) (hlinked : Linked s) {row : Entity}
    (hrow : s.entities.get? oldId = some row) (hfree : s.entities.get? newId = none) (newType now : String) :
    ∃ s', moveEntity s row oldId newId newType now none = .ok s' ∧ Moved row oldId newId s s' := by
  have hindex : ClaimDedup (s.assertions.update (fun _ r => r.entityId == oldId) fun r =>
      { r with entityId := newId }) := hdedup.relabel hlinked hfree
  have hmoved : updateIndexed s.assertions (fun _ r => r.entityId == oldId)
      (fun r => { r with entityId := newId }) = .ok _ := updateIndexed_eq_ok.2 ⟨hindex, rfl⟩
  unfold moveEntity
  rw [hmoved]
  refine ⟨_, rfl, hrow, hfree, hindex.rewriteUris _ _, ⟨{ row with
    type := newType, aliases := existingAliasList row oldId, updatedAt := now }, rfl, rfl, fun id => ?_⟩,
    fun i => ?_⟩
  · dsimp only
    rw [Dict.get?_set, Dict.get?_erase]
  · dsimp only
    rw [get?_rewriteAssertionEvidenceUris, Table.get?_update, Option.map_map]
    congr 1
    funext r
    simp only [Function.comp_apply, Assertion.relabel, beq_iff_eq]
    split <;> rfl

theorem moveEntity_failure (s : Store ρ) (row : Entity) (oldId newId newType now : String) (e : Error) :
    ∃ e', moveEntity s row oldId newId newType now (some e) = .error e' := by
  unfold moveEntity
  rcases updateIndexed s.assertions (fun _ r => r.entityId == oldId)
    (fun r => { r with entityId := newId }) with e' | t
  · exact ⟨e', rfl⟩
  · exact ⟨e, rfl⟩

theorem canonicalizeEntityId_ne_empty {rawId entityType : String}
    (h : canonicalizeEntityId rawId entityType = .ok id) : id ≠ "" := by
  unfold canonicalizeEntityId at h
  dsimp only at h
  split at h
  · rename_i hstart
    split at h
    · cases h
    · obtain rfl := Except.ok.inj h
      rintro rfl
      simp [Json.startsWith] at hstart
  · split at h
    · cases h
    · obtain rfl := Except.ok.inj h
      simp

theorem rekeyTarget_ok {row : Entity} (h : rekeyTarget s oldId newId = .ok (row, id)) :
    s.entities.get? oldId = some row ∧ s.entities.get? id = none ∧ id ≠ "" := by
  simp only [rekeyTarget, bind_eq_ok, Except.ok.injEq, Prod.mk.injEq] at h
  obtain ⟨_, hrow, _, hcanon, _, hfree, rfl, rfl⟩ := h
  exact ⟨loadEntity_eq_ok.1 hrow, not_contains_of_preflight hfree, canonicalizeEntityId_ne_empty hcanon⟩

theorem retypeTarget_ok {entityId newType : String} {force : Bool} {row : Entity}
    (h : retypeTarget s entityId newType force = .ok (row, id)) :
    s.entities.get? entityId = some row ∧ s.entities.get? id = none ∧ id ≠ "" := by
  simp only [retypeTarget, bind_eq_ok, Except.ok.injEq, Prod.mk.injEq] at h
  obtain ⟨_, hrow, -, -, _, hcanon, _, hfree, rfl, rfl⟩ := h
  exact ⟨loadEntity_eq_ok.1 hrow, not_contains_of_preflight hfree, canonicalizeEntityId_ne_empty hcanon⟩

/-- **A rekey** goes through exactly when its checks pass and nothing outside the model fails. -/
theorem entityRekeyImpl_cases (hdedup : ClaimDedup s.assertions) (hlinked : Linked s)
    (oldId newId now : String) (failure : Option Error) :
    (¬ (failure = none ∧ ∃ p, rekeyTarget s oldId newId = .ok p) ∧
      ∃ e, entityRekeyImpl s oldId newId now failure = .error e) ∨
    ∃ row id s', failure = none ∧ rekeyTarget s oldId newId = .ok (row, id) ∧
      entityRekeyImpl s oldId newId now failure = .ok (id, s') ∧ Moved row oldId id s s' := by
  unfold entityRekeyImpl
  rcases h : rekeyTarget s oldId newId with e | ⟨row, id⟩
  · exact .inl ⟨by simp, e, rfl⟩
  · simp only [ok_bind]
    cases failure with
    | some e =>
      obtain ⟨e', he'⟩ := moveEntity_failure s row oldId id row.type now e
      exact .inl ⟨by simp, e', by rw [he']; rfl⟩
    | none =>
      obtain ⟨hrow, hfree, -⟩ := rekeyTarget_ok h
      obtain ⟨s', hs', hmoved⟩ := moveEntity_ok hdedup hlinked hrow hfree row.type now
      exact .inr ⟨row, id, s', rfl, rfl, by rw [hs']; rfl, hmoved⟩

/-- **A retype** goes through exactly when its checks pass and nothing outside the model fails. -/
theorem entityRetypeImpl_cases (hdedup : ClaimDedup s.assertions) (hlinked : Linked s)
    (entityId newType now : String) (force : Bool) (failure : Option Error) :
    (¬ (failure = none ∧ ∃ p, retypeTarget s entityId newType force = .ok p) ∧
      ∃ e, entityRetypeImpl s entityId newType now force failure = .error e) ∨
    ∃ row id s', failure = none ∧ retypeTarget s entityId newType force = .ok (row, id) ∧
      entityRetypeImpl s entityId newType now force failure = .ok (id, s') ∧ Moved row entityId id s s' := by
  unfold entityRetypeImpl
  rcases h : retypeTarget s entityId newType force with e | ⟨row, id⟩
  · exact .inl ⟨by simp, e, rfl⟩
  · simp only [ok_bind]
    cases failure with
    | some e =>
      obtain ⟨e', he'⟩ := moveEntity_failure s row entityId id newType now e
      exact .inl ⟨by simp, e', by rw [he']; rfl⟩
    | none =>
      obtain ⟨hrow, hfree, -⟩ := retypeTarget_ok h
      obtain ⟨s', hs', hmoved⟩ := moveEntity_ok hdedup hlinked hrow hfree newType now
      refine .inr ⟨row, id, _, rfl, rfl, by rw [hs']; rfl, ?_⟩
      exact ⟨hmoved.loaded, hmoved.free, hmoved.dedup, hmoved.entities, hmoved.assertions⟩

/-! ## Merge -/

theorem targetByHash_spec {h : String} {v : ℕ} (hv : (targetByHash t targetId).get? h = some v) :
    ∃ r, t.get? v = some r ∧ r.entityId = targetId ∧ r.supersededBy = none ∧ r.claimHash = some h := by
  have hloop : ∀ (l : List (ℕ × Assertion ρ)) (d : Dict String ℕ),
      (∀ e ∈ l, t.get? e.1 = some e.2 ∧ e.2.entityId = targetId ∧ e.2.supersededBy = none) →
      (∀ h v, d.get? h = some v →
        ∃ r, t.get? v = some r ∧ r.entityId = targetId ∧ r.supersededBy = none ∧ r.claimHash = some h) →
      ∀ h v, (l.foldl addHash d).get? h = some v →
        ∃ r, t.get? v = some r ∧ r.entityId = targetId ∧ r.supersededBy = none ∧ r.claimHash = some h := by
    intro l
    induction l with
    | nil => exact fun d _ hd => hd
    | cons e l ih =>
      intro d hl hd
      rw [List.foldl_cons]
      refine ih _ (fun e' he' => hl e' (List.mem_cons_of_mem _ he')) ?_
      obtain ⟨hrow, hent, hact⟩ := hl e List.mem_cons_self
      intro h v hv
      unfold addHash at hv
      rcases hhash : e.2.claimHash with _ | h₀
      · rw [hhash] at hv
        exact hd h v hv
      · rw [hhash] at hv
        dsimp only at hv
        rw [Dict.get?_set] at hv
        split at hv
        · rename_i heq
          subst heq
          obtain rfl := Option.some.inj hv
          exact ⟨e.2, hrow, hent, hact, hhash⟩
        · exact hd h v hv
  refine hloop _ ∅ (fun e he => ?_) (by simp) h v hv
  obtain ⟨hrow, hp⟩ := Table.mem_select.1 he
  rw [Bool.and_eq_true, beq_iff_eq, Assertion.active, Option.isNone_iff_eq_none] at hp
  exact ⟨hrow, hp.1, hp.2⟩

/-- What a merge does to an assertion: an active one of the source is superseded by the target's with its
claim, or it moves. -/
def Assertion.mergeInto (T : Text) (hashes : Dict String ℕ) (sourceId targetId now : String)
    (r : Assertion ρ) : Assertion ρ :=
  if r.entityId = sourceId ∧ r.supersededBy = none then
    match hashes.get? (computeClaimHash T targetId r.claim) with
    | some id => { r with supersededBy := some id, updatedAt := some now }
    | none => { r with entityId := targetId, claimHash := some (computeClaimHash T targetId r.claim),
                       updatedAt := some now }
  else r

theorem activeOf_iff {entityId : String} {i : ℕ} {r : Assertion ρ} :
    activeOf entityId i r = true ↔ r.entityId = entityId ∧ r.supersededBy = none := by
  rw [activeOf, Bool.and_eq_true, beq_iff_eq, Assertion.active, Option.isNone_iff_eq_none]

theorem get?_updateIndexed {id : ℕ} {f : Assertion ρ → Assertion ρ}
    (h : updateIndexed t (fun i _ => i == id) f = .ok t') (i : ℕ) :
    t'.get? i = (t.get? i).map fun r => if i = id then f r else r := by
  obtain ⟨-, rfl⟩ := updateIndexed_eq_ok.1 h
  rw [Table.get?_update]
  simp only [beq_iff_eq]

theorem mergeAssertions_dedup
    (ht : ClaimDedup t) (h : mergeAssertions T t sourceId targetId now = .ok t') : ClaimDedup t' := by
  obtain ⟨closed, hclosed, hmoved⟩ := bind_eq_ok.1 h
  have hclose : ClaimDedup t → ClaimDedup closed := by
    refine foldlM_rel (R := fun u u' => ClaimDedup u → ClaimDedup u') (fun _ => id) (fun h h' => h' ∘ h)
      (fun u e u' hu hdedup => ?_) hclosed
    unfold closeDuplicate at hu
    split at hu
    · exact Except.ok.inj hu ▸ hdedup
    · obtain ⟨hdedup', rfl⟩ := updateIndexed_eq_ok.1 hu
      exact hdedup'
  have hmove : ClaimDedup closed → ClaimDedup t' := by
    refine foldlM_rel (R := fun u u' => ClaimDedup u → ClaimDedup u') (fun _ => id) (fun h h' => h' ∘ h)
      (fun u e u' hu _ => ?_) hmoved
    obtain ⟨hdedup', rfl⟩ := updateIndexed_eq_ok.1 hu
    exact hdedup'
  exact hmove (hclose ht)

/-- What one step of the first loop does to its row. -/
def Assertion.closeInto (T : Text) (hashes : Dict String ℕ) (targetId now : String)
    (selected r : Assertion ρ) : Assertion ρ :=
  match hashes.get? (computeClaimHash T targetId selected.claim) with
  | none => r
  | some id => { r with supersededBy := some id, updatedAt := some now }

theorem closeDuplicate_get? {hashes : Dict String ℕ}
    (t : Table (Assertion ρ)) (e : ℕ × Assertion ρ) (t' : Table (Assertion ρ))
    (h : closeDuplicate T hashes targetId now t e = .ok t') (i : ℕ) :
    t'.get? i = (t.get? i).map fun r =>
      if i = e.1 then Assertion.closeInto T hashes targetId now e.2 r else r := by
  unfold closeDuplicate at h
  split at h
  · rename_i hnone
    obtain rfl := Except.ok.inj h
    simp [Assertion.closeInto, hnone]
  · rename_i id hsome
    rw [get?_updateIndexed h]
    simp only [Assertion.closeInto, hsome]

/-- What one step of the second loop does to its row. -/
def Assertion.moveInto (T : Text) (targetId now : String) (selected r : Assertion ρ) : Assertion ρ :=
  { r with entityId := targetId, claimHash := some (computeClaimHash T targetId selected.claim),
           updatedAt := some now }

theorem moveSurvivor_get? (t : Table (Assertion ρ))
    (e : ℕ × Assertion ρ) (t' : Table (Assertion ρ)) (h : moveSurvivor T targetId now t e = .ok t')
    (i : ℕ) : t'.get? i = (t.get? i).map fun r =>
      if i = e.1 then Assertion.moveInto T targetId now e.2 r else r := get?_updateIndexed h i

/-- **A merge, row by row.** -/
theorem mergeAssertions_get? (h : mergeAssertions T t sourceId targetId now = .ok t') (i : ℕ) :
    t'.get? i =
      (t.get? i).map (Assertion.mergeInto T (targetByHash t targetId) sourceId targetId now) := by
  obtain ⟨closed, hclosed, hmoved⟩ := bind_eq_ok.1 h
  rw [Table.foldlM_select moveSurvivor_get? hmoved, Table.foldlM_select closeDuplicate_get? hclosed,
    Option.map_map]
  congr 1
  funext r
  simp only [Function.comp_apply, activeOf_iff, Assertion.mergeInto, Assertion.closeInto,
    Assertion.moveInto]
  by_cases hr : r.entityId = sourceId ∧ r.supersededBy = none
  · rw [if_pos hr, if_pos hr]
    cases (targetByHash t targetId).get? (computeClaimHash T targetId r.claim) with
    | none => exact if_pos hr
    | some id => exact if_neg (by simp)
  · rw [if_neg hr, if_neg hr, if_neg hr]

theorem Assertion.mergeInto_cases (T : Text) (t : Table (Assertion ρ)) (sourceId targetId now : String)
    (r : Assertion ρ) :
    let r' := Assertion.mergeInto T (targetByHash t targetId) sourceId targetId now r
    r' = r ∨ (r.entityId = sourceId ∧ r.supersededBy = none ∧ ((r.SameClaim r' ∧
      ∃ v r₀, r'.supersededBy = some v ∧ t.get? v = some r₀ ∧ r₀.entityId = targetId ∧
        r₀.supersededBy = none) ∨
      (r'.entityId = targetId ∧ r'.claim = r.claim ∧ r'.supersededBy = none ∧
        r'.claimHash = some (computeClaimHash T targetId r.claim)))) := by
  intro r'
  by_cases hr : r.entityId = sourceId ∧ r.supersededBy = none
  · refine .inr ⟨hr.1, hr.2, ?_⟩
    rcases hv : (targetByHash t targetId).get? (computeClaimHash T targetId r.claim) with _ | v
    · have hr' : r' = { r with
          entityId := targetId, claimHash := some (computeClaimHash T targetId r.claim),
          updatedAt := some now } := by
        simp only [r', Assertion.mergeInto, if_pos hr, hv]
      rw [hr']
      exact .inr ⟨rfl, rfl, hr.2, rfl⟩
    · obtain ⟨r₀, hr₀, hent, hact, -⟩ := targetByHash_spec hv
      have hr' : r' = { r with supersededBy := some v, updatedAt := some now } := by
        simp only [r', Assertion.mergeInto, if_pos hr, hv]
      rw [hr']
      exact .inl ⟨⟨rfl, rfl, rfl⟩, v, r₀, rfl, hr₀, hent, hact⟩
  · exact .inl (if_neg hr)

/-- The merges that go through. -/
structure MergeAccepted (T : Text) (s : Store ρ) (sourceId targetId now : String) (failure : Option Error) :
    Prop where
  differ : sourceId ≠ targetId
  loaded : ∃ source target, s.entities.get? sourceId = some source ∧
    s.entities.get? targetId = some target ∧ source.type = target.type
  assertions : ∃ t, mergeAssertions T s.assertions sourceId targetId now = .ok t
  failure : failure = none

/-- What a merge leaves: the assertions merged, and the source as a tombstone. -/
structure Merged (T : Text) (s : Store ρ) (sourceId targetId now : String) (s' : Store ρ) : Prop where
  dedup : ClaimDedup s.assertions → ClaimDedup s'.assertions
  entities : ∃ source, s.entities.get? sourceId = some source ∧
    s'.entities = s.entities.set sourceId (tombstone source targetId now)
  assertions : ∀ i, s'.assertions.get? i = (s.assertions.get? i).map fun r => Assertion.rewriteUris
    sourceId targetId (Assertion.mergeInto T (targetByHash s.assertions targetId) sourceId targetId now r)

theorem preflightMerge_eq_ok {source : Entity} :
    preflightMerge s sourceId targetId = .ok source ↔ sourceId ≠ targetId ∧
      s.entities.get? sourceId = some source ∧
      ∃ target, s.entities.get? targetId = some target ∧ source.type = target.type := by
  unfold preflightMerge
  split
  · simp_all
  · rename_i hne
    simp only [bind_eq_ok, loadEntity_eq_ok]
    constructor
    · rintro ⟨e, he, target, ht, hty⟩
      split at hty
      · rename_i htype
        obtain rfl := Except.ok.inj hty
        exact ⟨hne, he, target, ht, htype⟩
      · cases hty
    · rintro ⟨-, he, target, ht, htype⟩
      exact ⟨source, he, target, ht, if_pos htype⟩

/-- **A merge** goes through exactly when its checks pass, the index allows it and nothing outside the
model fails. -/
theorem entityMergeImpl_cases (T : Text) (s : Store ρ) (sourceId targetId now : String)
    (failure : Option Error) :
    (¬ MergeAccepted T s sourceId targetId now failure ∧
      ∃ e, entityMergeImpl T s sourceId targetId now failure = .error e) ∨
    (MergeAccepted T s sourceId targetId now failure ∧
      ∃ s', entityMergeImpl T s sourceId targetId now failure = .ok s' ∧
        Merged T s sourceId targetId now s') := by
  unfold entityMergeImpl
  rcases hpre : preflightMerge s sourceId targetId with e | source
  · refine .inl ⟨fun h => ?_, e, rfl⟩
    obtain ⟨source, target, hs, ht, htype⟩ := h.loaded
    rw [preflightMerge_eq_ok.2 ⟨h.differ, hs, target, ht, htype⟩] at hpre
    cases hpre
  obtain ⟨hne, hs, target, ht, htype⟩ := preflightMerge_eq_ok.1 hpre
  rcases hm : mergeAssertions T s.assertions sourceId targetId now with e | t
  · refine .inl ⟨fun h => ?_, e, rfl⟩
    obtain ⟨t, ht⟩ := h.assertions
    rw [hm] at ht
    cases ht
  cases failure with
  | some e =>
    refine .inl ⟨fun h => ?_, e, rfl⟩
    cases h.failure
  | none =>
    refine .inr ⟨⟨hne, ⟨source, target, hs, ht, htype⟩, ⟨t, hm⟩, rfl⟩, _, rfl, ?_, ⟨source, hs, rfl⟩,
      fun i => ?_⟩
    · intro hdedup
      exact (mergeAssertions_dedup hdedup hm).rewriteUris _ _
    · dsimp only
      rw [get?_rewriteAssertionEvidenceUris, mergeAssertions_get? hm, Option.map_map]
      rfl

theorem Merged.row {s' : Store ρ} (h : Merged T s sourceId targetId now s') {i : ℕ} {r' : Assertion ρ}
    (hr' : s'.assertions.get? i = some r') :
    ∃ r, s.assertions.get? i = some r ∧ ((r.SameClaim r' ∧ r'.supersededBy = r.supersededBy) ∨
      (r.entityId = sourceId ∧ r.supersededBy = none ∧ ((r.SameClaim r' ∧
        ∃ v r₀, r'.supersededBy = some v ∧ s.assertions.get? v = some r₀ ∧ r₀.entityId = targetId ∧
          r₀.supersededBy = none) ∨
        (r'.entityId = targetId ∧ r'.claim = r.claim ∧ r'.supersededBy = none ∧
          r'.claimHash = some (computeClaimHash T targetId r.claim))))) := by
  rw [h.assertions, Option.map_eq_some_iff] at hr'
  obtain ⟨r, hr, rfl⟩ := hr'
  refine ⟨r, hr, ?_⟩
  obtain heq | ⟨hent, hact, ⟨hsame, hsup⟩ | hmove⟩ :=
    Assertion.mergeInto_cases T s.assertions sourceId targetId now r
  · rw [heq]
    exact .inl ⟨⟨rfl, rfl, rfl⟩, rfl⟩
  · exact .inr ⟨hent, hact, .inl ⟨⟨hsame.entityId, hsame.claim, hsame.claimHash⟩, hsup⟩⟩
  · exact .inr ⟨hent, hact, .inr hmove⟩

end LlmGateway.Cortex
