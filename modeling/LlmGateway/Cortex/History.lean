import LlmGateway.Cortex.AssertionChange
import LlmGateway.Cortex.IdentityChange
import LlmGateway.Foundations.System

/-!
# Histories of the belief store

A history is a list of calls, applied one after the other to the store without rows; a call that raises
leaves the store as it is. `Change` says once what a call can do: leave the store, or make the change of its
route, with the checks it has passed. `apply_change` proves it of every call, on the stores that histories
reach (`WellFormed`): the index holds, the entity of an assertion exists, and so does the assertion that
supersedes one.
-/

namespace LlmGateway.Cortex

variable {ρ : Type}

/-! ## Calls -/

/-- A call, with its arguments. -/
inductive Action (ρ : Type) where
  | createAssertion (body : AssertionCreate ρ)
  | supersedeAssertion (body : SupersedeRequest ρ)
  | updateAssertion (id : ℕ) (body : AssertionUpdate ρ)
  | createEntity (body : EntityCreate)
  | entityRekey (oldId newId now : String) (failure : Option Error)
  | entityRetype (entityId newType now : String) (force : Bool) (failure : Option Error)
  | entityMerge (sourceId targetId now : String) (failure : Option Error)

/-- The store that a transaction leaves: its own when it commits, the old one when it raises. -/
def commitOr (s : Store ρ) : Except Error (Store ρ) → Store ρ
  | .ok s' => s'
  | .error _ => s

/-- The store behind a call. -/
def apply (T : Text) (s : Store ρ) : Action ρ → Store ρ
  | .createAssertion body => (createAssertion T s body).2
  | .supersedeAssertion body => (supersedeAssertion s body).2
  | .updateAssertion id body => (updateAssertion s id body).2
  | .createEntity body => commitOr s ((createEntityImpl s body).map Prod.snd)
  | .entityRekey oldId newId now failure =>
    commitOr s ((entityRekeyImpl s oldId newId now failure).map Prod.snd)
  | .entityRetype entityId newType now force failure =>
    commitOr s ((entityRetypeImpl s entityId newType now force failure).map Prod.snd)
  | .entityMerge sourceId targetId now failure =>
    commitOr s (entityMergeImpl T s sourceId targetId now failure)

/-! ## Calls that go through -/

/-- The creations that go through, with the new id. -/
structure EntityCreate.Accepted (body : EntityCreate) (s : Store ρ) (id : String) : Prop where
  entityId : body.entityId = .ok id
  refused : body.refused = none
  free : s.entities.get? id = none

/-- The rekeys and retypes that go through: the row, its old id and its new one. -/
def Action.Moves (s : Store ρ) (row : Entity) (oldId newId : String) : Action ρ → Prop
  | .entityRekey old new _ failure =>
    failure = none ∧ old = oldId ∧ rekeyTarget s old new = .ok (row, newId)
  | .entityRetype old newType _ force failure =>
    failure = none ∧ old = oldId ∧ retypeTarget s old newType force = .ok (row, newId)
  | _ => False

/-- The calls that a check refuses; a create of an assertion may also be one that changes nothing. -/
def Action.Refused (T : Text) (s : Store ρ) : Action ρ → Prop
  | .createAssertion _ => True
  | .supersedeAssertion body => ¬ body.Accepted s
  | .updateAssertion id body => ¬ body.Accepted id s
  | .createEntity body => ¬ ∃ id, body.Accepted s id
  | .entityMerge sourceId targetId now failure => ¬ MergeAccepted T s sourceId targetId now failure
  | a => ¬ ∃ row oldId newId, a.Moves s row oldId newId

/-- What a creation leaves. -/
structure Born (body : EntityCreate) (id : String) (s s' : Store ρ) : Prop where
  entities : s'.entities = s.entities.set id (body.row id)
  assertions : s'.assertions = s.assertions

/-- What a call can do. -/
inductive Change (T : Text) (s : Store ρ) : Action ρ → Store ρ → Prop
  | refused {a : Action ρ} (h : a.Refused T s) : Change T s a s
  | created {body : AssertionCreate ρ} {s' : Store ρ}
    (htarget : ∀ id, body.target = some id → ∃ r, s.assertions.get? id = some r)
    (h : Created T body s s') : Change T s (.createAssertion body) s'
  | superseded {body : SupersedeRequest ρ} {old : Assertion ρ} {s' : Store ρ} (hacc : body.Accepted s)
    (hold : s.assertions.get? body.oldAssertionId = some old) (h : Superseded body old s s') :
    Change T s (.supersedeAssertion body) s'
  | updated {id : ℕ} {body : AssertionUpdate ρ} {s' : Store ρ} (hacc : body.Accepted id s)
    (h : Updated id body s s') : Change T s (.updateAssertion id body) s'
  | born {body : EntityCreate} {id : String} {s' : Store ρ} (hacc : body.Accepted s id)
    (h : Born body id s s') : Change T s (.createEntity body) s'
  | moved {a : Action ρ} {row : Entity} {oldId newId : String} {s' : Store ρ}
    (hmoves : a.Moves s row oldId newId) (h : Moved row oldId newId s s') : Change T s a s'
  | merged {sourceId targetId now : String} {failure : Option Error} {s' : Store ρ}
    (hacc : MergeAccepted T s sourceId targetId now failure) (h : Merged T s sourceId targetId now s') :
    Change T s (.entityMerge sourceId targetId now failure) s'

/-- The stores that histories reach. -/
structure WellFormed (s : Store ρ) : Prop where
  dedup : ClaimDedup s.assertions
  linked : Linked s
  pointers : ∀ i r v, s.assertions.get? i = some r → r.supersededBy = some v →
    ∃ r', s.assertions.get? v = some r'
  ids : s.entities.get? "" = none

theorem createEntityImpl_cases (s : Store ρ) (body : EntityCreate) :
    ((¬ ∃ id, body.Accepted s id) ∧ ∃ e, createEntityImpl s body = .error e) ∨
      ∃ id s', body.Accepted s id ∧ createEntityImpl s body = .ok (id, s') ∧ Born body id s s' := by
  unfold createEntityImpl
  rcases hid : body.entityId with e | id
  · refine .inl ⟨?_, e, rfl⟩
    rintro ⟨id, h⟩
    rw [h.entityId] at hid
    cases hid
  rcases href : body.refused with _ | e
  swap
  · refine .inl ⟨?_, e, rfl⟩
    rintro ⟨id, h⟩
    rw [h.refused] at href
    cases href
  change _ ∨ ∃ id' s', _ ∧ (if s.entities.contains id then _ else _) = _ ∧ _
  rcases hget : s.entities.get? id with _ | row
  · exact .inr ⟨id, _, ⟨hid, href, hget⟩, if_neg (by simp [Dict.contains, hget]), rfl, rfl⟩
  · refine .inl ⟨?_, _, if_pos (by simp [Dict.contains, hget])⟩
    rintro ⟨id', h⟩
    obtain rfl := Except.ok.inj (hid.symm.trans h.entityId)
    rw [h.free] at hget
    cases hget

variable {s s' : Store ρ} {T : Text} {a : Action ρ} {newId oldId : String} {row : Entity}

/-- **A call** leaves the store, or makes the change of its route. -/
theorem apply_change (T : Text) (hs : WellFormed s) (a : Action ρ) :
    Change T s a (apply T s a) := by
  cases a with
  | createAssertion body =>
    obtain h | ⟨htarget, h⟩ := createAssertion_cases T s body
    · rw [apply, h]
      exact .refused trivial
    · exact .created htarget h
  | supersedeAssertion body =>
    obtain ⟨hno, h⟩ | ⟨hacc, old, hold, h⟩ := supersedeAssertion_cases s body
    · rw [apply, h]
      exact .refused hno
    · exact .superseded hacc hold h
  | updateAssertion id body =>
    obtain ⟨hno, h⟩ | ⟨hacc, h⟩ := updateAssertion_cases s id body
    · rw [apply, h]
      exact .refused hno
    · exact .updated hacc h
  | createEntity body =>
    obtain ⟨hno, e, h⟩ | ⟨id, s', hacc, h, hborn⟩ := createEntityImpl_cases s body
    · rw [apply, h]
      exact .refused hno
    · rw [apply, h]
      exact .born hacc hborn
  | entityRekey oldId newId now failure =>
    obtain ⟨hno, e, h⟩ | ⟨row, id, s', hf, ht, h, hmoved⟩ :=
      entityRekeyImpl_cases hs.dedup hs.linked oldId newId now failure
    · rw [apply, h]
      exact .refused fun ⟨row, old, new, hf, _, ht⟩ => hno ⟨hf, _, ht⟩
    · rw [apply, h]
      exact .moved ⟨hf, rfl, ht⟩ hmoved
  | entityRetype entityId newType now force failure =>
    obtain ⟨hno, e, h⟩ | ⟨row, id, s', hf, ht, h, hmoved⟩ :=
      entityRetypeImpl_cases hs.dedup hs.linked entityId newType now force failure
    · rw [apply, h]
      exact .refused fun ⟨row, old, new, hf, _, ht⟩ => hno ⟨hf, _, ht⟩
    · rw [apply, h]
      exact .moved ⟨hf, rfl, ht⟩ hmoved
  | entityMerge sourceId targetId now failure =>
    obtain ⟨hno, e, h⟩ | ⟨hacc, s', h, hmerged⟩ :=
      entityMergeImpl_cases T s sourceId targetId now failure
    · rw [apply, h]
      exact .refused hno
    · rw [apply, h]
      exact .merged hacc hmerged

/-! ## What every call keeps -/

theorem Change.exists_row (h : Change T s a s') {i : ℕ}
    {r : Assertion ρ} (hr : s.assertions.get? i = some r) : ∃ r', s'.assertions.get? i = some r' := by
  cases h with
  | refused => exact ⟨r, hr⟩
  | created htarget h | superseded hacc hold h =>
    rw [h.assertions, Table.get?_insert_of_some hr]
    exact ⟨_, rfl⟩
  | updated hacc h | moved hmoves h | merged hacc h =>
    rw [h.assertions, hr]
    exact ⟨_, rfl⟩
  | born hacc h => exact ⟨r, h.assertions ▸ hr⟩

theorem Graduates.contains (h : Graduates s s') (id : String) :
    s'.entities.contains id = s.entities.contains id := by
  obtain heq | ⟨e, now, he, -, he'⟩ := h id
  · rw [Dict.contains, heq, Dict.contains]
  · rw [Dict.contains, he', Dict.contains, he]
    rfl

theorem Change.dedup (h : Change T s a s') (hs : ClaimDedup s.assertions) : ClaimDedup s'.assertions := by
  cases h with
  | refused => exact hs
  | created htarget h =>
    refine h.dedup.of_rows fun i r' hr' => ?_
    obtain ⟨rfl, hsame, -⟩ | ⟨r, hr, hsame, hsup⟩ := h.row htarget hr'
    · exact ⟨_, by rw [Table.get?_insert, if_pos rfl], hsame, fun _ => rfl⟩
    · refine ⟨r, Table.get?_insert_of_some hr _, hsame, fun hnone => ?_⟩
      obtain heq | ⟨hnone, -⟩ := hsup
      · exact heq.symm.trans hnone
      · exact hnone
  | @superseded body old s' hacc hold h =>
    refine (hs.insert (body.row old) rfl).of_rows fun i r' hr' => ?_
    obtain ⟨rfl, hsame, -⟩ | ⟨r, hr, hsame, hsup⟩ := h.row hold hr'
    · exact ⟨_, by rw [Table.get?_insert, if_pos rfl], hsame, fun _ => rfl⟩
    · refine ⟨r, Table.get?_insert_of_some hr _, hsame, fun hnone => ?_⟩
      obtain heq | ⟨-, hsome⟩ := hsup
      · exact heq.symm.trans hnone
      · rw [hsome] at hnone
        cases hnone
  | updated hacc h =>
    refine hs.of_rows fun i r' hr' => ?_
    obtain ⟨r, hr, hsame, hsup⟩ := h.row hacc.finds hr'
    refine ⟨r, hr, hsame, fun hnone => ?_⟩
    rw [hsup] at hnone
    split at hnone
    · exact (Option.or_eq_none_iff.1 hnone).2
    · exact hnone
  | born hacc h => exact h.assertions ▸ hs
  | moved hmoves h => exact h.dedup
  | merged hacc h => exact h.dedup hs

theorem Change.linked (h : Change T s a s') (hs : Linked s) :
    Linked s' := by
  cases h with
  | refused => exact hs
  | created htarget h =>
    intro i r' hr'
    rw [h.confined.graduates.contains]
    obtain ⟨-, hsame, -⟩ | ⟨r, hr, hsame, -⟩ := h.row htarget hr'
    · exact hsame.entityId ▸ h.entity
    · exact hsame.entityId ▸ hs i r hr
  | superseded hacc hold h =>
    intro i r' hr'
    rw [h.confined.graduates.contains]
    obtain ⟨-, hsame, -⟩ | ⟨r, hr, hsame, -⟩ := h.row hold hr'
    · exact hsame.entityId ▸ hacc.entity
    · exact hsame.entityId ▸ hs i r hr
  | updated hacc h =>
    intro i r' hr'
    rw [h.confined.graduates.contains]
    obtain ⟨r, hr, hsame, -⟩ := h.row hacc.finds hr'
    exact hsame.entityId ▸ hs i r hr
  | born hacc h =>
    intro i r hr
    rw [h.assertions] at hr
    rw [h.entities]
    exact Dict.contains_set (hs i r hr) _ _
  | @moved a row oldId newId s' hmoves h =>
    intro i r' hr'
    rw [h.assertions, Option.map_eq_some_iff] at hr'
    obtain ⟨r, hr, rfl⟩ := hr'
    obtain ⟨row', -, -, hrow'⟩ := h.entities
    obtain ⟨e, he⟩ := Dict.contains_iff.1 (hs i r hr)
    rw [Dict.contains_iff, hrow']
    simp only [Assertion.relabel, Assertion.rewriteUris]
    by_cases hold : r.entityId = oldId
    · simp [hold]
    · by_cases hnew : r.entityId = newId
      · simp [hnew]
      · simp [hold, hnew, he]
  | merged hacc h =>
    intro i r' hr'
    obtain ⟨source, -, hentities⟩ := h.entities
    obtain ⟨-, target, -, htarget, -⟩ := hacc.loaded
    rw [hentities]
    refine Dict.contains_set ?_ _ _
    obtain ⟨r, hr, ⟨hsame, -⟩ | ⟨-, -, ⟨hsame, -⟩ | ⟨hent, -⟩⟩⟩ := h.row hr'
    · exact hsame.entityId ▸ hs i r hr
    · exact hsame.entityId ▸ hs i r hr
    · rw [hent]
      exact Dict.contains_iff.2 ⟨target, htarget⟩

theorem Change.pointers (h : Change T s a s')
    (hs : WellFormed s) {i : ℕ} {r' : Assertion ρ} {v : ℕ} (hr' : s'.assertions.get? i = some r')
    (hv : r'.supersededBy = some v) : ∃ r, s'.assertions.get? v = some r := by
  -- A pointer that was there before still has its assertion.
  have hkept : ∀ r, s.assertions.get? i = some r → r'.supersededBy = r.supersededBy →
      ∃ r, s'.assertions.get? v = some r := by
    intro r hr heq
    obtain ⟨r₀, hr₀⟩ := hs.pointers i r v hr (heq.symm.trans hv)
    exact h.exists_row hr₀
  cases h with
  | refused => exact hs.pointers i r' v hr' hv
  | created htarget h =>
    obtain ⟨-, -, hnone⟩ | ⟨r, hr, -, heq | ⟨-, hnew⟩⟩ := h.row htarget hr'
    · rw [hnone] at hv
      cases hv
    · exact hkept r hr heq
    · obtain rfl := Option.some.inj (hnew.symm.trans hv)
      rw [h.assertions, Table.get?_insert, if_pos rfl]
      exact ⟨_, rfl⟩
  | superseded hacc hold h =>
    obtain ⟨-, -, hnone⟩ | ⟨r, hr, -, heq | ⟨-, hnew⟩⟩ := h.row hold hr'
    · rw [hnone] at hv
      cases hv
    · exact hkept r hr heq
    · obtain rfl := Option.some.inj (hnew.symm.trans hv)
      exact h.replacement
  | @updated id body s' hacc h =>
    obtain ⟨r, hr, -, hsup⟩ := h.row hacc.finds hr'
    split at hsup
    · rcases hbody : body.supersededBy with _ | v'
      · rw [hbody, Option.none_or] at hsup
        exact hkept r hr hsup
      · rw [hbody, Option.some_or] at hsup
        obtain rfl := Option.some.inj (hsup.symm.trans hv)
        obtain ⟨r₀, hr₀⟩ := hacc.superseding v' hbody
        rw [h.assertions, hr₀]
        exact ⟨_, rfl⟩
    · exact hkept r hr hsup
  | born hacc h => exact hkept r' (h.assertions ▸ hr') rfl
  | moved hmoves h =>
    have hr₀ := hr'
    rw [h.assertions, Option.map_eq_some_iff] at hr₀
    obtain ⟨r, hr, rfl⟩ := hr₀
    exact hkept r hr rfl
  | merged hacc h =>
    obtain ⟨r, hr, ⟨-, heq⟩ | ⟨-, -, ⟨-, v', r₀, hv', hr₀, -⟩ | ⟨-, -, hnone, -⟩⟩⟩ := h.row hr'
    · exact hkept r hr heq
    · obtain rfl := Option.some.inj (hv'.symm.trans hv)
      rw [h.assertions, hr₀]
      exact ⟨_, rfl⟩
    · rw [hnone] at hv
      cases hv

theorem EntityCreate.entityId_ne_empty {body : EntityCreate} {id : String} (h : body.entityId = .ok id) :
    id ≠ "" := by
  unfold EntityCreate.entityId at h
  dsimp only at h
  split at h
  · split at h
    · cases h
    · obtain rfl := Except.ok.inj h
      simp
  · split at h
    · exact canonicalizeEntityId_ne_empty h
    · cases h

theorem Action.Moves.target (h : a.Moves s row oldId newId) :
    s.entities.get? oldId = some row ∧ s.entities.get? newId = none ∧ newId ≠ "" := by
  cases a with
  | entityRekey old new now failure =>
    obtain ⟨-, rfl, ht⟩ := h
    exact rekeyTarget_ok ht
  | entityRetype old newType now force failure =>
    obtain ⟨-, rfl, ht⟩ := h
    exact retypeTarget_ok ht
  | _ => exact h.elim

theorem Action.Moves.unique {row' : Entity} {oldId' newId' : String}
    (h : a.Moves s row oldId newId) (h' : a.Moves s row' oldId' newId') :
    oldId' = oldId ∧ newId' = newId := by
  cases a with
  | entityRekey old new now failure | entityRetype old newType now force failure =>
    obtain ⟨-, rfl, ht⟩ := h
    obtain ⟨-, rfl, ht'⟩ := h'
    exact ⟨rfl, congrArg Prod.snd (Except.ok.inj (ht'.symm.trans ht))⟩
  | _ => exact h.elim

theorem Action.Moves.forall_iff (h : a.Moves s row oldId newId) (P : String → String → Prop) :
    (∀ row' oldId' newId', a.Moves s row' oldId' newId' → P oldId' newId') ↔ P oldId newId := by
  constructor
  · exact fun hall => hall row oldId newId h
  · intro hP row' oldId' newId' h'
    obtain ⟨rfl, rfl⟩ := h.unique h'
    exact hP

theorem Graduates.get?_eq_none (h : Graduates s s') {id : String}
    (hid : s.entities.get? id = none) : s'.entities.get? id = none := by
  obtain heq | ⟨e, now, he, -⟩ := h id
  · rw [heq, hid]
  · rw [he] at hid
    cases hid

theorem Change.ids (h : Change T s a s') (hs : s.entities.get? "" = none) : s'.entities.get? "" = none := by
  cases h with
  | refused => exact hs
  | created _ h | superseded _ _ h | updated _ h => exact h.confined.graduates.get?_eq_none hs
  | born hacc h =>
    rw [h.entities, Dict.get?_set_ne _ (EntityCreate.entityId_ne_empty hacc.entityId).symm, hs]
  | moved hmoves h =>
    obtain ⟨row', -, -, hrow'⟩ := h.entities
    obtain ⟨-, -, hne⟩ := hmoves.target
    rw [hrow', if_neg hne.symm]
    split
    · rfl
    · exact hs
  | merged hacc h =>
    obtain ⟨source, hsource, hentities⟩ := h.entities
    rw [hentities, Dict.get?_set]
    split
    · rename_i hid
      rw [← hid, hs] at hsource
      cases hsource
    · exact hs

/-- **Every call keeps the store well formed.** -/
theorem WellFormed.apply (T : Text) (hs : WellFormed s) (a : Action ρ) :
    WellFormed (apply T s a) := by
  have h := apply_change T hs a
  exact ⟨h.dedup hs.dedup, h.linked hs.linked, fun i r v hr hv => h.pointers hs hr hv, h.ids hs.ids⟩

theorem WellFormed.empty : WellFormed (Store.empty : Store ρ) where
  dedup i j r r' h := by cases h
  linked i r h := by cases h
  pointers i r v h := by cases h
  ids := rfl

/-- **Histories.** What a call keeps exactly if it meets `C` holds throughout a history exactly if every call
meets `C` on the store before it. -/
theorem throughout_history_iff (T : Text) {I : Store ρ → Prop} {C : Store ρ → Action ρ → Prop}
    (hempty : I Store.empty) (hstep : ∀ s a, WellFormed s → I s → (I (apply T s a) ↔ C s a))
    (history : List (Action ρ)) :
    System.Throughout (apply T) I Store.empty history ↔
      System.EachStep (apply T) C Store.empty history :=
  System.throughout_iff_eachStep (fun _ a hs => hs.apply T a) hstep .empty hempty history

end LlmGateway.Cortex
