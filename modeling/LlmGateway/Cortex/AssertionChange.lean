import LlmGateway.Cortex.Assertions

/-!
# What the assertion routes leave

Each locked section commits at its end and nowhere else, so it leaves the store as it was and an exception,
or the statements of its route and no others: `createLocked_cases`, `supersedeLocked_cases` and
`updateLocked_cases`, with the rows of `assertions` given one by one. The calls as a whole follow:
`createAssertion_cases`, `supersedeAssertion_cases`, `updateAssertion_cases`.
-/

namespace LlmGateway.Cortex

variable {ρ : Type}

/-! ## Statements beside the assertions -/

/-- The entities are as before, but one that had no lifecycle may have become active. -/
def Graduates (s s' : Store ρ) : Prop :=
  ∀ id, s'.entities.get? id = s.entities.get? id ∨ ∃ e now, s.entities.get? id = some e ∧
    e.lifecycle = none ∧ s'.entities.get? id = some { e with lifecycle := some .active, updatedAt := now }

variable {s s' : Store ρ} {α : Type} {i id : ℕ} {body : AssertionCreate ρ} {u : Unit} {old r' : Assertion ρ}

theorem Graduates.of_entities (h : s'.entities = s.entities) : Graduates s s' :=
  fun _ => .inl (h ▸ rfl)

/-- The statements of a route touch neither the aliases nor, but for a graduation, the entities. -/
structure Confined (s s' : Store ρ) : Prop where
  graduates : Graduates s s'
  entityAliases : s'.entityAliases = s.entityAliases

theorem Confined.of_entities (h : s'.entities = s.entities)
    (ha : s'.entityAliases = s.entityAliases) : Confined s s' := ⟨.of_entities h, ha⟩

theorem Confined.of_eq {t : Store ρ} (h : Confined t s') (he : t.entities = s.entities)
    (ha : t.entityAliases = s.entityAliases) : Confined s s' := by
  refine ⟨fun id => ?_, h.entityAliases.trans ha⟩
  rw [← he]
  exact h.graduates id

theorem materialize_assertions (entityId now : String) (s : Store ρ) :
    (materializeGraduatedLifecycle entityId now s).assertions = s.assertions := by
  unfold materializeGraduatedLifecycle
  split
  · rfl
  · dsimp only
    split <;> rfl

theorem materialize_sessionEdges (entityId now : String) (s : Store ρ) :
    (materializeGraduatedLifecycle entityId now s).sessionEdges = s.sessionEdges := by
  unfold materializeGraduatedLifecycle
  split
  · rfl
  · dsimp only
    split <;> rfl

theorem materialize_confined (entityId now : String) (s : Store ρ) :
    Confined s (materializeGraduatedLifecycle entityId now s) := by
  unfold materializeGraduatedLifecycle
  split
  · exact ⟨.of_entities rfl, rfl⟩
  · rename_i e he
    dsimp only
    split
    · rename_i hcond
      rw [Bool.and_eq_true, Option.isNone_iff_eq_none] at hcond
      refine ⟨fun id => ?_, rfl⟩
      by_cases hid : id = entityId
      · subst hid
        exact .inr ⟨e, now, he, hcond.1, by simp⟩
      · exact .inl (by simp [hid])
    · exact ⟨.of_entities rfl, rfl⟩

/-! ## Nothing is committed before the end -/

@[simp] theorem updateAssertions_bind (p : ℕ → Assertion ρ → Bool) (f : Assertion ρ → Assertion ρ)
    (k : ℕ → Session (Store ρ) Error α) (c : Conn (Store ρ)) :
    (updateAssertions p f >>= k) c = k (c.working.assertions.select p).length
      { c with working := { c.working with assertions := c.working.assertions.update p f } } := rfl

theorem keeps_updateAssertions (p : ℕ → Assertion ρ → Bool) (f : Assertion ρ → Assertion ρ) :
    Session.Keeps (updateAssertions p f) := fun _ => rfl

theorem keeps_raiseConflict (id : ℕ) (missing : String) (conflict : String → String) :
    Session.Keeps (raiseConflict id missing conflict : Session (Store ρ) Error α) := by
  refine .bind .read fun s => ?_
  split
  · exact .raise _
  · exact .raise _

theorem keeps_closeTarget (body : AssertionCreate ρ) (newId : ℕ) :
    Session.Keeps (closeTarget body newId) := by
  unfold closeTarget
  split
  · exact .pure ()
  · refine .bind (keeps_updateAssertions _ _) fun n => .ite ?_ (.pure ())
    exact .bind .rollback fun _ => keeps_raiseConflict _ _ _

theorem keeps_writeAssertionLocked (T : Text) (body : AssertionCreate ρ) :
    Session.Keeps (writeAssertionLocked T body) := by
  refine .bind .read fun s => .ite (.ite ?_ (.raise _)) (.pure _)
  refine .bind (.write _) fun _ => .bind (keeps_closeTarget _ _) fun _ => ?_
  exact .bind (keeps_updateAssertions _ _) fun _ => .bind (.write _) fun _ => .pure _

theorem keeps_supersedeLocked (body : SupersedeRequest ρ) (old : Assertion ρ) :
    Session.Keeps (supersedeLocked body old) := by
  refine .bind .read fun s => .ite ?_ (.raise _)
  refine .bind (.write _) fun _ => .bind (keeps_updateAssertions _ _) fun _ => ?_
  refine .bind (keeps_updateAssertions _ _) fun n => .ite ?_ ?_
  · exact .bind .rollback fun _ => keeps_raiseConflict _ _ _
  · exact .bind (.write _) fun _ => .pure _

theorem keeps_updateLocked (id : ℕ) (body : AssertionUpdate ρ) (existing : Assertion ρ) :
    Session.Keeps (updateLocked id body existing) := by
  refine .bind (keeps_updateAssertions _ _) fun n => .ite (keeps_raiseConflict _ _ _) ?_
  exact .bind (keeps_updateAssertions _ _) fun _ => .write _

/-! ## The locked sections -/

theorem exists_of_rowcount {t : Table (Assertion ρ)} {q : Assertion ρ → Bool}
    (h : (t.select fun i r => i == id && q r).length ≠ 0) : ∃ r, t.get? id = some r ∧ q r = true := by
  by_contra hnone
  refine h (Table.length_select_eq_zero.2 fun i r hr => ?_)
  by_cases hi : i = id
  · subst hi
    cases hq : q r with
    | false => simp
    | true => exact absurd ⟨r, hr, hq⟩ hnone
  · simp [hi]

theorem raiseConflict_apply (id : ℕ) (missing : String) (conflict : String → String) (c : Conn (Store ρ)) :
    ∃ e, (raiseConflict id missing conflict : Session (Store ρ) Error α) c = (.error e, c) := by
  unfold raiseConflict
  rw [Session.read_bind]
  cases c.working.assertions.get? id with
  | none => exact ⟨_, rfl⟩
  | some r => exact ⟨_, rfl⟩

/-- What a create does to the row with key `i`, once its own is inserted. -/
def AssertionCreate.change (body : AssertionCreate ρ) (newId i : ℕ) (r : Assertion ρ) : Assertion ρ :=
  let r := if body.target = some i && r.active then r.close newId body.now else r
  if i = newId then r.annotate body.flagged body.notes else r

/-- What is left of a create that has inserted its row. -/
structure Created (T : Text) (body : AssertionCreate ρ) (s s' : Store ρ) : Prop where
  dedup : ClaimDedup (s.assertions.insert (body.row T))
  entity : s.entities.contains body.entityId = true
  target : ∀ id, body.target = some id →
    ∃ r, (s.assertions.insert (body.row T)).get? id = some r ∧ r.active = true
  assertions : ∀ i, s'.assertions.get? i =
    ((s.assertions.insert (body.row T)).get? i).map (body.change s.assertions.nextId i)
  sessionEdges : s'.sessionEdges = s.sessionEdges
  confined : Confined s s'

theorem closeTarget_ok {newId : ℕ} {c c' : Conn (Store ρ)} (h : closeTarget body newId c = (.ok u, c')) :
    (∀ id, body.target = some id → ∃ r, c.working.assertions.get? id = some r ∧ r.active = true) ∧
      c'.working.entities = c.working.entities ∧
      c'.working.entityAliases = c.working.entityAliases ∧
      c'.working.sessionEdges = c.working.sessionEdges ∧
      ∀ i, c'.working.assertions.get? i = (c.working.assertions.get? i).map fun r =>
        if body.target = some i && r.active then r.close newId body.now else r := by
  rcases htarget : body.target with _ | id
  · simp only [closeTarget, htarget, Session.pure_apply, Prod.mk.injEq] at h
    obtain ⟨-, rfl⟩ := h
    exact ⟨nofun, rfl, rfl, rfl, fun i => by simp⟩
  · simp only [closeTarget, htarget, updateAssertions_bind] at h
    split at h
    · -- The swap is lost: what remains raises.
      rw [Session.rollback_bind] at h
      obtain ⟨e, he⟩ := raiseConflict_apply _ _ _ _
      rw [he] at h
      cases h
    · rename_i hcount
      simp only [Session.pure_apply, Prod.mk.injEq] at h
      obtain ⟨-, rfl⟩ := h
      refine ⟨?_, rfl, rfl, rfl, fun i => ?_⟩
      · intro id' hid'
        obtain rfl := Option.some.inj hid'
        exact exists_of_rowcount hcount
      · rw [Table.get?_update]
        congr 1
        funext r
        by_cases hi : i = id
        · simp [hi]
        · simp [hi, Ne.symm hi]

theorem created_of_closeTarget {T : Text} {c : Conn (Store ρ)}
    (hdedup : claimDedup (s.assertions.insert (body.row T)) = true)
    (hentity : s.entities.contains body.entityId = true)
    (hc : closeTarget body s.assertions.nextId
      ⟨s, { s with assertions := s.assertions.insert (body.row T) }⟩ = (.ok u, c)) :
    Created T body s
      (let s' : Store ρ := { c.working with
        assertions := c.working.assertions.update (fun i _ => i == s.assertions.nextId)
          (Assertion.annotate body.flagged body.notes) }
      if body.reviewStatus = some "staged" then s'
      else materializeGraduatedLifecycle body.entityId body.now s') := by
  obtain ⟨htarget, hent, halias, hedges, hrows⟩ := closeTarget_ok hc
  have hrows' : ∀ i, (c.working.assertions.update (fun i _ => i == s.assertions.nextId)
      (Assertion.annotate body.flagged body.notes)).get? i =
      ((s.assertions.insert (body.row T)).get? i).map (body.change s.assertions.nextId i) := by
    intro i
    rw [Table.get?_update, hrows, Option.map_map]
    congr 1
    funext r
    simp only [Function.comp_apply, AssertionCreate.change, beq_iff_eq]
  dsimp only
  split
  · exact ⟨claimDedup_iff.1 hdedup, hentity, htarget, hrows', hedges, .of_entities hent halias⟩
  · refine ⟨claimDedup_iff.1 hdedup, hentity, htarget, ?_, ?_, ?_⟩
    · rw [materialize_assertions]
      exact hrows'
    · rw [materialize_sessionEdges]
      exact hedges
    · exact .of_eq (materialize_confined _ _ _) hent halias

/-- **A create under the lock** raises and leaves the store, finds the claim and leaves the store, or
inserts its assertion and closes its target. -/
theorem createLocked_cases (T : Text) (body : AssertionCreate ρ) (s : Store ρ) :
    (∃ e, Session.perform (Session.commitAfter (writeAssertionLocked T body)) s = (.error e, s)) ∨
    (¬ ClaimDedup (s.assertions.insert (body.row T)) ∧
      ∃ n, Session.perform (Session.commitAfter (writeAssertionLocked T body)) s = (.ok (false, n), s)) ∨
    ∃ s', Session.perform (Session.commitAfter (writeAssertionLocked T body)) s =
      (.ok (true, s.assertions.nextId), s') ∧ Created T body s s' := by
  rcases hx : writeAssertionLocked T body ⟨s, s⟩ with ⟨r, c⟩
  cases r with
  | error e => exact .inl ⟨e, Session.perform_of_error (keeps_writeAssertionLocked T body) hx⟩
  | ok a =>
    rw [Session.perform_of_ok hx]
    unfold writeAssertionLocked at hx
    rw [Session.read_bind] at hx
    split at hx
    all_goals rename_i hdedup
    swap
    · simp only [Session.pure_apply, Prod.mk.injEq, Except.ok.injEq] at hx
      obtain ⟨rfl, rfl⟩ := hx
      exact .inr (.inl ⟨fun h => hdedup (claimDedup_iff.2 h), _, rfl⟩)
    split at hx
    swap
    · cases hx
    rename_i hentity
    refine .inr (.inr ?_)
    rw [Session.write_bind] at hx
    rcases hc : closeTarget body s.assertions.nextId
      ⟨s, { s with assertions := s.assertions.insert (body.row T) }⟩ with ⟨r, c₁⟩
    cases r with
    | error e =>
      rw [Session.bind_of_error hc] at hx
      cases hx
    | ok u =>
      rw [Session.bind_of_ok hc] at hx
      simp only [updateAssertions_bind, Session.write_bind, Session.pure_apply, Prod.mk.injEq,
        Except.ok.injEq] at hx
      obtain ⟨rfl, rfl⟩ := hx
      exact ⟨_, rfl, created_of_closeTarget hdedup hentity hc⟩

/-- What a supersede does to the row with key `i`, once its own is inserted. -/
def SupersedeRequest.change (body : SupersedeRequest ρ) (newId i : ℕ) (r : Assertion ρ) : Assertion ρ :=
  let r := if i = newId then r.annotate body.flagged body.notes else r
  if i = body.oldAssertionId && (body.force || r.active) then r.close newId body.now else r

/-- The row that a supersede closes, with its condition. -/
def SupersedeRequest.Finds (body : SupersedeRequest ρ) (t : Table (Assertion ρ)) : Prop :=
  ∃ r, t.get? body.oldAssertionId = some r ∧ (body.force = true ∨ r.active = true)

/-- What is left of a supersede that returns. -/
structure Superseded (body : SupersedeRequest ρ) (old : Assertion ρ) (s s' : Store ρ) : Prop where
  assertions : ∀ i, s'.assertions.get? i =
    ((s.assertions.insert (body.row old)).get? i).map (body.change s.assertions.nextId i)
  sessionEdges : s'.sessionEdges = s.sessionEdges.insert (body.edge s.assertions.nextId)
  confined : Confined s s'

/-- **A supersede under the lock** raises and leaves the store, when the entity or the row to close is
missing, and else inserts the replacement, closes the superseded assertion and records the edge. -/
theorem supersedeLocked_cases (body : SupersedeRequest ρ) (old : Assertion ρ) (s : Store ρ) :
    (¬ (s.entities.contains body.entityId = true ∧ body.Finds (s.assertions.insert (body.row old))) ∧
      ∃ e, Session.perform (Session.commitAfter (supersedeLocked body old)) s = (.error e, s)) ∨
    (s.entities.contains body.entityId = true ∧ body.Finds (s.assertions.insert (body.row old)) ∧
      ∃ s', Session.perform (Session.commitAfter (supersedeLocked body old)) s =
        (.ok s.assertions.nextId, s') ∧ Superseded body old s s') := by
  have hkeeps := keeps_supersedeLocked body old
  rcases hx : supersedeLocked body old ⟨s, s⟩ with ⟨r, c⟩
  have hx' := hx
  unfold supersedeLocked at hx'
  rw [Session.read_bind] at hx'
  split at hx'
  all_goals rename_i hentity
  swap
  · obtain ⟨rfl, rfl⟩ := Prod.mk.inj hx'
    exact .inl ⟨fun h => hentity h.1, _, Session.perform_of_error hkeeps hx⟩
  simp only [Session.write_bind, updateAssertions_bind] at hx'
  split at hx'
  all_goals rename_i hcount
  · refine .inl ⟨?_, ?_⟩
    · rintro ⟨-, r, hr, hq⟩
      have hrow : ∃ r', ((s.assertions.insert (body.row old)).update (fun i _ => i == s.assertions.nextId)
          (Assertion.annotate body.flagged body.notes)).get? body.oldAssertionId = some r' ∧
          (body.force || r'.active) = true := by
        rw [Table.get?_update, hr]
        refine ⟨_, rfl, ?_⟩
        rw [Bool.or_eq_true]
        split <;> exact hq
      obtain ⟨r', hr', hq'⟩ := hrow
      have := Table.length_select_eq_zero.1 hcount body.oldAssertionId r' hr'
      rw [hq', Bool.and_true, beq_eq_false_iff_ne] at this
      exact this rfl
    · obtain ⟨e, he⟩ := raiseConflict_apply _ _ _ _
      rw [Session.rollback_bind, he] at hx'
      obtain ⟨rfl, -⟩ := Prod.mk.inj hx'
      exact ⟨e, Session.perform_of_error hkeeps hx⟩
  · simp only [Session.write_bind, Session.pure_apply, Prod.mk.injEq] at hx'
    obtain ⟨rfl, rfl⟩ := hx'
    refine .inr ⟨hentity, ?_, _, Session.perform_of_ok hx, fun i => ?_, rfl, .of_entities rfl rfl⟩
    · obtain ⟨r', hr', hq⟩ := exists_of_rowcount hcount
      rw [Table.get?_update, Option.map_eq_some_iff] at hr'
      obtain ⟨r, hr, rfl⟩ := hr'
      refine ⟨r, hr, ?_⟩
      rw [Bool.or_eq_true] at hq
      split at hq <;> exact hq
    · dsimp only
      rw [Table.get?_update, Table.get?_update, Option.map_map]
      congr 1
      funext r
      simp only [Function.comp_apply, SupersedeRequest.change, beq_iff_eq, Bool.and_eq_true,
        decide_eq_true_eq]

/-- What an update does to the row with key `i`. -/
def AssertionUpdate.change (body : AssertionUpdate ρ) (id i : ℕ) (r : Assertion ρ) : Assertion ρ :=
  let r := if i = id && (!body.guarded || r.active) then body.set r else r
  if i = id then r.annotate body.flagged body.notes else r

/-- The row that an update sets, with the condition of its compare-and-swap. -/
def AssertionUpdate.Finds (body : AssertionUpdate ρ) (id : ℕ) (t : Table (Assertion ρ)) : Prop :=
  body.guarded = true → ∃ r, t.get? id = some r ∧ r.active = true

/-- What is left of an update that returns. -/
structure Updated (id : ℕ) (body : AssertionUpdate ρ) (s s' : Store ρ) : Prop where
  assertions : ∀ i, s'.assertions.get? i = (s.assertions.get? i).map (body.change id i)
  sessionEdges : s'.sessionEdges = s.sessionEdges
  confined : Confined s s'

/-- **An update under the lock** raises and leaves the store, when its compare-and-swap finds no row, and
else sets the columns of its request. -/
theorem updateLocked_cases (id : ℕ) (body : AssertionUpdate ρ) (existing : Assertion ρ) (s : Store ρ) :
    (¬ body.Finds id s.assertions ∧
      ∃ e, Session.perform (Session.commitAfter (updateLocked id body existing)) s = (.error e, s)) ∨
    (body.Finds id s.assertions ∧
      ∃ s', Session.perform (Session.commitAfter (updateLocked id body existing)) s = (.ok (), s') ∧
        Updated id body s s') := by
  rcases hx : updateLocked id body existing ⟨s, s⟩ with ⟨r, c⟩
  have hx' := hx
  unfold updateLocked at hx'
  rw [updateAssertions_bind] at hx'
  split at hx'
  all_goals rename_i hcount
  · rw [Bool.and_eq_true, decide_eq_true_eq] at hcount
    obtain ⟨hcount, hg⟩ := hcount
    refine .inl ⟨fun h => ?_, ?_⟩
    · obtain ⟨r, hr, hactive⟩ := h hg
      have := Table.length_select_eq_zero.1 hcount id r hr
      rw [hactive, Bool.or_true, Bool.and_true, beq_eq_false_iff_ne] at this
      exact this rfl
    · obtain ⟨e, he⟩ := raiseConflict_apply _ _ _ _
      rw [he] at hx'
      obtain ⟨rfl, -⟩ := Prod.mk.inj hx'
      exact ⟨e, Session.perform_of_error (keeps_updateLocked id body existing) hx⟩
  · simp only [updateAssertions_bind, Session.write_apply, Prod.mk.injEq] at hx'
    obtain ⟨rfl, rfl⟩ := hx'
    have hrows : ∀ i, ((s.assertions.update (fun i r => i == id && (!body.guarded || r.active))
        body.set).update (fun i _ => i == id) (Assertion.annotate body.flagged body.notes)).get? i =
        (s.assertions.get? i).map (body.change id i) := by
      intro i
      rw [Table.get?_update, Table.get?_update, Option.map_map]
      congr 1
      funext r
      simp only [Function.comp_apply, AssertionUpdate.change, beq_iff_eq, Bool.and_eq_true,
        decide_eq_true_eq]
    refine .inr ⟨fun hg => ?_, _, Session.perform_of_ok hx, ?_⟩
    · rw [hg, Bool.and_true, decide_eq_true_eq] at hcount
      obtain ⟨r, hr, hq⟩ := exists_of_rowcount hcount
      exact ⟨r, hr, by simpa [hg] using hq⟩
    · dsimp only
      split
      · refine ⟨?_, materialize_sessionEdges _ _ _, .of_eq (materialize_confined _ _ _) rfl rfl⟩
        rw [materialize_assertions]
        exact hrows
      · exact ⟨hrows, rfl, .of_entities rfl rfl⟩

theorem commitUpdate_cases (s : Store ρ) (id : ℕ) (body : AssertionUpdate ρ) (existing : Assertion ρ) :
    (¬ body.Finds id s.assertions ∧ ∃ e, commitUpdate s id body existing = (.error e, s)) ∨
    (body.Finds id s.assertions ∧ Updated id body s (commitUpdate s id body existing).2) := by
  unfold commitUpdate
  obtain ⟨hno, e, h⟩ | ⟨hfinds, s', h, hs'⟩ := updateLocked_cases id body existing s
  · exact .inl ⟨hno, e, by rw [h]⟩
  · refine .inr ⟨hfinds, ?_⟩
    rw [h]
    dsimp only
    split <;> exact hs'

/-! ## The calls -/

theorem raiseIf_eq_ok {o : Option Error} : raiseIf o = .ok u ↔ o = none := by
  cases o with
  | none => simp [raiseIf]
  | some e => simp [raiseIf]

theorem checkEntity_eq_ok {entityId : String} :
    checkEntity s entityId = .ok u ↔ s.entities.contains entityId = true := by
  unfold checkEntity
  split <;> simp_all

theorem readAssertion_eq_ok {missing : String} {r : Assertion ρ} :
    readAssertion s id missing = .ok r ↔ s.assertions.get? id = some r := by
  unfold readAssertion
  split <;> simp_all

theorem exists_target_of_prepare (h : prepareAssertionWrite s body = .ok true) (hid : body.target = some id) :
    ∃ r, s.assertions.get? id = some r := by
  obtain ⟨-, -, h⟩ := bind_eq_ok.1 h
  obtain ⟨-, -, h⟩ := bind_eq_ok.1 h
  split at h
  · cases h
  obtain ⟨u, hcheck, -⟩ := bind_eq_ok.1 h
  unfold AssertionCreate.target at hid
  split at hid
  · rename_i hforce
    obtain ⟨hsup, -⟩ := Option.filter_eq_some_iff.1 hid
    simp only [checkSupersedesTarget, hforce, hsup, bind_eq_ok] at hcheck
    obtain ⟨r, hr, -⟩ := hcheck
    exact ⟨r, readAssertion_eq_ok.1 hr⟩
  · cases hid

/-- **A create** leaves the store, or its target was there and it leaves what its locked section does. -/
theorem createAssertion_cases (T : Text) (s : Store ρ) (body : AssertionCreate ρ) :
    (createAssertion T s body).2 = s ∨
      (∀ id, body.target = some id → ∃ r, s.assertions.get? id = some r) ∧
        Created T body s (createAssertion T s body).2 := by
  unfold createAssertion
  rcases hprep : prepareAssertionWrite s body with e | b
  · exact .inl rfl
  cases b with
  | false => exact .inl rfl
  | true =>
    dsimp only
    obtain ⟨e, h⟩ | ⟨-, n, h⟩ | ⟨s', h, hcreated⟩ := createLocked_cases T body s
    · exact .inl (by rw [h])
    · exact .inl (by rw [h])
    · exact .inr ⟨fun id hid => exists_target_of_prepare hprep hid, by rw [h]; exact hcreated⟩

/-- The supersedes that go through. -/
structure SupersedeRequest.Accepted (body : SupersedeRequest ρ) (s : Store ρ) : Prop where
  rejected : body.rejected = none
  blocked : body.blocked = none
  entity : s.entities.contains body.entityId = true
  finds : body.Finds s.assertions

theorem prepareSupersede_eq_ok {body : SupersedeRequest ρ} :
    prepareSupersede s body = .ok old ↔ body.rejected = none ∧
      s.assertions.get? body.oldAssertionId = some old ∧ s.entities.contains body.entityId = true ∧
      body.blocked = none := by
  simp only [prepareSupersede, bind_eq_ok, raiseIf_eq_ok, checkEntity_eq_ok, readAssertion_eq_ok,
    Except.ok.injEq]
  constructor
  · rintro ⟨-, hrej, r, hr, -, hent, -, hblk, rfl⟩
    exact ⟨hrej, hr, hent, hblk⟩
  · rintro ⟨hrej, hr, hent, hblk⟩
    exact ⟨(), hrej, old, hr, (), hent, (), hblk, rfl⟩

/-- **A supersede** leaves the store, unless it is accepted and leaves what its locked section does. -/
theorem supersedeAssertion_cases (s : Store ρ) (body : SupersedeRequest ρ) :
    (¬ body.Accepted s ∧ (supersedeAssertion s body).2 = s) ∨
      (body.Accepted s ∧ ∃ old, s.assertions.get? body.oldAssertionId = some old ∧
        Superseded body old s (supersedeAssertion s body).2) := by
  unfold supersedeAssertion
  rcases hprep : prepareSupersede s body with e | old
  · refine .inl ⟨fun h => ?_, rfl⟩
    obtain ⟨r, hr, -⟩ := h.finds
    rw [prepareSupersede_eq_ok.2 ⟨h.rejected, hr, h.entity, h.blocked⟩] at hprep
    cases hprep
  · obtain ⟨hrej, hold, hent, hblk⟩ := prepareSupersede_eq_ok.1 hprep
    dsimp only
    have hrow := Table.get?_insert_of_some hold (body.row old)
    have hfinds : body.Finds (s.assertions.insert (body.row old)) ↔ body.Finds s.assertions := by
      rw [SupersedeRequest.Finds, SupersedeRequest.Finds, hrow, hold]
    obtain ⟨hno, e, h⟩ | ⟨-, hf, s', h, hs'⟩ := supersedeLocked_cases body old s
    · exact .inl ⟨fun ha => hno ⟨hent, hfinds.2 ha.finds⟩, by rw [h]⟩
    · exact .inr ⟨⟨hrej, hblk, hent, hfinds.1 hf⟩, old, hold, by rw [h]; exact hs'⟩

/-- The updates that go through. -/
structure AssertionUpdate.Accepted (body : AssertionUpdate ρ) (id : ℕ) (s : Store ρ) : Prop where
  rejected : body.rejected = none
  fields : body.hasFields = true
  existing : ∃ r, s.assertions.get? id = some r
  superseding : ∀ v, body.supersededBy = some v → ∃ r, s.assertions.get? v = some r
  finds : body.Finds id s.assertions

theorem checkSuperseding_eq_ok {body : AssertionUpdate ρ} :
    checkSuperseding s body = .ok u ↔ ∀ v, body.supersededBy = some v → ∃ r, s.assertions.get? v = some r := by
  rcases h : body.supersededBy with _ | v
  · simp [checkSuperseding, h]
  · simp only [checkSuperseding, h, bind_eq_ok, readAssertion_eq_ok, Option.some.injEq, forall_eq']
    exact exists_congr fun r => and_iff_left trivial

theorem prepareUpdate_eq_ok {body : AssertionUpdate ρ} {existing : Assertion ρ} :
    prepareUpdate s id body = .ok existing ↔ s.assertions.get? id = some existing ∧
      (∀ v, body.supersededBy = some v → ∃ r, s.assertions.get? v = some r) ∧ body.rejected = none ∧
      body.hasFields = true := by
  simp only [prepareUpdate, bind_eq_ok, raiseIf_eq_ok, readAssertion_eq_ok, checkSuperseding_eq_ok]
  constructor
  · rintro ⟨r, hr, -, hsup, -, hrej, hfields⟩
    split at hfields
    · rename_i hf
      obtain rfl := Except.ok.inj hfields
      exact ⟨hr, hsup, hrej, hf⟩
    · cases hfields
  · rintro ⟨hr, hsup, hrej, hf⟩
    exact ⟨existing, hr, (), hsup, (), hrej, by rw [if_pos hf]⟩

/-- **An update** leaves the store, unless it is accepted and leaves what its locked section does. -/
theorem updateAssertion_cases (s : Store ρ) (id : ℕ) (body : AssertionUpdate ρ) :
    (¬ body.Accepted id s ∧ (updateAssertion s id body).2 = s) ∨
      (body.Accepted id s ∧ Updated id body s (updateAssertion s id body).2) := by
  unfold updateAssertion
  rcases hprep : prepareUpdate s id body with e | existing
  · refine .inl ⟨fun h => ?_, rfl⟩
    obtain ⟨r, hr⟩ := h.existing
    rw [prepareUpdate_eq_ok.2 ⟨hr, h.superseding, h.rejected, h.fields⟩] at hprep
    cases hprep
  · obtain ⟨hr, hsup, hrej, hf⟩ := prepareUpdate_eq_ok.1 hprep
    dsimp only
    obtain ⟨hno, e, h⟩ | ⟨hfinds, h⟩ := commitUpdate_cases s id body existing
    · exact .inl ⟨fun ha => hno ha.finds, by rw [h]⟩
    · exact .inr ⟨⟨hrej, hf, ⟨existing, hr⟩, hsup, hfinds⟩, h⟩

/-! ## The rows behind a call -/

theorem Created.row {T : Text} (h : Created T body s s')
    (htarget : ∀ id, body.target = some id → ∃ r, s.assertions.get? id = some r)
    (hr' : s'.assertions.get? i = some r') :
    (i = s.assertions.nextId ∧ (body.row T).SameClaim r' ∧ r'.supersededBy = none) ∨
    ∃ r, s.assertions.get? i = some r ∧ r.SameClaim r' ∧ (r'.supersededBy = r.supersededBy ∨
      (r.supersededBy = none ∧ r'.supersededBy = some s.assertions.nextId)) := by
  rw [h.assertions, Option.map_eq_some_iff] at hr'
  obtain ⟨r, hr, rfl⟩ := hr'
  rw [Table.get?_insert] at hr
  split at hr
  · rename_i hi
    obtain rfl := Option.some.inj hr
    have hne : ¬ (body.target = some i) := by
      intro hid
      obtain ⟨r, hr⟩ := htarget i hid
      rw [hi, Table.get?_nextId] at hr
      cases hr
    refine .inl ⟨hi, ?_⟩
    simp only [AssertionCreate.change, hne, decide_false, Bool.false_and, Bool.false_eq_true, if_false,
      if_pos hi]
    exact ⟨⟨rfl, rfl, rfl⟩, rfl⟩
  · rename_i hi
    refine .inr ⟨r, hr, ?_⟩
    simp only [AssertionCreate.change, if_neg hi]
    split
    · rename_i hclose
      rw [Bool.and_eq_true, Assertion.active, Option.isNone_iff_eq_none] at hclose
      exact ⟨⟨rfl, rfl, rfl⟩, .inr ⟨hclose.2, rfl⟩⟩
    · exact ⟨⟨rfl, rfl, rfl⟩, .inl rfl⟩

theorem Superseded.row {body : SupersedeRequest ρ}
    (h : Superseded body old s s') (hold : s.assertions.get? body.oldAssertionId = some old)
    (hr' : s'.assertions.get? i = some r') :
    (i = s.assertions.nextId ∧ (body.row old).SameClaim r' ∧ r'.supersededBy = none) ∨
    ∃ r, s.assertions.get? i = some r ∧ r.SameClaim r' ∧ (r'.supersededBy = r.supersededBy ∨
      ((body.force = true ∨ r.supersededBy = none) ∧ r'.supersededBy = some s.assertions.nextId)) := by
  rw [h.assertions, Option.map_eq_some_iff] at hr'
  obtain ⟨r, hr, rfl⟩ := hr'
  rw [Table.get?_insert] at hr
  split at hr
  · rename_i hi
    obtain rfl := Option.some.inj hr
    have hne : ¬ (i = body.oldAssertionId) := by
      rintro rfl
      rw [hi, Table.get?_nextId] at hold
      cases hold
    refine .inl ⟨hi, ?_⟩
    simp only [SupersedeRequest.change, hne, decide_false, Bool.false_and, Bool.false_eq_true, if_false,
      if_pos hi]
    exact ⟨⟨rfl, rfl, rfl⟩, rfl⟩
  · rename_i hi
    refine .inr ⟨r, hr, ?_⟩
    simp only [SupersedeRequest.change, if_neg hi]
    split
    · rename_i hclose
      rw [Bool.and_eq_true, Bool.or_eq_true, Assertion.active, Option.isNone_iff_eq_none] at hclose
      exact ⟨⟨rfl, rfl, rfl⟩, .inr ⟨hclose.2, rfl⟩⟩
    · exact ⟨⟨rfl, rfl, rfl⟩, .inl rfl⟩

theorem Superseded.replacement {body : SupersedeRequest ρ}
    (h : Superseded body old s s') : ∃ r, s'.assertions.get? s.assertions.nextId = some r := by
  rw [h.assertions, Table.get?_insert, if_pos rfl]
  exact ⟨_, rfl⟩

theorem Updated.row {body : AssertionUpdate ρ} (h : Updated id body s s') (hfinds : body.Finds id s.assertions)
    (hr' : s'.assertions.get? i = some r') :
    ∃ r, s.assertions.get? i = some r ∧ r.SameClaim r' ∧
      r'.supersededBy = if i = id then body.supersededBy.or r.supersededBy else r.supersededBy := by
  rw [h.assertions, Option.map_eq_some_iff] at hr'
  obtain ⟨r, hr, rfl⟩ := hr'
  refine ⟨r, hr, ?_⟩
  by_cases hi : i = id
  · subst hi
    have hset : (!body.guarded || r.active) = true := by
      rw [Bool.or_eq_true, Bool.not_eq_true']
      cases hg : body.guarded with
      | false => exact .inl rfl
      | true =>
        obtain ⟨r₀, hr₀, hactive⟩ := hfinds hg
        obtain rfl := Option.some.inj (hr.symm.trans hr₀)
        exact .inr hactive
    simp only [AssertionUpdate.change, hset, decide_true, Bool.and_self, if_true]
    exact ⟨⟨rfl, rfl, rfl⟩, rfl⟩
  · simp only [AssertionUpdate.change, hi, decide_false, Bool.false_and, Bool.false_eq_true, if_false]
    exact ⟨⟨rfl, rfl, rfl⟩, trivial⟩

end LlmGateway.Cortex
