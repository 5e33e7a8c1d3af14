import LlmGateway.Cortex.AssertionChange

/-!
# Concurrent supersession

Calls of the three assertion routes in flight together. A call makes its reads one at a time, each on the
store as it is committed then, and at last its locked section; any other call may make a step in between.
The locked sections exclude each other, so a locked section is one step.

The compare-and-swap is made in the locked section. Whatever the reads saw before, a pointer that is set
stays as it is (`Flight.advance_kept`), and a call that loses raises and leaves nothing behind
(`Flight.advance_lost`): the replacement it has inserted is rolled back.
-/

namespace LlmGateway.Cortex

variable {ρ : Type}

/-! ## Calls in flight -/

/-- Where a call is: what it has read, and what it does next. -/
inductive Flight (ρ : Type) where
  /-- Next: the entity. -/
  | create (body : AssertionCreate ρ)
  /-- Next: the target of `supersedes_id`, and the belief guard. -/
  | createFound (body : AssertionCreate ρ)
  /-- Next: the locked section. -/
  | createReady (body : AssertionCreate ρ)
  /-- Next: the assertion to supersede. -/
  | supersede (body : SupersedeRequest ρ)
  /-- Next: the entity, and the validation of the new assertion. -/
  | supersedeFound (body : SupersedeRequest ρ) (old : Assertion ρ)
  /-- Next: the locked section. -/
  | supersedeReady (body : SupersedeRequest ρ) (old : Assertion ρ)
  /-- Next: the assertion to update. -/
  | update (id : ℕ) (body : AssertionUpdate ρ)
  /-- Next: the superseding assertion, and the validation of the fields. -/
  | updateFound (id : ℕ) (body : AssertionUpdate ρ) (existing : Assertion ρ)
  /-- Next: the locked section. -/
  | updateReady (id : ℕ) (body : AssertionUpdate ρ) (existing : Assertion ρ)

/-- One step of a call: the store it leaves, and where the call is then, `none` when it has returned. -/
def Flight.advance (T : Text) (s : Store ρ) : Flight ρ → Store ρ × Except Error (Option (Flight ρ))
  | .create body => (s, do
      raiseIf body.rejected
      checkEntity s body.entityId
      .ok (if body.dryRun then none else some (.createFound body)))
  | .createFound body => (s, do
      checkSupersedesTarget s body
      raiseIf body.blocked
      .ok (if body.alreadyKnown then none else some (.createReady body)))
  | .createReady body =>
    let out := Session.perform (Session.commitAfter (writeAssertionLocked T body)) s
    (out.2, out.1.map fun _ => none)
  | .supersede body => (s, do
      raiseIf body.rejected
      let old ← readAssertion s body.oldAssertionId
        ("Old assertion not found: " ++ toString body.oldAssertionId)
      .ok (some (.supersedeFound body old)))
  | .supersedeFound body old => (s, do
      checkEntity s body.entityId
      raiseIf body.blocked
      .ok (some (.supersedeReady body old)))
  | .supersedeReady body old =>
    let out := Session.perform (Session.commitAfter (supersedeLocked body old)) s
    (out.2, out.1.map fun _ => none)
  | .update id body => (s, do
      let existing ← readAssertion s id ("Assertion not found: " ++ toString id)
      .ok (some (.updateFound id body existing)))
  | .updateFound id body existing => (s, do
      checkSuperseding s body
      raiseIf body.rejected
      if body.hasFields then .ok (some (.updateReady id body existing))
      else .error (httpException 422 "No updatable fields provided"))
  | .updateReady id body existing =>
    let out := commitUpdate s id body existing
    (out.2, out.1.map fun _ => none)

/-- The store and the calls in flight. -/
structure Traffic (ρ : Type) where
  store : Store ρ
  flights : List (Flight ρ)

/-- A request arrives, or one of the calls in flight makes a step. -/
inductive Event (ρ : Type) where
  | create (body : AssertionCreate ρ)
  | supersede (body : SupersedeRequest ρ)
  | update (id : ℕ) (body : AssertionUpdate ρ)
  | advance (n : ℕ)

/-- The call at place `n` has made a step: it is removed once it has returned or raised. -/
def Traffic.land (x : Traffic ρ) (n : ℕ) (s : Store ρ) : Except Error (Option (Flight ρ)) → Traffic ρ
  | .ok (some g) => ⟨s, x.flights.set n g⟩
  | _ => ⟨s, x.flights.eraseIdx n⟩

/-- One event. -/
def Traffic.step (T : Text) (x : Traffic ρ) : Event ρ → Traffic ρ
  | .create body => { x with flights := x.flights ++ [.create body] }
  | .supersede body => { x with flights := x.flights ++ [.supersede body] }
  | .update id body => { x with flights := x.flights ++ [.update id body] }
  | .advance n =>
    match x.flights[n]? with
    | none => x
    | some f => x.land n (f.advance T x.store).1 (f.advance T x.store).2

@[simp] theorem Traffic.land_store (x : Traffic ρ) (n : ℕ) (s : Store ρ)
    (o : Except Error (Option (Flight ρ))) : (x.land n s o).store = s := by
  unfold Traffic.land
  split <;> rfl

variable {f : Flight ρ} {x : Traffic ρ} {s s' : Store ρ} {T : Text}

theorem Traffic.step_advance (T : Text) {n : ℕ} (hf : x.flights[n]? = some f) :
    x.step T (.advance n) = x.land n (f.advance T x.store).1 (f.advance T x.store).2 := by
  simp only [Traffic.step, hf]

theorem Traffic.step_advance_none (T : Text) {n : ℕ} (hf : x.flights[n]? = none) :
    x.step T (.advance n) = x := by
  simp only [Traffic.step, hf]

/-- The events, one after the other. -/
def Traffic.run (T : Text) (x : Traffic ρ) (events : List (Event ρ)) : Traffic ρ :=
  events.foldl (Traffic.step T) x

/-! ## Calls without `force` -/

/-- The call does not ask to override a pointer. -/
def Flight.Unforced : Flight ρ → Prop
  | .supersede body | .supersedeFound body _ | .supersedeReady body _ => body.force = false
  | .update _ body | .updateFound _ body _ | .updateReady _ body _ => body.force = false
  | _ => True

/-- The request does not ask to override a pointer. -/
def Event.Unforced : Event ρ → Prop
  | .supersede body => body.force = false
  | .update _ body => body.force = false
  | _ => True

/-- Every pointer of `s` is still there in `s'`. -/
def PointersKept (s s' : Store ρ) : Prop :=
  ∀ i r v, s.assertions.get? i = some r → r.supersededBy = some v →
    ∃ r', s'.assertions.get? i = some r' ∧ r'.supersededBy = some v

theorem PointersKept.refl (s : Store ρ) : PointersKept s s := fun _ r _ hr hv => ⟨r, hr, hv⟩

theorem PointersKept.trans {t u : Store ρ} (h : PointersKept s t) (h' : PointersKept t u) :
    PointersKept s u := by
  intro i r v hr hv
  obtain ⟨r', hr', hv'⟩ := h i r v hr hv
  exact h' i r' v hr' hv'

theorem Created.pointersKept {body : AssertionCreate ρ} (h : Created T body s s') : PointersKept s s' := by
  intro i r v hr hv
  have hne := Nat.ne_of_lt (Table.get?_lt hr)
  rw [h.assertions, Table.get?_insert_of_some hr]
  exact ⟨_, rfl, by simp [AssertionCreate.change, Assertion.active, hv, hne]⟩

theorem Superseded.pointersKept {body : SupersedeRequest ρ} {old : Assertion ρ}
    (h : Superseded body old s s') (hforce : body.force = false) : PointersKept s s' := by
  intro i r v hr hv
  have hne := Nat.ne_of_lt (Table.get?_lt hr)
  rw [h.assertions, Table.get?_insert_of_some hr]
  exact ⟨_, rfl, by simp [SupersedeRequest.change, Assertion.active, hv, hne, hforce]⟩

theorem Updated.pointersKept {id : ℕ} {body : AssertionUpdate ρ}
    (h : Updated id body s s') (hfinds : body.Finds id s.assertions) (hforce : body.force = false) :
    PointersKept s s' := by
  intro i r v hr hv
  obtain ⟨r', hr'⟩ : ∃ r', s'.assertions.get? i = some r' := by
    rw [h.assertions, hr]
    exact ⟨_, rfl⟩
  refine ⟨r', hr', ?_⟩
  obtain ⟨r₀, hr₀, -, hsup⟩ := h.row hfinds hr'
  obtain rfl := Option.some.inj (hr.symm.trans hr₀)
  split at hsup
  · rename_i hi
    subst hi
    rcases hbody : body.supersededBy with _ | v'
    · rw [hsup, hbody, Option.none_or, hv]
    · -- The swap is guarded, and the pointer was set.
      have hguarded : body.guarded = true := by simp [AssertionUpdate.guarded, hbody, hforce]
      obtain ⟨r₁, hr₁, hactive⟩ := hfinds hguarded
      obtain rfl := Option.some.inj (hr.symm.trans hr₁)
      rw [Assertion.active, hv] at hactive
      cases hactive
  · rw [hsup, hv]

/-- **A step of a call** keeps every pointer. -/
theorem Flight.advance_kept (T : Text) (s : Store ρ) (hf : f.Unforced) :
    PointersKept s (f.advance T s).1 := by
  cases f with
  | createReady body =>
    rw [Flight.advance]
    obtain ⟨e, h⟩ | ⟨-, n, h⟩ | ⟨s', h, hcreated⟩ := createLocked_cases T body s
    · rw [h]
      exact .refl s
    · rw [h]
      exact .refl s
    · rw [h]
      exact hcreated.pointersKept
  | supersedeReady body old =>
    rw [Flight.advance]
    obtain ⟨-, e, h⟩ | ⟨-, -, s', h, hsuperseded⟩ := supersedeLocked_cases body old s
    · rw [h]
      exact .refl s
    · rw [h]
      exact hsuperseded.pointersKept hf
  | updateReady id body existing =>
    rw [Flight.advance]
    obtain ⟨-, e, h⟩ | ⟨hfinds, h⟩ := commitUpdate_cases s id body existing
    · rw [h]
      exact .refl s
    · exact h.pointersKept hfinds hf
  | _ => exact .refl s

theorem Flight.advance_unforced {g : Flight ρ} (hf : f.Unforced)
    (h : (f.advance T s).2 = .ok (some g)) : g.Unforced := by
  cases f with
  | create body | createFound body =>
    simp only [Flight.advance, bind_eq_ok] at h
    obtain ⟨-, -, -, -, h⟩ := h
    split at h
    · cases h
    · obtain rfl := Option.some.inj (Except.ok.inj h)
      trivial
  | supersede body =>
    simp only [Flight.advance, bind_eq_ok] at h
    obtain ⟨-, -, old, -, h⟩ := h
    obtain rfl := Option.some.inj (Except.ok.inj h)
    exact hf
  | supersedeFound body old =>
    simp only [Flight.advance, bind_eq_ok] at h
    obtain ⟨-, -, -, -, h⟩ := h
    obtain rfl := Option.some.inj (Except.ok.inj h)
    exact hf
  | update id body =>
    simp only [Flight.advance, bind_eq_ok] at h
    obtain ⟨existing, -, h⟩ := h
    obtain rfl := Option.some.inj (Except.ok.inj h)
    exact hf
  | updateFound id body existing =>
    simp only [Flight.advance, bind_eq_ok] at h
    obtain ⟨-, -, -, -, h⟩ := h
    split at h
    · obtain rfl := Option.some.inj (Except.ok.inj h)
      exact hf
    · cases h
  | createReady body =>
    rw [Flight.advance] at h
    rcases hout : (Session.perform (Session.commitAfter (writeAssertionLocked T body)) s).1 with e | a <;>
      simp [hout, Except.map] at h
  | supersedeReady body old =>
    rw [Flight.advance] at h
    rcases hout : (Session.perform (Session.commitAfter (supersedeLocked body old)) s).1 with e | a <;>
      simp [hout, Except.map] at h
  | updateReady id body existing =>
    rw [Flight.advance] at h
    rcases hout : (commitUpdate s id body existing).1 with e | a <;> simp [hout, Except.map] at h

/-- None of the calls in flight asks to override a pointer. -/
def Traffic.Unforced (x : Traffic ρ) : Prop := ∀ f ∈ x.flights, f.Unforced

theorem Traffic.step_unforced (T : Text) (hx : x.Unforced) {e : Event ρ}
    (he : e.Unforced) : (x.step T e).Unforced := by
  have harrive : ∀ f : Flight ρ, f.Unforced → ∀ g ∈ x.flights ++ [f], g.Unforced := by
    intro f hf g hg
    obtain hg | hg := List.mem_append.1 hg
    · exact hx g hg
    · exact List.mem_singleton.1 hg ▸ hf
  cases e with
  | create body => exact harrive _ trivial
  | supersede body => exact harrive _ he
  | update id body => exact harrive _ he
  | advance n =>
    rcases hf : x.flights[n]? with _ | f
    · rw [Traffic.step_advance_none T hf]
      exact hx
    · rw [Traffic.step_advance T hf]
      unfold Traffic.land
      split
      · rename_i g hg
        intro g' hg'
        obtain hmem | rfl := List.mem_or_eq_of_mem_set hg'
        · exact hx g' hmem
        · exact Flight.advance_unforced (hx f (List.mem_of_getElem? hf)) hg
      · exact fun g hg => hx g (List.mem_of_mem_eraseIdx hg)

theorem Traffic.step_kept (T : Text) (hx : x.Unforced) (e : Event ρ) :
    PointersKept x.store (x.step T e).store := by
  cases e with
  | create body => exact .refl _
  | supersede body => exact .refl _
  | update id body => exact .refl _
  | advance n =>
    rcases hf : x.flights[n]? with _ | f
    · rw [Traffic.step_advance_none T hf]
      exact .refl _
    · rw [Traffic.step_advance T hf, Traffic.land_store]
      exact Flight.advance_kept T x.store (hx f (List.mem_of_getElem? hf))

/-- **A run without `force`** keeps every pointer. -/
theorem Traffic.run_kept (T : Text) (hx : x.Unforced) {events : List (Event ρ)} (hevents : ∀ e ∈ events, e.Unforced) :
    (x.run T events).Unforced ∧ PointersKept x.store (x.run T events).store := by
  induction events generalizing x with
  | nil => exact ⟨hx, .refl _⟩
  | cons e events ih =>
    have he := hevents e List.mem_cons_self
    obtain ⟨hun, hkept⟩ := ih (Traffic.step_unforced T hx he) fun e' he' =>
      hevents e' (List.mem_cons_of_mem _ he')
    exact ⟨hun, (Traffic.step_kept T hx e).trans hkept⟩

/-! ## Losing the compare-and-swap -/

/-- The locked section that comes next finds no row to close: it is gone, or something supersedes it. A
create has to be the first with its claim to come that far. -/
def Flight.LosesSwap (T : Text) (s : Store ρ) : Flight ρ → Prop
  | .createReady body => ClaimDedup (s.assertions.insert (body.row T)) ∧
      ∃ id, body.target = some id ∧
        ¬ ∃ r, (s.assertions.insert (body.row T)).get? id = some r ∧ r.active = true
  | .supersedeReady body old => ¬ body.Finds (s.assertions.insert (body.row old))
  | .updateReady id body _ => ¬ body.Finds id s.assertions
  | _ => False

/-- **A call that loses** raises, and the store is as it was. -/
theorem Flight.advance_lost (h : f.LosesSwap T s) :
    ∃ e, f.advance T s = (s, .error e) := by
  cases f with
  | createReady body =>
    obtain ⟨hdedup, id, hid, hnone⟩ := h
    rw [Flight.advance]
    obtain ⟨e, he⟩ | ⟨hno, -⟩ | ⟨s', -, hcreated⟩ := createLocked_cases T body s
    · exact ⟨e, by rw [he]; rfl⟩
    · exact absurd hdedup hno
    · exact absurd (hcreated.target id hid) hnone
  | supersedeReady body old =>
    rw [Flight.advance]
    obtain ⟨-, e, he⟩ | ⟨-, hfinds, -⟩ := supersedeLocked_cases body old s
    · exact ⟨e, by rw [he]; rfl⟩
    · exact absurd hfinds h
  | updateReady id body existing =>
    rw [Flight.advance]
    obtain ⟨-, e, he⟩ | ⟨hfinds, -⟩ := commitUpdate_cases s id body existing
    · exact ⟨e, by rw [he]; rfl⟩
    · exact absurd hfinds h
  | _ => exact h.elim

/-- **The pointer is written once.** However calls without `force` on supersedes and updates interleave, from
any store, a pointer that is set at some time has the same value ever after; and a call whose
compare-and-swap is lost raises and leaves `assertions` and `session_edges` as they were. -/
theorem supersededBy_written_once (T : Text) :
    (∀ (s : Store ρ) (before after : List (Event ρ)), (∀ e ∈ before ++ after, e.Unforced) →
      PointersKept (Traffic.run T ⟨s, []⟩ before).store (Traffic.run T ⟨s, []⟩ (before ++ after)).store) ∧
    ∀ (x : Traffic ρ) (n : ℕ) (f : Flight ρ), x.flights[n]? = some f → f.LosesSwap T x.store →
      (∃ e, (f.advance T x.store).2 = .error e) ∧
        (x.step T (.advance n)).store.assertions = x.store.assertions ∧
        (x.step T (.advance n)).store.sessionEdges = x.store.sessionEdges := by
  constructor
  · intro s before after hevents
    have hbefore : ∀ e ∈ before, e.Unforced := fun e he => hevents e (List.mem_append_left _ he)
    have hafter : ∀ e ∈ after, e.Unforced := fun e he => hevents e (List.mem_append_right _ he)
    have hstart : (⟨s, []⟩ : Traffic ρ).Unforced := fun f hf => absurd hf List.not_mem_nil
    obtain ⟨hun, -⟩ := Traffic.run_kept T hstart hbefore
    have happend : Traffic.run T ⟨s, []⟩ (before ++ after) =
        (Traffic.run T ⟨s, []⟩ before).run T after := List.foldl_append
    rw [happend]
    exact (Traffic.run_kept T hun hafter).2
  · intro x n f hf hlost
    obtain ⟨e, he⟩ := Flight.advance_lost hlost
    have hstore : (x.step T (.advance n)).store = x.store := by
      rw [Traffic.step_advance T hf, Traffic.land_store, he]
    exact ⟨⟨e, by rw [he]⟩, by rw [hstore], by rw [hstore]⟩

/-- The text functions as they are on ASCII; no supersede hashes. -/
def asciiText : Text where
  lower := Json.lower
  nfc := id
  sha256 := id

/-- An entity with one assertion. -/
def oneBelief : Store Unit where
  entities := (∅ : Dict String Entity).set "project:gateway"
    { type := "project", name := "Gateway", lifecycle := some .active, attributes := [], aliases := [],
      updatedAt := "2026-01-01T00:00:00Z" }
  entityAliases := []
  assertions := Table.empty.insert
    { entityId := "project:gateway", claim := "The gateway listens on port 8080.", claimHash := none,
      supersededBy := none, evidenceUris := none, validUntil := none, reviewStatus := none,
      updatedAt := none, columns := () }
  sessionEdges := Table.empty

/-- A supersede of the assertion. -/
def restate (claim now : String) : SupersedeRequest Unit where
  oldAssertionId := 1
  entityId := "project:gateway"
  claim := claim
  force := false
  evidenceUris := none
  sessionId := none
  agent := none
  carryOver := id
  rejected := none
  blocked := none
  flagged := false
  notes := id
  now := now

/-- Two supersedes that both read the assertion as active; the first is through. -/
def firstWins : List (Event Unit) :=
  [.supersede (restate "The gateway listens on port 9090." "2026-01-01T00:00:01Z"),
   .supersede (restate "The gateway listens on port 7070." "2026-01-01T00:00:02Z"),
   .advance 0, .advance 1, .advance 0, .advance 1, .advance 0]

/-- The race behind the first supersede: the second is at its locked section and does not find the row. -/
def afterFirst : Traffic Unit := Traffic.run asciiText ⟨oneBelief, []⟩ firstWins

theorem supersededBy_afterFirst :
    (afterFirst.store.assertions.get? 1).map Assertion.supersededBy = some (some 2) := by
  decide

theorem afterFirst_losesSwap :
    ∃ f, afterFirst.flights[0]? = some f ∧ f.LosesSwap asciiText afterFirst.store := by
  refine ⟨_, rfl, ?_⟩
  obtain ⟨r₀, hr₀, hclosed⟩ := Option.map_eq_some_iff.1 supersededBy_afterFirst
  rintro ⟨r, hr, hforce | hactive⟩
  · cases hforce
  · obtain rfl := Option.some.inj ((Table.get?_insert_of_some hr₀ _).symm.trans hr)
    rw [Assertion.active, hclosed] at hactive
    cases hactive

/-- The second supersede raises: the pointer stays with the first, and neither a third assertion nor a
second edge is left. -/
theorem secondSupersede_raises :
    PointersKept afterFirst.store (afterFirst.step asciiText (.advance 0)).store ∧
      (∃ f e, afterFirst.flights[0]? = some f ∧ (f.advance asciiText afterFirst.store).2 = .error e) ∧
      (afterFirst.step asciiText (.advance 0)).store.assertions = afterFirst.store.assertions ∧
      (afterFirst.step asciiText (.advance 0)).store.sessionEdges = afterFirst.store.sessionEdges := by
  obtain ⟨f, hf, hlost⟩ := afterFirst_losesSwap
  obtain ⟨hkept, hatomic⟩ := @supersededBy_written_once Unit asciiText
  obtain ⟨⟨e, he⟩, hrows, hedges⟩ := hatomic afterFirst 0 f hf hlost
  have hunforced : ∀ e ∈ firstWins ++ [.advance 0], e.Unforced := by
    simp [firstWins, Event.Unforced, restate]
  exact ⟨hkept oneBelief firstWins [.advance 0] hunforced, ⟨f, e, hf, he⟩, hrows, hedges⟩

end LlmGateway.Cortex
