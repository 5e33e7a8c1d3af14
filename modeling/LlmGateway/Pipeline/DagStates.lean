import LlmGateway.Pipeline.DagExecutor

/-!
# What the executor does to the states of the steps

A step that is done unlocks its dependents, a step that fails does not, and a stop skips what has not started.
`Sound` is what the states satisfy at any time, whatever the executor is at; each operation keeps it
(`Sound.complete`, `Sound.enter`, `Sound.setFailed`, `Sound.skipUnlaunchedForStop`).
-/

namespace LlmGateway.Pipeline

variable {D : Dag}

/-- The step needs the other one, directly or not. -/
def Dag.Ancestor (D : Dag) (id a : String) : Prop := Relation.TransGen (fun x dep => dep ∈ D.dependencies x) id a

variable {id : String} {x : DagExecutor} {state : StepState}

theorem dependencies_eq_nil (h : D.steps.contains id = false) : D.dependencies id = [] := by
  rw [Dict.contains, Option.isSome_eq_false_iff, Option.isNone_iff_eq_none] at h
  rw [Dag.dependencies, dependenciesOf, h]
  rfl

theorem not_mem_dependenciesOf {steps : Dict String StepSpec}
    (h : ∀ item ∈ steps.items, item.2.dependencies = []) (id dep : String) : dep ∉ dependenciesOf steps id := by
  unfold dependenciesOf
  rcases hspec : steps.get? id with _ | spec
  · exact List.not_mem_nil
  · have hnil : spec.dependencies = [] := h (id, spec) (Dict.mem_items_iff.2 hspec)
    rw [Option.map_some, Option.getD_some, hnil]
    exact List.not_mem_nil

theorem not_transGen_independent {steps : Dict String StepSpec}
    (h : ∀ item ∈ steps.items, item.2.dependencies = []) (id : String) :
    ¬ Relation.TransGen (fun x dep => dep ∈ dependenciesOf steps x) id id := by
  intro hcycle
  obtain ⟨dep, hdep, -⟩ := Relation.TransGen.head'_iff.1 hcycle
  exact not_mem_dependenciesOf h id dep hdep

/-- Steps that need nothing. -/
def Dag.independent (steps : Dict String StepSpec) (h : ∀ item ∈ steps.items, item.2.dependencies = []) : Dag where
  steps := steps
  known id dep hdep := absurd hdep (not_mem_dependenciesOf h id dep)
  acyclic := not_transGen_independent h

/-- Two steps that need nothing and use two models. -/
def twoSpecs : Dict String StepSpec :=
  ((∅ : Dict String StepSpec).set "a" ⟨[], false, some "m1"⟩).set "b" ⟨[], false, some "m2"⟩

theorem twoSpecs_independent : ∀ item ∈ twoSpecs.items, item.2.dependencies = [] := by decide

def twoModels : Dag := .independent twoSpecs twoSpecs_independent

/-! ## Operations on the states -/

/-- A step at its end as `state`, which unlocks its dependents unless there is a stop. -/
def DagExecutor.complete (D : Dag) (x : DagExecutor) (id : String) (state : StepState) (stop : Option String) :
    DagExecutor :=
  { x.setState id state with stop := stop }.propagateCompletion D id

theorem skip_eq (x : DagExecutor) (id : String) : x.skip D id = x.complete D id .skipped x.stop := rfl

theorem recordSuccess_eq (x : DagExecutor) (id : String) (stop : Bool) : x.recordSuccess D id stop =
    x.complete D id .completed (if stop && x.stop.isNone then some id else x.stop) := rfl

@[simp] theorem setState_self (x : DagExecutor) (id : String) (state : StepState) :
    (x.setState id state).state id = state := Function.update_self ..

theorem setState_ne (x : DagExecutor) {id' : String} (h : id' ≠ id) (state : StepState) :
    (x.setState id state).state id' = x.state id' := Function.update_of_ne h ..

theorem allDepsDone_iff :
    x.allDepsDone D id = true ↔ ∀ dep ∈ D.dependencies id, (x.state dep).done = true := List.all_eq_true

theorem propagateCompletion_state (x : DagExecutor) (c id : String) :
    (x.propagateCompletion D c).state id = x.state id ∨
      ((x.propagateCompletion D c).state id = .ready ∧ x.state id = .pending ∧ c ∈ D.dependencies id ∧
        ∀ dep ∈ D.dependencies id, (x.state dep).done = true) := by
  unfold DagExecutor.propagateCompletion
  split
  · exact .inl rfl
  · dsimp only
    split
    · rename_i h
      rw [Bool.and_eq_true, Bool.and_eq_true, allDepsDone_iff, beq_iff_eq, List.contains_iff_mem] at h
      exact .inr ⟨rfl, h.2, h.1⟩
    · exact .inl rfl

theorem propagateCompletion_pending (hstop : x.stop = none) {c : String}
    (hdep : c ∈ D.dependencies id) (h : (x.propagateCompletion D c).state id = .pending) :
    ∃ dep ∈ D.dependencies id, (x.state dep).done = false := by
  unfold DagExecutor.propagateCompletion at h
  rw [if_neg (by rw [hstop]; exact Bool.false_ne_true)] at h
  dsimp only at h
  split at h
  · cases h
  · rename_i hno
    rw [h, beq_self_eq_true, Bool.and_true, List.contains_iff_mem.2 hdep, Bool.true_and] at hno
    simpa [DagExecutor.allDepsDone] using hno

theorem propagateCompletion_done (x : DagExecutor) (c id : String) :
    ((x.propagateCompletion D c).state id).done = (x.state id).done := by
  obtain h | ⟨h, hpending, -⟩ := propagateCompletion_state (D := D) x c id
  · rw [h]
  · rw [h, hpending]
    rfl

theorem propagateCompletion_rest (x : DagExecutor) (c : String) :
    ∃ state, x.propagateCompletion D c = { x with state := state } := by
  unfold DagExecutor.propagateCompletion
  split
  · exact ⟨x.state, rfl⟩
  · exact ⟨_, rfl⟩

@[simp] theorem complete_started (x : DagExecutor) (id : String) (state : StepState) (stop : Option String) :
    (x.complete D id state stop).started = x.started := by
  obtain ⟨_, h⟩ := propagateCompletion_rest (D := D) { x.setState id state with stop := stop } id
  rw [DagExecutor.complete, h]
  rfl

@[simp] theorem complete_stop (x : DagExecutor) (id : String) (state : StepState) (stop : Option String) :
    (x.complete D id state stop).stop = stop := by
  obtain ⟨_, h⟩ := propagateCompletion_rest (D := D) { x.setState id state with stop := stop } id
  rw [DagExecutor.complete, h]

theorem complete_state (D : Dag) (x : DagExecutor) (id : String) (stop : Option String)
    (hstate : state.done = true) (id' : String) :
    (id' = id ∧ (x.complete D id state stop).state id' = state) ∨
      (id' ≠ id ∧ ((x.complete D id state stop).state id' = x.state id' ∨
        ((x.complete D id state stop).state id' = .ready ∧ x.state id' = .pending ∧ id ∈ D.dependencies id' ∧
          ∀ dep ∈ D.dependencies id', ((x.complete D id state stop).state dep).done = true))) := by
  have hprop := propagateCompletion_state (D := D) { x.setState id state with stop := stop } id id'
  by_cases hid : id' = id
  · subst hid
    obtain h | ⟨-, h, -⟩ := hprop
    · exact .inl ⟨rfl, h.trans (setState_self ..)⟩
    · rw [show ({ x.setState id' state with stop := stop } : DagExecutor).state id' = state from
        setState_self ..] at h
      rw [h] at hstate
      cases hstate
  · refine .inr ⟨hid, ?_⟩
    obtain h | ⟨h, hpending, hmem, hdeps⟩ := hprop
    · exact .inl (h.trans (setState_ne x hid state))
    · refine .inr ⟨h, (setState_ne x hid state).symm.trans hpending, hmem, fun dep hdep => ?_⟩
      rw [DagExecutor.complete, propagateCompletion_done]
      exact hdeps dep hdep

theorem complete_done (D : Dag) (x : DagExecutor) (id : String) (stop : Option String)
    (hstate : state.done = true) (id' : String) :
    ((x.complete D id state stop).state id').done = true ↔ id' = id ∨ (x.state id').done = true := by
  rw [DagExecutor.complete, propagateCompletion_done]
  by_cases hid : id' = id
  · subst hid
    simpa using hstate
  · rw [show ({ x.setState id state with stop := stop } : DagExecutor).state id' = x.state id' from
      setState_ne x hid state]
    simp [hid]

/-! ## Moves of a state -/

/-! ## What the states satisfy -/

/-- What the states of the steps satisfy at any time. -/
structure Sound (D : Dag) (x : DagExecutor) : Prop where
  /-- Without a stop, what a step that is done needs is done. -/
  closed : x.stop = none → ∀ id, (x.state id).done = true →
    ∀ dep ∈ D.dependencies id, (x.state dep).done = true
  /-- Without a stop, a step that is pending needs something that is not done. -/
  blocked : x.stop = none → ∀ id, D.steps.contains id = true → x.state id = .pending →
    ∃ dep ∈ D.dependencies id, (x.state dep).done = false
  ready : ∀ id, x.state id = .ready →
    ∀ dep ∈ D.dependencies id, (x.state dep).done = true ∨ x.state dep = .failed
  /-- All that a step needs that has started is done. -/
  ancestors : ∀ id ∈ x.started, ∀ a, D.Ancestor id a → (x.state a).done = true
  started : ∀ id, id ∈ x.started ↔ x.state id = .running ∨ x.state id = .completed ∨ x.state id = .failed
  once : x.started.Nodup
  outside : ∀ id, D.steps.contains id = false → x.state id = .pending

theorem Sound.contains (h : Sound D x) (hne : x.state id ≠ .pending) :
    D.steps.contains id = true := by
  by_contra hno
  exact hne (h.outside id (Bool.eq_false_iff.2 hno))

theorem Sound.ancestor_done (h : Sound D x) (hstop : x.stop = none) {a : String}
    (hdeps : ∀ dep ∈ D.dependencies id, (x.state dep).done = true) (ha : D.Ancestor id a) :
    (x.state a).done = true := by
  induction ha with
  | single hdep => exact hdeps _ hdep
  | tail _ hdep ih => exact h.closed hstop _ ih _ hdep

theorem Sound.not_needed (h : Sound D x) (hid : (x.state id).done = false) :
    (x.stop = none → ∀ id', (x.state id').done = true → id ∉ D.dependencies id') ∧
      ∀ id' ∈ x.started, ¬ D.Ancestor id' id := by
  constructor
  · intro hstop id' hdone hdep
    rw [h.closed hstop id' hdone id hdep] at hid
    cases hid
  · intro id' hstarted ha
    rw [h.ancestors id' hstarted id ha] at hid
    cases hid

theorem Sound.start (D : Dag) : Sound D (.start D) := by
  have hstate : ∀ id, (DagExecutor.start D).state id = .ready ∧ D.steps.contains id = true ∧
      D.dependencies id = [] ∨ (DagExecutor.start D).state id = .pending ∧
        (D.steps.contains id = true → D.dependencies id ≠ []) := by
    intro id
    simp only [DagExecutor.start]
    split
    · rename_i h
      rw [Bool.and_eq_true, List.isEmpty_iff] at h
      exact .inl ⟨rfl, h⟩
    · rename_i h
      rw [Bool.and_eq_true, List.isEmpty_iff] at h
      exact .inr ⟨rfl, fun hc hnil => h ⟨hc, hnil⟩⟩
  constructor
  case closed =>
    intro _ id hdone
    obtain ⟨h, -⟩ | ⟨h, -⟩ := hstate id <;> rw [h] at hdone <;> cases hdone
  case blocked =>
    intro _ id hc hpending
    obtain ⟨h, -⟩ | ⟨-, h⟩ := hstate id
    · rw [h] at hpending
      cases hpending
    · obtain ⟨dep, hdep⟩ := List.exists_mem_of_ne_nil _ (h hc)
      refine ⟨dep, hdep, ?_⟩
      obtain ⟨h, -⟩ | ⟨h, -⟩ := hstate dep <;> rw [h] <;> rfl
  case ready =>
    intro id hready dep hdep
    obtain ⟨-, -, h⟩ | ⟨h, -⟩ := hstate id
    · rw [h] at hdep
      cases hdep
    · rw [h] at hready
      cases hready
  case ancestors => exact fun id h => absurd h List.not_mem_nil
  case started =>
    intro id
    refine iff_of_false List.not_mem_nil ?_
    obtain ⟨h, -⟩ | ⟨h, -⟩ := hstate id <;> rw [h] <;> simp
  case once => exact List.nodup_nil
  case outside =>
    intro id hc
    obtain ⟨-, h, -⟩ | ⟨h, -⟩ := hstate id
    · rw [h] at hc
      cases hc
    · exact h

theorem Sound.congr {x' : DagExecutor} (h : Sound D x) (hstate : x'.state = x.state) (hstop : x'.stop = x.stop)
    (hstarted : x'.started = x.started) : Sound D x' := by
  constructor
  case closed => rw [hstate, hstop]; exact h.closed
  case blocked => rw [hstate, hstop]; exact h.blocked
  case ready => rw [hstate]; exact h.ready
  case ancestors => rw [hstate, hstarted]; exact h.ancestors
  case started => rw [hstate, hstarted]; exact h.started
  case once => rw [hstarted]; exact h.once
  case outside => rw [hstate]; exact h.outside

/-- **A step that is done**: it was ready or running, and all that it needs is done. -/
theorem Sound.complete (h : Sound D x) {stop : Option String}
    (hstate : state.done = true) (hstop : stop = none → x.stop = none)
    (hdeps : ∀ dep ∈ D.dependencies id, (x.state dep).done = true) (hpending : x.state id ≠ .pending)
    (hstarted : id ∈ x.started ↔ state = .completed) : Sound D (x.complete D id state stop) := by
  have hdone := complete_done D x id stop hstate
  have hcases := complete_state D x id stop hstate
  have hmono : ∀ id', (x.state id').done = true → ((x.complete D id state stop).state id').done = true :=
    fun id' h' => (hdone id').2 (.inr h')
  constructor
  case closed =>
    rw [complete_stop]
    intro hnone id' h' dep hdep
    obtain rfl | h' := (hdone id').1 h'
    · exact hmono dep (hdeps dep hdep)
    · exact hmono dep (h.closed (hstop hnone) id' h' dep hdep)
  case blocked =>
    rw [complete_stop]
    intro hnone id' hc hpend
    have hsame : x.state id' = .pending ∧ id' ≠ id := by
      obtain ⟨-, h'⟩ | ⟨hne, h' | ⟨h', -⟩⟩ := hcases id'
      · rw [h'] at hpend
        rw [hpend] at hstate
        cases hstate
      · exact ⟨h'.symm.trans hpend, hne⟩
      · rw [h'] at hpend
        cases hpend
    by_cases hdep : id ∈ D.dependencies id'
    · -- A dependent that is not promoted still needs something.
      obtain ⟨dep, hmem, hnot⟩ := propagateCompletion_pending
        (x := { x.setState id state with stop := stop }) hnone hdep hpend
      refine ⟨dep, hmem, ?_⟩
      rw [DagExecutor.complete, propagateCompletion_done]
      exact hnot
    · obtain ⟨dep, hmem, hnot⟩ := h.blocked (hstop hnone) id' hc hsame.1
      refine ⟨dep, hmem, Bool.eq_false_iff.2 fun h' => ?_⟩
      obtain rfl | h' := (hdone dep).1 h'
      · exact hdep hmem
      · rw [hnot] at h'
        cases h'
  case ready =>
    intro id' hready dep hdep
    obtain ⟨-, h'⟩ | ⟨-, h' | ⟨-, -, -, h'⟩⟩ := hcases id'
    · rw [h'] at hready
      rw [hready] at hstate
      cases hstate
    · obtain h'' | h'' := h.ready id' (h'.symm.trans hready) dep hdep
      · exact .inl (hmono dep h'')
      · obtain ⟨-, h₁⟩ | ⟨-, h₁ | ⟨-, h₁, -⟩⟩ := hcases dep
        · rw [h₁]
          exact .inl hstate
        · exact .inr (h₁.trans h'')
        · rw [h₁] at h''
          cases h''
    · exact .inl (h' dep hdep)
  case ancestors =>
    rw [complete_started]
    exact fun id' h' a ha => hmono a (h.ancestors id' h' a ha)
  case started =>
    intro id'
    rw [complete_started]
    obtain ⟨rfl, h'⟩ | ⟨-, h' | ⟨h', hpend, -⟩⟩ := hcases id'
    · rw [h', hstarted]
      cases state <;> simp_all [StepState.done]
    · rw [h', h.started]
    · rw [h', h.started, hpend]
      simp
  case once =>
    rw [complete_started]
    exact h.once
  case outside =>
    intro id' hc
    obtain ⟨rfl, -⟩ | ⟨-, h' | ⟨-, -, hmem, -⟩⟩ := hcases id'
    · exact absurd (h.outside id' hc) hpending
    · exact h'.trans (h.outside id' hc)
    · rw [dependencies_eq_nil hc] at hmem
      cases hmem

theorem setState_done (hold : (x.state id).done = false) (hnew : state.done = false) (id' : String) :
    ((x.setState id state).state id').done = (x.state id').done := by
  by_cases hid : id' = id
  · subst hid
    rw [setState_self, hnew, hold]
  · rw [setState_ne x hid]

/-- **A step that enters `RUNNING`**: there is no stop, and all that it needs is done. -/
theorem Sound.enter (h : Sound D x) (hready : x.state id = .ready)
    (hstop : x.stop = none) (hdeps : ∀ dep ∈ D.dependencies id, (x.state dep).done = true) :
    Sound D (x.enter id) := by
  have hdone : ∀ id', ((x.enter id).state id').done = (x.state id').done :=
    setState_done (by rw [hready]; rfl) rfl
  have hne : ∀ {id' : String}, id' ≠ id → (x.enter id).state id' = x.state id' := fun hid => setState_ne x hid _
  have hself : (x.enter id).state id = .running := setState_self ..
  have hfresh : id ∉ x.started := by
    rw [h.started, hready]
    simp
  constructor
  case closed =>
    intro _ id' h' dep hdep
    rw [hdone] at h' ⊢
    exact h.closed hstop id' h' dep hdep
  case blocked =>
    intro _ id' hc hpend
    have hid : id' ≠ id := by
      rintro rfl
      rw [hself] at hpend
      cases hpend
    obtain ⟨dep, hdep, hnot⟩ := h.blocked hstop id' hc ((hne hid).symm.trans hpend)
    exact ⟨dep, hdep, (hdone dep).trans hnot⟩
  case ready =>
    intro id' h' dep hdep
    have hid : id' ≠ id := by
      rintro rfl
      rw [hself] at h'
      cases h'
    rw [hdone]
    obtain h'' | h'' := h.ready id' ((hne hid).symm.trans h') dep hdep
    · exact .inl h''
    · refine .inr ((hne ?_).trans h'')
      rintro rfl
      rw [hready] at h''
      cases h''
  case ancestors =>
    intro id' h' a ha
    rw [hdone]
    obtain h' | h' := List.mem_append.1 h'
    · exact h.ancestors id' h' a ha
    · obtain rfl := List.mem_singleton.1 h'
      exact h.ancestor_done hstop hdeps ha
  case started =>
    intro id'
    by_cases hid : id' = id
    · subst hid
      rw [hself]
      simp [DagExecutor.enter]
    · rw [hne hid, ← h.started]
      simp [DagExecutor.enter, hid]
  case once => exact h.once.append (List.nodup_singleton id) (by simpa using hfresh)
  case outside =>
    intro id' hc
    have hid : id' ≠ id := by
      rintro rfl
      rw [h.outside id' hc] at hready
      cases hready
    exact (hne hid).trans (h.outside id' hc)

/-- **A step that fails**: nothing that is done needs it, and it has started. -/
theorem Sound.setFailed (h : Sound D x) (hstarted : id ∈ x.started)
    (hfree : x.stop = none → ∀ id', (x.state id').done = true → id ∉ D.dependencies id')
    (hancestor : ∀ id' ∈ x.started, ¬ D.Ancestor id' id) : Sound D (x.setState id .failed) := by
  have hself : (x.setState id .failed).state id = .failed := setState_self ..
  have hne : ∀ {id' : String}, id' ≠ id → (x.setState id .failed).state id' = x.state id' :=
    fun hid => setState_ne x hid _
  have hother : ∀ id', (x.setState id .failed).state id' ≠ .failed → id' ≠ id := by
    rintro id' h' rfl
    exact h' hself
  constructor
  case closed =>
    intro hstop id' h' dep hdep
    have hid : id' ≠ id := by
      refine hother id' fun hfailed => ?_
      rw [hfailed] at h'
      cases h'
    rw [hne hid] at h'
    have hdep' : dep ≠ id := fun heq => hfree hstop id' h' (heq ▸ hdep)
    rw [hne hdep']
    exact h.closed hstop id' h' dep hdep
  case blocked =>
    intro hstop id' hc hpend
    have hid : id' ≠ id := hother id' (by rw [hpend]; decide)
    obtain ⟨dep, hdep, hnot⟩ := h.blocked hstop id' hc ((hne hid).symm.trans hpend)
    refine ⟨dep, hdep, ?_⟩
    by_cases hd : dep = id
    · rw [hd, hself]
      rfl
    · rw [hne hd]
      exact hnot
  case ready =>
    intro id' h' dep hdep
    have hid : id' ≠ id := hother id' (by rw [h']; decide)
    by_cases hd : dep = id
    · exact .inr (hd ▸ hself)
    · rw [hne hd]
      exact h.ready id' ((hne hid).symm.trans h') dep hdep
  case ancestors =>
    intro id' h' a ha
    have hd : a ≠ id := fun heq => hancestor id' h' (heq ▸ ha)
    rw [hne hd]
    exact h.ancestors id' h' a ha
  case started =>
    intro id'
    by_cases hid : id' = id
    · subst hid
      rw [hself]
      exact iff_of_true hstarted (.inr (.inr rfl))
    · rw [hne hid]
      exact h.started id'
  case once => exact h.once
  case outside =>
    intro id' hc
    have hid : id' ≠ id := by
      rintro rfl
      have := (h.started id').1 hstarted
      rw [h.outside id' hc] at this
      simp at this
    exact (hne hid).trans (h.outside id' hc)

theorem Sound.fail (h : Sound D x) (hstarted : id ∈ x.started)
    (hid : (x.state id).done = false) : Sound D (x.setState id .failed) :=
  h.setFailed hstarted (h.not_needed hid).1 (h.not_needed hid).2

theorem skipUnlaunchedForStop_state (D : Dag) (x : DagExecutor) (id : String) :
    ((x.skipUnlaunchedForStop D).state id = .skipped ∧ (x.state id = .pending ∨ x.state id = .ready)) ∨
      ((x.skipUnlaunchedForStop D).state id = x.state id ∧
        (D.steps.contains id = true → x.state id ≠ .pending ∧ x.state id ≠ .ready)) := by
  simp only [DagExecutor.skipUnlaunchedForStop]
  split
  · rename_i h
    rw [Bool.and_eq_true, Bool.or_eq_true, beq_iff_eq, beq_iff_eq] at h
    exact .inl ⟨rfl, h.2⟩
  · rename_i h
    rw [Bool.and_eq_true, Bool.or_eq_true, beq_iff_eq, beq_iff_eq, not_and, not_or] at h
    exact .inr ⟨rfl, h⟩

/-- **A stop skips what has not started.** -/
theorem Sound.skipUnlaunchedForStop (h : Sound D x) (hstop : x.stop ≠ none) :
    Sound D (x.skipUnlaunchedForStop D) := by
  have hmono : ∀ id, (x.state id).done = true → ((x.skipUnlaunchedForStop D).state id).done = true := by
    intro id hdone
    obtain ⟨h', -⟩ | ⟨h', -⟩ := skipUnlaunchedForStop_state D x id
    · rw [h']
      rfl
    · rw [h']
      exact hdone
  constructor
  case closed => exact fun hnone => absurd hnone hstop
  case blocked => exact fun hnone => absurd hnone hstop
  case ready =>
    intro id hready
    obtain ⟨h', -⟩ | ⟨h', hnot⟩ := skipUnlaunchedForStop_state D x id
    · rw [h'] at hready
      cases hready
    · rw [h'] at hready
      exact absurd hready (hnot (h.contains (by rw [hready]; decide))).2
  case ancestors => exact fun id hid a ha => hmono a (h.ancestors id hid a ha)
  case started =>
    intro id
    obtain ⟨h', hold⟩ | ⟨h', -⟩ := skipUnlaunchedForStop_state D x id
    · rw [h']
      refine (h.started id).trans ?_
      obtain hold | hold := hold <;> rw [hold] <;> simp
    · rw [h']
      exact h.started id
  case once => exact h.once
  case outside =>
    intro id hc
    simp only [DagExecutor.skipUnlaunchedForStop, hc, Bool.false_and, Bool.false_eq_true, if_false]
    exact h.outside id hc

end LlmGateway.Pipeline
