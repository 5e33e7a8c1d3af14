import Mathlib.Data.Nat.Notation
import Mathlib.Order.Defs.Unbundled

/-!
# Transition systems and their runs

A labelled transition system, its runs (`Run s as t`: the actions `as` lead from `s` to `t`) and its
reachable states. `restrict` keeps the steps that meet a condition on the state before the step and
on the action: a property of "every run whose steps all meet the condition" is a property of the
restricted system.

The rules are `Reachable.invariant` (an invariant kept by every step holds of every reachable
state), `Run.invariant` (the same from an arbitrary start), `Run.history` (the same for a relation
between the state and the actions so far) and `Run.rel` (a reflexive and transitive relation between
the ends of every step relates the ends of every run). For systems given by a partial function, `exec`
runs a list of actions and `run_of_exec` turns its result into a run; `outputs` collects what the steps
put out, and `Run.outputs` is the rule for what relates the outputs of a run to the state it ends in.
For systems given by a total function, `throughout_iff_eachStep` turns an exact condition on one step
into an exact condition on runs.
-/

namespace LlmGateway

/-- A labelled transition system. -/
structure System (σ α : Type*) where
  init : σ → Prop
  step : σ → α → σ → Prop

namespace System

variable {σ α : Type*}

/-- The system whose steps are the defined values of `f`. -/
def ofFn (init : σ → Prop) (f : σ → α → Option σ) : System σ α where
  init := init
  step s a t := f s a = some t

/-- The steps that meet the condition `P` on the state before the step and the action. -/
def restrict (S : System σ α) (P : σ → α → Prop) : System σ α where
  init := S.init
  step s a t := P s a ∧ S.step s a t

/-- `S.Run s as t`: the actions `as` lead from `s` to `t`. -/
inductive Run (S : System σ α) : σ → List α → σ → Prop
  | nil (s : σ) : Run S s [] s
  | cons {s t u : σ} {a : α} {as : List α} (h : S.step s a t) (hr : Run S t as u) :
    Run S s (a :: as) u

/-- The states that runs from an initial state reach. -/
inductive Reachable (S : System σ α) : σ → Prop
  | init {s : σ} (h : S.init s) : Reachable S s
  | step {s t : σ} {a : α} (hs : Reachable S s) (h : S.step s a t) : Reachable S t

variable {S : System σ α}

/-- What holds at the start and is kept by every step holds in every reachable state. -/
theorem Reachable.invariant {I : σ → Prop} (hinit : ∀ s, S.init s → I s)
    (hstep : ∀ s a t, I s → S.step s a t → I t) {s : σ} (h : S.Reachable s) : I s := by
  induction h with
  | init h => exact hinit _ h
  | step _ h ih => exact hstep _ _ _ ih h

/-- What every step keeps, every run keeps. -/
theorem Run.invariant {I : σ → Prop} (hstep : ∀ s a t, I s → S.step s a t → I t) {s t : σ}
    {as : List α} (h : S.Run s as t) (hs : I s) : I t := by
  induction h with
  | nil => exact hs
  | cons h _ ih => exact ih (hstep _ _ _ hs h)

/-- A preorder that contains every step contains every run. -/
theorem Run.rel {R : σ → σ → Prop} (hrefl : ∀ s, R s s) (htrans : ∀ s t u, R s t → R t u → R s u)
    (hstep : ∀ s a t, S.step s a t → R s t) {s t : σ} {as : List α} (h : S.Run s as t) : R s t := by
  induction h with
  | nil => exact hrefl _
  | cons h _ ih => exact htrans _ _ _ (hstep _ _ _ h) ih

/-- A relation between the state and the actions so far that every step keeps holds at the end of every run. -/
theorem Run.history {J : σ → List α → Prop} (hstep : ∀ s a t as, J s as → S.step s a t → J t (as ++ [a])) {s t : σ}
    {as bs : List α} (h : S.Run s as t) (hs : J s bs) : J t (bs ++ as) := by
  induction h generalizing bs with
  | nil => rwa [List.append_nil]
  | cons h _ ih =>
    have hrest := ih (hstep _ _ _ _ hs h)
    rwa [List.append_assoc] at hrest

theorem Reachable.run {s t : σ} {as : List α} (hs : S.Reachable s) (h : S.Run s as t) :
    S.Reachable t := by
  induction h with
  | nil => exact hs
  | cons h _ ih => exact ih (hs.step h)

theorem Run.append {s t u : σ} {as bs : List α} (h : S.Run s as t) (h' : S.Run t bs u) :
    S.Run s (as ++ bs) u := by
  induction h with
  | nil => exact h'
  | cons h _ ih => exact .cons h (ih h')

/-- A run is no longer than a measure that every step makes smaller as long as an invariant holds. -/
theorem Run.length_add_le {I : σ → Prop} {μ : σ → ℕ} (hinv : ∀ s a t, I s → S.step s a t → I t)
    (hstep : ∀ s a t, I s → S.step s a t → μ t < μ s) {s t : σ} {as : List α} (h : S.Run s as t) (hs : I s) :
    as.length + μ t ≤ μ s := by
  induction h with
  | nil => simp
  | cons h _ ih =>
    have hlt := hstep _ _ _ hs h
    have hle := ih (hinv _ _ _ hs h)
    simp only [List.length_cons]
    omega

theorem Run.of_append {s u : σ} {as bs : List α} (h : S.Run s (as ++ bs) u) :
    ∃ t, S.Run s as t ∧ S.Run t bs u := by
  induction as generalizing s with
  | nil => exact ⟨s, .nil s, h⟩
  | cons a as ih =>
    cases h with
    | cons ha hr =>
      obtain ⟨t, hleft, hright⟩ := ih hr
      exact ⟨t, .cons ha hleft, hright⟩

/-! ## Paths -/

/-- Some actions lead from `s` to `t`. -/
def Path (S : System σ α) (s t : σ) : Prop := ∃ as, S.Run s as t

theorem Path.refl (s : σ) : S.Path s s := ⟨[], .nil s⟩

theorem Path.single {s t : σ} {a : α} (h : S.step s a t) : S.Path s t := ⟨[a], .cons h (.nil t)⟩

theorem Path.trans {s t u : σ} (h : S.Path s t) (h' : S.Path t u) : S.Path s u := by
  obtain ⟨as, h⟩ := h
  obtain ⟨bs, h'⟩ := h'
  exact ⟨as ++ bs, h.append h'⟩

theorem Path.invariant {I : σ → Prop} (hstep : ∀ s a t, I s → S.step s a t → I t) {s t : σ}
    (h : S.Path s t) (hs : I s) : I t := by
  obtain ⟨as, h⟩ := h
  exact h.invariant hstep hs

variable {P : σ → α → Prop} {f : σ → α → Option σ} {init : σ → Prop}

theorem Path.mono {Q : σ → α → Prop} (hPQ : ∀ s a, P s a → Q s a) {s t : σ}
    (h : (S.restrict P).Path s t) : (S.restrict Q).Path s t := by
  obtain ⟨as, h⟩ := h
  refine ⟨as, ?_⟩
  induction h with
  | nil => exact .nil _
  | cons h _ ih => exact .cons ⟨hPQ _ _ h.1, h.2⟩ ih

theorem Reachable.restrict_restrict {Q : σ → α → Prop} {s : σ}
    (h : (S.restrict fun s a => P s a ∧ Q s a).Reachable s) : ((S.restrict P).restrict Q).Reachable s := by
  induction h with
  | init h => exact .init h
  | step _ h ih => exact ih.step ⟨h.1.2, h.1.1, h.2⟩

theorem Reachable.of_restrict {s : σ} (h : (S.restrict P).Reachable s) : S.Reachable s := by
  induction h with
  | init h => exact .init h
  | step _ h ih => exact ih.step h.2

theorem Run.of_restrict {s t : σ} {as : List α} (h : (S.restrict P).Run s as t) : S.Run s as t := by
  induction h with
  | nil => exact .nil _
  | cons h _ ih => exact .cons h.2 ih

/-- A run is a run of a restriction whose condition always holds. -/
theorem Run.restrict_of_forall {s t : σ} {as : List α} (h : S.Run s as t)
    (hP : ∀ s, ∀ a ∈ as, P s a) : (S.restrict P).Run s as t := by
  induction h with
  | nil => exact .nil _
  | cons h _ ih => exact .cons ⟨hP _ _ List.mem_cons_self, h⟩ (ih fun s a ha => hP s a (List.mem_cons_of_mem _ ha))

/-! ## Executing a list of actions -/

/-- The actions `as` from `s`, when all of them are defined. -/
def exec (f : σ → α → Option σ) : σ → List α → Option σ
  | s, [] => some s
  | s, a :: as => (f s a).bind fun t => exec f t as

theorem run_of_exec {s t : σ} {as : List α} (h : exec f s as = some t) : (ofFn init f).Run s as t := by
  induction as generalizing s with
  | nil =>
    obtain rfl := Option.some.inj h
    exact .nil _
  | cons a as ih =>
    obtain ⟨u, hu, h⟩ := Option.bind_eq_some_iff.1 h
    exact .cons hu (ih h)

theorem reachable_of_exec {s t : σ} {as : List α}
    (hs : init s) (h : exec f s as = some t) : (ofFn init f).Reachable t :=
  (Reachable.init hs).run (run_of_exec h)

/-- The defined values of `f` whose arguments meet the condition. -/
def guarded (f : σ → α → Option σ) (P : σ → α → Prop) [∀ s a, Decidable (P s a)] (s : σ) (a : α) :
    Option σ :=
  if P s a then f s a else none

theorem run_of_exec_guarded
    [∀ s a, Decidable (P s a)] {s t : σ} {as : List α} (h : exec (guarded f P) s as = some t) :
    ((ofFn init f).restrict P).Run s as t := by
  induction as generalizing s with
  | nil =>
    obtain rfl := Option.some.inj h
    exact .nil _
  | cons a as ih =>
    obtain ⟨u, hu, h⟩ := Option.bind_eq_some_iff.1 h
    unfold guarded at hu
    split at hu
    · exact .cons ⟨‹_›, hu⟩ (ih h)
    · cases hu

theorem reachable_of_exec_guarded [∀ s a, Decidable (P s a)] {s t : σ} {as : List α} (hs : init s)
    (h : exec (guarded f P) s as = some t) : ((ofFn init f).restrict P).Reachable t :=
  (Reachable.init hs).run (run_of_exec_guarded h)

/-! ## What the steps of a run put out -/

/-- The outputs of the actions `as` from `s`, in order. -/
def outputs {β : Type*} (f : σ → α → Option σ) (out : σ → α → β) : σ → List α → List β
  | _, [] => []
  | s, a :: as => out s a :: (f s a).elim [] fun t => outputs f out t as

/-- A relation between the state and the outputs so far that every step keeps holds at the end of
every run. -/
theorem Run.outputs {β : Type*} {out : σ → α → β} {J : σ → List β → Prop}
    (hstep : ∀ s a t l, J s l → P s a → f s a = some t → J t (l ++ [out s a])) {s t : σ}
    {as : List α} (h : ((ofFn init f).restrict P).Run s as t) {l : List β} (hs : J s l) :
    J t (l ++ System.outputs f out s as) := by
  induction h generalizing l with
  | nil =>
    rw [System.outputs, List.append_nil]
    exact hs
  | cons h _ ih =>
    obtain ⟨hP, (h : f _ _ = some _)⟩ := h
    have := ih (hstep _ _ _ _ hs hP h)
    rw [List.append_assoc, List.singleton_append] at this
    rw [System.outputs, h]
    exact this

/-! ## Systems whose steps are always defined -/

/-- `I` holds at every state that the actions `as` lead through from `s`. -/
def Throughout (f : σ → α → σ) (I : σ → Prop) : σ → List α → Prop
  | s, [] => I s
  | s, a :: as => I s ∧ Throughout f I (f s a) as

/-- Every action of `as` meets the condition `C` at the state before it. -/
def EachStep (f : σ → α → σ) (C : σ → α → Prop) : σ → List α → Prop
  | _, [] => True
  | s, a :: as => C s a ∧ EachStep f C (f s a) as

theorem Throughout.head {f : σ → α → σ} {I : σ → Prop} {s : σ} {as : List α} (h : Throughout f I s as) :
    I s := by
  cases as with
  | nil => exact h
  | cons a as => exact h.1

/-- **Exact conditions.** When a step from a state with `I` keeps `I` exactly if it meets `C`, a run keeps
`I` throughout exactly if all of its steps meet `C`. -/
theorem throughout_iff_eachStep {f : σ → α → σ} {W I : σ → Prop} {C : σ → α → Prop}
    (hW : ∀ s a, W s → W (f s a)) (hC : ∀ s a, W s → I s → (I (f s a) ↔ C s a)) {s : σ}
    (hs : W s) (hi : I s) (as : List α) : Throughout f I s as ↔ EachStep f C s as := by
  induction as generalizing s with
  | nil => exact iff_of_true hi trivial
  | cons a as ih =>
    constructor
    · rintro ⟨-, h⟩
      exact ⟨(hC s a hs hi).1 h.head, (ih (hW s a hs) h.head).1 h⟩
    · rintro ⟨hc, h⟩
      have hi' := (hC s a hs hi).2 hc
      exact ⟨hi, (ih (hW s a hs) hi').2 h⟩

/-- **Exact conditions, step by step.** When a step from a state with `I` does what `G` asks of it and
keeps `I` exactly if it meets `C`, all steps of a run do so exactly if all of them meet `C`. -/
theorem eachStep_iff_eachStep {f : σ → α → σ} {W I : σ → Prop} {G C : σ → α → Prop}
    (hW : ∀ s a, W s → W (f s a)) (hC : ∀ s a, W s → I s → (G s a ∧ I (f s a) ↔ C s a)) {s : σ}
    (hs : W s) (hi : I s) (as : List α) :
    EachStep f (fun s a => G s a ∧ I (f s a)) s as ↔ EachStep f C s as := by
  induction as generalizing s with
  | nil => exact Iff.rfl
  | cons a as ih =>
    constructor
    · rintro ⟨hg, h⟩
      exact ⟨(hC s a hs hi).1 hg, (ih (hW s a hs) hg.2).1 h⟩
    · rintro ⟨hc, h⟩
      have hg := (hC s a hs hi).2 hc
      exact ⟨hg, (ih (hW s a hs) hg.2).2 h⟩

end System

end LlmGateway
