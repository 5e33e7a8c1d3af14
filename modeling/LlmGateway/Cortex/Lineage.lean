import LlmGateway.Cortex.History
import LlmGateway.Foundations.Pointers

/-!
# Belief lineage

An assertion points to the one that supersedes it. Creates, supersedes and merges set pointers only to
assertions that nothing supersedes, and so every chain still ends (`Change.redirects`). A `PATCH` may name
any assertion: it checks that there is one, not where the chain of that one leads, and a pointer back closes
a cycle.

`lineage_throughout_iff` is the exact condition: a history keeps every chain ending if and only if none of
its accepted updates points an assertion to one that leads back to it.
-/

namespace LlmGateway.Cortex

open Pointers

variable {ρ : Type}

/-- `superseded_by` of an assertion. -/
def next (s : Store ρ) (i : ℕ) : Option ℕ := (s.assertions.get? i).bind Assertion.supersededBy

variable {i : ℕ} {s s' : Store ρ} {T : Text} {a : Action ρ}

theorem next_of_some {r : Assertion ρ} (h : s.assertions.get? i = some r) :
    next s i = r.supersededBy := by
  rw [next, h, Option.bind_some]

theorem next_of_none (h : s.assertions.get? i = none) : next s i = none := by
  rw [next, h, Option.bind_none]

/-- The lineage is well founded: no pointer leads back, and the chain of every assertion ends at one that
nothing supersedes. -/
structure Lineage (s : Store ρ) : Prop where
  acyclic : ∀ i, ¬ Relation.TransGen (Points (next s)) i i
  ends : ∀ i r, s.assertions.get? i = some r →
    ∃ c r', Leads (next s) i c ∧ s.assertions.get? c = some r' ∧ r'.supersededBy = none

theorem Leads.exists_row (hs : WellFormed s) {c : ℕ} (h : Leads (next s) i c)
    {r : Assertion ρ} (hr : s.assertions.get? i = some r) : ∃ r', s.assertions.get? c = some r' := by
  induction h with
  | refl => exact ⟨r, hr⟩
  | tail _ hstep ih =>
    obtain ⟨r', hr'⟩ := ih
    exact hs.pointers _ r' _ hr' ((next_of_some hr').symm.trans hstep)

theorem lineage_iff (hs : WellFormed s) : Lineage s ↔ ∀ i, Settles (next s) i := by
  constructor
  · intro h i
    rcases hr : s.assertions.get? i with _ | r
    · exact .of_none (next_of_none hr)
    · obtain ⟨c, r', hic, hc, hnone⟩ := h.ends i r hr
      exact ⟨c, hic, (next_of_some hc).trans hnone⟩
  · intro h
    refine ⟨fun i => (h i).not_cycle, fun i r hr => ?_⟩
    obtain ⟨c, hic, hnone⟩ := h i
    obtain ⟨r', hr'⟩ := Leads.exists_row hs hic hr
    exact ⟨c, r', hic, hr', (next_of_some hr').symm.trans hnone⟩

/-! ## What the calls do to the pointers -/

/-- The pointers of `s'` are those of `s`, but for some that go to assertions without one. -/
def Redirects (s s' : Store ρ) : Prop :=
  ∀ i, next s' i = next s i ∨ ∃ v, next s' i = some v ∧ next s' v = none

theorem Change.redirects_of_rows (h : Change T s a s') (hrow : ∀ i r', s'.assertions.get? i = some r' →
      r'.supersededBy = next s i ∨ ∃ v, r'.supersededBy = some v ∧ next s' v = none) : Redirects s s' := by
  intro i
  rcases hr' : s'.assertions.get? i with _ | r'
  · rcases hr : s.assertions.get? i with _ | r
    · exact .inl ((next_of_none hr').trans (next_of_none hr).symm)
    · obtain ⟨r', hsome⟩ := h.exists_row hr
      rw [hr'] at hsome
      cases hsome
  · rw [next_of_some hr']
    exact hrow i r' hr'

theorem Created.next_nextId {body : AssertionCreate ρ} (h : Created T body s s')
    (htarget : ∀ id, body.target = some id → ∃ r, s.assertions.get? id = some r) :
    next s' s.assertions.nextId = none := by
  rcases hr' : s'.assertions.get? s.assertions.nextId with _ | r'
  · exact next_of_none hr'
  · obtain ⟨-, -, hnone⟩ | ⟨r, hr, -⟩ := h.row htarget hr'
    · rw [next_of_some hr', hnone]
    · rw [Table.get?_nextId] at hr
      cases hr

theorem Superseded.next_nextId {body : SupersedeRequest ρ} {old : Assertion ρ}
    (h : Superseded body old s s') (hold : s.assertions.get? body.oldAssertionId = some old) :
    next s' s.assertions.nextId = none := by
  obtain ⟨r', hr'⟩ := h.replacement
  obtain ⟨-, -, hnone⟩ | ⟨r, hr, -⟩ := h.row hold hr'
  · rw [next_of_some hr', hnone]
  · rw [Table.get?_nextId] at hr
    cases hr

/-- **Every call but an update** changes pointers only to assertions that nothing supersedes. -/
theorem Change.redirects (h : Change T s a s') (ha : ∀ id body, a ≠ .updateAssertion id body) : Redirects s s' := by
  refine h.redirects_of_rows fun i r' hr' => ?_
  cases h with
  | refused => exact .inl (next_of_some hr').symm
  | created htarget h =>
    obtain ⟨rfl, -, hnone⟩ | ⟨r, hr, -, heq | ⟨-, hnew⟩⟩ := h.row htarget hr'
    · exact .inl (hnone.trans (next_of_none (Table.get?_nextId _)).symm)
    · exact .inl (heq.trans (next_of_some hr).symm)
    · exact .inr ⟨_, hnew, h.next_nextId htarget⟩
  | superseded hacc hold h =>
    obtain ⟨rfl, -, hnone⟩ | ⟨r, hr, -, heq | ⟨-, hnew⟩⟩ := h.row hold hr'
    · exact .inl (hnone.trans (next_of_none (Table.get?_nextId _)).symm)
    · exact .inl (heq.trans (next_of_some hr).symm)
    · exact .inr ⟨_, hnew, h.next_nextId hold⟩
  | updated => exact absurd rfl (ha _ _)
  | born hacc h => exact .inl (next_of_some (h.assertions ▸ hr')).symm
  | moved hmoves h =>
    rw [h.assertions, Option.map_eq_some_iff] at hr'
    obtain ⟨r, hr, rfl⟩ := hr'
    exact .inl (next_of_some hr).symm
  | @merged sourceId targetId now failure s' hacc h =>
    obtain ⟨r, hr, ⟨-, heq⟩ | ⟨-, hact, ⟨-, v, r₀, hv, hr₀, hent, hnone⟩ | ⟨-, -, hnone, -⟩⟩⟩ := h.row hr'
    · exact .inl (heq.trans (next_of_some hr).symm)
    · -- The target's assertion is not one of the source, so the merge leaves it active.
      refine .inr ⟨v, hv, ?_⟩
      obtain ⟨r₁, hr₁⟩ : ∃ r₁, s'.assertions.get? v = some r₁ := by
        rw [h.assertions, hr₀]
        exact ⟨_, rfl⟩
      obtain ⟨r₂, hr₂, ⟨-, heq⟩ | ⟨hsource, -⟩⟩ := h.row hr₁
      · obtain rfl := Option.some.inj (hr₀.symm.trans hr₂)
        rw [next_of_some hr₁, heq, hnone]
      · obtain rfl := Option.some.inj (hr₀.symm.trans hr₂)
        exact absurd (hsource.symm.trans hent) hacc.differ
    · exact .inl (hnone.trans (hact.symm.trans (next_of_some hr).symm))

theorem Updated.next_eq {id : ℕ} {body : AssertionUpdate ρ} (h : Updated id body s s')
    (hfinds : body.Finds id s.assertions) (hbody : body.supersededBy = none) : next s' = next s := by
  funext i
  rcases hr : s.assertions.get? i with _ | r
  · rw [next, h.assertions, hr]
    exact (next_of_none hr).symm
  · obtain ⟨r', hr'⟩ : ∃ r', s'.assertions.get? i = some r' := by
      rw [h.assertions, hr]
      exact ⟨_, rfl⟩
    obtain ⟨r₀, hr₀, -, hsup⟩ := h.row hfinds hr'
    rw [hbody, Option.none_or, ite_self] at hsup
    rw [next_of_some hr', next_of_some hr₀, hsup]

theorem Updated.next_eq_update {id v : ℕ} {body : AssertionUpdate ρ}
    (h : Updated id body s s') (hacc : body.Accepted id s) (hbody : body.supersededBy = some v) :
    next s' = Function.update (next s) id (some v) := by
  funext i
  rcases hr : s.assertions.get? i with _ | r
  · have hne : i ≠ id := by
      rintro rfl
      obtain ⟨r, hr'⟩ := hacc.existing
      rw [hr] at hr'
      cases hr'
    rw [Function.update_of_ne hne, next_of_none hr, next, h.assertions, hr]
    rfl
  · obtain ⟨r', hr'⟩ : ∃ r', s'.assertions.get? i = some r' := by
      rw [h.assertions, hr]
      exact ⟨_, rfl⟩
    obtain ⟨r₀, hr₀, -, hsup⟩ := h.row hacc.finds hr'
    rw [hbody, Option.some_or] at hsup
    rw [next_of_some hr', hsup]
    split
    · rename_i hi
      rw [hi, Function.update_self]
    · rename_i hi
      rw [Function.update_of_ne hi, next_of_some hr₀]

/-! ## The exact condition -/

/-- The call does not point an assertion to one that leads back to it. -/
def Action.KeepsLineage (s : Store ρ) : Action ρ → Prop
  | .updateAssertion id body =>
    ∀ v, body.supersededBy = some v → body.Accepted id s → ¬ Leads (next s) v id
  | _ => True

theorem keepsLineage_of_ne (ha : ∀ id body, a ≠ .updateAssertion id body) :
    a.KeepsLineage s := by
  cases a with
  | updateAssertion id body => exact absurd rfl (ha id body)
  | _ => trivial

theorem lineage_apply_iff (T : Text) (hs : WellFormed s) (hl : Lineage s) (a : Action ρ) :
    Lineage (apply T s a) ↔ a.KeepsLineage s := by
  have hsettles := (lineage_iff hs).1 hl
  rw [lineage_iff (hs.apply T a)]
  have h := apply_change T hs a
  by_cases ha : ∀ id body, a ≠ .updateAssertion id body
  · exact iff_of_true (settles_of_redirect (h.redirects ha) hsettles) (keepsLineage_of_ne ha)
  obtain ⟨id, body, rfl⟩ : ∃ id body, a = .updateAssertion id body := by
    by_contra hne
    exact ha fun id body heq => hne ⟨id, body, heq⟩
  generalize apply T s (.updateAssertion id body) = s' at h
  cases h with
  | refused hno => exact iff_of_true hsettles fun v _ hacc => absurd hacc hno
  | updated hacc h =>
    rcases hbody : body.supersededBy with _ | v
    · rw [h.next_eq hacc.finds hbody]
      exact iff_of_true hsettles fun v hv => by rw [hbody] at hv; cases hv
    · rw [h.next_eq_update hacc hbody, settles_update_iff hsettles]
      constructor
      · intro hlead v' hv' _
        obtain rfl := Option.some.inj (hbody.symm.trans hv')
        exact hlead
      · exact fun h => h v hbody hacc
  | moved hmoves => exact hmoves.elim

/-- **Belief lineage.** A history keeps every chain of superseded assertions ending at an active one if and
only if none of its accepted updates names an assertion that leads back to the updated one. -/
theorem lineage_throughout_iff (T : Text) (history : List (Action ρ)) :
    System.Throughout (apply T) Lineage Store.empty history ↔
      System.EachStep (apply T) (fun s a => a.KeepsLineage s) Store.empty history := by
  refine throughout_history_iff T ?_ (fun s a hs hl => lineage_apply_iff T hs hl a) history
  exact (lineage_iff .empty).2 fun i => .of_none rfl

/-- An entity, an assertion of it, and an update that lets the assertion supersede itself. -/
def selfSupersession : List (Action Unit) :=
  [.createEntity { id := some "project:gateway", type := "project", name := "Gateway", aliases := [],
                   attributes := [], status := none, slug := "", refused := none,
                   now := "2026-01-01T00:00:00Z" },
   .createAssertion { entityId := "project:gateway", claim := "The gateway listens on port 8080.",
                      force := false, supersedesId := none, dryRun := false, evidenceUris := none,
                      validUntil := none, columns := (), rejected := none, blocked := none,
                      alreadyKnown := false, reviewStatus := none, flagged := false, notes := id,
                      now := "2026-01-01T00:00:01Z" },
   .updateAssertion 1 { supersededBy := some 1, validUntil := none, reviewStatus := none,
                        evidenceUris := none, others := none, force := false, rejected := none,
                        flagged := false, notes := id, now := "2026-01-01T00:00:02Z" }]

theorem next_selfSupersession (T : Text) : next (selfSupersession.foldl (apply T) Store.empty) 1 = some 1 := by
  rfl

/-- Whatever the text functions are, the assertion is on a cycle. -/
theorem selfSupersession_breaks_lineage :
    ¬ ∃ T : Text, Lineage (selfSupersession.foldl (apply T) Store.empty) := by
  rintro ⟨T, h⟩
  exact h.acyclic 1 (.single (next_selfSupersession T))

end LlmGateway.Cortex
