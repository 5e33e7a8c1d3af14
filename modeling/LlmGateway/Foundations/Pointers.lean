import Mathlib.Logic.Relation
import Mathlib.Logic.Function.Basic

/-!
# Chains of pointers

Each item points to at most one other: `next a = some b`. `Leads next a b` follows pointers from `a` to
`b`, and `Settles next a` says that the chain of `a` ends, at an item without a pointer. A chain that ends
does not come back (`Settles.not_cycle`).

Two rules say how chains change. `settles_of_redirect`: pointers that are changed to items without a
pointer leave every chain ending. `settles_update_iff`: when every chain ends, one changed pointer leaves
every chain ending exactly when its target did not lead back to where the pointer stands.
-/

namespace LlmGateway.Pointers

open Relation

variable {ι : Type*} {next next' : ι → Option ι} {a b c : ι}

/-- The pointer of `a` is to `b`. -/
def Points (next : ι → Option ι) (a b : ι) : Prop := next a = some b

/-- Following pointers from `a` comes to `b`. -/
def Leads (next : ι → Option ι) (a b : ι) : Prop := ReflTransGen (Points next) a b

/-- The chain of `a` ends. -/
def Settles (next : ι → Option ι) (a : ι) : Prop := ∃ c, Leads next a c ∧ next c = none

theorem Settles.of_none (h : next a = none) : Settles next a := ⟨a, .refl, h⟩

theorem Settles.of_points (h : next a = some b) (hb : Settles next b) : Settles next a := by
  obtain ⟨c, hc, hn⟩ := hb
  exact ⟨c, .head h hc, hn⟩

theorem Leads.eq_of_none (h : Leads next a b) (ha : next a = none) : b = a := by
  obtain rfl | ⟨c, hac, -⟩ := ReflTransGen.cases_head h
  · rfl
  · exact absurd (ha.symm.trans hac) (Option.some_ne_none c).symm

theorem Leads.end_unique (hb : Leads next a b) (hbn : next b = none) (hc : Leads next a c) (hcn : next c = none) :
    b = c := by
  induction hb using ReflTransGen.head_induction_on with
  | refl => exact (hc.eq_of_none hbn).symm
  | @head x y hxy _ ih =>
    obtain rfl | ⟨z, hxz, hzc⟩ := ReflTransGen.cases_head hc
    · exact absurd (hcn.symm.trans hxy) (Option.some_ne_none y).symm
    · obtain rfl := Option.some.inj (hxy.symm.trans hxz)
      exact ih hzc

theorem Settles.not_cycle (h : Settles next a) : ¬ TransGen (Points next) a a := by
  obtain ⟨c, hac, hc⟩ := h
  induction hac using ReflTransGen.head_induction_on with
  | refl =>
    intro h
    obtain ⟨b, hb, -⟩ := TransGen.head'_iff.1 h
    exact Option.some_ne_none b (hb.symm.trans hc)
  | head hxy _ ih =>
    intro h
    obtain ⟨b, hb, hba⟩ := TransGen.head'_iff.1 h
    obtain rfl := Option.some.inj (hb.symm.trans hxy)
    exact ih (TransGen.tail' hba hxy)

/-- **Redirecting to ends.** Pointers may be changed to items that have none. -/
theorem settles_of_redirect (hnext : ∀ x, next' x = next x ∨ ∃ y, next' x = some y ∧ next' y = none)
    (h : ∀ x, Settles next x) (x : ι) : Settles next' x := by
  obtain ⟨c, hxc, hc⟩ := h x
  induction hxc using ReflTransGen.head_induction_on with
  | refl =>
    obtain hx | ⟨y, hy, hn⟩ := hnext c
    · exact .of_none (hx.trans hc)
    · exact .of_points hy (.of_none hn)
  | @head x z hxz _ ih =>
    obtain hx | ⟨y, hy, hn⟩ := hnext x
    · exact .of_points (hx.trans hxz) ih
    · exact .of_points hy (.of_none hn)

section Update

variable [DecidableEq ι]

theorem Leads.update (h : Leads next c a) (v : Option ι) : Leads (Function.update next a v) c a := by
  induction h using ReflTransGen.head_induction_on with
  | refl => exact .refl
  | @head x y hxy _ ih =>
    by_cases hxa : x = a
    · subst hxa
      exact .refl
    · have hxy' : Points (Function.update next a v) x y := by
        rw [Points, Function.update_of_ne hxa]
        exact hxy
      exact .head hxy' ih

theorem Leads.update_of_not (h : Leads next c b) (hca : ¬ Leads next c a) (v : Option ι) :
    Leads (Function.update next a v) c b := by
  induction h using ReflTransGen.head_induction_on with
  | refl => exact .refl
  | @head x y hxy _ ih =>
    have hxa : x ≠ a := fun h => hca (h ▸ .refl)
    have hxy' : Function.update next a v x = some y := (Function.update_of_ne hxa v next).trans hxy
    exact .head hxy' (ih fun hya => hca (.head hxy hya))

theorem Settles.update (h : Settles next c) (hca : ¬ Leads next c a) (v : Option ι) :
    Settles (Function.update next a v) c := by
  obtain ⟨d, hcd, hd⟩ := h
  have hda : d ≠ a := fun h => hca (h ▸ hcd)
  exact ⟨d, hcd.update_of_not hca v, (Function.update_of_ne hda v next).trans hd⟩

/-- **One new pointer.** Where every chain ends, a new pointer keeps this exactly when its target did not
lead back to it. -/
theorem settles_update_iff (h : ∀ x, Settles next x) :
    (∀ x, Settles (Function.update next a (some b)) x) ↔ ¬ Leads next b a := by
  constructor
  · intro hall hba
    refine (hall a).not_cycle ?_
    have hab : Points (Function.update next a (some b)) a b := Function.update_self ..
    exact .head' hab (hba.update (some b))
  · intro hba x
    have hb : Settles (Function.update next a (some b)) b := (h b).update hba (some b)
    by_cases hxa : Leads next x a
    · obtain ⟨c, hac, hc⟩ := hb
      refine ⟨c, (hxa.update (some b)).trans (.head ?_ hac), hc⟩
      exact Function.update_self ..
    · exact (h x).update hxa (some b)

end Update

end LlmGateway.Pointers
