import LlmGateway.Foundations.Dict
import Mathlib.Algebra.BigOperators.Group.Finset.Basic
import Mathlib.Algebra.BigOperators.Group.List.Basic

/-!
# Sums over keys

Sums that a program forms over the items of a dictionary, or over the rows of a table, turned into
sums over keys: over any finite set that holds the keys that occur (`Dict.sum_items`,
`sum_map_eq_sum_fibers`). Two such sums are then compared key by key over one set, and a change at
one key moves the sum by what the key contributes (`sum_eq_add_of_eq_off`).
-/

namespace LlmGateway

variable {ι κ ν M : Type*} [AddCommMonoid M]

section Keys

variable [DecidableEq κ]

theorem Dict.sum_items (d : Dict κ ν) (f : κ → ν → M) {S : Finset κ}
    (hS : ∀ k v, d.get? k = some v → k ∈ S) :
    (d.items.map fun e => f e.1 e.2).sum = ∑ k ∈ S, (d.get? k).elim 0 (f k) := by
  have hval : ∀ e ∈ d.items, (d.get? e.1).elim 0 (f e.1) = f e.1 e.2 := by
    intro e he
    rw [Dict.mem_items_iff.1 he, Option.elim_some]
  have hkeys : (d.items.map Prod.fst).toFinset ⊆ S := by
    intro k hk
    obtain ⟨e, he, rfl⟩ := List.mem_map.1 (List.mem_toFinset.1 hk)
    exact hS e.1 e.2 (Dict.mem_items_iff.1 he)
  have hoff : ∀ k ∈ S, k ∉ (d.items.map Prod.fst).toFinset → (d.get? k).elim 0 (f k) = 0 := by
    intro k _ hk
    rw [List.mem_toFinset] at hk
    rw [Dict.get?, Dict.lookup_eq_none hk, Option.elim_none]
  rw [← Finset.sum_subset hkeys hoff, List.sum_toFinset _ d.nodup, List.map_map]
  exact congrArg List.sum (List.map_congr_left fun e he => (hval e he).symm)

theorem sum_map_eq_sum_fibers (key : ι → Option κ) (f : ι → M) (l : List ι) {S : Finset κ}
    (hS : ∀ a ∈ l, ∀ k, key a = some k → k ∈ S) :
    (l.map f).sum = ((l.filter fun a => key a = none).map f).sum +
      ∑ k ∈ S, ((l.filter fun a => key a = some k).map f).sum := by
  induction l with
  | nil => simp
  | cons a l ih =>
    have ih := ih fun b hb => hS b (List.mem_cons_of_mem _ hb)
    rw [List.map_cons, List.sum_cons, ih]
    cases hk : key a with
    | none =>
      simp only [List.filter_cons, hk, decide_true, if_true, List.map_cons, List.sum_cons,
        reduceCtorEq, decide_false, Bool.false_eq_true, if_false, add_assoc]
    | some k =>
      have hkS := hS a List.mem_cons_self k hk
      have hsum : ∑ j ∈ S, (((a :: l).filter fun b => key b = some j).map f).sum =
          f a + ∑ j ∈ S, ((l.filter fun b => key b = some j).map f).sum := by
        rw [← Finset.add_sum_erase S _ hkS, ← Finset.add_sum_erase S _ hkS, ← add_assoc]
        congr 1
        · simp [hk]
        · refine Finset.sum_congr rfl fun j hj => ?_
          have hne : k ≠ j := Ne.symm (Finset.ne_of_mem_erase hj)
          simp [hk, hne]
      rw [hsum]
      simp only [List.filter_cons, hk, reduceCtorEq, decide_false, Bool.false_eq_true, if_false]
      exact add_left_comm _ _ _

end Keys

theorem sum_eq_add_of_eq_off [DecidableEq ι] {S : Finset ι} {f g : ι → M} {k : ι} {d : M}
    (hk : k ∈ S) (hoff : ∀ i ∈ S, i ≠ k → g i = f i) (hgk : g k = d + f k) :
    ∑ i ∈ S, g i = d + ∑ i ∈ S, f i := by
  rw [← Finset.add_sum_erase S g hk, ← Finset.add_sum_erase S f hk, hgk, add_assoc]
  congr 2
  exact Finset.sum_congr rfl fun i hi =>
    hoff i (Finset.mem_of_mem_erase hi) (Finset.ne_of_mem_erase hi)

end LlmGateway
