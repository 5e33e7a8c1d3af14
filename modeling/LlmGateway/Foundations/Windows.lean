import Mathlib

/-!
# Chains of half-open windows

A list of windows `(a, b]` in which each one starts where the one before it ended. When no window goes
backwards, no point is in two of them (`pairwise_disjoint`), and every point between the start of the
first and the end of the last is in one (`exists_mem`).
-/

namespace LlmGateway.Windows

variable {α : Type*}

/-- Each window starts where the one before it ended. -/
def Chained (l : List (α × α)) : Prop := l.IsChain fun a b => b.1 = a.2

variable {l : List (α × α)}

theorem Chained.concat {w : α × α} (h : Chained l) (hw : ∀ v ∈ l.getLast?, w.1 = v.2) :
    Chained (l ++ [w]) := by
  refine List.IsChain.append h (List.isChain_singleton w) ?_
  rintro v hv u hu
  obtain rfl : w = u := by simpa using hu
  exact hw v hv

variable [LinearOrder α]

theorem Chained.le_of_mem {w : α × α} (h : Chained (w :: l)) (hle : ∀ v ∈ w :: l, v.1 ≤ v.2) :
    ∀ v ∈ l, w.2 ≤ v.1 := by
  induction l generalizing w with
  | nil => simp
  | cons u l ih =>
    obtain ⟨hwu, hrest⟩ := List.isChain_cons_cons.1 h
    intro v hv
    rcases List.mem_cons.1 hv with rfl | hv
    · exact hwu.ge
    · have huv := ih hrest (fun v hv => hle v (List.mem_cons_of_mem w hv)) v hv
      have hu : u.1 ≤ u.2 := hle u (by simp)
      exact hwu ▸ hu.trans huv

theorem Chained.pairwise_disjoint (h : Chained l) (hle : ∀ v ∈ l, v.1 ≤ v.2) :
    l.Pairwise fun a b => Disjoint (Set.Ioc a.1 a.2) (Set.Ioc b.1 b.2) := by
  induction l with
  | nil => exact .nil
  | cons w l ih =>
    refine .cons (fun v hv => ?_) (ih h.tail fun v hv => hle v (List.mem_cons_of_mem w hv))
    exact Set.Ioc_disjoint_Ioc_of_le (h.le_of_mem hle v hv)

theorem Chained.exists_mem (h : Chained l) {a b : α × α} (ha : l.head? = some a)
    (hb : l.getLast? = some b) {x : α} (hax : a.1 < x) (hxb : x ≤ b.2) :
    ∃ w ∈ l, x ∈ Set.Ioc w.1 w.2 := by
  induction l generalizing a with
  | nil => simp at ha
  | cons w l ih =>
    obtain rfl : w = a := by simpa using ha
    by_cases hxw : x ≤ w.2
    · exact ⟨w, by simp, hax, hxw⟩
    cases l with
    | nil =>
      obtain rfl : w = b := by simpa using hb
      exact absurd hxb hxw
    | cons u l =>
      obtain ⟨hwu, hrest⟩ := List.isChain_cons_cons.1 h
      have hux : u.1 < x := by
        rw [hwu]
        exact not_le.1 hxw
      obtain ⟨v, hv, hmem⟩ := ih hrest rfl (by simpa using hb) hux
      exact ⟨v, List.mem_cons_of_mem w hv, hmem⟩

end LlmGateway.Windows
