import Mathlib.Data.List.Nodup
import Mathlib.Data.Nat.Notation

/-!
# Numbered names

Names that repeat are told apart by numbers: the first of its kind keeps its name, and a later one gets its number
behind a separator (`label`). The numbers themselves never clash (`nodup_numbered`), so that two labels are equal
only when a name is written like the label of another one (`nodup_labels_iff`).
-/

namespace LlmGateway.Numbering

variable {α : Type*} [BEq α]

/-- Every element with how often it has occurred, itself included, when `before` came first. -/
def numberedFrom (before : List α) : List α → List (α × ℕ)
  | [] => []
  | a :: l => (a, before.count a + 1) :: numberedFrom (a :: before) l

/-- Every element with how often it has occurred, itself included. -/
def numbered (l : List α) : List (α × ℕ) := numberedFrom [] l

variable [LawfulBEq α]

theorem mem_numberedFrom {before l : List α} {a : α} {k : ℕ} :
    (a, k) ∈ numberedFrom before l ↔ before.count a < k ∧ k ≤ before.count a + l.count a := by
  induction l generalizing before with
  | nil =>
    simp only [numberedFrom, List.not_mem_nil, List.count_nil, false_iff]
    omega
  | cons b l ih =>
    rw [numberedFrom, List.mem_cons, Prod.mk.injEq, ih, List.count_cons, List.count_cons]
    by_cases hab : b = a
    · subst hab
      simp only [true_and, beq_self_eq_true, if_true]
      omega
    · simp only [Ne.symm hab, false_and, false_or, beq_iff_eq, hab, if_false, Nat.add_zero]

theorem mem_numbered {l : List α} {a : α} {k : ℕ} : (a, k) ∈ numbered l ↔ 1 ≤ k ∧ k ≤ l.count a := by
  rw [numbered, mem_numberedFrom, List.count_nil, Nat.zero_add, Nat.lt_iff_add_one_le]

theorem nodup_numberedFrom (before l : List α) : (numberedFrom before l).Nodup := by
  induction l generalizing before with
  | nil => exact List.nodup_nil
  | cons a l ih =>
    rw [numberedFrom, List.nodup_cons, mem_numberedFrom, List.count_cons_self]
    exact ⟨by omega, ih (a :: before)⟩

theorem nodup_numbered (l : List α) : (numbered l).Nodup := nodup_numberedFrom [] l

/-! ## Labels -/

/-- A name with a number behind it. -/
def suffixed (separator : Char) (name : List Char) (k : ℕ) : List Char := name ++ separator :: Nat.toDigits 10 k

/-- A name, with its number unless that is one. -/
def label (separator : Char) (e : List Char × ℕ) : List Char :=
  if e.2 = 1 then e.1 else suffixed separator e.1 e.2

variable {separator : Char}

theorem toDigits_injective {m n : ℕ} (h : Nat.toDigits 10 m = Nat.toDigits 10 n) : m = n := by
  rw [← Nat.ofDigitChars_ten_toDigits (n := m), h, Nat.ofDigitChars_ten_toDigits]

theorem separator_not_mem_toDigits (hsep : separator.isDigit = false) (n : ℕ) : separator ∉ Nat.toDigits 10 n := by
  intro hmem
  rw [Nat.isDigit_of_mem_toDigits (by decide) (by decide) hmem] at hsep
  exact Bool.noConfusion hsep

theorem suffixed_inj (hsep : separator.isDigit = false) {s t : List Char} {j k : ℕ}
    (h : suffixed separator s j = suffixed separator t k) : s = t ∧ j = k := by
  have hlast : ∀ (u : List Char) (n : ℕ),
      (suffixed separator u n).reverse.takeWhile (fun c => c != separator) = (Nat.toDigits 10 n).reverse := by
    intro u n
    rw [suffixed, List.reverse_append, List.reverse_cons, List.append_assoc]
    rw [List.takeWhile_append_of_pos fun c hc => ?_, List.singleton_append, List.takeWhile_cons_of_neg (by simp),
      List.append_nil]
    rw [bne_iff_ne]
    rintro rfl
    exact separator_not_mem_toDigits hsep n (List.mem_reverse.1 hc)
  have hdigits := hlast s j
  rw [h, hlast t k, List.reverse_inj] at hdigits
  have hjk := (toDigits_injective hdigits).symm
  subst hjk
  exact ⟨List.append_cancel_right h, rfl⟩

theorem nodup_labels_iff (hsep : separator.isDigit = false) (names : List (List Char)) :
    ((numbered names).map (label separator)).Nodup ↔
      ∀ s k, 2 ≤ k → k ≤ names.count s → suffixed separator s k ∉ names := by
  rw [List.nodup_map_iff_inj_on (nodup_numbered names)]
  constructor
  · intro hinj s k hk hcount hmem
    have hone : (suffixed separator s k, 1) ∈ numbered names :=
      mem_numbered.2 ⟨Nat.le_refl 1, List.count_pos_iff.2 hmem⟩
    have heq := hinj _ (mem_numbered.2 ⟨by omega, hcount⟩) _ hone (by simp [label, show k ≠ 1 by omega])
    rw [Prod.mk.injEq] at heq
    omega
  · rintro hfree ⟨s, j⟩ hs ⟨t, k⟩ ht heq
    obtain ⟨hj, hjs⟩ := mem_numbered.1 hs
    obtain ⟨hk, hkt⟩ := mem_numbered.1 ht
    simp only [label] at heq
    split_ifs at heq with hj1 hk1 hk1
    · rw [heq, hj1, hk1]
    · -- the first `s` is written like a later `t`
      exact absurd (heq ▸ List.count_pos_iff.1 (by omega)) (hfree t k (by omega) hkt)
    · exact absurd (heq ▸ List.count_pos_iff.1 (by omega)) (hfree s j (by omega) hjs)
    · obtain ⟨rfl, rfl⟩ := suffixed_inj hsep heq
      rfl

end LlmGateway.Numbering
