import Mathlib.Data.List.Infix
import Mathlib.Data.List.DropRight
import Mathlib.Data.List.TakeWhile
import LlmGateway.Foundations.Json

/-!
# Texts, their lines and their runs

A text is the list of its characters. `strip` takes white space off its ends, `visible` all of it, `splitlines` cuts
it behind every line boundary that Python knows, and `longestRun` counts how often a character stands in a row.

What is cut behind a newline does not depend on what follows (`splitlines_newline`), a line is a part of the text
(`isInfix_of_mem_splitlines`), and a longer row than the longest one is no part of it (`le_longestRun`).
-/

namespace LlmGateway.Text

/-! ## White space at the ends -/

def lstrip (s : List Char) : List Char := s.dropWhile Json.isSpace

def rstrip (s : List Char) : List Char := (s.reverse.dropWhile Json.isSpace).reverse

def strip (s : List Char) : List Char := rstrip (lstrip s)

variable {c : Char} {s t : List Char} {l l' : List (List Char)}

theorem lstrip_cons : lstrip (c :: s) = if Json.isSpace c then lstrip s else c :: s := by
  rw [lstrip, List.dropWhile_cons]
  rfl

theorem rstrip_append_single :
    rstrip (s ++ [c]) = if Json.isSpace c then rstrip s else s ++ [c] := by
  rw [rstrip, List.reverse_append, List.reverse_singleton, List.singleton_append, List.dropWhile_cons]
  split
  · rfl
  · rw [List.reverse_cons, List.reverse_reverse]

theorem rstrip_append_of_ne (h : rstrip t ≠ []) : rstrip (s ++ t) = s ++ rstrip t := by
  induction t using List.reverseRecOn with
  | nil => exact (h rfl).elim
  | append_singleton t c ih =>
    rw [← List.append_assoc, rstrip_append_single, rstrip_append_single]
    rw [rstrip_append_single] at h
    split
    · rename_i hc
      rw [if_pos hc] at h
      exact ih h
    · rw [List.append_assoc]

theorem rstrip_isPrefix (s : List Char) : rstrip s <+: s := by
  rw [rstrip, ← List.reverse_suffix, List.reverse_reverse]
  exact List.dropWhile_suffix _

theorem strip_isInfix (s : List Char) : strip s <:+: s :=
  (rstrip_isPrefix (lstrip s)).isInfix.trans (List.dropWhile_suffix _).isInfix

theorem strip_cons_of_isSpace (h : Json.isSpace c = true) (s : List Char) : strip (c :: s) = strip s := by
  rw [strip, strip, lstrip_cons, if_pos h]

theorem strip_cons_of_not_isSpace (h : Json.isSpace c = false) (s : List Char) :
    strip (c :: s) = rstrip (c :: s) := by
  rw [strip, lstrip_cons, if_neg (by simp [h])]

theorem rstrip_cons_of_not_isSpace (h : Json.isSpace c = false) (s : List Char) :
    rstrip (c :: s) = c :: rstrip s := by
  by_cases hs : rstrip s = []
  · induction s using List.reverseRecOn with
    | nil => simp [rstrip, h]
    | append_singleton s d ih =>
      rw [rstrip_append_single] at hs
      split at hs
      · rename_i hd
        rw [← List.cons_append, rstrip_append_single, rstrip_append_single, if_pos hd, if_pos hd]
        exact ih hs
      · exact (List.append_ne_nil_of_right_ne_nil _ (List.cons_ne_nil _ _) hs).elim
  · exact rstrip_append_of_ne (s := [c]) hs

theorem rstrip_eq_nil_iff : rstrip s = [] ↔ ∀ c ∈ s, Json.isSpace c = true := by
  rw [rstrip, List.reverse_eq_nil_iff, List.dropWhile_eq_nil_iff]
  simp

theorem strip_eq_nil_iff : strip s = [] ↔ ∀ c ∈ s, Json.isSpace c = true := by
  induction s with
  | nil => exact iff_of_true rfl nofun
  | cons c s ih =>
    rw [List.forall_mem_cons]
    cases hc : Json.isSpace c with
    | true => rw [strip_cons_of_isSpace hc, ih, and_iff_right rfl]
    | false =>
      rw [strip_cons_of_not_isSpace hc, rstrip_cons_of_not_isSpace hc]
      exact iff_of_false (List.cons_ne_nil _ _) nofun

theorem rstrip_rstrip (s : List Char) : rstrip (rstrip s) = rstrip s := by
  rw [rstrip, rstrip, List.reverse_reverse, List.dropWhile_idempotent]

/-- What is taken off the end is taken off anyway. -/
theorem strip_rstrip (s : List Char) : strip (rstrip s) = strip s := by
  induction s with
  | nil => rfl
  | cons c s ih =>
    cases hc : Json.isSpace c with
    | false =>
      rw [rstrip_cons_of_not_isSpace hc, strip_cons_of_not_isSpace hc, strip_cons_of_not_isSpace hc,
        rstrip_cons_of_not_isSpace hc, rstrip_cons_of_not_isSpace hc, rstrip_rstrip]
    | true =>
      rw [strip_cons_of_isSpace hc, ← ih]
      by_cases hs : rstrip s = []
      · have hall : rstrip (c :: s) = [] := rstrip_eq_nil_iff.2 fun d hd => by
          obtain rfl | hd := List.mem_cons.1 hd
          · exact hc
          · exact rstrip_eq_nil_iff.1 hs d hd
        rw [hall, hs]
      · have hkeep : rstrip (c :: s) = c :: rstrip s := rstrip_append_of_ne (s := [c]) hs
        rw [hkeep, strip_cons_of_isSpace hc]

/-- The characters of a text that are not white space. -/
def visible (s : List Char) : List Char := s.filter fun c => !Json.isSpace c

theorem visible_nil : visible [] = [] := rfl

theorem visible_append (s t : List Char) : visible (s ++ t) = visible s ++ visible t := List.filter_append s t

theorem visible_visible (s : List Char) : visible (visible s) = visible s := by
  simp [visible]

theorem visible_eq_nil_iff : visible s = [] ↔ ∀ c ∈ s, Json.isSpace c = true := by
  simp [visible, List.filter_eq_nil_iff]

theorem visible_rstrip (s : List Char) : visible (rstrip s) = visible s := by
  induction s using List.reverseRecOn with
  | nil => rfl
  | append_singleton s c ih =>
    rw [rstrip_append_single]
    split_ifs with hc
    · rw [ih, visible_append, visible_eq_nil_iff.2 fun d hd => List.mem_singleton.1 hd ▸ hc, List.append_nil]
    · rfl

/-- Only white space is stripped. -/
theorem visible_strip (s : List Char) : visible (strip s) = visible s := by
  induction s with
  | nil => rfl
  | cons c s ih =>
    cases hc : Json.isSpace c with
    | true =>
      rw [strip_cons_of_isSpace hc, ih, ← List.singleton_append, visible_append,
        visible_eq_nil_iff.2 fun d hd => List.mem_singleton.1 hd ▸ hc, List.nil_append]
    | false => rw [strip_cons_of_not_isSpace hc, visible_rstrip]

/-- White space between texts is not visible. -/
theorem visible_intercalate {sep : List Char} (h : ∀ c ∈ sep, Json.isSpace c = true) (l : List (List Char)) :
    visible (sep.intercalate l) = visible l.flatten := by
  induction l with
  | nil => rfl
  | cons s l ih =>
    cases l with
    | nil => rw [List.intercalate_singleton, List.flatten_singleton]
    | cons t l =>
      rw [List.intercalate_cons_cons, visible_append, visible_append, ih, visible_eq_nil_iff.2 h, List.append_nil,
        ← visible_append]
      rfl

/-- A text without white space at its ends. -/
def Stripped (s : List Char) : Prop := strip s = s

namespace Stripped

variable {s : List Char}

theorem nil : Stripped [] := rfl

theorem head {c : Char} (h : Stripped (c :: s)) : Json.isSpace c = false := by
  by_contra hc
  rw [Bool.not_eq_false] at hc
  rw [Stripped, strip_cons_of_isSpace hc] at h
  have hlen := (strip_isInfix s).length_le
  rw [h, List.length_cons] at hlen
  omega

theorem rstrip_eq (h : Stripped s) : rstrip s = s := by
  cases s with
  | nil => rfl
  | cons c s =>
    have hstrip := strip_cons_of_not_isSpace h.head s
    rw [← hstrip]
    exact h

theorem append {t : List Char} (hs : Stripped s) (hne : s ≠ []) (ht : Stripped t) (htne : t ≠ []) :
    Stripped (s ++ t) := by
  cases s with
  | nil => exact (hne rfl).elim
  | cons c s =>
    have hr : rstrip t ≠ [] := by rwa [ht.rstrip_eq]
    rw [Stripped, List.cons_append, strip_cons_of_not_isSpace hs.head, ← List.cons_append, rstrip_append_of_ne hr,
      ht.rstrip_eq]

end Stripped

/-! ## Lines -/

/-- The line boundaries. -/
def isBreak (c : Char) : Bool :=
  c == '\n' || c == '\r' || c.toNat == 0x0b || c.toNat == 0x0c || c.toNat == 0x1c || c.toNat == 0x1d ||
    c.toNat == 0x1e || c.toNat == 0x85 || c.toNat == 0x2028 || c.toNat == 0x2029

/-- The character goes in front of the first line. -/
def consHead (c : Char) : List (List Char) → List (List Char)
  | [] => [[c]]
  | l :: ls => (c :: l) :: ls

/-- `s.splitlines(keepends=True)`. -/
def splitlines : List Char → List (List Char)
  | [] => []
  | '\r' :: '\n' :: s => ['\r', '\n'] :: splitlines s
  | c :: s => if isBreak c then [c] :: splitlines s else consHead c (splitlines s)

/-- A carriage return and the newline behind it are one boundary. -/
example : splitlines ['a', '\r', '\n', 'b', '\n'] = [['a', '\r', '\n'], ['b', '\n']] := by
  simp [splitlines, isBreak, consHead]

/-- A line without its boundary. -/
def content (line : List Char) : List Char := line.takeWhile fun c => !isBreak c

/-- A text that is one line at most. -/
def SingleLine (s : List Char) : Prop := ∀ c ∈ s, isBreak c = false

theorem singleLine_iff_all : (s.all fun c => !isBreak c) = true ↔ SingleLine s := by
  rw [List.all_eq_true]
  exact forall₂_congr fun c _ => Bool.not_eq_true' _ ▸ Iff.rfl

instance (s : List Char) : Decidable (SingleLine s) := decidable_of_iff _ singleLine_iff_all

theorem SingleLine.newline_not_mem (h : SingleLine s) : '\n' ∉ s := fun hmem => by
  have hbreak := h '\n' hmem
  revert hbreak
  decide

theorem splitlines_cons_of_break (hc : isBreak c = true) (h : c ≠ '\r') (s : List Char) :
    splitlines (c :: s) = [c] :: splitlines s := by
  rw [splitlines]
  · rw [if_pos hc]
  · rintro t rfl
    exact absurd rfl h

theorem splitlines_cons_of_not_break (hc : isBreak c = false) (s : List Char) :
    splitlines (c :: s) = consHead c (splitlines s) := by
  rw [splitlines]
  · rw [if_neg (by simp [hc])]
  · rintro t rfl
    exact absurd hc (by decide)

theorem splitlines_ne_nil (h : s ≠ []) : splitlines s ≠ [] := by
  induction s using splitlines.induct with
  | case1 => exact (h rfl).elim
  | case2 s => exact List.cons_ne_nil _ _
  | case3 c s hcrlf hc =>
    rw [splitlines, if_pos hc]
    · exact List.cons_ne_nil _ _
    · exact hcrlf
  | case4 c s hcrlf hc =>
    rw [splitlines_cons_of_not_break (by simpa using hc)]
    unfold consHead
    split <;> exact List.cons_ne_nil _ _

/-- What stands before a newline is cut as if the text ended there. -/
theorem splitlines_newline (s t : List Char) :
    splitlines (s ++ '\n' :: t) = splitlines (s ++ ['\n']) ++ splitlines t := by
  induction s using splitlines.induct with
  | case1 =>
    rw [List.nil_append, List.nil_append, splitlines_cons_of_break (by decide) (by decide),
      splitlines_cons_of_break (by decide) (by decide)]
    rfl
  | case2 s ih => exact congrArg (['\r', '\n'] :: ·) ih
  | case3 c s hcrlf hc ih =>
    rw [List.cons_append, List.cons_append]
    cases s with
    | nil =>
      by_cases hr : c = '\r'
      · subst hr
        rfl
      · rw [List.nil_append, splitlines_cons_of_break hc hr, List.nil_append, splitlines_cons_of_break hc hr]
        exact congrArg ([c] :: ·) ih
    | cons d s =>
      have hstep : ∀ u, splitlines (c :: (d :: s ++ u)) = [c] :: splitlines (d :: s ++ u) := fun u => by
        rw [List.cons_append, splitlines]
        · rw [if_pos hc]
        · rintro v rfl hv
          obtain ⟨rfl, -⟩ := List.cons.inj hv
          exact hcrlf s rfl rfl
      rw [hstep, hstep, ih]
      rfl
  | case4 c s hcrlf hc ih =>
    have hc : isBreak c = false := by simpa using hc
    rw [List.cons_append, List.cons_append, splitlines_cons_of_not_break hc, splitlines_cons_of_not_break hc, ih]
    cases hs : splitlines (s ++ ['\n']) with
    | nil => exact (splitlines_ne_nil (List.append_ne_nil_of_right_ne_nil s (List.cons_ne_nil _ _)) hs).elim
    | cons l ls => rfl

theorem splitlines_cons_break (hc : isBreak c = true)
    (h : ¬ (c = '\r' ∧ s.head? = some '\n')) : splitlines (c :: s) = [c] :: splitlines s := by
  by_cases hr : c = '\r'
  · subst hr
    cases s with
    | nil => rfl
    | cons d s =>
      rw [splitlines]
      · rw [if_pos hc]
      · rintro t - heq
        cases heq
        exact h ⟨rfl, rfl⟩
  · exact splitlines_cons_of_break hc hr s

/-- The lines of a text make it up. -/
theorem flatten_splitlines (s : List Char) : (splitlines s).flatten = s := by
  induction s using splitlines.induct with
  | case1 => rfl
  | case2 s ih => rw [splitlines, List.flatten_cons, ih]; rfl
  | case3 c s hcrlf hc ih =>
    rw [splitlines_cons_break hc, List.flatten_cons, ih]
    · rfl
    · rintro ⟨rfl, hs⟩
      cases s with
      | nil => cases hs
      | cons d s =>
        cases hs
        exact hcrlf s rfl rfl
  | case4 c s hcrlf hc ih =>
    rw [splitlines_cons_of_not_break (by simpa using hc)]
    cases hs : splitlines s with
    | nil =>
      rw [hs, List.flatten_nil] at ih
      rw [← ih]
      rfl
    | cons l ls =>
      rw [hs, List.flatten_cons] at ih
      rw [consHead, List.flatten_cons, List.cons_append, ih]

/-- The last lines of a text are lines by themselves. -/
theorem splitlines_flatten_suffix (h : splitlines s = l ++ l') :
    splitlines l'.flatten = l' := by
  induction s using splitlines.induct generalizing l with
  | case1 =>
    obtain ⟨-, rfl⟩ := List.append_eq_nil_iff.1 h.symm
    rfl
  | case2 s ih =>
    cases l with
    | nil =>
      rw [List.nil_append] at h
      rw [← h, flatten_splitlines]
    | cons a l =>
      rw [splitlines, List.cons_append, List.cons.injEq] at h
      exact ih h.2
  | case3 c s hcrlf hc ih =>
    cases l with
    | nil =>
      rw [List.nil_append] at h
      rw [← h, flatten_splitlines]
    | cons a l =>
      rw [splitlines_cons_break hc, List.cons_append, List.cons.injEq] at h
      · exact ih h.2
      · rintro ⟨rfl, hs⟩
        cases s with
        | nil => cases hs
        | cons d s =>
          cases hs
          exact hcrlf s rfl rfl
  | case4 c s hcrlf hc ih =>
    cases l with
    | nil =>
      rw [List.nil_append] at h
      rw [← h, flatten_splitlines]
    | cons a l =>
      rw [splitlines_cons_of_not_break (by simpa using hc)] at h
      cases hs : splitlines s with
      | nil =>
        rw [hs, consHead, List.cons_append, List.cons.injEq] at h
        obtain ⟨-, rfl⟩ := List.append_eq_nil_iff.1 h.2.symm
        rfl
      | cons b ls =>
        rw [hs, consHead, List.cons_append, List.cons.injEq] at h
        exact ih (l := b :: l) (by rw [hs, h.2]; rfl)

/-- The first lines of a text are lines before any other text, too; a carriage return before a newline is the exception. -/
theorem splitlines_flatten_prefix (h : splitlines s = l ++ l') (hne : l' ≠ [])
    (ht : t.head? ≠ some '\n') : splitlines (l.flatten ++ t) = l ++ splitlines t := by
  induction s using splitlines.induct generalizing l with
  | case1 => exact (hne (List.append_eq_nil_iff.1 h.symm).2).elim
  | case2 s ih =>
    cases l with
    | nil => rfl
    | cons a l =>
      rw [splitlines, List.cons_append, List.cons.injEq] at h
      obtain ⟨rfl, h⟩ := h
      change splitlines ('\r' :: '\n' :: (l.flatten ++ t)) = _
      rw [splitlines, ih h]
      rfl
  | case3 c s hcrlf hc ih =>
    cases l with
    | nil => rfl
    | cons a l =>
      have hnot : ¬ (c = '\r' ∧ s.head? = some '\n') := by
        rintro ⟨rfl, hs⟩
        cases s with
        | nil => cases hs
        | cons d s =>
          cases hs
          exact hcrlf s rfl rfl
      rw [splitlines_cons_break hc hnot, List.cons_append, List.cons.injEq] at h
      obtain ⟨rfl, h⟩ := h
      have hstep : ¬ (c = '\r' ∧ (l.flatten ++ t).head? = some '\n') := by
        rintro ⟨rfl, hhead⟩
        have hflat := flatten_splitlines s
        rw [h, List.flatten_append] at hflat
        cases hl : l.flatten with
        | nil =>
          rw [hl, List.nil_append] at hhead
          exact ht hhead
        | cons d u =>
          rw [hl] at hhead hflat
          cases hhead
          exact hnot ⟨rfl, by rw [← hflat]; rfl⟩
      change splitlines (c :: (l.flatten ++ t)) = _
      rw [splitlines_cons_break hc hstep, ih h]
      rfl
  | case4 c s hcrlf hc ih =>
    cases l with
    | nil => rfl
    | cons a l =>
      have hc : isBreak c = false := by simpa using hc
      rw [splitlines_cons_of_not_break hc] at h
      cases hs : splitlines s with
      | nil =>
        rw [hs, consHead, List.cons_append, List.cons.injEq] at h
        exact (hne (List.append_eq_nil_iff.1 h.2.symm).2).elim
      | cons b ls =>
        rw [hs, consHead, List.cons_append, List.cons.injEq] at h
        obtain ⟨rfl, h⟩ := h
        have hih := ih (l := b :: l) (by rw [hs, h]; rfl)
        change splitlines (c :: ((b :: l).flatten ++ t)) = _
        rw [splitlines_cons_of_not_break hc, hih]
        rfl

/-- A line that ends with a newline is a line before any text. -/
theorem splitlines_line {line : List Char} (h : splitlines s = l ++ line :: l')
    (hline : line.getLast? = some '\n') (t : List Char) : splitlines (line ++ t) = line :: splitlines t := by
  obtain ⟨u, rfl⟩ := List.getLast?_eq_some_iff.1 hline
  have hself : splitlines (u ++ ['\n']) = [u ++ ['\n']] := by
    have hsuffix := splitlines_flatten_suffix h
    rw [List.flatten_cons, List.append_assoc, List.singleton_append, splitlines_newline,
      splitlines_flatten_suffix (l := l ++ [u ++ ['\n']]) (by rw [h]; simp)] at hsuffix
    exact List.append_cancel_right (hsuffix.trans List.singleton_append.symm)
  rw [List.append_assoc, List.singleton_append, splitlines_newline, hself]
  rfl

theorem newline_not_mem_of_line {u : List Char} (h : splitlines s = l ++ (u ++ ['\n']) :: l') :
    '\n' ∉ u := by
  intro hmem
  obtain ⟨a, b, rfl⟩ := List.append_of_mem hmem
  have hself := splitlines_line h List.getLast?_concat []
  rw [List.append_nil, splitlines, List.append_assoc, List.cons_append, splitlines_newline] at hself
  have hfirst := splitlines_ne_nil (s := a ++ ['\n']) (by simp)
  have hsecond := splitlines_ne_nil (s := b ++ ['\n']) (by simp)
  have hlength := congrArg List.length hself
  rw [List.length_append, List.length_singleton] at hlength
  have := List.length_pos_of_ne_nil hfirst
  have := List.length_pos_of_ne_nil hsecond
  omega

/-- A newline behind a text is a line, or it ends the last one. -/
theorem splitlines_append_newline (s : List Char) :
    splitlines (s ++ ['\n']) = splitlines s ++ [['\n']] ∨
      ∃ l last, splitlines s = l ++ [last] ∧ splitlines (s ++ ['\n']) = l ++ [last ++ ['\n']] := by
  induction s using splitlines.induct with
  | case1 => exact .inl rfl
  | case2 s ih =>
    have hlines : splitlines ('\r' :: '\n' :: s ++ ['\n']) = ['\r', '\n'] :: splitlines (s ++ ['\n']) := rfl
    rw [hlines, splitlines]
    obtain h | ⟨l, last, h, h'⟩ := ih
    · exact .inl (by rw [h, List.cons_append])
    · exact .inr ⟨_ :: l, last, by rw [h, List.cons_append], by rw [h', List.cons_append]⟩
  | case3 c s hcrlf hc ih =>
    have hnot : ¬ (c = '\r' ∧ s.head? = some '\n') := by
      rintro ⟨rfl, hs⟩
      cases s with
      | nil => cases hs
      | cons d s =>
        cases hs
        exact hcrlf s rfl rfl
    by_cases hs : c = '\r' ∧ s = []
    · obtain ⟨rfl, rfl⟩ := hs
      exact .inr ⟨[], ['\r'], rfl, rfl⟩
    · have hnot' : ¬ (c = '\r' ∧ (s ++ ['\n']).head? = some '\n') := by
        rintro ⟨rfl, hhead⟩
        cases s with
        | nil => exact hs ⟨rfl, rfl⟩
        | cons d s => exact hnot ⟨rfl, hhead⟩
      rw [List.cons_append, splitlines_cons_break hc hnot, splitlines_cons_break hc hnot']
      obtain h | ⟨l, last, h, h'⟩ := ih
      · exact .inl (by rw [h, List.cons_append])
      · exact .inr ⟨_ :: l, last, by rw [h, List.cons_append], by rw [h', List.cons_append]⟩
  | case4 c s hcrlf hc ih =>
    have hc : isBreak c = false := by simpa using hc
    rw [List.cons_append, splitlines_cons_of_not_break hc, splitlines_cons_of_not_break hc]
    obtain h | ⟨l, last, h, h'⟩ := ih
    · cases hs : splitlines s with
      | nil =>
        rw [h, hs]
        exact .inr ⟨[], [c], rfl, rfl⟩
      | cons a l => exact .inl (by rw [h, hs]; rfl)
    · cases l with
      | nil => exact .inr ⟨[], c :: last, by rw [h]; rfl, by rw [h']; rfl⟩
      | cons a l => exact .inr ⟨(c :: a) :: l, last, by rw [h]; rfl, by rw [h']; rfl⟩

theorem splitlines_singleLine_newline (h : SingleLine s) (t : List Char) :
    splitlines (s ++ '\n' :: t) = (s ++ ['\n']) :: splitlines t := by
  rw [splitlines_newline]
  have hone : splitlines (s ++ ['\n']) = [s ++ ['\n']] := by
    induction s with
    | nil => rfl
    | cons c s ih =>
      rw [List.cons_append, splitlines_cons_of_not_break (h c List.mem_cons_self),
        ih fun d hd => h d (List.mem_cons_of_mem _ hd)]
      rfl
  rw [hone]
  rfl

theorem splitlines_singleLine (h : SingleLine s) (hne : s ≠ []) : splitlines s = [s] := by
  induction s with
  | nil => exact (hne rfl).elim
  | cons c s ih =>
    rw [splitlines_cons_of_not_break (h c List.mem_cons_self)]
    cases s with
    | nil => rfl
    | cons d s =>
      rw [ih (fun e he => h e (List.mem_cons_of_mem _ he)) (List.cons_ne_nil _ _)]
      rfl

theorem splitlines_parts (s : List Char) :
    (∀ l ∈ (splitlines s).head?, l <+: s) ∧ ∀ l ∈ splitlines s, l <:+: s := by
  induction s using splitlines.induct with
  | case1 => exact ⟨fun l hl => (by cases hl), fun l hl => (by cases hl)⟩
  | case2 s ih =>
    refine ⟨fun l hl => ?_, fun l hl => ?_⟩
    · cases hl
      exact ⟨s, rfl⟩
    · obtain rfl | hl := List.mem_cons.1 hl
      · exact ⟨[], s, rfl⟩
      · exact (ih.2 l hl).trans ⟨['\r', '\n'], [], by simp⟩
  | case3 c s hcrlf hc ih =>
    have hlines : splitlines (c :: s) = [c] :: splitlines s := by
      rw [splitlines]
      · rw [if_pos hc]
      · exact hcrlf
    rw [hlines]
    refine ⟨fun l hl => ?_, fun l hl => ?_⟩
    · cases hl
      exact ⟨s, rfl⟩
    · obtain rfl | hl := List.mem_cons.1 hl
      · exact ⟨[], s, rfl⟩
      · exact (ih.2 l hl).trans (List.suffix_cons c s).isInfix
  | case4 c s hcrlf hc ih =>
    rw [splitlines_cons_of_not_break (by simpa using hc)]
    cases hs : splitlines s with
    | nil =>
      rw [consHead]
      refine ⟨fun l hl => ?_, fun l hl => ?_⟩
      · cases hl
        exact ⟨s, rfl⟩
      · rw [List.mem_singleton.1 hl]
        exact ⟨[], s, rfl⟩
    | cons l ls =>
      rw [hs] at ih
      rw [consHead]
      have hfirst : c :: l <+: c :: s := List.cons_prefix_cons.2 ⟨rfl, ih.1 l rfl⟩
      refine ⟨fun l' hl' => ?_, fun l' hl' => ?_⟩
      · cases hl'
        exact hfirst
      · obtain rfl | hl' := List.mem_cons.1 hl'
        · exact hfirst.isInfix
        · exact (ih.2 l' (List.mem_cons_of_mem _ hl')).trans (List.suffix_cons c s).isInfix

/-- A line is a part of the text. -/
theorem isInfix_of_mem_splitlines {l : List Char} (h : l ∈ splitlines s) : l <:+: s := (splitlines_parts s).2 l h

theorem splitOn_parts (s : List Char) :
    (∀ l ∈ (s.splitOn '\n').head?, l <+: s) ∧ ∀ l ∈ s.splitOn '\n', l <:+: s := by
  induction s with
  | nil =>
    rw [List.splitOn_nil]
    refine ⟨fun l hl => ?_, fun l hl => ?_⟩
    · cases hl
      exact List.prefix_refl _
    · rw [List.mem_singleton.1 hl]
  | cons c s ih =>
    rw [List.splitOn_cons_eq_if_modifyHead]
    split
    · refine ⟨fun l hl => ?_, fun l hl => ?_⟩
      · cases hl
        exact List.nil_prefix
      · obtain rfl | hl := List.mem_cons.1 hl
        · exact List.nil_infix
        · exact (ih.2 l hl).trans (List.suffix_cons c s).isInfix
    · cases hs : s.splitOn '\n' with
      | nil => exact (List.splitOn_ne_nil _ _ hs).elim
      | cons l ls =>
        rw [hs] at ih
        rw [List.modifyHead_cons]
        have hfirst : c :: l <+: c :: s := List.cons_prefix_cons.2 ⟨rfl, ih.1 l rfl⟩
        refine ⟨fun l' hl' => ?_, fun l' hl' => ?_⟩
        · cases hl'
          exact hfirst
        · obtain rfl | hl' := List.mem_cons.1 hl'
          · exact hfirst.isInfix
          · exact (ih.2 l' (List.mem_cons_of_mem _ hl')).trans (List.suffix_cons c s).isInfix

theorem isInfix_of_mem_splitOn {l : List Char} (h : l ∈ s.splitOn '\n') : l <:+: s := (splitOn_parts s).2 l h

/-- The lines, each with a newline behind it. -/
def unlines (l : List (List Char)) : List Char := l.flatMap fun s => s ++ ['\n']

theorem unlines_cons (s : List Char) (l : List (List Char)) : unlines (s :: l) = s ++ '\n' :: unlines l := by
  rw [unlines, List.flatMap_cons, List.append_assoc]
  rfl

theorem unlines_append (l l' : List (List Char)) : unlines (l ++ l') = unlines l ++ unlines l' := List.flatMap_append

theorem intercalate_append_newline (h : l ≠ []) : ['\n'].intercalate l ++ ['\n'] = unlines l := by
  induction l with
  | nil => exact (h rfl).elim
  | cons s l ih =>
    cases l with
    | nil => simp [unlines]
    | cons t l =>
      rw [List.intercalate_cons_of_ne_nil (List.cons_ne_nil _ _), List.append_assoc, List.append_assoc,
        ih (List.cons_ne_nil _ _), unlines_cons s]
      rfl

/-- The text of the lines is cut at their newlines and behind the last one. -/
theorem splitOn_unlines (l : List (List Char)) :
    (unlines l).splitOn '\n' = l.flatMap (fun s => s.splitOn '\n') ++ [[]] := by
  induction l with
  | nil => rfl
  | cons s l ih => rw [unlines_cons, List.splitOn_append_cons_self, ih, List.flatMap_cons, List.append_assoc]

theorem SingleLine.of_prefix (ht : SingleLine t) (h : s <+: t) : SingleLine s :=
  fun c hc => ht c (h.subset hc)

theorem content_append (h : SingleLine s) (t : List Char) : content (s ++ t) = s ++ content t := by
  rw [content, List.takeWhile_append_of_pos fun c hc => by rw [h c hc]; rfl]
  rfl

theorem content_singleLine (h : SingleLine s) : content s = s := by
  rw [content, List.takeWhile_eq_self_iff]
  exact fun c hc => by rw [h c hc]; rfl

/-- The lines of a text that loses the white space at its end, but not the whole last line. -/
theorem splitlines_rstrip_intercalate (hne : l ≠ []) (hl : ∀ s ∈ l, SingleLine s ∧ rstrip s ≠ []) :
    ((splitlines (rstrip (['\n'].intercalate l))).map content).map strip = l.map strip ∧
      rstrip (['\n'].intercalate l) ≠ [] := by
  induction l with
  | nil => exact (hne rfl).elim
  | cons s l ih =>
    obtain ⟨hs, hs'⟩ := hl s List.mem_cons_self
    cases l with
    | nil =>
      have hone : ['\n'].intercalate [s] = s := by simp
      have hr : SingleLine (rstrip s) := hs.of_prefix (rstrip_isPrefix s)
      rw [hone]
      refine ⟨?_, hs'⟩
      rw [splitlines_singleLine hr hs', List.map_cons, List.map_nil, content_singleLine hr, List.map_cons,
        strip_rstrip]
      rfl
    | cons t l =>
      obtain ⟨hlines, hrest⟩ := ih (List.cons_ne_nil _ _) fun u hu => hl u (List.mem_cons_of_mem _ hu)
      rw [List.intercalate_cons_of_ne_nil (List.cons_ne_nil _ _), rstrip_append_of_ne hrest]
      refine ⟨?_, List.append_ne_nil_of_right_ne_nil _ hrest⟩
      have hbreak : content ['\n'] = [] := rfl
      rw [List.append_assoc, List.singleton_append, splitlines_singleLine_newline hs, List.map_cons, List.map_cons,
        hlines, content_append hs, hbreak, List.append_nil]
      rfl

/-! ## Runs -/

/-- One character more, behind a row of `cur` and a longest one of `best`. -/
def runStep (c : Char) (x : ℕ × ℕ) (d : Char) : ℕ × ℕ := if d = c then (max x.1 (x.2 + 1), x.2 + 1) else (x.1, 0)

/-- How often the character stands in a row at most. -/
def longestRun (s : List Char) (c : Char) : ℕ := (s.foldl (runStep c) (0, 0)).1

theorem le_foldl_runStep (c : Char) (s : List Char) (x : ℕ × ℕ) : x.1 ≤ (s.foldl (runStep c) x).1 := by
  induction s generalizing x with
  | nil => exact le_rfl
  | cons d s ih =>
    refine le_trans ?_ (ih (runStep c x d))
    unfold runStep
    split
    · exact le_max_left ..
    · exact le_rfl

theorem foldl_runStep_replicate (c : Char) (n : ℕ) (x : ℕ × ℕ) (hx : x.2 ≤ x.1) :
    x.2 + n ≤ ((List.replicate n c).foldl (runStep c) x).1 := by
  induction n generalizing x with
  | zero => exact hx
  | succ n ih =>
    have hle : (runStep c x c).2 ≤ (runStep c x c).1 := by
      rw [runStep, if_pos rfl]
      exact le_max_right ..
    have hstep := ih (runStep c x c) hle
    rw [List.replicate_succ, List.foldl_cons]
    refine le_trans ?_ hstep
    simp only [runStep, if_true]
    omega

theorem snd_le_fst_foldl_runStep (c : Char) (s : List Char) (x : ℕ × ℕ) (hx : x.2 ≤ x.1) :
    (s.foldl (runStep c) x).2 ≤ (s.foldl (runStep c) x).1 := by
  induction s generalizing x with
  | nil => exact hx
  | cons d s ih =>
    refine ih _ ?_
    unfold runStep
    split
    · exact le_max_right ..
    · exact Nat.zero_le _

/-- A row in the text is no longer than the longest one. -/
theorem le_longestRun {n : ℕ} (h : List.replicate n c <:+: s) : n ≤ longestRun s c := by
  obtain ⟨front, back, rfl⟩ := h
  rw [longestRun, List.foldl_append, List.foldl_append]
  refine le_trans ?_ (le_foldl_runStep c back _)
  have hrow := foldl_runStep_replicate c n (front.foldl (runStep c) (0, 0))
    (snd_le_fst_foldl_runStep c front (0, 0) le_rfl)
  omega

theorem longestRun_append_single {d : Char} (h : d ≠ c) : longestRun (s ++ [d]) c = longestRun s c := by
  rw [longestRun, List.foldl_append, List.foldl_cons, List.foldl_nil, runStep, if_neg h]
  rfl

end LlmGateway.Text
