import Mathlib.Data.List.Basic
import Mathlib.Data.Nat.Notation
import LlmGateway.Foundations.Json

/-!
# Patterns of text

The part of regular expressions that has no repetition but that of a character class. `outcomes` are all the ways in
which a pattern goes on from a place in a text, in the order in which a backtracking matcher comes to them, so that
the first is the match; `finditer` lists the matches of a text from left to right, and `search` is the first one.

A pattern may remember one part of what it matches. `mem_outcomes_captured` says that this is what the part of the
pattern between its brackets has matched.
-/

namespace LlmGateway.Patterns

/-- A pattern. -/
inductive Pattern where
  /-- One character after the other. -/
  | chars (ps : List (Char → Bool))
  /-- Characters of a class, at least and at most so many: as many as there are first, or as few. -/
  | repeated (greedy : Bool) (p : Char → Bool) (least : ℕ) (most : Option ℕ)
  | both (a b : Pattern)
  | either (a b : Pattern)
  | group (a : Pattern)
  /-- What must hold of the character before and the one behind. -/
  | anchor (p : Option Char → Option Char → Bool)

/-- A place in a text, the text before it backwards, and what has been remembered. -/
structure Cursor where
  before : List Char
  after : List Char
  captured : List Char

/-- The place that many characters further. -/
def Cursor.advance (c : Cursor) (n : ℕ) : Cursor := ⟨(c.after.take n).reverse ++ c.before, c.after.drop n, c.captured⟩

/-- The text that lies between two places. -/
def Cursor.upTo (c d : Cursor) : List Char := c.after.take (c.after.length - d.after.length)

/-- The text begins with characters that are as asked. -/
def beginsWith : List (Char → Bool) → List Char → Bool
  | [], _ => true
  | _ :: _, [] => false
  | p :: ps, d :: s => p d && beginsWith ps s

/-- The places at which a pattern may end, those that are tried first in front. -/
def outcomes : Pattern → Cursor → List Cursor
  | .chars ps, c => if beginsWith ps c.after then [c.advance ps.length] else []
  | .repeated greedy p least most, c =>
    let run := (c.after.takeWhile p).length
    let counts := (List.range (most.elim run (min run) + 1)).drop least
    (if greedy then counts.reverse else counts).map c.advance
  | .both a b, c => (outcomes a c).flatMap (outcomes b)
  | .either a b, c => outcomes a c ++ outcomes b c
  | .group a, c => (outcomes a c).map fun d => { d with captured := c.upTo d }
  | .anchor p, c => if p c.before.head? c.after.head? then [c] else []

/-- The matches from a place on, each with the places where it begins and ends, for patterns that match no empty
text. -/
def scan (p : Pattern) : ℕ → Cursor → List (Cursor × Cursor)
  | 0, _ => []
  | n + 1, c =>
    match (outcomes p c).head? with
    | some d => (c, d) :: scan p n { d with captured := [] }
    | none => if c.after.isEmpty then [] else scan p n (c.advance 1)

def finditer (p : Pattern) (text : List Char) : List (Cursor × Cursor) := scan p (text.length + 1) ⟨[], text, []⟩

def search (p : Pattern) (text : List Char) : Option (Cursor × Cursor) := (finditer p text).head?

/-! ## Patterns of one kind -/

/-- The letters that a letter of a pattern stands for when case is ignored: its own two, and those of other alphabets
that are written as it is. -/
def foldCase (c : Char) : Char :=
  if c = '\u0130' ∨ c = '\u0131' then 'i' else if c = '\u017f' then 's' else if c = '\u212a' then 'k' else c.toLower

/-- The text itself. -/
def literal (text : List Char) : Pattern := .chars (text.map fun c d => d == c)

/-- The text, whatever the case of its letters. -/
def literalNoCase (text : List Char) : Pattern := .chars (text.map fun c d => foldCase d == foldCase c)

/-- One pattern behind the other. -/
def sequence : List Pattern → Pattern
  | [] => .chars []
  | [a] => a
  | a :: as => .both a (sequence as)

/-- The first pattern that does. -/
def oneOf (a : Pattern) : List Pattern → Pattern
  | [] => a
  | b :: bs => .either a (oneOf b bs)

/-- `a?`. -/
def optional (a : Pattern) : Pattern := .either a (.chars [])

/-- `\s*`. -/
def spaces : Pattern := .repeated true Json.isSpace 0 none

/-- `^`, at the beginning of every line. -/
def lineStart : Pattern := .anchor fun b _ => b.all fun c => c == '\n'

/-- `$`, at the end of every line. -/
def lineEnd : Pattern := .anchor fun _ a => a.all fun c => c == '\n'

/-- `\b`. -/
def wordBoundary (isWord : Char → Bool) : Pattern := .anchor fun b a => b.any isWord != a.any isWord

/-! ## Matches -/

variable {p a b : Pattern} {c d e : Cursor}

theorem mem_outcomes_of_mem_scan {n : ℕ} (h : (c, d) ∈ scan p n e) : d ∈ outcomes p c := by
  induction n generalizing e with
  | zero => cases h
  | succ n ih =>
    rw [scan] at h
    split at h
    · rename_i f hf
      obtain heq | hmem := List.mem_cons.1 h
      · cases heq
        exact List.mem_of_head? hf
      · exact ih hmem
    · split at h
      · cases h
      · exact ih h

theorem mem_outcomes_of_mem_finditer {text : List Char} (h : (c, d) ∈ finditer p text) : d ∈ outcomes p c :=
  mem_outcomes_of_mem_scan h

/-- The pattern remembers nothing. -/
def Pattern.groupless : Pattern → Bool
  | .both a b => a.groupless && b.groupless
  | .either a b => a.groupless && b.groupless
  | .group _ => false
  | _ => true

theorem captured_of_groupless (h : p.groupless = true) (hd : d ∈ outcomes p c) : d.captured = c.captured := by
  induction p generalizing c d with
  | chars ps =>
    rw [outcomes] at hd
    split at hd
    · rw [List.mem_singleton.1 hd, Cursor.advance]
    · cases hd
  | repeated greedy p least most =>
    rw [outcomes] at hd
    obtain ⟨n, -, rfl⟩ := List.mem_map.1 hd
    rfl
  | both a b iha ihb =>
    rw [Pattern.groupless, Bool.and_eq_true] at h
    rw [outcomes] at hd
    obtain ⟨e, he, hd⟩ := List.mem_flatMap.1 hd
    rw [ihb h.2 hd, iha h.1 he]
  | either a b iha ihb =>
    rw [Pattern.groupless, Bool.and_eq_true] at h
    rw [outcomes] at hd
    obtain hd | hd := List.mem_append.1 hd
    · exact iha h.1 hd
    · exact ihb h.2 hd
  | group a => cases h
  | anchor p =>
    rw [outcomes] at hd
    split at hd
    · rw [List.mem_singleton.1 hd]
    · cases hd

theorem mem_outcomes_captured (hb : b.groupless = true) (h : d ∈ outcomes (.both (.group p) b) c) :
    ∃ f ∈ outcomes p c, d.captured = c.upTo f := by
  rw [outcomes] at h
  obtain ⟨g, hg, hd⟩ := List.mem_flatMap.1 h
  rw [outcomes] at hg
  obtain ⟨f, hf, rfl⟩ := List.mem_map.1 hg
  exact ⟨f, hf, captured_of_groupless hb hd⟩

theorem mem_outcomes_both : d ∈ outcomes (.both a b) c ↔ ∃ e ∈ outcomes a c, d ∈ outcomes b e := by
  rw [outcomes, List.mem_flatMap]

theorem mem_outcomes_oneOf {as : List Pattern} : d ∈ outcomes (oneOf a as) c ↔ ∃ b ∈ a :: as, d ∈ outcomes b c := by
  induction as generalizing a with
  | nil => simp [oneOf]
  | cons b as ih =>
    rw [oneOf, outcomes, List.mem_append, ih]
    simp

theorem head_of_mem_outcomes_chars {q : Char → Bool} {ps : List (Char → Bool)} (h : d ∈ outcomes (.chars (q :: ps)) c) :
    ∃ x s, c.upTo d = x :: s ∧ q x = true := by
  rw [outcomes] at h
  split at h
  · rename_i hbegins
    rw [List.mem_singleton.1 h, Cursor.upTo, Cursor.advance]
    cases hafter : c.after with
    | nil =>
      rw [hafter] at hbegins
      cases hbegins
    | cons x s =>
      rw [hafter, beginsWith, Bool.and_eq_true] at hbegins
      have hcount : (x :: s).length - ((x :: s).drop (q :: ps).length).length = s.length + 1 - (s.length - ps.length) := by
        simp
      have hpos : s.length + 1 - (s.length - ps.length) = (s.length - (s.length - ps.length)) + 1 := by omega
      exact ⟨x, _, by rw [hcount, hpos, List.take_succ_cons], hbegins.1⟩
  · cases h

end LlmGateway.Patterns
