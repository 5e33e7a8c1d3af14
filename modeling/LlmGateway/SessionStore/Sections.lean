import LlmGateway.SessionStore.Fence
import Mathlib.Algebra.GroupWithZero.Nat

/-!
# The sections of a markdown text

`parse_sections` lists the headings of a text with what stands under them. Its lines end at every line boundary
that Python knows, not only at newlines, and lines between fences are passed over. A heading is one to six hashes,
blanks, and a text behind which blanks and hashes do not count.
-/

namespace LlmGateway.SessionStore

open Text

/-! ## Headings -/

/-- `[ \t]`. -/
def isBlank (c : Char) : Bool := c == ' ' || c == '\t'

/-- `[ \t]*#*[ \t]*$`. -/
def closes (s : List Char) : Bool :=
  (((s.dropWhile isBlank).dropWhile fun c => c == '#').dropWhile isBlank).isEmpty

/-- `(.+?)` in front of what closes a heading. -/
def lazyText : List Char → List Char
  | [] => []
  | c :: s => if closes s then [c] else c :: lazyText s

/-- The level and the text of a heading: `_HEADING_RE`. A line of hashes and two blanks or more has an empty text. -/
def atxHeading (line : List Char) : Option (ℕ × List Char) :=
  let level := (line.takeWhile fun c => c == '#').length
  let rest := line.dropWhile fun c => c == '#'
  let blanks := (rest.takeWhile isBlank).length
  let text := rest.dropWhile isBlank
  if level = 0 ∨ 6 < level ∨ blanks = 0 then none
  else if text.isEmpty then if blanks = 1 then none else some (level, [])
  else some (level, strip (lazyText text))

/-- `line.rstrip("\n\r")`. -/
def chomp (line : List Char) : List Char := (line.reverse.dropWhile fun c => c == '\n' || c == '\r').reverse

/-- A heading with its place: the line, counted from one, and the characters in front of it. -/
structure Found where
  line : ℕ
  offset : ℕ
  level : ℕ
  heading : List Char

/-- What a line does to the fence: outside, three delimiters or more open one, and inside, a row of its length closes
it. -/
def nextFence (W : WordClass) (fence : Option (Char × ℕ)) (line : List Char) : Option (Char × ℕ) :=
  match fence with
  | none => ((parseFenceOpen W line).filter fun p => decide (minFenceLen ≤ p.2.1)).map fun p => (p.1, p.2.1)
  | some (c, need) => if isClosingFenceLine line c need then none else some (c, need)

/-- The heading of a line, when no fence is open and the line opens none. -/
def headingOf (W : WordClass) (fence : Option (Char × ℕ)) (line : List Char) : Option (ℕ × List Char) :=
  if fence.isNone && (nextFence W fence line).isNone then atxHeading (chomp line) else none

/-- The loop of `parse_sections`. -/
def findHeadings (W : WordClass) (fence : Option (Char × ℕ)) (index offset : ℕ) : List (List Char) → List Found
  | [] => []
  | line :: lines =>
    ((headingOf W fence line).map fun h => (⟨index + 1, offset, h.1, h.2⟩ : Found)).toList ++
      findHeadings W (nextFence W fence line) (index + 1) (offset + line.length) lines

/-! ## Sections -/

/-- `Section`; `stop` is `end`. -/
structure Section where
  heading : List Char
  level : ℕ
  path : List Char
  line : ℕ
  start : ℕ
  stop : ℕ
  chars : ℕ

/-- A heading in a path. -/
def escaped (heading : List Char) : List Char := heading.flatMap fun c => if c = '/' then ['\\', '/'] else [c]

/-- The headings above one, the innermost first: those of a lower level. -/
def above (stack : List (ℕ × List Char)) (level : ℕ) : List (ℕ × List Char) :=
  stack.dropWhile fun e => decide (level ≤ e.1)

/-- The paths of the headings. -/
def paths (stack : List (ℕ × List Char)) : List Found → List (List Char)
  | [] => []
  | f :: found =>
    let stack := (f.level, escaped f.heading) :: above stack f.level
    ['/'].intercalate (stack.reverse.map Prod.snd) :: paths stack found

/-- Where the line at an offset ends. -/
def lineEnd (text : List Char) (offset : ℕ) : ℕ :=
  offset + min (((text.drop offset).takeWhile fun c => c != '\n').length + 1) (text.length - offset)

def charUpto (lines : List (List Char)) (index : ℕ) : ℕ := ((lines.take index).map List.length).sum

/-- The sections of headings with their paths: each ends where one of its level or above begins. -/
def sectionsOf (text : List Char) (lines : List (List Char)) : List (Found × List Char) → List Section
  | [] => []
  | (f, path) :: rest =>
    let stop := match rest.find? fun g => decide (g.1.level ≤ f.level) with
      | none => text.length
      | some g => charUpto lines (g.1.line - 1)
    ⟨f.heading, f.level, path, f.line, lineEnd text f.offset, stop, stop - lineEnd text f.offset⟩ ::
      sectionsOf text lines rest

/-- `parse_sections`: the preamble and the sections. -/
def parseSections (W : WordClass) (text : List Char) : List Section :=
  let lines := splitlines text
  let found := findHeadings W none 0 0 lines
  let preamble := match found with
    | [] => text.length
    | f :: _ => charUpto lines (f.line - 1)
  ⟨[], 0, [], 1, 0, preamble, preamble⟩ :: sectionsOf text lines (found.zip (paths [] found))

/-! ## What is found -/

/-- The levels and the texts of the headings. -/
def headings (W : WordClass) (fence : Option (Char × ℕ)) : List (List Char) → List (ℕ × List Char)
  | [] => []
  | line :: lines => (headingOf W fence line).toList ++ headings W (nextFence W fence line) lines

variable {W : WordClass}

theorem map_findHeadings (W : WordClass) (fence : Option (Char × ℕ)) (index offset : ℕ) (lines : List (List Char)) :
    (findHeadings W fence index offset lines).map (fun f => (f.level, f.heading)) = headings W fence lines := by
  induction lines generalizing fence index offset with
  | nil => rfl
  | cons line lines ih =>
    rw [findHeadings, headings, List.map_append, ih]
    cases headingOf W fence line <;> rfl

theorem length_paths (stack : List (ℕ × List Char)) (found : List Found) : (paths stack found).length = found.length := by
  induction found generalizing stack with
  | nil => rfl
  | cons f found ih => rw [paths, List.length_cons, List.length_cons, ih]

theorem map_sectionsOf (text : List Char) (lines : List (List Char)) (found : List (Found × List Char)) :
    (sectionsOf text lines found).map (fun s => (s.level, s.heading)) =
      found.map fun f => (f.1.level, f.1.heading) := by
  induction found with
  | nil => rfl
  | cons f found ih =>
    rw [sectionsOf, List.map_cons, List.map_cons, ih]

theorem parseSections_tail (W : WordClass) (text : List Char) :
    (parseSections W text).tail.map (fun s => (s.level, s.heading)) = headings W none (splitlines text) := by
  rw [parseSections, List.tail_cons, map_sectionsOf, ← map_findHeadings W none 0 0]
  have hzip : ((findHeadings W none 0 0 (splitlines text)).zip
      (paths [] (findHeadings W none 0 0 (splitlines text)))).map Prod.fst =
      findHeadings W none 0 0 (splitlines text) :=
    List.map_fst_zip (length_paths _ _).ge
  conv_rhs => rw [← hzip, List.map_map]
  rfl

theorem headings_append (fence : Option (Char × ℕ)) (l l' : List (List Char)) :
    headings W fence (l ++ l') = headings W fence l ++ headings W (l.foldl (nextFence W) fence) l' := by
  induction l generalizing fence with
  | nil => rfl
  | cons line l ih => rw [List.cons_append, headings, headings, ih, List.append_assoc, List.foldl_cons]

/-! ### Lines outside of fences -/

theorem lazyText_append_single {s : List Char} {c : Char} (hblank : isBlank c = false) (hhash : c ≠ '#') :
    lazyText (s ++ [c]) = s ++ [c] := by
  have hopen : ∀ t : List Char, closes (t ++ [c]) = false := by
    intro t
    have hdrop : ∀ (p : Char → Bool) (u : List Char), p c = false → ∃ v, (u ++ [c]).dropWhile p = v ++ [c] := by
      intro p u hp
      induction u with
      | nil => exact ⟨[], by simp [hp]⟩
      | cons d u ih =>
        rw [List.cons_append, List.dropWhile_cons]
        split
        · exact ih
        · exact ⟨d :: u, rfl⟩
    obtain ⟨u, hu⟩ := hdrop isBlank t hblank
    obtain ⟨v, hv⟩ := hdrop (fun d => d == '#') u (by simp [hhash])
    obtain ⟨w, hw⟩ := hdrop isBlank v hblank
    rw [closes, hu, hv, hw, List.isEmpty_eq_false_iff]
    exact List.append_ne_nil_of_right_ne_nil _ (List.cons_ne_nil _ _)
  induction s with
  | nil =>
    rw [List.nil_append, lazyText]
    split
    · rfl
    · rename_i h
      exact (h rfl).elim
  | cons d s ih => rw [List.cons_append, lazyText, if_neg (by simp [hopen]), ih]

theorem atxHeading_of_ne {c : Char} (h : c ≠ '#') (s : List Char) : atxHeading (c :: s) = none := by
  have hlevel : ((c :: s).takeWhile fun c => c == '#').length = 0 := by simp [h]
  simp only [atxHeading, hlevel, true_or, if_true]

theorem atxHeading_replicate {n : ℕ} {d : Char} (hd : d ≠ '#') (s : List Char) :
    atxHeading (List.replicate n '#' ++ d :: s) =
      if n = 0 ∨ 6 < n ∨ isBlank d = false then none
      else if (s.dropWhile isBlank).isEmpty then if s.takeWhile isBlank = [] then none else some (n, [])
      else some (n, strip (lazyText (s.dropWhile isBlank))) := by
  have htake : (List.replicate n '#' ++ d :: s).takeWhile (fun c => c == '#') = List.replicate n '#' := by
    rw [List.takeWhile_append_of_pos fun e he => beq_iff_eq.2 (List.eq_of_mem_replicate he),
      List.takeWhile_cons_of_neg (by simp [hd]), List.append_nil]
  have hdrop : (List.replicate n '#' ++ d :: s).dropWhile (fun c => c == '#') = d :: s := by
    rw [List.dropWhile_append_of_pos fun e he => beq_iff_eq.2 (List.eq_of_mem_replicate he),
      List.dropWhile_cons_of_neg (by simp [hd])]
  cases hblank : isBlank d with
  | false | true => simp [atxHeading, htake, hdrop, hblank]

theorem atxHeading_hashes {n : ℕ} (hn : 0 < n) (hn' : n ≤ 6) {c : Char} (hblank : isBlank c = false) (s : List Char) :
    atxHeading (List.replicate n '#' ++ ' ' :: c :: s) = some (n, strip (lazyText (c :: s))) := by
  have htext : (c :: s).dropWhile isBlank = c :: s := List.dropWhile_cons_of_neg (by simp [hblank])
  have hopen : ¬ (n = 0 ∨ 6 < n ∨ isBlank ' ' = false) := by
    rintro (h | h | h)
    · omega
    · omega
    · cases h
  rw [atxHeading_replicate (by decide), if_neg hopen, htext, List.isEmpty_cons, if_neg Bool.false_ne_true]

theorem chomp_append_newline {s : List Char} (h : SingleLine s) : chomp (s ++ ['\n']) = s := by
  rw [chomp, List.reverse_append, List.reverse_singleton, List.singleton_append,
    List.dropWhile_cons_of_pos (by decide)]
  cases hs : s.reverse with
  | nil =>
    rw [List.reverse_eq_nil_iff.1 hs]
    rfl
  | cons c t =>
    have hc : isBreak c = false := h c (List.mem_reverse.1 (hs ▸ List.mem_cons_self))
    have hne : (c == '\n' || c == '\r') = false := by
      rw [Bool.or_eq_false_iff, beq_eq_false_iff_ne, beq_eq_false_iff_ne]
      constructor <;> rintro rfl <;> revert hc <;> decide
    rw [List.dropWhile_cons_of_neg (by simp [hne]), ← hs, List.reverse_reverse]

theorem strip_append_newline (s : List Char) : strip (s ++ ['\n']) = strip s := by
  induction s with
  | nil => rfl
  | cons c s ih =>
    cases hc : Json.isSpace c with
    | true => rw [List.cons_append, strip_cons_of_isSpace hc, strip_cons_of_isSpace hc, ih]
    | false =>
      rw [List.cons_append, strip_cons_of_not_isSpace hc, strip_cons_of_not_isSpace hc, ← List.cons_append,
        rstrip_append_single, if_pos (by decide)]

theorem parseFenceOpen_append_newline (s : List Char) : parseFenceOpen W (s ++ ['\n']) = parseFenceOpen W s := by
  rw [parseFenceOpen, parseFenceOpen, strip_append_newline]

theorem headings_line {s : List Char} (h : SingleLine s) (hfence : isFenceLine W s = false) (rest : List (List Char)) :
    headings W none ((s ++ ['\n']) :: rest) = (atxHeading s).toList ++ headings W none rest := by
  have hnone : parseFenceOpen W (s ++ ['\n']) = none := by
    rw [parseFenceOpen_append_newline, ← Option.not_isSome_iff_eq_none, ← isFenceLine, hfence]
    decide
  have hnext : nextFence W none (s ++ ['\n']) = none := by
    rw [nextFence, hnone]
    rfl
  rw [headings, headingOf, hnext, chomp_append_newline h]
  rfl

/-! ### A wrapped body -/

theorem headings_wrapped (W : WordClass) (body : List Char) (rest : List (List Char)) :
    headings W none ((openingFence W body ++ ['\n']) :: (splitlines (body ++ ['\n']) ++
      (closingFence W body ++ ['\n']) :: rest)) = headings W none rest := by
  have hopen : nextFence W none (openingFence W body ++ ['\n']) =
      some (chooseFenceChar body, fenceLength W body (chooseFenceChar body)) := by
    have hlong : minFenceLen ≤ fenceLength W body (chooseFenceChar body) := three_le_fenceLength W body _
    simp only [nextFence, parseFenceOpen_append_newline, parseFenceOpen_openingFence, Option.filter_some, hlong,
      decide_true, if_true, Option.map_some]
  have hnewline : chooseFenceChar body ≠ '\n' := by
    intro h
    have hbreak := not_isBreak_chooseFenceChar body
    rw [h] at hbreak
    exact absurd hbreak (by decide)
  -- No line of the body closes the fence: the newline behind it makes no row longer.
  have hinside : ∀ line ∈ splitlines (body ++ ['\n']),
      isClosingFenceLine line (chooseFenceChar body) (fenceLength W body (chooseFenceChar body)) = false := by
    intro line hline
    by_contra hclosing
    rw [Bool.not_eq_false, isClosingFenceLine, beq_iff_eq] at hclosing
    have hrow : List.replicate (fenceLength W body (chooseFenceChar body)) (chooseFenceChar body) <:+: body ++ ['\n'] :=
      hclosing ▸ (strip_isInfix line).trans (isInfix_of_mem_splitlines hline)
    have hle := le_longestRun hrow
    rw [longestRun_append_single hnewline.symm] at hle
    exact absurd hle (not_le.2 (longestRun_lt_fenceLength W body _))
  have hskip : ∀ (lines : List (List Char)) (rest : List (List Char)),
      (∀ line ∈ lines, isClosingFenceLine line (chooseFenceChar body)
        (fenceLength W body (chooseFenceChar body)) = false) →
      headings W (some (chooseFenceChar body, fenceLength W body (chooseFenceChar body))) (lines ++ rest) =
        headings W (some (chooseFenceChar body, fenceLength W body (chooseFenceChar body))) rest := by
    intro lines rest hlines
    induction lines with
    | nil => rfl
    | cons line lines ih =>
      rw [List.cons_append, headings, nextFence, if_neg (by simp [hlines line List.mem_cons_self]),
        ih fun line hline => hlines line (List.mem_cons_of_mem _ hline)]
      rfl
  have hclose : isClosingFenceLine (closingFence W body ++ ['\n']) (chooseFenceChar body)
      (fenceLength W body (chooseFenceChar body)) = true := by
    rw [isClosingFenceLine, strip_append_newline]
    exact isClosingFenceLine_closingFence W body
  rw [headings, hopen, hskip _ _ hinside, headings, nextFence, if_pos hclose, headingOf, hopen]
  rfl

end LlmGateway.SessionStore
