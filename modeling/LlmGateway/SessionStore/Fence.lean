import LlmGateway.Foundations.Lines

/-!
# Fences

A fence line is a row of backticks or of tildes with an info word behind it; a row of the same length closes it.
`wrap_fenced` puts a body between two fence lines that are longer than every row in it, so that no part of the body
closes the fence (`not_isClosingFenceLine_of_isInfix`), and `extract_fenced` finds the body again
(`extractLines_wrapLines`).

`\w` is every letter and digit of Unicode; what is used of it here is what it is on ASCII.
-/

namespace LlmGateway.SessionStore

open Text

/-- `\w`, with its values on ASCII. -/
structure WordClass where
  isWord : Char → Bool
  ascii : ∀ c, c.toNat < 128 → isWord c = (c.isAlphanum || c == '_')

/-- A letter or a digit of ASCII, or an underscore. -/
def isAsciiWord (c : Char) : Bool := c.isAlphanum || c == '_'

theorem isAsciiWord_eq (c : Char) (_ : c.toNat < 128) : isAsciiWord c = (c.isAlphanum || c == '_') := rfl

/-- The words of ASCII. -/
def asciiWords : WordClass := ⟨isAsciiWord, isAsciiWord_eq⟩

/-! ## Fence lines -/

def minFenceLen : ℕ := 3

/-- `parse_fence_open`: the character, the length and the info word. -/
def parseFenceOpen (W : WordClass) (line : List Char) : Option (Char × ℕ × List Char) :=
  match strip line with
  | [] => none
  | c :: s =>
    if c = '\x60' ∨ c = '~' then
      let lang := (c :: s).dropWhile fun d => d == c
      if lang.all W.isWord then some (c, ((c :: s).takeWhile fun d => d == c).length, lang) else none
    else none

def isFenceLine (W : WordClass) (line : List Char) : Bool := (parseFenceOpen W line).isSome

def isClosingFenceLine (line : List Char) (c : Char) (need : ℕ) : Bool := strip line == List.replicate need c

/-! ## The fence of a body -/

def chooseFenceChar (body : List Char) : Char :=
  if longestRun body '\x60' ≤ longestRun body '~' then '~' else '\x60'

def maxDelimiterPresence (W : WordClass) (body : List Char) (c : Char) : ℕ :=
  let lineOnly := (body.splitOn '\n').foldl (fun best line =>
    let stripped := strip line
    if stripped.isEmpty then best
    else if stripped.all fun d => d == c then max best stripped.length
    else
      match parseFenceOpen W stripped with
      | some (d, n, _) => if d = c then max best n else best
      | none => best) 0
  max (longestRun body c) lineOnly

def fenceLength (W : WordClass) (body : List Char) (c : Char) : ℕ := max minFenceLen (maxDelimiterPresence W body c + 1)

/-- The info word of the fences. -/
def lang : List Char := ['t', 'e', 'x', 't']

def openingFence (W : WordClass) (body : List Char) : List Char :=
  List.replicate (fenceLength W body (chooseFenceChar body)) (chooseFenceChar body) ++ lang

def closingFence (W : WordClass) (body : List Char) : List Char :=
  List.replicate (fenceLength W body (chooseFenceChar body)) (chooseFenceChar body)

def wrapFenced (W : WordClass) (body : List Char) : List Char :=
  openingFence W body ++ '\n' :: body ++ '\n' :: closingFence W body

/-- The exceptions of `extract_fenced`. -/
inductive FenceError where
  | notFenced
  | unclosed
  deriving DecidableEq

/-- `extract_fenced`, on the lines of the block. -/
def extractLines (W : WordClass) : List (List Char) → Except FenceError (List Char)
  | [] => .ok []
  | first :: lines =>
    match parseFenceOpen W first with
    | none => .error .notFenced
    | some (c, need, _) =>
      if lines.any fun line => isClosingFenceLine line c need then
        .ok (['\n'].intercalate (lines.takeWhile fun line => !isClosingFenceLine line c need))
      else .error .unclosed

def extractFenced (W : WordClass) (block : List Char) : Except FenceError (List Char) :=
  extractLines W (block.splitOn '\n')

/-! ## The body between its fences -/

variable {W : WordClass} {body : List Char}

theorem chooseFenceChar_eq (body : List Char) : chooseFenceChar body = '\x60' ∨ chooseFenceChar body = '~' := by
  unfold chooseFenceChar
  split
  · exact .inr rfl
  · exact .inl rfl

theorem not_isSpace_chooseFenceChar (body : List Char) : Json.isSpace (chooseFenceChar body) = false := by
  obtain h | h := chooseFenceChar_eq body <;> rw [h] <;> decide

theorem not_isBreak_chooseFenceChar (body : List Char) : isBreak (chooseFenceChar body) = false := by
  obtain h | h := chooseFenceChar_eq body <;> rw [h] <;> decide

theorem three_le_fenceLength (W : WordClass) (body : List Char) (c : Char) : 3 ≤ fenceLength W body c := le_max_left ..

theorem longestRun_lt_fenceLength (W : WordClass) (body : List Char) (c : Char) :
    longestRun body c < fenceLength W body c :=
  lt_of_lt_of_le (Nat.lt_succ_of_le (le_max_left ..)) (le_max_right ..)

theorem not_isClosingFenceLine_of_isInfix {line : List Char} (h : line <:+: body) :
    isClosingFenceLine line (chooseFenceChar body) (fenceLength W body (chooseFenceChar body)) = false := by
  by_contra hclosing
  rw [Bool.not_eq_false, isClosingFenceLine, beq_iff_eq] at hclosing
  have hrow : List.replicate (fenceLength W body (chooseFenceChar body)) (chooseFenceChar body) <:+: body :=
    hclosing ▸ (strip_isInfix line).trans h
  exact absurd (le_longestRun hrow) (not_le.2 (longestRun_lt_fenceLength W body _))

theorem stripped_replicate {c : Char} (hc : Json.isSpace c = false) (n : ℕ) : Stripped (List.replicate n c) := by
  cases n with
  | zero => exact Stripped.nil
  | succ n =>
    rw [Stripped, List.replicate_succ, strip_cons_of_not_isSpace hc, ← List.replicate_succ, List.replicate_succ',
      rstrip_append_single, if_neg (by simp [hc])]

theorem isClosingFenceLine_closingFence (W : WordClass) (body : List Char) :
    isClosingFenceLine (closingFence W body) (chooseFenceChar body) (fenceLength W body (chooseFenceChar body)) =
      true := by
  rw [isClosingFenceLine, closingFence, stripped_replicate (not_isSpace_chooseFenceChar body), beq_self_eq_true]

theorem parseFenceOpen_replicate {c : Char} (hc : c = '\x60' ∨ c = '~') {n : ℕ} (hn : 0 < n) {word : List Char}
    (hword : Stripped word) (hall : word.all W.isWord = true) (hne : ∀ d ∈ word, d ≠ c) :
    parseFenceOpen W (List.replicate n c ++ word) = some (c, n, word) := by
  obtain ⟨m, rfl⟩ := Nat.exists_eq_succ_of_ne_zero hn.ne'
  have hspace : Json.isSpace c = false := by
    obtain rfl | rfl := hc <;> decide
  have hstrip : strip (List.replicate (m + 1) c ++ word) = List.replicate (m + 1) c ++ word := by
    cases word with
    | nil =>
      rw [List.append_nil]
      exact stripped_replicate hspace _
    | cons d word =>
      exact (stripped_replicate hspace _).append (by simp) hword (List.cons_ne_nil _ _)
  have htake : (List.replicate (m + 1) c ++ word).takeWhile (fun d => d == c) = List.replicate (m + 1) c := by
    rw [List.takeWhile_append_of_pos fun d hd => beq_iff_eq.2 (List.eq_of_mem_replicate hd)]
    cases word with
    | nil => simp
    | cons d word => rw [List.takeWhile_cons_of_neg (by simp [hne d List.mem_cons_self]), List.append_nil]
  have hdrop : (List.replicate (m + 1) c ++ word).dropWhile (fun d => d == c) = word := by
    rw [List.dropWhile_append_of_pos fun d hd => beq_iff_eq.2 (List.eq_of_mem_replicate hd)]
    cases word with
    | nil => rfl
    | cons d word => rw [List.dropWhile_cons_of_neg (by simp [hne d List.mem_cons_self])]
  rw [parseFenceOpen, hstrip]
  rw [List.replicate_succ, List.cons_append] at htake hdrop ⊢
  simp only [hdrop, htake, if_pos hc, if_pos hall]
  simp

theorem all_isWord_lang (W : WordClass) : lang.all W.isWord = true := by
  simp only [lang, List.all_cons, List.all_nil, Bool.and_true, Bool.and_eq_true]
  refine ⟨?_, ?_, ?_, ?_⟩ <;> rw [W.ascii _ (by decide)] <;> decide

theorem parseFenceOpen_openingFence (W : WordClass) (body : List Char) :
    parseFenceOpen W (openingFence W body) =
      some (chooseFenceChar body, fenceLength W body (chooseFenceChar body), lang) := by
  have hpos : 0 < fenceLength W body (chooseFenceChar body) :=
    lt_of_lt_of_le (by decide) (three_le_fenceLength W body _)
  refine parseFenceOpen_replicate (chooseFenceChar_eq body) hpos (by rw [Stripped]; decide) (all_isWord_lang W) ?_
  have hlang : '\x60' ∉ lang ∧ '~' ∉ lang := by decide
  rintro d hd rfl
  obtain h | h := chooseFenceChar_eq body <;> rw [h] at hd
  · exact hlang.1 hd
  · exact hlang.2 hd

theorem parseFenceOpen_closingFence (W : WordClass) (body : List Char) :
    parseFenceOpen W (closingFence W body) =
      some (chooseFenceChar body, fenceLength W body (chooseFenceChar body), []) := by
  have hpos : 0 < fenceLength W body (chooseFenceChar body) :=
    lt_of_lt_of_le (by decide) (three_le_fenceLength W body _)
  have h := parseFenceOpen_replicate (W := W) (chooseFenceChar_eq body) hpos (Stripped.nil : Stripped []) rfl
    (fun d hd => by cases hd)
  rw [List.append_nil] at h
  exact h

/-- The lines of a wrapped body. -/
def wrapLines (W : WordClass) (body : List Char) : List (List Char) :=
  openingFence W body :: (body.splitOn '\n' ++ [closingFence W body])

/-- **A body comes out of its fences as it went in**, whatever stands behind them. -/
theorem extractLines_wrapLines (W : WordClass) (body : List Char) (rest : List (List Char)) :
    extractLines W (wrapLines W body ++ rest) = .ok body := by
  have hclosing := isClosingFenceLine_closingFence W body
  rw [wrapLines, List.cons_append, extractLines, parseFenceOpen_openingFence, List.append_assoc]
  have hany : (body.splitOn '\n' ++ ([closingFence W body] ++ rest)).any (fun line =>
      isClosingFenceLine line (chooseFenceChar body) (fenceLength W body (chooseFenceChar body))) = true :=
    List.any_eq_true.2 ⟨closingFence W body, by simp, hclosing⟩
  have htake : (body.splitOn '\n' ++ ([closingFence W body] ++ rest)).takeWhile (fun line =>
      !isClosingFenceLine line (chooseFenceChar body) (fenceLength W body (chooseFenceChar body))) =
      body.splitOn '\n' := by
    rw [List.takeWhile_append_of_pos fun line hline => by
      rw [not_isClosingFenceLine_of_isInfix (isInfix_of_mem_splitOn hline)]
      rfl]
    rw [List.singleton_append, List.takeWhile_cons_of_neg (by simp [hclosing]), List.append_nil]
  simp only [hany, htake, if_true]
  rw [List.intercalate_splitOn]

end LlmGateway.SessionStore
