import LlmGateway.Foundations.Lines
import LlmGateway.Foundations.Patterns
import LlmGateway.Foundations.Words

/-!
# The grammar of review verdicts

A review ends in a verdict that a machine acts on. `parse_any_review_body` reads it from a line about the merits, from
a block of gate 6, or from a whole line `VERDICT:`, in this order. Without a line about the merits, the first word of
the vocabulary anywhere in the text is taken for one, unless it stands behind a scope check.

The letters of Unicode and their upper case are those of the standard library; what is used of them here is what they
are on ASCII.
-/

namespace LlmGateway.ReviewVerdict

open Text Patterns

/-- `\w` and `str.upper`, with their values on ASCII. -/
structure Letters where
  isWord : Char → Bool
  upperChar : Char → List Char
  isWord_ascii : ∀ c, c.toNat < 128 → isWord c = (c.isAlphanum || c == '_')
  upper_ascii : ∀ c, c.toNat < 128 → upperChar c = [c.toUpper]

def Letters.upper (U : Letters) (s : List Char) : List Char := s.flatMap U.upperChar

inductive VerdictAction where
  | advance
  | amendmentsRequired
  | blocked
  deriving DecidableEq

structure ParsedVerdict where
  token : Option (List Char)
  action : VerdictAction
  reason : String
  deriving DecidableEq

/-! ## The patterns -/

/-- The words of `_TOKEN_PATTERN` behind the first. -/
def tokenWords : List (List Char) :=
  ["ADMIT", "RATIFY_WITH_CONDITIONS", "RATIFY-WITH-CONDITIONS", "RATIFY", "REJECT", "RETURN_TO_DESIGN",
    "RETURN-TO-DESIGN", "RETURN", "SCOPE-DRIFT", "SCOPE_DRIFT"].map String.toList

/-- `_TOKEN_PATTERN`, with or without regard to case. -/
def tokenPattern (word : List Char → Pattern) : Pattern :=
  oneOf (word "ADMIT_WITH_AMENDMENTS".toList) (tokenWords.map word)

/-- `\*{0,2}`. -/
def stars : Pattern := .repeated true (fun c => c == '*') 0 (some 2)

/-- `_MERITS_RE` in front of its group. -/
def meritsFront (U : Letters) : Pattern :=
  sequence [stars, wordBoundary U.isWord,
    .either
      (.both (literalNoCase "Merits".toList)
        (Patterns.optional (.both (.repeated true Json.isSpace 1 none)
          (.either (literalNoCase "verdict".toList) (literalNoCase "disposition".toList)))))
      (literalNoCase "merits".toList),
    wordBoundary U.isWord, stars, spaces, .chars [fun c => c == ':' || c == '-' || c == '—'], spaces, stars, spaces]

def meritsRe (U : Letters) : Pattern :=
  .both (meritsFront U) (.both (.group (tokenPattern literalNoCase)) (wordBoundary U.isWord))

def subjectTokenRe (U : Letters) : Pattern :=
  .both (wordBoundary U.isWord) (.both (.group (tokenPattern literal)) (wordBoundary U.isWord))

def scopeCheckPrefixRe : Pattern :=
  sequence [literalNoCase "scope".toList, spaces, literalNoCase "check".toList]

/-- `\*\*(?P<token>[^*]+)\*\*`. -/
def boldToken : Pattern :=
  sequence [literal "**".toList, .group (.repeated true (fun c => c != '*') 1 none), literal "**".toList]

def gate6HeadingVerdictRe : Pattern :=
  sequence [lineStart, literal "##".toList, spaces, literalNoCase "Verdict:".toList, spaces, boldToken]

def gate6BoldVerdictRe : Pattern :=
  sequence [lineStart, literalNoCase "**Verdict:**".toList, spaces, boldToken]

def standaloneVerdictRe : Pattern :=
  sequence [lineStart, literalNoCase "VERDICT:".toList, spaces,
    .group (.repeated false (fun c => c != '\n') 1 none), spaces, lineEnd]

/-! ## Tokens -/

/-- The text behind a number of characters that are passed over, with every part replaced. -/
def replaceFrom (old new : List Char) : List Char → ℕ → List Char
  | [], _ => []
  | _ :: s, skip + 1 => replaceFrom old new s skip
  | c :: s, 0 =>
    if old.isPrefixOf (c :: s) then new ++ replaceFrom old new s (old.length - 1) else c :: replaceFrom old new s 0

/-- `s.replace(old, new)`. -/
def replace (old new : String) (s : List Char) : List Char := replaceFrom old.toList new.toList s 0

/-- `_BLOCK_TRAILING_SEP`. -/
def isBlockTrailingSep (c : Char) : Bool := " \t—-(:".toList.contains c

/-- What is left of a text behind a prefix. -/
def behind? (p s : List Char) : Option (List Char) := if p.isPrefixOf s then some (s.drop p.length) else none

def normalizeVerdictToken (U : Letters) (raw : List Char) : List Char :=
  let token := replace "RETURN-TO-DESIGN" "RETURN_TO_DESIGN" (replace "SCOPE_DRIFT" "SCOPE-DRIFT"
    (replace "RATIFY-WITH-CONDITIONS" "RATIFY_WITH_CONDITIONS" (U.upper (strip raw))))
  match behind? "RETURN_TO_DESIGN".toList token with
  | none => token
  | some [] => "RETURN".toList
  | some (c :: rest) => if isBlockTrailingSep c then "RETURN".toList ++ c :: rest else token

/-- `_ADVANCE`. -/
def advanceTokens : List (List Char) := ["ADMIT".toList, "RATIFY".toList]

/-- `_AMEND`. -/
def amendTokens : List (List Char) := ["ADMIT_WITH_AMENDMENTS".toList, "RATIFY_WITH_CONDITIONS".toList]

/-- `_BLOCK`. -/
def blockTokens : List (List Char) := ["RETURN".toList, "SCOPE-DRIFT".toList, "SCOPE_DRIFT".toList, "REJECT".toList]

def classify (normalized : List Char) : ParsedVerdict :=
  if advanceTokens.contains normalized then ⟨some normalized, .advance, "advance_ok"⟩
  else if amendTokens.contains normalized then
    ⟨some normalized, .amendmentsRequired, "amendments_must_fold_before_implement"⟩
  else if blockTokens.contains normalized then ⟨some normalized, .blocked, "r_verdict_blocked"⟩
  else ⟨some normalized, .blocked, "unknown_verdict"⟩

/-- `_block_token_with_trailing`. A blank is one of the separators. -/
def blockTokenWithTrailing (normalized : List Char) : Option ParsedVerdict :=
  ["REJECT".toList, "RETURN".toList, "SCOPE-DRIFT".toList].findSome? fun token =>
    match behind? token normalized with
    | none => none
    | some [] => some ⟨some token, .blocked, "r_verdict_blocked"⟩
    | some (c :: _) => if isBlockTrailingSep c then some ⟨some token, .blocked, "r_verdict_blocked"⟩ else none

def closedAdvanceAliases : List (List Char) := ["PASS".toList, "APPROVE".toList, "SHIP".toList]

def closedAdvanceAlias (U : Letters) (raw : List Char) : Option ParsedVerdict :=
  match Words.split raw with
  | [] => none
  | first :: rest =>
    let endedWithPeriod := first.getLast? == some '.'
    let word := if endedWithPeriod then first.dropLast else first
    let normalized := U.upper word
    if !closedAdvanceAliases.contains normalized then none
    else if !rest.isEmpty && !endedWithPeriod then none
    else some ⟨some normalized, .advance, "advance_ok"⟩

def parseTokenFromRaw (U : Letters) (raw : List Char) : ParsedVerdict :=
  let stripped := strip raw
  if stripped.isEmpty then ⟨none, .blocked, "unparseable_r_verdict"⟩
  else
    let normalized := normalizeVerdictToken U stripped
    match blockTokenWithTrailing normalized with
    | some blocked => blocked
    | none => (closedAdvanceAlias U stripped).getD (classify normalized)

/-! ## The three grammars -/

/-- The verdicts of a pattern's matches. -/
def verdicts (U : Letters) (p : Pattern) (text : List Char) : List ParsedVerdict :=
  (finditer p text).map fun m => parseTokenFromRaw U m.2.captured

/-- `_token_in_scope_check_context`, at a place in the text. -/
def tokenInScopeCheckContext (c : Cursor) : Bool := (search scopeCheckPrefixRe (c.before.take 64).reverse).isSome

/-- The verdicts of the words of the vocabulary that stand behind no scope check. -/
def subjectVerdicts (U : Letters) (text : List Char) : List ParsedVerdict :=
  ((finditer (subjectTokenRe U) text).filter fun m => !tokenInScopeCheckContext m.1).map fun m =>
    parseTokenFromRaw U m.2.captured

def parseMeritsLine (U : Letters) (text : List Char) : ParsedVerdict :=
  match search (meritsRe U) text with
  | some m => parseTokenFromRaw U m.2.captured
  | none =>
    ((subjectVerdicts U text).find? fun v => v.token.isSome).getD ⟨none, .blocked, "unparseable_r_verdict"⟩

def gate6VerdictPriority (v : ParsedVerdict) : ℕ :=
  match v.action with
  | .blocked => 0
  | .amendmentsRequired => 1
  | .advance => 2

/-- The verdicts of the blocks of gate 6. -/
def gate6Verdicts (U : Letters) (text : List Char) : List ParsedVerdict :=
  verdicts U gate6HeadingVerdictRe text ++ verdicts U gate6BoldVerdictRe text

/-- `parse_gate6_markdown`: the first of the verdicts with the least priority. -/
def parseGate6Markdown (U : Letters) (text : List Char) : ParsedVerdict :=
  match gate6Verdicts U text with
  | [] => ⟨none, .blocked, "unparseable_gate6_verdict"⟩
  | v :: vs => vs.foldl (fun best w => if gate6VerdictPriority w < gate6VerdictPriority best then w else best) v

def parseAnyReviewBody (U : Letters) (text : List Char) : ParsedVerdict :=
  let merits := parseMeritsLine U text
  if merits.token.isSome then merits
  else
    let gate6 := parseGate6Markdown U text
    if gate6.token.isSome then gate6
    else ((verdicts U standaloneVerdictRe text).find? fun v => v.token.isSome).getD gate6

end LlmGateway.ReviewVerdict
