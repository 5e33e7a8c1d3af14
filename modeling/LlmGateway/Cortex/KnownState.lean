import LlmGateway.Cortex.BeliefGuard
import Mathlib.Data.List.MinMax

/-!
# The recorder's known state

What the recorder captures of a life comes again and again. Before it is inserted, a claim on such an entity is looked
for among the active assertions: the same claim, one that names the same anchor (a day and a slug) in nearly the same
words, or one that the index finds. When it is known the create answers with that assertion.
-/

namespace LlmGateway.Cortex

variable {ρ : Type}

/-! ## Requests -/

/-- `AssertionCreate` as it comes in, with the time of the call and what the checks on the request alone yield. -/
structure CreateRequest (ρ : Type) where
  entityId : String
  claim : String
  evidenceUris : Option (List String)
  attributes : Option (List (String × Json))
  force : Bool
  supersedesId : Option ℕ
  dryRun : Bool
  validUntil : Option String
  columns : ρ
  /-- What the validation of the payload raises. -/
  rejected : Option Error
  /-- What the predicate normalizer raises. -/
  unparseable : Option Error
  /-- Validation routes the assertion to staging. -/
  staged : Bool
  /-- A contradiction or the predicate normalizer asks for a review. -/
  flagged : Bool
  notes : ρ → ρ
  now : String

def lifeEntityTypes : List String :=
  ["person", "organization", "matter", "document", "todo", "account", "property", "condition", "event", "journal"]

def shouldApplyRecorderKnownState (req : CreateRequest ρ) (entityType : Option String) : Bool :=
  let attrs := req.attributes.getD []
  Json.isStrIn ["life"] (Json.get attrs "domain") || (Json.get attrs "recorder_capture").truthy ||
    Json.isStrIn ["recorder"] (Json.get attrs "capture_lane") ||
    lifeEntityTypes.any (fun t => Json.startsWith req.entityId (t ++ ":")) ||
    entityType.any fun t => lifeEntityTypes.contains t

/-! ## Anchors -/

/-- The beginning of an anchor, with `9` for a digit. -/
def anchorShape : List Char := "9999-99-99#".toList

/-- The match of `ANCHOR_RE` at the beginning of a text. -/
def anchorAt (E : Searches ρ) (s : List Char) : Option (List Char) :=
  let date := s.take anchorShape.length
  let name := (s.drop anchorShape.length).takeWhile fun c => E.word.isWord c || c == '-'
  let fits := (date.zip anchorShape).all fun e => if e.2 == '9' then E.digit e.1 else e.1 == e.2
  if date.length == anchorShape.length && fits && !name.isEmpty then some (date ++ name) else none

/-- The matches behind the next `skip` characters. -/
def anchorsFrom (E : Searches ρ) : ℕ → List Char → List (List Char)
  | _, [] => []
  | skip + 1, _ :: s => anchorsFrom E skip s
  | 0, c :: s =>
    match anchorAt E (c :: s) with
    | some a => a :: anchorsFrom E (a.length - 1) s
    | none => anchorsFrom E 0 s

def extractAnchors (E : Searches ρ) (texts : List String) : List (List Char) :=
  texts.flatMap fun text => anchorsFrom E 0 text.toList

/-- `x LIKE '%anchor%'`. -/
def likeInside (x : String) (anchor : List Char) : Bool := x.toList.tails.any fun t => Sql.likeFront anchor t

/-- The text of the column `evidence_uris`. -/
def uriText (uris : Option (List String)) : String :=
  match uris with
  | none => ""
  | some uris => (Json.arr (uris.map Json.str)).dumps

def lookupPriorsByAnchor (E : Searches ρ) (s : Store ρ) (entityId : String) (anchors : List (List Char)) :
    List (ℕ × Assertion ρ) :=
  let rows := s.assertions.select fun _ r => r.entityId == entityId && r.active && anchors.any fun a =>
    likeInside r.claim a || likeInside (E.evidence r.columns) a || likeInside (uriText r.evidenceUris) a
  rows.insertionSort fun a b => b.1 ≤ a.1

/-! ## Meaning -/

def dedupSimilarityThreshold : ℚ := 17 / 20

def scoreSameMeaning (E : Searches ρ) (claim priorClaim : String) : ℚ :=
  E.ratio (E.text.lower claim) (E.text.lower priorClaim)

/-- The words that `_CORRECTION_MARKERS` finds. -/
def correctionMarkers : List String := ["correction", "supersed", "correct", "corrected", "correcting", "amend"]

/-- The letter that `re.I` compares a character as, where it is one. -/
def foldCase (c : Char) : Char :=
  if c == '\u0131' || c == '\u0130' then 'i' else if c == '\u017f' then 's' else c.toLower

def isCorrectionIntent (E : Searches ρ) (texts : List String) : Bool :=
  texts.any fun text => (runsFrom E.word.isWord [] text.toList).any fun run =>
    correctionMarkers.contains (String.ofList (run.map foldCase))

def classifyCorrectionVsRedump (E : Searches ρ) (req : CreateRequest ρ) (score : ℚ) : Bool :=
  req.force && req.supersedesId.isSome ||
    isCorrectionIntent E [req.claim, E.evidence req.columns] && decide (score < dedupSimilarityThreshold)

def buildFtsQuery (E : Searches ρ) (claim : String) : Option String :=
  let significant := ((wordsOf E.word E.text claim).filter fun w => 2 < w.length).take 8
  if significant.isEmpty then none else some (" OR ".intercalate (significant.map fun w => "\"" ++ w ++ "\""))

/-- The rows that `_best_lexical_prior` reads. -/
def lexicalPriors (E : Searches ρ) (s : Store ρ) (entityId claim : String) : List (ℕ × Assertion ρ) :=
  match buildFtsQuery E claim with
  | none => []
  | some query =>
    let rows := (E.indexed s query).filterMap fun id =>
      ((s.assertions.get? id).filter fun r => r.entityId == entityId && r.active).map fun r => (id, r)
    rows.take 10

/-! ## The gate -/

/-- The assertion that has the claim already, and why. -/
structure KnownState where
  reason : String
  matched : ℕ
  deriving DecidableEq

/-- The active assertions of an entity with a claim's hash. -/
def duplicates (T : Text) (s : Store ρ) (entityId claim : String) : List (ℕ × Assertion ρ) :=
  s.assertions.select fun _ r =>
    r.entityId == entityId && r.claimHash == some (computeClaimHash T entityId claim) && r.active

/-- The target that the request may still close. -/
def openTarget (s : Store ρ) (req : CreateRequest ρ) : Bool :=
  req.force && req.supersedesId.any fun id => (s.assertions.get? id).any Assertion.active

/-- What the index finds, when the request names an anchor. -/
def lexicalKnownState (E : Searches ρ) (s : Store ρ) (req : CreateRequest ρ) (anchors : List (List Char)) :
    Option KnownState :=
  match (lexicalPriors E s req.entityId req.claim).argmax fun p => scoreSameMeaning E req.claim p.2.claim with
  | none => none
  | some prior =>
    let score := scoreSameMeaning E req.claim prior.2.claim
    if 0 < score ∧ dedupSimilarityThreshold ≤ score ∧ anchors ≠ [] ∧ classifyCorrectionVsRedump E req score = false
    then some ⟨"same_anchor_high_lexical", prior.1⟩
    else none

def checkRecorderKnownState (E : Searches ρ) (s : Store ρ) (req : CreateRequest ρ) : Option KnownState :=
  if openTarget s req then none
  else
    let anchors := extractAnchors E (req.claim :: E.evidence req.columns :: req.evidenceUris.getD [])
    match duplicates E.text s req.entityId req.claim with
    | e :: _ => some ⟨"exact_claim_hash", e.1⟩
    | [] =>
      let priors := lookupPriorsByAnchor E s req.entityId anchors
      match priors.argmax fun p => scoreSameMeaning E req.claim p.2.claim with
      | none => lexicalKnownState E s req anchors
      | some best =>
        let score := scoreSameMeaning E req.claim best.2.claim
        if classifyCorrectionVsRedump E req score then none
        else if dedupSimilarityThreshold ≤ score then
          match priors.filter fun p => p.2.reviewStatus == some "staged" with
          | p :: _ => some ⟨"staged_sibling_collapse", p.1⟩
          | [] => some ⟨"same_anchor_high_lexical", best.1⟩
        else lexicalKnownState E s req anchors

/-- The gate, for the requests that it applies to. -/
def knownState (E : Searches ρ) (s : Store ρ) (req : CreateRequest ρ) : Option KnownState :=
  if shouldApplyRecorderKnownState req ((s.entities.get? req.entityId).map Entity.type) then
    checkRecorderKnownState E s req
  else none

theorem knownState_of_duplicate {E : Searches ρ} {s : Store ρ} {req : CreateRequest ρ} {n : ℕ}
    (hforce : req.force = false) (hn : ((duplicates E.text s req.entityId req.claim).head?.map Prod.fst) = some n) :
    knownState E s req = none ∨ knownState E s req = some ⟨"exact_claim_hash", n⟩ := by
  obtain ⟨e, he, rfl⟩ := Option.map_eq_some_iff.1 hn
  obtain ⟨rest, hrest⟩ := List.head?_eq_some_iff.1 he
  rw [knownState]
  split
  · right
    rw [checkRecorderKnownState, openTarget, hforce, hrest]
    rfl
  · exact .inl rfl

end LlmGateway.Cortex
