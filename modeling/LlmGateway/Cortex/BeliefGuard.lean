import LlmGateway.Cortex.Assertions
import LlmGateway.Cortex.Polarity
import LlmGateway.Foundations.Binary64
import Mathlib.Data.List.Sort

/-!
# The guard of a write

Before an assertion is inserted its claim is compared with what is believed of the entity already. Candidates are
found by words and scored by the cosine of their embeddings; one that is confirmed, close enough and of opposite
polarity refuses the write. Without embeddings, or with a candidate that is less close, the assertion is flagged.

The full text index and the embeddings are parameters (`Searches`). A search that the assert nudge made for the same
claim and parked is that same search.
-/

namespace LlmGateway.Cortex

open SessionStore (WordClass)

variable {ρ : Type}

/-! ## Searches -/

/-- What answers the searches: the index over the texts of the assertions by rank, the nearest embeddings of an
entity's assertions with their cosines (`none` when there are none to be had), the ratio of `SequenceMatcher` and the
digits of `re`, and the columns that are read. `matching` is by rank, `indexed` as the rows come. -/
structure Searches (ρ : Type) where
  text : Text
  word : WordClass
  digit : Char → Bool
  matching : Store ρ → String → List ℕ
  indexed : Store ρ → String → List ℕ
  nearest : Store ρ → String → String → ℕ → Option (List (ℕ × ℚ))
  ratio : String → String → ℚ
  confidence : ρ → String
  evidence : ρ → String

/-- A row of a candidate search. -/
structure Hit where
  id : ℕ
  claim : String
  confidence : String
  deriving DecidableEq

/-- A candidate with its cosine; `similarity` counts ten-thousandths. -/
structure Candidate where
  id : ℕ
  claim : String
  confidence : String
  similarity : ℕ
  retrievalSource : String
  deriving DecidableEq

structure CandidateRecall where
  scored : List Candidate
  embeddingsUnavailable : Bool
  lexicalRows : List Hit
  deriving DecidableEq

/-- An item of `merged`. -/
structure MergedItem where
  claim : String
  confidence : String
  cosine : Option ℚ
  source : String

def entityFtsSearch (E : Searches ρ) (s : Store ρ) (claim entityId : String) (limit : ℕ) : List Hit :=
  let query := buildCandidateQuery E.word E.text claim
  if query = "" then []
  else
    let rows := (E.matching s query).filterMap fun id =>
      match s.assertions.get? id with
      | some r => if r.entityId == entityId && r.active then some (⟨id, r.claim, E.confidence r.columns⟩ : Hit) else none
      | none => none
    rows.take limit

/-- The entry of a row that the index found. -/
def mergeHit (merged : Dict ℕ MergedItem) (row : Hit) : Dict ℕ MergedItem :=
  merged.set row.id ⟨row.claim, row.confidence, none, "fts"⟩

/-- The cosine of a row. -/
def mergeNearest (merged : Dict ℕ MergedItem) (e : ℕ × ℚ) : Dict ℕ MergedItem :=
  match merged.get? e.1 with
  | some m => merged.set e.1 { m with cosine := some e.2, source := "both" }
  | none => merged.set e.1 ⟨"", "", some e.2, "vector"⟩

/-- The claim of a row that only the embeddings found. -/
def readClaim (E : Searches ρ) (s : Store ρ) (id : ℕ) (m : MergedItem) : MergedItem :=
  if m.source = "vector" then
    match s.assertions.get? id with
    | some r => { m with claim := r.claim, confidence := E.confidence r.columns }
    | none => m
  else m

/-- `round(cosine, 4)` in ten-thousandths. -/
def roundCosine (q : ℚ) : ℕ := (Binary64.roundHalfEven (q * 10000)).toNat

/-- The items that have a cosine, the closest first. -/
def scoredItems (merged : Dict ℕ MergedItem) : List (ℕ × MergedItem × ℚ) :=
  let scored := merged.items.filterMap fun e => e.2.cosine.map fun q => (e.1, e.2, q)
  scored.insertionSort fun a b => b.2.2 ≤ a.2.2

def assembleHybrid (E : Searches ρ) (s : Store ρ) (claim entityId : String) (limit : ℕ) : CandidateRecall :=
  let ftsRows := entityFtsSearch E s claim entityId (limit * 2)
  if ftsRows.isEmpty then ⟨[], false, []⟩
  else
    let vectorResults := E.nearest s claim entityId (limit * 2)
    let merged := (vectorResults.getD []).foldl mergeNearest (ftsRows.foldl mergeHit ∅)
    let scored := ((scoredItems (merged.mapVal (readClaim E s))).take limit).map fun e =>
      (⟨e.1, e.2.1.claim, e.2.1.confidence, roundCosine e.2.2, e.2.1.source⟩ : Candidate)
    ⟨scored, vectorResults.isNone, if vectorResults.isNone then ftsRows else []⟩

/-! ## Conflicts -/

/-- `CONTRADICTION_SIMILARITY_THRESHOLD`, in ten-thousandths. -/
def contradictionSimilarityThreshold : ℕ := 8000

/-- `check_write_contradiction`: the conflicts, and whether there were no embeddings. -/
def checkWriteContradiction (E : Searches ρ) (claim : String) (found : CandidateRecall) : List Candidate × Bool :=
  if found.embeddingsUnavailable then
    ((found.lexicalRows.filter fun row => row.claim != "" && detectPolarityConflict E.word E.text claim row.claim).map
      fun row => ⟨row.id, row.claim, row.confidence, 0, "fts"⟩, true)
  else (found.scored.filter fun c => detectPolarityConflict E.word E.text claim c.claim, false)

def isEventLogEntity (entityId : String) : Bool := Json.startsWith entityId "thread:"

/-- A conflict that refuses the write. -/
def Candidate.blocks (c : Candidate) : Bool :=
  c.confidence == "confirmed" && decide (contradictionSimilarityThreshold ≤ c.similarity)

/-- `repr` of a number of ten-thousandths. -/
def similarityText (n : ℕ) : String :=
  let digits := (Nat.toDigits 10 (n % 10000 + 10000)).drop 1
  let fraction := (digits.reverse.dropWhile fun c => c == '0').reverse
  toString (n / 10000) ++ "." ++ if fraction.isEmpty then "0" else String.ofList fraction

def blockDetail (entityId : String) (blocking : List Candidate) : Json :=
  .obj [("error", .str "contradiction_detected"),
    ("message", .str ("Contradicts " ++ toString blocking.length ++ " confirmed assertion(s) on " ++ entityId ++
      " (similarity ≥ 0.8)")),
    ("conflicts", .arr (blocking.map fun c =>
      .obj [("assertion_id", .int c.id), ("claim", .str c.claim), ("confidence", .str c.confidence),
        ("similarity", .float (similarityText c.similarity))]))]

structure WriteGuardResult where
  allowed : Bool
  reviewStatus : Option String
  contradictionWarnings : List Candidate
  blockDetail : Option Json

def guardAssertionWrite (E : Searches ρ) (s : Store ρ) (entityId claim : String) (force : Bool) : WriteGuardResult :=
  if force || isEventLogEntity entityId then ⟨true, none, [], none⟩
  else
    let conflicts := (checkWriteContradiction E claim (assembleHybrid E s claim entityId 20)).1
    if conflicts.isEmpty then ⟨true, none, [], none⟩
    else
      let blocking := conflicts.filter Candidate.blocks
      if blocking.isEmpty then ⟨true, some "flagged", conflicts, none⟩
      else ⟨false, some "flagged", conflicts, some (Cortex.blockDetail entityId blocking)⟩

/-! ## What the guard refuses -/

/-- Among the twenty closest candidates with a cosine is one that is confirmed, of a cosine of 0.8 at least, and of
opposite polarity. -/
def Contradicted (E : Searches ρ) (s : Store ρ) (entityId claim : String) : Prop :=
  let found := assembleHybrid E s claim entityId 20
  isEventLogEntity entityId = false ∧ found.embeddingsUnavailable = false ∧
    ∃ c ∈ found.scored, c.blocks = true ∧ detectPolarityConflict E.word E.text claim c.claim = true

theorem not_blocks_of_unavailable {E : Searches ρ} {claim : String} {found : CandidateRecall}
    (h : found.embeddingsUnavailable = true) : (checkWriteContradiction E claim found).1.filter Candidate.blocks = [] := by
  rw [checkWriteContradiction, if_pos h]
  refine List.filter_eq_nil_iff.2 fun c hc => ?_
  obtain ⟨row, -, rfl⟩ := List.mem_map.1 hc
  simp [Candidate.blocks, contradictionSimilarityThreshold]

theorem guardAssertionWrite_allowed_iff {E : Searches ρ} {s : Store ρ} {entityId claim : String} :
    (guardAssertionWrite E s entityId claim false).allowed = true ↔ ¬ Contradicted E s entityId claim := by
  rw [guardAssertionWrite, Contradicted, Bool.false_or]
  cases hlog : isEventLogEntity entityId with
  | true => simp
  | false =>
    generalize assembleHybrid E s claim entityId 20 = found
    have hallowed : ∀ conflicts : List Candidate, (if conflicts.isEmpty then (⟨true, none, [], none⟩ : WriteGuardResult)
        else
          let blocking := conflicts.filter Candidate.blocks
          if blocking.isEmpty then ⟨true, some "flagged", conflicts, none⟩
          else ⟨false, some "flagged", conflicts, some (Cortex.blockDetail entityId blocking)⟩).allowed = true ↔
        conflicts.filter Candidate.blocks = [] := by
      intro conflicts
      dsimp only
      split_ifs with hnone hblocking
      · simp [List.isEmpty_iff.1 hnone]
      · simpa using hblocking
      · simpa using hblocking
    simp only [Bool.false_eq_true, if_false]
    rw [hallowed]
    cases hembeddings : found.embeddingsUnavailable with
    | true => simp [not_blocks_of_unavailable hembeddings]
    | false =>
      simp only [checkWriteContradiction, hembeddings, Bool.false_eq_true, if_false, true_and, List.filter_filter,
        List.filter_eq_nil_iff, Bool.and_eq_true, not_exists, not_and]

end LlmGateway.Cortex
