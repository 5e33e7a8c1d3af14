import LlmGateway.Foundations.Dict
import LlmGateway.Foundations.Table
import LlmGateway.Foundations.Json

/-!
# The belief store

The tables of the cortex store that beliefs and entity identities live in: `entities` by id,
`entity_aliases`, `assertions` and `session_edges`, the last two with keys that are given out once. Columns
of `assertions` that no modelled function reads are one value of an arbitrary type `ρ`. Of `entities` the
columns are modelled that creation, rekeying, merging and resolution read or write.

A claim is hashed under its entity (`computeClaimHash`); a unique index over the active assertions, those
that no other supersedes, keeps entity and hash from occurring twice (`ClaimDedup`, and `claimDedup` as the
check a statement makes). A hash that is `NULL` is not in the index.
-/

namespace LlmGateway.Cortex

/-! ## Hashing of claims -/

/-- The functions of the standard library that claims are hashed with. -/
structure Text where
  lower : String → String
  /-- `unicodedata.normalize("NFC", s)`. -/
  nfc : String → String
  /-- `hashlib.sha256(s.encode()).hexdigest()`. -/
  sha256 : String → String

/-- `re.sub(r"\s+", " ", ·)`: `inRun` when the character before belongs to a run. -/
def collapseWhitespace : Bool → List Char → List Char
  | _, [] => []
  | inRun, c :: cs =>
    if Json.isSpace c then
      if inRun then collapseWhitespace true cs else ' ' :: collapseWhitespace true cs
    else c :: collapseWhitespace false cs

/-- `re.sub(r"[.!?,;:]+$", "", ·)`. -/
def stripTrailingPunct (s : List Char) : List Char :=
  (s.reverse.dropWhile fun c => ['.', '!', '?', ',', ';', ':'].contains c).reverse

/-- The text that claims are compared by. -/
def normalizeClaim (T : Text) (claim : String) : String :=
  let text := Json.strip (T.lower claim)
  let text := T.nfc (String.ofList (collapseWhitespace false text.toList))
  String.ofList (stripTrailingPunct text.toList)

/-- The hash of a claim, scoped to its entity. -/
def computeClaimHash (T : Text) (entityId claim : String) : String :=
  T.sha256 (entityId ++ ":" ++ normalizeClaim T claim)

/-! ## Rows -/

/-- A row of `assertions`. -/
structure Assertion (ρ : Type) where
  entityId : String
  claim : String
  claimHash : Option String
  supersededBy : Option ℕ
  evidenceUris : Option (List String)
  validUntil : Option String
  reviewStatus : Option String
  updatedAt : Option String
  /-- The other columns. -/
  columns : ρ

/-- `superseded_by IS NULL`. -/
def Assertion.active {ρ : Type} (r : Assertion ρ) : Bool := r.supersededBy.isNone

/-- `LIFECYCLE_VALUES`. -/
inductive Lifecycle where
  | active
  | deprecated
  | dismissed
  | draft
  | invalidated
  | merged
  | reaped
  | retired
  | superseded
  deriving DecidableEq

def nonLiveLifecycle : Option Lifecycle → Bool
  | some .deprecated | some .merged | some .reaped | some .retired => true
  | _ => false

/-- A row of `entities`. -/
structure Entity where
  type : String
  name : String
  lifecycle : Option Lifecycle
  attributes : List (String × Json)
  aliases : List String
  updatedAt : String

/-- A row of `entity_aliases`. -/
structure AliasRow where
  entityId : String
  entityType : String
  aliasText : String
  deriving DecidableEq

/-- A row of `session_edges`. -/
structure SessionEdge where
  sessionId : Option String
  agent : Option String
  fromNode : String
  toNode : String
  edgeType : String
  strength : Json
  edgeSource : String
  context : String

/-- The tables. -/
structure Store (ρ : Type) where
  entities : Dict String Entity
  entityAliases : List AliasRow
  assertions : Table (Assertion ρ)
  sessionEdges : Table SessionEdge

/-- The store without rows. -/
def Store.empty {ρ : Type} : Store ρ := ⟨∅, [], ∅, ∅⟩

/-! ## Exceptions -/

/-- The constraints of the schema. -/
inductive Constraint where
  /-- An assertion's entity exists. -/
  | assertionEntity
  /-- `idx_assertions_claim_dedup`. -/
  | claimDedup
  /-- The primary key of `entities`. -/
  | entityId
  deriving DecidableEq

/-- What a request raises. -/
inductive Error where
  | http (statusCode : ℕ) (detail : Json)
  | integrity (constraint : Constraint)
  /-- `rows[0]` of an empty result. -/
  | indexError

/-- `HTTPException` with a text. -/
def httpException (statusCode : ℕ) (detail : String) : Error := .http statusCode (.str detail)

/-- An optional exception, raised when present. -/
def raiseIf : Option Error → Except Error Unit
  | none => .ok ()
  | some e => .error e

/-! ## The unique index over active claims -/

section Index

variable {ρ : Type}

/-- Two rows that the index does not allow beside each other. -/
def clash (r r' : Assertion ρ) : Bool :=
  r.active && r'.active && r.claimHash.isSome && r.claimHash == r'.claimHash && r.entityId == r'.entityId

/-- `idx_assertions_claim_dedup` holds of the table. -/
def ClaimDedup (t : Table (Assertion ρ)) : Prop :=
  ∀ i j r r', t.get? i = some r → t.get? j = some r' → clash r r' = true → i = j

/-- The check of the index. -/
def claimDedup (t : Table (Assertion ρ)) : Bool :=
  t.rows.items.all fun e => t.rows.items.all fun e' => e.1 == e'.1 || !clash e.2 e'.2

theorem claimDedup_iff {t : Table (Assertion ρ)} : claimDedup t = true ↔ ClaimDedup t := by
  simp only [claimDedup, List.all_eq_true, Bool.or_eq_true, Bool.not_eq_true', beq_iff_eq]
  constructor
  · intro h i j r r' hi hj hc
    obtain heq | hn := h (i, r) (Dict.mem_items_iff.2 hi) (j, r') (Dict.mem_items_iff.2 hj)
    · exact heq
    · rw [hc] at hn
      cases hn
  · intro h e he e' he'
    cases hc : clash e.2 e'.2 with
    | false => exact .inr rfl
    | true => exact .inl (h e.1 e'.1 e.2 e'.2 (Dict.mem_items_iff.1 he) (Dict.mem_items_iff.1 he') hc)

theorem clash_iff {r r' : Assertion ρ} : clash r r' = true ↔
    r.supersededBy = none ∧ r'.supersededBy = none ∧ r.claimHash.isSome ∧
      r.claimHash = r'.claimHash ∧ r.entityId = r'.entityId := by
  simp only [clash, Assertion.active, Bool.and_eq_true, Option.isNone_iff_eq_none, beq_iff_eq, and_assoc]

/-- The row is still about its entity and claim, under its hash. -/
structure Assertion.SameClaim (r r' : Assertion ρ) : Prop where
  entityId : r'.entityId = r.entityId
  claim : r'.claim = r.claim
  claimHash : r'.claimHash = r.claimHash

theorem ClaimDedup.of_rows {t t' : Table (Assertion ρ)} (h : ClaimDedup t)
    (hrow : ∀ i r', t'.get? i = some r' → ∃ r, t.get? i = some r ∧ r.SameClaim r' ∧
      (r'.supersededBy = none → r.supersededBy = none)) : ClaimDedup t' := by
  intro i j r r' hi hj hc
  obtain ⟨r₀, hr₀, hsame, hs⟩ := hrow i r hi
  obtain ⟨r₀', hr₀', hsame', hs'⟩ := hrow j r' hj
  obtain ⟨ha, ha', hsome, hhash, hent⟩ := clash_iff.1 hc
  refine h i j r₀ r₀' hr₀ hr₀' (clash_iff.2 ⟨hs ha, hs' ha', hsame.claimHash ▸ hsome, ?_, ?_⟩)
  · rw [← hsame.claimHash, ← hsame'.claimHash, hhash]
  · rw [← hsame.entityId, ← hsame'.entityId, hent]

theorem ClaimDedup.insert {t : Table (Assertion ρ)} (h : ClaimDedup t) (row : Assertion ρ)
    (hrow : row.claimHash = none) : ClaimDedup (t.insert row) := by
  have hold : ∀ i r, (t.insert row).get? i = some r → r.claimHash.isSome → t.get? i = some r := by
    intro i r hr hsome
    rw [Table.get?_insert] at hr
    split at hr
    · obtain rfl := Option.some.inj hr
      rw [hrow] at hsome
      cases hsome
    · exact hr
  intro i j r r' hi hj hc
  obtain ⟨-, -, hsome, hhash, -⟩ := clash_iff.1 hc
  exact h i j r r' (hold i r hi hsome) (hold j r' hj (hhash ▸ hsome)) hc

end Index

end LlmGateway.Cortex
