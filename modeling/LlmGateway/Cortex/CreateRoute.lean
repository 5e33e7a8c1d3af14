import LlmGateway.Cortex.KnownState
import LlmGateway.Cortex.Lineage

/-!
# Answers of a create

`POST /assertions` with the belief guard and the recorder's gate in front of it, and with its response: whether the
assertion is new, and the assertion that answers for the claim.

A request that is made again right away gets the same answer, unless the guard now finds a contradiction to the claim
(`create_again_iff`); a claim of both a status and its antonym contradicts the assertion it became. A request that is to
supersede an assertion can succeed without it (`create_supersedes_iff`).
-/

namespace LlmGateway.Cortex

variable {ρ : Type}

/-! ## The route -/

/-- `AssertionCreateResponse`, with the item's key. -/
structure CreateResponse where
  wasNew : Bool
  item : Option ℕ
  dryRun : Bool
  alreadyKnown : Bool
  knownStateReason : Option String
  matchedAssertionId : Option ℕ
  deriving DecidableEq

/-- The response to a dry run. -/
def CreateResponse.dry : CreateResponse := ⟨false, none, true, false, none, none⟩

/-- The response with a new assertion. -/
def CreateResponse.new (n : ℕ) : CreateResponse := ⟨true, some n, false, false, none, none⟩

/-- The response with an assertion that was there. -/
def CreateResponse.known (k : Option KnownState) : CreateResponse :=
  ⟨false, k.map KnownState.matched, false, true, k.map KnownState.reason, k.map KnownState.matched⟩

/-- What the guard, or behind the recorder's gate the predicate normalizer, raises. -/
def CreateRequest.refusal (E : Searches ρ) (s : Store ρ) (req : CreateRequest ρ) : Option Error :=
  let guard := guardAssertionWrite E s req.entityId req.claim req.force
  if guard.allowed then
    if (knownState E s req).isSome then none else req.unparseable
  else some (.http 409 (guard.blockDetail.getD .null))

/-- The request with what the reads before the lock yield. -/
def CreateRequest.resolve (E : Searches ρ) (s : Store ρ) (req : CreateRequest ρ) : AssertionCreate ρ where
  entityId := req.entityId
  claim := req.claim
  force := req.force
  supersedesId := req.supersedesId
  dryRun := req.dryRun
  evidenceUris := req.evidenceUris
  validUntil := req.validUntil
  columns := req.columns
  rejected := req.rejected
  blocked := req.refusal E s
  alreadyKnown := (knownState E s req).isSome
  reviewStatus := (guardAssertionWrite E s req.entityId req.claim req.force).reviewStatus.or
    (if req.staged then some "staged" else none)
  flagged := req.flagged
  notes := req.notes
  now := req.now

/-- The response to a call that came through. -/
def createResponse (E : Searches ρ) (s s' : Store ρ) (req : CreateRequest ρ) :
    Option (Bool × ℕ) → Except Error CreateResponse
  | none => .ok (if req.dryRun then .dry else .known (knownState E s req))
  | some (true, n) => .ok (.new n)
  | some (false, _) =>
    match duplicates E.text s' req.entityId req.claim with
    | e :: _ => .ok (.known (some ⟨"exact_claim_hash", e.1⟩))
    | [] => .error (httpException 500 "Assertion created but could not be read back")

/-- `create_assertion`. -/
def create (E : Searches ρ) (s : Store ρ) (req : CreateRequest ρ) : Except Error CreateResponse × Store ρ :=
  let out := createAssertion E.text s (req.resolve E s)
  (out.1 >>= createResponse E s out.2 req, out.2)

/-! ## What comes through -/

/-- The requests that come to the recorder's gate and through it. -/
structure CreateRequest.Accepted (E : Searches ρ) (s : Store ρ) (req : CreateRequest ρ) : Prop where
  rejected : req.rejected = none
  entity : s.entities.contains req.entityId = true
  real : req.dryRun = false
  target : checkSupersedesTarget s (req.resolve E s) = .ok ()
  refusal : req.refusal E s = none

variable {E : Searches ρ} {req : CreateRequest ρ} {s s' : Store ρ} {body : AssertionCreate ρ}
  {resp : CreateResponse} {n : ℕ}

theorem prepareAssertionWrite_eq_ok {b : Bool}
    (hreal : req.dryRun = false) : prepareAssertionWrite s (req.resolve E s) = .ok b ↔
      req.Accepted E s ∧ b = (knownState E s req).isNone := by
  have hdry : (req.resolve E s).dryRun = false := hreal
  simp only [prepareAssertionWrite, hdry, Bool.false_eq_true, if_false, bind_eq_ok, raiseIf_eq_ok, checkEntity_eq_ok]
  constructor
  · rintro ⟨-, hrejected, -, hentity, ⟨⟩, htarget, -, hblocked, h⟩
    refine ⟨⟨hrejected, hentity, hreal, htarget, hblocked⟩, ?_⟩
    rw [← Except.ok.inj h]
    exact Option.not_isSome _
  · rintro ⟨h, rfl⟩
    refine ⟨(), h.rejected, (), h.entity, (), h.target, (), h.refusal, ?_⟩
    exact congrArg Except.ok (Option.not_isSome _)

theorem locked_of_not_claimDedup {T : Text} (h : ¬ ClaimDedup (s.assertions.insert (body.row T))) :
    ∃ m, Session.perform (Session.commitAfter (writeAssertionLocked T body)) s = (.ok (false, m), s) := by
  have hx : ∃ m, writeAssertionLocked T body ⟨s, s⟩ = (.ok (false, m), ⟨s, s⟩) := by
    unfold writeAssertionLocked
    rw [Session.read_bind, if_neg fun hd => h (claimDedup_iff.1 hd)]
    exact ⟨_, rfl⟩
  obtain ⟨m, hm⟩ := hx
  exact ⟨m, Session.perform_of_ok hm⟩

/-- The assertion behind the answer of a create that inserts nothing. -/
def existing (E : Searches ρ) (s : Store ρ) (req : CreateRequest ρ) : Option KnownState :=
  knownState E s req <|> (duplicates E.text s req.entityId req.claim).head?.map fun e => ⟨"exact_claim_hash", e.1⟩

theorem createAssertion_eq_ok {T : Text} {r : Option (Bool × ℕ)} (h : createAssertion T s body = (.ok r, s')) :
    (prepareAssertionWrite s body = .ok false ∧ r = none ∧ s' = s) ∨ prepareAssertionWrite s body = .ok true ∧
      ∃ a, r = some a ∧ Session.perform (Session.commitAfter (writeAssertionLocked T body)) s = (.ok a, s') := by
  unfold createAssertion at h
  rcases hprep : prepareAssertionWrite s body with e | b
  · rw [hprep] at h
    cases h
  · rw [hprep] at h
    cases b with
    | false =>
      cases h
      exact .inl ⟨rfl, rfl, rfl⟩
    | true =>
      obtain ⟨hr, rfl⟩ := Prod.mk.inj h
      rcases hlocked : Session.perform (Session.commitAfter (writeAssertionLocked T body)) s with ⟨e | a, s'⟩
      · rw [hlocked] at hr
        cases hr
      · rw [hlocked] at hr
        exact .inr ⟨rfl, a, (Except.ok.inj hr).symm, rfl⟩

theorem create_eq_ok
    (h : create E s req = (.ok resp, s')) : ∃ r, createAssertion E.text s (req.resolve E s) = (.ok r, s') ∧
      createResponse E s s' req r = .ok resp := by
  obtain ⟨hresp, rfl⟩ := Prod.mk.inj h
  obtain ⟨r, hr, hresp⟩ := bind_eq_ok.1 hresp
  exact ⟨r, Prod.ext hr rfl, hresp⟩

theorem item_of_dryRun (hdry : req.dryRun = true) (h : create E s req = (.ok resp, s')) : resp.item = none := by
  obtain ⟨r, hr, hresp⟩ := create_eq_ok h
  obtain ⟨-, rfl, -⟩ | ⟨hprep, -⟩ := createAssertion_eq_ok hr
  · rw [createResponse, hdry] at hresp
    cases hresp
    rfl
  · obtain ⟨-, -, hprep⟩ := bind_eq_ok.1 hprep
    obtain ⟨-, -, hprep⟩ := bind_eq_ok.1 hprep
    have hdry' : (req.resolve E s).dryRun = true := hdry
    rw [if_pos hdry'] at hprep
    cases hprep

/-- **A create that answers with an assertion** leaves the store and answers with one that was there, or inserts it. -/
theorem create_cases (h : create E s req = (.ok resp, s')) (hn : resp.item = some n) : req.Accepted E s ∧
      ((∃ k, existing E s req = some k ∧ k.matched = n ∧ resp = .known (some k) ∧ s' = s) ∨
        knownState E s req = none ∧ n = s.assertions.nextId ∧ resp = .new n ∧
          Created E.text (req.resolve E s) s s') := by
  have hreal : req.dryRun = false := by
    by_contra hdry
    rw [item_of_dryRun (Bool.eq_true_of_not_eq_false hdry) h] at hn
    cases hn
  obtain ⟨r, hr, hresp⟩ := create_eq_ok h
  obtain ⟨hprep, rfl, hs⟩ | ⟨hprep, a, rfl, hlocked⟩ := createAssertion_eq_ok hr
  all_goals obtain ⟨haccepted, hknown⟩ := (prepareAssertionWrite_eq_ok hreal).1 hprep
  all_goals refine ⟨haccepted, ?_⟩
  · -- The gate knows the claim.
    obtain ⟨k, hk⟩ := Option.isSome_iff_exists.1 (Option.isNone_eq_false_iff.1 hknown.symm)
    rw [createResponse, hreal, hk] at hresp
    cases hresp
    refine .inl ⟨k, ?_, Option.some.inj hn, rfl, hs⟩
    rw [existing, hk]
    rfl
  · have hnone : knownState E s req = none := Option.isNone_iff_eq_none.1 hknown.symm
    obtain ⟨e, hlocked'⟩ | ⟨-, m, hlocked'⟩ | ⟨s', hlocked', hcreated⟩ :=
      createLocked_cases E.text (req.resolve E s) s
    all_goals rw [hlocked'] at hlocked
    · cases hlocked
    · obtain ⟨ha, hs⟩ := Prod.mk.inj hlocked
      cases ha
      rw [createResponse, ← hs] at hresp
      cases hdup : duplicates E.text s req.entityId req.claim with
      | nil =>
        rw [hdup] at hresp
        cases hresp
      | cons e rest =>
        rw [hdup] at hresp
        cases hresp
        refine .inl ⟨_, ?_, Option.some.inj hn, rfl, hs.symm⟩
        rw [existing, hnone, hdup]
        rfl
    · obtain ⟨ha, hs⟩ := Prod.mk.inj hlocked
      cases ha
      cases hresp
      rw [← hs]
      exact .inr ⟨hnone, (Option.some.inj hn).symm, by rw [← Option.some.inj hn], hcreated⟩

/-! ## Assertions that have the claim -/

theorem duplicates_eq_nil (h : ClaimDedup (s.assertions.insert ((req.resolve E s).row E.text))) :
    duplicates E.text s req.entityId req.claim = [] := by
  rw [List.eq_nil_iff_forall_not_mem]
  rintro ⟨i, r⟩ he
  obtain ⟨hr, hp⟩ := Table.mem_select.1 he
  simp only [Bool.and_eq_true, beq_iff_eq] at hp
  have hclash : clash r ((req.resolve E s).row E.text) = true :=
    clash_iff.2 ⟨Option.isNone_iff_eq_none.1 hp.2, rfl, by simp [hp.1.2], hp.1.2, hp.1.1⟩
  have hi := h i s.assertions.nextId r _ (Table.get?_insert_of_some hr _) (by rw [Table.get?_insert, if_pos rfl]) hclash
  rw [hi, Table.get?_nextId] at hr
  cases hr

theorem Created.head_duplicates (h : Created E.text (req.resolve E s) s s')
    (htarget : ∀ id, (req.resolve E s).target = some id → ∃ r, s.assertions.get? id = some r) :
    (duplicates E.text s' req.entityId req.claim).head?.map Prod.fst = some s.assertions.nextId := by
  have hnew : ∃ r, (s.assertions.nextId, r) ∈ duplicates E.text s' req.entityId req.claim := by
    obtain ⟨r, hr⟩ : ∃ r, s'.assertions.get? s.assertions.nextId = some r := by
      rw [h.assertions, Table.get?_insert, if_pos rfl, Option.map_some]
      exact ⟨_, rfl⟩
    obtain ⟨-, hsame, hnone⟩ | ⟨r, hold, -⟩ := h.row htarget hr
    · refine ⟨r, Table.mem_select.2 ⟨hr, ?_⟩⟩
      simp only [Bool.and_eq_true, beq_iff_eq, hsame.entityId, hsame.claimHash, Assertion.active, hnone]
      exact ⟨⟨rfl, rfl⟩, rfl⟩
    · rw [Table.get?_nextId] at hold
      cases hold
  cases hdup : duplicates E.text s' req.entityId req.claim with
  | nil =>
    obtain ⟨r, hr⟩ := hnew
    rw [hdup] at hr
    cases hr
  | cons e rest =>
    have he : e ∈ duplicates E.text s' req.entityId req.claim := hdup ▸ List.mem_cons_self
    obtain ⟨hr, hp⟩ := Table.mem_select.1 he
    simp only [Bool.and_eq_true, beq_iff_eq, Assertion.active, Option.isNone_iff_eq_none] at hp
    obtain ⟨hi, -⟩ | ⟨r, hold, hsame, hpointer⟩ := h.row htarget hr
    · exact congrArg some hi
    · -- An older one would have kept the new one out.
      have hactive : r.supersededBy = none := by
        obtain hpointer | ⟨hnone, -⟩ := hpointer
        · rw [← hpointer, hp.2]
        · exact hnone
      have hmem : (e.1, r) ∈ duplicates E.text s req.entityId req.claim := by
        refine Table.mem_select.2 ⟨hold, ?_⟩
        simp only [Bool.and_eq_true, beq_iff_eq, Assertion.active, hactive]
        exact ⟨⟨hsame.entityId ▸ hp.1.1, hsame.claimHash ▸ hp.1.2⟩, rfl⟩
      rw [duplicates_eq_nil h.dedup] at hmem
      cases hmem

theorem exists_of_checkSupersedesTarget {id : ℕ}
    (h : checkSupersedesTarget s body = .ok ()) (hforce : body.force = true) (hid : body.supersedesId = some id) :
    ∃ r, s.assertions.get? id = some r := by
  simp only [checkSupersedesTarget, hforce, hid, bind_eq_ok] at h
  obtain ⟨r, hr, -⟩ := h
  exact ⟨r, readAssertion_eq_ok.1 hr⟩

theorem CreateRequest.Accepted.exists_target
    (h : req.Accepted E s) {id : ℕ} (hid : (req.resolve E s).target = some id) :
    ∃ r, s.assertions.get? id = some r := by
  unfold AssertionCreate.target at hid
  split at hid
  · rename_i hforce
    exact exists_of_checkSupersedesTarget h.target hforce (Option.filter_eq_some_iff.1 hid).1
  · cases hid

/-! ## The same request again -/

theorem create_of_existing (h : req.Accepted E s)
    {k : KnownState} (hk : existing E s req = some k) : create E s req = (.ok (.known (some k)), s) := by
  cases hknown : knownState E s req with
  | some k' =>
    have hprep : prepareAssertionWrite s (req.resolve E s) = .ok false :=
      (prepareAssertionWrite_eq_ok h.real).2 ⟨h, by rw [hknown]; rfl⟩
    rw [existing, hknown] at hk
    rw [create, createAssertion, hprep]
    simp only [ok_bind, createResponse, h.real, hknown]
    exact congrArg (fun k => (Except.ok (CreateResponse.known k), s)) hk
  | none =>
    have hprep : prepareAssertionWrite s (req.resolve E s) = .ok true :=
      (prepareAssertionWrite_eq_ok h.real).2 ⟨h, by rw [hknown]; rfl⟩
    rw [existing, hknown] at hk
    obtain ⟨e, he, rfl⟩ := Option.map_eq_some_iff.1 hk
    obtain ⟨rest, hdup⟩ := List.head?_eq_some_iff.1 he
    have hdedup : ¬ ClaimDedup (s.assertions.insert ((req.resolve E s).row E.text)) := by
      intro hdedup
      rw [duplicates_eq_nil hdedup] at hdup
      cases hdup
    obtain ⟨m, hlocked⟩ := locked_of_not_claimDedup hdedup
    rw [create, createAssertion, hprep]
    simp only [hlocked]
    change (createResponse E s s req (some (false, m)), s) = _
    rw [createResponse, hdup]

theorem refusal_eq_none_iff : req.refusal E s = none ↔
    (guardAssertionWrite E s req.entityId req.claim req.force).allowed = true ∧
      (knownState E s req = none → req.unparseable = none) := by
  rw [CreateRequest.refusal]
  split_ifs with hallowed hknown
  · obtain ⟨k, hk⟩ := Option.isSome_iff_exists.1 hknown
    simp [hallowed, hk]
  · rw [Option.not_isSome_iff_eq_none] at hknown
    simp [hallowed, hknown]
  · simp [hallowed]

theorem existing_again (hforce : req.force = false) (h : create E s req = (.ok resp, s')) (hn : resp.item = some n) :
    ∃ k, existing E s' req = some k ∧ k.matched = n := by
  obtain ⟨haccepted, ⟨k, hk, hkn, -, rfl⟩ | ⟨-, rfl, -, hcreated⟩⟩ := create_cases h hn
  · exact ⟨k, hk, hkn⟩
  · have hhead := hcreated.head_duplicates fun id hid => haccepted.exists_target hid
    obtain ⟨e, he, hen⟩ := Option.map_eq_some_iff.1 hhead
    obtain hnone | hknown := knownState_of_duplicate hforce hhead
    · refine ⟨⟨"exact_claim_hash", e.1⟩, ?_, hen⟩
      rw [existing, hnone, he]
      rfl
    · refine ⟨⟨"exact_claim_hash", s.assertions.nextId⟩, ?_, rfl⟩
      rw [existing, hknown]
      rfl

theorem accepted_again
    (hforce : req.force = false) (h : create E s req = (.ok resp, s')) (hn : resp.item = some n) (later : String)
    (hguard : ¬ Contradicted E s' req.entityId req.claim) : CreateRequest.Accepted E s' { req with now := later } := by
  have hallowed : (guardAssertionWrite E s' req.entityId req.claim req.force).allowed = true := by
    rw [hforce]
    exact guardAssertionWrite_allowed_iff.2 hguard
  have htarget : checkSupersedesTarget s' (CreateRequest.resolve E s' { req with now := later }) = .ok () := by
    unfold checkSupersedesTarget
    rw [show (CreateRequest.resolve E s' { req with now := later }).force = false from hforce]
  obtain ⟨haccepted, ⟨k, -, -, -, rfl⟩ | ⟨hknown, -, -, hcreated⟩⟩ := create_cases h hn
  · exact ⟨haccepted.rejected, haccepted.entity, haccepted.real, htarget,
      refusal_eq_none_iff.2 ⟨hallowed, (refusal_eq_none_iff.1 haccepted.refusal).2⟩⟩
  · refine ⟨haccepted.rejected, ?_, haccepted.real, htarget, refusal_eq_none_iff.2 ⟨hallowed, fun _ => ?_⟩⟩
    · rw [hcreated.confined.graduates.contains]
      exact haccepted.entity
    · exact (refusal_eq_none_iff.1 haccepted.refusal).2 hknown

/-- **A create again.** Behind a create without force that answered with an assertion, the same request answers with
that assertion, as one that is not new, and leaves the store, if and only if the guard finds no contradiction to the
claim in the store. -/
theorem create_again_iff {E : Searches ρ} {s s' : Store ρ} {req : CreateRequest ρ} {resp : CreateResponse} {n : ℕ}
    (hforce : req.force = false) (h : create E s req = (.ok resp, s')) (hn : resp.item = some n) (later : String) :
    (∃ again, create E s' { req with now := later } = (.ok again, s') ∧ again.wasNew = false ∧ again.item = some n) ↔
      ¬ Contradicted E s' req.entityId req.claim := by
  constructor
  · rintro ⟨again, hagain, -, hitem⟩
    have hallowed := (refusal_eq_none_iff.1 (create_cases hagain hitem).1.refusal).1
    rw [show ({ req with now := later } : CreateRequest ρ).force = false from hforce] at hallowed
    exact guardAssertionWrite_allowed_iff.1 hallowed
  · intro hguard
    obtain ⟨k, hk, rfl⟩ := existing_again hforce h hn
    exact ⟨_, create_of_existing (accepted_again hforce h hn later hguard) hk, rfl, rfl⟩

/-! ## A gateway and its port -/

/-- The digests of two claims about a port, and of one about a gate. -/
def portDigests : List (String × String) :=
  [("project:gateway:the gateway listens on port 8080",
      "06f2c0ed455b77286be439781aa06f9413b49c3f1a3216af8ec6968256372d8d"),
    ("project:gateway:the gateway listens on port 9090",
      "720ba6ed5bfd71e9a60f5b7f182d31d4ae4971abf7563582c068a701049b2f6e"),
    ("project:gateway:the port gate is open or closed",
      "ca80def639c365671026123d4ecf54cafb54b38a0348ff9b111a8da48fe68270")]

/-- `\w` of an ASCII character. -/
def asciiWord (c : Char) : Bool := c.isAlphanum || c == '_'

theorem asciiWord_eq (c : Char) (_ : c.toNat < 128) : asciiWord c = (c.isAlphanum || c == '_') := rfl

/-- Texts of ASCII letters, an index that finds every assertion, and embeddings that are close where claims are the
same. -/
def portSearches : Searches String where
  text := ⟨fun s => String.ofList (s.toList.map Char.toLower), id, fun s => (portDigests.lookup s).getD ""⟩
  word := ⟨asciiWord, asciiWord_eq⟩
  digit := Char.isDigit
  matching := fun s _ => s.assertions.rows.items.map Prod.fst
  indexed := fun s _ => s.assertions.rows.items.map Prod.fst
  nearest := fun s claim _ _ => some ((s.assertions.select fun _ r => r.claim == claim).map fun e => (e.1, 1))
  ratio := fun a b => if a == b then 1 else 0
  confidence := id
  evidence := fun _ => ""

/-- The store with the gateway. -/
def gatewayStore : Store String where
  entities := Dict.set ∅ "project:gateway"
    { type := "project", name := "Gateway", lifecycle := some .active, attributes := [], aliases := [],
      updatedAt := "2026-01-01T00:00:00Z" }
  entityAliases := []
  assertions := ∅
  sessionEdges := ∅

/-- A confirmed claim about the gateway. -/
def portRequest (claim : String) : CreateRequest String where
  entityId := "project:gateway"
  claim := claim
  evidenceUris := none
  attributes := none
  force := false
  supersedesId := none
  dryRun := false
  validUntil := none
  columns := "confirmed"
  rejected := none
  unparseable := none
  staged := false
  flagged := false
  notes := id
  now := "2026-01-01T00:00:01Z"

/-- The store with an assertion about the port. -/
def portStore : Store String := (create portSearches gatewayStore (portRequest "The gateway listens on port 8080.")).2

theorem create_again_port : ∃ again,
    create portSearches portStore { portRequest "The gateway listens on port 8080." with now := "2026-01-01T00:00:09Z" } =
      (.ok again, portStore) ∧ again.wasNew = false ∧ again.item = some 1 := by
  have h : create portSearches gatewayStore (portRequest "The gateway listens on port 8080.") =
      (.ok (.new 1), portStore) := Prod.ext (ok_of_toOption (by decide)) rfl
  have hguard : (guardAssertionWrite portSearches portStore "project:gateway" "The gateway listens on port 8080."
      false).allowed = true := by decide
  exact (create_again_iff rfl h rfl _).2 (guardAssertionWrite_allowed_iff.1 hguard)

/-- A claim of a status and its antonym is refused when it comes again: it contradicts itself. -/
theorem settled_twice :
    (create portSearches gatewayStore (portRequest "The port gate is open or closed.")).1.toOption = some (.new 1) ∧
      (create portSearches (create portSearches gatewayStore (portRequest "The port gate is open or closed.")).2
        (portRequest "The port gate is open or closed.")).1.toOption.isNone = true := by
  with_unfolding_all decide

/-! ## Forced creates -/

/-- The assertion that a create answers with. -/
def answer (E : Searches ρ) (s : Store ρ) (req : CreateRequest ρ) : ℕ :=
  (existing E s req).elim s.assertions.nextId KnownState.matched

/-- **A forced create supersedes what it names** if and only if its claim is not there yet, or the assertion that has
it supersedes that one already. -/
theorem create_supersedes_iff {E : Searches ρ} {s s' : Store ρ} {req : CreateRequest ρ} {resp : CreateResponse}
    {n i : ℕ} (hforce : req.force = true) (hi : req.supersedesId = some i) (h : create E s req = (.ok resp, s'))
    (hn : resp.item = some n) :
    next s' i = some n ↔ (existing E s req = none ∧ i ≠ 0) ∨ next s i = some (answer E s req) := by
  obtain ⟨haccepted, ⟨k, hk, rfl, -, rfl⟩ | ⟨hknown, rfl, -, hcreated⟩⟩ := create_cases h hn
  · simp [answer, hk]
  · have hexisting : existing E s req = none := by
      rw [existing, hknown, duplicates_eq_nil hcreated.dedup]
      rfl
    obtain ⟨r, hr⟩ := exists_of_checkSupersedesTarget haccepted.target hforce hi
    have hne : i ≠ s.assertions.nextId := Nat.ne_of_lt (Table.get?_lt hr)
    have hrow : s'.assertions.get? i = some ((req.resolve E s).change s.assertions.nextId i r) := by
      rw [hcreated.assertions, Table.get?_insert_of_some hr, Option.map_some]
    have htarget : (req.resolve E s).target = (some i).filter fun id => id != 0 := by
      rw [AssertionCreate.target, if_pos (show (req.resolve E s).force = true from hforce)]
      exact congrArg _ hi
    by_cases hzero : i = 0
    · have hkeep : next s' i = next s i := by
        rw [next_of_some hrow, next_of_some hr, AssertionCreate.change, htarget, if_neg hne, hzero]
        rfl
      rw [hkeep]
      simp [answer, hexisting, hzero]
    · have htarget : (req.resolve E s).target = some i := by
        rw [htarget]
        simp [hzero]
      obtain ⟨r', hr', hactive⟩ := hcreated.target i htarget
      rw [Table.get?_insert_of_some hr] at hr'
      obtain rfl := Option.some.inj hr'
      have hclosed : next s' i = some s.assertions.nextId := by
        rw [next_of_some hrow, AssertionCreate.change, htarget, hactive, if_neg hne]
        simp [Assertion.close]
      simp [hclosed, hexisting, hzero]

/-- The second claim about the port, to supersede the first. -/
def moveTo9090 : CreateRequest String :=
  { portRequest "The gateway listens on port 9090." with force := true, supersedesId := some 1 }

theorem create_supersedes_moved : next (create portSearches portStore moveTo9090).2 1 = some 2 := by
  have h : create portSearches portStore moveTo9090 = (.ok (.new 2), (create portSearches portStore moveTo9090).2) :=
    Prod.ext (ok_of_toOption (by decide)) rfl
  have hnew : (existing portSearches portStore moveTo9090).isNone = true := by decide
  exact (create_supersedes_iff rfl rfl h rfl).2 (.inl ⟨Option.isNone_iff_eq_none.1 hnew, Nat.one_ne_zero⟩)

/-- The gateway with both assertions. -/
def twoPorts : Store String :=
  (create portSearches portStore (portRequest "The gateway listens on port 9090.")).2

/-- The first claim again, to supersede the second. -/
def backTo8080 : CreateRequest String :=
  { portRequest "The gateway listens on port 8080." with force := true, supersedesId := some 2 }

/-- The claim is there already, and what it was to supersede stays. -/
theorem backTo8080_leaves_9090 :
    (create portSearches twoPorts backTo8080).1.toOption = some (.known (some ⟨"exact_claim_hash", 1⟩)) ∧
      (next (create portSearches twoPorts backTo8080).2 2).isNone = true := by
  decide

end LlmGateway.Cortex
