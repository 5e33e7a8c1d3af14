import LlmGateway.Cortex.History

/-!
# Deduplication of claims

The unique index keeps an entity from having one claim twice as long as every active assertion carries the
hash of its claim under its entity. Creates and merges compute that hash. A supersede inserts its
replacement without one, and a rekey or a retype changes the entity and leaves the hash of the old id; the
index then no longer sees the assertion.

`dedup_throughout_iff` is the exact condition: a history keeps the hashes if and only if no supersede goes
through and no rekey or retype moves an active assertion whose hash is another under the new id.
-/

namespace LlmGateway.Cortex

variable {ρ : Type}

/-- Active assertions carry the hash of their claim under their entity. -/
def HashesMatch (T : Text) (s : Store ρ) : Prop :=
  ∀ i r, s.assertions.get? i = some r → r.supersededBy = none →
    r.claimHash = some (computeClaimHash T r.entityId r.claim)

/-- No entity has two active assertions whose claims normalise to the same text. -/
def ClaimsDistinct (T : Text) (s : Store ρ) : Prop :=
  ∀ i j r r', s.assertions.get? i = some r → s.assertions.get? j = some r' → r.supersededBy = none →
    r'.supersededBy = none → r.entityId = r'.entityId →
    normalizeClaim T r.claim = normalizeClaim T r'.claim → i = j

/-- The invariant of deduplication. -/
structure Deduplicated (T : Text) (s : Store ρ) : Prop where
  hashes : HashesMatch T s
  distinct : ClaimsDistinct T s

variable {T : Text} {s s' : Store ρ}

theorem HashesMatch.claimsDistinct (h : HashesMatch T s) (hdedup : ClaimDedup s.assertions) : ClaimsDistinct T s := by
  intro i j r r' hr hr' hact hact' hent hclaim
  have hhash := h i r hr hact
  have hhash' := h j r' hr' hact'
  refine hdedup i j r r' hr hr' (clash_iff.2 ⟨hact, hact', by simp [hhash], ?_, hent⟩)
  rw [hhash, hhash', computeClaimHash, computeClaimHash, hent, hclaim]

theorem deduplicated_iff (hs : WellFormed s) : Deduplicated T s ↔ HashesMatch T s :=
  ⟨Deduplicated.hashes, fun h => ⟨h, h.claimsDistinct hs.dedup⟩⟩

/-! ## What the calls do to the hashes -/

theorem HashesMatch.of_same (h : HashesMatch T s) {i : ℕ} {r r' : Assertion ρ}
    (hr : s.assertions.get? i = some r) (hsame : r.SameClaim r') (hact : r.supersededBy = none) :
    r'.claimHash = some (computeClaimHash T r'.entityId r'.claim) := by
  rw [hsame.claimHash, hsame.entityId, hsame.claim]
  exact h i r hr hact

theorem Created.hashesMatch {body : AssertionCreate ρ} (h : Created T body s s')
    (htarget : ∀ id, body.target = some id → ∃ r, s.assertions.get? id = some r) (hs : HashesMatch T s) :
    HashesMatch T s' := by
  intro i r' hr' hact
  obtain ⟨-, hsame, -⟩ | ⟨r, hr, hsame, heq | ⟨-, hsome⟩⟩ := h.row htarget hr'
  · rw [hsame.claimHash, hsame.entityId, hsame.claim]
    rfl
  · exact hs.of_same hr hsame (heq.symm.trans hact)
  · rw [hsome] at hact
    cases hact

theorem Updated.hashesMatch {id : ℕ} {body : AssertionUpdate ρ}
    (h : Updated id body s s') (hfinds : body.Finds id s.assertions) (hs : HashesMatch T s) :
    HashesMatch T s' := by
  intro i r' hr' hact
  obtain ⟨r, hr, hsame, hsup⟩ := h.row hfinds hr'
  refine hs.of_same hr hsame ?_
  rw [hsup] at hact
  split at hact
  · exact (Option.or_eq_none_iff.1 hact).2
  · exact hact

theorem Merged.hashesMatch {sourceId targetId now : String}
    (h : Merged T s sourceId targetId now s') (hs : HashesMatch T s) : HashesMatch T s' := by
  intro i r' hr' hact
  obtain ⟨r, hr, ⟨hsame, heq⟩ | ⟨-, -, ⟨-, v, -, hv, -⟩ | ⟨hent, hclaim, -, hhash⟩⟩⟩ := h.row hr'
  · exact hs.of_same hr hsame (heq.symm.trans hact)
  · rw [hv] at hact
    cases hact
  · rw [hhash, hent, hclaim]

theorem Superseded.not_hashesMatch {body : SupersedeRequest ρ} {old : Assertion ρ} (h : Superseded body old s s')
    (hold : s.assertions.get? body.oldAssertionId = some old) : ¬ HashesMatch T s' := by
  intro hs'
  obtain ⟨r, hr⟩ := h.replacement
  obtain ⟨-, hsame, hact⟩ | ⟨r₀, hr₀, -⟩ := h.row hold hr
  · have hhash := hs' _ r hr hact
    rw [hsame.claimHash] at hhash
    cases hhash
  · rw [Table.get?_nextId] at hr₀
    cases hr₀

/-- The active assertions of an entity have the same hashes under another id. -/
def SameHashes (T : Text) (s : Store ρ) (oldId newId : String) : Prop :=
  ∀ i r, s.assertions.get? i = some r → r.entityId = oldId → r.supersededBy = none →
    computeClaimHash T newId r.claim = computeClaimHash T oldId r.claim

theorem Moved.hashesMatch_iff {row : Entity} {oldId newId : String}
    (h : Moved row oldId newId s s') (hs : HashesMatch T s) :
    HashesMatch T s' ↔ SameHashes T s oldId newId := by
  constructor
  · intro hs' i r hr hent hact
    have hr' : s'.assertions.get? i = some (r.relabel oldId newId) := by
      rw [h.assertions, hr]
      rfl
    have hnew := hs' i _ hr' hact
    have hold := hs i r hr hact
    simp only [Assertion.relabel, Assertion.rewriteUris, hent, if_true] at hnew
    rw [hent] at hold
    exact Option.some.inj (hnew.symm.trans hold)
  · intro hsame i r' hr' hact
    rw [h.assertions, Option.map_eq_some_iff] at hr'
    obtain ⟨r, hr, rfl⟩ := hr'
    have hold := hs i r hr hact
    simp only [Assertion.relabel, Assertion.rewriteUris]
    by_cases hent : r.entityId = oldId
    · rw [hold, if_pos hent, hsame i r hr hent hact, hent]
    · rw [hold, if_neg hent]

/-! ## The exact condition -/

/-- The call leaves no active assertion without the hash of its claim. -/
def Action.KeepsHashes (T : Text) (s : Store ρ) : Action ρ → Prop
  | .supersedeAssertion body => ¬ body.Accepted s
  | a => ∀ row oldId newId, a.Moves s row oldId newId → SameHashes T s oldId newId

theorem Action.Refused.keepsHashes {a : Action ρ} (h : a.Refused T s) :
    a.KeepsHashes T s := by
  cases a with
  | supersedeAssertion body => exact h
  | entityRekey | entityRetype => exact fun row oldId newId hm => absurd ⟨row, oldId, newId, hm⟩ h
  | _ => exact fun _ _ _ hm => hm.elim

theorem Action.Moves.keepsHashes_iff {row : Entity} {oldId newId : String}
    {a : Action ρ} (h : a.Moves s row oldId newId) :
    a.KeepsHashes T s ↔ SameHashes T s oldId newId := by
  cases a with
  | entityRekey | entityRetype => exact h.forall_iff (SameHashes T s)
  | _ => exact h.elim

theorem hashesMatch_apply_iff (T : Text) (hs : WellFormed s) (hm : HashesMatch T s)
    (a : Action ρ) : HashesMatch T (apply T s a) ↔ a.KeepsHashes T s := by
  have h := apply_change T hs a
  generalize apply T s a = s' at h
  cases h with
  | refused hno => exact iff_of_true hm hno.keepsHashes
  | created htarget h => exact iff_of_true (h.hashesMatch htarget hm) fun _ _ _ hmoves => hmoves.elim
  | superseded hacc hold h => exact iff_of_false (h.not_hashesMatch hold) fun hno => hno hacc
  | updated hacc h => exact iff_of_true (h.hashesMatch hacc.finds hm) fun _ _ _ hmoves => hmoves.elim
  | born hacc h =>
    refine iff_of_true (fun i r hr => ?_) fun _ _ _ hmoves => hmoves.elim
    exact hm i r (h.assertions ▸ hr)
  | moved hmoves h => rw [h.hashesMatch_iff hm, hmoves.keepsHashes_iff]
  | merged hacc h => exact iff_of_true (h.hashesMatch hm) fun _ _ _ hmoves => hmoves.elim

/-- **Deduplication.** In a history every active assertion carries the hash of its claim at all times, and
no entity has a claim twice, if and only if no supersede goes through and every rekey or retype that goes
through is of an entity whose active assertions have the same hashes under the new id. -/
theorem dedup_throughout_iff (T : Text) (history : List (Action ρ)) :
    System.Throughout (apply T) (Deduplicated T) Store.empty history ↔
      System.EachStep (apply T) (fun s a => a.KeepsHashes T s) Store.empty history := by
  refine throughout_history_iff T ?_ (fun s a hs hd => ?_) history
  · exact (deduplicated_iff .empty).2 fun i r hr => by cases hr
  · rw [deduplicated_iff (hs.apply T a)]
    exact hashesMatch_apply_iff T hs hd.hashes a

/-- An assertion, and one that supersedes it. -/
def plainSupersession : List (Action Unit) :=
  [.createEntity { id := some "project:gateway", type := "project", name := "Gateway", aliases := [],
                   attributes := [], status := none, slug := "", refused := none,
                   now := "2026-01-01T00:00:00Z" },
   .createAssertion { entityId := "project:gateway", claim := "The gateway listens on port 8080.",
                      force := false, supersedesId := none, dryRun := false, evidenceUris := none,
                      validUntil := none, columns := (), rejected := none, blocked := none,
                      alreadyKnown := false, reviewStatus := none, flagged := false, notes := id,
                      now := "2026-01-01T00:00:01Z" },
   .supersedeAssertion { oldAssertionId := 1, entityId := "project:gateway",
                         claim := "The gateway listens on port 9090.", force := false,
                         evidenceUris := none, sessionId := none, agent := none, carryOver := id,
                         rejected := none, blocked := none, flagged := false, notes := id,
                         now := "2026-01-01T00:00:02Z" }]

theorem plainSupersession_row (T : Text) :
    ((plainSupersession.foldl (apply T) Store.empty).assertions.get? 2).map
      (fun r => (r.supersededBy, r.claimHash)) = some (none, none) := rfl

/-- Whatever the text functions are, the replacement is active and has no hash. -/
theorem plainSupersession_not_deduplicated :
    ¬ ∃ T : Text, Deduplicated T (plainSupersession.foldl (apply T) Store.empty) := by
  rintro ⟨T, h⟩
  obtain ⟨r, hr, he⟩ := Option.map_eq_some_iff.1 (plainSupersession_row T)
  obtain ⟨hact, hhash⟩ := Prod.mk.inj he
  rw [h.hashes 2 r hr hact] at hhash
  cases hhash

end LlmGateway.Cortex
