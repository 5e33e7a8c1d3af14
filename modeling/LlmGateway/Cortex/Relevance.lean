import LlmGateway.Cortex.AssertionChange
import Mathlib.Data.Set.Insert

/-!
# Relevance of supersession

A supersede names the assertion that it closes by its id, and the entity of the replacement by another field.
The route checks that both exist, not that the assertion is one of the entity. `get?_of_superseded` says what
every row is behind the call; `supersede_relevant_iff` that the active beliefs of the other entities are left
alone, and those of the named entity differ by the two rows, if and only if the closed assertion is one of
the named entity or was not active.
-/

namespace LlmGateway.Cortex

variable {ρ : Type}

/-- The active assertions of an entity, with their ids. -/
def activeAssertions (s : Store ρ) (entityId : String) : Set (ℕ × Assertion ρ) :=
  {e | s.assertions.get? e.1 = some e.2 ∧ e.2.entityId = entityId ∧ e.2.active = true}

variable {s s' : Store ρ} {body : SupersedeRequest ρ}

theorem mem_activeAssertions {entityId : String} {e : ℕ × Assertion ρ} :
    e ∈ activeAssertions s entityId ↔
      s.assertions.get? e.1 = some e.2 ∧ e.2.entityId = entityId ∧ e.2.active = true := Iff.rfl

/-- The supersede that returned `newId` changes the active beliefs of its own entity only, where it removes the
superseded assertion and adds the new one. -/
structure Relevant (body : SupersedeRequest ρ) (newId : ℕ) (s s' : Store ρ) : Prop where
  others : ∀ entityId, entityId ≠ body.entityId →
    activeAssertions s' entityId = activeAssertions s entityId
  own : ∃ row, s.assertions.get? newId = none ∧ row.claim = body.claim ∧
    activeAssertions s' body.entityId =
      insert (newId, row) {e ∈ activeAssertions s body.entityId | e.1 ≠ body.oldAssertionId}

theorem superseded_of_ok {newId : ℕ} (h : supersedeAssertion s body = (.ok newId, s')) :
    newId = s.assertions.nextId ∧ ∃ old, s.assertions.get? body.oldAssertionId = some old ∧
      (body.force = true ∨ old.active = true) ∧ Superseded body old s s' := by
  unfold supersedeAssertion at h
  rcases hprep : prepareSupersede s body with e | old
  · rw [hprep] at h
    cases h
  rw [hprep] at h
  dsimp only at h
  obtain ⟨-, hold, -⟩ := prepareSupersede_eq_ok.1 hprep
  obtain ⟨-, e, he⟩ | ⟨-, hfinds, t, ht, hsup⟩ := supersedeLocked_cases body old s
  · rw [he] at h
    cases h
  · rw [ht] at h
    obtain ⟨hid, rfl⟩ := Prod.mk.inj h
    obtain rfl := Except.ok.inj hid
    obtain ⟨r, hr, hcond⟩ := hfinds
    rw [Table.get?_insert_of_some hold] at hr
    obtain rfl := Option.some.inj hr
    exact ⟨rfl, old, hold, hcond, hsup⟩

/-- **The rows behind a supersede**: the replacement, the closed assertion, and all others as they were. -/
theorem get?_of_superseded {old : Assertion ρ}
    (h : Superseded body old s s') (hold : s.assertions.get? body.oldAssertionId = some old)
    (hcond : body.force = true ∨ old.active = true) (i : ℕ) :
    s'.assertions.get? i =
      if i = s.assertions.nextId then some ((body.row old).annotate body.flagged body.notes)
      else if i = body.oldAssertionId then some (old.close s.assertions.nextId body.now)
      else s.assertions.get? i := by
  have hne : body.oldAssertionId ≠ s.assertions.nextId := Nat.ne_of_lt (Table.get?_lt hold)
  rw [h.assertions, Table.get?_insert]
  by_cases hnew : i = s.assertions.nextId
  · have hi : i ≠ body.oldAssertionId := fun hi => hne (hi.symm.trans hnew)
    simp [hnew, SupersedeRequest.change, hne.symm]
  · by_cases hi : i = body.oldAssertionId
    · subst hi
      rw [if_neg hnew, if_neg hnew, if_pos rfl, hold]
      simp [SupersedeRequest.change, hnew, hcond]
    · rw [if_neg hnew, if_neg hnew, if_neg hi]
      rcases s.assertions.get? i with _ | r
      · rfl
      · simp [SupersedeRequest.change, hnew, hi]

/-- The closed assertion is one of the named entity, or was not active. -/
def SupersedeRequest.WithinEntity (body : SupersedeRequest ρ) (s : Store ρ) : Prop :=
  ∀ old, s.assertions.get? body.oldAssertionId = some old →
    old.entityId = body.entityId ∨ old.active = false

theorem mem_activeAssertions_of_superseded {old : Assertion ρ}
    (h : Superseded body old s s') (hold : s.assertions.get? body.oldAssertionId = some old)
    (hcond : body.force = true ∨ old.active = true) (entityId : String) (e : ℕ × Assertion ρ) :
    e ∈ activeAssertions s' entityId ↔
      (entityId = body.entityId ∧
        e = (s.assertions.nextId, (body.row old).annotate body.flagged body.notes)) ∨
      (e ∈ activeAssertions s entityId ∧ e.1 ≠ body.oldAssertionId) := by
  obtain ⟨i, r⟩ := e
  simp only [mem_activeAssertions, get?_of_superseded h hold hcond, Prod.mk.injEq]
  by_cases hnew : i = s.assertions.nextId
  · subst hnew
    simp only [if_pos, Option.some.injEq, true_and, Table.get?_nextId, reduceCtorEq, false_and, or_false]
    constructor
    · rintro ⟨rfl, hent, -⟩
      exact ⟨hent.symm, rfl⟩
    · rintro ⟨rfl, rfl⟩
      exact ⟨rfl, rfl, rfl⟩
  · by_cases hi : i = body.oldAssertionId
    · rw [if_neg hnew, if_pos hi]
      constructor
      · rintro ⟨hr, -, hactive⟩
        obtain rfl := Option.some.inj hr
        cases hactive
      · rintro (⟨-, hnew', -⟩ | ⟨-, hne⟩)
        · exact absurd hnew' hnew
        · exact absurd hi hne
    · simp [hnew, hi]

/-- **Relevance.** A supersede that returns changes the active beliefs of its entity only, by the two rows, if
and only if the closed assertion is one of that entity or was not active. -/
theorem supersede_relevant_iff {s s' : Store ρ} {body : SupersedeRequest ρ} {newId : ℕ}
    (h : supersedeAssertion s body = (.ok newId, s')) :
    Relevant body newId s s' ↔ body.WithinEntity s := by
  obtain ⟨rfl, old, hold, hcond, hsup⟩ := superseded_of_ok h
  have hmem := mem_activeAssertions_of_superseded hsup hold hcond
  constructor
  · intro hrel old' hold'
    obtain rfl := Option.some.inj (hold.symm.trans hold')
    by_contra hnot
    rw [not_or, Bool.not_eq_false] at hnot
    obtain ⟨hent, hactive⟩ := hnot
    have hbefore : (body.oldAssertionId, old) ∈ activeAssertions s old.entityId := ⟨hold, rfl, hactive⟩
    rw [← hrel.others old.entityId hent, hmem] at hbefore
    obtain ⟨hent', -⟩ | ⟨-, hne⟩ := hbefore
    · exact hent hent'
    · exact hne rfl
  · intro hwithin
    refine ⟨fun entityId hne => ?_, (body.row old).annotate body.flagged body.notes, Table.get?_nextId _,
      rfl, ?_⟩
    · ext e
      rw [hmem]
      constructor
      · rintro (⟨heq, -⟩ | ⟨he, -⟩)
        · exact absurd heq hne
        · exact he
      · rintro he
        refine .inr ⟨he, fun hi => ?_⟩
        obtain ⟨hrow, hent, hactive⟩ := he
        rw [hi, hold] at hrow
        rw [← Option.some.inj hrow] at hent hactive
        obtain hown | hclosed := hwithin old hold
        · exact hne (hent.symm.trans hown)
        · exact absurd hactive (by rw [hclosed]; decide)
    · ext e
      rw [hmem, Set.mem_insert_iff]
      exact or_congr (and_iff_right rfl) Iff.rfl

/-- Two entities with one assertion each. -/
def twoBeliefs : Store Unit where
  entities := ((∅ : Dict String Entity).set "project:gateway"
    { type := "project", name := "Gateway", lifecycle := some .active, attributes := [], aliases := [],
      updatedAt := "2026-01-01T00:00:00Z" }).set "project:proxy"
    { type := "project", name := "Proxy", lifecycle := some .active, attributes := [], aliases := [],
      updatedAt := "2026-01-01T00:00:00Z" }
  entityAliases := []
  assertions := (Table.empty.insert
    { entityId := "project:gateway", claim := "The gateway listens on port 8080.", claimHash := none,
      supersededBy := none, evidenceUris := none, validUntil := none, reviewStatus := none,
      updatedAt := none, columns := () }).insert
    { entityId := "project:proxy", claim := "The proxy runs on the gateway host.", claimHash := none,
      supersededBy := none, evidenceUris := none, validUntil := none, reviewStatus := none,
      updatedAt := none, columns := () }
  sessionEdges := Table.empty

/-- A supersede of the gateway's assertion for the given entity. -/
def movePort (entityId : String) : SupersedeRequest Unit where
  oldAssertionId := 1
  entityId := entityId
  claim := "The gateway listens on port 9090."
  force := false
  evidenceUris := none
  sessionId := none
  agent := none
  carryOver := id
  rejected := none
  blocked := none
  flagged := false
  notes := id
  now := "2026-01-01T00:00:01Z"

/-- The gateway's own assertion is replaced, and nothing else changes. -/
theorem movePort_relevant :
    Relevant (movePort "project:gateway") 3 twoBeliefs
      (supersedeAssertion twoBeliefs (movePort "project:gateway")).2 := by
  have hreturns : supersedeAssertion twoBeliefs (movePort "project:gateway") = (.ok 3, _) := rfl
  refine (supersede_relevant_iff hreturns).2 fun old hold => .inl ?_
  obtain rfl := Option.some.inj hold
  rfl

theorem active_movePort :
    ((supersedeAssertion twoBeliefs (movePort "project:proxy")).2.assertions.get? 1).map Assertion.active =
      some false := rfl

/-- Named for the proxy, the supersede takes the gateway's belief away. -/
theorem movePort_not_relevant :
    (supersedeAssertion twoBeliefs (movePort "project:proxy")).1 = .ok 3 ∧
      ¬ Relevant (movePort "project:proxy") 3 twoBeliefs
        (supersedeAssertion twoBeliefs (movePort "project:proxy")).2 := by
  refine ⟨rfl, fun h => ?_⟩
  have hother := h.others "project:gateway" (by decide)
  have hbefore : (1, _) ∈ activeAssertions twoBeliefs "project:gateway" := ⟨rfl, rfl, rfl⟩
  rw [← hother] at hbefore
  obtain ⟨hrow, -, hactive⟩ := hbefore
  have hclosed := active_movePort
  rw [hrow, Option.map_some, hactive] at hclosed
  cases hclosed

end LlmGateway.Cortex
