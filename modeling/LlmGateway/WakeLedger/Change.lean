import LlmGateway.Foundations.Fallible
import LlmGateway.WakeLedger.Transactions

/-!
# What a transaction does to a wake row

Two relations between a row before and after a transaction. `Kept` is what every transaction obeys: the
row stays about the same turn for the same agent, and a row whose wake has ended keeps its state. `Quiet`
says besides that the transaction makes no claim: a row that is claimed after it was claimed before,
under the same wake id and since the same time.

`step_kept` and `step_quiet` say which transactions obey them. The claim is taken apart by
`claimDueWakes_cases`: a quiet change, and then, when it claims, the update of the rows that are claimable
in the first group.
-/

namespace LlmGateway.WakeLedger

variable {R : Registry}

/-! ## The relations -/

/-- What every transaction obeys. -/
structure Kept (r r' : Row) : Prop where
  agent : r'.agent = r.agent
  threadId : r'.threadId = r.threadId
  turnId : r'.turnId = r.turnId
  state : r.state.isTerminal = true → r'.state = r.state

/-- What a transaction obeys that makes no claim. -/
structure Quiet (r r' : Row) : Prop extends Kept r r' where
  claim : r'.state.isClaim = true →
    r.state.isClaim = true ∧ r'.wakeId = r.wakeId ∧ r'.claimedAt = r.claimedAt
  claimed : r'.state = .claimed → r.state = .claimed

/-- A row as it is filed. -/
def Unclaimed (r : Row) : Prop := r.state.isClaim = false

theorem Kept.refl (r : Row) : Kept r r := ⟨rfl, rfl, rfl, fun _ => rfl⟩

theorem Kept.trans (r r' r'' : Row) (h : Kept r r') (h' : Kept r' r'') : Kept r r'' where
  agent := h'.agent.trans h.agent
  threadId := h'.threadId.trans h.threadId
  turnId := h'.turnId.trans h.turnId
  state hr := by
    have hr' := h.state hr
    rw [h'.state (by rwa [hr']), hr']

theorem Quiet.refl (r : Row) : Quiet r r := ⟨Kept.refl r, fun h => ⟨h, rfl, rfl⟩, id⟩

theorem Quiet.trans (r r' r'' : Row) (h : Quiet r r') (h' : Quiet r' r'') : Quiet r r'' where
  toKept := Kept.trans r r' r'' h.toKept h'.toKept
  claim hr := by
    obtain ⟨hr', hwake', hat'⟩ := h'.claim hr
    obtain ⟨hr, hwake, hat⟩ := h.claim hr'
    exact ⟨hr, hwake'.trans hwake, hat'.trans hat⟩
  claimed hr := h.claimed (h'.claimed hr)

theorem Unclaimed.quiet (r r' : Row) (h : Unclaimed r) (hq : Quiet r r') : Unclaimed r' := by
  by_contra hr'
  have := (hq.claim (by simpa [Unclaimed] using hr')).1
  rw [h] at this
  cases this

/-- The rows change quietly. -/
abbrev QuietChange (t t' : Table Row) : Prop := Table.Rel Quiet Unclaimed t t'

/-- The rows are kept. -/
abbrev KeptChange (t t' : Table Row) : Prop := Table.Rel Kept (fun _ => True) t t'

variable {t' : Table Row} {r : Row} {s t : Store} {agent outcome threadId wakeId : String} {d : Delivery}
  {stamp : ℤ} {reason rule : Option String}

theorem QuietChange.kept {t : Table Row} (h : QuietChange t t') : KeptChange t t' :=
  h.mono (fun _ _ hq => hq.toKept) fun _ _ => trivial

theorem QuietChange.refl (t : Table Row) : QuietChange t t := Table.Rel.refl Quiet.refl t

theorem QuietChange.trans {t t'' : Table Row} (h : QuietChange t t') (h' : QuietChange t' t'') :
    QuietChange t t'' :=
  Table.Rel.trans Quiet.trans Unclaimed.quiet h h'

theorem KeptChange.refl (t : Table Row) : KeptChange t t := Table.Rel.refl Kept.refl t

theorem KeptChange.trans {t t'' : Table Row} (h : KeptChange t t') (h' : KeptChange t' t'') :
    KeptChange t t'' :=
  Table.Rel.trans Kept.trans (fun _ _ _ _ => trivial) h h'

/-! ## Single updates -/

theorem Quiet.of_pending {r' : Row} (hr : r.state = .pending) (ha : r'.agent = r.agent)
    (hthread : r'.threadId = r.threadId) (hturn : r'.turnId = r.turnId)
    (hr' : r'.state.isClaim = false) : Quiet r r' where
  agent := ha
  threadId := hthread
  turnId := hturn
  state h := by simp [hr, RowState.isTerminal] at h
  claim h := by simp [hr'] at h
  claimed h := by simp [h, RowState.isClaim] at hr'

theorem skipWhere_quiet (ledger : Table Row) (p : Row → Bool) (reason : String) (stamp : ℤ) :
    QuietChange ledger (skipWhere ledger p reason stamp) := by
  refine Table.Rel.update Quiet.refl fun id r _ hp => ?_
  simp only [Bool.and_eq_true, beq_iff_eq] at hp
  exact Quiet.of_pending hp.1 rfl rfl rfl rfl

theorem refuseWhere_quiet (ledger : Table Row) (p : Row → Bool) (rule : String) (stamp : ℤ) :
    QuietChange ledger (refuseWhere ledger p rule stamp) := by
  refine Table.Rel.update Quiet.refl fun id r _ hp => ?_
  simp only [Bool.and_eq_true, beq_iff_eq] at hp
  exact Quiet.of_pending hp.1 rfl rfl rfl rfl

theorem retagWhere_quiet (ledger : Table Row) (p : Row → Bool) (rule : Option String) :
    QuietChange ledger (retagWhere ledger p rule) := by
  refine Table.Rel.update Quiet.refl fun id r _ hp => ?_
  simp only [Bool.and_eq_true, beq_iff_eq] at hp
  exact Quiet.of_pending hp.1 rfl rfl rfl (by simp [hp.1, RowState.isClaim])

theorem Item.row_unclaimed (item : Item) (stamp : ℤ) : Unclaimed (item.row stamp) := rfl

theorem tombstone_unclaimed (canonical threadId reason : String) (turnId : ℕ) (turnNumber stamp : ℤ) :
    Unclaimed (tombstone canonical threadId reason turnId turnNumber stamp) := rfl

theorem insertOrIgnore_quiet {turns : Table Turn} {ledger ledger' : Table Row}
    (hr : Unclaimed r) (h : insertOrIgnore turns ledger r = .ok ledger') :
    QuietChange ledger ledger' := by
  unfold insertOrIgnore at h
  split at h
  · cases h
    exact QuietChange.refl _
  · split at h
    · cases h
    · cases h
      exact Table.Rel.insert Quiet.refl _ hr

theorem foldClaims_quiet (s : Store) (cutoff : ℤ) :
    QuietChange s.ledger (foldClaims s cutoff).ledger := by
  refine Table.Rel.update Quiet.refl fun id r _ hp => ?_
  simp only [Bool.and_eq_true, beq_iff_eq] at hp
  refine ⟨⟨rfl, rfl, rfl, fun h => ?_⟩, fun _ => ⟨?_, rfl, rfl⟩, fun h => by cases h⟩
  · simp [hp.1, RowState.isTerminal] at h
  · simp [hp.1, RowState.isClaim]

/-! ## The rows of a result -/

theorem mem_eligibleRows {e : ℕ × Row} :
    e ∈ eligibleRows s wakeId ↔
      s.ledger.get? e.1 = some e.2 ∧ e.2.wakeId = some wakeId ∧ e.2.state.isClaim = true := by
  rw [eligibleRows, Table.mem_select]
  simp

theorem isClaim_of_mem_eligible {id : ℕ}
    (h : ((eligibleRows s wakeId).map Prod.fst).contains id = true) (hr : s.ledger.get? id = some r) :
    r.wakeId = some wakeId ∧ r.state.isClaim = true := by
  rw [List.contains_iff_mem, List.mem_map] at h
  obtain ⟨e, he, rfl⟩ := h
  obtain ⟨hget, hwake⟩ := mem_eligibleRows.1 he
  obtain rfl := Option.some.inj (hr.symm.trans hget)
  exact hwake

theorem not_isTerminal_of_isClaim {x : RowState} (h : x.isClaim = true) : x.isTerminal = false := by
  cases x <;> first | rfl | cases h

theorem recordOrion_quiet
    (h : recordOrionDeferredStreaming s stamp wakeId d = .ok t) : QuietChange s.ledger t.ledger := by
  have key : ∀ f : Row → Row, (∀ r, (f r).agent = r.agent ∧ (f r).threadId = r.threadId ∧
      (f r).turnId = r.turnId ∧ (f r).state.isClaim = false) →
      QuietChange s.ledger (s.ledger.update
        (fun id _ => ((eligibleRows s wakeId).map Prod.fst).contains id) f) := by
    intro f hf
    refine Table.Rel.update Quiet.refl fun id r hr hp => ?_
    obtain ⟨ha, hthread, hturn, hst⟩ := hf r
    refine ⟨⟨ha, hthread, hturn, fun hterm => ?_⟩, fun hr' => ?_, fun hr' => ?_⟩
    · rw [not_isTerminal_of_isClaim (isClaim_of_mem_eligible hp hr).2] at hterm
      cases hterm
    · simp [hst] at hr'
    · simp [hr', RowState.isClaim] at hst
  unfold recordOrionDeferredStreaming at h
  dsimp only at h
  split at h
  · cases h
  · split at h
    · cases h
    · split at h
      all_goals
        cases h
        exact key _ fun r => ⟨rfl, rfl, rfl, rfl⟩

theorem recordWakeResult_inv (h : recordWakeResult s stamp wakeId outcome reason d rule = .ok t) :
    ∃ (state : RowState) (finished : Option ℤ) (merged : Row → Option String),
      RowState.ofString? outcome = some state ∧
      t.ledger = s.ledger.update (fun id _ => ((eligibleRows s wakeId).map Prod.fst).contains id)
        fun r => r.record state reason d finished (merged r) := by
  unfold recordWakeResult at h
  dsimp only at h
  split at h
  · cases h
  · cases hstate : RowState.ofString? outcome with
    | none =>
      rw [hstate] at h
      cases h
    | some state =>
      rw [hstate] at h
      dsimp only at h
      split at h
      · cases h
      · cases h
        exact ⟨state, _, _, rfl, rfl⟩

theorem recordWakeResult_kept (h : recordWakeResult s stamp wakeId outcome reason d rule = .ok t) :
    KeptChange s.ledger t.ledger := by
  obtain ⟨state, finished, merged, -, ht⟩ := recordWakeResult_inv h
  rw [ht]
  refine Table.Rel.update Kept.refl fun id r hr hp => ?_
  refine ⟨rfl, rfl, rfl, fun hterm => ?_⟩
  rw [not_isTerminal_of_isClaim (isClaim_of_mem_eligible hp hr).2] at hterm
  cases hterm

theorem ofString?_claimed (h : RowState.ofString? outcome = some .claimed) :
    outcome = "claimed" := by
  unfold RowState.ofString? at h
  split at h <;> simp_all

theorem recordWakeResult_quiet
    (h : recordWakeResult s stamp wakeId outcome reason d rule = .ok t) (hout : outcome ≠ "claimed") :
    QuietChange s.ledger t.ledger := by
  obtain ⟨state, finished, merged, hstate, ht⟩ := recordWakeResult_inv h
  rw [ht]
  refine Table.Rel.update Quiet.refl fun id r hr hp => ?_
  have hclaim := (isClaim_of_mem_eligible hp hr).2
  refine ⟨⟨rfl, rfl, rfl, fun hterm => ?_⟩, fun _ => ⟨hclaim, rfl, rfl⟩, fun hr' => ?_⟩
  · rw [not_isTerminal_of_isClaim hclaim] at hterm
    cases hterm
  · have hst : state = .claimed := hr'
    exact absurd (ofString?_claimed (hst ▸ hstate)) hout

/-! ## The claim -/

section

variable {c : ClaimCall} {s : Store} {g : Group}

theorem due_pending {p : Row} (h : due s c.stamp c.ttlBefore p = true) : p.state = .pending := by
  simp only [due, Bool.and_eq_true, beq_iff_eq] at h
  exact h.1.1.1.1

variable {e : ℕ × Row}

theorem mem_undeferredRows :
    e ∈ undeferredRows R c s g ↔ s.ledger.get? e.1 = some e.2 ∧ joins R g e.2 = true ∧
      e.2.state = .pending ∧ retryReady c.stamp e.2 = true ∧ composerDeferBlocksClaim e.2 = false := by
  rw [undeferredRows, List.mem_filter, groupPendingRows, List.mem_insertionSort, Table.mem_select]
  simp [and_assoc]

theorem mem_claimableRows :
    e ∈ claimableRows R c s g ↔
      e ∈ undeferredRows R c s g ∧ skipReason R c.probes s e.2 = none := by
  rw [claimableRows, List.mem_filter, Option.isNone_iff_eq_none]

theorem mem_skippableRows :
    e ∈ skippableRows R c s g ↔
      e ∈ undeferredRows R c s g ∧ (skipReason R c.probes s e.2).isSome = true := by
  rw [skippableRows, List.mem_filter]

theorem contains_skippable_iff {id : ℕ} {r : Row} (hr : s.ledger.get? id = some r) :
    ((skippableRows R c s g).map Prod.fst).contains id = true ↔ (id, r) ∈ skippableRows R c s g := by
  rw [List.contains_iff_mem, List.mem_map]
  constructor
  · rintro ⟨⟨i, r'⟩, he, rfl⟩
    obtain rfl : r' = r :=
      Option.some.inj ((mem_undeferredRows.1 (mem_skippableRows.1 he).1).1.symm.trans hr)
    exact he
  · exact fun he => ⟨_, he, rfl⟩

theorem skipRows_quiet (R : Registry) (c : ClaimCall) (s : Store) (g : Group) :
    QuietChange s.ledger (skipRows R c s g).ledger := by
  refine Table.Rel.update Quiet.refl fun id r hr hp => ?_
  have hmem := (mem_skippableRows.1 ((contains_skippable_iff hr).1 hp)).1
  exact Quiet.of_pending (mem_undeferredRows.1 hmem).2.2.1 rfl rfl rfl rfl

theorem skipReason_skipRows (P : Probes) (r : Row) :
    skipReason R P (skipRows R c s g) r = skipReason R P s r := by
  rw [skipReason, skipReason]
  rfl

theorem get?_skipRows_of_claimable {g' : Group} (he : e ∈ claimableRows R c s g') :
    (skipRows R c s g).ledger.get? e.1 = some e.2 := by
  obtain ⟨hund, hskip⟩ := mem_claimableRows.1 he
  have hr := (mem_undeferredRows.1 hund).1
  have hnot : ¬ ((skippableRows R c s g).map Prod.fst).contains e.1 = true := by
    rw [contains_skippable_iff hr, mem_skippableRows, hskip]
    simp
  change (s.ledger.update _ _).get? e.1 = _
  rw [Table.get?_update, hr, Option.map_some, if_neg hnot]

/-- The pending rows of `s'` are rows of `s`, as they were. -/
def PendingKept (s s' : Store) : Prop :=
  ∀ id r, s'.ledger.get? id = some r → r.state = .pending → s.ledger.get? id = some r

theorem skipRows_pendingKept (R : Registry) (c : ClaimCall) (s : Store) (g : Group) :
    PendingKept s (skipRows R c s g) := by
  intro id r hr hpend
  obtain ⟨r₀, hr₀, ⟨-, rfl⟩ | ⟨-, rfl⟩⟩ := Table.update_inv hr
  · cases hpend
  · exact hr₀

theorem foldClaims_pendingKept (s : Store) (cutoff : ℤ) : PendingKept s (foldClaims s cutoff) := by
  intro id r hr hpend
  obtain ⟨r₀, hr₀, ⟨-, rfl⟩ | ⟨-, rfl⟩⟩ := Table.update_inv hr
  · cases hpend
  · exact hr₀

/-- What the loop has done to the store when it stops: rows were skipped, the other tables are as they
were. -/
structure Drained (s s₁ : Store) : Prop where
  quiet : QuietChange s.ledger s₁.ledger
  pending : PendingKept s s₁
  turns : s₁.turns = s.turns
  cursors : s₁.cursors = s.cursors

theorem Drained.refl (s : Store) : Drained s s := ⟨.refl _, fun _ _ hr _ => hr, rfl, rfl⟩

theorem Drained.skipRows (R : Registry) (c : ClaimCall) {s s₁ : Store} {g : Group}
    (h : Drained (skipRows R c s g) s₁) : Drained s s₁ where
  quiet := (skipRows_quiet R c s g).trans h.quiet
  pending id r hr hpend := skipRows_pendingKept R c s g id r (h.pending id r hr hpend) hpend
  turns := h.turns
  cursors := h.cursors

/-- **The claim taken apart**: rows are skipped, and then, when it claims, the claimable rows of the group
that is first are updated. -/
theorem claimLoop_cases (n : ℕ) (l : List (ℕ × Row)) :
    ∃ s₁, Drained s s₁ ∧
      (((claimLoop R c n s l).1 = s₁ ∧ (claimLoop R c n s l).2.wakeId = none) ∨
        ∃ g, firstGroup s₁ c.stamp c.ttlBefore c.limit = some g ∧
          (claimLoop R c n s l).1 =
            claimRows c (skipRows R c s₁ g) ((claimableRows R c s₁ g).map Prod.fst)) := by
  induction n generalizing s l with
  | zero => exact ⟨s, .refl s, .inl ⟨rfl, rfl⟩⟩
  | succ n ih =>
    rw [claimLoop]
    cases hg : firstGroup s c.stamp c.ttlBefore c.limit with
    | none => exact ⟨s, .refl s, .inl ⟨rfl, rfl⟩⟩
    | some g =>
      dsimp only
      split
      · exact ih l
      · split
        · obtain ⟨s₁, hs₁, hrest⟩ := ih (s := skipRows R c s g) _
          exact ⟨s₁, hs₁.skipRows R c, hrest⟩
        · exact ⟨s, .refl s, .inr ⟨g, hg, rfl⟩⟩

theorem claimDueWakes_cases (R : Registry) (c : ClaimCall) (s : Store) :
    ∃ s₁, Drained (foldClaims s c.ttlBefore) s₁ ∧
      (((claimDueWakes R c s).1 = s₁ ∧ (claimDueWakes R c s).2.wakeId = none) ∨
        ∃ g, firstGroup s₁ c.stamp c.ttlBefore c.limit = some g ∧
          (claimDueWakes R c s).1 =
            claimRows c (skipRows R c s₁ g) ((claimableRows R c s₁ g).map Prod.fst)) :=
  claimLoop_cases _ _

theorem pending_of_contains_claimable {id : ℕ} {r : Row}
    (h : ((claimableRows R c s g).map Prod.fst).contains id = true)
    (hr : (skipRows R c s g).ledger.get? id = some r) :
    (id, r) ∈ claimableRows R c s g ∧ r.state = .pending := by
  rw [List.contains_iff_mem, List.mem_map] at h
  obtain ⟨⟨i, r'⟩, he, rfl⟩ := h
  obtain rfl : r' = r := Option.some.inj ((get?_skipRows_of_claimable he).symm.trans hr)
  exact ⟨he, (mem_undeferredRows.1 (mem_claimableRows.1 he).1).2.2.1⟩

theorem claimRows_kept :
    KeptChange (skipRows R c s g).ledger
      (claimRows c (skipRows R c s g) ((claimableRows R c s g).map Prod.fst)).ledger := by
  refine Table.Rel.update Kept.refl fun id r hr hp => ⟨rfl, rfl, rfl, fun hterm => ?_⟩
  simp [(pending_of_contains_claimable hp hr).2, RowState.isTerminal] at hterm

theorem claimDueWakes_kept (R : Registry) (c : ClaimCall) (s : Store) :
    KeptChange s.ledger (claimDueWakes R c s).1.ledger := by
  obtain ⟨s₁, hs₁, ⟨h, -⟩ | ⟨g, -, h⟩⟩ := claimDueWakes_cases R c s
  · rw [h]
    exact ((foldClaims_quiet s _).trans hs₁.quiet).kept
  · have hskip := (foldClaims_quiet s _).trans (hs₁.quiet.trans (skipRows_quiet R c s₁ g))
    rw [h]
    exact hskip.kept.trans claimRows_kept

end

/-! ## The direct claim -/

theorem acquireDirectClaim_cons {turnId : ℕ} {turnNumber : ℤ} {turns : List (ℕ × ℤ)}
    (h : acquireDirectClaim s stamp wakeId agent threadId ((turnId, turnNumber) :: turns) = .ok t) :
    t = s ∨ ∃ (ledger : Table Row) (p : Row → Bool),
      insertOrIgnore s.turns s.ledger (Item.row ⟨agent, threadId, turnId, turnNumber, none⟩ stamp) =
        .ok ledger ∧
      (∀ r, p r = true → r.state = .pending ∧ r.agent = agent ∧ r.threadId = threadId) ∧
      (t = { s with ledger := ledger.update (fun _ r => p r) (Row.claim wakeId stamp) } ∨
        acquireDirectClaim { s with ledger := ledger.update (fun _ r => p r) (Row.claim wakeId stamp) }
          stamp wakeId agent threadId turns = .ok t) := by
  rw [acquireDirectClaim] at h
  dsimp only at h
  split at h
  · cases h
    exact .inl rfl
  · cases hins : insertOrIgnore s.turns s.ledger
        (Item.row ⟨agent, threadId, turnId, turnNumber, none⟩ stamp) with
    | error e =>
      rw [hins] at h
      cases h
    | ok ledger =>
      rw [hins] at h
      simp only [bind, Except.bind] at h
      refine .inr ⟨ledger, fun r => r.agent == agent && r.threadId == threadId && r.turnId == turnId &&
        r.state == .pending && (r.wakeId == none || r.wakeId == some wakeId), rfl, fun r hr => ?_, ?_⟩
      · simp only [Bool.and_eq_true, beq_iff_eq] at hr
        exact ⟨hr.1.2, hr.1.1.1.1, hr.1.1.1.2⟩
      · split at h
        · cases h
          exact .inl rfl
        · exact .inr h

theorem acquireDirectClaim_kept {turns : List (ℕ × ℤ)}
    (h : acquireDirectClaim s stamp wakeId agent threadId turns = .ok t) :
    KeptChange s.ledger t.ledger := by
  induction turns generalizing s with
  | nil =>
    cases h
    exact KeptChange.refl _
  | cons turn turns ih =>
    obtain ⟨turnId, turnNumber⟩ := turn
    obtain rfl | ⟨ledger, p, hins, hp, hrest⟩ := acquireDirectClaim_cons h
    · exact KeptChange.refl _
    · have hfiled := (insertOrIgnore_quiet (Item.row_unclaimed _ _) hins).kept
      have hclaimed : KeptChange ledger (ledger.update (fun _ r => p r) (Row.claim wakeId stamp)) := by
        refine Table.Rel.update Kept.refl fun id r _ hr => ⟨rfl, rfl, rfl, fun hterm => ?_⟩
        simp [(hp r hr).1, RowState.isTerminal] at hterm
      obtain rfl | hrest := hrest
      · exact hfiled.trans hclaimed
      · exact (hfiled.trans hclaimed).trans (ih hrest)

/-! ## Steps -/

theorem commit_rel {R : Row → Row → Prop} {N : Row → Prop} (hR : ∀ r, R r r)
    {x : Except WakeError Store} (h : ∀ t, x = .ok t → Table.Rel R N s.ledger t.ledger) :
    Table.Rel R N s.ledger (commit s x).ledger := by
  cases x with
  | ok t => exact h t rfl
  | error e => exact Table.Rel.refl hR _

theorem advanceScan_inv {consumer : String} {expected new : ℤ}
    {pending : List Item} (h : advanceScan s stamp consumer expected new pending = .ok t) :
    s.cursors.get? consumer = some expected ∧ ∃ ledger,
      (pending.filter fun item => !turnRead s item.turnId).foldlM
        (fun ledger item => insertOrIgnore s.turns ledger (item.row stamp)) s.ledger = .ok ledger ∧
      t = { s with ledger := ledger, cursors := s.cursors.set consumer new } := by
  rw [advanceScan] at h
  split_ifs at h with hcur
  obtain ⟨ledger, hfold, hret⟩ := bind_eq_ok.1 h
  exact ⟨not_not.1 hcur, ledger, hfold, (Except.ok.inj hret).symm⟩

theorem advanceScan_quiet {consumer : String} {expected new : ℤ}
    {pending : List Item} (h : advanceScan s stamp consumer expected new pending = .ok t) :
    QuietChange s.ledger t.ledger := by
  obtain ⟨-, ledger, hfold, rfl⟩ := advanceScan_inv h
  exact foldlM_rel QuietChange.refl QuietChange.trans
    (fun _ item _ hins => insertOrIgnore_quiet (Item.row_unclaimed item stamp) hins) hfold

theorem suppress_quiet {turnNumber : ℤ}
    {reason : String} (h : suppressEndpointWakeForTurn R s stamp agent threadId turnNumber reason = .ok t) :
    QuietChange s.ledger t.ledger := by
  unfold suppressEndpointWakeForTurn at h
  dsimp only at h
  split at h
  · cases h
    exact skipWhere_quiet _ _ _ _
  · rename_i turn _
    cases hins : insertOrIgnore s.turns
        (skipWhere s.ledger (fun r => r.threadId == threadId && r.turnNumber == turnNumber &&
          (R.ledgerAgentsForCanonical (R.canonicalWakeRecipient agent)).contains
            (Sql.lower (Sql.trim r.agent))) reason stamp)
        (tombstone (R.canonicalWakeRecipient agent) threadId reason turn.1 turnNumber stamp) with
    | error e =>
      rw [hins] at h
      cases h
    | ok ledger =>
      rw [hins] at h
      cases h
      exact (skipWhere_quiet _ _ _ _).trans (insertOrIgnore_quiet (tombstone_unclaimed _ _ _ _ _ _) hins)

theorem skipPendingWakes_quiet (s : Store) (stamp : ℤ) (threadId seat : String) (turnIds : List ℕ) :
    QuietChange s.ledger (skipPendingWakesOnPairMarkRead R s stamp threadId seat turnIds).ledger := by
  unfold skipPendingWakesOnPairMarkRead
  split
  · exact QuietChange.refl _
  · exact skipWhere_quiet _ _ _ _

theorem notifyComposerEmpty_quiet (s : Store) (surface agentId threadScope : String) :
    QuietChange s.ledger (notifyComposerEmptyForTarget s surface agentId threadScope).ledger := by
  unfold notifyComposerEmptyForTarget
  dsimp only
  split
  · exact QuietChange.refl _
  · exact retagWhere_quiet _ _ _

theorem normalizeLegacy_quiet (s : Store) (stamp : ℤ) :
    QuietChange s.ledger (normalizeLegacyPendingWakes s stamp).ledger := by
  unfold normalizeLegacyPendingWakes
  exact QuietChange.trans (refuseWhere_quiet s.ledger _ _ _) (retagWhere_quiet _ _ _)

/-- The transactions that can claim a row. -/
def Action.claims : Action → Bool
  | .claimDueWakes _ => true
  | .recordWakeResult _ _ outcome _ _ _ => outcome == "claimed"
  | .acquireDirectClaim _ _ _ _ _ => true
  | _ => false

/-- The deletion of a turn. -/
def Action.deletes : Action → Bool
  | .deleteTurn _ => true
  | _ => false

theorem step_quiet (s : Store) (a : Action) (hc : a.claims = false) (hd : a.deletes = false) :
    QuietChange s.ledger (step R s a).ledger := by
  cases a with
  | getCursor consumer | insertTurn t | updateTurn id t | subscribe subscriptions => exact QuietChange.refl _
  | advanceScan stamp consumer expected new pending =>
    exact commit_rel Quiet.refl fun t ht => advanceScan_quiet ht
  | claimDueWakes c => cases hc
  | recordOrionDeferredStreaming stamp wakeId d =>
    exact commit_rel Quiet.refl fun t ht => recordOrion_quiet ht
  | recordWakeResult stamp wakeId outcome reason d rule =>
    exact commit_rel Quiet.refl fun t ht =>
      recordWakeResult_quiet ht (by simpa [Action.claims] using hc)
  | foldExpiredClaims stamp claimTtl => exact foldClaims_quiet s _
  | suppressEndpointWakeForTurn stamp agent threadId turnNumber reason =>
    exact commit_rel Quiet.refl fun t ht => suppress_quiet ht
  | skipPendingWakesOnPairMarkRead stamp threadId seat turnIds =>
    exact skipPendingWakes_quiet s stamp threadId seat turnIds
  | normalizeLegacyPendingWakes stamp => exact normalizeLegacy_quiet s stamp
  | finalizeComposerDeferPass => exact retagWhere_quiet s.ledger _ _
  | escalateComposerDeferredOnSweep stamp => exact refuseWhere_quiet s.ledger _ _ _
  | notifyComposerEmptyForTarget surface agentId threadScope =>
    exact notifyComposerEmpty_quiet s surface agentId threadScope
  | acquireDirectClaim stamp wakeId agent threadId turns => cases hc
  | deleteTurn id => cases hd

theorem step_kept (s : Store) (a : Action) (hd : a.deletes = false) :
    KeptChange s.ledger (step R s a).ledger := by
  by_cases hc : a.claims = true
  · cases a with
    | claimDueWakes c => exact claimDueWakes_kept R c s
    | recordWakeResult stamp wakeId outcome reason d rule =>
      exact commit_rel Kept.refl fun t ht => recordWakeResult_kept ht
    | acquireDirectClaim stamp wakeId agent threadId turns =>
      exact commit_rel Kept.refl fun t ht => acquireDirectClaim_kept ht
    | _ => cases hc
  · exact (step_quiet s a (by simpa using hc) hd).kept

end LlmGateway.WakeLedger
