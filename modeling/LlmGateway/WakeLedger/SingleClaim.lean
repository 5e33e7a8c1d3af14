import LlmGateway.WakeLedger.Change

/-!
# One wake at a time

A mailbox is to have at most one claimed wake in a thread. The selection of `claim_due_wakes` sees to it: it
lists no row whose mailbox has a live claim in the thread, and it first folds the claims that are not
live. Three transactions get around it.

* `record_wake_result` writes the outcome it is given. The outcome `claimed`, recorded under a wake that has
  expired, brings the wake back beside the one that was claimed since.
* `claim_due_wakes` takes up the rows of all stage managers when `normalize_bus_address` names the group's
  agent one, while the selection goes by `lower(trim(agent))`. For an agent that only the first one
  recognises, the live claim of the stage managers is not seen.
* The direct claim of the Orion delivery owner does not look for a live claim at all.

`claimsApart` is the condition, on the store before the transaction and its arguments, that rules these
out; under it the ledger has at most one wake per mailbox and thread in every reachable state.
-/

namespace LlmGateway.WakeLedger

variable {R : Registry}

/-- At most one wake id is claimed for a mailbox in a thread. -/
def SingleClaim (t : Table Row) : Prop :=
  ∀ i r j r', t.get? i = some r → t.get? j = some r' → r.state = .claimed → r'.state = .claimed →
    r.threadId = r'.threadId → sameMailbox r.agent r'.agent = true → r.wakeId = r'.wakeId

/-- A claim has a time. -/
def Stamped (t : Table Row) : Prop :=
  ∀ id r, t.get? id = some r → r.state.isClaim = true → r.claimedAt.isSome = true

/-- Every claimed row was claimed after the cutoff. -/
def Live (cutoff : ℤ) (t : Table Row) : Prop :=
  ∀ id r, t.get? id = some r → r.state = .claimed → r.claimedAt.any (cutoff < ·) = true

theorem sameMailbox_iff {a b : String} :
    sameMailbox a b = true ↔ a = b ∨ (isStageManager a = true ∧ isStageManager b = true) := by
  simp [sameMailbox]

theorem sameMailbox_comm {a b : String} (h : sameMailbox a b = true) : sameMailbox b a = true := by
  rw [sameMailbox_iff] at h ⊢
  tauto

/-! ## Quiet changes -/

variable {t t' : Table Row} {s : Store} {agent threadId wakeId : String}

theorem QuietChange.claimed (h : QuietChange t t') {id : ℕ} {r' : Row}
    (hr' : t'.get? id = some r') (hclaim : r'.state.isClaim = true) :
    ∃ r, t.get? id = some r ∧ Quiet r r' := by
  obtain hrow | ⟨-, hun⟩ := h.row id r' hr'
  · exact hrow
  · rw [hun] at hclaim
    cases hclaim

theorem isClaim_of_claimed {r : Row} (h : r.state = .claimed) : r.state.isClaim = true := by
  rw [h]
  rfl

theorem SingleClaim.quiet (h : SingleClaim t) (hq : QuietChange t t') :
    SingleClaim t' := by
  intro i r j r' hr hr' hc hc' hthread hmail
  obtain ⟨r₀, hr₀, hrow⟩ := hq.claimed hr (isClaim_of_claimed hc)
  obtain ⟨r₀', hr₀', hrow'⟩ := hq.claimed hr' (isClaim_of_claimed hc')
  rw [(hrow.claim (isClaim_of_claimed hc)).2.1, (hrow'.claim (isClaim_of_claimed hc')).2.1]
  refine h i r₀ j r₀' hr₀ hr₀' (hrow.claimed hc) (hrow'.claimed hc') ?_ ?_
  · rw [← hrow.threadId, ← hrow'.threadId, hthread]
  · rwa [← hrow.agent, ← hrow'.agent]

theorem Stamped.quiet (h : Stamped t) (hq : QuietChange t t') : Stamped t' := by
  intro id r' hr' hclaim
  obtain ⟨r, hr, hrow⟩ := hq.claimed hr' hclaim
  obtain ⟨hclaim, -, hat⟩ := hrow.claim hclaim
  rw [hat]
  exact h id r hr hclaim

theorem Live.quiet {cutoff : ℤ} (h : Live cutoff t) (hq : QuietChange t t') :
    Live cutoff t' := by
  intro id r' hr' hclaim
  obtain ⟨r, hr, hrow⟩ := hq.claimed hr' (isClaim_of_claimed hclaim)
  rw [(hrow.claim (isClaim_of_claimed hclaim)).2.2]
  exact h id r hr (hrow.claimed hclaim)

theorem foldClaims_live (h : Stamped s.ledger) (cutoff : ℤ) :
    Live cutoff (foldClaims s cutoff).ledger := by
  intro id r' hr' hclaim
  obtain ⟨r, hr, ⟨-, rfl⟩ | ⟨hp, rfl⟩⟩ := Table.update_inv hr'
  · cases hclaim
  · obtain ⟨time, htime⟩ := Option.isSome_iff_exists.1 (h id r' hr (isClaim_of_claimed hclaim))
    simp only [hclaim, htime, beq_self_eq_true, Bool.true_and, Option.any_some, decide_eq_false_iff_not,
      not_le] at hp
    simpa [htime] using hp

/-! ## The condition -/

/-- No wake other than `wakeId` is claimed for the mailbox of `agent` in the thread. -/
def noOtherClaim (s : Store) (agent threadId wakeId : String) : Bool :=
  (s.ledger.select fun _ c => c.state == .claimed && c.threadId == threadId &&
    sameMailbox c.agent agent).all fun e => e.2.wakeId == some wakeId

/-- A pending row whose agent the registry names a stage manager, in a spelling that the queries do not
recognise, is in no thread where a stage manager's wake is claimed. -/
def noStrayStageManager (R : Registry) (s : Store) : Bool :=
  (s.ledger.select fun _ p => p.state == .pending && R.namesStageManager p.agent &&
    !isStageManager p.agent).all fun e =>
      (s.ledger.select fun _ c => c.state == .claimed && isStageManager c.agent &&
        c.threadId == e.2.threadId).isEmpty

/-- The condition on a transaction, in the store before it. -/
def claimsApart (R : Registry) (s : Store) : Action → Bool
  | .claimDueWakes _ => noStrayStageManager R s
  | .recordWakeResult _ wakeId outcome _ _ _ =>
    outcome != "claimed" ||
      (s.ledger.select fun _ r => r.wakeId == some wakeId && r.state == .unknown).all fun e =>
        noOtherClaim s e.2.agent e.2.threadId wakeId
  | .acquireDirectClaim _ wakeId agent threadId _ =>
    noOtherClaim s (R.normalizeBusAddress agent) threadId wakeId
  | _ => true

theorem noOtherClaim_iff :
    noOtherClaim s agent threadId wakeId = true ↔
      ∀ j c, s.ledger.get? j = some c → c.state = .claimed → c.threadId = threadId →
        sameMailbox c.agent agent = true → c.wakeId = some wakeId := by
  simp only [noOtherClaim, List.all_eq_true, Table.mem_select, Bool.and_eq_true, beq_iff_eq, Prod.forall]
  constructor
  · intro h j c hc hstate hthread hmail
    exact h j c ⟨hc, ⟨hstate, hthread⟩, hmail⟩
  · rintro h j c ⟨hc, ⟨hstate, hthread⟩, hmail⟩
    exact h j c hc hstate hthread hmail

theorem noStrayStageManager_apply (h : noStrayStageManager R s = true) {i j : ℕ} {p c : Row}
    (hp : s.ledger.get? i = some p) (hpend : p.state = .pending)
    (hname : R.namesStageManager p.agent = true) (hc : s.ledger.get? j = some c)
    (hclaim : c.state = .claimed) (hsm : isStageManager c.agent = true) (hthread : c.threadId = p.threadId) :
    isStageManager p.agent = true := by
  by_contra hstray
  simp only [noStrayStageManager, List.all_eq_true, Table.mem_select] at h
  have hempty := h (i, p) ⟨hp, by simp [hpend, hname, hstray]⟩
  rw [List.isEmpty_iff] at hempty
  have hmem : (j, c) ∈ s.ledger.select fun _ c => c.state == .claimed && isStageManager c.agent &&
      c.threadId == p.threadId := Table.mem_select.2 ⟨hc, by simp [hclaim, hsm, hthread]⟩
  rw [hempty] at hmem
  cases hmem

/-! ## The claim -/

section

variable {c : ClaimCall} {s : Store} {g : Group}

theorem exists_due_of_firstGroup (h : firstGroup s c.stamp c.ttlBefore c.limit = some g) :
    ∃ id p, s.ledger.get? id = some p ∧ due s c.stamp c.ttlBefore p = true ∧ p.group = g := by
  unfold firstGroup at h
  split at h
  · cases h
  · have hmem := List.argmin_mem h
    rw [dueGroups, List.mem_dedup, List.mem_map] at hmem
    obtain ⟨⟨id, p⟩, hp, hg⟩ := hmem
    obtain ⟨hget, hdue⟩ := Table.mem_select.1 hp
    exact ⟨id, p, hget, hdue, hg⟩

theorem not_claimed_of_due {p : Row} (h : due s c.stamp c.ttlBefore p = true)
    (hlive : Live c.ttlBefore s.ledger) {j : ℕ} {q : Row} (hq : s.ledger.get? j = some q)
    (hmail : sameMailbox q.agent p.agent = true) (hthread : q.threadId = p.threadId) :
    q.state ≠ .claimed := by
  intro hclaim
  simp only [due, Bool.and_eq_true, List.isEmpty_iff] at h
  have hmem : (j, q) ∈ s.ledger.select fun _ q => claimBlocks c.ttlBefore p q := by
    refine Table.mem_select.2 ⟨hq, ?_⟩
    simp only [claimBlocks, Bool.and_eq_true, beq_iff_eq]
    exact ⟨⟨⟨hmail, hthread⟩, hclaim⟩, hlive j q hq hclaim⟩
  rw [h.2] at hmem
  cases hmem

theorem not_claimed_of_joins (hfirst : firstGroup s c.stamp c.ttlBefore c.limit = some g)
    (hlive : Live c.ttlBefore s.ledger) {r q : Row} {j : ℕ} (hjoin : joins R g r = true)
    (hq : s.ledger.get? j = some q) (hmail : sameMailbox r.agent q.agent = true)
    (hthread : r.threadId = q.threadId)
    (hstray : ∀ id p, s.ledger.get? id = some p → p.state = .pending → p.threadId = q.threadId →
      R.namesStageManager p.agent = true → q.state = .claimed → isStageManager q.agent = true →
      isStageManager p.agent = true) :
    q.state ≠ .claimed := by
  intro hclaim
  obtain ⟨id, p, hp, hdue, hg⟩ := exists_due_of_firstGroup hfirst
  obtain ⟨hagent, hthread'⟩ : p.agent = g.1 ∧ p.threadId = g.2 := by
    rw [← hg]
    exact ⟨rfl, rfl⟩
  simp only [joins, Bool.and_eq_true, Bool.or_eq_true, beq_iff_eq] at hjoin
  obtain ⟨hr, hsame⟩ := hjoin
  have hpq : q.threadId = p.threadId := by rw [← hthread, hr, hthread']
  refine not_claimed_of_due hdue hlive hq ?_ hpq hclaim
  obtain hra | ⟨hname, hsm⟩ := hsame
  · rw [hagent, ← hra]
    exact sameMailbox_comm hmail
  · -- The stage managers: the claimed row is one of them, and by the condition so is the due row.
    have hqsm : isStageManager q.agent = true := by
      obtain heq | ⟨-, hq⟩ := sameMailbox_iff.1 hmail
      · rwa [← heq]
      · exact hq
    have hpsm := hstray id p hp (due_pending hdue) hpq.symm (by rwa [hagent]) hclaim hqsm
    exact sameMailbox_iff.2 (.inr ⟨hqsm, hpsm⟩)

end

theorem Stamped.claimRows {c : ClaimCall} (h : Stamped s.ledger) (ids : List ℕ) :
    Stamped (claimRows c s ids).ledger := by
  intro id r hr hclaim
  obtain ⟨r₀, hr₀, ⟨-, rfl⟩ | ⟨-, rfl⟩⟩ := Table.update_inv hr
  · rfl
  · exact h id r hr₀ hclaim

/-- **A claim is the only one of its mailbox and thread.** -/
theorem SingleClaim.claimDueWakes (c : ClaimCall) (h : SingleClaim s.ledger)
    (hstamped : Stamped s.ledger) (hstray : noStrayStageManager R s = true) :
    SingleClaim (claimDueWakes R c s).1.ledger := by
  obtain ⟨s₁, hs₁, ⟨ht, -⟩ | ⟨g, hfirst, ht⟩⟩ := claimDueWakes_cases R c s
  · rw [ht]
    exact (h.quiet (foldClaims_quiet s _)).quiet hs₁.quiet
  rw [ht]
  have hlive : Live c.ttlBefore s₁.ledger := (foldClaims_live hstamped _).quiet hs₁.quiet
  have hquiet : QuietChange s.ledger s₁.ledger := (foldClaims_quiet s _).trans hs₁.quiet
  have hskip := skipRows_quiet R c s₁ g
  have hsingle : SingleClaim (skipRows R c s₁ g).ledger := (h.quiet hquiet).quiet hskip
  -- A row claimed now and a row claimed before are in different mailboxes or threads.
  have hapart : ∀ i j r q, (skipRows R c s₁ g).ledger.get? i = some r →
      ((claimableRows R c s₁ g).map Prod.fst).contains i = true →
      (skipRows R c s₁ g).ledger.get? j = some q → q.state = .claimed → r.threadId = q.threadId →
      sameMailbox r.agent q.agent = false := by
    intro i j r q hr hi hq hclaim hthread
    by_contra hmail
    rw [Bool.not_eq_false] at hmail
    have hjoin := (mem_undeferredRows.1
      (mem_claimableRows.1 (pending_of_contains_claimable hi hr).1).1).2.1
    obtain ⟨q₁, hq₁, hrow⟩ := hskip.claimed hq (isClaim_of_claimed hclaim)
    refine not_claimed_of_joins hfirst hlive hjoin hq₁ (by rwa [← hrow.agent])
      (by rwa [← hrow.threadId]) ?_ (hrow.claimed hclaim)
    intro id p hp hpend hpq hname hclaim₁ hsm
    obtain ⟨q₀, hq₀, hrow₀⟩ := hquiet.claimed hq₁ (isClaim_of_claimed hclaim₁)
    have hp₀ := foldClaims_pendingKept s _ id p (hs₁.pending id p hp hpend) hpend
    refine noStrayStageManager_apply hstray hp₀ hpend hname hq₀ (hrow₀.claimed hclaim₁) ?_ ?_
    · rwa [← hrow₀.agent]
    · rw [← hrow₀.threadId, hpq]
  intro i r j r' hr hr' hc hc' hthread hmail
  obtain ⟨r₀, hr₀, ⟨hi, rfl⟩ | ⟨hi, rfl⟩⟩ := Table.update_inv hr
  · obtain ⟨r₀', hr₀', ⟨hj, rfl⟩ | ⟨hj, rfl⟩⟩ := Table.update_inv hr'
    · rfl
    · have := hapart i j r₀ r' hr₀ hi hr₀' hc' hthread
      rw [show sameMailbox r₀.agent r'.agent = true from hmail] at this
      cases this
  · obtain ⟨r₀', hr₀', ⟨hj, rfl⟩ | ⟨hj, rfl⟩⟩ := Table.update_inv hr'
    · have := hapart j i r₀' r hr₀' hj hr₀ hc hthread.symm
      rw [show sameMailbox r₀'.agent r.agent = true from sameMailbox_comm hmail] at this
      cases this
    · exact hsingle i r j r' hr₀ hr₀' hc hc' hthread hmail

theorem Stamped.claimDueWakes (c : ClaimCall) (h : Stamped s.ledger) :
    Stamped (claimDueWakes R c s).1.ledger := by
  obtain ⟨s₁, hs₁, ⟨ht, -⟩ | ⟨g, -, ht⟩⟩ := claimDueWakes_cases R c s
  · rw [ht]
    exact (h.quiet (foldClaims_quiet s _)).quiet hs₁.quiet
  · rw [ht]
    exact (((h.quiet (foldClaims_quiet s _)).quiet hs₁.quiet).quiet
      (skipRows_quiet R c s₁ g)).claimRows _

/-! ## The outcome `claimed` -/

section

variable {s t : Store} {stamp : ℤ} {wakeId outcome : String} {reason : Option String} {d : Delivery}
  {rule : Option String}

theorem Stamped.recordWakeResult (h : Stamped s.ledger)
    (ht : recordWakeResult s stamp wakeId outcome reason d rule = .ok t) : Stamped t.ledger := by
  obtain ⟨state, finished, merged, -, ht⟩ := recordWakeResult_inv ht
  rw [ht]
  intro id r hr hclaim
  obtain ⟨r₀, hr₀, ⟨hp, rfl⟩ | ⟨-, rfl⟩⟩ := Table.update_inv hr
  · exact h id r₀ hr₀ (isClaim_of_mem_eligible hp hr₀).2
  · exact h id r hr₀ hclaim

theorem SingleClaim.recordWakeResult (h : SingleClaim s.ledger)
    (ht : recordWakeResult s stamp wakeId outcome reason d rule = .ok t)
    (hother : ∀ i r, s.ledger.get? i = some r → r.wakeId = some wakeId → r.state = .unknown →
      noOtherClaim s r.agent r.threadId wakeId = true) : SingleClaim t.ledger := by
  obtain ⟨state, finished, merged, -, ht⟩ := recordWakeResult_inv ht
  rw [ht]
  -- A row of the wake and a row claimed before have the same wake id.
  have hsame : ∀ i r j q, s.ledger.get? i = some r → s.ledger.get? j = some q →
      r.wakeId = some wakeId → r.state.isClaim = true → q.state = .claimed → r.threadId = q.threadId →
      sameMailbox r.agent q.agent = true → q.wakeId = some wakeId := by
    intro i r j q hr hq hwake hclaim hqc hthread hmail
    cases hstate : r.state with
    | claimed => rw [← h i r j q hr hq hstate hqc hthread hmail, hwake]
    | unknown =>
      exact noOtherClaim_iff.1 (hother i r hr hwake hstate) j q hq hqc hthread.symm
        (sameMailbox_comm hmail)
    | pending | delivered | refused | skipped => simp [hstate, RowState.isClaim] at hclaim
  intro i r j r' hr hr' hc hc' hthread hmail
  obtain ⟨r₀, hr₀, ⟨hi, rfl⟩ | ⟨-, rfl⟩⟩ := Table.update_inv hr
  · obtain ⟨hwake, hclaim⟩ := isClaim_of_mem_eligible hi hr₀
    obtain ⟨r₀', hr₀', ⟨hj, rfl⟩ | ⟨-, rfl⟩⟩ := Table.update_inv hr'
    · exact hwake.trans (isClaim_of_mem_eligible hj hr₀').1.symm
    · exact hwake.trans (hsame i r₀ j r' hr₀ hr₀' hwake hclaim hc' hthread hmail).symm
  · obtain ⟨r₀', hr₀', ⟨hj, rfl⟩ | ⟨-, rfl⟩⟩ := Table.update_inv hr'
    · obtain ⟨hwake, hclaim⟩ := isClaim_of_mem_eligible hj hr₀'
      exact (hsame j r₀' i r hr₀' hr₀ hwake hclaim hc hthread.symm (sameMailbox_comm hmail)).trans
        hwake.symm
    · exact h i r j r' hr₀ hr₀' hc hc' hthread hmail

end

/-! ## The direct claim -/

/-- What the direct claim needs of the ledger, and keeps. -/
structure Reserved (s : Store) (agent threadId wakeId : String) : Prop where
  single : SingleClaim s.ledger
  stamped : Stamped s.ledger
  free : noOtherClaim s agent threadId wakeId = true

theorem Reserved.quiet {s' : Store} (h : Reserved s agent threadId wakeId) (hq : QuietChange s.ledger s'.ledger) :
    Reserved s' agent threadId wakeId where
  single := h.single.quiet hq
  stamped := h.stamped.quiet hq
  free := by
    refine noOtherClaim_iff.2 fun j c hc hclaim hthread hmail => ?_
    obtain ⟨c₀, hc₀, hrow⟩ := hq.claimed hc (isClaim_of_claimed hclaim)
    rw [(hrow.claim (isClaim_of_claimed hclaim)).2.1]
    exact noOtherClaim_iff.1 h.free j c₀ hc₀ (hrow.claimed hclaim) (by rw [← hrow.threadId, hthread])
      (by rwa [← hrow.agent])

theorem Reserved.claim {p : Row → Bool} (h : Reserved s agent threadId wakeId) (stamp : ℤ)
    (hp : ∀ r, p r = true → r.agent = agent ∧ r.threadId = threadId) :
    Reserved { s with ledger := s.ledger.update (fun _ r => p r) (Row.claim wakeId stamp) } agent
      threadId wakeId where
  stamped id r hr hclaim := by
    obtain ⟨r₀, hr₀, ⟨-, rfl⟩ | ⟨-, rfl⟩⟩ := Table.update_inv hr
    · rfl
    · exact h.stamped id r hr₀ hclaim
  free := by
    refine noOtherClaim_iff.2 fun j c hc hclaim hthread hmail => ?_
    obtain ⟨c₀, hc₀, ⟨-, rfl⟩ | ⟨-, rfl⟩⟩ := Table.update_inv hc
    · rfl
    · exact noOtherClaim_iff.1 h.free j c hc₀ hclaim hthread hmail
  single := by
    have hfree := noOtherClaim_iff.1 h.free
    intro i r j r' hr hr' hc hc' hthread hmail
    obtain ⟨r₀, hr₀, ⟨hi, rfl⟩ | ⟨-, rfl⟩⟩ := Table.update_inv hr
    · obtain ⟨hagent, hth⟩ := hp r₀ hi
      obtain ⟨r₀', hr₀', ⟨-, rfl⟩ | ⟨-, rfl⟩⟩ := Table.update_inv hr'
      · rfl
      · refine (hfree j r' hr₀' hc' (hthread.symm.trans hth) ?_).symm
        rw [← hagent]
        exact sameMailbox_comm hmail
    · obtain ⟨r₀', hr₀', ⟨hj, rfl⟩ | ⟨-, rfl⟩⟩ := Table.update_inv hr'
      · obtain ⟨hagent, hth⟩ := hp r₀' hj
        refine hfree i r hr₀ hc (hthread.trans hth) ?_
        rw [← hagent]
        exact hmail
      · exact h.single i r j r' hr₀ hr₀' hc hc' hthread hmail

theorem Reserved.acquireDirectClaim {stamp : ℤ} {turns : List (ℕ × ℤ)}
    {t : Store} (h : Reserved s agent threadId wakeId)
    (ht : acquireDirectClaim s stamp wakeId agent threadId turns = .ok t) :
    Reserved t agent threadId wakeId := by
  induction turns generalizing s with
  | nil =>
    cases ht
    exact h
  | cons turn turns ih =>
    obtain ⟨turnId, turnNumber⟩ := turn
    obtain rfl | ⟨ledger, p, hins, hp, hrest⟩ := acquireDirectClaim_cons ht
    · exact h
    · have hfiled : Reserved { s with ledger := ledger } agent threadId wakeId :=
        h.quiet (insertOrIgnore_quiet (Item.row_unclaimed _ _) hins)
      have hs' := hfiled.claim stamp fun r hr => (hp r hr).2
      obtain rfl | hrest := hrest
      · exact hs'
      · exact ih hs' hrest

/-! ## Runs -/

theorem SingleClaim.delete (h : SingleClaim t) (p : ℕ → Row → Bool) :
    SingleClaim (t.delete p) := by
  intro i r j r' hr hr'
  rw [Table.get?_delete, Option.filter_eq_some_iff] at hr hr'
  exact h i r j r' hr.1 hr'.1

theorem Stamped.delete (h : Stamped t) (p : ℕ → Row → Bool) :
    Stamped (t.delete p) := by
  intro id r hr
  rw [Table.get?_delete, Option.filter_eq_some_iff] at hr
  exact h id r hr.1

/-- A transaction that meets the condition keeps the claims apart. -/
theorem step_singleClaim {a : Action} (h : SingleClaim s.ledger) (hst : Stamped s.ledger)
    (ha : claimsApart R s a = true) :
    SingleClaim (step R s a).ledger ∧ Stamped (step R s a).ledger := by
  by_cases hd : a.deletes = true
  · cases a with
    | deleteTurn id => exact ⟨h.delete _, hst.delete _⟩
    | _ => cases hd
  by_cases hc : a.claims = true
  · cases a with
    | claimDueWakes c => exact ⟨h.claimDueWakes c hst ha, hst.claimDueWakes c⟩
    | recordWakeResult stamp wakeId outcome reason d rule =>
      cases hres : recordWakeResult s stamp wakeId outcome reason d rule with
      | error e =>
        rw [step, hres]
        exact ⟨h, hst⟩
      | ok t =>
        rw [step, hres]
        have hout : outcome = "claimed" := by simpa [Action.claims] using hc
        refine ⟨h.recordWakeResult hres fun i r hr hwake hunknown => ?_, hst.recordWakeResult hres⟩
        simp only [claimsApart, hout, bne_self_eq_false, Bool.false_or, List.all_eq_true] at ha
        exact ha (i, r) (Table.mem_select.2 ⟨hr, by simp [hwake, hunknown]⟩)
    | acquireDirectClaim stamp wakeId agent threadId turns =>
      cases hres : acquireDirectClaim s stamp wakeId (R.normalizeBusAddress agent) threadId turns with
      | error e =>
        rw [step, hres]
        exact ⟨h, hst⟩
      | ok t =>
        rw [step, hres]
        have hres := Reserved.acquireDirectClaim ⟨h, hst, ha⟩ hres
        exact ⟨hres.single, hres.stamped⟩
    | _ => cases hc
  · have hq := step_quiet (R := R) s a (by simpa using hc) (by simpa using hd)
    exact ⟨h.quiet hq, hst.quiet hq⟩

/-- **One wake at a time**: when every transaction of a run meets `claimsApart`, then in every state
reached at most one wake id is claimed for a mailbox in a thread. -/
theorem singleClaim_of_claimsApart {s : Store}
    (h : ((system R).restrict fun s a => claimsApart R s a = true).Reachable s) :
    SingleClaim s.ledger := by
  refine (h.invariant (I := fun s => SingleClaim s.ledger ∧ Stamped s.ledger) ?_ ?_).1
  · rintro s rfl
    exact ⟨fun i r j r' hr => by simp [Store.empty] at hr, fun id r hr => by simp [Store.empty] at hr⟩
  · rintro s a t ⟨hsingle, hst⟩ ⟨ha, hstep⟩
    obtain rfl : step R s a = t := Option.some.inj hstep
    exact step_singleClaim hsingle hst ha

/-- A wake expires, its mailbox is claimed again, and the first wake is refused late; another thread of
the same agent is claimed meanwhile. -/
def lateRefusal : List Action :=
  [.getCursor "d", .insertTurn (requestTurn "t" 1), .insertTurn (requestTurn "t" 2),
    .insertTurn (requestTurn "u" 1), .advanceScan 990 "d" 0 1 [⟨"orion", "t", 1, 1, none⟩],
    .claimDueWakes (claimAt 1000 "w1"), .advanceScan 1500 "d" 1 2 [⟨"orion", "t", 2, 2, none⟩],
    .claimDueWakes (claimAt 1600 "w2"), .recordWakeResult 1601 "w1" "refused" none ⟨none, none, none⟩ none,
    .advanceScan 1602 "d" 2 3 [⟨"orion", "u", 3, 1, none⟩], .claimDueWakes (claimAt 1603 "w3")]

theorem lateRefusal_singleClaim :
    ∃ s, System.exec (System.guarded (fun s a => some (step Registry.plain s a))
        fun s a => claimsApart Registry.plain s a = true) .empty lateRefusal = some s ∧
      SingleClaim s.ledger := by
  have hsome : (System.exec (System.guarded (fun s a => some (step Registry.plain s a))
      fun s a => claimsApart Registry.plain s a = true) .empty lateRefusal).isSome = true := by
    with_unfolding_all decide
  obtain ⟨s, hs⟩ := Option.isSome_iff_exists.1 hsome
  exact ⟨s, hs, singleClaim_of_claimsApart (System.reachable_of_exec_guarded rfl hs)⟩

/-! ## Two wakes at once -/

/-- The rows `i` and `j` are claimed under different wake ids, for one mailbox in one thread. -/
def claimedTwice (t : Table Row) (i j : ℕ) : Bool :=
  (t.get? i).any fun r => (t.get? j).any fun r' =>
    r.state == .claimed && r'.state == .claimed && r.threadId == r'.threadId &&
      sameMailbox r.agent r'.agent && r.wakeId != r'.wakeId

theorem not_singleClaim {i j : ℕ} (h : claimedTwice t i j = true) : ¬ SingleClaim t := by
  intro hsingle
  rw [claimedTwice, Option.any_eq_true] at h
  obtain ⟨r, hr, h⟩ := h
  rw [Option.any_eq_true] at h
  obtain ⟨r', hr', h⟩ := h
  simp only [Bool.and_eq_true, beq_iff_eq, bne_iff_ne] at h
  obtain ⟨⟨⟨⟨hc, hc'⟩, hthread⟩, hmail⟩, hne⟩ := h
  exact hne (hsingle i r j r' hr hr' hc hc' hthread hmail)

/-- The first wake expires, a second one is claimed, and the outcome `claimed` is recorded for the
first. -/
def recordedAgain : List Action :=
  [.getCursor "d", .insertTurn (requestTurn "t" 1), .insertTurn (requestTurn "t" 2),
    .advanceScan 990 "d" 0 1 [⟨"orion", "t", 1, 1, none⟩], .claimDueWakes (claimAt 1000 "w1"),
    .advanceScan 1500 "d" 1 2 [⟨"orion", "t", 2, 2, none⟩], .claimDueWakes (claimAt 1600 "w2"),
    .recordWakeResult 1601 "w1" "claimed" none ⟨none, none, none⟩ none]

/-- A stage manager's wake is claimed; the next turns are for the stage manager and for the same address
with a line break after it. -/
def strayAddress : List Action :=
  [.getCursor "d", .insertTurn (requestTurn "t" 1), .insertTurn (requestTurn "t" 2),
    .insertTurn (requestTurn "t" 3), .advanceScan 990 "d" 0 1 [⟨"stage-manager", "t", 1, 1, none⟩],
    .claimDueWakes (claimAt 1000 "w1"),
    .advanceScan 1005 "d" 1 3 [⟨"stage-manager", "t", 2, 2, none⟩, ⟨"stage-manager\n", "t", 3, 3, none⟩],
    .claimDueWakes (claimAt 1010 "w2")]

/-- While a wake is claimed, the delivery owner claims the next turn directly. -/
def claimedDirectly : List Action :=
  [.getCursor "d", .insertTurn (requestTurn "t" 1), .insertTurn (requestTurn "t" 2),
    .advanceScan 990 "d" 0 2 [⟨"orion", "t", 1, 1, none⟩], .claimDueWakes (claimAt 1000 "w1"),
    .acquireDirectClaim 1001 "w2" "orion" "t" [(2, 2)]]

theorem twoWakesClaimed :
    ((system Registry.plain).Reachable (runFrom Registry.plain .empty recordedAgain) ∧
      ¬ SingleClaim (runFrom Registry.plain .empty recordedAgain).ledger) ∧
    ((system Registry.plain).Reachable (runFrom Registry.plain .empty strayAddress) ∧
      ¬ SingleClaim (runFrom Registry.plain .empty strayAddress).ledger) ∧
    (system Registry.plain).Reachable (runFrom Registry.plain .empty claimedDirectly) ∧
      ¬ SingleClaim (runFrom Registry.plain .empty claimedDirectly).ledger := by
  refine ⟨⟨reachable_runFrom _, ?_⟩, ⟨reachable_runFrom _, ?_⟩, reachable_runFrom _, ?_⟩
  all_goals exact not_singleClaim (i := 1) (j := 2) (by with_unfolding_all decide)

end LlmGateway.WakeLedger
