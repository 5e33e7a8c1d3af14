import Mathlib.Data.Finset.Card
import Mathlib.Data.List.TakeWhile
import LlmGateway.WakeLedger.Change

/-!
# Head-of-line blocking in the claim

`claim_due_wakes` looks at one group after the other, up to thirty-two times. It takes the first due group
in its order, and when nothing of the group can be claimed it goes on with `continue`; but the next
selection starts from the same table. A group whose rows were all skipped is not selected again. A group
that Orion coalescing holds back is, thirty-two times, and so is a group of which only rows that composer
deferral holds back are left: whatever comes after it is not looked at.

`claimLoop_isSome_iff` says exactly when the loop claims, from the table alone (`Unobstructed`): some group
has a claimable row, no group before it is held by coalescing or has a deferred row before it, and the
groups before it are drained in fewer rounds than the loop has. The induction is on the rounds; one round
that drains a group takes `Unobstructed` for `n + 1` rounds to `Unobstructed` for `n`
(`unobstructed_skipRows`).
-/

namespace LlmGateway.WakeLedger

variable (R : Registry) (c : ClaimCall)

/-! ## The condition -/

/-- The place of a group in the order of the claim. -/
def place (s : Store) (g : Group) : WithTop (WithBot ℤ) ×ₗ WithTop ℕ :=
  claimOrder (dueOf s c.stamp c.ttlBefore g)

/-- The due rows of a group that composer deferral holds back. -/
def deferredOf (s : Store) (g : Group) : List (ℕ × Row) :=
  (dueOf s c.stamp c.ttlBefore g).filter fun e => composerDeferBlocksClaim e.2

/-- The place of a group when only its deferred rows are left. -/
def deferredPlace (s : Store) (g : Group) : WithTop (WithBot ℤ) ×ₗ WithTop ℕ :=
  claimOrder (deferredOf c s g)

/-- Orion coalescing holds the group back. -/
def coalesces (s : Store) (g : Group) : Bool := orionPendingCoalesceBlocks R s g (c.stamp - 30)

/-- The group has a row to claim. -/
def holds (s : Store) (g : Group) : Bool := !coalesces R c s g && !(claimableRows R c s g).isEmpty

/-- A claim of `g` takes up the rows of `g'`. -/
def covers (g g' : Group) : Bool :=
  g'.2 == g.2 && (g'.1 == g.1 || (R.namesStageManager g.1 && isStageManager g'.1))

/-- The groups before `g`, but for those that are taken up with an earlier one. -/
def roundsBefore (s : Store) (g : Group) : Finset Group :=
  (dueGroups s c.stamp c.ttlBefore).toFinset.filter fun g' =>
    place c s g' < place c s g ∧
      ∀ g'' ∈ dueGroups s c.stamp c.ttlBefore, place c s g'' < place c s g' → covers R g'' g' = false

/-- Some group has a row to claim, every group before it gets out of the way, and `n` rounds are enough
to come to it. -/
def Unobstructed (s : Store) (n : ℕ) : Prop :=
  ∃ g ∈ dueGroups s c.stamp c.ttlBefore, holds R c s g = true ∧
    (∀ g' ∈ dueGroups s c.stamp c.ttlBefore, place c s g' < place c s g →
      coalesces R c s g' = false ∧ place c s g < deferredPlace c s g') ∧
    (roundsBefore R c s g).card < n

variable {R c} {s : Store} {g g' g'' : Group}

/-! ## Groups -/

theorem mem_dueGroups : g ∈ dueGroups s c.stamp c.ttlBefore ↔ dueOf s c.stamp c.ttlBefore g ≠ [] := by
  rw [dueGroups, List.mem_dedup, List.mem_map, dueOf, Ne, List.filter_eq_nil_iff]
  simp only [not_forall, decide_eq_true_eq, not_not]
  exact ⟨fun ⟨e, he, hg⟩ => ⟨e, he, hg⟩, fun ⟨e, he, hg⟩ => ⟨e, he, hg⟩⟩

theorem mem_dueOf {e : ℕ × Row} :
    e ∈ dueOf s c.stamp c.ttlBefore g ↔
      (s.ledger.get? e.1 = some e.2 ∧ due s c.stamp c.ttlBefore e.2 = true) ∧ e.2.group = g := by
  rw [dueOf, List.mem_filter, dueRows, Table.mem_select, decide_eq_true_eq]

theorem place_injective (hg : g ∈ dueGroups s c.stamp c.ttlBefore)
    (h : place c s g = place c s g') : g = g' := by
  have hids : ((dueOf s c.stamp c.ttlBefore g).map Prod.fst).minimum =
      ((dueOf s c.stamp c.ttlBefore g').map Prod.fst).minimum := congrArg (fun x => (ofLex x).2) h
  have hne : (dueOf s c.stamp c.ttlBefore g).map Prod.fst ≠ [] := by
    rw [Ne, List.map_eq_nil_iff]
    exact mem_dueGroups.1 hg
  obtain ⟨id, hid⟩ := WithTop.ne_top_iff_exists.1 (mt List.minimum_eq_top.1 hne)
  have hmem := List.minimum_mem hid.symm
  have hmem' := List.minimum_mem (hid.trans hids).symm
  rw [List.mem_map] at hmem hmem'
  obtain ⟨e, he, rfl⟩ := hmem
  obtain ⟨e', he', hee⟩ := hmem'
  obtain ⟨⟨hr, -⟩, rfl⟩ := mem_dueOf.1 he
  obtain ⟨⟨hr', -⟩, rfl⟩ := mem_dueOf.1 he'
  rw [hee, hr] at hr'
  rw [Option.some.inj hr']

theorem covers_refl (R : Registry) (g : Group) : covers R g g = true := by simp [covers]

theorem covers_trans (h : covers R g g' = true) (h' : covers R g' g'' = true) :
    covers R g g'' = true := by
  simp only [covers, Bool.and_eq_true, Bool.or_eq_true, beq_iff_eq] at h h' ⊢
  obtain ⟨hthread, hagent⟩ := h
  obtain ⟨hthread', hagent'⟩ := h'
  refine ⟨hthread'.trans hthread, ?_⟩
  obtain heq | ⟨hname, hsm⟩ := hagent
  · rw [← heq]
    exact hagent'
  · obtain heq' | ⟨-, hsm'⟩ := hagent'
    · rw [heq']
      exact .inr ⟨hname, hsm⟩
    · exact .inr ⟨hname, hsm'⟩

theorem not_covers_of_covers (h : covers R g' g'' = true) (hnot : covers R g g'' = false) :
    covers R g g' = false := by
  by_contra hcov
  rw [Bool.not_eq_false] at hcov
  rw [covers_trans hcov h] at hnot
  cases hnot

theorem joins_eq_covers (r : Row) : joins R g r = covers R g r.group := rfl

theorem mem_claimableRows_of_covers (h : covers R g g' = true) {e : ℕ × Row}
    (he : e ∈ claimableRows R c s g') : e ∈ claimableRows R c s g := by
  obtain ⟨hund, hskip⟩ := mem_claimableRows.1 he
  obtain ⟨hr, hjoin, hrest⟩ := mem_undeferredRows.1 hund
  rw [joins_eq_covers] at hjoin
  exact mem_claimableRows.2 ⟨mem_undeferredRows.2 ⟨hr, covers_trans h hjoin, hrest⟩, hskip⟩

theorem claimOrder_le_filter (l : List (ℕ × Row)) (p : ℕ × Row → Bool) :
    claimOrder l ≤ claimOrder (l.filter p) := by
  refine Prod.Lex.toLex_mono ⟨?_, ?_⟩
  all_goals
    refine List.le_minimum_of_forall_le fun x hx => ?_
    obtain ⟨e, he, rfl⟩ := List.mem_map.1 hx
    exact List.minimum_le_of_mem' (List.mem_map.2 ⟨e, (List.mem_filter.1 he).1, rfl⟩)

theorem place_lt_nil (h : g ∈ dueGroups s c.stamp c.ttlBefore) : place c s g < claimOrder [] := by
  refine lt_of_le_of_ne ?_ fun heq => ?_
  · have hle := claimOrder_le_filter (dueOf s c.stamp c.ttlBefore g) fun _ => false
    rwa [List.filter_false] at hle
  · have hids : ((dueOf s c.stamp c.ttlBefore g).map Prod.fst).minimum = ⊤ :=
      congrArg (fun x => (ofLex x).2) heq
    rw [List.minimum_eq_top, List.map_eq_nil_iff] at hids
    exact mem_dueGroups.1 h hids

/-! ## What a round leaves as it was -/

/-- The ids of the rows that a round on `g` skips. -/
def skippedIds (R : Registry) (c : ClaimCall) (s : Store) (g : Group) : List ℕ :=
  (skippableRows R c s g).map Prod.fst

theorem not_contains_skippedIds {e : ℕ × Row} (hr : s.ledger.get? e.1 = some e.2)
    (h : e ∉ undeferredRows R c s g) : (!(skippedIds R c s g).contains e.1) = true := by
  rw [Bool.not_eq_true']
  by_contra hskip
  rw [Bool.not_eq_false, skippedIds, contains_skippable_iff hr] at hskip
  exact h (mem_skippableRows.1 hskip).1

theorem select_skipRows {q : Row → Bool}
    (hq : ∀ r, q r = true → r.state ≠ .pending ∧ r.state ≠ .skipped) :
    (skipRows R c s g).ledger.select (fun _ r => q r) = s.ledger.select fun _ r => q r := by
  have hupd : (skipRows R c s g).ledger.select (fun _ r => q r) =
      (s.ledger.select fun _ r => q r).filter fun e => !(skippedIds R c s g).contains e.1 := by
    refine Table.select_update fun id r _ => ?_
    by_contra hqr
    exact (hq _ (by simpa using hqr)).2 rfl
  rw [hupd, List.filter_eq_self]
  intro e he
  obtain ⟨hr, hqe⟩ := Table.mem_select.1 he
  refine not_contains_skippedIds hr fun hund => ?_
  exact (hq e.2 hqe).1 (mem_undeferredRows.1 hund).2.2.1

theorem due_skipRows (p : Row) :
    due (skipRows R c s g) c.stamp c.ttlBefore p = due s c.stamp c.ttlBefore p := by
  have hdel : (skipRows R c s g).ledger.select (fun _ d => deliveredBlocks (skipRows R c s g) c.stamp p d) =
      s.ledger.select fun _ d => deliveredBlocks s c.stamp p d := by
    refine select_skipRows fun d hd => ?_
    simp only [deliveredBlocks, Bool.and_eq_true, beq_iff_eq] at hd
    simp [hd.1.1.1.1.2]
  have hunk : (skipRows R c s g).ledger.select (fun _ u => unknownBlocks c.stamp p u) =
      s.ledger.select fun _ u => unknownBlocks c.stamp p u := by
    refine select_skipRows fun u hu => ?_
    simp only [unknownBlocks, Bool.and_eq_true, beq_iff_eq] at hu
    simp [hu.1.2]
  have hcl : (skipRows R c s g).ledger.select (fun _ q => claimBlocks c.ttlBefore p q) =
      s.ledger.select fun _ q => claimBlocks c.ttlBefore p q := by
    refine select_skipRows fun q hq => ?_
    simp only [claimBlocks, Bool.and_eq_true, beq_iff_eq] at hq
    simp [hq.1.2]
  rw [due, due, hdel, hunk, hcl]

theorem dueOf_skipRows (g g' : Group) :
    dueOf (skipRows R c s g) c.stamp c.ttlBefore g' =
      (dueOf s c.stamp c.ttlBefore g').filter fun e => !(skippedIds R c s g).contains e.1 := by
  have hrows : dueRows (skipRows R c s g) c.stamp c.ttlBefore =
      (dueRows s c.stamp c.ttlBefore).filter fun e => !(skippedIds R c s g).contains e.1 := by
    simp only [dueRows, due_skipRows]
    refine Table.select_update fun id r _ => ?_
    by_contra hdue
    have := due_pending (s := s) (c := c) (by simpa using hdue)
    cases this
  rw [dueOf, hrows, dueOf, List.filter_filter, List.filter_filter]
  exact List.filter_congr fun e _ => Bool.and_comm _ _

theorem dueOf_skipRows_of_not_covers (h : covers R g g' = false) :
    dueOf (skipRows R c s g) c.stamp c.ttlBefore g' = dueOf s c.stamp c.ttlBefore g' := by
  rw [dueOf_skipRows, List.filter_eq_self]
  intro e he
  obtain ⟨⟨hr, -⟩, hgroup⟩ := mem_dueOf.1 he
  refine not_contains_skippedIds hr fun hund => ?_
  have hjoin := (mem_undeferredRows.1 hund).2.1
  rw [joins_eq_covers, hgroup, h] at hjoin
  cases hjoin

theorem dueOf_skipRows_of_covers (h : covers R g g' = true) (hnone : claimableRows R c s g = []) :
    dueOf (skipRows R c s g) c.stamp c.ttlBefore g' = deferredOf c s g' := by
  rw [dueOf_skipRows, deferredOf]
  refine List.filter_congr fun e he => ?_
  obtain ⟨⟨hr, hdue⟩, hgroup⟩ := mem_dueOf.1 he
  cases hdef : composerDeferBlocksClaim e.2 with
  | true =>
    refine not_contains_skippedIds hr fun hund => ?_
    have hfree := (mem_undeferredRows.1 hund).2.2.2.2
    rw [hdef] at hfree
    cases hfree
  | false =>
    have hready : retryReady c.stamp e.2 = true := by
      simp only [due, Bool.and_eq_true] at hdue
      exact hdue.1.1.1.2
    have hund : (e.1, e.2) ∈ undeferredRows R c s g := by
      refine mem_undeferredRows.2 ⟨hr, ?_, due_pending hdue, hready, hdef⟩
      rw [joins_eq_covers, hgroup]
      exact h
    rw [Bool.not_eq_false', skippedIds, contains_skippable_iff hr, mem_skippableRows]
    refine ⟨hund, ?_⟩
    -- Nothing was claimable, so there is a reason to skip the row.
    rw [Option.isSome_iff_ne_none]
    intro hreason
    have hmem := mem_claimableRows.2 ⟨hund, hreason⟩
    rw [hnone] at hmem
    cases hmem

theorem mem_claimableRows_skipRows {e : ℕ × Row} :
    e ∈ claimableRows R c (skipRows R c s g) g' ↔ e ∈ claimableRows R c s g' := by
  constructor
  · intro he
    obtain ⟨hund, hreason⟩ := mem_claimableRows.1 he
    obtain ⟨hr, hjoin, hpend, hrest⟩ := mem_undeferredRows.1 hund
    have hr₀ := skipRows_pendingKept R c s g e.1 e.2 hr hpend
    refine mem_claimableRows.2 ⟨mem_undeferredRows.2 ⟨hr₀, hjoin, hpend, hrest⟩, ?_⟩
    rw [skipReason_skipRows] at hreason
    exact hreason
  · intro he
    obtain ⟨hund, hreason⟩ := mem_claimableRows.1 he
    have hrest := (mem_undeferredRows.1 hund).2
    refine mem_claimableRows.2 ⟨mem_undeferredRows.2 ⟨get?_skipRows_of_claimable he, hrest⟩, ?_⟩
    rw [skipReason_skipRows]
    exact hreason

theorem coalesces_skipRows (h : covers R g g' = false) :
    coalesces R c (skipRows R c s g) g' = coalesces R c s g' := by
  have hpend : (skipRows R c s g).ledger.select (fun _ r => r.group = g' && r.state == .pending) =
      s.ledger.select fun _ r => r.group = g' && r.state == .pending := by
    have hupd : (skipRows R c s g).ledger.select (fun _ r => r.group = g' && r.state == .pending) =
        (s.ledger.select fun _ r => r.group = g' && r.state == .pending).filter
          fun e => !(skippedIds R c s g).contains e.1 := by
      refine Table.select_update fun id r _ => ?_
      simp [skipRow]
    rw [hupd, List.filter_eq_self]
    intro e he
    obtain ⟨hr, hgroup⟩ := Table.mem_select.1 he
    simp only [Bool.and_eq_true, decide_eq_true_eq] at hgroup
    refine not_contains_skippedIds hr fun hund => ?_
    have hjoin := (mem_undeferredRows.1 hund).2.1
    rw [joins_eq_covers, hgroup.1, h] at hjoin
    cases hjoin
  have hdel : ∀ oldest : ℤ, (skipRows R c s g).ledger.select (fun _ r =>
      Sql.lower (Sql.trim r.agent) == Sql.lower (Sql.trim g'.1) && r.threadId == g'.2 &&
        r.state == .delivered && r.finishedAt.any (· < oldest)) =
      s.ledger.select (fun _ r =>
      Sql.lower (Sql.trim r.agent) == Sql.lower (Sql.trim g'.1) && r.threadId == g'.2 &&
        r.state == .delivered && r.finishedAt.any (· < oldest)) := by
    intro oldest
    refine select_skipRows fun r hr => ?_
    simp only [Bool.and_eq_true, beq_iff_eq] at hr
    simp [hr.1.2]
  simp only [coalesces, orionPendingCoalesceBlocks, hpend, hdel]

/-! ## One round -/

theorem place_skipRows (hg : covers R g g' = false) :
    place c (skipRows R c s g) g' = place c s g' := by
  rw [place, dueOf_skipRows_of_not_covers hg, place]

theorem deferredPlace_skipRows (hg : covers R g g' = false) :
    deferredPlace c (skipRows R c s g) g' = deferredPlace c s g' := by
  rw [deferredPlace, deferredOf, dueOf_skipRows_of_not_covers hg, deferredPlace, deferredOf]

theorem mem_dueGroups_skipRows (hg : covers R g g' = false) :
    g' ∈ dueGroups (skipRows R c s g) c.stamp c.ttlBefore ↔ g' ∈ dueGroups s c.stamp c.ttlBefore := by
  rw [mem_dueGroups, dueOf_skipRows_of_not_covers hg, mem_dueGroups]

theorem holds_skipRows (hg : covers R g g' = false) :
    holds R c (skipRows R c s g) g' = holds R c s g' := by
  have hempty : (claimableRows R c (skipRows R c s g) g').isEmpty = (claimableRows R c s g').isEmpty := by
    rw [Bool.eq_iff_iff, List.isEmpty_iff, List.isEmpty_iff, List.eq_nil_iff_forall_not_mem,
      List.eq_nil_iff_forall_not_mem]
    exact forall_congr' fun e => not_congr mem_claimableRows_skipRows
  rw [holds, coalesces_skipRows hg, hempty, holds]

theorem place_skipRows_covered (hg : covers R g g' = true) (hnone : claimableRows R c s g = []) :
    place c (skipRows R c s g) g' = deferredPlace c s g' := by
  rw [place, dueOf_skipRows_of_covers hg hnone, deferredPlace]

theorem deferredPlace_skipRows_covered (hg : covers R g g' = true) (hnone : claimableRows R c s g = []) :
    deferredPlace c (skipRows R c s g) g' = deferredPlace c s g' := by
  rw [deferredPlace, deferredOf, dueOf_skipRows_of_covers hg hnone, deferredPlace, deferredOf,
    List.filter_filter]
  simp only [Bool.and_self]

theorem not_covers_of_holds (hholds : holds R c s g' = true) (hnone : claimableRows R c s g = []) :
    covers R g g' = false := by
  by_contra hg
  rw [Bool.not_eq_false] at hg
  have hempty : claimableRows R c s g' = [] := by
    rw [List.eq_nil_iff_forall_not_mem]
    intro e he
    have hmem := mem_claimableRows_of_covers hg he
    rw [hnone] at hmem
    cases hmem
  simp [holds, hempty] at hholds

theorem claimableRows_skipRows_eq_nil (hnone : claimableRows R c s g = []) :
    claimableRows R c (skipRows R c s g) g = [] := by
  rw [List.eq_nil_iff_forall_not_mem] at hnone ⊢
  exact fun e he => hnone e (mem_claimableRows_skipRows.1 he)

theorem firstGroup_spec (h : firstGroup s c.stamp c.ttlBefore c.limit = some g) :
    g ∈ dueGroups s c.stamp c.ttlBefore ∧
      ∀ g' ∈ dueGroups s c.stamp c.ttlBefore, place c s g ≤ place c s g' := by
  unfold firstGroup at h
  split at h
  · cases h
  · exact ⟨List.argmin_mem h, fun g' hg' => List.le_of_mem_argmin hg' h⟩

theorem place_first_lt (h : firstGroup s c.stamp c.ttlBefore c.limit = some g)
    (hg' : g' ∈ dueGroups s c.stamp c.ttlBefore) (hne : g' ≠ g) : place c s g < place c s g' := by
  obtain ⟨hg, hle⟩ := firstGroup_spec h
  exact lt_of_le_of_ne (hle g' hg') fun heq => hne (place_injective hg heq).symm

/-- The groups before `g` get out of the way. -/
def Clear (R : Registry) (c : ClaimCall) (s : Store) (g : Group) : Prop :=
  ∀ g' ∈ dueGroups s c.stamp c.ttlBefore, place c s g' < place c s g →
    coalesces R c s g' = false ∧ place c s g < deferredPlace c s g'

/-- What the registry says of the stage managers: none of them is Orion. -/
def StageManagersApart (R : Registry) : Prop :=
  ∀ agent, isStageManager agent = true → R.normalizeBusAddress agent ≠ "orion"

theorem coalesces_of_covers (hR : StageManagersApart R) (h : covers R g g' = true) (hne : g' ≠ g) :
    coalesces R c s g' = false := by
  simp only [covers, Bool.and_eq_true, Bool.or_eq_true, beq_iff_eq] at h
  obtain ⟨hthread, heq | ⟨-, hsm⟩⟩ := h
  · exact absurd (Prod.ext heq hthread) hne
  · simp [coalesces, orionPendingCoalesceBlocks, Registry.isOrionChatWakeGroup, hR g'.1 hsm]

section

variable (hR : StageManagersApart R) (hfirst : firstGroup s c.stamp c.ttlBefore c.limit = some g)
  (hco : coalesces R c s g = false) (hnone : claimableRows R c s g = [])

include hnone

theorem mem_dueGroups_of_covered (hg' : covers R g g' = true)
    (h : g' ∈ dueGroups (skipRows R c s g) c.stamp c.ttlBefore) :
    g' ∈ dueGroups s c.stamp c.ttlBefore ∧ place c s g' ≤ place c (skipRows R c s g) g' := by
  rw [mem_dueGroups, dueOf_skipRows_of_covers hg' hnone] at h
  refine ⟨mem_dueGroups.2 fun hnil => h (by simp [deferredOf, hnil]), ?_⟩
  rw [place_skipRows_covered hg' hnone]
  exact claimOrder_le_filter _ _

theorem not_covers_of_place_lt (hcov : covers R g g'' = false) (hclear : Clear R c s g'')
    (hg' : g' ∈ dueGroups (skipRows R c s g) c.stamp c.ttlBefore)
    (hlt : place c (skipRows R c s g) g' < place c (skipRows R c s g) g'') :
    covers R g g' = false := by
  by_contra hcov'
  rw [Bool.not_eq_false] at hcov'
  obtain ⟨hmem, hle⟩ := mem_dueGroups_of_covered hnone hcov' hg'
  rw [place_skipRows hcov] at hlt
  have hafter := (hclear g' hmem (lt_of_le_of_lt hle hlt)).2
  rw [place_skipRows_covered hcov' hnone] at hlt
  exact absurd hafter (not_lt.2 hlt.le)

include hR hco

theorem clear_skipRows (hcov : covers R g g'' = false) (hdue : g'' ∈ dueGroups s c.stamp c.ttlBefore) :
    Clear R c (skipRows R c s g) g'' ↔ Clear R c s g'' := by
  constructor
  · intro h g' hg' hlt
    cases hcov' : covers R g g' with
    | false =>
      have := h g' ((mem_dueGroups_skipRows hcov').2 hg')
        (by rwa [place_skipRows hcov', place_skipRows hcov])
      rwa [coalesces_skipRows hcov', place_skipRows hcov, deferredPlace_skipRows hcov'] at this
    | true =>
      refine ⟨?_, ?_⟩
      · by_cases heq : g' = g
        · rw [heq, hco]
        · exact coalesces_of_covers hR hcov' heq
      · by_contra hle
        -- The group is still there, at the place of its deferred rows, and so stands before `g''`.
        have hmem : g' ∈ dueGroups (skipRows R c s g) c.stamp c.ttlBefore := by
          rw [mem_dueGroups, dueOf_skipRows_of_covers hcov' hnone]
          intro hnil
          exact hle (by rw [deferredPlace, hnil]; exact place_lt_nil hdue)
        have hne : g' ≠ g'' := by
          rintro rfl
          rw [hcov'] at hcov
          cases hcov
        have hplace : place c (skipRows R c s g) g' < place c (skipRows R c s g) g'' := by
          refine lt_of_le_of_ne ?_ fun heq => hne (place_injective hmem heq)
          rw [place_skipRows_covered hcov' hnone, place_skipRows hcov]
          exact not_lt.1 hle
        have := (h g' hmem hplace).2
        rw [place_skipRows hcov, deferredPlace_skipRows_covered hcov' hnone] at this
        exact hle this
  · intro h g' hg' hlt
    cases hcov' : covers R g g' with
    | false =>
      rw [place_skipRows hcov', place_skipRows hcov] at hlt
      have := h g' ((mem_dueGroups_skipRows hcov').1 hg') hlt
      rwa [coalesces_skipRows hcov', place_skipRows hcov, deferredPlace_skipRows hcov']
    | true =>
      rw [not_covers_of_place_lt hnone hcov h hg' hlt] at hcov'
      cases hcov'

omit hR hco

include hfirst

theorem roundsBefore_skipRows (hcov : covers R g g'' = false) (hclear : Clear R c s g'')
    (hdue : g'' ∈ dueGroups s c.stamp c.ttlBefore) :
    roundsBefore R c s g'' = insert g (roundsBefore R c (skipRows R c s g) g'') := by
  obtain ⟨hmem, hmin⟩ := firstGroup_spec hfirst
  ext g'
  simp only [roundsBefore, Finset.mem_filter, List.mem_toFinset, Finset.mem_insert]
  constructor
  · rintro ⟨hg', hlt, hlead⟩
    by_cases heq : g' = g
    · exact .inl heq
    have hcov' := hlead g hmem (place_first_lt hfirst hg' heq)
    refine .inr ⟨(mem_dueGroups_skipRows hcov').2 hg', ?_, fun k hk hklt => ?_⟩
    · rwa [place_skipRows hcov', place_skipRows hcov]
    · by_contra hkg
      rw [Bool.not_eq_false] at hkg
      have hcovk := not_covers_of_covers hkg hcov'
      rw [place_skipRows hcovk, place_skipRows hcov'] at hklt
      have := hlead k ((mem_dueGroups_skipRows hcovk).1 hk) hklt
      rw [hkg] at this
      cases this
  · rintro (rfl | ⟨hg', hlt, hlead⟩)
    · refine ⟨hmem, place_first_lt hfirst hdue ?_, fun k hk hklt => absurd (hmin k hk) (not_le.2 hklt)⟩
      rintro rfl
      rw [covers_refl] at hcov
      cases hcov
    · have hcov' := not_covers_of_place_lt hnone hcov hclear hg' hlt
      refine ⟨(mem_dueGroups_skipRows hcov').1 hg', ?_, fun k hk hklt => ?_⟩
      · rwa [place_skipRows hcov', place_skipRows hcov] at hlt
      · by_contra hkg
        rw [Bool.not_eq_false] at hkg
        have hcovk := not_covers_of_covers hkg hcov'
        have := hlead k ((mem_dueGroups_skipRows hcovk).2 hk)
          (by rwa [place_skipRows hcovk, place_skipRows hcov'])
        rw [hkg] at this
        cases this

theorem card_roundsBefore_skipRows (hcov : covers R g g'' = false) (hclear : Clear R c s g'')
    (hdue : g'' ∈ dueGroups s c.stamp c.ttlBefore) :
    (roundsBefore R c s g'').card = (roundsBefore R c (skipRows R c s g) g'').card + 1 := by
  rw [roundsBefore_skipRows hfirst hnone hcov hclear hdue, Finset.card_insert_of_notMem]
  intro hmem
  rw [roundsBefore, Finset.mem_filter, List.mem_toFinset] at hmem
  have := not_covers_of_place_lt hnone hcov hclear hmem.1 hmem.2.1
  rw [covers_refl] at this
  cases this

include hR hco

/-- **A round that drains the first group takes one round off.** -/
theorem unobstructed_skipRows (n : ℕ) :
    Unobstructed R c (skipRows R c s g) n ↔ Unobstructed R c s (n + 1) := by
  constructor
  · rintro ⟨k, hk, hholds, hclear, hcard⟩
    have hcov := not_covers_of_holds hholds (claimableRows_skipRows_eq_nil hnone)
    have hdue := (mem_dueGroups_skipRows hcov).1 hk
    have hclear' := (clear_skipRows hR hco hnone hcov hdue).1 hclear
    refine ⟨k, hdue, by rwa [← holds_skipRows hcov], hclear', ?_⟩
    rw [card_roundsBefore_skipRows hfirst hnone hcov hclear' hdue]
    omega
  · rintro ⟨k, hdue, hholds, hclear, hcard⟩
    have hcov := not_covers_of_holds hholds hnone
    refine ⟨k, (mem_dueGroups_skipRows hcov).2 hdue, by rwa [holds_skipRows hcov],
      (clear_skipRows hR hco hnone hcov hdue).2 hclear, ?_⟩
    rw [card_roundsBefore_skipRows hfirst hnone hcov hclear hdue] at hcard
    omega

end

/-! ## The loop -/

theorem not_unobstructed_of_coalesces (hfirst : firstGroup s c.stamp c.ttlBefore c.limit = some g)
    (hco : coalesces R c s g = true) (n : ℕ) : ¬ Unobstructed R c s n := by
  rintro ⟨k, hk, hholds, hclear, -⟩
  by_cases heq : k = g
  · simp [holds, heq, hco] at hholds
  · have := (hclear g (firstGroup_spec hfirst).1 (place_first_lt hfirst hk heq)).1
    rw [hco] at this
    cases this

theorem unobstructed_of_holds (hfirst : firstGroup s c.stamp c.ttlBefore c.limit = some g)
    (hholds : holds R c s g = true) (n : ℕ) : Unobstructed R c s (n + 1) := by
  obtain ⟨hmem, hmin⟩ := firstGroup_spec hfirst
  refine ⟨g, hmem, hholds, fun k hk hlt => absurd (hmin k hk) (not_le.2 hlt), ?_⟩
  have hempty : roundsBefore R c s g = ∅ := by
    rw [roundsBefore, Finset.filter_eq_empty_iff]
    rintro k hk ⟨hlt, -⟩
    exact absurd (hmin k (List.mem_toFinset.1 hk)) (not_le.2 hlt)
  rw [hempty, Finset.card_empty]
  omega

/-- **When the loop claims**: exactly when the limit admits a group and nothing is in the way. -/
theorem claimLoop_isSome_iff (hR : StageManagersApart R) (n : ℕ) (s : Store) (l : List (ℕ × Row)) :
    (claimLoop R c n s l).2.wakeId.isSome = true ↔ c.limit ≠ 0 ∧ Unobstructed R c s n := by
  induction n generalizing s l with
  | zero =>
    simp only [claimLoop, Option.isSome_none, Bool.false_eq_true, false_iff, not_and]
    rintro - ⟨k, -, -, -, hcard⟩
    omega
  | succ n ih =>
    rw [claimLoop]
    cases hfirst : firstGroup s c.stamp c.ttlBefore c.limit with
    | none =>
      simp only [Option.isSome_none, Bool.false_eq_true, false_iff, not_and]
      rintro hlimit ⟨k, hk, -⟩
      rw [firstGroup, if_neg hlimit, List.argmin_eq_none] at hfirst
      rw [hfirst] at hk
      cases hk
    | some g =>
      have hlimit : c.limit ≠ 0 := by
        intro hzero
        rw [firstGroup, if_pos hzero] at hfirst
        cases hfirst
      dsimp only
      split
      · rename_i hco
        rw [ih]
        simp [not_unobstructed_of_coalesces hfirst hco]
      · rename_i hco
        have hco : coalesces R c s g = false := by simpa [coalesces] using hco
        split
        · rename_i hnone
          rw [List.isEmpty_iff] at hnone
          rw [ih, unobstructed_skipRows hR hfirst hco hnone]
        · rename_i hsome
          have hholds : holds R c s g = true := by simp [holds, hco, hsome]
          simp [hlimit, unobstructed_of_holds hfirst hholds]

/-- A due row that nothing but its place in the order keeps from being claimed. -/
def claimableAlone (R : Registry) (c : ClaimCall) (s : Store) (r : Row) : Prop :=
  due s c.stamp c.ttlBefore r = true ∧ coalesces R c s r.group = false ∧
    composerDeferBlocksClaim r = false ∧ skipReason R c.probes s r = none

/-- **When there is no head-of-line blocking**: `claim_due_wakes` makes a claim whenever a row is claimable
on its own exactly when, in such a ledger, nothing is in the way of some group that has one. -/
theorem claims_iff_unobstructed (hR : StageManagersApart R) (c : ClaimCall) (s : Store) :
    ((∃ id r, (foldClaims s c.ttlBefore).ledger.get? id = some r ∧
        claimableAlone R c (foldClaims s c.ttlBefore) r) →
      (claimDueWakes R c s).2.wakeId.isSome = true) ↔
    ((∃ id r, (foldClaims s c.ttlBefore).ledger.get? id = some r ∧
        claimableAlone R c (foldClaims s c.ttlBefore) r) →
      c.limit ≠ 0 ∧ Unobstructed R c (foldClaims s c.ttlBefore) claimSkipGroupCap) := by
  rw [claimDueWakes, claimLoop_isSome_iff hR]

/-! ## Ledgers with and without a block -/

theorem mem_dropWhile {α : Type*} {p : α → Bool} {l : List α} {x : α} (hx : x ∈ l) (hp : p x = false) :
    x ∈ l.dropWhile p := by
  rw [← List.takeWhile_append_dropWhile (p := p) (l := l), List.mem_append] at hx
  obtain hx | hx := hx
  · rw [List.mem_takeWhile_imp hx] at hp
    cases hp
  · exact hx

theorem mem_strip {a : String} {x : Char} (hx : x ∈ a.toList) (hs : Json.isSpace x = false) :
    x ∈ (Json.strip a).toList := by
  rw [Json.strip, String.toList_ofList, List.mem_reverse]
  refine mem_dropWhile ?_ hs
  rw [List.mem_reverse]
  exact mem_dropWhile hx hs

theorem isSpace_of_toLower {x : Char} (h : Char.toLower x = 'g') : Json.isSpace x = false := by
  by_contra hspace
  rw [Bool.not_eq_false] at hspace
  obtain rfl : x = 'g' := (Json.toLower_of_isSpace hspace).symm.trans h
  cases hspace

theorem plain_stageManagersApart : StageManagersApart Registry.plain := by
  intro agent hsm horion
  have hg : 'g' ∈ (Sql.lower (Sql.trim agent)).toList := by
    rw [isStageManager, List.contains_iff_mem] at hsm
    generalize Sql.lower (Sql.trim agent) = address at hsm
    revert address
    decide
  rw [Sql.lower, String.toList_ofList, List.mem_map] at hg
  obtain ⟨x, hx, hlow⟩ := hg
  rw [Sql.trim, String.toList_ofList, List.mem_reverse] at hx
  have hx := (List.dropWhile_sublist _).subset hx
  rw [List.mem_reverse] at hx
  have hx := (List.dropWhile_sublist _).subset hx
  have hmem : 'g' ∈ (Json.lower (Json.strip agent)).toList := by
    rw [Json.lower, String.toList_ofList, List.mem_map]
    exact ⟨x, mem_strip hx (isSpace_of_toLower hlow), hlow⟩
  rw [Registry.normalizeBusAddress] at horion
  split at horion
  · exact absurd horion (by decide)
  · simp only [Registry.plain, Registry.normalizeAgentSlug, Option.getD_none] at horion
    rw [horion] at hmem
    exact absurd hmem (by decide)

/-- A fresh Orion batch in its house, and then a request in another thread. -/
def heldBatch : List Action :=
  [.getCursor "d", .insertTurn (requestTurn "21207" 1), .insertTurn (requestTurn "t" 1),
    .advanceScan 990 "d" 0 2 [⟨"orion", "21207", 1, 1, none⟩, ⟨"cursor", "t", 2, 1, none⟩]]

/-- A wake that finds the composer busy, and then one in another thread that is to be tried again. -/
def deferredComposer : List Action :=
  [.getCursor "d", .insertTurn (requestTurn "t" 1), .insertTurn (requestTurn "u" 1),
    .advanceScan 990 "d" 0 1 [⟨"cursor", "t", 1, 1, none⟩], .claimDueWakes (claimAt 1000 "w1"),
    .recordWakeResult 1005 "w1" "pending" (some "composer_busy") ⟨some "exact", none, none⟩ none,
    .advanceScan 1006 "d" 1 2 [⟨"cursor", "u", 2, 1, none⟩], .claimDueWakes (claimAt 1010 "w2"),
    .recordWakeResult 1020 "w2" "pending" (some "tab_not_found") ⟨some "exact", none, none⟩ none]

instance (R : Registry) (c : ClaimCall) (s : Store) (r : Row) : Decidable (claimableAlone R c s r) :=
  inferInstanceAs (Decidable (_ ∧ _))

/-- The ledger after `as`, with the expired claims folded. -/
def foldedAfter (as : List Action) (c : ClaimCall) : Store :=
  foldClaims (runFrom Registry.plain .empty as) c.ttlBefore

/-- The row `id` is claimable on its own. -/
def aloneAt (as : List Action) (c : ClaimCall) (id : ℕ) : Bool :=
  ((foldedAfter as c).ledger.get? id).any fun r =>
    decide (claimableAlone Registry.plain c (foldedAfter as c) r)

theorem exists_of_aloneAt {as : List Action} {c : ClaimCall} (id : ℕ) (h : aloneAt as c id = true) :
    ∃ id r, (foldedAfter as c).ledger.get? id = some r ∧
      claimableAlone Registry.plain c (foldedAfter as c) r := by
  rw [aloneAt, Option.any_eq_true] at h
  obtain ⟨r, hr, h⟩ := h
  exact ⟨id, r, hr, of_decide_eq_true h⟩

theorem blockedByFirstGroup :
    ((∃ id r, (foldedAfter heldBatch (claimAt 1000 "w3")).ledger.get? id = some r ∧
        claimableAlone Registry.plain (claimAt 1000 "w3") (foldedAfter heldBatch (claimAt 1000 "w3")) r) ∧
      (claimDueWakes Registry.plain (claimAt 1000 "w3")
        (runFrom Registry.plain .empty heldBatch)).2.wakeId = none) ∧
    (∃ id r, (foldedAfter deferredComposer (claimAt 1100 "w3")).ledger.get? id = some r ∧
        claimableAlone Registry.plain (claimAt 1100 "w3")
          (foldedAfter deferredComposer (claimAt 1100 "w3")) r) ∧
      (claimDueWakes Registry.plain (claimAt 1100 "w3")
        (runFrom Registry.plain .empty deferredComposer)).2.wakeId = none :=
  ⟨⟨exists_of_aloneAt 2 (by with_unfolding_all decide), by with_unfolding_all decide⟩,
    exists_of_aloneAt 2 (by with_unfolding_all decide), by with_unfolding_all decide⟩

/-- A request that has been read in the meantime, and then one that has not. -/
def readFirst : List Action :=
  [.getCursor "d", .insertTurn (requestTurn "t" 1), .insertTurn (requestTurn "u" 1),
    .advanceScan 990 "d" 0 2 [⟨"cursor", "t", 1, 1, none⟩, ⟨"cursor", "u", 2, 1, none⟩],
    .updateTurn 1 { requestTurn "t" 1 with readAt := some "1970-01-01 00:16:35" }]

theorem readFirst_unobstructed :
    (claimAt 1000 "w1").limit ≠ 0 ∧
      Unobstructed Registry.plain (claimAt 1000 "w1") (foldedAfter readFirst (claimAt 1000 "w1"))
        claimSkipGroupCap :=
  (claims_iff_unobstructed plain_stageManagersApart (claimAt 1000 "w1")
    (runFrom Registry.plain .empty readFirst)).1 (fun _ => by with_unfolding_all decide)
    (exists_of_aloneAt 2 (by with_unfolding_all decide))

end LlmGateway.WakeLedger
