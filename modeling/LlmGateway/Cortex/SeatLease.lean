import LlmGateway.Cortex.SeatClaims
import LlmGateway.Foundations.System

/-!
# The lease of a seat claim

The transactions of `SeatClaims` in any order, each with a clock reading of its own, and the answers of the
heartbeats. An answer `ok` with `expires_in_s = e` at the reading `t` promises that no transaction with a
reading before `t + e` reclaims the claim; `Leases.Kept` says that all promises so far are kept, whatever
transaction comes next, and that a key has one held claim at most.

A heartbeat that has waited for the lock stores its old reading over a newer one and so takes back what was
promised. `kept_iff` says exactly when the leases are kept: a heartbeat that finds its claim does not set its
end before a promise, and when it reads the row back the claim, if still held, ends behind its reading.
-/

namespace LlmGateway.Cortex

inductive SeatTransaction where
  | claim (body : SeatClaimRequest) (holderId : String)
  | heartbeat (holderId : String)
  | release (holderId : String)
  | list (claimKey seat : Option String) (includeEnded : Bool)

/-- The table that a transaction commits. -/
def SeatTransaction.commit (C : SeatConfig) (t : Table SeatClaim) (now : SeatClock) :
    SeatTransaction → Table SeatClaim
  | claim body holderId => (claimSeat C t now body holderId).1
  | heartbeat holderId => (heartbeatSeat t now holderId).1
  | release holderId => (releaseSeat t now holderId).1
  | list claimKey seat includeEnded => (listSeatClaims C t now claimKey seat includeEnded).1

/-- The claims; the heartbeats that have committed with success and not yet returned, by holder and `now_ts`;
and what was promised, by claim. -/
structure Leases where
  claims : Table SeatClaim
  pending : List (String × ℚ)
  promises : List (ℕ × ℚ)

def Leases.start : Leases := ⟨∅, [], []⟩

inductive LeaseEvent where
  | commit (now : SeatClock) (tx : SeatTransaction)
  /-- The heartbeat at this place of the pending ones reads its row and returns. -/
  | answer (i : ℕ)

/-- `uuid4` gives no identifier twice. -/
def freshHolder (t : Table SeatClaim) : SeatTransaction → Bool
  | .claim _ holderId => (heartbeatAnswer t holderId).isNone
  | _ => true

/-- The heartbeats that wait for their row behind the transaction. -/
def pendingBehind (l : Leases) (now : SeatClock) : SeatTransaction → List (String × ℚ)
  | .heartbeat holderId =>
    if (heartbeatSeat l.claims now holderId).2 then l.pending ++ [(holderId, now.nowTs)] else l.pending
  | _ => l.pending

/-- The promise of a heartbeat's answer. -/
def promised (t : Table SeatClaim) (holderId : String) (nowTs : ℚ) : List (ℕ × ℚ) :=
  ((heartbeatAnswer t holderId).map fun e => (e.1, nowTs + e.2.expiresInS nowTs)).toList

def Leases.step (C : SeatConfig) (l : Leases) : LeaseEvent → Leases
  | .commit now tx =>
    if freshHolder l.claims tx then
      { l with claims := tx.commit C l.claims now, pending := pendingBehind l now tx }
    else l
  | .answer i =>
    match l.pending[i]? with
    | some (holderId, nowTs) =>
      { l with pending := l.pending.eraseIdx i, promises := promised l.claims holderId nowTs ++ l.promises }
    | none => l

/-- A key has one held claim at most. -/
def OneHeld (t : Table SeatClaim) : Prop :=
  ∀ i j r u, t.get? i = some r → t.get? j = some u → r.status = .held → u.status = .held →
    r.claimKey = u.claimKey → i = j

/-- One held claim for each key, and no transaction with a reading before the end of a promise reclaims the
claim. -/
structure Leases.Kept (C : SeatConfig) (l : Leases) : Prop where
  oneHeld : OneHeld l.claims
  lease : ∀ id due, (id, due) ∈ l.promises → ∀ r, l.claims.get? id = some r → r.status = .held →
    ∀ (now : SeatClock) (tx : SeatTransaction), now.nowTs < due →
      ∀ r', (tx.commit C l.claims now).get? id = some r' → r'.status ≠ .reclaimed

/-- A heartbeat that finds its claim does not set its end before a promise; and at the answer of a heartbeat
the claim, if it is still held, does not end before the reading. -/
def LeaseEvent.Keeps (l : Leases) : LeaseEvent → Prop
  | .commit now (.heartbeat holderId) => ∀ id r, l.claims.get? id = some r → isHeldBy holderId r = true →
    r.isStale now.nowTs = false → ∀ due, (id, due) ∈ l.promises → due ≤ now.nowIso + r.ttlS
  | .commit _ _ => True
  | .answer i => ∀ holderId nowTs, l.pending[i]? = some (holderId, nowTs) →
    ∀ id r, l.claims.get? id = some r → isHeldBy holderId r = true → nowTs ≤ r.deadline

/-! ## What a transaction does to a claim -/

/-- The holders of the claims are distinct. -/
def OneHolder (t : Table SeatClaim) : Prop :=
  ∀ i j r u, t.get? i = some r → t.get? j = some u → r.holderId = u.holderId → i = j

/-- What may become of a claim: its key and holder stay, and one that has ended stays so. -/
structure SeatClaim.Becomes (r r' : SeatClaim) : Prop where
  claimKey : r'.claimKey = r.claimKey
  holderId : r'.holderId = r.holderId
  held : r'.status = .held → r.status = .held

theorem SeatClaim.Becomes.refl (r : SeatClaim) : r.Becomes r := ⟨rfl, rfl, id⟩

/-- The claim behind the sweep for stale ones. -/
def SeatClaim.sweep (r : SeatClaim) (now : SeatClock) : SeatClaim :=
  if r.status == .held && r.isStale now.nowTs then
    { r with status := .reclaimed, endedAt := some now.nowIso, endReason := some .stale }
  else r

theorem get?_reclaimStaleHeld (t : Table SeatClaim) (now : SeatClock) (id : ℕ) :
    (reclaimStaleHeld t now).get? id = (t.get? id).map fun r => r.sweep now :=
  Table.get?_update _ _ _ _

theorem SeatClaim.becomes_sweep (r : SeatClaim) (now : SeatClock) : r.Becomes (r.sweep now) := by
  unfold SeatClaim.sweep
  split
  · exact ⟨rfl, rfl, fun h => by cases h⟩
  · exact .refl r

theorem SeatClaim.sweep_status {r : SeatClaim} (h : r.status = .held) (now : SeatClock) :
    (r.sweep now).status = if r.deadline ≤ now.nowTs then .reclaimed else .held := by
  unfold SeatClaim.sweep
  by_cases hs : r.isStale now.nowTs = true
  · rw [if_pos (by simp [h, hs]), if_pos (SeatClaim.isStale_iff.1 hs)]
  · rw [if_neg (by simp [h, hs]), if_neg (mt SeatClaim.isStale_iff.2 hs), h]

/-- The claim behind a transaction: swept, and if it is the holder's and still held, changed. -/
def SeatTransaction.change (now : SeatClock) (r : SeatClaim) : SeatTransaction → SeatClaim
  | heartbeat holderId =>
    if isHeldBy holderId (r.sweep now) then { r.sweep now with lastHeartbeatAt := some now.nowIso }
    else r.sweep now
  | release holderId =>
    if isHeldBy holderId (r.sweep now) then
      { r.sweep now with status := .released, endedAt := some now.nowIso, endReason := some .released }
    else r.sweep now
  | _ => r.sweep now

theorem get?_updateHeld (t : Table SeatClaim) (now : SeatClock) (holderId : String) (f : SeatClaim → SeatClaim)
    (id : ℕ) :
    (if ((reclaimStaleHeld t now).select fun _ r => isHeldBy holderId r).isEmpty then
      (reclaimStaleHeld t now, false)
      else ((reclaimStaleHeld t now).update (fun _ r => isHeldBy holderId r) f, true)).1.get? id =
    (t.get? id).map fun r => if isHeldBy holderId (r.sweep now) then f (r.sweep now) else r.sweep now := by
  split
  · rename_i hempty
    rw [List.isEmpty_iff, ← List.length_eq_zero_iff, Table.length_select_eq_zero] at hempty
    rw [get?_reclaimStaleHeld]
    cases hr : t.get? id with
    | none => rfl
    | some r =>
      have hnot := hempty id (r.sweep now) (by rw [get?_reclaimStaleHeld, hr]; rfl)
      simp [hnot]
  · rw [Table.get?_update, get?_reclaimStaleHeld, Option.map_map]
    rfl

variable {C : SeatConfig} {t : Table SeatClaim} {now : SeatClock} {tx : SeatTransaction} {id : ℕ}
  {r r' : SeatClaim}

theorem commit_cases (h : (tx.commit C t now).get? id = some r') :
    (∃ r, t.get? id = some r ∧ r' = tx.change now r) ∨
    (id = t.nextId ∧ ∃ body holderId, tx = .claim body holderId ∧ r'.claimKey = body.claimKey ∧
      r'.holderId = holderId ∧
      ∀ i u, t.get? i = some u → (u.sweep now).status = .held → u.claimKey ≠ body.claimKey) := by
  have hswept : ∀ {o : Option SeatClaim}, (o.map fun r => r.sweep now) = some r' →
      ∃ r, o = some r ∧ r' = r.sweep now := by
    intro o ho
    obtain ⟨r, hr, rfl⟩ := Option.map_eq_some_iff.1 ho
    exact ⟨r, hr, rfl⟩
  cases tx with
  | claim body holderId =>
    simp only [SeatTransaction.commit, claimSeat] at h
    split at h
    · left
      apply hswept
      rw [← get?_reclaimStaleHeld]
      split at h <;> exact h
    · rename_i hnone
      rw [Table.get?_insert] at h
      split at h
      · right
        obtain rfl := Option.some.inj h
        refine ⟨‹_›, body, holderId, rfl, rfl, rfl, ?_⟩
        intro i u hu hheld hkey
        have hmem : (i, u.sweep now) ∈ (reclaimStaleHeld t now).select fun _ r =>
            r.claimKey == body.claimKey && r.status == .held := by
          refine Table.mem_select.2 ⟨by rw [get?_reclaimStaleHeld, hu]; rfl, ?_⟩
          simp [hheld, (u.becomes_sweep now).claimKey, hkey]
        rw [List.head?_eq_none_iff.1 hnone] at hmem
        cases hmem
      · exact .inl (hswept (by rw [← get?_reclaimStaleHeld, h]))
  | heartbeat holderId =>
    simp only [SeatTransaction.commit, heartbeatSeat] at h
    rw [get?_updateHeld] at h
    obtain ⟨r, hr, rfl⟩ := Option.map_eq_some_iff.1 h
    exact .inl ⟨r, hr, rfl⟩
  | release holderId =>
    simp only [SeatTransaction.commit, releaseSeat] at h
    rw [get?_updateHeld] at h
    obtain ⟨r, hr, rfl⟩ := Option.map_eq_some_iff.1 h
    exact .inl ⟨r, hr, rfl⟩
  | list claimKey seat includeEnded =>
    exact .inl (hswept (by rw [← get?_reclaimStaleHeld]; exact h))

theorem get?_commit (h : t.get? id = some r) : (tx.commit C t now).get? id = some (tx.change now r) := by
  have hswept : (reclaimStaleHeld t now).get? id = some (r.sweep now) := by
    rw [get?_reclaimStaleHeld, h]
    rfl
  cases tx with
  | claim body holderId =>
    simp only [SeatTransaction.commit, claimSeat]
    split
    · split <;> exact hswept
    · exact Table.get?_insert_of_some hswept _
  | heartbeat holderId =>
    simp only [SeatTransaction.commit, heartbeatSeat]
    rw [get?_updateHeld, h]
    rfl
  | release holderId =>
    simp only [SeatTransaction.commit, releaseSeat]
    rw [get?_updateHeld, h]
    rfl
  | list claimKey seat includeEnded => exact hswept

theorem becomes_change (now : SeatClock) (r : SeatClaim) (tx : SeatTransaction) :
    r.Becomes (tx.change now r) := by
  have hsweep := r.becomes_sweep now
  cases tx with
  | claim body holderId => exact hsweep
  | heartbeat holderId =>
    simp only [SeatTransaction.change]
    split
    · exact ⟨hsweep.claimKey, hsweep.holderId, hsweep.held⟩
    · exact hsweep
  | release holderId =>
    simp only [SeatTransaction.change]
    split
    · exact ⟨hsweep.claimKey, hsweep.holderId, fun h => by cases h⟩
    · exact hsweep
  | list claimKey seat includeEnded => exact hsweep

theorem sweep_held (h : (r.sweep now).status = .held) :
    r.status = .held ∧ r.isStale now.nowTs = false ∧ r.sweep now = r := by
  unfold SeatClaim.sweep at h ⊢
  split at h
  · cases h
  · rename_i hno
    refine ⟨h, ?_, if_neg hno⟩
    simpa [h] using hno

theorem change_held (h : (tx.change now r).status = .held) :
    r.status = .held ∧ r.isStale now.nowTs = false ∧
      ((tx = .heartbeat r.holderId ∧ (tx.change now r).deadline = now.nowIso + r.ttlS) ∨
        (tx ≠ .heartbeat r.holderId ∧ (tx.change now r).deadline = r.deadline)) := by
  cases tx with
  | claim body holderId | list claimKey seat includeEnded =>
    obtain ⟨hheld, hstale, heq⟩ := sweep_held h
    exact ⟨hheld, hstale, .inr ⟨by simp, congrArg _ heq⟩⟩
  | heartbeat holderId =>
    simp only [SeatTransaction.change] at h ⊢
    split at h
    · rename_i hown
      obtain ⟨hheld, hstale, heq⟩ := sweep_held h
      rw [heq] at hown
      obtain rfl : r.holderId = holderId := by
        rw [isHeldBy, Bool.and_eq_true, beq_iff_eq] at hown
        exact hown.1
      rw [heq, if_pos hown]
      exact ⟨hheld, hstale, .inl ⟨rfl, rfl⟩⟩
    · rename_i hother
      obtain ⟨hheld, hstale, heq⟩ := sweep_held h
      rw [heq] at hother
      rw [heq, if_neg hother]
      refine ⟨hheld, hstale, .inr ⟨?_, rfl⟩⟩
      rintro heq
      obtain rfl := SeatTransaction.heartbeat.inj heq
      exact hother (by simp [isHeldBy, hheld])
  | release holderId =>
    simp only [SeatTransaction.change] at h ⊢
    split at h
    · cases h
    · rename_i hother
      obtain ⟨hheld, hstale, heq⟩ := sweep_held h
      rw [if_neg hother, heq]
      exact ⟨hheld, hstale, .inr ⟨by simp, rfl⟩⟩

theorem change_heartbeat (hheld : r.status = .held) (hstale : r.isStale now.nowTs = false) :
    ((SeatTransaction.heartbeat r.holderId).change now r).status = .held ∧
      ((SeatTransaction.heartbeat r.holderId).change now r).deadline = now.nowIso + r.ttlS := by
  have hsweep : r.sweep now = r := if_neg (by simp [hstale])
  have hown : isHeldBy r.holderId r = true := by simp [isHeldBy, hheld]
  simp only [SeatTransaction.change, hsweep, hown, if_true]
  exact ⟨hheld, rfl⟩

theorem change_reclaimed (h : r.status = .held) :
    (tx.change now r).status = .reclaimed ↔ r.deadline ≤ now.nowTs := by
  have hsweep := r.sweep_status h now
  by_cases hle : r.deadline ≤ now.nowTs
  · rw [if_pos hle] at hsweep
    refine iff_of_true ?_ hle
    have hno : ∀ holderId, isHeldBy holderId (r.sweep now) = false := by simp [isHeldBy, hsweep]
    cases tx <;> simp [SeatTransaction.change, hno, hsweep]
  · rw [if_neg hle] at hsweep
    refine iff_of_false ?_ hle
    cases tx with
    | claim body holderId | list claimKey seat includeEnded => simp [SeatTransaction.change, hsweep]
    | heartbeat holderId | release holderId =>
      simp only [SeatTransaction.change]
      split <;> simp [hsweep]

/-! ## What every run keeps -/

/-- The claims of promises are there, and holders and held keys have one claim each. -/
structure Leases.Sound (l : Leases) : Prop where
  oneHolder : OneHolder l.claims
  oneHeld : OneHeld l.claims
  promises : ∀ id due, (id, due) ∈ l.promises → (l.claims.get? id).isSome

theorem OneHolder.commit (h : OneHolder t) (hfresh : freshHolder t tx = true) :
    OneHolder (tx.commit C t now) := by
  have hnew : ∀ body holderId i r, tx = .claim body holderId → t.get? i = some r → r.holderId ≠ holderId := by
    rintro body holderId i r rfl hr hholder
    rw [freshHolder, heartbeatAnswer, Option.isNone_iff_eq_none, List.head?_eq_none_iff] at hfresh
    have hmem : (i, r) ∈ t.select fun _ r => r.holderId == holderId :=
      Table.mem_select.2 ⟨hr, by simp [hholder]⟩
    rw [hfresh] at hmem
    cases hmem
  intro i j r u hr hu hholder
  obtain ⟨r₀, hr₀, rfl⟩ | ⟨hi, body, holderId, htx, -, hr', -⟩ := commit_cases hr
  · obtain ⟨u₀, hu₀, rfl⟩ | ⟨hj, body, holderId, htx, -, hu', -⟩ := commit_cases hu
    · rw [(becomes_change now r₀ tx).holderId, (becomes_change now u₀ tx).holderId] at hholder
      exact h i j r₀ u₀ hr₀ hu₀ hholder
    · rw [(becomes_change now r₀ tx).holderId, hu'] at hholder
      exact absurd hholder (hnew body holderId i r₀ htx hr₀)
  · obtain ⟨u₀, hu₀, rfl⟩ | ⟨hj, -⟩ := commit_cases hu
    · rw [(becomes_change now u₀ tx).holderId, hr'] at hholder
      exact absurd hholder.symm (hnew body holderId j u₀ htx hu₀)
    · rw [hi, hj]

theorem OneHeld.commit (h : OneHeld t) : OneHeld (tx.commit C t now) := by
  -- A claim that is held behind the transaction is held behind its sweep.
  have hheld : ∀ r, (tx.change now r).status = .held → (r.sweep now).status = .held := by
    intro r hr
    obtain ⟨hheld, hstale, -⟩ := change_held hr
    rw [r.sweep_status hheld now, if_neg]
    rw [← SeatClaim.isStale_iff, hstale]
    exact Bool.false_ne_true
  intro i j r u hr hu hrs hus hkey
  obtain ⟨r₀, hr₀, rfl⟩ | ⟨hi, body, holderId, htx, hr', -, hfree⟩ := commit_cases hr
  · obtain ⟨u₀, hu₀, rfl⟩ | ⟨hj, body, holderId, htx, hu', -, hfree⟩ := commit_cases hu
    · rw [(becomes_change now r₀ tx).claimKey, (becomes_change now u₀ tx).claimKey] at hkey
      exact h i j r₀ u₀ hr₀ hu₀ ((becomes_change now r₀ tx).held hrs) ((becomes_change now u₀ tx).held hus) hkey
    · rw [(becomes_change now r₀ tx).claimKey, hu'] at hkey
      exact absurd hkey (hfree i r₀ hr₀ (hheld r₀ hrs))
  · obtain ⟨u₀, hu₀, rfl⟩ | ⟨hj, -⟩ := commit_cases hu
    · rw [(becomes_change now u₀ tx).claimKey, hr'] at hkey
      exact absurd hkey.symm (hfree j u₀ hu₀ (hheld u₀ hus))
    · rw [hi, hj]

theorem sound_start : Leases.start.Sound where
  oneHolder _ _ _ _ h := by cases h
  oneHeld _ _ _ _ h := by cases h
  promises _ _ h := by cases h

theorem mem_heartbeatAnswer {holderId : String} {e : ℕ × SeatClaim} (h : heartbeatAnswer t holderId = some e) :
    t.get? e.1 = some e.2 ∧ e.2.holderId = holderId := by
  obtain ⟨hget, hholder⟩ := Table.mem_select.1 (List.mem_of_mem_head? h)
  exact ⟨hget, by simpa using hholder⟩

/-- Every event keeps the leases sound. -/
theorem Leases.Sound.step {l : Leases} (h : l.Sound) (e : LeaseEvent) : (l.step C e).Sound := by
  cases e with
  | commit now tx =>
    simp only [Leases.step]
    split
    · refine ⟨h.oneHolder.commit ‹_›, h.oneHeld.commit, fun id due hmem => ?_⟩
      obtain ⟨r, hr⟩ := Option.isSome_iff_exists.1 (h.promises id due hmem)
      exact Option.isSome_iff_exists.2 ⟨_, get?_commit hr⟩
    · exact h
  | answer i =>
    simp only [Leases.step]
    split
    · refine ⟨h.oneHolder, h.oneHeld, fun id due hmem => ?_⟩
      obtain hmem | hmem := List.mem_append.1 hmem
      · obtain ⟨e, he, heq⟩ := Option.map_eq_some_iff.1 (Option.mem_toList.1 hmem)
        obtain ⟨rfl, -⟩ := Prod.mk.inj heq
        exact Option.isSome_iff_exists.2 ⟨_, (mem_heartbeatAnswer he).1⟩
      · exact h.promises id due hmem
    · exact h

/-! ## When the leases are kept -/

/-- No promise goes beyond the end of its claim. -/
def Leases.Covered (l : Leases) : Prop :=
  ∀ id due, (id, due) ∈ l.promises → ∀ r, l.claims.get? id = some r → r.status = .held → due ≤ r.deadline

theorem kept_iff_covered {l : Leases} (h : l.Sound) : l.Kept C ↔ l.Covered := by
  constructor
  · intro hk id due hmem r hr hheld
    by_contra hlt
    -- A listing at the end of the claim reclaims it.
    have hnow := hk.lease id due hmem r hr hheld ⟨0, r.deadline⟩ (.list none none false) (not_le.1 hlt) _
      (get?_commit hr)
    exact hnow ((change_reclaimed hheld).2 le_rfl)
  · intro hc
    refine ⟨h.oneHeld, fun id due hmem r hr hheld now tx hlt r' hr' hre => ?_⟩
    rw [get?_commit hr] at hr'
    obtain rfl := Option.some.inj hr'
    have hdue := hc id due hmem r hr hheld
    exact absurd ((change_reclaimed hheld).1 hre) (not_le.2 (lt_of_lt_of_le hlt hdue))

theorem covered_commit_iff {l : Leases} (h : l.Sound) (hc : l.Covered) (pending : List (String × ℚ)) :
    Leases.Covered ⟨tx.commit C l.claims now, pending, l.promises⟩ ↔
      ∀ id r, l.claims.get? id = some r → tx = .heartbeat r.holderId → r.status = .held →
        r.isStale now.nowTs = false → ∀ due, (id, due) ∈ l.promises → due ≤ now.nowIso + r.ttlS := by
  constructor
  · rintro hc' id r hr rfl hheld hstale due hmem
    obtain ⟨hheld', hdeadline⟩ := change_heartbeat hheld hstale
    rw [← hdeadline]
    exact hc' id due hmem _ (get?_commit hr) hheld'
  · intro hbeat id due hmem r' hr' hheld'
    obtain ⟨r, hr⟩ := Option.isSome_iff_exists.1 (h.promises id due hmem)
    obtain rfl := Option.some.inj ((get?_commit hr).symm.trans hr')
    obtain ⟨hheld, hstale, ⟨htx, hdeadline⟩ | ⟨-, hdeadline⟩⟩ := change_held hheld'
    · rw [hdeadline]
      exact hbeat id r hr htx hheld hstale due hmem
    · rw [hdeadline]
      exact hc id due hmem r hr hheld

/-- **One step.** -/
theorem kept_step_iff {l : Leases} (h : l.Sound) (hk : l.Kept C) (e : LeaseEvent) :
    (l.step C e).Kept C ↔ e.Keeps l := by
  have hc := (kept_iff_covered h).1 hk
  rw [kept_iff_covered (h.step e)]
  cases e with
  | commit now tx =>
    cases tx with
    | heartbeat holderId =>
      refine (covered_commit_iff h hc _).trans ⟨fun hbeat id r hr hown => ?_, fun hkeeps id r hr htx hheld => ?_⟩
      · rw [isHeldBy, Bool.and_eq_true, beq_iff_eq, beq_iff_eq] at hown
        exact hbeat id r hr (by rw [hown.1]) hown.2
      · obtain rfl := SeatTransaction.heartbeat.inj htx
        exact hkeeps id r hr (by simp [isHeldBy, hheld])
    | claim body holderId =>
      refine iff_of_true ?_ trivial
      simp only [Leases.step]
      split
      · exact (covered_commit_iff h hc _).2 fun _ _ _ htx => by cases htx
      · exact hc
    | release holderId | list claimKey seat includeEnded =>
      exact iff_of_true ((covered_commit_iff h hc _).2 fun _ _ _ htx => by cases htx) trivial
  | answer i =>
    simp only [Leases.step]
    rcases hi : l.pending[i]? with - | ⟨holderId, nowTs⟩
    · refine iff_of_true hc fun holderId nowTs hsome => ?_
      rw [hi] at hsome
      cases hsome
    · constructor
      · intro hc' holderId' nowTs' hsome id r hr hown
        obtain ⟨rfl, rfl⟩ := Prod.mk.inj (Option.some.inj (hi.symm.trans hsome))
        rw [isHeldBy, Bool.and_eq_true, beq_iff_eq, beq_iff_eq] at hown
        -- The row that is read is the one of the holder.
        rcases hans : heartbeatAnswer l.claims holderId with - | e
        · have hmem : (id, r) ∈ l.claims.select fun _ r => r.holderId == holderId :=
            Table.mem_select.2 ⟨hr, by simp [hown.1]⟩
          rw [List.head?_eq_none_iff.1 hans] at hmem
          cases hmem
        · obtain ⟨hget, hholder⟩ := mem_heartbeatAnswer hans
          obtain rfl := h.oneHolder e.1 id e.2 r hget hr (hholder.trans hown.1.symm)
          obtain rfl := Option.some.inj (hget.symm.trans hr)
          have hmem : (e.1, nowTs + e.2.expiresInS nowTs) ∈ promised l.claims holderId nowTs ++ l.promises := by
            rw [promised, hans]
            exact List.mem_append_left _ List.mem_cons_self
          have hdue := hc' e.1 _ hmem e.2 hget hown.2
          rw [SeatClaim.add_expiresInS, max_le_iff] at hdue
          exact hdue.1
      · intro hkeeps id due hmem r hr hheld
        obtain hmem | hmem := List.mem_append.1 hmem
        · obtain ⟨e, hans, heq⟩ := Option.map_eq_some_iff.1 (Option.mem_toList.1 hmem)
          obtain ⟨rfl, rfl⟩ := Prod.mk.inj heq
          obtain ⟨hget, hholder⟩ := mem_heartbeatAnswer hans
          obtain rfl := Option.some.inj (hget.symm.trans hr)
          rw [SeatClaim.add_expiresInS, max_le_iff]
          exact ⟨hkeeps holderId nowTs hi e.1 e.2 hget (by simp [isHeldBy, hholder, hheld]), le_rfl⟩
        · exact hc id due hmem r hr hheld

/-- **The leases are kept, and a key has one held claim at most, exactly in the runs in which no heartbeat
sets the end of its claim before a promise, or answers behind it.** -/
theorem kept_iff (C : SeatConfig) (events : List LeaseEvent) :
    System.Throughout (Leases.step C) (Leases.Kept C) .start events ↔
      System.EachStep (Leases.step C) (fun l e => e.Keeps l) .start events := by
  refine System.throughout_iff_eachStep (W := Leases.Sound) (fun _ e h => h.step e)
    (fun _ e h hk => kept_step_iff h hk e) sound_start ?_ events
  exact (kept_iff_covered sound_start).2 fun _ _ h => by cases h

def seatConfig : SeatConfig := ⟨fun seat => seat, 300⟩

/-- A claim, a heartbeat at 100 that is promised 300 seconds, and one that has read its clock at 50. -/
def lateHeartbeat : List LeaseEvent :=
  [.commit ⟨0, 0⟩ (.claim ⟨"operator-proxy", "cursor", none, none⟩ "h1"),
    .commit ⟨100, 100⟩ (.heartbeat "h1"), .answer 0, .commit ⟨50, 50⟩ (.heartbeat "h1")]

/-- A listing at 360 reclaims the claim, before the end at 400 of the promise. -/
theorem lateHeartbeat_not_kept :
    (lateHeartbeat.foldl (Leases.step seatConfig) .start).promises = [(1, 400)] ∧
    ((SeatTransaction.commit seatConfig (lateHeartbeat.foldl (Leases.step seatConfig) .start).claims ⟨360, 360⟩
      (.list none none false)).get? 1).map SeatClaim.status = some .reclaimed ∧
    ¬ System.Throughout (Leases.step seatConfig) (Leases.Kept seatConfig) .start lateHeartbeat := by
  have hmem : (1, 400) ∈ (lateHeartbeat.foldl (Leases.step seatConfig) .start).promises := by with_unfolding_all decide
  have hheld : ((lateHeartbeat.foldl (Leases.step seatConfig) .start).claims.get? 1).map SeatClaim.status =
    some .held := by with_unfolding_all decide
  have hre : ((SeatTransaction.commit seatConfig (lateHeartbeat.foldl (Leases.step seatConfig) .start).claims
    ⟨360, 360⟩ (.list none none false)).get? 1).map SeatClaim.status = some .reclaimed := by with_unfolding_all decide
  refine ⟨by with_unfolding_all decide, hre, ?_⟩
  rintro ⟨-, -, -, -, h⟩
  obtain ⟨r, hr, hrs⟩ := Option.map_eq_some_iff.1 hheld
  obtain ⟨r', hr', hrs'⟩ := Option.map_eq_some_iff.1 hre
  exact h.lease 1 400 hmem r hr hrs ⟨360, 360⟩ _ (by decide) r' hr' hrs'

end LlmGateway.Cortex
