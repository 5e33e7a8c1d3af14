import LlmGateway.Credit.Sweep

/-!
# The latch

`latch` records the upstream's refusal as a row stamped with the start of its window. `admit` looks
for a latch row with the stamp of the window it computes itself. Two calls whose instants lie in one
window compute the same stamp, and rows are never removed, so a latch stays in force until the window
changes (`latch_sticky`). The rows' times play no part: they only select further rows, and the stamp
alone decides whether a selected latch counts.
-/

namespace LlmGateway.Credit

theorem groupRows_latchRows (rows : List Entry) :
    (groupRows rows).latchRows = ofKind .latch rows := by
  induction rows using List.reverseRecOn with
  | nil => rfl
  | append_singleton rows row ih =>
    rw [groupRows_concat, ofKind_append]
    cases hk : row.kind <;> cases hid : row.reqId <;> simp [RowGroups.add, hk, hid, ih, ofKind]

/-- A latch row stamped with the start of the window. -/
def LatchedIn (windowStart : ℤ) (entries : List Entry) : Prop :=
  ∃ row ∈ entries, row.kind = .latch ∧ row.windowStart = windowStart

/-- **The snapshot of a window is latched exactly when a latch carries its stamp.** -/
theorem latchActive_iff {entries : List Entry} {window : ℤ × ℤ} {asOf : Option ℤ} {now ttl : ℤ} :
    (computeWindowSnapshot entries window asOf now ttl).latchActive = true ↔
      LatchedIn window.1 entries := by
  simp only [computeWindowSnapshot, RowGroups.latches, groupRows_latchRows, decide_eq_true_eq]
  constructor
  · intro hne
    obtain ⟨row, hrow⟩ := List.exists_mem_of_ne_nil _ hne
    obtain ⟨hmem, hstamp⟩ := List.mem_filter.1 hrow
    obtain ⟨hsel, hk⟩ := List.mem_filter.1 hmem
    exact ⟨row, List.mem_of_mem_filter hsel, by simpa using hk, by simpa using hstamp⟩
  · rintro ⟨row, hmem, hk, hstamp⟩
    have hsel : row ∈ windowRows entries window :=
      List.mem_filter.2 ⟨hmem, by simp [inWindow, hstamp]⟩
    have hlatch : row ∈ ofKind .latch (windowRows entries window) :=
      List.mem_filter.2 ⟨hsel, by simpa using hk⟩
    exact List.ne_nil_of_mem (List.mem_filter.2 ⟨hlatch, by simpa using hstamp⟩)

theorem LatchedIn.mono {windowStart : ℤ} {entries entries' : List Entry}
    (h : LatchedIn windowStart entries) (hp : entries <+: entries') :
    LatchedIn windowStart entries' := by
  obtain ⟨row, hrow, hlatch⟩ := h
  exact ⟨row, hp.subset hrow, hlatch⟩

theorem latchedIn_step {cfg : CreditConfig} {s : State} {c : Call} {reason : String}
    (hop : c.op = .latch reason) (hok : (latch cfg c.env s.ledger reason).1 = .ok ()) :
    LatchedIn (meterWindow c.env.now cfg).1 (step cfg s c).ledger.entries := by
  have hstep : (step cfg s c).ledger = (latch cfg c.env s.ledger reason).2 := by
    simp only [step, hop]
  rw [hstep]
  unfold latch at hok ⊢
  rcases runImmediate_cases c.env.db LedgerUnavailable.sqlite s.ledger
    (fun ledger => .ok ((), ledger.insert (latchRow cfg c.env.now reason))) with
    ⟨e, h⟩ | ⟨-, out, after, htxn, h⟩
  · rw [h] at hok
    cases hok
  · rw [h]
    cases htxn
    exact ⟨_, List.mem_append_right _ (List.mem_singleton_self _), rfl, rfl⟩

theorem checkBudget_of_latchActive {cfg : CreditConfig} {snap : WindowSnapshot}
    {reservation : Reservation} {resetAt : ℤ} (h : snap.latchActive = true) :
    checkBudget cfg snap reservation resetAt =
      .error ⟨.creditLatched, some reservation.usd, some 0, .latched resetAt snap.latchReason⟩ := by
  simp [checkBudget, h]

theorem LatchedIn.refused {cfg : CreditConfig} {env : Env} {ledger : Ledger}
    (h : LatchedIn (meterWindow env.now cfg).1 ledger.entries) (overruns : Overruns)
    (args : AdmitArgs) : ∃ r, (admitRequest cfg env overruns ledger args).1 = .refused r := by
  rcases @admitRequest_cases cfg env overruns ledger args with
    ⟨r, hr⟩ | ⟨r, hr⟩ | ⟨a, swept, snap, ha, -⟩
  · exact ⟨r, by rw [hr]⟩
  · exact ⟨r, by rw [hr]⟩
  · -- an admission would have passed the budget checks on the swept ledger, which is latched as well
    have hswept : LatchedIn (meterWindow env.now cfg).1 swept.entries := by
      rw [ha.swept_eq, expireStaleReservations_entries]
      exact h.mono (List.prefix_append _ _)
    have hactive : snap.latchActive = true := ha.snap_eq ▸ latchActive_iff.2 hswept
    have hbudget := ha.budget
    rw [checkBudget_of_latchActive hactive] at hbudget
    cases hbudget

/-- **The latch is sticky**: after a `latch` that succeeded at an instant, whatever calls of whatever
workers follow, every `admit` evaluated in the window of that instant refuses. -/
theorem latch_sticky {cfg : CreditConfig} {s t : State} {c : Call} {reason : String}
    (hop : c.op = .latch reason) (hok : (latch cfg c.env s.ledger reason).1 = .ok ())
    {calls : List Call} (hrun : (credit cfg).Run (step cfg s c) calls t) (env : Env) (worker : ℕ)
    (args : AdmitArgs) (hwindow : meterWindow env.now cfg = meterWindow c.env.now cfg) :
    ∃ r, (admitRequest cfg env (t.overruns worker) t.ledger args).1 = .refused r := by
  have hlatched := (latchedIn_step hop hok).mono (entries_le_of_run hrun)
  rw [← hwindow] at hlatched
  exact hlatched.refused _ args

/-- A latch at the start of 2026, a status a day later, and a request another day later, before the
reset on January 6. -/
theorem latch_sticky_january :
    let calls := [Sample.call 1440 .status]
    let c := Sample.call 0 (.latch "credit_balance_too_low")
    let s := stepAll shippedConfig (step shippedConfig .init c) calls
    let env := (Sample.call 2880 .status).env
    ∃ r, (admitRequest shippedConfig env (s.overruns 0) s.ledger
      ⟨"a", "claude-sonnet-5", [("max_tokens", .int 1000)], none, some 1000⟩).1 = .refused r := by
  intro calls c s env
  exact latch_sticky (s := .init) (c := c) rfl (by decide) (run_stepAll _ _ _) env 0 _
    (by decide)

end LlmGateway.Credit
