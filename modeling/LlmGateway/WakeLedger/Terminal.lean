import LlmGateway.WakeLedger.Change

/-!
# A wake that has ended stays as it is

A row that is delivered, refused or skipped keeps its state under any sequence of transactions: every
`UPDATE` of the ledger is guarded by `pending`, `claimed` or `unknown`, or names the rows that a guarded
selection of the same transaction found. The row itself leaves the table only with its turn, and its key
is not given to another row.
-/

namespace LlmGateway.WakeLedger

variable {R : Registry}

/-- Every row after a transaction is the row with its key before it, kept. -/
theorem step_descends (s : Store) (a : Action) :
    Table.Descends Kept s.ledger (step R s a).ledger := by
  cases hd : a.deletes with
  | false => exact .of_rel (step_kept s a hd)
  | true =>
    cases a with
    | deleteTurn id => exact .delete Kept.refl _ _
    | _ => cases hd

/-- Every row after a run is the row with its key before it, kept. -/
theorem run_descends {s t : Store} {as : List Action} (h : (system R).Run s as t) :
    Table.Descends Kept s.ledger t.ledger := by
  refine h.rel (R := fun s t => Table.Descends Kept s.ledger t.ledger) (fun s => .refl Kept.refl _) ?_ ?_
  · intro s t u hst htu
    exact Table.Descends.trans Kept.trans hst htu
  · intro s a t hstep
    obtain rfl : step R s a = t := Option.some.inj hstep
    exact step_descends s a

theorem step_isSome {s : Store} {a : Action} {id : ℕ} {r : Row} (hr : s.ledger.get? id = some r)
    (ha : a ≠ .deleteTurn r.turnId) :
    ∃ r', (step R s a).ledger.get? id = some r' ∧ r'.turnId = r.turnId := by
  cases hd : a.deletes with
  | false =>
    obtain ⟨r', hr', hkept⟩ := (step_kept (R := R) s a hd).exists_row hr
    exact ⟨r', hr', hkept.turnId⟩
  | true =>
    cases a with
    | deleteTurn turn =>
      have hne : r.turnId ≠ turn := fun h => ha (by rw [h])
      refine ⟨r, ?_, rfl⟩
      change (s.ledger.delete _).get? id = some r
      rw [Table.get?_delete, hr]
      simp [Option.filter, hne]
    | _ => cases hd

theorem run_isSome {s t : Store} {as : List Action} (h : (system R).Run s as t) {id : ℕ} {r : Row}
    (hr : s.ledger.get? id = some r) (has : .deleteTurn r.turnId ∉ as) :
    (t.ledger.get? id).isSome = true := by
  induction h generalizing r with
  | nil => simp [hr]
  | @cons s u t a as hstep _ ih =>
    obtain rfl : step R s a = u := Option.some.inj hstep
    rw [List.mem_cons, not_or] at has
    obtain ⟨r', hr', hturn⟩ := step_isSome (R := R) hr (Ne.symm has.1)
    exact ih hr' (hturn ▸ has.2)

/-- **Terminal states are absorbing**: along every run, a row that is delivered, refused or skipped keeps
its state, and it stays in the ledger until its turn is deleted. -/
theorem terminal_absorbing {s t : Store} {as : List Action} (h : (system R).Run s as t) {id : ℕ}
    {r : Row} (hr : s.ledger.get? id = some r) (hterm : r.state.isTerminal = true) :
    (∀ r', t.ledger.get? id = some r' → r'.state = r.state) ∧
      (.deleteTurn r.turnId ∉ as → (t.ledger.get? id).isSome = true) := by
  refine ⟨fun r' hr' => ?_, fun has => run_isSome h hr has⟩
  obtain ⟨r₀, hr₀, hkept⟩ := (run_descends h).row id r' (Table.get?_lt hr) hr'
  obtain rfl := Option.some.inj (hr.symm.trans hr₀)
  exact hkept.state hterm

/-- The history of a wake that is delivered. -/
def deliveredHistory : List Action :=
  [.getCursor "endpoint-wake-dispatcher", .insertTurn (requestTurn "t" 1),
    .advanceScan 990 "endpoint-wake-dispatcher" 0 1 [⟨"orion", "t", 1, 1, none⟩],
    .claimDueWakes (claimAt 1000 "w1"),
    .recordWakeResult 1005 "w1" "delivered" none ⟨some "exact", none, none⟩ none]

/-- What happens to the delivered wake afterwards: a second result, a suppression and another claim. -/
def afterDelivery : List Action :=
  [.recordWakeResult 1006 "w1" "refused" none ⟨none, none, none⟩ none,
    .suppressEndpointWakeForTurn 1007 "orion" "t" 1 "deduped_owed_wake",
    .foldExpiredClaims 2000 300, .claimDueWakes (claimAt 2000 "w2")]

theorem delivered_stays :
    ∃ r, ((runFrom Registry.plain .empty deliveredHistory).ledger.get? 1 = some r ∧
      r.state = .delivered) ∧
      ∀ r', (runFrom Registry.plain (runFrom Registry.plain .empty deliveredHistory)
        afterDelivery).ledger.get? 1 = some r' → r'.state = .delivered := by
  have hobs : ((runFrom Registry.plain .empty deliveredHistory).ledger.get? 1).map Row.state =
      some .delivered := by with_unfolding_all decide
  obtain ⟨r, hr, hstate⟩ := Option.map_eq_some_iff.1 hobs
  refine ⟨r, ⟨hr, hstate⟩, fun r' hr' => ?_⟩
  have habs := (terminal_absorbing (run_runFrom (R := Registry.plain) _ afterDelivery) hr
    (by simp [hstate, RowState.isTerminal])).1 r' hr'
  rw [habs, hstate]

end LlmGateway.WakeLedger
