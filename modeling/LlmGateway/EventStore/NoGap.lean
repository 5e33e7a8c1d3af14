import LlmGateway.EventStore.Subscribe

/-!
# No gap

A stored event behind the `seq` that a subscriber resumes from, if it matches the filter, is sent, queued or under way
in every state, as long as no step loses an event (`no_gap`). The steps that lose one are a page read that fails, the
fan-out of an event that matches in the table only, and the end of a push task that was cancelled with an event in hand:
a client that subscribes again can lose the event that came in between (`taken_then_cancelled`).
-/

namespace LlmGateway.EventStore

variable {S : Subscription} {s s' : Connection}

/-- The event is sent, queued or under way. -/
def Accounted (s : Connection) (e : Event) : Prop := e ∈ s.sent ∨ .stored e ∈ s.queue ∨ UnderWay s e

/-- Every event that the subscriber is to get is accounted for, and what waits for the filter passes it. -/
structure Covers (S : Subscription) (s : Connection) : Prop where
  ascending : s.table.Pairwise fun e e' => e.seq < e'.seq
  queued : ∀ e, .stored e ∈ s.queue → matchesFilter e.row S.filt = true → matchesFilter e.live S.filt = true
  held : ∀ e, s.push.holds = some (.stored e) → matchesFilter e.row S.filt = true → matchesFilter e.live S.filt = true
  accounted : ∀ e ∈ s.table, S.resumeFrom < e.seq → matchesFilter e.row S.filt = true → Accounted s e

theorem Covers.of_fresh (h : s.Fresh) : Covers S s := by
  refine ⟨h.ascending, ?_, ?_, fun e _ _ _ => .inr (.inr (.replay ?_))⟩
  · rw [h.queue]
    nofun
  · rw [h.push]
    nofun
  · rw [h.handler]
    trivial

/-! ## The queue -/

theorem Connection.put_eq_some {x : Live} (h : s.put S x = some s') : s' = { s with queue := s.queue ++ [x] } := by
  unfold Connection.put at h
  split at h
  · cases h
  · exact (Option.some.inj h).symm

theorem Covers.commit {batch : List Event} (h : Covers S s) (hstep : subscribeStep S s (.commit batch) = some s') :
    Covers S s' := by
  simp only [subscribeStep] at hstep
  split at hstep
  · rename_i happend
    obtain rfl := Option.some.inj hstep
    refine ⟨of_decide_eq_true happend, h.queued, h.held, fun e he hseq hmatch => ?_⟩
    obtain he | he := List.mem_append.1 he
    · obtain hsent | hqueue | hpending | hreplay | hheld := h.accounted e he hseq hmatch
      · exact .inl hsent
      · exact .inr (.inl hqueue)
      · exact .inr (.inr (.pending (List.mem_append_left _ hpending)))
      · exact .inr (.inr (.replay hreplay))
      · exact .inr (.inr (.held hheld))
    · exact .inr (.inr (.pending (List.mem_append_right _ he)))
  · cases hstep

theorem Covers.fanOut (h : Covers S s) (hcareful : careful S s .fanOut = true)
    (hstep : subscribeStep S s .fanOut = some s') : Covers S s' := by
  simp only [subscribeStep] at hstep
  split at hstep
  · cases hstep
  · rename_i e₀ pending hpending
    obtain rfl := Connection.put_eq_some hstep
    refine ⟨h.ascending, fun e he hmatch => ?_, h.held, fun e he hseq hmatch => ?_⟩
    · obtain he | he := List.mem_append.1 he
      · exact h.queued e he hmatch
      · obtain rfl := Live.stored.inj (List.mem_singleton.1 he)
        simpa [careful, hpending, hmatch] using hcareful
    · obtain hsent | hqueue | hpending' | hreplay | hheld := h.accounted e he hseq hmatch
      · exact .inl hsent
      · exact .inr (.inl (List.mem_append_left _ hqueue))
      · rw [hpending] at hpending'
        obtain rfl | hpending' := List.mem_cons.1 hpending'
        · exact .inr (.inl (List.mem_append_right _ List.mem_cons_self))
        · exact .inr (.inr (.pending hpending'))
      · exact .inr (.inr (.replay hreplay))
      · exact .inr (.inr (.held hheld))

theorem Covers.fanOutTransient {fields : Fields} (h : Covers S s)
    (hstep : subscribeStep S s (.fanOutTransient fields) = some s') : Covers S s' := by
  obtain rfl := Connection.put_eq_some hstep
  refine ⟨h.ascending, fun e he hmatch => ?_, h.held, fun e he hseq hmatch => ?_⟩
  · obtain he | he := List.mem_append.1 he
    · exact h.queued e he hmatch
    · cases List.mem_singleton.1 he
  · obtain hsent | hqueue | hpending | hreplay | hheld := h.accounted e he hseq hmatch
    · exact .inl hsent
    · exact .inr (.inl (List.mem_append_left _ hqueue))
    · exact .inr (.inr (.pending hpending))
    · exact .inr (.inr (.replay hreplay))
    · exact .inr (.inr (.held hheld))

/-! ## The handler -/

theorem Covers.handle (h : Covers S s) {sent : List Event} {handler : Handler} {push : Push}
    (hsent : ∀ e ∈ s.sent, e ∈ sent) (hpush : push.holds = s.push.holds)
    (hreplay : ∀ e ∈ s.table, S.resumeFrom < e.seq → matchesFilter e.row S.filt = true → s.handler.replays e →
      e ∈ sent ∨ handler.replays e) :
    Covers S { s with sent := sent, handler := handler, push := push } := by
  refine ⟨h.ascending, h.queued, fun e he => h.held e (hpush ▸ he), fun e he hseq hmatch => ?_⟩
  obtain hs | hqueue | hpending | hr | hheld := h.accounted e he hseq hmatch
  · exact .inl (hsent e hs)
  · exact .inr (.inl hqueue)
  · exact .inr (.inr (.pending hpending))
  · obtain hs | hr := hreplay e he hseq hmatch hr
    · exact .inl hs
    · exact .inr (.inr (.replay hr))
  · exact .inr (.inr (.held (hpush.trans hheld)))

theorem Covers.subscribe {resume : Option ℕ} (h : Covers S s)
    (hstep : subscribeStep S s (.subscribe resume) = some s') : Covers S s' := by
  simp only [subscribeStep] at hstep
  split at hstep
  · obtain rfl := Option.some.inj hstep
    exact h.handle (fun _ he => he) rfl fun e _ hseq _ _ => .inr hseq
  · rename_i hidle
    obtain rfl := Option.some.inj hstep
    refine h.handle (fun _ he => he) rfl fun e _ _ _ hr => ?_
    rw [hidle] at hr
    exact hr.elim
  · cases hstep

theorem replays_page {last : ℕ} {e : Event} (h : s.table.Pairwise fun e e' => e.seq < e'.seq) (he : e ∈ s.table)
    (hlast : last < e.seq) : (Handler.replaying true last (s.page last)
      (decide (replayPageSize ≤ (s.page last).length))).replays e := by
  have hmem : e ∈ s.table.filter fun e => decide (last < e.seq) :=
    List.mem_filter.2 ⟨he, decide_eq_true hlast⟩
  have hascending := h.filter fun e => decide (last < e.seq)
  rw [← List.take_append_drop replayPageSize (s.table.filter fun e => decide (last < e.seq))] at hmem hascending
  obtain htake | hdrop := List.mem_append.1 hmem
  · exact .inl htake
  · refine .inr ⟨decide_eq_true ?_, hlast, fun r hr => (List.pairwise_append.1 hascending).2.2 r hr e hdrop⟩
    have hlength := List.length_pos_of_mem hdrop
    rw [List.length_drop] at hlength
    rw [Connection.page, List.length_take]
    omega

theorem Covers.readPage {succeeds : Bool} (h : Covers S s) (hcareful : careful S s (.readPage succeeds) = true)
    (hstep : subscribeStep S s (.readPage succeeds) = some s') : Covers S s' := by
  simp only [subscribeStep] at hstep
  split at hstep
  · rename_i first last hreading
    obtain rfl := Option.some.inj hstep
    refine h.handle (fun _ he => he) rfl fun e he _ _ hr => .inr ?_
    rw [hreading] at hr
    cases first with
    | false => exact hr.elim
    | true =>
      simp only [careful, hreading] at hcareful
      subst hcareful
      exact replays_page h.ascending he hr
  · cases hstep

theorem Covers.replay (h : Covers S s) (hstep : subscribeStep S s .replay = some s') : Covers S s' := by
  simp only [subscribeStep] at hstep
  split at hstep
  · rename_i first last e₀ rest full hreplaying
    obtain rfl := Option.some.inj hstep
    have hreplay : ∀ e, s.handler.replays e → e = e₀ ∨ (Handler.replaying first e₀.seq rest full).replays e := by
      intro e hr
      rw [hreplaying] at hr
      cases first with
      | false => exact hr.elim
      | true =>
        obtain hr | ⟨hfull, -, hrest⟩ := hr
        · obtain rfl | hr := List.mem_cons.1 hr
          · exact .inl rfl
          · exact .inr (.inl hr)
        · exact .inr (.inr ⟨hfull, hrest e₀ List.mem_cons_self, fun r hr => hrest r (List.mem_cons_of_mem _ hr)⟩)
    unfold Connection.send
    split
    · refine h.handle (fun e he => List.mem_append_left _ he) rfl fun e _ _ _ hr => ?_
      obtain rfl | hr := hreplay e hr
      · exact .inl (List.mem_append_right _ List.mem_cons_self)
      · exact .inr hr
    · rename_i hno
      refine h.handle (fun e he => he) rfl fun e _ _ hmatch hr => ?_
      obtain rfl | hr := hreplay e hr
      · exact absurd hmatch hno
      · exact .inr hr
  · rename_i first last full hreplaying
    obtain rfl := Option.some.inj hstep
    refine h.handle (fun _ he => he) rfl fun e _ _ _ hr => .inr ?_
    rw [hreplaying] at hr
    cases first with
    | false => exact hr.elim
    | true =>
      obtain hr | ⟨rfl, hlast, -⟩ := hr
      · cases hr
      · exact hlast
  · cases hstep

@[simp] theorem Push.holds_cancel (p : Push) : p.cancel.holds = p.holds := by
  cases p <;> rfl

theorem Covers.cancelPush (h : Covers S s) (hstep : subscribeStep S s .cancelPush = some s') : Covers S s' := by
  simp only [subscribeStep] at hstep
  split at hstep
  · rename_i hsnapshot
    obtain rfl := Option.some.inj hstep
    refine h.handle (fun _ he => he) (Push.holds_cancel _) fun e _ _ _ hr => ?_
    rw [hsnapshot] at hr
    exact hr.elim
  · cases hstep

theorem Covers.startPush (h : Covers S s) (hstep : subscribeStep S s .startPush = some s') : Covers S s' := by
  simp only [subscribeStep] at hstep
  split at hstep
  case h_3 => cases hstep
  all_goals
    rename_i hcancelling hpush
    obtain rfl := Option.some.inj hstep
    refine h.handle (fun _ he => he) (by rw [hpush]; rfl) fun e _ _ _ hr => ?_
    rw [hcancelling] at hr
    exact hr.elim

theorem Covers.acknowledge (h : Covers S s) (hstep : subscribeStep S s .acknowledge = some s') : Covers S s' := by
  simp only [subscribeStep] at hstep
  split at hstep
  · rename_i hacknowledging
    obtain rfl := Option.some.inj hstep
    refine h.handle (fun _ he => he) rfl fun e _ _ _ hr => ?_
    rw [hacknowledging] at hr
    exact hr.elim
  · cases hstep

/-! ## The push task -/

theorem Covers.push (h : Covers S s) {queue : List Live} {sent : List Event} {push : Push}
    (hsent : ∀ e ∈ s.sent, e ∈ sent) (hqueue : ∀ e, .stored e ∈ queue → .stored e ∈ s.queue)
    (hpush : ∀ e, push.holds = some (.stored e) → .stored e ∈ s.queue ∨ s.push.holds = some (.stored e))
    (hkeeps : ∀ e, matchesFilter e.row S.filt = true → .stored e ∈ s.queue ∨ s.push.holds = some (.stored e) →
      e ∈ sent ∨ .stored e ∈ queue ∨ push.holds = some (.stored e)) :
    Covers S { s with queue := queue, sent := sent, push := push } := by
  refine ⟨h.ascending, fun e he => h.queued e (hqueue e he), fun e he hmatch => ?_, fun e he hseq hmatch => ?_⟩
  · obtain he | he := hpush e he
    · exact h.queued e he hmatch
    · exact h.held e he hmatch
  · have hkept : e ∈ sent ∨ .stored e ∈ queue ∨ push.holds = some (.stored e) →
        Accounted { s with queue := queue, sent := sent, push := push } e := by
      rintro (hs | hq | hh)
      · exact .inl hs
      · exact .inr (.inl hq)
      · exact .inr (.inr (.held hh))
    obtain hs | hq | hpending | hr | hh := h.accounted e he hseq hmatch
    · exact .inl (hsent e hs)
    · exact hkept (hkeeps e hmatch (.inl hq))
    · exact .inr (.inr (.pending hpending))
    · exact .inr (.inr (.replay hr))
    · exact hkept (hkeeps e hmatch (.inr hh))

theorem Covers.take (h : Covers S s) (hstep : subscribeStep S s .take = some s') : Covers S s' := by
  simp only [subscribeStep] at hstep
  split at hstep
  · rename_i cancelled x queue hpush hqueue
    obtain rfl := Option.some.inj hstep
    refine h.push (fun _ he => he) (fun e he => ?_) (fun e he => ?_) fun e _ he => ?_
    · rw [hqueue]
      exact List.mem_cons_of_mem _ he
    · rw [hqueue, ← Option.some.inj he]
      exact .inl List.mem_cons_self
    · rw [hqueue, hpush] at he
      obtain he | he := he
      · obtain rfl | he := List.mem_cons.1 he
        · exact .inr (.inr rfl)
        · exact .inr (.inl he)
      · cases he
  · cases hstep

theorem Covers.write (h : Covers S s) (hstep : subscribeStep S s .write = some s') : Covers S s' := by
  simp only [subscribeStep] at hstep
  split at hstep
  · rename_i e₀ cancelled hpush
    obtain rfl := Option.some.inj hstep
    refine h.push (fun _ he => List.mem_append_left _ he) (fun _ he => he) nofun fun e _ he => ?_
    rw [hpush] at he
    obtain he | he := he
    · exact .inr (.inl he)
    · obtain rfl := Live.stored.inj (Option.some.inj he)
      exact .inl (List.mem_append_right _ List.mem_cons_self)
  · rename_i fields cancelled hpush
    obtain rfl := Option.some.inj hstep
    refine h.push (fun _ he => he) (fun _ he => he) nofun fun e _ he => ?_
    rw [hpush] at he
    obtain he | he := he
    · exact .inr (.inl he)
    · cases Option.some.inj he
  · cases hstep

theorem holds_of_resumePush {p p' : Push} (h : resumePush S p = some p') :
    (∀ x, p'.holds = some x → p.holds = some x) ∧ ∀ x, p.holds = some x →
      p'.holds = some x ∨ p.givesUp = some x ∨ matchesFilter x.fields S.filt = false := by
  unfold resumePush at h
  split at h
  · obtain rfl := Option.some.inj h
    exact ⟨nofun, fun x hx => .inr (.inl hx)⟩
  · obtain rfl := Option.some.inj h
    exact ⟨fun x hx => hx, fun x hx => .inl hx⟩
  · rename_i x₀
    obtain rfl := Option.some.inj h
    split
    · exact ⟨fun x hx => hx, fun x hx => .inl hx⟩
    · rename_i hno
      refine ⟨nofun, fun x hx => .inr (.inr ?_)⟩
      rw [← Option.some.inj hx]
      exact Bool.eq_false_iff.2 hno
  · obtain rfl := Option.some.inj h
    exact ⟨nofun, fun x hx => .inr (.inl hx)⟩
  · obtain rfl := Option.some.inj h
    exact ⟨nofun, nofun⟩
  · obtain rfl := Option.some.inj h
    exact ⟨nofun, nofun⟩
  · cases h

theorem Covers.resumePush (h : Covers S s) (hcareful : careful S s .resumePush = true)
    (hstep : subscribeStep S s .resumePush = some s') : Covers S s' := by
  obtain ⟨p', hp', rfl⟩ := Option.map_eq_some_iff.1 hstep
  obtain ⟨hback, hon⟩ := holds_of_resumePush hp'
  refine h.push (fun _ he => he) (fun _ he => he) (fun e he => .inr (hback _ he)) fun e hmatch he => ?_
  obtain he | he := he
  · exact .inr (.inl he)
  · obtain hkept | hgiven | hno := hon _ he
    · exact .inr (.inr hkept)
    · simp [careful, hgiven, hmatch] at hcareful
    · rw [Live.fields, h.held e he hmatch] at hno
      cases hno

/-! ## Runs -/

/-- A careful step keeps what is delivered, queued or still to be read complete. -/
theorem Covers.step (h : Covers S s) {a : SubscribeAct} (hcareful : careful S s a = true)
    (hstep : subscribeStep S s a = some s') : Covers S s' := by
  cases a with
  | commit batch => exact h.commit hstep
  | fanOut => exact h.fanOut hcareful hstep
  | fanOutTransient fields => exact h.fanOutTransient hstep
  | subscribe resume => exact h.subscribe hstep
  | readPage succeeds => exact h.readPage hcareful hstep
  | replay => exact h.replay hstep
  | cancelPush => exact h.cancelPush hstep
  | startPush => exact h.startPush hstep
  | acknowledge => exact h.acknowledge hstep
  | take => exact h.take hstep
  | write => exact h.write hstep
  | resumePush => exact h.resumePush hcareful hstep

/-- **No gap.** In every state of a run whose steps are careful, a stored event behind the resume point whose row
matches the filter is sent, queued or under way; when nothing is under way, it is sent or queued. -/
theorem no_gap (h : ((subscription S).restrict fun s a => careful S s a = true).Reachable s) {e : Event}
    (he : e ∈ s.table) (hseq : S.resumeFrom < e.seq) (hmatch : matchesFilter e.row S.filt = true) :
    (e ∈ s.sent ∨ .stored e ∈ s.queue ∨ UnderWay s e) ∧ (AtRest s → e ∈ s.sent ∨ .stored e ∈ s.queue) := by
  have hcovers : Covers S s := h.invariant (fun _ => .of_fresh) fun _ _ _ hs ⟨hcareful, hstep⟩ => hs.step hcareful hstep
  refine ⟨hcovers.accounted e he hseq hmatch, fun hrest => ?_⟩
  obtain hs | hq | hunder := hcovers.accounted e he hseq hmatch
  · exact .inl hs
  · exact .inr hq
  · exact absurd hunder (hrest.not_underWay e)

/-! ## A client that subscribes again -/

/-- A client that follows dispatches from the beginning. -/
def dispatches : Subscription := ⟨[("signal", "dispatch.*")], 0, 1000⟩

/-- The end of a dispatch. -/
def dispatchDone : Event :=
  ⟨1, [("seq", "1"), ("signal", "dispatch.done"), ("role", "coordination")],
    [("signal", "dispatch.done"), ("role", "coordination")]⟩

/-- Its connection, with a table and a queue, and with what it was sent. -/
def Connection.of (table : List Event) (queue : List Live) (sent : List Event) (handler : Handler) (push : Push) :
    Connection := ⟨table, [], queue, sent, handler, push⟩

/-- The first message, up to where the handler waits for another. -/
def firstSubscribe : List SubscribeAct :=
  [.subscribe none, .readPage true, .replay, .cancelPush, .startPush, .acknowledge]

/-- The push task sends the event before the client subscribes again. -/
def sentThenCancelled : List SubscribeAct :=
  firstSubscribe ++ [.commit [dispatchDone], .fanOut, .take, .resumePush, .resumePush, .write, .subscribe none,
    .cancelPush, .resumePush, .startPush, .acknowledge]

theorem no_gap_sentThenCancelled :
    dispatchDone ∈ (Connection.of [dispatchDone] [] [dispatchDone] .idle (.next none false)).sent ∨
      .stored dispatchDone ∈ (Connection.of [dispatchDone] [] [dispatchDone] .idle (.next none false)).queue := by
  have hfresh : (Connection.of [] [] [] .connected .absent).Fresh := ⟨.nil, rfl, rfl, rfl, rfl⟩
  have hrun : System.exec (System.guarded (subscribeStep dispatches) fun s a => careful dispatches s a = true)
      (Connection.of [] [] [] .connected .absent) sentThenCancelled =
      some (Connection.of [dispatchDone] [] [dispatchDone] .idle (.next none false)) := by decide
  exact (no_gap (System.reachable_of_exec_guarded hfresh hrun) List.mem_cons_self (by decide) (by decide)).2
    ⟨rfl, fun _ => id, rfl⟩

/-- The get of the push task is over when the client subscribes again. -/
def takenThenCancelled : List SubscribeAct :=
  firstSubscribe ++ [.commit [dispatchDone], .fanOut, .take, .subscribe none, .cancelPush, .resumePush, .startPush,
    .acknowledge]

/-- The event that the cancelled task had in hand is lost: nothing is under way, and it was not sent and is not
queued. -/
theorem taken_then_cancelled : ∃ s, (subscription dispatches).Reachable s ∧ AtRest s ∧ dispatchDone ∈ s.table ∧
    dispatches.resumeFrom < dispatchDone.seq ∧ matchesFilter dispatchDone.row dispatches.filt = true ∧
    matchesFilter dispatchDone.live dispatches.filt = true ∧ dispatchDone ∉ s.sent ∧
    .stored dispatchDone ∉ s.queue := by
  have hfresh : (Connection.of [] [] [] .connected .absent).Fresh := ⟨.nil, rfl, rfl, rfl, rfl⟩
  have hrun : System.exec (subscribeStep dispatches) (Connection.of [] [] [] .connected .absent) takenThenCancelled =
      some (Connection.of [dispatchDone] [] [] .idle (.next none false)) := by decide
  exact ⟨_, System.reachable_of_exec hfresh hrun, ⟨rfl, fun _ => id, rfl⟩, List.mem_cons_self, by decide,
    by decide, by decide, List.not_mem_nil, List.not_mem_nil⟩

end LlmGateway.EventStore
