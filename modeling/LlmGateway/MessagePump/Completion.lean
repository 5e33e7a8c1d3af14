import LlmGateway.Foundations.System
import LlmGateway.MessagePump.Pump

/-!
# Which exits of the receive loop complete the pending requests

When the receive loop ends, no request that was registered before is to stay pending. The loop has four ways out. After
an error that it takes for a permanent disconnection it fails all pending requests itself; when `stop` cancels it, `stop`
cancels them afterwards. But when it finds at its head that the transport is not connected, and when another than `stop`
cancels it, nobody completes them.

`completed_of_careful` says that these two are all: where the loop leaves by them only while no registered request is
pending, every state has what is wanted, and any other such step leads to a state that has not.
-/

namespace LlmGateway.MessagePump

open Pump

variable {Message : Type*} {format : MessageFormat Message} {s t : Pump Message} {id : String} {f : ℕ}

/-! ## What is wanted -/

/-- The future is not done. -/
def Open (futures : List (RequestFuture Message)) (f : ℕ) : Prop :=
  ∃ future, futures[f]? = some future ∧ future.outcome.isPending = true

/-- **When the loop has ended, no future that was registered before is pending**, unless a call of `stop` has still to
clean up. -/
def Completed (s : Pump Message) : Prop :=
  s.stopping = 0 → ∀ made, s.loop = .ended made → ∀ id f, s.pendingRequests.get? id = some f → f < made →
    ¬ Open s.futures f

/-- A step that ends the loop without a word: at its head, where the transport is not connected, or by a cancellation
that is not `stop`'s. -/
def EndsSilently (s : Pump Message) : PumpEvent Message → Prop
  | .begin | .receive _ | .receiveTimeout | .wake => s.connected = false
  | .cancel => True
  | _ => False

/-- The request that a step answers before. -/
def answered (format : MessageFormat Message) (s : Pump Message) : PumpEvent Message → Option String
  | .receive message => s.answers format message
  | _ => none

/-- The condition on a step: the loop is not ended silently while a registered request is pending that the step does
not answer, unless a call of `stop` has still to clean up. -/
def Careful (format : MessageFormat Message) (s : Pump Message) (e : PumpEvent Message) : Prop :=
  s.stopping = 0 → EndsSilently s e → ∀ id f, s.pendingRequests.get? id = some f → Open s.futures f →
    answered format s e = some id

/-- Pumps and what happens to them. -/
def pumpSystem (format : MessageFormat Message) : System (Pump Message) (PumpEvent Message) :=
  .ofFn (fun s => ∃ connected now, s = Pump.new connected now) (Pump.step format)

/-! ## Futures -/

section Futures

variable {futures : List (RequestFuture Message)} {outcome : Outcome Message} {g : ℕ}

theorem settle_get? (futures : List (RequestFuture Message)) (f g : ℕ) (outcome : Outcome Message) :
    (settle f outcome futures)[g]? = (futures[g]?).map fun future =>
      if f = g ∧ future.outcome.isPending = true then { future with outcome } else future := by
  rw [settle, List.getElem?_modify]
  by_cases hfg : f = g
  · simp [hfg]
  · simp [hfg]

theorem open_of_settle (h : Open (settle f outcome futures) g) : Open futures g := by
  obtain ⟨future, hfuture, hpending⟩ := h
  rw [settle_get?, Option.map_eq_some_iff] at hfuture
  obtain ⟨old, hold, rfl⟩ := hfuture
  refine ⟨old, hold, ?_⟩
  split_ifs at hpending with hcase
  · exact hcase.2
  · exact hpending

theorem open_settle_iff (houtcome : outcome.isPending = false) :
    Open (settle f outcome futures) g ↔ Open futures g ∧ f ≠ g := by
  constructor
  · intro h
    refine ⟨open_of_settle h, ?_⟩
    rintro rfl
    obtain ⟨future, hfuture, hpending⟩ := h
    rw [settle_get?, Option.map_eq_some_iff] at hfuture
    obtain ⟨old, hold, rfl⟩ := hfuture
    split_ifs at hpending with hcase
    · rw [houtcome] at hpending
      cases hpending
    · exact hcase ⟨rfl, hpending⟩
  · rintro ⟨⟨future, hfuture, hpending⟩, hne⟩
    refine ⟨future, ?_, hpending⟩
    rw [settle_get?, hfuture, Option.map_some, if_neg fun h => hne h.1]

theorem settle_correlationId : ((settle f outcome futures)[g]?).map RequestFuture.correlationId =
    (futures[g]?).map RequestFuture.correlationId := by
  rw [settle_get?, Option.map_map]
  refine congrFun (congrArg _ (funext fun future => ?_)) _
  show RequestFuture.correlationId (if _ then _ else _) = _
  split_ifs <;> rfl

theorem length_settle : (settle f outcome futures).length = futures.length := List.length_modify _ _ _

end Futures

/-! ## What the operations leave -/

theorem length_settleAll (s : Pump Message) (outcome : Outcome Message) :
    (s.settleAll outcome).futures.length = s.futures.length := by
  have hfold (items : List (String × ℕ)) (futures : List (RequestFuture Message)) :
      (items.foldl (fun futures e => settle e.2 outcome futures) futures).length = futures.length := by
    induction items generalizing futures with
    | nil => rfl
    | cons e items ih => rw [List.foldl_cons, ih, length_settle]
  exact hfold _ _

theorem routeMessage_eq (format : MessageFormat Message) (s : Pump Message) (message : Message) :
    ∃ correlations messageQueue futures, s.routeMessage format message =
        { s with correlations, messageQueue, futures } ∧
      (s.answers format message = none ∧ futures = s.futures ∨
        ∃ id f, s.answers format message = some id ∧ s.pendingRequests.get? id = some f ∧
          futures = settle f (.result message) s.futures) := by
  rw [routeMessage, answers]
  cases hid : correlationOf format message with
  | none => exact ⟨_, _, _, rfl, .inl ⟨rfl, rfl⟩⟩
  | some id =>
    dsimp only
    by_cases hregistered : s.correlations.isRegistered id = true
    · rw [if_pos hregistered]
      exact ⟨_, _, _, rfl, .inl ⟨by simp [Option.filter, hregistered], rfl⟩⟩
    rw [if_neg hregistered]
    cases hpending : s.pendingRequests.get? id with
    | none => exact ⟨_, _, _, rfl, .inl ⟨by simp [Option.filter, Dict.contains, hpending], rfl⟩⟩
    | some f =>
      dsimp only
      by_cases hecho : s.requestSignals.get? id = some ((format.signal message).getD "")
      · rw [if_pos hecho]
        exact ⟨s.correlations, s.messageQueue, s.futures, rfl, .inl ⟨by simp [Option.filter, hecho], rfl⟩⟩
      · rw [if_neg hecho]
        refine ⟨_, _, _, rfl, .inr ⟨id, f, ?_, hpending, rfl⟩⟩
        simp [Option.filter, hregistered, Dict.contains, hpending, hecho]

/-! ## The invariant -/

/-- **The invariant.** While the pump does not run, no loop is alive but one that is cancelled, and then nothing is
registered once no `stop` is left; what is registered under an id was made for it. -/
structure Sound (s : Pump Message) : Prop where
  cancelled_stopped : s.loop = .cancelled → s.running = false
  live_running : s.loop = .starting ∨ s.loop = .receiving ∨ s.loop = .sleeping → s.running = true
  drained : s.loop = .cancelled → s.stopping = 0 → ∀ id, s.pendingRequests.get? id = none
  made_le : ∀ made, s.loop = .ended made → made ≤ s.futures.length
  owner : ∀ id f, s.pendingRequests.get? id = some f →
    (s.futures[f]?).map RequestFuture.correlationId = some id
  completed : Completed s

theorem Sound.new (connected : Bool) (now : ℚ) : Sound (Pump.new connected now : Pump Message) where
  cancelled_stopped := by rintro ⟨⟩
  live_running := by rintro (h | h | h) <;> cases h
  drained := by rintro ⟨⟩
  made_le := by rintro _ ⟨⟩
  owner := by rintro _ _ ⟨⟩
  completed := by rintro - _ ⟨⟩

theorem Sound.congr (h : Sound s) (hrunning : t.running = s.running) (hloop : t.loop = s.loop)
    (hstopping : t.stopping = s.stopping) (hpending : t.pendingRequests = s.pendingRequests)
    (hfutures : t.futures = s.futures) : Sound t := by
  refine ⟨?_, ?_, ?_, ?_, ?_, ?_⟩
  · rw [hloop, hrunning]
    exact h.cancelled_stopped
  · rw [hloop, hrunning]
    exact h.live_running
  · rw [hloop, hstopping, hpending]
    exact h.drained
  · rw [hloop, hfutures]
    exact h.made_le
  · rw [hpending, hfutures]
    exact h.owner
  · rw [Completed, hstopping, hloop, hpending, hfutures]
    exact h.completed

theorem Sound.of_fewer (h : Sound s) {futures : List (RequestFuture Message)} {pending : Dict String ℕ}
    (signals : Dict String String) (hlength : futures.length = s.futures.length)
    (hids : ∀ f : ℕ, (futures[f]?).map RequestFuture.correlationId = (s.futures[f]?).map RequestFuture.correlationId)
    (hopen : ∀ f, Open futures f → Open s.futures f)
    (hpending : ∀ id f, pending.get? id = some f → s.pendingRequests.get? id = some f) :
    Sound { s with futures := futures, pendingRequests := pending, requestSignals := signals } where
  cancelled_stopped := h.cancelled_stopped
  live_running := h.live_running
  drained hloop hstopping id := by
    cases hid : pending.get? id with
    | none => rfl
    | some f =>
      have hnone := h.drained hloop hstopping id
      rw [hpending id f hid] at hnone
      cases hnone
  made_le made hloop := hlength.symm ▸ h.made_le made hloop
  owner id f hf := (hids f).trans (h.owner id f (hpending id f hf))
  completed hstopping made hloop id f hf hlt hpen :=
    h.completed hstopping made hloop id f (hpending id f hf) hlt (hopen f hpen)

theorem Sound.ended (h : Sound s) (hclear : s.stopping = 0 → ∀ id f, s.pendingRequests.get? id = some f →
    ¬ Open s.futures f) : Sound { s with loop := .ended s.futures.length } where
  cancelled_stopped := by rintro ⟨⟩
  live_running := by rintro (h | h | h) <;> cases h
  drained := by rintro ⟨⟩
  made_le := by
    rintro _ ⟨⟩
    exact le_rfl
  owner := h.owner
  completed hstopping _ _ id f hf _ := hclear hstopping id f hf

theorem Sound.head (h : Sound s) (hrunning : s.running = true) (hclear : s.stopping = 0 → s.connected = false →
    ∀ id f, s.pendingRequests.get? id = some f → ¬ Open s.futures f) : Sound s.head := by
  rw [Pump.head]
  by_cases hconnected : s.connected = true
  · rw [if_pos (by simp [hrunning, hconnected])]
    exact ⟨by rintro ⟨⟩, fun _ => hrunning, by rintro ⟨⟩, by rintro _ ⟨⟩, h.owner, by rintro - _ ⟨⟩⟩
  · rw [if_neg (by simp [hconnected])]
    exact h.ended fun hstopping => hclear hstopping (Bool.not_eq_true _ |>.mp hconnected)

theorem Sound.start (h : Sound s) (hstart : s.start = some t) : Sound t ∧ t.running = true := by
  rw [Pump.start] at hstart
  split_ifs at hstart with hrunning hconnected
  · obtain rfl := Option.some.inj hstart
    exact ⟨h, hrunning⟩
  · obtain rfl := Option.some.inj hstart
    exact ⟨⟨by rintro ⟨⟩, fun _ => rfl, by rintro ⟨⟩, by rintro _ ⟨⟩, h.owner, by rintro - _ ⟨⟩⟩, rfl⟩

theorem Sound.sendRequest (h : Sound s) {request : Message} {generated : String}
    (hsend : s.sendRequest format request generated = some t) : Sound t := by
  rw [Pump.sendRequest, Option.map_eq_some_iff] at hsend
  obtain ⟨s', hstart, rfl⟩ := hsend
  obtain ⟨hs', hrunning⟩ := h.start hstart
  generalize (correlationOf format request).getD generated = new
  -- what was registered before has a lower number
  have hold : ∀ id f, s'.pendingRequests.get? id = some f → f < s'.futures.length := by
    intro id f hf
    obtain ⟨future, hfuture, -⟩ := Option.map_eq_some_iff.1 (hs'.owner id f hf)
    exact (List.getElem?_eq_some_iff.1 hfuture).1
  have hcase : ∀ id f, (s'.pendingRequests.set new s'.futures.length).get? id = some f →
      id = new ∧ f = s'.futures.length ∨ s'.pendingRequests.get? id = some f := by
    intro id f hf
    rw [Dict.get?_set] at hf
    split_ifs at hf with hid
    · exact .inl ⟨hid, (Option.some.inj hf).symm⟩
    · exact .inr hf
  have hcancelled : s'.loop ≠ .cancelled := by
    intro hloop
    rw [hs'.cancelled_stopped hloop] at hrunning
    cases hrunning
  refine ⟨fun hloop => (hcancelled hloop).elim, fun _ => hrunning, fun hloop => (hcancelled hloop).elim, ?_, ?_, ?_⟩
  · intro made hloop
    rw [List.length_append]
    have := hs'.made_le made hloop
    omega
  · intro id f hf
    obtain ⟨rfl, rfl⟩ | hf := hcase id f hf
    · simp
    · rw [List.getElem?_append_left (hold id f hf)]
      exact hs'.owner id f hf
  · rintro hstopping made hloop id f hf hlt ⟨future, hfuture, hpending⟩
    have hmade := hs'.made_le made hloop
    obtain ⟨-, rfl⟩ | hf := hcase id f hf
    · omega
    · refine hs'.completed hstopping made hloop id f hf hlt ⟨future, ?_, hpending⟩
      rwa [List.getElem?_append_left (hold id f hf)] at hfuture

theorem Sound.finishRequest (h : Sound s) {cancels : Bool} (hfinish : s.finishRequest f cancels = some t) :
    Sound t := by
  rw [Pump.finishRequest, Option.bind_eq_some_iff] at hfinish
  obtain ⟨future, -, hfinish⟩ := hfinish
  by_cases hawaited : future.awaited = true
  swap
  · rw [if_neg hawaited] at hfinish
    cases hfinish
  rw [if_pos hawaited] at hfinish
  obtain rfl := Option.some.inj hfinish
  set futures := if cancels = true then settle f .cancelled s.futures else s.futures with hfutures
  have hlength : futures.length = s.futures.length := by
    rw [hfutures]
    split_ifs
    · exact length_settle
    · rfl
  have hid (g : ℕ) : (futures[g]?).map RequestFuture.correlationId =
      (s.futures[g]?).map RequestFuture.correlationId := by
    rw [hfutures]
    split_ifs
    · exact settle_correlationId
    · rfl
  have hopen : ∀ g, Open futures g → Open s.futures g := by
    intro g hg
    rw [hfutures] at hg
    split_ifs at hg
    · exact open_of_settle hg
    · exact hg
  have hmodify (g : ℕ) : (futures.modify f fun future => { future with awaited := false })[g]? =
      (futures[g]?).map fun future => if f = g then { future with awaited := false } else future := by
    rw [List.getElem?_modify]
    by_cases hfg : f = g <;> simp [hfg]
  refine h.of_fewer _ ?_ ?_ ?_ ?_
  · rw [List.length_modify, hlength]
  · intro g
    rw [hmodify, Option.map_map, ← hid]
    refine congrFun (congrArg _ (funext fun future => ?_)) _
    show RequestFuture.correlationId (if _ then _ else _) = _
    split_ifs <;> rfl
  · rintro g ⟨future', hfuture', hpending⟩
    rw [hmodify, Option.map_eq_some_iff] at hfuture'
    obtain ⟨old, hold, rfl⟩ := hfuture'
    refine hopen g ⟨old, hold, ?_⟩
    split_ifs at hpending <;> exact hpending
  · intro id g hg
    rw [Dict.get?_erase] at hg
    split_ifs at hg
    exact hg

theorem Sound.stop (h : Sound s) : Sound s.stop := by
  rw [Pump.stop]
  split_ifs with hrunning
  · have hended : ∀ made, cancelLoop s.loop = .ended made → s.loop = .ended made := by
      intro made hloop
      cases hcase : s.loop <;> rw [hcase] at hloop <;> cases hloop
      rfl
    refine ⟨fun _ => rfl, fun hlive => ?_, fun _ hstopping => (Nat.succ_ne_zero _ hstopping).elim,
      fun made hloop => h.made_le made (hended made hloop), h.owner,
      fun hstopping => (Nat.succ_ne_zero _ hstopping).elim⟩
    dsimp only at hlive
    cases hcase : s.loop <;> rw [hcase] at hlive <;> simp [cancelLoop] at hlive
  · exact h

theorem Sound.of_empty (h : Sound s) (hempty : t.pendingRequests = ∅) (hlength : t.futures.length = s.futures.length)
    (hloop : t.loop = s.loop ∧ t.running = s.running ∨ t.loop = .ended s.futures.length) : Sound t := by
  refine ⟨fun hcancelled => ?_, fun hlive => ?_, fun _ _ id => ?_, fun made hended => ?_, fun id f hf => ?_,
    fun _ made _ id f hf => ?_⟩
  · obtain ⟨hsame, hrunning⟩ | hended := hloop
    · exact hrunning.trans (h.cancelled_stopped (hsame ▸ hcancelled))
    · rw [hended] at hcancelled
      cases hcancelled
  · obtain ⟨hsame, hrunning⟩ | hended := hloop
    · exact hrunning.trans (h.live_running (hsame ▸ hlive))
    · rw [hended] at hlive
      rcases hlive with hlive | hlive | hlive <;> cases hlive
  · rw [hempty]
    rfl
  · rw [hlength]
    obtain ⟨hsame, -⟩ | hended' := hloop
    · exact h.made_le made (hsame ▸ hended)
    · rw [hended'] at hended
      exact (ReceiveLoop.ended.inj hended).ge
  · rw [hempty] at hf
    cases hf
  · rw [hempty] at hf
    cases hf

theorem Sound.raise (h : Sound s) (hrunning : s.running = true) (e : ReceiveError) : Sound (s.raise e) := by
  rw [Pump.raise, if_neg (by simp [hrunning])]
  split_ifs with hdisconnection
  · exact h.of_empty rfl (length_settleAll s _) (.inr rfl)
  · exact ⟨by rintro ⟨⟩, fun _ => hrunning, by rintro ⟨⟩, by rintro _ ⟨⟩, h.owner, by rintro - _ ⟨⟩⟩

/-- A message answers one request at most; the others are as they were. -/
theorem Sound.receive (h : Sound s) (hrunning : s.running = true) {message : Message}
    (hcareful : Careful format s (.receive message)) : Sound (s.receive format message) := by
  obtain ⟨correlations, messageQueue, futures, heq, hcase⟩ :=
    routeMessage_eq format { s with messagesReceived := s.messagesReceived + 1 } message
  have hopen : ∀ f, Open futures f → Open s.futures f := by
    intro f hf
    obtain ⟨-, rfl⟩ | ⟨_, _, -, -, rfl⟩ := hcase
    · exact hf
    · exact open_of_settle hf
  rw [Pump.receive, heq]
  have hlength : futures.length = s.futures.length := by
    obtain ⟨-, rfl⟩ | ⟨_, _, -, -, rfl⟩ := hcase
    · rfl
    · exact length_settle
  have hids : ∀ f : ℕ, (futures[f]?).map RequestFuture.correlationId =
      (s.futures[f]?).map RequestFuture.correlationId := by
    intro f
    obtain ⟨-, rfl⟩ | ⟨_, _, -, -, rfl⟩ := hcase
    · rfl
    · exact settle_correlationId
  refine Sound.head (s := { s with
    messagesReceived := s.messagesReceived + 1, correlations, messageQueue, futures }) ?_ hrunning ?_
  · exact (h.of_fewer s.requestSignals hlength hids hopen fun _ _ hf => hf).congr rfl rfl rfl rfl rfl
  · intro hstopping hconnected id f hf hpending
    have hanswered : s.answers format message = some id := hcareful hstopping hconnected id f hf (hopen f hpending)
    obtain ⟨hnone, -⟩ | ⟨id', f', hsome, hf', rfl⟩ := hcase
    · cases hnone.symm.trans hanswered
    · obtain rfl := Option.some.inj (hsome.symm.trans hanswered)
      obtain rfl := Option.some.inj (hf'.symm.trans hf)
      exact ((open_settle_iff rfl).1 hpending).2 rfl

/-- **Every careful step keeps the invariant.** -/
theorem Sound.step (h : Sound s) {e : PumpEvent Message} (hcareful : Careful format s e)
    (hstep : s.step format e = some t) : Sound t := by
  have hsilent (hends : EndsSilently s e) (hanswered : answered format s e = none) (hstopping : s.stopping = 0) (id f)
      (hf : s.pendingRequests.get? id = some f) : ¬ Open s.futures f := by
    intro hpending
    cases hanswered.symm.trans (hcareful hstopping hends id f hf hpending)
  cases e with
  | connection connected =>
    obtain rfl := Option.some.inj hstep
    exact h.congr rfl rfl rfl rfl rfl
  | start => exact (h.start hstep).1
  | sendRequest request generated => exact h.sendRequest hstep
  | finishRequest f cancels => exact h.finishRequest hstep
  | stop =>
    obtain rfl := Option.some.inj hstep
    exact h.stop
  | cleanUp =>
    rw [Pump.step] at hstep
    split_ifs at hstep
    obtain rfl := Option.some.inj hstep
    exact h.of_empty rfl (length_settleAll s _) (.inl ⟨rfl, rfl⟩)
  | begin =>
    rw [Pump.step] at hstep
    split_ifs at hstep with hloop
    obtain rfl := Option.some.inj hstep
    exact h.head (h.live_running (.inl hloop)) fun hstopping hconnected => hsilent hconnected rfl hstopping
  | receive message =>
    rw [Pump.step] at hstep
    split_ifs at hstep with hloop
    obtain rfl := Option.some.inj hstep
    exact h.receive (h.live_running (.inr (.inl hloop))) hcareful
  | receiveTimeout =>
    rw [Pump.step] at hstep
    split_ifs at hstep with hloop
    obtain rfl := Option.some.inj hstep
    exact (h.congr (t := { s with receiveTimeouts := s.receiveTimeouts + 1 }) rfl rfl rfl rfl rfl).head
      (h.live_running (.inr (.inl hloop))) fun hstopping hconnected => hsilent hconnected rfl hstopping
  | raise e =>
    rw [Pump.step] at hstep
    split_ifs at hstep with hloop
    obtain rfl := Option.some.inj hstep
    exact h.raise (h.live_running (.inr (.inl hloop))) e
  | wake =>
    rw [Pump.step] at hstep
    split_ifs at hstep with hloop
    obtain rfl := Option.some.inj hstep
    exact h.head (h.live_running (.inr (.inr hloop))) fun hstopping hconnected => hsilent hconnected rfl hstopping
  | exit =>
    rw [Pump.step] at hstep
    split_ifs at hstep with hloop
    obtain rfl := Option.some.inj hstep
    refine h.ended fun hstopping id f hf => ?_
    rw [h.drained hloop hstopping] at hf
    cases hf
  | cancel =>
    rw [Pump.step] at hstep
    split_ifs at hstep
    obtain rfl := Option.some.inj hstep
    exact h.ended (hsilent trivial rfl)
  | correlation e =>
    obtain ⟨_, -, rfl⟩ := Option.map_eq_some_iff.1 hstep
    exact h.congr rfl rfl rfl rfl rfl
  | takeMessage | publish message =>
    rw [Pump.step] at hstep
    split_ifs at hstep
    obtain rfl := Option.some.inj hstep
    exact h.congr rfl rfl rfl rfl rfl

/-- Every careful run keeps the pump sound. -/
theorem Sound.of_reachable (h : ((pumpSystem format).restrict (Careful format)).Reachable s) : Sound s := by
  refine h.invariant ?_ fun _ _ _ hs hstep => hs.step hstep.1 hstep.2
  rintro _ ⟨connected, now, rfl⟩
  exact .new connected now

/-! ## Steps that are not careful -/

theorem not_completed (id : String) (f : ℕ) (hstopping : t.stopping = 0) (hloop : t.loop = .ended t.futures.length)
    (hf : t.pendingRequests.get? id = some f) (hopen : Open t.futures f) : ¬ Completed t := by
  intro hcompleted
  obtain ⟨future, hfuture, hpending⟩ := hopen
  exact hcompleted hstopping _ hloop id f hf (List.getElem?_eq_some_iff.1 hfuture).1 ⟨future, hfuture, hpending⟩

theorem head_ended (hconnected : s.connected = false) : s.head.loop = .ended s.head.futures.length := by
  rw [Pump.head]
  exact if_neg (by simp [hconnected])

theorem not_completed_of_silent (h : Sound s) {e : PumpEvent Message} (hcareless : ¬ Careful format s e)
    (hstep : s.step format e = some t) : ¬ Completed t := by
  simp only [Careful, not_forall] at hcareless
  obtain ⟨hstopping, hsilent, id, f, hf, hopen, hanswered⟩ := hcareless
  cases e with
  | begin | receiveTimeout | wake =>
    rw [Pump.step] at hstep
    split_ifs at hstep
    obtain rfl := Option.some.inj hstep
    exact not_completed id f hstopping (head_ended hsilent) hf hopen
  | receive message =>
    rw [Pump.step] at hstep
    split_ifs at hstep
    obtain rfl := Option.some.inj hstep
    obtain ⟨correlations, messageQueue, futures, heq, hcase⟩ :=
      routeMessage_eq format { s with messagesReceived := s.messagesReceived + 1 } message
    rw [Pump.receive, heq]
    refine not_completed id f hstopping (head_ended hsilent) hf ?_
    obtain ⟨-, rfl⟩ | ⟨id', f', hsome, hf', rfl⟩ := hcase
    · exact hopen
    · refine (open_settle_iff rfl).2 ⟨hopen, ?_⟩
      rintro rfl
      -- the future was made for one id only
      have hid := (h.owner _ _ hf').symm.trans (h.owner _ _ hf)
      exact hanswered (hsome.trans hid)
  | cancel =>
    rw [Pump.step] at hstep
    split_ifs at hstep
    obtain rfl := Option.some.inj hstep
    exact not_completed id f hstopping rfl hf hopen
  | connection | start | sendRequest | finishRequest | stop | cleanUp | raise | exit | correlation | takeMessage
  | publish => exact hsilent.elim

/-- **Where the pending requests are completed**: in every state that careful steps lead to, and after no other
step. -/
theorem completed_of_careful (h : ((pumpSystem format).restrict (Careful format)).Reachable s) :
    Completed s ∧ ∀ e t, s.step format e = some t → ¬ Careful format s e → ¬ Completed t :=
  have hs := Sound.of_reachable h
  ⟨hs.completed, fun _ _ hstep hcareless => not_completed_of_silent hs hcareless hstep⟩

/-! ## A request that stays pending -/

/-- Messages that are their correlation id and a signal. -/
def pairs : MessageFormat (String × String) := ⟨fun m => some m.1, fun m => some m.2⟩

/-- A request is sent and answered, and then the connection is lost. -/
def answeredFirst : List (PumpEvent (String × String)) :=
  [.sendRequest ("a", "ask") "", .begin, .receive ("a", "reply"), .connection false, .receiveTimeout]

/-- The pump behind the first of these. -/
def afterFirst (n : ℕ) : Pump (String × String) :=
  (System.exec (Pump.step pairs) (Pump.new true 0) (answeredFirst.take n)).getD (Pump.new true 0)

/-- The loop ends silently, and the request is done although it is still registered. -/
theorem completed_of_careful_answered : (afterFirst 5).loop = .ended 1 ∧
    (afterFirst 5).pendingRequests.get? "a" = some 0 ∧ Completed (afterFirst 5) ∧
    ∀ e t, (afterFirst 5).step pairs e = some t → ¬ Careful pairs (afterFirst 5) e → ¬ Completed t := by
  have hdone : ¬ Open (afterFirst 4).futures 0 := by
    rintro ⟨future, hfuture, hpending⟩
    cases hfuture
    cases hpending
  have hlost : ((pumpSystem pairs).restrict (Careful pairs)).Reachable (afterFirst 4) :=
    .step (a := .connection false) (s := afterFirst 3) (.step (a := .receive ("a", "reply")) (s := afterFirst 2)
      (.step (a := .begin) (s := afterFirst 1) (.step (a := .sendRequest ("a", "ask") "") (.init ⟨true, 0, rfl⟩)
        ⟨fun _ h => h.elim, rfl⟩) ⟨fun _ h => (nomatch h), rfl⟩) ⟨fun _ h => (nomatch h), rfl⟩) ⟨fun _ h => h.elim, rfl⟩
  have hcareful : Careful pairs (afterFirst 4) .receiveTimeout := by
    intro _ _ id f hf hopen
    obtain ⟨-, rfl⟩ := Prod.mk.inj (List.mem_singleton.1 (Dict.mem_items_iff.2 hf))
    exact (hdone hopen).elim
  exact ⟨rfl, rfl, completed_of_careful (.step hlost ⟨hcareful, rfl⟩)⟩

/-- A request is sent; the connection is lost, which the loop finds at its head after the next timeout. -/
def lostConnection : List (PumpEvent (String × String)) :=
  [.sendRequest ("a", "ask") "", .begin, .connection false, .receiveTimeout]

theorem pending_forever : ∃ t, (pumpSystem pairs).Run (Pump.new true 0) lostConnection t ∧ ¬ Completed t := by
  refine ⟨_, System.run_of_exec (show System.exec (Pump.step pairs) (Pump.new true 0) lostConnection = some _ from rfl),
    ?_⟩
  exact not_completed "a" 0 rfl rfl rfl ⟨_, rfl, rfl⟩

end LlmGateway.MessagePump
