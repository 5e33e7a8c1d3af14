import Mathlib.Data.List.MinMax
import LlmGateway.Foundations.Dict
import LlmGateway.Foundations.System
import LlmGateway.McpServer.ResponseSizeGuard

/-!
# The store of deferred responses

An oversized result is kept under a reference until it is retrieved, once, or until it has been there for longer than the
time to live; when the store is full, the oldest response makes room for a new one. Every call holds the lock while it is
at the store, so what threads do is a sequence of steps; but the clock is read before the lock is taken, so that the
times of the steps need not be in order. The times are any ordered type with a subtraction.

A reference is `rs_` and a random token, drawn until the store has none such; the draws are an argument. What the calls
tell the event log is left out.

The log of a run says which response a reference stands for (`Live`): the one that was stored under it last, if since then
it has not been retrieved, evicted, or expired at the time of a step. `responseStore_sound` says that a retrieval returns
that response, that only a store full of responses that are not expired evicts, and which one it evicts.
-/

namespace LlmGateway.McpServer

/-! ## The calls -/

structure StoredResponse (τ : Type*) where
  result : ToolResult
  toolName : String
  sizeBytes : ℕ
  storedAt : τ
  profile : String

/-- `_store`. -/
abbrev ResponseStore (τ : Type*) := Dict String (StoredResponse τ)

def capacity : ℕ := 50

section

variable {τ : Type*} [LinearOrder τ] [Sub τ] (ttl : τ)

/-- The response is older than `_TTL_SECONDS`. -/
def StoredResponse.expired (now : τ) (r : StoredResponse τ) : Bool := decide (ttl < now - r.storedAt)

def pruneExpired (s : ResponseStore τ) (now : τ) : ResponseStore τ :=
  (s.items.filter fun e => e.2.expired ttl now).foldl (fun s e => s.erase e.1) s

/-- `min(_store, key=…)`: the first of the entries with the least time. -/
def oldestKey (s : ResponseStore τ) : Option String := (s.items.argmin fun e => e.2.storedAt).map Prod.fst

/-- The store with room for a response, and the reference that was evicted. -/
def makeRoom (s : ResponseStore τ) : ResponseStore τ × Option String :=
  if capacity ≤ s.items.length then ((oldestKey s).elim s s.erase, oldestKey s) else (s, none)

/-- `_generate_ref_id`, for the tokens that are drawn; `none` when all of them are taken. -/
def generateRefId (s : ResponseStore τ) (draws : List String) : Option String :=
  (draws.map fun token => "rs_" ++ token).find? fun ref => !s.contains ref

/-- `_store_result`: the store, the new reference and the evicted one. -/
def storeResult (s : ResponseStore τ) (toolName : String) (result : ToolResult) (size : ℕ) (profile : String) (now : τ)
    (draws : List String) : Option (ResponseStore τ × String × Option String) :=
  let (s, evicted) := makeRoom (pruneExpired ttl s now)
  (generateRefId s draws).map fun ref => (s.set ref ⟨result, toolName, size, now, profile⟩, ref, evicted)

def retrieve (s : ResponseStore τ) (id : String) (now : τ) : ResponseStore τ × Except String ToolResult :=
  let s := pruneExpired ttl s now
  (s.erase id, match s.get? id with
    | some stored => .ok stored.result
    | none => .error ("No stored response with ID '" ++ id ++ "'. It may have expired or already been retrieved."))

/-! ## Runs -/

/-- A call that takes the lock. -/
inductive Action (τ : Type*) where
  | store (toolName : String) (result : ToolResult) (size : ℕ) (profile : String) (now : τ) (draws : List String)
  | retrieve (id : String) (now : τ)
  | prune (now : τ)

/-- What comes of it. -/
inductive Outcome where
  | stored (ref : String) (evicted : Option String)
  | retrieved (out : Except String ToolResult)
  | pruned

/-- The time that the call has read. -/
def Action.now : Action τ → τ
  | .store _ _ _ _ now _ => now
  | .retrieve _ now => now
  | .prune now => now

/-- The response that the call stores. -/
def Action.response : Action τ → Option (StoredResponse τ)
  | .store toolName result size profile now _ => some ⟨result, toolName, size, now, profile⟩
  | _ => none

def step (s : ResponseStore τ) : Action τ → Option (ResponseStore τ × Outcome)
  | .store toolName result size profile now draws =>
    (storeResult ttl s toolName result size profile now draws).map fun out => (out.1, .stored out.2.1 out.2.2)
  | .retrieve id now => some ((retrieve ttl s id now).1, .retrieved (retrieve ttl s id now).2)
  | .prune now => some (pruneExpired ttl s now, .pruned)

/-- An entry of the log: a call, and what came of it. -/
structure Entry (τ : Type*) where
  action : Action τ
  outcome : Outcome

/-- The runs of the store, from the empty one. -/
def responseSystem : System (ResponseStore τ) (Entry τ) where
  init s := s = ∅
  step s e t := step ttl s e.action = some (t, e.outcome)

/-! ## What the log says -/

/-- The response is stored under the reference. -/
def Entry.Issues (e : Entry τ) (ref : String) (r : StoredResponse τ) : Prop :=
  e.action.response = some r ∧ ∃ evicted, e.outcome = .stored ref evicted

def Entry.Evicts (e : Entry τ) (ref : String) : Prop := ∃ new, e.outcome = .stored new (some ref)

def Entry.Redeems (e : Entry τ) (ref : String) (result : ToolResult) : Prop :=
  (∃ now, e.action = .retrieve ref now) ∧ e.outcome = .retrieved (.ok result)

/-- The response is under the reference no longer. -/
def Entry.Ends (e : Entry τ) (ref : String) (r : StoredResponse τ) : Prop :=
  r.expired ttl e.action.now = true ∨ e.Evicts ref ∨ (∃ result, e.Redeems ref result) ∨ ∃ r', e.Issues ref r'

/-- The response was stored under the reference, and nothing has ended that. -/
def Live (log : List (Entry τ)) (ref : String) (r : StoredResponse τ) : Prop :=
  ∃ earlier e later, log = earlier ++ e :: later ∧ e.Issues ref r ∧ ∀ e' ∈ later, ¬e'.Ends ttl ref r

variable {ttl : τ} {s t : ResponseStore τ} {log log' : List (Entry τ)} {e : Entry τ} {ref : String}
  {r : StoredResponse τ}

theorem live_concat : Live ttl (log ++ [e]) ref r ↔ e.Issues ref r ∨ Live ttl log ref r ∧ ¬e.Ends ttl ref r := by
  constructor
  · rintro ⟨earlier, e₀, later, heq, hissue, hlater⟩
    obtain rfl | ⟨later, e', rfl⟩ := List.eq_nil_or_concat later
    · obtain ⟨-, hlast⟩ := List.append_inj' heq rfl
      cases hlast
      exact .inl hissue
    · rw [List.concat_eq_append, ← List.cons_append, ← List.append_assoc] at heq
      obtain ⟨rfl, hlast⟩ := List.append_inj' heq rfl
      cases hlast
      rw [List.concat_eq_append] at hlater
      refine .inr ⟨⟨earlier, e₀, later, rfl, hissue, fun e' he' => hlater e' (List.mem_append_left _ he')⟩, ?_⟩
      exact hlater e (List.mem_append_right _ (List.mem_singleton_self e))
  · rintro (hissue | ⟨⟨earlier, e₀, later, rfl, hissue, hlater⟩, hend⟩)
    · exact ⟨log, e, [], rfl, hissue, nofun⟩
    · refine ⟨earlier, e₀, later ++ [e], by rw [List.append_assoc, List.cons_append], hissue, fun e' he' => ?_⟩
      obtain he' | he' := List.mem_append.1 he'
      · exact hlater e' he'
      · rwa [List.mem_singleton.1 he']

theorem live_append (h : Live ttl (log ++ log') ref r) :
    (∃ e ∈ log', e.Issues ref r) ∨ Live ttl log ref r ∧ ∀ e ∈ log', ¬e.Ends ttl ref r := by
  induction log' using List.reverseRecOn with
  | nil => exact .inr ⟨by rwa [List.append_nil] at h, nofun⟩
  | append_singleton log' e ih =>
    rw [← List.append_assoc, live_concat] at h
    obtain hissue | ⟨h, hend⟩ := h
    · exact .inl ⟨e, List.mem_append_right _ (List.mem_singleton_self e), hissue⟩
    · obtain ⟨e', he', hissue⟩ | ⟨hlive, hends⟩ := ih h
      · exact .inl ⟨e', List.mem_append_left _ he', hissue⟩
      · refine .inr ⟨hlive, fun e' he' => ?_⟩
        obtain he' | he' := List.mem_append.1 he'
        · exact hends e' he'
        · rwa [List.mem_singleton.1 he']

/-! ## One step -/

theorem get?_foldl_erase {ν : Type*} (l : List (String × ν)) (s : Dict String ν) (ref : String) :
    (l.foldl (fun s e => s.erase e.1) s).get? ref = if ref ∈ l.map Prod.fst then none else s.get? ref := by
  induction l generalizing s with
  | nil => rfl
  | cons e l ih =>
    rw [List.foldl_cons, ih, Dict.get?_erase]
    by_cases hhead : ref = e.1
    · simp [hhead]
    · rw [if_neg hhead]
      simp only [List.map_cons, List.mem_cons, hhead, false_or]

theorem length_foldl_erase_le {ν : Type*} (l : List (String × ν)) (s : Dict String ν) :
    (l.foldl (fun s e => s.erase e.1) s).items.length ≤ s.items.length := by
  induction l generalizing s with
  | nil => exact le_rfl
  | cons e l ih => exact (ih _).trans (List.length_filter_le _ _)

omit [Sub τ] in
theorem makeRoom_snd_eq_some (h : (makeRoom s).2 = some ref) : capacity ≤ s.items.length ∧
    ∃ r, s.get? ref = some r ∧ ∀ ref' r', s.get? ref' = some r' → r.storedAt ≤ r'.storedAt := by
  unfold makeRoom at h
  split_ifs at h with hfull
  obtain ⟨⟨_, r⟩, holdest, rfl⟩ := Option.map_eq_some_iff.1 h
  refine ⟨hfull, r, Dict.mem_items_iff.1 (List.argmin_mem holdest), fun ref' r' hget => ?_⟩
  exact List.le_of_mem_argmin (f := fun e : String × StoredResponse τ => e.2.storedAt)
    (Dict.mem_items_iff.2 hget) holdest

omit [Sub τ] in
theorem get?_makeRoom (s : ResponseStore τ) (ref : String) :
    (makeRoom s).1.get? ref = if (makeRoom s).2 = some ref then none else s.get? ref := by
  by_cases hfull : capacity ≤ s.items.length
  · rw [makeRoom, if_pos hfull]
    cases oldestKey s with
    | none => rfl
    | some key =>
      rw [Option.elim_some, Dict.get?_erase]
      simp only [Option.some.injEq, eq_comm]
  · rw [makeRoom, if_neg hfull]
    rfl

omit [Sub τ] in
theorem length_makeRoom_lt (h : s.items.length ≤ capacity) : (makeRoom s).1.items.length < capacity := by
  by_cases hfull : capacity ≤ s.items.length
  · rw [makeRoom, if_pos hfull]
    cases holdest : s.items.argmin fun e => e.2.storedAt with
    | none =>
      rw [List.argmin_eq_none.1 holdest] at hfull
      cases hfull
    | some oldest =>
      rw [oldestKey, holdest, Option.map_some, Option.elim_some]
      refine lt_of_lt_of_le (List.length_filter_lt_length_iff_exists.2 ⟨oldest, List.argmin_mem holdest, ?_⟩) h
      simp
  · rw [makeRoom, if_neg hfull]
    exact not_le.1 hfull

theorem get?_pruneExpired (s : ResponseStore τ) (now : τ) (ref : String) :
    (pruneExpired ttl s now).get? ref = (s.get? ref).filter fun r => !r.expired ttl now := by
  rw [pruneExpired, get?_foldl_erase]
  cases hget : s.get? ref with
  | none =>
    split_ifs
    · rfl
    · rfl
  | some r =>
    have hmem : ref ∈ (s.items.filter fun e => e.2.expired ttl now).map Prod.fst ↔ r.expired ttl now = true := by
      rw [List.mem_map]
      constructor
      · rintro ⟨⟨_, r'⟩, he, rfl⟩
        obtain ⟨he, hexpired⟩ := List.mem_filter.1 he
        obtain rfl := Option.some.inj (hget.symm.trans (Dict.mem_items_iff.1 he))
        exact hexpired
      · exact fun hexpired => ⟨(ref, r), List.mem_filter.2 ⟨Dict.mem_items_iff.2 hget, hexpired⟩, rfl⟩
    rw [Option.filter_some]
    cases hexpired : r.expired ttl now with
    | true => exact if_pos (hmem.2 hexpired)
    | false => exact if_neg fun h => by cases hexpired.symm.trans (hmem.1 h)

theorem length_pruneExpired_le (s : ResponseStore τ) (now : τ) :
    (pruneExpired ttl s now).items.length ≤ s.items.length := length_foldl_erase_le _ s


theorem storeResult_eq_some {toolName profile new : String} {result : ToolResult} {size : ℕ} {now : τ}
    {draws : List String} {evicted : Option String}
    (h : storeResult ttl s toolName result size profile now draws = some (t, new, evicted)) :
    t = (makeRoom (pruneExpired ttl s now)).1.set new ⟨result, toolName, size, now, profile⟩ ∧
      (makeRoom (pruneExpired ttl s now)).2 = evicted ∧ (makeRoom (pruneExpired ttl s now)).1.get? new = none := by
  simp only [storeResult, Option.map_eq_some_iff] at h
  obtain ⟨ref, hnew, hout⟩ := h
  obtain ⟨hset, hout⟩ := Prod.mk.inj hout
  obtain ⟨rfl, hevicted⟩ := Prod.mk.inj hout
  have hfree := List.find?_some hnew
  exact ⟨hset.symm, hevicted, Option.isNone_iff_eq_none.1 (by simpa [Dict.contains] using hfree)⟩

/-- What a step leaves under a reference: what it stores there, or what it does not end. -/
theorem get?_step (h : step ttl s e.action = some (t, e.outcome)) :
    t.get? ref = some r ↔ e.Issues ref r ∨ s.get? ref = some r ∧ ¬e.Ends ttl ref r := by
  obtain ⟨action, outcome⟩ := e
  cases action with
  | prune now =>
    obtain ⟨rfl, rfl⟩ := Prod.mk.inj (Option.some.inj h)
    rw [get?_pruneExpired, Option.filter_eq_some_iff]
    simp [Entry.Issues, Entry.Ends, Entry.Evicts, Entry.Redeems, Action.response, Action.now]
  | retrieve id now =>
    obtain ⟨rfl, rfl⟩ := Prod.mk.inj (Option.some.inj h)
    have hget : (retrieve ttl s id now).1.get? ref = if ref = id then none else
        (s.get? ref).filter fun r => !r.expired ttl now := by
      rw [retrieve, Dict.get?_erase, get?_pruneExpired]
    rw [hget]
    by_cases hid : ref = id
    · subst hid
      refine iff_of_false (by simp) ?_
      rintro (⟨hissue, -⟩ | ⟨hthere, hend⟩)
      · cases hissue
      · have hfresh : (pruneExpired ttl s now).get? ref = some r := by
          rw [get?_pruneExpired, hthere, Option.filter_some, if_pos]
          exact Bool.not_eq_true' _ ▸ Bool.eq_false_iff.2 fun hexpired => hend (.inl hexpired)
        refine hend (.inr (.inr (.inl ⟨r.result, ⟨now, rfl⟩, ?_⟩)))
        simp only [retrieve, hfresh]
    · rw [if_neg hid, Option.filter_eq_some_iff]
      have hother : ∀ now', Action.retrieve id now ≠ Action.retrieve ref now' := fun now' heq => hid (by cases heq; rfl)
      simp [Entry.Issues, Entry.Ends, Entry.Evicts, Entry.Redeems, Action.response, Action.now, hother]
  | store toolName result size profile now draws =>
    obtain ⟨⟨_, new, evicted⟩, hstore, hout⟩ := Option.map_eq_some_iff.1 h
    obtain ⟨rfl, rfl⟩ := Prod.mk.inj hout
    obtain ⟨rfl, rfl, -⟩ := storeResult_eq_some hstore
    rw [Dict.get?_set]
    by_cases hnew : ref = new
    · subst hnew
      rw [if_pos rfl]
      constructor
      · exact fun heq => .inl ⟨heq, _, rfl⟩
      · rintro (⟨heq, -⟩ | ⟨-, hend⟩)
        · exact heq
        · exact (hend (.inr (.inr (.inr ⟨_, rfl, _, rfl⟩)))).elim
    · rw [if_neg hnew, get?_makeRoom, get?_pruneExpired]
      have hissue : ∀ r', ¬Entry.Issues ⟨.store toolName result size profile now draws,
        .stored new (makeRoom (pruneExpired ttl s now)).2⟩ ref r' := fun r' ⟨_, _, heq⟩ => hnew (by cases heq; rfl)
      rw [or_iff_right (hissue r)]
      split_ifs with hevicted
      · refine iff_of_false nofun fun ⟨_, hend⟩ => hend (.inr (.inl ⟨new, ?_⟩))
        rw [hevicted]
      · simp only [Option.filter_eq_some_iff, Entry.Ends, hissue, Entry.Evicts, Entry.Redeems, Action.now]
        simp [hevicted]

theorem length_assign_le {ν : Type*} (ref : String) (v : ν) (l : List (String × ν)) :
    (Dict.assign ref v l).length ≤ l.length + 1 := by
  induction l with
  | nil => exact le_rfl
  | cons e l ih =>
    rw [Dict.assign]
    split_ifs
    · exact Nat.le_succ _
    · exact Nat.succ_le_succ ih

theorem length_step_le (h : step ttl s e.action = some (t, e.outcome)) (hs : s.items.length ≤ capacity) :
    t.items.length ≤ capacity := by
  obtain ⟨action, outcome⟩ := e
  have hprune : ∀ now, (pruneExpired ttl s now).items.length ≤ capacity :=
    fun now => (length_pruneExpired_le s now).trans hs
  cases action with
  | prune now =>
    obtain ⟨rfl, -⟩ := Prod.mk.inj (Option.some.inj h)
    exact hprune now
  | retrieve id now =>
    obtain ⟨rfl, -⟩ := Prod.mk.inj (Option.some.inj h)
    exact (List.length_filter_le _ _).trans (hprune now)
  | store toolName result size profile now draws =>
    obtain ⟨⟨_, new, evicted⟩, hstore, hout⟩ := Option.map_eq_some_iff.1 h
    obtain ⟨rfl, -⟩ := Prod.mk.inj hout
    obtain ⟨rfl, -⟩ := storeResult_eq_some hstore
    exact (length_assign_le _ _ _).trans (length_makeRoom_lt (hprune now))

/-! ## Whole runs -/

/-- The store is within its capacity, and holds what is live. -/
theorem run_invariant (h : (responseSystem ttl).Run ∅ log s) :
    s.items.length ≤ capacity ∧ ∀ ref r, s.get? ref = some r ↔ Live ttl log ref r := by
  rw [← List.nil_append log]
  refine h.history (J := fun s log => s.items.length ≤ capacity ∧ ∀ ref r, s.get? ref = some r ↔ Live ttl log ref r)
    (fun s e t log hs hstep => ⟨length_step_le hstep hs.1, fun ref r => ?_⟩) ⟨Nat.zero_le _, fun ref r => ?_⟩
  · rw [get?_step hstep, live_concat, hs.2]
  · refine iff_of_false nofun fun ⟨earlier, _, _, heq, _⟩ => ?_
    cases earlier <;> cases heq

/-- What a call does, by what is live when it is made. -/
structure Entry.Sound (ttl : τ) (earlier : List (Entry τ)) (e : Entry τ) : Prop where
  /-- A retrieval returns the response that is live and not expired. -/
  retrieves : ∀ id now result, e.action = .retrieve id now → (e.outcome = .retrieved (.ok result) ↔
    ∃ r, Live ttl earlier id r ∧ r.expired ttl now = false ∧ r.result = result)
  /-- What is evicted is an oldest of the responses that are live and not expired, and these fill the store. -/
  evicts : ∀ ref, e.Evicts ref →
    (∃ refs : Finset String, capacity ≤ refs.card ∧ ∀ ref' ∈ refs, ∃ r, Live ttl earlier ref' r ∧
      r.expired ttl e.action.now = false) ∧
    ∃ r, Live ttl earlier ref r ∧ r.expired ttl e.action.now = false ∧ ∀ ref' r', Live ttl earlier ref' r' →
      r'.expired ttl e.action.now = false → r.storedAt ≤ r'.storedAt
  /-- A new response takes the reference of none that is live, not expired and not evicted. -/
  issues : ∀ ref r r', e.Issues ref r → Live ttl earlier ref r' → r'.expired ttl e.action.now = true ∨ e.Evicts ref

/-- A step from a store that holds exactly the live responses has a sound outcome. -/
theorem sound_of_step (hlive : ∀ ref r, s.get? ref = some r ↔ Live ttl log ref r)
    (h : step ttl s e.action = some (t, e.outcome)) : e.Sound ttl log := by
  obtain ⟨action, outcome⟩ := e
  have hprune : ∀ now ref r, (pruneExpired ttl s now).get? ref = some r ↔
      Live ttl log ref r ∧ r.expired ttl now = false := by
    intro now ref r
    rw [get?_pruneExpired, Option.filter_eq_some_iff, hlive, Bool.not_eq_true']
  cases action with
  | prune now =>
    obtain ⟨-, rfl⟩ := Prod.mk.inj (Option.some.inj h)
    exact ⟨nofun, nofun, nofun⟩
  | retrieve id now =>
    obtain ⟨-, rfl⟩ := Prod.mk.inj (Option.some.inj h)
    refine ⟨fun _ _ result heq => ?_, nofun, nofun⟩
    cases heq
    constructor
    · intro hout
      simp only [retrieve, Outcome.retrieved.injEq] at hout
      split at hout
      · rename_i r hget
        obtain ⟨hr, hfresh⟩ := (hprune now id r).1 hget
        exact ⟨r, hr, hfresh, Except.ok.inj hout⟩
      · cases hout
    · rintro ⟨r, hr, hfresh, rfl⟩
      simp only [retrieve, (hprune now id r).2 ⟨hr, hfresh⟩]
  | store toolName result size profile now draws =>
    obtain ⟨⟨_, new, evicted⟩, hstore, hout⟩ := Option.map_eq_some_iff.1 h
    obtain ⟨rfl, rfl⟩ := Prod.mk.inj hout
    obtain ⟨rfl, hevicted, hfree⟩ := storeResult_eq_some hstore
    have hmade : ∀ ref r, (makeRoom (pruneExpired ttl s now)).1.get? ref = some r ↔
        evicted ≠ some ref ∧ Live ttl log ref r ∧ r.expired ttl now = false := by
      intro ref r
      rw [get?_makeRoom, hevicted, ← hprune]
      split_ifs with hev
      · exact iff_of_false nofun fun h => h.1 hev
      · exact (and_iff_right hev).symm
    refine ⟨nofun, fun ref ⟨_, hev⟩ => ?_, fun ref r r' ⟨_, _, hnew⟩ hr' => ?_⟩
    · obtain rfl := (Outcome.stored.inj hev).2
      obtain ⟨hfull, r, hget, hleast⟩ := makeRoom_snd_eq_some hevicted
      obtain ⟨hr, hfresh⟩ := (hprune now ref r).1 hget
      refine ⟨⟨((pruneExpired ttl s now).items.map Prod.fst).toFinset, ?_, fun ref' hmem => ?_⟩, r, hr, hfresh,
        fun ref' r' hr' hfresh' => hleast ref' r' ((hprune now ref' r').2 ⟨hr', hfresh'⟩)⟩
      · rw [List.toFinset_card_of_nodup (pruneExpired ttl s now).nodup, List.length_map]
        exact hfull
      · obtain ⟨⟨_, r'⟩, he, rfl⟩ := List.mem_map.1 (List.mem_toFinset.1 hmem)
        exact ⟨r', (hprune now _ r').1 (Dict.mem_items_iff.1 he)⟩
    · obtain rfl := (Outcome.stored.inj hnew).1
      by_contra hnot
      rw [not_or, Bool.not_eq_true] at hnot
      have hthere := (hmade new r').2 ⟨fun heq => hnot.2 ⟨new, by rw [heq]⟩, hr', hnot.1⟩
      rw [hfree] at hthere
      cases hthere

/-- **The response store.** In every run, the store is within its capacity; between two retrievals under one reference
there is a call that stored a response under it; and every call does what the log before it asks for. -/
theorem responseStore_sound (ttl : τ) {log : List (Entry τ)} {s : ResponseStore τ}
    (h : (responseSystem ttl).Run ∅ log s) : s.items.length ≤ capacity ∧
      (∀ earlier e between e' later ref result result', log = earlier ++ e :: between ++ e' :: later →
        e.Redeems ref result → e'.Redeems ref result' → ∃ e'' ∈ between, ∃ r, e''.Issues ref r) ∧
      ∀ earlier e later, log = earlier ++ e :: later → e.Sound ttl earlier := by
  have hsound : ∀ earlier e later, log = earlier ++ e :: later → e.Sound ttl earlier := by
    rintro earlier e later rfl
    obtain ⟨t, hearlier, hlater⟩ := h.of_append
    cases hlater with
    | cons hstep _ => exact sound_of_step (run_invariant hearlier).2 hstep
  refine ⟨(run_invariant h).1, ?_, hsound⟩
  intro earlier e between e' later ref result result' heq hredeem ⟨⟨now, haction⟩, hout⟩
  obtain ⟨r, hlive, -⟩ := ((hsound _ _ _ heq).retrieves ref now result' haction).1 hout
  obtain ⟨e'', hmem, hissue⟩ | ⟨-, hends⟩ := live_append hlive
  · obtain rfl | hmem := List.mem_cons.1 hmem
    · obtain ⟨hresponse, -⟩ := hissue
      obtain ⟨⟨_, hretrieve⟩, -⟩ := hredeem
      rw [hretrieve] at hresponse
      cases hresponse
    · exact ⟨e'', hmem, r, hissue⟩
  · exact (hends e List.mem_cons_self (.inr (.inr (.inl ⟨result, hredeem⟩)))).elim

end

/-- A stored result is there five seconds later. -/
theorem responseStore_sound_after_five : Entry.Sound (600 : ℤ)
    [⟨.store "fs" ⟨[], none, none⟩ 40000 "cursor_safe" 0 ["00a1b2"], .stored "rs_00a1b2" none⟩]
    ⟨.retrieve "rs_00a1b2" 5, .retrieved (.ok ⟨[], none, none⟩)⟩ :=
  (responseStore_sound 600 (.cons (by rfl) (.cons (by rfl) (.nil _)))).2.2 [_] _ [] rfl

end LlmGateway.McpServer
