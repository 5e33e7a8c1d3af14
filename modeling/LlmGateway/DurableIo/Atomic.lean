import Mathlib.Data.List.Basic
import Mathlib.Logic.Function.Basic
import LlmGateway.Foundations.Json
import LlmGateway.Foundations.System
import LlmGateway.Foundations.Utf8

/-!
# Durable read-modify-write

`durable_rmw_text` reads a file, transforms its text and writes it back under an exclusive lock: to a temporary file, which
replaces the destination once the digest of the destination is still that of what was read. Calls take turns, since each
holds the lock while it is at the file; writers that do not take the lock get in between the statements of a call.

A state has one destination, the call that holds the lock with how far it is, the temporary files and what the calls have
returned. The digest is a parameter. Keeping a copy of what is overwritten and flushing to disk are left out.

A call that finds no file has no digest to compare, and replaces a file that has appeared in the meantime
(`durableRmw_overwrites`). When that does not happen, and no other content has the digest of what was read, every
replacement is the transform of what it replaces (`durableRmw_sound`).
-/

namespace LlmGateway.DurableIo

/-! ## Digests -/

/-- `value[len(prefix):]` for a citation prefix that `value` begins with in lower case. -/
def dropCitation (lower value : List Char) : List (List Char) → Option (List Char)
  | [] => none
  | front :: fronts => if front.isPrefixOf lower then some (value.drop front.length) else dropCitation lower value fronts

def normalizeSha256Hex (value : String) : String :=
  let stripped := Json.strip value
  let lower := Json.lower stripped
  ((dropCitation lower.toList stripped.toList ["sha256:".toList, "spec_sha256:".toList]).map fun rest =>
    Json.lower (String.ofList rest)).getD lower

def sha256HexEqual : Option String → Option String → Bool
  | some left, some right => normalizeSha256Hex left == normalizeSha256Hex right
  | none, none => true
  | _, _ => false

/-! ## The calls -/

/-- The exceptions of a call. -/
inductive Error where
  | fileNotFound
  | preImageMismatch (expected actual : String)
  | decodeError
  | transformError
  | osError
  | writeVerifyError (expected actual : String)

structure RmwResult where
  preImageSha256 : Option String
  writtenSha256 : String
  beforeText : List Char
  afterText : List Char

/-- The arguments of `durable_rmw_text`. -/
structure Request where
  /-- `none` when it raises. -/
  transform : List Char → Option (List Char)
  expectedSha256 : Option String
  createIfAbsent : Bool
  encodingErrors : List UInt8 → Option (List Char)

section

variable (sha256 : List UInt8 → String)

/-- The text that was read and the text that is to be written, for the content of the file. -/
def Request.apply (r : Request) (preImage : Option (List UInt8)) : Except Error (List Char × List Char) :=
  if r.expectedSha256.any fun expected => !sha256HexEqual (preImage.map sha256) (some expected) then
    .error (.preImageMismatch (r.expectedSha256.getD "") ((preImage.map sha256).getD ""))
  else
    match Utf8.decodeWith r.encodingErrors (preImage.getD []) with
    | none => .error .decodeError
    | some before =>
      match r.transform before with
      | none => .error .transformError
      | some after => .ok (before, after)

/-- How far the call is that holds the lock. -/
inductive Phase where
  | locked
  /-- `dest.is_file()` was true. -/
  | found
  | read (preImage : Option (List UInt8))
  | transformed (preImage : Option (List UInt8)) (before after : List Char)
  /-- The temporary file is written. -/
  | written (preImage : Option (List UInt8)) (before after : List Char)
  /-- The pre-image was compared, or there is none. -/
  | checked (preImage : Option (List UInt8)) (before after : List Char)
  | replaced (preImage : Option (List UInt8)) (before after : List Char)

structure State (ι : Type*) where
  dest : Option (List UInt8)
  holder : Option (ι × Phase)
  temps : ι → Option (List UInt8)
  outcome : ι → Option (Except Error RmwResult)

variable {ι : Type*} [DecidableEq ι]

namespace State

def goto (s : State ι) (i : ι) (p : Phase) : State ι := { s with holder := some (i, p) }

def unlink (s : State ι) (i : ι) : State ι := { s with temps := Function.update s.temps i none }

/-- The call returns, and the lock is free. -/
def finish (s : State ι) (i : ι) (out : Except Error RmwResult) : State ι :=
  { s with holder := none, outcome := Function.update s.outcome i (some out) }

end State

/-- `_sha256_hex_of_file(dest) if dest.is_file() else ""`. -/
def actualSha256 (dest : Option (List UInt8)) : String := dest.elim "" sha256

/-- The next statement of the call. -/
def advance (r : Request) (s : State ι) (i : ι) : Phase → State ι
  | .locked =>
    match s.dest with
    | some _ => s.goto i .found
    | none => if r.createIfAbsent then s.goto i (.read none) else s.finish i (.error .fileNotFound)
  | .found =>
    match s.dest with
    | some raw => s.goto i (.read (some raw))
    | none => s.finish i (.error .fileNotFound)
  | .read preImage =>
    match r.apply sha256 preImage with
    | .ok (before, after) => s.goto i (.transformed preImage before after)
    | .error e => s.finish i (.error e)
  | .transformed preImage before after =>
    { s.goto i (.written preImage before after) with
      temps := Function.update s.temps i (some (Utf8.encode after)) }
  | .written preImage before after =>
    match preImage with
    | none => s.goto i (.checked preImage before after)
    | some raw =>
      if actualSha256 sha256 s.dest = sha256 raw then s.goto i (.checked preImage before after)
      else (s.unlink i).finish i (.error (.preImageMismatch (sha256 raw) (actualSha256 sha256 s.dest)))
  | .checked preImage before after =>
    { (s.unlink i).goto i (.replaced preImage before after) with dest := s.temps i }
  | .replaced preImage before after =>
    match s.dest with
    | none => s.finish i (.error .fileNotFound)
    | some data =>
      if sha256 data = sha256 (Utf8.encode after) then
        s.finish i (.ok ⟨preImage.map sha256, sha256 (Utf8.encode after), before, after⟩)
      else s.finish i (.error (.writeVerifyError (sha256 (Utf8.encode after)) (sha256 data)))

/-- A call to the operating system fails. What was written is removed. -/
def fault (s : State ι) (i : ι) : Phase → State ι
  | .transformed .. | .written .. | .checked .. => (s.unlink i).finish i (.error .osError)
  | _ => s.finish i (.error .osError)

/-! ## Runs -/

inductive Action (ι : Type*) where
  | lock (i : ι)
  | advance
  | fault
  /-- A writer without the lock leaves this content, or no file. -/
  | foreign (content : Option (List UInt8))

/-- The step of an action, for the requests of the calls. -/
def step (requests : ι → Request) (s : State ι) : Action ι → Option (State ι)
  | .lock i => if s.holder.isNone && (s.outcome i).isNone then some (s.goto i .locked) else none
  | .advance => s.holder.map fun held => advance sha256 (requests held.1) s held.1 held.2
  | .fault => s.holder.map fun held => fault s held.1 held.2
  | .foreign content => some { s with dest := content }

/-- The state in which no call has begun. -/
def State.start (dest : Option (List UInt8)) : State ι := ⟨dest, none, fun _ => none, fun _ => none⟩

def rmwSystem (requests : ι → Request) : System (State ι) (Action ι) :=
  .ofFn (fun s => ∃ dest, s = .start dest) (step sha256 requests)

/-! ## Writers without the lock -/

/-- No writer gets in behind the check of a call. -/
def BeforeCheck (s : State ι) : Action ι → Prop
  | .foreign _ => ∀ i p, s.holder = some (i, p) →
      match p with
      | .checked .. | .replaced .. => False
      | _ => True
  | _ => True

/-- The check tells the content from what was read. -/
def Told (preImage content : Option (List UInt8)) : Prop :=
  match preImage with
  | none => content = none
  | some raw => actualSha256 sha256 content = sha256 raw → content = some raw

/-- The check of the call that is under way tells what is written from what it has read: no file appears that was not
there, and no other content has the digest. -/
def Noticed (s : State ι) : Action ι → Prop
  | .foreign content => ∀ i p, s.holder = some (i, p) →
      match p with
      | .read preImage | .transformed preImage .. | .written preImage .. => Told sha256 preImage content
      | _ => True
  | _ => True

/-! ## What holds while calls run -/

/-- What the phase of a call says of the destination and of its temporary file. -/
def PhaseInv (r : Request) (dest temp : Option (List UInt8)) : Phase → Prop
  | .locked | .found => temp = none
  | .read preImage => temp = none ∧ Told sha256 preImage dest
  | .transformed preImage before after => Told sha256 preImage dest ∧ r.apply sha256 preImage = .ok (before, after)
  | .written preImage before after => temp = some (Utf8.encode after) ∧ Told sha256 preImage dest ∧
      r.apply sha256 preImage = .ok (before, after)
  | .checked preImage before after => temp = some (Utf8.encode after) ∧ dest = preImage ∧
      r.apply sha256 preImage = .ok (before, after)
  | .replaced preImage before after => temp = none ∧ dest = some (Utf8.encode after) ∧
      r.apply sha256 preImage = .ok (before, after)

/-- Only the call that has the lock has a temporary file, and it has not returned. -/
structure Inv (requests : ι → Request) (s : State ι) : Prop where
  temps : ∀ i, s.holder.map Prod.fst ≠ some i → s.temps i = none
  running : ∀ i p, s.holder = some (i, p) → s.outcome i = none
  phase : ∀ i p, s.holder = some (i, p) → PhaseInv sha256 (requests i) s.dest (s.temps i) p

variable {sha256} {requests : ι → Request} {s t : State ι} {i : ι}

theorem told_self (content : Option (List UInt8)) : Told sha256 content content := by
  cases content with
  | none => rfl
  | some raw => exact fun _ => rfl

omit [DecidableEq ι] in
theorem Inv.goto (h : Inv sha256 requests s) {p q : Phase} (hp : s.holder = some (i, p))
    (hq : PhaseInv sha256 (requests i) s.dest (s.temps i) q) : Inv sha256 requests (s.goto i q) := by
  refine ⟨fun j hj => h.temps j ?_, fun j q' hj => ?_, fun j q' hj => ?_⟩
  · rw [hp]
    exact hj
  · cases hj
    exact h.running i p hp
  · cases hj
    exact hq

omit [DecidableEq ι] in
theorem Inv.temps_of_ne (h : Inv sha256 requests s) {p : Phase} (hp : s.holder = some (i, p)) {j : ι} (hj : j ≠ i) :
    s.temps j = none := by
  apply h.temps j
  rw [hp]
  exact fun heq => hj (Option.some.inj heq).symm

theorem Inv.write (h : Inv sha256 requests s) {p q : Phase} (hp : s.holder = some (i, p))
    {dest temp : Option (List UInt8)} (hq : PhaseInv sha256 (requests i) dest temp q) :
    Inv sha256 requests { s with dest := dest, holder := some (i, q), temps := Function.update s.temps i temp } := by
  refine ⟨fun j hj => ?_, fun j q' hj => ?_, fun j q' hj => ?_⟩
  · have hne : j ≠ i := fun heq => hj (congrArg some heq.symm)
    exact (Function.update_of_ne hne ..).trans (h.temps_of_ne hp hne)
  · cases hj
    exact h.running i p hp
  · cases hj
    have htemp : Function.update s.temps i temp i = temp := Function.update_self ..
    change PhaseInv sha256 (requests i) dest (Function.update s.temps i temp i) q
    rw [htemp]
    exact hq

theorem Inv.finish (h : Inv sha256 requests s) {p : Phase} (hp : s.holder = some (i, p)) (htemp : s.temps i = none)
    (out : Except Error RmwResult) : Inv sha256 requests (s.finish i out) := by
  refine ⟨fun j _ => ?_, nofun, nofun⟩
  by_cases hj : j = i
  · rw [hj]
    exact htemp
  · exact h.temps_of_ne hp hj

theorem Inv.unlink (h : Inv sha256 requests s) {p : Phase} (hp : s.holder = some (i, p)) (out : Except Error RmwResult) :
    Inv sha256 requests ((s.unlink i).finish i out) := by
  refine ⟨fun j _ => ?_, nofun, nofun⟩
  by_cases hj : j = i
  · rw [hj]
    exact Function.update_self ..
  · exact (Function.update_of_ne hj ..).trans (h.temps_of_ne hp hj)

theorem Inv.advance (h : Inv sha256 requests s) {p : Phase} (hp : s.holder = some (i, p)) :
    Inv sha256 requests (advance sha256 (requests i) s i p) := by
  have hphase := h.phase i p hp
  cases p with
  | locked =>
    simp only [DurableIo.advance]
    split
    · exact h.goto hp hphase
    · rename_i hdest
      split
      · exact h.goto hp ⟨hphase, hdest⟩
      · exact h.finish hp hphase _
  | found =>
    simp only [DurableIo.advance]
    split
    · rename_i raw hdest
      refine h.goto hp ⟨hphase, ?_⟩
      rw [hdest]
      exact told_self _
    · exact h.finish hp hphase _
  | read preImage =>
    simp only [DurableIo.advance]
    split
    · rename_i before after happly
      exact h.goto hp ⟨hphase.2, happly⟩
    · exact h.finish hp hphase.1 _
  | transformed preImage before after => exact h.write hp ⟨rfl, hphase⟩
  | written preImage before after =>
    obtain ⟨htemp, htold, happly⟩ := hphase
    simp only [DurableIo.advance]
    cases preImage with
    | none => exact h.goto hp ⟨htemp, htold, happly⟩
    | some raw =>
      simp only
      split_ifs with hsha
      · exact h.goto hp ⟨htemp, htold hsha, happly⟩
      · exact h.unlink hp _
  | checked preImage before after =>
    obtain ⟨htemp, hdest, happly⟩ := hphase
    exact h.write hp ⟨rfl, htemp, happly⟩
  | replaced preImage before after =>
    obtain ⟨htemp, hdest, happly⟩ := hphase
    simp only [DurableIo.advance]
    rw [hdest]
    simp only
    split_ifs
    · exact h.finish hp htemp _
    · exact h.finish hp htemp _

theorem Inv.fault (h : Inv sha256 requests s) {p : Phase} (hp : s.holder = some (i, p)) :
    Inv sha256 requests (fault s i p) := by
  have hphase := h.phase i p hp
  cases p with
  | locked | found => exact h.finish hp hphase _
  | read preImage | replaced preImage before after => exact h.finish hp hphase.1 _
  | transformed preImage before after => exact h.unlink hp _
  | written preImage before after => exact h.unlink hp _
  | checked preImage before after => exact h.unlink hp _

omit [DecidableEq ι] in
theorem Inv.foreign (h : Inv sha256 requests s) {content : Option (List UInt8)}
    (hwindow : BeforeCheck s (.foreign content)) (hnoticed : Noticed sha256 s (.foreign content)) :
    Inv sha256 requests { s with dest := content } := by
  refine ⟨h.temps, h.running, fun i p hp => ?_⟩
  have hphase := h.phase i p hp
  have hbefore := hwindow i p hp
  have htold := hnoticed i p hp
  cases p with
  | locked => exact hphase
  | found => exact hphase
  | read preImage => exact ⟨hphase.1, htold⟩
  | transformed preImage before after => exact ⟨htold, hphase.2⟩
  | written preImage before after => exact ⟨hphase.1, htold, hphase.2.2⟩
  | checked preImage before after => exact hbefore.elim
  | replaced preImage before after => exact hbefore.elim

theorem step_lock_eq_some (h : step sha256 requests s (.lock i) = some t) :
    s.holder = none ∧ s.outcome i = none ∧ t = s.goto i .locked := by
  simp only [step, Option.ite_none_right_eq_some, Bool.and_eq_true, Option.isNone_iff_eq_none] at h
  obtain ⟨⟨hfree, hfresh⟩, heq⟩ := h
  exact ⟨hfree, hfresh, (Option.some.inj heq).symm⟩

/-- A step whose window is undisturbed, and whose interference is noticed, keeps the invariant. -/
theorem Inv.step (h : Inv sha256 requests s) {a : Action ι} (hwindow : BeforeCheck s a)
    (hnoticed : Noticed sha256 s a) (hstep : step sha256 requests s a = some t) : Inv sha256 requests t := by
  cases a with
  | lock i =>
    obtain ⟨hfree, hfresh, rfl⟩ := step_lock_eq_some hstep
    have htemps : ∀ j, s.temps j = none := fun j => h.temps j (by rw [hfree]; nofun)
    refine ⟨fun j _ => htemps j, fun j p hp => ?_, fun j p hp => ?_⟩
    · cases hp
      exact hfresh
    · cases hp
      exact htemps i
  | advance =>
    obtain ⟨⟨i, p⟩, hp, rfl⟩ := Option.map_eq_some_iff.1 hstep
    exact h.advance hp
  | fault =>
    obtain ⟨⟨i, p⟩, hp, rfl⟩ := Option.map_eq_some_iff.1 hstep
    exact h.fault hp
  | foreign content =>
    cases hstep
    exact h.foreign hwindow hnoticed

omit [DecidableEq ι] in
theorem inv_start (dest : Option (List UInt8)) : Inv sha256 requests (State.start dest : State ι) :=
  ⟨fun _ _ => rfl, nofun, nofun⟩

/-- What a step does to the file, by the call that has the lock. -/
structure Sound (sha256 : List UInt8 → String) (requests : ι → Request) (s : State ι) (a : Action ι) (t : State ι) :
    Prop where
  /-- The check passes when the file is as it was read; else the call fails, and leaves the file as it is and no temporary
  file. -/
  checks : ∀ i preImage before after, a = .advance → s.holder = some (i, .written preImage before after) →
    t.dest = s.dest ∧ if s.dest = preImage then t.holder = some (i, .checked preImage before after)
      else t.holder = none ∧ t.temps i = none ∧
        ∃ expected actual, t.outcome i = some (.error (.preImageMismatch expected actual))
  /-- The file is replaced with the transform of what it holds, which is what was checked. -/
  replaces : ∀ i preImage before after, a = .advance → s.holder = some (i, .checked preImage before after) →
    s.dest = preImage ∧ (requests i).apply sha256 s.dest = .ok (before, after) ∧ t.dest = some (Utf8.encode after)
  /-- Nothing else that a call does changes the file. -/
  keeps : t.dest ≠ s.dest → (∃ content, a = .foreign content) ∨
    a = .advance ∧ ∃ i preImage before after, s.holder = some (i, .checked preImage before after)
  /-- A call that succeeds has replaced the file, which has what it has written. -/
  succeeds : ∀ i result, t.outcome i = some (.ok result) → s.outcome i ≠ some (.ok result) →
    ∃ preImage, s.holder = some (i, .replaced preImage result.beforeText result.afterText) ∧
      (requests i).apply sha256 preImage = .ok (result.beforeText, result.afterText) ∧
      result.writtenSha256 = sha256 (Utf8.encode result.afterText) ∧ t.dest = some (Utf8.encode result.afterText)
  /-- A call that has returned has left no temporary file. -/
  clean : ∀ i, (t.outcome i).isSome = true → t.temps i = none

theorem Inv.checks (h : Inv sha256 requests s) {preImage : Option (List UInt8)} {before after : List Char}
    (hp : s.holder = some (i, .written preImage before after)) :
    DurableIo.advance sha256 (requests i) s i (.written preImage before after) = if s.dest = preImage then
      s.goto i (.checked preImage before after) else (s.unlink i).finish i (.error (.preImageMismatch
        (preImage.elim "" sha256) (actualSha256 sha256 s.dest))) := by
  obtain ⟨-, htold, -⟩ := h.phase i _ hp
  simp only [DurableIo.advance]
  cases preImage with
  | none => exact (if_pos htold).symm
  | some raw =>
    simp only
    by_cases hsha : actualSha256 sha256 s.dest = sha256 raw
    · rw [if_pos hsha, if_pos (htold hsha)]
    · have hne : s.dest ≠ some raw := fun heq => hsha (by rw [heq]; rfl)
      rw [if_neg hsha, if_neg hne]
      rfl

theorem outcome_finish_error {e : Error} {j : ι} {result : RmwResult}
    (h : (s.finish i (.error e)).outcome j = some (.ok result)) : s.outcome j = some (.ok result) := by
  by_cases hj : j = i
  · subst hj
    cases (Function.update_self ..).symm.trans h
  · exact (Function.update_of_ne hj ..).symm.trans h

theorem fault_spec (s : State ι) (i : ι) (p : Phase) : (fault s i p).dest = s.dest ∧
    ∀ j result, (fault s i p).outcome j = some (.ok result) → s.outcome j = some (.ok result) := by
  cases p <;> exact ⟨rfl, fun j result hout => outcome_finish_error hout⟩

theorem advance_spec (r : Request) (s : State ι) (i : ι) (p : Phase) :
    ((∀ preImage before after, p ≠ .checked preImage before after) → (advance sha256 r s i p).dest = s.dest) ∧
      ∀ j result, (advance sha256 r s i p).outcome j = some (.ok result) → s.outcome j = some (.ok result) ∨
        j = i ∧ result.writtenSha256 = sha256 (Utf8.encode result.afterText) ∧
          ∃ preImage, p = .replaced preImage result.beforeText result.afterText := by
  cases p with
  | locked =>
    simp only [advance]
    split
    · exact ⟨fun _ => rfl, fun _ _ hout => .inl hout⟩
    · split
      · exact ⟨fun _ => rfl, fun _ _ hout => .inl hout⟩
      · exact ⟨fun _ => rfl, fun _ _ hout => .inl (outcome_finish_error hout)⟩
  | found | read preImage =>
    simp only [advance]
    split
    · exact ⟨fun _ => rfl, fun _ _ hout => .inl hout⟩
    · exact ⟨fun _ => rfl, fun _ _ hout => .inl (outcome_finish_error hout)⟩
  | transformed preImage before after => exact ⟨fun _ => rfl, fun _ _ hout => .inl hout⟩
  | written preImage before after =>
    simp only [advance]
    cases preImage with
    | none => exact ⟨fun _ => rfl, fun _ _ hout => .inl hout⟩
    | some raw =>
      simp only
      split_ifs
      · exact ⟨fun _ => rfl, fun _ _ hout => .inl hout⟩
      · exact ⟨fun _ => rfl, fun _ _ hout => .inl (outcome_finish_error hout)⟩
  | checked preImage before after => exact ⟨fun h => (h _ _ _ rfl).elim, fun _ _ hout => .inl hout⟩
  | replaced preImage before after =>
    simp only [advance]
    split
    · exact ⟨fun _ => rfl, fun _ _ hout => .inl (outcome_finish_error hout)⟩
    · split_ifs
      · refine ⟨fun _ => rfl, fun j result hout => ?_⟩
        by_cases hj : j = i
        · subst hj
          cases (Function.update_self ..).symm.trans hout
          exact .inr ⟨rfl, rfl, preImage, rfl⟩
        · exact .inl ((Function.update_of_ne hj ..).symm.trans hout)
      · exact ⟨fun _ => rfl, fun _ _ hout => .inl (outcome_finish_error hout)⟩

omit [DecidableEq ι] in
theorem Inv.clean (h : Inv sha256 requests s) (hout : (s.outcome i).isSome = true) : s.temps i = none := by
  refine h.temps i fun hheld => ?_
  obtain ⟨⟨_, p⟩, hp, rfl⟩ := Option.map_eq_some_iff.1 hheld
  rw [h.running _ p hp] at hout
  cases hout

/-- A step between two states that meet the invariant is sound. -/
theorem Inv.sound (h : Inv sha256 requests s) {a : Action ι} (ht : Inv sha256 requests t)
    (hstep : DurableIo.step sha256 requests s a = some t) : Sound sha256 requests s a t := by
  refine ⟨?_, ?_, ?_, ?_, fun i => ht.clean⟩
  · rintro i preImage before after rfl hp
    rw [DurableIo.step, hp, Option.map_some, Option.some.injEq, h.checks hp] at hstep
    subst hstep
    split_ifs
    · exact ⟨rfl, rfl⟩
    · exact ⟨rfl, rfl, Function.update_self .., _, _, Function.update_self ..⟩
  · rintro i preImage before after rfl hp
    obtain ⟨htemp, hdest, happly⟩ := h.phase i _ hp
    rw [DurableIo.step, hp, Option.map_some, Option.some.injEq] at hstep
    subst hstep
    exact ⟨hdest, hdest ▸ happly, htemp⟩
  · intro hne
    cases a with
    | lock i =>
      obtain ⟨-, -, rfl⟩ := step_lock_eq_some hstep
      exact (hne rfl).elim
    | advance =>
      obtain ⟨⟨i, p⟩, hp, rfl⟩ := Option.map_eq_some_iff.1 hstep
      by_contra hnot
      refine hne ((advance_spec (requests i) s i p).1 fun preImage before after heq => hnot ?_)
      exact .inr ⟨rfl, i, preImage, before, after, heq ▸ hp⟩
    | fault =>
      obtain ⟨⟨i, p⟩, hp, rfl⟩ := Option.map_eq_some_iff.1 hstep
      exact (hne (fault_spec s i p).1).elim
    | foreign content => exact .inl ⟨content, rfl⟩
  · intro i result hout hnew
    cases a with
    | lock j =>
      obtain ⟨-, -, rfl⟩ := step_lock_eq_some hstep
      exact (hnew hout).elim
    | advance =>
      obtain ⟨⟨j, p⟩, hp, rfl⟩ := Option.map_eq_some_iff.1 hstep
      obtain hold | ⟨rfl, hsha, preImage, rfl⟩ := (advance_spec (requests j) s j p).2 i result hout
      · exact (hnew hold).elim
      · obtain ⟨-, hdest, happly⟩ := h.phase i _ hp
        refine ⟨preImage, hp, happly, hsha, ?_⟩
        exact ((advance_spec (requests i) s i _).1 fun _ _ _ heq => by cases heq).trans hdest
    | fault =>
      obtain ⟨⟨j, p⟩, hp, rfl⟩ := Option.map_eq_some_iff.1 hstep
      exact (hnew ((fault_spec s j p).2 i result hout)).elim
    | foreign content =>
      cases hstep
      exact (hnew hout).elim

/-- **No lost update.** In a run in which nobody writes without the lock behind the check of a call, and what is written
before is told from what was read, every step is sound: a file that has changed makes the call fail, and every
replacement is the transform of what it replaces. -/
theorem durableRmw_sound (sha256 : List UInt8 → String) (requests : ι → Request) {dest : Option (List UInt8)}
    {as : List (Action ι)} (h : ((rmwSystem sha256 requests).restrict fun s a =>
      BeforeCheck s a ∧ Noticed sha256 s a).Run (.start dest) as s) (earlier : List (Action ι)) (a : Action ι)
    (later : List (Action ι)) (has : as = earlier ++ a :: later) :
    ∃ u t, ((rmwSystem sha256 requests).restrict fun s a => BeforeCheck s a ∧ Noticed sha256 s a).Run (.start dest)
      earlier u ∧ (rmwSystem sha256 requests).step u a t ∧ Sound sha256 requests u a t := by
  subst has
  obtain ⟨u, hearlier, hlater⟩ := h.of_append
  have hu : Inv sha256 requests u := hearlier.invariant (fun _ _ _ hs hstep => hs.step hstep.1.1 hstep.1.2 hstep.2)
    (inv_start dest)
  cases hlater with
  | cons hstep _ => exact ⟨u, _, hearlier, hstep.2, hu.sound (hu.step hstep.1.1 hstep.1.2 hstep.2) hstep.2⟩

end

/-- A digest that tells all contents apart. -/
def dump (data : List UInt8) : String := String.ofList (data.map fun b => Char.ofNat b.toNat)

/-- A call that appends to a file, or makes it. -/
def appendRow : Request := ⟨fun prior => some (prior ++ ['a']), none, true, Utf8.replace⟩

theorem appendRow_apply : appendRow.apply dump none = .ok ([], ['a']) := by
  have hread : Utf8.decodeWith Utf8.replace [] = some [] := by rw [Utf8.decodeWith]
  simp [Request.apply, appendRow, hread]

theorem step_appendRow {s : State Bool} {i : Bool} {raw : List UInt8} (text : List Char)
    (hp : s.holder = some (i, .read (some raw))) (hraw : raw = Utf8.encode text) :
    step dump (fun _ => appendRow) s .advance =
      some (s.goto i (.transformed (some raw) text (text ++ ['a']))) := by
  subst hraw
  have hread : Utf8.decodeWith Utf8.replace (Utf8.encode text) = some text := Utf8.decodeWith_encode ..
  have happly : appendRow.apply dump (some (Utf8.encode text)) = .ok (text, text ++ ['a']) := by
    simp [Request.apply, appendRow, hread]
  rw [step, hp, Option.map_some, advance, happly]

/-- Of two calls on a file, the first finds at its check that the file has changed, and the second appends to it. -/
def twoCalls : List (Action Bool) :=
  [.lock false, .advance, .advance, .advance, .advance, .foreign (some [99]), .advance] ++
    [.lock true, .advance, .advance, .advance, .advance, .advance, .advance, .advance]

theorem durableRmw_sound_twoCalls : ∃ s : State Bool, s.dest = some [99, 97] ∧
    s.outcome false = some (.error (.preImageMismatch (dump [98]) (dump [99]))) ∧
    s.outcome true = some (.ok ⟨some (dump [99]), dump [99, 97], ['c'], ['c', 'a']⟩) ∧
    (∃ u t, ((rmwSystem dump fun _ : Bool => appendRow).restrict fun s a => BeforeCheck s a ∧ Noticed dump s a).Run
      (.start (some [98])) (twoCalls.take 6) u ∧ (rmwSystem dump fun _ => appendRow).step u .advance t ∧
        Sound dump (fun _ => appendRow) u .advance t) ∧
    ∃ u t, ((rmwSystem dump fun _ : Bool => appendRow).restrict fun s a => BeforeCheck s a ∧ Noticed dump s a).Run
      (.start (some [98])) (twoCalls.take 13) u ∧ (rmwSystem dump fun _ => appendRow).step u .advance t ∧
        Sound dump (fun _ => appendRow) u .advance t := by
  let start : State Bool := .start (some [98])
  let changed : State Bool := ⟨some [99], some (false, .written (some [98]) ['b'] ['b', 'a']),
    Function.update start.temps false (some [98, 97]), start.outcome⟩
  let failed := (changed.unlink false).finish false (.error (.preImageMismatch (dump [98]) (dump [99])))
  let held (p : Phase) := failed.goto true p
  let replaced : State Bool := { (held (.replaced (some [99]) ['c'] ['c', 'a'])) with
    dest := some [99, 97]
    temps := Function.update (Function.update failed.temps true (some [99, 97])) true none }
  have hfree : ∀ s : State Bool, ∀ a, (∀ content, a ≠ .foreign content) → BeforeCheck s a ∧ Noticed dump s a := by
    rintro s (_ | _ | _ | content) ha
    · exact ⟨trivial, trivial⟩
    · exact ⟨trivial, trivial⟩
    · exact ⟨trivial, trivial⟩
    · exact (ha content rfl).elim
  have hfirst : ((rmwSystem dump fun _ : Bool => appendRow).restrict fun s a =>
      BeforeCheck s a ∧ Noticed dump s a).Run start
        [.lock false, .advance, .advance, .advance, .advance, .foreign (some [99]), .advance] failed := by
    refine .cons (t := start.goto false .locked) ⟨hfree _ _ nofun, rfl⟩ ?_
    refine .cons (t := start.goto false .found) ⟨hfree _ _ nofun, rfl⟩ ?_
    refine .cons (t := start.goto false (.read (some [98]))) ⟨hfree _ _ nofun, rfl⟩ ?_
    refine .cons ⟨hfree _ _ nofun, step_appendRow ['b'] rfl rfl⟩ (.cons ⟨hfree _ _ nofun, rfl⟩ ?_)
    refine .cons (t := changed) ⟨⟨fun i p hp => ?_, fun i p hp => ?_⟩, rfl⟩ (.cons ⟨hfree _ _ nofun, rfl⟩ (.nil _))
    · cases hp
      trivial
    · cases hp
      exact fun heq => absurd heq (by decide)
  have hsecond : ((rmwSystem dump fun _ : Bool => appendRow).restrict fun s a =>
      BeforeCheck s a ∧ Noticed dump s a).Run failed
        [.lock true, .advance, .advance, .advance, .advance, .advance, .advance, .advance]
        (replaced.finish true (.ok ⟨some (dump [99]), dump [99, 97], ['c'], ['c', 'a']⟩)) := by
    refine .cons (t := held .locked) ⟨hfree _ _ nofun, rfl⟩ ?_
    refine .cons (t := held .found) ⟨hfree _ _ nofun, rfl⟩ ?_
    refine .cons (t := held (.read (some [99]))) ⟨hfree _ _ nofun, rfl⟩ ?_
    refine .cons ⟨hfree _ _ nofun, step_appendRow ['c'] rfl rfl⟩ (.cons ⟨hfree _ _ nofun, rfl⟩ ?_)
    refine .cons ⟨hfree _ _ nofun, rfl⟩ (.cons (t := replaced) ⟨hfree _ _ nofun, rfl⟩ ?_)
    exact .cons ⟨hfree _ _ nofun, rfl⟩ (.nil _)
  have hrun := hfirst.append hsecond
  -- The check of the first call, and the replacement by the second.
  exact ⟨replaced.finish true (.ok ⟨some (dump [99]), dump [99, 97], ['c'], ['c', 'a']⟩), rfl, rfl, rfl,
    durableRmw_sound dump (fun _ => appendRow) hrun (twoCalls.take 6) .advance (twoCalls.drop 7) rfl,
    durableRmw_sound dump (fun _ => appendRow) hrun (twoCalls.take 13) .advance (twoCalls.drop 14) rfl⟩

/-- A file that appears after the call found none passes the check, and is overwritten. -/
theorem durableRmw_overwrites : ∃ u t s : State Unit,
    ((rmwSystem dump fun _ => appendRow).restrict BeforeCheck).Run (.start none)
      [.lock (), .advance, .advance, .advance, .foreign (some [98])] u ∧
    (rmwSystem dump fun _ => appendRow).step u .advance t ∧ ¬Sound dump (fun _ => appendRow) u .advance t ∧
    ((rmwSystem dump fun _ => appendRow).restrict BeforeCheck).Run t [.advance, .advance] s ∧
    u.dest = some [98] ∧ s.dest = some [97] ∧
    s.outcome () = some (.ok ⟨none, dump [97], [], ['a']⟩) := by
  let temps : Unit → Option (List UInt8) := Function.update (fun _ => none) () (some [97])
  refine ⟨⟨some [98], some ((), .written none [] ['a']), temps, fun _ => none⟩,
    ⟨some [98], some ((), .checked none [] ['a']), temps, fun _ => none⟩,
    ⟨some [97], none, Function.update temps () none,
      Function.update (fun _ => none) () (some (.ok ⟨none, dump [97], [], ['a']⟩))⟩, ?_, rfl, ?_, ?_, rfl, rfl, rfl⟩
  · have hread : (rmwSystem dump fun _ : Unit => appendRow).step
        ⟨none, some ((), .read none), fun _ => none, fun _ => none⟩ .advance
        ⟨none, some ((), .transformed none [] ['a']), fun _ => none, fun _ => none⟩ := by
      change some (advance dump appendRow _ () (.read none)) = _
      rw [advance, appendRow_apply]
      rfl
    refine .cons ⟨trivial, rfl⟩ (.cons ⟨trivial, rfl⟩ (.cons ⟨trivial, hread⟩ (.cons ⟨trivial, rfl⟩
      (.cons ⟨fun i p hp => ?_, rfl⟩ (.nil _)))))
    cases hp
    trivial
  · intro h
    obtain ⟨-, hcheck⟩ := h.checks () none [] ['a'] rfl rfl
    rw [if_neg nofun] at hcheck
    cases hcheck.1
  · exact .cons ⟨trivial, rfl⟩ (.cons ⟨trivial, rfl⟩ (.nil _))

end LlmGateway.DurableIo
