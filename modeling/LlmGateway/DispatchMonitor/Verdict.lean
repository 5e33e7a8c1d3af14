import LlmGateway.DispatchMonitor.Handlers

/-!
# The verdict of a row

The verdict of a row is what its first terminal binds: the time, the state, the emitter, the token counts and the
failure reason. A change of rows is steady when it changes the verdict of no row that has a terminal and adds at most
names to its divergent fields, and gives no live row an emitter or a token count (`Steady`).

The changes the handlers are made of are steady. The merge of a live row is steady where the row it is merged into
has a failure reason if the live one has one, and is as far (`Harmless`).
-/

namespace LlmGateway.DispatchMonitor

/-- What the first terminal binds. -/
structure Verdict where
  terminalMs : Option ℤ
  state : String
  terminalEmitter : Option String
  promptTokens : Option ℤ
  completionTokens : Option ℤ
  cachedTokens : Option ℤ
  failureReason : Option String
  deriving DecidableEq

namespace SdkState

/-- The verdict of a row. -/
def verdict (row : SdkState) : Verdict :=
  ⟨row.terminalMs, row.state, row.terminalEmitter, row.promptTokens, row.completionTokens, row.cachedTokens,
    row.failureReason⟩

/-- The verdict stays, and divergent fields are only added. -/
structure Frozen (row row' : SdkState) : Prop where
  verdict : row'.verdict = row.verdict
  divergent : row.divergentFields <+: row'.divergentFields

namespace Frozen

variable {row row' row'' : SdkState}

theorem refl (row : SdkState) : Frozen row row := ⟨rfl, List.prefix_refl _⟩

theorem trans (h : Frozen row row') (h' : Frozen row' row'') : Frozen row row'' :=
  ⟨h'.verdict.trans h.verdict, h.divergent.trans h'.divergent⟩

theorem isLive (h : Frozen row row') : row'.isLive = row.isLive :=
  congrArg Option.isNone (congrArg Verdict.terminalMs h.verdict)

end Frozen

/-- A live row has no emitter of a terminal and no token counts. -/
def Blank (row : SdkState) : Prop :=
  row.isLive = true → row.terminalEmitter = none ∧ row.promptTokens = none ∧ row.completionTokens = none ∧
    row.cachedTokens = none

theorem blank_new (id : String) : (SdkState.new id).Blank := fun _ => ⟨rfl, rfl, rfl, rfl⟩

theorem blank_of_not_live {row : SdkState} (h : row.isLive = false) : row.Blank := fun hlive => by
  rw [h] at hlive
  cases hlive

theorem Blank.of_verdict {row row' : SdkState} (h : row.Blank) (hv : row'.verdict = row.verdict) : row'.Blank := by
  intro hlive
  have hm : row'.isLive = row.isLive := congrArg Option.isNone (congrArg Verdict.terminalMs hv)
  obtain ⟨h₁, h₂, h₃, h₄⟩ := h (hm ▸ hlive)
  exact ⟨(congrArg Verdict.terminalEmitter hv).trans h₁, (congrArg Verdict.promptTokens hv).trans h₂,
    (congrArg Verdict.completionTokens hv).trans h₃, (congrArg Verdict.cachedTokens hv).trans h₄⟩

/-! ## Steady changes -/

/-- Terminal rows are frozen, and live rows stay blank. -/
structure Steady (f : SdkState → SdkState) : Prop where
  frozen : ∀ row, row.isLive = false → Frozen row (f row)
  blank : ∀ row, row.Blank → (f row).Blank

namespace Steady

variable {f g : SdkState → SdkState}

theorem of_frozen (h : ∀ row, Frozen row (f row)) : Steady f :=
  ⟨fun row _ => h row, fun row hb => hb.of_verdict (h row).verdict⟩

/-- A change that leaves the verdict and the divergent fields alone. -/
theorem of_eq (h : ∀ row, (f row).verdict = row.verdict ∧ (f row).divergentFields = row.divergentFields) : Steady f :=
  of_frozen fun row => ⟨(h row).1, by rw [(h row).2]⟩

/-- A change of live rows. -/
theorem of_live (hdead : ∀ row, row.isLive = false → f row = row) (hblank : ∀ row, row.Blank → (f row).Blank) :
    Steady f :=
  ⟨fun row hrow => by rw [hdead row hrow]; exact .refl row, hblank⟩

theorem comp (hg : Steady g) (hf : Steady f) : Steady fun row => g (f row) :=
  ⟨fun row hrow => (hf.frozen row hrow).trans (hg.frozen _ ((hf.frozen row hrow).isLive.trans hrow)),
    fun row hb => hg.blank _ (hf.blank row hb)⟩

theorem id : Steady fun row => row := of_eq fun _ => ⟨rfl, rfl⟩

theorem ite {p : SdkState → Prop} [DecidablePred p] (hf : Steady f) (hg : Steady g) :
    Steady fun row => if p row then f row else g row := by
  constructor
  · intro row hrow
    split
    · exact hf.frozen row hrow
    · exact hg.frozen row hrow
  · intro row hb
    split
    · exact hf.blank row hb
    · exact hg.blank row hb

end Steady

/-! ### The changes of the handlers -/

theorem steady_put (stamp : Stamp) (text : String) : Steady fun row => row.put stamp text := .of_eq fun _ => ⟨rfl, rfl⟩

theorem steady_put? (stamp : Stamp) (text : Option String) : Steady fun row => row.put? stamp text := by
  cases text with
  | none => exact .id
  | some text => exact steady_put stamp text

/-- A text that is filled in changes no verdict. -/
theorem frozen_fill (row : SdkState) (stamp : Stamp) (text : Option String) : Frozen row (row.fill stamp text) := by
  unfold fill
  split
  · cases text with
    | none => exact .refl row
    | some text => exact ⟨rfl, List.prefix_refl _⟩
  · exact .refl row

theorem steady_fill (stamp : Stamp) (text : Option String) : Steady fun row => row.fill stamp text :=
  .of_frozen fun row => frozen_fill row stamp text

theorem steady_advance (ts : ℤ) : Steady fun row => row.advance ts :=
  .ite .id (.ite (.of_eq fun _ => ⟨rfl, rfl⟩) .id)

theorem steady_start (ts : ℤ) : Steady fun row => row.start ts := .ite (.of_eq fun _ => ⟨rfl, rfl⟩) .id

theorem steady_startEarlier (ts : ℤ) : Steady fun row => row.startEarlier ts := .ite (.of_eq fun _ => ⟨rfl, rfl⟩) .id

/-- A state is written where the row is live. -/
theorem steady_state {p : SdkState → Bool} {f : SdkState → String} (hp : ∀ row, row.isLive = false → p row = false) :
    Steady fun row => if p row then { row with state := f row } else row := by
  refine .of_live (fun row hrow => if_neg (by simp [hp row hrow])) fun row hb => ?_
  split
  · exact hb
  · exact hb

/-- `run` changes only rows that are not terminal. -/
theorem steady_run : Steady SdkState.run := steady_state fun _ h => h

theorem steady_runFresh : Steady SdkState.runFresh := steady_state fun row h => by rw [h, Bool.false_and]

theorem steady_park : Steady SdkState.park := by
  refine .of_live (fun row hrow => if_neg (by simp [hrow])) fun row hb => ?_
  rw [park]
  split
  · exact hb
  · exact hb

theorem steady_absorbToolCallCount (count : Option ℤ) : Steady fun row => row.absorbToolCallCount count := by
  cases count with
  | none => exact .id
  | some n => exact .ite (.of_eq fun _ => ⟨rfl, rfl⟩) .id

theorem steady_noteToolCallId (callId : Option String) : Steady fun row => row.noteToolCallId callId := by
  cases callId with
  | none => exact .id
  | some id => exact .ite .id (.of_eq fun _ => ⟨rfl, rfl⟩)

theorem steady_noteEmitter (emitter : String) : Steady fun row => row.noteEmitter emitter :=
  .ite .id (.of_eq fun _ => ⟨rfl, rfl⟩)

theorem steady_absorbAdmitStamps (r : Record) : Steady fun row => row.absorbAdmitStamps r := by
  have hfill := steady_fill .packetKind (r.text? "packet_kind")
  have hid : Steady fun row => if row.fast.isNone then row else row := .ite .id .id
  unfold absorbAdmitStamps
  generalize r.get "model_knobs_requested" = knobs
  cases knobs with
  | obj knobs =>
    have hfast : Steady fun row =>
        if row.fast.isNone then
          if (Json.get knobs "fast").isStrIn ["true"] then { row with fast := some true }
          else if (Json.get knobs "fast").isStrIn ["false"] then { row with fast := some false }
          else row
        else row :=
      .ite (.ite (.of_eq fun _ => ⟨rfl, rfl⟩) (.ite (.of_eq fun _ => ⟨rfl, rfl⟩) .id)) .id
    exact hfast.comp hfill
  | null | bool _ | int _ | float _ | str _ | arr _ => exact hid.comp hfill

theorem steady_fillIdentity (r : Record) : Steady fun row => row.fillIdentity r := by
  have hfold : ∀ keys : List (String × Stamp), Steady fun row =>
      keys.foldl (fun row e => row.fill e.2 (r.text? e.1)) row := by
    intro keys
    induction keys with
    | nil => exact .id
    | cons e keys ih => exact ih.comp (steady_fill e.2 (r.text? e.1))
  exact (steady_absorbAdmitStamps r).comp (hfold identityKeys)

theorem steady_applyProvenance (r : Record) : Steady fun row => row.applyProvenance r :=
  .ite (.ite .id (.of_eq fun _ => ⟨rfl, rfl⟩)) (.of_eq fun _ => ⟨rfl, rfl⟩)

theorem steady_diverge (field : String) : Steady fun row => row.diverge field := by
  refine .ite .id (.of_frozen fun row => ⟨rfl, ?_⟩)
  exact List.prefix_append _ _

/-- A comparison of a terminal row can only record that it diverges. -/
theorem steady_compare (state : String) (promptTokens completionTokens : Option ℤ) (failureReason : Option String) :
    Steady fun row => row.compare state promptTokens completionTokens failureReason := by
  have hstate : Steady fun row => if row.state = state then row else row.diverge "state" :=
    .ite .id (steady_diverge "state")
  have hprompt : Steady fun row =>
      if promptTokens.isNone || row.promptTokens = promptTokens then row else row.diverge "prompt_tokens" :=
    .ite .id (steady_diverge "prompt_tokens")
  have hcompletion : Steady fun row =>
      if completionTokens.isNone || row.completionTokens = completionTokens then row
      else row.diverge "completion_tokens" := .ite .id (steady_diverge "completion_tokens")
  have hreason : Steady fun row =>
      if failureReason.isNone || row.failureReason = failureReason then row else row.diverge "failure_reason" :=
    .ite .id (steady_diverge "failure_reason")
  exact hreason.comp (hcompletion.comp (hprompt.comp hstate))

/-- A terminal is bound where the row is live. -/
theorem steady_bind {p : SdkState → Bool} {f : SdkState → SdkState} (hp : ∀ row, row.isLive = false → p row = false)
    (hf : ∀ row, (f row).isLive = false) : Steady fun row => if p row then f row else row := by
  refine .of_live (fun row hrow => if_neg (by simp [hp row hrow])) fun row hb => ?_
  split
  · exact blank_of_not_live (hf row)
  · exact hb

theorem isLive_orphan (row : SdkState) (ts : ℤ) (reason : String) : (row.orphan ts reason).isLive = false := by
  rw [orphan, touch]
  split <;> rfl

/-! ### Merging -/

/-- A live row that changes no verdict when it is merged into the row. -/
structure Harmless (row alt : SdkState) : Prop where
  rank : rank alt.state ≤ rank row.state
  failureReason : row.failureReason = none → alt.failureReason = none

theorem larger_none (n : Option ℤ) : larger n none = n := by
  cases n <;> rfl

theorem isLive_merge (row alt : SdkState) : (row.merge alt).isLive = row.isLive := rfl

/-- A harmless live row leaves a terminal row frozen. -/
theorem frozen_merge {row alt : SdkState} (h : Harmless row alt) (hlive : alt.isLive = true) (hb : alt.Blank) :
    Frozen row (row.merge alt) := by
  obtain ⟨hemitter, hprompt, hcompletion, hcached⟩ := hb hlive
  refine ⟨?_, List.prefix_append _ _⟩
  have hreason : (row.failureReason.orElse fun _ => alt.failureReason) = row.failureReason := by
    cases hr : row.failureReason with
    | none => exact h.failureReason hr
    | some reason => rfl
  have hor : (row.terminalEmitter.orElse fun _ => alt.terminalEmitter) = row.terminalEmitter := by
    rw [hemitter]
    cases row.terminalEmitter <;> rfl
  simp only [verdict, merge, hprompt, hcompletion, hcached, larger_none, if_neg (not_lt.2 h.rank), hreason, hor]

theorem blank_merge {row alt : SdkState} (hrow : row.Blank) (hlive : alt.isLive = true) (hb : alt.Blank) :
    (row.merge alt).Blank := by
  obtain ⟨hemitter, hprompt, hcompletion, hcached⟩ := hb hlive
  intro h
  obtain ⟨h₁, h₂, h₃, h₄⟩ := hrow h
  refine ⟨?_, ?_, ?_, ?_⟩ <;> simp only [merge, h₁, h₂, h₃, h₄, hemitter, hprompt, hcompletion, hcached] <;> rfl

end SdkState

end LlmGateway.DispatchMonitor
