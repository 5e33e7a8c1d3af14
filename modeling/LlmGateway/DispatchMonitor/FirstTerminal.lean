import LlmGateway.DispatchMonitor.Merges
import LlmGateway.Foundations.System

/-!
# The first terminal wins

A terminal row keeps its verdict through every record, whatever lane it comes from, and at most names are added to
its divergent fields: the handlers are edits, and the merges of live rows keep the row when they are harmless to it.
`first_terminal_wins` says this of every run whose merges are harmless. `lateRow_reopens` is a run with a merge that
is not: the state of a terminal row is written over.
-/

namespace LlmGateway.DispatchMonitor

open SdkState

namespace SdkFold

variable {x y : SdkFold} {key : String}

/-! ## Harmless merges -/

/-- Every live row that is merged into a terminal row is harmless to it. -/
def CalmFor (x : SdkFold) (key : String) (alts : List String) : Prop :=
  ∀ row, x.dispatches.get? key = some row → row.isLive = false → ∀ alt ∈ alts, alt ≠ key →
    ∀ altRow, x.dispatches.get? alt = some altRow → altRow.isLive = true → Harmless row altRow

theorem allBlank_mergeAlt (hb : x.AllBlank) (key alt : String) : (mergeAlt key x alt).AllBlank := by
  obtain heq | ⟨altRow, hne, hrow, hlive⟩ := mergeAlt_cases x key alt
  · rw [heq]
    exact hb
  intro j row hj
  rw [get?_mergeAlt hne hrow hlive] at hj
  split at hj
  · cases hj
  · split at hj
    · obtain rfl := Option.some.inj hj
      refine blank_merge ?_ hlive (hb alt altRow hrow)
      cases hk : x.dispatches.get? key with
      | none => exact blank_new key
      | some row => exact hb key row hk
    · exact hb j row hj

theorem carries_mergeAlt {alt : String} {alts : List String} (h : x.CalmFor key (alt :: alts)) :
    Carries none x (mergeAlt key x alt) := by
  obtain heq | ⟨altRow, hne, hrow, hlive⟩ := mergeAlt_cases x key alt
  · rw [heq]
    exact .refl _ x
  intro hb
  refine ⟨allBlank_mergeAlt hb key alt, fun j row _ hj hdead => ?_⟩
  have hja : j ≠ alt := by
    rintro rfl
    obtain rfl := Option.some.inj (hrow.symm.trans hj)
    rw [hlive] at hdead
    cases hdead
  rw [get?_mergeAlt hne hrow hlive, if_neg hja]
  split
  · rename_i hjk
    subst hjk
    rw [hj]
    exact ⟨_, rfl, frozen_merge (h row hj hdead alt List.mem_cons_self hne altRow hrow hlive) hlive
      (hb alt altRow hrow)⟩
  · exact ⟨row, hj, .refl row⟩

theorem calmFor_mergeAlt {alt : String} {alts : List String} (hb : x.AllBlank) (h : x.CalmFor key (alt :: alts)) :
    (mergeAlt key x alt).CalmFor key alts := by
  have hold : x.CalmFor key alts := fun row hrow hdead a ha => h row hrow hdead a (List.mem_cons_of_mem _ ha)
  obtain heq | ⟨altRow, hne, hrow, hlive⟩ := mergeAlt_cases x key alt
  · rw [heq]
    exact hold
  have hget := get?_mergeAlt hne hrow hlive
  intro row hkey hdead a ha hak aRow haRow halive
  rw [hget, if_neg hne.symm, if_pos rfl] at hkey
  obtain rfl := Option.some.inj hkey
  rw [isLive_merge] at hdead
  cases hk : x.dispatches.get? key with
  | none =>
    rw [hk] at hdead
    cases hdead
  | some row =>
    rw [hk] at hdead
    rw [hget, if_neg hak] at haRow
    split at haRow
    · cases haRow
    · have hharmless := hold row hk hdead a ha hak aRow haRow halive
      have hv := (frozen_merge (h row hk hdead alt List.mem_cons_self hne altRow hrow hlive) hlive
        (hb alt altRow hrow)).verdict
      refine ⟨?_, fun hnone => ?_⟩
      · rw [show ((some row).getD (.new key)).merge altRow = row.merge altRow from rfl,
          show (row.merge altRow).state = row.state from congrArg Verdict.state hv]
        exact hharmless.rank
      · exact hharmless.failureReason ((congrArg Verdict.failureReason hv).symm.trans hnone)

theorem carries_foldl_mergeAlt {alts : List String} (h : x.CalmFor key alts) :
    Carries none x (alts.foldl (mergeAlt key) x) := by
  induction alts generalizing x with
  | nil => exact .refl _ x
  | cons alt alts ih =>
    intro hb
    exact (carries_mergeAlt h).trans (fun hb' => ih (calmFor_mergeAlt hb h) hb') hb

/-- The merges of `ensure_canonical_row` are harmless. -/
def Calm (x : SdkFold) (preferred : String) (ids : List String) : Prop :=
  x.CalmFor (x.resolve preferred) (x.resolvedIds preferred ids)

theorem carries_redirects (key : String) (ids : List String) (x : SdkFold) :
    Carries none x ((ids.foldl (redirect key) x).openRow key) := by
  have hredirect : ∀ y id, Carries none y (redirect key y id) := fun _ _ => .of_dispatches rfl
  exact (Carries.foldl hredirect ids x).trans (.openRow _ key)

theorem carries_ensureCanonicalRow {preferred : String} {ids : List String} (h : x.Calm preferred ids) :
    Carries none x (x.ensureCanonicalRow preferred ids) :=
  (carries_foldl_mergeAlt h).trans (carries_redirects _ ids _)

/-! ## A record -/

/-- Redirected ids have rows, and live rows are blank. -/
def Sound (x : SdkFold) : Prop := x.Grounded ∧ x.AllBlank

theorem sound_new : Sound new := ⟨grounded_new, fun _ _ h => by cases h⟩

theorem Sound.ensureCanonicalRow (h : x.Sound) (preferred : String) (ids : List String) :
    (x.ensureCanonicalRow preferred ids).Sound := by
  refine ⟨h.1.ensureCanonicalRow preferred ids, ?_⟩
  have hmerges : ∀ (alts : List String) (y : SdkFold), y.AllBlank →
      (alts.foldl (mergeAlt (x.resolve preferred)) y).AllBlank := by
    intro alts
    induction alts with
    | nil => exact fun _ hy => hy
    | cons alt alts ih => exact fun y hy => ih _ (allBlank_mergeAlt hy _ alt)
  exact (carries_redirects _ ids _ (hmerges _ x h.2)).1

theorem carries_ensureRow (h : x.Grounded) (id : String) : Carries none x (x.ensureRow id).1 := by
  obtain heq | ⟨hrow, -, heq⟩ := ensureRow_cases h id
  · rw [heq]
    exact .refl _ x
  · exact .set_new hrow (by rw [heq])

/-- A sound fold stays sound. -/
theorem covers_sound : Covers fun x y => x.Sound → y.Sound where
  trans h h' hx := h' (h hx)
  edits he hx := ⟨hx.1.edits he, (he.carries hx.2).1⟩
  opens _ id hx := ⟨hx.1.ensureRow id, (carries_ensureRow hx.1 id hx.2).1⟩

/-- A sound fold stays sound and keeps its terminal rows. -/
def Keeps (x y : SdkFold) : Prop := x.Sound → y.Sound ∧ Kept none x y

theorem covers_keeps : Covers Keeps where
  trans h h' hx := by
    obtain ⟨hy, hxy⟩ := h hx
    obtain ⟨hz, hyz⟩ := h' hy
    have hcarries : Carries none _ _ := Carries.trans (fun _ => ⟨hy.2, hxy⟩) fun _ => ⟨hz.2, hyz⟩
    exact ⟨hz, (hcarries hx.2).2⟩
  edits he hx := ⟨covers_sound.edits he hx, (he.carries hx.2).2⟩
  opens x id hx := ⟨covers_sound.opens x id hx, (carries_ensureRow hx.1 id hx.2).2⟩

/-- The merges of a record are harmless. -/
def CalmStep (x : SdkFold) (r : Record) : Prop := ∀ c ∈ x.calls r, c.fold.Calm c.preferred c.ids

variable (others : CorrelationIndex → Record → CorrelationIndex)

/-- A record keeps the fold sound. -/
theorem Sound.next (h : x.Sound) (r : Record) : (next others x r).Sound :=
  (next_reaches covers_sound others fun c _ hc => hc.ensureCanonicalRow c.preferred c.ids).fold h

/-- **One record** with harmless merges. -/
theorem keeps_next {r : Record} (h : x.CalmStep r) : Keeps x (SdkFold.next others x r) :=
  (next_reaches covers_keeps others fun c hc hx =>
    ⟨hx.ensureCanonicalRow c.preferred c.ids, (carries_ensureCanonicalRow (h c hc) hx.2).2⟩).fold

end SdkFold

/-! ## Runs -/

/-- The monitor, as far as the SDK fold goes. -/
def monitor (others : CorrelationIndex → Record → CorrelationIndex) : System SdkFold Record where
  init x := x = .new
  step x r y := y = x.next others r

/-- Every fold of a journal is sound. -/
theorem sound_of_reachable {others : CorrelationIndex → Record → CorrelationIndex} {x : SdkFold}
    (h : (monitor others).Reachable x) : x.Sound := by
  refine h.invariant ?_ ?_
  · rintro _ rfl
    exact SdkFold.sound_new
  · rintro x r _ hx rfl
    exact hx.next others r

/-- **The first terminal wins.** From any reachable fold, a run whose merges are harmless changes the verdict of no
terminal row, and at most adds to its divergent fields. -/
theorem first_terminal_wins {others : CorrelationIndex → Record → CorrelationIndex} {x y : SdkFold}
    (hx : (monitor others).Reachable x) (hxy : ((monitor others).restrict SdkFold.CalmStep).Path x y) {key : String}
    {row : SdkState} (hrow : x.dispatches.get? key = some row) (hdead : row.isLive = false) :
    ∃ row', y.dispatches.get? key = some row' ∧ row'.verdict = row.verdict ∧
      row.divergentFields <+: row'.divergentFields := by
  obtain ⟨records, hrun⟩ := hxy
  have hkeeps : SdkFold.Keeps x y := by
    refine hrun.rel (R := SdkFold.Keeps) (fun z => SdkFold.covers_keeps.refl z)
      (fun _ _ _ h h' => SdkFold.covers_keeps.trans h h') ?_
    rintro z r _ ⟨hcalm, rfl⟩
    exact SdkFold.keeps_next others hcalm
  obtain ⟨row', hrow', hfrozen⟩ := (hkeeps (sound_of_reachable hx)).2 key row (Option.some_ne_none key) hrow hdead
  exact ⟨row', hrow', hfrozen.verdict, hfrozen.divergent⟩

/-- The fold behind the records, where the other folds leave the index alone. -/
def folded (records : List Record) : SdkFold := records.foldl (SdkFold.next fun index _ => index) .new

theorem reachable_folded (records : List Record) : (monitor fun index _ => index).Reachable (folded records) := by
  induction records using List.reverseRecOn with
  | nil => exact .init rfl
  | append_singleton records r ih =>
    rw [folded, List.foldl_append]
    exact ih.step rfl

/-- The worker completes a dispatch. -/
def workerDone : Record := ⟨.workerCompleted, 10, [("dispatch_id", .str "d"), ("prompt_tokens", .int 5)], none, none⟩

/-- The pipeline completes it with another count. -/
def pipelineDone : Record :=
  ⟨.pipelineCompleted, 20, [("dispatch_id", .str "d"), ("prompt_tokens", .int 7)], none, none⟩

theorem calmStep_pipelineDone : (folded [workerDone]).CalmStep pipelineDone := by
  have hcalls : (folded [workerDone]).calls pipelineDone = [⟨folded [workerDone], "d", ["d"]⟩] := rfl
  have hids : (folded [workerDone]).resolvedIds "d" ["d"] = ["d"] := by decide
  have hkey : (folded [workerDone]).resolve "d" = "d" := by decide
  intro c hc
  rw [hcalls, List.mem_singleton] at hc
  subst hc
  rw [SdkFold.Calm, hids, hkey]
  exact fun _ _ _ alt halt hne => absurd (List.mem_singleton.1 halt) hne

/-- The second lane only diverges. -/
theorem first_terminal_wins_diverges : ∃ row row', (folded [workerDone]).dispatches.get? "d" = some row ∧
    row.terminalMs = some 10 ∧ row.promptTokens = some 5 ∧
    (folded [workerDone, pipelineDone]).dispatches.get? "d" = some row' ∧ row'.verdict = row.verdict ∧
    row'.divergentFields = ["prompt_tokens"] := by
  have hfirst : ((folded [workerDone]).dispatches.get? "d").map (fun row => (row.terminalMs, row.promptTokens)) =
      some (some 10, some 5) := by decide
  have hsecond : ((folded [workerDone, pipelineDone]).dispatches.get? "d").map SdkState.divergentFields =
      some ["prompt_tokens"] := by decide
  obtain ⟨row, hrow, hvalues⟩ := Option.map_eq_some_iff.1 hfirst
  rw [Prod.mk.injEq] at hvalues
  have hpath : ((monitor fun index _ => index).restrict SdkFold.CalmStep).Path (folded [workerDone])
      (folded [workerDone, pipelineDone]) := .single ⟨calmStep_pipelineDone, rfl⟩
  have hdead : row.isLive = false := by rw [SdkState.isLive, hvalues.1]; rfl
  obtain ⟨row', hrow', hverdict, -⟩ := first_terminal_wins (reachable_folded [workerDone]) hpath hrow hdead
  rw [hrow'] at hsecond
  exact ⟨row, row', hrow, hvalues.1, hvalues.2, hrow', hverdict, Option.some.inj hsecond⟩

/-- A pipeline starts under its execution id. -/
def pipelineStart : Record := ⟨.pipelineStarted, 5, [("execution_id", .str "e")], none, none⟩

/-- The progress of a worker names both ids. -/
def lateProgress : Record :=
  ⟨.workerProgress, 20, [("dispatch_id", .str "d"), ("execution_id", .str "e")], none, none⟩

/-- The live row of the execution id is merged into the terminal row, and the terminal row is running again. -/
theorem lateRow_reopens :
    ((folded [pipelineStart, workerDone]).dispatches.get? "d").map SdkState.verdict =
      some ⟨some 10, "completed", some "worker", some 5, none, none, none⟩ ∧
    ((folded [pipelineStart, workerDone, lateProgress]).dispatches.get? "d").map SdkState.verdict =
      some ⟨some 10, "running", some "worker", some 5, none, none, none⟩ := by
  decide

end LlmGateway.DispatchMonitor
