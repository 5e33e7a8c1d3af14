import LlmGateway.Foundations.System
import LlmGateway.MechanicalLand.Transition

/-!
# What a land rests on

A run ought to land only what its last gate let through and its last review approved, and to have asked for one
fix at most for either. The table asks for a passing gate when it leaves the step `gate`, and for the approved tip
when it leaves the step `review`; behind that it does not look again. `gated_land` says under which conditions on
the events that is enough: no failing gate once the review has begun, no other verdict once the run is to land,
an approval that names its tip, fixes that are booked under the reason the table gave, and no block that moves a
run into the step `review` or `land`.
-/

namespace LlmGateway.MechanicalLand

/-! ## What the table decides -/

/-- What a transition says of the state it is decided from, as far as reviews, lands and fixes go. -/
inductive Decided (s : RunState) (t : Transition) : Prop
  | other (hland : t.command ≠ .land) (hreview : t.toStep ≠ some "review") (hstep : t.toStep ≠ some "land")
    (hfix : t.toStep ≠ some "fix")
  | review (hland : t.command ≠ .land) (hto : t.toStep = some "review")
    (h : s.currentStep = "review" ∨ ∃ g, s.latestGate = some g ∧ g.verdict ≠ .infraError ∧
      (g.verdict = .green ∨ g.attempt ∈ s.waivedGateAttempts))
  | land (hto : t.toStep = some "land")
    (h : s.currentStep = "land" ∨ (s.currentStep = "review" ∧ s.approved = true))
  | fix (hland : t.command ≠ .land) (hto : t.toStep = some "fix")
    (h : (t.reason = some "gate_red" ∧ s.gateFixUsed = 0) ∨
      (t.reason = some "review_request_changes" ∧ s.reviewFixUsed = 0))

namespace Decided

variable {policy : Policy} {s : RunState}

theorem wait (reason : String) : Decided s (.wait reason) :=
  .other (by simp [Transition.wait]) (by simp [Transition.wait]) (by simp [Transition.wait])
    (by simp [Transition.wait])

theorem block (code : String) (step : Option String) (attempt : ℤ) : Decided s (.block code step attempt) :=
  .other (by simp [Transition.block]) (by simp [Transition.block]) (by simp [Transition.block])
    (by simp [Transition.block])

theorem first {command : Command} {step : String} (hland : command ≠ .land) (hreview : step ≠ "review")
    (hstep : step ≠ "land") (hfix : step ≠ "fix") (reason : Option String) :
    Decided s (RunState.toFirst command step reason) :=
  .other hland (by simp [RunState.toFirst, hreview]) (by simp [RunState.toFirst, hstep])
    (by simp [RunState.toFirst, hfix])

theorem gate (reason : String) : Decided s (s.toGate reason) :=
  .other (by simp [RunState.toGate]) (by simp [RunState.toGate]) (by simp [RunState.toGate])
    (by simp [RunState.toGate])

theorem noop (reason : String) : Decided s { command := .noop, reason := some reason } :=
  .other (by simp) (by simp) (by simp) (by simp)

variable {t : Transition}

theorem legFailedOrScope (h : s.legFailedOrScope = some t) : Decided s t := by
  obtain ⟨lc, -, h⟩ := Option.bind_eq_some_iff.1 h
  split at h
  · cases h
    exact block ..
  split at h
  · cases h
  · cases h
    exact block ..

theorem getD {o : Option Transition} (ho : ∀ u, o = some u → Decided s u) (ht : Decided s t) :
    Decided s (o.getD t) := by
  cases o with
  | none => exact ht
  | some u => exact ho u rfl

theorem implement : Decided s s.transitionImplement := by
  refine getD (fun _ => legFailedOrScope) ?_
  split
  · exact wait _
  split
  · exact wait _
  split
  · exact gate _
  · exact wait _

theorem fixStep : Decided s s.transitionFix := by
  refine getD (fun _ => legFailedOrScope) ?_
  split
  · exact wait _
  split
  · exact gate _
  · exact wait _

theorem gateStep : Decided s (RunState.transitionGate policy s) := by
  unfold RunState.transitionGate
  split
  · exact wait _
  rename_i g hg
  split
  · exact block ..
  rename_i hinfra
  split
  · exact .review (by simp [RunState.toReview]) rfl (.inr ⟨g, hg, hinfra, ‹_›⟩)
  split
  · exact .fix (by simp [RunState.toFix]) rfl (.inl ⟨rfl, ‹_›⟩)
  · exact block ..

theorem toReview (hstep : s.currentStep = "review") (attempt : ℤ) (reason route : String) :
    Decided s (RunState.toReview attempt reason route) :=
  .review (by simp [RunState.toReview]) rfl (.inl hstep)

theorem reviewStep (hstep : s.currentStep = "review") : Decided s (RunState.transitionReview policy s) := by
  unfold RunState.transitionReview
  split
  · exact wait _
  split
  · exact .land rfl (.inr ⟨hstep, ‹_›⟩)
  split
  · split
    · exact .fix (by simp [RunState.toFix]) rfl (.inr ⟨rfl, ‹_›⟩)
    · exact block ..
  split
  · unfold RunState.transitionUnbound
    split
    · exact toReview hstep ..
    · exact block ..
  · simp only [RunState.transitionUnreviewed]
    split
    · exact block ..
    split
    · exact wait _
    · exact toReview hstep ..

theorem landStep (hstep : s.currentStep = "land") : Decided s s.transitionLand := by
  unfold RunState.transitionLand
  split
  · exact first (by decide) (by decide) (by decide) (by decide) _
  split
  · exact block ..
  · exact .land rfl (.inl hstep)

theorem restartStep : Decided s s.transitionRestart := by
  unfold RunState.transitionRestart
  split
  · exact wait _
  split
  · exact block ..
  split
  · exact first (by decide) (by decide) (by decide) (by decide) _
  · exact wait _

theorem probeStep : Decided s s.transitionProbe := by
  unfold RunState.transitionProbe
  split
  · exact first (by decide) (by decide) (by decide) (by decide) _
  · exact block ..

theorem closeStep : Decided s s.transitionClose := by
  unfold RunState.transitionClose
  split
  · exact noop _
  · exact first (by decide) (by decide) (by decide) (by decide) _

theorem evidence : Decided s s.transitionEvidence := by
  unfold RunState.transitionEvidence
  split
  · exact .other (by simp [RunState.toFirst]) (by simp [RunState.toFirst]) (by simp [RunState.toFirst])
      (by simp [RunState.toFirst])
  split
  · exact .other (by simp) (by simp) (by simp) (by simp)
  split
  · exact .other (by simp) (by simp) (by simp) (by simp)
  · exact wait _

theorem ruling (h : s.decidingRuling = some t) : Decided s t := by
  have h := (Option.filter_eq_some_iff.1 h).1
  unfold RunState.rulingOverlay at h
  split at h
  · cases h
  split at h
  · cases h
    exact wait _
  · obtain ⟨p, -, rfl⟩ := Option.map_eq_some_iff.1 h
    exact .other (by simp) (by simp) (by simp) (by simp)

/-- **What the table decides.** One case for each row. -/
theorem transition (policy : Policy) (s : RunState) : Decided s (MechanicalLand.transition policy s) := by
  unfold MechanicalLand.transition
  split
  · exact noop _
  refine getD (fun _ => ruling) ?_
  split
  · exact evidence
  split
  · exact wait _
  split
  · exact first (by decide) (by decide) (by decide) (by decide) _
  unfold RunState.transitionStep
  split
  · exact implement
  split
  · exact fixStep
  split
  · exact gateStep
  split
  · exact reviewStep ‹_›
  split
  · exact landStep ‹_›
  split
  · exact restartStep
  split
  · exact probeStep
  split
  · exact closeStep
  · exact noop _

end Decided

/-! ## The latest gate -/

namespace RunState

variable {s : RunState}

/-- The results stand under their own attempts. -/
def Keyed (s : RunState) : Prop := ∀ a g, s.gateResults.get? a = some g → g.attempt = a

theorem mem_gateAttempts {a : ℤ} : a ∈ s.gateAttempts ↔ ∃ g, s.gateResults.get? a = some g := by
  rw [gateAttempts, List.mem_insertionSort, List.mem_map]
  constructor
  · rintro ⟨e, he, rfl⟩
    exact ⟨e.2, Dict.mem_items_iff.1 he⟩
  · rintro ⟨g, hg⟩
    exact ⟨(a, g), Dict.mem_items_iff.2 hg, rfl⟩

theorem latestGate_eq_some_iff {g : GateResult} (hkey : s.Keyed) : s.latestGate = some g ↔
    s.gateResults.get? g.attempt = some g ∧ ∀ b h, s.gateResults.get? b = some h → b ≤ g.attempt := by
  have hsorted : s.gateAttempts.Pairwise fun a b => b ≤ a := List.pairwise_insertionSort _ _
  rw [latestGate, Option.bind_eq_some_iff]
  constructor
  · rintro ⟨a, ha, hg⟩
    obtain rfl := hkey a g hg
    obtain ⟨rest, hrest⟩ := List.head?_eq_some_iff.1 ha
    refine ⟨hg, fun b h hb => ?_⟩
    have hmem : b ∈ s.gateAttempts := mem_gateAttempts.2 ⟨h, hb⟩
    rw [hrest] at hmem hsorted
    obtain rfl | hmem := List.mem_cons.1 hmem
    · exact le_rfl
    · exact (List.pairwise_cons.1 hsorted).1 b hmem
  · rintro ⟨hg, hmax⟩
    refine ⟨g.attempt, ?_, hg⟩
    have hmem : g.attempt ∈ s.gateAttempts := mem_gateAttempts.2 ⟨g, hg⟩
    cases hatt : s.gateAttempts with
    | nil => rw [hatt] at hmem; cases hmem
    | cons a rest =>
      rw [hatt] at hmem hsorted
      have ha : ∃ h, s.gateResults.get? a = some h := mem_gateAttempts.1 (hatt ▸ List.mem_cons_self)
      obtain ⟨h, ha⟩ := ha
      have hle : g.attempt ≤ a := by
        obtain heq | hmem := List.mem_cons.1 hmem
        · exact heq.le
        · exact (List.pairwise_cons.1 hsorted).1 _ hmem
      rw [List.head?_cons, le_antisymm (hmax a h ha) hle]

theorem gatedHead_of_passes {g : GateResult} (hkey : s.Keyed) (hg : s.latestGate = some g)
    (hpass : s.passes g g.attempt = true) : s.gatedHead = some g.headSha := by
  obtain ⟨a, ha, hget⟩ := Option.bind_eq_some_iff.1 hg
  obtain rfl := hkey a g hget
  obtain ⟨rest, hrest⟩ := List.head?_eq_some_iff.1 ha
  have hfind : (s.gateAttempts.findSome? fun attempt => (s.gateResults.get? attempt).filter fun g =>
      s.passes g attempt) = some g := by
    rw [hrest, List.findSome?_cons, hget, Option.filter_some, if_pos hpass]
  rw [gatedHead, hfind]
  rfl

theorem keyed_applyGateRan (hkey : s.Keyed) (p : GateRan) : (s.applyGateRan p).Keyed := by
  intro a g hg
  change (s.gateResults.set p.attempt _).get? a = some g at hg
  rw [Dict.get?_set] at hg
  split at hg
  · cases hg
    exact (‹a = p.attempt›).symm
  · exact hkey a g hg

theorem latestGate_applyGateRan (hkey : s.Keyed) (p : GateRan) : (s.applyGateRan p).latestGate =
    if s.latestGate.any (fun g => decide (p.attempt < g.attempt)) then s.latestGate
    else some ⟨p.attempt, p.verdict, p.headSha⟩ := by
  have hget : ∀ b, (s.applyGateRan p).gateResults.get? b =
    if b = p.attempt then some ⟨p.attempt, p.verdict, p.headSha⟩ else s.gateResults.get? b :=
    fun b => Dict.get?_set ..
  split
  · rename_i hbelow
    obtain ⟨g, hg, hlt⟩ := (Option.any_eq_true _ _).1 hbelow
    rw [hg]
    obtain ⟨hgg, hmax⟩ := (latestGate_eq_some_iff hkey).1 hg
    have hlt : p.attempt < g.attempt := of_decide_eq_true hlt
    refine (latestGate_eq_some_iff (keyed_applyGateRan hkey p)).2 ⟨?_, fun b h hb => ?_⟩
    · rw [hget, if_neg (ne_of_gt hlt), hgg]
    · rw [hget] at hb
      split at hb
      · omega
      · exact hmax b h hb
  · rename_i hbelow
    refine (latestGate_eq_some_iff (keyed_applyGateRan hkey p)).2 ⟨by rw [hget, if_pos rfl], fun b h hb => ?_⟩
    rw [hget] at hb
    split at hb
    · exact le_of_eq ‹_›
    · -- The results before have a latest one, and it is no higher.
      obtain ⟨g, hg⟩ : ∃ g, s.latestGate = some g := by
        have hmem : b ∈ s.gateAttempts := mem_gateAttempts.2 ⟨h, hb⟩
        cases hatt : s.gateAttempts with
        | nil => rw [hatt] at hmem; cases hmem
        | cons a rest =>
          obtain ⟨g, hg⟩ := mem_gateAttempts.1 (hatt ▸ List.mem_cons_self : a ∈ s.gateAttempts)
          exact ⟨g, by rw [latestGate, hatt, List.head?_cons, Option.bind_some, hg]⟩
      have hle := ((latestGate_eq_some_iff hkey).1 hg).2 b h hb
      have hnot : ¬ p.attempt < g.attempt := by simpa [hg] using hbelow
      exact hle.trans (not_lt.1 hnot)

end RunState

/-! ## Runs -/

/-- A run with what is asked about its journal. -/
structure Audit where
  fold : Fold
  /-- The fixes that were decided for a red gate, and those for requested changes. -/
  gateFixes : ℕ
  reviewFixes : ℕ
  /-- The last verdict that was not a repeated one. -/
  latestVerdict : Option ReviewVerdictPayload

def Audit.start : Audit := ⟨.start, 0, 0, none⟩

namespace JournalEntry

/-- The entry decides for a fix, for the reason. -/
def admitsFix (policy : Policy) (s : RunState) (e : JournalEntry) (reason : String) : Bool :=
  match e.event with
  | .transitionDecided _ =>
    (transition policy s).toStep == some "fix" && (transition policy s).reason == some reason
  | _ => false

/-- The verdict of the entry, unless it is a repeated one. -/
def newVerdict (s : RunState) (e : JournalEntry) : Option ReviewVerdictPayload :=
  match e.event with
  | .reviewVerdict p => if s.hasFolded p then none else some p
  | _ => none

/-- A decision moves to the step that the table chooses; every other entry stands under the current step. -/
def follows (policy : Policy) (s : RunState) (e : JournalEntry) : Bool :=
  match e.event with
  | .transitionDecided p => (transition policy s).toStep == some p.toStep
  | _ => e.stepId == s.currentStep

/-- A gate in the step `review` or `land` that changes nothing about what is let through: one below the latest, one
that passes, and at the step `land` one of the same head that passes or is waived. -/
def keepsGate (s : RunState) (p : GateRan) : Bool :=
  (s.latestGate.any fun g => decide (p.attempt < g.attempt)) ||
    if s.currentStep = "review" then s.passes ⟨p.attempt, p.verdict, p.headSha⟩ p.attempt
    else if s.currentStep = "land" then (s.latestGate.any fun g => g.headSha == p.headSha) &&
      (p.verdict == .green || s.waivedGateAttempts.contains p.attempt)
    else true

/-- A verdict that names its tip when it approves, and at the step `land` one that approves the landing tip. -/
def keepsVerdict (s : RunState) (p : ReviewVerdictPayload) : Bool :=
  s.hasFolded p || ((p.verdict != .approve || p.tipSha != "") && (s.currentStep != "land" ||
    (p.verdict == .approve && s.latestGate.any fun g => g.headSha == p.tipSha)))

/-- What the events of a run keep to, beside the table. -/
def orderly (policy : Policy) (s : RunState) (e : JournalEntry) : Bool :=
  match e.event with
  | .transitionDecided p => (transition policy s).toStep != some "fix" ||
      (transition policy s).reason == some p.reason
  | .gateRan p => keepsGate s p
  | .reviewVerdict p => keepsVerdict s p
  | .blocked p => p.stepId == s.currentStep || (p.stepId != "review" && p.stepId != "land")
  | _ => true

end JournalEntry

/-- One more entry. -/
def Audit.next (policy : Policy) (a : Audit) (e : JournalEntry) : Option Audit :=
  (a.fold.step e).toOption.map fun y =>
    { fold := y
      gateFixes := a.gateFixes + if e.admitsFix policy a.fold.state "gate_red" then 1 else 0
      reviewFixes := a.reviewFixes + if e.admitsFix policy a.fold.state "review_request_changes" then 1 else 0
      latestVerdict := (e.newVerdict a.fold.state).or a.latestVerdict }

/-- The runs whose decisions are those of the table. -/
def landSystem (policy : Policy) : System Audit JournalEntry :=
  (System.ofFn (fun a => a = .start) (Audit.next policy)).restrict fun a e => e.follows policy a.fold.state = true

/-- The highest gate is green or waived, and the latest verdict approves its head. -/
def Audit.Cleared (a : Audit) : Prop := ∃ g v, a.fold.state.latestGate = some g ∧
  (g.verdict = .green ∨ g.attempt ∈ a.fold.state.waivedGateAttempts) ∧
  a.latestVerdict = some v ∧ v.verdict = .approve ∧ v.tipSha = g.headSha

/-- The highest gate passes. -/
def Audit.GateOpen (a : Audit) : Prop :=
  ∃ g, a.fold.state.latestGate = some g ∧ a.fold.state.passes g g.attempt = true

/-- The run lands gated work only. -/
structure Audit.Gated (policy : Policy) (a : Audit) : Prop where
  cleared : (transition policy a.fold.state).command = .land → a.Cleared
  gateFixes : (transition policy a.fold.state).command = .land → a.gateFixes ≤ 1
  reviewFixes : (transition policy a.fold.state).command = .land → a.reviewFixes ≤ 1

/-- What a run keeps to. -/
structure Audit.Sound (a : Audit) : Prop where
  keyed : a.fold.state.Keyed
  review : a.fold.state.currentStep = "review" → a.GateOpen
  land : a.fold.state.currentStep = "land" → a.Cleared
  verdict : ∀ w, a.fold.state.review.verdict = some w → ∃ v, a.latestVerdict = some v ∧ v.verdict = w ∧
    a.fold.state.review.tipSha = some v.tipSha
  named : ∀ v, a.latestVerdict = some v → v.verdict = .approve → v.tipSha ≠ ""
  gateFixes : a.gateFixes ≤ 1 ∧ a.gateFixes ≤ a.fold.state.gateFixUsed
  reviewFixes : a.reviewFixes ≤ 1 ∧ a.reviewFixes ≤ a.fold.state.reviewFixUsed

namespace Audit

variable {policy : Policy} {a : Audit}

theorem Sound.start : Audit.start.Sound where
  keyed _ _ h := by cases h
  review h := absurd h (by decide)
  land h := absurd h (by decide)
  verdict _ h := by cases h
  named _ h := by cases h
  gateFixes := ⟨Nat.zero_le 1, le_rfl⟩
  reviewFixes := ⟨Nat.zero_le 1, le_rfl⟩

theorem Sound.of_approved (h : a.Sound) (hstep : a.fold.state.currentStep = "review")
    (happ : a.fold.state.approved = true) : a.Cleared := by
  obtain ⟨g, hg, hpass⟩ := h.review hstep
  simp only [RunState.approved, Bool.and_eq_true, beq_iff_eq] at happ
  obtain ⟨⟨hverdict, -⟩, htip⟩ := happ
  obtain ⟨v, hv, happrove, hsha⟩ := h.verdict _ hverdict
  refine ⟨g, v, hg, ?_, hv, happrove, ?_⟩
  · simp only [RunState.passes, Bool.or_eq_true, Bool.and_eq_true, beq_iff_eq, List.contains_iff_mem] at hpass
    exact hpass.imp_right fun h => h.1
  · have hnamed : v.tipSha ≠ "" := h.named v hv happrove
    rw [RunState.gatedHead_of_passes h.keyed hg hpass, RunState.reviewTip, hsha, Option.filter_some,
      if_pos (bne_iff_ne.2 hnamed)] at htip
    exact Option.some.inj htip

/-- A sound run lands gated work only. -/
theorem Sound.gated (h : a.Sound) : a.Gated policy where
  cleared hland := by
    cases Decided.transition policy a.fold.state with
    | other hne | review hne | fix hne => exact (hne hland).elim
    | land _ hstep =>
      obtain hstep | ⟨hstep, happ⟩ := hstep
      · exact h.land hstep
      · exact h.of_approved hstep happ
  gateFixes _ := h.gateFixes.1
  reviewFixes _ := h.reviewFixes.1

end Audit

/-! ## One entry -/

/-- What an event leaves that is no gate, no verdict and no decision. -/
structure Kept (s t : RunState) : Prop where
  gateResults : t.gateResults = s.gateResults
  waived : s.waivedGateAttempts ⊆ t.waivedGateAttempts
  verdict : t.review.verdict = s.review.verdict ∨ t.review.verdict = none
  tipSha : t.review.tipSha = s.review.tipSha
  gateFixUsed : s.gateFixUsed ≤ t.gateFixUsed
  reviewFixUsed : s.reviewFixUsed ≤ t.reviewFixUsed

namespace Kept

variable {s t u : RunState}

theorem refl (s : RunState) : Kept s s := ⟨rfl, fun _ h => h, .inl rfl, rfl, le_rfl, le_rfl⟩

theorem trans (h : Kept s t) (h' : Kept t u) : Kept s u where
  gateResults := h'.gateResults.trans h.gateResults
  waived _ hx := h'.waived (h.waived hx)
  verdict := by
    obtain hv | hv := h'.verdict
    · rw [hv]
      exact h.verdict
    · exact .inr hv
  tipSha := h'.tipSha.trans h.tipSha
  gateFixUsed := h.gateFixUsed.trans h'.gateFixUsed
  reviewFixUsed := h.reviewFixUsed.trans h'.reviewFixUsed

theorem latestGate (h : Kept s t) : t.latestGate = s.latestGate := by
  rw [RunState.latestGate, RunState.latestGate, RunState.gateAttempts, RunState.gateAttempts, h.gateResults]

theorem passes (h : Kept s t) {g : GateResult} {attempt : ℤ} (hp : s.passes g attempt = true) :
    t.passes g attempt = true := by
  simp only [RunState.passes, Bool.or_eq_true, Bool.and_eq_true, beq_iff_eq, List.contains_iff_mem] at hp ⊢
  exact hp.imp_right fun hp => ⟨h.waived hp.1, hp.2⟩

theorem applyRulingFolded (s : RunState) (e : JournalEntry) (p : RulingFolded) :
    Kept s (s.applyRulingFolded e p) := by
  simp only [RunState.applyRulingFolded]
  split
  · exact ⟨rfl, fun _ h => h, .inl rfl, rfl, le_rfl, le_rfl⟩
  split
  · exact ⟨rfl, fun _ h => h, .inl rfl, rfl, le_rfl, le_rfl⟩
  split
  · exact ⟨rfl, fun _ h => h, .inl rfl, rfl, le_rfl, le_rfl⟩
  split
  · exact ⟨rfl, fun _ h => List.mem_cons_of_mem _ h, .inl rfl, rfl, le_rfl, le_rfl⟩
  · exact ⟨rfl, fun _ h => h, .inl rfl, rfl, le_rfl, le_rfl⟩

theorem applyTransitionDecided (s : RunState) (p : TransitionDecided) : Kept s (s.applyTransitionDecided p) := by
  refine ⟨rfl, fun _ h => h, .inl rfl, rfl, ?_, ?_⟩
  · change s.gateFixUsed ≤ if p.reason = "gate_red" then max s.gateFixUsed 1 else s.gateFixUsed
    split
    · exact le_max_left ..
    · exact le_rfl
  · change s.reviewFixUsed ≤ if p.reason = "review_request_changes" then max s.reviewFixUsed 1 else s.reviewFixUsed
    split
    · exact le_max_left ..
    · exact le_rfl

theorem apply (s : RunState) {e : JournalEntry} (hdec : ∀ p, e.event ≠ .transitionDecided p)
    (hgate : ∀ p, e.event ≠ .gateRan p) (hverdict : ∀ p, e.event = .reviewVerdict p → s.hasFolded p = true) :
    Kept s (s.apply e) := by
  unfold RunState.apply
  cases hevent : e.event with
  | transitionDecided p => exact (hdec p hevent).elim
  | gateRan p => exact (hgate p hevent).elim
  | reviewVerdict p =>
    simp only [RunState.applyReviewVerdict, hverdict p hevent, if_true]
    exact refl s
  | reviewFallbackAdmitted m r => exact ⟨rfl, fun _ h => h, .inr rfl, rfl, le_rfl, le_rfl⟩
  | rulingFolded p => exact applyRulingFolded s e p
  | runBirthed _ => exact ⟨rfl, fun _ h => h, .inl rfl, rfl, le_rfl, le_rfl⟩
  | policyStamped _ => exact ⟨rfl, fun _ h => h, .inl rfl, rfl, le_rfl, le_rfl⟩
  | legAdmitted _ => exact ⟨rfl, fun _ h => h, .inl rfl, rfl, le_rfl, le_rfl⟩
  | legAdmitFailed => exact ⟨rfl, fun _ h => h, .inl rfl, rfl, le_rfl, le_rfl⟩
  | legClosed _ => exact ⟨rfl, fun _ h => h, .inl rfl, rfl, le_rfl, le_rfl⟩
  | reviewAdmitted _ => exact ⟨rfl, fun _ h => h, .inl rfl, rfl, le_rfl, le_rfl⟩
  | landAttempted _ => exact ⟨rfl, fun _ h => h, .inl rfl, rfl, le_rfl, le_rfl⟩
  | restartPlanned _ => exact ⟨rfl, fun _ h => h, .inl rfl, rfl, le_rfl, le_rfl⟩
  | restartIssued _ => exact ⟨rfl, fun _ h => h, .inl rfl, rfl, le_rfl, le_rfl⟩
  | probeRan _ _ => exact ⟨rfl, fun _ h => h, .inl rfl, rfl, le_rfl, le_rfl⟩
  | closed _ => exact ⟨rfl, fun _ h => h, .inl rfl, rfl, le_rfl, le_rfl⟩
  | evidenceHarvested _ => exact ⟨rfl, fun _ h => h, .inl rfl, rfl, le_rfl, le_rfl⟩
  | rulingIgnored _ => exact ⟨rfl, fun _ h => h, .inl rfl, rfl, le_rfl, le_rfl⟩
  | blocked _ => exact ⟨rfl, fun _ h => h, .inl rfl, rfl, le_rfl, le_rfl⟩
  | resumed => exact ⟨rfl, fun _ h => h, .inl rfl, rfl, le_rfl, le_rfl⟩
  | flowForked => exact ⟨rfl, fun _ h => h, .inl rfl, rfl, le_rfl, le_rfl⟩
  | flowJoined _ => exact ⟨rfl, fun _ h => h, .inl rfl, rfl, le_rfl, le_rfl⟩
  | unknown _ => exact ⟨rfl, fun _ h => h, .inl rfl, rfl, le_rfl, le_rfl⟩
  | malformed _ => exact ⟨rfl, fun _ h => h, .inl rfl, rfl, le_rfl, le_rfl⟩

theorem noted (x : Fold) (e : JournalEntry) : Kept x.state (x.noted e) :=
  ⟨rfl, fun _ h => h, .inl rfl, rfl, le_rfl, le_rfl⟩

theorem entered (x : Fold) (e : JournalEntry) : Kept x.state (x.entered e) :=
  ⟨rfl, fun _ h => h, .inl rfl, rfl, le_rfl, le_rfl⟩

end Kept

namespace Audit

variable {policy : Policy} {a b : Audit}

theorem Sound.moved (h : a.Sound) (hk : Kept a.fold.state b.fold.state)
    (hreview : b.fold.state.currentStep = "review" → a.GateOpen) (hland : b.fold.state.currentStep = "land" → a.Cleared)
    (hlatest : b.latestVerdict = a.latestVerdict)
    (hgateFixes : b.gateFixes ≤ 1 ∧ b.gateFixes ≤ b.fold.state.gateFixUsed)
    (hreviewFixes : b.reviewFixes ≤ 1 ∧ b.reviewFixes ≤ b.fold.state.reviewFixUsed) : b.Sound where
  keyed := by
    unfold RunState.Keyed
    rw [hk.gateResults]
    exact h.keyed
  review hr := by
    obtain ⟨g, hg, hpass⟩ := hreview hr
    exact ⟨g, hk.latestGate.trans hg, hk.passes hpass⟩
  land hl := by
    obtain ⟨g, v, hg, hok, hv⟩ := hland hl
    exact ⟨g, v, hk.latestGate.trans hg, hok.imp_right fun hw => hk.waived hw, hlatest ▸ hv⟩
  verdict w hw := by
    obtain hv | hv := hk.verdict
    · rw [hk.tipSha, hlatest]
      exact h.verdict w (hv.symm.trans hw)
    · rw [hv] at hw
      cases hw
  named := hlatest ▸ h.named
  gateFixes := hgateFixes
  reviewFixes := hreviewFixes

theorem Sound.kept (h : a.Sound) (hk : Kept a.fold.state b.fold.state)
    (hstep : b.fold.state.currentStep = a.fold.state.currentStep ∨
      (b.fold.state.currentStep ≠ "review" ∧ b.fold.state.currentStep ≠ "land"))
    (hlatest : b.latestVerdict = a.latestVerdict)
    (hgateFixes : b.gateFixes ≤ 1 ∧ b.gateFixes ≤ b.fold.state.gateFixUsed)
    (hreviewFixes : b.reviewFixes ≤ 1 ∧ b.reviewFixes ≤ b.fold.state.reviewFixUsed) : b.Sound := by
  refine h.moved hk (fun hr => ?_) (fun hl => ?_) hlatest hgateFixes hreviewFixes
  · obtain hs | hs := hstep
    · exact h.review (hs.symm.trans hr)
    · exact (hs.1 hr).elim
  · obtain hs | hs := hstep
    · exact h.land (hs.symm.trans hl)
    · exact (hs.2 hl).elim

theorem currentStep_of_step {s : RunState} {step : String} (h : s.step = some step) :
    s.currentStep = if step = "" then "run" else step := by
  rw [RunState.currentStep, h, Option.filter_some]
  by_cases hempty : step = ""
  · simp [hempty]
  · simp [hempty]

theorem currentStep_ne_empty (s : RunState) : s.currentStep ≠ "" := by
  cases hstep : s.step with
  | none =>
    rw [RunState.currentStep, hstep]
    decide
  | some step =>
    rw [currentStep_of_step hstep]
    split
    · decide
    · assumption

variable {e : JournalEntry}

theorem currentStep_apply (s : RunState) (hdec : ∀ p, e.event ≠ .transitionDecided p)
    (hblocked : ∀ p, e.event ≠ .blocked p) : (s.apply e).currentStep = s.currentStep := by
  have hstep : (s.apply e).step = s.step := by
    unfold RunState.apply
    cases hevent : e.event with
    | transitionDecided p => exact (hdec p hevent).elim
    | blocked p => exact (hblocked p hevent).elim
    | reviewVerdict p =>
      simp only [RunState.applyReviewVerdict]
      split <;> rfl
    | rulingFolded p =>
      simp only [RunState.applyRulingFolded]
      split
      · rfl
      split
      · rfl
      split
      · rfl
      split <;> rfl
    | _ => rfl
  rw [RunState.currentStep, RunState.currentStep, hstep]

theorem next_eq_some (h : a.next policy e = some b) : a.fold.step e = .ok b.fold ∧
    b.gateFixes = a.gateFixes + (if e.admitsFix policy a.fold.state "gate_red" then 1 else 0) ∧
    b.reviewFixes = a.reviewFixes + (if e.admitsFix policy a.fold.state "review_request_changes" then 1 else 0) ∧
    b.latestVerdict = (e.newVerdict a.fold.state).or a.latestVerdict := by
  obtain ⟨y, hy, rfl⟩ := Option.map_eq_some_iff.1 h
  refine ⟨?_, rfl, rfl, rfl⟩
  cases hstep : a.fold.step e with
  | error err => rw [hstep] at hy; cases hy
  | ok z =>
    rw [hstep] at hy
    exact congrArg Except.ok (Option.some.inj hy)

theorem currentStep_entered (h : e.stepId = a.fold.state.currentStep) :
    (a.fold.entered e).currentStep = a.fold.state.currentStep := by
  have hne : e.stepId ≠ "" := h ▸ currentStep_ne_empty _
  refine (currentStep_of_step rfl).trans ?_
  rw [if_neg hne, h]

/-! ### Gates and verdicts -/

theorem Sound.gateRan {p : GateRan} (h : a.Sound) (hstep : e.stepId = a.fold.state.currentStep)
    (hkeeps : JournalEntry.keepsGate a.fold.state p = true)
    (hstate : b.fold.state = (a.fold.entered e).applyGateRan p) (hlatest : b.latestVerdict = a.latestVerdict)
    (hgateFixes : b.gateFixes = a.gateFixes) (hreviewFixes : b.reviewFixes = a.reviewFixes) : b.Sound := by
  have hkey : (a.fold.entered e).Keyed := h.keyed
  have hcur : b.fold.state.currentStep = a.fold.state.currentStep := by
    rw [hstate]
    exact currentStep_entered hstep
  have hgate : b.fold.state.latestGate = if a.fold.state.latestGate.any (fun g => decide (p.attempt < g.attempt))
      then a.fold.state.latestGate else some ⟨p.attempt, p.verdict, p.headSha⟩ := by
    rw [hstate]
    exact RunState.latestGate_applyGateRan hkey p
  have hwaived : b.fold.state.waivedGateAttempts = a.fold.state.waivedGateAttempts := by rw [hstate]; rfl
  have hpasses : ∀ g n, b.fold.state.passes g n = a.fold.state.passes g n := fun g n => by
    rw [RunState.passes, RunState.passes, hwaived]
  refine ⟨?_, fun hr => ?_, fun hl => ?_, ?_, hlatest ▸ h.named, ?_, ?_⟩
  · rw [hstate]
    exact RunState.keyed_applyGateRan hkey p
  · rw [hcur] at hr
    rw [JournalEntry.keepsGate, hr, if_pos rfl, Bool.or_eq_true] at hkeeps
    by_cases hbelow : a.fold.state.latestGate.any (fun g => decide (p.attempt < g.attempt)) = true
    · rw [if_pos hbelow] at hgate
      obtain ⟨g, hg, hpass⟩ := h.review hr
      exact ⟨g, hgate.trans hg, (hpasses g _).trans hpass⟩
    · rw [if_neg hbelow] at hgate
      exact ⟨_, hgate, (hpasses _ _).trans (hkeeps.resolve_left hbelow)⟩
  · rw [hcur] at hl
    obtain ⟨g, v, hg, hok, hv, happrove, hsha⟩ := h.land hl
    rw [JournalEntry.keepsGate, hl, if_neg (by decide), if_pos rfl, Bool.or_eq_true] at hkeeps
    by_cases hbelow : a.fold.state.latestGate.any (fun g => decide (p.attempt < g.attempt)) = true
    · rw [if_pos hbelow] at hgate
      exact ⟨g, v, hgate.trans hg, hwaived ▸ hok, hlatest.trans hv, happrove, hsha⟩
    · rw [if_neg hbelow] at hgate
      have hsame := hkeeps.resolve_left hbelow
      rw [hg, Option.any_some, Bool.and_eq_true, beq_iff_eq, Bool.or_eq_true, beq_iff_eq,
        List.contains_iff_mem] at hsame
      exact ⟨_, v, hgate, hwaived ▸ hsame.2, hlatest.trans hv, happrove, hsha.trans hsame.1⟩
  · intro w hw
    rw [hstate] at hw ⊢
    rw [hlatest]
    exact h.verdict w hw
  · rw [hstate, hgateFixes]
    exact h.gateFixes
  · rw [hstate, hreviewFixes]
    exact h.reviewFixes

theorem Sound.reviewVerdict {p : ReviewVerdictPayload} (h : a.Sound)
    (hstep : e.stepId = a.fold.state.currentStep) (hnew : a.fold.state.hasFolded p = false)
    (hkeeps : JournalEntry.keepsVerdict a.fold.state p = true)
    (hstate : b.fold.state = (a.fold.entered e).applyReviewVerdict p) (hlatest : b.latestVerdict = some p)
    (hgateFixes : b.gateFixes = a.gateFixes) (hreviewFixes : b.reviewFixes = a.reviewFixes) : b.Sound := by
  have hnew' : (a.fold.entered e).hasFolded p = false := hnew
  rw [RunState.applyReviewVerdict, hnew', if_neg Bool.false_ne_true] at hstate
  have hcur : b.fold.state.currentStep = a.fold.state.currentStep := by
    rw [hstate]
    exact currentStep_entered hstep
  simp only [JournalEntry.keepsVerdict, hnew, Bool.false_or, Bool.and_eq_true, Bool.or_eq_true, bne_iff_ne,
    beq_iff_eq] at hkeeps
  obtain ⟨hnamed, hlanding⟩ := hkeeps
  refine ⟨?_, fun hr => ?_, fun hl => ?_, ?_, ?_, ?_, ?_⟩
  · rw [hstate]
    exact h.keyed
  · rw [hcur] at hr
    obtain ⟨g, hg, hpass⟩ := h.review hr
    exact ⟨g, by rw [hstate]; exact hg, by rw [hstate]; exact hpass⟩
  · rw [hcur] at hl
    obtain ⟨g, v, hg, hok, -⟩ := h.land hl
    obtain ⟨happrove, htip⟩ := hlanding.resolve_left (fun hne => hne hl)
    rw [hg, Option.any_some, beq_iff_eq] at htip
    exact ⟨g, p, by rw [hstate]; exact hg, by rw [hstate]; exact hok, hlatest, happrove, htip.symm⟩
  · intro w hw
    rw [hstate] at hw ⊢
    exact ⟨p, hlatest, Option.some.inj hw, rfl⟩
  · intro v hv happrove
    rw [hlatest] at hv
    obtain rfl := Option.some.inj hv
    exact hnamed.resolve_left (fun hne => hne happrove)
  · rw [hstate, hgateFixes]
    exact h.gateFixes
  · rw [hstate, hreviewFixes]
    exact h.reviewFixes

/-! ### Decisions -/

/-- A decision moves to the step that the table chose, and books the fix that it asks for. -/
theorem Sound.decided {p : TransitionDecided} (h : a.Sound)
    (hevent : e.event = .transitionDecided p) (hto : (transition policy a.fold.state).toStep = some p.toStep)
    (hreason : (transition policy a.fold.state).toStep ≠ some "fix" ∨
      (transition policy a.fold.state).reason = some p.reason)
    (hstate : b.fold.state = (a.fold.entered e).applyTransitionDecided p)
    (hlatest : b.latestVerdict = a.latestVerdict)
    (hgateFixes : b.gateFixes = a.gateFixes + (if e.admitsFix policy a.fold.state "gate_red" then 1 else 0))
    (hreviewFixes : b.reviewFixes = a.reviewFixes +
      (if e.admitsFix policy a.fold.state "review_request_changes" then 1 else 0)) : b.Sound := by
  have hk : Kept a.fold.state b.fold.state := by
    rw [hstate]
    exact (Kept.entered a.fold e).trans (.applyTransitionDecided _ p)
  have hcur : b.fold.state.currentStep = if p.toStep = "" then "run" else p.toStep := by
    refine currentStep_of_step ?_
    rw [hstate]
    rfl
  have hnofix : p.toStep ≠ "fix" → b.gateFixes = a.gateFixes ∧ b.reviewFixes = a.reviewFixes := by
    intro hne
    simp [hgateFixes, hreviewFixes, JournalEntry.admitsFix, hevent, hto, hne]
  have hfixes : p.toStep ≠ "fix" → (b.gateFixes ≤ 1 ∧ b.gateFixes ≤ b.fold.state.gateFixUsed) ∧
      b.reviewFixes ≤ 1 ∧ b.reviewFixes ≤ b.fold.state.reviewFixUsed := by
    intro hne
    obtain ⟨hg, hr⟩ := hnofix hne
    rw [hg, hr]
    exact ⟨⟨h.gateFixes.1, h.gateFixes.2.trans hk.gateFixUsed⟩,
      h.reviewFixes.1, h.reviewFixes.2.trans hk.reviewFixUsed⟩
  cases Decided.transition policy a.fold.state with
  | other _ hreview hland hfix =>
    rw [hto, Ne, Option.some.injEq] at hreview hland hfix
    refine h.kept hk (.inr ?_) hlatest (hfixes hfix).1 (hfixes hfix).2
    rw [hcur]
    split
    · decide
    · exact ⟨hreview, hland⟩
  | review _ hstep hopen =>
    obtain hp := Option.some.inj (hto.symm.trans hstep)
    rw [hp] at hcur hfixes
    refine h.moved hk (fun _ => ?_) (fun hl => ?_) hlatest (hfixes (by decide)).1 (hfixes (by decide)).2
    · obtain hr | ⟨g, hg, hinfra, hok⟩ := hopen
      · exact h.review hr
      · refine ⟨g, hg, ?_⟩
        simp only [RunState.passes, Bool.or_eq_true, Bool.and_eq_true, beq_iff_eq, List.contains_iff_mem]
        -- A waived gate is red, or else it has not run.
        cases hverdict : g.verdict with
        | green => exact .inl rfl
        | infraError => exact (hinfra hverdict).elim
        | red =>
          rw [hverdict] at hok
          exact .inr ⟨hok.resolve_left (by decide), rfl⟩
    · rw [hcur] at hl
      exact absurd hl (by decide)
  | land hstep hcleared =>
    obtain hp := Option.some.inj (hto.symm.trans hstep)
    rw [hp] at hcur hfixes
    refine h.moved hk (fun hr => ?_) (fun _ => ?_) hlatest (hfixes (by decide)).1 (hfixes (by decide)).2
    · rw [hcur] at hr
      exact absurd hr (by decide)
    · obtain hl | ⟨hr, happ⟩ := hcleared
      · exact h.land hl
      · exact h.of_approved hr happ
  | fix _ hstep hused =>
    obtain hp := Option.some.inj (hto.symm.trans hstep)
    have hbooked := hreason.resolve_left (fun hne => hne hstep)
    rw [hp] at hcur
    have hmoved : b.fold.state.currentStep ≠ "review" ∧ b.fold.state.currentStep ≠ "land" := by
      rw [hcur]
      decide
    obtain ⟨hg, hgUsed⟩ := h.gateFixes
    obtain ⟨hr, hrUsed⟩ := h.reviewFixes
    obtain ⟨hwhy, hzero⟩ | ⟨hwhy, hzero⟩ := hused
    · have hpr := Option.some.inj (hbooked.symm.trans hwhy)
      have hused : b.fold.state.gateFixUsed = 1 := by
        rw [hstate, RunState.applyTransitionDecided, hpr]
        change max a.fold.state.gateFixUsed 1 = 1
        rw [hzero]
        rfl
      have hgf : b.gateFixes = a.gateFixes + 1 := by simp [hgateFixes, JournalEntry.admitsFix, hevent, hstep, hwhy]
      have hrf : b.reviewFixes = a.reviewFixes := by
        simp [hreviewFixes, JournalEntry.admitsFix, hevent, hwhy]
      exact h.kept hk (.inr hmoved) hlatest (by omega) ⟨hrf ▸ hr, hrf ▸ hrUsed.trans hk.reviewFixUsed⟩
    · have hpr := Option.some.inj (hbooked.symm.trans hwhy)
      have hused : b.fold.state.reviewFixUsed = 1 := by
        rw [hstate, RunState.applyTransitionDecided, hpr]
        change max a.fold.state.reviewFixUsed 1 = 1
        rw [hzero]
        rfl
      have hgf : b.gateFixes = a.gateFixes := by simp [hgateFixes, JournalEntry.admitsFix, hevent, hwhy]
      have hrf : b.reviewFixes = a.reviewFixes + 1 := by
        simp [hreviewFixes, JournalEntry.admitsFix, hevent, hstep, hwhy]
      exact h.kept hk (.inr hmoved) hlatest ⟨hgf ▸ hg, hgf ▸ hgUsed.trans hk.gateFixUsed⟩ (by omega)

/-! ### Every entry -/

/-- An orderly entry that follows the policy keeps the run sound. -/
theorem Sound.next (h : a.Sound) (hnext : a.next policy e = some b)
    (hfollows : e.follows policy a.fold.state = true) (horderly : e.orderly policy a.fold.state = true) : b.Sound := by
  obtain ⟨hstep, hgf, hrf, hv⟩ := next_eq_some hnext
  obtain ⟨-, -, htake⟩ := Fold.step_eq_ok.1 hstep
  -- Beside decisions and new verdicts, what is counted stays.
  have hkept (hdec : ∀ p, e.event ≠ .transitionDecided p) (hnew : e.newVerdict a.fold.state = none) :
      b.gateFixes = a.gateFixes ∧ b.reviewFixes = a.reviewFixes ∧ b.latestVerdict = a.latestVerdict := by
    have hadmits : ∀ reason, e.admitsFix policy a.fold.state reason = false := fun reason => by
      unfold JournalEntry.admitsFix
      split
      · exact (hdec _ ‹_›).elim
      · rfl
    simp [hgf, hrf, hv, hadmits, hnew]
  cases hre : a.fold.redelivered e.event with
  | true =>
    obtain ⟨id, hid, -⟩ := (Option.any_eq_true _ _).1 hre
    obtain ⟨p, hevent⟩ : ∃ p, e.event = .legClosed p := by
      cases hevent : e.event with
      | legClosed p => exact ⟨p, rfl⟩
      | _ => rw [hevent] at hid; cases hid
    have hstate : b.fold.state = a.fold.noted e := by rw [htake, Fold.take_of_redelivered hre]
    obtain ⟨hgf, hrf, hv⟩ := hkept (by simp [hevent]) (by simp [JournalEntry.newVerdict, hevent])
    have hk : Kept a.fold.state b.fold.state := hstate ▸ Kept.noted a.fold e
    refine h.kept hk (.inl ?_) hv ?_ ?_
    · rw [hstate]
      rfl
    · exact ⟨hgf ▸ h.gateFixes.1, hgf ▸ h.gateFixes.2.trans hk.gateFixUsed⟩
    · exact ⟨hrf ▸ h.reviewFixes.1, hrf ▸ h.reviewFixes.2.trans hk.reviewFixUsed⟩
  | false =>
    have hstate : b.fold.state = (a.fold.entered e).apply e := by rw [htake, Fold.take_of_new hre]
    -- What is neither a decision, nor a gate, nor a new verdict.
    have hother (hdec : ∀ p, e.event ≠ .transitionDecided p) (hgate : ∀ p, e.event ≠ .gateRan p)
        (hfolded : ∀ p, e.event = .reviewVerdict p → a.fold.state.hasFolded p = true)
        (hmove : b.fold.state.currentStep = a.fold.state.currentStep ∨
          (b.fold.state.currentStep ≠ "review" ∧ b.fold.state.currentStep ≠ "land")) : b.Sound := by
      have hnew : e.newVerdict a.fold.state = none := by
        unfold JournalEntry.newVerdict
        split
        · rw [if_pos (hfolded _ ‹_›)]
        · rfl
      obtain ⟨hgf, hrf, hv⟩ := hkept hdec hnew
      have hk : Kept a.fold.state b.fold.state := by
        rw [hstate]
        exact (Kept.entered a.fold e).trans (Kept.apply _ hdec hgate hfolded)
      refine h.kept hk hmove hv ?_ ?_
      · exact ⟨hgf ▸ h.gateFixes.1, hgf ▸ h.gateFixes.2.trans hk.gateFixUsed⟩
      · exact ⟨hrf ▸ h.reviewFixes.1, hrf ▸ h.reviewFixes.2.trans hk.reviewFixUsed⟩
    cases hevent : e.event with
    | transitionDecided p =>
      simp only [JournalEntry.follows, hevent, beq_iff_eq] at hfollows
      simp only [JournalEntry.orderly, hevent, Bool.or_eq_true, bne_iff_ne, beq_iff_eq] at horderly
      refine h.decided hevent hfollows horderly ?_ ?_ hgf hrf
      · rw [hstate, RunState.apply, hevent]
      · simp [hv, JournalEntry.newVerdict, hevent]
    | gateRan p =>
      simp only [JournalEntry.follows, hevent, beq_iff_eq] at hfollows
      simp only [JournalEntry.orderly, hevent] at horderly
      obtain ⟨hgf, hrf, hv⟩ := hkept (by simp [hevent]) (by simp [JournalEntry.newVerdict, hevent])
      refine h.gateRan hfollows horderly ?_ hv hgf hrf
      rw [hstate, RunState.apply, hevent]
    | reviewVerdict p =>
      simp only [JournalEntry.follows, hevent, beq_iff_eq] at hfollows
      simp only [JournalEntry.orderly, hevent] at horderly
      cases hnew : a.fold.state.hasFolded p with
      | true =>
        refine hother (by simp [hevent]) (by simp [hevent]) (fun q hq => ?_) (.inl ?_)
        · rw [hevent] at hq
          cases hq
          exact hnew
        · rw [hstate, currentStep_apply _ (by simp [hevent]) (by simp [hevent]), currentStep_entered hfollows]
      | false =>
        have hgf : b.gateFixes = a.gateFixes := by simp [hgf, JournalEntry.admitsFix, hevent]
        have hrf : b.reviewFixes = a.reviewFixes := by simp [hrf, JournalEntry.admitsFix, hevent]
        refine h.reviewVerdict hfollows hnew horderly ?_ ?_ hgf hrf
        · rw [hstate, RunState.apply, hevent]
        · simp [hv, JournalEntry.newVerdict, hevent, hnew]
    | blocked p =>
      simp only [JournalEntry.orderly, hevent, Bool.or_eq_true, beq_iff_eq, Bool.and_eq_true, bne_iff_ne] at horderly
      refine hother (by simp [hevent]) (by simp [hevent]) (by simp [hevent]) ?_
      have hcur : b.fold.state.currentStep = if p.stepId = "" then "run" else p.stepId := by
        refine currentStep_of_step ?_
        rw [hstate, RunState.apply, hevent]
      rw [hcur]
      obtain hsame | hmoved := horderly
      · left
        rw [if_neg (hsame ▸ currentStep_ne_empty _), hsame]
      · right
        split
        · decide
        · exact hmoved
    | _ =>
      simp only [JournalEntry.follows, hevent, beq_iff_eq] at hfollows
      refine hother (by simp [hevent]) (by simp [hevent]) (by simp [hevent]) (.inl ?_)
      rw [hstate, currentStep_apply _ (by simp [hevent]) (by simp [hevent]), currentStep_entered hfollows]

end Audit

/-- **Gated lands.** A run whose entries are orderly lands only when its highest gate is green or waived and its
latest verdict approves the head of that gate, and behind one fix at most of each kind. -/
theorem gated_land {policy : Policy} {a : Audit}
    (h : ((landSystem policy).restrict fun a e => e.orderly policy a.fold.state = true).Reachable a) :
    a.Gated policy := by
  refine Audit.Sound.gated (System.Reachable.invariant ?_ ?_ h)
  · rintro _ rfl
    exact Audit.Sound.start
  · rintro a e b hsound ⟨horderly, hfollows, hnext⟩
    exact hsound.next hnext hfollows horderly

/-! ## Two runs -/

/-- A leg that is gated and reviewed. -/
def reviewedJournal : List JournalEntry :=
  [⟨"ml-1", 1, 0, "run", 1, "main", .runBirthed "implement"⟩,
    ⟨"ml-1", 2, 1, "run", 1, "main", .transitionDecided ⟨"run", "implement", 1, "birth"⟩⟩,
    ⟨"ml-1", 3, 2, "implement", 1, "main", .legAdmitted ⟨"implement", 1, "d1", "x1", "m1"⟩⟩,
    ⟨"ml-1", 4, 3, "implement", 1, "main", .legClosed ⟨"d1", "complete", "landed", "a1", [], []⟩⟩,
    ⟨"ml-1", 5, 4, "implement", 1, "main", .transitionDecided ⟨"implement", "gate", 1, "implement closed"⟩⟩,
    ⟨"ml-1", 6, 5, "gate", 1, "main", .gateRan ⟨1, "a1", .green⟩⟩,
    ⟨"ml-1", 7, 6, "gate", 1, "main", .transitionDecided ⟨"gate", "review", 1, "gate green"⟩⟩,
    ⟨"ml-1", 8, 7, "review", 1, "main", .reviewVerdict ⟨"a1", .approve, some "r1", none, []⟩⟩]

/-- The same head fails a second gate while it is reviewed. -/
def lateGate : JournalEntry := ⟨"ml-1", 9, 8, "review", 1, "main", .gateRan ⟨2, "a1", .red⟩⟩

/-- The reviewed leg is to land, and it is gated. -/
theorem gated_land_reviewed : ∃ a, (landSystem ⟨[]⟩).Reachable a ∧
    (transition ⟨[]⟩ a.fold.state).command = .land ∧ a.Gated ⟨[]⟩ := by
  have hrun : (System.exec (System.guarded (Audit.next ⟨[]⟩) fun a e =>
      e.follows ⟨[]⟩ a.fold.state = true ∧ e.orderly ⟨[]⟩ a.fold.state = true) .start reviewedJournal).map
      (fun a => (transition ⟨[]⟩ a.fold.state).command) = some .land := by decide
  obtain ⟨a, ha, hcommand⟩ := Option.map_eq_some_iff.1 hrun
  have hboth : ((System.ofFn (fun a => a = Audit.start) (Audit.next ⟨[]⟩)).restrict fun a e =>
      e.follows ⟨[]⟩ a.fold.state = true ∧ e.orderly ⟨[]⟩ a.fold.state = true).Reachable a :=
    System.reachable_of_exec_guarded rfl ha
  have hreach : ((landSystem ⟨[]⟩).restrict fun a e => e.orderly ⟨[]⟩ a.fold.state = true).Reachable a :=
    hboth.restrict_restrict
  exact ⟨a, hreach.of_restrict, hcommand, gated_land hreach⟩

/-- The run with the late gate is to land all the same, over the red gate. -/
theorem lateGate_lands : ∃ a, (landSystem ⟨[]⟩).Reachable a ∧
    (transition ⟨[]⟩ a.fold.state).command = .land ∧ ¬ a.Cleared := by
  have hrun : (System.exec (System.guarded (Audit.next ⟨[]⟩) fun a e => e.follows ⟨[]⟩ a.fold.state = true)
      .start (reviewedJournal ++ [lateGate])).map (fun a => ((transition ⟨[]⟩ a.fold.state).command,
        a.fold.state.latestGate.map GateResult.verdict, a.fold.state.waivedGateAttempts)) =
      some (.land, some .red, []) := by decide
  obtain ⟨a, ha, hobs⟩ := Option.map_eq_some_iff.1 hrun
  obtain ⟨hcommand, hobs⟩ := Prod.mk.inj hobs
  obtain ⟨hred, hwaived⟩ := Prod.mk.inj hobs
  refine ⟨a, System.reachable_of_exec_guarded rfl ha, hcommand, ?_⟩
  rintro ⟨g, v, hg, hok, -⟩
  rw [hg, Option.map_some, Option.some.injEq] at hred
  rw [hred, hwaived] at hok
  obtain hok | hok := hok <;> cases hok

end LlmGateway.MechanicalLand
