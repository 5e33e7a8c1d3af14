import LlmGateway.Foundations.Json
import LlmGateway.Pipeline.DagSafety

/-!
# Which model a step is gated on, and which one it uses

The scheduler and the release of a step look up its target model without the option `model_ref_overrides`
(`gateModel`), its task looks it up with them (`executionModel`). The gate keeps two steps with one gate model
apart (`Scheduled.gate_exclusive`). Two steps that use one model are kept apart where they are gated on one model
as well, and the two lookups agree for every step exactly where the overrides repeat what is looked up without
them (`model_exclusivity`).
-/

namespace LlmGateway.Pipeline

/-! ## Looking up a target model -/

/-- What the lookup reads beside the step: the domain of the pipeline, and the options `model` and
`model_ref_overrides`, which has no items when it is not a dictionary. -/
structure Coordination where
  domain : Option String
  model : Option String
  modelRefOverrides : Dict String String

/-- What the coordinator reads of a step. -/
structure CoordinatedStep where
  dependencies : List String
  subPipelineStep : Bool
  type : String
  modelRef : Option String
  /-- What the requirements of the step or the registry select. -/
  selected : Option String

/-- A text without the white space around it, when something is left. -/
def stripped (text : String) : Option String := if Json.strip text = "" then none else some (Json.strip text)

def getPipelineModelOverride (c : Coordination) (step : CoordinatedStep) : Option String :=
  if c.domain = some "answer_v1" ∧ step.type = "generate" then c.model.bind stripped else none

/-- The override of a step with a `model_ref`, by the name of the step or else by its `model_ref`. -/
def modelRefOverride (overrides : Dict String String) (name : String) (step : CoordinatedStep) : Option String :=
  (step.modelRef.filter (· ≠ "")).bind fun ref =>
    (((overrides.get? name).filter (· ≠ "")).or (overrides.get? ref)).bind stripped

def resolveTargetModelAsync (c : Coordination) (overrides : Option (Dict String String)) (name : String)
    (step : CoordinatedStep) : Option String :=
  (getPipelineModelOverride c step).or ((overrides.bind fun o => modelRefOverride o name step).or step.selected)

/-- `resolve_target_model`, for the gate and the release. -/
def gateModel (c : Coordination) (name : String) (step : CoordinatedStep) : Option String :=
  resolveTargetModelAsync c none name step

/-- `resolve_target_model_for_execution`. -/
def executionModel (c : Coordination) (name : String) (step : CoordinatedStep) : Option String :=
  resolveTargetModelAsync c (some c.modelRefOverrides) name step

/-- The nodes of a pipeline, with what the coordinator looks up for the gate. -/
structure CoordinatedDag where
  options : Coordination
  steps : Dict String CoordinatedStep
  dag : Dag
  gated : ∀ name, dag.steps.get? name = (steps.get? name).map fun step =>
    ⟨step.dependencies, step.subPipelineStep, gateModel options name step⟩

/-- The model that a step uses, unless it belongs to a sub-pipeline. -/
def CoordinatedDag.usedModel (P : CoordinatedDag) (id : String) : Option String :=
  ((P.steps.get? id).filter fun step => !step.subPipelineStep).bind (executionModel P.options id)

/-! ## ModelExclusive use -/

/-- No two steps that run have the same model. -/
def ModelExclusive (model : String → Option String) (x : DagExecutor) : Prop :=
  ∀ id id' m, x.state id = .running → x.state id' = .running → model id = some m → model id' = some m → id = id'

/-- Every step that takes no part in a sub-pipeline is gated on the model that it uses. -/
def OneIdentity (P : CoordinatedDag) : Prop := ∀ id, P.usedModel id = P.dag.lockModel id

/-- The overrides repeat what is looked up without them. -/
def OverridesRepeat (P : CoordinatedDag) : Prop :=
  ∀ id step, P.steps.get? id = some step → step.subPipelineStep = false →
    getPipelineModelOverride P.options step = none → ∀ m,
      modelRefOverride P.options.modelRefOverrides id step = some m → step.selected = some m

/-- Two steps that use the same model and do not wait for each other are gated on the same model. -/
def GatedAlike (P : CoordinatedDag) : Prop :=
  ∀ id id' m, P.usedModel id = some m → P.usedModel id' = some m → ¬ P.dag.Ancestor id id' →
    ¬ P.dag.Ancestor id' id → id ≠ id' → ∃ g, P.dag.lockModel id = some g ∧ P.dag.lockModel id' = some g

/-! ## The gate -/

variable {D : Dag}

theorem ModelExclusive.of_running {model : String → Option String} {x x' : DagExecutor} (h : ModelExclusive model x)
    (hrunning : ∀ id, x'.state id = .running → x.state id = .running) : ModelExclusive model x' :=
  fun id id' m hid hid' => h id id' m (hrunning id hid) (hrunning id' hid')

theorem ModelExclusive.enter {x x' : DagExecutor} (h : ModelExclusive D.lockModel x) (hlive : Live D x) {id : String}
    (hfree : x.canLaunchWithLock (D.lockModel id) = true) (hstate : x'.state = (x.enter id).state) :
    ModelExclusive D.lockModel x' := by
  have hother : ∀ {id'}, id' ≠ id → x'.state id' = .running → x.state id' = .running := by
    intro id' hne hrun
    rw [hstate, enter_ne x hne] at hrun
    exact hrun
  have hnone : ∀ {id' m}, D.lockModel id = some m → D.lockModel id' = some m → x'.state id' = .running →
      id' = id := by
    intro id' m hid hid' hrun
    by_contra hne
    have hheld := hlive.locked id' m (hother hne hrun) hid'
    rw [hid] at hfree
    simp [DagExecutor.canLaunchWithLock, Dict.contains, hheld] at hfree
  intro a b m ha hb hma hmb
  by_cases haid : a = id
  · subst haid
    exact (hnone hma hmb hb).symm
  · by_cases hbid : b = id
    · subst hbid
      exact hnone hmb hma ha
    · exact h a b m (hother haid ha) (hother hbid hb) hma hmb

theorem launchStep_exclusive {x : DagExecutor} {rest inUse : List String} {id : String} {launched skipped : Bool}
    (h : Scheduled D ⟨x, .launching (id :: rest) inUse launched skipped⟩) (hx : ModelExclusive D.lockModel x)
    (drifts : Bool) :
    ModelExclusive D.lockModel (launchStep D x id rest inUse launched skipped drifts).executor := by
  obtain ⟨-, -, hlive, -, -⟩ := h
  unfold launchStep
  split
  · rw [passed_executor]
    exact hx
  split
  · rw [launching_executor]
    exact hx
  rename_i hfree
  rw [Bool.or_eq_true, not_or, Bool.not_eq_true, Bool.not_eq_false'] at hfree
  split
  · exact hx.enter hlive hfree.1 rfl
  · rw [launching_executor]
    exact hx.enter hlive hfree.1 rfl

/-- A step keeps the models of the running steps apart. -/
theorem Scheduled.exclusive_step {s s' : Execution} {e : Event} (h : Scheduled D s)
    (hx : ModelExclusive D.lockModel s.executor) (hstep : s.step D e = some s') :
    ModelExclusive D.lockModel s'.executor := by
  cases Execution.transition hstep with
  | launch x id rest inUse launched skipped drifts => exact launchStep_exclusive h hx drifts
  | finish outcome _ ht hopen =>
    have hid := h.tasked.running ht hopen
    exact hx.of_running fun _ hrun => (finish_cases h.sound hid ht outcome).2.running hid hrun
  | _ => exact hx.of_running fun _ hrun => (h.still hstep rfl (fun _ he => by cases he)).running hrun

/-- **The gate**: no two steps that run are gated on the same model. -/
theorem gate_exclusive {s : Execution} (hs : D.system.Reachable s) : ModelExclusive D.lockModel s.executor := by
  have h : Scheduled D s ∧ ModelExclusive D.lockModel s.executor := by
    refine hs.invariant (I := fun s => Scheduled D s ∧ ModelExclusive D.lockModel s.executor) ?_ fun _ _ _ h hstep =>
      ⟨h.1.step hstep, h.1.exclusive_step h.2 hstep⟩
    rintro _ rfl
    refine ⟨.start D, fun id id' m hid => absurd hid ?_⟩
    have hnot := mt ((Sound.start D).started id).2 List.not_mem_nil
    rw [not_or] at hnot
    exact hnot.1
  exact h.2

theorem not_ancestor_of_running {s : Execution} (hs : D.system.Reachable s) {id a : String}
    (hid : s.executor.state id = .running) (ha : s.executor.state a = .running) : ¬ D.Ancestor id a := by
  intro hanc
  have hsound := (Scheduled.reachable hs).sound
  have hdone := hsound.ancestors id ((hsound.started id).2 (.inl hid)) a hanc
  rw [ha] at hdone
  cases hdone

/-! ## What the steps use -/

theorem lockModel_eq (P : CoordinatedDag) (id : String) : P.dag.lockModel id =
    ((P.steps.get? id).filter fun step => !step.subPipelineStep).bind (gateModel P.options id) := by
  unfold Dag.lockModel Dag.targetModel
  rw [P.gated id]
  rcases P.steps.get? id with _ | step
  · rfl
  · rcases hsub : step.subPipelineStep <;> simp [hsub, Option.filter]

theorem executionModel_eq_iff (c : Coordination) (name : String) (step : CoordinatedStep) :
    executionModel c name step = gateModel c name step ↔
      (getPipelineModelOverride c step = none → ∀ m,
        modelRefOverride c.modelRefOverrides name step = some m → step.selected = some m) := by
  unfold executionModel gateModel resolveTargetModelAsync
  rcases getPipelineModelOverride c step with _ | override
  · rcases hoverride : modelRefOverride c.modelRefOverrides name step with _ | m <;> simp [hoverride, eq_comm]
  · simp

theorem oneIdentity_iff (P : CoordinatedDag) : OneIdentity P ↔ OverridesRepeat P := by
  refine ⟨fun h id step hstep hsub => ?_, fun h id => ?_⟩
  · have hid := h id
    rw [lockModel_eq, CoordinatedDag.usedModel, hstep] at hid
    simp only [Option.filter, hsub, Bool.not_false, if_true, Option.bind_some] at hid
    exact (executionModel_eq_iff ..).1 hid
  · rw [lockModel_eq, CoordinatedDag.usedModel]
    rcases hstep : P.steps.get? id with _ | step
    · rfl
    · rcases hsub : step.subPipelineStep
      · simp only [Option.filter, hsub, Bool.not_false, if_true, Option.bind_some]
        exact (executionModel_eq_iff ..).2 (h id step hstep hsub)
      · simp [hsub, Option.filter]

theorem OneIdentity.gatedAlike {P : CoordinatedDag} (h : OneIdentity P) : GatedAlike P :=
  fun id id' m hid hid' _ _ _ => ⟨m, (h id).symm.trans hid, (h id').symm.trans hid'⟩

theorem GatedAlike.exclusive {P : CoordinatedDag} (h : GatedAlike P) {s : Execution}
    (hs : P.dag.system.Reachable s) : ModelExclusive P.usedModel s.executor := by
  intro id id' m hid hid' hm hm'
  by_contra hne
  obtain ⟨g, hg, hg'⟩ := h id id' m hm hm' (not_ancestor_of_running hs hid hid')
    (not_ancestor_of_running hs hid' hid) hne
  exact hne (gate_exclusive hs id id' g hid hid' hg hg')

/-- **Model exclusivity.** Every model is used by one step at a time, on the identity that its gate has, exactly if
the overrides repeat what is looked up without them. It is used by one step at a time as well where steps that use
the same model are gated alike. -/
theorem model_exclusivity (P : CoordinatedDag) :
    ((OneIdentity P ∧ ∀ s, P.dag.system.Reachable s → ModelExclusive P.usedModel s.executor) ↔ OverridesRepeat P) ∧
      (GatedAlike P → ∀ s, P.dag.system.Reachable s → ModelExclusive P.usedModel s.executor) := by
  refine ⟨⟨fun h => (oneIdentity_iff P).1 h.1, fun h => ?_⟩, fun h s hs => h.exclusive hs⟩
  have hone := (oneIdentity_iff P).2 h
  exact ⟨hone, fun s hs => hone.gatedAlike.exclusive hs⟩

/-! ## Two steps and an override -/

/-- Two steps that need nothing and refer to two models. -/
def twoRefs : Dict String CoordinatedStep :=
  ((∅ : Dict String CoordinatedStep).set "a" ⟨[], false, "generate", some "fast", some "m1"⟩).set "b"
    ⟨[], false, "generate", some "slow", some "m2"⟩

/-- The options of a request that overrides the model of the first step. -/
def overriding (model : String) : Coordination := ⟨none, none, (∅ : Dict String String).set "fast" model⟩

theorem twoSpecs_gated (model : String) (name : String) : twoSpecs.get? name = (twoRefs.get? name).map fun step =>
    ⟨step.dependencies, step.subPipelineStep, gateModel (overriding model) name step⟩ := by
  simp only [twoSpecs, twoRefs, Dict.get?_set]
  split
  · rfl
  · split <;> rfl

/-- The pipeline with the two steps and the override. -/
def overridden (model : String) : CoordinatedDag where
  options := overriding model
  steps := twoRefs
  dag := twoModels
  gated := twoSpecs_gated model

/-- Both steps are launched. -/
def bothLaunched : Option Execution :=
  System.exec (Execution.step twoModels) ⟨.start twoModels, .loop⟩
    [.pass false, .condition (some true), .lookup none, .condition (some true), .lookup none, .launch false,
      .launch false]

theorem bothLaunched_isSome : bothLaunched.isSome = true := by decide

/-- The override repeats what is looked up without it. -/
theorem overridden_exclusive : OneIdentity (overridden "m1") ∧
    ∀ s, (overridden "m1").dag.system.Reachable s → ModelExclusive (overridden "m1").usedModel s.executor := by
  refine (model_exclusivity (overridden "m1")).1.2 fun id step hstep _ _ m hm => ?_
  have hstep : twoRefs.get? id = some step := hstep
  simp only [twoRefs, Dict.get?_set] at hstep
  split at hstep
  · rename_i hid
    obtain rfl := Option.some.inj hstep
    subst hid
    cases hm
  · split at hstep
    · rename_i hid
      obtain rfl := Option.some.inj hstep
      subst hid
      have hm : some "m1" = some m := hm
      exact hm
    · cases hstep

/-- Both steps run on the model of the second one. -/
theorem overridden_not_exclusive : ∃ s, (overridden "m2").dag.system.Reachable s ∧
    s.executor.state "a" = .running ∧ s.executor.state "b" = .running ∧
    (overridden "m2").usedModel "a" = some "m2" ∧ (overridden "m2").usedModel "b" = some "m2" ∧
    ¬ ModelExclusive (overridden "m2").usedModel s.executor := by
  have hreach : (overridden "m2").dag.system.Reachable (bothLaunched.get bothLaunched_isSome) :=
    System.reachable_of_exec rfl (Option.some_get bothLaunched_isSome).symm
  have ha : (overridden "m2").usedModel "a" = some "m2" := by decide
  have hb : (overridden "m2").usedModel "b" = some "m2" := by decide
  refine ⟨_, hreach, by decide, by decide, ha, hb, fun h => ?_⟩
  exact absurd (h "a" "b" "m2" (by decide) (by decide) ha hb) (by decide)

end LlmGateway.Pipeline
