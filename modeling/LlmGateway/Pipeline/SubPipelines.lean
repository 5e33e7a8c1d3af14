import LlmGateway.Foundations.Fallible
import LlmGateway.Pipeline.StepConfig
import Mathlib.Data.List.Forall2

/-!
# The expansion of sub-pipelines

`_expand_all_sub_pipelines` puts the steps of a sub-pipeline in the place of the step that stands for it, each
under the name of that step (`namespaced`). The names in handler inputs follow; the references in all other places
stay as they are, since the fields that the expansion computes for them never replace the ones that
`model_dump` has copied before. `Hygienic` says what an expansion ought to do to every reference, and
`expansion_hygienic_iff` for which pipelines it does.
-/

namespace LlmGateway.Pipeline

/-! ## The expansion -/

structure SubPipelineSpec where
  steps : List StepConfig
  output : String

/-- A step of a pipeline, with `_sub_pipeline_spec`. -/
structure PipelineStep where
  config : StepConfig
  spec : Option SubPipelineSpec

/-- Why an expansion fails. -/
inductive ExpandError where
  /-- A step of type `sub_pipeline` without a loaded spec. -/
  | noSpec (step : String)
  /-- An input that the parent does not provide. -/
  | missingInput (step input : String)
  /-- The declared outputs of a step are dumped under `declared_type` and parsed under `type`. -/
  | outputDeclarations (step : String)
  deriving DecidableEq

/-- The name of a step of a sub-pipeline. -/
def namespaced (pre name : String) : String := pre ++ "__" ++ name

/-- The binding is to an input of the sub-pipeline. -/
def InputBinding.ofInputs (b : InputBinding) : Bool := b.ns == "step" && b.stepName == some "inputs"

/-- The input of a binding to `inputs`. -/
def InputBinding.inputName (b : InputBinding) : String := (splitDot b.fieldPath).1

/-- A handler input in `_namespace_step`. -/
def namespaceInput (parent : StepConfig) (b : InputBinding) : InputBinding :=
  if b.ofInputs then (parent.handlerInputs.get? b.inputName).getD b
  else if b.ns = "step" then
    match b.stepName with
    | none => b
    | some name => if name = "" then b else ⟨"step", some (namespaced parent.name name), b.fieldPath, none⟩
  else b

/-- The step that `_namespace_step` builds. -/
def namespacedStep (parent s : StepConfig) : StepConfig :=
  { s with
    name := namespaced parent.name s.name
    handlerInputs := s.handlerInputs.mapVal fun _ b => namespaceInput parent b
    subPipelineStep := true }

/-- A handler input of which the parent does not provide the input. -/
def missesInput (parent : StepConfig) (b : InputBinding) : Bool :=
  b.ofInputs && !parent.handlerInputs.contains b.inputName

def namespaceStep (parent s : StepConfig) : Except ExpandError StepConfig :=
  match s.handlerInputs.items.find? fun e => missesInput parent e.2 with
  | some e => .error (.missingInput s.name e.2.inputName)
  | none =>
    if s.outputDeclarations ≠ [] then .error (.outputDeclarations s.name) else .ok (namespacedStep parent s)

/-- A step in the loop of `_expand_all_sub_pipelines`. -/
def expandStep (step : PipelineStep) : Except ExpandError (List StepConfig) :=
  if step.config.type ≠ "sub_pipeline" then .ok [step.config]
  else
    match step.spec with
    | none => .error (.noSpec step.config.name)
    | some spec => spec.steps.mapM (namespaceStep step.config)

/-- The output step of a sub-pipeline, under the name of its step. -/
def addAlias (aliases : Dict String String) (step : PipelineStep) : Dict String String :=
  if step.config.type ≠ "sub_pipeline" then aliases
  else
    match step.spec with
    | none => aliases
    | some spec => aliases.set step.config.name (namespaced step.config.name spec.output)

def outputAliases (steps : List PipelineStep) : Dict String String := steps.foldl addAlias ∅

/-- What an alias stands for. -/
def aliasOf (aliases : Dict String String) (t : Target) : Option Target :=
  (t.step?.bind aliases.get?).map fun output => ⟨"step", some output, t.fieldPath⟩

/-- A handler input in `_rewrite_aliases`. -/
def rewriteAlias (aliases : Dict String String) (b : InputBinding) : InputBinding :=
  match aliasOf aliases b.target with
  | none => b
  | some t => ⟨t.ns, t.stepName, t.fieldPath, none⟩

def rewriteAliases (aliases : Dict String String) (s : StepConfig) : StepConfig :=
  { s with handlerInputs := s.handlerInputs.mapVal fun _ b => rewriteAlias aliases b }

def expandAllSubPipelines (steps : List PipelineStep) : Except ExpandError (List StepConfig × Dict String String) :=
  if steps.any fun step => step.config.type == "sub_pipeline" then do
    let expanded ← steps.mapM expandStep
    return (expanded.flatten.map (rewriteAliases (outputAliases steps)), outputAliases steps)
  else .ok (steps.map PipelineStep.config, ∅)

/-! ## What an expansion ought to do -/

/-- Where a step of the expanded pipeline comes from. -/
inductive Origin where
  | outer (s : StepConfig)
  /-- A step of the sub-pipeline of its parent. -/
  | sub (parent : StepConfig) (spec : SubPipelineSpec) (s : StepConfig)

def Origin.config : Origin → StepConfig
  | outer s | sub _ _ s => s

/-- The name in the expanded pipeline. -/
def Origin.id : Origin → String
  | outer s => s.name
  | sub parent _ s => namespaced parent.name s.name

/-- The steps that a step of the pipeline stands for. -/
def originsOf (step : PipelineStep) : List Origin :=
  if step.config.type ≠ "sub_pipeline" then [.outer step.config]
  else step.spec.elim [] fun spec => spec.steps.map (.sub step.config spec)

def origins (steps : List PipelineStep) : List Origin := steps.flatMap originsOf

/-- A reference to what stands behind the path of another one. -/
def Target.extend (t : Target) : Option String → Target
  | none => t
  | some path => { t with fieldPath := t.fieldPath ++ "." ++ path }

/-- A reference to a sub-pipeline is one to its output step. -/
def Target.aliased (aliases : Dict String String) (t : Target) : Target := (aliasOf aliases t).getD t

/-- What a reference to an input of a sub-pipeline ought to become: the binding of the parent, with the rest of the
path. -/
def inputTarget (aliases : Dict String String) (parent : StepConfig) (t : Target) : Option Target :=
  (parent.handlerInputs.get? (splitDot t.fieldPath).1).map fun b =>
    (b.target.aliased aliases).extend (splitDot t.fieldPath).2

/-- The sub-pipeline has a step with the name. -/
def SubPipelineSpec.contains (spec : SubPipelineSpec) (name : String) : Bool :=
  name != "" && name != "inputs" && spec.steps.any fun s => s.name == name

/-- What a reference ought to become. It is left open for a reference of a sub-pipeline to a step that the
sub-pipeline does not have, and to an input that is not provided. -/
def Origin.target (aliases : Dict String String) : Origin → Target → Option Target
  | outer _, t => some (t.aliased aliases)
  | sub parent spec _, t =>
    match t.step? with
    | none => some t
    | some name =>
      if name = "inputs" then inputTarget aliases parent t
      else if spec.contains name then some ⟨"step", some (namespaced parent.name name), t.fieldPath⟩
      else none

/-- A condition of a sub-pipeline that names `inputs`. -/
def Origin.namesInputs (K : Extraction) : Origin → StepConfig → Bool
  | outer _, _ => false
  | sub .., s => (s.condition.toList.flatMap K.conditionDeps).contains "inputs"

variable (K : Extraction)

/-- A step of the expanded pipeline is what its origin ought to become. -/
structure Inlined (aliases : Dict String String) (o : Origin) (s : StepConfig) : Prop where
  id : s.name = o.id
  concrete : s.type ≠ "sub_pipeline"
  references : List.Forall₂ (fun r r' => r'.1 = r.1 ∧ ∀ t, o.target aliases r.2 = some t → r'.2 = t)
    (o.config.references K) (s.references K)
  condition : o.namesInputs K s = false

/-- **Hygiene** of an expansion. -/
structure Hygienic (steps : List PipelineStep) (expanded : List StepConfig) : Prop where
  inlined : List.Forall₂ (Inlined K (outputAliases steps)) (origins steps) expanded
  distinct : (expanded.map StepConfig.name).Nodup

/-! ## Where it does -/

/-- The parents have loaded specs and provide the inputs that their steps use. -/
def Accepted (steps : List PipelineStep) : Prop :=
  ∀ step ∈ steps, step.config.type = "sub_pipeline" → ∃ spec, step.spec = some spec ∧
    ∀ s ∈ spec.steps, ∀ e ∈ s.handlerInputs.items, missesInput step.config e.2 = false

/-- The expansion follows all references of a step of a sub-pipeline. -/
structure FollowedSub (aliases : Dict String String) (parent : StepConfig) (spec : SubPipelineSpec)
    (s : StepConfig) : Prop where
  declarations : s.outputDeclarations = []
  concrete : s.type ≠ "sub_pipeline"
  /-- A handler input takes an input as a whole. -/
  whole : ∀ e ∈ s.handlerInputs.items, e.2.ofInputs = true → (splitDot e.2.fieldPath).2 = none
  /-- The new name of a sibling in a handler input is not the name of another sub-pipeline. -/
  unshadowed : ∀ e ∈ s.handlerInputs.items, ∀ name, e.2.target.step? = some name → spec.contains name = true →
    aliases.get? (namespaced parent.name name) = none
  /-- Siblings are in handler inputs only. -/
  siblings : ∀ r ∈ s.otherReferences K, ∀ name, r.2.step? = some name → spec.contains name = false
  /-- Inputs are in handler inputs only, or are what the parent binds them to. -/
  inputs : ∀ r ∈ s.otherReferences K, r.2.step? = some "inputs" → ∀ t, inputTarget aliases parent r.2 = some t →
    t = r.2
  condition : "inputs" ∉ s.condition.toList.flatMap K.conditionDeps

/-- The expansion follows all references of a step. -/
def Followed (aliases : Dict String String) : Origin → Prop
  | .outer s => ∀ r ∈ s.otherReferences K, aliasOf aliases r.2 = none
  | .sub parent spec s => FollowedSub K aliases parent spec s

/-- What the expansion follows, and the names that it keeps apart. -/
structure Expandable (steps : List PipelineStep) : Prop where
  followed : ∀ o ∈ origins steps, Followed K (outputAliases steps) o
  distinct : ((origins steps).map Origin.id).Nodup

/-! ## Names -/

variable {K}

theorem length_namespaced (pre name : String) :
    (namespaced pre name).length = pre.length + 2 + name.length := by
  rw [namespaced, String.length_append, String.length_append]
  rfl

theorem namespaced_ne_name (pre name : String) : namespaced pre name ≠ name := by
  intro h
  have hlength := congrArg String.length h
  rw [length_namespaced] at hlength
  omega

theorem namespaced_ne_prefix (pre name : String) : namespaced pre name ≠ pre := by
  intro h
  have hlength := congrArg String.length h
  rw [length_namespaced] at hlength
  omega

/-- The aliases stand for steps of the sub-pipelines. -/
def Proper (aliases : Dict String String) : Prop :=
  ∀ name output, aliases.get? name = some output → ∃ step, output = namespaced name step

variable {aliases : Dict String String} {b : InputBinding} {parent s : StepConfig} {spec : SubPipelineSpec}
  {steps : List PipelineStep}

theorem Proper.addAlias (h : Proper aliases) (step : PipelineStep) :
    Proper (addAlias aliases step) := by
  unfold Pipeline.addAlias
  split
  · exact h
  split
  · exact h
  · rename_i spec _
    intro name output hget
    rw [Dict.get?_set] at hget
    split at hget
    · rename_i hname
      obtain rfl := Option.some.inj hget
      exact ⟨spec.output, by rw [hname]⟩
    · exact h name output hget

theorem outputAliases_proper (steps : List PipelineStep) : Proper (outputAliases steps) := by
  have hfold : ∀ (l : List PipelineStep) (aliases : Dict String String), Proper aliases →
      Proper (l.foldl addAlias aliases) := by
    intro l
    induction l with
    | nil => exact fun _ h => h
    | cons step l ih => exact fun aliases h => ih _ (h.addAlias step)
  exact hfold steps ∅ fun name output h => by cases h

theorem Proper.aliasOf_ne (h : Proper aliases) {t t' : Target} (halias : aliasOf aliases t = some t') : t' ≠ t := by
  unfold aliasOf at halias
  obtain ⟨output, hget, rfl⟩ := Option.map_eq_some_iff.1 halias
  obtain ⟨name, hname, hget⟩ := Option.bind_eq_some_iff.1 hget
  obtain ⟨step, rfl⟩ := h name output hget
  intro heq
  unfold Target.step? at hname
  split at hname
  · rw [← heq] at hname
    exact namespaced_ne_prefix name step (Option.some.inj hname)
  · cases hname

theorem Proper.aliased_eq_iff (h : Proper aliases) {t : Target} :
    t = t.aliased aliases ↔ aliasOf aliases t = none := by
  unfold Target.aliased
  rcases halias : aliasOf aliases t with _ | t'
  · exact iff_of_true rfl rfl
  · exact iff_of_false (fun heq => h.aliasOf_ne halias heq.symm) (fun hnone => by cases hnone)

theorem rewriteAlias_target (aliases : Dict String String) (b : InputBinding) :
    (rewriteAlias aliases b).target = b.target.aliased aliases := by
  unfold rewriteAlias Target.aliased
  rcases aliasOf aliases b.target with _ | t <;> rfl

theorem extend_eq_iff (t : Target) (path : Option String) : t = t.extend path ↔ path = none := by
  rcases path with _ | path
  · exact iff_of_true rfl rfl
  · refine iff_of_false (fun heq => ?_) (fun hnone => by cases hnone)
    have hlength := congrArg (fun t => t.fieldPath.length) heq
    simp only [Target.extend, String.length_append] at hlength
    have hdot : ".".length = 1 := rfl
    omega

/-! ## References -/

theorem contains_inputs (spec : SubPipelineSpec) : spec.contains "inputs" = false := by
  simp [SubPipelineSpec.contains]

theorem ofInputs_iff : b.ofInputs = true ↔ b.target.step? = some "inputs" := by
  unfold InputBinding.ofInputs Target.step?
  rw [Bool.and_eq_true, beq_iff_eq, beq_iff_eq]
  constructor
  · rintro ⟨hns, hname⟩
    rw [if_pos (show b.target.ns = "step" from hns)]
    exact hname
  · intro h
    split at h
    · exact ⟨‹_›, h⟩
    · cases h

theorem namespaceInput_of_not (h : ∀ name, b.target.step? = some name → name = "") : namespaceInput parent b = b := by
  have hnot : ¬ b.ofInputs = true := fun hinputs => absurd (h _ (ofInputs_iff.1 hinputs)) (by decide)
  unfold namespaceInput
  rw [if_neg hnot]
  split
  · rename_i hns
    split
    · rfl
    · rename_i name hname
      rw [if_pos]
      exact h name (by rw [Target.step?, if_pos (show b.target.ns = "step" from hns)]; exact hname)
  · rfl

theorem namespaceInput_of_step {name : String}
    (h : b.target.step? = some name) (hinputs : name ≠ "inputs") (hname : name ≠ "") :
    namespaceInput parent b = ⟨"step", some (namespaced parent.name name), b.fieldPath, none⟩ := by
  have hnot : ¬ b.ofInputs = true := fun hof => hinputs (Option.some.inj (h.symm.trans (ofInputs_iff.1 hof)))
  have hns : b.ns = "step" ∧ b.stepName = some name := by
    unfold Target.step? at h
    split at h
    · exact ⟨‹_›, h⟩
    · cases h
  unfold namespaceInput
  rw [if_neg hnot, if_pos hns.1, hns.2]
  exact if_neg hname

theorem namespaceInput_of_inputs {pb : InputBinding} (h : b.ofInputs = true)
    (hparent : parent.handlerInputs.get? b.inputName = some pb) : namespaceInput parent b = pb := by
  rw [namespaceInput, if_pos h, hparent]
  rfl

/-- **Handler inputs**: what the expansion makes of one is what it ought to become exactly if it takes an input as a
whole and its new name is not the one of another sub-pipeline. -/
theorem handlerInput_followed_iff (haliases : Proper aliases) (hprovided : missesInput parent b = false) :
    (∀ t, (Origin.sub parent spec s).target aliases b.target = some t →
      (rewriteAlias aliases (namespaceInput parent b)).target = t) ↔
      (b.ofInputs = true → (splitDot b.fieldPath).2 = none) ∧
        ∀ name, b.target.step? = some name → spec.contains name = true →
          aliases.get? (namespaced parent.name name) = none := by
  rw [rewriteAlias_target]
  rcases hstep : b.target.step? with _ | name
  · -- The binding names no step.
    have hnot : ¬ b.ofInputs = true := fun hof => by rw [ofInputs_iff, hstep] at hof; cases hof
    have hsame : namespaceInput parent b = b := namespaceInput_of_not fun name h => by rw [hstep] at h; cases h
    refine iff_of_true (fun t ht => ?_) ⟨fun hof => absurd hof hnot, fun name h => by cases h⟩
    simp only [Origin.target, hstep] at ht
    rw [hsame, Target.aliased, aliasOf, hstep]
    exact Option.some.inj ht
  by_cases hinputs : name = "inputs"
  · subst hinputs
    have hof := ofInputs_iff.2 hstep
    rw [missesInput, hof, Bool.true_and, Bool.not_eq_false', Dict.contains, Option.isSome_iff_exists] at hprovided
    obtain ⟨pb, hpb⟩ := hprovided
    have htarget : (Origin.sub parent spec s).target aliases b.target =
        some ((pb.target.aliased aliases).extend (splitDot b.fieldPath).2) := by
      simp only [Origin.target, hstep, if_pos, inputTarget]
      rw [show (splitDot b.target.fieldPath).1 = b.inputName from rfl, hpb]
      rfl
    rw [namespaceInput_of_inputs hof hpb, htarget]
    constructor
    · intro h
      refine ⟨fun _ => (extend_eq_iff _ _).1 (h _ rfl), fun name hname hcontains => ?_⟩
      obtain rfl := Option.some.inj hname
      rw [contains_inputs] at hcontains
      cases hcontains
    · rintro ⟨hwhole, -⟩ t ht
      rw [← Option.some.inj ht, hwhole hof]
      rfl
  have hnot : ¬ b.ofInputs = true := fun hof =>
    hinputs (Option.some.inj (hstep.symm.trans (ofInputs_iff.1 hof)))
  rcases hcontains : spec.contains name
  · -- A step that the sub-pipeline does not have.
    refine iff_of_true (fun t ht => ?_) ⟨fun hof => absurd hof hnot, fun name' hname hcontains' => ?_⟩
    · simp only [Origin.target, hstep, if_neg hinputs, hcontains, Bool.false_eq_true, if_false] at ht
      cases ht
    · obtain rfl := Option.some.inj hname
      rw [hcontains] at hcontains'
      cases hcontains'
  · have hname : name ≠ "" := by
      rintro rfl
      simp [SubPipelineSpec.contains] at hcontains
    have htarget : (Origin.sub parent spec s).target aliases b.target =
        some ⟨"step", some (namespaced parent.name name), b.fieldPath⟩ := by
      simp only [Origin.target, hstep, if_neg hinputs, hcontains, if_true]
      rfl
    rw [namespaceInput_of_step hstep hinputs hname, htarget]
    constructor
    · intro h
      refine ⟨fun hof => absurd hof hnot, fun name' hname' _ => ?_⟩
      obtain rfl := Option.some.inj hname'
      have hnone := haliases.aliased_eq_iff.1 (h _ rfl).symm
      rw [aliasOf, Option.map_eq_none_iff] at hnone
      exact hnone
    · rintro ⟨-, hunshadowed⟩ t ht
      rw [← Option.some.inj ht]
      refine (haliases.aliased_eq_iff.2 ?_).symm
      rw [aliasOf, Option.map_eq_none_iff]
      exact hunshadowed name rfl hcontains

/-- **Other places**: what stays there is what it ought to become exactly if it is no sibling, and no input but one
that the parent binds to itself. -/
theorem reference_followed_iff (t : Target) : (∀ t', (Origin.sub parent spec s).target aliases t = some t' → t = t') ↔
      (∀ name, t.step? = some name → spec.contains name = false) ∧
        (t.step? = some "inputs" → ∀ t', inputTarget aliases parent t = some t' → t' = t) := by
  rcases hstep : t.step? with _ | name
  · refine iff_of_true (fun t' ht' => ?_) ⟨fun name h => (by cases h), fun h => (by cases h)⟩
    simp only [Origin.target, hstep] at ht'
    exact Option.some.inj ht'
  by_cases hinputs : name = "inputs"
  · subst hinputs
    have htarget : (Origin.sub parent spec s).target aliases t = inputTarget aliases parent t := by
      simp only [Origin.target, hstep, if_pos]
    rw [htarget]
    constructor
    · intro h
      refine ⟨fun name hname => ?_, fun _ t' ht' => (h t' ht').symm⟩
      obtain rfl := Option.some.inj hname
      exact contains_inputs spec
    · exact fun h t' ht' => (h.2 rfl t' ht').symm
  rcases hcontains : spec.contains name
  · refine iff_of_true (fun t' ht' => ?_) ⟨fun name' hname => ?_, fun h => absurd (Option.some.inj h) hinputs⟩
    · simp only [Origin.target, hstep, if_neg hinputs, hcontains, Bool.false_eq_true, if_false] at ht'
      cases ht'
    · obtain rfl := Option.some.inj hname
      exact hcontains
  · refine iff_of_false (fun h => ?_) fun h => ?_
    · have htarget : (Origin.sub parent spec s).target aliases t =
          some ⟨"step", some (namespaced parent.name name), t.fieldPath⟩ := by
        simp only [Origin.target, hstep, if_neg hinputs, hcontains, if_true]
      have heq := h _ htarget
      rw [heq] at hstep
      exact namespaced_ne_name parent.name name (Option.some.inj hstep)
    · have hno := h.1 name rfl
      rw [hcontains] at hno
      cases hno

/-! ## Steps -/

theorem forall₂_map_append_iff {ι α : Type} {R : α → α → Prop} {f f' : ι → α} {l : List ι} {m m' : List α} :
    List.Forall₂ R (l.map f ++ m) (l.map f' ++ m') ↔ (∀ i ∈ l, R (f i) (f' i)) ∧ List.Forall₂ R m m' := by
  induction l with
  | nil => simp
  | cons i l ih =>
    rw [List.map_cons, List.map_cons, List.cons_append, List.cons_append, List.forall₂_cons, ih,
      List.forall_mem_cons, and_assoc]

theorem references_mapVal (K : Extraction) (s s' : StepConfig) (f : InputBinding → InputBinding)
    (hinputs : s'.handlerInputs = s.handlerInputs.mapVal fun _ b => f b)
    (hother : s'.otherReferences K = s.otherReferences K) : s'.references K =
      s.handlerInputs.items.map (fun e => (.handlerInput e.1, (f e.2).target)) ++ s.otherReferences K := by
  rw [StepConfig.references, hother, hinputs]
  simp [Dict.mapVal]

theorem outer_inlined_iff (haliases : Proper aliases) (htype : s.type ≠ "sub_pipeline") :
    Inlined K aliases (.outer s) (rewriteAliases aliases s) ↔
      ∀ r ∈ s.otherReferences K, aliasOf aliases r.2 = none := by
  have href := references_mapVal K s (rewriteAliases aliases s) (rewriteAlias aliases) rfl rfl
  constructor
  · intro h r hr
    have hboth := h.references
    rw [href, Origin.config, StepConfig.references, forall₂_map_append_iff, List.forall₂_same] at hboth
    exact haliases.aliased_eq_iff.1 ((hboth.2 r hr).2 _ rfl)
  · intro h
    refine ⟨rfl, htype, ?_, rfl⟩
    rw [href, Origin.config, StepConfig.references, forall₂_map_append_iff, List.forall₂_same]
    refine ⟨fun e _ => ⟨rfl, fun t ht => ?_⟩, fun r hr => ⟨rfl, fun t ht => ?_⟩⟩
    · rw [rewriteAlias_target]
      exact Option.some.inj ht
    · rw [← Option.some.inj ht]
      exact haliases.aliased_eq_iff.2 (h r hr)

theorem sub_inlined_iff (haliases : Proper aliases)
    (hprovided : ∀ e ∈ s.handlerInputs.items, missesInput parent e.2 = false) : (s.outputDeclarations = [] ∧
      Inlined K aliases (.sub parent spec s) (rewriteAliases aliases (namespacedStep parent s))) ↔
      FollowedSub K aliases parent spec s := by
  have href : (rewriteAliases aliases (namespacedStep parent s)).references K =
      s.handlerInputs.items.map
        (fun e => (.handlerInput e.1, (rewriteAlias aliases (namespaceInput parent e.2)).target)) ++
        s.otherReferences K := by
    refine references_mapVal K s _ (fun b => rewriteAlias aliases (namespaceInput parent b)) ?_ rfl
    simp [rewriteAliases, namespacedStep, Dict.mapVal]
  constructor
  · rintro ⟨hdeclarations, h⟩
    have hboth := h.references
    rw [href, Origin.config, StepConfig.references, forall₂_map_append_iff, List.forall₂_same] at hboth
    have hinput := fun e he => (handlerInput_followed_iff haliases (hprovided e he)).1 (hboth.1 e he).2
    have hother := fun r hr => (reference_followed_iff r.2).1 (hboth.2 r hr).2
    exact ⟨hdeclarations, h.concrete, fun e he => (hinput e he).1, fun e he => (hinput e he).2,
      fun r hr => (hother r hr).1, fun r hr => (hother r hr).2, fun hmem =>
        absurd (List.contains_iff_mem.2 hmem) (Bool.eq_false_iff.1 h.condition)⟩
  · intro h
    refine ⟨h.declarations, rfl, h.concrete, ?_, Bool.eq_false_iff.2 fun hmem =>
      h.condition (List.contains_iff_mem.1 hmem)⟩
    rw [href, Origin.config, StepConfig.references, forall₂_map_append_iff, List.forall₂_same]
    refine ⟨fun e he => ⟨rfl, ?_⟩, fun r hr => ⟨rfl, ?_⟩⟩
    · exact (handlerInput_followed_iff haliases (hprovided e he)).2 ⟨h.whole e he, h.unshadowed e he⟩
    · exact (reference_followed_iff r.2).2 ⟨h.siblings r hr, h.inputs r hr⟩

/-! ## The edges of the DAG -/

/-! ## Pipelines -/

/-- What the expansion makes of a step, before the aliases. -/
def Origin.renamed : Origin → StepConfig
  | outer s => s
  | sub parent _ s => namespacedStep parent s

/-- The steps of sub-pipelines that can be built again. -/
def Origin.rebuilds : Origin → Prop
  | outer _ => True
  | sub _ _ s => s.outputDeclarations = []

/-- The parent provides the inputs. -/
def Origin.provided : Origin → Prop
  | outer s => s.type ≠ "sub_pipeline"
  | sub parent _ s => ∀ e ∈ s.handlerInputs.items, missesInput parent e.2 = false

theorem namespaceStep_eq_ok
    (hprovided : ∀ e ∈ s.handlerInputs.items, missesInput parent e.2 = false) (s' : StepConfig) :
    namespaceStep parent s = .ok s' ↔ s.outputDeclarations = [] ∧ s' = namespacedStep parent s := by
  have hnone : s.handlerInputs.items.find? (fun e => missesInput parent e.2) = none := by
    rw [List.find?_eq_none]
    intro e he
    rw [hprovided e he]
    exact Bool.false_ne_true
  unfold namespaceStep
  rw [hnone]
  dsimp only
  split
  · rename_i hdeclarations
    exact iff_of_false (fun h => by cases h) fun h => hdeclarations h.1
  · rename_i hdeclarations
    rw [not_not] at hdeclarations
    constructor
    · intro h
      exact ⟨hdeclarations, (Except.ok.inj h).symm⟩
    · rintro ⟨-, rfl⟩
      rfl

theorem provided_of_accepted (h : Accepted steps) : ∀ o ∈ origins steps, o.provided := by
  intro o ho
  obtain ⟨step, hstep, ho⟩ := List.mem_flatMap.1 ho
  unfold originsOf at ho
  split at ho
  · rename_i htype
    obtain rfl := List.mem_singleton.1 ho
    exact htype
  · rename_i htype
    obtain ⟨spec, hspec, hall⟩ := h step hstep (not_not.1 htype)
    rw [hspec] at ho
    obtain ⟨s, hs, rfl⟩ := List.mem_map.1 ho
    exact hall s hs

theorem expandStep_eq_ok (h : Accepted steps) {step : PipelineStep}
    (hstep : step ∈ steps) (expanded : List StepConfig) :
    expandStep step = .ok expanded ↔
      (∀ o ∈ originsOf step, o.rebuilds) ∧ expanded = (originsOf step).map Origin.renamed := by
  unfold expandStep originsOf
  split
  · constructor
    · intro heq
      refine ⟨fun o ho => ?_, (Except.ok.inj heq).symm⟩
      obtain rfl := List.mem_singleton.1 ho
      trivial
    · rintro ⟨-, rfl⟩
      rfl
  rename_i htype
  obtain ⟨spec, hspec, hall⟩ := h step hstep (not_not.1 htype)
  rw [hspec]
  dsimp only [Option.elim]
  rw [mapM_eq_ok_iff fun s hs => namespaceStep_eq_ok (hall s hs)]
  simp only [List.forall_mem_map, List.map_map]
  rfl

theorem outputAliases_of_not
    (h : (steps.any fun step => step.config.type == "sub_pipeline") = false) : outputAliases steps = ∅ := by
  have hfold : ∀ (l : List PipelineStep), (∀ step ∈ l, step.config.type ≠ "sub_pipeline") →
      l.foldl addAlias ∅ = ∅ := by
    intro l
    induction l with
    | nil => exact fun _ => rfl
    | cons step l ih =>
      intro hl
      have hstep : addAlias ∅ step = ∅ := if_pos (hl step List.mem_cons_self)
      rw [List.foldl_cons, hstep]
      exact ih fun s hs => hl s (.tail _ hs)
  refine hfold steps fun step hstep htype => ?_
  exact absurd (beq_iff_eq.2 htype) (List.any_eq_false.1 h step hstep)

theorem rewriteAliases_empty (s : StepConfig) : rewriteAliases ∅ s = s := by
  have hbinding : ∀ b, rewriteAlias ∅ b = b := by
    intro b
    have hnone : aliasOf ∅ b.target = none := by
      unfold aliasOf
      rcases b.target.step? with _ | name <;> rfl
    rw [rewriteAlias, hnone]
  have hinputs : s.handlerInputs.mapVal (fun _ b => rewriteAlias ∅ b) = s.handlerInputs := by
    simp [Dict.mapVal, hbinding]
  rw [rewriteAliases, hinputs]

theorem expandAllSubPipelines_eq_ok (h : Accepted steps) (expanded : List StepConfig)
    (aliases : Dict String String) : expandAllSubPipelines steps = .ok (expanded, aliases) ↔
      (∀ o ∈ origins steps, o.rebuilds) ∧
        expanded = (origins steps).map (fun o => rewriteAliases (outputAliases steps) o.renamed) ∧
        aliases = outputAliases steps := by
  have hlist : ((steps.map fun step => (originsOf step).map Origin.renamed).flatten.map
      (rewriteAliases (outputAliases steps))) =
        (origins steps).map fun o => rewriteAliases (outputAliases steps) o.renamed := by
    rw [origins, List.map_flatMap, List.map_flatten, List.map_map, List.flatMap_def]
    simp only [Function.comp_def, List.map_map]
  have hall : (∀ step ∈ steps, ∀ o ∈ originsOf step, o.rebuilds) ↔ ∀ o ∈ origins steps, o.rebuilds := by
    rw [origins, List.forall_mem_flatMap]
  unfold expandAllSubPipelines
  split
  · rw [bind_eq_ok]
    constructor
    · rintro ⟨lists, hlists, heq⟩
      obtain ⟨hrebuilds, rfl⟩ := (mapM_eq_ok_iff (fun step hstep => expandStep_eq_ok h hstep) lists).1 hlists
      obtain ⟨rfl, rfl⟩ := Prod.mk.inj (Except.ok.inj heq)
      exact ⟨hall.1 hrebuilds, hlist, rfl⟩
    · rintro ⟨hrebuilds, rfl, rfl⟩
      refine ⟨_, (mapM_eq_ok_iff (fun step hstep => expandStep_eq_ok h hstep) _).2 ⟨hall.2 hrebuilds, rfl⟩, ?_⟩
      rw [hlist]
      rfl
  · rename_i hany
    -- Without sub-pipelines the steps stay as they are.
    have hnone := Bool.eq_false_iff.2 hany
    have htypes : ∀ step ∈ steps, step.config.type ≠ "sub_pipeline" := fun step hstep htype =>
      absurd (beq_iff_eq.2 htype) (List.any_eq_false.1 hnone step hstep)
    have horigins : ∀ step ∈ steps, originsOf step = [.outer step.config] := fun step hstep =>
      if_pos (htypes step hstep)
    have hrebuilds : ∀ step ∈ steps, ∀ o ∈ originsOf step, o.rebuilds := by
      intro step hstep o ho
      rw [horigins step hstep] at ho
      obtain rfl := List.mem_singleton.1 ho
      trivial
    have hsame : (origins steps).map (fun o => rewriteAliases (outputAliases steps) o.renamed) =
        steps.map PipelineStep.config := by
      have hid : rewriteAliases ∅ = fun s => s := funext rewriteAliases_empty
      rw [← hlist, outputAliases_of_not hnone, hid, List.map_id',
        List.map_congr_left (g := fun step => [step.config]) fun step hstep => by rw [horigins step hstep]; rfl]
      exact List.map_eq_flatMap.symm
    rw [hsame, outputAliases_of_not hnone]
    constructor
    · intro heq
      obtain ⟨rfl, rfl⟩ := Prod.mk.inj (Except.ok.inj heq)
      exact ⟨hall.1 hrebuilds, rfl, rfl⟩
    · rintro ⟨-, rfl, rfl⟩
      rfl

theorem inlined_iff (haliases : Proper aliases) {o : Origin} (hprovided : o.provided) :
    (o.rebuilds ∧ Inlined K aliases o (rewriteAliases aliases o.renamed)) ↔ Followed K aliases o := by
  cases o with
  | outer s => exact (iff_of_eq (true_and _)).trans (outer_inlined_iff haliases hprovided)
  | sub parent spec s => exact sub_inlined_iff haliases hprovided

theorem renamed_name (aliases : Dict String String) (o : Origin) :
    (rewriteAliases aliases o.renamed).name = o.id := by
  cases o <;> rfl

theorem map_renamed_name (aliases : Dict String String) (l : List Origin) :
    (l.map fun o => rewriteAliases aliases o.renamed).map StepConfig.name = l.map Origin.id := by
  rw [List.map_map]
  exact List.map_congr_left fun o _ => renamed_name aliases o

theorem Hygienic.expandable (haccepted : Accepted steps) {expanded : List StepConfig}
    (hok : expandAllSubPipelines steps = .ok (expanded, aliases))
    (h : Hygienic K steps expanded) : Expandable K steps := by
  obtain ⟨hrebuilds, rfl, -⟩ := (expandAllSubPipelines_eq_ok haccepted _ _).1 hok
  obtain ⟨hinlined, hdistinct⟩ := h
  rw [List.forall₂_map_right_iff, List.forall₂_same] at hinlined
  rw [map_renamed_name] at hdistinct
  refine ⟨fun o ho => ?_, hdistinct⟩
  exact (inlined_iff (outputAliases_proper steps) (provided_of_accepted haccepted o ho)).1
    ⟨hrebuilds o ho, hinlined o ho⟩

theorem Expandable.hygienic (haccepted : Accepted steps) (h : Expandable K steps) :
    ∃ expanded aliases, expandAllSubPipelines steps = .ok (expanded, aliases) ∧ Hygienic K steps expanded := by
  have hboth := fun o ho => (inlined_iff (outputAliases_proper steps) (provided_of_accepted haccepted o ho)).2
    (h.followed o ho)
  refine ⟨_, _, (expandAllSubPipelines_eq_ok haccepted _ _).2 ⟨fun o ho => (hboth o ho).1, rfl, rfl⟩, ?_, ?_⟩
  · rw [List.forall₂_map_right_iff, List.forall₂_same]
    exact fun o ho => (hboth o ho).2
  · rw [map_renamed_name]
    exact h.distinct

/-- **Hygiene of the expansion**: of the pipelines that are accepted, it inlines those whose references it follows and
whose names it keeps apart. -/
theorem expansion_hygienic_iff (K : Extraction) {steps : List PipelineStep} (haccepted : Accepted steps) :
    (∃ expanded aliases, expandAllSubPipelines steps = .ok (expanded, aliases) ∧ Hygienic K steps expanded) ↔
      Expandable K steps := by
  constructor
  · rintro ⟨expanded, aliases, hok, h⟩
    exact h.expandable haccepted hok
  · exact fun h => h.hygienic haccepted

/-! ## Two pipelines -/

/-- A step with handler inputs and a map. -/
def mapStep (name : String) (inputs : Dict String InputBinding) (mapOver : Dict String String) : StepConfig :=
  ⟨name, "generate", inputs, [], [], none, mapOver, ∅, ∅, false⟩

/-- The step that stands for a sub-pipeline `p` with the input `text`. -/
def parentStep : StepConfig :=
  ⟨"p", "sub_pipeline", (∅ : Dict String InputBinding).set "text" ⟨"sourceNs", none, "text", none⟩, [], [], none,
    ∅, ∅, ∅, false⟩

/-- The first step of the sub-pipeline. -/
def splitStep : StepConfig :=
  mapStep "split" ((∅ : Dict String InputBinding).set "text" ⟨"step", some "inputs", "text", none⟩) ∅

/-- The second step takes the first one's output as a handler input. -/
def chained : List PipelineStep :=
  [⟨parentStep, some ⟨[splitStep, mapStep "each"
      ((∅ : Dict String InputBinding).set "items" ⟨"step", some "split", "json.items", none⟩) ∅], "each"⟩⟩,
    ⟨mapStep "end" ((∅ : Dict String InputBinding).set "all" ⟨"step", some "p", "json", none⟩) ∅, none⟩]

/-- The second step maps over the first one's output. -/
def mapped : List PipelineStep :=
  [⟨parentStep, some ⟨[splitStep, mapStep "each" ∅ ((∅ : Dict String String).set "item" "split.json.items")],
    "each"⟩⟩]

/-- No condition names a step, and no handler has a list of steps. -/
def noNames : Extraction := ⟨fun _ => [], fun _ => []⟩

theorem chained_accepted : Accepted chained := by
  intro step hstep htype
  obtain rfl | hstep := List.mem_cons.1 hstep
  · exact ⟨_, rfl, by decide⟩
  · obtain rfl := List.mem_singleton.1 hstep
    exact absurd htype (by decide)

theorem mapped_accepted : Accepted mapped := by
  intro step hstep _
  obtain rfl := List.mem_singleton.1 hstep
  exact ⟨_, rfl, by decide⟩

theorem chained_expandable : Expandable noNames chained := by
  refine ⟨List.forall_mem_cons.2 ⟨?_, List.forall_mem_cons.2 ⟨?_, List.forall_mem_cons.2 ⟨?_, ?_⟩⟩⟩, by decide⟩
  · refine ⟨rfl, by decide, by decide, fun e he name hname hcontains => ?_, fun r hr => absurd hr List.not_mem_nil,
      fun r hr => absurd hr List.not_mem_nil, List.not_mem_nil⟩
    obtain rfl := List.mem_singleton.1 he
    obtain rfl := Option.some.inj hname
    cases hcontains
  · refine ⟨rfl, by decide, by decide, fun e he name hname _ => ?_, fun r hr => absurd hr List.not_mem_nil,
      fun r hr => absurd hr List.not_mem_nil, List.not_mem_nil⟩
    obtain rfl := List.mem_singleton.1 he
    obtain rfl := Option.some.inj hname
    decide
  · exact fun r hr => absurd hr List.not_mem_nil
  · exact fun o ho => absurd ho List.not_mem_nil

/-- The pipeline is inlined. -/
theorem chained_hygienic : ∃ expanded aliases, expandAllSubPipelines chained = .ok (expanded, aliases) ∧
    Hygienic noNames chained expanded :=
  (expansion_hygienic_iff noNames chained_accepted).2 chained_expandable

/-- The second step depends on a step that the expanded pipeline does not have. -/
theorem mapped_not_hygienic : ∃ expanded aliases, expandAllSubPipelines mapped = .ok (expanded, aliases) ∧
    expanded.map StepConfig.name = ["p__split", "p__each"] ∧
    expanded.map (StepConfig.computedDependsOn noNames) = [[], ["split"]] ∧
    ¬ Hygienic noNames mapped expanded := by
  refine ⟨_, _, rfl, by decide, by decide, fun h => ?_⟩
  have hfollowed := (h.expandable mapped_accepted rfl).followed (origins mapped)[1] (List.getElem_mem _)
  exact absurd (hfollowed.siblings (.mapOver "item", ⟨"step", some "split", "json.items"⟩) (by decide) "split" rfl)
    (by decide)

end LlmGateway.Pipeline
