import LlmGateway.Foundations.DepthFirst
import LlmGateway.Foundations.Fallible
import LlmGateway.Pipeline.StepConfig

/-!
# The checks of a pipeline

`PipelineValidator.validate` checks a pipeline when it is parsed: namespaces, the order of the steps, bindings, cycles,
map steps, declared types and `reads_from`. It takes the references of a step from its handler inputs and `reads_from`,
and the cycles from the declared `depends_on` (`validateCircularDependencies_eq_nil_iff`).
-/

namespace LlmGateway.Pipeline

/-! ## Steps as the checks read them -/

structure OutputDeclaration where
  binding : String
  declaredType : String

/-- `ReadsFrom`, which has a step and fields. -/
structure ReadsFrom where
  step : String
  fields : List String
  step_ne : step ≠ ""
  fields_ne : fields ≠ []

/-- `StepConfig` with what the checks, the DAG and the execution read of it besides. -/
structure SpecStep extends StepConfig where
  /-- The bindings in `handler_outputs`. -/
  handlerOutputs : Dict String InputBinding
  declarations : Dict String OutputDeclaration
  reads : List ReadsFrom
  dependsOn : List String
  inputs : Option (List String)
  /-- There is a `map_config`. -/
  isMapStep : Bool
  modelPool : Option String
  modelRef : Option String
  /-- There are `model_requirements`. -/
  modelRequirements : Bool
  avoidModelsFrom : Option String
  /-- What `MapConfig` refuses besides its bindings. -/
  mapRefused : Bool
  readsFrom_eq : readsFrom = reads.map ReadsFrom.step
  declared : outputDeclarations = declarations.items.map Prod.fst
  unmapped : isMapStep = false → mapOver = ∅

/-- `MapConfig`, its bindings. -/
structure MapConfig where
  mapOver : List (String × InputBinding)
  mapInputs : List (String × InputBinding)
  modelPool : Option InputBinding

def parseBindingDict (bindings : Dict String String) : Option (List (String × InputBinding)) :=
  bindings.items.mapM fun e => (InputBinding.parse e.2).map fun b => (e.1, b)

/-- The binding of a `model_pool`, unless it cannot be parsed. -/
def parseModelPool : Option String → Option (Option InputBinding)
  | none => some none
  | some text => (InputBinding.parse text).map some

/-- `get_map_config` of a map step; `none` when it raises or there is none. -/
def SpecStep.getMapConfig (s : SpecStep) : Option MapConfig := do
  let mapOver ← parseBindingDict s.mapOver
  let mapInputs ← parseBindingDict s.mapInputs
  let modelPool ← parseModelPool s.modelPool
  if mapOver.isEmpty || s.mapRefused then none else some ⟨mapOver, mapInputs, modelPool⟩

/-- What a check reports. -/
inductive ValidationError where
  | loopNamespace (step field : String)
  | mapNamespace (step field : String)
  | laterInput (step field ref : String)
  | unknownInput (step field ref : String)
  | laterRead (step ref : String)
  | unknownRead (step ref : String)
  | emptyFieldPath (step field : String)
  | invalidFieldPath (step field path : String)
  | emptyOutputPath (step field : String)
  | circular (cycle : List String)
  | invalidMapConfig (step : String)
  | mapOverNamespace (step field : String)
  | mapInputNamespace (step field ns path : String)
  | wildcard (step field ref : String)
  | declaredType (step field declared ref output upstream : String)
  | selfRead (step : String)
  | noFields (step ref : String)
  | duplicateRead (step ref : String) (fields : List String)
  deriving DecidableEq

/-! ## The checks -/

/-- `validate_namespace_usage`: no step is inside of a loop. -/
def validateNamespaceUsage (steps : List SpecStep) : List ValidationError :=
  steps.flatMap fun s => s.handlerInputs.items.flatMap fun e =>
    (if e.2.ns = "loopNs" then [.loopNamespace s.name e.1] else []) ++
      if e.2.ns = "mapNs" ∧ s.isMapStep = false then [.mapNamespace s.name e.1] else []

/-- The step that a handler input is checked for. -/
def checkedStep (b : InputBinding) : Option String := b.target.step?.filter (· ≠ "")

/-- A handler input against the steps before its own. -/
def inputOrder (names seen : List String) (s : SpecStep) (e : String × InputBinding) : Option ValidationError :=
  (checkedStep e.2).bind fun ref =>
    if seen.contains ref then none
    else if names.contains ref then some (.laterInput s.name e.1 ref)
    else some (.unknownInput s.name e.1 ref)

/-- An entry of `reads_from` against the steps before its own. -/
def readOrder (names seen : List String) (name ref : String) : Option ValidationError :=
  if seen.contains ref then none
  else if names.contains ref then some (.laterRead name ref)
  else some (.unknownRead name ref)

/-- The loop of `validate_step_order`. -/
def stepOrder (names : List String) : List String → List SpecStep → List ValidationError
  | _, [] => []
  | seen, s :: steps => s.handlerInputs.items.filterMap (inputOrder names seen s) ++
      s.readsFrom.filterMap (readOrder names seen s.name) ++ stepOrder names (seen ++ [s.name]) steps

/-- The names of the steps. -/
def stepNames (steps : List SpecStep) : List String := steps.map fun s => s.name

def validateStepOrder (steps : List SpecStep) : List ValidationError := stepOrder (stepNames steps) [] steps

/-- `text in s`. -/
def occursIn (text s : String) : Bool := s.toList.tails.any fun t => text.toList.isPrefixOf t

def validateBindings (steps : List SpecStep) : List ValidationError :=
  steps.flatMap fun s =>
    (s.handlerInputs.items.flatMap fun e =>
      (if e.2.fieldPath = "" then [.emptyFieldPath s.name e.1] else []) ++
        if occursIn ".." e.2.fieldPath || Json.startsWith e.2.fieldPath "." then
          [.invalidFieldPath s.name e.1 e.2.fieldPath] else []) ++
    s.handlerOutputs.items.filterMap fun e => if e.2.fieldPath = "" then some (.emptyOutputPath s.name e.1) else none

/-- The declared dependencies of a step. -/
def declaredDependencies (steps : List SpecStep) (name : String) : List String :=
  ((steps.reverse.find? fun s => s.name == name).map SpecStep.dependsOn).getD []

/-- What the declared dependencies name. -/
def declaredNodes (steps : List SpecStep) : List String := stepNames steps ++ steps.flatMap SpecStep.dependsOn

/-- `_has_circular_dependency` from a step: the path, and the step again. -/
def circularDependency (steps : List SpecStep) (name : String) : Option ValidationError :=
  match DepthFirst.search (declaredDependencies steps) (declaredNodes steps).length [] [] name with
  | .error (path, _) => some (.circular (path.reverse ++ [name]))
  | .ok _ => none

def validateCircularDependencies (steps : List SpecStep) : List ValidationError :=
  (stepNames steps).filterMap (circularDependency steps)

/-- A wildcard in a handler input, over a step that is no map. -/
def wildcardError (steps : List SpecStep) (s : SpecStep) (e : String × InputBinding) : Option ValidationError :=
  if occursIn "*" e.2.fieldPath then
    (e.2.stepName.filter (· ≠ "")).bind fun ref => (steps.find? fun r => r.name == ref).bind fun r =>
      if r.isMapStep then none else some (.wildcard s.name e.1 ref)
  else none

/-- The checks of a map step. -/
def mapStepErrors (steps : List SpecStep) (s : SpecStep) : List ValidationError :=
  match s.getMapConfig with
  | none => [.invalidMapConfig s.name]
  | some config =>
    (config.mapOver.filterMap fun e => if e.2.ns = "mapNs" then some (.mapOverNamespace s.name e.1) else none) ++
    (config.mapInputs.filterMap fun e =>
      if e.2.ns = "mapNs" || occursIn "[mapNs." e.2.fieldPath then none
      else some (.mapInputNamespace s.name e.1 e.2.ns e.2.fieldPath)) ++
    s.handlerInputs.items.filterMap (wildcardError steps s)

def validateMapSteps (steps : List SpecStep) : List ValidationError :=
  (steps.filter SpecStep.isMapStep).flatMap (mapStepErrors steps)

/-- The declared outputs of a step by their bindings. -/
def upstreamBindings (steps : List SpecStep) (name : String) : Dict String (String × String) :=
  ((steps.filter fun s => s.name == name).flatMap fun s => s.declarations.items).foldl
    (fun d e => d.set e.2.binding (e.1, e.2.declaredType)) ∅

def findMatchingOutput (fieldPath : String) (upstream : Dict String (String × String)) : Option (String × String) :=
  (upstream.get? fieldPath).or <|
    (upstream.items.find? fun e => Json.startsWith fieldPath (e.1 ++ ".") || Json.startsWith e.1 (fieldPath ++ ".")).map
      Prod.snd

/-- The declared type of a handler input against that of the output. -/
def typeError (steps : List SpecStep) (s : SpecStep) (e : String × InputBinding) : Option ValidationError :=
  e.2.declaredType.bind fun declared => (checkedStep e.2).bind fun ref =>
    (findMatchingOutput e.2.fieldPath (upstreamBindings steps ref)).bind fun output =>
      if output.2 ≠ "any" ∧ declared ≠ "any" ∧ output.2 ≠ declared then
        some (.declaredType s.name e.1 declared ref output.1 output.2)
      else none

def validateTypeCompatibility (steps : List SpecStep) : List ValidationError :=
  steps.flatMap fun s => s.handlerInputs.items.filterMap (typeError steps s)

/-- An entry of `reads_from`, with the name of its step and those of the steps before it. -/
structure ReadEntry where
  seen : List String
  name : String
  read : ReadsFrom

/-- The entries of all steps, behind those that were seen. -/
def readEntries : List String → List SpecStep → List ReadEntry
  | _, [] => []
  | seen, s :: steps => s.reads.map (fun rf => ⟨seen, s.name, rf⟩) ++ readEntries (seen ++ [s.name]) steps

/-- The loop of `validate_reads_from`, with what was declared. -/
def readsFromErrors (names : List String) : List (String × String × List String) → List ReadEntry →
    List ValidationError
  | _, [] => []
  | declared, e :: entries =>
    (readOrder names e.seen e.name e.read.step).toList ++ (if e.read.step = e.name then [.selfRead e.name] else []) ++
      if e.read.fields.isEmpty then .noFields e.name e.read.step :: readsFromErrors names declared entries
      else
        let key := (e.name, e.read.step, e.read.fields)
        if declared.contains key then
          .duplicateRead e.name e.read.step e.read.fields :: readsFromErrors names declared entries
        else readsFromErrors names (key :: declared) entries

def validateReadsFrom (steps : List SpecStep) : List ValidationError :=
  readsFromErrors (stepNames steps) [] (readEntries [] steps)

def validate (steps : List SpecStep) : List ValidationError :=
  validateNamespaceUsage steps ++ validateStepOrder steps ++ validateBindings steps ++
    validateCircularDependencies steps ++ validateMapSteps steps ++ validateTypeCompatibility steps ++
    validateReadsFrom steps

/-! ## What a pipeline without errors has -/

/-- What a step of a validated pipeline has. -/
structure SpecStep.Checked (steps : List SpecStep) (s : SpecStep) : Prop where
  inputs : ∀ e ∈ s.handlerInputs.items, ∀ ref, checkedStep e.2 = some ref → ref ∈ stepNames steps
  reads : ∀ ref ∈ s.readsFrom, ref ∈ stepNames steps
  parses : ∀ e ∈ s.mapOver.items, (InputBinding.parse e.2).isSome = true

variable {s : SpecStep} {steps : List SpecStep}

theorem order_of_stepOrder {names seen : List String} (h : stepOrder names seen steps = [])
    (hs : s ∈ steps) : ∃ before, before ⊆ seen ++ stepNames steps ∧
      s.handlerInputs.items.filterMap (inputOrder names before s) = [] ∧
      s.readsFrom.filterMap (readOrder names before s.name) = [] := by
  induction steps generalizing seen with
  | nil => cases hs
  | cons s₀ steps ih =>
    rw [stepOrder, List.append_eq_nil_iff, List.append_eq_nil_iff] at h
    obtain rfl | hs := List.mem_cons.1 hs
    · exact ⟨seen, List.subset_append_left _ _, h.1.1, h.1.2⟩
    · obtain ⟨before, hbefore, horder⟩ := ih h.2 hs
      refine ⟨before, fun x hx => ?_, horder⟩
      have := hbefore hx
      simp only [stepNames, List.map_cons, List.mem_append, List.mem_cons, List.not_mem_nil, or_false] at this ⊢
      tauto

theorem parses_of_getMapConfig (h : s.getMapConfig.isSome = true) {e : String × String}
    (he : e ∈ s.mapOver.items) : (InputBinding.parse e.2).isSome = true := by
  have hparse : (parseBindingDict s.mapOver).isSome = true := by
    cases hmapOver : parseBindingDict s.mapOver with
    | some mapOver => rfl
    | none =>
      rw [SpecStep.getMapConfig, hmapOver] at h
      cases h
  have hsome := isSome_of_mapM hparse he
  rwa [Option.isSome_map] at hsome

/-- **A validated pipeline** has the steps of its handler inputs and of `reads_from`, and bindings that parse. -/
theorem checked_of_validate (h : validate steps = []) (hs : s ∈ steps) :
    s.Checked steps := by
  simp only [validate, List.append_eq_nil_iff] at h
  obtain ⟨⟨⟨⟨⟨⟨-, horder⟩, -⟩, -⟩, hmaps⟩, -⟩, -⟩ := h
  obtain ⟨before, hbefore, hinputs, hreads⟩ := order_of_stepOrder horder hs
  rw [List.nil_append] at hbefore
  refine ⟨fun e he ref href => ?_, fun ref href => ?_, fun e he => ?_⟩
  · have hnone := List.filterMap_eq_nil_iff.1 hinputs e he
    rw [inputOrder, href, Option.bind_some] at hnone
    split_ifs at hnone with hseen
    exact hbefore (List.contains_iff_mem.1 hseen)
  · have hnone := List.filterMap_eq_nil_iff.1 hreads ref href
    rw [readOrder] at hnone
    split_ifs at hnone with hseen
    exact hbefore (List.contains_iff_mem.1 hseen)
  · cases hmap : s.isMapStep with
    | false =>
      rw [s.unmapped hmap] at he
      cases he
    | true =>
      have hnil := List.flatMap_eq_nil_iff.1 hmaps s (List.mem_filter.2 ⟨hs, hmap⟩)
      cases hconfig : s.getMapConfig with
      | none =>
        rw [mapStepErrors, hconfig] at hnil
        cases hnil
      | some config => exact parses_of_getMapConfig (by rw [hconfig]; rfl) he

theorem mem_declaredNodes {a b : String} (h : b ∈ declaredDependencies steps a) :
    a ∈ stepNames steps ∧ b ∈ declaredNodes steps := by
  unfold declaredDependencies at h
  cases hfind : steps.reverse.find? fun s => s.name == a with
  | none =>
    rw [hfind] at h
    cases h
  | some s =>
    rw [hfind, Option.map_some, Option.getD_some] at h
    have hs : s ∈ steps := List.mem_reverse.1 (List.mem_of_find?_eq_some hfind)
    have hname := List.find?_some hfind
    rw [beq_iff_eq] at hname
    exact ⟨hname ▸ List.mem_map_of_mem hs, List.mem_append_right _ (List.mem_flatMap.2 ⟨s, hs, h⟩)⟩

/-- The check for cycles is one of the declared dependencies. -/
theorem validateCircularDependencies_eq_nil_iff {steps : List SpecStep} : validateCircularDependencies steps = [] ↔
    ∀ a, ¬ Relation.TransGen (DepthFirst.Edge (declaredDependencies steps)) a a := by
  rw [validateCircularDependencies, List.filterMap_eq_nil_iff]
  constructor
  · intro h a hcycle
    obtain ⟨b, hab, -⟩ := Relation.TransGen.head'_iff.1 hcycle
    have ha := h a (mem_declaredNodes hab).1
    unfold circularDependency at ha
    split at ha
    · cases ha
    · rename_i finished hsearch
      exact DepthFirst.not_cycle_of_search hsearch hcycle
  · intro h a ha
    unfold circularDependency
    split
    · rename_i path v hsearch
      obtain ⟨b, hcycle⟩ := DepthFirst.exists_cycle_of_search (fun a _ b hab => (mem_declaredNodes hab).2)
        (List.mem_append_left _ ha) hsearch
      exact absurd hcycle (h b)
    · rfl

end LlmGateway.Pipeline
