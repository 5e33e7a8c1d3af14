import LlmGateway.Foundations.Fallible
import LlmGateway.Pipeline.DagExecutor
import LlmGateway.Pipeline.SubPipelines
import LlmGateway.Pipeline.Validation

/-!
# The builder of the DAG

`DAGBuilder.build` makes a node of every step, with the dependencies that `computed_depends_on` derives, and refuses
dependencies and inputs that are no steps, and cycles. It is modelled behind its pre-pass, which leaves a pipeline
without sub-pipelines as it is.

The checks of a pipeline see fewer references than the builder: a validated pipeline is built if and only if the
references that only the builder derives name steps as well, and all of them together make no cycle
(`build_isOk_iff`).
-/

namespace LlmGateway.Pipeline

variable (K : Extraction)

/-! ## The builder -/

structure StepNode where
  step : SpecStep
  state : StepState
  dependencies : List String
  dependents : List String

/-- What `build` raises. -/
inductive BuildError where
  /-- A binding in `map_over` that cannot be parsed. -/
  | binding (step text : String)
  | unknownDependency (step dep : String)
  | invalidInput (step input : String)
  | cycle (path : List String)
  deriving DecidableEq

/-- The binding of which `computed_depends_on` raises. -/
def SpecStep.badBinding (s : SpecStep) : Option String :=
  (s.mapOver.items.find? fun e => (InputBinding.parse e.2).isNone).map Prod.snd

/-- The node of a step. -/
def SpecStep.node (s : SpecStep) : StepNode := ⟨s, .pending, s.computedDependsOn K, []⟩

/-- The node of a step, beside others. -/
def addNode (nodes : Dict String StepNode) (s : SpecStep) : Except BuildError (Dict String StepNode) :=
  match s.badBinding with
  | some text => .error (.binding s.name text)
  | none => .ok (nodes.set s.name (s.node K))

/-- The nodes, one step after another. -/
def createNodes (steps : List SpecStep) : Except BuildError (Dict String StepNode) := steps.foldlM (addNode K) ∅

/-- A dependency that is no step. -/
def unknownDependency (nodes : Dict String StepNode) : Option BuildError :=
  nodes.items.findSome? fun e =>
    (e.2.dependencies.find? fun dep => !nodes.contains dep).map fun dep => .unknownDependency e.1 dep

/-- `_validate_inputs_refs`. -/
def invalidInput (nodes : Dict String StepNode) : Option BuildError :=
  nodes.items.findSome? fun e =>
    ((e.2.step.inputs.getD []).find? fun input => !nodes.contains input).map fun input => .invalidInput e.1 input

/-- The steps that depend on a step. -/
def dependentsOf (nodes : Dict String StepNode) (id : String) : List String :=
  (nodes.items.filter fun e => e.2.dependencies.contains id).map Prod.fst

/-- `_detect_cycles`. -/
def detectCycle (nodes : Dict String StepNode) : Option BuildError :=
  match DepthFirst.searchAll (dependentsOf nodes) (nodes.items.map Prod.fst) with
  | .error (path, v) => some (.cycle ((path.reverse.dropWhile fun u => u != v) ++ [v]))
  | .ok _ => none

/-- An optional error, raised when present. -/
def refuse : Option BuildError → Except BuildError Unit
  | some e => .error e
  | none => .ok ()

/-- The node with its dependents, ready when it depends on nothing. -/
def finishNode (nodes : Dict String StepNode) (id : String) (n : StepNode) : StepNode :=
  { n with
    state := if n.dependencies.isEmpty then .ready else n.state
    dependents := dependentsOf nodes id }

def build (steps : List SpecStep) : Except BuildError (Dict String StepNode) := do
  let nodes ← createNodes K steps
  refuse (unknownDependency nodes)
  refuse (invalidInput nodes)
  refuse (detectCycle nodes)
  .ok (nodes.mapVal (finishNode nodes))

/-! ## Nodes -/

theorem refuse_eq_ok {o : Option BuildError} {u : Unit} : refuse o = .ok u ↔ o = none := by
  cases o with
  | none => simp [refuse]
  | some e => simp [refuse]

variable {s : SpecStep} {steps : List SpecStep} {nodes : Dict String StepNode} {dep id : String}
  {r : Reference}

theorem badBinding_eq_none :
    s.badBinding = none ↔ ∀ e ∈ s.mapOver.items, (InputBinding.parse e.2).isSome = true := by
  rw [SpecStep.badBinding, Option.map_eq_none_iff, List.find?_eq_none]
  refine forall₂_congr fun e _ => ?_
  rw [Option.isNone_iff_eq_none, ← Ne, Option.ne_none_iff_isSome]

variable {K}

theorem foldlM_addNode_eq_ok {d d' : Dict String StepNode}
    (hnames : (d.items.map Prod.fst ++ stepNames steps).Nodup) : steps.foldlM (addNode K) d = .ok d' ↔
      (∀ s ∈ steps, s.badBinding = none) ∧ d'.items = d.items ++ steps.map fun s => (s.name, s.node K) := by
  induction steps generalizing d with
  | nil =>
    rw [List.foldlM_nil, List.map_nil, List.append_nil]
    constructor
    · intro h
      exact ⟨nofun, congrArg Dict.items (Except.ok.inj h).symm⟩
    · rintro ⟨-, h⟩
      exact congrArg Except.ok (Dict.ext_items h).symm
  | cons s steps ih =>
    rw [List.foldlM_cons, addNode]
    cases hbad : s.badBinding with
    | some text =>
      constructor
      · intro h
        cases h
      · rintro ⟨hall, -⟩
        rw [hall s List.mem_cons_self] at hbad
        cases hbad
    | none =>
      have hs : s.name ∉ d.items.map Prod.fst := by
        intro hs
        exact (List.nodup_append.1 hnames).2.2 s.name hs s.name List.mem_cons_self rfl
      have hset : (d.set s.name (s.node K)).items = d.items ++ [(s.name, s.node K)] := Dict.items_set_of_not_mem hs _
      have hnames' : ((d.set s.name (s.node K)).items.map Prod.fst ++ stepNames steps).Nodup := by
        rw [hset, List.map_append, List.append_assoc]
        exact hnames
      rw [ok_bind, ih hnames', hset, List.forall_mem_cons, List.append_assoc]
      simp [hbad]

theorem createNodes_eq_ok (hnames : (stepNames steps).Nodup) :
    createNodes K steps = .ok nodes ↔
      (∀ s ∈ steps, s.badBinding = none) ∧ nodes.items = steps.map fun s => (s.name, s.node K) :=
  foldlM_addNode_eq_ok hnames

/-- The nodes of these steps. -/
def IsNodes (K : Extraction) (steps : List SpecStep) (nodes : Dict String StepNode) : Prop :=
  nodes.items = steps.map fun s => (s.name, s.node K)

theorem IsNodes.keys (h : IsNodes K steps nodes) :
    nodes.items.map Prod.fst = stepNames steps := by
  rw [h, List.map_map]
  rfl

theorem IsNodes.contains_iff (h : IsNodes K steps nodes)
    : nodes.contains id = true ↔ id ∈ stepNames steps := by
  rw [Dict.contains_iff, ← h.keys, List.mem_map]
  constructor
  · rintro ⟨n, hn⟩
    exact ⟨(id, n), Dict.mem_items_iff.2 hn, rfl⟩
  · rintro ⟨⟨_, n⟩, hn, rfl⟩
    exact ⟨n, Dict.mem_items_iff.1 hn⟩

/-! ## Dependencies -/

/-- A step of this name derives the dependency. -/
def Depends (K : Extraction) (steps : List SpecStep) (id dep : String) : Prop :=
  ∃ s ∈ steps, s.name = id ∧ dep ∈ s.computedDependsOn K

theorem IsNodes.edge_iff (h : IsNodes K steps nodes)
    : DepthFirst.Edge (dependentsOf nodes) dep id ↔ Depends K steps id dep := by
  simp only [DepthFirst.Edge, dependentsOf, List.mem_map, List.mem_filter, List.contains_iff_mem, Depends]
  constructor
  · rintro ⟨e, ⟨he, hdep⟩, rfl⟩
    rw [h] at he
    obtain ⟨s, hs, rfl⟩ := List.mem_map.1 he
    exact ⟨s, hs, rfl, hdep⟩
  · rintro ⟨s, hs, rfl, hdep⟩
    exact ⟨(s.name, s.node K), ⟨by rw [h]; exact List.mem_map_of_mem hs, hdep⟩, rfl⟩

theorem IsNodes.unknownDependency_eq_none (h : IsNodes K steps nodes) : unknownDependency nodes = none ↔
      ∀ s ∈ steps, ∀ dep ∈ s.computedDependsOn K, dep ∈ stepNames steps := by
  rw [unknownDependency, List.findSome?_eq_none_iff, h, List.forall_mem_map]
  refine forall₂_congr fun s _ => ?_
  rw [Option.map_eq_none_iff, List.find?_eq_none]
  refine forall₂_congr fun dep _ => ?_
  rw [Bool.not_eq_true', Bool.not_eq_false, h.contains_iff]

theorem IsNodes.invalidInput_eq_none (h : IsNodes K steps nodes) : invalidInput nodes = none ↔
      ∀ s ∈ steps, ∀ input ∈ s.inputs.getD [], input ∈ stepNames steps := by
  rw [invalidInput, List.findSome?_eq_none_iff, h, List.forall_mem_map]
  refine forall₂_congr fun s _ => ?_
  rw [Option.map_eq_none_iff, List.find?_eq_none]
  refine forall₂_congr fun input _ => ?_
  rw [Bool.not_eq_true', Bool.not_eq_false, h.contains_iff]

theorem IsNodes.detectCycle_eq_none (h : IsNodes K steps nodes) : detectCycle nodes = none ↔
      ∀ id, ¬ Relation.TransGen (Depends K steps) id id := by
  have hedge : DepthFirst.Edge (dependentsOf nodes) = Function.swap (Depends K steps) := by
    funext dep id
    exact propext h.edge_iff
  have hclosed : ∀ a ∈ nodes.items.map Prod.fst, ∀ b ∈ dependentsOf nodes a, b ∈ nodes.items.map Prod.fst := by
    intro a _ b hb
    obtain ⟨e, he, rfl⟩ := List.mem_map.1 hb
    exact List.mem_map_of_mem (List.mem_filter.1 he).1
  have hsearch := DepthFirst.searchAll_isOk_iff hclosed
  rw [hedge, h.keys] at hsearch
  have hall : (∀ a ∈ stepNames steps, ¬ Relation.TransGen (Function.swap (Depends K steps)) a a) ↔
      ∀ id, ¬ Relation.TransGen (Depends K steps) id id := by
    constructor
    · intro hacyclic id hcycle
      obtain ⟨dep, ⟨s, hs, rfl, -⟩, -⟩ := Relation.TransGen.head'_iff.1 hcycle
      exact hacyclic s.name (List.mem_map_of_mem hs) (Relation.transGen_swap.2 hcycle)
    · intro hacyclic a _ hcycle
      exact hacyclic a (Relation.transGen_swap.1 hcycle)
  rw [← hall, ← hsearch, detectCycle, h.keys]
  cases DepthFirst.searchAll (dependentsOf nodes) (stepNames steps) with
  | error e => simp
  | ok finished => simp

/-! ## What the checks leave to the builder -/

/-- The references that the checks of a pipeline do not see. -/
def Place.unchecked : Place → Bool
  | .handlerInput _ | .readsFrom => false
  | _ => true

/-- What the builder asks for besides the checks: bindings of maps, conditions, fields and inputs name steps, and no
step comes before itself by its dependencies. -/
structure Buildable (K : Extraction) (steps : List SpecStep) : Prop where
  known : ∀ s ∈ steps, ∀ r ∈ s.references K, r.1.unchecked = true → ∀ dep, edgeOf r = some dep → dep ∈ stepNames steps
  inputs : ∀ s ∈ steps, ∀ input ∈ s.inputs.getD [], input ∈ stepNames steps
  acyclic : ∀ id, ¬ Relation.TransGen (Depends K steps) id id

theorem build_eq_ok {built : Dict String StepNode} : build K steps = .ok built ↔
    ∃ nodes, createNodes K steps = .ok nodes ∧ unknownDependency nodes = none ∧ invalidInput nodes = none ∧
      detectCycle nodes = none ∧ built = nodes.mapVal (finishNode nodes) := by
  simp only [build, bind_eq_ok, refuse_eq_ok, Except.ok.injEq]
  constructor
  · rintro ⟨nodes, hnodes, -, hknown, -, hinputs, -, hcycle, rfl⟩
    exact ⟨nodes, hnodes, hknown, hinputs, hcycle, rfl⟩
  · rintro ⟨nodes, hnodes, hknown, hinputs, hcycle, rfl⟩
    exact ⟨nodes, hnodes, (), hknown, (), hinputs, (), hcycle, rfl⟩

theorem unchecked_of_bindingReferences {place : String → Place} (hplace : ∀ key, (place key).unchecked = true)
    {bindings : Dict String String} (hr : r ∈ bindingReferences place bindings) :
    r.1.unchecked = true := by
  obtain ⟨e, -, he⟩ := List.mem_filterMap.1 hr
  obtain ⟨b, -, rfl⟩ := Option.map_eq_some_iff.1 he
  exact hplace e.1

theorem unchecked_of_fieldReferences {place : String → Place} (hplace : ∀ key, (place key).unchecked = true)
    {fields : List (String × Json)} (hr : r ∈ fieldReferences place fields) :
    r.1.unchecked = true := by
  obtain ⟨e, -, he⟩ := List.mem_filterMap.1 hr
  split_ifs at he
  obtain ⟨name, -, rfl⟩ := Option.map_eq_some_iff.1 he
  exact hplace e.1

theorem unchecked_of_dependencyReferences {extras : Dict String Json} {field : String}
    (hr : r ∈ dependencyReferences extras field) : r.1.unchecked = true := by
  unfold dependencyReferences at hr
  split at hr
  · obtain ⟨name, -, rfl⟩ := List.mem_map.1 hr
    rfl
  · cases hr

theorem readsFrom_of_otherReferences {s : StepConfig} (hr : r ∈ s.otherReferences K)
    (hplace : r.1.unchecked = false) : ∃ name ∈ s.readsFrom, r = (.readsFrom, .ofName name) := by
  have hseen : ¬ r.1.unchecked = true := by rw [hplace]; exact Bool.false_ne_true
  unfold StepConfig.otherReferences at hr
  simp only [List.mem_append] at hr
  obtain (((((hr | hr) | hr) | hr) | hr) | hr) | hr := hr
  · obtain ⟨name, hname, rfl⟩ := List.mem_map.1 hr
    exact ⟨name, hname, rfl⟩
  · exact absurd (unchecked_of_bindingReferences (fun _ => rfl) hr) hseen
  · exact absurd (unchecked_of_bindingReferences (fun _ => rfl) hr) hseen
  · exact absurd (unchecked_of_fieldReferences (fun _ => rfl) hr) hseen
  · exact absurd (unchecked_of_fieldReferences (fun _ => rfl) hr) hseen
  · obtain ⟨name, -, rfl⟩ := List.mem_map.1 hr
    exact absurd rfl hseen
  · obtain ⟨field, -, hr⟩ := List.mem_flatMap.1 hr
    exact absurd (unchecked_of_dependencyReferences hr) hseen

theorem SpecStep.Checked.known (h : s.Checked steps)
    (hr : r ∈ s.references K) (hplace : r.1.unchecked = false) (hdep : edgeOf r = some dep) :
    dep ∈ stepNames steps := by
  obtain hr | hr := List.mem_append.1 hr
  · obtain ⟨e, he, rfl⟩ := List.mem_map.1 hr
    exact h.inputs e he dep hdep
  · obtain ⟨name, hname, rfl⟩ := readsFrom_of_otherReferences hr hplace
    obtain rfl := Option.some.inj hdep
    exact h.reads name hname

theorem Buildable.depends (h : Buildable K steps) (hvalid : validate steps = [])
    (hs : s ∈ steps) (hdep : dep ∈ s.computedDependsOn K) : dep ∈ stepNames steps := by
  obtain ⟨r, hr, hedge⟩ := List.mem_filterMap.1 hdep
  cases hplace : r.1.unchecked with
  | true => exact h.known s hs r hr hplace dep hedge
  | false => exact (checked_of_validate hvalid hs).known hr hplace hedge

/-- **A validated pipeline is built** if and only if its other references name steps too and make no cycle. -/
theorem build_isOk_iff {steps : List SpecStep} (hnames : (stepNames steps).Nodup) (hvalid : validate steps = []) :
    (∃ built, build K steps = .ok built) ↔ Buildable K steps := by
  simp only [build_eq_ok]
  constructor
  · rintro ⟨-, nodes, hcreate, hknown, hinputs, hcycle, -⟩
    have hnodes : IsNodes K steps nodes := ((createNodes_eq_ok hnames).1 hcreate).2
    refine ⟨fun s hs r hr _ dep hdep => ?_, hnodes.invalidInput_eq_none.1 hinputs, hnodes.detectCycle_eq_none.1 hcycle⟩
    exact hnodes.unknownDependency_eq_none.1 hknown s hs dep (List.mem_filterMap.2 ⟨r, hr, hdep⟩)
  · intro h
    have hbad : ∀ s ∈ steps, s.badBinding = none := fun s hs =>
      badBinding_eq_none.2 (checked_of_validate hvalid hs).parses
    let nodes : Dict String StepNode := ⟨steps.map fun s => (s.name, s.node K), by rwa [List.map_map]⟩
    have hnodes : IsNodes K steps nodes := rfl
    exact ⟨_, nodes, (createNodes_eq_ok hnames).2 ⟨hbad, rfl⟩,
      hnodes.unknownDependency_eq_none.2 fun s hs dep hdep => h.depends hvalid hs hdep,
      hnodes.invalidInput_eq_none.2 h.inputs, hnodes.detectCycle_eq_none.2 h.acyclic, rfl⟩

/-! ## The DAG that is executed -/

/-- A step with its name, as the executor reads it. -/
def SpecStep.spec (K : Extraction) (target : String → Option String) (s : SpecStep) : String × StepSpec :=
  (s.name, ⟨s.computedDependsOn K, s.subPipelineStep, target s.name⟩)

theorem nodup_specs (hnames : (stepNames steps).Nodup) (target : String → Option String) :
    ((steps.map (SpecStep.spec K target)).map Prod.fst).Nodup := by
  rwa [List.map_map]

/-- The steps as the executor reads them. -/
def specs (K : Extraction) (target : String → Option String) (steps : List SpecStep)
    (hnames : (stepNames steps).Nodup) : Dict String StepSpec :=
  ⟨steps.map (SpecStep.spec K target), nodup_specs hnames target⟩

theorem mem_dependenciesOf_specs (hnames : (stepNames steps).Nodup) {target : String → Option String} :
    dep ∈ dependenciesOf (specs K target steps hnames) id ↔ Depends K steps id dep := by
  unfold dependenciesOf
  constructor
  · intro hdep
    cases hget : (specs K target steps hnames).get? id with
    | none =>
      rw [hget] at hdep
      cases hdep
    | some n =>
      rw [hget] at hdep
      obtain ⟨s, hs, heq⟩ := List.mem_map.1 (Dict.mem_items_iff.2 hget)
      obtain ⟨rfl, rfl⟩ := Prod.mk.inj heq
      exact ⟨s, hs, rfl, hdep⟩
  · rintro ⟨s, hs, rfl, hdep⟩
    have hitem : s.spec K target ∈ (specs K target steps hnames).items := List.mem_map_of_mem hs
    rw [Dict.mem_items_iff.1 hitem]
    exact hdep

theorem contains_specs (hnames : (stepNames steps).Nodup) {target : String → Option String}
    (hid : id ∈ stepNames steps) : (specs K target steps hnames).contains id = true := by
  obtain ⟨s, hs, rfl⟩ := List.mem_map.1 hid
  have hitem : s.spec K target ∈ (specs K target steps hnames).items := List.mem_map_of_mem hs
  exact Dict.contains_iff.2 ⟨_, Dict.mem_items_iff.1 hitem⟩

theorem known_specs (hnames : (stepNames steps).Nodup) (hvalid : validate steps = [])
    (h : Buildable K steps) (target : String → Option String) (id dep : String)
    (hdep : dep ∈ dependenciesOf (specs K target steps hnames) id) :
    (specs K target steps hnames).contains dep = true := by
  obtain ⟨s, hs, -, hdep⟩ := (mem_dependenciesOf_specs hnames).1 hdep
  exact contains_specs hnames (h.depends hvalid hs hdep)

theorem acyclic_specs (hnames : (stepNames steps).Nodup) (h : Buildable K steps)
    (target : String → Option String) (id : String) :
    ¬ Relation.TransGen (fun x dep => dep ∈ dependenciesOf (specs K target steps hnames) x) id id := by
  simp only [mem_dependenciesOf_specs]
  exact h.acyclic id

/-- The DAG of a pipeline that is built. -/
def dagOf (K : Extraction) (target : String → Option String) {steps : List SpecStep}
    (hnames : (stepNames steps).Nodup) (hvalid : validate steps = []) (h : Buildable K steps) : Dag :=
  ⟨specs K target steps hnames, known_specs hnames hvalid h target, acyclic_specs hnames h target⟩

/-! ## Two pipelines -/

theorem plain_readsFrom : ([] : List String) = ([] : List ReadsFrom).map ReadsFrom.step := rfl

theorem plain_declared : ([] : List String) = (∅ : Dict String OutputDeclaration).items.map Prod.fst := rfl

theorem plain_unmapped : false = false → (∅ : Dict String String) = ∅ := fun _ => rfl

/-- A step with handler inputs and fields of its domain. -/
def plainStep (name : String) (inputs : Dict String InputBinding) (extras : Dict String Json) : SpecStep where
  name := name
  type := "generate"
  handlerInputs := inputs
  outputDeclarations := []
  readsFrom := []
  condition := none
  mapOver := ∅
  mapInputs := ∅
  extras := extras
  subPipelineStep := false
  handlerOutputs := ∅
  declarations := ∅
  reads := []
  dependsOn := []
  inputs := none
  isMapStep := false
  modelPool := none
  modelRef := none
  modelRequirements := false
  avoidModelsFrom := none
  mapRefused := false
  readsFrom_eq := plain_readsFrom
  declared := plain_declared
  unmapped := plain_unmapped

/-- A step, and one that takes its output. -/
def splitJoin : List SpecStep :=
  [plainStep "split" ∅ ∅,
    plainStep "join" ((∅ : Dict String InputBinding).set "items" ⟨"step", some "split", "json.items", none⟩) ∅]

/-- A step with a field that names no step. -/
def ghostSource : List SpecStep := [plainStep "judge" ∅ ((∅ : Dict String Json).set "source_step" (.str "ghost"))]

/-- The pipeline of two steps is built. -/
theorem splitJoin_buildable : Buildable noNames splitJoin :=
  (build_isOk_iff (by decide) (by decide)).1 (exists_ok_of_isOk rfl)

/-- A pipeline without errors that is not built. -/
theorem ghostSource_unbuilt : (stepNames ghostSource).Nodup ∧ validate ghostSource = [] ∧
    build noNames ghostSource = .error (.unknownDependency "judge" "ghost") := ⟨by decide, by decide, rfl⟩

end LlmGateway.Pipeline
