import LlmGateway.Pipeline.DagBuilder
import LlmGateway.Pipeline.DagSafety
import LlmGateway.Pipeline.Resolver
import Mathlib.Data.Fintype.EquivFin

/-!
# What a step reads, and what it depends on

A step reads the outputs of other steps in its condition, in the bindings of its inputs and of its map, in the binding of
the models that it avoids and in the fields that name steps. `computed_depends_on` derives dependencies from some of these
places: a step depends on all that it may read if and only if the others name nothing else (`derived_covers_iff`), and
then all that it may read is done when it runs (`reads_done`).
-/

namespace LlmGateway.Pipeline

/-! ## Conditions -/

/-- Expressions of conditions as Python reads them. -/
structure Expressions where
  /-- The names in an expression (`ast.parse`), unless there is a syntax error. -/
  names : String → Option (List String)
  /-- The names that `eval` may look up in its context. It drops blanks in front of the text, which `ast.parse` refuses. -/
  lookups : String → List String
  lookups_subset : ∀ text l, names text = some l → lookups text ⊆ l

variable (E : Expressions)

/-- The names in `ConditionEvaluator.SAFE_BUILTINS`, and `options`. -/
def excludedNames : List String :=
  ["len", "bool", "str", "int", "float", "abs", "min", "max", "sum", "any", "all", "True", "False", "None", "options"]

def knownConditionNames : List String := ["scope_scoped", "chunks_present", "catalog_unavailable"]

/-- The condition is evaluated as an expression. -/
def isExpression (condition : String) : Bool :=
  Json.strip condition != "" && !knownConditionNames.contains (Json.strip condition)

def extractConditionDeps (condition : String) : List String :=
  if isExpression condition then ((E.names condition).getD []).filter fun name => !excludedNames.contains name else []

/-- The names of steps for which the evaluation of a condition may ask: the outputs stand in the context above all else. -/
def conditionReads (condition : String) : List String := if isExpression condition then E.lookups condition else []

/-- The condition goes through the outputs of all steps. -/
def chunksPresent (condition : String) : Bool := Json.strip condition == "chunks_present"

/-- What the derivation of dependencies uses, for the fields that handlers declare. -/
def Expressions.extraction (fields : String → List String) : Extraction := ⟨extractConditionDeps E, fields⟩

/-! ## The reads of a step -/

/-- The step is not switched off. -/
def StepConfig.enabled (s : StepConfig) : Bool := (s.extras.get? "enabled").elim true Json.truthy

/-- The configuration of a map that runs: over one field. -/
def SpecStep.runningMap (s : SpecStep) : Option MapConfig := s.getMapConfig.filter fun config => config.mapOver.length == 1

/-- The model may be selected by `model_requirements`: by its reference, or by that of an iteration. -/
def SpecStep.mayBeAuto (s : SpecStep) : Bool :=
  s.modelRef == some "auto" || (s.modelRef.getD "" == "" && s.modelRequirements) ||
    s.runningMap.any fun config => config.modelPool.isSome ||
      config.mapInputs.any fun e => e.1 == "model_ref" || e.1 == "model_requirements"

/-- The binding of `_resolve_avoid_models`. -/
def avoidBinding (path : String) : InputBinding :=
  ⟨"step", some (splitDot path).1, (splitDot path).2.getD "model_id", none⟩

/-- The binding of `avoid_models_from`, where `resolve_primary_model` resolves it. -/
def SpecStep.avoided (s : SpecStep) : Option InputBinding :=
  if s.type = "generate" ∧ (s.extras.get? "honor_options_model").elim false Json.truthy = false ∧ s.mayBeAuto = true then
    (s.avoidModelsFrom.filter (· ≠ "")).map avoidBinding
  else none

/-- The bindings that the derivation of dependencies knows, and whether there is an iteration when they are resolved. -/
def SpecStep.listedBindings (s : SpecStep) : List (Bool × InputBinding) :=
  s.handlerInputs.items.map (fun e => (s.runningMap.isSome, e.2)) ++
    s.runningMap.toList.flatMap fun config => config.mapOver.map fun e => (false, e.2)

/-- The other bindings that are resolved: the models of a map, its inputs, and the models that are avoided. -/
def SpecStep.otherBindings (s : SpecStep) : List (Bool × InputBinding) :=
  (s.runningMap.toList.flatMap fun config =>
    config.modelPool.toList.map (fun b => (false, b)) ++ config.mapInputs.map fun e => (true, e.2)) ++
      s.avoided.toList.map fun b => (false, b)

variable (fields : String → List String)

/-- The fields that name steps. -/
def StepConfig.directReferences (s : StepConfig) : List Reference :=
  fieldReferences .field s.extras.items ++ fieldReferences .configField (configFields s.extras) ++
    (fields s.type).flatMap (dependencyReferences s.extras)

/-- The steps whose outputs the handler takes from the context by their names. -/
def StepConfig.directReads (s : StepConfig) : List String :=
  s.readsFrom ++ (s.directReferences fields).filterMap fun r => r.2.step?

/-- The steps that the step names where it reads. -/
def SpecStep.namedReads (s : SpecStep) : List String :=
  s.condition.toList.flatMap (conditionReads E) ++ (s.listedBindings ++ s.otherBindings).flatMap (fun b => b.2.reads b.1) ++
    s.directReads fields

/-- The execution of the step may ask for the output of a step of this name. -/
def SpecStep.MayRead (s : SpecStep) (name : String) : Prop :=
  s.enabled = true ∧ (name ∈ s.namedReads E fields ∨ s.condition.any chunksPresent = true)

/-! ## The names that make dependencies -/

/-- A field that the derivation of dependencies reads names the step. -/
inductive SpecStep.Names (s : SpecStep) (name : String) : Prop where
  | input (e : String × InputBinding) (he : e ∈ s.handlerInputs.items) (hstep : e.2.target.step? = some name)
      (hname : name ≠ "")
  | mapOver (e : String × String) (b : InputBinding) (he : e ∈ s.mapOver.items) (hb : InputBinding.parse e.2 = some b)
      (hstep : b.target.step? = some name) (hname : name ≠ "")
  | condition (text : String) (names : List String) (htext : s.condition = some text)
      (hexpression : isExpression text = true) (hnames : E.names text = some names) (hmem : name ∈ names)
      (hfree : name ∉ excludedNames)
  | direct (h : name ∈ s.directReads fields)

variable {E fields}

variable {name : String} {r : Reference} {s : SpecStep}

theorem filter_ne_empty {o : Option String} :
    o.filter (· ≠ "") = some name ↔ o = some name ∧ name ≠ "" := by
  rw [Option.filter_eq_some_iff, decide_eq_true_iff]

theorem edgeOf_fieldReferences {place : String → Place} (hplace : ∀ key t, edgeOf (place key, t) = t.step?)
    {l : List (String × Json)} (hr : r ∈ fieldReferences place l) : edgeOf r = r.2.step? := by
  obtain ⟨e, -, he⟩ := List.mem_filterMap.1 hr
  split_ifs at he
  obtain ⟨name, -, rfl⟩ := Option.map_eq_some_iff.1 he
  exact hplace e.1 _

theorem edgeOf_dependencyReferences {extras : Dict String Json} {field : String}
    (hr : r ∈ dependencyReferences extras field) : edgeOf r = r.2.step? := by
  unfold dependencyReferences at hr
  split at hr
  · obtain ⟨name, -, rfl⟩ := List.mem_map.1 hr
    rfl
  · cases hr

theorem edgeOf_directReferences {s : StepConfig} (hr : r ∈ s.directReferences fields) :
    edgeOf r = r.2.step? := by
  obtain hr | hr := List.mem_append.1 hr
  · obtain hr | hr := List.mem_append.1 hr
    · exact edgeOf_fieldReferences (fun _ _ => rfl) hr
    · exact edgeOf_fieldReferences (fun _ _ => rfl) hr
  · obtain ⟨field, -, hr⟩ := List.mem_flatMap.1 hr
    exact edgeOf_dependencyReferences hr

theorem mem_references_iff {s : StepConfig} {K : Extraction} : r ∈ s.references K ↔
    (∃ e ∈ s.handlerInputs.items, (.handlerInput e.1, e.2.target) = r) ∨ r ∈ bindingReferences .mapOver s.mapOver ∨
      r ∈ bindingReferences .mapInput s.mapInputs ∨
      (∃ name ∈ s.condition.toList.flatMap K.conditionDeps, (.condition, .ofName name) = r) ∨
      (∃ name ∈ s.readsFrom, (.readsFrom, .ofName name) = r) ∨ r ∈ s.directReferences K.dependencyFields := by
  simp only [StepConfig.references, StepConfig.otherReferences, StepConfig.directReferences, List.mem_append,
    List.mem_map]
  apply iff_of_eq
  ac_rfl

/-- **The derived dependencies** are what the fields that the derivation reads name. -/
theorem mem_computedDependsOn_iff :
    name ∈ s.computedDependsOn (E.extraction fields) ↔ s.Names E fields name := by
  rw [StepConfig.computedDependsOn, List.mem_filterMap]
  constructor
  · rintro ⟨r, hr, hedge⟩
    obtain ⟨e, he, rfl⟩ | hr | hr | ⟨name', hname', rfl⟩ | ⟨name', hname', rfl⟩ | hr := mem_references_iff.1 hr
    · obtain ⟨hstep, hname⟩ := filter_ne_empty.1 hedge
      exact .input e he hstep hname
    · obtain ⟨e, he, hb⟩ := List.mem_filterMap.1 hr
      obtain ⟨b, hparse, rfl⟩ := Option.map_eq_some_iff.1 hb
      obtain ⟨hstep, hname⟩ := filter_ne_empty.1 hedge
      exact .mapOver e b he hparse hstep hname
    · obtain ⟨e, -, hb⟩ := List.mem_filterMap.1 hr
      obtain ⟨b, -, rfl⟩ := Option.map_eq_some_iff.1 hb
      cases hedge
    · obtain rfl := Option.some.inj hedge
      obtain ⟨text, htext, hname⟩ := List.mem_flatMap.1 hname'
      have hdeps : name' ∈ extractConditionDeps E text := hname
      unfold extractConditionDeps at hdeps
      split_ifs at hdeps with hexpression
      · obtain ⟨hmem, hfree⟩ := List.mem_filter.1 hdeps
        cases hnames : E.names text with
        | none =>
          rw [hnames] at hmem
          cases hmem
        | some names =>
          rw [hnames] at hmem
          refine .condition text names (Option.mem_toList.1 htext) hexpression hnames hmem fun hex => ?_
          rw [List.contains_iff_mem.2 hex] at hfree
          cases hfree
      · cases hdeps
    · obtain rfl := Option.some.inj hedge
      exact .direct (List.mem_append_left _ hname')
    · rw [edgeOf_directReferences hr] at hedge
      exact .direct (List.mem_append_right _ (List.mem_filterMap.2 ⟨r, hr, hedge⟩))
  · intro h
    cases h with
    | input e he hstep hname =>
      exact ⟨_, mem_references_iff.2 (.inl ⟨e, he, rfl⟩), filter_ne_empty.2 ⟨hstep, hname⟩⟩
    | mapOver e b he hb hstep hname =>
      refine ⟨(.mapOver e.1, b.target), mem_references_iff.2 (.inr (.inl ?_)), filter_ne_empty.2 ⟨hstep, hname⟩⟩
      exact List.mem_filterMap.2 ⟨e, he, by rw [hb]; rfl⟩
    | condition text names htext hexpression hnames hmem hfree =>
      refine ⟨(.condition, .ofName name), mem_references_iff.2 (.inr (.inr (.inr (.inl ⟨name, ?_, rfl⟩)))), rfl⟩
      refine List.mem_flatMap.2 ⟨text, Option.mem_toList.2 htext, ?_⟩
      have hdeps : name ∈ extractConditionDeps E text := by
        rw [extractConditionDeps, if_pos hexpression, hnames]
        exact List.mem_filter.2 ⟨hmem, by simpa using hfree⟩
      exact hdeps
    | direct h =>
      obtain h | h := List.mem_append.1 h
      · exact ⟨_, mem_references_iff.2 (.inr (.inr (.inr (.inr (.inl ⟨name, h, rfl⟩))))), rfl⟩
      · obtain ⟨r, hr, hstep⟩ := List.mem_filterMap.1 h
        refine ⟨r, mem_references_iff.2 (.inr (.inr (.inr (.inr (.inr hr))))), ?_⟩
        rw [edgeOf_directReferences hr, hstep]

/-! ## The names that make none -/

/-- What a binding reads though the derivation knows it: by an empty name, and by keys on its path. -/
def overlookedReads (b : Bool × InputBinding) : List String :=
  (b.2.target.step?.filter (· = "")).toList ++ b.2.keyReads b.1

variable (E)

/-- The names of a condition that the extraction leaves out: in a text that it cannot parse, and those that it excludes. -/
def overlookedNames (condition : String) : List String :=
  (conditionReads E condition).filter fun name => (E.names condition).isNone || excludedNames.contains name

/-- The names in the places that the derivation of dependencies does not read. -/
def SpecStep.overlooked (s : SpecStep) : List String :=
  s.condition.toList.flatMap (overlookedNames E) ++ s.listedBindings.flatMap overlookedReads ++
    s.otherBindings.flatMap fun b => b.2.reads b.1

variable {E}

theorem overlookedReads_subset (b : Bool × InputBinding) : overlookedReads b ⊆ b.2.reads b.1 := by
  intro name hname
  obtain hname | hname := List.mem_append.1 hname
  · have hstep := (Option.filter_eq_some_iff.1 (Option.mem_toList.1 hname)).1
    exact List.mem_append_left _ (Option.mem_toList.2 hstep)
  · exact List.mem_append_right _ hname

theorem overlooked_subset (s : SpecStep) : s.overlooked E ⊆ s.namedReads E fields := by
  intro name hname
  refine List.mem_append_left _ ?_
  obtain hname | hname := List.mem_append.1 hname
  · obtain hname | hname := List.mem_append.1 hname
    · obtain ⟨text, htext, hname⟩ := List.mem_flatMap.1 hname
      exact List.mem_append_left _ (List.mem_flatMap.2 ⟨text, htext, (List.mem_filter.1 hname).1⟩)
    · obtain ⟨b, hb, hname⟩ := List.mem_flatMap.1 hname
      refine List.mem_append_right _ (List.mem_flatMap.2 ⟨b, List.mem_append_left _ hb, ?_⟩)
      exact overlookedReads_subset b hname
  · obtain ⟨b, hb, hname⟩ := List.mem_flatMap.1 hname
    exact List.mem_append_right _ (List.mem_flatMap.2 ⟨b, List.mem_append_right _ hb, hname⟩)

theorem mapOver_of_getMapConfig {config : MapConfig} (h : s.getMapConfig = some config)
    {e : String × InputBinding} (he : e ∈ config.mapOver) :
    ∃ raw ∈ s.mapOver.items, InputBinding.parse raw.2 = some e.2 := by
  unfold SpecStep.getMapConfig at h
  obtain ⟨mapOver, hmapOver, h⟩ := Option.bind_eq_some_iff.1 h
  obtain ⟨mapInputs, -, h⟩ := Option.bind_eq_some_iff.1 h
  obtain ⟨modelPool, -, h⟩ := Option.bind_eq_some_iff.1 h
  split_ifs at h
  obtain rfl := Option.some.inj h
  obtain ⟨raw, hraw, hparse⟩ := exists_of_mapM hmapOver he
  obtain ⟨b, hb, rfl⟩ := Option.map_eq_some_iff.1 hparse
  exact ⟨raw, hraw, hb⟩

theorem names_of_listedBindings {b : Bool × InputBinding} (hb : b ∈ s.listedBindings)
    (hstep : b.2.target.step? = some name) (hname : name ≠ "") : s.Names E fields name := by
  obtain hb | hb := List.mem_append.1 hb
  · obtain ⟨e, he, rfl⟩ := List.mem_map.1 hb
    exact .input e he hstep hname
  · obtain ⟨config, hconfig, hb⟩ := List.mem_flatMap.1 hb
    obtain ⟨e, he, rfl⟩ := List.mem_map.1 hb
    have hget := (Option.filter_eq_some_iff.1 (Option.mem_toList.1 hconfig)).1
    obtain ⟨raw, hraw, hparse⟩ := mapOver_of_getMapConfig hget he
    exact .mapOver raw e.2 hraw hparse hstep hname

theorem names_of_conditionReads {text : String} (htext : s.condition = some text)
    (hread : name ∈ conditionReads E text) (hover : name ∉ overlookedNames E text) : s.Names E fields name := by
  have hleft : ((E.names text).isNone || excludedNames.contains name) = false := by
    rw [← Bool.not_eq_true]
    exact fun hout => hover (List.mem_filter.2 ⟨hread, hout⟩)
  obtain ⟨hsome, hfree⟩ := Bool.or_eq_false_iff.1 hleft
  have hfree : name ∉ excludedNames := fun hex => by
    rw [List.contains_iff_mem.2 hex] at hfree
    cases hfree
  unfold conditionReads at hread
  split_ifs at hread with hexpression
  · cases hnames : E.names text with
    | none =>
      rw [hnames] at hsome
      cases hsome
    | some names => exact .condition text names htext hexpression hnames (E.lookups_subset text names hnames hread) hfree
  · cases hread

theorem names_of_reads {b : Bool × InputBinding} (hb : b ∈ s.listedBindings)
    (hread : name ∈ b.2.reads b.1) (hover : name ∉ overlookedReads b) : s.Names E fields name := by
  obtain hread | hread := List.mem_append.1 hread
  · have hstep := Option.mem_toList.1 hread
    refine names_of_listedBindings hb hstep fun hempty => hover (List.mem_append_left _ ?_)
    exact Option.mem_toList.2 (Option.filter_eq_some_iff.2 ⟨hstep, decide_eq_true hempty⟩)
  · exact absurd (List.mem_append_right _ hread) hover

theorem names_of_namedReads (h : name ∈ s.namedReads E fields) :
    name ∈ s.overlooked E ∨ s.Names E fields name := by
  obtain h | h := List.mem_append.1 h
  · obtain h | h := List.mem_append.1 h
    · obtain ⟨text, htext, hread⟩ := List.mem_flatMap.1 h
      by_cases hover : name ∈ overlookedNames E text
      · exact .inl (List.mem_append_left _ (List.mem_append_left _ (List.mem_flatMap.2 ⟨text, htext, hover⟩)))
      · exact .inr (names_of_conditionReads (Option.mem_toList.1 htext) hread hover)
    · obtain ⟨b, hb, hread⟩ := List.mem_flatMap.1 h
      obtain hb | hb := List.mem_append.1 hb
      · by_cases hover : name ∈ overlookedReads b
        · exact .inl (List.mem_append_left _ (List.mem_append_right _ (List.mem_flatMap.2 ⟨b, hb, hover⟩)))
        · exact .inr (names_of_reads hb hread hover)
      · exact .inl (List.mem_append_right _ (List.mem_flatMap.2 ⟨b, hb, hread⟩))
  · exact .inr (.direct h)

theorem exists_name_not_mem (l : List String) : ∃ name, name ∉ l := by
  obtain ⟨name, hname⟩ := Infinite.exists_notMem_finset l.toFinset
  exact ⟨name, fun hmem => hname (List.mem_toFinset.2 hmem)⟩

/-- What a step may read besides the derived dependencies, it names where they are derived from too. -/
structure SpecStep.Covered (E : Expressions) (fields : String → List String) (s : SpecStep) : Prop where
  condition : s.condition.any chunksPresent = false
  named : ∀ name ∈ s.overlooked E, s.Names E fields name

theorem SpecStep.Covered.depends (h : s.enabled = true → s.Covered E fields)
    (hread : s.MayRead E fields name) : name ∈ s.computedDependsOn (E.extraction fields) := by
  obtain ⟨henabled, hread⟩ := hread
  rw [(h henabled).condition] at hread
  obtain hread | hread := hread
  · obtain hname | hname := names_of_namedReads hread
    · exact mem_computedDependsOn_iff.2 ((h henabled).named name hname)
    · exact mem_computedDependsOn_iff.2 hname
  · cases hread

/-- **What a step may read, it depends on**, if and only if it is switched off, or its condition does not go through all
outputs and the places that the derivation of dependencies does not read name nothing else. -/
theorem derived_covers_iff (E : Expressions) (fields : String → List String) (s : SpecStep) :
    (∀ name, s.MayRead E fields name → name ∈ s.computedDependsOn (E.extraction fields)) ↔
      (s.enabled = true → s.Covered E fields) := by
  constructor
  · intro h henabled
    refine ⟨?_, fun name hname => ?_⟩
    · rw [← Bool.not_eq_true]
      intro hchunks
      obtain ⟨name, hname⟩ := exists_name_not_mem (s.computedDependsOn (E.extraction fields))
      exact hname (h name ⟨henabled, .inr hchunks⟩)
    · exact mem_computedDependsOn_iff.1 (h name ⟨henabled, .inl (overlooked_subset s hname)⟩)
  · exact fun h name => SpecStep.Covered.depends h

/-- **What a covered step may read is done** when the step has started, in every execution of the pipeline. -/
theorem SpecStep.Covered.done {steps : List SpecStep} (hnames : (stepNames steps).Nodup) (hvalid : validate steps = [])
    (hbuild : Buildable (E.extraction fields) steps) {target : String → Option String} {x : Execution}
    (hx : (dagOf (E.extraction fields) target hnames hvalid hbuild).system.Reachable x) {s : SpecStep} (hs : s ∈ steps)
    (h : s.enabled = true → s.Covered E fields) (hstarted : s.name ∈ x.executor.started) {name : String}
    (hread : s.MayRead E fields name) : (x.executor.state name).done = true := by
  have hdep : Depends (E.extraction fields) steps s.name name := ⟨s, hs, rfl, Covered.depends h hread⟩
  exact (Scheduled.reachable hx).sound.ancestors s.name hstarted name (.single ((mem_dependenciesOf_specs hnames).2 hdep))

/-- Conditions without names. -/
def namelessExpressions : Expressions := ⟨fun _ => none, fun _ => [], nofun⟩

theorem splitJoin_built : Buildable (namelessExpressions.extraction fun _ => []) splitJoin :=
  (build_isOk_iff (by decide) (by decide)).1 (exists_ok_of_isOk rfl)

/-- The nodes of the pipeline of two steps. -/
def splitJoinDag : Dag :=
  dagOf (namelessExpressions.extraction fun _ => []) (fun _ => none) (by decide) (by decide) splitJoin_built

/-- The second step is launched. -/
def joinRunning : Option Execution :=
  System.exec (Execution.step splitJoinDag) ⟨.start splitJoinDag, .loop⟩
    [.pass false, .condition (some true), .lookup none, .launch false, .finish "split" (.success false),
      .wake ["split"], .handle, .pass false, .condition (some true), .lookup none, .launch false]

theorem joinRunning_isSome : joinRunning.isSome = true := by decide

theorem SpecStep.Covered.done_splitJoin : ∃ x, splitJoinDag.system.Reachable x ∧ "join" ∈ x.executor.started ∧
    (x.executor.state "split").done = true := by
  have hreach : splitJoinDag.system.Reachable (joinRunning.get joinRunning_isSome) :=
    System.reachable_of_exec rfl (Option.some_get joinRunning_isSome).symm
  have hplain : ∀ s ∈ splitJoin, s.condition.any chunksPresent = false ∧ s.overlooked namelessExpressions = [] := by
    decide
  obtain ⟨s, hs, hname, hread⟩ : ∃ s ∈ splitJoin, s.name = "join" ∧ s.MayRead namelessExpressions (fun _ => []) "split" :=
    ⟨_, .tail _ (.head _), rfl, by decide, .inl (by decide)⟩
  refine ⟨_, hreach, by decide, SpecStep.Covered.done _ _ splitJoin_built hreach hs
    (fun _ => ⟨(hplain s hs).1, ?_⟩) ?_ hread⟩
  · rw [(hplain s hs).2]
    exact fun _ h => absurd h List.not_mem_nil
  · rw [hname]
    decide

/-! ## A step that avoids a model -/

/-- A step that avoids the model of another one, and names it nowhere else. -/
def avoidingStep : SpecStep :=
  { plainStep "review" ∅ ∅ with modelRef := some "auto", avoidModelsFrom := some "analyze.model_id" }

/-- The step may read an output that it does not depend on. -/
theorem avoidingStep_uncovered : avoidingStep.MayRead namelessExpressions (fun _ => []) "analyze" ∧
    "analyze" ∉ avoidingStep.computedDependsOn (namelessExpressions.extraction fun _ => []) :=
  ⟨⟨by decide, .inl (by decide)⟩, by decide⟩

end LlmGateway.Pipeline
