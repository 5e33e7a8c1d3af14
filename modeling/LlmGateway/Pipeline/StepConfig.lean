import LlmGateway.Foundations.Dict
import LlmGateway.Foundations.Json

/-!
# The steps of a pipeline, and what they refer to

A step refers to other steps in its handler inputs, in the bindings of a map, in `reads_from`, in its condition
and in fields of its domain. `StepConfig.references` lists these references with their places, and
`StepConfig.computedDependsOn` takes the edges of the DAG from them.
-/

namespace LlmGateway.Pipeline

/-! ## Bindings -/

/-- `text.split(".", 1)`: what comes before the first dot, and what comes behind it. -/
def splitDot (text : String) : String × Option String :=
  let before := text.toList.takeWhile (· ≠ '.')
  match text.toList.drop before.length with
  | [] => (text, none)
  | _ :: rest => (String.ofList before, some (String.ofList rest))

structure InputBinding where
  /-- `namespace`. -/
  ns : String
  stepName : Option String
  fieldPath : String
  declaredType : Option String
  deriving DecidableEq

/-- `InputBinding.parse`, unless it raises. -/
def InputBinding.parse (text : String) : Option InputBinding :=
  if text.toList.count '[' ≠ text.toList.count ']' then none
  else
    let base := splitDot (String.ofList (text.toList.takeWhile (· ≠ '[')))
    base.2.map fun basePath =>
      let path := if text.toList.contains '[' then (splitDot text).2.getD "" else basePath
      if ["sourceNs", "optionsNs", "loopNs", "mapNs"].contains base.1 then ⟨base.1, none, path, none⟩
      else ⟨"step", some base.1, path, none⟩

/-- What a reference is to. -/
structure Target where
  ns : String
  stepName : Option String
  fieldPath : String
  deriving DecidableEq

def InputBinding.target (b : InputBinding) : Target := ⟨b.ns, b.stepName, b.fieldPath⟩

/-- A step by its name alone. -/
def Target.ofName (name : String) : Target := ⟨"step", some name, ""⟩

/-- The step that a reference names. -/
def Target.step? (t : Target) : Option String := if t.ns = "step" then t.stepName else none

/-! ## Steps -/

/-- What the expansion and the DAG read of a `StepConfig`. -/
structure StepConfig where
  name : String
  type : String
  handlerInputs : Dict String InputBinding
  /-- The names in `output_declarations`. -/
  outputDeclarations : List String
  /-- The steps in `reads_from`. -/
  readsFrom : List String
  condition : Option String
  /-- The bindings in `map_config`. -/
  mapOver : Dict String String
  mapInputs : Dict String String
  /-- `model_extra`, without the two fields that the expansion itself uses. -/
  extras : Dict String Json
  subPipelineStep : Bool

/-- The steps that a condition names (`extract_condition_deps`), and the fields of a handler that name steps
(`get_handler_dependency_fields`). -/
structure Extraction where
  conditionDeps : String → List String
  dependencyFields : String → List String

/-- Where a step refers to something. -/
inductive Place where
  | handlerInput (key : String)
  | readsFrom
  | mapOver (key : String)
  | mapInput (key : String)
  /-- A field that ends in `_step`. -/
  | field (key : String)
  /-- A field of `config` that ends in `_step`. -/
  | configField (key : String)
  | condition
  /-- A field of the handler that lists steps. -/
  | dependency (field : String)
  deriving DecidableEq

/-- A reference, with its place. -/
abbrev Reference := Place × Target

/-- `key.endswith("_step")`. -/
def endsWithStep (key : String) : Bool := "_step".toList.isSuffixOf key.toList

/-- The text of a value that is one. -/
def textOf : Json → Option String
  | .str text => some text
  | _ => none

/-- The references in the bindings of a map. -/
def bindingReferences (place : String → Place) (bindings : Dict String String) : List Reference :=
  bindings.items.filterMap fun e => (InputBinding.parse e.2).map fun b => (place e.1, b.target)

/-- The names in fields that end in `_step`. -/
def fieldReferences (place : String → Place) (fields : List (String × Json)) : List Reference :=
  fields.filterMap fun e =>
    if endsWithStep e.1 then (textOf e.2).map fun name => (place e.1, .ofName name) else none

/-- The fields of `config`, when it is an object. -/
def configFields (extras : Dict String Json) : List (String × Json) :=
  match extras.get? "config" with
  | some (.obj fields) => fields
  | _ => []

/-- The names in a list of the handler. -/
def dependencyReferences (extras : Dict String Json) (field : String) : List Reference :=
  match extras.get? field with
  | some (.arr items) => (items.filterMap textOf).map fun name => (.dependency field, .ofName name)
  | _ => []

variable (K : Extraction)

/-- The references outside of the handler inputs. -/
def StepConfig.otherReferences (s : StepConfig) : List Reference :=
  s.readsFrom.map (fun name => (.readsFrom, .ofName name)) ++ bindingReferences .mapOver s.mapOver ++
    bindingReferences .mapInput s.mapInputs ++ fieldReferences .field s.extras.items ++
    fieldReferences .configField (configFields s.extras) ++
    (s.condition.toList.flatMap K.conditionDeps).map (fun name => (.condition, .ofName name)) ++
    (K.dependencyFields s.type).flatMap (dependencyReferences s.extras)

/-- What a step refers to. -/
def StepConfig.references (s : StepConfig) : List Reference :=
  s.handlerInputs.items.map (fun e => (.handlerInput e.1, e.2.target)) ++ s.otherReferences K

/-- The step to which a reference makes an edge of the DAG: a binding names none by an empty text. -/
def edgeOf (r : Reference) : Option String :=
  match r.1 with
  | .mapInput _ => none
  | .handlerInput _ | .mapOver _ => r.2.step?.filter (· ≠ "")
  | _ => r.2.step?

/-- `computed_depends_on`, as a list. -/
def StepConfig.computedDependsOn (s : StepConfig) : List String := (s.references K).filterMap edgeOf

end LlmGateway.Pipeline
