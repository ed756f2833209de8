import ExAgent.Tools.Registry

/-!
# Compiling and planning Steps

`SourceCompiler.compile` of `ex_agent/tools/compiler.py`, the selection of Skills in
`ex_agent/middleware/skill_selection.py`, the output check of `ex_agent/middleware/planning.py` and
the two attempts of `PlannerAgent.plan`. What models answer is given, in the order of the calls; a
plan is one that its own validators accept. `pprint.pformat` and `ast.parse` are those of the
interpreter.
-/

namespace ExAgent.Tools

open Lib
open ExAgent.Graph (PlanningKind ExecutionMode)
open Workflows.Templates (ParameterSpec StepDraft PlanDraft Values matchesType)

/-! ## The compiler -/

/-- A statement at the top of a parsed source. -/
inductive TopLevel
  | function (name : PyText)
  /-- Another statement, with the names that are called in it. -/
  | other (called : List PyText)

/-- What the compiler uses of the interpreter. -/
structure Interpreter where
  /-- `pprint.pformat(value, sort_dicts=True)`. -/
  pformat : PyJson .value → PyText
  /-- The body of `ast.parse`, or `none` where it raises. -/
  parse : PyText → Option (List TopLevel)

/-- `CompiledStep`. -/
structure CompiledStep where
  sequence : ℕ
  source : PyText
  sourceSha256 : Sha256
  skillName : Option String
  toolName : Option String
  parameters : Values

/-- What `compile` raises. -/
inductive CompileError
  | kind (kind : PlanningKind)
  | missingLineage
  | mismatchedLineage
  | registry (error : RegistryError)
  | unknownParameters (names : List PyText)
  | missingParameters (names : List PyText)
  | wrongType (name : PyText) (type : String)
  | syntaxError
  | notOneFunction
  | notOneInvocation
deriving DecidableEq

/-- The types of the values, in the order of their names. -/
def validateTypes (schema : Dictionary PyText ParameterSpec) :
    List (PyText × PyJson .value) → Except CompileError Unit
  | [] => .ok ()
  | e :: rest =>
    match schema.get e.1 with
    | none => .error (.unknownParameters [e.1])
    | some specification =>
      if matchesType e.2 specification.type then validateTypes schema rest
      else .error (.wrongType e.1 specification.type)

/-- `_validate_parameters`. -/
def validateParameters (values : Values) (schema : Dictionary PyText ParameterSpec) :
    Except CompileError Unit :=
  let unknown := values.keys.filter fun name => name ∉ schema.keys
  let missing := (schema.entries.filter fun e => e.2.required ∧ e.1 ∉ values.keys).map Prod.fst
  if unknown ≠ [] then .error (.unknownParameters unknown)
  else if missing ≠ [] then .error (.missingParameters missing)
  else validateTypes schema values.entries

/-- An argument of the call. -/
def argument (python : Interpreter) (e : PyText × PyJson .value) : PyText :=
  PyText.ofString "    " ++ e.1 ++ 61 :: python.pformat e.2 ++ [44]

/-- The call that follows the source of a Tool. -/
def invocation (python : Interpreter) (tool : String) (parameters : Values) : PyText :=
  PyText.ofString "\n\nresult = " ++ PyText.ofString tool ++ PyText.ofString "(\n" ++
    List.intercalate [10] (parameters.entries.map (argument python)) ++
      PyText.ofString "\n)\nresult\n"

/-- The source of a Step of a Tool. -/
def toolSource (python : Interpreter) (manifest : ToolManifest) (parameters : Values) : PyText :=
  rstrip manifest.source ++ invocation python manifest.tool.name parameters

/-- `_compile_tool_step`. -/
def compileToolStep (python : Interpreter) (r : ToolRegistry) (step : StepDraft) :
    Except CompileError CompiledStep :=
  match step.tool, step.skill with
  | some tool, some skill =>
    match r.getTool tool.name with
    | .error e => .error (.registry e)
    | .ok manifest =>
      if manifest.tool ≠ tool ∨ manifest.skill ≠ skill then .error .mismatchedLineage
      else do
        validateParameters step.parameters manifest.parameters
        let source := toolSource python manifest step.parameters
        .ok ⟨step.sequence, source, sha256 source, some manifest.skill.name,
          some manifest.tool.name, step.parameters⟩
  | _, _ => .error .missingLineage

/-- The functions that are defined at the top. -/
def functions (body : List TopLevel) : List PyText :=
  body.filterMap fun
    | .function name => some name
    | .other _ => none

/-- The names that are called at the top. -/
def calls (body : List TopLevel) : List PyText :=
  body.flatMap fun
    | .function _ => []
    | .other called => called

/-- `_validate_custom_source`. -/
def validateCustomSource (python : Interpreter) (source : PyText) : Except CompileError Unit :=
  match python.parse source with
  | none => .error .syntaxError
  | some body =>
    match functions body with
    | [name] => if (calls body).count name = 1 then .ok () else .error .notOneInvocation
    | _ => .error .notOneFunction

/-- `_compile_custom_step`. -/
def compileCustomStep (python : Interpreter) (step : StepDraft) :
    Except CompileError CompiledStep := do
  let source := strip (PyText.ofString (step.customCode.getD "")) ++ [10]
  validateCustomSource python source
  .ok ⟨step.sequence, source, sha256 source, none, none, step.parameters⟩

/-- `compile`. -/
def compile (python : Interpreter) (r : ToolRegistry) (step : StepDraft) :
    Except CompileError CompiledStep :=
  match step.planningKind with
  | .toolPlan => compileToolStep python r step
  | .customCode => compileCustomStep python step
  | .fixedWorkflow => .error (.kind .fixedWorkflow)

/-! ## The selection of Skills -/

/-- `SkillSelection`: at least one name, and a rationale of its length. -/
structure SkillSelection where
  skillNames : List String
  rationale : String
  names_nonempty : skillNames ≠ []
  rationale_length : 1 ≤ rationale.length ∧ rationale.length ≤ 2000

/-- What the selector answers, and what its call raises. -/
inductive SelectionFault
  /-- `ValidationError` or `OutputParserException`: the selector is asked again. -/
  | unusable
  /-- `InvalidSkillSelection`. -/
  | unknown (names : List String)
  /-- Another error, which ends the plan. -/
  | raised
  /-- The second attempt failed as well. -/
  | exhausted
  /-- The registry has no Skill. -/
  | nothing
deriving DecidableEq

/-- The Skill that a value names, by its name or by its name and its version. -/
def resolveName (available : List SkillDocument) (value : String) : Option String :=
  let canonical := available.find? fun s => s.name = value ∧ value ≠ ""
  -- In a dictionary, the last of equal keys counts.
  let versioned := available.reverse.find? fun s => s.name ++ "@" ++ s.version = value
  (canonical.or versioned).map SkillDocument.name

/-- `normalize_selection`: the names in the order in which they come first. -/
def normalizeSelection (available : List SkillDocument) (names : List String) :
    Except SelectionFault (List String) :=
  let unknown := names.filter fun value => (resolveName available value).isNone
  if unknown ≠ [] then .error (.unknown unknown)
  else .ok ((names.filterMap (resolveName available)).foldl
    (fun acc n => if n ∈ acc then acc else acc ++ [n]) [])

/-- One attempt of `select_skills`. -/
def selectOnce (available : List SkillDocument) (answer : Except SelectionFault SkillSelection) :
    Except SelectionFault (List String) :=
  answer.bind fun selection => normalizeSelection available selection.skillNames

/-- `select_skills`, with the answers of the two attempts. -/
def selectSkills (available : List SkillDocument)
    (first second : Except SelectionFault SkillSelection) :
    Except SelectionFault (List String) :=
  if available = [] then .error .nothing
  else
    match selectOnce available first with
    | .ok names => .ok names
    | .error .raised => .error .raised
    | .error _ =>
      match selectOnce available second with
      | .ok names => .ok names
      | .error .raised => .error .raised
      | .error _ => .error .exhausted

/-! ## The planner -/

/-- What `PlanStepDraft` and `PlanDraft` validate of lineages and numbers. -/
structure ValidPlan (plan : PlanDraft) : Prop where
  steps_nonempty : plan.steps ≠ []
  steps_length : plan.steps.length ≤ 100
  sequences : plan.steps.map StepDraft.sequence = List.range plan.steps.length
  lineage_of_tool : ∀ step ∈ plan.steps, step.planningKind = .toolPlan →
    step.skill ≠ none ∧ step.tool ≠ none ∧ step.customCode = none
  lineage_of_code : ∀ step ∈ plan.steps, step.planningKind = .customCode →
    step.customCode ≠ none ∧ step.customCode ≠ some "" ∧ step.skill = none ∧ step.tool = none

/-- What the planner is asked for; `fits` is the budget of signs for the Skills that are
described. -/
structure PlannerContext where
  planningKind : PlanningKind
  executionMode : ExecutionMode
  requestRiskReviewId : String
  requestRiskAllowed : Bool
  fits : List SkillDocument → Bool

/-- What the planner raises. -/
inductive PlannerError
  | noRiskReview
  | riskNotAllowed
  | selection (fault : SelectionFault)
  | registry (error : RegistryError)
  | contextTooLong
  /-- The model, or the validation of its answer. -/
  | raised
  | modeMismatch
  | multiSteps
deriving DecidableEq

/-- What the models answer in one attempt. -/
structure Answers where
  first : Except SelectionFault SkillSelection
  second : Except SelectionFault SkillSelection
  plan : Option { plan : PlanDraft // ValidPlan plan }

/-- An error of the registry or of the selection, as the planner's. -/
def raise {α ε : Type} (f : ε → PlannerError) (x : Except ε α) :
    Except PlannerError α := x.mapError f

/-- `PlanOutputMiddleware.aafter_agent`. -/
def planOutput (r : ToolRegistry) (context : PlannerContext) (plan : PlanDraft) :
    Except PlannerError PlanDraft :=
  if plan.executionMode ≠ context.executionMode then .error .modeMismatch
  else if plan.executionMode = .multi ∧ plan.steps.length ≠ 1 then .error .multiSteps
  else do
    let steps ← plan.steps.mapM fun step => raise .registry (r.canonicalizeStepLineage step)
    .ok { plan with steps }

/-- The Skills that the planner is shown. -/
def shownSkills (r : ToolRegistry) (context : PlannerContext) (answers : Answers) :
    Except PlannerError (List SkillDocument) :=
  if context.planningKind ≠ .toolPlan then .ok []
  else do
    let names ← raise .selection (selectSkills r.skills answers.first answers.second)
    names.mapM fun name => raise .registry (r.getSkill name)

/-- One call of the agent with its middleware. -/
def planOnce (r : ToolRegistry) (context : PlannerContext) (answers : Answers) :
    Except PlannerError PlanDraft :=
  if context.requestRiskReviewId = "" then .error .noRiskReview
  else if context.requestRiskAllowed = false then .error .riskNotAllowed
  else do
    let skills ← shownSkills r context answers
    if context.fits skills = false then .error .contextTooLong
    else
      match answers.plan with
      | none => .error .raised
      | some plan => planOutput r context plan.1

/-- `PlannerAgent.plan`: a plan of the other mode is asked for again, once. -/
def plan (r : ToolRegistry) (context : PlannerContext) (first second : Answers) :
    Except PlannerError PlanDraft :=
  match planOnce r context first with
  | .error .modeMismatch => planOnce r context second
  | result => result

end ExAgent.Tools
