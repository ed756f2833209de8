import ExAgent.Tools.Lineage
import ExAgent.Workflows.Restoring

/-!
# A workflow runs the code that it was made of

A promotion keeps the lineages of the Steps and puts inputs for their parameters. With the values of
the run, what is bound and compiled later is the code that ran, Step by Step, whatever the registry
has become meanwhile, unless the lineage is refused (`workflow_replays_code`).
-/

namespace ExAgent.Tools

open Lib
open ExAgent.Graph (SkillReference ToolReference PlanningKind)
open Workflows.Templates
  (StepDraft PlanDraft Values PromotionSource SuccessfulExecutionStep InputContract
    TemplateState TemplateError templatePlan templateStep bindWorkflowInputs bindStep inputName
    Separate template_restores_iff)

/-- What promotion reads of a registered Tool. -/
def ToolManifest.template (m : ToolManifest) : Workflows.Templates.ToolManifest :=
  ⟨m.tool, m.description, m.creationRationale, m.parameters⟩

/-- `get_tool`, as promotion uses it. -/
def ToolRegistry.templateOf (r : ToolRegistry) (name : String) :
    Option Workflows.Templates.ToolManifest :=
  (r.getTool name).toOption.map ToolManifest.template

/-! ## What promotion and binding keep -/

/-- What the compiler reads of a Step besides its parameters. -/
def code (step : StepDraft) :
    PlanningKind × Option SkillReference × Option ToolReference × Option String :=
  (step.planningKind, step.skill, step.tool, step.customCode)

/-- A Step of the template has the code of the Step that ran. -/
theorem templateStep_code {getTool : String → Option Workflows.Templates.ToolManifest}
    {publicDefaults : Values}
    {t t' : TemplateState} {row : SuccessfulExecutionStep × ℕ}
    (h : templateStep getTool publicDefaults t row = .ok t') :
    t'.steps.map code = t.steps.map code ++ [code row.1.step] := by
  unfold templateStep at h
  dsimp only at h
  split at h
  · exact absurd h nofun
  · split at h
    · exact absurd h nofun
    · obtain ⟨result, -, h⟩ := Fallible.bind_eq_ok.mp h
      obtain rfl := Except.ok.inj h
      rw [List.map_append]
      rfl

/-- So the Steps of a template have the code of all Steps that ran. -/
theorem foldlM_templateStep_code {getTool : String → Option Workflows.Templates.ToolManifest}
    {publicDefaults : Values} (rows : List (SuccessfulExecutionStep × ℕ)) {t t' : TemplateState}
    (h : rows.foldlM (templateStep getTool publicDefaults) t = .ok t') :
    t'.steps.map code = t.steps.map code ++ rows.map fun row => code row.1.step := by
  induction rows generalizing t with
  | nil =>
    obtain rfl := Except.ok.inj h
    simp
  | cons row rows ih =>
    rw [List.foldlM_cons] at h
    obtain ⟨t₁, ht₁, h⟩ := Fallible.bind_eq_ok.mp h
    rw [ih h, templateStep_code ht₁]
    simp

/-- A template has the code of the Steps of its source. -/
theorem templatePlan_code {getTool : String → Option Workflows.Templates.ToolManifest}
    {source : PromotionSource}
    {publicDefaults : Values} {template : PlanDraft} {contract : InputContract}
    (h : templatePlan getTool source publicDefaults = .ok (template, contract)) :
    template.steps.map code = source.steps.map fun row => code row.step := by
  unfold templatePlan at h
  split at h
  · exact absurd h nofun
  · split at h
    · exact absurd h nofun
    · obtain ⟨t, ht, h⟩ := Fallible.bind_eq_ok.mp h
      obtain ⟨-, h⟩ := Fallible.ite_eq_ok.mp h
      obtain ⟨rfl, rfl⟩ := Prod.mk.inj (Except.ok.inj h)
      have hcode := foldlM_templateStep_code _ ht
      rw [List.map_nil, List.nil_append] at hcode
      calc t.steps.map code = source.steps.zipIdx.map fun row => code row.1.step := hcode
        _ = (source.steps.zipIdx.map Prod.fst).map fun row => code row.step := by
          rw [List.map_map]
          rfl
        _ = source.steps.map fun row => code row.step := by rw [List.zipIdx_map_fst]

/-- Binding changes parameters only. -/
theorem bindWorkflowInputs_code {spell : PyJson .value → PyText} {template plan : PlanDraft}
    {contract : InputContract} {inputValues : Values}
    (h : bindWorkflowInputs spell template contract inputValues = .ok plan) :
    plan.steps.map code = template.steps.map code := by
  unfold bindWorkflowInputs at h
  dsimp only at h
  obtain ⟨-, h⟩ := Fallible.ite_eq_ok.mp h
  obtain ⟨-, h⟩ := Fallible.ite_eq_ok.mp h
  obtain ⟨u, -, h⟩ := Fallible.bind_eq_ok.mp h
  obtain ⟨steps, hsteps, h⟩ := Fallible.bind_eq_ok.mp h
  obtain rfl := Except.ok.inj h
  have hall : List.Forall₂ (fun step step' => code step = code step') template.steps steps := by
    refine (Fallible.mapM_eq_ok.mp hsteps).imp fun step step' hbind => ?_
    obtain ⟨parameters, -, rfl⟩ := Fallible.map_eq_ok.mp hbind
    rfl
  have heq : List.Forall₂ Eq (template.steps.map code) (steps.map code) := by
    rw [List.forall₂_map_left_iff, List.forall₂_map_right_iff]
    exact hall
  rw [List.forall₂_eq_eq_eq] at heq
  exact heq.symm

/-! ## What the compiler reads -/

/-- Steps with the same code and parameters are compiled alike. -/
theorem compile_congr (python : Interpreter) (r : ToolRegistry) {step step' : StepDraft}
    (hcode : code step' = code step) (hparameters : step'.parameters = step.parameters) :
    compile python r step' = (compile python r step).map fun c =>
      { c with sequence := step'.sequence } := by
  obtain ⟨hkind, hskill, htool, hcustom⟩ : step'.planningKind = step.planningKind ∧
      step'.skill = step.skill ∧ step'.tool = step.tool ∧ step'.customCode = step.customCode := by
    simpa [code] using hcode
  unfold compile
  rw [hkind]
  -- The number of the Step is copied whatever the Step is compiled from.
  cases step.planningKind with
  | fixedWorkflow => rfl
  | customCode =>
    dsimp only
    unfold compileCustomStep
    dsimp only
    rw [hcustom, hparameters]
    cases validateCustomSource python
      (strip (PyText.ofString (step.customCode.getD "")) ++ [10]) with
    | error e => rfl
    | ok u => rfl
  | toolPlan =>
    dsimp only
    unfold compileToolStep
    rw [htool, hskill, hparameters]
    cases step.tool with
    | none => rfl
    | some tool =>
      cases step.skill with
      | none => rfl
      | some skill =>
        dsimp only
        cases r.getTool tool.name with
        | error e => rfl
        | ok m =>
          dsimp only
          by_cases hlineage : m.tool ≠ tool ∨ m.skill ≠ skill
          · rw [if_pos hlineage, if_pos hlineage]
            rfl
          · rw [if_neg hlineage, if_neg hlineage]
            cases validateParameters step.parameters m.parameters with
            | error e => rfl
            | ok u => rfl

/-- Two sources of Tools of the registries have one digest. -/
def Collide (r r' : ToolRegistry) : Prop :=
  ∃ m ∈ r.tools, ∃ m' ∈ r'.tools, m.source ≠ m'.source ∧ sha256 m.source = sha256 m'.source

/-- A Step is compiled to the same source by two registries, unless they collide. -/
theorem compile_source_eq (python : Interpreter) {r r' : ToolRegistry}
    (hr : r.Sound) (hr' : r'.Sound)
    {step : StepDraft} {c c' : CompiledStep} (h : compile python r step = .ok c)
    (h' : compile python r' step = .ok c') :
    c'.source = c.source ∨ Collide r r' := by
  unfold compile at h h'
  cases hkind : step.planningKind with
  | fixedWorkflow =>
    rw [hkind] at h
    exact absurd h nofun
  | customCode =>
    rw [hkind] at h h'
    exact Or.inl ((compileCustomStep_ok h').2.1.trans (compileCustomStep_ok h).2.1.symm)
  | toolPlan =>
    rw [hkind] at h h'
    obtain ⟨m, hm, -, htool, -, rfl⟩ := compileToolStep_ok h
    obtain ⟨m', hm', -, htool', -, rfl⟩ := compileToolStep_ok h'
    have hsame : m'.tool = m.tool := Option.some.inj (htool'.symm.trans htool)
    have hsha : sha256 m.source = sha256 m'.source :=
      ((hr.registered hm).source_eq (hr'.registered hm') hsame).symm
    by_cases hsource : m.source = m'.source
    · left
      dsimp only
      unfold toolSource
      rw [hsource, hsame]
    · exact Or.inr ⟨m, hm, m', hm', hsource, hsha⟩

/-- A registry that has the Tools of another one compiles what that one compiles. -/
theorem compile_of_subset (python : Interpreter) {r r' : ToolRegistry} (hr' : r'.Sound)
    (hsubset : ∀ m ∈ r.tools, m ∈ r'.tools) {step : StepDraft} {c : CompiledStep}
    (h : compile python r step = .ok c) : compile python r' step = .ok c := by
  unfold compile at h ⊢
  cases hkind : step.planningKind with
  | fixedWorkflow =>
    rw [hkind] at h
    exact absurd h nofun
  | customCode =>
    rw [hkind] at h
    exact h
  | toolPlan =>
    rw [hkind] at h
    dsimp only at h ⊢
    obtain ⟨m, hm, hskill, htool, hfits, rfl⟩ := compileToolStep_ok h
    unfold compileToolStep
    rw [htool, hskill]
    dsimp only
    rw [hr'.getTool (hsubset m hm)]
    dsimp only
    rw [if_neg (by simp), validateParameters_eq_ok.mpr hfits]
    rfl

/-- A workflow that is promoted from Steps that ran, bound to the values of the run: what its Steps
are compiled to, by the registry of that time, is the code that ran, unless two sources collide; and
while the Tools of the run are registered, they are compiled. -/
theorem workflow_replays_code (spell : PyJson .value → PyText) (python : Interpreter)
    {readBool : PyJson .value → Option Bool} {r : ToolRegistry} {source : PromotionSource}
    {publicDefaults : Values}
    {template : PlanDraft} {contract : InputContract} {ran : List (ToolRegistry × CompiledStep)}
    {inputValues : Values}
    (hran : List.Forall₂ (fun row p => (loading readBool).Reachable p.1 ∧
      compile python p.1 row.step = .ok p.2)
      source.steps ran)
    (haccepted : source.Accepted r.templateOf)
    (h : templatePlan r.templateOf source publicDefaults = .ok (template, contract))
    (hseparate : Separate source publicDefaults)
    (hkeys : ∀ name, name ∈ inputValues.keys ↔ name ∈ contract.keys)
    (hown : ∀ i name value, source.Has i name value →
      (publicDefaults.get (inputName i name)).or
      (inputValues.get (inputName i name)) = some value) :
    ∃ plan, bindWorkflowInputs spell template contract inputValues = .ok plan ∧
      ∀ r', (loading readBool).Reachable r' →
        (∀ cs, plan.steps.mapM (compile python r') = .ok cs →
          List.Forall₂ (fun p c => c.source = p.2.source ∨ Collide p.1 r') ran cs) ∧
        ((∀ p ∈ ran, ∀ m ∈ p.1.tools, m ∈ r'.tools) →
          ∃ cs, plan.steps.mapM (compile python r') = .ok cs) := by
  have hrestores := (template_restores_iff spell r.templateOf haccepted h).mpr hseparate
  obtain ⟨plan, hbind, hparameters⟩ := hrestores.reproduces inputValues hkeys hown
  refine ⟨plan, hbind, fun r' hr' => ?_⟩
  have hcode : plan.steps.map code = source.steps.map fun row => code row.step :=
    (bindWorkflowInputs_code hbind).trans (templatePlan_code h)
  have hlength : plan.steps.length = source.steps.length := by
    simpa using congrArg List.length hcode
  -- The Steps of the plan, one by one, with the Steps that ran.
  have hstep : ∀ i (hi : i < source.steps.length), code (plan.steps.get ⟨i, hlength ▸ hi⟩) =
      code (source.steps.get ⟨i, hi⟩).step ∧
        (plan.steps.get ⟨i, hlength ▸ hi⟩).parameters =
        (source.steps.get ⟨i, hi⟩).step.parameters := by
    intro i hi
    have hc := congrArg (fun l => l[i]?) hcode
    have hp := congrArg (fun l => l[i]?) hparameters
    simp only [List.getElem?_map, List.getElem?_eq_getElem (hlength ▸ hi),
      List.getElem?_eq_getElem hi, Option.map_some, Option.some.injEq] at hc hp
    exact ⟨hc, hp⟩
  have hranlength : source.steps.length = ran.length := hran.length_eq
  constructor
  · intro cs hcs
    have hcompiled := Fallible.mapM_eq_ok.mp hcs
    apply List.forall₂_iff_get.mpr
    refine ⟨by rw [← hranlength, ← hlength, hcompiled.length_eq], fun i hi hi' => ?_⟩
    have hrow : i < source.steps.length := hranlength ▸ hi
    obtain ⟨hreach, hold⟩ := hran.get hrow hi
    have hnew := hcompiled.get (hlength ▸ hrow) hi'
    obtain ⟨hc, hp⟩ := hstep i hrow
    rw [compile_congr python r' hc hp] at hnew
    obtain ⟨c, hcompile, hc⟩ := Fallible.map_eq_ok.mp hnew
    have hsource := compile_source_eq python (loaded_sound hreach) (loaded_sound hr') hold hcompile
    rw [← hc]
    exact hsource
  · intro hsubset
    apply Fallible.exists_mapM
    intro step hmem
    obtain ⟨i, hi, rfl⟩ := List.getElem_of_mem hmem
    have hrow : i < source.steps.length := hlength ▸ hi
    obtain ⟨hc, hp⟩ := hstep i hrow
    obtain ⟨-, hold⟩ := hran.get hrow (hranlength ▸ hrow)
    have hnew := compile_of_subset python (loaded_sound hr') (hsubset _ (List.get_mem _ _)) hold
    exact ⟨_, (compile_congr python r' hc hp).trans (by rw [hnew]; rfl)⟩

namespace Sample

/-- The Step as it ran. -/
def ranStep : StepDraft where
  sequence := 0
  title := "t"
  purpose := "p"
  planningKind := .toolPlan
  skill := some ⟨"s", "1", sha256 (PyText.ofString "---\ndescription: d\n---")⟩
  tool := some ⟨"f", "1", sha256 (PyText.ofString "def f(n): pass")⟩
  parameters := Dictionary.empty.insert (PyText.ofString "n") (.number (.int 1))
  selectionRationale := "r"
  expectedOutputs := []
  validationCriteria := []
  timeoutSeconds := 300
  customCode := none

/-- A run with this Step. -/
def source : PromotionSource := ⟨[⟨0, ranStep⟩], fun _ => some draft⟩

/-- The value of the run, for the input of the workflow. -/
def inputs : Values :=
  Dictionary.empty.insert (inputName 0 (PyText.ofString "n")) (.number (.int 1))

/-- The Step compiles, its Tool takes the value of the run, and the run has a template. -/
theorem computed : (compile python registry ranStep).toOption.isSome = true ∧
    ((registry.templateOf "f").any fun m => (m.parameters.get (PyText.ofString "n")).any fun s =>
      Workflows.Templates.matchesType (.number (.int 1)) s.type) = true ∧
    ((templatePlan registry.templateOf source .empty).toOption.any fun t => t.2.keys =
      inputs.keys) = true := by
  refine ⟨?_, ?_, ?_⟩ <;> decide +kernel

/-- The Step of the sample compiles. -/
theorem exists_compiled : ∃ c, compile python registry ranStep = .ok c := by
  obtain ⟨c, h⟩ := Option.isSome_iff_exists.mp computed.1
  exact ⟨c, Fallible.toOption_eq_some.mp h⟩

/-- It ran from what a reachable registry compiled. -/
theorem ran_source {r : ToolRegistry} {c : CompiledStep} (hr : (loading readBool).Reachable r)
    (hc : compile python r ranStep = .ok c) :
    List.Forall₂ (fun (row : SuccessfulExecutionStep) (p : ToolRegistry × CompiledStep) =>
      (loading readBool).Reachable p.1 ∧ compile python p.1 row.step =
        .ok p.2) source.steps [(r, c)] :=
  List.Forall₂.cons ⟨hr, hc⟩ List.Forall₂.nil

/-- The sample is accepted as the source of a Workflow. -/
theorem source_accepted : source.Accepted registry.templateOf := by
  intro row hrow
  obtain rfl := List.mem_singleton.mp hrow
  obtain ⟨m, hm, hok⟩ := (Option.any_eq_true _ _).mp computed.2.1
  obtain ⟨s, hs, htype⟩ := (Option.any_eq_true _ _).mp hok
  refine ⟨_, m, rfl, hm, fun name value h => ?_⟩
  obtain ⟨rfl, rfl⟩ := Prod.mk.inj (List.mem_singleton.mp (Dictionary.mem_entries_iff.mpr h))
  exact ⟨s, hs, htype⟩

/-- It has a template, whose contract asks for the inputs of the sample. -/
theorem exists_template :
    ∃ template contract, templatePlan registry.templateOf source .empty = .ok (template, contract) ∧
    contract.keys = inputs.keys := by
  obtain ⟨t, ht, hkeys⟩ := (Option.any_eq_true _ _).mp computed.2.2
  exact ⟨t.1, t.2, Fallible.toOption_eq_some.mp ht, of_decide_eq_true hkeys⟩

/-- Its defaults and inputs have names of their own. -/
theorem source_separate : Separate source .empty where
  names := by
    intro row hrow
    obtain rfl := List.mem_singleton.mp hrow
    intro name hname name' hname' _
    rw [List.mem_singleton.mp hname, List.mem_singleton.mp hname']
  defaults := nofun

/-- The inputs of the sample are the values its Steps ran with. -/
theorem inputs_own (i : ℕ) (name : PyText) (value : PyJson .value) (h : source.Has i name value) :
    ((Dictionary.empty : Values).get (inputName i name)).or
      (inputs.get (inputName i name)) = some value := by
  obtain ⟨row, hrow, hvalue⟩ := h
  cases i with
  | zero =>
    obtain rfl := Option.some.inj hrow
    obtain ⟨rfl, rfl⟩ := Prod.mk.inj (List.mem_singleton.mp (Dictionary.mem_entries_iff.mpr hvalue))
    have hown := Dictionary.get_insert .empty (inputName 0 (PyText.ofString "n"))
      (inputName 0 (PyText.ofString "n")) (PyJson.number (.int 1))
    rw [if_pos rfl] at hown
    exact hown
  | succ i => cases hrow

end Sample

/-- A run of one Step, promoted without defaults and replayed with its value. -/
theorem workflow_replays_sample : ∃ template contract plan c,
    templatePlan Sample.registry.templateOf Sample.source .empty = .ok (template, contract) ∧
    bindWorkflowInputs (fun _ => []) template contract Sample.inputs = .ok plan ∧
    compile Sample.python Sample.registry Sample.ranStep = .ok c ∧
    ∃ cs, plan.steps.mapM (compile Sample.python Sample.registry) = .ok cs := by
  obtain ⟨template, contract, ht, hkeys⟩ := Sample.exists_template
  obtain ⟨c, hc⟩ := Sample.exists_compiled
  have hran := Sample.ran_source Sample.registry_reachable hc
  obtain ⟨plan, hplan, hruns⟩ := workflow_replays_code (fun _ => []) Sample.python hran
    Sample.source_accepted ht Sample.source_separate (fun name => by rw [hkeys]) Sample.inputs_own
  refine ⟨template, contract, plan, c, ht, hplan, hc,
    (hruns _ Sample.registry_reachable).2 fun p hp m hm => ?_⟩
  obtain rfl := List.mem_singleton.mp hp
  exact hm

end ExAgent.Tools
