import ExAgent.Tools.Compiler

/-!
# What is compiled is what is registered

A registry that is loaded again and again holds each Skill and each Tool once, with the digests of
their texts (`loaded_sound`). So a plan that the planner returns, whatever the models answer, names
Tools of the registry by their digests, and what is compiled for it is the registered source with a
call of the Tool (`planned_code`).
-/

namespace ExAgent.Tools

open Lib
open ExAgent.Graph (SkillReference ToolReference PlanningKind)
open Workflows.Templates (ParameterSpec StepDraft PlanDraft Values matchesType)

/-! ## A loaded registry -/

/-- A Skill with the digest of its text, whose Tools refer to it and have the digests of their
sources. -/
structure SkillDocument.Sound (s : SkillDocument) : Prop where
  content : s.contentSha256 = sha256 s.content
  skill : ∀ m ∈ s.tools, m.skill = ⟨s.name, s.version, s.contentSha256⟩
  source : ∀ m ∈ s.tools, m.tool.sourceSha256 = sha256 m.source

/-- Each name is taken once, the Tools are those of the Skills, and the digests are right. -/
structure ToolRegistry.Sound (r : ToolRegistry) : Prop where
  skills_nodup : (r.skills.map SkillDocument.name).Nodup
  tools_nodup : (r.tools.map fun m => m.tool.name).Nodup
  listed : r.tools = r.skills.flatMap SkillDocument.tools
  skills : ∀ s ∈ r.skills, s.Sound

/-- What a manifest takes from its Skill and its source. -/
theorem loadManifest_ok {readBool : PyJson .value → Option Bool} {directory : SkillDirectory}
    {skillMeta raw : PyJson .value} {sha : Sha256} {m : ToolManifest}
    (h : loadManifest readBool directory skillMeta sha raw = .ok m) :
    stringItem "name" skillMeta = .ok m.skill.name ∧
      stringItem "version" skillMeta = .ok m.skill.version ∧
      m.skill.contentSha256 = sha ∧ m.tool.sourceSha256 = sha256 m.source := by
  unfold loadManifest at h
  obtain ⟨path, -, h⟩ := Fallible.bind_eq_ok.mp h
  split at h
  · rename_i path
    dsimp only at h
    obtain ⟨-, h⟩ := Fallible.ite_eq_ok.mp h
    obtain ⟨source, -, h⟩ := Fallible.bind_eq_ok.mp h
    obtain ⟨skillName, hskillName, h⟩ := Fallible.bind_eq_ok.mp h
    obtain ⟨skillVersion, hskillVersion, h⟩ := Fallible.bind_eq_ok.mp h
    obtain ⟨name, -, h⟩ := Fallible.bind_eq_ok.mp h
    obtain ⟨version, -, h⟩ := Fallible.bind_eq_ok.mp h
    obtain ⟨description, -, h⟩ := Fallible.bind_eq_ok.mp h
    obtain ⟨rationale, -, h⟩ := Fallible.bind_eq_ok.mp h
    obtain ⟨value, -, h⟩ := Fallible.bind_eq_ok.mp h
    obtain ⟨parameters, -, h⟩ := Fallible.bind_eq_ok.mp h
    obtain ⟨-, h⟩ := Fallible.ite_eq_ok.mp h
    obtain rfl := Except.ok.inj h
    exact ⟨hskillName, hskillVersion, rfl, rfl⟩
  · exact absurd h nofun

/-- The loop over the Tools of a Skill adds Tools with new names. -/
theorem loadTools_ok {readBool : PyJson .value → Option Bool} {directory : SkillDirectory}
    {skillMeta : PyJson .value} {sha : Sha256} {items : List (PyJson .value)}
    {known tools loaded : List ToolManifest} (hknown : (known.map fun m => m.tool.name).Nodup)
    (h : items.foldlM (loadTool readBool directory skillMeta sha) (known, []) =
      .ok (tools, loaded)) :
    (tools.map fun m => m.tool.name).Nodup ∧ tools = known ++ loaded ∧ ∀ m ∈ loaded,
      stringItem "name" skillMeta = .ok m.skill.name ∧
      stringItem "version" skillMeta = .ok m.skill.version ∧
        m.skill.contentSha256 = sha ∧ m.tool.sourceSha256 = sha256 m.source := by
  have hstep := Fallible.foldlM_invariant
    (fun acc : List ToolManifest × List ToolManifest => (acc.1.map fun m => m.tool.name).Nodup ∧
      acc.1 = known ++ acc.2 ∧ ∀ m ∈ acc.2,
        stringItem "name" skillMeta = .ok m.skill.name ∧
        stringItem "version" skillMeta = .ok m.skill.version ∧
          m.skill.contentSha256 = sha ∧ m.tool.sourceSha256 = sha256 m.source)
    (f := loadTool readBool directory skillMeta sha) ?_ (s := (known, []))
      ⟨hknown, by simp, nofun⟩ h
  · exact hstep
  · rintro acc raw acc' ⟨hnodup, heq, hall⟩ h
    unfold loadTool at h
    obtain ⟨m, hm, h⟩ := Fallible.bind_eq_ok.mp h
    obtain ⟨hnew, h⟩ := Fallible.ite_eq_ok.mp h
    obtain rfl := Except.ok.inj h
    refine ⟨?_, by simp [heq], List.forall_mem_append.mpr
      ⟨hall, List.forall_mem_singleton.mpr (loadManifest_ok hm)⟩⟩
    rw [List.map_append, List.map_singleton]
    refine List.nodup_append.mpr ⟨hnodup, List.nodup_singleton _, ?_⟩
    intro name hname other hother hsame
    obtain rfl := List.mem_singleton.mp hother
    obtain ⟨m', hm', rfl⟩ := List.mem_map.mp hname
    apply hnew
    exact List.any_eq_true.mpr ⟨m', hm', by simpa using hsame⟩

/-- A round over a directory keeps the registry sound. -/
theorem loadSkill_sound {readBool : PyJson .value → Option Bool} {r r' : ToolRegistry}
    {directory : SkillDirectory} (hr : r.Sound)
    (h : loadSkill readBool r directory = .ok r') : r'.Sound := by
  unfold loadSkill at h
  obtain ⟨-, h⟩ := Fallible.ite_eq_ok.mp h
  obtain ⟨text, -, h⟩ := Fallible.bind_eq_ok.mp h
  split at h
  · exact absurd h nofun
  · rename_i raw
    obtain ⟨skillMeta, -, h⟩ := Fallible.bind_eq_ok.mp h
    obtain ⟨content, -, h⟩ := Fallible.bind_eq_ok.mp h
    obtain ⟨value, -, h⟩ := Fallible.bind_eq_ok.mp h
    split at h
    · exact absurd h nofun
    · rename_i items _
      obtain ⟨⟨tools, loaded⟩, hloaded, h⟩ := Fallible.bind_eq_ok.mp h
      obtain ⟨name, hname, h⟩ := Fallible.bind_eq_ok.mp h
      obtain ⟨version, hversion, h⟩ := Fallible.bind_eq_ok.mp h
      obtain ⟨description, -, h⟩ := Fallible.bind_eq_ok.mp h
      obtain ⟨hnew, h⟩ := Fallible.ite_eq_ok.mp h
      obtain rfl := Except.ok.inj h
      obtain ⟨hnodup, rfl, hall⟩ := loadTools_ok hr.tools_nodup hloaded
      -- Every tool that is loaded carries the name, version and digest of this skill.
      have hskill : ∀ m ∈ loaded, m.skill = ⟨name, version, sha256 content⟩ := by
        intro m hm
        obtain ⟨hmname, hmversion, hmsha, -⟩ := hall m hm
        have hn : name = m.skill.name := Except.ok.inj (hname.symm.trans hmname)
        have hv : version = m.skill.version := Except.ok.inj (hversion.symm.trans hmversion)
        rw [hn, hv, ← hmsha]
      constructor
      · -- The name of the new skill was not taken.
        dsimp only
        rw [List.map_append, List.map_singleton]
        refine List.nodup_append.mpr ⟨hr.skills_nodup, List.nodup_singleton _, ?_⟩
        intro n hn other hother hsame
        obtain rfl := List.mem_singleton.mp hother
        obtain ⟨s, hs, rfl⟩ := List.mem_map.mp hn
        apply hnew
        exact List.any_eq_true.mpr ⟨s, hs, by simpa using hsame⟩
      · exact hnodup
      · dsimp only
        rw [List.flatMap_append, ← hr.listed]
        simp
      · have hlast :
            SkillDocument.Sound ⟨name, version, description, sha256 content, content, loaded⟩ :=
          ⟨rfl, hskill, fun m hm => (hall m hm).2.2.2⟩
        exact List.forall_mem_append.mpr ⟨hr.skills, List.forall_mem_singleton.mpr hlast⟩

/-- The empty registry is sound. -/
theorem sound_empty : ToolRegistry.Sound {} := ⟨List.nodup_nil, List.nodup_nil, rfl, nofun⟩

/-- A registry is sound, whatever files it was loaded from and however often. -/
theorem loaded_sound {readBool : PyJson .value → Option Bool} {r : ToolRegistry}
    (hr : (loading readBool).Reachable r) : r.Sound := by
  apply hr.invariant
  · rintro r rfl
    exact sound_empty
  · intro r directories r' _ hsound hstep
    obtain rfl := Option.some.inj hstep
    unfold ToolRegistry.load
    split
    · rename_i loaded hloaded
      exact Fallible.foldlM_invariant ToolRegistry.Sound (fun _ _ _ => loadSkill_sound)
        sound_empty hloaded
    · exact hsound

/-- A Tool of a Skill of the registry, with the digests of both. -/
def ToolRegistry.Registered (r : ToolRegistry) (m : ToolManifest) : Prop :=
  ∃ s ∈ r.skills, m ∈ s.tools ∧ m.skill = ⟨s.name, s.version, sha256 s.content⟩ ∧
    m.tool.sourceSha256 = sha256 m.source

/-- A tool of a sound registry is registered. -/
theorem ToolRegistry.Sound.registered {r : ToolRegistry} (hr : r.Sound) {m : ToolManifest}
    (hm : m ∈ r.tools) :
    r.Registered m := by
  rw [hr.listed] at hm
  obtain ⟨s, hs, hm⟩ := List.mem_flatMap.mp hm
  have hsound := hr.skills s hs
  refine ⟨s, hs, hm, ?_, hsound.source m hm⟩
  rw [hsound.skill m hm, hsound.content]

/-- A tool that is found is in the registry, under its name. -/
theorem getTool_ok {r : ToolRegistry} {name : String} {m : ToolManifest}
    (h : r.getTool name = .ok m) :
    m ∈ r.tools ∧ m.tool.name = name := by
  unfold ToolRegistry.getTool at h
  split at h
  · rename_i found hfound
    obtain rfl := Except.ok.inj h
    exact ⟨List.mem_of_find?_eq_some hfound, by simpa using List.find?_some hfound⟩
  · exact absurd h nofun

/-- A Tool is found by its name. -/
theorem ToolRegistry.Sound.getTool {r : ToolRegistry} (hr : r.Sound) {m : ToolManifest}
    (hm : m ∈ r.tools) :
    r.getTool m.tool.name = .ok m := by
  cases h : r.getTool m.tool.name with
  | ok m' =>
    obtain ⟨hm', hname⟩ := getTool_ok h
    rw [List.inj_on_of_nodup_map hr.tools_nodup hm' hm hname]
  | error e =>
    exfalso
    unfold ToolRegistry.getTool at h
    split at h
    · exact absurd h nofun
    · rename_i hnone
      have := List.find?_eq_none.mp hnone m hm
      simp at this

/-! ## Parameters -/

/-- Every value is declared with its type, and every parameter that is required has a value. -/
structure Fits (values : Values) (schema : Dictionary PyText ParameterSpec) : Prop where
  declared : ∀ name value, values.get name = some value →
    ∃ specification, schema.get name = some specification ∧
    matchesType value specification.type = true
  required : ∀ name specification, schema.get name = some specification →
    specification.required = true → ∃ value, values.get name = some value

/-- What `_validate_parameters` raises. -/
def CompileError.OfParameters : CompileError → Prop
  | .unknownParameters _ | .missingParameters _ | .wrongType _ _ => True
  | _ => False

/-- The types are valid when every parameter is declared and of its declared type. -/
theorem validateTypes_eq_ok {schema : Dictionary PyText ParameterSpec}
    (entries : List (PyText × PyJson .value)) :
    validateTypes schema entries = .ok () ↔ ∀ e ∈ entries, ∃ specification,
      schema.get e.1 = some specification ∧ matchesType e.2 specification.type = true := by
  induction entries with
  | nil => simp [validateTypes]
  | cons e rest ih =>
    unfold validateTypes
    rw [List.forall_mem_cons, ← ih]
    cases hget : schema.get e.1 with
    | none => simp
    | some specification =>
      dsimp only
      by_cases htype : matchesType e.2 specification.type = true
      · simp [htype]
      · simp [htype]

/-- A refusal of the types is one of the parameters. -/
theorem validateTypes_error {schema : Dictionary PyText ParameterSpec}
    {entries : List (PyText × PyJson .value)}
    {err : CompileError} (h : validateTypes schema entries = .error err) : err.OfParameters := by
  induction entries with
  | nil => exact absurd h nofun
  | cons e rest ih =>
    unfold validateTypes at h
    split at h
    · obtain rfl := Except.error.inj h
      exact trivial
    · split at h
      · exact ih h
      · obtain rfl := Except.error.inj h
        exact trivial

/-- A refusal of the parameters is one of the parameters. -/
theorem validateParameters_error {values : Values} {schema : Dictionary PyText ParameterSpec}
    {err : CompileError}
    (h : validateParameters values schema = .error err) : err.OfParameters := by
  unfold validateParameters at h
  dsimp only at h
  split_ifs at h
  · obtain rfl := Except.error.inj h
    exact trivial
  · obtain rfl := Except.error.inj h
    exact trivial
  · exact validateTypes_error h

/-- `_validate_parameters` accepts the values that fit. -/
theorem validateParameters_eq_ok {values : Values} {schema : Dictionary PyText ParameterSpec} :
    validateParameters values schema = .ok () ↔ Fits values schema := by
  have hunknown : (values.keys.filter fun name => name ∉ schema.keys) = [] ↔
      ∀ name ∈ values.keys, name ∈ schema.keys := by
    simp [List.filter_eq_nil_iff]
  have hmissing : (schema.entries.filter fun e => e.2.required ∧
    e.1 ∉ values.keys).map Prod.fst = [] ↔
      ∀ e ∈ schema.entries, e.2.required = true → e.1 ∈ values.keys := by
    simp [List.filter_eq_nil_iff]
  unfold validateParameters
  dsimp only
  rw [Fallible.ite_eq_ok, Fallible.ite_eq_ok, not_not, not_not, hunknown, hmissing,
    validateTypes_eq_ok]
  constructor
  · rintro ⟨-, hrequired, htypes⟩
    constructor
    · exact fun name value h => htypes (name, value) (Dictionary.mem_entries_iff.mpr h)
    · intro name specification h hr
      exact Dictionary.mem_keys_iff.mp
        (hrequired (name, specification) (Dictionary.mem_entries_iff.mpr h) hr)
  · intro h
    refine ⟨?_, ?_, ?_⟩
    · intro name hname
      obtain ⟨value, hvalue⟩ := Dictionary.mem_keys_iff.mp hname
      obtain ⟨specification, hs, -⟩ := h.declared name value hvalue
      exact Dictionary.mem_keys_iff.mpr ⟨specification, hs⟩
    · intro e he hr
      exact Dictionary.mem_keys_iff.mpr (h.required e.1 e.2 (Dictionary.mem_entries_iff.mp he) hr)
    · exact fun e he => h.declared e.1 e.2 (Dictionary.mem_entries_iff.mp he)

/-! ## Compiled Steps -/

/-- A compiled tool Step is of a tool in the registry, with its lineage and with parameters that
fit. -/
theorem compileToolStep_ok {python : Interpreter} {r : ToolRegistry} {step : StepDraft}
    {c : CompiledStep} (h : compileToolStep python r step = .ok c) :
    ∃ m ∈ r.tools, step.skill = some m.skill ∧ step.tool = some m.tool ∧
      Fits step.parameters m.parameters ∧
      c = ⟨step.sequence, toolSource python m step.parameters,
      sha256 (toolSource python m step.parameters),
        some m.skill.name, some m.tool.name, step.parameters⟩ := by
  unfold compileToolStep at h
  split at h
  · rename_i tool skill htool hskill
    split at h
    · exact absurd h nofun
    · rename_i m hm
      obtain ⟨hlineage, h⟩ := Fallible.ite_eq_ok.mp h
      rw [not_or, not_not, not_not] at hlineage
      obtain ⟨u, hfits, h⟩ := Fallible.bind_eq_ok.mp h
      obtain rfl := Except.ok.inj h
      exact ⟨m, (getTool_ok hm).1, by rw [hskill, hlineage.2], by rw [htool, hlineage.1],
        validateParameters_eq_ok.mp hfits, rfl⟩
  · exact absurd h nofun

/-- With the lineage of a registered Tool, only the parameters are refused. -/
theorem compileToolStep_error {python : Interpreter} {r : ToolRegistry} (hr : r.Sound)
    {step : StepDraft}
    {m : ToolManifest} (hm : m ∈ r.tools) (hskill : step.skill = some m.skill)
    (htool : step.tool = some m.tool)
    {err : CompileError} (h : compileToolStep python r step = .error err) : err.OfParameters := by
  unfold compileToolStep at h
  rw [hskill, htool] at h
  dsimp only at h
  rw [hr.getTool hm] at h
  dsimp only at h
  rw [if_neg (by simp)] at h
  cases hv : validateParameters step.parameters m.parameters with
  | error e =>
    rw [hv] at h
    obtain rfl := Except.error.inj h
    exact validateParameters_error hv
  | ok u =>
    rw [hv] at h
    exact absurd h nofun

/-- A compiled custom Step has the source it was given, with the one function that is called. -/
theorem compileCustomStep_ok {python : Interpreter} {step : StepDraft} {c : CompiledStep}
    (h : compileCustomStep python step = .ok c) :
    c.sequence = step.sequence ∧
      c.source = strip (PyText.ofString (step.customCode.getD "")) ++ [10] ∧
      c.sourceSha256 = sha256 c.source ∧ c.skillName = none ∧ c.toolName = none ∧
      c.parameters = step.parameters ∧
      ∃ body name, python.parse c.source = some body ∧ functions body = [name] ∧
      (calls body).count name = 1 := by
  unfold compileCustomStep at h
  dsimp only at h
  obtain ⟨u, hvalid, h⟩ := Fallible.bind_eq_ok.mp h
  obtain rfl := Except.ok.inj h
  refine ⟨rfl, rfl, rfl, rfl, rfl, rfl, ?_⟩
  unfold validateCustomSource at hvalid
  split at hvalid
  · exact absurd hvalid nofun
  · rename_i body hbody
    split at hvalid
    · rename_i name hname
      by_cases hcount : (calls body).count name = 1
      · exact ⟨body, name, hbody, hname, hcount⟩
      · rw [if_neg hcount] at hvalid
        exact absurd hvalid nofun
    · exact absurd hvalid nofun

/-! ## Planned Steps -/

/-- A raised error is no result. -/
theorem raise_eq_ok {α ε : Type} {f : ε → PlannerError} {x : Except ε α} {a : α} :
    raise f x = .ok a ↔ x = .ok a := by
  cases x with
  | error e => simp [raise, Except.mapError]
  | ok a => simp [raise, Except.mapError]

/-- A Step of a Tool gets the lineage of the Tool; nothing else of it changes. -/
theorem canonicalize_ok {r : ToolRegistry} {step step' : StepDraft}
    (h : r.canonicalizeStepLineage step = .ok step') :
    step'.sequence = step.sequence ∧ step'.planningKind = step.planningKind ∧
      step'.customCode = step.customCode ∧
      step'.parameters = step.parameters ∧
      (step.planningKind = .toolPlan → ∃ m ∈ r.tools, step'.skill = some m.skill ∧
      step'.tool = some m.tool) := by
  unfold ToolRegistry.canonicalizeStepLineage at h
  by_cases hkind : step.planningKind = .toolPlan
  · rw [if_neg (not_not.mpr hkind)] at h
    split at h
    · rename_i skill tool _ _
      obtain ⟨m, hm, h⟩ := Fallible.bind_eq_ok.mp h
      obtain ⟨-, h⟩ := Fallible.ite_eq_ok.mp h
      obtain rfl := Except.ok.inj h
      exact ⟨rfl, rfl, rfl, rfl, fun _ => ⟨m, (getTool_ok hm).1, rfl, rfl⟩⟩
    · exact absurd h nofun
  · rw [if_pos hkind] at h
    obtain rfl := Except.ok.inj h
    exact ⟨rfl, rfl, rfl, rfl, fun hk => absurd hk hkind⟩

/-- What the planner returns is a plan of a model, of the right mode, with canonical Steps. -/
theorem planOnce_ok {r : ToolRegistry} {context : PlannerContext}
    {answers : Answers} {p : PlanDraft} (h : planOnce r context answers = .ok p) :
    ∃ raw, ValidPlan raw ∧ raw.executionMode = context.executionMode ∧
      p.executionMode = raw.executionMode ∧
      (raw.executionMode = .multi → raw.steps.length = 1) ∧
      List.Forall₂ (fun step step' => r.canonicalizeStepLineage step = .ok step')
      raw.steps p.steps := by
  unfold planOnce at h
  obtain ⟨-, h⟩ := Fallible.ite_eq_ok.mp h
  obtain ⟨-, h⟩ := Fallible.ite_eq_ok.mp h
  obtain ⟨skills, -, h⟩ := Fallible.bind_eq_ok.mp h
  obtain ⟨-, h⟩ := Fallible.ite_eq_ok.mp h
  split at h
  · exact absurd h nofun
  · rename_i raw _
    unfold planOutput at h
    obtain ⟨hmode, h⟩ := Fallible.ite_eq_ok.mp h
    obtain ⟨hmulti, h⟩ := Fallible.ite_eq_ok.mp h
    obtain ⟨steps, hsteps, h⟩ := Fallible.bind_eq_ok.mp h
    obtain rfl := Except.ok.inj h
    refine ⟨raw.1, raw.2, not_not.mp hmode, rfl, ?_, ?_⟩
    · intro hm
      by_contra hlength
      exact hmulti ⟨hm, hlength⟩
    · exact (Fallible.mapM_eq_ok.mp hsteps).imp fun step step' h => raise_eq_ok.mp h

/-- A Step of a plan and what it is compiled to, with the registries of the plan and of the
compiler. -/
inductive Planned (python : Interpreter) (r r' : ToolRegistry) (step : StepDraft)
    (c : CompiledStep) : Prop
  /-- The source of the registered Tool, and a call of it with the parameters of the Step. -/
  | tool (m m' : ToolManifest) (hkind : step.planningKind = .toolPlan) (hm : r.Registered m)
      (hm' : r'.Registered m') (hskill : step.skill = some m.skill ∧ m'.skill = m.skill)
      (htool : step.tool = some m.tool ∧ m'.tool = m.tool)
        (hsource : sha256 m'.source = sha256 m.source)
      (hfits : Fits step.parameters m'.parameters)
        (hc : c.source = toolSource python m' step.parameters)
  /-- The code of the Step, which defines one function and calls it once. -/
  | custom (hkind : step.planningKind = .customCode)
      (hlineage : step.skill = none ∧ step.tool = none)
      (hc : c.source = strip (PyText.ofString (step.customCode.getD "")) ++ [10])
      (body : List TopLevel) (name : PyText) (hbody : python.parse c.source = some body)
      (hone : functions body = [name] ∧ (calls body).count name = 1)

/-- A plan comes from one of the attempts. -/
theorem plan_ok {r : ToolRegistry} {context : PlannerContext}
    {first second : Answers} {p : PlanDraft}
    (h : plan r context first second = .ok p) : ∃ answers, planOnce r context answers = .ok p := by
  unfold plan at h
  split at h
  · exact ⟨second, h⟩
  · exact ⟨first, h⟩

/-- The digest of a registered Tool is that of its source. -/
theorem ToolRegistry.Registered.source_eq {r r' : ToolRegistry} {m m' : ToolManifest}
    (hm : r.Registered m)
    (hm' : r'.Registered m') (htool : m'.tool = m.tool) : sha256 m'.source = sha256 m.source := by
  obtain ⟨-, -, -, -, hsource⟩ := hm
  obtain ⟨-, -, -, -, hsource'⟩ := hm'
  rw [← hsource, ← hsource', htool]

/-- One Step of a plan that is compiled. -/
theorem planned_step (python : Interpreter) {r r' : ToolRegistry} (hr : r.Sound) (hr' : r'.Sound)
    {raw step : StepDraft} {c : CompiledStep}
    (hlineage : raw.planningKind = .customCode → raw.skill = none ∧ raw.tool = none)
    (hstep : r.canonicalizeStepLineage raw = .ok step) (hc : compile python r' step = .ok c) :
    c.sequence = step.sequence ∧ c.sourceSha256 = sha256 c.source ∧ c.parameters = step.parameters ∧
      Planned python r r' step c := by
  obtain ⟨-, hkind, -, -, htool⟩ := canonicalize_ok hstep
  unfold compile at hc
  split at hc
  · rename_i hk
    obtain ⟨m, hm, hmskill, hmtool⟩ := htool (hkind.symm.trans hk)
    obtain ⟨m', hm', hskill', htool', hfits, rfl⟩ := compileToolStep_ok hc
    have hs : m'.skill = m.skill := Option.some.inj (hskill'.symm.trans hmskill)
    have ht : m'.tool = m.tool := Option.some.inj (htool'.symm.trans hmtool)
    have hreg := hr.registered hm
    have hreg' := hr'.registered hm'
    exact ⟨rfl, rfl, rfl, .tool m m' hk hreg hreg' ⟨hmskill, hs⟩ ⟨hmtool, ht⟩
      (hreg.source_eq hreg' ht) hfits rfl⟩
  · rename_i hk
    obtain ⟨hsequence, hsource, hsha, -, -, hparameters, body, name, hbody, hone⟩ :=
      compileCustomStep_ok hc
    have hrawkind : raw.planningKind = .customCode := hkind.symm.trans hk
    have hsame : step = raw := by
      unfold ToolRegistry.canonicalizeStepLineage at hstep
      rw [if_pos (by rw [hrawkind]; decide)] at hstep
      exact (Except.ok.inj hstep).symm
    have hnone : step.skill = none ∧ step.tool = none := hsame ▸ hlineage hrawkind
    exact ⟨hsequence, hsha, hparameters, .custom hk hnone hsource body name hbody hone⟩
  · exact absurd hc nofun

namespace Sample

/-- The Boolean fields take Booleans. -/
def readBool : PyJson .value → Option Bool
  | .bool b => some b
  | _ => none

/-- A directory with one Skill, whose Tool takes an integer. -/
def directory : SkillDirectory where
  inside := true
  manifest := some
    (PyText.ofString "\x7b\"skill\":\x7b\"name\":\"s\",\"version\":\"1\"\x7d,\"tools\":[\x7b" ++
      PyText.ofString
        "\"name\":\"f\",\"version\":\"1\",\"description\":\"\",\"creation_rationale\":\"\"," ++
      PyText.ofString "\"source\":\"f.py\",\"parameters\":\x7b\"n\":\x7b" ++
      PyText.ofString "\"type\":\"integer\",\"required\":true\x7d\x7d\x7d]\x7d")
  skillMd := some (PyText.ofString "---\ndescription: d\n---")
  file := fun _ => ⟨true, some (PyText.ofString "def f(n): pass")⟩

/-- The registry that has read this directory. -/
def registry : ToolRegistry := ({} : ToolRegistry).load readBool [directory]

/-- The registry of the sample is reachable. -/
theorem registry_reachable : (loading readBool).Reachable registry :=
  .next (.start rfl) trivial rfl

/-- A Step of the Tool, with digests that are not those of the registry. -/
def step : StepDraft where
  sequence := 0
  title := "t"
  purpose := "p"
  planningKind := .toolPlan
  skill := some ⟨"s", "1", 0⟩
  tool := some ⟨"f", "1", 0⟩
  parameters := Dictionary.empty.insert (PyText.ofString "n") (.number (.int 1))
  selectionRationale := "r"
  expectedOutputs := []
  validationCriteria := []
  timeoutSeconds := 300
  customCode := none

/-- A plan with this Step. -/
def draft : PlanDraft := ⟨"o", "s", .single, "basic", [step], [], []⟩

/-- The draft of the sample is valid. -/
theorem draft_valid : ValidPlan draft where
  steps_nonempty := by simp [draft]
  steps_length := by simp [draft]
  sequences := rfl
  lineage_of_tool := by simp [draft, step]
  lineage_of_code := by simp [draft, step]

/-- The selector names the Skill with its version. -/
def answers : Answers where
  first := .ok ⟨["s@1"], "r", by simp, by decide⟩
  second := .error .raised
  plan := some ⟨draft, draft_valid⟩

/-- A plan of Tools in one run. -/
def context : PlannerContext := ⟨.toolPlan, .single, "risk", true, fun _ => true⟩


/-- An interpreter that writes one digit and parses no source. -/
def python : Interpreter := ⟨fun _ => [49], fun _ => none⟩

/-- The planner of the sample gives a plan, and the compiler compiles it. -/
theorem exists_planned : ∃ p cs, plan registry context answers answers = .ok p ∧
    p.steps.mapM (compile python registry) = .ok cs := by
  have hok : ((plan registry context answers answers).toOption.bind fun p =>
      (p.steps.mapM (compile python registry)).toOption).isSome = true := by decide +kernel
  obtain ⟨cs, h⟩ := Option.isSome_iff_exists.mp hok
  obtain ⟨p, hp, hcs⟩ := Option.bind_eq_some_iff.mp h
  exact ⟨p, cs, Fallible.toOption_eq_some.mp hp, Fallible.toOption_eq_some.mp hcs⟩

end Sample

/-- Whatever the models answer and however the files of the registry change: a plan is of the mode
that was asked for, with one Step in the adaptive mode; what its Steps are compiled to, by the
registry then, is the source of the registered Tool that they name by its digest with a call of it,
or their own code; and with the registry of the plan a Step of a Tool is refused for its parameters
only. -/
theorem planned_code (python : Interpreter) {readBool : PyJson .value → Option Bool}
    {r r' : ToolRegistry}
    (hr : (loading readBool).Reachable r) (hr' : (loading readBool).Reachable r')
    {context : PlannerContext}
    {first second : Answers} {p : PlanDraft} (hp : plan r context first second = .ok p) :
    p.executionMode = context.executionMode ∧ (p.executionMode = .multi → p.steps.length = 1) ∧
    p.steps.map StepDraft.sequence = List.range p.steps.length ∧
    (∀ cs, p.steps.mapM (compile python r') = .ok cs → List.Forall₂ (fun step c =>
      c.sequence = step.sequence ∧ c.sourceSha256 = sha256 c.source ∧
        c.parameters = step.parameters ∧
        Planned python r r' step c) p.steps cs) ∧
    ∀ step ∈ p.steps, step.planningKind = .toolPlan → ∀ err, compile python r step = .error err →
      err.OfParameters := by
  have hsound := loaded_sound hr
  have hsound' := loaded_sound hr'
  obtain ⟨answers, hp⟩ := plan_ok hp
  obtain ⟨raw, hvalid, hmode, hpmode, hmulti, hsteps⟩ := planOnce_ok hp
  have hlength : raw.steps.length = p.steps.length := hsteps.length_eq
  refine ⟨hpmode.trans hmode, fun hm => ?_, ?_, fun cs hcs => ?_,
    fun step hstep hkind err herr => ?_⟩
  · -- In the adaptive mode there is one Step.
    rw [← hlength]
    exact hmulti (hpmode ▸ hm)
  · -- The Steps are numbered from zero.
    rw [← hlength, ← hvalid.sequences]
    apply List.ext_getElem
    · simp [hlength]
    · intro i hi hi'
      rw [List.getElem_map, List.getElem_map]
      exact (canonicalize_ok (hsteps.get (by simpa using hi') (by simpa using hi))).1
  · -- Each Step is compiled to the code of its Tool, or to its own.
    have hcompiled := Fallible.mapM_eq_ok.mp hcs
    apply List.forall₂_iff_get.mpr
    refine ⟨hcompiled.length_eq, fun i hi hi' => ?_⟩
    have hraw : i < raw.steps.length := hlength ▸ hi
    exact planned_step python hsound hsound'
      (fun hk => (hvalid.lineage_of_code _ (List.get_mem _ ⟨i, hraw⟩) hk).2.2)
      (hsteps.get hraw hi) (hcompiled.get hi hi')
  · -- A Step of a Tool is refused by the check of its parameters alone.
    obtain ⟨i, hi, rfl⟩ := List.getElem_of_mem hstep
    have hraw : i < raw.steps.length := hlength ▸ hi
    obtain ⟨-, hk, -, -, htool⟩ := canonicalize_ok (hsteps.get hraw hi)
    obtain ⟨m, hm, hskill, htool⟩ := htool (hk.symm.trans hkind)
    unfold compile at herr
    rw [hkind] at herr
    exact compileToolStep_error hsound hm hskill htool herr

/-- A Step whose digests the planner made up. -/
theorem planned_code_sample :
    ∃ p cs, plan Sample.registry Sample.context Sample.answers Sample.answers = .ok p ∧
    p.steps.mapM (compile Sample.python Sample.registry) = .ok cs ∧
    List.Forall₂ (Planned Sample.python Sample.registry Sample.registry) p.steps cs := by
  obtain ⟨p, cs, hp, hcs⟩ := Sample.exists_planned
  have h := planned_code Sample.python Sample.registry_reachable Sample.registry_reachable hp
  exact ⟨p, cs, hp, hcs, (h.2.2.2.1 cs hcs).imp fun _ _ hc => hc.2.2.2⟩

end ExAgent.Tools
