import ExAgent.Workflows.Templates

/-!
# When a template restores the parameters

What `_template_plan` returns (`Templated`) and what `bind_workflow_inputs` makes of it: together
they restore the parameters of a source exactly where in no Step two names are normalised alike and
no default has the shape of a placeholder (`template_restores_iff`). The values of the source always
fit the contract, so that the condition is also needed: a default with the shape of a placeholder
would have to equal the value of an input whatever this value is.
-/

namespace ExAgent.Workflows.Templates

open Lib Lib.JsonText

/-! ## Names of inputs -/

/-- The name of an input tells the Step, and the normalised name of the parameter. -/
theorem inputName_inj {i j : ℕ} {p q : PyText} (h : inputName i p = inputName j q) :
    i = j ∧ normalized p = normalized q := by
  have hdigits : ∀ n : ℕ, ∀ c ∈ (decimal n).map Char.toNat, (decide (c ≠ 95)) = true := by
    intro n c hc
    obtain ⟨d, hd, rfl⟩ := List.mem_map.mp hc
    have hbounds := DecimalText.isDigit_bounds (DecimalText.digits_decimal n d hd)
    exact decide_eq_true (by omega)
  have htake : ∀ (n : ℕ) (rest : PyText),
      ((decimal n).map Char.toNat ++ 95 :: rest).takeWhile (· ≠ 95) = (decimal n).map Char.toNat ∧
        ((decimal n).map Char.toNat ++ 95 :: rest).dropWhile (· ≠ 95) = 95 :: rest := by
    intro n rest
    rw [List.takeWhile_append_of_pos (hdigits n), List.dropWhile_append_of_pos (hdigits n)]
    simp
  unfold inputName at h
  rw [List.append_assoc, List.append_assoc] at h
  have hrest := List.append_cancel_left h
  have hfirst := congrArg (List.takeWhile (· ≠ 95)) hrest
  have hlast := congrArg (List.dropWhile (· ≠ 95)) hrest
  rw [(htake i _).1, (htake j _).1] at hfirst
  rw [(htake i _).2, (htake j _).2] at hlast
  have hchars : Function.Injective Char.toNat := fun a b hab => by
    rw [← Char.ofNat_toNat a, hab, Char.ofNat_toNat]
  exact ⟨DecimalText.decimal_injective (List.map_injective_iff.mpr hchars hfirst),
    (List.cons.inj hlast).2⟩

/-! ## What a template is -/

/-- The value of a parameter in the template. -/
def templateValue (publicDefaults : Values) (i : ℕ) (name : PyText) : PyJson .value :=
  (publicDefaults.get (inputName i name)).getD (placeholder (inputName i name))

/-- The contract has an entry for every parameter that was seen and has no default, and no others;
the defaults have the types of the parameters. -/
structure Covers (publicDefaults : Values) (seen : ℕ → PyText → String → Prop)
    (contract : InputContract) :
    Prop where
  entry : ∀ n e, contract.get n = some e → seen e.stepSequence e.parameterName e.type ∧
    inputName e.stepSequence e.parameterName = n ∧ publicDefaults.get n = none
  covered : ∀ i name type, seen i name type → publicDefaults.get (inputName i name) = none →
    inputName i name ∈ contract.keys
  defaults : ∀ i name type, seen i name type →
    ∀ value, publicDefaults.get (inputName i name) = some value → matchesType value type = true

section Restoring

variable {publicDefaults : Values} {seen : ℕ → PyText → String → Prop} {i : ℕ}

/-- Only what was seen counts. -/
theorem Covers.congr {contract : InputContract} (h : Covers publicDefaults seen contract)
    {seen' : ℕ → PyText → String → Prop}
    (heq : ∀ i name type, seen i name type ↔ seen' i name type) :
    Covers publicDefaults seen' contract := by
  have hsame : seen = seen' :=
    funext fun i => funext fun name => funext fun type => propext (heq i name type)
  rw [← hsame]
  exact h

/-- One parameter. -/
theorem templateParameter_ok {manifest : ToolManifest} {t t' : Templating} {name : PyText}
    (h : templateParameter manifest publicDefaults i t name = .ok t') :
    ∃ specification, manifest.parameters.get name = some specification ∧
      t'.parameters = t.parameters.insert name (templateValue publicDefaults i name) ∧
      t'.expected = inputName i name :: t.expected ∧
      ∀ seen, Covers publicDefaults seen t.contract → Covers publicDefaults
        (fun i' name' type => seen i' name' type ∨ i' = i ∧ name' = name ∧
          type = specification.type)
        t'.contract := by
  unfold templateParameter at h
  dsimp only at h
  cases hspec : manifest.parameters.get name with
  | none =>
    rw [hspec] at h
    cases h
  | some specification =>
    rw [hspec] at h
    dsimp only at h
    refine ⟨specification, rfl, ?_⟩
    cases hdefault : publicDefaults.get (inputName i name) with
    -- A default is checked against the declared type and taken.
    | some value =>
      rw [hdefault] at h
      obtain ⟨_, hvalid, h⟩ := Fallible.bind_eq_ok.mp h
      obtain rfl := Except.ok.inj h
      have htype : matchesType value specification.type = true := by
        unfold validateValue at hvalid
        split_ifs at hvalid with htype
        exact htype
      refine ⟨by unfold templateValue; rw [hdefault]; rfl, rfl, fun seen hcovers => ⟨?_, ?_, ?_⟩⟩
      · intro n e he
        exact (hcovers.entry n e he).imp_left .inl
      · rintro i' name' type (hseen | ⟨rfl, rfl, rfl⟩) hnone
        · exact hcovers.covered i' name' type hseen hnone
        · rw [hdefault] at hnone
          cases hnone
      · rintro i' name' type (hseen | ⟨rfl, rfl, rfl⟩) value' hvalue
        · exact hcovers.defaults i' name' type hseen value' hvalue
        · rw [hdefault] at hvalue
          obtain rfl := Option.some.inj hvalue
          exact htype
    -- Without a default the parameter becomes an input.
    | none =>
      rw [hdefault] at h
      obtain rfl := Except.ok.inj h
      refine ⟨by unfold templateValue; rw [hdefault]; rfl, rfl, fun seen hcovers => ⟨?_, ?_, ?_⟩⟩
      · intro n e he
        rw [Dictionary.get_insert] at he
        split_ifs at he with hn
        · obtain rfl := Option.some.inj he
          rw [hn]
          exact ⟨.inr ⟨rfl, rfl, rfl⟩, rfl, hdefault⟩
        · exact (hcovers.entry n e he).imp_left .inl
      · rintro i' name' type hseen hnone
        rw [Dictionary.mem_keys_iff]
        by_cases hn : inputName i' name' = inputName i name
        · exact ⟨_, by rw [Dictionary.get_insert, if_pos hn]⟩
        · rcases hseen with hseen | ⟨rfl, rfl, -⟩
          · obtain ⟨e, he⟩ := Dictionary.mem_keys_iff.mp (hcovers.covered i' name' type hseen hnone)
            exact ⟨e, by rw [Dictionary.get_insert, if_neg hn, he]⟩
          · exact absurd rfl hn
      · rintro i' name' type (hseen | ⟨rfl, rfl, rfl⟩) value' hvalue
        · exact hcovers.defaults i' name' type hseen value' hvalue
        · rw [hdefault] at hvalue
          cases hvalue

/-- The parameters of a Step. -/
theorem foldlM_templateParameter {manifest : ToolManifest} {names : List PyText} {t t' : Templating}
    (h : names.foldlM (templateParameter manifest publicDefaults i) t = .ok t') :
    (∀ q, t'.parameters.get q =
      if q ∈ names then some (templateValue publicDefaults i q) else t.parameters.get q) ∧
      (∀ n ∈ t'.expected, n ∈ t.expected ∨ ∃ name ∈ names, n = inputName i name) ∧
      (∀ seen, Covers publicDefaults seen t.contract → Covers publicDefaults
        (fun i' name type => seen i' name type ∨ i' = i ∧ name ∈ names ∧
          ∃ specification, manifest.parameters.get name = some specification ∧
          type = specification.type)
        t'.contract) := by
  induction names generalizing t with
  | nil =>
    obtain rfl := Except.ok.inj h
    refine ⟨fun q => by simp, fun n hn => .inl hn,
      fun seen hcovers => hcovers.congr fun i' name type => ?_⟩
    simp
  | cons name rest ih =>
    rw [List.foldlM_cons] at h
    obtain ⟨t₁, hfirst, hrest⟩ := Fallible.bind_eq_ok.mp h
    obtain ⟨specification, hspec, hparameters, hexpected, hcovers₁⟩ := templateParameter_ok hfirst
    obtain ⟨hget, hnames, hcovers₂⟩ := ih hrest
    refine ⟨fun q => ?_, fun n hn => ?_, fun seen hcovers => ?_⟩
    · rw [hget, hparameters, Dictionary.get_insert]
      by_cases hq : q = name
      · rw [hq]
        simp
      · simp [hq]
    · -- A declared name belongs to the first parameter or to a later one.
      rcases hnames n hn with hn | ⟨name', hname', rfl⟩
      · rw [hexpected] at hn
        rcases List.mem_cons.mp hn with rfl | hn
        · exact .inr ⟨name, List.mem_cons_self, rfl⟩
        · exact .inl hn
      · exact .inr ⟨name', List.mem_cons_of_mem _ hname', rfl⟩
    · refine (hcovers₂ _ (hcovers₁ seen hcovers)).congr fun i' name' type => ?_
      constructor
      · rintro ((hseen | ⟨rfl, rfl, rfl⟩) | ⟨rfl, hmem, hspec'⟩)
        · exact .inl hseen
        · exact .inr ⟨rfl, List.mem_cons_self, specification, hspec, rfl⟩
        · exact .inr ⟨rfl, List.mem_cons_of_mem _ hmem, hspec'⟩
      · rintro (hseen | ⟨rfl, hmem, specification', hspec', rfl⟩)
        · exact .inl (.inl hseen)
        · rcases List.mem_cons.mp hmem with rfl | hmem
          · rw [hspec] at hspec'
            obtain rfl := Option.some.inj hspec'
            exact .inl (.inr ⟨rfl, rfl, rfl⟩)
          · exact .inr ⟨rfl, hmem, specification', hspec', rfl⟩

/-- A Step of the source runs a tool whose manifest has the parameter, with this type. -/
def Runs (getTool : String → Option ToolManifest) (row : SuccessfulExecutionStep) (name : PyText)
    (type : String) : Prop :=
  ∃ tool manifest specification, row.step.tool = some tool ∧ getTool tool.name = some manifest ∧
    name ∈ row.step.parameters.keys ∧ manifest.parameters.get name = some specification ∧
    type = specification.type

variable {getTool : String → Option ToolManifest}

/-- One Step. -/
theorem templateStep_ok {t t' : TemplateState} {row : SuccessfulExecutionStep}
    (h : templateStep getTool publicDefaults t (row, i) = .ok t') :
    (∃ step, t'.steps = t.steps ++ [step] ∧ ∀ q, step.parameters.get q =
      (row.step.parameters.get q).map fun _ => templateValue publicDefaults i q) ∧
      (∀ n ∈ t'.expected, n ∈ t.expected ∨ ∃ name ∈ row.step.parameters.keys,
      n = inputName i name) ∧
      (∀ seen, Covers publicDefaults seen t.contract → Covers publicDefaults
        (fun i' name type => seen i' name type ∨ i' = i ∧ Runs getTool row name type)
        t'.contract) := by
  unfold templateStep at h
  dsimp only at h
  cases htool : row.step.tool with
  | none =>
    rw [htool] at h
    cases h
  | some tool =>
    rw [htool] at h
    dsimp only at h
    cases hmanifest : getTool tool.name with
    | none =>
      rw [hmanifest] at h
      cases h
    | some manifest =>
      rw [hmanifest] at h
      obtain ⟨result, hresult, h⟩ := Fallible.bind_eq_ok.mp h
      obtain rfl := Except.ok.inj h
      -- The parameters of the Step are those of its row, each with its template value.
      obtain ⟨hget, hexpected, hcovers⟩ := foldlM_templateParameter hresult
      refine ⟨⟨_, rfl, fun q => ?_⟩, hexpected,
        fun seen hseen => (hcovers seen hseen).congr fun i' name type => ?_⟩
      · show result.parameters.get q = _
        rw [hget]
        by_cases hq : q ∈ row.step.parameters.keys
        · obtain ⟨v, hv⟩ := Dictionary.mem_keys_iff.mp hq
          rw [if_pos hq, hv]
          rfl
        · have hnone : row.step.parameters.get q = none :=
            Option.eq_none_iff_forall_ne_some.mpr fun v hv =>
              hq (Dictionary.mem_keys_iff.mpr ⟨v, hv⟩)
          rw [if_neg hq, hnone]
          rfl
      · -- What the contract has seen of this Step is what its tool declares.
        refine or_congr_right (and_congr_right fun _ => ?_)
        constructor
        · rintro ⟨hmem, specification, hspec, rfl⟩
          exact ⟨tool, manifest, specification, htool, hmanifest, hmem, hspec, rfl⟩
        · rintro ⟨tool', manifest', specification, htool', hmanifest', hmem, hspec, rfl⟩
          rw [htool] at htool'
          obtain rfl := Option.some.inj htool'
          rw [hmanifest] at hmanifest'
          obtain rfl := Option.some.inj hmanifest'
          exact ⟨hmem, specification, hspec, rfl⟩

/-- The Steps from some place on. -/
theorem foldlM_templateStep {rows : List SuccessfulExecutionStep} {k : ℕ} {t t' : TemplateState}
    (h : (rows.zipIdx k).foldlM (templateStep getTool publicDefaults) t = .ok t') :
    (∃ new, t'.steps = t.steps ++ new ∧ new.length = rows.length ∧
      ∀ j (row : SuccessfulExecutionStep) (step : StepDraft), rows[j]? = some row →
        new[j]? = some step → ∀ q, step.parameters.get q =
        (row.step.parameters.get q).map fun _ => templateValue publicDefaults (k + j) q) ∧
      (∀ n ∈ t'.expected, n ∈ t.expected ∨ ∃ j, ∃ row : SuccessfulExecutionStep,
        rows[j]? = some row ∧
        ∃ name ∈ row.step.parameters.keys, n = inputName (k + j) name) ∧
      (∀ seen, Covers publicDefaults seen t.contract → Covers publicDefaults
        (fun i name type => seen i name type ∨ ∃ j row, i = k + j ∧ rows[j]? = some row ∧
          Runs getTool row name type) t'.contract) := by
  induction rows generalizing k t with
  | nil =>
    obtain rfl := Except.ok.inj h
    refine ⟨⟨[], (List.append_nil _).symm, rfl, fun j row step hrow => ?_⟩, fun n hn => .inl hn,
      fun seen hcovers => hcovers.congr fun i name type => ?_⟩
    · simp at hrow
    · simp
  | cons row rows ih =>
    rw [List.zipIdx_cons, List.foldlM_cons] at h
    obtain ⟨t₁, hfirst, hrest⟩ := Fallible.bind_eq_ok.mp h
    -- The first Step, and then the rest from the next place on.
    obtain ⟨⟨step, hstep, hget⟩, hexpected, hcovers⟩ := templateStep_ok hfirst
    obtain ⟨⟨new, hnew, hlength, hgets⟩, hexpecteds, hcoverss⟩ := ih hrest
    refine ⟨⟨step :: new, ?_, ?_, ?_⟩, ?_, ?_⟩
    · rw [hnew, hstep, List.append_assoc]
      rfl
    · rw [List.length_cons, hlength, List.length_cons]
    · intro j row' step' hrow' hstep'
      cases j with
      | zero =>
        obtain rfl := Option.some.inj hrow'
        obtain rfl := Option.some.inj hstep'
        exact hget
      | succ j =>
        rw [show k + (j + 1) = k + 1 + j by omega]
        exact hgets j row' step' hrow' hstep'
    · -- A declared name belongs to the first Step or to a later one.
      intro n hn
      rcases hexpecteds n hn with hn | ⟨j, row', hrow', name, hname, rfl⟩
      · rcases hexpected n hn with hn | ⟨name, hname, rfl⟩
        · exact .inl hn
        · exact .inr ⟨0, row, rfl, name, hname, rfl⟩
      · exact .inr ⟨j + 1, row', hrow', name, hname, by rw [show k + (j + 1) = k + 1 + j by omega]⟩
    · -- The contract has seen the first Step's parameters and those of the later ones.
      refine fun seen hseen => (hcoverss _ (hcovers seen hseen)).congr fun i name type => ?_
      constructor
      · rintro ((hseen | ⟨rfl, hruns⟩) | ⟨j, row', rfl, hrow', hruns⟩)
        · exact .inl hseen
        · exact .inr ⟨0, row, rfl, rfl, hruns⟩
        · exact .inr ⟨j + 1, row', by omega, hrow', hruns⟩
      · rintro (hseen | ⟨j, row', rfl, hrow', hruns⟩)
        · exact .inl (.inl hseen)
        · cases j with
          | zero =>
            obtain rfl := Option.some.inj hrow'
            exact .inl (.inr ⟨rfl, hruns⟩)
          | succ j => exact .inr ⟨j, row', by omega, hrow', hruns⟩

/-- What `_template_plan` returns. -/
structure Templated (getTool : String → Option ToolManifest) (source : PromotionSource)
    (publicDefaults : Values) (template : PlanDraft) (contract : InputContract) : Prop where
  length : template.steps.length = source.steps.length
  parameters : ∀ i (row : SuccessfulExecutionStep) (step : StepDraft), source.steps[i]? = some row →
    template.steps[i]? = some step → ∀ q, step.parameters.get q =
      (row.step.parameters.get q).map fun _ => templateValue publicDefaults i q
  covers : Covers publicDefaults
    (fun i name type => ∃ row, source.steps[i]? = some row ∧ Runs getTool row name type) contract
  expected : ∀ n value, publicDefaults.get n = some value → ∃ i, ∃ row : SuccessfulExecutionStep,
    source.steps[i]? = some row ∧ ∃ name ∈ row.step.parameters.keys, n = inputName i name

/-- A template that is given is templated from its source. -/
theorem templatePlan_ok {source : PromotionSource} {template : PlanDraft} {contract : InputContract}
    (h : templatePlan getTool source publicDefaults = .ok (template, contract)) :
    Templated getTool source publicDefaults template contract := by
  unfold templatePlan at h
  cases hsteps : source.steps with
  | nil =>
    rw [hsteps] at h
    cases h
  | cons first rest =>
    rw [hsteps] at h
    dsimp only at h
    cases hbase : source.plansByRevision first.sourcePlanRevisionId with
    | none =>
      rw [hbase] at h
      cases h
    | some base =>
      rw [hbase] at h
      obtain ⟨t, ht, h⟩ := Fallible.bind_eq_ok.mp h
      split_ifs at h with hunknown
      obtain ⟨rfl, rfl⟩ := Prod.mk.inj (Except.ok.inj h)
      rw [← hsteps] at ht
      obtain ⟨⟨new, hnew, hlength, hgets⟩, hexpected, hcovers⟩ := foldlM_templateStep ht
      have hall : t.steps = new := hnew
      have hnone : Covers publicDefaults (fun _ _ _ => False) ({} : TemplateState).contract :=
        ⟨nofun, nofun, nofun⟩
      refine ⟨?_, ?_, (hcovers _ hnone).congr fun i name type => ?_, ?_⟩
      · show t.steps.length = _
        rw [hall, hlength]
      · intro i row step hrow hstep q
        have hstep' : new[i]? = some step := hall ▸ hstep
        rw [hgets i row step hrow hstep' q, Nat.zero_add]
      · constructor
        · rintro (hno | ⟨j, row, rfl, hrow, hruns⟩)
          · exact hno.elim
          · rw [Nat.zero_add]
            exact ⟨row, hrow, hruns⟩
        · rintro ⟨row, hrow, hruns⟩
          exact .inr ⟨i, row, (Nat.zero_add i).symm, hrow, hruns⟩
      · intro n value hvalue
        have hkey : n ∈ publicDefaults.keys := Dictionary.mem_keys_iff.mpr ⟨value, hvalue⟩
        have hin : n ∈ t.expected := by
          by_contra hnot
          have hmem : n ∈ publicDefaults.keys.filter fun name => name ∉ t.expected :=
            List.mem_filter.mpr ⟨hkey, decide_eq_true hnot⟩
          rw [not_not.mp hunknown] at hmem
          cases hmem
        rcases hexpected n hin with hno | ⟨j, row, hrow, name, hname, rfl⟩
        · cases hno
        · rw [Nat.zero_add]
          exact ⟨j, row, hrow, name, hname, rfl⟩

/-! ## What binding does -/

variable {spell : PyJson .value → PyText} {contract : InputContract} {inputValues : Values}

/-- The values have the inputs of the contract, and their types. -/
structure Fits (contract : InputContract) (inputValues : Values) : Prop where
  keys : ∀ name, name ∈ inputValues.keys ↔ name ∈ contract.keys
  types : ∀ name e, contract.get name = some e → ∃ value, inputValues.get name = some value ∧
    matchesType value e.type = true

/-- Inputs that are all there are validated by their types. -/
theorem validateInputs_cases {entries : List (PyText × InputSpecification)}
    (hkeys : ∀ e ∈ entries, e.1 ∈ inputValues.keys) :
    (validateInputs inputValues entries = .ok () ∧
      ∀ e ∈ entries, ∃ value, inputValues.get e.1 = some value ∧
      matchesType value e.2.type = true) ∨
      ∃ name type, validateInputs inputValues entries = .error (.invalidValue name type) ∧
        ∃ e ∈ entries, ∀ value, inputValues.get e.1 = some value →
        matchesType value e.2.type = false := by
  induction entries with
  | nil => exact .inl ⟨rfl, nofun⟩
  | cons e rest ih =>
    obtain ⟨value, hvalue⟩ := Dictionary.mem_keys_iff.mp (hkeys e List.mem_cons_self)
    unfold validateInputs
    rw [hvalue]
    dsimp only
    unfold validateValue
    cases htype : matchesType value e.2.type with
    | false =>
      refine .inr ⟨e.1, e.2.type, rfl, e, List.mem_cons_self, fun value' hvalue' => ?_⟩
      rw [hvalue] at hvalue'
      rw [← Option.some.inj hvalue']
      exact htype
    | true =>
      rcases ih fun e' he' =>
        hkeys e' (List.mem_cons_of_mem _ he') with ⟨hok, hall⟩ | ⟨name, type, herr, e', he', hbad⟩
      · refine .inl ⟨hok, fun e' he' => ?_⟩
        rcases List.mem_cons.mp he' with rfl | he'
        · exact ⟨value, hvalue, htype⟩
        · exact hall e' he'
      · exact .inr ⟨name, type, herr, e', List.mem_cons_of_mem _ he', hbad⟩

/-- Keys that are all among others leave none over. -/
theorem filter_eq_nil_iff_subset (names others : List PyText) :
    (names.filter fun name => name ∉ others) = [] ↔ ∀ name ∈ names, name ∈ others := by
  rw [List.filter_eq_nil_iff]
  simp

/-- Binding resolves the parameters of values that fit the contract; it raises something else than
`KeyError` for values that do not. -/
theorem bindWorkflowInputs_cases (spell : PyJson .value → PyText) (plan : PlanDraft)
    (contract : InputContract) (inputValues : Values) :
    (Fits contract inputValues ∧ bindWorkflowInputs spell plan contract inputValues =
      (plan.steps.mapM (bindStep spell inputValues)).map fun steps =>
        { plan with executionMode := .single, steps }) ∨
      ¬Fits contract inputValues ∧
        ∃ e, bindWorkflowInputs spell plan contract inputValues = .error e ∧ e ≠ .keyError := by
  unfold bindWorkflowInputs
  dsimp only
  by_cases hmissing : (contract.keys.filter fun name => name ∉ inputValues.keys) = []
  · rw [if_neg (not_not.mpr hmissing)]
    have hall := (filter_eq_nil_iff_subset _ _).mp hmissing
    by_cases hunknown : (inputValues.keys.filter fun name => name ∉ contract.keys) = []
    · rw [if_neg (not_not.mpr hunknown)]
      have hnone := (filter_eq_nil_iff_subset _ _).mp hunknown
      have hkeys : ∀ e ∈ contract.entries, e.1 ∈ inputValues.keys := fun e he =>
        hall e.1 (List.mem_map_of_mem he)
      rcases validateInputs_cases hkeys with ⟨hok, htypes⟩ | ⟨name, type, herr, e, he, hbad⟩
      · refine .inl ⟨⟨fun name => ⟨hnone name, hall name⟩, fun name e he => ?_⟩, ?_⟩
        · exact htypes (name, e) (Dictionary.mem_entries_iff.mpr he)
        · rw [hok]
          cases plan.steps.mapM (bindStep spell inputValues) with
          | ok steps => rfl
          | error err => rfl
      · refine .inr ⟨fun hfits => ?_, .invalidValue name type, by rw [herr]; rfl, nofun⟩
        obtain ⟨value, hvalue, htype⟩ := hfits.types e.1 e.2 (Dictionary.mem_entries_iff.mp he)
        rw [hbad value hvalue] at htype
        cases htype
    · rw [if_pos hunknown]
      refine .inr ⟨fun hfits => hunknown ?_, _, rfl, nofun⟩
      exact (filter_eq_nil_iff_subset _ _).mpr fun name hname => (hfits.keys name).mp hname
  · rw [if_pos hmissing]
    refine .inr ⟨fun hfits => hmissing ?_, _, rfl, nofun⟩
    exact (filter_eq_nil_iff_subset _ _).mpr fun name hname => (hfits.keys name).mpr hname

/-- Resolving a parameter raises nothing but `KeyError`. -/
theorem resolveParameter_error {value : PyJson .value} {e : TemplateError}
    (h : resolveParameter spell inputValues value = .error e) : e = .keyError := by
  unfold resolveParameter at h
  split at h
  · split at h
    · cases h
    · exact (Except.error.inj h).symm
  · cases h

/-- Nor does resolving the parameters of Steps. -/
theorem bindSteps_error {steps : List StepDraft} {e : TemplateError}
    (h : steps.mapM (bindStep spell inputValues) = .error e) : e = .keyError := by
  obtain ⟨step, -, hstep⟩ := Fallible.mapM_eq_error h
  unfold bindStep at hstep
  cases hbuild : step.parameters.build fun _ value => resolveParameter spell inputValues value with
  | ok parameters =>
    rw [hbuild] at hstep
    cases hstep
  | error e' =>
    rw [hbuild] at hstep
    obtain rfl : e' = e := Except.error.inj hstep
    obtain ⟨name, value, -, hresolve⟩ := Dictionary.build_eq_error hbuild
    exact resolveParameter_error hresolve

/-- The parameters of a bound Step. -/
theorem bindStep_ok {step step' : StepDraft} (h : bindStep spell inputValues step = .ok step') :
    ∀ name, (step.parameters.get name = none → step'.parameters.get name = none) ∧
      ∀ value, step.parameters.get name = some value →
        ∃ w, resolveParameter spell inputValues value = .ok w ∧
        step'.parameters.get name = some w := by
  obtain ⟨parameters, hbuild, rfl⟩ := Fallible.map_eq_ok.mp h
  exact Dictionary.build_eq_ok.mp hbuild

/-- The value of an input is put in place of its name. -/
theorem resolveParameter_placeholder (name : PyText) :
    resolveParameter spell inputValues (placeholder name) =
      match inputValues.get name with
      | some v => .ok v
      | none => .error .keyError := by
  have hof : placeholderOf (placeholder name) = some (.text name) := rfl
  unfold resolveParameter
  rw [hof]
  rfl

/-- Another value stays. -/
theorem resolveParameter_of_none {value : PyJson .value} (h : placeholderOf value = none) :
    resolveParameter spell inputValues value = .ok value := by
  unfold resolveParameter
  rw [h]

/-! ## The condition is enough -/

variable {source : PromotionSource} {template : PlanDraft}

/-- A parameter of the source has its Step in the template. -/
theorem Templated.step
    (h : Templated getTool source publicDefaults template contract) {name : PyText}
    {value : PyJson .value} (hhas : source.Has i name value) :
    ∃ step, template.steps[i]? = some step ∧
      step.parameters.get name = some (templateValue publicDefaults i name) := by
  obtain ⟨row, hrow, hvalue⟩ := hhas
  obtain ⟨hi, -⟩ := List.getElem?_eq_some_iff.mp hrow
  have hstep := List.getElem?_eq_getElem (h.length.symm ▸ hi : i < template.steps.length)
  refine ⟨_, hstep, ?_⟩
  rw [h.parameters i row _ hrow hstep, hvalue]
  rfl

/-- Where the manifests accept the parameters, the contract has those without a default. -/
theorem Templated.mem_contract (h : Templated getTool source publicDefaults template contract)
    (haccepted : source.Accepted getTool) {name : PyText} {value : PyJson .value}
    (hhas : source.Has i name value)
    (hnone : publicDefaults.get (inputName i name) = none) : inputName i name ∈ contract.keys := by
  obtain ⟨row, hrow, hvalue⟩ := hhas
  obtain ⟨tool, manifest, htool, hmanifest, hall⟩ := haccepted row (List.mem_of_getElem? hrow)
  obtain ⟨specification, hspec, -⟩ := hall name value hvalue
  exact h.covers.covered i name specification.type
    ⟨row, hrow, tool, manifest, specification, htool, hmanifest,
      Dictionary.mem_keys_iff.mpr ⟨value, hvalue⟩, hspec, rfl⟩ hnone

/-- An entry of the contract is about a parameter of the source, whose value has the type of the
entry. -/
theorem Templated.own_value (h : Templated getTool source publicDefaults template contract)
    (haccepted : source.Accepted getTool) {n : PyText} {e : InputSpecification}
    (he : contract.get n = some e) :
    ∃ value, source.Has e.stepSequence e.parameterName value ∧
      inputName e.stepSequence e.parameterName = n ∧ publicDefaults.get n = none ∧
      matchesType value e.type = true := by
  obtain ⟨⟨row, hrow, tool, manifest, specification, htool, hmanifest, hmem, hspec, htype⟩, hname,
    hnone⟩ :=
    h.covers.entry n e he
  obtain ⟨value, hvalue⟩ := Dictionary.mem_keys_iff.mp hmem
  obtain ⟨tool', manifest', htool', hmanifest', hall⟩ := haccepted row (List.mem_of_getElem? hrow)
  obtain ⟨specification', hspec', hmatches⟩ := hall e.parameterName value hvalue
  rw [htool] at htool'
  obtain rfl := Option.some.inj htool'
  rw [hmanifest] at hmanifest'
  obtain rfl := Option.some.inj hmanifest'
  rw [hspec] at hspec'
  obtain rfl := Option.some.inj hspec'
  exact ⟨value, ⟨row, hrow, hvalue⟩, hname, hnone, htype ▸ hmatches⟩

/-- Where no default is taken for a placeholder, a parameter is resolved to its default or its
input. -/
theorem resolve_templateValue (hdefaults : ∀ name value, publicDefaults.get name = some value →
    placeholderOf value = none) (i : ℕ) (name : PyText) :
    resolveParameter spell inputValues (templateValue publicDefaults i name) =
      match (publicDefaults.get (inputName i name)).or (inputValues.get (inputName i name)) with
      | some v => .ok v
      | none => .error .keyError := by
  unfold templateValue
  cases hdefault : publicDefaults.get (inputName i name) with
  | some value => exact resolveParameter_of_none (hdefaults _ value hdefault)
  | none => exact resolveParameter_placeholder _

/-- The parameters of a Step of the template are those of the Step of the source. -/
theorem Templated.has (h : Templated getTool source publicDefaults template contract)
    {step : StepDraft}
    (hstep : template.steps[i]? = some step) {name : PyText} {value : PyJson .value}
    (hvalue : step.parameters.get name = some value) :
    value = templateValue publicDefaults i name ∧ ∃ own, source.Has i name own := by
  obtain ⟨hi, -⟩ := List.getElem?_eq_some_iff.mp hstep
  have hrow := List.getElem?_eq_getElem (h.length ▸ hi : i < source.steps.length)
  rw [h.parameters i _ step hrow hstep, Option.map_eq_some_iff] at hvalue
  obtain ⟨own, hown, rfl⟩ := hvalue
  exact ⟨rfl, own, _, hrow, hown⟩

/-- Values that fit are bound. -/
theorem Templated.exists_bound (spell : PyJson .value → PyText)
    (h : Templated getTool source publicDefaults template contract)
    (haccepted : source.Accepted getTool)
    (hdefaults : ∀ name value, publicDefaults.get name = some value → placeholderOf value = none)
    (hfits : Fits contract inputValues) :
    ∃ steps, template.steps.mapM (bindStep spell inputValues) = .ok steps := by
  refine Fallible.exists_mapM fun step hmem => ?_
  obtain ⟨i, hi, hget⟩ := List.mem_iff_getElem.mp hmem
  have hstep : template.steps[i]? = some step := List.getElem?_eq_some_iff.mpr ⟨hi, hget⟩
  have hbuild : ∃ parameters, (step.parameters.build fun _ value =>
      resolveParameter spell inputValues value) = .ok parameters := by
    refine Dictionary.exists_build fun name value hvalue => ?_
    obtain ⟨rfl, own, hhas⟩ := h.has hstep hvalue
    rw [resolve_templateValue hdefaults]
    cases hdefault : publicDefaults.get (inputName i name) with
    | some value => exact ⟨value, rfl⟩
    | none =>
      obtain ⟨w, hw⟩ := Dictionary.mem_keys_iff.mp
        ((hfits.keys _).mpr (h.mem_contract haccepted hhas hdefault))
      rw [hw]
      exact ⟨w, rfl⟩
  obtain ⟨parameters, hparameters⟩ := hbuild
  exact ⟨_, Fallible.map_eq_ok.mpr ⟨parameters, hparameters, rfl⟩⟩

/-- A bound plan has the parameters of the template, resolved. -/
theorem bound_step {plan : PlanDraft}
    (h : bindWorkflowInputs spell template contract inputValues = .ok plan)
    {step : StepDraft} (hstep : template.steps[i]? = some step) :
    ∃ step', plan.steps[i]? = some step' ∧ bindStep spell inputValues step = .ok step' := by
  rcases bindWorkflowInputs_cases spell template contract inputValues with
    ⟨-, hbind⟩ | ⟨-, e, herr, -⟩
  · rw [hbind] at h
    obtain ⟨steps, hsteps, rfl⟩ := Fallible.map_eq_ok.mp h
    have hall := Fallible.mapM_eq_ok.mp hsteps
    obtain ⟨hi, hget⟩ := List.getElem?_eq_some_iff.mp hstep
    have hi' : i < steps.length := hall.length_eq ▸ hi
    refine ⟨steps[i], List.getElem?_eq_getElem hi', ?_⟩
    rw [← hget]
    exact List.Forall₂.get hall hi hi'
  · rw [herr] at h
    cases h

/-- Where names and defaults are separate, the parameters are restored. -/
theorem Templated.restores (h : Templated getTool source publicDefaults template contract)
    (haccepted : source.Accepted getTool) (hseparate : Separate source publicDefaults) :
    Restores spell source publicDefaults template contract where
  bound := by
    intro inputValues plan hbind i name value hhas
    obtain ⟨step, hstep, hget⟩ := h.step hhas
    obtain ⟨step', hstep', hbound⟩ := bound_step hbind hstep
    obtain ⟨w, hresolve, hw⟩ := (bindStep_ok hbound name).2 _ hget
    refine ⟨step', hstep', ?_⟩
    rw [resolve_templateValue hseparate.defaults] at hresolve
    -- What is resolved is the default or the input, and that is the value of the source.
    rw [hw]
    split at hresolve
    · rename_i v hv
      rw [hv, Except.ok.inj hresolve]
    · cases hresolve
  separate := by
    intro i name value j name' value' hhas hhas' hsame
    obtain ⟨rfl, hnormalized⟩ := inputName_inj hsame
    obtain ⟨row, hrow, hvalue⟩ := hhas
    obtain ⟨row', hrow', hvalue'⟩ := hhas'
    rw [hrow] at hrow'
    obtain rfl := Option.some.inj hrow'
    exact ⟨rfl, hseparate.names row (List.mem_of_getElem? hrow) name
      (Dictionary.mem_keys_iff.mpr ⟨_, hvalue⟩)
      name' (Dictionary.mem_keys_iff.mpr ⟨_, hvalue'⟩) hnormalized⟩
  reproduces := by
    intro inputValues hkeys hown
    -- The inputs of the source fit the contract.
    have hfits : Fits contract inputValues := by
      refine ⟨hkeys, fun n e he => ?_⟩
      obtain ⟨value, hhas, rfl, hnone, hmatches⟩ := h.own_value haccepted he
      have hinput := hown e.stepSequence e.parameterName value hhas
      rw [hnone, Option.none_or] at hinput
      exact ⟨value, hinput, hmatches⟩
    obtain ⟨steps, hsteps⟩ := h.exists_bound spell haccepted hseparate.defaults hfits
    rcases bindWorkflowInputs_cases spell template contract inputValues with ⟨-, hbind⟩ | ⟨hnot, -⟩
    · rw [hsteps] at hbind
      refine ⟨_, hbind, ?_⟩
      -- Step by step, the bound parameters are those of the source.
      have hall := Fallible.mapM_eq_ok.mp hsteps
      have hlength : steps.length = source.steps.length := hall.length_eq.symm.trans h.length
      refine List.ext_getElem? fun i => ?_
      rw [List.getElem?_map, List.getElem?_map]
      cases hrow : source.steps[i]? with
      | none =>
        have hnone : steps[i]? = none := by
          rw [List.getElem?_eq_none_iff] at hrow ⊢
          omega
        show Option.map _ steps[i]? = _
        rw [hnone]
        rfl
      | some row =>
        obtain ⟨hi, -⟩ := List.getElem?_eq_some_iff.mp hrow
        have hstep := List.getElem?_eq_getElem (h.length.symm ▸ hi : i < template.steps.length)
        obtain ⟨step', hstep', hbound⟩ := bound_step hbind hstep
        show Option.map StepDraft.parameters steps[i]? = _
        rw [show steps[i]? = some step' from hstep']
        refine congrArg some (Dictionary.ext_get fun name => ?_)
        have hget := h.parameters i row _ hrow hstep name
        cases hvalue : row.step.parameters.get name with
        | none =>
          rw [hvalue] at hget
          exact (bindStep_ok hbound name).1 hget
        | some value =>
          rw [hvalue] at hget
          obtain ⟨w, hresolve, hw⟩ := (bindStep_ok hbound name).2 _ hget
          rw [resolve_templateValue hseparate.defaults,
            hown i name value ⟨row, hrow, hvalue⟩] at hresolve
          rw [hw, ← Except.ok.inj hresolve]
    · exact absurd hfits hnot
  noKeyError := by
    intro inputValues herr
    rcases bindWorkflowInputs_cases spell template contract inputValues with
      ⟨hfits, hbind⟩ | ⟨-, e, herr', hne⟩
    · -- Inputs that fit raise no error; the others raise one of their own.
      obtain ⟨steps, hsteps⟩ := h.exists_bound spell haccepted hseparate.defaults hfits
      rw [hsteps] at hbind
      rw [hbind] at herr
      cases herr
    · rw [herr'] at herr
      exact hne (Except.error.inj herr)

/-! ## The condition is needed -/

/-- The value of the source for every input. -/
def ownValues (source : PromotionSource) (contract : InputContract) : Values :=
  contract.map fun _ e =>
    ((source.steps[e.stepSequence]?.bind fun row => row.step.parameters.get e.parameterName)).getD
      .none

/-- The values of the source fit the contract. -/
theorem Templated.fits_ownValues (h : Templated getTool source publicDefaults template contract)
    (haccepted : source.Accepted getTool) : Fits contract (ownValues source contract) where
  keys := by
    intro name
    rw [Dictionary.mem_keys_iff, Dictionary.mem_keys_iff]
    unfold ownValues
    rw [Dictionary.get_map]
    simp
  types := by
    intro n e he
    obtain ⟨value, ⟨row, hrow, hvalue⟩, -, -, hmatches⟩ := h.own_value haccepted he
    refine ⟨value, ?_, hmatches⟩
    unfold ownValues
    rw [Dictionary.get_map, he]
    show some ((source.steps[e.stepSequence]?.bind fun row =>
      row.step.parameters.get e.parameterName).getD .none) = some value
    rw [hrow, Option.bind_some, hvalue]
    rfl

/-- Another value of the same type also fits. -/
theorem Fits.insert (hfits : Fits contract inputValues) {name : PyText} {old new : PyJson .value}
    (hold : inputValues.get name = some old)
    (htype : ∀ type, matchesType old type = true → matchesType new type = true) :
    Fits contract (inputValues.insert name new) where
  keys := by
    intro n
    rw [← hfits.keys, Dictionary.mem_keys_iff, Dictionary.mem_keys_iff, Dictionary.get_insert]
    by_cases hn : n = name
    · rw [if_pos hn, hn, hold]
      simp
    · rw [if_neg hn]
  types := by
    intro n e he
    obtain ⟨value, hvalue, hmatches⟩ := hfits.types n e he
    rw [Dictionary.get_insert]
    by_cases hn : n = name
    · rw [if_pos hn]
      rw [hn, hold] at hvalue
      obtain rfl := Option.some.inj hvalue
      exact ⟨new, rfl, htype _ hmatches⟩
    · rw [if_neg hn]
      exact ⟨value, hvalue, hmatches⟩

/-- A value with the shape of a placeholder is an object. -/
theorem matchesType_of_placeholderOf {value name : PyJson .value}
    (h : placeholderOf value = some name)
    (type : String) (hmatches : matchesType value type = true) :
    matchesType (.dict .empty) type = true := by
  cases value with
  | dict members => exact hmatches
  | _ => cases h

/-- Where the parameters are restored, values that fit are bound. -/
theorem Restores.exists_plan (hrestores : Restores spell source publicDefaults template contract)
    (hfits : Fits contract inputValues) :
    ∃ plan, bindWorkflowInputs spell template contract inputValues = .ok plan := by
  cases hbind : bindWorkflowInputs spell template contract inputValues with
  | ok plan => exact ⟨plan, rfl⟩
  | error e =>
    rcases bindWorkflowInputs_cases spell template contract inputValues with ⟨-, heq⟩ | ⟨hnot, -⟩
    · rw [hbind] at heq
      cases hsteps : template.steps.mapM (bindStep spell inputValues) with
      | ok steps =>
        rw [hsteps] at heq
        cases heq
      | error e' =>
        rw [hsteps] at heq
        obtain rfl : e = e' := Except.error.inj heq
        rw [bindSteps_error hsteps] at hbind
        exact absurd hbind (hrestores.noKeyError inputValues)
    · exact absurd hfits hnot

/-- A default that is taken for a placeholder is replaced by the value of an input, where there is
one. -/
theorem Templated.replaced (h : Templated getTool source publicDefaults template contract)
    (hrestores : Restores spell source publicDefaults template contract) {name : PyText}
    {own value reference : PyJson .value} (hhas : source.Has i name own)
    (hdefault : publicDefaults.get (inputName i name) = some value)
    (hplaceholder : placeholderOf value = some reference) (hfits : Fits contract inputValues) :
    inputValues.get (str spell reference) = some value := by
  obtain ⟨plan, hbind⟩ := hrestores.exists_plan hfits
  obtain ⟨step, hstep, hget⟩ := h.step hhas
  obtain ⟨step', hstep', hbound⟩ := bound_step hbind hstep
  obtain ⟨w, hresolve, hw⟩ := (bindStep_ok hbound name).2 _ hget
  obtain ⟨step'', hstep'', hrestored⟩ := hrestores.bound inputValues plan hbind i name own hhas
  rw [hstep'] at hstep''
  obtain rfl := Option.some.inj hstep''
  rw [hw, hdefault, Option.some_or] at hrestored
  obtain rfl := Option.some.inj hrestored
  unfold templateValue at hresolve
  rw [hdefault, Option.getD_some] at hresolve
  unfold resolveParameter at hresolve
  rw [hplaceholder] at hresolve
  dsimp only at hresolve
  split at hresolve
  · rename_i v hv
    rw [hv, Except.ok.inj hresolve]
  · cases hresolve

/-- Where the parameters are restored, names and defaults are separate. -/
theorem Templated.separate (h : Templated getTool source publicDefaults template contract)
    (haccepted : source.Accepted getTool)
    (hrestores : Restores spell source publicDefaults template contract) :
    Separate source publicDefaults where
  names := by
    intro row hrow name hname name' hname' hnormalized
    obtain ⟨i, hi, hget⟩ := List.mem_iff_getElem.mp hrow
    have hrow' : source.steps[i]? = some row := List.getElem?_eq_some_iff.mpr ⟨hi, hget⟩
    obtain ⟨value, hvalue⟩ := Dictionary.mem_keys_iff.mp hname
    obtain ⟨value', hvalue'⟩ := Dictionary.mem_keys_iff.mp hname'
    have hsame : inputName i name = inputName i name' := by
      unfold inputName
      rw [hnormalized]
    exact (hrestores.separate i name value i name' value' ⟨row, hrow', hvalue⟩
      ⟨row, hrow', hvalue'⟩ hsame).2
  defaults := by
    intro n value hdefault
    by_contra hshape
    obtain ⟨reference, hreference⟩ := Option.ne_none_iff_exists'.mp hshape
    obtain ⟨i, row, hrow, name, hname, rfl⟩ := h.expected n value hdefault
    obtain ⟨own, hown⟩ := Dictionary.mem_keys_iff.mp hname
    have hhas : source.Has i name own := ⟨row, hrow, hown⟩
    have hfits := h.fits_ownValues haccepted
    have hreplaced := h.replaced hrestores hhas hdefault hreference hfits
    -- The input may as well be the empty object, which is no placeholder.
    have hother := h.replaced hrestores hhas hdefault hreference
      (hfits.insert hreplaced (matchesType_of_placeholderOf hreference))
    rw [Dictionary.get_insert, if_pos rfl] at hother
    rw [← Option.some.inj hother] at hreference
    cases hreference

/-- Promotion and binding restore the parameters exactly where in no Step two names are normalised
alike and no default is taken for a placeholder. -/
theorem template_restores_iff (spell : PyJson .value → PyText)
    (getTool : String → Option ToolManifest) (haccepted : source.Accepted getTool)
    (h : templatePlan getTool source publicDefaults = .ok (template, contract)) :
    Restores spell source publicDefaults template contract ↔ Separate source publicDefaults :=
  ⟨(templatePlan_ok h).separate haccepted, (templatePlan_ok h).restores haccepted⟩

end Restoring

/-! ## A promotion -/

namespace Sample

/-- A name of the sample. -/
def name (s : String) : PyText := PyText.ofString s

/-- A tool with three parameters; two names differ in a character that the names of inputs do not
keep. -/
def manifest : ToolManifest where
  tool := ⟨"inspect", "0.1.0", default⟩
  description := "Inspect a table."
  creationRationale := "It is needed."
  parameters :=
    ((Dictionary.empty.insert (name "sort-by") ⟨"string", false⟩).insert (name "sort_by")
    ⟨"string", false⟩).insert (name "options") ⟨"object", false⟩

/-- The tools of the sample: one manifest under every name. -/
def getTool (_ : String) : Option ToolManifest := some manifest

/-- A Step with these parameters. -/
def stepOf (parameters : Values) : StepDraft where
  sequence := 0
  title := "Inspect"
  purpose := "Inspect"
  planningKind := .toolPlan
  skill := none
  tool := some manifest.tool
  parameters
  selectionRationale := "It is needed."
  expectedOutputs := []
  validationCriteria := []
  timeoutSeconds := 300
  customCode := none

/-- A source with a Step for each of these parameters. -/
def sourceOf (parameters : List Values) : PromotionSource where
  steps := parameters.map fun p => ⟨0, stepOf p⟩
  plansByRevision := fun _ => some ⟨"o", "s", .multi, "basic", [], [], []⟩

/-- Both names, with values of their own. -/
def colliding : Values :=
  (Dictionary.empty.insert (name "sort-by") (.text (name "a"))).insert (name "sort_by")
    (.text (name "b"))

/-- A parameter that takes an object. -/
def options : Values := Dictionary.empty.insert (name "options") (.dict .empty)

/-- A default with the shape of a placeholder, for an input that there is not. -/
def shaped : Values :=
  Dictionary.empty.insert (inputName 0 (name "options")) (placeholder (name "missing"))

/-- A default without this shape. -/
def plain : Values := Dictionary.empty.insert (inputName 0 (name "options")) (.dict .empty)

/-- A parameter that takes a text. -/
def sorted : Values := Dictionary.empty.insert (name "sort-by") (.text (name "a"))

/-- Its value, for the input of the second Step. -/
def inputs : Values := Dictionary.empty.insert (inputName 1 (name "sort-by")) (.text (name "a"))

/-- Checked entry by entry. -/
theorem accepted {parameters : List Values} (h : (parameters.all fun p => p.entries.all fun e =>
    (manifest.parameters.get e.1).any fun specification =>
      matchesType e.2 specification.type) = true) :
    (sourceOf parameters).Accepted getTool := by
  intro row hrow
  obtain ⟨p, hp, rfl⟩ := List.mem_map.mp hrow
  refine ⟨manifest.tool, manifest, rfl, rfl, fun n v hv => ?_⟩
  have hstep := List.all_eq_true.mp h p hp
  have hentry := List.all_eq_true.mp hstep (n, v) (Dictionary.mem_entries_iff.mpr hv)
  exact (Option.any_eq_true _ _).mp hentry

/-- With a default for the first Step and the input for the second one, the parameters are those of
the source. -/
theorem inputs_own (i : ℕ) (n : PyText) (value : PyJson .value)
    (h : (sourceOf [options, sorted]).Has i n value) :
    (plain.get (inputName i n)).or (inputs.get (inputName i n)) = some value := by
  obtain ⟨row, hrow, hvalue⟩ := h
  have hmem := Dictionary.mem_entries_iff.mpr hvalue
  match i with
  | 0 =>
    obtain rfl := Option.some.inj hrow
    obtain ⟨rfl, rfl⟩ := Prod.mk.inj (List.mem_singleton.mp hmem)
    rfl
  | 1 =>
    obtain rfl := Option.some.inj hrow
    obtain ⟨rfl, rfl⟩ := Prod.mk.inj (List.mem_singleton.mp hmem)
    rfl
  | i + 2 => cases hrow

/-- A source whose template is computed has one. -/
theorem exists_template {parameters : List Values} {publicDefaults : Values}
    (h : (templatePlan getTool (sourceOf parameters) publicDefaults).isOk = true) :
    ∃ template contract, templatePlan getTool (sourceOf parameters) publicDefaults =
      .ok (template, contract) := by
  cases hplan : templatePlan getTool (sourceOf parameters) publicDefaults with
  | ok r => exact ⟨r.1, r.2, rfl⟩
  | error e =>
    rw [hplan] at h
    cases h

end Sample

/-- A Step whose parameter has a default, and one whose parameter is an input: bound to the value of
the run, the plan has the parameters of the run. -/
theorem template_restores_plain : ∃ template contract plan,
    templatePlan Sample.getTool (Sample.sourceOf [Sample.options, Sample.sorted]) Sample.plain =
      .ok (template, contract) ∧
    bindWorkflowInputs (fun _ => []) template contract Sample.inputs = .ok plan ∧
    plan.steps.map StepDraft.parameters = [Sample.options, Sample.sorted] := by
  have hrun : ((templatePlan Sample.getTool (Sample.sourceOf [Sample.options, Sample.sorted])
      Sample.plain).toOption.any fun t => t.2.keys = Sample.inputs.keys) = true := by
    decide +kernel
  obtain ⟨⟨template, contract⟩, ht, hkeys⟩ := (Option.any_eq_true _ _).mp hrun
  replace hkeys : contract.keys = Sample.inputs.keys := of_decide_eq_true hkeys
  have h := Fallible.toOption_eq_some.mp ht
  have haccepted : (Sample.sourceOf [Sample.options, Sample.sorted]).Accepted Sample.getTool :=
    Sample.accepted (by decide +kernel)
  have hrestores := (template_restores_iff (fun _ => []) Sample.getTool haccepted h).mpr ⟨?_, ?_⟩
  · obtain ⟨plan, hbind, hparameters⟩ := hrestores.reproduces Sample.inputs
      (fun n => by rw [hkeys]) Sample.inputs_own
    exact ⟨template, contract, plan, h, hbind, hparameters⟩
  · intro row hrow
    obtain ⟨p, hp, rfl⟩ := List.mem_map.mp hrow
    rcases List.mem_pair.mp hp with rfl | rfl
    · decide +kernel
    · decide +kernel
  · intro n v hv
    have hmem := Dictionary.mem_entries_iff.mpr hv
    have hentries : Sample.plain.entries = [(inputName 0 (Sample.name "options"), .dict .empty)] :=
      rfl
    rw [hentries] at hmem
    obtain ⟨-, rfl⟩ := Prod.mk.inj (List.mem_singleton.mp hmem)
    rfl

namespace Sample

/-- Binding raises `KeyError`. -/
def raisesKeyError : Except TemplateError PlanDraft → Bool
  | .error .keyError => true
  | _ => false

/-- The test for a `KeyError` is right. -/
theorem eq_of_raisesKeyError {r : Except TemplateError PlanDraft} (h : raisesKeyError r = true) :
    r = .error .keyError := by
  unfold raisesKeyError at h
  split at h
  · rfl
  · cases h

end Sample

/-- Two parameters of one Step share an input; and binding raises `KeyError` for a default that
names an input that there is not. -/
theorem not_restores :
    ((Sample.sourceOf [Sample.colliding]).Accepted Sample.getTool ∧ ∃ template contract,
      templatePlan Sample.getTool (Sample.sourceOf [Sample.colliding]) .empty =
      .ok (template, contract) ∧
        ¬Restores (fun _ => []) (Sample.sourceOf [Sample.colliding]) .empty template contract) ∧
      (Sample.sourceOf [Sample.options]).Accepted Sample.getTool ∧ ∃ template contract,
        templatePlan Sample.getTool (Sample.sourceOf [Sample.options]) Sample.shaped =
        .ok (template, contract) ∧
          bindWorkflowInputs (fun _ => []) template contract .empty = .error .keyError := by
  refine ⟨⟨Sample.accepted (by decide +kernel), ?_⟩, Sample.accepted (by decide +kernel), ?_⟩
  · obtain ⟨template, contract, h⟩ := Sample.exists_template (by decide +kernel :
      (templatePlan Sample.getTool (Sample.sourceOf [Sample.colliding]) .empty).isOk = true)
    refine ⟨template, contract, h, fun hrestores => ?_⟩
    have hsame := hrestores.separate 0 (Sample.name "sort-by") (.text (Sample.name "a")) 0
      (Sample.name "sort_by") (.text (Sample.name "b")) ⟨_, rfl, rfl⟩ ⟨_, rfl, rfl⟩
        (by decide +kernel)
    exact absurd hsame.2 (by decide +kernel)
  · have hkey :
        ((templatePlan Sample.getTool (Sample.sourceOf [Sample.options]) Sample.shaped).toOption.any
        fun r => Sample.raisesKeyError
        (bindWorkflowInputs (fun _ => []) r.1 r.2 .empty)) = true := by
      decide +kernel
    obtain ⟨template, contract, h⟩ := Sample.exists_template (by decide +kernel :
      (templatePlan Sample.getTool (Sample.sourceOf [Sample.options]) Sample.shaped).isOk = true)
    rw [h] at hkey
    exact ⟨template, contract, h, Sample.eq_of_raisesKeyError hkey⟩

end ExAgent.Workflows.Templates
