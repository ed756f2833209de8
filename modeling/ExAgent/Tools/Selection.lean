import ExAgent.Tools.Lineage

/-!
# What the planner is shown

The Skills that the planner is shown are registered, each once, and are exactly those that one
answer of the selector names, by their names or with their versions (`shown_skills`).
-/

namespace ExAgent.Tools

open Lib

/-- A value names a Skill: by its name, or by its name and its version. -/
def Names (value : String) (s : SkillDocument) : Prop :=
  value = s.name ∨ value = s.name ++ "@" ++ s.version

/-- A value is resolved to the name of a Skill that it names. -/
theorem resolveName_eq_some {available : List SkillDocument} {value name : String}
    (h : resolveName available value = some name) :
    ∃ s ∈ available, s.name = name ∧ Names value s := by
  unfold resolveName at h
  dsimp only at h
  obtain ⟨s, hs, rfl⟩ := Option.map_eq_some_iff.mp h
  rcases Option.or_eq_some_iff.mp hs with hs | ⟨-, hs⟩
  · refine ⟨s, List.mem_of_find?_eq_some hs, rfl, Or.inl ?_⟩
    have hfound := List.find?_some hs
    simp only [Bool.decide_and, Bool.and_eq_true, decide_eq_true_eq] at hfound
    exact hfound.1.symm
  · refine ⟨s, List.mem_reverse.mp (List.mem_of_find?_eq_some hs), rfl, Or.inr ?_⟩
    have hfound := List.find?_some hs
    exact (of_decide_eq_true hfound).symm

/-- The loop that keeps each name where it comes first. -/
theorem foldl_names (names : List String) (acc : List String) (hacc : acc.Nodup) :
    (names.foldl (fun acc n => if n ∈ acc then acc else acc ++ [n]) acc).Nodup ∧
      ∀ n, n ∈ names.foldl (fun acc n => if n ∈ acc then acc else acc ++ [n]) acc ↔
      n ∈ acc ∨ n ∈ names := by
  induction names generalizing acc with
  | nil => simpa using hacc
  | cons name names ih =>
    rw [List.foldl_cons]
    by_cases hmem : name ∈ acc
    · rw [if_pos hmem]
      obtain ⟨hnodup, hall⟩ := ih acc hacc
      refine ⟨hnodup, fun n => ?_⟩
      rw [hall, List.mem_cons]
      constructor
      · rintro (h | h)
        · exact Or.inl h
        · exact Or.inr (Or.inr h)
      · rintro (h | rfl | h)
        · exact Or.inl h
        · exact Or.inl hmem
        · exact Or.inr h
    · rw [if_neg hmem]
      have hnew : (acc ++ [name]).Nodup := by
        refine List.nodup_append.mpr ⟨hacc, List.nodup_singleton _, ?_⟩
        rintro a ha b hb rfl
        exact hmem (List.mem_singleton.mp hb ▸ ha)
      obtain ⟨hnodup, hall⟩ := ih _ hnew
      refine ⟨hnodup, fun n => ?_⟩
      rw [hall, List.mem_append, List.mem_singleton, List.mem_cons, or_assoc]

/-- The names of a normalised selection are those that its values are resolved to, each once. -/
theorem normalizeSelection_ok {available : List SkillDocument} {values names : List String}
    (h : normalizeSelection available values = .ok names) :
    names.Nodup ∧ (∀ n, n ∈ names ↔ ∃ value ∈ values, resolveName available value = some n) ∧
      ∀ value ∈ values, (resolveName available value).isSome := by
  unfold normalizeSelection at h
  dsimp only at h
  obtain ⟨hunknown, h⟩ := Fallible.ite_eq_ok.mp h
  obtain rfl := Except.ok.inj h
  obtain ⟨hnodup, hall⟩ := foldl_names (values.filterMap (resolveName available)) [] List.nodup_nil
  refine ⟨hnodup, fun n => ?_, ?_⟩
  · rw [hall]
    simp
  · have hnone := List.filter_eq_nil_iff.mp (not_not.mp hunknown)
    intro value hvalue
    have := hnone value hvalue
    simpa [Option.isSome_iff_ne_none] using this

/-- What is selected is the normalised selection of one of the two answers. -/
theorem selectSkills_ok {available : List SkillDocument}
    {first second : Except SelectionFault SkillSelection}
    {names : List String} (h : selectSkills available first second = .ok names) :
    ∃ answer, (first = .ok answer ∨ second = .ok answer) ∧
      normalizeSelection available answer.skillNames = .ok names := by
  have honce : ∀ answer : Except SelectionFault SkillSelection,
    selectOnce available answer = .ok names →
      ∃ a, answer = .ok a ∧ normalizeSelection available a.skillNames = .ok names :=
    fun answer h => Fallible.bind_eq_ok.mp h
  unfold selectSkills at h
  obtain ⟨-, h⟩ := Fallible.ite_eq_ok.mp h
  split at h
  · rename_i found hfound
    obtain rfl := Except.ok.inj h
    obtain ⟨a, ha, hn⟩ := honce first hfound
    exact ⟨a, Or.inl ha, hn⟩
  · exact absurd h nofun
  · split at h
    · rename_i found hfound
      obtain rfl := Except.ok.inj h
      obtain ⟨a, ha, hn⟩ := honce second hfound
      exact ⟨a, Or.inr ha, hn⟩
    · exact absurd h nofun
    · exact absurd h nofun

/-- A registered Skill is found by its name. -/
theorem ToolRegistry.Sound.getSkill {r : ToolRegistry} (hr : r.Sound) {s : SkillDocument}
    (hs : s ∈ r.skills) :
    r.getSkill s.name = .ok s := by
  unfold ToolRegistry.getSkill
  cases h : r.skills.find? fun t => t.name = s.name with
  | none =>
    have := List.find?_eq_none.mp h s hs
    simp at this
  | some t =>
    have hname : t.name = s.name := by simpa using List.find?_some h
    rw [List.inj_on_of_nodup_map hr.skills_nodup (List.mem_of_find?_eq_some h) hs hname]

/-- The names of a selection are found in the registry. -/
theorem getSkills_ok {r : ToolRegistry} (hr : r.Sound) {names : List String}
    (hnames : ∀ n ∈ names, ∃ s ∈ r.skills, s.name = n) :
    ∃ skills, names.mapM (fun name => raise .registry (r.getSkill name)) = .ok skills ∧
      skills.map SkillDocument.name = names ∧ ∀ s ∈ skills, s ∈ r.skills := by
  obtain ⟨skills, hskills⟩ :=
    Fallible.exists_mapM (f := fun name => raise .registry (r.getSkill name))
    fun n hn => by
      obtain ⟨s, hs, rfl⟩ := hnames n hn
      exact ⟨s, raise_eq_ok.mpr (hr.getSkill hs)⟩
  have hall : List.Forall₂ (fun name s => s ∈ r.skills ∧ s.name = name) names skills := by
    refine (Fallible.mapM_eq_ok.mp hskills).imp fun name s h => ?_
    unfold ToolRegistry.getSkill at h
    have h := raise_eq_ok.mp h
    split at h
    · rename_i found hfound
      obtain rfl := Except.ok.inj h
      exact ⟨List.mem_of_find?_eq_some hfound, by simpa using List.find?_some hfound⟩
    · exact absurd h nofun
  refine ⟨skills, hskills, ?_, ?_⟩
  · clear hskills hnames
    induction hall with
    | nil => rfl
    | cons h _ ih => rw [List.map_cons, h.2, ih]
  · clear hskills hnames
    induction hall with
    | nil => exact nofun
    | cons h _ ih => exact List.forall_mem_cons.mpr ⟨h.1, ih⟩

/-- Whatever the selector answers, each Skill that it names is found; and the Skills that the
planner is shown are registered, each once, and exactly those that one of its answers names. -/
theorem shown_skills {readBool : PyJson .value → Option Bool} {r : ToolRegistry}
    (hr : (loading readBool).Reachable r) (context : PlannerContext) (answers : Answers) :
    (∀ e, shownSkills r context answers ≠ .error (.registry e)) ∧
    ∀ skills, shownSkills r context answers = .ok skills → context.planningKind = .toolPlan →
      ∃ answer, (answers.first = .ok answer ∨ answers.second = .ok answer) ∧ skills ≠ [] ∧
        (skills.map SkillDocument.name).Nodup ∧ (∀ s ∈ skills, s ∈ r.skills) ∧
        (∀ value ∈ answer.skillNames, ∃ s ∈ skills, Names value s) ∧
        ∀ s ∈ skills, ∃ value ∈ answer.skillNames, Names value s := by
  have hsound := loaded_sound hr
  have hfound : ∀ names, selectSkills r.skills answers.first answers.second = .ok names →
      ∀ n ∈ names, ∃ s ∈ r.skills, s.name = n := by
    intro names h n hn
    obtain ⟨answer, -, hnormal⟩ := selectSkills_ok h
    obtain ⟨value, -, hresolve⟩ := ((normalizeSelection_ok hnormal).2.1 n).mp hn
    obtain ⟨s, hs, hname, -⟩ := resolveName_eq_some hresolve
    exact ⟨s, hs, hname⟩
  constructor
  · intro e h
    unfold shownSkills at h
    split at h
    · exact absurd h nofun
    · cases hselect : selectSkills r.skills answers.first answers.second with
      | error fault =>
        rw [hselect] at h
        exact absurd h nofun
      | ok names =>
        obtain ⟨skills, hskills, -, -⟩ := getSkills_ok hsound (hfound names hselect)
        rw [hselect] at h
        exact absurd (hskills.symm.trans h) nofun
  · intro skills h hkind
    unfold shownSkills at h
    rw [if_neg (not_not.mpr hkind)] at h
    obtain ⟨names, hnames, h⟩ := Fallible.bind_eq_ok.mp h
    have hselect := raise_eq_ok.mp hnames
    obtain ⟨answer, hanswer, hnormal⟩ := selectSkills_ok hselect
    obtain ⟨hnodup, hmem, hsome⟩ := normalizeSelection_ok hnormal
    obtain ⟨skills', hskills, hmap, hregistered⟩ := getSkills_ok hsound (hfound names hselect)
    obtain rfl : skills' = skills := Except.ok.inj (hskills.symm.trans h)
    -- A value and the Skill of its name.
    have hpair : ∀ value ∈ answer.skillNames, ∀ s ∈ skills',
        resolveName r.skills value = some s.name → Names value s := by
      intro value _ s hs hresolve
      obtain ⟨t, ht, hname, hnames⟩ := resolveName_eq_some hresolve
      rwa [List.inj_on_of_nodup_map hsound.skills_nodup (hregistered s hs) ht hname.symm]
    have hvalues : ∀ value ∈ answer.skillNames, ∃ s ∈ skills', Names value s := by
      intro value hvalue
      obtain ⟨n, hn⟩ := Option.isSome_iff_exists.mp (hsome value hvalue)
      have hn' : n ∈ skills'.map SkillDocument.name := hmap ▸ (hmem n).mpr ⟨value, hvalue, hn⟩
      obtain ⟨s, hs, rfl⟩ := List.mem_map.mp hn'
      exact ⟨s, hs, hpair value hvalue s hs hn⟩
    refine ⟨answer, hanswer, ?_, hmap ▸ hnodup, hregistered, hvalues, fun s hs => ?_⟩
    · rintro rfl
      obtain ⟨value, rest, hcons⟩ := List.exists_cons_of_ne_nil answer.names_nonempty
      obtain ⟨s, hs, -⟩ := hvalues value (hcons ▸ List.mem_cons_self)
      exact absurd hs nofun
    · have hn : s.name ∈ names := hmap ▸ List.mem_map_of_mem hs
      obtain ⟨value, hvalue, hresolve⟩ := (hmem s.name).mp hn
      exact ⟨value, hvalue, hpair value hvalue s hs hresolve⟩

/-- The Skill that is named with its version. -/
theorem shown_skills_sample :
    ∃ skills, shownSkills Sample.registry Sample.context Sample.answers = .ok skills ∧
    skills ≠ [] ∧ ∀ s ∈ skills, s ∈ Sample.registry.skills := by
  have hok :
      (shownSkills Sample.registry Sample.context Sample.answers).toOption.isSome = true := by
    decide +kernel
  obtain ⟨skills, hskills⟩ := Option.isSome_iff_exists.mp hok
  have h := Fallible.toOption_eq_some.mp hskills
  obtain ⟨-, -, hne, -, hregistered, -⟩ :=
    (shown_skills Sample.registry_reachable Sample.context Sample.answers).2 skills h rfl
  exact ⟨skills, h, hne, hregistered⟩

end ExAgent.Tools
