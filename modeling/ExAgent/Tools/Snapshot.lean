import ExAgent.Lib.Delimited
import ExAgent.Tools.Lineage

/-!
# The hash of a snapshot

Two loaded registries have one hash exactly when they have the same Tools by their lineages, in
whatever order the files were read, unless the digest collides (`snapshot_hash_iff`).
-/

namespace ExAgent.Tools

open Lib
open ExAgent.Graph (SkillReference ToolReference)

/-- A string literal shows where it ends. -/
theorem delimited_quoteText : Delimited (JsonText.quoteText false) := by
  intro t t' rest rest' h
  have hread : ∀ s tail, JsonText.scanString ((JsonText.quoteText false s ++ tail).drop 1) =
      some (s, tail) := by
    intro s tail
    unfold JsonText.quoteText
    rw [List.cons_append, List.cons_append, List.drop_succ_cons, List.drop_zero, List.append_assoc]
    exact JsonText.scanString_quoteText s tail
  have hsame := (hread t rest).symm.trans
    ((congrArg (fun l => JsonText.scanString (l.drop 1)) h).trans (hread t' rest'))
  have hpair := Option.some.inj hsame
  exact ⟨congrArg Prod.fst hpair, congrArg Prod.snd hpair⟩

/-- Different strings have different texts. -/
theorem ofString_injective : Function.Injective PyText.ofString := by
  intro s s' h
  have hchars : s.toList = s'.toList :=
    List.map_injective_iff.mpr (fun a b hab => Char.toNat_inj.mp hab) h
  exact String.ext (by simpa using hchars)

/-- The digits of a number are those of no other number. -/
theorem hexText_injective : Function.Injective hexText := by
  have hzeros : ∀ (k : ℕ) (rest : PyText), Pages.hexDigitsValue true 0
    (List.replicate k 48 ++ rest) =
      Pages.hexDigitsValue true 0 rest := by
    intro k rest
    induction k with
    | zero => rfl
    | succ k ih => exact ih
  have hvalue : ∀ n, Pages.hexDigitsValue true 0 (hexText n) = some n := by
    intro n
    unfold hexText Api.hexDigits
    dsimp only
    rw [List.map_append, List.map_replicate]
    refine (hzeros _ _).trans ?_
    have h := Pages.hexDigitsValue_toDigits n 0 true []
    rw [List.append_nil, Nat.zero_mul, Nat.zero_add] at h
    exact h
  intro n n' h
  exact Option.some.inj ((hvalue n).symm.trans ((congrArg _ h).trans (hvalue n')))

/-- What the snapshot says of a Tool. -/
def lineage (m : ToolManifest) : SkillReference × ToolReference := (m.skill, m.tool)

/-- A field of an entry. -/
def field (lit text : PyText) : PyText := lit ++ JsonText.quoteText false text

/-- The literals of an entry, each before its field. -/
def literals : List PyText :=
  [PyText.ofString "\x7b\"skill\":" ++ 123 ::
    JsonText.quoteText false (PyText.ofString "content_sha256") ++ [58],
    44 :: JsonText.quoteText false (PyText.ofString "name") ++ [58],
    44 :: JsonText.quoteText false (PyText.ofString "version") ++ [58],
    125 :: PyText.ofString ",\"tool\":" ++ 123 ::
    JsonText.quoteText false (PyText.ofString "name") ++ [58],
    44 :: JsonText.quoteText false (PyText.ofString "source_sha256") ++ [58],
    44 :: JsonText.quoteText false (PyText.ofString "version") ++ [58]]

/-- The fields of an entry, each after its literal. -/
def lineageText (l : SkillReference × ToolReference) : PyText :=
  field (literals[0]) (hexText l.1.contentSha256) ++
    (field (literals[1]) (PyText.ofString l.1.name) ++
      (field (literals[2]) (PyText.ofString l.1.version) ++
      (field (literals[3]) (PyText.ofString l.2.name) ++
        (field (literals[4]) (hexText l.2.sourceSha256) ++
        (field (literals[5]) (PyText.ofString l.2.version) ++ [125, 125])))))

/-- An entry of the snapshot is the text of a tool's lineage. -/
theorem snapshotEntry_eq (m : ToolManifest) : snapshotEntry m = lineageText (lineage m) := by
  simp only [snapshotEntry, dumped, JsonText.dumpsTexts, JsonText.dumpsMembers,
    List.map_cons, List.map_nil,
    lineageText, lineage, field, literals, List.getElem_cons_zero, List.getElem_cons_succ,
    List.append_assoc,
    List.cons_append, List.nil_append]

/-- An entry shows where it ends, and gives the lineage. -/
theorem delimited_lineageText : Delimited lineageText := by
  have hfield : ∀ lit, Delimited (field lit) := fun lit => delimited_quoteText.before lit
  have hall := (hfield literals[0]).append ((hfield literals[1]).append ((hfield literals[2]).append
    ((hfield literals[3]).append
    ((hfield literals[4]).append ((hfield literals[5]).after [125, 125])))))
  apply hall.of_injective (f := fun l : SkillReference × ToolReference =>
    (hexText l.1.contentSha256, PyText.ofString l.1.name, PyText.ofString l.1.version,
      PyText.ofString l.2.name, hexText l.2.sourceSha256, PyText.ofString l.2.version))
  rintro ⟨skill, tool⟩ ⟨skill', tool'⟩ h
  simp only [Prod.mk.injEq] at h
  obtain ⟨hsha, hname, hversion, htname, htsha, htversion⟩ := h
  have hskill : skill = skill' := by
    rw [show skill = ⟨skill.name, skill.version, skill.contentSha256⟩ from rfl,
      ofString_injective hname, ofString_injective hversion, hexText_injective hsha]
  have htool : tool = tool' := by
    rw [show tool = ⟨tool.name, tool.version, tool.sourceSha256⟩ from rfl,
      ofString_injective htname, ofString_injective htversion, hexText_injective htsha]
  rw [hskill, htool]

/-! ## The order of the Tools -/

/-- The Tools of the snapshot. -/
def ToolRegistry.sorted (r : ToolRegistry) : List ToolManifest :=
  r.tools.mergeSort fun a b => a.tool.name ≤ b.tool.name

/-- The snapshot lists the tools by name. -/
theorem ToolRegistry.sorted_pairwise (r : ToolRegistry) :
    (r.sorted.map lineage).Pairwise fun a b => a.2.name ≤ b.2.name := by
  have h :=
    @List.pairwise_mergeSort _ (fun a b : ToolManifest => decide (a.tool.name ≤ b.tool.name))
    (fun a b c hab hbc => by
      simpa using String.le_trans (of_decide_eq_true hab) (of_decide_eq_true hbc))
    (fun a b => by simpa using String.le_total a.tool.name b.tool.name) r.tools
  exact List.pairwise_map.mpr (h.imp fun hab => of_decide_eq_true hab)

/-- It lists every tool once. -/
theorem ToolRegistry.sorted_perm (r : ToolRegistry) :
    (r.sorted.map lineage).Perm (r.tools.map lineage) :=
  (List.mergeSort_perm _ _).map lineage

/-- The lineages of a registry differ in the names of their Tools. -/
theorem ToolRegistry.Sound.lineage_nodup {r : ToolRegistry} (hr : r.Sound) :
    (r.tools.map lineage).Nodup := by
  apply List.Nodup.of_map (fun l => l.2.name)
  rw [List.map_map]
  exact hr.tools_nodup

/-- Registries with the same lineages sort them alike. -/
theorem sorted_eq_iff {r r' : ToolRegistry} (hr : r.Sound) (hr' : r'.Sound) :
    r.sorted.map lineage = r'.sorted.map lineage ↔ ∀ l, l ∈ r.tools.map lineage ↔
      l ∈ r'.tools.map lineage := by
  constructor
  · intro h l
    rw [← r.sorted_perm.mem_iff, ← r'.sorted_perm.mem_iff, h]
  · intro h
    have hperm : (r.tools.map lineage).Perm (r'.tools.map lineage) :=
      (List.perm_ext_iff_of_nodup hr.lineage_nodup hr'.lineage_nodup).mpr h
    have hsorted : (r.sorted.map lineage).Perm (r'.sorted.map lineage) :=
      r.sorted_perm.trans (hperm.trans r'.sorted_perm.symm)
    refine List.Perm.eq_of_pairwise ?_ r.sorted_pairwise r'.sorted_pairwise hsorted
    -- Two Tools of one name are one Tool of the second registry.
    intro a b ha hb hab hba
    have ha' : a ∈ r'.tools.map lineage := (h a).mp (r.sorted_perm.mem_iff.mp ha)
    have hb' : b ∈ r'.tools.map lineage := r'.sorted_perm.mem_iff.mp hb
    obtain ⟨m, hm, rfl⟩ := List.mem_map.mp ha'
    obtain ⟨m', hm', rfl⟩ := List.mem_map.mp hb'
    rw [List.inj_on_of_nodup_map hr'.tools_nodup hm hm' (String.le_antisymm hab hba)]

/-- The text of a snapshot gives the lineages in their order. -/
theorem snapshotText_eq_iff {r r' : ToolRegistry} :
    r.snapshotText = r'.snapshotText ↔ r.sorted.map lineage = r'.sorted.map lineage := by
  have hmap : ∀ registry : ToolRegistry, registry.snapshotText =
      91 :: (List.intercalate [44] ((registry.sorted.map lineage).map lineageText) ++ [93]) := by
    intro registry
    unfold ToolRegistry.snapshotText ToolRegistry.sorted
    rw [List.cons_append, List.map_map, List.map_congr_left fun m _ => snapshotEntry_eq m]
    rfl
  have hstart : ∀ l rest, lineageText l ++ rest ≠ [93] := by
    intro l rest h
    have hhead : (lineageText l ++ rest).head? = some 123 := rfl
    rw [h] at hhead
    exact absurd hhead (by decide)
  rw [hmap, hmap]
  constructor
  · intro h
    exact delimited_lineageText.intercalate (by decide) hstart (List.cons.inj h).2
  · intro h
    rw [h]

/-- Two loaded registries have one hash exactly when they have the same lineages, in whatever order
they were read, unless the digests of the two texts collide. -/
theorem snapshot_hash_iff {readBool : PyJson .value → Option Bool} {r r' : ToolRegistry}
    (hr : (loading readBool).Reachable r) (hr' : (loading readBool).Reachable r')
    (hfree : sha256 r.snapshotText = sha256 r'.snapshotText → r.snapshotText = r'.snapshotText) :
    r.registrySnapshotHash = r'.registrySnapshotHash ↔
      ∀ skill tool, (∃ m ∈ r.tools, m.skill = skill ∧ m.tool = tool) ↔
        ∃ m ∈ r'.tools, m.skill = skill ∧ m.tool = tool := by
  have hmem : ∀ (ms : List ToolManifest) (skill : SkillReference) (tool : ToolReference),
      (skill, tool) ∈ ms.map lineage ↔ ∃ m ∈ ms, m.skill = skill ∧ m.tool = tool := by
    intro ms skill tool
    simp [lineage]
  have htext : r.registrySnapshotHash = r'.registrySnapshotHash ↔
      r.snapshotText = r'.snapshotText :=
    ⟨hfree, fun h => congrArg sha256 h⟩
  rw [htext, snapshotText_eq_iff, sorted_eq_iff (loaded_sound hr) (loaded_sound hr')]
  constructor
  · intro h skill tool
    rw [← hmem, ← hmem]
    exact h (skill, tool)
  · rintro h ⟨skill, tool⟩
    rw [hmem, hmem]
    exact h skill tool

namespace Sample

/-- A directory with another Skill and another Tool. -/
def other : SkillDirectory :=
  { directory with
    manifest := some
      (PyText.ofString "\x7b\"skill\":\x7b\"name\":\"t\",\"version\":\"1\"\x7d,\"tools\":[\x7b" ++
        PyText.ofString
          "\"name\":\"g\",\"version\":\"1\",\"description\":\"\",\"creation_rationale\":\"\"," ++
        PyText.ofString "\"source\":\"g.py\",\"parameters\":\x7b\x7d\x7d]\x7d") }

/-- The registry that has read the other directory. -/
def otherRegistry : ToolRegistry := ({} : ToolRegistry).load readBool [other]

/-- The registries that have read both directories, in one order and in the other. -/
def both : ToolRegistry := ({} : ToolRegistry).load readBool [directory, other]

/-- The registry that loads the same directories in the other order. -/
def swapped : ToolRegistry := ({} : ToolRegistry).load readBool [other, directory]

/-- The registry of the other directory is reachable. -/
theorem other_reachable : (loading readBool).Reachable otherRegistry :=
  .next (.start rfl) trivial rfl

/-- The registry of both directories is reachable. -/
theorem both_reachable : (loading readBool).Reachable both := .next (.start rfl) trivial rfl

/-- So is the one that loads them in the other order. -/
theorem swapped_reachable : (loading readBool).Reachable swapped := .next (.start rfl) trivial rfl

/-- Both Tools are read, in the order of the directories; the texts of one Tool each differ in their
digests. -/
theorem computed_lineages : both.tools.map lineage = (swapped.tools.map lineage).reverse ∧
    (∃ l ∈ registry.tools.map lineage, l ∉ otherRegistry.tools.map lineage) ∧
    sha256 registry.snapshotText ≠ sha256 otherRegistry.snapshotText := by
  decide +kernel

/-- A lineage is one of a tool exactly when the tool's references are in it. -/
theorem mem_lineage {ms : List ToolManifest} {skill : SkillReference} {tool : ToolReference} :
    (∃ m ∈ ms, m.skill = skill ∧ m.tool = tool) ↔ (skill, tool) ∈ ms.map lineage := by
  simp [lineage]

/-- Registries that were read in another order have the same lineages. -/
theorem same_lineages (skill : SkillReference) (tool : ToolReference) :
    (∃ m ∈ both.tools, m.skill = skill ∧ m.tool = tool) ↔
      ∃ m ∈ swapped.tools, m.skill = skill ∧ m.tool = tool := by
  rw [mem_lineage, mem_lineage, computed_lineages.1, List.mem_reverse]

/-- Both orders have the same snapshot. -/
theorem same_text : both.snapshotText = swapped.snapshotText := by
  refine snapshotText_eq_iff.mpr ((sorted_eq_iff (loaded_sound both_reachable)
    (loaded_sound swapped_reachable)).mpr fun l => ?_)
  rw [computed_lineages.1, List.mem_reverse]

end Sample

/-- Two directories that are read in either order give one hash; each of them alone gives its
own. -/
theorem snapshot_hash_sample :
    Sample.both.registrySnapshotHash = Sample.swapped.registrySnapshotHash ∧
      Sample.registry.registrySnapshotHash ≠ Sample.otherRegistry.registrySnapshotHash := by
  obtain ⟨-, ⟨⟨skill, tool⟩, hin, hout⟩, hdigest⟩ := Sample.computed_lineages
  constructor
  · exact (snapshot_hash_iff Sample.both_reachable Sample.swapped_reachable
      fun _ => Sample.same_text).mpr Sample.same_lineages
  · intro h
    have hsame := (snapshot_hash_iff Sample.registry_reachable Sample.other_reachable
      fun heq => absurd heq hdigest).mp h skill tool
    rw [Sample.mem_lineage, Sample.mem_lineage] at hsame
    exact hout (hsame.mp hin)

end ExAgent.Tools
