import ExAgent.Graph.Contracts
import ExAgent.Lib.JsonText
import ExAgent.Lib.Sha256
import ExAgent.Lib.Transition
import ExAgent.Lib.Utf8
import ExAgent.Pages.Cursors
import ExAgent.Workflows.Templates

/-!
# The registry of Skills and Tools

`ex_agent/tools/registry.py`: `ToolRegistry.load` over the files of a source tree, the lookups, the
canonical lineage of a Step and the hash of a snapshot. A directory of a Skill is given with what is
read of it: whether it and the sources of its Tools resolve inside, and the texts of the files. A
load that raises leaves the registry as it was.
-/

namespace ExAgent.Tools

open Lib
open ExAgent.Graph (SkillReference ToolReference PlanningKind)
open Workflows.Templates (ParameterSpec StepDraft)

attribute [local instance] PyText.lawfulBEq

/-! ## Texts -/

/-- The white space of `str.strip`. -/
def isSpace (c : ℕ) : Bool :=
  9 ≤ c ∧ c ≤ 13 ∨ 28 ≤ c ∧ c ≤ 32 ∨ c = 0x85 ∨ c = 0xA0 ∨ c = 0x1680 ∨ 0x2000 ≤ c ∧ c ≤ 0x200A ∨
    c = 0x2028 ∨ c = 0x2029 ∨ c = 0x202F ∨ c = 0x205F ∨ c = 0x3000

/-- `str.strip`. -/
def strip (text : PyText) : PyText := Pages.stripped isSpace text

/-- `str.rstrip`. -/
def rstrip (text : PyText) : PyText := text.rdropWhile isSpace

/-- A sign that ends a line. -/
def endsLine (c : ℕ) : Bool :=
  10 ≤ c ∧ c ≤ 13 ∨ 28 ≤ c ∧ c ≤ 30 ∨ c = 0x85 ∨ c = 0x2028 ∨ c = 0x2029

/-- `str.splitlines`. -/
def splitlines : PyText → List PyText
  | [] => []
  | 13 :: 10 :: rest => [] :: splitlines rest
  | c :: rest =>
    if endsLine c then [] :: splitlines rest
    else
      match splitlines rest with
      | [] => [[c]]
      | line :: lines => (c :: line) :: lines

/-- `_sha256`, as a number. -/
def sha256 (text : PyText) : Sha256 :=
  (Lib.Sha256.hash (Utf8.encode text)).toBytes.foldl (fun n b => n * 256 + b.toNat) 0

/-! ## Skills and Tools -/

/-- `ToolManifest`. -/
structure ToolManifest where
  skill : SkillReference
  tool : ToolReference
  description : String
  creationRationale : String
  parameters : Dictionary PyText ParameterSpec
  source : PyText

/-- `SkillDocument`. -/
structure SkillDocument where
  name : String
  version : String
  description : PyText
  contentSha256 : Sha256
  content : PyText
  tools : List ToolManifest

/-- The two dictionaries of a registry, in the order in which they were filled. -/
structure ToolRegistry where
  skills : List SkillDocument := []
  tools : List ToolManifest := []

/-- What `load` and the lookups raise. -/
inductive RegistryError
  | skillEscaped
  | sourceEscaped
  | duplicateTool (name : String)
  | duplicateSkill (name : String)
  | noFrontmatter
  | missingFrontmatter (key : PyText)
  | unknownTool (name : String)
  | unknownSkill (name : String)
  | missingLineage
  | mismatchedLineage
  /-- A file that is not read, a text that is no JSON, a member that is missing, or a value that its
  model refuses. -/
  | invalid
deriving DecidableEq

/-! ## Reading a manifest -/

/-- A text field of a model: a text without surrogates. -/
def readString : PyJson .value → Option String
  | .text t => if t.all fun c =>
      decide (Nat.isValidChar c) then some (String.ofList (t.map Char.ofNat)) else none
  | _ => none

/-- `value[key]`. -/
def item (key : String) (value : PyJson .value) : Except RegistryError (PyJson .value) :=
  match value with
  | .dict members =>
    match JsonText.lookup (PyText.ofString key) members with
    | some v => .ok v
    | none => .error .invalid
  | _ => .error .invalid

/-- `value[key]`, for a text field. -/
def stringItem (key : String) (value : PyJson .value) : Except RegistryError String := do
  match readString (← item key value) with
  | some s => .ok s
  | none => .error .invalid

/-- The values of a list, or the members of a dictionary, or the signs of a text. -/
def iterated : ∀ {k : JsonKind}, PyJson k → Option (List (PyJson .value))
  | _, .list items => iterated items
  | _, .dict members => iterated members
  | _, .text t => some (t.map fun c => .text [c])
  | _, .nil => some []
  | _, .cons head tail => (iterated tail).map (head :: ·)
  | _, .empty => some []
  | _, .member key _ rest => (iterated rest).map (.text key :: ·)
  | _, _ => none

/-- `ParameterSpec`; `readBool` is what a Boolean field takes. -/
def parameterSpec (readBool : PyJson .value → Option Bool) (value : PyJson .value) :
    Except RegistryError ParameterSpec :=
  match value with
  | .dict members =>
    if members.keys.any fun key => key ≠ PyText.ofString "type" ∧
      key ≠ PyText.ofString "required" then
      .error .invalid
    else do
      let type ← stringItem "type" value
      match JsonText.lookup (PyText.ofString "required") members with
      | none => .ok ⟨type, false⟩
      | some required =>
        match readBool required with
        | some b => .ok ⟨type, b⟩
        | none => .error .invalid
  | _ => .error .invalid

/-- `dict[str, ParameterSpec]`. -/
def parameterSpecs (readBool : PyJson .value → Option Bool) :
    ∀ {k : JsonKind}, PyJson k → Except RegistryError (Dictionary PyText ParameterSpec)
  | _, .dict members => parameterSpecs readBool members
  | _, .empty => .ok .empty
  | _, .member key value rest => do
    let specs ← parameterSpecs readBool rest
    let spec ← parameterSpec readBool value
    .ok (specs.insert key spec)
  | _, _ => .error .invalid

/-- The fields `name` and `version` of a reference. -/
def validReference (name version : String) : Bool :=
  1 ≤ name.length ∧ name.length ≤ 128 ∧ 1 ≤ version.length ∧ version.length ≤ 64

/-- The loop of `_frontmatter_value`. -/
def frontmatterLine (key : PyText) : List PyText → Except RegistryError PyText
  | [] => .error (.missingFrontmatter key)
  | line :: lines =>
    if strip line = PyText.ofString "---" then .error (.missingFrontmatter key)
    else if (key ++ [58]).isPrefixOf line then .ok (strip (line.drop (key.length + 1)))
    else frontmatterLine key lines

/-- `_frontmatter_value`. -/
def frontmatterValue (content key : PyText) : Except RegistryError PyText :=
  match splitlines content with
  | [] => .error .noFrontmatter
  | line :: lines =>
    if strip line ≠ PyText.ofString "---" then .error .noFrontmatter
    else frontmatterLine key lines

/-! ## Loading -/

/-- A source file of a Tool: whether it resolves inside the directory, and its text. -/
structure SourceFile where
  inside : Bool
  text : Option PyText

/-- The directory of a manifest. -/
structure SkillDirectory where
  inside : Bool
  manifest : Option PyText
  skillMd : Option PyText
  file : PyText → SourceFile

/-- A file is read. -/
def readText (text : Option PyText) : Except RegistryError PyText :=
  match text with
  | some t => .ok t
  | none => .error .invalid

/-- One round over the Tools of a manifest: the manifest of the Tool. -/
def loadManifest (readBool : PyJson .value → Option Bool) (directory : SkillDirectory)
    (skillMeta : PyJson .value) (contentSha256 : Sha256) (raw : PyJson .value) :
    Except RegistryError ToolManifest := do
  match ← item "source" raw with
  | .text path =>
    let file := directory.file path
    -- The source must lie in the directory of its skill.
    if file.inside = false then .error .sourceEscaped
    else
      let source ← readText file.text
      let skillName ← stringItem "name" skillMeta
      let skillVersion ← stringItem "version" skillMeta
      let name ← stringItem "name" raw
      let version ← stringItem "version" raw
      let description ← stringItem "description" raw
      let creationRationale ← stringItem "creation_rationale" raw
      let parameters ← parameterSpecs readBool (← item "parameters" raw)
      if validReference skillName skillVersion = false ∨
        validReference name version = false then .error .invalid
      else .ok {
        skill := ⟨skillName, skillVersion, contentSha256⟩
        tool := ⟨name, version, sha256 source⟩
        description, creationRationale, parameters, source }
  | _ => .error .invalid

/-- One round over the Tools of a manifest: a name is taken once. -/
def loadTool (readBool : PyJson .value → Option Bool) (directory : SkillDirectory)
    (skillMeta : PyJson .value)
    (contentSha256 : Sha256) (acc : List ToolManifest × List ToolManifest) (raw : PyJson .value) :
    Except RegistryError (List ToolManifest × List ToolManifest) := do
  let manifest ← loadManifest readBool directory skillMeta contentSha256 raw
  if acc.1.any fun m =>
    m.tool.name = manifest.tool.name then .error (.duplicateTool manifest.tool.name)
  else .ok (acc.1 ++ [manifest], acc.2 ++ [manifest])

/-- One round over the directories. -/
def loadSkill (readBool : PyJson .value → Option Bool) (registry : ToolRegistry)
    (directory : SkillDirectory) :
    Except RegistryError ToolRegistry := do
  if directory.inside = false then .error .skillEscaped
  else
    match JsonText.loads (← readText directory.manifest) with
    | none => .error .invalid
    | some raw =>
      let skillMeta ← item "skill" raw
      let content ← readText directory.skillMd
      let contentSha256 := sha256 content
      match iterated (← item "tools" raw) with
      | none => .error .invalid
      | some items =>
        let (tools, loaded) ←
          items.foldlM (loadTool readBool directory skillMeta contentSha256) (registry.tools, [])
        let name ← stringItem "name" skillMeta
        let version ← stringItem "version" skillMeta
        let description ← frontmatterValue content (PyText.ofString "description")
        -- A name that is taken is noticed after the Tools have been loaded.
        if registry.skills.any fun s => s.name = name then .error (.duplicateSkill name)
        else .ok ⟨registry.skills ++
          [⟨name, version, description, contentSha256, content, loaded⟩], tools⟩

/-- What `load` makes of the directories, in the order of their paths. -/
def loadTree (readBool : PyJson .value → Option Bool) (directories : List SkillDirectory) :
    Except RegistryError ToolRegistry :=
  directories.foldlM (loadSkill readBool) {}

/-- `load`: the dictionaries are replaced at the end. -/
def ToolRegistry.load (readBool : PyJson .value → Option Bool) (registry : ToolRegistry)
    (directories : List SkillDirectory) : ToolRegistry :=
  match loadTree readBool directories with
  | .ok loaded => loaded
  | .error _ => registry

/-- A registry that is loaded again and again, while the files change. -/
def loading (readBool : PyJson .value → Option Bool) : Machine ToolRegistry (List SkillDirectory) :=
  ⟨fun r => r = {}, fun r directories => some (r.load readBool directories)⟩

/-! ## Lookups -/

/-- `get_skill`. -/
def ToolRegistry.getSkill (r : ToolRegistry) (name : String) : Except RegistryError SkillDocument :=
  match r.skills.find? fun s => s.name = name with
  | some skill => .ok skill
  | none => .error (.unknownSkill name)

/-- `get_tool`. -/
def ToolRegistry.getTool (r : ToolRegistry) (name : String) : Except RegistryError ToolManifest :=
  match r.tools.find? fun m => m.tool.name = name with
  | some manifest => .ok manifest
  | none => .error (.unknownTool name)

/-- `canonicalize_step_lineage`. -/
def ToolRegistry.canonicalizeStepLineage (r : ToolRegistry) (step : StepDraft) :
    Except RegistryError StepDraft :=
  if step.planningKind ≠ .toolPlan then .ok step
  else
    match step.skill, step.tool with
    | some skill, some tool => do
      let manifest ← r.getTool tool.name
      if manifest.skill.name ≠ skill.name then .error .mismatchedLineage
      else .ok { step with skill := some manifest.skill, tool := some manifest.tool }
    | _, _ => .error .missingLineage

/-! ## The hash of a snapshot -/

/-- The 64 digits of a digest. -/
def hexText (sha : Sha256) : PyText := (Api.hexDigits 64 sha).map Char.toNat

/-- An object of texts, without spaces and with the signs that are not ASCII as they are. -/
def dumped (members : List (String × PyText)) : PyText :=
  JsonText.dumpsTexts false [44] [58] (members.map fun m => (PyText.ofString m.1, m.2))

/-- An entry of the snapshot, with its keys sorted. -/
def snapshotEntry (m : ToolManifest) : PyText :=
  PyText.ofString "\x7b\"skill\":" ++
    dumped [("content_sha256", hexText m.skill.contentSha256),
      ("name", PyText.ofString m.skill.name), ("version", PyText.ofString m.skill.version)] ++
    PyText.ofString ",\"tool\":" ++
    dumped [("name", PyText.ofString m.tool.name), ("source_sha256", hexText m.tool.sourceSha256),
      ("version", PyText.ofString m.tool.version)] ++ [125]

/-- The text of the snapshot: the Tools by their names. -/
def ToolRegistry.snapshotText (r : ToolRegistry) : PyText :=
  91 :: List.intercalate [44]
    ((r.tools.mergeSort fun a b => a.tool.name ≤ b.tool.name).map snapshotEntry) ++ [93]

/-- `registry_snapshot_hash`. -/
def ToolRegistry.registrySnapshotHash (r : ToolRegistry) : Sha256 := sha256 r.snapshotText

end ExAgent.Tools
