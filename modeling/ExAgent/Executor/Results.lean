import ExAgent.Api.Tasks
import ExAgent.Lib.Excerpts
import ExAgent.Lib.Fallible
import ExAgent.Lib.JsonText
import ExAgent.Lib.Paths
import ExAgent.Lib.Sha256

/-!
# Previews of Executor results

`validated_result_summaries` of `ex_agent/executor/results.py`: for every step of a result the
manifest is read and checked, and of its text files as much is shown as a budget of characters
allows, which all steps share. A file is read in chunks; all of it is checked, and only its first
bytes are kept and decoded, with replacement characters for what is not UTF-8.

The previews are the excerpts of the decodings of the whole files (`previews_excerpts`): no cut
between two bytes shows, because a character takes at most four bytes and what stands for it depends
on no more.
-/

namespace ExAgent.Executor

open Lib Lib.JsonText Lib.Excerpts

attribute [local instance] PyText.lawfulBEq

/-! ## The source -/

/-- What the reading of a result raises. -/
inductive ResultError
  | valueError (text : String)
  | typeError
  /-- A JSON text that is none. -/
  | decodeError
  | osError
deriving DecidableEq

/-- The shared file system: where a path leads, and what reading a file returns, one read after
another. -/
structure Disk where
  resolve : PosixPath → Option PosixPath
  read : PosixPath → Option (List (List UInt8))

/-- The chunks of a file: a read that returns nothing is at its end. -/
def Disk.chunks (disk : Disk) (path : PosixPath) : Option (List (List UInt8)) :=
  (disk.read path).map fun reads => reads.takeWhile fun chunk => chunk ≠ []

/-- The bytes of a file. -/
def Disk.bytes (disk : Disk) (path : PosixPath) : Option (List UInt8) :=
  (disk.chunks path).map List.flatten

/-- `StepResult`. -/
structure StepResult where
  status : PyText
  outputSummary : PyJson .members
  errorMessage : Option PyText
  resultRef : Option (PyJson .members)

/-- `ResultStep`. -/
structure ResultStep where
  stepId : Uuid
  sequence : ℤ
  lineage : PyJson .members
  result : StepResult

/-- `ResultOperation`. -/
structure ResultOperation where
  operationNumber : ℤ
  steps : List ResultStep

/-- `ExecutionResult`. -/
structure ExecutionResult where
  executionId : Uuid
  operations : List ResultOperation

/-- An item of `output_previews`. -/
structure OutputPreview where
  ordinal : PyJson .value
  kind : PyJson .value
  streamName : PyJson .value
  mediaType : PyText
  content : PyText
  truncated : Bool

/-- The summary of a step. -/
structure Summary where
  operationNumber : ℤ
  stepId : Uuid
  sequence : ℤ
  lineage : PyJson .members
  status : PyText
  outputSummary : PyJson .members
  errorMessage : Option PyText
  /-- The relative path and the checksum of the manifest. -/
  resultRef : Option (PyJson .value × PyJson .value) := none
  outputPreviews : List OutputPreview := []

/-- `_TEXT_MEDIA_TYPES`. -/
def textMediaTypes : List PyText :=
  ["application/json", "text/csv", "text/html", "text/markdown", "text/plain"].map PyText.ofString

/-- `value.get(key)`. -/
def get (value : PyJson .members) (key : String) : PyJson .value :=
  (lookup (PyText.ofString key) value).getD .none

/-- The value is `True`. -/
def isTrue : PyJson .value → Bool
  | .bool b => b
  | _ => false

/-- `_required_string`. -/
def requiredString (value : PyJson .members) (key : String) : Except ResultError PyText :=
  match get value key with
  | .text (c :: text) => .ok (c :: text)
  | _ => .error (.valueError ("Executor result_ref " ++ key ++ " must be a string"))

/-- `_required_int`. -/
def requiredInt (value : PyJson .members) (key : String) : Except ResultError ℤ :=
  match get value key with
  | .number (.int n) => .ok n
  | _ => .error (.valueError ("Executor result_ref " ++ key ++ " must be an integer"))

/-- `_safe_path`. -/
def safePath (disk : Disk) (root : PosixPath) (relativePath : PyText) :
    Except ResultError PosixPath :=
  let candidate := PosixPath.ofText relativePath
  if candidate.absolute then .error (.valueError "Executor result path must be relative")
  else
    match disk.resolve (root.join candidate) with
    | none => .error .osError
    | some resolved =>
      if resolved ≠ root ∧ root ∉ resolved.parents then
        .error (.valueError "Executor result path escaped shared storage")
      else .ok resolved

/-- What the loop over the chunks has read: the bytes given to the digest, their number, and the
preview. -/
structure Reading where
  digested : List UInt8 := []
  actualSize : ℕ := 0
  preview : List UInt8 := []

/-- One chunk. -/
def Reading.update (previewBytes : ℕ) (r : Reading) (chunk : List UInt8) : Reading where
  digested := r.digested ++ chunk
  actualSize := r.actualSize + chunk.length
  preview :=
    if r.preview.length < previewBytes then r.preview ++
      chunk.take (previewBytes - r.preview.length)
    else r.preview

/-- `_read_verified_file`. -/
def readVerifiedFile (disk : Disk) (path : PosixPath) (expectedSize : ℤ) (expectedSha256 : PyText)
    (previewBytes : ℕ) : Except ResultError (List UInt8 × Bool) :=
  if expectedSize < 0 then .error (.valueError "Executor result size cannot be negative")
  else
    match disk.chunks path with
    | none => .error .osError
    | some chunks =>
      let r := chunks.foldl (Reading.update previewBytes) {}
      if (r.actualSize : ℤ) ≠ expectedSize then
        .error (.valueError "Executor result file size mismatch")
      else if (Sha256.hexdigest r.digested).map Char.toNat ≠ expectedSha256 then
        .error (.valueError "Executor result file checksum mismatch")
      else .ok (r.preview, decide (r.preview.length < r.actualSize))

/-- The items of a list. -/
def listItems : ∀ {k : JsonKind}, PyJson k → List (PyJson .value)
  | _, .cons head tail => head :: listItems tail
  | _, _ => []

/-- The items that a `for` loop takes from `value.get(key, [])`: those of a list, the characters of
a text, the keys of a dictionary. Another value is not iterable. -/
def iterate (value : PyJson .members) (key : String) : Except ResultError (List (PyJson .value)) :=
  match lookup (PyText.ofString key) value with
  | none => .ok []
  | some (.list items) => .ok (listItems items)
  | some (.text t) => .ok (t.map fun c => .text [c])
  | some (.dict members) => .ok (members.keys.map .text)
  | some _ => .error .typeError

section Source

variable (spell : PyJson .value → PyText) (wide : List UInt8 → Option PyText) (disk : Disk)

/-- `_validate_manifest_identity`. -/
def validateManifestIdentity (manifest : PyJson .members) (executionId : Uuid) (step : ResultStep)
    (reference : PyJson .members) : Except ResultError Unit :=
  if ¬isTrue (get manifest "complete") then
    .error (.valueError "Executor result manifest is incomplete")
  else
    match get manifest "identity" with
    | .dict identity =>
      let expected : List (String × PyJson .value) :=
        [("execution_id", .text ((Api.uuidText executionId).map Char.toNat)),
          ("step_id", .text ((Api.uuidText step.stepId).map Char.toNat)),
          ("execution_attempt_id", .text (str spell (get reference "attempt_id"))),
          ("fencing_token", get reference "fencing_token")]
      if expected.any fun e => !(get identity e.1).pyEq e.2 then
        .error (.valueError "Executor result manifest identity mismatch")
      else .ok ()
    | _ => .error (.valueError "Executor result manifest identity is missing")

/-- `str(representation.get("media_type", ""))`. -/
def mediaTypeOf (representation : PyJson .members) : PyText :=
  match lookup (PyText.ofString "media_type") representation with
  | some v => str spell v
  | none => []

/-- One round of the loop over the representations of an output. -/
def previewRepresentation (maxChars : ℤ) (manifestPath : PosixPath) (output : PyJson .members)
    (state : List OutputPreview × ℕ) : PyJson .value → Except ResultError (List OutputPreview × ℕ)
  | .dict representation =>
    if ¬isTrue (get representation "complete") then
      .error (.valueError "Executor result representation is incomplete")
    -- A file of another media type is left out, and so is one when the budget is spent.
    else if mediaTypeOf spell representation ∉ textMediaTypes ∨ maxChars ≤ state.2 then .ok state
    else do
      let relativePath ← requiredString representation "relative_path"
      let representationPath ← safePath disk manifestPath.parent relativePath
      let allowedChars := (maxChars - state.2).toNat
      let expectedSize ← requiredInt representation "size_bytes"
      let expectedSha256 ← requiredString representation "checksum_sha256"
      -- A character has at most four bytes.
      let (content, truncated) ←
        readVerifiedFile disk representationPath expectedSize expectedSha256
          (max (allowedChars * 4) 1)
      let text := Utf8.decodeReplace content
      let bounded := text.take allowedChars
      .ok (state.1 ++ [{
        ordinal := get output "ordinal"
        kind := get output "kind"
        streamName := get output "stream_name"
        mediaType := mediaTypeOf spell representation
        content := bounded
        truncated := truncated || decide (bounded.length < text.length) }],
          state.2 + bounded.length)
  | _ => .error (.valueError "Executor result representation must be an object")

/-- One round of the loop over the outputs of a manifest. -/
def previewOutput (maxChars : ℤ) (manifestPath : PosixPath) (state : List OutputPreview × ℕ) :
    PyJson .value → Except ResultError (List OutputPreview × ℕ)
  | .dict output => do
    let representations ← iterate output "representations"
    representations.foldlM (previewRepresentation spell disk maxChars manifestPath output) state
  | _ => .error (.valueError "Executor result output must be an object")

/-- The manifest that a reference names, and its path. -/
def readManifest (root : PosixPath) (executionId : Uuid) (step : ResultStep)
    (reference : PyJson .members)
    (maxManifestBytes : ℤ) : Except ResultError (PosixPath × PyJson .members) := do
  -- The reference is checked before its file is read.
  if !(get reference "storage").pyEq (.text (PyText.ofString "SHARED_PV")) then
    throw (.valueError "Executor result_ref storage must be SHARED_PV")
  if str spell (get reference "execution_id") ≠ (Api.uuidText executionId).map Char.toNat then
    throw (.valueError "Executor result_ref execution identity mismatch")
  if str spell (get reference "step_id") ≠ (Api.uuidText step.stepId).map Char.toNat then
    throw (.valueError "Executor result_ref step identity mismatch")
  if ¬isTrue (get reference "complete") then
    throw (.valueError "Executor result_ref is incomplete")
  let relativePath ← requiredString reference "relative_path"
  let manifestPath ← safePath disk root relativePath
  let size ← requiredInt reference "size_bytes"
  if size > maxManifestBytes then
    throw (.valueError "Executor result manifest exceeds size limit")
  let expectedSha256 ← requiredString reference "checksum_sha256"
  let (raw, _) ← readVerifiedFile disk manifestPath size expectedSha256 maxManifestBytes.toNat
  match loadsBytes wide raw with
  | none => throw .decodeError
  | some (.dict manifest) =>
    validateManifestIdentity spell manifest executionId step reference
    return (manifestPath, manifest)
  | some _ => throw (.valueError "Executor result manifest must be an object")

/-- `_read_result_preview`. -/
def readResultPreview (root : PosixPath) (executionId : Uuid) (step : ResultStep)
    (reference : PyJson .members) (maxChars maxManifestBytes : ℤ) :
    Except ResultError (List OutputPreview × ℕ) := do
  let (manifestPath, manifest) ←
    readManifest spell wide disk root executionId step reference maxManifestBytes
  let outputs ← iterate manifest "outputs"
  outputs.foldlM (previewOutput spell disk maxChars manifestPath) ([], 0)

/-- The summary of a step before its manifest is read. -/
def Summary.ofStep (operation : ResultOperation) (step : ResultStep) : Summary where
  operationNumber := operation.operationNumber
  stepId := step.stepId
  sequence := step.sequence
  lineage := step.lineage
  status := step.result.status
  outputSummary := step.result.outputSummary
  errorMessage := step.result.errorMessage

/-- One round of the loop over the steps of an operation; what remains of the budget goes on. -/
def summarizeStep (root : PosixPath) (executionId : Uuid) (maxManifestBytes : ℤ)
    (operation : ResultOperation)
    (state : ℤ × List Summary) (step : ResultStep) : Except ResultError (ℤ × List Summary) :=
  let summary := Summary.ofStep operation step
  match step.result.resultRef with
  | none => .ok (state.1, state.2 ++ [summary])
  | some reference => do
    let (previews, consumed) ←
      readResultPreview spell wide disk root executionId step reference state.1 maxManifestBytes
    let summary := { summary with
      resultRef := some (get reference "relative_path", get reference "checksum_sha256")
      outputPreviews := previews }
    .ok (state.1 - consumed, state.2 ++ [summary])

/-- `_validated_result_summaries`. -/
def validatedResultSummaries (result : ExecutionResult) (sharedRoot : PosixPath)
    (maxContextChars maxManifestBytes : ℤ) : Except ResultError (List Summary) :=
  match disk.resolve sharedRoot with
  | none => .error .osError
  | some root => do
    let state ← result.operations.foldlM (fun state operation =>
      operation.steps.foldlM
        (summarizeStep spell wide disk root result.executionId maxManifestBytes operation) state)
      (maxContextChars, [])
    .ok state.2

/-! ## The files behind the previews -/

/-- The file of a representation. -/
def representationFile (manifestPath : PosixPath) (representation : PyJson .members) : List UInt8 :=
  match requiredString representation "relative_path" >>= safePath disk manifestPath.parent with
  | .ok path => (disk.bytes path).getD []
  | .error _ => []

/-- The file of a representation, if it is a text. -/
def representationFiles (manifestPath : PosixPath) : PyJson .value → List (List UInt8)
  | .dict representation =>
    if mediaTypeOf spell representation ∈ textMediaTypes then
      [representationFile disk manifestPath representation]
    else []
  | _ => []

/-- The text files of an output. -/
def outputFiles (manifestPath : PosixPath) : PyJson .value → List (List UInt8)
  | .dict output => ((iterate output "representations").toOption.getD []).flatMap
      (representationFiles spell disk manifestPath)
  | _ => []

/-- The text files of a step. -/
def stepFiles (root : PosixPath) (executionId : Uuid) (maxManifestBytes : ℤ) (step : ResultStep) :
    List (List UInt8) :=
  match step.result.resultRef with
  | none => []
  | some reference =>
    match readManifest spell wide disk root executionId step reference maxManifestBytes with
    | .ok (manifestPath, manifest) =>
      ((iterate manifest "outputs").toOption.getD []).flatMap (outputFiles spell disk manifestPath)
    | .error _ => []

/-- The text files of a result, in the order of its operations, steps, outputs and
representations. -/
def resultFiles (result : ExecutionResult) (sharedRoot : PosixPath) (maxManifestBytes : ℤ) :
    List (List UInt8) :=
  match disk.resolve sharedRoot with
  | none => []
  | some root => result.operations.flatMap fun operation =>
      operation.steps.flatMap (stepFiles spell wide disk root result.executionId maxManifestBytes)

end Source

/-! ## Reading a file -/

/-- The bytes are counted, and the first ones are kept. -/
structure Reading.Sound (previewBytes : ℕ) (r : Reading) : Prop where
  actualSize : r.actualSize = r.digested.length
  preview : r.preview = r.digested.take previewBytes

/-- A chunk preserves this. -/
theorem Reading.Sound.update {n : ℕ} {r : Reading} (h : r.Sound n) (chunk : List UInt8) :
    (r.update n chunk).Sound n where
  actualSize := by
    show r.actualSize + chunk.length = (r.digested ++ chunk).length
    rw [h.actualSize, List.length_append]
  preview := by
    show (if r.preview.length < n then _ else _) = (r.digested ++ chunk).take n
    have hlength : r.preview.length = min n r.digested.length := by rw [h.preview, List.length_take]
    rw [List.take_append, ← h.preview]
    split_ifs with hlt
    · have hsame : r.preview.length = r.digested.length := by omega
      rw [hsame]
    · have hzero : n - r.digested.length = 0 := by omega
      rw [hzero, List.take_zero, List.append_nil]

/-- However a file is read, all of it is digested. -/
theorem foldl_update {n : ℕ} (chunks : List (List UInt8)) {r : Reading} (h : r.Sound n) :
    (chunks.foldl (Reading.update n) r).Sound n ∧
      (chunks.foldl (Reading.update n) r).digested = r.digested ++ chunks.flatten := by
  induction chunks generalizing r with
  | nil => exact ⟨h, (List.append_nil _).symm⟩
  | cons chunk chunks ih =>
    obtain ⟨hsound, hdigested⟩ := ih (h.update chunk)
    refine ⟨hsound, hdigested.trans ?_⟩
    rw [List.flatten_cons, ← List.append_assoc]
    rfl

/-- A file that is read has the size and the checksum that were expected; its first bytes are
returned, and whether there are more. -/
theorem readVerifiedFile_ok {disk : Disk} {path : PosixPath} {expectedSize : ℤ}
    {expectedSha256 : PyText} {previewBytes : ℕ} {content : List UInt8} {truncated : Bool}
    (h : readVerifiedFile disk path expectedSize expectedSha256 previewBytes =
      .ok (content, truncated)) :
    ∃ bytes, disk.bytes path = some bytes ∧ (bytes.length : ℤ) = expectedSize ∧
      (Sha256.hexdigest bytes).map Char.toNat = expectedSha256 ∧ content = bytes.take previewBytes ∧
      (truncated = true ↔ previewBytes < bytes.length) := by
  unfold readVerifiedFile at h
  split_ifs at h with hneg
  cases hchunks : disk.chunks path with
  | none =>
    rw [hchunks] at h
    cases h
  | some chunks =>
    rw [hchunks] at h
    dsimp only at h
    have hempty : ({} : Reading).Sound previewBytes := ⟨rfl, List.take_nil.symm⟩
    obtain ⟨hsound, hdigested⟩ := foldl_update chunks hempty
    rw [show ({} : Reading).digested = [] from rfl, List.nil_append] at hdigested
    have hsize := hsound.actualSize
    have hpreview := hsound.preview
    rw [hdigested] at hsize hpreview
    rw [hdigested, hsize, hpreview] at h
    split_ifs at h with hmismatch hchecksum
    obtain ⟨rfl, rfl⟩ := Prod.mk.inj (Except.ok.inj h)
    refine ⟨chunks.flatten, by rw [Disk.bytes, hchunks]; rfl, not_not.mp hmismatch,
      not_not.mp hchecksum, rfl, ?_⟩
    rw [decide_eq_true_iff, List.length_take]
    omega

/-- The first characters of a file, and whether it has more, from its first bytes. -/
theorem preview_sound {k : ℕ} (hk : 0 < k) (bytes : List UInt8) {truncated : Bool}
    (h : truncated = true ↔ max (k * 4) 1 < bytes.length) :
    ((Utf8.decodeReplace (bytes.take (max (k * 4) 1))).take k,
        truncated || decide (((Utf8.decodeReplace (bytes.take (max (k * 4) 1))).take k).length <
          (Utf8.decodeReplace (bytes.take (max (k * 4) 1))).length)) =
      ((Utf8.decodeReplace bytes).take k, decide (k < (Utf8.decodeReplace bytes).length)) := by
  have hmax : max (k * 4) 1 = 4 * k := by omega
  rw [hmax] at h ⊢
  rw [Utf8.take_decodeReplace_take le_rfl]
  refine congrArg _ ?_
  by_cases hlong : 4 * k < bytes.length
  · -- A longer file has more than `k` characters, whatever its bytes are.
    have hcut := Utf8.lt_length_decodeReplace hlong
    rw [h.mpr hlong, Bool.true_or, decide_eq_true hcut]
  · have hwhole : bytes.take (4 * k) = bytes := List.take_of_length_le (by omega)
    have hnot : truncated = false := Bool.eq_false_iff.mpr fun ht => hlong (h.mp ht)
    rw [hwhole, hnot, Bool.false_or, List.length_take, decide_eq_decide]
    omega

/-! ## The loops -/

/-- What a preview shows of its file. -/
def OutputPreview.excerpt (p : OutputPreview) : PyText × Bool := (p.content, p.truncated)

section Loops

variable {spell : PyJson .value → PyText} {wide : List UInt8 → Option PyText} {disk : Disk}
  {maxChars maxManifestBytes : ℤ} {manifestPath : PosixPath}

/-- A representation adds the excerpt of its file. -/
theorem previewRepresentation_writes {output : PyJson .members} {representation : PyJson .value}
    {s s' : List OutputPreview × ℕ}
    (h : previewRepresentation spell disk maxChars manifestPath output s representation = .ok s') :
    Writes maxChars.toNat OutputPreview.excerpt s s'
      ((representationFiles spell disk manifestPath representation).map Utf8.decodeReplace) := by
  cases representation with
  | dict members =>
    unfold previewRepresentation at h
    dsimp only at h
    split_ifs at h with hcomplete hskip
    · obtain rfl := Except.ok.inj h
      -- It is no text, or the budget is used up.
      rcases hskip with hmedia | hused
      · have hfiles : representationFiles spell disk manifestPath (.dict members) =
            [] := if_neg hmedia
        rw [hfiles]
        exact .refl s
      · have hzero : maxChars.toNat - s.2 = 0 := by omega
        refine ⟨[], (List.append_nil _).symm, ?_, ?_⟩
        · rw [hzero, excerpts_zero, List.map_nil]
        · rw [hzero, excerpts_zero, total_nil, Nat.add_zero]
    · obtain ⟨hmedia, hleft⟩ := not_or.mp hskip
      have hleft : 0 < (maxChars - s.2).toNat := by omega
      have hallowed : (maxChars - s.2).toNat = maxChars.toNat - s.2 := by omega
      obtain ⟨relativePath, hrelative, h⟩ := Fallible.bind_eq_ok.mp h
      obtain ⟨path, hpath, h⟩ := Fallible.bind_eq_ok.mp h
      obtain ⟨expectedSize, -, h⟩ := Fallible.bind_eq_ok.mp h
      obtain ⟨expectedSha256, -, h⟩ := Fallible.bind_eq_ok.mp h
      obtain ⟨⟨content, truncated⟩, hread, h⟩ := Fallible.bind_eq_ok.mp h
      obtain ⟨bytes, hbytes, -, -, rfl, htruncated⟩ := readVerifiedFile_ok hread
      obtain rfl := Except.ok.inj h
      have hfile : representationFile disk manifestPath members = bytes := by
        unfold representationFile
        rw [hrelative]
        show (match safePath disk manifestPath.parent relativePath with
          | .ok path => (disk.bytes path).getD []
          | .error _ => []) = bytes
        rw [hpath]
        show (disk.bytes path).getD [] = bytes
        rw [hbytes]
        rfl
      have hfiles : representationFiles spell disk manifestPath (.dict members) = [bytes] := by
        rw [← hfile]
        exact if_pos (not_not.mp hmedia)
      have hshown := preview_sound hleft bytes htruncated
      rw [hfiles, List.map_singleton]
      refine ⟨[_], rfl, ?_, ?_⟩
      · rw [List.map_singleton, excerpts_cons (by omega), ← hallowed, ← hshown]
        rfl
      · rw [excerpts_cons (by omega), ← hallowed, ← hshown]
        rfl
  | _ => cases h

/-- An output adds the excerpts of its files. -/
theorem previewOutput_writes {output : PyJson .value} {s s' : List OutputPreview × ℕ}
    (h : previewOutput spell disk maxChars manifestPath s output = .ok s') :
    Writes maxChars.toNat OutputPreview.excerpt s s'
      ((outputFiles spell disk manifestPath output).map Utf8.decodeReplace) := by
  cases output with
  | dict members =>
    obtain ⟨representations, hitems, h⟩ := Fallible.bind_eq_ok.mp h
    have hfiles : outputFiles spell disk manifestPath (.dict members) =
        representations.flatMap (representationFiles spell disk manifestPath) := by
      unfold outputFiles
      dsimp only
      rw [hitems]
      rfl
    rw [hfiles, List.map_flatMap]
    exact (foldlM_writes (fun s => s) (fun _ => True)
      (fun s x s' _ hround => ⟨trivial, previewRepresentation_writes hround⟩) trivial h).2
  | _ => cases h

/-- A manifest gives the excerpts of its files, and their length. -/
theorem readResultPreview_ok {root : PosixPath} {executionId : Uuid} {step : ResultStep}
    {reference : PyJson .members} {previews : List OutputPreview} {consumed : ℕ}
    (hreference : step.result.resultRef = some reference)
    (h : readResultPreview spell wide disk root executionId step reference maxChars
      maxManifestBytes = .ok (previews, consumed)) :
    Writes maxChars.toNat OutputPreview.excerpt ([], 0) (previews, consumed)
      ((stepFiles spell wide disk root executionId maxManifestBytes step).map
        Utf8.decodeReplace) := by
  obtain ⟨⟨manifestPath, manifest⟩, hmanifest, h⟩ := Fallible.bind_eq_ok.mp h
  obtain ⟨outputs, hitems, h⟩ := Fallible.bind_eq_ok.mp h
  have hfiles : stepFiles spell wide disk root executionId maxManifestBytes step =
      outputs.flatMap (outputFiles spell disk manifestPath) := by
    unfold stepFiles
    rw [hreference]
    dsimp only
    rw [hmanifest]
    dsimp only
    rw [hitems]
    rfl
  rw [hfiles, List.map_flatMap]
  exact (foldlM_writes (fun s => s) (fun _ => True)
    (fun s x s' _ hround => ⟨trivial, previewOutput_writes hround⟩) trivial h).2

/-- The previews so far, and what they use of the budget. -/
def observed (maxContextChars : ℤ) (state : ℤ × List Summary) : List OutputPreview × ℕ :=
  (state.2.flatMap Summary.outputPreviews, (maxContextChars - state.1).toNat)

/-- A step adds the excerpts of its files, and the budget stays between nothing and all of it. -/
theorem summarizeStep_writes {maxContextChars : ℤ} {root : PosixPath} {executionId : Uuid}
    {operation : ResultOperation} {step : ResultStep} {s s' : ℤ × List Summary}
    (hinv : 0 ≤ s.1 ∧ s.1 ≤ maxContextChars)
    (h : summarizeStep spell wide disk root executionId maxManifestBytes operation
      s step = .ok s') :
    (0 ≤ s'.1 ∧ s'.1 ≤ maxContextChars) ∧
      Writes maxContextChars.toNat OutputPreview.excerpt (observed maxContextChars s)
        (observed maxContextChars s')
        ((stepFiles spell wide disk root executionId maxManifestBytes step).map
          Utf8.decodeReplace) := by
  unfold summarizeStep at h
  cases hreference : step.result.resultRef with
  -- A Step without a result file adds no preview and spends nothing.
  | none =>
    rw [hreference] at h
    obtain rfl := Except.ok.inj h
    have hfiles : stepFiles spell wide disk root executionId maxManifestBytes step = [] := by
      unfold stepFiles
      rw [hreference]
    have hsame : observed maxContextChars (s.1, s.2 ++ [Summary.ofStep operation step]) =
        observed maxContextChars s := by
      unfold observed
      rw [List.flatMap_append]
      exact congrArg (fun previews => (previews, _)) (List.append_nil _)
    rw [hfiles, hsame]
    exact ⟨hinv, .refl _⟩
  | some reference =>
    rw [hreference] at h
    obtain ⟨⟨previews, consumed⟩, hread, h⟩ := Fallible.bind_eq_ok.mp h
    obtain rfl := Except.ok.inj h
    obtain ⟨new, hnew, hview, hconsumed⟩ := readResultPreview_ok hreference hread
    obtain rfl : previews = new := hnew
    -- What the earlier Steps have left of the budget is what this one may spend.
    have hleft : maxContextChars.toNat - (maxContextChars - s.1).toNat = s.1.toNat - 0 := by omega
    have htotal := total_excerpts_le (s.1.toNat - 0)
      ((stepFiles spell wide disk root executionId maxManifestBytes step).map Utf8.decodeReplace)
    have hcount : consumed = 0 + total (excerpts (s.1.toNat - 0)
        ((stepFiles spell wide disk root executionId maxManifestBytes step).map
        Utf8.decodeReplace)) := hconsumed
    refine ⟨⟨?_, ?_⟩, previews, ?_, ?_, ?_⟩
    · show 0 ≤ s.1 - consumed
      omega
    · show s.1 - consumed ≤ maxContextChars
      omega
    · show (s.2 ++ [_]).flatMap _ = s.2.flatMap _ ++ previews
      rw [List.flatMap_append]
      exact congrArg _ (List.append_nil _)
    · show previews.map _ = excerpts (maxContextChars.toNat - (maxContextChars - s.1).toNat) _
      rw [hleft]
      exact hview
    · show (maxContextChars - (s.1 - consumed)).toNat = (maxContextChars - s.1).toNat +
        total (excerpts (maxContextChars.toNat - (maxContextChars - s.1).toNat) _)
      rw [hleft]
      omega

/-- The previews of a result are the excerpts of the decodings of its text files. -/
theorem previews_excerpts {result : ExecutionResult} {sharedRoot : PosixPath} {maxContextChars : ℤ}
    (hmax : 0 ≤ maxContextChars) {summaries : List Summary}
    (h : validatedResultSummaries spell wide disk result sharedRoot maxContextChars
      maxManifestBytes = .ok summaries) :
    (summaries.flatMap Summary.outputPreviews).map OutputPreview.excerpt =
      excerpts maxContextChars.toNat
        ((resultFiles spell wide disk result sharedRoot maxManifestBytes).map
          Utf8.decodeReplace) := by
  unfold validatedResultSummaries at h
  unfold resultFiles
  cases hroot : disk.resolve sharedRoot with
  | none =>
    rw [hroot] at h
    cases h
  | some root =>
    rw [hroot] at h
    obtain ⟨state, hstate, h⟩ := Fallible.bind_eq_ok.mp h
    obtain rfl := Except.ok.inj h
    -- One operation writes the previews of its Steps, and all of them those of the result.
    have hsteps : ∀ s (operation : ResultOperation) s', (0 ≤ s.1 ∧ s.1 ≤ maxContextChars) →
        operation.steps.foldlM
          (summarizeStep spell wide disk root result.executionId maxManifestBytes
          operation) s = .ok s' →
        (0 ≤ s'.1 ∧ s'.1 ≤ maxContextChars) ∧
          Writes maxContextChars.toNat OutputPreview.excerpt (observed maxContextChars s)
            (observed maxContextChars s')
            ((operation.steps.flatMap
              (stepFiles spell wide disk root result.executionId maxManifestBytes)).map
                Utf8.decodeReplace) := by
      intro s operation s' hinv hround
      rw [List.map_flatMap]
      exact foldlM_writes (observed maxContextChars) _
        (fun s step s' hinv hround => summarizeStep_writes hinv hround) hinv hround
    obtain ⟨-, new, hnew, hview, -⟩ := foldlM_writes (observed maxContextChars) _ hsteps
      ⟨hmax, le_rfl⟩ hstate
    have hfirst : (maxContextChars - maxContextChars).toNat = 0 := by omega
    rw [← List.map_flatMap] at hview
    have hall : state.2.flatMap Summary.outputPreviews = new := hnew
    rw [hall, hview]
    show excerpts (maxContextChars.toNat - (maxContextChars - maxContextChars).toNat) _ = _
    rw [hfirst, Nat.sub_zero]

/-- What is shown of text files, given by their bytes, under a budget of characters. -/
structure Previewed (files : List (List UInt8)) (maxContextChars : ℤ)
    (previews : List OutputPreview) :
    Prop where
  /-- The previews are the excerpts of the decodings of all files, in their order. -/
  shown : previews.map OutputPreview.excerpt =
    excerpts maxContextChars.toNat (files.map Utf8.decodeReplace)
  /-- Each preview is the beginning of the decoding of the whole file at its place, as far as the
  previews before it leave room, and says whether the decoding is longer. -/
  each : ∀ before p after, previews = before ++ p :: after →
    ∃ bytes, files[before.length]? = some bytes ∧
      let k := maxContextChars.toNat - (before.map fun q => q.content.length).sum
      p.content = (Utf8.decodeReplace bytes).take k ∧
        (p.truncated = true ↔ k < (Utf8.decodeReplace bytes).length)
  /-- A file is left out only when the budget is used up. -/
  leftOut : previews.length < files.length →
    (((previews.map fun p => p.content.length).sum : ℕ) : ℤ) = maxContextChars
  bounded : (((previews.map fun p => p.content.length).sum : ℕ) : ℤ) ≤ maxContextChars

/-- The previews of a result, of all its operations and steps, are those of its text files under the
budget. -/
theorem result_previews (spell : PyJson .value → PyText) (wide : List UInt8 → Option PyText)
    (disk : Disk) {result : ExecutionResult} {sharedRoot : PosixPath}
    {maxContextChars maxManifestBytes : ℤ} (hmax : 0 ≤ maxContextChars) {summaries : List Summary}
    (h : validatedResultSummaries spell wide disk result sharedRoot maxContextChars
      maxManifestBytes = .ok summaries) :
    Previewed (resultFiles spell wide disk result sharedRoot maxManifestBytes) maxContextChars
      (summaries.flatMap Summary.outputPreviews) := by
  have hshown := previews_excerpts hmax h
  have htotal : ∀ previews : List OutputPreview,
      total (previews.map OutputPreview.excerpt) =
      (previews.map fun p => p.content.length).sum := by
    intro previews
    unfold total
    rw [List.map_map]
    rfl
  constructor
  case shown => exact hshown
  case each =>
    intro before p after hsplit
    rw [hsplit, List.map_append, List.map_cons] at hshown
    obtain ⟨text, hget, htake, hcut⟩ := excerpts_split hshown.symm
    rw [List.length_map, List.getElem?_map] at hget
    obtain ⟨bytes, hbytes, rfl⟩ := Option.map_eq_some_iff.mp hget
    rw [htotal] at htake hcut
    exact ⟨bytes, hbytes, htake, hcut⟩
  case leftOut =>
    intro hless
    have hlength := congrArg List.length hshown
    rw [List.length_map] at hlength
    have hused : total (excerpts maxContextChars.toNat
        ((resultFiles spell wide disk result sharedRoot maxManifestBytes).map
          Utf8.decodeReplace)) = maxContextChars.toNat := by
      apply total_excerpts_eq
      rw [← hlength, List.length_map]
      exact hless
    rw [← htotal, hshown, hused]
    omega
  case bounded =>
    rw [← htotal, hshown]
    have hle := total_excerpts_le maxContextChars.toNat
      ((resultFiles spell wide disk result sharedRoot maxManifestBytes).map Utf8.decodeReplace)
    omega

end Loops

/-! ## A result with one file -/

namespace Sample

/-- Bytes that are not all UTF-8: `a`, `é`, a stray byte, `b`. -/
def file : List UInt8 := [97, 0xC3, 0xA9, 0xFF, 98]

/-- A text in quotes. -/
def quoted (t : PyText) : PyText := quoteText true t

/-- The text of a JSON object. -/
def object (members : List (String × PyText)) : PyText :=
  123 :: List.intercalate [44]
    (members.map fun m => quoted (PyText.ofString m.1) ++ 58 :: m.2) ++ [125]

/-- The text of a UUID. -/
def idText (id : Uuid) : PyText := (Api.uuidText id).map Char.toNat

/-- The manifest of an output: one file with two representations. -/
def manifest : List UInt8 :=
  let representation := object [("complete", PyText.ofString "true"),
    ("media_type", quoted (PyText.ofString "text/plain")),
    ("relative_path", quoted (PyText.ofString "o.txt")),
    ("size_bytes", PyText.ofString "5"),
    ("checksum_sha256", quoted ((Sha256.hexdigest file).map Char.toNat))]
  let output := object [("representations", 91 :: representation ++ [93])]
  let identity := object [("execution_id", quoted (idText 1)), ("step_id", quoted (idText 2)),
    ("execution_attempt_id", quoted (PyText.ofString "a"))]
  Utf8.encode (object [("complete", PyText.ofString "true"), ("identity", identity),
    ("outputs", 91 :: output ++ [93])])

/-- A JSON text. -/
def text (s : String) : PyJson .value := .text (PyText.ofString s)

/-- The reference to the manifest. -/
def reference : PyJson .members :=
  .member (PyText.ofString "attempt_id") (text "a") <|
  .member (PyText.ofString "checksum_sha256")
  (.text ((Sha256.hexdigest manifest).map Char.toNat)) <|
  .member (PyText.ofString "complete") (.bool true) <|
  .member (PyText.ofString "execution_id") (.text (idText 1)) <|
  .member (PyText.ofString "relative_path") (text "r/m.json") <|
  .member (PyText.ofString "size_bytes") (.number (.int manifest.length)) <|
  .member (PyText.ofString "step_id") (.text (idText 2)) <|
  .member (PyText.ofString "storage") (text "SHARED_PV") .empty

/-- The shared root. -/
def root : PosixPath := PosixPath.ofText (PyText.ofString "/s")

/-- The manifest is read at once, the file in two chunks. -/
def disk : Disk where
  resolve := some
  read := fun path =>
    if path = root.join (PosixPath.ofText (PyText.ofString "r/m.json")) then some [manifest]
    else if path = root.join (PosixPath.ofText (PyText.ofString "r/o.txt")) then
      some [[97, 0xC3], [0xA9, 0xFF, 98], []]
    else none

/-- A result of one Step with the manifest. -/
def result : ExecutionResult :=
  ⟨1, [⟨1, [⟨2, 1, .empty, PyText.ofString "COMPLETED", .empty, none, some reference⟩]⟩]⟩

/-- The summaries with the budget of three characters. -/
def summaries : List Summary :=
  (validatedResultSummaries (fun _ => []) (fun _ => none) disk result root 3 4096).toOption.getD []

/-- The summaries of that result. -/
theorem summaries_eq :
    validatedResultSummaries (fun _ => []) (fun _ => none) disk result root 3 4096 =
    .ok summaries := by
  have hok : (validatedResultSummaries (fun _ => []) (fun _ => none) disk result root 3 4096).isOk =
      true := by
    decide +kernel
  unfold summaries
  revert hok
  cases validatedResultSummaries (fun _ => []) (fun _ => none) disk result root 3 4096 with
  | error e => exact nofun
  | ok s => exact fun _ => rfl

end Sample

/-- Of a file with four characters, one of them for the stray byte, three are shown. -/
theorem result_previews_three :
    (Sample.summaries.flatMap Summary.outputPreviews).map OutputPreview.excerpt =
      [([97, 233, 65533], true)] ∧
    ((((Sample.summaries.flatMap Summary.outputPreviews).map
      fun p => p.content.length).sum : ℕ) : ℤ) ≤ 3 := by
  have hfiles : (resultFiles (fun _ => []) (fun _ => none) Sample.disk Sample.result Sample.root
      4096).map Utf8.decodeReplace = [[97, 233, 65533, 98]] := by
    decide +kernel
  obtain ⟨hshown, -, -, hbounded⟩ :=
    result_previews (fun _ => []) (fun _ => none) Sample.disk (by decide) Sample.summaries_eq
  refine ⟨?_, hbounded⟩
  rw [hshown, hfiles]
  decide

end ExAgent.Executor
