import ExAgent.Api.Tasks
import ExAgent.Lib.Paths
import ExAgent.Lib.Sha256
import ExAgent.Lib.Transition
import ExAgent.Lib.Utf8

/-!
# The input files of Executor requests

The files that requests name: `agent/effects/files.py`, `materialize_input_file` of
`ex_agent/executor/files.py`, and the calls that write them, read them and send them
(`DurablePlans`, the `prepare` functions of `DurableExecution` and `DurableReporting`,
`ExecutorEffectSender.send`), as any number of calls that interleave. Between the steps of a call
the files of the shared store may be deleted or overwritten from outside, calls may die, and commits
may lose their replies.

A path is given by the Task and the checksum of the content (`inputPath_parts`). So whatever a call
writes to a path has the checksum of the path, and a request finds its files as it restored them
unless someone else overwrites them before it is sent (`executed_bytes`).

Compiled sources and reports are any texts. A file is replaced in one step; its temporary file has
another name.
-/

namespace ExAgent.Effects.Files

open Lib

attribute [local instance] PyText.lawfulBEq

/-! ## The source -/

/-- The hex digest of bytes. -/
def checksum (bytes : List UInt8) : PyText := (Sha256.hexdigest bytes).map Char.toNat

/-- A file as a request saves it. -/
structure InputFile where
  path : PyText
  sha256 : PyText
  content : PyText

/-- `{task_id}/effects/{checksum}.{suffix}`. -/
def inputPath (taskId : Uuid) (sha256 suffix : PyText) : PyText :=
  List.intercalate [47] [(Api.uuidText taskId).map Char.toNat, PyText.ofString "effects",
    sha256 ++ 46 :: suffix]

/-- `input_file`. -/
def inputFile (taskId : Uuid) (content suffix : PyText) : InputFile :=
  let sha256 := checksum (Utf8.encode content)
  ⟨inputPath taskId sha256 suffix, sha256, content⟩

/-- The files under the requests root, by their components. -/
abbrev FileStore := List PyText → Option (List UInt8)

/-- The file that `materialize_input_file` writes for a path. -/
def requestKey (path : PyText) : Option (List PyText) :=
  let relative := PosixPath.ofText path
  if relative.absolute ∨ PyText.ofString ".." ∈ relative.parts ∨ relative.parts = [] then none
  else some relative.parts

/-- One round of `restore_files`: the file and its bytes, or `none` where it raises. The checksum of
what is written is that of the content, which was checked before. -/
def restoreFile (item : InputFile) : Option (List PyText × List UInt8) :=
  let encoded := Utf8.encode item.content
  if checksum encoded ≠ item.sha256 then none
  else (requestKey item.path).map fun key => (key, encoded)

/-- A source that a body names. -/
structure Source where
  path : PyText
  sha256 : PyText
deriving DecidableEq

/-- `resolve`, of components under the requests root; `none` where they leave it. -/
def resolveParts : List PyText → List PyText → Option (List PyText)
  | above, [] => some above.reverse
  | above, part :: rest =>
    if part = PyText.ofString ".." then
      match above with
      | [] => none
      | _ :: above => resolveParts above rest
    else resolveParts (part :: above) rest

/-- One round of `capture_files`; `none` where it raises. -/
def captureFile (store : FileStore) (source : Source) : Option InputFile :=
  let path := PosixPath.ofText source.path
  if path.absolute then none
  else do
    let key ← resolveParts [] path.parts
    let raw ← store key
    if checksum raw ≠ source.sha256 then none
    else
      let content ← Utf8.decode false raw
      some ⟨source.path, source.sha256, content⟩

/-- The columns of a `PlanStep` that `executor_step` puts into the source of a Step. -/
structure PlanStep where
  compiledSourcePath : PyText
  compiledSourceSha256 : PyText

/-- `executor_step`. -/
def executorStep (row : PlanStep) : Source := ⟨row.compiledSourcePath, row.compiledSourceSha256⟩

/-- The kinds of effects. -/
inductive Kind
  | submit
  | append
  | report
  | finalize
  | cancel
deriving DecidableEq

/-- A saved request: the sources that its body names, its files, and the revision it was prepared
from. -/
structure Request where
  kind : Kind
  named : List Source
  files : List InputFile
  revision : Option ℕ

/-- The arguments of `EffectJournal.run` that identify an effect. -/
structure Call where
  key : PyText
  taskId : Uuid
  kind : Kind
  fingerprint : PyText
deriving DecidableEq

/-- A row of the journal. -/
structure JournalRow where
  taskId : Uuid
  kind : Kind
  inputSha256 : PyText
  request : Request
  answered : Bool

/-- Where a call stands. -/
inductive Phase
  /-- `DurablePlans._compile` writes the files; then the rows are persisted. -/
  | compiling (todo : List InputFile) (rows : List PlanStep)
  | called (call : Call)
  /-- There was no row; `prepare()` is next. -/
  | missing (call : Call)
  /-- `prepare()` captures the files of the Steps. -/
  | capturing (call : Call) (request : Request) (todo : List Source)
  | drafted (call : Call) (request : Request)
  /-- `send` restores the files, and sends when all are. -/
  | sending (call : Call) (request : Request) (todo restored : List InputFile)
  | done

/-- The shared files, the rows of the revisions, the journal and the calls; and what was written to
which file by a call, and what was sent while the files were which. -/
structure State where
  store : FileStore := fun _ => none
  revisions : ℕ → Option (List PlanStep) := fun _ => none
  journal : PyText → Option JournalRow := fun _ => none
  calls : List Phase := []
  writes : List (List PyText × List UInt8) := []
  sent : List (Request × FileStore) := []

/-- How a wait of a call ends. -/
inductive Choice
  | ok
  /-- It raises, before or after the effect of what it waits for. -/
  | fault (committed : Bool)
  /-- The rows are persisted as this revision, or read from it, all or the first. -/
  | revision (number : ℕ) (first : Bool)
  /-- The report model returns a text. -/
  | markdown (text : PyText)
  /-- The Executor answers. -/
  | reply

/-- The steps. -/
inductive Action
  /-- A plan of these sources is compiled. -/
  | compile (taskId : Uuid) (sources : List PyText)
  | run (call : Call)
  | work (i : ℕ) (choice : Choice)
  | die (i : ℕ)
  /-- Someone else writes or deletes a file. -/
  | outside (key : List PyText) (bytes : Option (List UInt8))

/-- A call stands somewhere else. -/
def State.goto (s : State) (i : ℕ) (phase : Phase) : State :=
  { s with calls := s.calls.set i phase }

/-- A call writes a file. -/
def State.write (s : State) (w : List PyText × List UInt8) : State :=
  { s with store := Function.update s.store w.1 (some w.2), writes := s.writes ++ [w] }

/-- `run` with a row at hand. -/
def settle (call : Call) (row : JournalRow) : Phase :=
  if row.taskId = call.taskId ∧ row.kind = call.kind ∧ row.inputSha256 = call.fingerprint then
    if row.answered then .done else .sending call row.request row.request.files []
  else .done

/-- The row after `store.prepare`: the one that is there, or the caller's. -/
def preparedRow (s : State) (call : Call) (request : Request) : JournalRow :=
  (s.journal call.key).getD ⟨call.taskId, call.kind, call.fingerprint, request, false⟩

/-- `store.prepare` has committed. -/
def State.prepared (s : State) (call : Call) (request : Request) : State :=
  { s with journal := Function.update s.journal call.key (some (preparedRow s call request)) }

/-- The row after `store.complete`. -/
def answeredRow (s : State) (call : Call) : Option JournalRow :=
  (s.journal call.key).map fun row => { row with answered := true }

/-- The files of the Steps are read, after `require_path_sources`. -/
def captureSteps (call : Call) (number : ℕ) (rows : List PlanStep) : Phase :=
  let steps := rows.map executorStep
  if steps = [] ∨ ∃ step ∈ steps, step.path = [] ∨ step.sha256 = [] then .done
  else .capturing call ⟨call.kind, steps, [], some number⟩ steps

/-- `prepare()` of a call, before it captures files. -/
def draft (s : State) (call : Call) : Choice → Option Phase
  | .ok =>
    match call.kind with
    | .finalize | .cancel => some (.drafted call ⟨call.kind, [], [], none⟩)
    | _ => none
  | .revision number first =>
    match call.kind, s.revisions number with
    | .submit, some rows | .append, some rows =>
      some (captureSteps call number (if first ∨ call.kind = .append then rows.take 1 else rows))
    | _, _ => none
  | .markdown text =>
    match call.kind with
    | .report =>
      let source := inputFile call.taskId text (PyText.ofString "md")
      some (.drafted call ⟨.report, [⟨source.path, source.sha256⟩], [source], none⟩)
    | _ => none
  | .fault _ => some .done
  | .reply => none

/-- A call goes on. -/
def State.work (s : State) (i : ℕ) : Phase → Choice → Option State
  | .compiling (item :: todo) rows, .ok =>
    match restoreFile item with
    | none => some (s.goto i .done)
    | some w => some ((s.write w).goto i (.compiling todo rows))
  | .compiling [] rows, .revision number _ =>
    match s.revisions number with
    | none =>
      some (({ s with revisions := Function.update s.revisions number (some rows) }).goto i .done)
    | some _ => none
  | .called call, .ok =>
    match s.journal call.key with
    | none => some (s.goto i (.missing call))
    | some row => some (s.goto i (settle call row))
  | .missing call, choice => (draft s call choice).map fun phase => s.goto i phase
  | .capturing call request (source :: todo), .ok =>
    match captureFile s.store source with
    | none => some (s.goto i .done)
    | some item =>
      some (s.goto i (.capturing call { request with files := request.files ++ [item] } todo))
  | .capturing call request [], .ok => some (s.goto i (.drafted call request))
  | .drafted call request, .ok =>
    some ((s.prepared call request).goto i (settle call (preparedRow s call request)))
  | .drafted call request, .fault true => some ((s.prepared call request).goto i .done)
  | .sending call request (item :: todo) restored, .ok =>
    match restoreFile item with
    | none => some (s.goto i .done)
    | some w => some ((s.write w).goto i (.sending call request todo (restored ++ [item])))
  | .sending _ request [] _, .ok =>
    -- The client sends up to three times.
    some { s with sent := s.sent ++ [(request, s.store)] }
  | .sending call _ [] _, .reply =>
    some (({ s with journal := Function.update s.journal call.key (answeredRow s call) }).goto i
      .done)
  | .done, _ => none
  | _, .fault _ => some (s.goto i .done)
  | _, _ => none

/-- One step. -/
def step (s : State) : Action → Option State
  | .compile taskId sources =>
    let files := sources.map fun source => inputFile taskId source (PyText.ofString "py")
    some { s with
      calls := s.calls ++ [.compiling files (files.map fun file => ⟨file.path, file.sha256⟩)] }
  | .run call => some { s with calls := s.calls ++ [.called call] }
  | .work i choice => s.calls[i]?.bind fun phase => s.work i phase choice
  | .die i => some (s.goto i .done)
  | .outside key bytes => some { s with store := Function.update s.store key bytes }

/-- The calls and the shared store. -/
def machine : Machine State Action := ⟨fun s => s = {}, step⟩

/-- The files that a call has restored for a request. -/
def Phase.restored : Phase → List InputFile
  | .sending _ _ _ restored => restored
  | _ => []

/-- Nobody else writes or deletes a file that a call has restored and not sent yet. -/
def Undisturbed (s : State) : Action → Prop
  | .outside key _ => ∀ phase ∈ s.calls, ∀ item ∈ phase.restored, requestKey item.path ≠ some key
  | _ => True

instance (s : State) (a : Action) : Decidable (Undisturbed s a) :=
  match a with
  | .outside key _ =>
    inferInstanceAs
      (Decidable (∀ phase ∈ s.calls, ∀ item ∈ phase.restored, requestKey item.path ≠ some key))
  | .compile _ _ | .run _ | .work _ _ | .die _ => isTrue trivial

/-- Nobody else writes or deletes this file. -/
def Spares (key : List PyText) : Action → Prop
  | .outside k _ => k ≠ key
  | _ => True

end ExAgent.Effects.Files
