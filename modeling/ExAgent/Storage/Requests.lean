import ExAgent.Storage.Effects
import ExAgent.Session.Admission

/-!
# API requests in a JSONB column

`ApiRequest` of `agent/admission/contracts.py` as the dictionary it is dumped to, and `RequestStore`
of `agent/admission/store.py` with what its column does to that dictionary. `accept` builds its
record from the row in memory, so that a request is committed before its column is read for the
first time; every later read validates the decoded column again and compares fingerprints.

What pydantic decides is an argument: whether a text is a UUID, and the type of the resume signal
that a payload validates as. Nothing is assumed of it.
-/

namespace ExAgent.Storage

open Lib
open Session (RequestState)

/-- `TaskTurn`. -/
structure TaskTurn where
  userId : String
  projectId : String
  sessionId : String
  activeTaskId : String
  currentInputMessageId : String
  userMessage : String
  runtimeProfile : String
deriving DecidableEq

/-- The kinds of a request. -/
inductive RequestKind
  | start
  | resume
  | cancel
deriving DecidableEq

/-- The text of a kind. -/
def RequestKind.text : RequestKind → String
  | .start => "START"
  | .resume => "RESUME"
  | .cancel => "CANCEL"

/-- The kind of a text. -/
def RequestKind.ofText (s : String) : Option RequestKind :=
  if s = "START" then some .start
  else if s = "RESUME" then some .resume
  else if s = "CANCEL" then some .cancel
  else none

/-- The text of a request's kind is read back. -/
theorem RequestKind.ofText_text (kind : RequestKind) : ofText kind.text = some kind := by
  cases kind <;> decide

/-- The text `str(uuid)` has: lower-case hexadecimal digits in groups of 8, 4, 4, 4 and 12. -/
def isCanonicalUuid (s : String) : Bool :=
  let digits := fun (l : List Char) => l.all fun c => c.isDigit || ('a' ≤ c && c ≤ 'f')
  match s.toList.splitOn '-' with
  | [a, b, c, d, e] => a.length == 8 && b.length == 4 && c.length == 4 && d.length == 4 &&
      e.length == 12 && digits a && digits b && digits c && digits d && digits e
  | _ => false

/-- A UUID, as its canonical text. -/
structure UuidText where
  text : String
  canonical : isCanonicalUuid text = true
deriving DecidableEq

/-- The types of a resume signal. -/
inductive ResumeSignalType
  | clarification
  | workflowSelection
  | executionMode
  | requestRiskConfirmation
  | planReview
  | executorBoundary
  | cancelRequested
deriving DecidableEq

/-- What pydantic and `uuid` decide: whether `UUID` accepts a text, and the type of the signal that
`validate_resume_signal` returns for a payload, if it returns. -/
structure Validators where
  isUuid : String → Bool
  resumeSignal : PyDict → Option ResumeSignalType

/-- `ApiRequest`. -/
structure ApiRequest where
  requestId : UuidText
  turn : TaskTurn
  kind : RequestKind
  interruptId : Option String
  payload : Option PyDict

/-- The lengths that the fields of a turn must have. -/
def TaskTurn.filled (turn : TaskTurn) : Bool :=
  [turn.userId, turn.projectId, turn.sessionId, turn.activeTaskId, turn.currentInputMessageId,
    turn.userMessage, turn.runtimeProfile].all fun s => s != ""

/-- `validate_request`. -/
def ApiRequest.validateRequest (v : Validators) (command : ApiRequest) : Bool :=
  v.isUuid command.turn.activeTaskId && v.isUuid command.turn.currentInputMessageId &&
    match command.kind with
    | .start => command.interruptId.isNone && command.payload.isNone
    | kind =>
      match command.interruptId, command.payload with
      | some _, some payload =>
        match v.resumeSignal payload with
        | none => false
        | some .executorBoundary => false
        | some signal => decide (signal = .cancelRequested ↔ kind = .cancel)
      | _, _ => false

/-- The request passes the checks of its class. -/
def ApiRequest.valid (v : Validators) (command : ApiRequest) : Bool :=
  command.turn.filled && command.interruptId != some "" && command.validateRequest v

/-- A text or null. -/
def optionalText : Option String → Json Number .value
  | none => .null
  | some s => .string s

/-- `turn.model_dump(mode="json")`. -/
def TaskTurn.modelDump (turn : TaskTurn) : Json Number .members :=
  .member "active_task_id" (.string turn.activeTaskId)
    (.member "current_input_message_id" (.string turn.currentInputMessageId)
      (.member "project_id" (.string turn.projectId)
        (.member "runtime_profile" (.string turn.runtimeProfile)
          (.member "session_id" (.string turn.sessionId)
            (.member "user_id" (.string turn.userId)
              (.member "user_message" (.string turn.userMessage) .empty))))))

/-- The payload of a dump. -/
def payloadValue : Option PyDict → Json Number .value
  | none => .null
  | some payload => payload.value

/-- The members of a payload are in order. -/
theorem sorted_payloadValue (payload : Option PyDict) : (payloadValue payload).sorted = true := by
  cases payload with
  | none => rfl
  | some payload => exact payload.sorted

/-- `model_dump(mode="json")`. -/
def ApiRequest.modelDump (command : ApiRequest) : PyDict where
  members :=
    .member "interrupt_id" (optionalText command.interruptId)
      (.member "kind" (.string command.kind.text)
        (.member "payload" (payloadValue command.payload)
          (.member "request_id" (.string command.requestId.text)
            (.member "turn" (.object command.turn.modelDump) .empty))))
  sorted := by
    have hinterrupt : (optionalText command.interruptId).sorted = true := by
      cases command.interruptId <;> rfl
    simp only [Json.sorted, Json.follow, TaskTurn.modelDump, hinterrupt, sorted_payloadValue]
    decide

/-- `fingerprint`. -/
def ApiRequest.fingerprint (command : ApiRequest) : String := digest command.modelDump

/-! ## Validating a dump -/

/-- A member that must be a string. -/
def textOf (members : Json Number .members) (key : String) : Option String :=
  match members.lookup key with
  | some (.string s) => some s
  | _ => none

/-- A member that may be null or absent. -/
def optionalOf {α : Type} (members : Json Number .members) (key : String)
    (read : Json Number .value → Option α) : Option (Option α) :=
  match members.lookup key with
  | none => some none
  | some .null => some none
  | some value => (read value).map some

/-- A string. -/
def asText : Json Number .value → Option String
  | .string s => some s
  | _ => none

/-- An object. -/
def asObject : Json Number .value → Option PyDict
  | .object members => if h : members.sorted = true then some ⟨members, h⟩ else none
  | _ => none

/-- A UUID. -/
def asUuid (s : String) : Option UuidText :=
  if h : isCanonicalUuid s = true then some ⟨s, h⟩ else none

/-- An object without other members. -/
def onlyKeys (members : Json Number .members) (allowed : List String) : Option Unit :=
  if members.keys.all fun key => decide (key ∈ allowed) then some () else none

/-- `TaskTurn.model_validate`. -/
def TaskTurn.modelValidate (members : Json Number .members) : Option TaskTurn := do
  onlyKeys members ["active_task_id", "current_input_message_id", "project_id", "runtime_profile",
    "session_id", "user_id", "user_message"]
  let userId ← textOf members "user_id"
  let projectId ← textOf members "project_id"
  let sessionId ← textOf members "session_id"
  let activeTaskId ← textOf members "active_task_id"
  let currentInputMessageId ← textOf members "current_input_message_id"
  let userMessage ← textOf members "user_message"
  let runtimeProfile ← match members.lookup "runtime_profile" with
    | none => some "basic"
    | some value => asText value
  some ⟨userId, projectId, sessionId, activeTaskId, currentInputMessageId, userMessage,
    runtimeProfile⟩

/-- `ApiRequest.model_validate`. -/
def ApiRequest.modelValidate (v : Validators) (d : PyDict) : Option ApiRequest := do
  onlyKeys d.members ["interrupt_id", "kind", "payload", "request_id", "turn"]
  let requestId ← (textOf d.members "request_id").bind asUuid
  let turn ← ((d.members.lookup "turn").bind asObject).bind fun turn =>
    TaskTurn.modelValidate turn.members
  let kind ← (textOf d.members "kind").bind RequestKind.ofText
  let interruptId ← optionalOf d.members "interrupt_id" asText
  let payload ← optionalOf d.members "payload" asObject
  let command : ApiRequest := ⟨requestId, turn, kind, interruptId, payload⟩
  if command.valid v then some command else none

/-- A turn is read back from its dump. -/
theorem TaskTurn.modelValidate_modelDump (turn : TaskTurn) :
    TaskTurn.modelValidate turn.modelDump = some turn := by
  simp [TaskTurn.modelValidate, TaskTurn.modelDump, onlyKeys, textOf, asText, Json.keys,
    Json.lookup]

/-- The dump of a turn is in order. -/
theorem TaskTurn.sorted_modelDump (turn : TaskTurn) : turn.modelDump.sorted = true := by
  simp only [Json.sorted, Json.follow, TaskTurn.modelDump]
  decide

/-- A request is read back from its dump, if it is valid. -/
theorem ApiRequest.modelValidate_modelDump (v : Validators) (command : ApiRequest) :
    ApiRequest.modelValidate v command.modelDump =
      if command.valid v then some command else none := by
  have hinterrupt : optionalOf command.modelDump.members "interrupt_id" asText =
      some command.interruptId := by
    simp only [optionalOf, ApiRequest.modelDump, Json.lookup]
    cases command.interruptId <;> rfl
  have hpayload : optionalOf command.modelDump.members "payload" asObject =
      some command.payload := by
    simp only [optionalOf, ApiRequest.modelDump, Json.lookup]
    cases command.payload with
    | none => rfl
    | some payload => simp [payloadValue, JsonObject.value, asObject, payload.sorted]
  have hid : asUuid command.requestId.text = some command.requestId := dif_pos _
  have hturn : asObject (.object command.turn.modelDump) =
      some ⟨command.turn.modelDump, command.turn.sorted_modelDump⟩ := by
    simp [asObject, TaskTurn.sorted_modelDump]
  unfold ApiRequest.modelValidate
  rw [hinterrupt, hpayload]
  simp [ApiRequest.modelDump, onlyKeys, textOf, Json.keys, Json.lookup, hid, hturn,
    TaskTurn.modelValidate_modelDump, RequestKind.ofText_text]

/-! ## The store -/

/-- A row of `agent_api_requests`; its key is the request. -/
structure RequestRow where
  taskId : String
  sessionId : String
  command : Jsonb
  fingerprint : String
  targetNode : String
  baseCheckpointId : Option String
  state : RequestState
  attempts : ℕ
  lastError : Option String

/-- `RequestRecord`. -/
structure RequestRecord where
  command : ApiRequest
  fingerprint : String
  targetNode : String
  baseCheckpointId : Option String
  state : RequestState
  attempts : ℕ
  lastError : Option String

/-- The exceptions of the store. -/
inductive RequestError
  | validationError
  | valueError (message : String)
  | sessionConflictError (message : String)
  | sessionBusyError (taskId message : String)
  | lookupError (message : String)
  /-- The text of a value cannot be written, or the database refuses it. -/
  | dataError
deriving DecidableEq

/-- The table of requests. -/
abbrev RequestTable := Table UuidText RequestRow

/-- `_record`, given the content of the column. -/
def recordWith (v : Validators) (row : RequestRow) (column : PyDict) :
    Except RequestError RequestRecord :=
  match ApiRequest.modelValidate v column with
  | none => .error .validationError
  | some command =>
    if command.fingerprint ≠ row.fingerprint then
      .error (.valueError "Stored API request fingerprint mismatch")
    else .ok ⟨command, row.fingerprint, row.targetNode, row.baseCheckpointId, row.state,
      row.attempts, row.lastError⟩

/-- `_record` of a row that is read. -/
def requestRecord (v : Validators) (row : RequestRow) : Except RequestError RequestRecord :=
  recordWith v row (decode row.command)

/-- The equality of two requests in Python. -/
def ApiRequest.pyEq (a b : ApiRequest) : Bool :=
  decide (a.requestId = b.requestId) && decide (a.turn = b.turn) && decide (a.kind = b.kind) &&
    decide (a.interruptId = b.interruptId) &&
    match a.payload, b.payload with
    | none, none => true
    | some p, some q => p.members.pyEq q.members
    | _, _ => false

/-- `validate_command`. -/
def validateCommand (record : RequestRecord) (command : ApiRequest) : Except RequestError Unit :=
  if record.command.pyEq command = false ∨ record.fingerprint ≠ command.fingerprint then
    .error (.sessionConflictError "Request ID was reused with different input")
  else .ok ()

/-- `RequestStore.get`. -/
def getRequest (v : Validators) (requests : RequestTable) (requestId : UuidText) :
    Except RequestError (Option RequestRecord) :=
  match requests.get requestId with
  | none => .ok none
  | some row => (requestRecord v row).map some

/-- The states of a request that occupies its session. -/
def isActive : RequestState → Bool
  | .pending | .running | .blocked => true
  | _ => false

/-- `RequestStore.accept`: the table after its transaction, and the record it returns. `admitted` is
the answer of `_admit_task` and of the constraints that the insert meets. An insert that meets a row
of the same request which another process has just committed is answered from that row, as here. -/
def accept (v : Validators) (requests : RequestTable) (command : ApiRequest) (targetNode : String)
    (baseCheckpointId : Option String) (admitted : Except RequestError Unit) :
    Except RequestError (RequestTable × RequestRecord) :=
  match requests.get command.requestId with
  | some row => do
    let record ← requestRecord v row
    validateCommand record command
    .ok (requests, record)
  | none =>
    match requests.entries.find? fun e =>
        decide (e.2.sessionId = command.turn.sessionId) && isActive e.2.state with
    | some e => .error (.sessionBusyError e.2.taskId "Session has a pending API request")
    | none => do
      admitted
      if ¬storable command.modelDump then .error .dataError
      else
        let row : RequestRow := ⟨command.turn.activeTaskId, command.turn.sessionId,
          encode command.modelDump, command.fingerprint, targetNode, baseCheckpointId, .pending, 0,
          none⟩
        -- The flushed row still has the dictionary it was built with.
        let record ← recordWith v row command.modelDump
        .ok (requests.insertIfAbsent command.requestId row, record)

/-- A transaction of the store. `touch` is what `claim`, `finish`, `defer_busy`, `resolve_applied`
and the cleanup of a Task write to a row that exists. -/
inductive RequestAction
  | accept (command : ApiRequest) (targetNode : String) (baseCheckpointId : Option String)
      (admitted : Except RequestError Unit)
  | touch (requestId : UuidText) (state : RequestState) (attempts : ℕ) (lastError : Option String)

/-- The store under any sequence of transactions. -/
def requestStore (v : Validators) : Machine RequestTable RequestAction where
  init requests := requests = .empty
  step requests
    | .accept command targetNode base admitted =>
      ((accept v requests command targetNode base admitted).toOption).map Prod.fst
    | .touch requestId state attempts lastError =>
      some (requests.modifyAt requestId fun row =>
        { row with state := state, attempts := attempts, lastError := lastError })

/-- What the row of a request keeps. -/
def Stores (requests : RequestTable) (command : ApiRequest) : Prop :=
  ∃ row, requests.get command.requestId = some row ∧ row.command = encode command.modelDump ∧
    row.fingerprint = command.fingerprint

/-- The floats of a request are those of its payload. -/
def ApiRequest.survives (command : ApiRequest) : Bool :=
  match command.payload with
  | none => true
  | some payload => Storage.survives payload

/-- The floats of a dump. -/
theorem survives_modelDump (command : ApiRequest) :
    Storage.survives command.modelDump = command.survives := by
  have hinterrupt : (optionalText command.interruptId).numbers Number.survives = true := by
    cases command.interruptId <;> rfl
  have hpayload : (payloadValue command.payload).numbers Number.survives = command.survives := by
    unfold ApiRequest.survives
    cases command.payload <;> rfl
  unfold Json.numbers at hinterrupt hpayload
  simp [Storage.survives, Json.numbers, ApiRequest.modelDump, TaskTurn.modelDump, Json.all,
    hinterrupt, hpayload]

/-- What is read back of a dump is the dump of the request with what is read back of its payload. -/
theorem decode_encode_modelDump (command : ApiRequest) :
    decode (encode command.modelDump) = ({ command with
      payload := command.payload.map fun p => p.map Number.reload } : ApiRequest).modelDump := by
  rw [decode_encode]
  apply JsonObject.ext_members
  have hinterrupt : (optionalText command.interruptId).map Number.reload =
      optionalText command.interruptId := by
    cases command.interruptId <;> rfl
  have hpayload : (payloadValue command.payload).map Number.reload =
      payloadValue (command.payload.map fun p => p.map Number.reload) := by
    cases command.payload <;> rfl
  simp only [JsonObject.map, ApiRequest.modelDump, TaskTurn.modelDump, Json.map, hinterrupt,
    hpayload]

/-- A valid request whose column is read back as it was written passes the check. -/
theorem requestRecord_of_survives {v : Validators} {command : ApiRequest} {row : RequestRow}
    (hvalid : command.valid v) (hs : command.survives)
    (hcell : row.command = encode command.modelDump)
    (hsha : row.fingerprint = command.fingerprint) :
    requestRecord v row = .ok ⟨command, row.fingerprint, row.targetNode, row.baseCheckpointId,
      row.state, row.attempts, row.lastError⟩ := by
  rw [← survives_modelDump] at hs
  unfold requestRecord recordWith
  rw [hcell, decode_encode_eq hs, ApiRequest.modelValidate_modelDump, if_pos hvalid]
  dsimp only
  rw [hsha, if_neg (by simp)]

/-- A request that does not survive never passes the check. -/
theorem requestRecord_of_not_survives {v : Validators} {command : ApiRequest} {row : RequestRow}
    (hs : command.survives = false) (hd : ¬Collides command.modelDump)
    (hcell : row.command = encode command.modelDump) (hsha : row.fingerprint = command.fingerprint)
    (record : RequestRecord) : requestRecord v row ≠ .ok record := by
  have hne : digest (decode (encode command.modelDump)) ≠ command.fingerprint := by
    intro h
    have := (digest_decode_encode_iff hd).mp h
    rw [survives_modelDump, hs] at this
    exact absurd this (by simp)
  rw [decode_encode_modelDump] at hne
  unfold requestRecord recordWith
  rw [hcell, hsha, decode_encode_modelDump, ApiRequest.modelValidate_modelDump]
  intro h
  split at h
  · exact absurd h (by simp)
  · rename_i command' hread
    split at hread
    · rw [← Option.some.inj hread] at h
      exact (Fallible.ite_eq_ok.mp h).1 hne
    · exact absurd hread (by simp)

/-- A command equals itself. -/
theorem ApiRequest.pyEq_refl (command : ApiRequest) : command.pyEq command = true := by
  unfold ApiRequest.pyEq
  cases command.payload <;> simp

/-- What `accept` does to a new request when it does not raise. -/
theorem accept_new {v : Validators} {requests requests' : RequestTable} {command : ApiRequest}
    {targetNode : String} {base : Option String} {admitted : Except RequestError Unit}
    {record : RequestRecord} (hnone : requests.get command.requestId = none)
    (h : accept v requests command targetNode base admitted = .ok (requests', record)) :
    Stores requests' command := by
  unfold accept at h
  rw [hnone] at h
  dsimp only at h
  split at h
  · exact absurd h (by simp)
  · obtain ⟨-, -, h⟩ := Fallible.bind_eq_ok.mp h
    obtain ⟨-, h⟩ := Fallible.ite_eq_ok.mp h
    obtain ⟨found, -, h⟩ := Fallible.bind_eq_ok.mp h
    obtain ⟨rfl, -⟩ := Prod.mk.inj (Except.ok.inj h)
    refine ⟨⟨command.turn.activeTaskId, command.turn.sessionId, encode command.modelDump,
      command.fingerprint, targetNode, base, .pending, 0, none⟩, ?_, rfl, rfl⟩
    rw [Table.get_insertIfAbsent, if_pos rfl, hnone]
    rfl

/-- `accept` leaves the rows that exist. -/
theorem accept_keeps {v : Validators} {requests requests' : RequestTable} {command : ApiRequest}
    {targetNode : String} {base : Option String} {admitted : Except RequestError Unit}
    {record : RequestRecord} {requestId : UuidText} {row : RequestRow}
    (h : accept v requests command targetNode base admitted = .ok (requests', record))
    (hrow : requests.get requestId = some row) : requests'.get requestId = some row := by
  unfold accept at h
  split at h
  · obtain ⟨found, -, h⟩ := Fallible.bind_eq_ok.mp h
    obtain ⟨-, -, h⟩ := Fallible.bind_eq_ok.mp h
    obtain ⟨rfl, -⟩ := Prod.mk.inj (Except.ok.inj h)
    exact hrow
  · rename_i hnone
    split at h
    · exact absurd h (by simp)
    · obtain ⟨-, -, h⟩ := Fallible.bind_eq_ok.mp h
      obtain ⟨-, h⟩ := Fallible.ite_eq_ok.mp h
      obtain ⟨found, -, h⟩ := Fallible.bind_eq_ok.mp h
      obtain ⟨rfl, -⟩ := Prod.mk.inj (Except.ok.inj h)
      have hne : requestId ≠ command.requestId := by
        rintro rfl
        rw [hnone] at hrow
        exact absurd hrow (by simp)
      rw [Table.get_insertIfAbsent, if_neg hne]
      exact hrow

/-- A transaction keeps what the row of a request holds. -/
theorem stores_step {v : Validators} {requests requests' : RequestTable} {a : RequestAction}
    {command : ApiRequest} (hs : (requestStore v).step requests a = some requests')
    (h : Stores requests command) : Stores requests' command := by
  obtain ⟨row, hrow, hcell, hsha⟩ := h
  cases a with
  | accept command' targetNode base admitted =>
    obtain ⟨⟨stored, record⟩, hok, rfl⟩ := Option.map_eq_some_iff.mp hs
    exact ⟨row, accept_keeps (Fallible.toOption_eq_some.mp hok) hrow, hcell, hsha⟩
  | touch requestId state attempts lastError =>
    obtain rfl := Option.some.inj hs
    by_cases hkey : command.requestId = requestId
    · refine ⟨{ row with state := state, attempts := attempts, lastError := lastError }, ?_, hcell,
        hsha⟩
      rw [Table.get_modifyAt, if_pos hkey, hrow]
      rfl
    · refine ⟨row, ?_, hcell, hsha⟩
      rw [Table.get_modifyAt, if_neg hkey, hrow]

/-- Once the request is accepted, every later read of its row passes the check and finds it, and
every later `accept` of it is answered from that row, whatever the store did in between. -/
def RequestSurvives (v : Validators) (command : ApiRequest) : Prop :=
  ∀ (requests stored : RequestTable) (targetNode : String) (base : Option String)
    (admitted : Except RequestError Unit) (record : RequestRecord),
    (requestStore v).Reachable requests → requests.get command.requestId = none →
    accept v requests command targetNode base admitted = .ok (stored, record) →
    ∀ later, (requestStore v).Leads stored later →
      (∃ record, getRequest v later command.requestId = .ok (some record) ∧
        record.command = command) ∧
      ∀ targetNode base admitted, ∃ record,
        accept v later command targetNode base admitted = .ok (later, record) ∧
          record.command = command

/-- A new request is accepted in an empty store. -/
theorem accept_empty {v : Validators} {command : ApiRequest} (hvalid : command.valid v)
    (hstore : storable command.modelDump) : ∃ stored record,
      accept v .empty command "begin_task" none (.ok ()) = .ok (stored, record) := by
  unfold accept
  rw [Table.get_empty]
  dsimp only
  have hfirst : ∀ row : RequestRow, row.fingerprint = command.fingerprint →
      recordWith v row command.modelDump = .ok ⟨command, row.fingerprint, row.targetNode,
        row.baseCheckpointId, row.state, row.attempts, row.lastError⟩ := by
    intro row hsha
    unfold recordWith
    rw [ApiRequest.modelValidate_modelDump, if_pos hvalid]
    dsimp only
    rw [hsha, if_neg (by simp)]
  simp only [Table.empty, List.find?_nil, bind, Except.bind, hstore, not_true, if_false]
  rw [hfirst _ rfl]
  exact ⟨_, _, rfl⟩

/-- A valid request that the column accepts survives exactly when its floats do. -/
theorem request_survives_iff {v : Validators} {command : ApiRequest} (hvalid : command.valid v)
    (hstore : storable command.modelDump) (hd : ¬Collides command.modelDump) :
    RequestSurvives v command ↔ command.survives := by
  constructor
  · intro h
    -- In an empty store a request whose floats change is read back as another one, or not at all.
    by_contra hs
    obtain ⟨stored, record, hok⟩ := accept_empty hvalid hstore
    obtain ⟨⟨found, hget, -⟩, -⟩ :=
      h .empty stored _ _ _ record (.start rfl) rfl hok stored Relation.ReflTransGen.refl
    obtain ⟨row, hrow, hcell, hsha⟩ := accept_new rfl hok
    unfold getRequest at hget
    rw [hrow] at hget
    cases hread : requestRecord v row with
    | error e =>
      simp only [hread] at hget
      exact absurd hget (by simp [Except.map])
    | ok found =>
      exact requestRecord_of_not_survives (Bool.eq_false_iff.mpr hs) hd hcell hsha found hread
  · intro hs requests stored targetNode base admitted record hr hnone hok later hl
    -- It is accepted, and its row stays what it is.
    have hstep : (requestStore v).step requests (.accept command targetNode base admitted) =
        some stored := by
      simp [requestStore, hok, Except.toOption]
    obtain ⟨row, hrow, hcell, hsha⟩ := Machine.Leads.stable
      (fun _ _ _ _ hk hs => stores_step hs hk) (hr.step hstep) (accept_new hnone hok) hl
    have hread := requestRecord_of_survives hvalid hs hcell hsha
    constructor
    · unfold getRequest
      rw [hrow]
      dsimp only
      rw [hread]
      exact ⟨_, rfl, rfl⟩
    · -- The same request again finds its own row.
      intro targetNode base admitted
      have hsame : validateCommand ⟨command, row.fingerprint, row.targetNode,
          row.baseCheckpointId, row.state, row.attempts, row.lastError⟩ command = .ok () :=
        if_neg (by simp [ApiRequest.pyEq_refl, hsha])
      unfold accept
      rw [hrow]
      dsimp only
      rw [hread]
      refine ⟨⟨command, row.fingerprint, row.targetNode, row.baseCheckpointId, row.state,
        row.attempts, row.lastError⟩, ?_, rfl⟩
      simp only [bind, Except.bind, hsame]

/-- **Digests survive storage** exactly for the requests all of whose floats do: an API request that
is accepted, and an effect request that is stored, for which SHA-256 does not give one digest to the
two texts that are compared. -/
theorem digests_survive_iff (v : Validators) (command : ApiRequest) (request : PyDict)
    (hvalid : command.valid v) (hcommand : storable command.modelDump)
    (hrequest : storable request) (hfingerprint : ¬Collides command.modelDump)
    (hdigest : ¬Collides request) :
    (RequestSurvives v command ↔ command.survives) ∧ (EffectSurvives request ↔ survives request) :=
  ⟨request_survives_iff hvalid hcommand hfingerprint, effect_survives_iff hrequest hdigest⟩

/-- The signal types by the discriminator of the payload, for payloads that are otherwise well
formed. -/
def sampleValidators : Validators where
  isUuid := isCanonicalUuid
  resumeSignal payload :=
    match textOf payload.members "type" with
    | some "WORKFLOW_SELECTION" => some .workflowSelection
    | some "CANCEL_REQUESTED" => some .cancelRequested
    | _ => none

/-- The answer to a workflow proposal, with one input value. -/
def sampleSelection (value : Number) : PyDict where
  members :=
    .member "input_values" (.object (.member "x" (.number value) .empty))
      (.member "proposal_version" (.number (.int 1))
        (.member "public_payload_hash"
          (.string "9f86d081884c7d659a2feaa0c55ad015a3bf4f1b2b0b822cd15d6c15b0f00a08")
          (.member "type" (.string "WORKFLOW_SELECTION") .empty)))
  sorted := by
    simp only [Json.sorted, Json.follow]
    decide

/-- A request that carries it. -/
def sampleRequest (value : Number) : ApiRequest where
  requestId := ⟨"6f9619ff-8b86-4d01-b42d-00cf4fc964ff", by decide +kernel⟩
  turn := ⟨"u", "p", "s", "0b8c2d3e-4f50-4172-8394-a5b6c7d8e9f0",
    "1c9d3e4f-5061-4283-94a5-b6c7d8e9f0a1", "Run it", "basic"⟩
  kind := .resume
  interruptId := some "i"
  payload := some (sampleSelection value)

/-- The float `0.5`. -/
def half : Binary64 := ⟨false, 2 ^ 52, 1021, by decide⟩

/-- With the number one half, the digests of a request and of an effect are kept exactly when the
number is. -/
theorem digests_survive_half :
    (RequestSurvives sampleValidators (sampleRequest (.float half)) ↔
      (sampleRequest (.float half)).survives) ∧
      (EffectSurvives (sampleSelection (.float half)) ↔ survives (sampleSelection (.float half))) :=
  digests_survive_iff sampleValidators (sampleRequest (.float half)) (sampleSelection (.float half))
    (by decide +kernel) (by decide +kernel) (by decide +kernel)
    (not_collides (by decide +kernel)) (not_collides (by decide +kernel))

/-- A request with the input value `1e16` is accepted and unreadable from then on, and no effect
with it can be stored. -/
theorem not_digests_survive :
    ¬RequestSurvives sampleValidators (sampleRequest (.float Binary64.tenPowSixteen)) ∧
      ¬EffectSurvives (sampleSelection (.float Binary64.tenPowSixteen)) := by
  constructor
  · rw [request_survives_iff (by decide +kernel) (by decide +kernel) (by decide +kernel)]
    decide +kernel
  · rw [effect_survives_iff (by decide +kernel) (by decide +kernel)]
    decide +kernel

end ExAgent.Storage
