import ExAgent.Lib.Fallible
import ExAgent.Lib.Json
import ExAgent.Lib.Sha256
import ExAgent.Lib.Table
import ExAgent.Lib.Transition
import ExAgent.Values

/-!
# Effect requests in a JSONB column

`EffectStore` of `agent/effects/store.py` with what its column does to a request. The request is a
dictionary of JSON values, the column keeps it as JSONB, and every read decodes the column again and
compares the digest of what it finds with the digest that was stored. The insert and the first read
of a row are one transaction of `prepare`.

A request survives (`effect_survives_iff`) exactly when no float in it is a negative zero or at
least `10^16` in magnitude: another one is refused by `prepare` itself, with the error that is meant
for a row that was tampered with.
-/

namespace ExAgent.Storage

open Lib

/-- A dictionary of the program. -/
abbrev PyDict := JsonObject Number

/-- An object in a JSONB column. -/
abbrev Jsonb := JsonObject Numeric

/-- Writing a dictionary to a JSONB column. -/
def encode (d : PyDict) : Jsonb := d.map fun n => Numeric.ofLiteral n.literal

/-- Reading a JSONB column. -/
def decode (j : Jsonb) : PyDict := j.map fun n => Number.ofLiteral n.literal

/-- The text of `json.dumps` with sorted keys, without spaces and without ASCII escapes. -/
def dumps (d : PyDict) : List Char := d.value.text fun n => n.literal.text

/-- `digest`. -/
def digest (d : PyDict) : String :=
  String.ofList (Sha256.hexdigest ((dumps d).flatMap String.utf8EncodeChar))

/-- What `json.dumps` and the column accept: integers of at most 4300 digits, the limit for their
conversion to text, and strings without a null character. -/
def storable (d : PyDict) : Bool :=
  d.members.all
    (fun n => match n with
      | .int n => decide (n.natAbs < 10 ^ 4300)
      | .float _ => true)
    fun s => !s.toList.contains (Char.ofNat 0)

/-- No float of the dictionary is a negative zero or at least `10^16` in magnitude. -/
def survives (d : PyDict) : Bool := d.members.numbers Number.survives

/-- SHA-256 has one digest for the text of the dictionary and the different one it has after it is
stored. -/
def Collides (d : PyDict) : Prop :=
  digest (decode (encode d)) = digest d ∧ dumps (decode (encode d)) ≠ dumps d

instance (d : PyDict) : Decidable (Collides d) := inferInstanceAs (Decidable (_ ∧ _))

/-- What is read back of a dictionary. -/
theorem decode_encode (d : PyDict) : decode (encode d) = d.map Number.reload := by
  apply JsonObject.ext_members
  exact Json.map_map _ _ d.members

/-- A dictionary that survives is read back as it was. -/
theorem decode_encode_eq {d : PyDict} (h : survives d) : decode (encode d) = d := by
  rw [decode_encode]
  apply JsonObject.ext_members
  exact Json.map_eq_self (fun _ hn => Number.reload_eq hn) h

/-- The text of a dictionary stays the same exactly when the dictionary survives. -/
theorem dumps_decode_encode_iff (d : PyDict) :
    dumps (decode (encode d)) = dumps d ↔ survives d := by
  rw [decode_encode]
  exact Json.text_map_eq_iff (fun _ hn => Number.reload_eq hn)
    (fun _ hn => Number.signs_reload_lt hn)
    d.value

/-- And so does its digest, unless the two texts collide. -/
theorem digest_decode_encode_iff {d : PyDict} (hd : ¬Collides d) :
    digest (decode (encode d)) = digest d ↔ survives d := by
  constructor
  · intro h
    rw [← dumps_decode_encode_iff]
    by_contra hne
    exact hd ⟨h, hne⟩
  · intro h
    rw [decode_encode_eq h]

/-- A dictionary that survives has one text. -/
theorem not_collides {d : PyDict} (h : survives d) : ¬Collides d := fun hd =>
  hd.2 ((dumps_decode_encode_iff d).mpr h)

/-! ## The store -/

/-- A row of `agent_executor_effects`; its key is the effect key. -/
structure EffectRow where
  taskId : Uuid
  kind : String
  inputSha256 : String
  requestSha256 : String
  request : Jsonb
  response : Option Jsonb

/-- `EffectRecord`. -/
structure EffectRecord where
  key : String
  taskId : Uuid
  kind : String
  inputSha256 : String
  request : PyDict
  response : Option PyDict

/-- The exceptions of the store. -/
inductive EffectError
  | valueError (message : String)
  | lookupError (message : String)
  | assertionError
  /-- The text of a value cannot be written, or the database refuses it. -/
  | dataError
deriving DecidableEq

/-- The table of effects. -/
abbrev EffectTable := Table String EffectRow

/-- `_record`. -/
def recordOf (key : String) (row : EffectRow) : Except EffectError EffectRecord :=
  if digest (decode row.request) ≠ row.requestSha256 then
    .error (.valueError "Persisted Executor request checksum mismatch")
  else .ok ⟨key, row.taskId, row.kind, row.inputSha256, decode row.request,
    row.response.map decode⟩

/-- `validate_identity`. -/
def validateIdentity (record : EffectRecord) (taskId : Uuid) (kind inputSha256 : String) :
    Except EffectError Unit :=
  if record.taskId = taskId ∧ record.kind = kind ∧ record.inputSha256 = inputSha256 then .ok ()
  else .error (.valueError "Executor effect key was reused with different input")

/-- `EffectStore.get`. -/
def get (effects : EffectTable) (key : String) : Except EffectError (Option EffectRecord) :=
  match effects.get key with
  | none => .ok none
  | some row => (recordOf key row).map some

/-- `EffectStore.prepare`: the table after its transaction, and the record that is stored. -/
def prepare (effects : EffectTable) (key : String) (taskId : Uuid) (kind inputSha256 : String)
    (request : PyDict) : Except EffectError (EffectTable × EffectRecord) :=
  if ¬storable request then .error .dataError
  else
    let inserted := effects.insertIfAbsent key
      ⟨taskId, kind, inputSha256, digest request, encode request, none⟩
    match inserted.get key with
    | none => .error .assertionError
    | some row => do
      let record ← recordOf key row
      validateIdentity record taskId kind inputSha256
      .ok (inserted, record)

/-- The response without its version. -/
def identity (response : PyDict) : Json Number .members :=
  response.members.without "execution_version"

/-- `EffectStore.complete`: the table after its transaction, and the record that is stored. -/
def complete (effects : EffectTable) (key : String) (response : PyDict) :
    Except EffectError (EffectTable × EffectRecord) :=
  match effects.get key with
  | none => .error (.lookupError "Executor request was not prepared")
  | some row =>
    match row.response with
    | some previous =>
      -- Executor replays may return a newer execution version.
      if (identity response).pyEq (identity (decode previous)) then do
        let record ← recordOf key row
        .ok (effects, record)
      else .error (.valueError "Executor effect response identity changed")
    | none =>
      if ¬storable response then .error .dataError
      else do
        let record ← recordOf key { row with response := some (encode response) }
        .ok (effects.modifyAt key fun row => { row with response := some (encode response) },
          { record with response := some response })

/-- A transaction of the store. -/
inductive EffectAction
  | prepare (key : String) (taskId : Uuid) (kind inputSha256 : String) (request : PyDict)
  | complete (key : String) (response : PyDict)

/-- The store under any sequence of transactions. -/
def effectStore : Machine EffectTable EffectAction where
  init effects := effects = .empty
  step effects
    | .prepare key taskId kind sha request =>
      ((prepare effects key taskId kind sha request).toOption).map Prod.fst
    | .complete key response => ((complete effects key response).toOption).map Prod.fst

/-- What the row of a request keeps: the identity, the cell of the request and its digest. -/
def Holds (effects : EffectTable) (key : String) (taskId : Uuid) (kind sha : String)
    (request : PyDict) : Prop :=
  ∃ row, effects.get key = some row ∧ row.taskId = taskId ∧ row.kind = kind ∧
    row.inputSha256 = sha ∧ row.requestSha256 = digest request ∧ row.request = encode request

/-- A cell that is read back as it was written passes the check. -/
theorem recordOf_of_survives {key : String} {row : EffectRow} {request : PyDict}
    (hs : survives request) (hcell : row.request = encode request)
    (hsha : row.requestSha256 = digest request) :
    recordOf key row = .ok ⟨key, row.taskId, row.kind, row.inputSha256, request,
      row.response.map decode⟩ := by
  unfold recordOf
  rw [hcell, hsha, decode_encode_eq hs, if_neg (by simp)]

/-- A request that does not survive fails the check. -/
theorem recordOf_of_not_survives {key : String} {row : EffectRow} {request : PyDict}
    (hs : survives request = false) (hd : ¬Collides request) (hcell : row.request = encode request)
    (hsha : row.requestSha256 = digest request) :
    recordOf key row = .error (.valueError "Persisted Executor request checksum mismatch") := by
  have hne : digest (decode (encode request)) ≠ digest request := by
    intro h
    rw [(digest_decode_encode_iff hd).mp h] at hs
    exact absurd hs (by simp)
  unfold recordOf
  rw [hcell, hsha, if_pos hne]

/-- What `prepare` does when it does not raise: the row that is there afterwards passes the check,
and it is the one that was there or the caller's. -/
theorem prepare_ok {effects effects' : EffectTable} {key : String} {taskId : Uuid}
    {kind sha : String} {request : PyDict} {record : EffectRecord}
    (h : prepare effects key taskId kind sha request = .ok (effects', record)) :
    effects' = effects.insertIfAbsent key
      ⟨taskId, kind, sha, digest request, encode request, none⟩ ∧
      ∃ row, effects'.get key = some row ∧ recordOf key row = .ok record := by
  unfold prepare at h
  obtain ⟨-, h⟩ := Fallible.ite_eq_ok.mp h
  dsimp only at h
  split at h
  · exact absurd h (by simp)
  · rename_i row hrow
    obtain ⟨found, hrecord, h⟩ := Fallible.bind_eq_ok.mp h
    obtain ⟨-, -, h⟩ := Fallible.bind_eq_ok.mp h
    obtain ⟨rfl, rfl⟩ := Prod.mk.inj (Except.ok.inj h)
    exact ⟨rfl, row, hrow, hrecord⟩

/-- What `complete` does when it does not raise: no row's request or identity changes. -/
theorem complete_ok {effects effects' : EffectTable} {key : String} {response : PyDict}
    {record : EffectRecord} (h : complete effects key response = .ok (effects', record)) :
    effects' = effects ∨ effects' = effects.modifyAt key fun row =>
      { row with response := some (encode response) } := by
  unfold complete at h
  split at h
  · exact absurd h (by simp)
  · split at h
    · split at h
      · obtain ⟨found, -, h⟩ := Fallible.bind_eq_ok.mp h
        exact .inl (Prod.mk.inj (Except.ok.inj h)).1.symm
      · exact absurd h (by simp)
    · obtain ⟨-, h⟩ := Fallible.ite_eq_ok.mp h
      obtain ⟨found, -, h⟩ := Fallible.bind_eq_ok.mp h
      exact .inr (Prod.mk.inj (Except.ok.inj h)).1.symm

/-- A transaction keeps what the row of a request holds. -/
theorem holds_step {effects effects' : EffectTable} {a : EffectAction} {key : String}
    {taskId : Uuid} {kind sha : String} {request : PyDict}
    (hs : effectStore.step effects a = some effects')
    (h : Holds effects key taskId kind sha request) :
    Holds effects' key taskId kind sha request := by
  obtain ⟨row, hrow, hkept⟩ := h
  cases a with
  | prepare key' taskId' kind' sha' request' =>
    obtain ⟨⟨stored, record⟩, hok, rfl⟩ := Option.map_eq_some_iff.mp hs
    obtain ⟨rfl, -⟩ := prepare_ok (Fallible.toOption_eq_some.mp hok)
    refine ⟨row, ?_, hkept⟩
    rw [Table.get_insertIfAbsent]
    split
    · rename_i hkey
      rw [← hkey, hrow]
      rfl
    · exact hrow
  | complete key' response =>
    obtain ⟨⟨stored, record⟩, hok, rfl⟩ := Option.map_eq_some_iff.mp hs
    rcases complete_ok (Fallible.toOption_eq_some.mp hok) with rfl | rfl
    · exact ⟨row, hrow, hkept⟩
    · by_cases hkey : key = key'
      · refine ⟨{ row with response := some (encode response) }, ?_, hkept⟩
        rw [Table.get_modifyAt, if_pos hkey, hrow]
        rfl
      · refine ⟨row, ?_, hkept⟩
        rw [Table.get_modifyAt, if_neg hkey, hrow]

/-- Reading the row of a request that survives. -/
theorem get_of_holds {effects : EffectTable} {key : String} {taskId : Uuid} {kind sha : String}
    {request : PyDict} (hs : survives request) (h : Holds effects key taskId kind sha request) :
    ∃ record, get effects key = .ok (some record) ∧ record.request = request := by
  obtain ⟨row, hrow, -, -, -, hsha, hcell⟩ := h
  unfold get
  rw [hrow]
  dsimp only
  rw [recordOf_of_survives hs hcell hsha]
  exact ⟨_, rfl, rfl⟩

/-- Preparing the same request again. -/
theorem prepare_of_holds {effects : EffectTable} {key : String} {taskId : Uuid} {kind sha : String}
    {request : PyDict} (hstore : storable request) (hs : survives request)
    (h : Holds effects key taskId kind sha request) :
    ∃ record, prepare effects key taskId kind sha request = .ok (effects, record) ∧
      record.request = request := by
  obtain ⟨row, hrow, htask, hkind, hinput, hsha, hcell⟩ := h
  have hkeep : effects.insertIfAbsent key
      ⟨taskId, kind, sha, digest request, encode request, none⟩ = effects := by
    unfold Table.insertIfAbsent
    rw [Table.insert_of_get_some hrow]
    rfl
  unfold prepare
  rw [if_neg (by simp [hstore]), hkeep]
  dsimp only
  rw [hrow]
  dsimp only
  rw [recordOf_of_survives hs hcell hsha]
  have hvalid : validateIdentity ⟨key, row.taskId, row.kind, row.inputSha256, request,
      row.response.map decode⟩ taskId kind sha = .ok () := if_pos ⟨htask, hkind, hinput⟩
  refine ⟨⟨key, row.taskId, row.kind, row.inputSha256, request, row.response.map decode⟩, ?_, rfl⟩
  simp only [bind, Except.bind, hvalid]

/-- A request is stored under every new key, and from then on every read of the row passes the
check and the same request is recognised, whatever the store did in between. -/
def EffectSurvives (request : PyDict) : Prop :=
  ∀ (effects : EffectTable) (key : String) (taskId : Uuid) (kind sha : String),
    effectStore.Reachable effects → effects.get key = none →
    ∃ stored record, prepare effects key taskId kind sha request = .ok (stored, record) ∧
      record.request = request ∧
      ∀ later, effectStore.Leads stored later →
        (∃ record, get later key = .ok (some record) ∧ record.request = request) ∧
        ∃ record, prepare later key taskId kind sha request = .ok (later, record) ∧
          record.request = request

/-- The insert of a new key. -/
theorem get_inserted {effects : EffectTable} {key : String} (hnone : effects.get key = none)
    (row : EffectRow) : (effects.insertIfAbsent key row).get key = some row := by
  rw [Table.get_insertIfAbsent, if_pos rfl, hnone]
  rfl

/-- A request that the column accepts survives exactly when its floats do. -/
theorem effect_survives_iff {request : PyDict} (hstore : storable request)
    (hd : ¬Collides request) : EffectSurvives request ↔ survives request := by
  constructor
  · intro h
    by_contra hs
    obtain ⟨stored, record, hok, -⟩ := h .empty "key" 0 "submit" "" (.start rfl) rfl
    obtain ⟨rfl, row, hrow, hrecord⟩ := prepare_ok hok
    rw [get_inserted rfl] at hrow
    rw [← Option.some.inj hrow,
      recordOf_of_not_survives (Bool.eq_false_iff.mpr hs) hd rfl rfl] at hrecord
    exact absurd hrecord (by simp)
  · intro hs effects key taskId kind sha hr hnone
    set row : EffectRow := ⟨taskId, kind, sha, digest request, encode request, none⟩ with hdef
    have hholds : Holds (effects.insertIfAbsent key row) key taskId kind sha request :=
      ⟨row, get_inserted hnone row, rfl, rfl, rfl, rfl, rfl⟩
    have hfirst : prepare effects key taskId kind sha request =
        .ok (effects.insertIfAbsent key row, ⟨key, taskId, kind, sha, request, none⟩) := by
      have hvalid : validateIdentity ⟨key, taskId, kind, sha, request, none⟩ taskId kind sha =
          .ok () := if_pos ⟨rfl, rfl, rfl⟩
      unfold prepare
      rw [if_neg (by simp [hstore]), ← hdef]
      dsimp only
      rw [get_inserted hnone]
      dsimp only
      rw [recordOf_of_survives hs rfl rfl]
      simp only [bind, Except.bind, hdef, Option.map_none, hvalid]
    have hreach : effectStore.Reachable (effects.insertIfAbsent key row) := by
      have hstep : effectStore.step effects (.prepare key taskId kind sha request) =
          some (effects.insertIfAbsent key row) := by
        simp [effectStore, hfirst, Except.toOption]
      exact hr.step hstep
    refine ⟨_, _, hfirst, rfl, fun later hl => ?_⟩
    have hlater : Holds later key taskId kind sha request :=
      Machine.Leads.stable (fun _ _ _ _ hk hstep => holds_step hstep hk) hreach hholds hl
    exact ⟨get_of_holds hs hlater, prepare_of_holds hstore hs hlater⟩

end ExAgent.Storage
