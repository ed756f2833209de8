import ExAgent.Lib.Table
import ExAgent.Values

/-!
# The effect store

`EffectStore` of `agent/effects/store.py`: the journal of requests to the Executor, one row for each
effect key. `prepare` inserts a request and reads back whichever is stored, so that the first
committed request wins; `complete` stores the first response under a row lock and accepts later ones
that differ in `execution_version` only. The digest is an argument of the functions that compute it.

The values of a dictionary are texts here. `Storage.Effects` has the store over JSON columns, and
`Storage.Texts` proves that the two agree on dictionaries of texts.
-/

namespace ExAgent.Effects

open Lib

/-- A row of `agent_executor_effects`; its key is the effect key. -/
structure EffectRow where
  taskId : Uuid
  kind : String
  inputSha256 : String
  requestSha256 : String
  request : Dict
  response : Option Dict
deriving DecidableEq

/-- `EffectRecord`. -/
structure EffectRecord where
  key : String
  taskId : Uuid
  kind : String
  inputSha256 : String
  request : Dict
  response : Option Dict
deriving DecidableEq

/-- The exceptions of the journal. -/
inductive EffectError
  | valueError (message : String)
  | lookupError (message : String)
  | assertionError
  /-- Whatever the database, `prepare` or `send` raises. -/
  | other
deriving DecidableEq

/-- The table of effects. -/
abbrev EffectTable := Table String EffectRow

/-- `_record`: the row, after its stored request is checked against its digest. -/
def recordOf (digest : Dict → String) (key : String) (row : EffectRow) :
    Except EffectError EffectRecord :=
  if digest row.request ≠ row.requestSha256 then
    .error (.valueError "Persisted Executor request checksum mismatch")
  else .ok ⟨key, row.taskId, row.kind, row.inputSha256, row.request, row.response⟩

/-- `validate_identity`. -/
def validateIdentity (record : EffectRecord) (taskId : Uuid) (kind inputSha256 : String) :
    Except EffectError Unit :=
  if record.taskId = taskId ∧ record.kind = kind ∧ record.inputSha256 = inputSha256 then .ok ()
  else .error (.valueError "Executor effect key was reused with different input")

/-- `EffectStore.get`. -/
def get (digest : Dict → String) (effects : EffectTable) (key : String) :
    Except EffectError (Option EffectRecord) :=
  match effects.get key with
  | none => .ok none
  | some row =>
    match recordOf digest key row with
    | .error e => .error e
    | .ok record => .ok (some record)

/-- `EffectStore.prepare`: the table after its transaction, and the record that is stored. -/
def prepare (digest : Dict → String) (effects : EffectTable) (key : String) (taskId : Uuid)
    (kind inputSha256 : String) (request : Dict) :
    Except EffectError (EffectTable × EffectRecord) :=
  let inserted := effects.insertIfAbsent key
    ⟨taskId, kind, inputSha256, digest request, request, none⟩
  match inserted.get key with
  | none => .error .assertionError
  | some row =>
    match recordOf digest key row with
    | .error e => .error e
    | .ok record =>
      match validateIdentity record taskId kind inputSha256 with
      | .error e => .error e
      | .ok () => .ok (inserted, record)

/-- `EffectStore.complete`: the table after its transaction, and the record that is stored. -/
def complete (digest : Dict → String) (effects : EffectTable) (key : String) (response : Dict) :
    Except EffectError (EffectTable × EffectRecord) :=
  match effects.get key with
  | none => .error (.lookupError "Executor request was not prepared")
  | some row =>
    match row.response with
    | some previous =>
      -- Executor replays may return a newer execution version.
      if response.without "execution_version" ≠ previous.without "execution_version" then
        .error (.valueError "Executor effect response identity changed")
      else
        match recordOf digest key row with
        | .error e => .error e
        | .ok record => .ok (effects, record)
    | none =>
      let written := { row with response := some response }
      match recordOf digest key written with
      | .error e => .error e
      | .ok record => .ok (effects.modifyAt key fun _ => written, record)

/-- What `prepare` does when it does not raise. The row that is there afterwards has the caller's
identity; it is the one that was there before, or the caller's own when there was none. -/
theorem prepare_spec {digest : Dict → String} {effects effects' : EffectTable} {key : String}
    {taskId : Uuid} {kind sha : String} {request : Dict} {record : EffectRecord}
    (h : prepare digest effects key taskId kind sha request = .ok (effects', record)) :
    ∃ row, (∀ k, effects'.get k = if k = key then some row else effects.get k) ∧
      (effects.get key = some row ∨
        (effects.get key = none ∧ row = ⟨taskId, kind, sha, digest request, request, none⟩)) ∧
      recordOf digest key row = .ok record ∧
      row.taskId = taskId ∧ row.kind = kind ∧ row.inputSha256 = sha := by
  set new : EffectRow := ⟨taskId, kind, sha, digest request, request, none⟩ with hnew
  unfold prepare at h
  rw [← hnew] at h
  have hget : ∀ k, (effects.insertIfAbsent key new).get k =
      if k = key then some ((effects.get key).getD new) else effects.get k :=
    fun k => Table.get_insertIfAbsent effects key k new
  dsimp only at h
  rw [hget key, if_pos rfl] at h
  dsimp only at h
  split at h
  · exact absurd h (by simp)
  · rename_i record' hrecord
    split at h
    · exact absurd h (by simp)
    · rename_i hvalid
      obtain ⟨rfl, rfl⟩ : _ = effects' ∧ record' = record := by simpa using h
      refine ⟨(effects.get key).getD new, hget, ?_, hrecord, ?_⟩
      · cases effects.get key with
        | none => exact .inr ⟨rfl, rfl⟩
        | some row => exact .inl rfl
      · -- The record repeats the identity of the row.
        unfold recordOf at hrecord
        split at hrecord
        · exact absurd hrecord (by simp)
        · obtain rfl := Except.ok.inj hrecord
          unfold validateIdentity at hvalid
          split at hvalid
          · assumption
          · exact absurd hvalid (by simp)

/-- What `complete` does when it does not raise: the row keeps its request and identity and has a
response afterwards, the one it had before or the caller's when it had none. -/
theorem complete_spec {digest : Dict → String} {effects effects' : EffectTable} {key : String}
    {response : Dict} {record : EffectRecord}
    (h : complete digest effects key response = .ok (effects', record)) :
    ∃ row stored, effects.get key = some row ∧
      (row.response = some stored ∨ (row.response = none ∧ stored = response)) ∧
      (∀ k, effects'.get k =
        if k = key then some { row with response := some stored } else effects.get k) ∧
      recordOf digest key { row with response := some stored } = .ok record := by
  unfold complete at h
  split at h
  · exact absurd h (by simp)
  · rename_i row hrow
    split at h
    · rename_i previous hprev
      split at h
      · exact absurd h (by simp)
      · split at h
        · exact absurd h (by simp)
        · rename_i record' hrecord
          obtain ⟨rfl, rfl⟩ : effects = effects' ∧ record' = record := by simpa using h
          -- The response that is there stays: nothing is written.
          have hsame : { row with response := some previous } = row := by rw [← hprev]
          refine ⟨row, previous, hrow, .inl hprev, fun k => ?_, by rw [hsame]; exact hrecord⟩
          rw [hsame]
          split
          · rename_i hk
            rw [hk, hrow]
          · rfl
    · rename_i hnone
      dsimp only at h
      split at h
      · exact absurd h (by simp)
      · rename_i record' hrecord
        obtain ⟨rfl, rfl⟩ : _ = effects' ∧ record' = record := by simpa using h
        refine ⟨row, response, hrow, .inr ⟨hnone, rfl⟩, fun k => ?_, hrecord⟩
        rw [Table.get_modifyAt]
        split
        · rename_i hk
          rw [hk, hrow]
          rfl
        · rfl

end ExAgent.Effects
