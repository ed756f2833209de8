import ExAgent.Effects.Store
import ExAgent.Storage.Effects

/-!
# The journal's store is the store of texts

`Effects.Store` keeps dictionaries whose values are texts and takes the digest as an argument;
`Storage.Effects` keeps the JSON columns of the table. On dictionaries of texts the two are one
store: nothing in such a dictionary changes in a column, so that the functions of `Effects.Store`
with the digest of the columns' store make the same rows, records and errors (`prepare_ofDict`,
`complete_ofDict`).
-/

namespace ExAgent.Storage

open Lib

/-! ## Dictionaries of texts -/

/-- The members as JSON texts. -/
def textMembers : List (String × String) → Json Number .members
  | [] => .empty
  | (key, value) :: rest => .member key (.string value) (textMembers rest)

/-- The keys stay in order. -/
theorem sorted_textMembers {members : List (String × String)}
    (h : (members.map Prod.fst).Pairwise (· < ·)) : (textMembers members).sorted = true := by
  induction members with
  | nil => rfl
  | cons m rest ih =>
    obtain ⟨key, value⟩ := m
    obtain ⟨hkey, hrest⟩ := List.pairwise_cons.mp h
    have hfollow : (textMembers rest).follow key = true := by
      cases rest with
      | nil => rfl
      | cons m' rest' => exact decide_eq_true (hkey _ List.mem_cons_self)
    show ((Json.string value : Json Number .value).sorted && (textMembers rest).follow key &&
      (textMembers rest).sorted) = true
    rw [hfollow, ih hrest]
    rfl

/-- A dictionary of texts as one of JSON values. -/
def ofDict (d : Dict) : PyDict := ⟨textMembers d.members, sorted_textMembers d.sorted⟩

/-- No number stands in a dictionary of texts. -/
theorem survives_ofDict (d : Dict) : survives (ofDict d) := by
  have hall : ∀ members, (textMembers members).numbers Number.survives = true := by
    intro members
    induction members with
    | nil => rfl
    | cons m rest ih => exact ih
  exact hall d.members

/-- A column keeps it as it is. -/
theorem decode_encode_ofDict (d : Dict) : decode (encode (ofDict d)) = ofDict d :=
  decode_encode_eq (survives_ofDict d)

/-- Dropping a key drops its text. -/
theorem textMembers_without (key : String) (members : List (String × String)) :
    (textMembers members).without key = textMembers (members.filter fun m => m.1 ≠ key) := by
  induction members with
  | nil => rfl
  | cons m rest ih =>
    obtain ⟨k, v⟩ := m
    show (if k = key then (textMembers rest).without key
      else .member k (.string v) ((textMembers rest).without key)) = _
    by_cases hk : k = key
    · rw [if_pos hk, List.filter_cons_of_neg (by simpa using hk), ih]
    · rw [if_neg hk, List.filter_cons_of_pos (by simpa using hk), ih]
      rfl

/-- Texts are equal when they are the same. -/
theorem pyEq_textMembers {a b : List (String × String)} :
    (textMembers a).pyEq (textMembers b) = true ↔ a = b := by
  induction a generalizing b with
  | nil => cases b <;> simp [textMembers, Json.pyEq]
  | cons m rest ih =>
    obtain ⟨k, v⟩ := m
    cases b with
    | nil => simp [textMembers, Json.pyEq]
    | cons m' rest' =>
      obtain ⟨k', v'⟩ := m'
      simp [textMembers, Json.pyEq, ih, and_assoc]

/-- The responses that the journal takes for the same one. -/
theorem pyEq_identity (a b : Dict) :
    (identity (ofDict a)).pyEq (identity (ofDict b)) = true ↔
      a.without "execution_version" = b.without "execution_version" := by
  unfold identity ofDict Dict.without
  simp only [textMembers_without, pyEq_textMembers, Dict.mk.injEq]

/-! ## Rows and tables -/

/-- A row in the columns. -/
def ofRow (row : Effects.EffectRow) : EffectRow :=
  ⟨row.taskId, row.kind, row.inputSha256, row.requestSha256, encode (ofDict row.request),
    row.response.map fun response => encode (ofDict response)⟩

/-- A record of the program. -/
def ofRecord (record : Effects.EffectRecord) : EffectRecord :=
  ⟨record.key, record.taskId, record.kind, record.inputSha256, ofDict record.request,
    record.response.map ofDict⟩

/-- A table in the columns. -/
def ofTable (effects : Effects.EffectTable) : EffectTable :=
  ⟨effects.entries.map fun e => (e.1, ofRow e.2), by
    rw [List.map_map]
    exact effects.nodup⟩

/-- An exception of the journal. -/
def ofError : Effects.EffectError → EffectError
  | .valueError message => .valueError message
  | .lookupError message => .lookupError message
  | .assertionError => .assertionError
  | .other => .dataError

/-- What a transaction leaves and returns. -/
def ofResult : Except Effects.EffectError (Effects.EffectTable × Effects.EffectRecord) →
    Except EffectError (EffectTable × EffectRecord)
  | .ok (effects, record) => .ok (ofTable effects, ofRecord record)
  | .error e => .error (ofError e)

/-- The digest of a dictionary of texts. -/
def digestOf (d : Dict) : String := digest (ofDict d)

/-- The row of a key. -/
theorem get_ofTable (effects : Effects.EffectTable) (key : String) :
    (ofTable effects).get key = (effects.get key).map ofRow := by
  obtain ⟨entries, hnodup⟩ := effects
  unfold Table.get ofTable
  dsimp only
  clear hnodup
  induction entries with
  | nil => rfl
  | cons e rest ih =>
    obtain ⟨k, row⟩ := e
    rw [List.map_cons, List.lookup_cons, List.lookup_cons, ih]
    cases key == k <;> rfl

/-- An insert of a row. -/
theorem insertIfAbsent_ofTable (effects : Effects.EffectTable) (key : String)
    (row : Effects.EffectRow) :
    (ofTable effects).insertIfAbsent key (ofRow row) =
      ofTable (effects.insertIfAbsent key row) := by
  unfold Table.insertIfAbsent Table.insert
  have hget := get_ofTable effects key
  by_cases hnone : effects.get key = none
  · have hnone' : (ofTable effects).get key = none := by rw [hget, hnone]; rfl
    rw [dif_pos hnone, dif_pos hnone']
    apply Table.ext_entries
    simp [ofTable]
  · have hsome' : ¬(ofTable effects).get key = none := by
      rw [hget, Option.map_eq_none_iff]
      exact hnone
    rw [dif_neg hnone, dif_neg hsome']
    rfl

/-- An update of a row. -/
theorem modifyAt_ofTable (effects : Effects.EffectTable) (key : String)
    {f : Effects.EffectRow → Effects.EffectRow} {g : EffectRow → EffectRow}
    (h : ∀ row, effects.get key = some row → g (ofRow row) = ofRow (f row)) :
    (ofTable effects).modifyAt key g = ofTable (effects.modifyAt key f) := by
  apply Table.ext_entries
  show (effects.entries.map fun e => (e.1, ofRow e.2)).map
      (fun e => (e.1, if e.1 = key then g e.2 else e.2)) =
    (effects.entries.map fun e => (e.1, if e.1 = key then f e.2 else e.2)).map
      fun e => (e.1, ofRow e.2)
  rw [List.map_map, List.map_map]
  refine List.map_congr_left fun e he => ?_
  dsimp only [Function.comp]
  split_ifs with hkey
  · rw [h e.2 (hkey ▸ Table.mem_entries_iff.mp he)]
  · rfl

/-! ## The transactions -/

/-- A row is checked in the same way. -/
theorem recordOf_ofRow (key : String) (row : Effects.EffectRow) :
    recordOf key (ofRow row) = match Effects.recordOf digestOf key row with
      | .ok record => .ok (ofRecord record)
      | .error e => .error (ofError e) := by
  unfold recordOf Effects.recordOf ofRow digestOf
  dsimp only
  rw [decode_encode_ofDict]
  by_cases hsha : digest (ofDict row.request) ≠ row.requestSha256
  · rw [if_pos hsha, if_pos hsha]
    rfl
  · rw [if_neg hsha, if_neg hsha]
    unfold ofRecord
    simp only [Option.map_map, Function.comp_def, decode_encode_ofDict]

/-- So is an identity. -/
theorem validateIdentity_ofRecord (record : Effects.EffectRecord) (taskId : Uuid)
    (kind sha : String) :
    validateIdentity (ofRecord record) taskId kind sha =
      match Effects.validateIdentity record taskId kind sha with
      | .ok () => .ok ()
      | .error e => .error (ofError e) := by
  unfold validateIdentity Effects.validateIdentity ofRecord
  dsimp only
  split_ifs
  · rfl
  · rfl

/-- `prepare` of a request of texts. -/
theorem prepare_ofDict (effects : Effects.EffectTable) (key : String) (taskId : Uuid)
    (kind sha : String) {request : Dict} (h : storable (ofDict request) = true) :
    prepare (ofTable effects) key taskId kind sha (ofDict request) =
      ofResult (Effects.prepare digestOf effects key taskId kind sha request) := by
  have hinserted : (ofTable effects).insertIfAbsent key
      ⟨taskId, kind, sha, digest (ofDict request), encode (ofDict request), none⟩ =
        ofTable (effects.insertIfAbsent key
          ⟨taskId, kind, sha, digestOf request, request, none⟩) :=
    insertIfAbsent_ofTable effects key ⟨taskId, kind, sha, digestOf request, request, none⟩
  unfold prepare Effects.prepare
  rw [if_neg (not_not.mpr h)]
  dsimp only
  rw [hinserted, get_ofTable]
  cases
    (effects.insertIfAbsent key ⟨taskId, kind, sha, digestOf request, request, none⟩).get key with
  | none => rfl
  | some row =>
    dsimp only [Option.map_some]
    rw [recordOf_ofRow]
    cases Effects.recordOf digestOf key row with
    | error e => rfl
    | ok record =>
      dsimp only
      show (validateIdentity (ofRecord record) taskId kind sha >>= fun _ => _) = _
      rw [validateIdentity_ofRecord]
      cases Effects.validateIdentity record taskId kind sha with
      | error e => rfl
      | ok u => rfl

/-- `complete` with a response of texts. -/
theorem complete_ofDict (effects : Effects.EffectTable) (key : String) {response : Dict}
    (h : storable (ofDict response) = true) :
    complete (ofTable effects) key (ofDict response) =
      ofResult (Effects.complete digestOf effects key response) := by
  unfold complete Effects.complete
  rw [get_ofTable]
  cases hrow : effects.get key with
  | none => rfl
  | some row =>
    -- A response that is stored already is compared, without the version of the attempt.
    dsimp only [Option.map_some]
    cases hresponse : row.response with
    | some previous =>
      have hprevious : (ofRow row).response = some (encode (ofDict previous)) := by
        unfold ofRow
        rw [hresponse]
        rfl
      rw [hprevious]
      dsimp only
      rw [decode_encode_ofDict]
      by_cases hsame : response.without "execution_version" = previous.without "execution_version"
      · rw [if_pos ((pyEq_identity _ _).mpr hsame), if_neg (not_not.mpr hsame), recordOf_ofRow]
        cases Effects.recordOf digestOf key row with
        | error e => rfl
        | ok record => rfl
      · rw [if_neg (fun h => hsame ((pyEq_identity _ _).mp h)), if_pos hsame]
        rfl
    -- The first response is written, and the row is recorded as it is read.
    | none =>
      have hnone : (ofRow row).response = none := by
        unfold ofRow
        rw [hresponse]
        rfl
      rw [hnone]
      dsimp only
      rw [if_neg (not_not.mpr h)]
      have hwritten : ({ ofRow row with response := some (encode (ofDict response)) } : EffectRow) =
          ofRow { row with response := some response } := rfl
      rw [hwritten, recordOf_ofRow]
      cases hrecord : Effects.recordOf digestOf key { row with response := some response } with
      | error e => rfl
      | ok record =>
        have hstored : record.response = some response := by
          unfold Effects.recordOf at hrecord
          split_ifs at hrecord
          rw [← Except.ok.inj hrecord]
        show (Except.ok _ : Except EffectError (EffectTable × EffectRecord)) = .ok _
        rw [modifyAt_ofTable effects key (f := fun _ => { row with response := some response })]
        · have hrecorded : ({ ofRecord record with response := some (ofDict response) } :
              EffectRecord) = ofRecord record := by
            unfold ofRecord
            rw [hstored]
            rfl
          rw [hrecorded]
        · intro row' hrow'
          obtain rfl := Option.some.inj (hrow.symm.trans hrow')
          rfl

end ExAgent.Storage
