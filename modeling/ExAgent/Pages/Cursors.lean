import ExAgent.Api.Tasks
import ExAgent.Lib.Base64
import ExAgent.Lib.DateTime
import ExAgent.Lib.JsonText

/-!
# Cursors that hold a timestamp and an id

`_encode_cursor` and `_decode_cursor` of `agent/failure/operations.py` and of
`ex_agent/maintenance/operations.py`, which differ in the kind and the keys that they write: a JSON
object with the kind, the ISO text of the timestamp and the text of the id, in URL-safe base64
without padding. What is decoded of an encoded cursor is the timestamp and the id (`decode_encode`).
-/

namespace ExAgent.Pages

open Lib Lib.JsonText

/-! ## Reading a UUID -/

/-- `str.replace` of a text by the empty one, after some signs that are skipped. -/
def removeFrom (pattern : PyText) : ℕ → PyText → PyText
  | _, [] => []
  | skip + 1, _ :: rest => removeFrom pattern skip rest
  | 0, c :: rest =>
    if pattern.isPrefixOf (c :: rest) then removeFrom pattern (pattern.length - 1) rest
    else c :: removeFrom pattern 0 rest

/-- The text without some signs at its ends: `str.strip`. -/
def stripped (p : ℕ → Bool) (text : PyText) : PyText :=
  ((text.dropWhile p).reverse.dropWhile p).reverse

/-- Digits of base 16, with single underscores between them. -/
def hexDigitsValue : Bool → ℕ → PyText → Option ℕ
  | afterDigit, n, [] => if afterDigit then some n else none
  | afterDigit, n, c :: rest =>
    if c = 95 then if afterDigit then hexDigitsValue false n rest else none
    else (hexValue c).bind fun v => hexDigitsValue true (n * 16 + v) rest

/-- The sign of a number: whether it is negative, and what follows. -/
def takeSign : PyText → Bool × PyText
  | 45 :: text => (true, text)
  | 43 :: text => (false, text)
  | text => (false, text)

/-- A number of base 16 without its `0x`, which an underscore may follow. -/
def dropHexPrefix : PyText → PyText
  | 48 :: 120 :: 95 :: text => text
  | 48 :: 88 :: 95 :: text => text
  | 48 :: 120 :: text => text
  | 48 :: 88 :: text => text
  | text => text

/-- `int(text, 16)`. -/
def intBase16 (text : PyText) : Option ℤ :=
  let text := stripped (fun c => c = 32 ∨ 9 ≤ c ∧ c ≤ 13 ∨ 28 ≤ c ∧ c ≤ 31) text
  (hexDigitsValue false 0 (dropHexPrefix (takeSign text).2)).map fun n =>
    if (takeSign text).1 then -(n : ℤ) else n

/-- `UUID(hex)`. -/
def uuidOfText (text : PyText) : Option Uuid :=
  let hex := removeFrom (PyText.ofString "uuid:") 0 (removeFrom (PyText.ofString "urn:") 0 text)
  let hex := (stripped (fun c => c = 123 ∨ c = 125) hex).filter (· ≠ 45)
  if hex.length = 32 then
    (intBase16 hex).bind fun n => if 0 ≤ n ∧ n < 2 ^ 128 then some n.toNat else none
  else none

/-! ## The codec -/

/-- What a cursor is marked with, and the keys of its timestamp and its id. -/
structure Format where
  kind : String
  timeKey : String
  idKey : String

/-- The cursor of the blocked failures. -/
def blockedFailure : Format := ⟨"blocked_failure", "updated_at", "task_id"⟩

/-- The cursor of the maintenance jobs. -/
def streamMaintenance : Format := ⟨"stream_maintenance", "created_at", "job_id"⟩

/-- Why a cursor is refused: `ValueError`, or the `AttributeError` that `UUID` raises for an id that
is neither a text nor null, and that nothing catches. -/
inductive CursorError
  | invalid
  | attributeError
deriving DecidableEq

/-- The members of the payload. -/
def Format.members (f : Format) (time : DateTime) (id : Uuid) : List (PyText × PyText) :=
  [(PyText.ofString "kind", PyText.ofString f.kind), (PyText.ofString f.timeKey, time.isoformat),
    (PyText.ofString f.idKey, (Api.uuidText id).map Char.toNat)]

/-- `_encode_cursor`. -/
def Format.encode (f : Format) (time : DateTime) (id : Uuid) : PyText :=
  (Base64.urlsafeEncode (Utf8.encode (dumpsTexts true [44] [58] (f.members time id)))).map
    Char.toNat

/-- `_decode_cursor`. -/
def Format.decode (f : Format) (wide : List UInt8 → Option PyText) (cursor : PyText) :
    Except CursorError (DateTime × Uuid) :=
  match (Base64.urlsafeDecode (cursor ++ Base64.padding cursor)).bind (loadsBytes wide) with
  | some (.dict payload) =>
    match lookup (PyText.ofString "kind") payload with
    | some (.text kind) =>
      if kind ≠ PyText.ofString f.kind then .error .invalid
      else
        match lookup (PyText.ofString f.timeKey) payload with
        | some (.text time) =>
          match DateTime.fromisoformat time with
          | some time =>
            if time.offset = none then .error .invalid
            else
              match lookup (PyText.ofString f.idKey) payload with
              | some (.text id) =>
                match uuidOfText id with
                | some id => .ok (time, id)
                | none => .error .invalid
              | none => .error .invalid
              | some .none => .error .invalid
              -- `UUID` calls a method of text, whose absence is not caught.
              | some _ => .error .attributeError
          | none => .error .invalid
        | _ => .error .invalid
    | _ => .error .invalid
  | _ => .error .invalid

/-! ## The text of a UUID is read back -/

/-- A text without the first sign of a pattern does not hold the pattern. -/
theorem removeFrom_eq {pattern : PyText} {first : ℕ} {more text : PyText}
    (hpattern : pattern = first :: more) (h : ∀ c ∈ text, c ≠ first) :
    removeFrom pattern 0 text = text := by
  induction text with
  | nil => rfl
  | cons c text ih =>
    have hc : pattern.isPrefixOf (c :: text) = false := by
      rw [hpattern]
      have hne : (first == c) = false := beq_eq_false_iff_ne.mpr (h c List.mem_cons_self).symm
      simp [List.isPrefixOf, hne]
    rw [removeFrom, if_neg (by rw [hc]; exact Bool.false_ne_true),
      ih fun d hd => h d (List.mem_cons_of_mem _ hd)]

/-- A text without the signs is not stripped. -/
theorem stripped_eq {p : ℕ → Bool} {text : PyText} (h : ∀ c ∈ text, p c = false) :
    stripped p text = text := by
  have hdrop : ∀ {t : PyText}, (∀ c ∈ t, p c = false) → t.dropWhile p = t := by
    intro t ht
    cases t with
    | nil => rfl
    | cons c t =>
      rw [List.dropWhile_cons_of_neg]
      rw [ht c List.mem_cons_self]
      exact Bool.false_ne_true
  unfold stripped
  rw [hdrop h, hdrop (fun c hc => h c (List.mem_reverse.mp hc)), List.reverse_reverse]

/-- The code of a digit of base 16: `0` to `9` or `a` to `f`. -/
def IsHex (c : ℕ) : Prop := 48 ≤ c ∧ c ≤ 57 ∨ 97 ≤ c ∧ c ≤ 102

/-- The digits of a UUID are hexadecimal digits. -/
theorem digitChar_hex {n : ℕ} (h : n < 16) :
    IsHex (Nat.digitChar n).toNat ∧ hexValue (Nat.digitChar n).toNat = some n := by
  have hall : ∀ n : Fin 16, (48 ≤ (Nat.digitChar n).toNat ∧ (Nat.digitChar n).toNat ≤ 57 ∨
      97 ≤ (Nat.digitChar n).toNat ∧ (Nat.digitChar n).toNat ≤ 102) ∧
      hexValue (Nat.digitChar n).toNat = some n := by decide
  exact hall ⟨n, h⟩

/-- The digits of base 16 are read as the number, after digits that were read. -/
theorem hexDigitsValue_toDigits (n : ℕ) : ∀ (start : ℕ) (afterDigit : Bool) (rest : PyText),
    hexDigitsValue afterDigit start ((Nat.toDigits 16 n).map Char.toNat ++ rest) =
      hexDigitsValue true (start * 16 ^ (Nat.toDigits 16 n).length + n) rest := by
  have hdigit : ∀ {d : ℕ}, d < 16 → ∀ (start : ℕ) (afterDigit : Bool) (rest : PyText),
      hexDigitsValue afterDigit start ((Nat.digitChar d).toNat :: rest) =
        hexDigitsValue true (start * 16 + d) rest := by
    intro d hd start afterDigit rest
    obtain ⟨hhex, hvalue⟩ := digitChar_hex hd
    unfold IsHex at hhex
    rw [hexDigitsValue, if_neg (by omega), hvalue, Option.bind_some]
  induction n using Nat.strong_induction_on with
  | _ n ih =>
    intro start afterDigit rest
    by_cases hn : n < 16
    · rw [Nat.toDigits_of_lt_base hn]
      simpa using hdigit hn start afterDigit rest
    · rw [Nat.toDigits_of_base_le (by decide) (by omega), List.map_append, List.append_assoc,
        ih (n / 16) (by omega)]
      simp only [List.map_cons, List.map_nil, List.singleton_append, List.length_append,
        List.length_singleton]
      rw [hdigit (Nat.mod_lt _ (by decide))]
      congr 1
      rw [pow_succ]
      have hdiv := Nat.div_add_mod n 16
      nlinarith [hdiv]

/-- A UUID has thirty-two of them. -/
theorem length_hexDigits {id : Uuid} (h : id < 2 ^ 128) : (Api.hexDigits 32 id).length = 32 := by
  have hle : (Nat.toDigits 16 id).length ≤ 32 :=
    (Nat.length_toDigits_le_iff (by decide) (by decide)).mpr (h.trans_le (by norm_num))
  unfold Api.hexDigits
  rw [List.length_append, List.length_replicate]
  omega

/-- The digits of an id are digits of base 16. -/
theorem isHex_toDigits (n : ℕ) : ∀ c ∈ (Nat.toDigits 16 n).map Char.toNat, IsHex c := by
  induction n using Nat.strong_induction_on with
  | _ n ih =>
    intro c hc
    by_cases hn : n < 16
    · rw [Nat.toDigits_of_lt_base hn] at hc
      obtain rfl : c = (Nat.digitChar n).toNat := by simpa using hc
      exact (digitChar_hex hn).1
    · rw [Nat.toDigits_of_base_le (by decide) (by omega), List.map_append] at hc
      rcases List.mem_append.mp hc with hc | hc
      · exact ih (n / 16) (by omega) c hc
      · obtain rfl : c = (Nat.digitChar (n % 16)).toNat := by simpa using hc
        exact (digitChar_hex (Nat.mod_lt _ (by decide))).1

/-- All of them are read as hexadecimal digits. -/
theorem isHex_hexDigits (id : Uuid) : ∀ c ∈ (Api.hexDigits 32 id).map Char.toNat, IsHex c := by
  intro c hc
  unfold Api.hexDigits at hc
  dsimp only at hc
  rw [List.map_append] at hc
  rcases List.mem_append.mp hc with hc | hc
  · obtain ⟨z, hz, rfl⟩ := List.mem_map.mp hc
    rw [List.eq_of_mem_replicate hz]
    exact Or.inl (by decide)
  · exact isHex_toDigits id c hc

/-- A hexadecimal text has no sign. -/
theorem takeSign_hex {text : PyText} (h : ∀ c ∈ text, IsHex c) : takeSign text = (false, text) := by
  unfold takeSign
  split
  · have hc := h 45 List.mem_cons_self
    unfold IsHex at hc
    omega
  · have hc := h 43 List.mem_cons_self
    unfold IsHex at hc
    omega
  · rfl

/-- It has no prefix `0x`. -/
theorem dropHexPrefix_hex {text : PyText} (h : ∀ c ∈ text, IsHex c) :
    dropHexPrefix text = text := by
  have hx : ∀ x ∈ text, x ≠ 120 ∧ x ≠ 88 := by
    intro x hx
    have hc := h x hx
    unfold IsHex at hc
    omega
  unfold dropHexPrefix
  split
  · exact absurd rfl (hx 120 (by simp)).1
  · exact absurd rfl (hx 88 (by simp)).2
  · exact absurd rfl (hx 120 (by simp)).1
  · exact absurd rfl (hx 88 (by simp)).2
  · rfl

/-- `int(..., 16)` reads the digits of a UUID back. -/
theorem intBase16_hexDigits (id : Uuid) :
    intBase16 ((Api.hexDigits 32 id).map Char.toNat) = some (id : ℤ) := by
  have hhex := isHex_hexDigits id
  have hspace : ∀ c ∈ (Api.hexDigits 32 id).map Char.toNat,
      decide (c = 32 ∨ 9 ≤ c ∧ c ≤ 13 ∨ 28 ≤ c ∧ c ≤ 31) = false := by
    intro c hc
    have h := hhex c hc
    unfold IsHex at h
    exact decide_eq_false (by omega)
  have hzeros : ∀ (n : ℕ) (rest : PyText), hexDigitsValue true 0 (List.replicate n 48 ++ rest) =
      hexDigitsValue true 0 rest := by
    intro n rest
    induction n with
    | zero => rfl
    | succ n ih => exact ih
  have hvalue : hexDigitsValue false 0 ((Api.hexDigits 32 id).map Char.toNat) = some id := by
    have hdigits := hexDigitsValue_toDigits id 0 false []
    have hdigits' := hexDigitsValue_toDigits id 0 true []
    simp only [List.append_nil, Nat.zero_mul, Nat.zero_add] at hdigits hdigits'
    unfold Api.hexDigits
    dsimp only
    rw [List.map_append, List.map_replicate]
    cases 32 - (Nat.toDigits 16 id).length with
    | zero => exact hdigits
    | succ n =>
      show hexDigitsValue true 0 (List.replicate n 48 ++ _) = _
      rw [hzeros]
      exact hdigits'
  unfold intBase16
  rw [stripped_eq hspace]
  dsimp only
  rw [takeSign_hex hhex, dropHexPrefix_hex hhex, hvalue]
  rfl

/-- `UUID(str(id))` is the id. -/
theorem uuidOfText_uuidText {id : Uuid} (h : id < 2 ^ 128) :
    uuidOfText ((Api.uuidText id).map Char.toNat) = some id := by
  have hlength := length_hexDigits h
  have hhex := isHex_hexDigits id
  have hint := intBase16_hexDigits id
  -- The digits, with dashes between some of them.
  obtain ⟨d, hd⟩ : ∃ d, (Api.hexDigits 32 id).map Char.toNat = d := ⟨_, rfl⟩
  have htext : (Api.uuidText id).map Char.toNat = d.take 8 ++ 45 :: (d.drop 8).take 4 ++
      45 :: (d.drop 12).take 4 ++ 45 :: (d.drop 16).take 4 ++ 45 :: d.drop 20 := by
    rw [← hd]
    simp [Api.uuidText, List.map_take, List.map_drop]
  rw [hd] at hhex hint
  have hlength' : d.length = 32 := by rw [← hd, List.length_map, hlength]
  have hsigns : ∀ c ∈ (Api.uuidText id).map Char.toNat, IsHex c ∨ c = 45 := by
    intro c hc
    rw [htext] at hc
    simp only [List.mem_append, List.mem_cons] at hc
    rcases hc with (((hc | hc | hc) | hc | hc) | hc | hc) | hc | hc
    · exact Or.inl (hhex c (List.mem_of_mem_take hc))
    · exact Or.inr hc
    · exact Or.inl (hhex c (List.mem_of_mem_drop (List.mem_of_mem_take hc)))
    · exact Or.inr hc
    · exact Or.inl (hhex c (List.mem_of_mem_drop (List.mem_of_mem_take hc)))
    · exact Or.inr hc
    · exact Or.inl (hhex c (List.mem_of_mem_drop (List.mem_of_mem_take hc)))
    · exact Or.inr hc
    · exact Or.inl (hhex c (List.mem_of_mem_drop hc))
  have hu : ∀ c ∈ (Api.uuidText id).map Char.toNat, c ≠ 117 := by
    intro c hc
    have hsign := hsigns c hc
    unfold IsHex at hsign
    omega
  have hbrace : ∀ c ∈ (Api.uuidText id).map Char.toNat, decide (c = 123 ∨ c = 125) = false := by
    intro c hc
    have hsign := hsigns c hc
    unfold IsHex at hsign
    exact decide_eq_false (by omega)
  have hurn : PyText.ofString "urn:" = 117 :: [114, 110, 58] := rfl
  have huuid : PyText.ofString "uuid:" = 117 :: [117, 105, 100, 58] := rfl
  have hfilter : ∀ {t : PyText}, (∀ c ∈ t, IsHex c) → t.filter (· ≠ 45) = t := by
    intro t ht
    refine List.filter_eq_self.mpr fun c hc => decide_eq_true ?_
    have hc := ht c hc
    unfold IsHex at hc
    omega
  have hdashes : ((Api.uuidText id).map Char.toNat).filter (· ≠ 45) = d := by
    have htake : ∀ i j, (List.take i (List.drop j d)).filter (· ≠ 45) =
        List.take i (List.drop j d) :=
      fun i j => hfilter fun c hc => hhex c (List.mem_of_mem_drop (List.mem_of_mem_take hc))
    have hfirst : (List.take 8 d).filter (· ≠ 45) = List.take 8 d := htake 8 0
    have hlast : (List.drop 20 d).filter (· ≠ 45) = List.drop 20 d :=
      hfilter fun c hc => hhex c (List.mem_of_mem_drop hc)
    have hcons : ∀ t : PyText, (45 :: t).filter (· ≠ 45) = t.filter (· ≠ 45) := fun t => rfl
    rw [htext]
    simp only [List.filter_append, hcons, htake, hfirst, hlast]
    conv_rhs => rw [← List.take_append_drop 8 d, ← List.take_append_drop 4 (d.drop 8),
      ← List.take_append_drop 4 ((d.drop 8).drop 4), ← List.take_append_drop 4
      (((d.drop 8).drop 4).drop 4)]
    simp only [List.drop_drop, List.append_assoc]
  unfold uuidOfText
  dsimp only
  rw [removeFrom_eq hurn hu, removeFrom_eq huuid hu, stripped_eq hbrace, hdashes,
    if_pos hlength', hint,
    Option.bind_some, if_pos ⟨Int.natCast_nonneg id, by exact_mod_cast h⟩, Int.toNat_natCast]

/-! ## A cursor is read back -/

/-- The marks of a format are ASCII, and the members of its payload are told apart. -/
structure Format.Sound (f : Format) : Prop where
  ascii : ∀ c ∈ PyText.ofString f.kind ++
    (PyText.ofString f.timeKey ++ PyText.ofString f.idKey), c ≤ 126
  members : ∀ time id : PyText,
    let payload := collect [(PyText.ofString "kind", PyText.ofString f.kind),
      (PyText.ofString f.timeKey, time), (PyText.ofString f.idKey, id)]
    lookup (PyText.ofString "kind") payload = some (.text (PyText.ofString f.kind)) ∧
      lookup (PyText.ofString f.timeKey) payload = some (.text time) ∧
      lookup (PyText.ofString f.idKey) payload = some (.text id)

/-- The cursor of the blocked failures reads what it writes. -/
theorem blockedFailure_sound : blockedFailure.Sound :=
  ⟨by decide, fun _ _ => ⟨rfl, rfl, rfl⟩⟩

/-- So does the cursor of the stream maintenance. -/
theorem streamMaintenance_sound : streamMaintenance.Sound :=
  ⟨by decide, fun _ _ => ⟨rfl, rfl, rfl⟩⟩

/-- The text of an id is ASCII. -/
theorem uuidText_ascii (id : Uuid) : ∀ c ∈ (Api.uuidText id).map Char.toNat, c ≤ 126 := by
  have hhex : ∀ c ∈ Api.hexDigits 32 id, c.toNat ≤ 126 := by
    intro c hc
    have h := isHex_hexDigits id c.toNat (List.mem_map_of_mem hc)
    unfold IsHex at h
    omega
  intro c hc
  obtain ⟨d, hd, rfl⟩ := List.mem_map.mp hc
  have hdash : ('-' : Char).toNat ≤ 126 := by decide
  unfold Api.uuidText at hd
  simp only [List.mem_append, List.mem_cons] at hd
  rcases hd with (((hd | rfl | hd) | rfl | hd) | rfl | hd) | rfl | hd
  · exact hhex d (List.mem_of_mem_take hd)
  · exact hdash
  · exact hhex d (List.mem_of_mem_drop (List.mem_of_mem_take hd))
  · exact hdash
  · exact hhex d (List.mem_of_mem_drop (List.mem_of_mem_take hd))
  · exact hdash
  · exact hhex d (List.mem_of_mem_drop (List.mem_of_mem_take hd))
  · exact hdash
  · exact hhex d (List.mem_of_mem_drop hd)

/-- A printable text is a payload of UTF-8 that is read as the members that were written. -/
theorem loadsBytes_members {members : List (PyText × PyText)} (wide : List UInt8 → Option PyText)
    (h : ∀ m ∈ members, (∀ c ∈ m.1, c ≤ 126) ∧ ∀ c ∈ m.2, c ≤ 126) :
    loadsBytes wide (Utf8.encode (dumpsTexts true [44] [58] members)) =
      some (.dict (collect members)) := by
  have hlt : ∀ c ∈ dumpsTexts true [44] [58] members, c < 128 :=
    dumpsTexts_lt (by decide) (by decide) members
  have hread : loads (dumpsTexts true [44] [58] members) = some (.dict (collect members)) := by
    rw [dumpsTexts_ascii h]
    have hblank : ∀ c ∈ ([] : PyText), c = 32 := nofun
    exact loads_dumpsTexts hblank members
  -- The first signs are a brace, and a quote or the other brace.
  obtain ⟨second, rest, hsecond, htext⟩ : ∃ second rest, (second = 34 ∨ second = 125) ∧
      dumpsTexts true [44] [58] members = 123 :: second :: rest := by
    rcases members with _ | ⟨m, _ | ⟨m', more⟩⟩
    · exact ⟨125, [], Or.inr rfl, rfl⟩
    · exact ⟨34, _, Or.inl rfl, rfl⟩
    · exact ⟨34, _, Or.inl rfl, rfl⟩
  have hencode : Utf8.encode (dumpsTexts true [44] [58] members) =
      123 :: UInt8.ofNat second :: Utf8.encode rest := by
    rw [htext]
    rcases hsecond with rfl | rfl <;> rfl
  have hdetect : detectsUtf8 (Utf8.encode (dumpsTexts true [44] [58] members)) = true := by
    rw [hencode]
    refine detectsUtf8_ascii (by decide) ?_
    rcases hsecond with rfl | rfl <;> decide
  have hmark :
      [0xEF, 0xBB, 0xBF].isPrefixOf (Utf8.encode (dumpsTexts true [44] [58] members)) = false := by
    rw [hencode]
    rfl
  unfold loadsBytes
  rw [if_pos hdetect, hmark, if_neg Bool.false_ne_true, Utf8.decode_encode_ascii hlt]
  exact hread

/-- What is decoded of an encoded cursor is the timestamp and the id. -/
theorem Format.decode_encode {f : Format} (hf : f.Sound) (wide : List UInt8 → Option PyText)
    {time : DateTime} (haware : time.offset ≠ none) {id : Uuid} (hid : id < 2 ^ 128) :
    f.decode wide (f.encode time id) = .ok (time, id) := by
  have hmembers : ∀ m ∈ f.members time id, (∀ c ∈ m.1, c ≤ 126) ∧ ∀ c ∈ m.2, c ≤ 126 := by
    have hascii := hf.ascii
    simp only [List.forall_mem_append] at hascii
    have hkind : ∀ c ∈ PyText.ofString "kind", c ≤ 126 := by decide
    simp only [Format.members, List.forall_mem_cons]
    exact ⟨⟨hkind, hascii.1⟩, ⟨hascii.2.1, time.isoformat_ascii⟩,
      ⟨hascii.2.2, uuidText_ascii id⟩, nofun⟩
  have hbytes : Base64.urlsafeDecode (f.encode time id ++ Base64.padding (f.encode time id)) =
      some (Utf8.encode (dumpsTexts true [44] [58] (f.members time id))) :=
    Base64.urlsafeDecode_encode _
  obtain ⟨hkind, htime, hidText⟩ := hf.members time.isoformat ((Api.uuidText id).map Char.toNat)
  unfold Format.decode
  rw [hbytes, Option.bind_some, loadsBytes_members wide hmembers]
  unfold Format.members
  simp only [hkind, htime, hidText, ne_eq, not_true_eq_false, if_false,
    DateTime.fromisoformat_isoformat, haware, uuidOfText_uuidText hid]

end ExAgent.Pages
