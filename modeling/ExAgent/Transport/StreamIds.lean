import ExAgent.Transport.SafeTrim
import ExAgent.Worker.Sweep

/-!
# Texts of stream IDs

Three comparisons of stream IDs. `next_stream_id` (`worker/redis_streams.py`) counts up in two parts
of 64 bits, the trim script compares digits, and the trim plan compares pairs of integers. On the
texts of IDs they are one order (`stream_id_order`): that of the pairs. Only `int` sets a bound: it
converts 4300 digits at most, where the script compares texts of any length.
-/

namespace ExAgent.Transport

open Lib Worker.RedisStreamConsumer

/-! ## `int` -/

/-- The characters that `int` strips of an ASCII text. `str.strip` also takes 28 to 31. -/
def isSpace (c : Char) : Bool := c.toNat = 32 ∨ 9 ≤ c.toNat ∧ c.toNat ≤ 13

/-- Digits with single underscores between them; the flag says that a digit stands before. -/
def ungrouped : Bool → List Char → Option (List Char)
  | afterDigit, [] => if afterDigit then some [] else none
  | afterDigit, c :: text =>
    if c.isDigit then (ungrouped true text).map (c :: ·)
    else if c = '_' ∧ afterDigit then ungrouped false text
    else none

/-- The number of a text of digits; more than 4300 of them are refused. -/
def intDigits (text : List Char) : Option ℤ :=
  (ungrouped false text).bind fun digits =>
    if digits.length ≤ 4300 then some (DecimalText.value digits) else none

/-- `int` of an ASCII text. -/
def intOfText (text : List Char) : Option ℤ :=
  match ((text.dropWhile isSpace).reverse.dropWhile isSpace).reverse with
  | '-' :: digits => (intDigits digits).map (-·)
  | '+' :: digits => intDigits digits
  | digits => intDigits digits

/-- `_MAX_ID_PART`. -/
def maxIdPart : ℤ := 2 ^ 64 - 1

/-- The text of an integer. -/
def intText (n : ℤ) : List Char :=
  if n < 0 then '-' :: decimal n.natAbs else decimal n.natAbs

/-- `next_stream_id`; `none` where it raises. -/
def nextStreamIdText (value : List Char) : Option (Option (List Char)) :=
  match value.splitOn '-' with
  | [ms, seq] => do
    let milliseconds ← intOfText ms
    let sequence ← intOfText seq
    if ¬((0 ≤ milliseconds ∧ milliseconds ≤ maxIdPart) ∧ 0 ≤ sequence ∧
      sequence ≤ maxIdPart) then none
    else if sequence < maxIdPart then
      some (some (intText milliseconds ++ '-' :: intText (sequence + 1)))
    else if milliseconds < maxIdPart then some (some (intText (milliseconds + 1) ++ '-' :: ['0']))
    else some none
  | _ => none

/-- `_stream_id_parts` of an ASCII text, with what `int` takes and refuses; `none` where it
raises. -/
def streamIdKey (value : List Char) : Option (ℤ × ℤ) :=
  match value.span (· ≠ '-') with
  | (ms, '-' :: seq) => do pure (← intOfText ms, ← intOfText seq)
  | _ => none

/-- The rest of `min`: the key of each element is computed once, and the first of the least
stays. -/
def minOfRest (best : List Char) (least : ℤ × ℤ) : List (List Char) → Option (List Char)
  | [] => some best
  | value :: values => do
    let key ← streamIdKey value
    if toLex key < toLex least then minOfRest value key values else minOfRest best least values

/-- `min(boundaries, key=_stream_id_parts)`. -/
def minByKey (best : List Char) (values : List (List Char)) : Option (List Char) := do
  let key ← streamIdKey best
  minOfRest best key values

/-- The loop of the script: the boundary is the `minimum` so far. -/
def minimumAll (boundary : List Char) : List (List Char) → Option (List Char)
  | [] => some boundary
  | value :: values => (minimum boundary value).bind fun least => minimumAll least values

/-! ## Numbers -/

/-- A text of digits is ungrouped as it is. -/
theorem ungrouped_digits {text : List Char} (h : DecimalText.Digits text) (afterDigit : Bool)
    (hstart : afterDigit = true ∨ text ≠ []) : ungrouped afterDigit text = some text := by
  induction text generalizing afterDigit with
  | nil =>
    obtain hflag | hne := hstart
    · simp [ungrouped, hflag]
    · exact absurd rfl hne
  | cons c text ih =>
    unfold ungrouped
    rw [if_pos h.head, ih h.tail true (.inl rfl)]
    rfl

/-- A digit is no sign and no space. -/
theorem isSpace_digit {c : Char} (h : c.isDigit = true) :
    isSpace c = false ∧ c ≠ '-' ∧ c ≠ '+' := by
  obtain ⟨hlo, hhi⟩ := DecimalText.isDigit_bounds h
  refine ⟨?_, ?_, ?_⟩
  · unfold isSpace
    simp only [decide_eq_false_iff_not]
    omega
  · rintro rfl
    exact absurd hlo (by decide)
  · rintro rfl
    exact absurd hlo (by decide)

/-- A list whose first element is kept is not cut. -/
theorem dropWhile_of_head {p : Char → Bool} {text : List Char} (h : ∀ c ∈ text, p c = false) :
    text.dropWhile p = text := by
  cases text with
  | nil => rfl
  | cons c text => rw [List.dropWhile_cons_of_neg (by simp [h c List.mem_cons_self])]

/-- The digits that `int` accepts. -/
def Short (n : ℕ) : Prop := (decimal n).length ≤ 4300

instance (n : ℕ) : Decidable (Short n) := inferInstanceAs (Decidable (_ ≤ _))

/-- `int` reads a decimal text back while it is short. -/
theorem intOfText_decimal (n : ℕ) : intOfText (decimal n) = if Short n then some
    (n : ℤ) else none := by
  have hdigits := DecimalText.digits_decimal n
  have hspace : ∀ c ∈ decimal n, isSpace c = false := fun c hc => (isSpace_digit (hdigits c hc)).1
  have hstrip : ((decimal n).dropWhile isSpace).reverse.dropWhile isSpace =
      (decimal n).reverse := by
    rw [dropWhile_of_head hspace, dropWhile_of_head]
    exact fun c hc => hspace c (List.mem_reverse.mp hc)
  have hint : intDigits (decimal n) = if Short n then some (n : ℤ) else none := by
    unfold intDigits
    rw [ungrouped_digits hdigits false (.inr (DecimalText.decimal_ne_nil n)), Option.bind_some,
      DecimalText.value_decimal]
    rfl
  unfold intOfText
  rw [hstrip, List.reverse_reverse]
  -- The first character is a digit.
  split
  · rename_i digits heq
    exact absurd rfl (isSpace_digit (hdigits '-' (heq ▸ List.mem_cons_self))).2.1
  · rename_i digits heq
    exact absurd rfl (isSpace_digit (hdigits '+' (heq ▸ List.mem_cons_self))).2.2
  · exact hint

/-- The text of a natural number is its decimal text. -/
theorem intText_natCast (n : ℕ) : intText n = decimal n := by
  unfold intText
  rw [if_neg (by omega), Int.natAbs_natCast]

/-- A decimal text is short exactly when its number is below a power of ten. -/
theorem length_decimal_le_iff {n k : ℕ} (hk : 0 < k) : (decimal n).length ≤ k ↔ n < 10 ^ k :=
  Nat.length_toDigits_le_iff (by decide) hk

/-- A part of 64 bits has 20 digits at most. -/
theorem short_of_lt {n : ℕ} (h : n < 2 ^ 64) : Short n := by
  have hlength : (decimal n).length ≤ 20 := (length_decimal_le_iff (by decide)).mpr
    (h.trans (by decide))
  exact hlength.trans (by decide)

/-- A decimal text has no hyphen. -/
theorem hyphen_notMem (n : ℕ) : '-' ∉ decimal n := fun h =>
  absurd rfl (isSpace_digit (DecimalText.digits_decimal n _ h)).2.1

/-! ## The next ID -/

/-- The next ID is the least one above. -/
theorem isLeast_nextStreamId {id next : StreamId} (hid : Fits id)
    (hnext : nextStreamId id = some next) :
    IsLeast {other | Fits other ∧ id < other} next := by
  have hfits : Fits next := by
    unfold Fits at hid
    unfold nextStreamId at hnext
    dsimp only at hnext
    split_ifs at hnext with hseq hms
    all_goals
      obtain rfl := Option.some.inj hnext
      unfold Fits StreamId.milliseconds StreamId.sequence at *
      simp only [ofLex_toLex]
      omega
  have hbefore : ∀ other, Fits other → (other < next ↔ other ≤ id) := by
    intro other hother
    have h := before_nextStreamId hid hother
    rw [hnext] at h
    exact ⟨fun hlt => h.mp fun n hn => Option.some.inj hn ▸ hlt, fun hle => h.mpr hle next rfl⟩
  refine ⟨⟨hfits, not_le.mp fun hle => ?_⟩, fun other hother => ?_⟩
  · exact lt_irrefl next ((hbefore next hfits).mpr hle)
  · exact not_lt.mp fun hlt => not_lt.mpr ((hbefore other hother.1).mp hlt) hother.2

/-- On the text of an ID, `next_stream_id` counts up, or refuses parts of more than 64 bits. -/
theorem nextStreamIdText_text (id : StreamId) : nextStreamIdText id.text =
    if Fits id then some ((nextStreamId id).map StreamId.text) else none := by
  have hsplit : id.text.splitOn '-' = [decimal id.milliseconds, decimal id.sequence] := by
    unfold StreamId.text
    rw [List.splitOn_append_cons_self_of_not_mem (hyphen_notMem _),
      List.splitOn_eq_singleton (hyphen_notMem _)]
  unfold nextStreamIdText
  rw [hsplit]
  simp only [intOfText_decimal]
  -- Both parts are read back, and the range is checked on the numbers.
  by_cases hfits : Fits id
  · obtain ⟨hms, hseq⟩ := hfits
    rw [if_pos (short_of_lt hms), if_pos (short_of_lt hseq), if_pos ⟨hms, hseq⟩]
    simp only [Option.bind_eq_bind, Option.bind_some]
    have hrange : (0 ≤ (id.milliseconds : ℤ) ∧ (id.milliseconds : ℤ) ≤ maxIdPart) ∧
        0 ≤ (id.sequence : ℤ) ∧ (id.sequence : ℤ) ≤ maxIdPart := by
      unfold maxIdPart
      omega
    rw [if_neg (not_not.mpr hrange)]
    unfold nextStreamId
    dsimp only
    have hseq_iff : (id.sequence : ℤ) < maxIdPart ↔ id.sequence < 2 ^ 64 - 1 := by
      unfold maxIdPart
      omega
    have hms_iff : (id.milliseconds : ℤ) < maxIdPart ↔ id.milliseconds < 2 ^ 64 - 1 := by
      unfold maxIdPart
      omega
    rw [if_congr hseq_iff rfl (if_congr hms_iff rfl rfl), intText_natCast]
    have hsucc : ∀ n : ℕ, intText ((n : ℤ) + 1) = decimal (n + 1) := fun n =>
      intText_natCast (n + 1)
    have hzero : decimal 0 = ['0'] := Nat.toDigits_zero 10
    rw [hsucc, hsucc, ← hzero]
    split_ifs <;> rfl
  · rw [if_neg hfits]
    -- A part beyond 64 bits is out of range, when it can be read at all.
    by_cases hms : Short id.milliseconds
    · by_cases hseq : Short id.sequence
      · rw [if_pos hms, if_pos hseq]
        simp only [Option.bind_eq_bind, Option.bind_some]
        refine if_pos fun hrange => hfits ?_
        unfold maxIdPart at hrange
        unfold Fits
        omega
      · rw [if_neg hseq]
        simp
    · rw [if_neg hms]
      simp

/-! ## The least ID -/

/-- Both parts have at most 4300 digits. -/
def ShortId (id : StreamId) : Prop := Short id.milliseconds ∧ Short id.sequence

instance (id : StreamId) : Decidable (ShortId id) := inferInstanceAs (Decidable (_ ∧ _))

/-- The key of an ID's text is the ID, while both parts are short. -/
theorem streamIdKey_text (id : StreamId) : streamIdKey id.text =
    if ShortId id then some ((id.milliseconds : ℤ), (id.sequence : ℤ)) else none := by
  have hspan : id.text.span (· ≠ '-') = (decimal id.milliseconds, '-' :: decimal id.sequence) := by
    have hall : ∀ c ∈ decimal id.milliseconds, decide (c ≠ '-') = true := fun c hc =>
      decide_eq_true (isSpace_digit (DecimalText.digits_decimal _ c hc)).2.1
    unfold StreamId.text
    rw [List.span_eq_takeWhile_dropWhile, List.takeWhile_append_of_pos hall,
      List.dropWhile_append_of_pos hall]
    simp
  unfold streamIdKey
  rw [hspan]
  simp only [intOfText_decimal]
  unfold ShortId
  by_cases hms : Short id.milliseconds <;> by_cases hseq : Short id.sequence <;> simp [hms, hseq]

/-- The maintenance of streams reads only IDs that Redis has written, and reads them alike. -/
theorem streamIdKey_eq_streamIdParts {id : StreamId} (h : ShortId id) :
    streamIdKey id.text = (streamIdParts id.text).map fun p => ((p.1 : ℤ), (p.2 : ℤ)) := by
  rw [streamIdKey_text, if_pos h]
  simp [streamIdParts]

/-- The order of the keys is that of the IDs. -/
theorem key_lt_iff (a b : StreamId) :
    toLex ((a.milliseconds : ℤ), (a.sequence : ℤ)) <
      toLex ((b.milliseconds : ℤ), (b.sequence : ℤ)) ↔
      a < b := by
  rw [StreamId.lt_iff, Prod.Lex.toLex_lt_toLex]
  simp only [Nat.cast_lt, Nat.cast_inj]

/-- The least of texts of IDs is the text of the least, while all parts are short. -/
theorem minOfRest_text (best : StreamId) (ids : List StreamId) :
    minOfRest best.text ((best.milliseconds : ℤ), (best.sequence : ℤ)) (ids.map StreamId.text) =
      if ∀ id ∈ ids, ShortId id then some (ids.foldl min best).text else none := by
  induction ids generalizing best with
  | nil => simp [minOfRest]
  | cons id ids ih =>
    rw [List.map_cons, minOfRest, streamIdKey_text]
    by_cases hid : ShortId id
    · rw [if_pos hid]
      simp only [Option.bind_eq_bind, Option.bind_some, key_lt_iff, List.foldl_cons,
        List.forall_mem_cons, hid, true_and]
      rcases lt_or_ge id best with hlt | hle
      · rw [if_pos hlt, min_eq_right hlt.le]
        exact ih id
      · rw [if_neg (not_lt.mpr hle), min_eq_left hle]
        exact ih best
    · rw [if_neg hid, if_neg fun hall => hid (hall id List.mem_cons_self)]
      rfl

/-- Python's `min` is the least ID, where every part has at most 4300 digits. -/
theorem minByKey_text (best : StreamId) (ids : List StreamId) :
    minByKey best.text (ids.map StreamId.text) =
      if ∀ id ∈ best :: ids, ShortId id then some (ids.foldl min best).text else none := by
  unfold minByKey
  rw [streamIdKey_text]
  by_cases hbest : ShortId best
  · rw [if_pos hbest]
    simp only [Option.bind_eq_bind, Option.bind_some, List.forall_mem_cons, hbest, true_and]
    exact minOfRest_text best ids
  · rw [if_neg hbest, if_neg fun hall => hbest (hall best List.mem_cons_self)]
    rfl

/-- The script's `minimum` is the least ID. -/
theorem minimumAll_text (best : StreamId) (ids : List StreamId) :
    minimumAll best.text (ids.map StreamId.text) = some (ids.foldl min best).text := by
  induction ids generalizing best with
  | nil => rfl
  | cons id ids ih =>
    rw [List.map_cons, minimumAll, minimum_text, Option.bind_some, List.foldl_cons]
    exact ih (min best id)

/-- **One order of stream IDs.** `next_stream_id` raises just for parts of more than 64 bits, and
gives the least ID above, or none for the largest one. The script compares the texts of IDs as the
pairs of their parts, whatever their size, and finds the least of a list; Python's `min` finds the
same one as long as no part has more than 4300 digits, and else raises. -/
theorem stream_id_order (id : StreamId) :
    (nextStreamIdText id.text = none ↔ ¬Fits id) ∧
    (Fits id →
      (nextStreamIdText id.text = some none ↔ ∀ other, Fits other → other ≤ id) ∧
      ∀ text, nextStreamIdText id.text = some (some text) → ∃ next : StreamId, text = next.text ∧
        IsLeast {other | Fits other ∧ id < other} next) ∧
    (∀ m n : ℕ, decimalLess (decimal m) (decimal n) = decide (m < n)) ∧
    (∀ other : StreamId, idLess id.text other.text = some (decide (id < other))) ∧
    (∀ ids : List StreamId, minimumAll id.text (ids.map StreamId.text) =
    some (ids.foldl min id).text) ∧
    ∀ ids : List StreamId, minByKey id.text (ids.map StreamId.text) =
      if ∀ other ∈ id :: ids, ShortId other then minimumAll id.text (ids.map StreamId.text)
      else none := by
  refine ⟨?_, fun hfits => ⟨?_, fun text htext => ?_⟩, decimalLess_decimal, idLess_text id,
    minimumAll_text id, fun ids => ?_⟩
  · rw [nextStreamIdText_text]
    by_cases hfits : Fits id <;> simp [hfits]
  · rw [nextStreamIdText_text, if_pos hfits, Option.some.injEq, Option.map_eq_none_iff]
    constructor
    · intro hnone other hother
      exact (before_nextStreamId hfits hother).mp (by rw [hnone]; exact nofun)
    · intro hlargest
      cases hnext : nextStreamId id with
      | none => rfl
      | some next =>
        obtain ⟨⟨hnextFits, hlt⟩, -⟩ := isLeast_nextStreamId hfits hnext
        exact absurd hlt (not_lt.mpr (hlargest next hnextFits))
  · rw [nextStreamIdText_text, if_pos hfits] at htext
    obtain ⟨next, hnext, rfl⟩ := Option.map_eq_some_iff.mp (Option.some.inj htext)
    exact ⟨next, rfl, isLeast_nextStreamId hfits hnext⟩
  · rw [minByKey_text, minimumAll_text]

/-- A part of 4301 digits is an ID for the script, but `int` refuses it. -/
theorem not_minByKey_long : ¬∀ (id : StreamId) (ids : List StreamId),
    minByKey id.text (ids.map StreamId.text) = minimumAll id.text (ids.map StreamId.text) := by
  intro h
  have hlong : ∀ k, 0 < k → ¬(decimal (10 ^ k)).length ≤ k := fun k hk hle =>
    lt_irrefl _ ((length_decimal_le_iff hk).mp hle)
  obtain ⟨n, hn⟩ : ∃ n, ¬Short n := ⟨_, hlong 4300 (by decide)⟩
  have hkey := h (toLex (n, 0)) []
  rw [minByKey_text, minimumAll_text, if_neg fun hall => hn (hall _ List.mem_cons_self).1] at hkey
  exact absurd hkey (by simp)

end ExAgent.Transport
