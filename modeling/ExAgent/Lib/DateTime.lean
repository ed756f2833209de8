import ExAgent.Lib.PyJson

/-!
# Datetimes and their ISO texts

A datetime of the proleptic Gregorian calendar with microseconds, naive or with an offset from UTC
in microseconds, and the texts of ISO 8601 it is written to and read from: `isoformat` and
`fromisoformat` of Python. The reader takes dates with and without dashes, week dates, any separator
before the time, and times with and without colons. It gives back every datetime that was written
(`fromisoformat_isoformat`).
-/

namespace ExAgent.Lib

/-! ## The calendar -/

/-- A leap year. -/
def isLeap (year : ℕ) : Bool := year % 4 = 0 ∧ (year % 100 ≠ 0 ∨ year % 400 = 0)

/-- The days of a month. -/
def daysInMonth (year month : ℕ) : ℕ :=
  if month = 2 then if isLeap year then 29 else 28
  else if month = 4 ∨ month = 6 ∨ month = 9 ∨ month = 11 then 30
  else 31

/-- The days before a year. -/
def daysBeforeYear (year : ℕ) : ℕ :=
  let y := year - 1
  y * 365 + y / 4 - y / 100 + y / 400

/-- The number of a day, where day 1 is the first of January of the year 1. -/
def ordinal (year month day : ℕ) : ℕ :=
  daysBeforeYear year + ((List.range (month - 1)).map fun m => daysInMonth year (m + 1)).sum + day

/-- The fields are those of a datetime. -/
def validFields (year month day hour minute second microsecond : ℕ) (offset : Option ℤ) : Bool :=
  1 ≤ year ∧ year ≤ 9999 ∧ 1 ≤ month ∧ month ≤ 12 ∧ 1 ≤ day ∧ day ≤ daysInMonth year month ∧
    hour < 24 ∧ minute < 60 ∧ second < 60 ∧ microsecond < 1000000 ∧
    ∀ o ∈ offset, o.natAbs < 86400000000

/-- A datetime; it is naive where it has no offset from UTC. -/
@[ext] structure DateTime where
  year : ℕ
  month : ℕ
  day : ℕ
  hour : ℕ
  minute : ℕ
  second : ℕ
  microsecond : ℕ
  /-- The offset from UTC in microseconds. -/
  offset : Option ℤ
  valid : validFields year month day hour minute second microsecond offset = true
deriving DecidableEq

namespace DateTime

/-- The microseconds of UTC up to the datetime. -/
def instant (d : DateTime) : ℤ :=
  (((ordinal d.year d.month d.day * 24 + d.hour) * 60 + d.minute) * 60 + d.second : ℕ) * 1000000 +
    d.microsecond - d.offset.getD 0

/-! ## Writing -/

/-- A number with a fixed count of digits. -/
def digits : ℕ → ℕ → PyText
  | 0, _ => []
  | width + 1, n => (48 + n / 10 ^ width % 10) :: digits width n

/-- `_format_offset`. -/
def formatOffset (offset : Option ℤ) : PyText :=
  match offset with
  | none => []
  | some o =>
    let s := o.natAbs / 1000000
    let micro := o.natAbs % 1000000
    (if o < 0 then 45 else 43) :: digits 2 (s / 3600) ++ 58 :: digits 2 (s / 60 % 60) ++
      (if s % 60 = 0 ∧ micro = 0 then [] else 58 :: digits 2 (s % 60)) ++
      (if micro = 0 then [] else 46 :: digits 6 micro)

/-- `datetime.isoformat`. -/
def isoformat (d : DateTime) : PyText :=
  digits 4 d.year ++ 45 :: digits 2 d.month ++ 45 :: digits 2 d.day ++
    84 :: (digits 2 d.hour ++ 58 :: digits 2 d.minute ++ 58 :: digits 2 d.second ++
      (if d.microsecond = 0 then [] else 46 :: digits 6 d.microsecond) ++ formatOffset d.offset)

/-! ## Reading -/

/-- A decimal digit. -/
def isDigit (c : ℕ) : Bool := 48 ≤ c ∧ c ≤ 57

/-- The first digits of a text, as many as are asked for, and what follows them. -/
def takeDigits (width : ℕ) (text : PyText) : Option (ℕ × PyText) :=
  if (text.take width).length = width ∧ (text.take width).all isDigit then
    some ((text.take width).foldl (fun n c => n * 10 + (c - 48)) 0, text.drop width)
  else none

/-- `_find_isoformat_datetime_separator`. -/
def findSeparator (text : PyText) : Option ℕ :=
  let length := text.length
  if length = 7 then some 7
  else if text[4]? = some 45 then
    if text[5]? = some 87 then
      if length < 8 then none
      else if 8 < length ∧ text[8]? = some 45 then
        if length = 9 then none
        else if 10 < length ∧ (text[10]?).any isDigit then some 8
        else some 10
      else some 8
    else some 10
  else if text[4]? = some 87 then
    let i := 7 + ((text.drop 7).takeWhile isDigit).length
    if i < 9 then some i
    else if i % 2 = 0 then some 7
    else some 8
  else some 8

/-- `_isoweek_to_gregorian`. -/
def isoweekToGregorian (year week day : ℕ) : Option (ℕ × ℕ × ℕ) :=
  if ¬(1 ≤ year ∧ year ≤ 9999) then none
  else
    let first := ordinal year 1 1
    let long := first % 7 = 4 ∨ first % 7 = 3 ∧ isLeap year = true
    if ¬(0 < week ∧ week < 53 ∨ week = 53 ∧ long) ∨ ¬(0 < day ∧ day < 8) then none
    else
      -- The Monday of the first week: the week with the year's first Thursday.
      let weekday := (first + 6) % 7
      let monday := if 3 < weekday then first + 7 - weekday else first - weekday
      let n := monday + (week - 1) * 7 + (day - 1)
      let year := if n < first then year - 1
        else if n < ordinal (year + 1) 1 1 then year else year + 1
      let month := ((List.range 12).filter fun m => ordinal year (m + 1) 1 ≤ n).length
      some (year, month, n + 1 - ordinal year month 1)

/-- `_parse_isoformat_date`. -/
def parseDate (text : PyText) : Option (ℕ × ℕ × ℕ) := do
  let (year, text) ← takeDigits 4 text
  let dash := decide (text.head? = some 45)
  let text := if dash then text.drop 1 else text
  if text.head? = some 87 then
    let (week, text) ← takeDigits 2 (text.drop 1)
    if text = [] then isoweekToGregorian year week 1
    else if decide (text.head? = some 45) ≠ dash then none
    else
      let (day, text) ← takeDigits 1 (if dash then text.drop 1 else text)
      if text = [] then isoweekToGregorian year week day else none
  else
    let (month, text) ← takeDigits 2 text
    if decide (text.head? = some 45) ≠ dash then none
    else
      let (day, text) ← takeDigits 2 (if dash then text.drop 1 else text)
      if text = [] then some (year, month, day) else none

/-- The next two digits, after a colon where colons separate them. -/
def component (colon : Bool) (text : PyText) : Option (ℕ × PyText) :=
  if colon then
    match text with
    | 58 :: text => takeDigits 2 text
    | _ => none
  else takeDigits 2 text

/-- The fraction of a second in microseconds; more than six digits are cut. -/
def parseFraction (text : PyText) : Option ℕ :=
  match text with
  | [] => some 0
  | c :: text =>
    if (c = 46 ∨ c = 44) ∧ text ≠ [] ∧ text.all isDigit then
      some ((text.take 6).foldl (fun n c => n * 10 + (c - 48)) 0 * 10 ^ (6 - text.length))
    else none

/-- `_parse_hh_mm_ss_ff`. -/
def parseClock (text : PyText) : Option (ℕ × ℕ × ℕ × ℕ) := do
  let (hour, text) ← takeDigits 2 text
  if text = [] then return (hour, 0, 0, 0)
  let colon := decide (text.head? = some 58)
  let (minute, text) ← component colon text
  if text = [] then return (hour, minute, 0, 0)
  let (second, text) ← component colon text
  let microsecond ← parseFraction text
  return (hour, minute, second, microsecond)

/-- `_parse_isoformat_time`. -/
def parseTime (text : PyText) : Option ((ℕ × ℕ × ℕ × ℕ) × Option ℤ) := do
  let clock ← parseClock (text.takeWhile fun c => c ≠ 43 ∧ c ≠ 45 ∧ c ≠ 90)
  match text.dropWhile fun c => c ≠ 43 ∧ c ≠ 45 ∧ c ≠ 90 with
  | [] => some (clock, none)
  | sign :: text =>
    if sign = 90 then if text = [] then some (clock, some 0) else none
    else
      let (hour, minute, second, microsecond) ← parseClock text
      let offset : ℤ := ((hour * 60 + minute) * 60 + second : ℕ) * 1000000 + microsecond
      some (clock, some (if sign = 45 then -offset else offset))

/-- The datetime of the fields, when they are those of one. -/
def ofFields (date : ℕ × ℕ × ℕ) (clock : ℕ × ℕ × ℕ × ℕ) (offset : Option ℤ) : Option DateTime :=
  if h : validFields date.1 date.2.1 date.2.2 clock.1 clock.2.1 clock.2.2.1
    clock.2.2.2 offset = true
  then some ⟨date.1, date.2.1, date.2.2, clock.1, clock.2.1, clock.2.2.1, clock.2.2.2, offset, h⟩
  else none

/-- `datetime.fromisoformat`. -/
def fromisoformat (text : PyText) : Option DateTime := do
  if text.length < 7 then none
  let i ← findSeparator text
  let date ← parseDate (text.take i)
  -- One sign separates the date and the time.
  let (clock, offset) ← if 1 < text.length - i then parseTime (text.drop (i + 1)) else
    some ((0, 0, 0, 0), none)
  ofFields date clock offset

/-! ## Reading what was written -/

/-- Digits are padded to their width. -/
theorem length_digits (width n : ℕ) : (digits width n).length = width := by
  induction width with
  | zero => rfl
  | succ width ih => simp [digits, ih]

/-- They are decimal digits. -/
theorem isDigit_digits {width n c : ℕ} (h : c ∈ digits width n) : isDigit c = true := by
  induction width with
  | zero => simp [digits] at h
  | succ width ih =>
    rw [digits] at h
    rcases List.mem_cons.mp h with rfl | h
    · simp [isDigit]
      omega
    · exact ih h

/-- Reading digits goes on from the number read so far. -/
theorem foldl_digits (width n a : ℕ) :
    (digits width n).foldl (fun n c => n * 10 + (c - 48)) a = a * 10 ^ width + n % 10 ^ width := by
  induction width generalizing a with
  | zero => simp [digits, Nat.mod_one]
  | succ width ih =>
    have hsplit : n % 10 ^ (width + 1) = n / 10 ^ width % 10 * 10 ^ width + n % 10 ^ width := by
      rw [pow_succ, Nat.mod_mul]
      ring
    rw [digits, List.foldl_cons, ih, hsplit, Nat.add_sub_cancel_left]
    ring

/-- A number with enough digits is read back. -/
theorem takeDigits_digits {width n : ℕ} (h : n < 10 ^ width) (rest : PyText) :
    takeDigits width (digits width n ++ rest) = some (n, rest) := by
  have htake : (digits width n ++ rest).take width = digits width n :=
    List.take_left' (length_digits width n)
  have hdrop : (digits width n ++ rest).drop width = rest := List.drop_left' (length_digits width n)
  have hall : (digits width n).all isDigit = true :=
    List.all_eq_true.mpr fun c hc => isDigit_digits hc
  unfold takeDigits
  rw [htake, hdrop, if_pos ⟨length_digits width n, hall⟩, foldl_digits, Nat.mod_eq_of_lt h]
  simp

/-- A fraction of six digits is read back. -/
theorem parseFraction_digits {micro : ℕ} (h : micro < 1000000) :
    parseFraction (if micro = 0 then [] else 46 :: digits 6 micro) = some micro := by
  split_ifs with hzero
  · exact congrArg some hzero.symm
  · have hlength := length_digits 6 micro
    have hne : digits 6 micro ≠ [] := by
      intro hnil
      rw [hnil] at hlength
      exact absurd hlength (by decide)
    have hall : (digits 6 micro).all isDigit = true :=
      List.all_eq_true.mpr fun c hc => isDigit_digits hc
    unfold parseFraction
    dsimp only
    rw [if_pos ⟨Or.inl rfl, hne, hall⟩, List.take_of_length_le hlength.le, foldl_digits, hlength,
      Nat.mod_eq_of_lt (show micro < 10 ^ 6 by omega)]
    simp

/-- Two digits are read back. -/
theorem takeDigits_two {n : ℕ} (h : n < 100) (rest : PyText) :
    takeDigits 2 (digits 2 n ++ rest) = some (n, rest) :=
  takeDigits_digits (show n < 10 ^ 2 by omega) rest

/-- Hours and minutes. -/
def minuteText (hour minute : ℕ) : PyText := digits 2 hour ++ 58 :: digits 2 minute

/-- Hours, minutes, seconds and what there is of a fraction. -/
def clockText (hour minute second micro : ℕ) : PyText :=
  minuteText hour minute ++ 58 :: digits 2 second ++
    (if micro = 0 then [] else 46 :: digits 6 micro)

/-- A clock of hours and minutes is read back. -/
theorem parseClock_minuteText {hour minute : ℕ} (hhour : hour < 100) (hminute : minute < 100) :
    parseClock (minuteText hour minute) = some (hour, minute, 0, 0) := by
  have hrest : takeDigits 2 (digits 2 minute) = some (minute, []) := by
    have h := takeDigits_two hminute []
    rwa [List.append_nil] at h
  unfold parseClock minuteText
  rw [takeDigits_two hhour]
  simp [component, hrest]

/-- A full clock is read back. -/
theorem parseClock_clockText {hour minute second micro : ℕ} (hhour : hour < 100)
    (hminute : minute < 100) (hsecond : second < 100) (hmicro : micro < 1000000) :
    parseClock (clockText hour minute second micro) = some (hour, minute, second, micro) := by
  have hshape : clockText hour minute second micro = digits 2 hour ++ (58 :: (digits 2 minute ++
      (58 :: (digits 2 second ++ if micro = 0 then [] else 46 :: digits 6 micro)))) := by
    simp [clockText, minuteText]
  unfold parseClock
  rw [hshape, takeDigits_two hhour]
  simp [component, takeDigits_two hminute, takeDigits_two hsecond, parseFraction_digits hmicro]

/-- A clock has no sign in it. -/
theorem clockText_no_sign {hour minute second micro c : ℕ}
    (h : c ∈ clockText hour minute second micro) : c ≠ 43 ∧ c ≠ 45 ∧ c ≠ 90 := by
  have hdigit : ∀ {width n}, c ∈ digits width n → c ≠ 43 ∧ c ≠ 45 ∧ c ≠ 90 := by
    intro width n hc
    have hd := isDigit_digits hc
    simp only [isDigit, decide_eq_true_eq] at hd
    omega
  have hcolon : c = 58 → c ≠ 43 ∧ c ≠ 45 ∧ c ≠ 90 := by omega
  simp only [clockText, minuteText, List.append_assoc, List.mem_append, List.mem_cons] at h
  rcases h with h | (h | h) | (h | h) | h
  · exact hdigit h
  · exact hcolon h
  · exact hdigit h
  · exact hcolon h
  · exact hdigit h
  · split_ifs at h
    · simp at h
    · rcases List.mem_cons.mp h with h | h
      · omega
      · exact hdigit h

/-- A text without signs before one that starts with a sign, or before nothing, is split there. -/
theorem split_sign {text rest : PyText} (htext : ∀ c ∈ text, c ≠ 43 ∧ c ≠ 45 ∧ c ≠ 90)
    (hrest : ∀ c ∈ rest.head?, c = 43 ∨ c = 45) :
    ((text ++ rest).takeWhile fun c => c ≠ 43 ∧ c ≠ 45 ∧ c ≠ 90) = text ∧
      ((text ++ rest).dropWhile fun c => c ≠ 43 ∧ c ≠ 45 ∧ c ≠ 90) = rest := by
  have hall : ∀ c ∈ text, decide (c ≠ 43 ∧ c ≠ 45 ∧ c ≠ 90) = true := by
    intro c hc
    exact decide_eq_true (htext c hc)
  rw [List.takeWhile_append_of_pos hall, List.dropWhile_append_of_pos hall]
  cases rest with
  | nil => simp
  | cons c rest =>
    have hc := hrest c rfl
    have hsign : decide (c ≠ 43 ∧ c ≠ 45 ∧ c ≠ 90) = false := by
      simp
      omega
    rw [List.takeWhile_cons_of_neg (by rw [hsign]; exact Bool.false_ne_true),
      List.dropWhile_cons_of_neg (by rw [hsign]; exact Bool.false_ne_true), List.append_nil]
    exact ⟨rfl, rfl⟩

/-- A clock is read back with the offset that follows it. -/
theorem parseTime_isoformat {hour minute second micro : ℕ} {offset : Option ℤ} (hhour : hour < 100)
    (hminute : minute < 100) (hsecond : second < 100) (hmicro : micro < 1000000)
    (hoffset : ∀ o ∈ offset, o.natAbs < 86400000000) :
    parseTime (clockText hour minute second micro ++ formatOffset offset) =
      some ((hour, minute, second, micro), offset) := by
  have hstart : ∀ c ∈ (formatOffset offset).head?, c = 43 ∨ c = 45 := by
    intro c hc
    cases offset with
    | none => cases hc
    | some o =>
      obtain rfl : (if o < 0 then 45 else 43) = c := Option.some.inj hc
      by_cases ho : o < 0 <;> simp [ho]
  obtain ⟨htake, hdrop⟩ := split_sign (fun c hc => clockText_no_sign hc) hstart
  unfold parseTime
  rw [htake, hdrop, parseClock_clockText hhour hminute hsecond hmicro]
  cases offset with
  | none => rfl
  | some o =>
    have ho := hoffset o rfl
    set total := o.natAbs / 1000000 with htotal
    set part := o.natAbs % 1000000 with hpart
    have hclock : parseClock (minuteText (total / 3600) (total / 60 % 60) ++
        ((if total % 60 = 0 ∧ part = 0 then [] else 58 :: digits 2 (total % 60)) ++
        (if part = 0 then [] else 46 :: digits 6 part))) =
        some (total / 3600, total / 60 % 60, total % 60, part) := by
      by_cases hzero : total % 60 = 0 ∧ part = 0
      · -- The offset ends with its minutes.
        rw [if_pos hzero, if_pos hzero.2, List.append_nil, List.append_nil,
          parseClock_minuteText (by omega) (by omega), hzero.1, hzero.2]
      · rw [if_neg hzero, ← List.append_assoc]
        exact parseClock_clockText (by omega) (by omega) (by omega) (by omega)
    have htext : formatOffset (some o) = (if o < 0 then 45 else 43) ::
        (minuteText (total / 3600) (total / 60 % 60) ++
        ((if total % 60 = 0 ∧ part = 0 then [] else 58 :: digits 2 (total % 60)) ++
        (if part = 0 then [] else 46 :: digits 6 part))) := by
      simp [formatOffset, minuteText, htotal, hpart]
    have hvalue : (((total / 3600 * 60 + total / 60 % 60) * 60 + total % 60 : ℕ) : ℤ) * 1000000 +
        part = |o| := by
      rw [Int.abs_eq_natAbs]
      omega
    rw [htext]
    simp only [Option.bind_eq_bind, Option.bind_some, hclock, hvalue]
    by_cases hneg : o < 0
    · simp [hneg, abs_of_neg hneg]
    · simp [hneg, abs_of_nonneg (not_lt.mp hneg)]

/-- The text of a datetime is ASCII. -/
theorem isoformat_ascii (d : DateTime) : ∀ c ∈ d.isoformat, c ≤ 126 := by
  have hdigits : ∀ width n, ∀ c ∈ digits width n, c ≤ 126 := by
    intro width n c hc
    have h := isDigit_digits hc
    simp only [isDigit, decide_eq_true_eq] at h
    omega
  have hpart : ∀ (p : Prop) [Decidable p] (sign width n : ℕ), sign ≤ 126 →
      ∀ c ∈ (if p then [] else sign :: digits width n), c ≤ 126 := by
    intro p _ sign width n hsign
    split_ifs
    · simp
    · exact List.forall_mem_cons.mpr ⟨hsign, hdigits width n⟩
  have hoffset : ∀ c ∈ formatOffset d.offset, c ≤ 126 := by
    unfold formatOffset
    split
    · simp
    · have hsign : ∀ o : ℤ, (if o < 0 then 45 else 43) ≤ 126 := by
        intro o
        split_ifs <;> decide
      simp only [List.cons_append, List.forall_mem_append, List.forall_mem_cons]
      exact ⟨hsign _, ⟨⟨hdigits _ _, by decide, hdigits _ _⟩, hpart _ _ _ _ (by decide)⟩,
        hpart _ _ _ _ (by decide)⟩
  unfold isoformat
  simp only [List.forall_mem_append, List.forall_mem_cons]
  exact ⟨⟨⟨hdigits _ _, by decide, hdigits _ _⟩, by decide, hdigits _ _⟩, by decide,
    ⟨⟨⟨⟨hdigits _ _, by decide, hdigits _ _⟩, by decide, hdigits _ _⟩, hpart _ _ _ _ (by decide)⟩,
    hoffset⟩⟩

/-- Every datetime is read back from its text. -/
theorem fromisoformat_isoformat (d : DateTime) : fromisoformat (isoformat d) = some d := by
  have hvalid := d.valid
  simp only [validFields, decide_eq_true_eq] at hvalid
  obtain ⟨hy, hy', hm, hm', hday, hday', hh, hmin, hs, hmicro, hoffset⟩ := hvalid
  have hday100 : d.day < 100 := by
    refine hday'.trans_lt ?_
    unfold daysInMonth
    split_ifs <;> omega
  have hdate : (digits 4 d.year ++ 45 :: digits 2 d.month ++ 45 :: digits 2 d.day).length = 10 := by
    simp [length_digits]
  -- The text is a date of ten characters, a `T` and a clock.
  have hshape : isoformat d = (digits 4 d.year ++ 45 :: digits 2 d.month ++ 45 :: digits 2 d.day) ++
      84 :: (clockText d.hour d.minute d.second d.microsecond ++ formatOffset d.offset) := by
    simp [isoformat, clockText, minuteText]
  have hlength : 18 < (isoformat d).length := by
    rw [hshape, List.length_append, hdate]
    simp only [clockText, minuteText, List.length_append, List.length_cons, length_digits]
    omega
  -- The separator comes after ten characters, because the text is no week date.
  have hseparator : findSeparator (isoformat d) = some 10 := by
    have h4 : (isoformat d)[4]? = some 45 := rfl
    have h5 : (isoformat d)[5]? = some (48 + d.month / 10 ^ 1 % 10) := rfl
    have h87 : (isoformat d)[5]? ≠ some 87 := by
      rw [h5]
      intro h
      have := Option.some.inj h
      omega
    unfold findSeparator
    dsimp only
    rw [if_neg (by omega), if_pos h4, if_neg h87]
  have htake : (isoformat d).take 10 =
      digits 4 d.year ++ 45 :: digits 2 d.month ++ 45 :: digits 2 d.day := by
    rw [hshape]
    exact List.take_left' hdate
  have hdrop : (isoformat d).drop 11 =
      clockText d.hour d.minute d.second d.microsecond ++ formatOffset d.offset := by
    rw [hshape, ← List.drop_drop (i := 1) (j := 10), List.drop_left' hdate]
    rfl
  -- The date is read back.
  have hparse : parseDate (digits 4 d.year ++ 45 :: digits 2 d.month ++ 45 :: digits 2 d.day) =
      some (d.year, d.month, d.day) := by
    have hyear : takeDigits 4 (digits 4 d.year ++
        (45 :: (digits 2 d.month ++ (45 :: digits 2 d.day)))) =
        some (d.year, 45 :: (digits 2 d.month ++ (45 :: digits 2 d.day))) :=
      takeDigits_digits (show d.year < 10 ^ 4 by omega) _
    have hmonth := takeDigits_two (show d.month < 100 by omega) (45 :: digits 2 d.day)
    have hend : takeDigits 2 (digits 2 d.day) = some (d.day, []) := by
      have h := takeDigits_two hday100 []
      rwa [List.append_nil] at h
    have hweek : (digits 2 d.month ++ (45 :: digits 2 d.day)).head? ≠ some 87 := by
      intro h
      have := Option.some.inj (show some (48 + d.month / 10 ^ 1 % 10) = some 87 from h)
      omega
    unfold parseDate
    rw [List.append_assoc, List.cons_append, hyear]
    simp only [Option.bind_eq_bind, Option.bind_some, List.head?_cons, decide_true, if_true,
      List.drop_succ_cons, List.drop_zero, if_neg hweek, hmonth, hend, ne_eq, not_true_eq_false,
      if_false]
  have htime : parseTime (clockText d.hour d.minute d.second d.microsecond ++
      formatOffset d.offset) = some ((d.hour, d.minute, d.second, d.microsecond), d.offset) :=
    parseTime_isoformat (by omega) (by omega) (by omega) hmicro hoffset
  -- With the clock, the fields are those of the datetime.
  unfold fromisoformat
  rw [if_neg (by omega), hseparator]
  simp only [Option.bind_eq_bind, Option.bind_some, htake, hparse, hdrop]
  rw [if_pos (by omega), htime]
  exact dif_pos d.valid

end DateTime

end ExAgent.Lib
