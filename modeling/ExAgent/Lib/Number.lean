import ExAgent.Lib.Binary64
import Mathlib.Data.List.Count
import Mathlib.Data.Nat.Log

/-!
# Numbers of JSON through a decimal store

A program has integers and binary floats. It prints a float by its shortest decimal, in exponent
form when the point would stand far from the digits. A database reads every literal as an exact
decimal with a scale, which has no negative zero, and prints it without an exponent. The program
reads a literal back as an integer when it has neither a point nor an exponent, and as the nearest
float otherwise.

A number survives this (`reload_eq`) unless it is a float that is a negative zero or at least
`10^16` in magnitude. The text of such a float has a sign that the text of what is read back has not
(`signs_reload_lt`).
-/

namespace ExAgent.Lib

/-! ## Number literals -/

/-- A number literal: the digits of the coefficient, with a point before the last `scale` of them
when there are any, and an exponent. -/
structure Literal where
  negative : Bool
  coefficient : ℕ
  scale : ℕ
  exponent : Option ℤ
deriving DecidableEq

/-- Decimal digits, filled up with zeros on the left. -/
def padded (width n : ℕ) : List Char :=
  let digits := Nat.toDigits 10 n
  List.replicate (width - digits.length) '0' ++ digits

namespace Literal

/-- The text of a literal; an exponent has a sign and at least two digits. -/
def text (l : Literal) : List Char :=
  (if l.negative then ['-'] else []) ++ Nat.toDigits 10 (l.coefficient / 10 ^ l.scale) ++
    (if l.scale = 0 then [] else '.' :: padded l.scale (l.coefficient % 10 ^ l.scale)) ++
    match l.exponent with
    | none => []
    | some e => 'e' :: (if e < 0 then '-' else '+') :: padded 2 e.natAbs

/-- The magnitude of a literal. -/
def magnitude (l : Literal) : ℚ := l.coefficient * 10 ^ (l.exponent.getD 0 - l.scale)

end Literal

/-- How many signs a text has. -/
def signs (text : List Char) : ℕ := text.countP fun c => c = '+' ∨ c = '-'

/-- The empty text has no sign. -/
@[simp] theorem signs_nil : signs [] = 0 := rfl

/-- The signs of two texts add up. -/
@[simp] theorem signs_append (a b : List Char) : signs (a ++ b) = signs a + signs b :=
  List.countP_append

/-- A sign counts for one. -/
@[simp] theorem signs_cons (c : Char) (text : List Char) :
    signs (c :: text) = signs text + if c = '+' ∨ c = '-' then 1 else 0 := by
  simp [signs, List.countP_cons]

/-- Digits are not signs. -/
@[simp] theorem signs_toDigits (n : ℕ) : signs (Nat.toDigits 10 n) = 0 := by
  unfold signs
  rw [List.countP_eq_zero]
  intro c hc
  have hdigit := Nat.isDigit_of_mem_toDigits (by omega) (by omega) hc
  simp only [decide_eq_true_eq]
  rintro (rfl | rfl) <;> exact absurd hdigit (by decide)

/-- Padded digits have no sign. -/
@[simp] theorem signs_padded (width n : ℕ) : signs (padded width n) = 0 := by
  unfold padded
  have hzeros : signs (List.replicate (width - (Nat.toDigits 10 n).length) '0') = 0 := by
    unfold signs
    simp [List.countP_replicate]
  simp [hzeros]

/-- A literal has a sign before a negative number and one before an exponent. -/
theorem Literal.signs_text (l : Literal) :
    signs l.text = l.negative.toNat + l.exponent.isSome.toNat := by
  unfold Literal.text
  have hminus : signs (if l.negative then ['-'] else []) = l.negative.toNat := by
    cases l.negative <;> simp
  have hpoint : signs (if l.scale = 0 then []
      else '.' :: padded l.scale (l.coefficient % 10 ^ l.scale)) = 0 := by
    split <;> simp
  rw [signs_append, signs_append, signs_append, hminus, hpoint, signs_toDigits]
  cases l.exponent with
  | none => simp
  | some e =>
    by_cases he : e < 0
    · simp [he]
    · simp [he]

/-! ## Decimals of the database -/

/-- A number as the database keeps it: an exact decimal with the digits after the point it was
written with. Zero has no sign. -/
structure Numeric where
  negative : Bool
  coefficient : ℕ
  scale : ℕ
  unsigned_zero : coefficient = 0 → negative = false

/-- Reading a literal: an exponent moves the point. -/
def Numeric.ofLiteral (l : Literal) : Numeric where
  negative := l.negative && l.coefficient != 0
  coefficient := l.coefficient * 10 ^ (l.exponent.getD 0 - l.scale).toNat
  scale := (l.scale - l.exponent.getD 0).toNat
  unsigned_zero h := by
    have hpow : 10 ^ (l.exponent.getD 0 - l.scale).toNat ≠ 0 := by positivity
    have hzero : l.coefficient = 0 := (Nat.mul_eq_zero.mp h).resolve_right hpow
    simp [hzero]

/-- Printing without an exponent. -/
def Numeric.literal (n : Numeric) : Literal := ⟨n.negative, n.coefficient, n.scale, none⟩

/-! ## Numbers of the program -/

/-- The literal a float is printed by: in exponent form when its point stands more than sixteen
digits after the start of the decimal or more than three before it. -/
def Binary64.literal (x : Binary64) : Literal :=
  let d := x.digits
  let point : ℤ := Nat.log 10 d.coefficient + 1 + d.power
  if point ≤ -4 ∨ 16 < point then
    ⟨x.negative, d.coefficient, Nat.log 10 d.coefficient, some (point - 1)⟩
  else if 0 ≤ d.power then ⟨x.negative, d.coefficient * 10 ^ (d.power.toNat + 1), 1, none⟩
  else ⟨x.negative, d.coefficient, (-d.power).toNat, none⟩

/-- Positive zero. -/
def Binary64.zero : Binary64 := ⟨false, 0, 0, by decide⟩

/-- A number: an integer of any size or a finite float. -/
inductive Number
  | int (n : ℤ)
  | float (x : Binary64)
deriving DecidableEq

namespace Number

/-- The value of a number. -/
def value : Number → ℚ
  | .int n => n
  | .float x => if x.negative then -x.magnitude else x.magnitude

/-- The literal a number is printed by. -/
def literal : Number → Literal
  | .int n => ⟨decide (n < 0), n.natAbs, 0, none⟩
  | .float x => x.literal

/-- Reading a literal: an integer when it has neither a point nor an exponent, else the nearest
float. A literal beyond the largest float would read as an infinity; no number is stored as one. -/
def ofLiteral (l : Literal) : Number :=
  if l.scale = 0 ∧ l.exponent = none then
    .int (if l.negative then -l.coefficient else l.coefficient)
  else .float ((Binary64.round l.negative l.magnitude).getD Binary64.zero)

/-- The number that is read back from the database. -/
def reload (n : Number) : Number := ofLiteral (Numeric.ofLiteral n.literal).literal

/-- The numbers that survive the database. -/
def survives : Number → Bool
  | .int _ => true
  | .float x => !(x.negative && x.mantissa == 0) && decide (x.magnitude < 10 ^ 16)

end Number

/-! ## Which numbers survive -/

/-- The database keeps the value of a literal. -/
theorem Numeric.magnitude_literal (l : Literal) :
    (Numeric.ofLiteral l).literal.magnitude = l.magnitude := by
  unfold Literal.magnitude Numeric.literal Numeric.ofLiteral
  dsimp only
  generalize l.exponent.getD 0 = e
  push_cast
  rw [mul_assoc, ← zpow_natCast, ← zpow_add₀ (by norm_num)]
  congr 2
  simp only [Option.getD_none]
  omega

namespace Binary64

/-- The magnitude of a float is zero exactly when its mantissa is. -/
theorem magnitude_eq_zero_iff (x : Binary64) : x.magnitude = 0 ↔ x.mantissa = 0 := by
  simp [magnitude, units]

/-- Zero is printed by the digit zero. -/
theorem digits_zero {x : Binary64} (hx : x.magnitude = 0) : x.digits = ⟨0, 0⟩ := by
  have hexp : x.decimalExponent = 0 := by simp [decimalExponent, hx]
  have hnear : nearestEven (x.scaled 0) = 0 := by
    rw [show x.scaled 0 = 0 by simp [scaled, hx]]
    decide +kernel
  have hround : round x.negative (((0 : ℕ) : ℚ) * 10 ^ (0 - ((0 : ℕ) : ℤ))) = some x := by
    have := x.round_magnitude
    rwa [hx, show (0 : ℚ) = ((0 : ℕ) : ℚ) * 10 ^ (0 - ((0 : ℕ) : ℤ)) by simp] at this
  have hfirst : x.candidate 0 = some ⟨0, 0⟩ := by
    unfold candidate
    dsimp only
    rw [hexp, hnear, if_pos hround]
    rfl
  unfold digits
  rw [List.range_succ_eq_map, List.findSome?_cons, hfirst]
  rfl

/-- Only zero is printed by a zero coefficient. -/
theorem coefficient_digits_eq_zero_iff (x : Binary64) :
    x.digits.coefficient = 0 ↔ x.magnitude = 0 := by
  constructor
  · intro h
    by_contra hx
    have hle := x.digits_prints.le_value hx
    have hzero : x.digits.value = 0 := by simp [Decimal.value, h]
    rw [hzero] at hle
    exact absurd hle (not_le.mpr (by positivity))
  · intro h
    rw [digits_zero h]

/-- Where the point of the printed decimal stands. -/
def point (x : Binary64) : ℤ := Nat.log 10 x.digits.coefficient + 1 + x.digits.power

/-- The number `10^16`. -/
def tenPowSixteen : Binary64 := ⟨false, 5000000000000000, 1075, by decide⟩

/-- The bound at which `repr` starts to write an exponent is 10 ^ 16. -/
theorem magnitude_tenPowSixteen : tenPowSixteen.magnitude = 10 ^ (16 : ℤ) := by
  have h : tenPowSixteen.units = 10 ^ 16 * 2 ^ 1074 := by decide +kernel
  unfold magnitude
  rw [h, Nat.cast_mul, Nat.cast_pow 2, mul_div_assoc, Nat.cast_two, div_self (by positivity),
    mul_one]
  norm_cast

/-- The point stands more than sixteen digits after the start from `10^16` on. -/
theorem sixteen_lt_point_iff (x : Binary64) : 16 < x.point ↔ 10 ^ 16 ≤ x.magnitude := by
  have hbase : (1 : ℚ) < 10 := by norm_num
  have hten : (10 : ℚ) ^ 16 ≤ x.magnitude ↔ (10 : ℚ) ^ (16 : ℤ) ≤ x.digits.value := by
    rw [le_value_digits_iff magnitude_tenPowSixteen]
    norm_cast
  rw [hten]
  by_cases hx : x.magnitude = 0
  · simp only [point, digits_zero hx, Decimal.value]
    norm_num
  · have hc : x.digits.coefficient ≠ 0 := fun h => hx ((coefficient_digits_eq_zero_iff x).mp h)
    have hlow : (10 : ℚ) ^ (x.point - 1) ≤ x.digits.value := by
      have hle : (10 : ℚ) ^ Nat.log 10 x.digits.coefficient ≤ x.digits.coefficient := by
        exact_mod_cast Nat.pow_log_le_self 10 hc
      calc (10 : ℚ) ^ (x.point - 1)
          = 10 ^ Nat.log 10 x.digits.coefficient * 10 ^ x.digits.power := by
            rw [← zpow_natCast, ← zpow_add₀ (by norm_num)]
            congr 1
            unfold point
            ring
        _ ≤ x.digits.coefficient * 10 ^ x.digits.power :=
            mul_le_mul_of_nonneg_right hle (by positivity)
    have hhigh : x.digits.value < (10 : ℚ) ^ x.point := by
      have hlt : (x.digits.coefficient : ℚ) < 10 ^ (Nat.log 10 x.digits.coefficient + 1) := by
        exact_mod_cast Nat.lt_pow_succ_log_self (by omega) x.digits.coefficient
      calc (x.digits.coefficient : ℚ) * 10 ^ x.digits.power
          < 10 ^ (Nat.log 10 x.digits.coefficient + 1) * 10 ^ x.digits.power :=
            mul_lt_mul_of_pos_right hlt (by positivity)
        _ = 10 ^ x.point := by
            rw [← zpow_natCast, ← zpow_add₀ (by norm_num)]
            congr 1
    constructor
    · intro h
      exact le_trans (zpow_le_zpow_right₀ hbase.le (by omega)) hlow
    · intro h
      exact (zpow_lt_zpow_iff_right₀ hbase).mp (lt_of_le_of_lt h hhigh)

/-- The literal of a float has its sign. -/
@[simp] theorem negative_literal (x : Binary64) : x.literal.negative = x.negative := by
  unfold literal
  dsimp only
  split_ifs <;> rfl

/-- A float is printed by a literal of its decimal's value. -/
theorem magnitude_literal (x : Binary64) : x.literal.magnitude = x.digits.value := by
  unfold literal Literal.magnitude Decimal.value
  dsimp only
  split_ifs with hexp hpower
  · dsimp only [Option.getD_some]
    congr 2
    ring
  · dsimp only [Option.getD_none]
    push_cast
    rw [mul_assoc, ← zpow_natCast, ← zpow_add₀ (by norm_num)]
    congr 2
    push_cast
    omega
  · dsimp only [Option.getD_none]
    congr 2
    omega

/-- The literal of a float has an exponent where its point stands far from the digits. -/
theorem exponent_literal (x : Binary64) :
    x.literal.exponent.isSome = decide (x.point ≤ -4 ∨ 16 < x.point) := by
  unfold literal
  dsimp only
  change (if x.point ≤ -4 ∨ 16 < x.point then _ else _ : Literal).exponent.isSome = _
  by_cases hexp : x.point ≤ -4 ∨ 16 < x.point
  · rw [if_pos hexp, decide_eq_true hexp]
    rfl
  · rw [if_neg hexp, decide_eq_false hexp]
    split_ifs <;> rfl

/-- The database has digits after the point for a float below `10^16`, and none from there on. -/
theorem scale_ofLiteral_eq_zero_iff (x : Binary64) :
    (Numeric.ofLiteral x.literal).scale = 0 ↔ 10 ^ 16 ≤ x.magnitude := by
  rw [← sixteen_lt_point_iff]
  have hlog : Nat.log 10 x.digits.coefficient < 17 := by
    by_cases hc : x.digits.coefficient = 0
    · simp [hc]
    · exact Nat.log_lt_of_lt_pow hc x.digits_prints.coefficient_lt
  have hpoint : x.point = Nat.log 10 x.digits.coefficient + 1 + x.digits.power := rfl
  unfold Numeric.ofLiteral literal
  dsimp only
  rw [← hpoint]
  split_ifs with hexp hpower
  · simp only [Option.getD_some]
    omega
  · simp only [Option.getD_none]
    omega
  · simp only [Option.getD_none]
    omega

/-- Only zero is printed by a literal with a zero coefficient. -/
theorem coefficient_literal_eq_zero_iff (x : Binary64) :
    x.literal.coefficient = 0 ↔ x.magnitude = 0 := by
  rw [← coefficient_digits_eq_zero_iff]
  unfold literal
  dsimp only
  split_ifs <;> simp

end Binary64

namespace Number

/-- What is read back for a float below `10^16`: it keeps its value, and its sign unless it is
zero. -/
theorem reload_float {x : Binary64} (hx : x.magnitude < 10 ^ 16) :
    reload (.float x) = .float { x with negative := x.negative && x.mantissa != 0 } := by
  have hscale : (Numeric.ofLiteral x.literal).scale ≠ 0 := fun h =>
    absurd ((Binary64.scale_ofLiteral_eq_zero_iff x).mp h) (not_le.mpr hx)
  have hnegative : (Numeric.ofLiteral x.literal).negative = (x.negative && x.mantissa != 0) := by
    have hiff : x.literal.coefficient = 0 ↔ x.mantissa = 0 :=
      (Binary64.coefficient_literal_eq_zero_iff x).trans x.magnitude_eq_zero_iff
    simp only [Numeric.ofLiteral, Binary64.negative_literal]
    congr 1
    rw [Bool.eq_iff_iff]
    simp [hiff]
  -- The decimal reads back as the float, whose sign the value does not depend on.
  have hround : Binary64.round (x.negative && x.mantissa != 0) x.digits.value =
      some { x with negative := x.negative && x.mantissa != 0 } := by
    by_cases hm : x.mantissa = 0
    · have hzero : x.magnitude = 0 := x.magnitude_eq_zero_iff.mpr hm
      rw [x.digits_prints.value_zero hzero, ← hzero]
      exact Binary64.round_magnitude { x with negative := x.negative && x.mantissa != 0 }
    · have hkeep : (x.negative && x.mantissa != 0) = x.negative := by simp [hm]
      rw [hkeep]
      exact x.digits_prints.round_eq
  unfold reload ofLiteral
  rw [if_neg fun h => hscale h.1, Numeric.magnitude_literal]
  change Number.float ((Binary64.round (Numeric.ofLiteral x.literal).negative
    x.literal.magnitude).getD Binary64.zero) = _
  rw [hnegative, Binary64.magnitude_literal, hround]
  rfl

/-- A float from `10^16` on is read back as an integer. -/
theorem reload_large {x : Binary64} (hx : 10 ^ 16 ≤ x.magnitude) :
    ∃ n : ℤ, reload (.float x) = .int n ∧ decide (n < 0) = x.negative := by
  have hscale := (Binary64.scale_ofLiteral_eq_zero_iff x).mpr hx
  have hpos : x.literal.coefficient ≠ 0 := by
    intro h
    rw [(Binary64.coefficient_literal_eq_zero_iff x).mp h] at hx
    norm_num at hx
  have hnegative : (Numeric.ofLiteral x.literal).negative = x.negative := by
    simp [Numeric.ofLiteral, hpos]
  have hcoefficient : 0 < (Numeric.ofLiteral x.literal).coefficient :=
    Nat.mul_pos (Nat.pos_of_ne_zero hpos) (by positivity)
  unfold reload ofLiteral
  rw [if_pos ⟨hscale, rfl⟩]
  refine ⟨_, rfl, ?_⟩
  change decide ((if (Numeric.ofLiteral x.literal).negative then
    -((Numeric.ofLiteral x.literal).coefficient : ℤ)
    else (Numeric.ofLiteral x.literal).coefficient) < 0) = x.negative
  rw [hnegative]
  cases x.negative
  · simp
  · simp [hcoefficient]

/-- Integers survive. -/
theorem reload_int (n : ℤ) : reload (.int n) = .int n := by
  have hsign : (decide (n < 0) && n.natAbs != 0) = decide (n < 0) := by
    by_cases hn : n < 0
    · have : n.natAbs ≠ 0 := by omega
      simp [hn, this]
    · simp [hn]
  simp only [reload, literal, Numeric.ofLiteral, Numeric.literal, ofLiteral, Option.getD_none,
    Nat.cast_zero, sub_zero, Int.toNat_zero, pow_zero, mul_one, and_self, if_true]
  rw [hsign]
  congr 1
  by_cases hn : n < 0
  · rw [decide_eq_true hn, if_pos rfl]
    omega
  · rw [decide_eq_false hn, if_neg (by simp)]
    omega

/-- A number that survives is read back as itself. -/
theorem reload_eq {n : Number} (h : n.survives) : n.reload = n := by
  cases n with
  | int n => exact reload_int n
  | float x =>
    simp only [survives, Bool.and_eq_true, Bool.not_eq_true', decide_eq_true_eq] at h
    rw [reload_float h.2]
    congr 1
    have hkeep : (x.negative && x.mantissa != 0) = x.negative := by
      cases hn : x.negative
      · rfl
      · simpa [hn] using h.1
    rw [hkeep]

/-- A number that does not survive is read back as one whose text has fewer signs. -/
theorem signs_reload_lt {n : Number} (h : n.survives = false) :
    signs n.reload.literal.text < signs n.literal.text := by
  cases n with
  | int n => exact absurd h (by simp [survives])
  | float x =>
    by_cases hx : x.magnitude < 10 ^ 16
    · -- A negative zero loses its sign.
      obtain ⟨hn, hm⟩ : x.negative = true ∧ x.mantissa = 0 := by
        simpa [survives, hx] using h
      have hexp : ∀ y : Binary64, y.mantissa = 0 → y.literal.exponent.isSome = false := by
        intro y hy
        rw [y.exponent_literal]
        simp [Binary64.point, Binary64.digits_zero (y.magnitude_eq_zero_iff.mpr hy)]
      rw [reload_float hx]
      simp only [literal, Literal.signs_text, Binary64.negative_literal]
      rw [hexp x hm, hexp { x with negative := x.negative && x.mantissa != 0 } hm, hn, hm]
      decide
    · -- A large number loses the sign of its exponent.
      rw [not_lt] at hx
      obtain ⟨n, hreload, hn⟩ := reload_large hx
      have hexp : x.literal.exponent.isSome = true := by
        rw [x.exponent_literal]
        exact decide_eq_true (.inr ((Binary64.sixteen_lt_point_iff x).mpr hx))
      rw [hreload]
      simp only [literal, Literal.signs_text, Binary64.negative_literal]
      rw [hexp, hn]
      simp

end Number

end ExAgent.Lib
