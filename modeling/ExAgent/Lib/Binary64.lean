import Mathlib.Algebra.Order.Field.Power
import Mathlib.Data.Int.Log
import Mathlib.Data.Rat.Floor
import Mathlib.Tactic.Linarith
import Mathlib.Tactic.Positivity
import Mathlib.Tactic.Ring
import Mathlib.Tactic.NormNum
import Mathlib.Tactic.FieldSimp

/-!
# Binary floating-point numbers and their shortest decimals

The finite numbers of IEEE 754 binary64, reading a decimal by rounding to nearest with ties to even,
and printing a number by the shortest decimal that reads back as it. A number is kept in units of
the smallest positive one, `2^-1074`, so that its magnitude is a natural number times `2^-1074` and
rounding is about one power of two.

`digits_spec` is what printing and reading rest on: the decimal of a number has at most seventeen
digits, it reads back as the number, and it has the number's own decimal exponent or is the next
power of ten. The search of `digits` ends because seventeen digits always suffice: the half unit of
the seventeenth digit is smaller than a quarter of the gap below a power of two.
-/

namespace ExAgent.Lib

/-! ## Rounding -/

/-- The nearest integer, and the even one of two that are equally near. -/
def nearestEven (q : ℚ) : ℕ :=
  let n := ⌊q⌋₊
  if q - n < 1 / 2 then n
  else if 1 / 2 < q - n then n + 1
  else if n % 2 = 0 then n else n + 1

/-- An integer that is less than a half away is the nearest one. -/
theorem nearestEven_eq {q : ℚ} {m : ℕ} (hlow : (m : ℚ) - q < 1 / 2) (hhigh : q - m < 1 / 2) :
    nearestEven q = m := by
  unfold nearestEven
  by_cases hm : (m : ℚ) ≤ q
  · have hfloor : ⌊q⌋₊ = m :=
      (Nat.floor_eq_iff (le_trans (Nat.cast_nonneg m) hm)).mpr ⟨hm, by linarith⟩
    rw [hfloor]
    exact if_pos hhigh
  · cases m with
    | zero =>
      have hneg : q ≤ 0 := by
        have := not_le.mp hm
        simp only [Nat.cast_zero] at this
        exact this.le
      rw [Nat.floor_of_nonpos hneg]
      exact if_pos hhigh
    | succ m =>
      rw [not_le] at hm
      push_cast at hlow hm
      have hfloor : ⌊q⌋₊ = m := by
        have hpos : (0 : ℚ) ≤ m := Nat.cast_nonneg m
        exact (Nat.floor_eq_iff (by linarith)).mpr ⟨by linarith, by linarith⟩
      rw [hfloor]
      dsimp only
      rw [if_neg (by linarith), if_pos (by linarith)]

/-- The same for a multiple of a unit. -/
theorem nearestEven_div {u g : ℚ} {m : ℕ} (hg : 0 < g) (hlow : m * g - u < g / 2)
    (hhigh : u - m * g < g / 2) : nearestEven (u / g) = m := by
  have hu : u = u / g * g := (div_mul_cancel₀ u hg.ne').symm
  apply nearestEven_eq
  · by_contra h
    rw [not_lt] at h
    have := mul_le_mul_of_nonneg_right h hg.le
    linarith
  · by_contra h
    rw [not_lt] at h
    have := mul_le_mul_of_nonneg_right h hg.le
    linarith

/-- The nearest integer is the floor or the one above it. -/
theorem nearestEven_cases (q : ℚ) : nearestEven q = ⌊q⌋₊ ∨ nearestEven q = ⌊q⌋₊ + 1 := by
  unfold nearestEven
  dsimp only
  split_ifs
  · exact .inl rfl
  · exact .inr rfl
  · exact .inl rfl
  · exact .inr rfl

/-- The nearest integer is at most a half away. -/
theorem abs_sub_nearestEven_le {q : ℚ} (hq : 0 ≤ q) : |(nearestEven q : ℚ) - q| ≤ 1 / 2 := by
  have hle : (⌊q⌋₊ : ℚ) ≤ q := Nat.floor_le hq
  have hlt : q < ⌊q⌋₊ + 1 := Nat.lt_floor_add_one q
  unfold nearestEven
  dsimp only
  rw [abs_le]
  split_ifs <;> push_cast <;> constructor <;> linarith

/-- A finite number of binary64. -/
structure Binary64 where
  /-- The sign. -/
  negative : Bool
  /-- The significand. -/
  mantissa : ℕ
  /-- The power of two of the significand's unit, counted from that of the smallest number. -/
  exponent : ℕ
  /-- Subnormal numbers have exponent zero; the others have all fifty-three bits. -/
  canonical : mantissa < 2 ^ 53 ∧ (exponent = 0 ∨ 2 ^ 52 ≤ mantissa) ∧ exponent ≤ 2045
deriving DecidableEq

namespace Binary64

/-- The magnitude in units of the smallest positive number. -/
def units (x : Binary64) : ℕ := x.mantissa * 2 ^ x.exponent

/-- The magnitude. -/
def magnitude (x : Binary64) : ℚ := x.units / 2 ^ 1074

/-- The number of a significand and an exponent, when it is finite. -/
def ofParts (negative : Bool) (m e : ℕ) : Option Binary64 :=
  if h : m < 2 ^ 53 ∧ (e = 0 ∨ 2 ^ 52 ≤ m) ∧ e ≤ 2045 then some ⟨negative, m, e, h⟩ else none

/-- The number nearest to a count of units, ties to even; `none` when it overflows. -/
def roundUnits (negative : Bool) (u : ℚ) : Option Binary64 :=
  let e := Nat.log 2 ⌊u⌋₊ - 52
  let m := nearestEven (u / 2 ^ e)
  if m = 2 ^ 53 then ofParts negative (2 ^ 52) (e + 1) else ofParts negative m e

/-- The number nearest to a magnitude. -/
def round (negative : Bool) (q : ℚ) : Option Binary64 := roundUnits negative (q * 2 ^ 1074)

/-- A float is rebuilt from its own parts. -/
theorem ofParts_self (x : Binary64) : ofParts x.negative x.mantissa x.exponent = some x :=
  dif_pos x.canonical

/-- The units of a number lie below the next power of two. -/
theorem units_le (x : Binary64) : (x.units : ℚ) ≤ 2 ^ 53 * 2 ^ x.exponent - 2 ^ x.exponent := by
  have hm : (x.mantissa : ℚ) ≤ 2 ^ 53 - 1 := by
    have := x.canonical.1
    have hle : x.mantissa + 1 ≤ 2 ^ 53 := this
    have hcast : ((x.mantissa + 1 : ℕ) : ℚ) ≤ ((2 ^ 53 : ℕ) : ℚ) := by exact_mod_cast hle
    push_cast at hcast
    linarith
  have hpos : (0 : ℚ) < 2 ^ x.exponent := by positivity
  unfold units
  push_cast
  nlinarith

/-- The binary exponent that rounding finds. -/
theorem log_floor_sub {u : ℚ} {e : ℕ} (hlow : e = 0 ∨ (2 : ℚ) ^ (52 + e) ≤ u)
    (hhigh : u < 2 ^ (53 + e)) : Nat.log 2 ⌊u⌋₊ - 52 = e := by
  have hlt : ⌊u⌋₊ < 2 ^ (53 + e) := by
    apply (Nat.floor_lt' (by positivity)).mpr
    exact_mod_cast hhigh
  rcases hlow with rfl | hlow
  · have : Nat.log 2 ⌊u⌋₊ < 53 + 0 := Nat.log_lt_of_lt_pow' (by omega) hlt
    omega
  · have hle : 2 ^ (52 + e) ≤ ⌊u⌋₊ := by
      apply Nat.le_floor
      exact_mod_cast hlow
    have hlog : Nat.log 2 ⌊u⌋₊ = 52 + e := by
      apply Nat.log_eq_of_pow_le_of_lt_pow hle
      rwa [show 52 + e + 1 = 53 + e by omega]
    omega

/-- A count of units closer to a number than half the way to either neighbour is rounded to it.
Below a power of two the neighbour is half as far away. -/
theorem roundUnits_eq {x : Binary64} {u : ℚ} (hhigh : u - x.units < 2 ^ x.exponent / 2)
    (hlow : (x.units : ℚ) - u < 2 ^ x.exponent / 2)
    (hedge : x.mantissa = 2 ^ 52 → (x.units : ℚ) - u < 2 ^ x.exponent / 4) :
    roundUnits x.negative u = some x := by
  have hpos : (0 : ℚ) < 2 ^ x.exponent := by positivity
  have hunits : (x.units : ℚ) = x.mantissa * 2 ^ x.exponent := by simp [units]
  -- The count lies below the top of the number's binade.
  have htop := x.units_le
  have hu : u < 2 ^ (53 + x.exponent) := by
    rw [pow_add]
    linarith
  unfold roundUnits
  dsimp only
  by_cases hcase : x.exponent = 0 ∨ (2 : ℚ) ^ (52 + x.exponent) ≤ u
  · -- The count is in the number's own binade.
    rw [log_floor_sub hcase hu]
    have hm : nearestEven (u / 2 ^ x.exponent) = x.mantissa := by
      rw [hunits] at hlow hhigh
      exact nearestEven_div hpos hlow hhigh
    rw [hm, if_neg (by have := x.canonical.1; omega)]
    exact x.ofParts_self
  · -- The number is a power of two and the count lies in the binade below it.
    rw [not_or, not_le] at hcase
    obtain ⟨hexp, hbelow⟩ := hcase
    have hmin : 2 ^ 52 ≤ x.mantissa := x.canonical.2.1.resolve_left hexp
    -- Any other number of the binade is too far above the count.
    have hm : x.mantissa = 2 ^ 52 := by
      by_contra hne
      have hgt : (2 : ℚ) ^ 52 + 1 ≤ x.mantissa := by
        exact_mod_cast Nat.lt_of_le_of_ne hmin (Ne.symm hne)
      have hge : ((2 : ℚ) ^ 52 + 1) * 2 ^ x.exponent ≤ x.units := by
        rw [hunits]
        exact mul_le_mul_of_nonneg_right hgt hpos.le
      rw [pow_add] at hbelow
      linarith
    obtain ⟨e, he⟩ : ∃ e, x.exponent = e + 1 := ⟨x.exponent - 1, by omega⟩
    have hpos' : (0 : ℚ) < 2 ^ e := by positivity
    have hsucc : (2 : ℚ) ^ x.exponent = 2 * 2 ^ e := by rw [he, pow_succ]; ring
    have hpower : (x.units : ℚ) = 2 ^ 53 * 2 ^ e := by
      rw [hunits, hm, hsucc]
      norm_num
      ring
    -- Half a unit here is one unit of the binade below, so the rounding carries into the next one.
    have hnear := hedge hm
    rw [hpower, hsucc] at hnear hhigh
    have hlog : Nat.log 2 ⌊u⌋₊ - 52 = e := by
      apply log_floor_sub
      · right
        rw [pow_add]
        linarith
      · rw [show 53 + e = 52 + (e + 1) by omega, ← he]
        exact hbelow
    have hround : nearestEven (u / 2 ^ e) = 2 ^ 53 := by
      apply nearestEven_div hpos'
      · push_cast
        linarith
      · push_cast
        rw [he, ← add_assoc, pow_succ] at hbelow
        rw [pow_add] at hbelow
        linarith
    rw [hlog, if_pos hround, ← he, ← hm]
    exact x.ofParts_self

/-- The units of a magnitude. -/
theorem magnitude_mul (x : Binary64) : x.magnitude * 2 ^ 1074 = x.units :=
  div_mul_cancel₀ _ (by positivity)

/-- The magnitude of a number is rounded to the number. -/
theorem round_magnitude (x : Binary64) : round x.negative x.magnitude = some x := by
  have hpos : (0 : ℚ) < 2 ^ x.exponent := by positivity
  unfold round
  rw [x.magnitude_mul]
  apply roundUnits_eq
  · linarith
  · linarith
  · intro _
    linarith

/-! ## Shortest decimals -/

end Binary64

/-- A decimal: a coefficient times a power of ten. -/
structure Decimal where
  coefficient : ℕ
  power : ℤ
deriving DecidableEq

namespace Decimal

/-- The value of a decimal. -/
def value (d : Decimal) : ℚ := d.coefficient * 10 ^ d.power

/-- A decimal of `k + 1` digits, after a carry out of the first of them. -/
def carry (k m : ℕ) (p : ℤ) : Decimal := if m = 10 ^ (k + 1) then ⟨1, p + (k + 1 : ℕ)⟩ else ⟨m, p⟩

/-- Carrying into the next power of ten keeps the value. -/
theorem value_carry (k m : ℕ) (p : ℤ) : (carry k m p).value = m * 10 ^ p := by
  unfold carry value
  split
  · rename_i hm
    subst hm
    push_cast
    rw [zpow_add₀ (by norm_num), one_mul, mul_comm]
    norm_cast
  · rfl

/-- After the carry the coefficient has at most `k + 1` digits. -/
theorem coefficient_carry {k m : ℕ} (p : ℤ) (hm : m ≤ 10 ^ (k + 1)) :
    (carry k m p).coefficient < 10 ^ (k + 1) := by
  unfold carry
  split
  · exact Nat.one_lt_pow (by omega) (by omega)
  · rename_i hne
    exact lt_of_le_of_ne hm hne

end Decimal

namespace Binary64

/-- The decimal exponent of the magnitude. -/
def decimalExponent (x : Binary64) : ℤ := Int.log 10 x.magnitude

/-- The magnitude in units of the last of `k + 1` decimal digits. -/
def scaled (x : Binary64) (k : ℕ) : ℚ := x.magnitude / 10 ^ (x.decimalExponent - k)

/-- The decimal of `k + 1` digits that reads back as the number, if there is one: the nearest to it,
else the one on its other side. -/
def candidate (x : Binary64) (k : ℕ) : Option Decimal :=
  let p := x.decimalExponent - k
  let near := nearestEven (x.scaled k)
  let other := 2 * ⌊x.scaled k⌋₊ + 1 - near
  if round x.negative (near * 10 ^ p) = some x then some (Decimal.carry k near p)
  else if round x.negative (other * 10 ^ p) = some x then some (Decimal.carry k other p)
  else none

/-- The shortest decimal that reads back as the number. -/
def digits (x : Binary64) : Decimal := ((List.range 17).findSome? x.candidate).getD ⟨0, 0⟩

/-- A magnitude is not negative. -/
theorem magnitude_nonneg (x : Binary64) : 0 ≤ x.magnitude := by
  unfold magnitude
  positivity

/-- Neither is a scaled one. -/
theorem scaled_nonneg (x : Binary64) (k : ℕ) : 0 ≤ x.scaled k :=
  div_nonneg x.magnitude_nonneg (by positivity)

/-- Scaling is undone by the power of ten it divided by. -/
theorem scaled_mul (x : Binary64) (k : ℕ) :
    x.scaled k * 10 ^ (x.decimalExponent - k) = x.magnitude :=
  div_mul_cancel₀ _ (by positivity)

/-- The decimal exponent bounds the magnitude from above. -/
theorem magnitude_lt (x : Binary64) : x.magnitude < 10 ^ (x.decimalExponent + 1) := by
  have h := Int.lt_zpow_succ_log_self (b := 10) (by norm_num) x.magnitude
  exact_mod_cast h

/-- It bounds a magnitude other than zero from below. -/
theorem le_magnitude {x : Binary64} (hx : x.magnitude ≠ 0) :
    (10 : ℚ) ^ x.decimalExponent ≤ x.magnitude := by
  have h := Int.zpow_log_le_self (b := 10) (by norm_num)
    (lt_of_le_of_ne x.magnitude_nonneg (Ne.symm hx))
  exact_mod_cast h

/-- A scaled magnitude has at most `k + 1` digits before its point. -/
theorem scaled_lt (x : Binary64) (k : ℕ) : x.scaled k < 10 ^ (k + 1) := by
  unfold scaled
  rw [div_lt_iff₀ (by positivity), ← zpow_natCast, ← zpow_add₀ (by norm_num)]
  have h := x.magnitude_lt
  rwa [show ((k + 1 : ℕ) : ℤ) + (x.decimalExponent - k) = x.decimalExponent + 1 by push_cast; ring]

/-- A scaled magnitude other than zero has at least that many. -/
theorem le_scaled {x : Binary64} (k : ℕ) (hx : x.magnitude ≠ 0) : 10 ^ k ≤ x.scaled k := by
  unfold scaled
  rw [le_div_iff₀ (by positivity), ← zpow_natCast, ← zpow_add₀ (by norm_num)]
  have h := le_magnitude hx
  rwa [show (k : ℤ) + (x.decimalExponent - k) = x.decimalExponent by ring]

/-- The two integers that a candidate is chosen from. -/
theorem candidate_cases {x : Binary64} {k : ℕ} {d : Decimal} (h : x.candidate k = some d) :
    ∃ m, (m = ⌊x.scaled k⌋₊ ∨ m = ⌊x.scaled k⌋₊ + 1) ∧
      round x.negative (m * 10 ^ (x.decimalExponent - k)) = some x ∧
      d = Decimal.carry k m (x.decimalExponent - k) := by
  have hnear := nearestEven_cases (x.scaled k)
  unfold candidate at h
  dsimp only at h
  split at h
  · rename_i hround
    exact ⟨_, hnear, hround, (Option.some.inj h).symm⟩
  · split at h
    · rename_i hround
      exact ⟨_, by omega, hround, (Option.some.inj h).symm⟩
    · exact absurd h (by simp)

/-- Zero is printed by zero. -/
theorem candidate_zero {x : Binary64} {k : ℕ} {d : Decimal} (hx : x.magnitude = 0)
    (h : x.candidate k = some d) : d.value = 0 := by
  have hnear : nearestEven (x.scaled k) = 0 := by
    rw [show x.scaled k = 0 by simp [scaled, hx]]
    decide +kernel
  have hround : round x.negative (((0 : ℕ) : ℚ) * 10 ^ (x.decimalExponent - k)) = some x := by
    have := x.round_magnitude
    rwa [hx, show (0 : ℚ) = ((0 : ℕ) : ℚ) * 10 ^ (x.decimalExponent - k) by simp] at this
  unfold candidate at h
  dsimp only at h
  rw [hnear, if_pos hround] at h
  rw [← Option.some.inj h, Decimal.value_carry]
  simp

/-- What holds of a decimal that prints a number: it reads back as the number, and it has its
decimal exponent or is the next power of ten. -/
structure Prints (x : Binary64) (k : ℕ) (d : Decimal) : Prop where
  round_eq : round x.negative d.value = some x
  coefficient_lt : d.coefficient < 10 ^ (k + 1)
  value_zero : x.magnitude = 0 → d.value = 0
  le_value : x.magnitude ≠ 0 → (10 : ℚ) ^ x.decimalExponent ≤ d.value
  value_le : d.value ≤ 10 ^ (x.decimalExponent + 1)

/-- A candidate prints the float it is a candidate of. -/
theorem candidate_prints {x : Binary64} {k : ℕ} {d : Decimal} (h : x.candidate k = some d) :
    x.Prints k d := by
  have hzero := fun hx => candidate_zero hx h
  obtain ⟨m, hm, hround, rfl⟩ := candidate_cases h
  have hlt : ⌊x.scaled k⌋₊ < 10 ^ (k + 1) := by
    apply (Nat.floor_lt (x.scaled_nonneg k)).mpr
    exact_mod_cast x.scaled_lt k
  have hle : m ≤ 10 ^ (k + 1) := by omega
  have hpos : (0 : ℚ) < 10 ^ (x.decimalExponent - k) := by positivity
  refine ⟨by rwa [Decimal.value_carry], Decimal.coefficient_carry _ hle, hzero,
    fun hx => ?_, ?_⟩
  · have hfloor : 10 ^ k ≤ ⌊x.scaled k⌋₊ := by
      apply Nat.le_floor
      exact_mod_cast le_scaled k hx
    have hmk : (10 : ℚ) ^ k ≤ m := by exact_mod_cast (show 10 ^ k ≤ m by omega)
    rw [Decimal.value_carry]
    calc (10 : ℚ) ^ x.decimalExponent
        = 10 ^ k * 10 ^ (x.decimalExponent - k) := by
          rw [← zpow_natCast, ← zpow_add₀ (by norm_num)]
          congr 1
          ring
      _ ≤ m * 10 ^ (x.decimalExponent - k) := mul_le_mul_of_nonneg_right hmk hpos.le
  · have hmk : (m : ℚ) ≤ 10 ^ (k + 1) := by exact_mod_cast hle
    rw [Decimal.value_carry]
    calc (m : ℚ) * 10 ^ (x.decimalExponent - k)
        ≤ 10 ^ (k + 1) * 10 ^ (x.decimalExponent - k) := mul_le_mul_of_nonneg_right hmk hpos.le
      _ = 10 ^ (x.decimalExponent + 1) := by
          rw [← zpow_natCast, ← zpow_add₀ (by norm_num)]
          congr 1
          push_cast
          ring

/-- The error of the nearest decimal of seventeen digits. -/
theorem seventeen_error (x : Binary64) :
    |(nearestEven (x.scaled 16) : ℚ) * 10 ^ (x.decimalExponent - (16 : ℕ)) - x.magnitude| ≤
      x.magnitude / (2 * 10 ^ 16) := by
  have hpos : (0 : ℚ) < 10 ^ (x.decimalExponent - (16 : ℕ)) := by positivity
  have hhalf := abs_sub_nearestEven_le (x.scaled_nonneg 16)
  by_cases hx : x.magnitude = 0
  · have hzero : x.scaled 16 = 0 := by simp [scaled, hx]
    have hnear : nearestEven 0 = 0 := by decide +kernel
    simp [hzero, hx, hnear]
  · have hle := le_scaled 16 hx
    have hunit : (10 : ℚ) ^ (x.decimalExponent - (16 : ℕ)) ≤ x.magnitude / 10 ^ 16 := by
      rw [le_div_iff₀ (by positivity), mul_comm]
      calc (10 : ℚ) ^ 16 * 10 ^ (x.decimalExponent - (16 : ℕ))
          ≤ x.scaled 16 * 10 ^ (x.decimalExponent - (16 : ℕ)) :=
            mul_le_mul_of_nonneg_right hle hpos.le
        _ = x.magnitude := x.scaled_mul 16
    calc |(nearestEven (x.scaled 16) : ℚ) * 10 ^ (x.decimalExponent - (16 : ℕ)) - x.magnitude|
        = |(nearestEven (x.scaled 16) : ℚ) - x.scaled 16| *
            10 ^ (x.decimalExponent - (16 : ℕ)) := by
          rw [← abs_of_pos hpos, ← abs_mul, abs_of_pos hpos, sub_mul, x.scaled_mul 16]
      _ ≤ 1 / 2 * (x.magnitude / 10 ^ 16) := by
          apply mul_le_mul hhalf hunit hpos.le (by norm_num)
      _ = x.magnitude / (2 * 10 ^ 16) := by ring

/-- Seventeen digits suffice. -/
theorem candidate_seventeen (x : Binary64) : (x.candidate 16).isSome := by
  set p := x.decimalExponent - (16 : ℕ) with hp
  have herror := x.seventeen_error
  rw [← hp] at herror
  set d : ℚ := (nearestEven (x.scaled 16) : ℚ) * 10 ^ p with hd
  have hround : round x.negative d = some x := by
    have hunit : (0 : ℚ) < 2 ^ 1074 := by positivity
    have hscale : |d * 2 ^ 1074 - x.units| ≤ (x.units : ℚ) / (2 * 10 ^ 16) := by
      have h := mul_le_mul_of_nonneg_right herror hunit.le
      rw [← abs_of_pos hunit, ← abs_mul, abs_of_pos hunit, sub_mul, x.magnitude_mul,
        div_mul_eq_mul_div, x.magnitude_mul] at h
      exact h
    have hpos : (0 : ℚ) < 2 ^ x.exponent := by positivity
    have htop := x.units_le
    rw [abs_le] at hscale
    unfold round
    generalize d * 2 ^ 1074 = u at hscale
    apply roundUnits_eq
    · linarith
    · linarith
    · intro hm
      have hunits : (x.units : ℚ) = 2 ^ 52 * 2 ^ x.exponent := by
        unfold units
        rw [hm]
        push_cast
        norm_num
      rw [hunits] at hscale ⊢
      linarith
  unfold candidate
  dsimp only
  rw [← hp, ← hd, if_pos hround]
  rfl

/-- The shortest decimal prints the number, with at most seventeen digits. -/
theorem digits_prints (x : Binary64) : x.Prints 16 x.digits := by
  obtain ⟨d, hd⟩ : ∃ d, (List.range 17).findSome? x.candidate = some d := by
    rw [← Option.isSome_iff_exists, List.findSome?_isSome_iff]
    exact ⟨16, by simp, x.candidate_seventeen⟩
  obtain ⟨k, hk, hcandidate⟩ := List.exists_of_findSome?_eq_some hd
  have hprints := candidate_prints hcandidate
  have hdigits : x.digits = d := by simp [digits, hd]
  have hk16 : k + 1 ≤ 16 + 1 := by
    have := List.mem_range.mp hk
    omega
  rw [hdigits]
  exact ⟨hprints.round_eq,
    lt_of_lt_of_le hprints.coefficient_lt (Nat.pow_le_pow_right (by omega) hk16),
    hprints.value_zero, hprints.le_value, hprints.value_le⟩

/-- A power of ten that is a number itself separates the printed decimals as it does the numbers. -/
theorem le_value_digits_iff {x y : Binary64} {j : ℤ} (hy : y.magnitude = 10 ^ j) :
    (10 : ℚ) ^ j ≤ x.digits.value ↔ (10 : ℚ) ^ j ≤ x.magnitude := by
  have hprints := x.digits_prints
  constructor
  · intro h
    by_contra hlt
    rw [not_le] at hlt
    have hx : x.magnitude ≠ 0 := by
      intro hx
      rw [hprints.value_zero hx] at h
      exact absurd h (not_le.mpr (by positivity))
    have hj : x.decimalExponent < j := by
      rw [← zpow_lt_zpow_iff_right₀ (by norm_num : (1 : ℚ) < 10)]
      exact lt_of_le_of_lt (le_magnitude hx) hlt
    have hle : x.digits.value ≤ 10 ^ j :=
      le_trans hprints.value_le (zpow_le_zpow_right₀ (by norm_num) (by omega))
    -- The decimal is that power of ten, which reads back as the other number.
    have hround := hprints.round_eq
    rw [le_antisymm hle h, ← hy] at hround
    have hself : round x.negative y.magnitude = some { y with negative := x.negative } :=
      round_magnitude { y with negative := x.negative }
    rw [hself] at hround
    rw [← Option.some.inj hround] at hlt
    exact absurd hy hlt.ne
  · intro h
    have hx : x.magnitude ≠ 0 := by
      have : (0 : ℚ) < 10 ^ j := by positivity
      linarith
    have hj : j < x.decimalExponent + 1 := by
      rw [← zpow_lt_zpow_iff_right₀ (by norm_num : (1 : ℚ) < 10)]
      exact lt_of_le_of_lt h x.magnitude_lt
    calc (10 : ℚ) ^ j ≤ 10 ^ x.decimalExponent :=
          zpow_le_zpow_right₀ (by norm_num) (by omega)
      _ ≤ x.digits.value := hprints.le_value hx

end Binary64

end ExAgent.Lib
