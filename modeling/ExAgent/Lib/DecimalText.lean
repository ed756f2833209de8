import Mathlib.Data.List.Basic
import Mathlib.Order.Basic
import Mathlib.Tactic.Ring

/-!
# Decimal texts

Programs that may not convert large counters to machine numbers compare their decimal texts: leading
zeros are dropped, a shorter text is smaller, and texts of one length are compared character by
character. `value_lt_of_length_lt` and `lt_iff_value_lt` say that this is the order of the numbers,
for every text of digits and not only for the canonical ones.
-/

namespace ExAgent.Lib

/-- The canonical decimal text of a number. -/
def decimal (n : ℕ) : List Char := Nat.toDigits 10 n

namespace DecimalText

/-- The text has digits only. -/
def Digits (text : List Char) : Prop := ∀ c ∈ text, c.isDigit = true

/-- The number that a text of digits stands for. -/
def value (text : List Char) : ℕ := Nat.ofDigitChars 10 text 0

/-- The text without its leading zeros. -/
def stripped (text : List Char) : List Char := text.dropWhile fun c => c = '0'

/-- The value of a digit. -/
def digit (c : Char) : ℕ := c.toNat - '0'.toNat

/-- The decimal text of a number has digits only. -/
theorem digits_decimal (n : ℕ) : Digits (decimal n) := by
  intro c hc
  exact Nat.isDigit_of_mem_toDigits (by omega) (by omega) hc

/-- It is read back. -/
@[simp]
theorem value_decimal (n : ℕ) : value (decimal n) = n := Nat.ofDigitChars_ten_toDigits

/-- Different numbers have different texts. -/
theorem decimal_injective : Function.Injective decimal := by
  intro m n h
  have hvalue := congrArg value h
  simpa using hvalue

/-- No text of a number is empty. -/
theorem decimal_ne_nil (n : ℕ) : decimal n ≠ [] := Nat.toDigits_ne_nil

/-- The first digit counts for the power of ten that its place has. -/
theorem value_cons (c : Char) (text : List Char) :
    value (c :: text) = 10 ^ text.length * digit c + value text := by
  unfold value
  rw [Nat.ofDigitChars_cons, Nat.ofDigitChars_eq_ofDigitChars_zero]
  simp [digit]

/-- The first character of a text of digits is a digit. -/
theorem Digits.head {c : Char} {text : List Char} (h : Digits (c :: text)) : c.isDigit = true :=
  h c List.mem_cons_self

/-- The rest of a text of digits is one. -/
theorem Digits.tail {c : Char} {text : List Char} (h : Digits (c :: text)) : Digits text :=
  fun d hd => h d (List.mem_cons_of_mem c hd)

/-- The codes of the digits are those from `48` to `57`. -/
theorem isDigit_bounds {c : Char} (h : c.isDigit = true) : 48 ≤ c.toNat ∧ c.toNat ≤ 57 := by
  simp only [Char.isDigit, ge_iff_le, Bool.and_eq_true, decide_eq_true_eq] at h
  exact ⟨UInt32.le_iff_toNat_le.mp h.1, UInt32.le_iff_toNat_le.mp h.2⟩

/-- A digit is below ten. -/
theorem digit_lt {c : Char} (h : c.isDigit = true) : digit c < 10 := by
  have hbounds := isDigit_bounds h
  unfold digit
  have : '0'.toNat = 48 := rfl
  omega

/-- Digits are ordered as their values. -/
theorem lt_iff_digit_lt {c d : Char} (hc : c.isDigit = true) (hd : d.isDigit = true) :
    c < d ↔ digit c < digit d := by
  have hcb := isDigit_bounds hc
  have hdb := isDigit_bounds hd
  have hzero : '0'.toNat = 48 := rfl
  have hlt : c < d ↔ c.toNat < d.toNat := Iff.rfl
  rw [hlt]
  unfold digit
  omega

/-- Digits with one value are one digit. -/
theorem digit_injective {c d : Char} (hc : c.isDigit = true) (hd : d.isDigit = true)
    (h : digit c = digit d) : c = d := by
  have hcb := isDigit_bounds hc
  have hdb := isDigit_bounds hd
  have hzero : '0'.toNat = 48 := rfl
  unfold digit at h
  exact Char.toNat_inj.mp (by omega)

/-- A text of `n` digits stands for less than `10^n`. -/
theorem value_lt {text : List Char} (h : Digits text) : value text < 10 ^ text.length := by
  induction text with
  | nil => decide
  | cons c text ih =>
    have htail := ih h.tail
    have hhead := digit_lt h.head
    rw [value_cons, List.length_cons, pow_succ]
    calc 10 ^ text.length * digit c + value text
        < 10 ^ text.length * digit c + 10 ^ text.length := by omega
      _ = 10 ^ text.length * (digit c + 1) := by ring
      _ ≤ 10 ^ text.length * 10 := Nat.mul_le_mul_left _ (by omega)

/-- A text of `n + 1` digits with a nonzero first one stands for at least `10^n`. -/
theorem le_value {c : Char} {text : List Char} (h : Digits (c :: text)) (hc : c ≠ '0') :
    10 ^ text.length ≤ value (c :: text) := by
  have hpos : 0 < digit c := by
    by_contra hzero
    exact hc (digit_injective h.head (by decide) (by rw [Nat.eq_zero_of_not_pos hzero]; rfl))
  rw [value_cons]
  calc 10 ^ text.length = 10 ^ text.length * 1 := (Nat.mul_one _).symm
    _ ≤ 10 ^ text.length * digit c := Nat.mul_le_mul_left _ hpos
    _ ≤ _ := Nat.le_add_right _ _

/-! ## Comparing texts -/

/-- Without leading zeros, a text of digits is one. -/
theorem digits_stripped {text : List Char} (h : Digits text) : Digits (stripped text) :=
  fun c hc => h c ((List.dropWhile_suffix _).subset hc)

/-- Leading zeros do not count. -/
@[simp]
theorem value_stripped (text : List Char) : value (stripped text) = value text := by
  induction text with
  | nil => rfl
  | cons c text ih =>
    unfold stripped at ih ⊢
    by_cases hc : c = '0'
    · rw [List.dropWhile_cons_of_pos (by simpa using hc), ih, value_cons, hc]
      simp [digit]
    · rw [List.dropWhile_cons_of_neg (by simpa using hc)]

/-- A stripped text does not start with a zero. -/
theorem stripped_head {text rest : List Char} {c : Char} (h : stripped text = c :: rest) :
    c ≠ '0' := by
  have hne : stripped text ≠ [] := by rw [h]; exact List.cons_ne_nil _ _
  have hhead := List.head_dropWhile_not (fun c => decide (c = '0')) hne
  unfold stripped at h
  simpa [h] using hhead

/-- A text of digits that does not start with a zero stands for more than every shorter one. -/
theorem value_lt_of_length_lt {a b : List Char} (ha : Digits a) (hb : Digits b)
    (hhead : ∀ c rest, b = c :: rest → c ≠ '0') (h : a.length < b.length) : value a < value b := by
  cases b with
  | nil => simp at h
  | cons c rest =>
    have hle : a.length ≤ rest.length := by simpa using Nat.lt_succ_iff.mp h
    calc value a < 10 ^ a.length := value_lt ha
      _ ≤ 10 ^ rest.length := Nat.pow_le_pow_right (by omega) hle
      _ ≤ value (c :: rest) := le_value hb (hhead c rest rfl)

/-- Texts of one length are ordered as the numbers they stand for. -/
theorem lt_iff_value_lt {a b : List Char} (ha : Digits a) (hb : Digits b)
    (h : a.length = b.length) : a < b ↔ value a < value b := by
  induction a generalizing b with
  | nil =>
    obtain rfl := List.length_eq_zero_iff.mp h.symm
    simp
  | cons c a ih =>
    cases b with
    | nil => simp at h
    | cons d b =>
      have hlength : a.length = b.length := by simpa using h
      have ih := ih ha.tail hb.tail hlength
      have hva := value_lt ha.tail
      have hvb := value_lt hb.tail
      rw [List.cons_lt_cons_iff, ih, value_cons, value_cons, hlength,
        lt_iff_digit_lt ha.head hb.head]
      rw [hlength] at hva
      constructor
      · rintro (hlt | ⟨rfl, hlt⟩)
        · -- A smaller first digit outweighs the rest.
          calc 10 ^ b.length * digit c + value a
              < 10 ^ b.length * digit c + 10 ^ b.length := by omega
            _ = 10 ^ b.length * (digit c + 1) := by ring
            _ ≤ 10 ^ b.length * digit d := Nat.mul_le_mul_left _ hlt
            _ ≤ _ := Nat.le_add_right _ _
        · omega
      · intro hlt
        rcases Nat.lt_trichotomy (digit c) (digit d) with hcd | hcd | hcd
        · exact .inl hcd
        · obtain rfl := digit_injective ha.head hb.head hcd
          exact .inr ⟨rfl, by omega⟩
        · have hle : 10 ^ b.length * (digit d + 1) ≤ 10 ^ b.length * digit c :=
            Nat.mul_le_mul_left _ hcd
          have hexpand : 10 ^ b.length * (digit d + 1) =
              10 ^ b.length * digit d + 10 ^ b.length := by
            ring
          omega

end DecimalText

end ExAgent.Lib
