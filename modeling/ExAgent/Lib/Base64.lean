import ExAgent.Lib.PyJson

/-!
# URL-safe base64

`base64.urlsafe_b64encode` without its padding, and what `base64.urlsafe_b64decode` makes of a text:
signs outside of the alphabet are skipped, the padding ends the text once it fills the last group of
four, and a group that is left open is an error. The ordinary signs for 62 and 63 are taken too.
What was encoded is decoded once the padding is back (`urlsafeDecode_encode`).
-/

namespace ExAgent.Lib.Base64

/-- The sign of six bits, in the URL-safe alphabet. -/
def sign (n : ℕ) : Char :=
  if n < 26 then Char.ofNat (65 + n)
  else if n < 52 then Char.ofNat (71 + n)
  else if n < 62 then Char.ofNat (n - 4)
  else if n = 62 then '-' else '_'

/-- `base64.urlsafe_b64encode` without the padding. -/
def urlsafeEncode : List UInt8 → List Char
  | a :: b :: c :: rest =>
    let n := a.toNat * 65536 + b.toNat * 256 + c.toNat
    sign (n / 262144) :: sign (n / 4096 % 64) :: sign (n / 64 % 64) ::
      sign (n % 64) :: urlsafeEncode rest
  | [a, b] =>
    let n := a.toNat * 1024 + b.toNat * 4
    [sign (n / 4096), sign (n / 64 % 64), sign (n % 64)]
  | [a] => [sign (a.toNat / 4), sign (a.toNat * 16 % 64)]
  | [] => []

/-- The six bits of a sign of the alphabet. -/
def sextet (c : ℕ) : Option ℕ :=
  if 65 ≤ c ∧ c ≤ 90 then some (c - 65)
  else if 97 ≤ c ∧ c ≤ 122 then some (c - 71)
  else if 48 ≤ c ∧ c ≤ 57 then some (c + 4)
  else if c = 45 ∨ c = 43 then some 62
  else if c = 95 ∨ c = 47 then some 63
  else none

/-- `a2b_base64` from a place in a group of four on: the bits that are left of the sign before it,
and the padding so far. -/
def decodeFrom : ℕ → ℕ → ℕ → PyText → Option (List UInt8)
  | place, _, _, [] => if place = 0 then some [] else none
  | place, bits, pads, c :: rest =>
    if c = 61 then
      if 2 ≤ place ∧ 4 ≤ place + (pads + 1) then some []
      else decodeFrom place bits (if 2 ≤ place then pads + 1 else pads) rest
    else
      match sextet c with
      | none => decodeFrom place bits pads rest
      | some v =>
        match place with
        | 0 => decodeFrom 1 v 0 rest
        | 1 => (decodeFrom 2 (v % 16) 0 rest).map (UInt8.ofNat (bits * 4 + v / 16) :: ·)
        | 2 => (decodeFrom 3 (v % 4) 0 rest).map (UInt8.ofNat (bits * 16 + v / 4) :: ·)
        | _ => (decodeFrom 0 0 0 rest).map (UInt8.ofNat (bits * 64 + v) :: ·)

/-- `base64.urlsafe_b64decode`. -/
def urlsafeDecode (text : PyText) : Option (List UInt8) :=
  if text.all fun c => c < 128 then decodeFrom 0 0 0 text else none

/-- The padding that a text without it lacks. -/
def padding (text : PyText) : PyText := List.replicate ((4 - text.length % 4) % 4) 61

/-- The sign of the padding is none of the alphabet. -/
theorem sextet_ne_pad {c v : ℕ} (h : sextet c = some v) : c ≠ 61 := by
  rintro rfl
  simp [sextet] at h

variable {a b c d va vb vc vd : ℕ} {rest : PyText}

/-- A group of four signs is three bytes. -/
theorem decodeFrom_four (ha : sextet a = some va) (hb : sextet b = some vb)
    (hc : sextet c = some vc)
    (hd : sextet d = some vd) (bits pads : ℕ) : decodeFrom 0 bits pads (a :: b :: c :: d :: rest) =
      (decodeFrom 0 0 0 rest).map fun bytes => UInt8.ofNat (va * 4 + vb / 16) ::
        UInt8.ofNat (vb % 16 * 16 + vc / 4) :: UInt8.ofNat (vc % 4 * 64 + vd) :: bytes := by
  simp only [decodeFrom, if_neg (sextet_ne_pad ha), if_neg (sextet_ne_pad hb),
    if_neg (sextet_ne_pad hc), if_neg (sextet_ne_pad hd), ha, hb, hc, hd, Option.map_map]
  rfl

/-- Three signs and the padding are two bytes. -/
theorem decodeFrom_three (ha : sextet a = some va) (hb : sextet b = some vb)
    (hc : sextet c = some vc) (bits pads : ℕ) : decodeFrom 0 bits pads [a, b, c, 61] =
      some [UInt8.ofNat (va * 4 + vb / 16), UInt8.ofNat (vb % 16 * 16 + vc / 4)] := by
  simp [decodeFrom, sextet_ne_pad ha, sextet_ne_pad hb, sextet_ne_pad hc, ha, hb, hc]

/-- Two signs and the padding are one byte. -/
theorem decodeFrom_two (ha : sextet a = some va) (hb : sextet b = some vb) (bits pads : ℕ) :
    decodeFrom 0 bits pads [a, b, 61, 61] = some [UInt8.ofNat (va * 4 + vb / 16)] := by
  simp [decodeFrom, sextet_ne_pad ha, sextet_ne_pad hb, ha, hb]

/-! ## What was encoded is decoded -/

/-- A sign stands for its six bits. -/
theorem sextet_sign {n : ℕ} (h : n < 64) :
    sextet (sign n).toNat = some n := by
  have hall : ∀ n : Fin 64, sextet (sign n).toNat = some n := by decide
  exact hall ⟨n, h⟩

/-- What was encoded is decoded, once the padding is there. -/
theorem decodeFrom_encode : ∀ bytes : List UInt8,
    decodeFrom 0 0 0 ((urlsafeEncode bytes).map Char.toNat ++
      padding ((urlsafeEncode bytes).map Char.toNat)) = some bytes
  | [] => rfl
  | [a] => by
    have ha : a.toNat < 256 := a.toNat_lt
    have hpad : padding ((urlsafeEncode [a]).map Char.toNat) = [61, 61] := rfl
    rw [hpad]
    show decodeFrom 0 0 0 [_, _, 61, 61] = _
    rw [decodeFrom_two (sextet_sign (by omega)) (sextet_sign (by omega))]
    have hbyte : a.toNat / 4 * 4 + a.toNat * 16 % 64 / 16 = a.toNat := by omega
    rw [hbyte, UInt8.ofNat_toNat]
  | [a, b] => by
    have ha : a.toNat < 256 := a.toNat_lt
    have hb : b.toNat < 256 := b.toNat_lt
    have hpad : padding ((urlsafeEncode [a, b]).map Char.toNat) = [61] := rfl
    rw [hpad]
    show decodeFrom 0 0 0 [_, _, _, 61] = _
    rw [decodeFrom_three (sextet_sign (by omega)) (sextet_sign (by omega))
      (sextet_sign (by omega))]
    have hfirst : (a.toNat * 1024 + b.toNat * 4) / 4096 * 4 +
        (a.toNat * 1024 + b.toNat * 4) / 64 % 64 / 16 = a.toNat := by omega
    have hsecond : (a.toNat * 1024 + b.toNat * 4) / 64 % 64 % 16 * 16 +
        (a.toNat * 1024 + b.toNat * 4) % 64 / 4 = b.toNat := by omega
    rw [hfirst, hsecond, UInt8.ofNat_toNat, UInt8.ofNat_toNat]
  | a :: b :: c :: rest => by
    have ha : a.toNat < 256 := a.toNat_lt
    have hb : b.toNat < 256 := b.toNat_lt
    have hc : c.toNat < 256 := c.toNat_lt
    have ih := decodeFrom_encode rest
    -- The padding depends on the length up to four.
    have hpad : padding ((urlsafeEncode (a :: b :: c :: rest)).map Char.toNat) =
        padding ((urlsafeEncode rest).map Char.toNat) := by
      unfold padding
      simp only [urlsafeEncode, List.map_cons, List.length_cons]
      congr 1
      omega
    rw [hpad]
    show decodeFrom 0 0 0 (_ :: _ :: _ :: _ :: _) = _
    rw [decodeFrom_four (sextet_sign (by omega)) (sextet_sign (by omega))
      (sextet_sign (by omega)) (sextet_sign (by omega))]
    obtain ⟨n, hn⟩ : ∃ n, a.toNat * 65536 + b.toNat * 256 + c.toNat = n := ⟨_, rfl⟩
    have hfirst : n / 262144 * 4 + n / 4096 % 64 / 16 = a.toNat := by omega
    have hsecond : n / 4096 % 64 % 16 * 16 + n / 64 % 64 / 4 = b.toNat := by omega
    have hthird : n / 64 % 64 % 4 * 64 + n % 64 = c.toNat := by omega
    rw [hn, hfirst, hsecond, hthird, UInt8.ofNat_toNat, UInt8.ofNat_toNat, UInt8.ofNat_toNat]
    show (decodeFrom 0 0 0 ((urlsafeEncode rest).map Char.toNat ++ _)).map _ = _
    rw [ih]
    rfl

/-- The signs are ASCII. -/
theorem encode_ascii (bytes : List UInt8) :
    ∀ c ∈ (urlsafeEncode bytes).map Char.toNat, c < 128 := by
  have hchar : ∀ n, (sign n).toNat < 128 := by
    intro n
    by_cases hn : n < 63
    · have hall : ∀ n : Fin 63, (sign n).toNat < 128 := by decide
      exact hall ⟨n, hn⟩
    · unfold sign
      rw [if_neg (by omega), if_neg (by omega), if_neg (by omega), if_neg (by omega)]
      decide
  fun_induction urlsafeEncode bytes with
  | case1 a b c rest n ih =>
    simp only [List.map_cons, List.forall_mem_cons]
    exact ⟨hchar _, hchar _, hchar _, hchar _, ih⟩
  | case2 a b n =>
    simp only [List.map_cons, List.forall_mem_cons]
    exact ⟨hchar _, hchar _, hchar _, nofun⟩
  | case3 a =>
    simp only [List.map_cons, List.forall_mem_cons]
    exact ⟨hchar _, hchar _, nofun⟩
  | case4 => nofun

/-- URL-safe base64 is decoded. -/
theorem urlsafeDecode_encode (bytes : List UInt8) :
    urlsafeDecode ((urlsafeEncode bytes).map Char.toNat ++
      padding ((urlsafeEncode bytes).map Char.toNat)) = some bytes := by
  have hascii : (((urlsafeEncode bytes).map Char.toNat ++
      padding ((urlsafeEncode bytes).map Char.toNat)).all fun c => decide (c < 128)) =
      true := by
    refine List.all_eq_true.mpr fun c hc => decide_eq_true ?_
    rcases List.mem_append.mp hc with hc | hc
    · exact encode_ascii bytes c hc
    · rw [List.eq_of_mem_replicate hc]
      decide
  unfold urlsafeDecode
  rw [if_pos hascii]
  exact decodeFrom_encode bytes

end ExAgent.Lib.Base64
