import ExAgent.Lib.PyJson

/-!
# Decoding UTF-8

The bytes are split into pieces: a code point, or the longest start of one that the bytes have,
which is malformed. `decode` fails at a malformed piece; `decodeReplace` puts the replacement
character for it.

A piece has at most four bytes and depends on its own bytes and the next one only as far as the
fourth, so that a text can be read from a prefix: its first `k` code points are those of the first
`4 * k` bytes (`take_decodeReplace_take`), and bytes beyond those have code points of their own
(`lt_length_decodeReplace`).
-/

namespace ExAgent.Lib.Utf8

/-- What a lead byte asks for: how many bytes, and the range of the first of them. `surrogates`
takes the surrogates as code points too. -/
def lead (surrogates : Bool) (b : UInt8) : Option (ℕ × UInt8 × UInt8) :=
  if b < 0x80 then some (0, 0x80, 0xBF)
  else if b < 0xC2 then none
  else if b < 0xE0 then some (1, 0x80, 0xBF)
  else if b < 0xF0 then
    some (2, if b = 0xE0 then 0xA0 else 0x80, if b = 0xED ∧ surrogates = false then 0x9F else 0xBF)
  else if b < 0xF5 then some (3, if b = 0xF0 then 0x90 else 0x80, if b = 0xF4 then 0x8F else 0xBF)
  else none

/-- How many of the next bytes go on with the code point. -/
def follow : ℕ → UInt8 → UInt8 → List UInt8 → ℕ
  | n + 1, low, high, b :: rest => if low ≤ b ∧ b ≤ high then follow n 0x80 0xBF rest + 1 else 0
  | _, _, _, _ => 0

/-- The code point of a lead byte that asks for `n` bytes, and these. -/
def codePoint (n : ℕ) (b : UInt8) (rest : List UInt8) : ℕ :=
  let start := match n with
    | 0 => b.toNat
    | 1 => b.toNat - 0xC0
    | 2 => b.toNat - 0xE0
    | _ => b.toNat - 0xF0
  (rest.take n).foldl (fun c b => c * 64 + (b.toNat - 0x80)) start

/-- The first piece, and how many bytes it has after its first. -/
def piece (surrogates : Bool) (b : UInt8) (rest : List UInt8) : Option ℕ × ℕ :=
  match lead surrogates b with
  | none => (none, 0)
  | some (n, low, high) =>
    (if follow n low high rest = n then some (codePoint n b rest) else none, follow n low high rest)

/-- The pieces after some bytes of an earlier one. -/
def piecesFrom (surrogates : Bool) : ℕ → List UInt8 → List (Option ℕ)
  | _, [] => []
  | skip + 1, _ :: rest => piecesFrom surrogates skip rest
  | 0, b :: rest =>
    (piece surrogates b rest).1 :: piecesFrom surrogates (piece surrogates b rest).2 rest

/-- The pieces of the bytes. -/
def pieces (surrogates : Bool) (bytes : List UInt8) : List (Option ℕ) :=
  piecesFrom surrogates 0 bytes

/-- `decode("utf-8")`, or with `errors="surrogatepass"`. -/
def decode (surrogates : Bool) (bytes : List UInt8) : Option PyText :=
  (pieces surrogates bytes).mapM id

/-- `decode("utf-8", errors="replace")`. -/
def decodeReplace (bytes : List UInt8) : PyText := (pieces false bytes).map fun c => c.getD 0xFFFD

/-- The bytes of a code point. -/
def encodeCode (c : ℕ) : List UInt8 :=
  if c < 0x80 then [UInt8.ofNat c]
  else if c < 0x800 then [UInt8.ofNat (0xC0 + c / 64), UInt8.ofNat (0x80 + c % 64)]
  else if c < 0x10000 then
    [UInt8.ofNat (0xE0 + c / 4096), UInt8.ofNat (0x80 + c / 64 % 64), UInt8.ofNat (0x80 + c % 64)]
  else
    [UInt8.ofNat (0xF0 + c / 262144), UInt8.ofNat (0x80 + c / 4096 % 64),
      UInt8.ofNat (0x80 + c / 64 % 64), UInt8.ofNat (0x80 + c % 64)]

/-- `encode("utf-8")` of a text without surrogates. -/
def encode (t : PyText) : List UInt8 := t.flatMap encodeCode

variable {surrogates : Bool}

/-- A leading byte asks for three more at most. -/
theorem lead_le {b : UInt8} {n : ℕ} {low high : UInt8}
    (h : lead surrogates b = some (n, low, high)) :
    n ≤ 3 := by
  unfold lead at h
  split_ifs at h <;> simp only [Option.some.injEq, Prod.mk.injEq] at h <;> omega

/-- At most as many bytes follow as were asked for. -/
theorem follow_le (n : ℕ) (low high : UInt8) (rest : List UInt8) : follow n low high rest ≤ n := by
  induction n generalizing low high rest with
  | zero => simp [follow]
  | succ n ih =>
    cases rest with
    | nil => simp [follow]
    | cons b rest =>
      unfold follow
      split_ifs
      · exact Nat.succ_le_succ (ih _ _ _)
      · exact Nat.zero_le _

/-- What follows depends on the bytes that are asked for only. -/
theorem follow_take {n m : ℕ} (h : n ≤ m) (low high : UInt8) (rest : List UInt8) :
    follow n low high (rest.take m) = follow n low high rest := by
  induction n generalizing low high rest m with
  | zero => simp [follow]
  | succ n ih =>
    obtain ⟨m, rfl⟩ : ∃ k, m = k + 1 := ⟨m - 1, by omega⟩
    cases rest with
    | nil => rfl
    | cons b rest =>
      rw [List.take_succ_cons, follow, follow, ih (by omega)]

/-- A piece has at most four bytes. -/
theorem piece_le (surrogates : Bool) (b : UInt8) (rest : List UInt8) :
    (piece surrogates b rest).2 ≤ 3 := by
  unfold piece
  split
  · exact Nat.zero_le _
  · rename_i n low high hlead
    exact (follow_le n low high rest).trans (lead_le hlead)

/-- The first piece depends on the first four bytes only. -/
theorem piece_take {m : ℕ} (hm : 3 ≤ m) (b : UInt8) (rest : List UInt8) :
    piece surrogates b (rest.take m) = piece surrogates b rest := by
  unfold piece
  split
  · rfl
  · rename_i n low high hlead
    have hn : n ≤ m := (lead_le hlead).trans hm
    have hcode : codePoint n b (rest.take m) = codePoint n b rest := by
      unfold codePoint
      rw [List.take_take, min_eq_left hn]
    rw [follow_take hn, hcode]

/-- Skipping bytes is dropping them. -/
theorem piecesFrom_eq (skip : ℕ) (bytes : List UInt8) :
    piecesFrom surrogates skip bytes = pieces surrogates (bytes.drop skip) := by
  induction skip generalizing bytes with
  | zero => rfl
  | succ skip ih =>
    cases bytes with
    | nil => rfl
    | cons b rest => exact ih rest

/-- The first piece is decoded, and the rest behind it. -/
theorem pieces_cons (b : UInt8) (rest : List UInt8) :
    pieces surrogates (b :: rest) = (piece surrogates b rest).1 ::
      pieces surrogates (rest.drop (piece surrogates b rest).2) := by
  rw [← piecesFrom_eq]
  rfl

/-- The first `k` pieces are those of the first `4 * k` bytes. -/
theorem take_pieces_take {k n : ℕ} (h : 4 * k ≤ n) (bytes : List UInt8) :
    (pieces surrogates (bytes.take n)).take k = (pieces surrogates bytes).take k := by
  induction k generalizing n bytes with
  | zero => simp
  | succ k ih =>
    cases bytes with
    | nil => simp
    | cons b rest =>
      obtain ⟨n, rfl⟩ : ∃ m, n = m + 1 := ⟨n - 1, by omega⟩
      have hle := piece_le surrogates b rest
      rw [List.take_succ_cons, pieces_cons, pieces_cons, piece_take (by omega), List.take_succ_cons,
        List.take_succ_cons, List.drop_take, ih (by omega)]

/-- There are at most four bytes for each piece. -/
theorem length_le_pieces (surrogates : Bool) (bytes : List UInt8) :
    bytes.length ≤ 4 * (pieces surrogates bytes).length := by
  have hskip : ∀ skip, bytes.length ≤ skip + 4 * (piecesFrom surrogates skip bytes).length := by
    induction bytes with
    | nil => simp
    | cons b rest ih =>
      intro skip
      cases skip with
      | zero =>
        have hrest := ih (piece surrogates b rest).2
        have hle := piece_le surrogates b rest
        simp only [piecesFrom, List.length_cons]
        omega
      | succ skip =>
        have hrest := ih skip
        simp only [piecesFrom, List.length_cons]
        omega
  simpa [pieces] using hskip 0

/-- The first `k` code points of a text are those of its first `4 * k` bytes. -/
theorem take_decodeReplace_take {k n : ℕ} (h : 4 * k ≤ n) (bytes : List UInt8) :
    (decodeReplace (bytes.take n)).take k = (decodeReplace bytes).take k := by
  unfold decodeReplace
  rw [← List.map_take, ← List.map_take, take_pieces_take h]

/-- More than `4 * k` bytes are more than `k` code points. -/
theorem lt_length_decodeReplace {k : ℕ} {bytes : List UInt8} (h : 4 * k < bytes.length) :
    k < (decodeReplace bytes).length := by
  have hle := length_le_pieces false bytes
  unfold decodeReplace
  rw [List.length_map]
  omega

/-- Decoding that always succeeds is a map. -/
theorem mapM_some (bytes : List UInt8) :
    (bytes.map fun b => some b.toNat).mapM id = some (bytes.map UInt8.toNat) := by
  induction bytes with
  | nil => rfl
  | cons b rest ih => simp [ih]

/-- Bytes of ASCII are their code points. -/
theorem decode_ascii {bytes : List UInt8} (h : ∀ b ∈ bytes, b < 0x80) :
    decode surrogates bytes = some (bytes.map UInt8.toNat) := by
  have hpieces : pieces surrogates bytes = bytes.map fun b => some b.toNat := by
    induction bytes with
    | nil => rfl
    | cons b rest ih =>
      have hb : lead surrogates b = some (0, 0x80, 0xBF) := by
        unfold lead
        rw [if_pos (h b List.mem_cons_self)]
      have hpiece : piece surrogates b rest = (some b.toNat, 0) := by
        have hnone : follow 0 0x80 0xBF rest = 0 := Nat.le_zero.mp (follow_le _ _ _ _)
        unfold piece
        rw [hb]
        dsimp only
        rw [hnone]
        rfl
      have hrest := ih fun b hb => h b (List.mem_cons_of_mem _ hb)
      rw [pieces_cons, hpiece, List.map_cons, List.drop_zero, hrest]
  unfold decode
  rw [hpieces]
  exact mapM_some bytes

/-- A text of ASCII is encoded and decoded. -/
theorem decode_encode_ascii {t : PyText} (h : ∀ c ∈ t, c < 128) :
    decode surrogates (encode t) = some t := by
  have hencode : encode t = t.map UInt8.ofNat := by
    unfold encode
    rw [List.map_eq_flatMap]
    refine List.flatMap_congr fun c hc => ?_
    unfold encodeCode
    rw [if_pos (h c hc)]
  have hascii : ∀ b ∈ encode t, b < 0x80 := by
    intro b hb
    rw [hencode] at hb
    obtain ⟨c, hc, rfl⟩ := List.mem_map.mp hb
    have hlt := h c hc
    rw [UInt8.lt_iff_toNat_lt, UInt8.toNat_ofNat_of_lt' (hlt.trans (by decide))]
    exact hlt
  rw [decode_ascii hascii, hencode, List.map_map]
  refine congrArg some ((List.map_congr_left fun c hc => ?_).trans (List.map_id t))
  have hlt := h c hc
  exact UInt8.toNat_ofNat_of_lt' (hlt.trans (by decide))

end ExAgent.Lib.Utf8
