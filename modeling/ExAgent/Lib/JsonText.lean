import ExAgent.Lib.Utf8

/-!
# Reading and writing JSON texts

What `json.loads` makes of a text, and how `json.dumps` writes a dictionary of texts. A text is a
sequence of code points. The reader takes what the reader of Python takes: blanks between the signs,
every escape, a pair of escaped surrogates as one code point, `NaN` and the infinities, a number
with a point or an exponent as a float, and of two members with one key the later one.

What was written is read back (`loads_dumpsTexts`): a dictionary of texts, whatever code points are
in them, as long as they are not escaped to ASCII; and texts of printable ASCII are written the same
way in both modes (`quoteText_ascii`).
-/

namespace ExAgent.Lib

namespace JsonText

/-! ## Writing -/

/-- A digit of `\uXXXX`. -/
def hexCode (n : ℕ) : ℕ := if n < 10 then 48 + n else 87 + n

/-- `\uXXXX`. -/
def unicodeEscape (c : ℕ) : PyText :=
  [92, 117, hexCode (c / 4096 % 16), hexCode (c / 256 % 16),
    hexCode (c / 16 % 16), hexCode (c % 16)]

/-- A code point in a string literal; `ascii` is `ensure_ascii`. -/
def escapeCode (ascii : Bool) (c : ℕ) : PyText :=
  if c = 34 then [92, 34]
  else if c = 92 then [92, 92]
  else if c = 10 then [92, 110]
  else if c = 13 then [92, 114]
  else if c = 9 then [92, 116]
  else if c = 12 then [92, 102]
  else if c = 8 then [92, 98]
  else if c < 32 then unicodeEscape c
  else if ascii = true ∧ 126 < c then
    if c < 0x10000 then unicodeEscape c
    else unicodeEscape (0xD800 + (c - 0x10000) / 1024) ++
      unicodeEscape (0xDC00 + (c - 0x10000) % 1024)
  else [c]

/-- A string literal. -/
def quoteText (ascii : Bool) (t : PyText) : PyText := 34 :: t.flatMap (escapeCode ascii) ++ [34]

/-- The members of a dictionary of texts with its separators. -/
def dumpsMembers (ascii : Bool) (comma colon : PyText) : List (PyText × PyText) → PyText
  | [] => []
  | [m] => quoteText ascii m.1 ++ colon ++ quoteText ascii m.2
  | m :: rest =>
    quoteText ascii m.1 ++ colon ++ quoteText ascii m.2 ++ comma ++
      dumpsMembers ascii comma colon rest

/-- `json.dumps` of a dictionary of texts. -/
def dumpsTexts (ascii : Bool) (comma colon : PyText) (members : List (PyText × PyText)) : PyText :=
  123 :: dumpsMembers ascii comma colon members ++ [125]

/-! ## Reading -/

/-- The blanks are skipped. -/
def skipSpace (text : PyText) : PyText :=
  text.dropWhile fun c => c = 32 ∨ c = 9 ∨ c = 10 ∨ c = 13

/-- The value of a digit of `\uXXXX`. -/
def hexValue (c : ℕ) : Option ℕ :=
  if 48 ≤ c ∧ c ≤ 57 then some (c - 48)
  else if 97 ≤ c ∧ c ≤ 102 then some (c - 87)
  else if 65 ≤ c ∧ c ≤ 70 then some (c - 55)
  else none

/-- The code unit of `\uXXXX`. -/
def codeUnit (a b c d : ℕ) : Option ℕ := do
  let a ← hexValue a
  let b ← hexValue b
  let c ← hexValue c
  let d ← hexValue d
  return ((a * 16 + b) * 16 + c) * 16 + d

/-- What an escape of one sign stands for. -/
def unescape (c : ℕ) : Option ℕ :=
  if c = 34 ∨ c = 92 ∨ c = 47 then some c
  else if c = 98 then some 8
  else if c = 102 then some 12
  else if c = 110 then some 10
  else if c = 114 then some 13
  else if c = 116 then some 9
  else none

/-- An escaped code unit before what was read of the rest: a high surrogate before the escape of a
low one is one code point with it. -/
def joinUnit (u : ℕ) (rest : PyText) (read : PyText) : PyText :=
  match rest, read with
  | 92 :: 117 :: _, low :: more =>
    if 0xD800 ≤ u ∧ u ≤ 0xDBFF ∧ 0xDC00 ≤ low ∧ low ≤ 0xDFFF then
      (0x10000 + (u - 0xD800) * 1024 + (low - 0xDC00)) :: more
    else u :: read
  | _, _ => u :: read

/-- The string after its opening quote, and what follows it. -/
def scanString : PyText → Option (PyText × PyText)
  | [] => none
  | 34 :: rest => some ([], rest)
  | 92 :: 117 :: a :: b :: c :: d :: rest => do
    let u ← codeUnit a b c d
    let (read, rest') ← scanString rest
    return (joinUnit u rest read, rest')
  | 92 :: c :: rest => do
    let c ← unescape c
    let (read, rest') ← scanString rest
    return (c :: read, rest')
  | c :: rest =>
    if c < 32 ∨ c = 92 then none
    else do
      let (read, rest') ← scanString rest
      return (c :: read, rest')

/-- The digits a text starts with, and what follows them. -/
def scanDigits (text : PyText) : PyText × PyText := text.span fun c => 48 ≤ c ∧ c ≤ 57

/-- The value of a text of digits. -/
def digitsValue (digits : PyText) : ℕ := digits.foldl (fun n c => n * 10 + (c - 48)) 0

/-- The fraction, when a digit follows the point. -/
def scanFraction (text : PyText) : PyText × PyText :=
  match text with
  | 46 :: rest => if (scanDigits rest).1 = [] then ([], text) else scanDigits rest
  | _ => ([], text)

/-- The exponent, when a digit follows its sign. -/
def scanExponent (text : PyText) : Option ℤ × PyText :=
  match text with
  | e :: rest =>
    let (negative, digits) := match rest with
      | 45 :: rest => (true, scanDigits rest)
      | 43 :: rest => (false, scanDigits rest)
      | rest => (false, scanDigits rest)
    if (e = 101 ∨ e = 69) ∧ digits.1 ≠ [] then
      let n : ℤ := digitsValue digits.1
      (some (if negative then -n else n), digits.2)
    else (none, text)
  | [] => (none, text)

/-- A number: an integer of at most 4300 digits, or a float, which is infinite when the number is
too large for one. -/
def scanNumber (text : PyText) : Option (PyJson .value × PyText) :=
  let (negative, text) := match text with
    | 45 :: text => (true, text)
    | text => (false, text)
  -- A number that starts with 0 ends there.
  let whole := match text with
    | 48 :: rest => ([48], rest)
    | text => scanDigits text
  let fraction := scanFraction whole.2
  let exponent := scanExponent fraction.2
  if whole.1 = [] then none
  else if fraction.1 = [] ∧ exponent.1 = none then
    if whole.1.length ≤ 4300 then
      let n : ℤ := digitsValue whole.1
      some (.number (.int (if negative then -n else n)), exponent.2)
    else none
  else
    let literal : Literal :=
      ⟨negative, digitsValue (whole.1 ++ fraction.1), fraction.1.length, exponent.1⟩
    let value : PyJson .value := match Binary64.round negative literal.magnitude with
      | some x => .number (.float x)
      | none => .special
    some (value, exponent.2)

/-- The words. -/
def scanWord (text : PyText) : Option (PyJson .value × PyText) :=
  let word (w : String) (v : PyJson .value) : Option (PyJson .value × PyText) :=
    let codes := PyText.ofString w
    if codes.isPrefixOf text then some (v, text.drop codes.length) else none
  word "null" .none <|> word "true" (.bool true) <|> word "false" (.bool false) <|>
    word "NaN" .special <|> word "Infinity" .special <|> word "-Infinity" .special

/-- A member before the later members of its object: where the key comes again, the later one
counts. -/
def insertMember (key : PyText) (value : PyJson .value) : ∀ {k : JsonKind}, PyJson k → PyJson k
  | _, .empty => .member key value .empty
  | _, .member key' value' rest =>
    if key = key' then .member key' value' rest
    else if key < key' then .member key value (.member key' value' rest)
    else .member key' value' (insertMember key value rest)
  | _, v => v

/-- The value at a key. -/
def lookup (key : PyText) : ∀ {k : JsonKind}, PyJson k → Option (PyJson .value)
  | _, .member key' value rest => if key = key' then some value else lookup key rest
  | _, _ => none

/-- `str` of a value; `spell` is that of a value that is no text. -/
def str (spell : PyJson .value → PyText) : PyJson .value → PyText
  | .text t => t
  | v => spell v

/-- A value, the items of an array after its bracket or the members of an object after its brace,
and what follows. -/
def parse : ℕ → ∀ k : JsonKind, PyText → Option (PyJson k × PyText)
  | 0, _, _ => none
  | _ + 1, .value, 34 :: rest => (scanString rest).map fun (t, rest) => (.text t, rest)
  | n + 1, .value, 123 :: rest =>
    match skipSpace rest with
    | 125 :: rest => some (.dict .empty, rest)
    | rest => (parse n .members rest).map fun (m, rest) => (.dict m, rest)
  | n + 1, .value, 91 :: rest =>
    match skipSpace rest with
    | 93 :: rest => some (.list .nil, rest)
    | rest => (parse n .items rest).map fun (v, rest) => (.list v, rest)
  | _ + 1, .value, text => scanWord text <|> scanNumber text
  | n + 1, .items, text => do
    let (head, rest) ← parse n .value text
    match skipSpace rest with
    | 93 :: rest => some (.cons head .nil, rest)
    | 44 :: rest =>
      let (tail, rest) ← parse n .items (skipSpace rest)
      some (.cons head tail, rest)
    | _ => none
  | n + 1, .members, 34 :: rest => do
    let (key, rest) ← scanString rest
    match skipSpace rest with
    | 58 :: rest =>
      let (value, rest) ← parse n .value (skipSpace rest)
      match skipSpace rest with
      | 125 :: rest => some (.member key value .empty, rest)
      | 44 :: rest =>
        let (members, rest) ← parse n .members (skipSpace rest)
        some (insertMember key value members, rest)
      | _ => none
    | _ => none
  | _ + 1, .members, _ => none

/-- `json.loads` of a text. Every value is at least one sign long, and an array or an object has one
more call, so that the calls do not run out. -/
def loads (text : PyText) : Option (PyJson .value) :=
  match parse (2 * text.length + 2) .value (skipSpace text) with
  | some (v, rest) => if skipSpace rest = [] then some v else none
  | none => none

/-- `json.detect_encoding` finds UTF-8. -/
def detectsUtf8 (bytes : List UInt8) : Bool :=
  !([0xFE, 0xFF].isPrefixOf bytes) && !([0xFF, 0xFE].isPrefixOf bytes) &&
    !([0, 0, 0xFE, 0xFF].isPrefixOf bytes) &&
    match bytes with
    | [a, b] => a != 0 && b != 0
    | a :: b :: _ :: _ :: _ => a != 0 && b != 0
    | _ => true

/-- `json.loads` of bytes. A mark at the start is dropped; `wide` decodes the bytes where they are
found to be UTF-16 or UTF-32. -/
def loadsBytes (wide : List UInt8 → Option PyText) (bytes : List UInt8) :
    Option (PyJson .value) := do
  let text ← if detectsUtf8 bytes then
      Utf8.decode true (if [0xEF, 0xBB, 0xBF].isPrefixOf bytes then bytes.drop 3 else bytes)
    else wide bytes
  loads text

/-! ## Reading what was written -/

/-- A hexadecimal digit is read back. -/
theorem hexValue_hexCode {n : ℕ} (h : n < 16) : hexValue (hexCode n) = some n := by
  unfold hexValue hexCode
  by_cases hten : n < 10
  · rw [if_pos hten, if_pos (by omega)]
    exact congrArg some (by omega)
  · rw [if_neg hten, if_neg (by omega), if_pos (by omega)]
    exact congrArg some (by omega)

/-- The escape of a code unit is read as the code unit. -/
theorem codeUnit_hexCode {c : ℕ} (h : c < 0x10000) :
    codeUnit (hexCode (c / 4096 % 16)) (hexCode (c / 256 % 16)) (hexCode (c / 16 % 16))
      (hexCode (c % 16)) = some c := by
  unfold codeUnit
  simp only [hexValue_hexCode (Nat.mod_lt _ (by decide : 0 < 16)), Option.bind_eq_bind,
    Option.bind_some]
  show some _ = some c
  congr 1
  omega

/-- A code point is read back from its escape. -/
theorem scanString_escapeCode (c : ℕ) (text : PyText) :
    scanString (escapeCode false c ++ text) =
      (scanString text).map fun read => (c :: read.1, read.2) := by
  have hbind : ∀ d : ℕ, (do let (read, rest') ← scanString text; some (d :: read, rest')) =
      (scanString text).map fun read => (d :: read.1, read.2) := by
    intro d
    cases scanString text <;> rfl
  unfold escapeCode
  -- One sign for each of the named escapes.
  split_ifs with h34 h92 h10 h13 h9 h12 h8 h32 hascii
  · subst h34; exact hbind 34
  · subst h92; exact hbind 92
  · subst h10; exact hbind 10
  · subst h13; exact hbind 13
  · subst h9; exact hbind 9
  · subst h12; exact hbind 12
  · subst h8; exact hbind 8
  · show (do
      let u ← codeUnit _ _ _ _
      let (read, rest') ← scanString text
      some (joinUnit u text read, rest')) = _
    rw [codeUnit_hexCode (by omega)]
    -- A control character is no surrogate.
    have hjoin : ∀ read, joinUnit c text read = c :: read := by
      intro read
      unfold joinUnit
      split
      · rw [if_neg (by omega)]
      · rfl
    simp only [Option.bind_eq_bind, Option.bind_some, hjoin]
    exact hbind c
  · exact absurd hascii.1 not_false
  · exact absurd hascii.1 not_false
  · show scanString (c :: text) = _
    rw [scanString.eq_def]
    split
    · rename_i heq; simp at heq
    · rename_i heq; exact absurd (List.cons.inj heq).1 h34
    · rename_i heq; exact absurd (List.cons.inj heq).1 h92
    · rename_i heq; exact absurd (List.cons.inj heq).1 h92
    · rename_i heq
      obtain ⟨rfl, rfl⟩ := List.cons.inj heq
      rw [if_neg (by omega)]
      exact hbind _

/-- A string literal is read to its closing quote. -/
theorem scanString_quoteText (t rest : PyText) :
    scanString (t.flatMap (escapeCode false) ++ 34 :: rest) = some (t, rest) := by
  induction t with
  | nil => rfl
  | cons c t ih =>
    rw [List.flatMap_cons, List.append_assoc, scanString_escapeCode, ih]
    rfl

/-- A blank is skipped before a sign that is none. -/
theorem skipSpace_blanks {blanks : PyText} (h : ∀ c ∈ blanks, c = 32) (text : PyText) :
    skipSpace (blanks ++ text) = skipSpace text := by
  unfold skipSpace
  apply List.dropWhile_append_of_pos
  intro c hc
  simp [h c hc]

/-- The members of the dictionary that the reader makes of the texts. -/
def collect (members : List (PyText × PyText)) : PyJson .members :=
  members.foldr (fun m read => insertMember m.1 (.text m.2) read) .empty

/-- The members are read to the closing brace. -/
theorem parse_dumpsMembers {blanks : PyText} (hblanks : ∀ c ∈ blanks, c = 32) (rest : PyText) :
    ∀ (members : List (PyText × PyText)) (n : ℕ), members ≠ [] → members.length < n →
      parse n .members
        (dumpsMembers false (44 :: blanks) (58 :: blanks) members ++ 125 :: rest) =
        some (collect members, rest) := by
  -- One member, before what follows its value.
  have hmember : ∀ (m : PyText × PyText) (text : PyText) (n : ℕ),
      parse (n + 2) .members (quoteText false m.1 ++ 58 :: blanks ++ quoteText false m.2 ++ text) =
        match skipSpace text with
        | 125 :: rest => some (.member m.1 (.text m.2) .empty, rest)
        | 44 :: rest =>
          (parse (n + 1) .members (skipSpace rest)).bind fun read =>
            some (insertMember m.1 (.text m.2) read.1, read.2)
        | _ => none := by
    intro m text n
    have hkey : scanString (m.1.flatMap (escapeCode false) ++
        34 :: (58 :: (blanks ++ (34 :: (m.2.flatMap (escapeCode false) ++ 34 :: text))))) =
        some (m.1, 58 :: (blanks ++ (34 :: (m.2.flatMap (escapeCode false) ++ 34 :: text)))) :=
      scanString_quoteText _ _
    have hvalue : parse (n + 1) .value (34 :: (m.2.flatMap (escapeCode false) ++ 34 :: text)) =
        some (.text m.2, text) := by
      rw [parse, scanString_quoteText]
      rfl
    have hshape : quoteText false m.1 ++ 58 :: blanks ++ quoteText false m.2 ++ text =
        34 :: (m.1.flatMap (escapeCode false) ++
          34 :: (58 :: (blanks ++ (34 :: (m.2.flatMap (escapeCode false) ++ 34 :: text))))) := by
      simp [quoteText]
    rw [hshape, parse, hkey]
    simp only [Option.bind_eq_bind, Option.bind_some]
    have hcolon :
      skipSpace (58 :: (blanks ++ (34 :: (m.2.flatMap (escapeCode false) ++ 34 :: text)))) =
        58 :: (blanks ++ (34 :: (m.2.flatMap (escapeCode false) ++ 34 :: text))) := rfl
    have hquote : skipSpace (blanks ++ (34 :: (m.2.flatMap (escapeCode false) ++ 34 :: text))) =
        34 :: (m.2.flatMap (escapeCode false) ++ 34 :: text) := skipSpace_blanks hblanks _
    rw [hcolon]
    simp only [hquote, hvalue, Option.bind_some]
  intro members
  induction members with
  | nil => intro n hne; exact absurd rfl hne
  | cons m more ih =>
    intro n _ hn
    obtain ⟨n, rfl⟩ : ∃ k, n = k + 2 := ⟨n - 2, by simp at hn; omega⟩
    cases more with
    | nil =>
      have h := hmember m (125 :: rest) n
      rw [dumpsMembers]
      exact h
    | cons m' more =>
      have h := hmember m (44 :: blanks ++
        (dumpsMembers false (44 :: blanks) (58 :: blanks) (m' :: more) ++ 125 :: rest)) n
      have hcomma : skipSpace (44 :: blanks ++
          (dumpsMembers false (44 :: blanks) (58 :: blanks) (m' :: more) ++ 125 :: rest)) =
          44 :: (blanks ++
            (dumpsMembers false (44 :: blanks) (58 :: blanks) (m' :: more) ++ 125 :: rest)) := rfl
      have hstart : skipSpace (blanks ++
          (dumpsMembers false (44 :: blanks) (58 :: blanks) (m' :: more) ++ 125 :: rest)) =
          dumpsMembers false (44 :: blanks) (58 :: blanks) (m' :: more) ++ 125 :: rest := by
        rw [skipSpace_blanks hblanks]
        cases more <;> rfl
      rw [hcomma] at h
      simp only [hstart] at h
      rw [ih (n + 1) (by simp) (by simp at hn ⊢; omega)] at h
      rw [dumpsMembers.eq_def]
      simpa [collect] using h

/-- A dictionary of texts is read back from its text. -/
theorem loads_dumpsTexts {blanks : PyText} (hblanks : ∀ c ∈ blanks, c = 32)
    (members : List (PyText × PyText)) :
    loads (dumpsTexts false (44 :: blanks) (58 :: blanks) members) =
      some (.dict (collect members)) := by
  -- The text, whose length is the fuel, is longer than the list of its members.
  have hlength : members.length ≤
      (dumpsMembers false (44 :: blanks) (58 :: blanks) members).length := by
    induction members with
    | nil => simp
    | cons m more ih =>
      cases more with
      | nil => simp [dumpsMembers, quoteText]
      | cons m' more =>
        simp only [dumpsMembers, quoteText, List.length_append, List.length_cons] at ih ⊢
        omega
  have hvalue : ∀ n, members.length + 1 < n →
      parse n .value (dumpsTexts false (44 :: blanks) (58 :: blanks) members) =
        some (.dict (collect members), []) := by
    intro n hn
    obtain ⟨n, rfl⟩ : ∃ k, n = k + 1 := ⟨n - 1, by omega⟩
    cases members with
    | nil => rfl
    | cons m more =>
      have hopen :
        skipSpace (dumpsMembers false (44 :: blanks) (58 :: blanks) (m :: more) ++ [125]) =
          dumpsMembers false (44 :: blanks) (58 :: blanks) (m :: more) ++ [125] := by
        cases more <;> rfl
      have hmembers := parse_dumpsMembers hblanks [] (m :: more) n (by simp) (by omega)
      have hquote : ∃ text, dumpsMembers false (44 :: blanks) (58 :: blanks) (m :: more) ++ [125] =
          34 :: text := by
        cases more <;> exact ⟨_, rfl⟩
      obtain ⟨text, htext⟩ := hquote
      rw [dumpsTexts, List.cons_append, parse, hopen]
      rw [htext] at hmembers ⊢
      simp only [hmembers, Option.map_some]
  have hstart : skipSpace (dumpsTexts false (44 :: blanks) (58 :: blanks) members) =
      dumpsTexts false (44 :: blanks) (58 :: blanks) members := rfl
  rw [loads, hstart,
    hvalue _ (by simp only [dumpsTexts, List.length_append, List.length_cons]; omega)]
  rfl

/-- Printable ASCII is written the same way in both modes. -/
theorem dumpsTexts_ascii {comma colon : PyText} {members : List (PyText × PyText)}
    (h : ∀ m ∈ members, (∀ c ∈ m.1, c ≤ 126) ∧ ∀ c ∈ m.2, c ≤ 126) :
    dumpsTexts true comma colon members = dumpsTexts false comma colon members := by
  have hquote : ∀ {t : PyText}, (∀ c ∈ t, c ≤ 126) → quoteText true t = quoteText false t := by
    intro t ht
    unfold quoteText
    congr 2
    refine List.flatMap_congr fun c hc => ?_
    have hle := ht c hc
    unfold escapeCode
    rw [if_neg (show ¬(true = true ∧ 126 < c) by omega),
      if_neg (show ¬(false = true ∧ 126 < c) by omega)]
  unfold dumpsTexts
  congr 2
  induction members with
  | nil => rfl
  | cons m more ih =>
    have hm := h m List.mem_cons_self
    have hmore := ih fun m hm => h m (List.mem_cons_of_mem _ hm)
    cases more with
    | nil => rw [dumpsMembers, dumpsMembers, hquote hm.1, hquote hm.2]
    | cons m' more =>
      show quoteText true m.1 ++ colon ++ quoteText true m.2 ++ comma ++
        dumpsMembers true comma colon (m' :: more) = _
      rw [hquote hm.1, hquote hm.2, hmore]
      rfl

/-- Members in key order stay as they are. -/
theorem collect_cons {m : PyText × PyText} {rest : List (PyText × PyText)}
    (h : ((m :: rest).map Prod.fst).Pairwise (· < ·)) :
    collect (m :: rest) = .member m.1 (.text m.2) (collect rest) := by
  induction rest generalizing m with
  | nil => rfl
  | cons m' rest ih =>
    obtain ⟨hm, hrest⟩ := List.pairwise_cons.mp h
    have hlt : m.1 < m'.1 := hm m'.1 List.mem_cons_self
    show insertMember m.1 (.text m.2) (collect (m' :: rest)) = _
    rw [ih hrest, insertMember, if_neg hlt.ne, if_pos hlt]

/-- A hexadecimal digit is ASCII. -/
theorem hexCode_lt (n : ℕ) (h : n < 16) : hexCode n < 128 := by
  unfold hexCode
  split_ifs <;> omega

/-- A text that is escaped to ASCII is ASCII. -/
theorem escapeCode_lt (c : ℕ) : ∀ d ∈ escapeCode true c, d < 128 := by
  have hunicode : ∀ u, ∀ d ∈ unicodeEscape u, d < 128 := by
    intro u
    simp only [unicodeEscape, List.forall_mem_cons]
    exact ⟨by decide, by decide, hexCode_lt _ (Nat.mod_lt _ (by decide)),
      hexCode_lt _ (Nat.mod_lt _ (by decide)), hexCode_lt _ (Nat.mod_lt _ (by decide)),
      hexCode_lt _ (Nat.mod_lt _ (by decide)), nofun⟩
  unfold escapeCode
  split_ifs with h34 h92 h10 h13 h9 h12 h8 h32 hhigh hplane
  · decide
  · decide
  · decide
  · decide
  · decide
  · decide
  · decide
  · exact hunicode c
  · exact hunicode c
  · exact List.forall_mem_append.mpr ⟨hunicode _, hunicode _⟩
  · intro d hd
    obtain rfl := List.mem_singleton.mp hd
    have hle : ¬(126 < d) := fun h => hhigh ⟨rfl, h⟩
    omega

/-- A dumped object is ASCII where its separators are. -/
theorem dumpsTexts_lt {comma colon : PyText} (hcomma : ∀ c ∈ comma, c < 128)
    (hcolon : ∀ c ∈ colon, c < 128) (members : List (PyText × PyText)) :
    ∀ c ∈ dumpsTexts true comma colon members, c < 128 := by
  have hquote : ∀ t : PyText, ∀ c ∈ quoteText true t, c < 128 := by
    intro t
    simp only [quoteText, List.cons_append, List.forall_mem_cons, List.forall_mem_append]
    refine ⟨by decide, fun c hc => ?_, by decide, nofun⟩
    obtain ⟨d, _, hd⟩ := List.mem_flatMap.mp hc
    exact escapeCode_lt d c hd
  have hmembers : ∀ c ∈ dumpsMembers true comma colon members, c < 128 := by
    induction members with
    | nil => nofun
    | cons m more ih =>
      cases more with
      | nil =>
        simp only [dumpsMembers, List.forall_mem_append]
        exact ⟨⟨hquote _, hcolon⟩, hquote _⟩
      | cons m' more =>
        show ∀ c ∈ quoteText true m.1 ++ colon ++ quoteText true m.2 ++ comma ++
          dumpsMembers true comma colon (m' :: more), c < 128
        simp only [List.forall_mem_append]
        exact ⟨⟨⟨⟨hquote _, hcolon⟩, hquote _⟩, hcomma⟩, ih⟩
  simp only [dumpsTexts, List.cons_append, List.forall_mem_cons, List.forall_mem_append]
  exact ⟨by decide, hmembers, by decide, nofun⟩

/-- Bytes that start with two signs of ASCII are found to be UTF-8. -/
theorem detectsUtf8_ascii {a b : UInt8} {rest : List UInt8} (ha : a ≠ 0 ∧ a < 0x80) (hb : b ≠ 0) :
    detectsUtf8 (a :: b :: rest) = true := by
  have hmark : ∀ (first : UInt8) (more : List UInt8), first = 0 ∨ 0x80 ≤ first →
      (first :: more).isPrefixOf (a :: b :: rest) = false := by
    intro first more hfirst
    have hne : (first == a) = false := by
      refine beq_eq_false_iff_ne.mpr ?_
      rintro rfl
      rcases hfirst with hfirst | hfirst
      · exact ha.1 hfirst
      · exact absurd ha.2 (UInt8.not_lt.mpr hfirst)
    simp [List.isPrefixOf, hne]
  unfold detectsUtf8
  rw [hmark 0xFE _ (Or.inr (by decide)), hmark 0xFF _ (Or.inr (by decide)), hmark 0 _ (Or.inl rfl)]
  have hpair : (a != 0 && b != 0) = true := by simp [ha.1, hb]
  rcases rest with _ | ⟨c, _ | ⟨d, rest⟩⟩
  · simpa using hpair
  · rfl
  · simpa using hpair

end JsonText

end ExAgent.Lib
