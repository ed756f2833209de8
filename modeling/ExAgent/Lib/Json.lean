import ExAgent.Lib.Number

/-!
# JSON values

The trees of JSON over a type of numbers: a program's integers and floats, or a database's decimals.
One inductive family has the values, the items of arrays and the members of objects, so that every
function on trees is one recursion and every fact about them one induction.

An object has its members in key order. Two dictionaries with the same members are equal whatever
order they were filled in, a canonical text sorts the keys, and a database keeps an order of its
own, so that none of them sees another order.

`text_map_eq_iff` is the rule for numbers that a store may change: where a changed number is printed
with fewer signs, the text of a tree stays the same exactly when no number in it is changed.
-/

namespace ExAgent.Lib

/-- What a tree is: a value, the items of an array or the members of an object. -/
inductive JsonKind
  | value
  | items
  | members

/-- JSON over a type of numbers. -/
inductive Json (N : Type) : JsonKind → Type
  | null : Json N .value
  | bool (b : Bool) : Json N .value
  | number (n : N) : Json N .value
  | string (s : String) : Json N .value
  | array (items : Json N .items) : Json N .value
  | object (members : Json N .members) : Json N .value
  | nil : Json N .items
  | cons (head : Json N .value) (tail : Json N .items) : Json N .items
  | empty : Json N .members
  | member (key : String) (value : Json N .value) (rest : Json N .members) : Json N .members

namespace Json

variable {N M : Type}

/-- The tree with its numbers replaced. -/
def map (f : N → M) : ∀ {k : JsonKind}, Json N k → Json M k
  | _, .null => .null
  | _, .bool b => .bool b
  | _, .number n => .number (f n)
  | _, .string s => .string s
  | _, .array items => .array (items.map f)
  | _, .object members => .object (members.map f)
  | _, .nil => .nil
  | _, .cons head tail => .cons (head.map f) (tail.map f)
  | _, .empty => .empty
  | _, .member key value rest => .member key (value.map f) (rest.map f)

/-- Every number of the tree has the property, and every string and key has the other one. -/
def all (p : N → Bool) (q : String → Bool) : ∀ {k : JsonKind}, Json N k → Bool
  | _, .null => true
  | _, .bool _ => true
  | _, .number n => p n
  | _, .string s => q s
  | _, .array items => items.all p q
  | _, .object members => members.all p q
  | _, .nil => true
  | _, .cons head tail => head.all p q && tail.all p q
  | _, .empty => true
  | _, .member key value rest => q key && value.all p q && rest.all p q

/-- Every number of the tree has the property. -/
def numbers (p : N → Bool) {k : JsonKind} (v : Json N k) : Bool := v.all p fun _ => true

/-- The members of an object come after a key. -/
def follow (key : String) : ∀ {k : JsonKind}, Json N k → Bool
  | _, .member key' _ _ => decide (key < key')
  | _, _ => true

/-- Every object of the tree has its members in key order, each key once. -/
def sorted : ∀ {k : JsonKind}, Json N k → Bool
  | _, .array items => items.sorted
  | _, .object members => members.sorted
  | _, .cons head tail => head.sorted && tail.sorted
  | _, .member key value rest => value.sorted && rest.follow key && rest.sorted
  | _, _ => true

/-- The member under a key. -/
def lookup (key : String) : ∀ {k : JsonKind}, Json N k → Option (Json N .value)
  | _, .member key' value rest => if key' = key then some value else rest.lookup key
  | _, _ => none

/-- The keys of an object. -/
def keys : ∀ {k : JsonKind}, Json N k → List String
  | _, .member key _ rest => key :: rest.keys
  | _, _ => []

/-- The members under other keys. -/
def without (key : String) : ∀ {k : JsonKind}, Json N k → Json N k
  | _, .member key' value rest =>
    if key' = key then rest.without key else .member key' value (rest.without key)
  | _, v => v

/-- A character of a string, escaped where JSON needs it. -/
def escape (c : Char) : List Char :=
  if c = '"' then ['\\', '"']
  else if c = '\\' then ['\\', '\\']
  else if c = '\n' then ['\\', 'n']
  else if c = '\r' then ['\\', 'r']
  else if c = '\t' then ['\\', 't']
  else if c = Char.ofNat 8 then ['\\', 'b']
  else if c = Char.ofNat 12 then ['\\', 'f']
  else if c.toNat < 32 then
    ['\\', 'u', '0', '0', Nat.digitChar (c.toNat / 16), Nat.digitChar (c.toNat % 16)]
  else [c]

/-- A string literal. -/
def quote (s : String) : List Char := '"' :: s.toList.flatMap escape ++ ['"']

/-- The comma before what follows, if anything does. -/
def comma : ∀ {k : JsonKind}, Json N k → List Char
  | _, .nil => []
  | _, .empty => []
  | _, _ => [',']

/-- The canonical text of a tree: no spaces, non-ASCII characters as they are. -/
def text (render : N → List Char) : ∀ {k : JsonKind}, Json N k → List Char
  | _, .null => ['n', 'u', 'l', 'l']
  | _, .bool true => ['t', 'r', 'u', 'e']
  | _, .bool false => ['f', 'a', 'l', 's', 'e']
  | _, .number n => render n
  | _, .string s => quote s
  | _, .array items => '[' :: items.text render ++ [']']
  | _, .object members => '{' :: members.text render ++ ['}']
  | _, .nil => []
  | _, .cons head tail => head.text render ++ (tail.comma ++ tail.text render)
  | _, .empty => []
  | _, .member key value rest =>
    quote key ++ (':' :: value.text render) ++ (rest.comma ++ rest.text render)

/-! ## Replacing numbers -/

/-- Two maps over the numbers are one. -/
theorem map_map {L : Type} (f : N → M) (g : M → L) {k : JsonKind} (v : Json N k) :
    (v.map f).map g = v.map fun n => g (f n) := by
  induction v with
  | array items ih => simp [map, ih]
  | object members ih => simp [map, ih]
  | cons head tail ih₁ ih₂ => simp [map, ih₁, ih₂]
  | member key value rest ih₁ ih₂ => simp [map, ih₁, ih₂]
  | _ => rfl

/-- A map over the numbers adds and drops no element. -/
@[simp] theorem comma_map (f : N → M) {k : JsonKind} (v : Json N k) :
    (v.map f).comma = v.comma := by
  cases v <;> rfl

/-- It adds and drops no member. -/
@[simp] theorem follow_map (f : N → M) (key : String) {k : JsonKind} (v : Json N k) :
    (v.map f).follow key = v.follow key := by
  cases v <;> rfl

/-- The order of the keys does not depend on the numbers. -/
@[simp] theorem sorted_map (f : N → M) {k : JsonKind} (v : Json N k) :
    (v.map f).sorted = v.sorted := by
  induction v with
  | array items ih => simpa [map, sorted] using ih
  | object members ih => simpa [map, sorted] using ih
  | cons head tail ih₁ ih₂ => simp [map, sorted, ih₁, ih₂]
  | member key value rest ih₁ ih₂ => simp [map, sorted, ih₁, ih₂]
  | _ => rfl

/-- A tree whose numbers all stay the same stays the same. -/
theorem map_eq_self {f : N → N} {p : N → Bool} (hf : ∀ n, p n → f n = n) {k : JsonKind}
    {v : Json N k} (hv : v.numbers p) : v.map f = v := by
  induction v with
  | number n => exact congrArg Json.number (hf n hv)
  | array items ih => exact congrArg Json.array (ih hv)
  | object members ih => exact congrArg Json.object (ih hv)
  | cons head tail ih₁ ih₂ =>
    simp only [numbers, all, Bool.and_eq_true] at hv
    simp only [map]
    rw [ih₁ hv.1, ih₂ hv.2]
  | member key value rest ih₁ ih₂ =>
    simp only [numbers, all, Bool.and_eq_true, Bool.true_and] at hv
    simp only [map]
    rw [ih₁ hv.1, ih₂ hv.2]
  | _ => rfl

section Text

variable {render : N → List Char} {f : N → N} {p : N → Bool}

/-- Where a number is replaced by itself or by one with fewer signs, the text of a tree does not get
more signs, and gets fewer when a number is replaced. -/
theorem signs_text_map (hf : ∀ n, p n → f n = n)
    (hlt : ∀ n, p n = false → signs (render (f n)) < signs (render n)) {k : JsonKind}
    (v : Json N k) :
    signs ((v.map f).text render) ≤ signs (v.text render) ∧
      (v.numbers p = false → signs ((v.map f).text render) < signs (v.text render)) := by
  induction v with
  | number n =>
    cases hp : p n with
    | true =>
      refine ⟨by simp [map, hf n hp], fun h => ?_⟩
      exact absurd (hp.symm.trans h) (by simp)
    | false => exact ⟨(hlt n hp).le, fun _ => hlt n hp⟩
  | array items ih => simpa [map, text, numbers, all] using ih
  | object members ih => simpa [map, text, numbers, all] using ih
  | cons head tail ih₁ ih₂ =>
    simp only [map, text, signs_append, comma_map]
    refine ⟨by omega, fun h => ?_⟩
    simp only [numbers, all, Bool.and_eq_false_iff] at h
    rcases h with h | h
    · have := ih₁.2 h
      omega
    · have := ih₂.2 h
      omega
  | member key value rest ih₁ ih₂ =>
    simp only [map, text, signs_append, signs_cons, comma_map]
    refine ⟨by omega, fun h => ?_⟩
    simp only [numbers, all, Bool.true_and, Bool.and_eq_false_iff] at h
    rcases h with h | h
    · have := ih₁.2 h
      omega
    · have := ih₂.2 h
      omega
  | _ => exact ⟨le_refl _, fun h => absurd h (by simp [numbers, all])⟩

/-- The text of a tree stays the same exactly when all its numbers do. -/
theorem text_map_eq_iff (hf : ∀ n, p n → f n = n)
    (hlt : ∀ n, p n = false → signs (render (f n)) < signs (render n)) {k : JsonKind}
    (v : Json N k) : (v.map f).text render = v.text render ↔ v.numbers p := by
  constructor
  · intro h
    by_contra hp
    have := (signs_text_map hf hlt v).2 (Bool.eq_false_iff.mpr hp)
    rw [h] at this
    exact absurd this (lt_irrefl _)
  · intro h
    rw [map_eq_self hf h]

end Text

/-! ## Equality of Python -/

/-- The equality of Python: an integer, a float and a Boolean are equal when their values are. -/
def pyEq : ∀ {k : JsonKind}, Json Number k → Json Number k → Bool
  | _, .null, .null => true
  | _, .bool a, .bool b => a == b
  | _, .bool a, .number n => n.value == a.toNat
  | _, .number n, .bool a => n.value == a.toNat
  | _, .number a, .number b => a.value == b.value
  | _, .string a, .string b => a == b
  | _, .array a, .array b => a.pyEq b
  | _, .object a, .object b => a.pyEq b
  | _, .nil, .nil => true
  | _, .cons a as, .cons b bs => a.pyEq b && as.pyEq bs
  | _, .empty, .empty => true
  | _, .member k a as, .member l b bs => k == l && a.pyEq b && as.pyEq bs
  | _, _, _ => false

/-- A value equals itself. -/
@[simp] theorem pyEq_refl {k : JsonKind} (v : Json Number k) : v.pyEq v = true := by
  induction v with
  | array items ih => simpa [pyEq] using ih
  | object members ih => simpa [pyEq] using ih
  | cons head tail ih₁ ih₂ => simp [pyEq, ih₁, ih₂]
  | member key value rest ih₁ ih₂ => simp [pyEq, ih₁, ih₂]
  | _ => simp [pyEq]

end Json

/-! ## Objects -/

/-- A JSON object. -/
structure JsonObject (N : Type) where
  members : Json N .members
  sorted : members.sorted = true

namespace JsonObject

variable {N M : Type}

/-- The object with its numbers replaced. -/
def map (f : N → M) (o : JsonObject N) : JsonObject M :=
  ⟨o.members.map f, (Json.sorted_map f o.members).trans o.sorted⟩

/-- The object as a value. -/
def value (o : JsonObject N) : Json N .value := .object o.members

/-- Objects with the same members are equal. -/
theorem ext_members {a b : JsonObject N} (h : a.members = b.members) : a = b := by
  cases a
  cases b
  cases h
  rfl

end JsonObject

end ExAgent.Lib
