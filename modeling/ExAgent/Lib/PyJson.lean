import ExAgent.Lib.Json

/-!
# JSON values of Python through a JSONB column

What `json.loads` makes of a text: it reads more than JSON allows. A text of Python is a sequence of
code points, which may be surrogates; `NaN` and the infinities are numbers; an integer is limited by
the digits that are converted. A JSONB column takes neither a null character, nor a surrogate, nor a
number that is not finite (`storable`), and what is read back differs in some floats
(`Number.reload`).

Python compares numbers by their values and takes a Boolean for the number 0 or 1 (`pyEq`). By this
equality a value is what is read back of it exactly when every float in it is below `10^16` or the
very number that its shortest decimal says (`pyEq_reload_iff`).
-/

namespace ExAgent.Lib

namespace Number

/-- The number is the one that the database makes of its text: an integer, or a float below `10^16`,
or one whose shortest decimal is its value. -/
def exact : Number → Bool
  | .int _ => true
  | .float x => decide (x.magnitude < 10 ^ 16) || decide (x.digits.value = x.magnitude)

end Number

/-- A text: code points, which may be surrogates. -/
abbrev PyText := List ℕ

/-- The equality test of texts is equality. -/
theorem PyText.lawfulBEq : LawfulBEq PyText := inferInstance

/-- A text without surrogates. -/
def PyText.ofString (s : String) : PyText := s.toList.map Char.toNat

/-- What a text column takes: no null character and no surrogate. A surrogate of a decoded text is a
lone one. -/
def PyText.storable (t : PyText) : Bool := t.all fun c => c != 0 && !(0xD800 ≤ c && c < 0xE000)

/-- A value that `json.loads` can return; a dictionary has its members in key order. -/
inductive PyJson : JsonKind → Type
  | none : PyJson .value
  | bool (b : Bool) : PyJson .value
  | number (n : Number) : PyJson .value
  /-- `NaN` or an infinity. -/
  | special : PyJson .value
  | text (t : PyText) : PyJson .value
  | list (items : PyJson .items) : PyJson .value
  | dict (members : PyJson .members) : PyJson .value
  | nil : PyJson .items
  | cons (head : PyJson .value) (tail : PyJson .items) : PyJson .items
  | empty : PyJson .members
  | member (key : PyText) (value : PyJson .value) (rest : PyJson .members) : PyJson .members

namespace PyJson

/-- Tests of the numbers, the special numbers and the texts of a value. -/
def all (p : Number → Bool) (special : Bool) (q : PyText → Bool) : ∀ {k : JsonKind}, PyJson k → Bool
  | _, .none => true
  | _, .bool _ => true
  | _, .number n => p n
  | _, .special => special
  | _, .text t => q t
  | _, .list items => items.all p special q
  | _, .dict members => members.all p special q
  | _, .nil => true
  | _, .cons head tail => head.all p special q && tail.all p special q
  | _, .empty => true
  | _, .member key value rest => q key && value.all p special q && rest.all p special q

/-- `json.dumps` converts the integers: they have at most 4300 digits. -/
def printable {k : JsonKind} (v : PyJson k) : Bool :=
  v.all (fun n => match n with
    | .int n => decide (n.natAbs < 10 ^ 4300)
    | .float _ => true) true fun _ => true

/-- A JSONB column takes the value. -/
def storable {k : JsonKind} (v : PyJson k) : Bool := v.all (fun _ => true) false PyText.storable

/-- Every number keeps its value in the column. -/
def exact {k : JsonKind} (v : PyJson k) : Bool := v.all Number.exact true fun _ => true

/-- What is read back of a column. -/
def reload : ∀ {k : JsonKind}, PyJson k → PyJson k
  | _, .number n => .number n.reload
  | _, .list items => .list items.reload
  | _, .dict members => .dict members.reload
  | _, .cons head tail => .cons head.reload tail.reload
  | _, .member key value rest => .member key value.reload rest.reload
  | _, v => v

/-- Equality up to the form of numbers, where Booleans are compared with numbers by `mixed`. -/
def eqBy (mixed : Bool → Number → Bool) : ∀ {k : JsonKind}, PyJson k → PyJson k → Bool
  | _, .none, .none => true
  | _, .bool a, .bool b => a == b
  | _, .bool a, .number n => mixed a n
  | _, .number n, .bool a => mixed a n
  | _, .number a, .number b => a.value == b.value
  | _, .text a, .text b => a == b
  | _, .list a, .list b => a.eqBy mixed b
  | _, .dict a, .dict b => a.eqBy mixed b
  | _, .nil, .nil => true
  | _, .cons a as, .cons b bs => a.eqBy mixed b && as.eqBy mixed bs
  | _, .empty, .empty => true
  | _, .member k a as, .member l b bs => k == l && a.eqBy mixed b && as.eqBy mixed bs
  | _, _, _ => false

/-- The equality of Python: a Boolean is the number 0 or 1. -/
def pyEq {k : JsonKind} (a b : PyJson k) : Bool := a.eqBy (fun b n => n.value == b.toNat) b

/-- The equality of JSON: a Boolean is no number. -/
def same {k : JsonKind} (a b : PyJson k) : Bool := a.eqBy (fun _ _ => false) b

/-- The two values are equal for Python because a Boolean stands for a number. -/
def blurs {k : JsonKind} (a b : PyJson k) : Bool := a.pyEq b && !a.same b

/-- Every value of the dictionary is a text. -/
def texts : ∀ {k : JsonKind}, PyJson k → Bool
  | _, .member _ (.text _) rest => rest.texts
  | _, .member _ _ _ => false
  | _, _ => true

/-- The dictionary with its values spelled as texts. -/
def spelled (spell : PyJson .value → PyText) : ∀ {k : JsonKind}, PyJson k → PyJson k
  | _, .member key (.text t) rest => .member key (.text t) (rest.spelled spell)
  | _, .member key value rest => .member key (.text (spell value)) (rest.spelled spell)
  | _, v => v

/-- The keys of a dictionary. -/
def keys : ∀ {k : JsonKind}, PyJson k → List PyText
  | _, .member key _ rest => key :: rest.keys
  | _, _ => []

/-- Every dictionary has its members in key order, each key once. -/
def sorted : ∀ {k : JsonKind}, PyJson k → Bool
  | _, .list items => items.sorted
  | _, .dict members => members.sorted
  | _, .cons head tail => head.sorted && tail.sorted
  | _, .member key value rest =>
    value.sorted && rest.keys.all (fun key' => decide (key < key')) && rest.sorted
  | _, _ => true

/-- Spelling keeps the keys. -/
theorem keys_spelled (spell : PyJson .value → PyText) {k : JsonKind} (v : PyJson k) :
    (v.spelled spell).keys = v.keys := by
  induction v with
  | member key value rest _ ih => cases value <;> exact congrArg (List.cons key) ih
  | _ => rfl

/-- Reloading keeps the keys. -/
theorem keys_reload {k : JsonKind} (v : PyJson k) : v.reload.keys = v.keys := by
  induction v with
  | member key value rest _ ih => exact congrArg (List.cons key) ih
  | _ => rfl

/-- Spelling keeps the order of the keys. -/
theorem sorted_spelled (spell : PyJson .value → PyText) {k : JsonKind} {v : PyJson k}
    (h : v.sorted = true) : (v.spelled spell).sorted = true := by
  induction v with
  | member key value rest _ ih =>
    simp only [sorted, Bool.and_eq_true] at h
    have hrest : (rest.spelled spell).keys.all (fun key' => decide (key < key')) = true := by
      rw [keys_spelled]
      exact h.1.2
    cases value <;> simp [spelled, sorted, hrest, ih h.2]
  | _ => exact h

/-- Reloading keeps whether the keys are in order. -/
theorem sorted_reload {k : JsonKind} (v : PyJson k) : v.reload.sorted = v.sorted := by
  induction v with
  | list items ih => exact ih
  | dict members ih => exact ih
  | cons head tail ih₁ ih₂ => simp [reload, sorted, ih₁, ih₂]
  | member key value rest ih₁ ih₂ => simp [reload, sorted, ih₁, ih₂, keys_reload]
  | _ => rfl

end PyJson

/-- A dictionary with texts as keys. -/
structure PyObject where
  members : PyJson .members
  sorted : members.sorted = true

namespace PyObject

/-- The empty object is in order. -/
theorem sorted_empty : PyJson.empty.sorted = true := rfl

/-- The dictionary as it is read back. -/
def reload (d : PyObject) : PyObject := ⟨d.members.reload, (PyJson.sorted_reload _).trans d.sorted⟩

/-- The dictionary with its values spelled as texts. -/
def spelled (spell : PyJson .value → PyText) (d : PyObject) : PyObject :=
  ⟨d.members.spelled spell, PyJson.sorted_spelled spell d.sorted⟩

/-- Objects with the same members are equal. -/
theorem ext_members {a b : PyObject} (h : a.members = b.members) : a = b := by
  cases a
  cases b
  cases h
  rfl

end PyObject

end ExAgent.Lib
