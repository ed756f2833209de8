import Mathlib.Data.Nat.Notation
import Mathlib.Data.List.Pairwise

/-!
# Identifiers and JSON objects

The values the services exchange. A UUID is its 128-bit number; nothing in the development depends
on the bound or on the text form. Session and Task identifiers are UUIDs in the agent and plain text
in the worker's own tables, which keep no reference to the agent's schema.

A JSON object is kept with its keys in increasing order, so that two objects are equal exactly when
they have the same members, as Python's dictionaries and PostgreSQL's JSONB compare them. The value
of a member is its canonical text.
-/

namespace ExAgent

/-- A UUID, as a number. -/
abbrev Uuid := ℕ

/-- A point in time, in seconds of the database clock. -/
abbrev Time := ℕ

/-- A SHA-256 digest, as a number. -/
abbrev Sha256 := ℕ

/-- A JSON object. -/
structure Dict where
  /-- The members, by key. -/
  members : List (String × String)
  /-- Keys are distinct and in order. -/
  sorted : (members.map Prod.fst).Pairwise (· < ·)
deriving DecidableEq

/-- The keys of the empty dictionary are in order. -/
theorem Dict.sorted_nil : (([] : List (String × String)).map Prod.fst).Pairwise (· < ·) := .nil

/-- The object without a member. -/
def Dict.without (d : Dict) (key : String) : Dict :=
  ⟨d.members.filter fun m => m.1 ≠ key,
    List.Pairwise.sublist (List.Sublist.map _ List.filter_sublist) d.sorted⟩

end ExAgent
