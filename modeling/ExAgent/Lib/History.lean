import Mathlib.Data.List.Basic

/-!
# Histories

A history is a list to which a system appends what it does. Two notions are all the development
needs of it: the last entry that a view is defined on (`lastSome`), and a property that every entry
has with respect to the entries before it (`Each`). Both are moved along by one entry at a time.
-/

namespace ExAgent.Lib

variable {α β : Type*}

/-- The value of the view at the last entry that has one. -/
def lastSome (f : α → Option β) (l : List α) : Option β := (l.filterMap f).getLast?

/-- Nothing was seen in the empty history. -/
@[simp]
theorem lastSome_nil (f : α → Option β) : lastSome f [] = none := rfl

/-- A new entry with a value is the last one that has one. -/
theorem lastSome_concat_some {f : α → Option β} {a : α} {b : β} (l : List α) (h : f a = some b) :
    lastSome f (l ++ [a]) = some b := by
  simp [lastSome, List.filterMap_append, h]

/-- A new entry without a value changes nothing. -/
theorem lastSome_concat_none {f : α → Option β} {a : α} (l : List α) (h : f a = none) :
    lastSome f (l ++ [a]) = lastSome f l := by
  simp [lastSome, List.filterMap_append, h]

/-- Every entry has the property with respect to those before it. -/
def Each (Φ : List α → α → Prop) (l : List α) : Prop :=
  ∀ pre a post, l = pre ++ a :: post → Φ pre a

/-- Nothing has happened yet. -/
theorem Each.nil (Φ : List α → α → Prop) : Each Φ [] := by
  intro pre a post h
  exact absurd h (by simp)

/-- One more entry. -/
theorem Each.concat {Φ : List α → α → Prop} {l : List α} {a : α} (hl : Each Φ l) (ha : Φ l a) :
    Each Φ (l ++ [a]) := by
  intro pre b post h
  rcases List.eq_nil_or_concat post with rfl | ⟨post', c, rfl⟩
  · obtain ⟨rfl, hab⟩ := List.append_inj' h rfl
    obtain rfl : a = b := by simpa using hab
    exact ha
  · have h' : l ++ [a] = (pre ++ b :: post') ++ [c] := by simpa using h
    exact hl pre b post' (List.append_inj' h' rfl).1

/-- The entries of a prefix. -/
theorem Each.of_append {Φ : List α → α → Prop} {l l' : List α}
    (h : Each Φ (l ++ l')) : Each Φ l := by
  intro pre a post hl
  refine h pre a (post ++ l') ?_
  rw [hl, List.append_assoc, List.cons_append]

/-- Two entries in order stay so. -/
theorem sublist_concat {l s : List α} (h : s.Sublist l) (a : α) : s.Sublist (l ++ [a]) :=
  h.trans (List.sublist_append_left l [a])

/-- An entry and a later one. -/
theorem pair_sublist_concat {l : List α} {a : α} (h : a ∈ l) (b : α) : [a, b].Sublist (l ++ [b]) :=
  List.Sublist.append (List.singleton_sublist.mpr h) (List.Sublist.refl [b])

/-- The entries after one more. -/
theorem of_getElem?_concat {l : List α} {a b : α} {i : ℕ} (h : (l ++ [a])[i]? = some b) :
    l[i]? = some b ∨ i = l.length ∧ b = a := by
  rcases Nat.lt_or_ge i l.length with hlt | hge
  · exact .inl ((List.getElem?_append_left hlt).symm.trans h)
  · rw [List.getElem?_append_right hge] at h
    obtain ⟨hi, hb⟩ := List.getElem?_eq_some_iff.mp h
    rw [List.length_singleton] at hi
    exact .inr ⟨by omega, by simpa using hb.symm⟩

end ExAgent.Lib
