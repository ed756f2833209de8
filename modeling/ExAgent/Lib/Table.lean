import Mathlib.Data.List.Nodup

/-!
# Tables with a primary key

A table is a list of rows with distinct keys, in insertion order. The three writes of a transaction
are an insert, which fails when the key is present (a unique violation), an insert that does nothing
in that case (`ON CONFLICT DO NOTHING`), and an update that rewrites rows in place and can neither
add nor drop one. What the rest of the development uses of a table is the row at a key, `get`; the
lemmas below say what each write does to it, and the list is looked at only to enumerate a query's
result.
-/

namespace ExAgent.Lib

/-- Rows under distinct keys, in insertion order. -/
structure Table (κ ρ : Type*) where
  /-- The rows with their keys. -/
  entries : List (κ × ρ)
  /-- A key has at most one row. -/
  nodup : (entries.map Prod.fst).Nodup

namespace Table

variable {κ ρ : Type*}

/-- Tables with the same rows in the same order are equal. -/
theorem ext_entries {t t' : Table κ ρ} (h : t.entries = t'.entries) : t = t' := by
  cases t
  cases t'
  cases h
  rfl

/-- The table without rows. -/
def empty : Table κ ρ := ⟨[], List.nodup_nil⟩

/-- `UPDATE`: every row is rewritten, with its key at hand; keys and order stay. -/
def modify (t : Table κ ρ) (f : κ → ρ → ρ) : Table κ ρ :=
  ⟨t.entries.map fun e => (e.1, f e.1 e.2), by
    have h : (t.entries.map fun e => (e.1, f e.1 e.2)).map Prod.fst = t.entries.map Prod.fst := by
      simp [List.map_map, Function.comp_def]
    rw [h]
    exact t.nodup⟩

variable [DecidableEq κ]

/-- The row at a key. -/
def get (t : Table κ ρ) (k : κ) : Option ρ := t.entries.lookup k

/-- `UPDATE … WHERE key = k`. -/
def modifyAt (t : Table κ ρ) (k : κ) (f : ρ → ρ) : Table κ ρ :=
  t.modify fun k' r => if k' = k then f r else r

/-- `DELETE`: the rows under the keys are dropped; the others stay in order. -/
def deleteKeys (t : Table κ ρ) (ks : List κ) : Table κ ρ :=
  ⟨t.entries.filter fun e => e.1 ∉ ks,
    List.Nodup.sublist (List.Sublist.map _ List.filter_sublist) t.nodup⟩

/-- A key without a row is not among the keys. -/
theorem get_eq_none_iff {t : Table κ ρ} {k : κ} :
    t.get k = none ↔ k ∉ t.entries.map Prod.fst := by
  unfold get
  rw [List.lookup_eq_none_iff]
  constructor
  · intro h hk
    obtain ⟨e, he, rfl⟩ := List.mem_map.mp hk
    simpa using h e he
  · intro h e he
    have : k ≠ e.1 := fun hke => h (List.mem_map.mpr ⟨e, he, hke.symm⟩)
    simpa using this

/-- `INSERT`: a row under a new key, or `none` on a key that is present. -/
def insert (t : Table κ ρ) (k : κ) (r : ρ) : Option (Table κ ρ) :=
  if h : t.get k = none then
    some ⟨t.entries ++ [(k, r)], by
      have hk := get_eq_none_iff.mp h
      rw [List.map_append, List.nodup_append]
      refine ⟨t.nodup, by simp, ?_⟩
      rintro a ha b hb rfl
      simp only [List.map_cons, List.map_nil, List.mem_singleton] at hb
      exact hk (hb ▸ ha)⟩
  else none

/-- `INSERT … ON CONFLICT DO NOTHING`. -/
def insertIfAbsent (t : Table κ ρ) (k : κ) (r : ρ) : Table κ ρ := (t.insert k r).getD t

/-- The rows of the list are those found by their keys. -/
theorem mem_entries_iff {t : Table κ ρ} {k : κ} {r : ρ} :
    (k, r) ∈ t.entries ↔ t.get k = some r := by
  obtain ⟨es, hnd⟩ := t
  unfold get
  -- Induction on the rows: a key at the head is in no later row, since keys are distinct.
  induction es with
  | nil => simp
  | cons e es ih =>
    obtain ⟨k', r'⟩ := e
    simp only [List.map_cons, List.nodup_cons] at hnd
    have ih := ih hnd.2
    simp only at ih
    rw [List.lookup_cons, List.mem_cons, ih]
    by_cases hk : k = k'
    · subst hk
      have hout : List.lookup k es ≠ some r := by
        intro h
        exact hnd.1 (List.mem_map.mpr ⟨(k, r), ih.mpr h, rfl⟩)
      simp [hout, eq_comm]
    · simp [hk, beq_false_of_ne hk]

/-- The empty table has no row. -/
@[simp]
theorem get_empty (k : κ) : (empty : Table κ ρ).get k = none := rfl

/-- A change of all rows shows at every key. -/
@[simp]
theorem get_modify (t : Table κ ρ) (f : κ → ρ → ρ) (k : κ) :
    (t.modify f).get k = (t.get k).map (f k) := by
  obtain ⟨es, hnd⟩ := t
  unfold get modify
  dsimp only
  clear hnd
  induction es with
  | nil => rfl
  | cons e es ih =>
    obtain ⟨k', r⟩ := e
    simp only [List.map_cons, List.lookup_cons, ih]
    by_cases hk : k = k'
    · simp [hk]
    · simp [beq_false_of_ne hk]

/-- A change of one row shows at its key only. -/
@[simp]
theorem get_modifyAt (t : Table κ ρ) (k k' : κ) (f : ρ → ρ) :
    (t.modifyAt k f).get k' = if k' = k then (t.get k').map f else t.get k' := by
  unfold modifyAt
  rw [get_modify]
  by_cases hk : k' = k
  · simp [hk]
  · simp [hk]

/-- Deleted keys have no row. -/
@[simp]
theorem get_deleteKeys (t : Table κ ρ) (ks : List κ) (k : κ) :
    (t.deleteKeys ks).get k = if k ∈ ks then none else t.get k := by
  obtain ⟨es, hnd⟩ := t
  unfold get deleteKeys
  dsimp only
  clear hnd
  induction es with
  | nil => simp
  | cons e es ih =>
    obtain ⟨k', r⟩ := e
    by_cases hk' : k' ∈ ks
    · have hne : k ∉ ks → k ≠ k' := by
        rintro hk rfl
        exact hk hk'
      rw [List.filter_cons_of_neg (by simpa using hk'), ih, List.lookup_cons]
      by_cases hk : k ∈ ks
      · simp [hk]
      · simp [hk, beq_false_of_ne (hne hk)]
    · rw [List.filter_cons_of_pos (by simpa using hk'), List.lookup_cons, List.lookup_cons, ih]
      by_cases hkk : k = k'
      · subst hkk
        simp [hk']
      · simp [beq_false_of_ne hkk]

/-- An update that leaves the row of its key as it is. -/
theorem modifyAt_eq_self {t : Table κ ρ} {k : κ} {f : ρ → ρ} (h : ∀ r, t.get k = some r → f r = r) :
    t.modifyAt k f = t := by
  apply ext_entries
  show (t.entries.map fun e => (e.1, if e.1 = k then f e.2 else e.2)) = t.entries
  refine (List.map_congr_left fun e he => ?_).trans (List.map_id _)
  split_ifs with hk
  · rw [h e.2 (hk ▸ mem_entries_iff.mp he)]
    rfl
  · rfl

/-- What an insert that succeeds does: the key was free, and its row is the new one. -/
theorem get_of_insert {t t' : Table κ ρ} {k : κ} {r : ρ} (h : t.insert k r = some t') :
    t.get k = none ∧ ∀ k', t'.get k' = if k' = k then some r else t.get k' := by
  unfold insert at h
  split at h
  · rename_i hk
    simp only [Option.some.injEq] at h
    subst h
    refine ⟨hk, fun k' => ?_⟩
    unfold get at hk ⊢
    rw [List.lookup_append]
    by_cases hkk : k' = k
    · subst hkk
      simp [hk]
    · simp [hkk, List.lookup_cons, beq_false_of_ne hkk]
  · cases h

/-- A new row comes last. -/
theorem entries_of_insert {t t' : Table κ ρ} {k : κ} {r : ρ} (h : t.insert k r = some t') :
    t'.entries = t.entries ++ [(k, r)] := by
  unfold insert at h
  split at h
  · rw [← Option.some.inj h]
  · cases h

/-- An insert at a free key succeeds. -/
theorem insert_of_get_none {t : Table κ ρ} {k : κ} (h : t.get k = none) (r : ρ) :
    ∃ t', t.insert k r = some t' := by
  simp [insert, h]

/-- An insert at a key that is present fails. -/
theorem insert_of_get_some {t : Table κ ρ} {k : κ} {r₀ : ρ} (h : t.get k = some r₀) (r : ρ) :
    t.insert k r = none := by
  simp [insert, h]

/-- A row that is there stays, and a new one shows at its key only. -/
@[simp]
theorem get_insertIfAbsent (t : Table κ ρ) (k k' : κ) (r : ρ) :
    (t.insertIfAbsent k r).get k' =
      if k' = k then some ((t.get k).getD r) else t.get k' := by
  unfold insertIfAbsent
  cases hk : t.get k with
  | none =>
    obtain ⟨t', ht⟩ := insert_of_get_none hk r
    rw [ht, Option.getD_some, (get_of_insert ht).2 k']
    simp
  | some r₀ =>
    rw [insert_of_get_some hk r, Option.getD_none]
    by_cases hkk : k' = k
    · simp [hkk, hk]
    · simp [hkk]

end Table

end ExAgent.Lib
