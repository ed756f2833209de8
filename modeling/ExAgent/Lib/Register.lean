import Mathlib.Order.Bounds.Basic

/-!
# Last-writer registers

A register holds a value under a stamp. A write under a later stamp takes its place, any other write
is obsolete and is dropped. When a stamp names one value, a register that took a list of writes
holds the greatest of them, so that neither their order nor their repetition can be seen in it
(`Register.putAll_eq`).
-/

namespace ExAgent.Lib

/-- A value under its stamp: the content of a register, and a write to it. -/
@[ext]
structure Register (κ ν : Type*) where
  stamp : κ
  value : ν

namespace Register

variable {κ ν : Type*} [LinearOrder κ]

/-- A write, which counts when its stamp is the later one. -/
def put (r w : Register κ ν) : Register κ ν := if r.stamp < w.stamp then w else r

/-- Writes one after another. -/
def putAll (r : Register κ ν) (ws : List (Register κ ν)) : Register κ ν := ws.foldl put r

/-- The stamps name one value each. -/
def Agree (ws : List (Register κ ν)) : Prop :=
  ∀ a ∈ ws, ∀ b ∈ ws, a.stamp = b.stamp → a = b

/-- Writes are put one after the other. -/
theorem putAll_cons (r w : Register κ ν) (ws : List (Register κ ν)) :
    r.putAll (w :: ws) = (r.put w).putAll ws := rfl

/-- Two runs of writes are one run. -/
theorem putAll_append (r : Register κ ν) (ws ws' : List (Register κ ν)) :
    r.putAll (ws ++ ws') = (r.putAll ws).putAll ws' :=
  List.foldl_append

/-- The stamp of a register is the greater one of the two. -/
theorem stamp_put (r w : Register κ ν) : (r.put w).stamp = max r.stamp w.stamp := by
  unfold put
  split_ifs with h
  · exact (max_eq_right h.le).symm
  · exact (max_eq_left (not_lt.mp h)).symm

/-- A register holds what it held or one of the writes. -/
theorem putAll_mem (r : Register κ ν) (ws : List (Register κ ν)) : r.putAll ws ∈ r :: ws := by
  induction ws generalizing r with
  | nil => exact List.mem_singleton_self r
  | cons w ws ih =>
    rw [putAll_cons]
    rcases List.mem_cons.mp (ih (r.put w)) with h | h
    · rw [h]
      unfold put
      split_ifs
      · exact List.mem_cons_of_mem _ List.mem_cons_self
      · exact List.mem_cons_self
    · exact List.mem_cons_of_mem _ (List.mem_cons_of_mem _ h)

/-- Its stamp is not below that of what it held. -/
theorem stamp_le_putAll (r : Register κ ν) (ws : List (Register κ ν)) :
    r.stamp ≤ (r.putAll ws).stamp := by
  induction ws generalizing r with
  | nil => exact le_refl r.stamp
  | cons w ws ih =>
    have hput : r.stamp ≤ (r.put w).stamp := by
      rw [stamp_put]
      exact le_max_left _ _
    exact hput.trans (ih (r.put w))

/-- Nor below that of any write. -/
theorem le_putAll {r a : Register κ ν} {ws : List (Register κ ν)} (ha : a ∈ r :: ws) :
    a.stamp ≤ (r.putAll ws).stamp := by
  induction ws generalizing r with
  | nil =>
    obtain rfl := List.mem_singleton.mp ha
    exact le_refl a.stamp
  | cons w ws ih =>
    have hput : ∀ b ∈ [r, w], b.stamp ≤ (r.put w).stamp := by
      intro b hb
      rw [stamp_put]
      rcases List.mem_cons.mp hb with rfl | hb
      · exact le_max_left _ _
      · obtain rfl := List.mem_singleton.mp hb
        exact le_max_right _ _
    rcases List.mem_cons.mp ha with rfl | ha
    · exact (hput a List.mem_cons_self).trans (stamp_le_putAll _ ws)
    · rcases List.mem_cons.mp ha with rfl | ha
      · exact (hput a (List.mem_cons_of_mem _ List.mem_cons_self)).trans (stamp_le_putAll _ ws)
      · exact ih (List.mem_cons_of_mem _ ha)

/-- The stamp is the greatest one that was written. -/
theorem isGreatest_putAll (r : Register κ ν) (ws : List (Register κ ν)) :
    IsGreatest {k | ∃ a ∈ r :: ws, a.stamp = k} (r.putAll ws).stamp := by
  refine ⟨⟨_, putAll_mem r ws, rfl⟩, ?_⟩
  rintro k ⟨a, ha, rfl⟩
  exact le_putAll ha

/-- Neither the order of the writes nor their repetition matters. -/
theorem putAll_eq {r : Register κ ν} {ws ws' : List (Register κ ν)} (hagree : Agree (r :: ws))
    (hmem : ∀ a, a ∈ r :: ws ↔ a ∈ r :: ws') : r.putAll ws = r.putAll ws' := by
  have hmine := putAll_mem r ws
  have hother := (hmem _).mpr (putAll_mem r ws')
  refine hagree _ hmine _ hother ?_
  exact le_antisymm (le_putAll ((hmem _).mp hmine)) (le_putAll hother)

end Register

end ExAgent.Lib
