import Mathlib.Data.Nat.Notation
import Mathlib.Data.Option.Basic

/-!
# Numbers in groups

Items with a number in a group, and the latest number of each group. Adding the next number of a
group, which may be a new one, is the only change.
-/

namespace ExAgent.Lib

/-- The items of each group have exactly the numbers from one to the latest of the group, each
once. -/
structure Numbering {ι ω : Type} (number : ι → Option (ω × ℕ)) (latest : ω → Option ℕ) : Prop where
  inside : ∀ i w n, number i = some (w, n) → ∃ m, latest w = some m ∧ 1 ≤ n ∧ n ≤ m
  full : ∀ w m n, latest w = some m → 1 ≤ n → n ≤ m → ∃ i, number i = some (w, n)
  distinct : ∀ i j x, number i = some x → number j = some x → i = j

/-- The next number of a group, which may be new. -/
theorem Numbering.next {ι ω : Type} [DecidableEq ι] [DecidableEq ω]
    {number number' : ι → Option (ω × ℕ)} {latest latest' : ω → Option ℕ}
    (h : Numbering number latest) {i : ι} {w : ω} {m : ℕ} (hi : number i = none)
    (hm : latest w = some m ∨ latest w = none ∧ m = 0)
    (hnumber : ∀ j, number' j = if j = i then some (w, m + 1) else number j)
    (hlatest : ∀ v, latest' v = if v = w then some (m + 1) else latest v) :
    Numbering number' latest' where
  inside j v n hj := by
    rw [hnumber] at hj
    split at hj
    · obtain ⟨rfl, rfl⟩ := Prod.mk.inj (Option.some.inj hj)
      exact ⟨m + 1, by rw [hlatest, if_pos rfl], by omega, Nat.le_refl _⟩
    · obtain ⟨k, hk, hn, hnk⟩ := h.inside j v n hj
      by_cases hv : v = w
      · subst hv
        rcases hm with hm | ⟨hm, -⟩
        · obtain rfl := Option.some.inj (hk.symm.trans hm)
          exact ⟨k + 1, by rw [hlatest, if_pos rfl], hn, by omega⟩
        · exact absurd (hk.symm.trans hm) (by simp)
      · exact ⟨k, by rw [hlatest, if_neg hv, hk], hn, hnk⟩
  full v k n hk hn hnk := by
    -- The new number is that of the new item, the others were there.
    have hold : ∀ j, number j = some (v, n) → number' j = some (v, n) := by
      intro j hj
      have hne : j ≠ i := by
        rintro rfl
        simp [hi] at hj
      rw [hnumber, if_neg hne, hj]
    rw [hlatest] at hk
    split at hk
    · rename_i hv
      subst hv
      obtain rfl := Option.some.inj hk
      by_cases hlast : n = m + 1
      · exact ⟨i, by rw [hnumber, if_pos rfl, hlast]⟩
      · rcases hm with hm | ⟨-, rfl⟩
        · obtain ⟨j, hj⟩ := h.full v m n hm hn (by omega)
          exact ⟨j, hold j hj⟩
        · omega
    · obtain ⟨j, hj⟩ := h.full v k n hk hn hnk
      exact ⟨j, hold j hj⟩
  distinct j k x hj hk := by
    -- The new number was free.
    have hfree : ∀ j, number j ≠ some (w, m + 1) := by
      intro j hj
      obtain ⟨k, hk, -, hle⟩ := h.inside j w (m + 1) hj
      rcases hm with hm | ⟨hm, -⟩
      · obtain rfl := Option.some.inj (hk.symm.trans hm)
        omega
      · exact absurd (hk.symm.trans hm) (by simp)
    rw [hnumber] at hj hk
    split at hj
    · rename_i hji
      split at hk
      · rename_i hki
        rw [hji, hki]
      · exact absurd (hk.trans hj.symm) (hfree k)
    · split at hk
      · exact absurd (hj.trans hk.symm) (hfree j)
      · exact h.distinct j k x hj hk

end ExAgent.Lib
