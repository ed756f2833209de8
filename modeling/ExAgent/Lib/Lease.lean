import Mathlib.Order.Nat

/-!
# Keys that expire

A key of a store holds a token until it expires: it is set when it is free, and renewed and deleted
with its token only. `Covers` says that a token owns the key up to some time; until then no
operation with another token changes that.
-/

namespace ExAgent.Lib

/-- The token of a key, with the last moment at which it is there. -/
structure Lease (τ : Type*) where
  holder : Option (τ × ℕ) := none

namespace Lease

variable {τ : Type*}

/-- The token, while it has not expired. -/
def owner (l : Lease τ) (now : ℕ) : Option τ :=
  match l.holder with
  | some (t, expires) => if now ≤ expires then some t else none
  | none => none

/-- The key is set for some time, if it is free. -/
def setNx (l : Lease τ) (now ttl : ℕ) (t : τ) : Bool × Lease τ :=
  if l.owner now = none then (true, ⟨some (t, now + ttl)⟩) else (false, l)

/-- The key is there for some more time, if the token is that of the key. -/
def renew [DecidableEq τ] (l : Lease τ) (now ttl : ℕ) (t : τ) : Bool × Lease τ :=
  if l.owner now = some t then (true, ⟨some (t, now + ttl)⟩) else (false, l)

/-- The key is deleted, if the token is that of the key. -/
def release [DecidableEq τ] (l : Lease τ) (now : ℕ) (t : τ) : Lease τ :=
  if l.owner now = some t then {} else l

/-- The token owns the key up to this time. -/
def Covers (l : Lease τ) (t : τ) (upTo : ℕ) : Prop :=
  ∃ expires, l.holder = some (t, expires) ∧ upTo ≤ expires

variable {l : Lease τ} {t t' : τ} {now ttl n n' : ℕ}

/-- Within the time it covers, a lease has its owner. -/
theorem Covers.owner (h : l.Covers t n) (hnow : now ≤ n) : l.owner now = some t := by
  obtain ⟨expires, hholder, hn⟩ := h
  unfold Lease.owner
  rw [hholder]
  exact if_pos (hnow.trans hn)

/-- A lease that covers a time covers every earlier one. -/
theorem Covers.mono (h : l.Covers t n) (hn : n' ≤ n) : l.Covers t n' := by
  obtain ⟨expires, hholder, hle⟩ := h
  exact ⟨expires, hholder, hn.trans hle⟩

/-- A key has one token. -/
theorem Covers.unique (h : l.Covers t n) (h' : l.Covers t' n') : t = t' := by
  obtain ⟨_, hholder, -⟩ := h
  obtain ⟨_, hholder', -⟩ := h'
  exact congrArg Prod.fst (Option.some.inj (hholder.symm.trans hholder'))

/-- A key that is set is owned for its time. -/
theorem setNx_covers (h : (l.setNx now ttl t).1 = true) :
    (l.setNx now ttl t).2.Covers t (now + ttl) := by
  unfold setNx at h ⊢
  split
  · exact ⟨now + ttl, rfl, le_rfl⟩
  · next hfree =>
    rw [if_neg hfree] at h
    cases h

/-- A key that is owned is not set. -/
theorem Covers.setNx (h : l.Covers t n) (hnow : now ≤ n) : l.setNx now ttl t' = (false, l) :=
  if_neg (by rw [h.owner hnow]; exact Option.some_ne_none t)

/-- A key that has expired is set. -/
theorem setNx_expired {expires : ℕ} (h : expires < now) :
    Lease.setNx ⟨some (t, expires)⟩ now ttl t' = (true, ⟨some (t', now + ttl)⟩) :=
  if_pos (if_neg (Nat.not_le.mpr h))

variable [DecidableEq τ]

/-- The owner renews the key. -/
theorem Covers.renew (h : l.Covers t n) (hnow : now ≤ n) :
    l.renew now ttl t = (true, ⟨some (t, now + ttl)⟩) :=
  if_pos (h.owner hnow)

/-- Nobody else does. -/
theorem Covers.renew_of_ne (h : l.Covers t n) (hnow : now ≤ n) (hne : t' ≠ t) :
    l.renew now ttl t' = (false, l) :=
  if_neg (by rw [h.owner hnow]; exact fun heq => hne (Option.some.inj heq).symm)

/-- Nobody else deletes the key. -/
theorem Covers.release_of_ne (h : l.Covers t n) (hnow : now ≤ n) (hne : t' ≠ t) :
    l.release now t' = l :=
  if_neg (by rw [h.owner hnow]; exact fun heq => hne (Option.some.inj heq).symm)

end Lease

end ExAgent.Lib
