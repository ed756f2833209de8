import Mathlib.Data.List.Forall2
import Mathlib.Data.Option.Basic

/-!
# Calls that may raise

A call that may raise is an `Except`. The lemmas say when a composed call returns, so that a proof
takes a call apart step by step without unfolding the monad.
-/

namespace ExAgent.Lib.Fallible

variable {ε : Type*} {α β : Type}

/-- A sequence returns when its first call returns and the rest does. -/
theorem bind_eq_ok {x : Except ε α} {f : α → Except ε β} {b : β} :
    x >>= f = .ok b ↔ ∃ a, x = .ok a ∧ f a = .ok b := by
  cases x with
  | error e => simp [bind, Except.bind]
  | ok a => simp [bind, Except.bind]

/-- A call whose result is mapped returns when the call does. -/
theorem map_eq_ok {x : Except ε α} {f : α → β} {b : β} :
    x.map f = .ok b ↔ ∃ a, x = .ok a ∧ f a = b := by
  cases x with
  | error e => simp [Except.map]
  | ok a => simp [Except.map]

/-- A check before a call lets the call return when it holds. -/
theorem ite_eq_ok {c : Prop} [Decidable c] {e : ε} {x : Except ε α} {a : α} :
    (if c then .error e else x) = .ok a ↔ ¬c ∧ x = .ok a := by
  by_cases hc : c
  · simp [hc]
  · simp [hc]

/-- The result of a call that returned. -/
theorem toOption_eq_some {x : Except ε α} {a : α} : x.toOption = some a ↔ x = .ok a := by
  cases x with
  | error e => simp [Except.toOption]
  | ok a => simp [Except.toOption]

/-- A traversal whose every call succeeds is a map. -/
theorem mapM_eq_some {f : α → Option β} {g : α → β} (as : List α)
    (h : ∀ a ∈ as, f a = some (g a)) : as.mapM f = some (as.map g) := by
  induction as with
  | nil => rfl
  | cons a as ih =>
    have hhead := h a List.mem_cons_self
    have htail := ih fun b hb => h b (List.mem_cons_of_mem a hb)
    rw [List.mapM_cons, hhead, htail]
    rfl

/-- The results of a traversal are those of its calls. -/
theorem of_mem_mapM {f : α → Option β} {as : List α} {bs : List β} (h : as.mapM f = some bs) {b : β}
    (hb : b ∈ bs) : ∃ a ∈ as, f a = some b := by
  induction as generalizing bs with
  | nil =>
    obtain rfl : [] = bs := Option.some.inj h
    cases hb
  | cons a as ih =>
    rw [List.mapM_cons] at h
    obtain ⟨head, hhead, h⟩ := Option.bind_eq_some_iff.mp h
    obtain ⟨tail, htail, h⟩ := Option.bind_eq_some_iff.mp h
    obtain rfl := Option.some.inj h
    rcases List.mem_cons.mp hb with rfl | hb
    · exact ⟨a, List.mem_cons_self, hhead⟩
    · obtain ⟨a', ha', hfa'⟩ := ih htail hb
      exact ⟨a', List.mem_cons_of_mem a ha', hfa'⟩

/-- A traversal whose every call succeeds does so, and its results have the keys of the calls. -/
theorem mapM_keys {γ : Type*} {f : α → Option β} {g : α → γ} {key : β → γ} (as : List α)
    (h : ∀ a ∈ as, ∃ b, f a = some b ∧ key b = g a) :
    ∃ bs, as.mapM f = some bs ∧ bs.map key = as.map g := by
  induction as with
  | nil => exact ⟨[], rfl, rfl⟩
  | cons a as ih =>
    obtain ⟨b, hb, hkey⟩ := h a List.mem_cons_self
    obtain ⟨bs, hbs, hkeys⟩ := ih fun a ha => h a (List.mem_cons_of_mem _ ha)
    refine ⟨b :: bs, ?_, by rw [List.map_cons, List.map_cons, hkey, hkeys]⟩
    rw [List.mapM_cons, hb, hbs]
    rfl

/-- A list of calls returns when each of them does. -/
theorem mapM_eq_ok {f : α → Except ε β} {as : List α} {bs : List β} :
    as.mapM f = .ok bs ↔ List.Forall₂ (fun a b => f a = .ok b) as bs := by
  induction as generalizing bs with
  | nil =>
    rw [List.mapM_nil, List.forall₂_nil_left_iff]
    exact ⟨fun h => (Except.ok.inj h).symm, fun h => congrArg Except.ok h.symm⟩
  | cons a as ih =>
    rw [List.mapM_cons]
    constructor
    · intro h
      obtain ⟨b, hb, h⟩ := bind_eq_ok.mp h
      obtain ⟨rest, hrest, h⟩ := bind_eq_ok.mp h
      obtain rfl := Except.ok.inj h
      exact .cons hb (ih.mp hrest)
    · intro h
      cases h with
      | cons hb hrest => exact bind_eq_ok.mpr ⟨_, hb, bind_eq_ok.mpr ⟨_, ih.mpr hrest, rfl⟩⟩

/-- A list of calls raises what one of them raises. -/
theorem mapM_eq_error {f : α → Except ε β} {as : List α} {e : ε} (h : as.mapM f = .error e) :
    ∃ a ∈ as, f a = .error e := by
  induction as with
  | nil => cases h
  | cons a as ih =>
    rw [List.mapM_cons] at h
    cases hf : f a with
    | error e' =>
      rw [hf] at h
      obtain rfl : e' = e := Except.error.inj h
      exact ⟨a, List.mem_cons_self, hf⟩
    | ok b =>
      rw [hf] at h
      cases hrest : as.mapM f with
      | error e' =>
        rw [show as.mapM f = .error e' from hrest] at ih
        have herr : Except.error e' = (Except.error e : Except ε (List β)) := by
          replace h : (as.mapM f >>= fun bs => pure (b :: bs)) = .error e := h
          rw [hrest] at h
          exact congrArg Except.error (Except.error.inj h)
        obtain ⟨a', ha', hf'⟩ := ih herr
        exact ⟨a', List.mem_cons_of_mem _ ha', hf'⟩
      | ok bs =>
        replace h : (as.mapM f >>= fun bs => pure (b :: bs)) = .error e := h
        rw [hrest] at h
        cases h

/-- Where each call returns, the list of calls returns. -/
theorem exists_mapM {f : α → Except ε β} {as : List α} (h : ∀ a ∈ as, ∃ b, f a = .ok b) :
    ∃ bs, as.mapM f = .ok bs := by
  cases hmap : as.mapM f with
  | ok bs => exact ⟨bs, rfl⟩
  | error e =>
    obtain ⟨a, ha, hf⟩ := mapM_eq_error hmap
    obtain ⟨b, hb⟩ := h a ha
    rw [hf] at hb
    cases hb

/-- What every round of a loop keeps holds at its end. -/
theorem foldlM_invariant {σ : Type} {f : σ → α → Except ε σ} (Inv : σ → Prop)
    (hstep : ∀ s a s', Inv s → f s a = .ok s' → Inv s') {as : List α} {s s' : σ} (hs : Inv s)
    (h : as.foldlM f s = .ok s') : Inv s' := by
  induction as generalizing s with
  | nil =>
    obtain rfl := Except.ok.inj h
    exact hs
  | cons a as ih =>
    rw [List.foldlM_cons] at h
    obtain ⟨t, ht, h⟩ := bind_eq_ok.mp h
    exact ih (hstep s a t hs ht) h

end ExAgent.Lib.Fallible
