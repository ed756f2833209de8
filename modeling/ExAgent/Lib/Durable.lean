import Mathlib.Data.List.Basic

/-!
# Programs with durable steps

A service call reads and writes a store by short transactions and can stop between any two of them:
its process dies, or an exception is raised. `Prog σ ε α` is a computation over a store of type `σ`
that returns an `α` or raises an `ε`, together with every state of the store it committed on the
way. Whoever looks after a crash sees the state before the call or one of these.

`Triple P m Q C` is the contract of such a program. From a state with `P` it returns only values and
states with `Q`; every state it commits, and the state in which it raises, has the crash condition
`C`. So `C` is what recovery may rely on, wherever the program stopped. The rules follow the
constructors of a program: a value, an exception, a read, a transaction, and one program after
another.
-/

namespace ExAgent.Lib

/-- What a run leaves: the states it committed, in order, the state it ends in, and its result. -/
structure Outcome (σ ε α : Type) where
  commits : List σ
  final : σ
  result : Except ε α

/-- A computation over a store. -/
def Prog (σ ε α : Type) : Type := σ → Outcome σ ε α

namespace Prog

variable {σ ε α β : Type}

/-- One program after another; an exception ends both. -/
def andThen (m : Prog σ ε α) (f : α → Prog σ ε β) : Prog σ ε β := fun s =>
  match (m s).result with
  | .ok a => ⟨(m s).commits ++ (f a (m s).final).commits, (f a (m s).final).final,
      (f a (m s).final).result⟩
  | .error e => ⟨(m s).commits, (m s).final, .error e⟩

instance : Monad (Prog σ ε) where
  pure a := fun s => ⟨[], s, .ok a⟩
  bind := andThen

/-- `raise`. -/
def raise (e : ε) : Prog σ ε α := fun s => ⟨[], s, .error e⟩

/-- A computation that does not touch the store. -/
def ofExcept (x : Except ε α) : Prog σ ε α := fun s => ⟨[], s, x⟩

/-- `if c: raise e`. -/
def refuseIf (c : Prop) [Decidable c] (e : ε) : Prog σ ε Unit :=
  if c then raise e else pure ()

/-- A value that has to be there. -/
def demand (x : Option α) (e : ε) : Prog σ ε α :=
  match x with
  | some a => pure a
  | none => raise e

/-- A read of the store, which may raise. -/
def query (f : σ → Except ε α) : Prog σ ε α := fun s => ⟨[], s, f s⟩

/-- A transaction: it commits a new state, or raises and leaves the old one. -/
def transact (f : σ → Except ε (α × σ)) : Prog σ ε α := fun s =>
  match f s with
  | .ok (a, s') => ⟨[s'], s', .ok a⟩
  | .error e => ⟨[], s, .error e⟩

/-- The contract of a program: precondition, postcondition, crash condition. -/
structure Triple (P : σ → Prop) (m : Prog σ ε α) (Q : α → σ → Prop) (C : σ → Prop) : Prop where
  /-- Every committed state meets the crash condition. -/
  commits : ∀ s, P s → ∀ c ∈ (m s).commits, C c
  /-- A value comes with the postcondition. -/
  returns : ∀ s, P s → ∀ a, (m s).result = .ok a → Q a (m s).final
  /-- An exception leaves a state with the crash condition. -/
  raises : ∀ s, P s → ∀ e, (m s).result = .error e → C (m s).final

namespace Triple

variable {P P' C : σ → Prop} {Q Q' : α → σ → Prop} {R : β → σ → Prop}

/-- The rule of a value. -/
theorem pure {a : α} (h : ∀ s, P s → Q a s) : Triple P (Pure.pure a : Prog σ ε α) Q C where
  commits _ _ _ hc := absurd hc List.not_mem_nil
  returns s hs b hb := by
    obtain rfl : a = b := Except.ok.inj hb
    exact h s hs
  raises _ _ _ he := absurd he (by simp [Pure.pure])

/-- The rule of an exception. -/
theorem raise {e : ε} (h : ∀ s, P s → C s) : Triple P (Prog.raise e : Prog σ ε α) Q C where
  commits _ _ _ hc := absurd hc List.not_mem_nil
  returns _ _ _ ha := absurd ha (by simp [Prog.raise])
  raises s hs _ _ := h s hs

/-- The rule of a computation aside: afterwards it is known to have returned. -/
theorem ofExcept {x : Except ε α} (h : ∀ s, P s → C s) :
    Triple P (Prog.ofExcept x) (fun a s => x = .ok a ∧ P s) C where
  commits _ _ _ hc := absurd hc List.not_mem_nil
  returns _ hs _ ha := ⟨ha, hs⟩
  raises s hs _ _ := h s hs

/-- The rule of a refusal: afterwards its condition is false. -/
theorem refuseIf {c : Prop} [Decidable c] {e : ε} (h : ∀ s, P s → C s) :
    Triple P (Prog.refuseIf c e : Prog σ ε Unit) (fun _ s => ¬c ∧ P s) C := by
  unfold Prog.refuseIf
  by_cases hc : c
  · rw [if_pos hc]
    exact .raise h
  · rw [if_neg hc]
    exact .pure fun s hs => ⟨hc, hs⟩

/-- The rule of a demand: afterwards the value is there. -/
theorem demand {x : Option α} {e : ε} (h : ∀ s, P s → C s) :
    Triple P (Prog.demand x e : Prog σ ε α) (fun a s => x = some a ∧ P s) C := by
  cases x with
  | some a => exact .pure fun s hs => ⟨rfl, hs⟩
  | none => exact .raise h

/-- The rule of a read: afterwards the store is known to hold what was read. -/
theorem query {f : σ → Except ε α} (h : ∀ s, P s → C s) :
    Triple P (Prog.query f) (fun a s => f s = .ok a ∧ P s) C where
  commits _ _ _ hc := absurd hc List.not_mem_nil
  returns _ hs _ ha := ⟨ha, hs⟩
  raises s hs _ _ := h s hs

/-- The rule of a transaction: what it commits meets the crash condition and the postcondition, and
where it raises the state it started from meets the crash condition. -/
theorem transact {f : σ → Except ε (α × σ)}
    (hok : ∀ s, P s → ∀ a s', f s = .ok (a, s') → C s' ∧ Q a s')
    (herr : ∀ s, P s → C s) : Triple P (Prog.transact f) Q C where
  commits s hs c hc := by
    unfold Prog.transact at hc
    split at hc
    · rename_i a s' hf
      obtain rfl := List.mem_singleton.mp hc
      exact (hok s hs a _ hf).1
    · exact absurd hc List.not_mem_nil
  returns s hs a ha := by
    unfold Prog.transact at ha ⊢
    split at ha
    · rename_i a' s' hf
      obtain rfl : a' = a := Except.ok.inj ha
      exact (hok s hs _ _ hf).2
    · exact absurd ha (by simp)
  raises s hs e he := by
    unfold Prog.transact at he ⊢
    split at he
    · exact absurd he (by simp)
    · exact herr s hs

/-- The rule of composition. -/
theorem bind {m : Prog σ ε α} {f : α → Prog σ ε β} (hm : Triple P m Q C)
    (hf : ∀ a, Triple (Q a) (f a) R C) : Triple P (m >>= f) R C where
  commits s hs c hc := by
    change c ∈ (andThen m f s).commits at hc
    unfold andThen at hc
    split at hc
    · rename_i a ha
      rcases List.mem_append.mp hc with hc | hc
      · exact hm.commits s hs c hc
      · exact (hf a).commits _ (hm.returns s hs a ha) c hc
    · exact hm.commits s hs c hc
  returns s hs b hb := by
    change R b (andThen m f s).final
    change (andThen m f s).result = .ok b at hb
    unfold andThen at hb ⊢
    split at hb
    · rename_i a ha
      exact (hf a).returns _ (hm.returns s hs a ha) b hb
    · exact absurd hb (by simp)
  raises s hs e he := by
    change C (andThen m f s).final
    change (andThen m f s).result = .error e at he
    unfold andThen at he ⊢
    split at he
    · rename_i a ha
      exact (hf a).raises _ (hm.returns s hs a ha) e he
    · rename_i e' he'
      exact hm.raises s hs e' he'

/-- The rule of consequence. -/
theorem weaken {m : Prog σ ε α} {C' : σ → Prop} (h : Triple P m Q C) (hP : ∀ s, P' s → P s)
    (hQ : ∀ a s, Q a s → Q' a s) (hC : ∀ s, C s → C' s) : Triple P' m Q' C' where
  commits s hs c hc := hC c (h.commits s (hP s hs) c hc)
  returns s hs a ha := hQ a _ (h.returns s (hP s hs) a ha)
  raises s hs e he := hC _ (h.raises s (hP s hs) e he)

/-- Two contracts of one program hold together. -/
theorem both {m : Prog σ ε α} {C' : σ → Prop} (h : Triple P m Q C) (h' : Triple P m Q' C') :
    Triple P m (fun a s => Q a s ∧ Q' a s) (fun s => C s ∧ C' s) where
  commits s hs c hc := ⟨h.commits s hs c hc, h'.commits s hs c hc⟩
  returns s hs a ha := ⟨h.returns s hs a ha, h'.returns s hs a ha⟩
  raises s hs e he := ⟨h.raises s hs e he, h'.raises s hs e he⟩

/-- A fact that does not depend on the store can be assumed. -/
theorem assume {p : Prop} {m : Prog σ ε α} (h : p → Triple P m Q C) :
    Triple (fun s => p ∧ P s) m Q C where
  commits s hs c hc := (h hs.1).commits s hs.2 c hc
  returns s hs a ha := (h hs.1).returns s hs.2 a ha
  raises s hs e he := (h hs.1).raises s hs.2 e he

/-- What a program keeps from each state it starts in, in a relation that an invariant follows, it
keeps as the invariant. -/
theorem along {I : σ → Prop} {R : σ → σ → Prop} {m : Prog σ ε α} (hrefl : ∀ s, R s s)
    (hI : ∀ s s', I s → R s s' → I s') (h : ∀ s, Triple (R s) m (fun _ => R s) (R s)) :
    Triple I m (fun _ => I) I where
  commits s hs c hc := hI s c hs ((h s).commits s (hrefl s) c hc)
  returns s hs a ha := hI s _ hs ((h s).returns s (hrefl s) a ha)
  raises s hs e he := hI s _ hs ((h s).raises s (hrefl s) e he)

/-- The contract that promises nothing. -/
theorem trivial (m : Prog σ ε α) : Triple P m (fun _ _ => True) fun _ => True :=
  ⟨fun _ _ _ _ => True.intro, fun _ _ _ _ => True.intro, fun _ _ _ _ => True.intro⟩

end Triple

/-! ## Programs that keep a condition -/

/-- The program keeps a condition, wherever it stops. -/
def Steady (I : σ → Prop) (m : Prog σ ε α) : Prop := Triple I m (fun _ => I) I

namespace Steady

variable {I : σ → Prop}

/-- A value keeps the condition: nothing is committed. -/
theorem pure (a : α) : Steady I (Pure.pure a : Prog σ ε α) := Triple.pure fun _ h => h

/-- So does a raised error. -/
theorem raise (e : ε) : Steady I (Prog.raise e : Prog σ ε α) := Triple.raise fun _ h => h

/-- So does a result that is computed. -/
theorem ofExcept (x : Except ε α) : Steady I (Prog.ofExcept x) :=
  (Triple.ofExcept fun _ h => h).weaken (fun _ h => h) (fun _ _ h => h.2) fun _ h => h

/-- So does a refusal. -/
theorem refuseIf (c : Prop) [Decidable c] (e : ε) : Steady I (Prog.refuseIf c e : Prog σ ε Unit) :=
  (Triple.refuseIf fun _ h => h).weaken (fun _ h => h) (fun _ _ h => h.2) fun _ h => h

/-- So does a demand. -/
theorem demand (x : Option α) (e : ε) : Steady I (Prog.demand x e : Prog σ ε α) :=
  (Triple.demand fun _ h => h).weaken (fun _ h => h) (fun _ _ h => h.2) fun _ h => h

/-- A query reads only. -/
theorem query (f : σ → Except ε α) : Steady I (Prog.query f) :=
  (Triple.query fun _ h => h).weaken (fun _ h => h) (fun _ _ h => h.2) fun _ h => h

/-- A transaction keeps what its commits keep. -/
theorem transact {f : σ → Except ε (α × σ)}
    (hf : ∀ s, I s → ∀ a s', f s = .ok (a, s') → I s') : Steady I (Prog.transact f) :=
  Triple.transact (fun s hs a s' h => ⟨hf s hs a s' h, hf s hs a s' h⟩) fun _ h => h

/-- Programs that keep the condition compose. -/
theorem bind {m : Prog σ ε α} {f : α → Prog σ ε β} (hm : Steady I m)
    (hf : ∀ a, Steady I (f a)) : Steady I (m >>= f) := Triple.bind hm hf

end Steady

/-! ## Exceptions -/

/-- Whatever the program raises has the property. -/
def Raises (m : Prog σ ε α) (E : ε → Prop) : Prop := ∀ s e, (m s).result = .error e → E e

namespace Raises

variable {E : ε → Prop}

/-- A value raises nothing. -/
theorem pure {a : α} : Raises (Pure.pure a : Prog σ ε α) E := fun _ _ h => absurd h nofun

/-- An error that is allowed may be raised. -/
theorem raise {e : ε} (h : E e) : Raises (Prog.raise e : Prog σ ε α) E := by
  intro s e' he
  obtain rfl : e = e' := Except.error.inj he
  exact h

/-- A refusal raises its error only. -/
theorem refuseIf {c : Prop} [Decidable c] {e : ε} (h : c → E e) :
    Raises (Prog.refuseIf c e : Prog σ ε Unit) E := by
  unfold Prog.refuseIf
  split
  · rename_i hc
    exact .raise (h hc)
  · exact .pure

/-- A demand raises its error only. -/
theorem demand {x : Option α} {e : ε} (h : E e) : Raises (Prog.demand x e : Prog σ ε α) E := by
  cases x with
  | some a => exact .pure
  | none => exact .raise h

/-- A transaction raises the errors of its function. -/
theorem transact {f : σ → Except ε (α × σ)} (h : ∀ s e, f s = .error e → E e) :
    Raises (Prog.transact f) E := by
  intro s e he
  unfold Prog.transact at he
  split at he
  · exact absurd he nofun
  · rename_i e' hf
    obtain rfl : e' = e := Except.error.inj he
    exact h s e' hf

/-- The errors of a sequence are those of its parts. -/
theorem bind {m : Prog σ ε α} {f : α → Prog σ ε β} (hm : Raises m E) (hf : ∀ a, Raises (f a) E) :
    Raises (m >>= f) E := by
  intro s e he
  change (andThen m f s).result = .error e at he
  unfold andThen at he
  split at he
  · exact hf _ _ e he
  · rename_i e' he'
    obtain rfl : e' = e := Except.error.inj he
    exact hm s e' he'

end Raises

/-- The state a stopped program leaves: the one it started from when nothing was committed yet, or
the one it committed last. -/
def stoppedAt (m : Prog σ ε α) (s : σ) (k : ℕ) : Option σ := (s :: (m s).commits)[k]?

/-- Wherever a program stops, its crash condition holds, if it held at the start. -/
theorem Triple.stoppedAt {P C : σ → Prop} {Q : α → σ → Prop} {m : Prog σ ε α}
    (h : Triple P m Q C) {s s' : σ} {k : ℕ} (hP : P s) (hC : C s)
    (hs : m.stoppedAt s k = some s') : C s' := by
  rcases List.mem_cons.mp (List.mem_of_getElem? hs) with rfl | hmem
  · exact hC
  · exact h.commits s hP s' hmem

end Prog

end ExAgent.Lib
