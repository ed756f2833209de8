import Mathlib.Data.Option.Basic
import Mathlib.Logic.Relation

/-!
# Labelled transition systems

The components of the development are systems that take one atomic step after another: a database
transaction, a message, a crash. A system is a set of initial states and a step function that is
partial in the action: `none` says that the action is not possible in the state. All choices made by
the environment (which process moves, what a service answers, whether a call fails) are part of the
action, so that the step function computes and a run is a list of actions.

`ReachableWhen C` is reachability by steps that all meet the condition `C`. The unconditional
notion, `Reachable`, is its instance at the condition that always holds. Invariants are proved by
one rule for both (`ReachableWhen.invariant`), and facts that stay true from some state on by
`Leads.stable`.
-/

namespace ExAgent.Lib

/-- A labelled transition system: initial states, and a step that is partial in the action. -/
structure Machine (σ α : Type*) where
  /-- The states a run can start in. -/
  init : σ → Prop
  /-- The successor of a state under an action, or `none` when the action is not possible. -/
  step : σ → α → Option σ

namespace Machine

variable {σ α : Type*} (M : Machine σ α)

/-- States reached by a run whose steps all meet the condition `C`. -/
inductive ReachableWhen (C : σ → α → Prop) : σ → Prop
  | start {s : σ} (hs : M.init s) : ReachableWhen C s
  | next {s s' : σ} {a : α} (hr : ReachableWhen C s) (hc : C s a) (hs : M.step s a = some s') :
      ReachableWhen C s'

/-- States reached by any run. -/
def Reachable (s : σ) : Prop := M.ReachableWhen (fun _ _ => True) s

/-- `M.Leads s s'`: some run goes from `s` to `s'`. -/
def Leads : σ → σ → Prop := Relation.ReflTransGen fun s s' => ∃ a, M.step s a = some s'

/-- `M.LeadsWhen C s s'`: some run whose steps all meet the condition `C` goes from `s` to `s'`. -/
def LeadsWhen (C : σ → α → Prop) : σ → σ → Prop :=
  Relation.ReflTransGen fun s s' => ∃ a, C s a ∧ M.step s a = some s'

/-- The states visited by a list of actions, the last one as the result. -/
def run (s : σ) : List α → Option σ
  | [] => some s
  | a :: as => (M.step s a).bind fun s' => run s' as

/-- The same, as long as every step meets the condition `C`. -/
def runIf (C : σ → α → Prop) [∀ s a, Decidable (C s a)] (s : σ) : List α → Option σ
  | [] => some s
  | a :: as => if C s a then (M.step s a).bind fun s' => runIf C s' as else none

variable {M}

/-- The invariant rule: what holds initially and is kept by every step that meets the condition
holds in every state reached by such steps. The step may use that its first state is reachable. -/
theorem ReachableWhen.invariant {C : σ → α → Prop} {Inv : σ → Prop}
    (hinit : ∀ s, M.init s → Inv s)
    (hstep : ∀ s a s', M.ReachableWhen C s → Inv s → C s a → M.step s a = some s' → Inv s')
    {s : σ} (hr : M.ReachableWhen C s) : Inv s := by
  induction hr with
  | start hs => exact hinit _ hs
  | next hr hc hs ih => exact hstep _ _ _ hr ih hc hs

/-- A conditional run is a run. -/
theorem ReachableWhen.reachable {C : σ → α → Prop} {s : σ} (hr : M.ReachableWhen C s) :
    M.Reachable s := by
  induction hr with
  | start hs => exact .start hs
  | next _ _ hs ih => exact .next ih trivial hs

/-- The invariant rule for unconditional runs. -/
theorem Reachable.invariant {Inv : σ → Prop} (hinit : ∀ s, M.init s → Inv s)
    (hstep : ∀ s a s', M.Reachable s → Inv s → M.step s a = some s' → Inv s')
    {s : σ} (hr : M.Reachable s) : Inv s :=
  ReachableWhen.invariant hinit (fun s a s' hr hi _ hs => hstep s a s' hr hi hs) hr

/-- One more step of a run. -/
theorem Reachable.step {s s' : σ} {a : α} (hr : M.Reachable s) (hs : M.step s a = some s') :
    M.Reachable s' :=
  .next hr trivial hs

/-- A run prolonged by another one is a run. -/
theorem Reachable.leads {s s' : σ} (hr : M.Reachable s) (hl : M.Leads s s') : M.Reachable s' := by
  induction hl with
  | refl => exact hr
  | tail _ hs ih =>
    obtain ⟨a, hs⟩ := hs
    exact ih.step hs

/-- What every step from a reachable state keeps stays true along every run. -/
theorem Leads.stable {P : σ → Prop}
    (hstep : ∀ s a s', M.Reachable s → P s → M.step s a = some s' → P s')
    {s s' : σ} (hr : M.Reachable s) (hP : P s) (hl : M.Leads s s') : P s' := by
  induction hl with
  | refl => exact hP
  | tail hl hs ih =>
    obtain ⟨a, hs⟩ := hs
    exact hstep _ a _ (hr.leads hl) ih hs

/-- A conditional run is a run. -/
theorem LeadsWhen.leads {C : σ → α → Prop} {s s' : σ} (hl : M.LeadsWhen C s s') : M.Leads s s' := by
  induction hl with
  | refl => exact Relation.ReflTransGen.refl
  | tail _ hs ih =>
    obtain ⟨a, -, hs⟩ := hs
    exact Relation.ReflTransGen.tail ih ⟨a, hs⟩

/-- What every step that meets the condition keeps stays true along every such run. -/
theorem LeadsWhen.stable {C : σ → α → Prop} {P : σ → Prop}
    (hstep : ∀ s a s', M.Reachable s → P s → C s a → M.step s a = some s' → P s')
    {s s' : σ} (hr : M.Reachable s) (hP : P s) (hl : M.LeadsWhen C s s') : P s' := by
  induction hl with
  | refl => exact hP
  | tail hl hs ih =>
    obtain ⟨a, hc, hs⟩ := hs
    exact hstep _ a _ (hr.leads (LeadsWhen.leads hl)) ih hc hs

/-- A list of actions goes from its start to its end. -/
theorem Leads.run {s s' : σ} {as : List α} (h : M.run s as = some s') : M.Leads s s' := by
  induction as generalizing s with
  | nil =>
    obtain rfl : s = s' := by simpa [Machine.run] using h
    exact Relation.ReflTransGen.refl
  | cons a as ih =>
    obtain ⟨t, ht, h⟩ := Option.bind_eq_some_iff.mp h
    exact Relation.ReflTransGen.head ⟨a, ht⟩ (ih h)

/-- A list of actions that all meet the condition goes from its start to its end under it. -/
theorem LeadsWhen.runIf {C : σ → α → Prop} [∀ s a, Decidable (C s a)] {s s' : σ} {as : List α}
    (h : M.runIf C s as = some s') : M.LeadsWhen C s s' := by
  induction as generalizing s with
  | nil =>
    obtain rfl : s = s' := by simpa [Machine.runIf] using h
    exact Relation.ReflTransGen.refl
  | cons a as ih =>
    unfold Machine.runIf at h
    split at h
    · rename_i hc
      obtain ⟨t, ht, h⟩ := Option.bind_eq_some_iff.mp h
      exact Relation.ReflTransGen.head ⟨a, hc, ht⟩ (ih h)
    · exact absurd h (by simp)

/-- One list of actions after another. -/
theorem run_append (s : σ) (as bs : List α) :
    M.run s (as ++ bs) = (M.run s as).bind fun s' => M.run s' bs := by
  induction as generalizing s with
  | nil => rfl
  | cons a as ih => simp [Machine.run, ih, Option.bind_assoc]

/-- The end of a list of actions is reachable when its start is. -/
theorem Reachable.run {s s' : σ} {as : List α} (hr : M.Reachable s)
    (h : M.run s as = some s') : M.Reachable s' := by
  induction as generalizing s with
  | nil =>
    obtain rfl : s = s' := by simpa [Machine.run] using h
    exact hr
  | cons a as ih =>
    obtain ⟨t, ht, h⟩ := Option.bind_eq_some_iff.mp h
    exact ih (hr.step ht) h

/-- A checked list of actions visits the same states. -/
theorem run_of_runIf {C : σ → α → Prop} [∀ s a, Decidable (C s a)] {s s' : σ} {as : List α}
    (h : M.runIf C s as = some s') : M.run s as = some s' := by
  induction as generalizing s with
  | nil => exact h
  | cons a as ih =>
    unfold Machine.runIf at h
    split at h
    · obtain ⟨t, ht, h⟩ := Option.bind_eq_some_iff.mp h
      exact Option.bind_eq_some_iff.mpr ⟨t, ht, ih h⟩
    · exact absurd h (by simp)

/-- A list of actions that all meet the condition reaches its end under the condition. -/
theorem ReachableWhen.runIf {C : σ → α → Prop} [∀ s a, Decidable (C s a)] {s s' : σ} {as : List α}
    (hr : M.ReachableWhen C s) (h : M.runIf C s as = some s') : M.ReachableWhen C s' := by
  induction as generalizing s with
  | nil =>
    obtain rfl : s = s' := by simpa [Machine.runIf] using h
    exact hr
  | cons a as ih =>
    unfold Machine.runIf at h
    split at h
    · rename_i hc
      obtain ⟨t, ht, h⟩ := Option.bind_eq_some_iff.mp h
      exact ih (.next hr hc ht) h
    · exact absurd h (by simp)

end Machine

end ExAgent.Lib
