import Mathlib.Data.List.Basic

/-!
# Encodings that say where they end

An encoding is delimited when no encoding goes on as another one does: what follows it can be told
from it. Delimited encodings one after another are delimited, and a list of them between separators
is read in one way.
-/

namespace ExAgent.Lib

variable {α β γ : Type*}

/-- Two encodings with something after them are equal only where both parts are. -/
def Delimited (enc : α → List γ) : Prop :=
  ∀ a a' rest rest', enc a ++ rest = enc a' ++ rest' → a = a' ∧ rest = rest'

namespace Delimited

/-- An injection before a delimited encoding leaves it delimited. -/
theorem of_injective {enc : β → List γ} (h : Delimited enc) {f : α → β}
    (hf : Function.Injective f) :
    Delimited fun a => enc (f a) := by
  intro a a' rest rest' heq
  obtain ⟨hsame, hrest⟩ := h _ _ _ _ heq
  exact ⟨hf hsame, hrest⟩

/-- A literal before it. -/
theorem before {enc : α → List γ} (h : Delimited enc) (lit : List γ) :
    Delimited fun a => lit ++ enc a := by
  intro a a' rest rest' heq
  rw [List.append_assoc, List.append_assoc] at heq
  exact h _ _ _ _ (List.append_cancel_left heq)

/-- A literal after it. -/
theorem after {enc : α → List γ} (h : Delimited enc) (lit : List γ) :
    Delimited fun a => enc a ++ lit := by
  intro a a' rest rest' heq
  rw [List.append_assoc, List.append_assoc] at heq
  obtain ⟨rfl, hrest⟩ := h _ _ _ _ heq
  exact ⟨rfl, List.append_cancel_left hrest⟩

/-- One after the other. -/
theorem append {enc : α → List γ} {enc' : β → List γ} (h : Delimited enc) (h' : Delimited enc') :
    Delimited fun p : α × β => enc p.1 ++ enc' p.2 := by
  rintro ⟨a, b⟩ ⟨a', b'⟩ rest rest' heq
  rw [List.append_assoc, List.append_assoc] at heq
  obtain ⟨rfl, heq⟩ := h _ _ _ _ heq
  obtain ⟨rfl, hrest⟩ := h' _ _ _ _ heq
  exact ⟨rfl, hrest⟩

/-- Encodings between separators, to a sign that starts none of them, are those of one list. -/
theorem intercalate {enc : α → List γ} (h : Delimited enc) {sep stop : γ} (hne : sep ≠ stop)
    (hstart : ∀ a rest, enc a ++ rest ≠ stop :: []) {l l' : List α}
    (heq : List.intercalate [sep] (l.map enc) ++ [stop] =
      List.intercalate [sep] (l'.map enc) ++ [stop]) :
    l = l' := by
  induction l generalizing l' with
  | nil =>
    -- One list is empty and the other is not: an encoding is not the stop alone.
    cases l' with
    | nil => rfl
    | cons a' rest' =>
      cases rest' with
      | nil =>
        rw [List.map_singleton, List.intercalate_singleton] at heq
        exact absurd heq.symm (hstart a' _)
      | cons b' rest' =>
        rw [List.map_cons, List.map_cons, List.intercalate_cons_cons, List.append_assoc,
          List.append_assoc] at heq
        exact absurd heq.symm (hstart a' _)
  | cons a rest ih =>
    cases l' with
    | nil =>
      cases rest with
      | nil =>
        rw [List.map_singleton, List.intercalate_singleton] at heq
        exact absurd heq (hstart a _)
      | cons b rest =>
        rw [List.map_cons, List.map_cons, List.intercalate_cons_cons, List.append_assoc,
          List.append_assoc] at heq
        exact absurd heq (hstart a _)
    | cons a' rest' =>
      cases rest with
      | nil =>
        cases rest' with
        | nil =>
          simp only [List.map_singleton, List.intercalate_singleton] at heq
          rw [(h _ _ _ _ heq).1]
        | cons b' rest' =>
          rw [List.map_singleton, List.intercalate_singleton, List.map_cons, List.map_cons,
            List.intercalate_cons_cons, List.append_assoc, List.append_assoc] at heq
          -- One list ends where the other goes on: the sign that stops would be a separator.
          obtain ⟨-, hrest⟩ := h _ _ _ _ heq
          exact absurd (List.cons.inj hrest).1.symm hne
      | cons b rest =>
        cases rest' with
        | nil =>
          rw [List.map_singleton, List.intercalate_singleton, List.map_cons, List.map_cons,
            List.intercalate_cons_cons, List.append_assoc, List.append_assoc] at heq
          obtain ⟨-, hrest⟩ := h _ _ _ _ heq
          exact absurd (List.cons.inj hrest).1 hne
        | cons b' rest' =>
          simp only [List.map_cons, List.intercalate_cons_cons, List.append_assoc] at heq
          obtain ⟨rfl, hrest⟩ := h _ _ _ _ heq
          have htail := @ih (b' :: rest') (List.append_cancel_left hrest)
          rw [htail]

end Delimited

end ExAgent.Lib
