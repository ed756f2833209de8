import Mathlib

/-!
# Excerpts of texts under one budget

Of several texts the first items are shown, as many as a budget still allows; each excerpt says
whether it was cut. When the budget is used up, the texts that follow are not shown. The excerpts
together stay in the budget (`total_excerpts_le`), and each is the beginning of its text
(`excerpts_split`).

A loop that shows one text after another, with a count of what it has used, writes the excerpts of
all (`foldlM_writes`).
-/

namespace ExAgent.Lib.Excerpts

variable {α β γ σ ε : Type*}

/-- The excerpts of texts under a budget. -/
def excerpts : ℕ → List (List α) → List (List α × Bool)
  | _, [] => []
  | k, text :: rest =>
    if k = 0 then []
    else (text.take k, decide (k < text.length)) :: excerpts (k - (text.take k).length) rest

/-- What the excerpts use of the budget. -/
def total (shown : List (List α × Bool)) : ℕ := (shown.map fun e => e.1.length).sum

/-- Nothing is shown within a limit of zero. -/
@[simp] theorem excerpts_zero (texts : List (List α)) : excerpts 0 texts = [] := by
  cases texts <;> rfl

/-- A text is shown as far as the limit goes, and the rest within what is left of it. -/
theorem excerpts_cons {k : ℕ} (hk : k ≠ 0) (text : List α) (rest : List (List α)) :
    excerpts k (text :: rest) =
      (text.take k, decide (k < text.length)) :: excerpts (k - (text.take k).length) rest :=
  if_neg hk

/-- Nothing shown has no length. -/
@[simp] theorem total_nil : total ([] : List (List α × Bool)) = 0 := rfl

/-- The length of what is shown adds up. -/
@[simp] theorem total_cons (e : List α × Bool) (shown : List (List α × Bool)) :
    total (e :: shown) = e.1.length + total shown := rfl

/-- The lengths of two parts add up. -/
@[simp] theorem total_append (a b : List (List α × Bool)) : total (a ++ b) = total a + total b := by
  simp [total]

/-- The excerpts stay in the budget. -/
theorem total_excerpts_le (k : ℕ) (texts : List (List α)) : total (excerpts k texts) ≤ k := by
  induction texts generalizing k with
  | nil => simp [excerpts]
  | cons text rest ih =>
    have hrest := ih (k - (text.take k).length)
    have htake : (text.take k).length ≤ k := List.length_take_le k text
    by_cases hk : k = 0
    · simp [hk]
    · rw [excerpts_cons hk, total_cons]
      show (text.take k).length + _ ≤ k
      omega

/-- A text is left out only when the budget is used up. -/
theorem total_excerpts_eq {k : ℕ} {texts : List (List α)}
    (h : (excerpts k texts).length < texts.length) : total (excerpts k texts) = k := by
  induction texts generalizing k with
  | nil => simp [excerpts] at h
  | cons text rest ih =>
    by_cases hk : k = 0
    · simp [hk]
    · rw [excerpts_cons hk, List.length_cons, List.length_cons] at h
      have hrest := ih (Nat.lt_of_succ_lt_succ h)
      have htake : (text.take k).length ≤ k := List.length_take_le k text
      rw [excerpts_cons hk, total_cons, hrest]
      show (text.take k).length + (k - (text.take k).length) = k
      omega

/-- The texts that follow are shown under what is left. -/
theorem excerpts_append (k : ℕ) (texts more : List (List α)) :
    excerpts k (texts ++ more) = excerpts k texts ++
      excerpts (k - total (excerpts k texts)) more := by
  induction texts generalizing k with
  | nil => simp [excerpts]
  | cons text rest ih =>
    by_cases hk : k = 0
    · simp [hk]
    · rw [List.cons_append, excerpts_cons hk, excerpts_cons hk, ih, total_cons,
        List.cons_append, Nat.sub_sub]

/-- An excerpt is the beginning of the text at its place, as far as the excerpts before it leave
room, and says whether the text is longer. -/
theorem excerpts_split {k : ℕ} {texts : List (List α)} {before after : List (List α × Bool)}
    {e : List α × Bool} (h : excerpts k texts = before ++ e :: after) :
    ∃ text, texts[before.length]? = some text ∧ e.1 = text.take (k - total before) ∧
      (e.2 = true ↔ k - total before < text.length) := by
  induction texts generalizing k before with
  | nil => simp [excerpts] at h
  | cons text rest ih =>
    by_cases hk : k = 0
    · simp [hk] at h
    · rw [excerpts_cons hk] at h
      cases before with
      | nil =>
        obtain ⟨rfl, -⟩ := List.cons.inj h
        exact ⟨text, rfl, rfl, by simp⟩
      | cons first before =>
        obtain ⟨rfl, hrest⟩ := List.cons.inj h
        obtain ⟨text', hget, htake, hcut⟩ := ih hrest
        rw [total_cons, ← Nat.sub_sub]
        exact ⟨text', hget, htake, hcut⟩

/-! ## A loop with a count -/

/-- From the items and the count before to those after, the excerpts of texts are written. -/
def Writes (k : ℕ) (view : β → List α × Bool) (s s' : List β × ℕ) (texts : List (List α)) : Prop :=
  ∃ new, s'.1 = s.1 ++ new ∧ new.map view = excerpts (k - s.2) texts ∧
    s'.2 = s.2 + total (excerpts (k - s.2) texts)

variable {k : ℕ} {view : β → List α × Bool}

/-- A loop that has not begun wrote nothing. -/
theorem Writes.refl (s : List β × ℕ) : Writes k view s s [] :=
  ⟨[], (List.append_nil _).symm, rfl, rfl⟩

/-- What two parts of the loop wrote is what they wrote together. -/
theorem Writes.trans {s s' s'' : List β × ℕ} {texts more : List (List α)}
    (h : Writes k view s s' texts)
    (h' : Writes k view s' s'' more) : Writes k view s s'' (texts ++ more) := by
  obtain ⟨new, hitems, hview, hcount⟩ := h
  obtain ⟨new', hitems', hview', hcount'⟩ := h'
  have hleft : k - s.2 - total (excerpts (k - s.2) texts) = k - s'.2 := by
    rw [hcount]
    omega
  refine ⟨new ++ new', ?_, ?_, ?_⟩
  · rw [hitems', hitems, List.append_assoc]
  · rw [List.map_append, hview, hview', excerpts_append, hleft]
  · rw [hcount', excerpts_append, total_append, hleft, hcount]
    omega

/-- A loop whose rounds write the excerpts of their texts writes those of all texts. -/
theorem foldlM_writes (observe : σ → List β × ℕ) (Inv : σ → Prop) {f : σ → γ → Except ε σ}
    {texts : γ → List (List α)}
    (hround : ∀ s x s', Inv s → f s x = .ok s' →
      Inv s' ∧ Writes k view (observe s) (observe s') (texts x))
    {xs : List γ} {s s' : σ} (hinv : Inv s) (h : xs.foldlM f s = .ok s') :
    Inv s' ∧ Writes k view (observe s) (observe s') (xs.flatMap texts) := by
  induction xs generalizing s with
  | nil =>
    obtain rfl : s = s' := Except.ok.inj h
    exact ⟨hinv, .refl _⟩
  | cons x xs ih =>
    rw [List.foldlM_cons] at h
    cases hx : f s x with
    | error e =>
      rw [hx] at h
      cases h
    | ok t =>
      rw [hx] at h
      obtain ⟨hinv', hfirst⟩ := hround s x t hinv hx
      obtain ⟨hinv'', hrest⟩ := ih hinv' h
      exact ⟨hinv'', hfirst.trans hrest⟩

end ExAgent.Lib.Excerpts
