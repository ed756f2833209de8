import Mathlib

/-!
# Reading a changing set page by page

A set of keys is read in pages: each page holds the next keys in order from a cursor on, and the
next cursor lies above all of them. Between two pages the set may change in any way. Whatever
happens, the keys that are read increase from page to page (`Scanned.increasing`), so that none is
read twice, and a key that is in the set at every page is read once the last page is
(`Scanned.mem`).
-/

namespace ExAgent.Lib

variable {κ : Type*} [LinearOrder κ] {S : κ → Prop} {cursor bottom : κ} {page : List κ}
  {next : Option κ}

/-- The keys that are below the next cursor; at the end, all of them. -/
def Before (next : Option κ) (k : κ) : Prop := ∀ n, next = some n → k < n

/-- A page of the keys in `S` from the cursor on, with the next cursor, if there is one. -/
structure IsPage (S : κ → Prop) (cursor : κ) (page : List κ) (next : Option κ) : Prop where
  sorted : page.Pairwise (· < ·)
  sound : ∀ k ∈ page, S k ∧ cursor ≤ k ∧ Before next k
  complete : ∀ k, S k → cursor ≤ k → Before next k → k ∈ page
  advances : Before next cursor

/-- A sequence of pages, each with the set it was read from, that starts at the bottom and follows
the cursor. -/
inductive Scanned (bottom : κ) : List ((κ → Prop) × List κ) → Option κ → Prop
  | start : Scanned bottom [] (some bottom)
  | page {pages : List ((κ → Prop) × List κ)} {S : κ → Prop} {cursor : κ} {page : List κ}
      {next : Option κ} (h : Scanned bottom pages (some cursor))
        (hpage : IsPage S cursor page next) :
      Scanned bottom (pages ++ [(S, page)]) next

namespace Scanned

variable {pages : List ((κ → Prop) × List κ)}

/-- The keys that were read. -/
def keys (pages : List ((κ → Prop) × List κ)) : List κ := pages.flatMap Prod.snd

omit [LinearOrder κ] in

/-- The keys of one page more come last. -/
theorem keys_append (pages : List ((κ → Prop) × List κ)) (S : κ → Prop) (page : List κ) :
    keys (pages ++ [(S, page)]) = keys pages ++ page := by
  simp [keys]

/-- What was read lies below the next cursor. -/
theorem before (h : Scanned bottom pages next) : ∀ k ∈ keys pages, Before next k := by
  induction h with
  | start => simp [keys]
  | page h hpage ih =>
    intro k hk n hn
    rw [keys_append] at hk
    rcases List.mem_append.mp hk with hk | hk
    · exact (ih k hk _ rfl).trans (hpage.advances n hn)
    · exact (hpage.sound k hk).2.2 n hn

/-- The keys that are read increase. -/
theorem increasing (h : Scanned bottom pages next) : (keys pages).Pairwise (· < ·) := by
  induction h with
  | start => simp [keys]
  | page h hpage ih =>
    rw [keys_append]
    refine List.pairwise_append.mpr ⟨ih, hpage.sorted, fun k hk k' hk' => ?_⟩
    exact (h.before k hk _ rfl).trans_le (hpage.sound k' hk').2.1

/-- A key that was in the set at every page is read when the cursor has passed it. -/
theorem mem (h : Scanned bottom pages next) {k : κ} (hbottom : bottom ≤ k)
    (hsteady : ∀ p ∈ pages, p.1 k) (hbefore : Before next k) : k ∈ keys pages := by
  induction h with
  | start => exact absurd (hbefore _ rfl) hbottom.not_gt
  | @page pages S cursor page next h hpage ih =>
    rw [keys_append]
    by_cases hk : k < cursor
    · refine List.mem_append_left _ (ih (fun p hp => hsteady p (List.mem_append_left _ hp)) ?_)
      intro n hn
      obtain rfl := Option.some.inj hn
      exact hk
    · have hS : S k := hsteady (S, page) (List.mem_append_right _ List.mem_cons_self)
      exact List.mem_append_right _ (hpage.complete k hS (not_lt.mp hk) hbefore)

end Scanned

/-- The last element of a sorted list is the greatest. -/
theorem le_getLast {l : List κ} (hsorted : l.Pairwise (· < ·)) {last k : κ}
    (hlast : l.getLast? = some last) (hk : k ∈ l) : k ≤ last := by
  obtain ⟨rest, rfl⟩ := List.getLast?_eq_some_iff.mp hlast
  rcases List.mem_append.mp hk with hk | hk
  · exact ((List.pairwise_append.mp hsorted).2.2 k hk last List.mem_cons_self).le
  · exact (List.mem_singleton.mp hk).le

/-- The first `n` of the sorted keys from the cursor on are a page. Where there are `n` of them, the
next cursor is the successor of the last one; otherwise they are the last page. -/
theorem isPage_take {l : List κ} {n : ℕ} {succ : κ → Option κ} (hn : 0 < n)
    (hsorted : l.Pairwise (· < ·)) (hmem : ∀ k, k ∈ l ↔ S k ∧ cursor ≤ k)
    (hsucc : ∀ k ∈ l, ∀ k' ∈ l, Before (succ k) k' ↔ k' ≤ k) :
    IsPage S cursor (l.take n)
      (if (l.take n).length = n then (l.take n).getLast?.bind succ else none) := by
  have hpage : (l.take n).Pairwise (· < ·) := hsorted.sublist (List.take_sublist n l)
  by_cases hfull : (l.take n).length = n
  · have hne : l.take n ≠ [] := by
      rw [← List.length_pos_iff, hfull]
      exact hn
    have hlast : (l.take n).getLast? = some ((l.take n).getLast hne) :=
      List.getLast?_eq_some_getLast hne
    generalize (l.take n).getLast hne = last at hlast
    rw [if_pos hfull, hlast, Option.bind_some]
    have hin : last ∈ l := List.mem_of_mem_take (List.mem_of_getLast? hlast)
    refine ⟨hpage, fun k hk => ?_, fun k hS hcursor hbefore => ?_, fun m hm => ?_⟩
    · have hkl : k ∈ l := List.mem_of_mem_take hk
      exact ⟨((hmem k).mp hkl).1, ((hmem k).mp hkl).2,
        (hsucc last hin k hkl).mpr (le_getLast hpage hlast hk)⟩
    · have hkl : k ∈ l := (hmem k).mpr ⟨hS, hcursor⟩
      have hle : k ≤ last := (hsucc last hin k hkl).mp hbefore
      rw [← List.take_append_drop n l] at hkl hsorted
      refine (List.mem_append.mp hkl).resolve_right fun hdrop => ?_
      have hlt := (List.pairwise_append.mp hsorted).2.2 last (List.mem_of_getLast? hlast) k hdrop
      exact absurd hle hlt.not_ge
    · exact ((hmem last).mp hin).2.trans_lt ((hsucc last hin last hin).mpr le_rfl m hm)
  · have hall : l.take n = l := by
      rw [List.length_take] at hfull
      exact List.take_of_length_le (by omega)
    rw [if_neg hfull, hall]
    refine ⟨hsorted, fun k hk => ?_, fun k hS hcursor _ => (hmem k).mpr ⟨hS, hcursor⟩, nofun⟩
    exact ⟨((hmem k).mp hk).1, ((hmem k).mp hk).2, nofun⟩

end ExAgent.Lib
