import ExAgent.Lib.Fallible
import Mathlib.Data.List.Lex
import Mathlib.Data.List.Sort

/-!
# Dictionaries

A dictionary is a list of entries in key order, each key once: two dictionaries with the same values
are equal, in whatever order their entries were written (`ext_get`). A dictionary that is built from
another entry by entry, by a function that may fail, has the keys of the other (`build_eq_ok`).
-/

namespace ExAgent.Lib

/-- Values under keys, in key order. -/
structure Dictionary (κ β : Type*) [LinearOrder κ] where
  entries : List (κ × β)
  sorted : (entries.map Prod.fst).Pairwise (· < ·)

namespace Dictionary

variable {κ β γ ε : Type*} [LinearOrder κ]

/-- The dictionary without entries. -/
def empty : Dictionary κ β := ⟨[], List.Pairwise.nil⟩

/-- The value at a key. -/
def get (d : Dictionary κ β) (k : κ) : Option β := d.entries.lookup k

/-- The keys. -/
def keys (d : Dictionary κ β) : List κ := d.entries.map Prod.fst

/-- An entry among entries in key order, in place of one with its key. -/
def insertEntry (k : κ) (v : β) : List (κ × β) → List (κ × β)
  | [] => [(k, v)]
  | e :: rest =>
    if k < e.1 then (k, v) :: e :: rest
    else if k = e.1 then (k, v) :: rest
    else e :: insertEntry k v rest

/-- The keys of the entries after an insertion. -/
theorem mem_keys_insertEntry {k k' : κ} {v : β} {es : List (κ × β)}
    (h : k' ∈ (insertEntry k v es).map Prod.fst) : k' = k ∨ k' ∈ es.map Prod.fst := by
  induction es with
  | nil => simpa [insertEntry] using h
  | cons e rest ih =>
    unfold insertEntry at h
    split_ifs at h with hlt heq
    · simpa using h
    · simp only [List.map_cons, List.mem_cons] at h ⊢
      exact h.imp_right .inr
    · simp only [List.map_cons, List.mem_cons] at h ⊢
      rcases h with h | h
      · exact .inr (.inl h)
      · exact (ih h).imp_right .inr

/-- `d[k] = v`. -/
def insert (d : Dictionary κ β) (k : κ) (v : β) : Dictionary κ β where
  entries := insertEntry k v d.entries
  sorted := by
    have h : ∀ es : List (κ × β), (es.map Prod.fst).Pairwise (· < ·) →
        ((insertEntry k v es).map Prod.fst).Pairwise (· < ·) := by
      intro es hes
      induction es with
      | nil => exact List.pairwise_singleton _ _
      | cons e rest ih =>
        obtain ⟨hhead, htail⟩ := List.pairwise_cons.mp hes
        unfold insertEntry
        split_ifs with hlt heq
        · refine List.pairwise_cons.mpr ⟨fun a ha => ?_, hes⟩
          rcases List.mem_cons.mp ha with rfl | ha
          · exact hlt
          · exact hlt.trans (hhead a ha)
        · rw [heq]
          exact List.pairwise_cons.mpr ⟨hhead, htail⟩
        · refine List.pairwise_cons.mpr ⟨fun a ha => ?_, ih htail⟩
          rcases mem_keys_insertEntry ha with rfl | ha
          · exact lt_of_le_of_ne (not_lt.mp hlt) (Ne.symm heq)
          · exact hhead a ha
    exact h d.entries d.sorted

/-- The empty dictionary has no key. -/
@[simp] theorem get_empty (k : κ) : (empty : Dictionary κ β).get k = none := rfl

/-- A lookup compares the first key and goes on with the rest. -/
theorem lookup_entry (e : κ × β) (es : List (κ × β)) (k : κ) :
    (e :: es).lookup k = if k = e.1 then some e.2 else es.lookup k := by
  rw [List.lookup_cons]
  by_cases h : k = e.1
  · simp [h]
  · have hbeq : (k == e.1) = false := by simpa using h
    simp [h, hbeq]

/-- The value at a key is that of the entry of the key. -/
theorem mem_entries_iff {d : Dictionary κ β} {k : κ} {v : β} :
    (k, v) ∈ d.entries ↔ d.get k = some v := by
  have h : ∀ es : List (κ × β), (es.map Prod.fst).Pairwise (· < ·) →
      ((k, v) ∈ es ↔ es.lookup k = some v) := by
    intro es hes
    induction es with
    | nil => simp
    | cons e rest ih =>
      obtain ⟨hhead, htail⟩ := List.pairwise_cons.mp hes
      rw [List.mem_cons, lookup_entry]
      by_cases hk : k = e.1
      · have hnot : (k, v) ∉ rest :=
          fun hmem => absurd (hhead k (List.mem_map_of_mem hmem)) (by simp [hk])
        rw [if_pos hk]
        constructor
        · intro h
          rcases h with h | h
          · rw [← h]
          · exact absurd h hnot
        · intro h
          obtain rfl := Option.some.inj h
          exact .inl (Prod.ext hk rfl)
      · rw [if_neg hk, ih htail]
        exact or_iff_right fun h => hk (congrArg Prod.fst h)
  exact h d.entries d.sorted

/-- The keys are those with a value. -/
theorem mem_keys_iff {d : Dictionary κ β} {k : κ} : k ∈ d.keys ↔ ∃ v, d.get k = some v := by
  constructor
  · intro h
    obtain ⟨e, he, rfl⟩ := List.mem_map.mp h
    exact ⟨e.2, mem_entries_iff.mp he⟩
  · rintro ⟨v, h⟩
    exact List.mem_map_of_mem (mem_entries_iff.mpr h)

/-- An insertion shows at its key only. -/
theorem get_insert (d : Dictionary κ β) (k k' : κ) (v : β) :
    (d.insert k v).get k' = if k' = k then some v else d.get k' := by
  have h : ∀ es : List (κ × β), (es.map Prod.fst).Pairwise (· < ·) →
      (insertEntry k v es).lookup k' = if k' = k then some v else es.lookup k' := by
    intro es hes
    induction es with
    | nil =>
      unfold insertEntry
      rw [lookup_entry]
    | cons e rest ih =>
      obtain ⟨hhead, htail⟩ := List.pairwise_cons.mp hes
      unfold insertEntry
      by_cases hlt : k < e.1
      · rw [if_pos hlt, lookup_entry]
      · rw [if_neg hlt]
        by_cases heq : k = e.1
        · rw [if_pos heq, lookup_entry, lookup_entry, ← heq]
          by_cases hk : k' = k
          · rw [if_pos hk, if_pos hk]
          · rw [if_neg hk, if_neg hk, if_neg hk]
        · rw [if_neg heq, lookup_entry, lookup_entry, ih htail]
          by_cases hk : k' = k
          · rw [if_pos hk, if_pos hk, if_neg (hk ▸ heq)]
          · rw [if_neg hk, if_neg hk]
  exact h d.entries d.sorted

/-- Dictionaries with the same values are equal. -/
theorem ext_get {d d' : Dictionary κ β} (h : ∀ k, d.get k = d'.get k) : d = d' := by
  have hnodup : ∀ d : Dictionary κ β, d.entries.Nodup := fun d =>
    List.Nodup.of_map Prod.fst (d.sorted.imp ne_of_lt)
  have hperm : d.entries.Perm d'.entries := by
    refine (List.perm_ext_iff_of_nodup (hnodup d) (hnodup d')).mpr fun e => ?_
    rw [show e = (e.1, e.2) from rfl, mem_entries_iff, mem_entries_iff, h]
  have hsorted : ∀ d : Dictionary κ β, d.entries.Pairwise fun a b => a.1 < b.1 := fun d =>
    List.pairwise_map.mp d.sorted
  have heq : d.entries = d'.entries :=
    hperm.eq_of_pairwise (fun a b _ _ hab hba => absurd (hab.trans hba) (lt_irrefl _))
      (hsorted d) (hsorted d')
  cases d
  cases d'
  cases heq
  rfl

/-- The same keys with other values. -/
def map (f : κ → β → γ) (d : Dictionary κ β) : Dictionary κ γ where
  entries := d.entries.map fun e => (e.1, f e.1 e.2)
  sorted := by
    rw [List.map_map]
    exact d.sorted

/-- A map over the values shows at every key. -/
theorem get_map (f : κ → β → γ) (d : Dictionary κ β) (k : κ) :
    (d.map f).get k = (d.get k).map (f k) := by
  have h : ∀ es : List (κ × β),
      (es.map fun e => (e.1, f e.1 e.2)).lookup k = (es.lookup k).map (f k) := by
    intro es
    induction es with
    | nil => rfl
    | cons e rest ih =>
      rw [List.map_cons, lookup_entry, lookup_entry, ih]
      by_cases hk : k = e.1
      · rw [if_pos hk, if_pos hk, hk]
        rfl
      · rw [if_neg hk, if_neg hk]
  exact h d.entries

/-! ## Building a dictionary -/

/-- One entry of a dictionary that is built by a function. -/
def buildEntry (f : κ → β → Except ε γ) (acc : Dictionary κ γ) (e : κ × β) :
    Except ε (Dictionary κ γ) :=
  (f e.1 e.2).map fun v => acc.insert e.1 v

/-- The dictionary of the values of a function, entry by entry. -/
def build (f : κ → β → Except ε γ) (d : Dictionary κ β) : Except ε (Dictionary κ γ) :=
  d.entries.foldlM (buildEntry f) empty

/-- Entries that are built into a dictionary. -/
theorem foldlM_buildEntry {f : κ → β → Except ε γ} {es : List (κ × β)}
    (hes : (es.map Prod.fst).Pairwise (· < ·)) (acc d' : Dictionary κ γ) :
    es.foldlM (buildEntry f) acc = .ok d' ↔
      ∀ k, (es.lookup k = none → d'.get k = acc.get k) ∧
        ∀ v, es.lookup k = some v → ∃ w, f k v = .ok w ∧ d'.get k = some w := by
  induction es generalizing acc with
  | nil =>
    simp only [List.foldlM_nil, List.lookup_nil, reduceCtorEq, false_implies,
      implies_true, and_true, true_implies]
    constructor
    · intro h k
      rw [Except.ok.inj h]
    · intro h
      exact congrArg Except.ok (ext_get fun k => (h k).symm)
  | cons e rest ih =>
    obtain ⟨hhead, htail⟩ := List.pairwise_cons.mp hes
    -- The keys are in order, so the first one does not come again.
    have hnot : rest.lookup e.1 = none := by
      rw [List.lookup_eq_none_iff]
      intro x hx
      have hlt := hhead x.1 (List.mem_map_of_mem hx)
      simpa using hlt.ne
    rw [List.foldlM_cons]
    cases hf : f e.1 e.2 with
    | error err =>
      have hfail : buildEntry f acc e = .error err := by
        unfold buildEntry
        rw [hf]
        rfl
      rw [hfail]
      constructor
      · intro h
        cases h
      · intro h
        obtain ⟨w, hw, -⟩ := (h e.1).2 e.2 (by rw [lookup_entry, if_pos rfl])
        rw [hf] at hw
        cases hw
    | ok w =>
      have hnext : buildEntry f acc e = .ok (acc.insert e.1 w) := by
        unfold buildEntry
        rw [hf]
        rfl
      rw [hnext]
      show rest.foldlM (buildEntry f) (acc.insert e.1 w) = .ok d' ↔ _
      rw [ih htail]
      -- The first key has its own value, and the others theirs from the rest.
      constructor
      · intro h k
        rw [lookup_entry]
        by_cases hk : k = e.1
        · rw [if_pos hk]
          refine ⟨nofun, fun v hv => ⟨w, ?_, ?_⟩⟩
          · rw [hk, ← Option.some.inj hv]
            exact hf
          · rw [hk, (h e.1).1 hnot, get_insert, if_pos rfl]
        · rw [if_neg hk]
          refine ⟨fun hnone => ?_, (h k).2⟩
          rw [(h k).1 hnone, get_insert, if_neg hk]
      · intro h k
        have hk' := h k
        rw [lookup_entry] at hk'
        by_cases hk : k = e.1
        · rw [if_pos hk] at hk'
          obtain ⟨w', hw', hget⟩ := hk'.2 e.2 rfl
          rw [hk, hf] at hw'
          obtain rfl := Except.ok.inj hw'
          refine ⟨fun _ => ?_, fun v hv => ?_⟩
          · rw [hget, get_insert, if_pos hk]
          · rw [hk, hnot] at hv
            cases hv
        · rw [if_neg hk] at hk'
          refine ⟨fun hnone => ?_, hk'.2⟩
          rw [hk'.1 hnone, get_insert, if_neg hk]

/-- What is built has the keys of the other dictionary and the values of the function. -/
theorem build_eq_ok {f : κ → β → Except ε γ} {d : Dictionary κ β} {d' : Dictionary κ γ} :
    build f d = .ok d' ↔
      ∀ k, (d.get k = none → d'.get k = none) ∧
        ∀ v, d.get k = some v → ∃ w, f k v = .ok w ∧ d'.get k = some w :=
  foldlM_buildEntry d.sorted empty d'

/-- Where the function does not fail, a dictionary is built. -/
theorem exists_build {f : κ → β → Except ε γ} {d : Dictionary κ β}
    (h : ∀ k v, d.get k = some v → ∃ w, f k v = .ok w) : ∃ d', build f d = .ok d' := by
  have hes : ∀ (es : List (κ × β)) (acc : Dictionary κ γ), (∀ e ∈ es, ∃ w, f e.1 e.2 = .ok w) →
      ∃ d', es.foldlM (buildEntry f) acc = .ok d' := by
    intro es acc hok
    induction es generalizing acc with
    | nil => exact ⟨acc, rfl⟩
    | cons e rest ih =>
      obtain ⟨w, hw⟩ := hok e (List.mem_cons_self ..)
      obtain ⟨d', hd'⟩ := ih (acc.insert e.1 w) fun e he => hok e (List.mem_cons_of_mem _ he)
      refine ⟨d', ?_⟩
      rw [List.foldlM_cons]
      unfold buildEntry
      rw [hw]
      exact hd'
  exact hes d.entries empty fun e he => h e.1 e.2 (mem_entries_iff.mp he)

/-- Where no dictionary is built, the function fails for an entry. -/
theorem build_eq_error {f : κ → β → Except ε γ} {d : Dictionary κ β} {err : ε}
    (h : build f d = .error err) :
    ∃ k v, d.get k = some v ∧ f k v = .error err := by
  have hes : ∀ (es : List (κ × β)) (acc : Dictionary κ γ),
      es.foldlM (buildEntry f) acc = .error err → ∃ e ∈ es, f e.1 e.2 = .error err := by
    intro es acc herr
    induction es generalizing acc with
    | nil => cases herr
    | cons e rest ih =>
      rw [List.foldlM_cons] at herr
      unfold buildEntry at herr
      cases hf : f e.1 e.2 with
      | error err' =>
        rw [hf] at herr
        obtain rfl : err' = err := Except.error.inj herr
        exact ⟨e, List.mem_cons_self .., hf⟩
      | ok w =>
        rw [hf] at herr
        obtain ⟨e', he', hf'⟩ := ih (acc.insert e.1 w) herr
        exact ⟨e', List.mem_cons_of_mem _ he', hf'⟩
  obtain ⟨e, he, hf⟩ := hes d.entries empty h
  exact ⟨e.1, e.2, mem_entries_iff.mp he, hf⟩

end Dictionary

end ExAgent.Lib
