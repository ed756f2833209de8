import Mathlib.Data.List.Sort
import Mathlib.Data.Finset.Card
import Mathlib.Data.Finset.Filter

/-!
# Keyset pages

Rows are read in the order of a key, a page at a time, and a page starts after the key of the last
row before it. A page that looks one row ahead (`pageOf`) or that is taken for the last one unless
it is full (`fullPageOf`) splits the rows that are left, and following the cursor from the first
page then reads every row once, in order, and ends (`walk_of_pages`). Where the scan starts again
after its last page, a row that stays is reached within a bounded number of pages from any cursor,
whatever the other rows do (`Scan.reached`).
-/

namespace ExAgent.Lib.Keyset

variable {ρ κ χ α ε : Type*}

/-- Following the cursor from a page on to the last page, and what the pages hold. -/
inductive Walk (page : Option χ → Except ε (List α × Option χ)) : Option χ → List α → Prop
  | last {cursor : Option χ} {rows : List α} (h : page cursor = .ok (rows, none)) :
      Walk page cursor rows
  | more {cursor : Option χ} {rows rest : List α} {next : χ}
      (h : page cursor = .ok (rows, some next))
      (hrest : Walk page (some next) rest) : Walk page cursor (rows ++ rest)

/-- Following the cursor from the first page reads the rows of a list, each as often as it is there,
in an order, and ends. -/
def ReadsAll (page : Option χ → Except ε (List α × Option χ)) (rows : List α)
    (before : α → α → Prop) : Prop :=
  ∃ read, Walk page none read ∧ read.Perm rows ∧ read.Pairwise before

variable [LinearOrder κ] (key : ρ → κ)

/-- `ORDER BY`: the rows in the order of their keys. -/
def ordered (rows : List ρ) : List ρ := rows.mergeSort fun a b => decide (key a ≤ key b)

/-- The rows after the cursor, if there is one. -/
def after (cursor : Option κ) (rows : List ρ) : List ρ :=
  rows.filter fun r => decide (∀ c ∈ cursor, c < key r)

/-- The ordered rows are the rows in another order. -/
theorem ordered_perm (rows : List ρ) : (ordered key rows).Perm rows := List.mergeSort_perm rows _

/-- Rows with distinct keys stand in strict order. -/
theorem ordered_strict {rows : List ρ} (h : (rows.map key).Nodup) :
    (ordered key rows).Pairwise fun a b => key a < key b := by
  have hle : (ordered key rows).Pairwise fun a b => key a ≤ key b := by
    have hsorted : (ordered key rows).Pairwise fun a b => decide (key a ≤ key b) = true :=
      List.pairwise_mergeSort
        (fun a b c hab hbc =>
          decide_eq_true ((of_decide_eq_true hab).trans (of_decide_eq_true hbc)))
        (fun a b => by simpa using le_total (key a) (key b)) rows
    exact hsorted.imp fun hab => of_decide_eq_true hab
  have hne : (ordered key rows).Pairwise fun a b => key a ≠ key b := by
    have hnodup : ((ordered key rows).map key).Nodup :=
      (((ordered_perm key rows).map key).nodup_iff).mpr h
    exact List.pairwise_map.mp hnodup
  exact (hle.and hne).imp fun hab => lt_of_le_of_ne hab.1 hab.2

variable {key}

/-- Two lists with the same rows in strict order are equal. -/
theorem eq_of_perm {l l' : List ρ} (h : l.Pairwise fun a b => key a < key b)
    (h' : l'.Pairwise fun a b => key a < key b) (hperm : l.Perm l') : l = l' :=
  hperm.eq_of_pairwise (fun _ _ _ _ hab hba => absurd hab hba.asymm) h h'

/-- Selecting rows and ordering them commute. -/
theorem ordered_filter {rows : List ρ} (h : (rows.map key).Nodup) (p : ρ → Bool) :
    ordered key (rows.filter p) = (ordered key rows).filter p := by
  have hfilter : ((rows.filter p).map key).Nodup :=
    List.Nodup.sublist (List.Sublist.map _ List.filter_sublist) h
  refine eq_of_perm (ordered_strict key hfilter)
    ((ordered_strict key h).sublist List.filter_sublist) ?_
  exact (ordered_perm key _).trans ((ordered_perm key rows).symm.filter p)

/-- The rows after one that stands among them in strict order. -/
theorem after_split {before rest : List ρ} {r : ρ}
    (h : (before ++ r :: rest).Pairwise fun a b => key a < key b) :
    after key (some (key r)) (before ++ r :: rest) = rest := by
  obtain ⟨_, hrest, hbefore⟩ := List.pairwise_append.mp h
  have hnone : before.filter (fun x => decide (∀ c ∈ some (key r), c < key x)) = [] := by
    refine List.filter_eq_nil_iff.mpr fun x hx => ?_
    have hlt := hbefore x hx r List.mem_cons_self
    simpa using hlt.le
  have hall : rest.filter (fun x => decide (∀ c ∈ some (key r), c < key x)) = rest := by
    refine List.filter_eq_self.mpr fun x hx => ?_
    simpa using List.rel_of_pairwise_cons hrest hx
  unfold after
  rw [List.filter_append, hnone, List.filter_cons_of_neg (by simp), hall, List.nil_append]

/-! ## Following the cursor -/

/-- The first rows up to a limit, and the last of them where there are more rows. -/
def pageOf (limit : ℕ) (rows : List ρ) : List ρ × Option ρ :=
  ((rows.take (limit + 1)).take limit,
    if limit < (rows.take (limit + 1)).length then
    ((rows.take (limit + 1)).take limit).getLast? else none)

/-- The first rows up to a limit, and the last of them where there are as many. -/
def fullPageOf (limit : ℕ) (rows : List ρ) : List ρ × Option ρ :=
  (rows.take limit, if (rows.take limit).length = limit then (rows.take limit).getLast? else none)

/-- A page holds the rows that are left, or it ends with one of them and names it. -/
def Splits (pageOf : List ρ → List ρ × Option ρ) : Prop :=
  ∀ rows, pageOf rows = (rows, none) ∨
    ∃ page last rest, rows = page ++ last :: rest ∧ pageOf rows = (page ++ [last], some last)

/-- The first rows up to a limit end with a row. -/
theorem take_split {limit : ℕ} (hlimit : 0 < limit) {rows : List ρ} (h : limit ≤ rows.length) :
    ∃ page last rest, rows = page ++ last :: rest ∧ rows.take limit = page ++ [last] := by
  refine ⟨rows.take (limit - 1), rows[limit - 1], rows.drop limit, ?_, ?_⟩
  · have hcons := List.drop_eq_getElem_cons (show limit - 1 < rows.length by omega)
    rw [show limit - 1 + 1 = limit by omega] at hcons
    rw [← hcons, List.take_append_drop]
  · have hsucc := List.take_succ_eq_append_getElem (show limit - 1 < rows.length by omega)
    rwa [show limit - 1 + 1 = limit by omega] at hsucc

/-- A page of the full size splits the rows. -/
theorem splits_fullPageOf {limit : ℕ} (hlimit : 0 < limit) :
    Splits (fullPageOf limit : List ρ → List ρ × Option ρ) := by
  intro rows
  unfold fullPageOf
  by_cases hfull : limit ≤ rows.length
  · obtain ⟨page, last, rest, hrows, htake⟩ := take_split hlimit hfull
    refine Or.inr ⟨page, last, rest, hrows, ?_⟩
    rw [if_pos (by rw [List.length_take]; omega), htake, List.getLast?_concat]
  · refine Or.inl ?_
    rw [if_neg (by rw [List.length_take]; omega), List.take_of_length_le (by omega)]

/-- So does a page read with one row more. -/
theorem splits_pageOf {limit : ℕ} (hlimit : 0 < limit) :
    Splits (pageOf limit : List ρ → List ρ × Option ρ) := by
  intro rows
  by_cases hmore : limit < rows.length
  · obtain ⟨page, last, rest, hrows, hlast⟩ := take_split hlimit hmore.le
    refine Or.inr ⟨page, last, rest, hrows, ?_⟩
    have htake : (rows.take (limit + 1)).take limit = rows.take limit := by
      rw [List.take_take, min_eq_left (Nat.le_succ _)]
    unfold pageOf
    rw [htake, if_pos (by rw [List.length_take]; omega), hlast, List.getLast?_concat]
  · refine Or.inl ?_
    have htake : rows.take (limit + 1) = rows := List.take_of_length_le (by omega)
    unfold pageOf
    rw [htake, if_neg hmore, List.take_of_length_le (by omega)]

/-- Rows in strict order are all read, in that order, when each page is read after the row that the
cursor names. -/
theorem walk_of_pages {page : Option χ → Except ε (List α × Option χ)} {rows : List ρ}
    {cursorOf : ρ → χ} {view : ρ → α} {pageOf : List ρ → List ρ × Option ρ}
    (hsplits : Splits pageOf) (hsorted : rows.Pairwise fun a b => key a < key b)
    (hfirst : page none = .ok ((pageOf rows).1.map view, (pageOf rows).2.map cursorOf))
    (hnext : ∀ r ∈ rows, page (some (cursorOf r)) =
      .ok ((pageOf (after key (some (key r)) rows)).1.map view,
        (pageOf (after key (some (key r)) rows)).2.map cursorOf)) :
    Walk page none (rows.map view) := by
  -- The induction is on the rows that are left.
  have hrest : ∀ n (before rest : List ρ) (cursor : Option χ),
    rows = before ++ rest → rest.length ≤ n →
      page cursor = .ok ((pageOf rest).1.map view, (pageOf rest).2.map cursorOf) →
      Walk page cursor (rest.map view) := by
    intro n
    induction n with
    | zero =>
      intro before rest cursor _ hlength hpage
      obtain rfl := List.length_eq_zero_iff.mp (Nat.le_zero.mp hlength)
      rcases hsplits [] with hlast | ⟨visible, last, more, hsplit, _⟩
      · rw [hlast] at hpage
        exact .last hpage
      · exact absurd hsplit (by simp)
    | succ n ih =>
      intro before rest cursor hrows hlength hpage
      rcases hsplits rest with hlast | ⟨visible, last, more, hsplit, hmore⟩
      · rw [hlast] at hpage
        exact .last hpage
      · rw [hmore] at hpage
        have hrows' : rows = (before ++ visible) ++ last :: more := by
          rw [hrows, hsplit, List.append_assoc]
        have hmem : last ∈ rows := by
          rw [hrows']
          exact List.mem_append_right _ List.mem_cons_self
        have hafter : after key (some (key last)) rows = more := by
          rw [hrows'] at hsorted ⊢
          exact after_split hsorted
        have hstep := hnext last hmem
        rw [hafter] at hstep
        have hlen : more.length ≤ n := by
          rw [hsplit] at hlength
          simp only [List.length_append, List.length_cons] at hlength
          omega
        have hcat : rest.map view = (visible ++ [last]).map view ++ more.map view := by
          rw [hsplit, ← List.map_append, List.append_assoc, List.singleton_append]
        rw [hcat]
        refine .more hpage (ih ((before ++ visible) ++ [last]) more _ ?_ hlen hstep)
        rw [hrows', List.append_assoc (before ++ visible), List.singleton_append]
  exact hrest rows.length [] rows none rfl le_rfl hfirst

/-! ## Scans that start again -/

variable (key) in

/-- The first rows after the cursor, up to a limit. -/
def scanPage (limit : ℕ) (cursor : Option κ) (rows : List ρ) : List ρ :=
  (ordered key (after key cursor rows)).take limit

variable (key) in

/-- The key of the last row of a full page; after another page the scan starts again. -/
def scanNext (limit : ℕ) (page : List ρ) : Option κ :=
  if page.length = limit then page.getLast?.map key else none

variable {limit : ℕ} {rows : List ρ} {cursor : Option κ} {r : ρ}

/-- Without a cursor, all rows come after it. -/
theorem after_none (rows : List ρ) : after key none rows = rows :=
  List.filter_eq_self.mpr fun _ _ => by simp

/-- The first page of a scan. -/
theorem scanPage_first (rows : List ρ) :
    scanPage key limit none rows = (ordered key rows).take limit := by
  unfold scanPage
  rw [after_none]

/-- The page of a scan after a key. -/
theorem scanPage_next (hnodup : (rows.map key).Nodup) (k : κ) :
    scanPage key limit (some k) rows = (after key (some k) (ordered key rows)).take limit := by
  unfold scanPage after
  rw [ordered_filter hnodup]

/-- Following the cursor of a scan from its start reads the rows once, in order, and comes back to
the start. -/
theorem walk_scan {page : Option χ → Except ε (List α × Option χ)} {view : ρ → α} {cursorOf : ρ → χ}
    {keyOf : χ → κ} (hlimit : 0 < limit) (hnodup : (rows.map key).Nodup)
    (hkey : ∀ r, keyOf (cursorOf r) = key r)
    (hpage : ∀ cursor : Option χ, page cursor =
      .ok ((scanPage key limit (cursor.map keyOf) rows).map view,
        if (scanPage key limit (cursor.map keyOf) rows).length = limit then
          (scanPage key limit (cursor.map keyOf) rows).getLast?.map cursorOf else none)) :
    Walk page none ((ordered key rows).map view) := by
  have hfull : ∀ l : List ρ,
    ((fullPageOf limit l).1.map view, (fullPageOf limit l).2.map cursorOf) =
      ((l.take limit).map view,
        if (l.take limit).length = limit then (l.take limit).getLast?.map cursorOf else none) := by
    intro l
    unfold fullPageOf
    dsimp only
    split_ifs <;> rfl
  have hfirst : page none = .ok ((fullPageOf limit (ordered key rows)).1.map view,
      (fullPageOf limit (ordered key rows)).2.map cursorOf) := by
    rw [hpage, hfull, Option.map_none, scanPage_first]
  have hnext : ∀ r ∈ ordered key rows, page (some (cursorOf r)) =
      .ok ((fullPageOf limit (after key (some (key r)) (ordered key rows))).1.map view,
        (fullPageOf limit (after key (some (key r)) (ordered key rows))).2.map cursorOf) := by
    intro r _
    rw [hpage, hfull, Option.map_some, hkey, scanPage_next hnodup]
  exact walk_of_pages (splits_fullPageOf hlimit) (ordered_strict key hnodup) hfirst hnext

/-- A page of a scan has rows behind its cursor only. -/
theorem mem_scanPage {x : ρ} (h : x ∈ scanPage key limit cursor rows) :
    x ∈ rows ∧ ∀ c ∈ cursor, c < key x := by
  have hx := (ordered_perm key _).mem_iff.mp (List.mem_of_mem_take h)
  obtain ⟨hrows, hcursor⟩ := List.mem_filter.mp hx
  exact ⟨hrows, of_decide_eq_true hcursor⟩

/-- A page that ends before a row after the cursor is full, and its rows are below that row. -/
theorem scanPage_before (hnodup : (rows.map key).Nodup) (hr : r ∈ rows)
    (hcursor : ∀ c ∈ cursor, c < key r) (hout : r ∉ scanPage key limit cursor rows) :
    (scanPage key limit cursor rows).length = limit ∧
      ∀ x ∈ scanPage key limit cursor rows, key x < key r := by
  have hafter : r ∈ ordered key (after key cursor rows) := by
    refine (ordered_perm key _).mem_iff.mpr (List.mem_filter.mpr ⟨hr, ?_⟩)
    exact decide_eq_true hcursor
  have hstrict : (ordered key (after key cursor rows)).Pairwise fun a b => key a < key b :=
    ordered_strict key (hnodup.sublist (List.filter_sublist.map _))
  rw [← List.take_append_drop limit (ordered key (after key cursor rows))] at hafter hstrict
  have hdrop := (List.mem_append.mp hafter).resolve_left hout
  refine ⟨?_, fun x hx => (List.pairwise_append.mp hstrict).2.2 x hx r hdrop⟩
  have hpos := List.length_pos_of_mem hdrop
  unfold scanPage
  rw [List.length_drop] at hpos
  rw [List.length_take]
  omega

omit [LinearOrder κ] in

/-- After a full page the cursor is the key of a row of it; after another one there is none. -/
theorem scanNext_cases (key : ρ → κ) (hlimit : 0 < limit) (page : List ρ) :
    scanNext key limit page = none ∨
      ∃ last, last ∈ page ∧ page.length = limit ∧ scanNext key limit page = some (key last) := by
  unfold scanNext
  by_cases hfull : page.length = limit
  · have hne : page ≠ [] := by
      intro hnil
      rw [hnil] at hfull
      exact absurd hfull (by simpa using hlimit.ne)
    refine Or.inr ⟨page.getLast hne, List.getLast_mem hne, hfull, ?_⟩
    rw [if_pos hfull, List.getLast?_eq_some_getLast hne]
    rfl
  · exact Or.inl (if_neg hfull)

variable {K : Finset κ} {contents : ℕ → List ρ} {cursors : ℕ → Option κ}

/-- The keys after a cursor. -/
def ahead (K : Finset κ) (cursor : Option κ) : Finset κ := K.filter fun x => ∀ c ∈ cursor, c < x

/-- A cursor that moved on to a key has fewer keys ahead. -/
theorem card_ahead_lt {last : κ} (hlast : last ∈ K) (hcursor : ∀ c ∈ cursor, c < last) :
    (ahead K (some last)).card < (ahead K cursor).card := by
  refine Finset.card_lt_card ⟨fun x hx => ?_, fun hsub => ?_⟩
  · obtain ⟨hK, hx⟩ := Finset.mem_filter.mp hx
    exact Finset.mem_filter.mpr ⟨hK, fun c hc => (hcursor c hc).trans (hx last rfl)⟩
  · have hin := hsub (Finset.mem_filter.mpr ⟨hlast, hcursor⟩)
    exact absurd ((Finset.mem_filter.mp hin).2 last rfl) (lt_irrefl last)

variable (key) in

/-- Pages read one after another, each from what the rows are then, whose keys are among some. -/
structure Scan (limit : ℕ) (K : Finset κ) (contents : ℕ → List ρ)
    (cursors : ℕ → Option κ) : Prop where
  nodup : ∀ n, ((contents n).map key).Nodup
  mem : ∀ n, ∀ x ∈ contents n, key x ∈ K
  next : ∀ n, cursors (n + 1) = scanNext key limit (scanPage key limit (cursors n) (contents n))

/-- A row that stays is reached when the cursor is before it. -/
theorem Scan.reaches (hlimit : 0 < limit) (hscan : Scan key limit K contents cursors)
    (hr : ∀ n, r ∈ contents n) :
    ∀ m n, (∀ c ∈ cursors n, c < key r) → (ahead K (cursors n)).card ≤ m →
      ∃ i < n + m + 1, n ≤ i ∧ r ∈ scanPage key limit (cursors i) (contents i) := by
  intro m
  induction m with
  | zero =>
    intro n hcursor hcard
    have hin : key r ∈ ahead K (cursors n) := Finset.mem_filter.mpr ⟨hscan.mem n r (hr n), hcursor⟩
    exact absurd (Finset.card_pos.mpr ⟨key r, hin⟩) (by omega)
  | succ m ih =>
    intro n hcursor hcard
    by_cases hin : r ∈ scanPage key limit (cursors n) (contents n)
    · exact ⟨n, by omega, le_rfl, hin⟩
    · obtain ⟨hfull, hbelow⟩ := scanPage_before (hscan.nodup n) (hr n) hcursor hin
      rcases scanNext_cases key hlimit (scanPage key limit (cursors n) (contents n)) with
        hnone | ⟨last, hlast, _, hnext⟩
      · -- A page that stops before the row is full.
        exfalso
        rw [scanNext, if_pos hfull, Option.map_eq_none_iff] at hnone
        rw [List.getLast?_eq_none_iff.mp hnone] at hfull
        exact absurd hfull (by simpa using hlimit.ne)
      · have hcur : cursors (n + 1) = some (key last) := (hscan.next n).trans hnext
        obtain ⟨hrow, hafter⟩ := mem_scanPage hlast
        have hlt := card_ahead_lt (hscan.mem n last hrow) hafter
        obtain ⟨i, hi, hni, hreach⟩ := ih (n + 1)
          (by rw [hcur]; exact fun c hc => Option.some.inj hc ▸ hbelow last hlast)
          (by rw [hcur]; omega)
        exact ⟨i, by omega, by omega, hreach⟩

/-- The scan starts again. -/
theorem Scan.wraps (hlimit : 0 < limit) (hscan : Scan key limit K contents cursors) :
    ∀ m n, (ahead K (cursors n)).card ≤ m → ∃ i ≤ n + m + 1, n < i ∧ cursors i = none := by
  intro m
  induction m with
  | zero =>
    intro n hcard
    rcases scanNext_cases key hlimit (scanPage key limit (cursors n) (contents n)) with
      hnone | ⟨last, hlast, _, _⟩
    · exact ⟨n + 1, by omega, by omega, (hscan.next n).trans hnone⟩
    · obtain ⟨hrow, hafter⟩ := mem_scanPage hlast
      have hlt := card_ahead_lt (hscan.mem n last hrow) hafter
      omega
  | succ m ih =>
    intro n hcard
    rcases scanNext_cases key hlimit (scanPage key limit (cursors n) (contents n)) with
      hnone | ⟨last, hlast, _, hnext⟩
    · exact ⟨n + 1, by omega, by omega, (hscan.next n).trans hnone⟩
    · have hcur : cursors (n + 1) = some (key last) := (hscan.next n).trans hnext
      obtain ⟨hrow, hafter⟩ := mem_scanPage hlast
      have hlt := card_ahead_lt (hscan.mem n last hrow) hafter
      obtain ⟨i, hi, hni, hnone⟩ := ih (n + 1) (by rw [hcur]; omega)
      exact ⟨i, by omega, by omega, hnone⟩

/-- From any cursor on, a row that stays is reached within a number of pages that depends on the
keys only: the scan starts again, and then comes to the row. -/
theorem Scan.reached (hlimit : 0 < limit) (hscan : Scan key limit K contents cursors)
    (hr : ∀ n, r ∈ contents n) (n : ℕ) :
    ∃ i < n + 2 * K.card + 2, n ≤ i ∧ r ∈ scanPage key limit (cursors i) (contents i) := by
  have hle : ∀ cursor, (ahead K cursor).card ≤ K.card := fun _ => Finset.card_filter_le _ _
  obtain ⟨start, hstart, hn, hnone⟩ := hscan.wraps hlimit K.card n (hle _)
  obtain ⟨i, hi, hstart', hreach⟩ := hscan.reaches hlimit hr K.card start
    (by rw [hnone]; exact fun c hc => by cases hc) (hle _)
  exact ⟨i, by omega, by omega, hreach⟩

end ExAgent.Lib.Keyset
