import ExAgent.Lib.Paging
import ExAgent.Worker.Consumer

/-!
# A sweep of the pending list

`claim_pending_page` from the cursor `0-0` on, each page at the cursor that the page before
returned, while other consumers change the group between two pages in any way. `Swept` is what holds
of the pages of such a sweep: the cursor increases, and the IDs that are looked at increase from
page to page; an ID that is pending all the time is among them (`Lib.Scanned`); a page claims the
stale entries that have a body, and drops the stale IDs without one (`claims_foldl`).
-/

namespace ExAgent.Worker.RedisStreamConsumer

open Lib

/-- The fields of an entry, as they were added. -/
abbrev Body := List (String × String)

/-- The reply's list of names and values. -/
def wire (body : Body) : List String := body.flatMap fun field => [field.1, field.2]

/-- `zip(fields[::2], fields[1::2], strict=True)`. -/
def zipFields : List String → Option Body
  | [] => some []
  | [_] => none
  | key :: value :: rest => (zipFields rest).map fun fields => (key, value) :: fields

/-- `d[key] = value`. -/
def setItem (d : Table String String) (key value : String) : Table String String :=
  (d.insert key value).getD (d.modifyAt key fun _ => value)

/-- The dictionary of the pairs. -/
def dictOf (fields : Body) : Table String String :=
  fields.foldl (fun d field => setItem d field.1 field.2) .empty

/-- An entry of the reply as a message. -/
def messageOf (entry : StreamId × Body) : Option (StreamId × Table String String) :=
  (zipFields (wire entry.2)).map fun fields => (entry.1, dictOf fields)

/-- A body is read back from the wire. -/
@[simp]
theorem zipFields_wire (body : Body) : zipFields (wire body) = some body := by
  induction body with
  | nil => rfl
  | cons field rest ih =>
    change (zipFields (wire rest)).map _ = _
    rw [ih]
    rfl

/-- A message is read with its ID and body. -/
@[simp]
theorem messageOf_eq (entry : StreamId × Body) :
    messageOf entry = some (entry.1, dictOf entry.2) := by
  unfold messageOf
  rw [zipFields_wire]
  rfl

/-- Fields with distinct names are the entries of their dictionary. -/
theorem dictOf_entries {body : Body} (h : (body.map Prod.fst).Nodup) :
    (dictOf body).entries = body := by
  -- Induction on the fields that are still to be set, behind those that are.
  have hset : ∀ (rest : Body) (d : Table String String),
      (d.entries ++ rest).map Prod.fst |>.Nodup →
      (rest.foldl (fun d field => setItem d field.1 field.2) d).entries = d.entries ++ rest := by
    intro rest
    induction rest with
    | nil => simp
    | cons field rest ih =>
      intro d hd
      have hnew : d.get field.1 = none := by
        rw [Table.get_eq_none_iff]
        rw [List.map_append, List.nodup_append] at hd
        intro hk
        exact hd.2.2 _ hk _ (List.mem_map_of_mem List.mem_cons_self) rfl
      obtain ⟨d', hd'⟩ := Table.insert_of_get_none hnew field.2
      have hentries : d'.entries = d.entries ++ [field] := Table.entries_of_insert hd'
      have hitem : setItem d field.1 field.2 = d' := by
        unfold setItem
        rw [hd']
        rfl
      rw [List.foldl_cons, hitem, ih d' (by simpa [hentries] using hd), hentries, List.append_assoc]
      rfl
  exact hset body .empty h

/-! ## One page -/

/-- Both parts of the ID fit in 64 bits. -/
def Fits (id : StreamId) : Prop := id.milliseconds < 2 ^ 64 ∧ id.sequence < 2 ^ 64

instance (id : StreamId) : Decidable (Fits id) := inferInstanceAs (Decidable (_ ∧ _))

/-- The entry has been idle for the minimum. -/
def Stale (D : Deployment) (now : Time) (entry : StreamId × Holding) : Prop :=
  entry.2.since + D.settings.claimIdleMilliseconds ≤ now

instance (D : Deployment) (now : Time) (entry : StreamId × Holding) :
    Decidable (Stale D now entry) :=
  inferInstanceAs (Decidable (_ ≤ _))

variable {β : Type} {D : Deployment} {consumer : String} {now : Time} {g : GroupView β}

/-- An entry that is not stale is left. -/
theorem claimEntry_fresh {messages : List (StreamId × β)} {entry : StreamId × Holding}
    (h : ¬Stale D now entry) :
    claimEntry D consumer now (g, messages) entry = (g, messages) := by
  unfold claimEntry
  exact if_pos (not_le.mp h)

/-- What `claimEntry` does to a stale entry: with a body it is a message and owned by the consumer,
without one it is not pending any more. -/
theorem claimEntry_stale {messages : List (StreamId × β)} {entry : StreamId × Holding}
    (hget : g.pending.get entry.1 = some entry.2) (h : Stale D now entry) :
    (claimEntry D consumer now (g, messages) entry).1.entries = g.entries ∧
      (∀ id, (claimEntry D consumer now (g, messages) entry).1.pending.get id =
        if id = entry.1 then (g.body entry.1).map fun _ => ⟨consumer, now⟩ else g.pending.get id) ∧
      (claimEntry D consumer now (g, messages) entry).2 =
        messages ++ ((g.body entry.1).map fun b => (entry.1, b)).toList := by
  have hack : ∀ {g' : GroupView β} id, (g'.xack entry.1).pending.get id =
      if id = entry.1 then none else g'.pending.get id := by
    intro g' id
    unfold GroupView.xack
    dsimp only
    rw [Table.get_deleteKeys]
    simp
  have hhold : ∀ id, (g.hold entry.1 consumer now).pending.get id =
      if id = entry.1 then some ⟨consumer, now⟩ else g.pending.get id := by
    intro id
    unfold GroupView.hold
    dsimp only
    rw [Table.get_modifyAt, Table.get_insertIfAbsent]
    by_cases hid : id = entry.1 <;> simp [hid]
  unfold claimEntry GroupView.xclaim
  rw [if_neg (not_lt.mpr h)]
  dsimp only
  rw [hget]
  dsimp only
  cases hbody : g.body entry.1 with
  | some b =>
    have hidle : ¬now < entry.2.since + D.settings.claimIdleMilliseconds := not_lt.mpr h
    simp only [Option.isNone_some, Bool.false_eq_true, false_and, if_false, if_neg hidle,
      Option.map_some, Option.toList_some]
    exact ⟨rfl, hhold, trivial⟩
  | none =>
    -- Whether the claim has dropped the ID or not, it is acknowledged afterwards.
    have hdropped : ∀ g' : GroupView β, g'.entries = g.entries →
        (∀ id, id ≠ entry.1 → g'.pending.get id = g.pending.get id) →
        (if (g'.body entry.1).isNone then g'.xack entry.1 else g').entries = g.entries ∧
          ∀ id, (if (g'.body entry.1).isNone then g'.xack entry.1 else g').pending.get id =
            if id = entry.1 then none else g.pending.get id := by
      intro g' hentries hrest
      have hbody' : (g'.body entry.1).isNone = true := by
        unfold GroupView.body at hbody ⊢
        rw [hentries, hbody]
        rfl
      rw [if_pos hbody']
      refine ⟨hentries, fun id => ?_⟩
      rw [hack]
      split_ifs with hid
      · rfl
      · exact hrest id hid
    by_cases hdrops : D.dropsDeleted = true
    · have h' := hdropped (g.xack entry.1) rfl fun id hid => by rw [hack, if_neg hid]
      simpa [hdrops] using h'
    · have h' := hdropped (g.hold entry.1 consumer now) rfl fun id hid => by rw [hhold, if_neg hid]
      have hidle : ¬now < entry.2.since + D.settings.claimIdleMilliseconds := not_lt.mpr h
      simpa [hdrops, hidle] using h'

/-- What a page returns of an entry. -/
def returned (D : Deployment) (now : Time) (g : GroupView β) (entry : StreamId × Holding) :
    Option (StreamId × β) :=
  if Stale D now entry then (g.body entry.1).map fun b => (entry.1, b) else none

/-- The entries of a page, one after the other. -/
theorem claims_foldl (D : Deployment) (consumer : String) (now : Time)
    {entries : List (StreamId × Holding)} (hdistinct : (entries.map Prod.fst).Nodup)
    (hget : ∀ e ∈ entries, g.pending.get e.1 = some e.2) (messages : List (StreamId × β)) :
    (entries.foldl (claimEntry D consumer now) (g, messages)).1.entries = g.entries ∧
      (∀ id, (entries.foldl (claimEntry D consumer now) (g, messages)).1.pending.get id =
        if ∃ e ∈ entries, e.1 = id ∧ Stale D now e then (g.body id).map fun _ => ⟨consumer, now⟩
        else g.pending.get id) ∧
      (entries.foldl (claimEntry D consumer now) (g, messages)).2 =
        messages ++ entries.filterMap (returned D now g) := by
  induction entries generalizing g messages with
  | nil => simp
  | cons entry entries ih =>
    rw [List.map_cons, List.nodup_cons] at hdistinct
    have htail : ∀ e ∈ entries, g.pending.get e.1 = some e.2 := fun e he =>
      hget e (List.mem_cons_of_mem _ he)
    rw [List.foldl_cons]
    by_cases hstale : Stale D now entry
    · -- The claimed entry moves to the consumer; the other entries are left for the induction.
      have hclaimed : (claimEntry D consumer now (g, messages) entry).1.entries = g.entries ∧ _ :=
        claimEntry_stale (hget entry List.mem_cons_self) hstale
      obtain ⟨hentries, hpending, hmessages⟩ := hclaimed
      generalize claimEntry D consumer now (g, messages) entry = page at hentries hpending hmessages
      obtain ⟨g', messages'⟩ := page
      have hbody : ∀ id, g'.body id = g.body id := fun id => by
        unfold GroupView.body
        rw [show g'.entries = g.entries from hentries]
      have hreturned : returned D now g' = returned D now g := by
        funext e
        unfold returned
        rw [hbody]
      have htail' : ∀ e ∈ entries, g'.pending.get e.1 = some e.2 := by
        intro e he
        have hne : e.1 ≠ entry.1 := fun heq => hdistinct.1 (heq ▸ List.mem_map_of_mem he)
        rw [show g'.pending.get e.1 = _ from hpending e.1, if_neg hne]
        exact htail e he
      obtain ⟨hentries', hpending', hmessages'⟩ := ih hdistinct.2 htail' messages'
      refine ⟨hentries'.trans hentries, fun id => ?_, ?_⟩
      · rw [hpending', hbody, show g'.pending.get id = _ from hpending id]
        simp only [List.mem_cons, exists_eq_or_imp, hstale, and_true]
        by_cases hid : id = entry.1
        · subst hid
          simp
        · have hne : ¬entry.1 = id := fun heq => hid heq.symm
          simp only [hid, hne, false_or, if_false]
      · -- The page returns it when its body is still on the stream.
        rw [hmessages', hreturned, show messages' = _ from hmessages, List.append_assoc]
        congr 1
        rw [List.filterMap_cons]
        unfold returned
        rw [if_pos hstale]
        cases g.body entry.1 <;> rfl
    · -- A fresh entry is passed over.
      rw [claimEntry_fresh hstale]
      obtain ⟨hentries, hpending, hmessages⟩ := ih hdistinct.2 htail messages
      refine ⟨hentries, fun id => ?_, ?_⟩
      · rw [hpending]
        simp only [List.mem_cons, exists_eq_or_imp, hstale, and_false, false_or]
      · rw [hmessages, List.filterMap_cons_none]
        exact if_neg hstale

/-! ## IDs -/

/-- `next_stream_id` is the next ID of 64-bit parts. -/
theorem before_nextStreamId {id other : StreamId} (hid : Fits id) (hother : Fits other) :
    Before (nextStreamId id) other ↔ other ≤ id := by
  have hlt : ∀ a b : ℕ, other < (toLex (a, b) : StreamId) ↔
      other.milliseconds < a ∨ other.milliseconds = a ∧ other.sequence < b := fun a b =>
    StreamId.lt_iff other (toLex (a, b))
  rw [← not_lt, StreamId.lt_iff]
  unfold Fits at hid hother
  unfold Before nextStreamId
  dsimp only
  split_ifs with hsequence hmilliseconds
  · simp only [Option.some.injEq, forall_eq', hlt]
    omega
  · simp only [Option.some.injEq, forall_eq', hlt]
    omega
  · simp only [false_implies, implies_true, true_iff]
    omega

/-- The pending entries from the cursor on, in order. -/
def onward (g : GroupView β) (cursor : StreamId) : List (StreamId × Holding) :=
  (g.pending.entries.filter fun e => cursor ≤ e.1).insertionSort fun a b => a.1 ≤ b.1

/-- The sweep goes on with the entries that are pending from its cursor on. -/
theorem mem_onward {cursor : StreamId} {e : StreamId × Holding} :
    e ∈ onward g cursor ↔ g.pending.get e.1 = some e.2 ∧ cursor ≤ e.1 := by
  unfold onward
  rw [List.mem_insertionSort, List.mem_filter, decide_eq_true_iff, ← Table.mem_entries_iff]

/-- Pending IDs are distinct. -/
theorem onward_sorted (cursor : StreamId) :
    ((onward g cursor).map Prod.fst).Pairwise (· < ·) := by
  have hle : (onward g cursor).Pairwise fun a b => a.1 ≤ b.1 := List.pairwise_insertionSort _ _
  have hnodup : ((onward g cursor).map Prod.fst).Nodup := by
    have hfilter : ((g.pending.entries.filter fun e => cursor ≤ e.1).map Prod.fst).Nodup :=
      g.pending.nodup.sublist (List.Sublist.map _ List.filter_sublist)
    exact ((List.perm_insertionSort _ _).map Prod.fst).nodup_iff.mpr hfilter
  have hpair := (List.pairwise_map.mpr hle).and hnodup
  exact hpair.imp fun h => lt_of_le_of_ne h.1 h.2

/-- The first cursor. -/
def firstId : StreamId := toLex (0, 0)

/-- The first ID is the least. -/
theorem firstId_le (id : StreamId) : firstId ≤ id := by
  rw [← not_lt, StreamId.lt_iff]
  change ¬(id.milliseconds < 0 ∨ id.milliseconds = 0 ∧ id.sequence < 0)
  omega

/-- The next cursor of a page, if it is not the last one. -/
def nextCursor (D : Deployment) (cursor : StreamId) (g : GroupView β) : Option StreamId :=
  let ids := (g.xpending cursor D.settings.claimBatchSize).map Prod.fst
  if ids.length = D.settings.claimBatchSize then ids.getLast?.bind nextStreamId else none

/-- The pending IDs that a page looks at are a page of the pending IDs. -/
theorem isPage_xpending (hfits : ∀ id, g.Pending id → Fits id) (cursor : StreamId) :
    IsPage g.Pending cursor ((g.xpending cursor D.settings.claimBatchSize).map Prod.fst)
      (nextCursor D cursor g) := by
  have hids : (g.xpending cursor D.settings.claimBatchSize).map Prod.fst =
      ((onward g cursor).map Prod.fst).take D.settings.claimBatchSize := List.map_take ..
  have hmem : ∀ id, id ∈ (onward g cursor).map Prod.fst ↔ g.Pending id ∧ cursor ≤ id := by
    intro id
    constructor
    · intro h
      obtain ⟨e, he, rfl⟩ := List.mem_map.mp h
      obtain ⟨hget, hle⟩ := mem_onward.mp he
      exact ⟨Option.isSome_iff_exists.mpr ⟨_, hget⟩, hle⟩
    · rintro ⟨hpending, hle⟩
      obtain ⟨holding, hget⟩ := Option.isSome_iff_exists.mp hpending
      exact List.mem_map.mpr ⟨(id, holding), mem_onward.mpr ⟨hget, hle⟩, rfl⟩
  unfold nextCursor
  dsimp only
  rw [hids]
  refine isPage_take D.settings.claimBatchSize_range.1 (onward_sorted cursor) hmem
    fun k hk k' hk' => ?_
  exact before_nextStreamId (hfits k ((hmem k).mp hk).1) (hfits k' ((hmem k').mp hk').1)

/-- `claim_pending_page` returns the next cursor, or the first one at the end. -/
theorem claimPendingPage_cursor (consumer : String) (now : Time) (cursor : StreamId) :
    (claimPendingPage D consumer now cursor g).2.1 = (nextCursor D cursor g).getD firstId := by
  unfold claimPendingPage nextCursor
  dsimp only
  rw [List.length_map, List.getLast?_map]
  split_ifs with hfull
  · have hne : g.xpending cursor D.settings.claimBatchSize ≠ [] := by
      rw [← List.length_pos_iff, hfull]
      exact D.settings.claimBatchSize_range.1
    rw [List.getLast?_eq_some_getLast hne]
    rfl
  · rfl

/-! ## The sweep -/

/-- A page of a sweep: its call, and the group it was called on. -/
structure Page where
  now : Time
  cursor : StreamId
  before : GroupView Body

/-- `claim_pending_page` with the messages of its reply; `none` where reading the reply raises. -/
def Page.claim (D : Deployment) (consumer : String) (p : Page) :
    GroupView Body × StreamId × Option (List (StreamId × Table String String)) :=
  let (after, next, entries) := claimPendingPage D consumer p.now p.cursor p.before
  (after, next, entries.mapM messageOf)

/-- The entries that a page looks at. -/
def Page.examined (D : Deployment) (p : Page) : List (StreamId × Holding) :=
  p.before.xpending p.cursor D.settings.claimBatchSize

/-- A sweep: the group, the cursor of the next page, and the pages so far. -/
structure Sweep where
  group : GroupView Body
  cursor : StreamId := firstId
  pages : List Page := []

/-- The cursor has returned to the first one. -/
def Sweep.Ended (s : Sweep) : Prop := s.pages ≠ [] ∧ s.cursor = firstId

instance (s : Sweep) : Decidable s.Ended := inferInstanceAs (Decidable (_ ∧ _))

/-- The IDs of the pending list are those of a server. -/
def fits (g : GroupView Body) : Bool := g.pending.entries.all fun e => decide (Fits e.1)

/-- What happens in a sweep. -/
inductive SweepAct
  /-- The next page. -/
  | page (now : Time)
  /-- Other consumers acknowledge, claim and read, entries are added and deleted: whatever the group
  has become between two pages. -/
  | others (group : GroupView Body)

/-- One step of a sweep. -/
def sweepStep (D : Deployment) (consumer : String) (s : Sweep) : SweepAct → Option Sweep
  | .page now =>
    if s.Ended then none
    else
      let p : Page := ⟨now, s.cursor, s.group⟩
      some { group := (p.claim D consumer).1, cursor := (p.claim D
        consumer).2.1, pages := s.pages ++ [p] }
  | .others group => if fits group then some { s with group } else none

/-- The sweeps of a consumer, from any pending list. -/
def sweep (D : Deployment) (consumer : String) : Machine Sweep SweepAct where
  init s := fits s.group = true ∧ s.cursor = firstId ∧ s.pages = []
  step := sweepStep D consumer

/-- The IDs that the pages have looked at. -/
def examined (D : Deployment) (pages : List Page) : List StreamId :=
  pages.flatMap fun p => (p.examined D).map Prod.fst

/-- What a page does with the entries that it looks at. -/
structure Claims (D : Deployment) (consumer : String) (p : Page) : Prop where
  /-- It returns the stale entries that have a body, with their fields. -/
  returned : (p.claim D consumer).2.2 = some ((p.examined D).filterMap fun e =>
    if Stale D p.now e then (p.before.body e.1).map fun b => (e.1, dictOf b) else none)
  /-- Fields with distinct names are the fields of the message, in their order. -/
  fields : ∀ e ∈ p.examined D, Stale D p.now e → ∀ b, p.before.body e.1 = some b →
    (b.map Prod.fst).Nodup → ∃ messages message, (p.claim D consumer).2.2 = some messages ∧
      message ∈ messages ∧ message.1 = e.1 ∧ message.2.entries = b
  /-- They are owned by the consumer. -/
  owned : ∀ e ∈ p.examined D, Stale D p.now e → p.before.body e.1 ≠ none →
    (p.claim D consumer).1.pending.get e.1 = some ⟨consumer, p.now⟩
  /-- It acknowledges the stale entries whose body is gone, and no others. -/
  acknowledged : ∀ id, p.before.Pending id → (¬(p.claim D consumer).1.Pending id ↔
    (∃ e ∈ p.examined D, e.1 = id ∧ Stale D p.now e) ∧ p.before.body id = none)
  /-- It leaves every other entry with its holder, and the bodies. -/
  left : ∀ id, (¬∃ e ∈ p.examined D, e.1 = id ∧ Stale D p.now e) →
    (p.claim D consumer).1.pending.get id = p.before.pending.get id
  entries : (p.claim D consumer).1.entries = p.before.entries

/-- A page claims the stale entries with their fields. -/
theorem claims (D : Deployment) (consumer : String) (p : Page) : Claims D consumer p := by
  have hdistinct : ((p.examined D).map Prod.fst).Nodup := by
    have hsorted := (onward_sorted (g := p.before) p.cursor).sublist
      (List.Sublist.map Prod.fst (List.take_sublist D.settings.claimBatchSize _))
    exact hsorted.imp ne_of_lt
  have hget : ∀ e ∈ p.examined D, p.before.pending.get e.1 = some e.2 := fun e he =>
    (mem_onward.mp (List.mem_of_mem_take he)).1
  obtain ⟨hentries, hpending, hmessages⟩ :=
    claims_foldl D consumer p.now hdistinct hget []
  have hget' : ∀ id, (p.claim D consumer).1.pending.get id =
      if ∃ e ∈ p.examined D, e.1 = id ∧ Stale D p.now e then
        (p.before.body id).map fun _ => ⟨consumer, p.now⟩
      else p.before.pending.get id := hpending
  have hreturned : (p.claim D consumer).2.2 = some ((p.examined D).filterMap fun e =>
      if Stale D p.now e then (p.before.body e.1).map fun b => (e.1, dictOf b) else none) := by
    -- Each claimed entry becomes a message.
    have hreply : (p.claim D consumer).2.2 =
        ((p.examined D).filterMap (returned D p.now p.before)).mapM messageOf := by
      rw [List.nil_append] at hmessages
      exact congrArg (fun entries => entries.mapM messageOf) hmessages
    have hall : ∀ entries : List (StreamId × Body),
        entries.mapM messageOf = some (entries.map fun e => (e.1, dictOf e.2)) := by
      intro entries
      induction entries with
      | nil => rfl
      | cons e entries ih => simp [List.mapM_cons, ih]
    rw [hreply, hall, List.map_filterMap]
    congr 2
    funext e
    unfold RedisStreamConsumer.returned
    split_ifs
    · cases p.before.body e.1 <;> rfl
    · rfl
  refine ⟨hreturned, fun e he hstale b hb hnames => ?_,
    fun e he hstale hbody => ?_, fun id hid => ?_, fun id hid => ?_, hentries⟩
  · refine ⟨_, (e.1, dictOf b), hreturned, List.mem_filterMap.mpr ⟨e, he, ?_⟩, rfl,
      dictOf_entries hnames⟩
    rw [if_pos hstale, hb]
    rfl
  · obtain ⟨b, hb⟩ := Option.ne_none_iff_exists'.mp hbody
    rw [hget', if_pos ⟨e, he, rfl, hstale⟩, hb]
    rfl
  · unfold GroupView.Pending at hid ⊢
    rw [hget']
    by_cases hexamined : ∃ e ∈ p.examined D, e.1 = id ∧ Stale D p.now e
    · rw [if_pos hexamined, Option.isSome_map, Option.not_isSome_iff_eq_none]
      exact ⟨fun h => ⟨hexamined, h⟩, fun h => h.2⟩
    · rw [if_neg hexamined]
      exact iff_of_false (fun h => h hid) fun h => hexamined h.1
  · rw [hget', if_neg hid]

/-- What holds of the pages of a sweep. -/
structure Swept (D : Deployment) (consumer : String) (s : Sweep) : Prop where
  /-- The cursor increases until it returns to the first one. -/
  increasing : (s.pages.map Page.cursor).Pairwise (· < ·)
  onward : s.pages ≠ [] → s.cursor = firstId ∨ ∀ p ∈ s.pages, p.cursor < s.cursor
  /-- The IDs are looked at in order, and none twice. -/
  ordered : (examined D s.pages).Pairwise (· < ·)
  /-- An ID that was pending at every page is looked at once when the sweep has ended. -/
  once : s.Ended → ∀ id, (∀ p ∈ s.pages, p.before.Pending id) → (examined D s.pages).count id = 1
  claims : ∀ p ∈ s.pages, Claims D consumer p

/-- What the steps of a sweep keep. -/
structure SweepInv (D : Deployment) (s : Sweep) : Prop where
  fits : ∀ id, s.group.Pending id → Fits id
  /-- The pages are a scan, which goes on at the cursor. -/
  scanned : Scanned firstId (s.pages.map fun p => (p.before.Pending, (p.examined D).map Prod.fst))
    (if s.Ended then none else some s.cursor)
  increasing : (s.pages.map Page.cursor).Pairwise (· < ·)
  onward : s.pages ≠ [] → s.cursor = firstId ∨ ∀ p ∈ s.pages, p.cursor < s.cursor

variable {s s' : Sweep}

/-- A group fits when the IDs it has pending fit. -/
theorem fits_iff {g : GroupView Body} : fits g = true ↔ ∀ id, g.Pending id → Fits id := by
  unfold RedisStreamConsumer.fits GroupView.Pending
  rw [List.all_eq_true]
  constructor
  · intro h id hid
    obtain ⟨holding, hget⟩ := Option.isSome_iff_exists.mp hid
    exact of_decide_eq_true (h _ (Table.mem_entries_iff.mpr hget))
  · intro h e he
    exact decide_eq_true (h e.1 (Option.isSome_iff_exists.mpr ⟨_, Table.mem_entries_iff.mp he⟩))

/-- A page keeps the invariant. -/
theorem SweepInv.page (h : SweepInv D s) {p : Page} (hopen : ¬s.Ended)
    (hcursor : p.cursor = s.cursor) (hgroup : p.before = s.group) (consumer : String) :
    SweepInv D ⟨(p.claim D consumer).1, (p.claim D consumer).2.1, s.pages ++ [p]⟩ := by
  have hpage : IsPage p.before.Pending p.cursor ((p.examined D).map Prod.fst)
      (nextCursor D p.cursor p.before) := isPage_xpending (hgroup ▸ h.fits) p.cursor
  have hnext : (p.claim D consumer).2.1 = (nextCursor D p.cursor p.before).getD firstId :=
    claimPendingPage_cursor consumer p.now p.cursor
  have hbelow : ∀ q ∈ s.pages, q.cursor < p.cursor := by
    intro q hq
    have hpages : s.pages ≠ [] := List.ne_nil_of_mem hq
    rcases h.onward hpages with hfirst | hall
    · exact absurd ⟨hpages, hfirst⟩ hopen
    · exact hcursor ▸ hall q hq
  have hended :
      (if Sweep.Ended ⟨(p.claim D consumer).1, (p.claim D consumer).2.1, s.pages ++ [p]⟩ then none
      else some (p.claim D consumer).2.1) = nextCursor D p.cursor p.before := by
    unfold Sweep.Ended
    dsimp only
    rw [hnext]
    cases hn : nextCursor D p.cursor p.before with
    | none => simp
    | some n =>
      have hlt : firstId < n := (firstId_le p.cursor).trans_lt (hpage.advances n hn)
      simp [hlt.ne']
  refine ⟨fun id hid => ?_, ?_, ?_, fun _ => ?_⟩
  · -- What is pending afterwards was pending before.
    have hbefore : p.before.Pending id := by
      by_cases hexamined : ∃ e ∈ p.examined D, e.1 = id ∧ Stale D p.now e
      · obtain ⟨e, he, rfl, -⟩ := hexamined
        exact (hpage.sound e.1 (List.mem_map_of_mem he)).1
      · have hleft := (claims D consumer p).left id hexamined
        unfold GroupView.Pending at hid ⊢
        rwa [← hleft]
    exact h.fits id (hgroup ▸ hbefore)
  · rw [List.map_append, hended]
    have hscanned := h.scanned
    rw [if_neg hopen, ← hcursor] at hscanned
    exact hscanned.page hpage
  · rw [List.map_append, List.pairwise_append]
    refine ⟨h.increasing, List.pairwise_singleton _ _, fun c hc c' hc' => ?_⟩
    obtain ⟨q, hq, rfl⟩ := List.mem_map.mp hc
    obtain rfl : c' = p.cursor := List.mem_singleton.mp hc'
    exact hbelow q hq
  · dsimp only
    rw [hnext]
    cases hn : nextCursor D p.cursor p.before with
    | none => exact .inl rfl
    | some n =>
      refine .inr fun q hq => ?_
      have hlt : p.cursor < n := hpage.advances n hn
      rcases List.mem_append.mp hq with hq | hq
      · exact (hbelow q hq).trans hlt
      · exact List.mem_singleton.mp hq ▸ hlt

/-- A step of the sweep keeps its invariant. -/
theorem SweepInv.step {a : SweepAct} (h : SweepInv D s)
    (hstep : sweepStep D consumer s a = some s') :
    SweepInv D s' := by
  cases a with
  | page now =>
    unfold sweepStep at hstep
    dsimp only at hstep
    split_ifs at hstep with hended
    obtain rfl := Option.some.inj hstep
    exact h.page hended rfl rfl consumer
  | others group =>
    unfold sweepStep at hstep
    dsimp only at hstep
    split_ifs at hstep with hfits
    obtain rfl := Option.some.inj hstep
    exact ⟨fits_iff.mp hfits, h.scanned, h.increasing, h.onward⟩

/-- In every reachable state of the sweep, the invariant holds. -/
theorem sweepInv_reachable {consumer : String} (hr : (sweep D consumer).Reachable s) :
    SweepInv D s := by
  induction hr with
  | start hs =>
    obtain ⟨hfits, hcursor, hpages⟩ := hs
    refine ⟨fits_iff.mp hfits, ?_, by simp [hpages], fun h => absurd hpages h⟩
    have hopen : ¬Sweep.Ended _ := fun h => h.1 hpages
    rw [if_neg hopen, hpages, hcursor]
    exact .start
  | next _ _ hstep ih => exact ih.step hstep

/-- A sweep looks once, in order, at every ID that stays pending, claims the stale entries with
their fields, and acknowledges only stale entries whose body is gone, whatever others do between its
pages. -/
theorem pending_swept {consumer : String} (hr : (sweep D consumer).Reachable s) :
    Swept D consumer s := by
  have hinv := sweepInv_reachable hr
  have hkeys : Scanned.keys (s.pages.map fun p => (p.before.Pending, (p.examined D).map Prod.fst)) =
      examined D s.pages := by
    simp [Scanned.keys, examined, List.flatMap_map]
  have hordered : (examined D s.pages).Pairwise (· < ·) := hkeys ▸ hinv.scanned.increasing
  refine ⟨hinv.increasing, hinv.onward, hordered, fun hended id hsteady => ?_,
    fun p _ => claims D consumer p⟩
  have hmem : id ∈ examined D s.pages := by
    rw [← hkeys]
    refine hinv.scanned.mem (firstId_le id) (fun view hview => ?_) ?_
    · obtain ⟨p, hp, rfl⟩ := List.mem_map.mp hview
      exact hsteady p hp
    · rw [if_pos hended]
      intro c hc
      cases hc
  exact List.count_eq_one_of_mem (hordered.imp ne_of_lt) hmem

namespace Sample

/-- Pages of two entries, claimed after thirty seconds. -/
def pagesOfTwo : Deployment where
  settings := {
    stream := "events", group := "workers", claimIdleMilliseconds := 30000, claimBatchSize := 2
    deadLetterStream := none, maxRetryAttempts := 5, retryKeyPrefix := "retries"
    redisStreamMode := .compat, claimIdle_pos :=
      Nat.succ_pos 29999, claimBatchSize_range := by decide
    maxRetryAttempts_pos := Nat.succ_pos 4 }
  sha256 := id
  dropsDeleted := false

/-- Three pending entries: one fresh, one whose body is gone, and one with its body. -/
def pending : GroupView Body where
  entries := [(toLex (1, 0), [("value", "0")]), (toLex (1, 2), [("value", "2")])]
  lastId := toLex (1, 2)
  lastDelivered := toLex (1, 2)
  pending := ⟨[(toLex (1, 0), ⟨"old", 50000⟩), (toLex (1, 1), ⟨"old", 0⟩),
    (toLex (1, 2), ⟨"old", 0⟩)], by decide⟩

/-- Another consumer reads a new entry after the first page. -/
def sweepRun : List SweepAct :=
  [.page 60000,
    .others { pending with
      entries := pending.entries ++ [(toLex (1, 3), [])]
      pending := ⟨[(toLex (1, 0), ⟨"old", 50000⟩), (toLex (1, 2), ⟨"old", 0⟩),
        (toLex (1, 3), ⟨"other", 60000⟩)], by decide⟩ },
    .page 60001, .page 60002]

end Sample

/-- A sweep of three pages: the entry that is read meanwhile is looked at as well. -/
theorem pending_swept_three : ∃ s, (sweep Sample.pagesOfTwo "new").run { group := Sample.pending }
      Sample.sweepRun = some s ∧ s.Ended ∧ Swept Sample.pagesOfTwo "new" s ∧
    examined Sample.pagesOfTwo s.pages =
    [toLex (1, 0), toLex (1, 1), toLex (1, 2), toLex (1, 3)] := by
  have hinit : (sweep Sample.pagesOfTwo "new").init { group := Sample.pending } :=
    ⟨by decide, rfl, rfl⟩
  have hrun : (sweep Sample.pagesOfTwo "new").run { group := Sample.pending } Sample.sweepRun =
      some _ := rfl
  exact ⟨_, hrun, by decide, pending_swept (.run (.start hinit) hrun), rfl⟩

end ExAgent.Worker.RedisStreamConsumer
