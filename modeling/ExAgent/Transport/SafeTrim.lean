import ExAgent.Lib.Fallible
import ExAgent.Transport.StreamMaintenance

/-!
# What a trim removes

The script's comparison of decimal texts is the order of the IDs (`idLess_text`), so that the script
and the plan compute one boundary, `SafeStreamTrimmer.boundary`, the least of the bounds
(`boundary_least`). No protected entry lies below it (`boundary_le`). A trim in compat mode removes
the oldest 500 entries below it and does not move it (`boundary_keep`), so that trims one after the
other end where one trim in native mode ends (`trims_compat`).
-/

namespace ExAgent.Transport

open Lib

/-! ## Texts and IDs -/

/-- The text that `decimal_less` compares. -/
def canonical (text : List Char) : List Char :=
  let text := DecimalText.stripped text
  if text = [] then ['0'] else text

/-- The canonical text has the value of the text. -/
theorem value_canonical (text : List Char) :
    DecimalText.value (canonical text) = DecimalText.value text := by
  unfold canonical
  dsimp only
  split
  · rename_i hempty
    rw [← DecimalText.value_stripped text, hempty]
    rfl
  · exact DecimalText.value_stripped text

/-- The canonical text has digits only. -/
theorem digits_canonical {text : List Char} (h : DecimalText.Digits text) :
    DecimalText.Digits (canonical text) := by
  unfold canonical
  dsimp only
  split
  · intro c hc
    rw [List.mem_singleton.mp hc]
    rfl
  · exact DecimalText.digits_stripped h

/-- A canonical text longer than another one does not start with a zero. -/
theorem canonical_head {a b : List Char} (h : (canonical a).length < (canonical b).length)
    (c : Char) (rest : List Char) (hb : canonical b = c :: rest) : c ≠ '0' := by
  have hpos : 0 < (canonical a).length := by
    unfold canonical
    dsimp only
    split
    · decide
    · exact List.length_pos_iff.mpr ‹_›
  unfold canonical at h hb
  dsimp only at h hb
  split at hb
  · rename_i hempty
    rw [if_pos hempty] at h
    have : (['0'] : List Char).length = 1 := rfl
    unfold canonical at hpos
    dsimp only at hpos
    omega
  · exact DecimalText.stripped_head hb

/-- `decimal_less` compares numbers, for all texts of digits. -/
theorem decimalLess_eq {a b : List Char} (ha : DecimalText.Digits a) (hb : DecimalText.Digits b) :
    decimalLess a b = decide (DecimalText.value a < DecimalText.value b) := by
  have hda := digits_canonical ha
  have hdb := digits_canonical hb
  have hdef : decimalLess a b = if (canonical a).length ≠ (canonical b).length then
      decide ((canonical a).length < (canonical b).length)
      else decide (canonical a < canonical b) := rfl
  rw [hdef, ← value_canonical a, ← value_canonical b]
  rcases Nat.lt_trichotomy (canonical a).length (canonical b).length with hlt | heq | hgt
  · have hvalue := DecimalText.value_lt_of_length_lt hda hdb (canonical_head hlt) hlt
    rw [if_pos (by omega)]
    simp [hlt, hvalue]
  · rw [if_neg (by omega)]
    exact decide_eq_decide.mpr (DecimalText.lt_iff_value_lt hda hdb heq)
  · have hvalue := DecimalText.value_lt_of_length_lt hdb hda (canonical_head hgt) hgt
    rw [if_pos (by omega)]
    have hnot : ¬ (canonical a).length < (canonical b).length := by omega
    have hnotv : ¬ DecimalText.value (canonical a) < DecimalText.value (canonical b) := by omega
    simp [hnot, hnotv]

/-- The comparison of two decimal texts is that of their numbers. -/
@[simp]
theorem decimalLess_decimal (m n : ℕ) : decimalLess (decimal m) (decimal n) = decide (m < n) := by
  rw [decimalLess_eq (DecimalText.digits_decimal m) (DecimalText.digits_decimal n)]
  simp

/-- `id_less` on the texts of IDs is the order of the IDs. -/
@[simp]
theorem idLess_text (a b : StreamId) : idLess a.text b.text = some (decide (a < b)) := by
  unfold idLess
  rw [StreamId.parts_text, StreamId.parts_text]
  simp only [decimalLess_decimal]
  split
  · rename_i hms
    have hms := DecimalText.decimal_injective hms
    rw [decide_eq_decide.mpr]
    rw [StreamId.lt_iff]
    omega
  · rename_i hms
    have hne : a.milliseconds ≠ b.milliseconds := fun h => hms (congrArg decimal h)
    rw [decide_eq_decide.mpr]
    rw [StreamId.lt_iff]
    omega

/-- The smaller of two texts of IDs is the text of the smaller ID. -/
@[simp]
theorem minimum_text (a b : StreamId) : minimum a.text b.text = some (min a b).text := by
  unfold minimum
  rw [idLess_text, Option.map_some]
  rcases lt_or_ge b a with hlt | hle
  · simp [hlt, min_eq_right (le_of_lt hlt)]
  · simp [not_lt.mpr hle, min_eq_left hle]

/-- The loop over the rows of a range keeps those below the boundary. -/
theorem rowsBelow_text (b : StreamId) (ids : List StreamId) :
    rowsBelow b.text (ids.map StreamId.text) =
      some ((ids.filter fun i => i < b).map StreamId.text) := by
  induction ids with
  | nil => rfl
  | cons id ids ih =>
    rw [List.map_cons, rowsBelow, idLess_text, Option.bind_some, ih, Option.map_some]
    by_cases h : id < b <;> simp [h]

/-- Texts of IDs are all read back. -/
theorem mapM_parse (ids : List StreamId) :
    (ids.map StreamId.text).mapM StreamId.parse = some ids := by
  have hparse := Fallible.mapM_eq_some (f := StreamId.parse ∘ StreamId.text) (g := id) ids
    (fun i _ => StreamId.parse_text i)
  rwa [List.map_id, ← List.mapM_map] at hparse

/-! ## The boundary -/

namespace SafeStreamTrimmer

variable {β : Type} (t : SafeStreamTrimmer)

/-- The first ID that the retention keeps. -/
def retentionId (now : ℤ) : StreamId := toLex (t.cutoff now, 0)

/-- The ID of the oldest of the newest entries to retain. -/
def tailId (s : EntryStream β) : Option StreamId :=
  (s.ids.reverse.take t.minimumRetainedEntries).getLast?

/-- The IDs below which a group allows removal. -/
def groupIds (g : ConsumerGroup) : List StreamId := g.lastDelivered :: g.pending.head?.toList

/-- The bounds besides the retention. -/
def bounds (s : EntryStream β) : List StreamId :=
  (t.tailId s).toList ++ s.groups.flatMap groupIds

/-- The least of the bounds. -/
def boundary (s : EntryStream β) (now : ℤ) : StreamId := (t.bounds s).foldl min (t.retentionId now)

/-- The IDs that nothing may be removed from on: the retention ID, the ID of the oldest of the
newest entries to retain, every group's last delivered ID and every group's oldest pending ID. -/
def Bound (s : EntryStream β) (now : ℤ) (b : StreamId) : Prop :=
  b = t.retentionId now ∨ t.tailId s = some b ∨
    ∃ g ∈ s.groups, b = g.lastDelivered ∨ g.pending.head? = some b

/-- `boundary` is the least bound. -/
theorem boundary_least (s : EntryStream β) (now : ℤ) :
    IsLeast {b | t.Bound s now b} (t.boundary s now) := by
  have hmin : (t.retentionId now :: t.bounds s).min? = some (t.boundary s now) := List.min?_cons'
  obtain ⟨hmem, hle⟩ := List.min?_eq_some_iff.mp hmin
  have hbound : ∀ b, b ∈ t.retentionId now :: t.bounds s ↔ t.Bound s now b := by
    intro b
    simp [bounds, Bound, groupIds]
  constructor
  · exact (hbound _).mp hmem
  · intro b hb
    exact hle b ((hbound b).mpr hb)

/-- The retention boundary is the text of the retention ID. -/
theorem retentionBoundary_eq (now : ℤ) : t.retentionBoundary now = (t.retentionId now).text := by
  have hzero : decimal 0 = ['0'] := Nat.toDigits_zero 10
  have htext : (t.retentionId now).text = decimal (t.cutoff now) ++ '-' :: decimal 0 := rfl
  rw [htext, hzero]
  rfl

/-- With more entries than are to be retained, the tail is found whole. -/
theorem xrevrange_length {s : EntryStream β} (h : t.minimumRetainedEntries < s.xlen) :
    (s.xrevrange t.minimumRetainedEntries).length = t.minimumRetainedEntries := by
  unfold EntryStream.xrevrange
  rw [List.length_map, List.length_take, List.length_reverse, EntryStream.length_ids]
  omega

/-- The last entry of the newest ones is the tail's. -/
theorem xrevrange_getLast (s : EntryStream β) :
    (s.xrevrange t.minimumRetainedEntries).getLast? = (t.tailId s).map StreamId.text := by
  unfold EntryStream.xrevrange tailId
  exact List.getLast?_map

/-- Without a minimum there is no tail. -/
theorem tailId_eq_none {s : EntryStream β} (h : t.minimumRetainedEntries = 0) :
    t.tailId s = none := by
  unfold tailId
  rw [h]
  rfl

/-- With more entries than are to be retained, and some to be retained, there is a tail. -/
theorem tailId_isSome {s : EntryStream β} (hpos : 0 < t.minimumRetainedEntries)
    (h : t.minimumRetainedEntries < s.xlen) : ∃ last, t.tailId s = some last := by
  unfold tailId
  apply Option.isSome_iff_exists.mp
  rw [List.getLast?_isSome, ← List.length_pos_iff, List.length_take, List.length_reverse,
    EntryStream.length_ids]
  omega

/-! ### The script's boundary -/

/-- The reply about a group. -/
def info (g : ConsumerGroup) : GroupInfo :=
  [("name", .name g.name), ("pending", .count g.pending.length),
    ("last-delivered-id", .text g.lastDelivered.text)]

/-- A group's boundary is the least of its IDs. -/
theorem groupBoundary_info {s : EntryStream β} {g : ConsumerGroup} (hg : g ∈ s.groups)
    (b : StreamId) :
    groupBoundary s b.text (info g) = some ((groupIds g).foldl min b).text := by
  have hfields : (info g).foldl GroupFields.read ⟨none, zeroId, 0⟩ =
      ⟨some g.name, g.lastDelivered.text, g.pending.length⟩ := rfl
  unfold groupBoundary
  rw [hfields]
  simp only [minimum_text, Option.bind_some]
  unfold groupIds
  cases hp : g.pending.head? with
  | none =>
    have hempty : g.pending = [] := List.head?_eq_none_iff.mp hp
    rw [hempty]
    rfl
  | some oldest =>
    have hpos : g.pending.length > 0 := by
      rw [gt_iff_lt, List.length_pos_iff]
      rintro hempty
      rw [hempty] at hp
      exact absurd hp (by simp)
    rw [if_pos hpos, EntryStream.xpending_of_mem s hg]
    simp [hp]

/-- The loop over the groups takes the least of their bounds. -/
theorem groups_loop {s : EntryStream β} (gs : List ConsumerGroup) (hgs : ∀ g ∈ gs, g ∈ s.groups)
    (b : StreamId) :
    (gs.map info).foldlM (groupBoundary s) b.text =
      some ((gs.flatMap groupIds).foldl min b).text := by
  induction gs generalizing b with
  | nil => rfl
  | cons g gs ih =>
    have hhead := groupBoundary_info (hgs g List.mem_cons_self) b
    have htail := ih (fun other hother => hgs other (List.mem_cons_of_mem g hother))
      ((groupIds g).foldl min b)
    rw [List.map_cons, List.foldlM_cons, hhead, List.flatMap_cons, List.foldl_append]
    exact htail

/-! ### The plan's boundary -/

/-- The entry of a group in the list that `_groups` returns. -/
def entry (g : ConsumerGroup) : ConsumerGroupBoundary :=
  ⟨g.name, g.lastDelivered.text, g.pending.length, g.pending.head?.map StreamId.text⟩

/-- A lookup in a table of values finds the value. -/
theorem lookup_map {α γ : Type} [BEq α] [LawfulBEq α] (f : α → γ) {a : α} {as : List α}
    (h : a ∈ as) : (as.map fun a => (a, f a)).lookup a = some (f a) := by
  induction as with
  | nil => simp at h
  | cons first rest ih =>
    rw [List.map_cons, List.lookup_cons]
    by_cases heq : a = first
    · rw [heq, beq_self_eq_true]
    · rw [beq_false_of_ne heq]
      exact ih ((List.mem_cons.mp h).resolve_left heq)

/-- The groups that `_groups` asks about. -/
def busy (s : EntryStream β) : List ConsumerGroup := s.groups.filter fun g => g.pending.length > 0

/-- The summary of a group's pending IDs. -/
def summary (s : EntryStream β) (name : String) : PendingSummary :=
  (s.xpending name).getD ⟨0, none, none⟩

/-- The summary of a group's pending entries has the least of them. -/
theorem summary_of_mem {s : EntryStream β} {g : ConsumerGroup} (hg : g ∈ s.groups) :
    s.xpending g.name = some (summary s g.name) ∧
      (summary s g.name).min = g.pending.head?.map StreamId.text := by
  unfold summary
  rw [EntryStream.xpending_of_mem s hg]
  exact ⟨rfl, rfl⟩

/-- A group's entry is built from its reply and the summaries of the groups with pending IDs. -/
theorem groupEntry_info {s : EntryStream β} {g : ConsumerGroup} (hg : g ∈ s.groups) :
    groupEntry ((busy s).map fun g => (g.name, summary s g.name)) (info g) = some (entry g) := by
  have hname : groupName (info g) = some g.name := rfl
  have hcount : pendingCount (info g) = g.pending.length := rfl
  have hlast : lastDeliveredId (info g) = g.lastDelivered.text := rfl
  unfold groupEntry
  rw [hname, Option.bind_some, hcount, hlast]
  split
  · rename_i hpos
    have hmem : g.name ∈ (busy s).map ConsumerGroup.name :=
      List.mem_map_of_mem (List.mem_filter.mpr ⟨hg, by simpa using hpos⟩)
    have hlookup := lookup_map (summary s) hmem
    rw [List.map_map] at hlookup
    have hfound : ((busy s).map fun g => (g.name, summary s g.name)).lookup g.name =
        some (summary s g.name) := hlookup
    rw [hfound, Option.map_some, (summary_of_mem hg).2]
    rfl
  · have hempty : g.pending = [] := List.length_eq_zero_iff.mp (by omega)
    unfold entry
    rw [hempty]
    rfl

/-- `_groups` lists the groups with their oldest pending IDs. -/
theorem groups_eq (s : EntryStream β) : groups s = some (s.groups.map entry) := by
  have hinfo : s.xinfoGroups = s.groups.map info := rfl
  have hfilter : (s.xinfoGroups.filter fun values => pendingCount values > 0) =
      (busy s).map info := by
    rw [hinfo, List.filter_map]
    rfl
  have hnames : ((busy s).map info).mapM groupName = some ((busy s).map ConsumerGroup.name) := by
    rw [List.mapM_map]
    exact Fallible.mapM_eq_some _ fun g _ => rfl
  have hpending : ((busy s).map ConsumerGroup.name).mapM
      (fun name => (s.xpending name).map fun pending => (name, pending)) =
      some ((busy s).map fun g => (g.name, summary s g.name)) := by
    rw [List.mapM_map]
    apply Fallible.mapM_eq_some
    intro g hg
    have hmem : g ∈ s.groups := (List.mem_filter.mp hg).1
    show (s.xpending g.name).map _ = _
    rw [(summary_of_mem hmem).1]
    rfl
  have hentries : (s.groups.map info).mapM
      (groupEntry ((busy s).map fun g => (g.name, summary s g.name))) =
      some (s.groups.map entry) := by
    rw [List.mapM_map]
    exact Fallible.mapM_eq_some _ fun g hg => groupEntry_info hg
  unfold groups
  dsimp only
  rw [hfilter, hnames, Option.bind_some, hpending, Option.bind_some, hinfo, hentries]

/-- The least of texts of IDs is the text of the least. -/
theorem minByParts_text (b : StreamId) (ids : List StreamId) :
    minByParts b.text (ids.map StreamId.text) = some (ids.foldl min b).text := by
  induction ids generalizing b with
  | nil => rfl
  | cons id ids ih =>
    have hparts : ∀ i : StreamId, streamIdParts i.text = some (i.milliseconds, i.sequence) := by
      intro i
      simp [streamIdParts]
    rw [List.map_cons, minByParts, hparts, Option.bind_some, hparts, Option.bind_some,
      List.foldl_cons]
    have hless : pairLess (id.milliseconds, id.sequence) (b.milliseconds, b.sequence) =
        decide (id < b) := decide_eq_decide.mpr (StreamId.lt_iff id b).symm
    rw [hless]
    rcases lt_or_ge id b with hlt | hle
    · rw [min_eq_right (le_of_lt hlt)]
      simpa [hlt] using ih id
    · rw [min_eq_left hle]
      simpa [not_lt.mpr hle] using ih b

/-- The boundaries are the texts of the bounds. -/
theorem boundaries_eq {s : EntryStream β} :
    boundaries ((t.tailId s).map StreamId.text) (s.groups.map entry) =
      (t.bounds s).map StreamId.text := by
  unfold boundaries bounds
  rw [List.map_append, List.map_flatMap, List.flatMap_map]
  congr 1
  · cases t.tailId s <;> rfl
  · apply List.flatMap_congr
    intro g _
    unfold entry groupIds
    cases g.pending.head? <;> rfl

end SafeStreamTrimmer

/-! ## Trimming -/

namespace SafeStreamTrimmer

variable {β : Type} (t : SafeStreamTrimmer)

/-- The IDs of the entries that may be removed. -/
def removable (s : EntryStream β) (now : ℤ) : List StreamId :=
  s.ids.filter fun i => i < t.boundary s now

/-- The rows of an inclusive range that lie below its end, for a range read up to a length. -/
theorem filter_take_filter {ids : List StreamId} (h : ids.Pairwise (· < ·)) (b : StreamId) (n : ℕ) :
    (((ids.filter fun i => i ≤ b).take n).filter fun i => i < b) =
      (ids.filter fun i => i < b).take n := by
  induction ids generalizing n with
  | nil => simp
  | cons id ids ih =>
    obtain ⟨hhead, htail⟩ := List.pairwise_cons.mp h
    rcases lt_trichotomy id b with hlt | rfl | hgt
    · rw [List.filter_cons_of_pos (by simpa using le_of_lt hlt),
        List.filter_cons_of_pos (by simpa using hlt)]
      cases n with
      | zero => rfl
      | succ n =>
        rw [List.take_succ_cons, List.take_succ_cons, List.filter_cons_of_pos (by simpa using hlt),
          ih htail]
    · -- The end of the range is the last row, and it stays.
      have hnone : (ids.filter fun i => i ≤ id) = [] := by
        rw [List.filter_eq_nil_iff]
        intro i hi
        simpa using hhead i hi
      have hnone' : (ids.filter fun i => i < id) = [] := by
        rw [List.filter_eq_nil_iff]
        intro i hi
        simpa using le_of_lt (hhead i hi)
      rw [List.filter_cons_of_pos (by simp), List.filter_cons_of_neg (by simp), hnone, hnone']
      cases n <;> simp
    · have hnone : (ids.filter fun i => i ≤ b) = [] := by
        rw [List.filter_eq_nil_iff]
        intro i hi
        simpa using lt_trans hgt (hhead i hi)
      have hnone' : (ids.filter fun i => i < b) = [] := by
        rw [List.filter_eq_nil_iff]
        intro i hi
        simpa using le_of_lt (lt_trans hgt (hhead i hi))
      rw [List.filter_cons_of_neg (by simpa using hgt),
        List.filter_cons_of_neg (by simpa using le_of_lt hgt), hnone, hnone']
      simp

/-- What a trim removes: everything removable, or the oldest 500 of it. -/
def removal (s : EntryStream β) (b : StreamId) : RedisStreamMode → EntryStream β × ℕ
  | .native => s.xtrimMinid b
  | .compat => s.xdel ((s.ids.filter fun i => i < b).take 500)

/-- Removing below the text of an ID is removing below the ID. -/
theorem remove_text (s : EntryStream β) (b : StreamId) (mode : RedisStreamMode) :
    remove s b.text mode = some (removal s b mode) := by
  cases mode with
  | native => simp [remove, removal]
  | compat =>
    have hsorted : s.ids.Pairwise (· < ·) := s.sorted
    have hrows : rowsBelow b.text (s.xrange b 500) =
        some (((s.ids.filter fun i => i < b).take 500).map StreamId.text) := by
      unfold EntryStream.xrange
      rw [rowsBelow_text, filter_take_filter hsorted]
    have hdef : remove s b.text .compat = (StreamId.parse b.text).bind fun upto =>
        (rowsBelow b.text (s.xrange upto 500)).bind fun ids =>
          if ids.length > 0 then (ids.mapM StreamId.parse).map s.xdel else some (s, 0) := rfl
    rw [hdef, StreamId.parse_text, Option.bind_some, hrows, Option.bind_some, removal]
    generalize (s.ids.filter fun i => i < b).take 500 = ids
    rw [mapM_parse, Option.map_some, List.length_map]
    split
    · rfl
    · have hempty : ids = [] := List.length_eq_zero_iff.mp (by omega)
      rw [hempty]
      have hkeep : (s.keep fun i => i ∉ ([] : List StreamId)) = s :=
        EntryStream.ext_of (by simp) rfl
      unfold EntryStream.xdel
      dsimp only
      rw [hkeep, Nat.sub_self]

/-- The script after the check of the tail. -/
theorem removeBelow_text (s : EntryStream β) (mode : RedisStreamMode) (start : StreamId) :
    removeBelow s mode start.text =
      let b := (s.groups.flatMap groupIds).foldl min start
      some ((removal s b mode).1, ⟨(removal s b mode).2, b.text, s.groups.length, s.xlen⟩) := by
  have hinfo : s.xinfoGroups = s.groups.map info := rfl
  unfold removeBelow
  dsimp only
  rw [hinfo, groups_loop s.groups (fun _ h => h), Option.bind_some, remove_text, Option.map_some,
    List.length_map]

/-- A trim of a stream that is longer than what it has to retain. -/
theorem trim_eq {s : EntryStream β} (now : ℤ) (h : t.minimumRetainedEntries < s.xlen) :
    t.trim (some s) now =
      let (after, removed) := removal s (t.boundary s now) t.redisStreamMode
      some (some after, ⟨removed, (t.boundary s now).text, s.groups.length, s.xlen⟩) := by
  have hlong : ¬ s.xlen ≤ t.minimumRetainedEntries := by omega
  have hboundary : t.boundary s now =
      (s.groups.flatMap groupIds).foldl min
      ((t.tailId s).toList.foldl min (t.retentionId now)) := by
    unfold boundary bounds
    rw [List.foldl_append]
  unfold trim safeTrimScript
  dsimp only
  rw [if_neg hlong, retentionBoundary_eq, hboundary]
  split
  · rename_i hpos
    obtain ⟨last, hlast⟩ := t.tailId_isSome hpos h
    have htail : (s.xrevrange t.minimumRetainedEntries).getLast? = some last.text := by
      rw [xrevrange_getLast, hlast, Option.map_some]
    rw [if_neg (by rw [t.xrevrange_length h]; omega), htail, Option.bind_some, minimum_text,
      Option.bind_some, removeBelow_text, hlast]
    rfl
  · rename_i hzero
    rw [removeBelow_text, t.tailId_eq_none (by omega)]
    rfl

/-- A trim of a stream that is not. -/
theorem trim_short {s : EntryStream β} (now : ℤ) (h : s.xlen ≤ t.minimumRetainedEntries) :
    t.trim (some s) now = some (some s, ⟨0, zeroId, 0, s.xlen⟩) := by
  unfold trim safeTrimScript
  dsimp only
  rw [if_pos h]
  rfl

/-- A stream that is long enough has the tail of its newest entries. -/
theorem tailBoundary_eq {s : EntryStream β} (h : t.minimumRetainedEntries < s.xlen) :
    t.tailBoundary s = (t.tailId s).map StreamId.text := by
  unfold tailBoundary
  dsimp only
  split
  · rename_i hzero
    rw [t.tailId_eq_none hzero]
    rfl
  · rw [if_neg (by rw [t.xrevrange_length h]; omega), xrevrange_getLast]

/-- The plan for a stream that is longer than what is to be retained. -/
theorem plan_eq {s : EntryStream β} (now : ℤ) (h : t.minimumRetainedEntries < s.xlen) :
    t.plan (some s) now = some ⟨true, s.xlen, (t.retentionId now).text,
      (t.tailId s).map StreamId.text, s.groups.map entry, some (t.boundary s now).text⟩ := by
  have hlong : ¬ s.xlen ≤ t.minimumRetainedEntries := by omega
  unfold plan
  dsimp only
  rw [if_neg hlong, groups_eq, Option.bind_some, t.tailBoundary_eq h, boundaries_eq,
    retentionBoundary_eq, minByParts_text]
  rfl

/-- The plan for a stream that is not. -/
theorem plan_short {s : EntryStream β} (now : ℤ) (h : s.xlen ≤ t.minimumRetainedEntries) :
    t.plan (some s) now = some ⟨true, s.xlen, (t.retentionId now).text, none, s.groups.map entry,
      none⟩ := by
  unfold plan
  dsimp only
  rw [if_pos h, groups_eq, retentionBoundary_eq]
  rfl

/-! ### What stays -/

/-- The entries that a trim has to keep: those pending in a group, those a group has not been
delivered, the newest ones and those within the retention. -/
def Protected (s : EntryStream β) (now : ℤ) (id : StreamId) : Prop :=
  (∃ g ∈ s.groups, id ∈ g.pending) ∨ (∃ g ∈ s.groups, g.lastDelivered < id) ∨
    id ∈ s.ids.reverse.take t.minimumRetainedEntries ∨ t.cutoff now ≤ id.milliseconds

/-- The newest entries are not below the tail. -/
theorem tail_le {s : EntryStream β} {last id : StreamId} (hlast : t.tailId s = some last)
    (hid : id ∈ s.ids.reverse.take t.minimumRetainedEntries) : last ≤ id := by
  have hsorted : s.ids.reverse.Pairwise (· > ·) := List.pairwise_reverse.mpr s.sorted
  have hsorted := hsorted.sublist (List.take_sublist t.minimumRetainedEntries _)
  have hlist := List.dropLast_append_getLast? last hlast
  rw [← hlist] at hid hsorted
  rcases List.mem_append.mp hid with hid | hid
  · exact le_of_lt ((List.pairwise_append.mp hsorted).2.2 id hid last (List.mem_singleton_self _))
  · exact le_of_eq (List.mem_singleton.mp hid).symm

/-- Nothing below the boundary is protected. -/
theorem boundary_le {s : EntryStream β} {now : ℤ} {id : StreamId} (h : t.Protected s now id) :
    t.boundary s now ≤ id := by
  have hle := (t.boundary_least s now).2
  rcases h with ⟨g, hg, hpending⟩ | ⟨g, hg, hdelivered⟩ | hnew | hyoung
  · cases hp : g.pending.head? with
    | none =>
      rw [List.head?_eq_none_iff.mp hp] at hpending
      exact absurd hpending List.not_mem_nil
    | some oldest =>
      exact le_trans (hle (.inr (.inr ⟨g, hg, .inr hp⟩))) (ConsumerGroup.head_le hp hpending)
  · exact le_trans (hle (.inr (.inr ⟨g, hg, .inl rfl⟩))) (le_of_lt hdelivered)
  · have hne : s.ids.reverse.take t.minimumRetainedEntries ≠ [] := List.ne_nil_of_mem hnew
    obtain ⟨last, hlast⟩ := Option.isSome_iff_exists.mp (List.getLast?_isSome.mpr hne)
    exact le_trans (hle (.inr (.inl hlast))) (t.tail_le hlast hnew)
  · have hretention : t.retentionId now ≤ id := by
      have hlt : ¬ id < t.retentionId now := by
        rw [StreamId.lt_iff]
        show ¬ (id.milliseconds < t.cutoff now ∨ id.milliseconds = t.cutoff now ∧ id.sequence < 0)
        omega
      exact not_lt.mp hlt
    exact le_trans (hle (.inl rfl)) hretention

end SafeStreamTrimmer

/-! ### Repeated trims -/

namespace SafeStreamTrimmer

variable {β : Type} (t : SafeStreamTrimmer)

/-- A filter that passes the first elements of a list leaves them in front. -/
theorem take_filter_of_all {α : Type} {l : List α} {p : α → Bool} {n : ℕ} (hn : n ≤ l.length)
    (h : ∀ a ∈ l.take n, p a = true) : (l.filter p).take n = l.take n := by
  have hlength : (l.take n).length = n := by rw [List.length_take]; omega
  have hsplit : l.filter p = l.take n ++ (l.drop n).filter p := by
    calc l.filter p = (l.take n ++ l.drop n).filter p := by rw [List.take_append_drop]
      _ = (l.take n).filter p ++ (l.drop n).filter p := List.filter_append _ _
      _ = l.take n ++ (l.drop n).filter p := by rw [List.filter_eq_self.mpr h]
  rw [hsplit]
  exact List.take_left' hlength

/-- Without its first elements, a list of distinct elements is the rest. -/
theorem filter_not_mem_take {α : Type} [DecidableEq α] {l : List α} (h : l.Nodup) (n : ℕ) :
    (l.filter fun a => a ∉ l.take n) = l.drop n := by
  have hnodup := h
  rw [← List.take_append_drop n l, List.nodup_append] at hnodup
  have htake : ((l.take n).filter fun a => a ∉ l.take n) = [] := by
    rw [List.filter_eq_nil_iff]
    intro a ha
    simpa using ha
  have hdrop : ((l.drop n).filter fun a => a ∉ l.take n) = l.drop n := by
    rw [List.filter_eq_self]
    intro a ha
    simpa using fun hmem => hnodup.2.2 a hmem a ha rfl
  calc (l.filter fun a => a ∉ l.take n)
      = ((l.take n ++ l.drop n).filter fun a => a ∉ l.take n) := by rw [List.take_append_drop]
    _ = l.drop n := by rw [List.filter_append, htake, hdrop, List.nil_append]

/-- Removing entries below the boundary does not move the boundary. -/
theorem boundary_keep {s : EntryStream β} {now : ℤ} {p : StreamId → Bool}
    (h : t.minimumRetainedEntries ≤ s.xlen) (hp : ∀ i, t.boundary s now ≤ i → p i = true) :
    t.boundary (s.keep p) now = t.boundary s now := by
  have hlength : t.minimumRetainedEntries ≤ s.ids.reverse.length := by
    rw [List.length_reverse, EntryStream.length_ids]
    exact h
  have hnewest : ∀ i ∈ s.ids.reverse.take t.minimumRetainedEntries, p i = true :=
    fun i hi => hp i (t.boundary_le (.inr (.inr (.inl hi))))
  have htail : t.tailId (s.keep p) = t.tailId s := by
    unfold tailId
    rw [EntryStream.ids_keep, ← List.filter_reverse, take_filter_of_all hlength hnewest]
  unfold boundary bounds
  rw [htail]
  rfl

attribute [local instance] StreamId.lawfulBEq in

/-- The stream without the oldest removable entries. -/
def without (s : EntryStream β) (now : ℤ) (k : ℕ) : EntryStream β :=
  s.keep fun i => i ∉ (t.removable s now).take k

section Without

variable {s : EntryStream β} {now : ℤ}

/-- No entry is removable twice. -/
theorem removable_nodup (s : EntryStream β) (now : ℤ) : (t.removable s now).Nodup := by
  have hsorted : s.ids.Pairwise (· < ·) := s.sorted
  exact (hsorted.imp fun h => ne_of_lt h).filter _

/-- A removable entry is below the boundary. -/
theorem lt_of_mem_take {i : StreamId} {k : ℕ} (h : i ∈ (t.removable s now).take k) :
    i < t.boundary s now := by
  have hmem := (List.mem_filter.mp (List.mem_of_mem_take h)).2
  simpa using hmem

/-- Removing entries leaves the boundary. -/
theorem boundary_without (h : t.minimumRetainedEntries ≤ s.xlen) (k : ℕ) :
    t.boundary (t.without s now k) now = t.boundary s now := by
  apply t.boundary_keep h
  intro i hi
  simpa using fun hmem => absurd (t.lt_of_mem_take hmem) (not_lt.mpr hi)

/-- Removing the first entries leaves the others removable. -/
theorem removable_without (h : t.minimumRetainedEntries ≤ s.xlen) (k : ℕ) :
    t.removable (t.without s now k) now = (t.removable s now).drop k := by
  have hdef : t.removable (t.without s now k) now =
      (t.without s now k).ids.filter fun i => i < t.boundary (t.without s now k) now := rfl
  have hids : (t.without s now k).ids = s.ids.filter fun i => i ∉ (t.removable s now).take k :=
    EntryStream.ids_keep _ _
  have hdrop := filter_not_mem_take (t.removable_nodup s now) k
  rw [hdef, t.boundary_without h, hids, List.filter_comm]
  rw [← hdrop]
  apply List.filter_congr
  intro i _
  exact decide_eq_decide.mpr Iff.rfl

/-- The oldest removable entries of what is left are the next ones of the stream. -/
theorem xdel_without (s : EntryStream β) (now : ℤ) (j k : ℕ) :
    ((t.without s now j).xdel (((t.removable s now).drop j).take k)).1 =
      t.without s now (j + k) := by
  apply EntryStream.ext_of
  · show ((s.entries.filter _).filter _) = s.entries.filter _
    rw [List.filter_filter]
    apply List.filter_congr
    intro e _
    rw [List.take_add]
    have hmem : ∀ a b : List StreamId,
        decide (e.1 ∉ a ++ b) = (decide (e.1 ∉ b) && decide (e.1 ∉ a)) := by
      intro a b
      simp [Bool.and_comm]
    exact (hmem _ _).symm
  · rfl

/-- Filtering a stream does not make it longer. -/
theorem xlen_keep_le (s : EntryStream β) (p : StreamId → Bool) : (s.keep p).xlen ≤ s.xlen :=
  List.length_filter_le _ _

/-- Removing more leaves no more entries. -/
theorem xlen_without_le (s : EntryStream β) (now : ℤ) (j k : ℕ) :
    (t.without s now (j + k)).xlen ≤ (t.without s now j).xlen := by
  rw [← t.xdel_without s now j k]
  exact xlen_keep_le _ _

/-- As long as something removable is left, more is left than has to be retained. -/
theorem short_without (h : t.minimumRetainedEntries < s.xlen) {k : ℕ}
    (hshort : (t.without s now k).xlen ≤ t.minimumRetainedEntries) :
    (t.removable s now).length ≤ k := by
  have hlength : t.minimumRetainedEntries ≤ s.ids.reverse.length := by
    rw [List.length_reverse, EntryStream.length_ids]
    omega
  have hnewest : ∀ i ∈ s.ids.reverse.take t.minimumRetainedEntries,
      decide (i ∉ (t.removable s now).take k) = true := by
    intro i hi
    have hle : t.boundary s now ≤ i := t.boundary_le (.inr (.inr (.inl hi)))
    simpa using fun hmem => absurd (t.lt_of_mem_take hmem) (not_lt.mpr hle)
  -- The newest entries are all that is left.
  have htake := take_filter_of_all hlength hnewest
  rw [List.filter_reverse, ← EntryStream.ids_keep] at htake
  have hall : (t.without s now k).ids.reverse.take t.minimumRetainedEntries =
      (t.without s now k).ids.reverse :=
    List.take_of_length_le (by rw [List.length_reverse, EntryStream.length_ids]; exact hshort)
  have hnone : t.removable (t.without s now k) now = [] := by
    unfold removable
    rw [List.filter_eq_nil_iff, t.boundary_without (by omega)]
    intro i hi
    have hmem : i ∈ s.ids.reverse.take t.minimumRetainedEntries := by
      have hrev : i ∈ (t.without s now k).ids.reverse := List.mem_reverse.mpr hi
      rw [← hall] at hrev
      exact htake ▸ hrev
    have hle : t.boundary s now ≤ i := t.boundary_le (.inr (.inr (.inl hmem)))
    simpa using hle
  rw [t.removable_without (by omega)] at hnone
  exact List.drop_eq_nil_iff.mp hnone

/-- One more trim in compat mode removes the next 500 removable entries. -/
theorem trim_without (hmode : t.redisStreamMode = .compat) (h : t.minimumRetainedEntries < s.xlen)
    (k : ℕ) : ∃ result, t.trim (some (t.without s now k)) now =
      some (some (t.without s now (k + 500)), result) ∧
      result.removedEntries = (t.without s now k).xlen - (t.without s now (k + 500)).xlen := by
  by_cases hshort : (t.without s now k).xlen ≤ t.minimumRetainedEntries
  · -- Nothing removable is left, and nothing is removed.
    have hnone := t.short_without h hshort
    have hsame : t.without s now (k + 500) = t.without s now k := by
      unfold without
      rw [List.take_of_length_le hnone, List.take_of_length_le (by omega)]
    have htrim := t.trim_short now hshort
    rw [hsame, Nat.sub_self]
    exact ⟨_, htrim, rfl⟩
  · have hremoval : removal (t.without s now k) (t.boundary (t.without s now k) now) .compat =
        (t.without s now k).xdel (((t.removable s now).drop k).take 500) := by
      rw [← t.removable_without (by omega) k]
      rfl
    have htrim := t.trim_eq now (not_le.mp hshort)
    rw [hmode, hremoval] at htrim
    rw [← t.xdel_without s now k 500]
    exact ⟨_, htrim, rfl⟩

/-- Trims in compat mode, one after the other. -/
theorem trims_without (hmode : t.redisStreamMode = .compat) (h : t.minimumRetainedEntries < s.xlen)
    (n k : ℕ) : t.trims now n (some (t.without s now k)) =
      some (some (t.without s now (k + 500 * n)),
        (t.without s now k).xlen - (t.without s now (k + 500 * n)).xlen) := by
  induction n generalizing k with
  | zero => simp [trims]
  | succ n ih =>
    obtain ⟨result, htrim, hremoved⟩ := t.trim_without hmode h k
    have hsteps : k + 500 + 500 * n = k + 500 * (n + 1) := by ring
    have hfirst := t.xlen_without_le s now k 500
    have hrest := t.xlen_without_le s now (k + 500) (500 * n)
    rw [trims, htrim, Option.bind_some]
    dsimp only
    rw [ih, Option.map_some, hremoved]
    rw [hsteps] at hrest ⊢
    have hcount : (t.without s now k).xlen - (t.without s now (k + 500)).xlen +
        ((t.without s now (k + 500)).xlen - (t.without s now (k + 500 * (n + 1))).xlen) =
        (t.without s now k).xlen - (t.without s now (k + 500 * (n + 1))).xlen := by
      omega
    rw [hcount]

/-- Without all removable entries, the entries from the boundary on are left. -/
theorem without_all {k : ℕ} (hk : s.xlen ≤ k) :
    t.without s now k = s.keep fun i => t.boundary s now ≤ i := by
  have hlength : (t.removable s now).length ≤ k := by
    have hle : (t.removable s now).length ≤ s.ids.length := List.length_filter_le _ _
    rw [EntryStream.length_ids] at hle
    omega
  apply EntryStream.ext_of
  · apply List.filter_congr
    intro e he
    rw [List.take_of_length_le hlength]
    apply decide_eq_decide.mpr
    have hid : e.1 ∈ s.ids := List.mem_map_of_mem he
    unfold removable
    rw [List.mem_filter]
    simp [hid]
  · rfl

/-- Removing nothing leaves the stream. -/
theorem without_zero (s : EntryStream β) (now : ℤ) : t.without s now 0 = s :=
  EntryStream.ext_of (by simp [without]) rfl

end Without

end SafeStreamTrimmer

/-! ### Safe trimming -/

namespace SafeStreamTrimmer

variable {β : Type} (t : SafeStreamTrimmer)

/-- What a trim of a stream and a plan for it have to do with a boundary. -/
structure TrimsBelow (s : EntryStream β) (now : ℤ) (b : StreamId) (after : EntryStream β)
    (result : StreamTrimResult) (plan : StreamTrimPlan) : Prop where
  /-- The trim and the plan report the boundary. -/
  reported : result.trimBeforeId = b.text
  planned : plan.trimBeforeId = some b.text
  groups : after.groups = s.groups
  /-- Entries are removed, and nothing else happens to them. -/
  sublist : after.entries.Sublist s.entries
  counted : result.removedEntries + after.xlen = s.xlen
  /-- Only entries below the boundary are removed. -/
  below : ∀ e ∈ s.entries, e ∉ after.entries → e.1 < b
  /-- No protected entry is removed. -/
  kept : ∀ e ∈ s.entries, t.Protected s now e.1 → e ∈ after.entries
  /-- In native mode everything below the boundary is removed. -/
  exact : t.redisStreamMode = .native → after.entries = s.entries.filter fun e => b ≤ e.1

/-- What a trim removes is a set of IDs below the boundary. -/
theorem removal_keep (s : EntryStream β) (b : StreamId) (mode : RedisStreamMode) :
    ∃ p : StreamId → Bool, removal s b mode = (s.keep p, s.xlen - (s.keep p).xlen) ∧
      (∀ i, b ≤ i → p i = true) ∧ (mode = .native → p = fun i => decide (b ≤ i)) := by
  cases mode with
  | native => exact ⟨fun i => b ≤ i, rfl, fun i hi => by simpa using hi, fun _ => rfl⟩
  | compat =>
    refine ⟨fun i => i ∉ (s.ids.filter fun i => i < b).take 500, rfl, ?_, fun h => by cases h⟩
    intro i hi
    have hout : i ∉ (s.ids.filter fun i => i < b).take 500 := by
      intro hmem
      have hlt := (List.mem_filter.mp (List.mem_of_mem_take hmem)).2
      exact absurd (by simpa using hlt) (not_lt.mpr hi)
    simpa using hout

/-- On a stream that is long enough, the trim removes entries below its boundary only. -/
theorem trimsBelow {s : EntryStream β} (now : ℤ) (h : t.minimumRetainedEntries < s.xlen) :
    ∃ after result plan, t.trim (some s) now = some (some after, result) ∧
      t.plan (some s) now = some plan ∧
      t.TrimsBelow s now (t.boundary s now) after result plan := by
  obtain ⟨p, hremoval, hp, hnative⟩ := removal_keep s (t.boundary s now) t.redisStreamMode
  have htrim := t.trim_eq now h
  rw [hremoval] at htrim
  have hkept : ∀ e ∈ s.entries, p e.1 = true → e ∈ (s.keep p).entries :=
    fun e he hpe => List.mem_filter.mpr ⟨he, hpe⟩
  refine ⟨_, _, _, htrim, t.plan_eq now h, rfl, rfl, rfl, List.filter_sublist, ?_, ?_, ?_, ?_⟩
  · exact Nat.sub_add_cancel (xlen_keep_le s p)
  · intro e he hout
    by_contra hle
    exact hout (hkept e he (hp e.1 (not_lt.mp hle)))
  · intro e he hprotected
    exact hkept e he (hp e.1 (t.boundary_le hprotected))
  · intro hmode
    rw [hnative hmode]
    rfl

/-- The trimmer with another mode. -/
def inMode (mode : RedisStreamMode) : SafeStreamTrimmer := { t with redisStreamMode := mode }

/-- The key has at most so many entries. -/
def AtMost (key : Option (EntryStream β)) (n : ℕ) : Prop := ∀ s, key = some s → s.xlen ≤ n

/-- Repeated trims in compat mode remove what one trim in native mode removes. -/
theorem trims_compat {key : Option (EntryStream β)} (now : ℤ) {n : ℕ} (hn : AtMost key (500 * n)) :
    (t.inMode .compat).trims now n key =
      ((t.inMode .native).trim key now).map fun r => (r.1, r.2.removedEntries) := by
  let u := t.inMode .compat
  -- A trim that changes nothing changes nothing when it is repeated.
  have hidle : ∀ result : StreamTrimResult, u.trim key now = some (key, result) →
      result.removedEntries = 0 → u.trims now n key = some (key, 0) := by
    intro result htrim hzero
    clear hn
    induction n with
    | zero => rfl
    | succ n ih =>
      rw [trims, htrim, Option.bind_some]
      dsimp only
      rw [ih, hzero]
      rfl
  cases key with
  | none => exact hidle ⟨0, zeroId, 0, 0⟩ rfl rfl
  | some s =>
    by_cases hlong : t.minimumRetainedEntries < s.xlen
    · have htrims : u.trims now n (some (u.without s now 0)) =
          some (some (u.without s now (0 + 500 * n)),
            (u.without s now 0).xlen - (u.without s now (0 + 500 * n)).xlen) :=
        u.trims_without rfl hlong n 0
      have hall : s.xlen ≤ 0 + 500 * n := by rw [Nat.zero_add]; exact hn s rfl
      rw [u.without_zero, u.without_all hall] at htrims
      have htrim := (t.inMode .native).trim_eq now hlong
      rw [htrims, htrim]
      rfl
    · have hshort : s.xlen ≤ t.minimumRetainedEntries := not_lt.mp hlong
      rw [hidle _ (u.trim_short now hshort) rfl, (t.inMode .native).trim_short now hshort]
      rfl

/-- A trim removes only entries below the least of the bounds, none of them protected; native mode
removes all of these, and so do repeated trims in compat mode; a plan reports the same boundary, and
none for a stream that is missing or not longer than what is to be retained. -/
theorem trim_safe (key : Option (EntryStream β)) (now : ℤ) :
    (AtMost key t.minimumRetainedEntries → ∃ result plan, t.trim key now = some (key, result) ∧
      result.trimBeforeId = zeroId ∧ result.removedEntries = 0 ∧
      t.plan key now = some plan ∧ plan.trimBeforeId = none) ∧
    (∀ s, key = some s → t.minimumRetainedEntries < s.xlen → ∃ b after result plan,
      IsLeast {bound | t.Bound s now bound} b ∧
      t.trim key now = some (some after, result) ∧ t.plan key now = some plan ∧
      t.TrimsBelow s now b after result plan) ∧
    ∀ n, AtMost key (500 * n) → (t.inMode .compat).trims now n key =
      ((t.inMode .native).trim key now).map fun r => (r.1, r.2.removedEntries) := by
  refine ⟨?_, ?_, fun n hn => t.trims_compat now hn⟩
  · intro hshort
    cases key with
    | none => exact ⟨_, _, rfl, rfl, rfl, rfl, rfl⟩
    | some s =>
      have hlen := hshort s rfl
      exact ⟨_, _, t.trim_short now hlen, rfl, rfl, t.plan_short now hlen, rfl⟩
  · rintro s rfl hlong
    obtain ⟨after, result, plan, htrim, hplan, hbelow⟩ := t.trimsBelow now hlong
    exact ⟨_, after, result, plan, t.boundary_least s now, htrim, hplan, hbelow⟩

end SafeStreamTrimmer

end ExAgent.Transport
