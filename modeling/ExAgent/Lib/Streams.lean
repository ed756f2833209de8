import ExAgent.Lib.DecimalText
import Mathlib.Data.Prod.Lex
import Mathlib.Data.List.Sort
import Mathlib.Data.List.TakeDrop

/-!
# Append-only streams with consumer groups

A stream holds entries under increasing IDs, a pair of counters that is sent as text. A consumer
group remembers the last ID that it delivered, and the IDs that were delivered and not acknowledged
yet; such a pending ID can outlive its entry. The commands are those of a stream server: they take
and return IDs as texts, a range is read from either end, entries are deleted by ID or below an ID.
-/

namespace ExAgent.Lib

/-- The ID of an entry: milliseconds and a sequence number, in lexicographic order. -/
abbrev StreamId := ℕ ×ₗ ℕ

namespace StreamId

/-- The equality test of IDs is equality. -/
theorem lawfulBEq : LawfulBEq StreamId := inferInstance

open DecimalText (Digits)

/-- The milliseconds of an ID. -/
def milliseconds (id : StreamId) : ℕ := (ofLex id).1

/-- The sequence number of an ID. -/
def sequence (id : StreamId) : ℕ := (ofLex id).2

/-- The text of an ID. -/
def text (id : StreamId) : List Char := decimal id.milliseconds ++ '-' :: decimal id.sequence

/-- The two texts of digits that a hyphen joins. -/
def parts (text : List Char) : Option (List Char × List Char) :=
  match text.span Char.isDigit with
  | (ms, '-' :: seq) => if ms ≠ [] ∧ seq ≠ [] ∧ seq.all Char.isDigit then some (ms, seq) else none
  | _ => none

/-- The ID that a text stands for. -/
def parse (text : List Char) : Option StreamId :=
  (parts text).map fun (ms, seq) => toLex (DecimalText.value ms, DecimalText.value seq)

/-- A text of digits before a hyphen is split off whole. -/
theorem span_digits {digits rest : List Char} (h : Digits digits) :
    (digits ++ '-' :: rest).span Char.isDigit = (digits, '-' :: rest) := by
  rw [List.span_eq_takeWhile_dropWhile, List.takeWhile_append_of_pos h,
    List.dropWhile_append_of_pos h]
  have hhyphen : Char.isDigit '-' = false := by decide
  simp [hhyphen]

/-- The text of an ID splits into its two numbers. -/
@[simp]
theorem parts_text (id : StreamId) :
    parts id.text = some (decimal id.milliseconds, decimal id.sequence) := by
  have hall : (decimal id.sequence).all Char.isDigit = true :=
    List.all_eq_true.mpr (DecimalText.digits_decimal _)
  unfold parts text
  rw [span_digits (DecimalText.digits_decimal _)]
  exact if_pos ⟨DecimalText.decimal_ne_nil _, DecimalText.decimal_ne_nil _, hall⟩

/-- The text of an ID is read back. -/
@[simp]
theorem parse_text (id : StreamId) : parse id.text = some id := by
  simp [parse, milliseconds, sequence]

/-- IDs are compared by the milliseconds, and by the sequence number within one millisecond. -/
theorem lt_iff (a b : StreamId) :
    a < b ↔ a.milliseconds < b.milliseconds ∨
      a.milliseconds = b.milliseconds ∧ a.sequence < b.sequence :=
  Prod.Lex.lt_iff

end StreamId

/-- A consumer group. -/
structure ConsumerGroup where
  name : String
  /-- The last ID that was delivered to the group. -/
  lastDelivered : StreamId
  /-- The IDs delivered and not acknowledged, in increasing order. -/
  pending : List StreamId
  sorted : pending.Pairwise (· < ·)

/-- The oldest pending ID is the least. -/
theorem ConsumerGroup.head_le {g : ConsumerGroup} {oldest id : StreamId}
    (h : g.pending.head? = some oldest) (hid : id ∈ g.pending) : oldest ≤ id := by
  have hsorted := g.sorted
  cases hp : g.pending with
  | nil => simp [hp] at hid
  | cons first rest =>
    rw [hp] at h hid hsorted
    obtain rfl : first = oldest := by simpa using h
    rcases List.mem_cons.mp hid with rfl | hrest
    · exact le_refl _
    · exact le_of_lt (List.rel_of_pairwise_cons hsorted hrest)

/-- A stream of entries with bodies `β`. -/
structure EntryStream (β : Type) where
  entries : List (StreamId × β)
  sorted : (entries.map Prod.fst).Pairwise (· < ·)
  groups : List ConsumerGroup
  /-- A name has one group. -/
  named : (groups.map ConsumerGroup.name).Nodup

/-- A value in a reply about a group. -/
inductive InfoValue where
  | text (t : List Char)
  | name (s : String)
  | count (n : ℕ)
deriving DecidableEq

/-- The reply about one group: its fields in the order of the server. -/
abbrev GroupInfo := List (String × InfoValue)

/-- The summary of a group's pending IDs. -/
structure PendingSummary where
  count : ℕ
  min : Option (List Char)
  max : Option (List Char)

namespace EntryStream

variable {β : Type} (s : EntryStream β)

/-- The IDs of the entries. -/
def ids : List StreamId := s.entries.map Prod.fst

/-- `XLEN`. -/
def xlen : ℕ := s.entries.length

/-- `XREVRANGE key + - COUNT n`: the IDs of the newest entries, newest first. -/
def xrevrange (n : ℕ) : List (List Char) := (s.ids.reverse.take n).map StreamId.text

/-- `XRANGE key - upto COUNT n`: the IDs of the oldest entries, up to and including an ID. -/
def xrange (upto : StreamId) (n : ℕ) : List (List Char) :=
  ((s.ids.filter fun i => i ≤ upto).take n).map StreamId.text

/-- `XINFO GROUPS`, with the fields that describe a group's progress. -/
def xinfoGroups : List GroupInfo :=
  s.groups.map fun g => [("name", .name g.name), ("pending", .count g.pending.length),
    ("last-delivered-id", .text g.lastDelivered.text)]

/-- `XPENDING key group`; an unknown group is an error. -/
def xpending (name : String) : Option PendingSummary :=
  (s.groups.find? fun g => g.name = name).map fun g =>
    ⟨g.pending.length, g.pending.head?.map StreamId.text, g.pending.getLast?.map StreamId.text⟩

/-- The stream with the entries whose IDs pass a test. -/
def keep (p : StreamId → Bool) : EntryStream β where
  entries := s.entries.filter fun e => p e.1
  sorted := List.Pairwise.sublist (List.Sublist.map _ List.filter_sublist) s.sorted
  groups := s.groups
  named := s.named

/-- `XTRIM key MINID = id`: the entries below the ID are evicted; the reply is their number. -/
def xtrimMinid (boundary : StreamId) : EntryStream β × ℕ :=
  let kept := s.keep fun i => boundary ≤ i
  (kept, s.xlen - kept.xlen)

/-- `XDEL`: the entries under the IDs are deleted; the reply is their number. -/
def xdel (ids : List StreamId) : EntryStream β × ℕ :=
  let kept := s.keep fun i => i ∉ ids
  (kept, s.xlen - kept.xlen)

/-- Filtering the entries leaves the groups. -/
@[simp] theorem groups_keep (p : StreamId → Bool) : (s.keep p).groups = s.groups := rfl

/-- The entries kept are those that pass. -/
@[simp] theorem entries_keep (p : StreamId → Bool) :
    (s.keep p).entries = s.entries.filter fun e => p e.1 := rfl

/-- So are their IDs. -/
@[simp] theorem ids_keep (p : StreamId → Bool) : (s.keep p).ids = s.ids.filter p := by
  unfold ids
  rw [entries_keep, List.filter_map]
  rfl

/-- A stream has as many IDs as entries. -/
@[simp] theorem length_ids : s.ids.length = s.xlen := List.length_map _

/-- Streams with the same entries and groups are equal. -/
theorem ext_of {s t : EntryStream β} (h : s.entries = t.entries) (hg : s.groups = t.groups) :
    s = t := by
  obtain ⟨entries, sorted, groups, named⟩ := s
  obtain ⟨entries', sorted', groups', named'⟩ := t
  obtain rfl : entries = entries' := h
  obtain rfl : groups = groups' := hg
  rfl

/-- The groups are found by their names. -/
theorem find_group {g : ConsumerGroup} (h : g ∈ s.groups) :
    s.groups.find? (fun other => other.name = g.name) = some g := by
  have hnamed := s.named
  generalize s.groups = groups at h hnamed
  induction groups with
  | nil => simp at h
  | cons first rest ih =>
    rw [List.map_cons, List.nodup_cons] at hnamed
    rcases List.mem_cons.mp h with rfl | hrest
    · simp
    · have hne : first.name ≠ g.name := by
        intro heq
        exact hnamed.1 (heq ▸ List.mem_map_of_mem hrest)
      rw [List.find?_cons_of_neg (by simpa using hne)]
      exact ih hrest hnamed.2

/-- The summary of a group of the stream. -/
theorem xpending_of_mem {g : ConsumerGroup} (h : g ∈ s.groups) :
    s.xpending g.name = some ⟨g.pending.length, g.pending.head?.map StreamId.text,
      g.pending.getLast?.map StreamId.text⟩ := by
  unfold xpending
  rw [find_group s h]
  rfl

end EntryStream

end ExAgent.Lib
