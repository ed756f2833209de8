import ExAgent.Lib.Streams
import ExAgent.Lib.Table

/-!
# A stream as its consumer group reads it

The commands that deliver entries to a group's consumers and take them back, on one stream and one
of its groups. The pending list holds the IDs that were delivered and not acknowledged, each with
its holder and the time of its last delivery. A claim hands a pending ID to another consumer when it
has been idle for long enough. Entries can be deleted while their IDs are pending; newer servers
drop such an ID from the pending list when a claim comes across it, older ones hand it over without
a body (`dropsDeleted`).

`Retains` is what every command but `XACK` guarantees: bodies stay as they are, and an ID leaves the
pending list only when its body is gone.
-/

namespace ExAgent.Lib

/-- Who holds a pending ID, and since when. -/
structure Holding where
  consumer : String
  since : ℕ

/-- A stream with bodies `β` and one of its groups. -/
structure GroupView (β : Type) where
  entries : List (StreamId × β)
  /-- The last ID that the server gave. -/
  lastId : StreamId
  /-- The last ID that was delivered to the group. -/
  lastDelivered : StreamId
  pending : Table StreamId Holding

/-- What a claim of one ID gives. -/
inductive Claimed (β : Type)
  | nothing
  /-- The ID without its body. -/
  | bodiless
  | entry (body : β)

namespace GroupView

variable {β : Type} (s : GroupView β)

/-- The body under an ID. -/
def body (id : StreamId) : Option β := s.entries.lookup id

/-- The ID was delivered and not acknowledged. -/
def Pending (id : StreamId) : Prop := (s.pending.get id).isSome

instance (id : StreamId) : Decidable (s.Pending id) :=
  inferInstanceAs (Decidable ((s.pending.get id).isSome = true))

/-- The ID is pending with a consumer. -/
def hold (id : StreamId) (consumer : String) (now : ℕ) : GroupView β :=
  { s with pending :=
      (s.pending.insertIfAbsent id ⟨consumer, now⟩).modifyAt id fun _ => ⟨consumer, now⟩ }

/-- `XADD`, with the ID that the server gives: one above all before. -/
def xadd (id : StreamId) (b : β) : Option (GroupView β) :=
  if s.lastId < id then some { s with entries := s.entries ++ [(id, b)], lastId := id } else none

/-- `XDEL` or `XTRIM`: some entries are gone. -/
def evict (gone : StreamId → Bool) : GroupView β :=
  { s with entries := s.entries.filter fun e => ¬ gone e.1 }

/-- `XACK`. -/
def xack (id : StreamId) : GroupView β := { s with pending := s.pending.deleteKeys [id] }

/-- `XREADGROUP` of new entries: they become pending with the consumer. -/
def xreadgroup (consumer : String) (now count : ℕ) : GroupView β × List (StreamId × β) :=
  let new := (s.entries.filter fun e => s.lastDelivered < e.1).take count
  (new.foldl (fun s e => { s.hold e.1 consumer now with lastDelivered := e.1 }) s, new)

/-- `XPENDING` of a range: the pending IDs from `start` on, at most `count` of them. -/
def xpending (start : StreamId) (count : ℕ) : List (StreamId × Holding) :=
  ((s.pending.entries.filter fun e => start ≤ e.1).insertionSort fun a b => a.1 ≤ b.1).take count

/-- `XCLAIM` of one ID. -/
def xclaim (dropsDeleted : Bool) (consumer : String) (now minIdle : ℕ) (id : StreamId) :
    GroupView β × Claimed β :=
  match s.pending.get id with
  | none => (s, .nothing)
  | some holding =>
    if (s.body id).isNone ∧ dropsDeleted then (s.xack id, .nothing)
    else if now < holding.since + minIdle then (s, .nothing)
    else
      (s.hold id consumer now, match s.body id with
        | some b => .entry b
        | none => .bodiless)

/-- The loop of `XAUTOCLAIM` over the pending IDs from its start on, with the number of IDs that it
may look at and the number that its reply may hold; `none` at the end of the pending list. -/
def autoclaim (dropsDeleted : Bool) (consumer : String) (now minIdle : ℕ) :
    ℕ → ℕ → List StreamId → GroupView β → GroupView β × List (StreamId × β) × Option StreamId
  | _, _, [], s => (s, [], none)
  | 0, _, id :: _, s => (s, [], some id)
  | _ + 1, 0, id :: _, s => (s, [], some id)
  | attempts + 1, count + 1, id :: ids, s =>
    match s.xclaim dropsDeleted consumer now minIdle id with
    | (s', .entry b) =>
      let (s'', claimed, next) := autoclaim dropsDeleted consumer now minIdle attempts count ids s'
      (s'', (id, b) :: claimed, next)
    | (s', .bodiless) => autoclaim dropsDeleted consumer now minIdle attempts count ids s'
    | (s', .nothing) =>
      -- An ID whose entry was deleted counts, one that is not idle yet does not.
      autoclaim dropsDeleted consumer now minIdle attempts
        (if (s.body id).isNone then count else count + 1) ids s'

/-- `XAUTOCLAIM`: the claimed entries, and the ID at which the next call starts. -/
def xautoclaim (dropsDeleted : Bool) (consumer : String) (now minIdle : ℕ) (start : StreamId)
    (count : ℕ) : GroupView β × List (StreamId × β) × Option StreamId :=
  autoclaim dropsDeleted consumer now minIdle (10 * count) count
    ((s.xpending start s.pending.entries.length).map Prod.fst) s

/-! ## What the commands retain -/

/-- Bodies stay, and an ID leaves the pending list only when its body is gone. -/
structure Retains (s t : GroupView β) : Prop where
  entries : t.entries = s.entries
  pending : ∀ id, s.Pending id → t.Pending id ∨ s.body id = none

/-- No command keeps what is pending. -/
theorem Retains.refl : Retains s s := ⟨rfl, fun _ h => .inl h⟩

variable {s} {t u : GroupView β}

/-- The same entries have the same bodies. -/
theorem Retains.body (h : Retains s t) (id : StreamId) : t.body id = s.body id := by
  rw [GroupView.body, h.entries]
  rfl

/-- Commands that keep it follow each other. -/
theorem Retains.trans (h : Retains s t) (h' : Retains t u) : Retains s u where
  entries := h'.entries.trans h.entries
  pending := by
    intro id hid
    obtain hid | hgone := h.pending id hid
    · obtain hid | hgone := h'.pending id hid
      · exact .inl hid
      · exact .inr ((h.body id).symm.trans hgone)
    · exact .inr hgone

/-- A change outside entries and pending list retains both. -/
theorem Retains.of_eq (he : t.entries = s.entries) (hp : t.pending = s.pending) : Retains s t :=
  ⟨he, fun id h => .inl (by rw [Pending, hp]; exact h)⟩

/-- A delivered ID is pending, and no other ID is touched. -/
theorem pending_hold (id : StreamId) (consumer : String) (now : ℕ) (other : StreamId) :
    (s.hold id consumer now).Pending other ↔ other = id ∨ s.Pending other := by
  unfold Pending hold
  dsimp only
  rw [Table.get_modifyAt, Table.get_insertIfAbsent]
  by_cases h : other = id <;> simp [h]

/-- Holding an entry keeps what is pending. -/
theorem retains_hold (id : StreamId) (consumer : String) (now : ℕ) :
    Retains s (s.hold id consumer now) :=
  ⟨rfl, fun other h => .inl ((pending_hold id consumer now other).mpr (.inr h))⟩

/-- An acknowledged ID is not pending, and no other ID is touched. -/
theorem pending_xack (id other : StreamId) :
    (s.xack id).Pending other ↔ other ≠ id ∧ s.Pending other := by
  unfold Pending xack
  dsimp only
  rw [Table.get_deleteKeys]
  by_cases h : other = id <;> simp [h]

/-- The acknowledgement of an ID whose body is gone retains. -/
theorem retains_xack {id : StreamId} (h : s.body id = none) : Retains s (s.xack id) := by
  refine ⟨rfl, fun other hother => ?_⟩
  by_cases hid : other = id
  · exact .inr (hid ▸ h)
  · exact .inl ((pending_xack id other).mpr ⟨hid, hother⟩)

/-- XREADGROUP keeps what is pending. -/
theorem retains_xreadgroup (consumer : String) (now count : ℕ) :
    Retains s (s.xreadgroup consumer now count).1 := by
  unfold xreadgroup
  dsimp only
  generalize (s.entries.filter fun e => s.lastDelivered < e.1).take count = new
  -- Induction on the entries that are delivered, one after the other.
  induction new generalizing s with
  | nil => exact .refl s
  | cons e new ih =>
    rw [List.foldl_cons]
    have hhold : Retains s { s.hold e.1 consumer now with lastDelivered := e.1 } :=
      (retains_hold e.1 consumer now).trans (.of_eq rfl rfl)
    exact hhold.trans ih

/-- XCLAIM keeps what is pending, but for an entry that was deleted. -/
theorem retains_xclaim (dropsDeleted : Bool) (consumer : String) (now minIdle : ℕ) (id : StreamId) :
    Retains s (s.xclaim dropsDeleted consumer now minIdle id).1 := by
  unfold xclaim
  split
  · exact .refl s
  · split
    · rename_i h
      exact retains_xack (Option.isNone_iff_eq_none.mp h.1)
    · split
      · exact .refl s
      · exact retains_hold id consumer now

/-- A claim gives the body that is stored. -/
theorem body_of_xclaim (dropsDeleted : Bool) (consumer : String) (now minIdle : ℕ) (id : StreamId)
    {b : β} (h : (s.xclaim dropsDeleted consumer now minIdle id).2 = .entry b) :
    s.body id = some b := by
  unfold xclaim at h
  split at h
  · cases h
  · split at h
    · cases h
    · split at h
      · cases h
      · dsimp only at h
        split at h
        · cases h
          assumption
        · cases h

/-- The loop of `XAUTOCLAIM` retains, and gives bodies that are stored. -/
theorem retains_autoclaim (dropsDeleted : Bool) (consumer : String) (now minIdle : ℕ)
    (attempts count : ℕ) (ids : List StreamId) (s : GroupView β) :
    Retains s (autoclaim dropsDeleted consumer now minIdle attempts count ids s).1 ∧
      ∀ e ∈ (autoclaim dropsDeleted consumer now minIdle attempts count ids s).2.1,
        s.body e.1 = some e.2 := by
  induction ids generalizing attempts count s with
  | nil =>
    cases attempts <;> exact ⟨.refl s, by simp [autoclaim]⟩
  | cons id ids ih =>
    cases attempts with
    | zero => exact ⟨.refl s, by simp [autoclaim]⟩
    | succ attempts =>
      cases count with
      | zero => exact ⟨.refl s, by simp [autoclaim]⟩
      | succ count =>
        have hclaim := retains_xclaim (s := s) dropsDeleted consumer now minIdle id
        have hbody := fun b => body_of_xclaim (s := s) dropsDeleted consumer now minIdle id (b := b)
        unfold autoclaim
        generalize s.xclaim dropsDeleted consumer now minIdle id = reply at hclaim hbody
        obtain ⟨t, claimed⟩ := reply
        have hrest := fun n => ih attempts n t
        have hstored : ∀ {l : List (StreamId × β)}, (∀ e ∈ l, t.body e.1 = some e.2) →
            ∀ e ∈ l, s.body e.1 = some e.2 := fun h e he => (hclaim.body e.1).symm.trans (h e he)
        cases claimed with
        | nothing => exact ⟨hclaim.trans (hrest _).1, hstored (hrest _).2⟩
        | bodiless => exact ⟨hclaim.trans (hrest _).1, hstored (hrest _).2⟩
        | entry b =>
          refine ⟨hclaim.trans (hrest _).1, fun e he => ?_⟩
          rcases List.mem_cons.mp he with rfl | he
          · exact hbody b rfl
          · exact hstored (hrest _).2 e he

/-- `XAUTOCLAIM` retains, and gives bodies that are stored. -/
theorem retains_xautoclaim (dropsDeleted : Bool) (consumer : String) (now minIdle : ℕ)
    (start : StreamId) (count : ℕ) :
    Retains s (s.xautoclaim dropsDeleted consumer now minIdle start count).1 ∧
      ∀ e ∈ (s.xautoclaim dropsDeleted consumer now minIdle start count).2.1,
        s.body e.1 = some e.2 :=
  retains_autoclaim ..

end GroupView

end ExAgent.Lib
