import ExAgent.Pages.Cursors
import ExAgent.Workers.Ingestion

/-!
# When an event is ingested

A call of `process` alone, for an event of the log and with the history that the Executor serves,
ends with the event and all before it written, in every state that the ingestion reaches; but when
it catches up, the history is of 500 events at most, and an event that is farther than that is
refused (`process_iff`).
-/

namespace ExAgent.Workers

open Lib

/-! ## The history that the Executor serves -/

/-- The pages of a log, from a position on. -/
def serve (log : List ExecutorEvent) : ℕ → ℕ → ℕ → List ExecutorEventPage
  | 0, _, _ => []
  | fuel + 1, remaining, position =>
    let items := (log.drop position).take (min remaining 500)
    let next := position + items.length
    ⟨items, if next < log.length then some (toString next) else none, next < log.length⟩ ::
      serve log fuel (remaining - items.length) next

/-- What a call is answered: the events after the sequence that it names, in pages. -/
def answers (log : List ExecutorEvent) (call : Call) (last : ℕ) : List ExecutorEventPage :=
  match call.limit last with
  | some limit => serve log limit limit last
  | none => []

/-- The pages are read to the limit or to the end. -/
theorem eventsAfter_serve (log : List ExecutorEvent) {fuel remaining : ℕ} (position : ℕ)
    (hfuel : remaining ≤ fuel) :
    eventsAfter remaining (serve log fuel remaining position) =
      .ok ((log.drop position).take remaining) := by
  induction fuel generalizing remaining position with
  | zero =>
    obtain rfl : remaining = 0 := Nat.le_zero.mp hfuel
    rfl
  | succ fuel ih =>
    unfold serve eventsAfter
    dsimp only
    by_cases hzero : remaining = 0
    · rw [hzero]
      rfl
    · rw [if_neg (by omega)]
      obtain ⟨k, hk⟩ : ∃ k, ((log.drop position).take (min remaining 500)).length = k := ⟨_, rfl⟩
      have hlength : k = min (min remaining 500) (log.length - position) := by
        rw [← hk, List.length_take, List.length_drop]
      rw [hk]
      by_cases hmore : position + k < log.length
      · -- A full page, with more to come.
        have hfull : k = min remaining 500 := by omega
        have hne : (log.drop position).take (min remaining 500) ≠ [] := by
          intro hnil
          rw [hnil] at hk
          simp only [List.length_nil] at hk
          omega
        rw [if_neg (by simp [hmore]), if_neg hne]
        have hrest := ih (position + k) (show remaining - k ≤ fuel by omega)
        have hcast : (remaining : ℤ) - (k : ℤ) = ((remaining - k : ℕ) : ℤ) := by omega
        rw [hcast, hrest]
        have hsplit : (log.drop position).take remaining =
            (log.drop position).take k ++ ((log.drop position).drop k).take (remaining - k) := by
          rw [← List.take_add]
          congr 1
          omega
        rw [hsplit, List.drop_drop, hfull]
        rfl
      · rw [if_pos (by simp [hmore])]
        have hall : (log.drop position).take (min remaining 500) =
            (log.drop position).take remaining := by
          rcases Nat.le_total remaining 500 with hle | hle
          · rw [Nat.min_eq_left hle]
          · rw [List.take_of_length_le (by rw [List.length_drop]; omega),
              List.take_of_length_le (by rw [List.length_drop]; omega)]
        rw [hall]

/-! ## Merging events of a log -/

/-- Events of a log with one sequence are one event. -/
theorem IsLog.eq_of_sequence {log : Uuid → List ExecutorEvent} (hlog : IsLog log) {x : Uuid}
    {e e' : ExecutorEvent}
    (he : e ∈ log x) (he' : e' ∈ log x) (h : e.eventSequence = e'.eventSequence) : e = e' := by
  obtain ⟨i, hi, hget⟩ := hlog.getElem? he
  obtain ⟨j, hj, hget'⟩ := hlog.getElem? he'
  obtain rfl : i = j := by omega
  exact Option.some.inj (hget.symm.trans hget')

/-- Events of a log are merged without an error. -/
theorem foldlM_mergeEvent_log {log : Uuid → List ExecutorEvent} (hlog : IsLog log) {x : Uuid}
    {current : ExecutorEvent}
    {last : ℕ} (hcurrent : current ∈ log x) (events : List ExecutorEvent)
    (hmem : ∀ e ∈ events, e ∈ log x)
    (d : Dictionary ℕ ExecutorEvent)
    (hd : ∀ n e, d.get n = some e → e ∈ log x ∧ e.eventSequence = n) :
    ∃ d', events.foldlM (mergeEvent current last) d = .ok d' ∧
      ∀ n, n ∈ d'.keys ↔ n ∈ d.keys ∨ last < n ∧ n ≤ current.eventSequence ∧
        ∃ e ∈ events, e.eventSequence = n := by
  induction events generalizing d with
  | nil => exact ⟨d, rfl, fun n => by simp⟩
  | cons e events ih =>
    have he := hmem e (List.mem_cons_self ..)
    have hrest := fun e' he' => hmem e' (List.mem_cons_of_mem e he')
    have hexecution : ¬ e.executionId ≠ current.executionId := by
      rw [hlog.execution x e he, hlog.execution x current hcurrent]
      exact not_not.mpr rfl
    rw [List.foldlM_cons]
    by_cases hrange : last < e.eventSequence ∧ e.eventSequence ≤ current.eventSequence
    · -- The event is merged: at its sequence there is none yet, or this one.
      have hsame : ¬ (d.get e.eventSequence).any
          (fun existing => existing.eventId ≠ e.eventId) = true := by
        intro hany
        obtain ⟨e', he', hne⟩ := (Option.any_eq_true _ _).mp hany
        obtain ⟨hmem', hseq⟩ := hd _ e' he'
        rw [hlog.eq_of_sequence hmem' he hseq] at hne
        simp at hne
      have hstep : mergeEvent current last d e = .ok (d.insert e.eventSequence e) := by
        unfold mergeEvent
        rw [if_neg hexecution, if_neg (not_not.mpr hrange), if_neg hsame]
      have hd' : ∀ n e', (d.insert e.eventSequence e).get n = some e' → e' ∈ log x ∧
          e'.eventSequence = n := by
        intro n e' h
        rw [Dictionary.get_insert] at h
        split at h
        · next heq =>
          obtain rfl := Option.some.inj h
          exact ⟨he, heq.symm⟩
        · exact hd n e' h
      obtain ⟨d', hfold, hkeys⟩ := ih hrest _ hd'
      refine ⟨d', by rw [hstep]; exact hfold, fun n => ?_⟩
      have hinsert : n ∈ (d.insert e.eventSequence e).keys ↔ n = e.eventSequence ∨ n ∈ d.keys := by
        rw [Dictionary.mem_keys_iff, Dictionary.mem_keys_iff]
        simp only [Dictionary.get_insert]
        by_cases hn : n = e.eventSequence
        · simp [hn]
        · simp [hn]
      rw [hkeys, hinsert]
      constructor
      · rintro ((rfl | h) | ⟨hlow, hhigh, e', he', hseq⟩)
        · exact Or.inr ⟨hrange.1, hrange.2, e, List.mem_cons_self .., rfl⟩
        · exact Or.inl h
        · exact Or.inr ⟨hlow, hhigh, e', List.mem_cons_of_mem _ he', hseq⟩
      · rintro (h | ⟨hlow, hhigh, e', he', hseq⟩)
        · exact Or.inl (Or.inr h)
        · rcases List.mem_cons.mp he' with rfl | he'
          · exact Or.inl (Or.inl hseq.symm)
          · exact Or.inr ⟨hlow, hhigh, e', he', hseq⟩
    · -- Outside of the range, the event is passed over.
      have hstep : mergeEvent current last d e = .ok d := by
        unfold mergeEvent
        rw [if_neg hexecution, if_pos hrange]
      obtain ⟨d', hfold, hkeys⟩ := ih hrest d hd
      refine ⟨d', by rw [hstep]; exact hfold, fun n => ?_⟩
      rw [hkeys]
      constructor
      · rintro (h | ⟨hlow, hhigh, e', he', hseq⟩)
        · exact Or.inl h
        · exact Or.inr ⟨hlow, hhigh, e', List.mem_cons_of_mem _ he', hseq⟩
      · rintro (h | ⟨hlow, hhigh, e', he', hseq⟩)
        · exact Or.inl h
        · rcases List.mem_cons.mp he' with rfl | he'
          · exact absurd ⟨hseq ▸ hlow, hseq ▸ hhigh⟩ hrange
          · exact Or.inr ⟨hlow, hhigh, e', he', hseq⟩

/-- Increasing lists with the same members are one list. -/
theorem keys_eq_range' {d : Dictionary ℕ ExecutorEvent} {m n : ℕ} :
    d.keys = List.range' m n ↔ ∀ k, k ∈ d.keys ↔ m ≤ k ∧ k < m + n := by
  constructor
  · intro h k
    rw [h, List.mem_range'_1]
  · intro h
    have hnodup : d.keys.Nodup := d.sorted.imp fun hlt => ne_of_lt hlt
    have hperm : d.keys.Perm (List.range' m n) :=
      (List.perm_ext_iff_of_nodup hnodup List.nodup_range').mpr fun k => by
        rw [h, List.mem_range'_1]
    exact List.Perm.eq_of_pairwise (fun a b _ _ hab hba => absurd hab (Nat.lt_asymm hba)) d.sorted
      List.pairwise_lt_range' hperm

/-- Events of a log are merged to the part that is missing, when they cover it; else the gap is
open. -/
theorem mergeContiguousEvents_log {log : Uuid → List ExecutorEvent} (hlog : IsLog log) {x : Uuid}
    {current : ExecutorEvent} {history : List ExecutorEvent} {last : ℕ} (hcurrent : current ∈ log x)
    (hmem : ∀ e ∈ history, e ∈ log x) :
    (∃ events, mergeContiguousEvents current history last = .ok events) ↔
      ∀ n, last < n → n < current.eventSequence → ∃ e ∈ history, e.eventSequence = n := by
  unfold mergeContiguousEvents
  by_cases hle : current.eventSequence ≤ last
  · rw [if_pos hle]
    constructor
    · intro _ n hlow hhigh
      omega
    · exact fun _ => ⟨_, rfl⟩
  · rw [if_neg hle]
    have hall : ∀ e ∈ history ++ [current], e ∈ log x := by
      intro e he
      rcases List.mem_append.mp he with he | he
      · exact hmem e he
      · rw [List.mem_singleton.mp he]
        exact hcurrent
    obtain ⟨d, hfold, hkeys⟩ :=
      @foldlM_mergeEvent_log log hlog x current last hcurrent _ hall .empty nofun
    rw [hfold]
    -- The merged sequences have no gap exactly when the history has none.
    have hcover : d.keys = List.range' (last + 1) (current.eventSequence - last) ↔
        ∀ n, last < n → n < current.eventSequence → ∃ e ∈ history, e.eventSequence = n := by
      rw [keys_eq_range']
      constructor
      · intro h n hlow hhigh
        obtain hbad | ⟨-, -, e, he, hseq⟩ := (hkeys n).mp ((h n).mpr (by omega))
        · cases hbad
        · rcases List.mem_append.mp he with he | he
          · exact ⟨e, he, hseq⟩
          · rw [List.mem_singleton.mp he] at hseq
            omega
      · intro h n
        rw [hkeys]
        constructor
        · rintro (hbad | ⟨hlow, hhigh, -⟩)
          · cases hbad
          · omega
        · rintro ⟨hlow, hhigh⟩
          right
          refine ⟨by omega, by omega, ?_⟩
          -- The last one is the event itself.
          by_cases hlast : n = current.eventSequence
          · exact ⟨current, List.mem_append_right _ (List.mem_singleton_self _), hlast.symm⟩
          · obtain ⟨e, he, hseq⟩ := h n (by omega) (by omega)
            exact ⟨e, List.mem_append_left _ he, hseq⟩
    rw [← hcover]
    by_cases h : d.keys = List.range' (last + 1) (current.eventSequence - last)
    · exact ⟨fun _ => h, fun _ => ⟨_, if_neg (not_not.mpr h)⟩⟩
    · constructor
      · rintro ⟨events, hok⟩
        have herror : (if d.keys ≠ List.range' (last + 1) (current.eventSequence - last) then
            Except.error IngestError.openGap else .ok (d.entries.map Prod.snd)) = .ok events := hok
        rw [if_pos h] at herror
        cases herror
      · exact fun hok => absurd hok h

/-- The newest event has the largest sequence. -/
theorem le_newest (event : ExecutorEvent) (history : List ExecutorEvent) :
    event.eventSequence ≤ (newest event history).eventSequence ∧
      ∀ e ∈ history, e.eventSequence ≤ (newest event history).eventSequence := by
  unfold newest
  induction history generalizing event with
  | nil => exact ⟨le_rfl, nofun⟩
  | cons e history ih =>
    rw [List.foldl_cons]
    obtain ⟨hle, hrest⟩ := ih (if event.eventSequence < e.eventSequence then e else event)
    have hboth : event.eventSequence ≤
      (if event.eventSequence < e.eventSequence then e else event).eventSequence ∧
        e.eventSequence ≤
        (if event.eventSequence < e.eventSequence then e else event).eventSequence := by
      split
      · exact ⟨by omega, le_rfl⟩
      · exact ⟨le_rfl, by omega⟩
    refine ⟨hboth.1.trans hle, fun e' he' => ?_⟩
    rcases List.mem_cons.mp he' with rfl | he'
    · exact hboth.2.trans hle
    · exact hrest e' he'

/-- The sequences of a part of a log. -/
theorem IsLog.mem_segment {log : Uuid → List ExecutorEvent} (hlog : IsLog log)
    {x : Uuid} {last limit : ℕ} {e : ExecutorEvent} (he : e ∈ ((log x).drop last).take limit) :
    last < e.eventSequence ∧ e.eventSequence ≤ last + limit ∧ e.eventSequence ≤ (log x).length := by
  obtain ⟨i, hi, rfl⟩ := List.getElem_of_mem he
  have hget : (((log x).drop last).take limit)[i] ∈ log x :=
    List.mem_of_mem_drop (List.mem_of_mem_take (List.getElem_mem hi))
  rw [List.length_take, List.length_drop] at hi
  have h := congrArg (fun l => l[last + i]?) (hlog.sequences x)
  have hseq : (log x)[last + i].eventSequence = 1 + (last + i) := by
    simpa [show last + i < (log x).length by omega] using h
  rw [List.getElem_take, List.getElem_drop, hseq]
  omega

/-- A page that reaches a sequence has its event. -/
theorem IsLog.exists_segment {log : Uuid → List ExecutorEvent} (hlog : IsLog log) {x : Uuid}
    {last limit n : ℕ} (hlow : last < n) (hhigh : n ≤ last + limit) (hlength : n ≤ (log x).length) :
    ∃ e ∈ ((log x).drop last).take limit, e.eventSequence = n := by
  obtain ⟨i, rfl⟩ : ∃ i, n = last + i + 1 := ⟨n - last - 1, by omega⟩
  have h := congrArg (fun l => l[last + i]?) (hlog.sequences x)
  have hseq : (log x)[last + i].eventSequence = 1 + (last + i) := by
    simpa [show last + i < (log x).length by omega] using h
  refine ⟨(log x)[last + i], ?_, by omega⟩
  have hget : (((log x).drop last).take limit)[i]? = some (log x)[last + i] := by
    rw [List.getElem?_take_of_lt (by omega), List.getElem?_drop,
      List.getElem?_eq_getElem (by omega)]
  exact List.mem_of_getElem? hget

/-- The sequence that a call reaches. -/
def Call.target (call : Call) (last length : ℕ) : ℕ :=
  if call.catchUp then max call.event.eventSequence (min length (last + 500))
    else max last call.event.eventSequence

/-- The history that a call reads of a log. -/
def Call.history (call : Call) (log : List ExecutorEvent) (last : ℕ) : List ExecutorEvent :=
  match call.limit last with
  | some limit => (log.drop last).take limit
  | none => []

/-- The pages of a log answer with the events that are asked for. -/
theorem eventsAfter_answers (log : List ExecutorEvent) (call : Call) (last : ℕ) :
    call.fetch last (answers log call last) = .ok (call.history log last) := by
  unfold Call.fetch answers Call.history
  cases call.limit last with
  | none => rfl
  | some limit => exact eventsAfter_serve log last le_rfl

section Ordered

variable {log : Uuid → List ExecutorEvent} (hlog : IsLog log) {call : Call} {last : ℕ} {x : Uuid}
  (hevent : call.event ∈ log x)

/-- The history of a call is of the log. -/
theorem history_mem : ∀ e ∈ call.history (log x) last, e ∈ log x := by
  intro e he
  unfold Call.history at he
  split at he
  · exact List.mem_of_mem_drop (List.mem_of_mem_take he)
  · cases he

include hlog hevent

/-- The event that the merge ends with. -/
theorem current_target (hlast : last ≤ (log x).length) :
    max last (if call.catchUp then newest call.event (call.history (log x) last)
      else call.event).eventSequence =
      call.target last (log x).length := by
  unfold Call.target
  cases hcatch : call.catchUp with
  | false => rfl
  | true =>
    rw [if_pos rfl, if_pos rfl]
    have hhistory : call.history (log x) last = ((log x).drop last).take 500 := by
      unfold Call.history Call.limit
      rw [hcatch]
      rfl
    rw [hhistory]
    obtain ⟨hle, hge⟩ := le_newest call.event (((log x).drop last).take 500)
    obtain ⟨i, hseq, hget⟩ := hlog.getElem? hevent
    have hi : i < (log x).length := (List.getElem?_eq_some_iff.mp hget).1
    have hupper : (newest call.event (((log x).drop last).take 500)).eventSequence ≤
        max call.event.eventSequence (min (log x).length (last + 500)) := by
      rcases newest_mem call.event (((log x).drop last).take 500) with h | h
      · rw [h]
        exact le_max_left _ _
      · obtain ⟨-, hhigh, hlength⟩ := hlog.mem_segment h
        omega
    rcases Nat.lt_or_ge last (log x).length with hmore | hend
    · -- The last event of the history.
      have hmin : last < min (log x).length (last + 500) := by omega
      obtain ⟨e, he, hn⟩ := hlog.exists_segment (x := x) (n := min (log x).length (last + 500)) hmin
        (Nat.min_le_right _ _) (Nat.min_le_left _ _)
      have := hge e he
      omega
    · omega

/-- A call has its events, unless it catches up with an event that is too far. -/
theorem exists_ordered_iff :
    (∃ events, call.ordered last (call.history (log x) last) = .ok events) ↔
      call.catchUp = false ∨ call.event.eventSequence ≤ last + 501 := by
  obtain ⟨i, hseq, hget⟩ := hlog.getElem? hevent
  have hi : i < (log x).length := (List.getElem?_eq_some_iff.mp hget).1
  have hmem := @history_mem log call last x
  unfold Call.ordered
  have hcurrent : (if call.catchUp then newest call.event (call.history (log x) last)
    else call.event) ∈ log x := by
    split
    · rcases newest_mem call.event (call.history (log x) last) with h | h
      · rw [h]
        exact hevent
      · exact hmem _ h
    · exact hevent
  rw [mergeContiguousEvents_log hlog hcurrent hmem]
  cases hcatch : call.catchUp with
  | false =>
    -- A direct event reads the history up to itself.
    refine ⟨fun _ => Or.inl rfl, fun _ n hlow hhigh => ?_⟩
    rw [if_neg nofun] at hhigh
    have hhistory : call.history (log x) last =
        ((log x).drop last).take (call.event.eventSequence - last) := by
      unfold Call.history Call.limit
      rw [hcatch, if_neg nofun, if_pos (by omega)]
    rw [hhistory]
    exact hlog.exists_segment hlow (by omega) (by omega)
  | true =>
    -- A catch-up reads at most 500 events.
    have hhistory : call.history (log x) last = ((log x).drop last).take 500 := by
      unfold Call.history Call.limit
      rw [hcatch]
      rfl
    rw [if_pos rfl, hhistory]
    constructor
    · intro hcover
      -- A farther event leaves the sequence after those 500 and its own without an event.
      by_contra hnot
      have hfar : last + 501 < call.event.eventSequence := by
        by_contra hnear
        exact hnot (Or.inr (Nat.not_lt.mp hnear))
      have hle := (le_newest call.event (((log x).drop last).take 500)).1
      obtain ⟨e, he, hn⟩ := hcover (last + 501) (by omega) (by omega)
      have := (hlog.mem_segment he).2.1
      omega
    · rintro (hbad | hnear) n hlow hhigh
      · cases hbad
      · rcases newest_mem call.event (((log x).drop last).take 500) with h | h
        · rw [h] at hhigh
          exact hlog.exists_segment hlow (by omega) (by omega)
        · obtain ⟨-, hhigh', hlength⟩ := hlog.mem_segment h
          exact hlog.exists_segment hlow (by omega) (by omega)

end Ordered

/-! ## The keys that are taken -/

/-- Ids name events. -/
structure Named (log : Uuid → List ExecutorEvent) : Prop where
  small : ∀ x, ∀ e ∈ log x, e.eventId < 2 ^ 128
  ids : ∀ x y, ∀ e ∈ log x, ∀ e' ∈ log y, e.eventId = e'.eventId → e = e'

/-- Different UUIDs have different texts. -/
theorem uuidText_inj {a b : Uuid} (ha : a < 2 ^ 128) (hb : b < 2 ^ 128)
    (h : Api.uuidText a = Api.uuidText b) : a = b := by
  have hread := Pages.uuidOfText_uuidText ha
  rw [h, Pages.uuidOfText_uuidText hb] at hread
  exact (Option.some.inj hread).symm

/-- Events with the same text are the same event. -/
theorem Named.eq_of_text {log : Uuid → List ExecutorEvent} (hnamed : Named log) {x y : Uuid}
    {e e' : ExecutorEvent} (he : e ∈ log x) (he' : e' ∈ log y) {lit : String}
    (h : lit ++ String.ofList (Api.uuidText e.eventId) = lit ++
      String.ofList (Api.uuidText e'.eventId)) : e = e' := by
  have htext : Api.uuidText e.eventId = Api.uuidText e'.eventId := by
    have hlist := congrArg String.toList h
    simpa using hlist
  exact hnamed.ids x y e he e' he'
    (uuidText_inj (hnamed.small x e he) (hnamed.small y e' he') htext)

/-- The Executor tells the events of its log, and other commands have keys of their own. -/
def Orderly (log : Uuid → List ExecutorEvent) (s : State) (a : Act) : Prop :=
  Tells (fun x e => e ∈ log x) s a ∧ ∀ key taskId, a = .command key taskId →
    ∀ x, ∀ e ∈ log x, key ≠ signalKey e

/-- A binding is of an execution of its own, and its Task is there; what is in the inbox was
counted, and the keys of the signals are not taken by other commands. -/
structure Fresh (log : Uuid → List ExecutorEvent) (db : Db) : Prop where
  unique : ∀ t t' b b', db.bindings.get t = some b → db.bindings.get t' = some b' →
    b.executionId = b'.executionId → t = t'
  task : ∀ t, (db.bindings.get t).isSome → (db.tasks.get t).isSome
  inbox : ∀ entry ∈ db.inbox, ∃ t b e, db.bindings.get t = some b ∧ e ∈ log b.executionId ∧
    entry.2 = messageId e ∧ e.eventSequence ≤ b.lastEventSequence
  commands : ∀ key t, db.commands.get key = some ⟨t, none⟩ → ∀ x, ∀ e ∈ log x, key ≠ signalKey e

/-- The bindings go on. -/
def Grown (db db' : Db) : Prop :=
  ∀ t, (db'.bindings.get t).isSome = (db.bindings.get t).isSome ∧
    ∀ b b', db.bindings.get t = some b →
    db'.bindings.get t = some b' → b'.executionId = b.executionId ∧
    b.lastEventSequence ≤ b'.lastEventSequence

/-- The same bindings have not gone back. -/
theorem Grown.refl {db db' : Db} (h : db'.bindings = db.bindings) : Grown db db' := by
  intro t
  rw [h]
  refine ⟨rfl, fun b b' hb hb' => ?_⟩
  obtain rfl := Option.some.inj (hb.symm.trans hb')
  exact ⟨rfl, le_rfl⟩

/-- A changed binding has not gone back. -/
theorem Grown.modifyAt {db db' : Db} {taskId : Uuid} {f : Binding → Binding}
    (h : db'.bindings = db.bindings.modifyAt taskId f) (hf : ∀ b, db.bindings.get taskId = some b →
      (f b).executionId = b.executionId ∧ b.lastEventSequence ≤ (f b).lastEventSequence) :
    Grown db db' := by
  intro t
  rw [h, Table.get_modifyAt]
  split
  · next heq =>
    rw [heq]
    refine ⟨Option.isSome_map, fun b b' hb hb' => ?_⟩
    rw [hb] at hb'
    obtain rfl := Option.some.inj hb'
    exact hf b hb
  · refine ⟨rfl, fun b b' hb hb' => ?_⟩
    obtain rfl := Option.some.inj (hb.symm.trans hb')
    exact ⟨rfl, le_rfl⟩

section Keys

variable {log : Uuid → List ExecutorEvent} {db db' : Db}

/-- What is fresh stays so while the bindings move on and what is written belongs to events
received. -/
theorem Fresh.grown (hfresh : Fresh log db) (hgrown : Grown db db')
    (htasks : ∀ t, (db.tasks.get t).isSome → (db'.tasks.get t).isSome)
    (hinbox : ∀ entry ∈ db'.inbox, entry ∈ db.inbox ∨ ∃ t b e, db'.bindings.get t = some b ∧
      e ∈ log b.executionId ∧ entry.2 = messageId e ∧ e.eventSequence ≤ b.lastEventSequence)
    (hcommands : ∀ key t, db'.commands.get key = some ⟨t, none⟩ →
      db.commands.get key = some ⟨t, none⟩ ∨
      ∀ x, ∀ e ∈ log x, key ≠ signalKey e) : Fresh log db' := by
  have hold : ∀ t b', db'.bindings.get t = some b' →
      ∃ b, db.bindings.get t = some b := fun t b' hb' =>
    Option.isSome_iff_exists.mp (by rw [← (hgrown t).1, hb']; rfl)
  constructor
  · intro t t' b b' hb hb' heq
    obtain ⟨b₀, hb₀⟩ := hold t b hb
    obtain ⟨b₀', hb₀'⟩ := hold t' b' hb'
    have hexecution := ((hgrown t).2 b₀ b hb₀ hb).1
    have hexecution' := ((hgrown t').2 b₀' b' hb₀' hb').1
    exact hfresh.unique t t' b₀ b₀' hb₀ hb₀' (by rw [← hexecution, ← hexecution', heq])
  · intro t ht
    exact htasks t (hfresh.task t ((hgrown t).1 ▸ ht))
  · intro entry hentry
    rcases hinbox entry hentry with hentry | h
    · obtain ⟨t, b, e, hb, he, hmessage, hle⟩ := hfresh.inbox entry hentry
      obtain ⟨b', hb'⟩ :=
        Option.isSome_iff_exists.mp (show (db'.bindings.get t).isSome by rw [(hgrown t).1, hb]; rfl)
      obtain ⟨hexecution, hlast⟩ := (hgrown t).2 b b' hb hb'
      exact ⟨t, b', e, hb', hexecution ▸ he, hmessage, hle.trans hlast⟩
    · exact h
  · intro key t hkey
    rcases hcommands key t hkey with h | h
    · exact hfresh.commands key t h
    · exact h

/-- A new binding is of an execution that was not bound. -/
theorem Fresh.bind (hfresh : Fresh log db) {taskId executionId : Uuid}
    (h : Workers.bind db taskId executionId = .ok db') : Fresh log db' := by
  unfold Workers.bind at h
  split at h
  · cases h
  · next htask =>
    split at h
    · cases h
    · next hfound =>
      split at h
      · cases h
      · next bindings hinsert =>
        obtain rfl := Except.ok.inj h
        obtain ⟨hfree, hget⟩ := Table.get_of_insert hinsert
        -- No Task is bound to the execution yet: `binding_for_execution` has found none.
        have hother : ∀ t b, db.bindings.get t = some b → b.executionId ≠ executionId := by
          intro t b hb heq
          apply hfound
          unfold bindingForExecution
          rw [List.find?_isSome]
          exact ⟨(t, b), Table.mem_entries_iff.mpr hb, decide_eq_true heq⟩
        constructor
        · -- So the new row is the only one of its execution.
          intro t t' b b' hb hb' heq
          dsimp only at hb hb'
          rw [hget] at hb hb'
          split at hb
          · next ht =>
            obtain rfl := Option.some.inj hb
            split at hb'
            · next ht' => exact ht.trans ht'.symm
            · exact absurd heq.symm (hother t' b' hb')
          · split at hb'
            · obtain rfl := Option.some.inj hb'
              exact absurd heq (hother t b hb)
            · exact hfresh.unique t t' b b' hb hb' heq
        · intro t ht
          dsimp only at ht ⊢
          rw [hget] at ht
          split at ht
          · next heq =>
            rw [heq]
            cases htask' : db.tasks.get taskId with
            | none => exact absurd (by rw [htask']; rfl) htask
            | some status => rfl
          · exact hfresh.task t ht
        · -- An entry of the inbox belongs to an old row, which is still there.
          intro entry hentry
          obtain ⟨t, b, e, hb, hrest⟩ := hfresh.inbox entry hentry
          refine ⟨t, b, e, ?_, hrest⟩
          dsimp only
          rw [hget, if_neg, hb]
          rintro rfl
          rw [hfree] at hb
          cases hb
        · exact hfresh.commands

/-- A transaction of a call for an event of the log. -/
theorem Fresh.persist (hfresh : Fresh log db) {stream : String} {taskId : Uuid}
    {event : ExecutorEvent}
    {inserted : Bool} (h : Workers.persist db stream taskId event = .ok (inserted, db'))
    (htold : ∀ b, db.bindings.get taskId = some b → event ∈ log b.executionId) : Fresh log db' := by
  rcases persist_ok h with ⟨-, hkept⟩ | ⟨-, happended⟩
  · refine hfresh.grown (.refl hkept.bindings) (fun t ht => hkept.tasks ▸ ht)
      (fun entry hentry => ?_)
      fun key t hkey => Or.inl (hkept.commands ▸ hkey)
    rcases hkept.inbox with hinbox | ⟨hinbox, b, hb, hle⟩
    · exact Or.inl (hinbox ▸ hentry)
    · rw [hinbox] at hentry
      rcases List.mem_append.mp hentry with hentry | hentry
      · exact Or.inl hentry
      · obtain rfl := List.mem_singleton.mp hentry
        exact Or.inr ⟨taskId, b, event, hkept.bindings ▸ hb, htold b hb, rfl, hle⟩
  · obtain ⟨b, hb, hnext⟩ := happended.next
    refine hfresh.grown (.modifyAt happended.bindings fun b' hb' => ?_)
      (fun t ht => happended.tasks t ▸ ht)
      (fun entry hentry => ?_) fun key t hkey => Or.inl ?_
    · obtain rfl := Option.some.inj (hb.symm.trans hb')
      exact ⟨rfl, by dsimp only; omega⟩
    · rw [happended.inbox] at hentry
      rcases List.mem_append.mp hentry with hentry | hentry
      · exact Or.inl hentry
      · obtain rfl := List.mem_singleton.mp hentry
        refine Or.inr ⟨taskId, { b with lastEventSequence := event.eventSequence }, event, ?_,
          htold b hb, rfl, le_rfl⟩
        rw [happended.bindings, Table.get_modifyAt, if_pos rfl, hb]
        rfl
    · have hmem := Table.mem_entries_iff.mpr hkey
      rw [happended.commands] at hmem
      rcases List.mem_append.mp hmem with hmem | hmem
      · exact Table.mem_entries_iff.mp hmem
      · split at hmem
        · cases List.mem_singleton.mp hmem
        · cases hmem

/-- A step of an orderly run keeps what is fresh. -/
theorem Fresh.step {s s' : State} (hfresh : Fresh log s.db)
    (hinv : Inv (fun x e => e ∈ log x) s) {a : Act}
    (horderly : Orderly log s a) (h : step s a = some s') : Fresh log s'.db := by
  cases a with
  | create taskId status =>
    obtain ⟨tasks, hinsert, rfl⟩ := Option.map_eq_some_iff.mp h
    refine hfresh.grown (.refl rfl) (fun t ht => ?_) (fun _ => Or.inl) fun _ _ => Or.inl
    dsimp only
    rw [(Table.get_of_insert hinsert).2]
    split
    · rfl
    · exact ht
  | write taskId status =>
    obtain rfl := Option.some.inj h
    refine hfresh.grown (.refl rfl) (fun t ht => ?_) (fun _ => Or.inl) fun _ _ => Or.inl
    dsimp only
    rw [Table.get_modifyAt]
    split
    · rw [Option.isSome_map]
      exact ht
    · exact ht
  | command key taskId =>
    obtain ⟨commands, hinsert, rfl⟩ := Option.map_eq_some_iff.mp h
    refine hfresh.grown (.refl rfl) (fun _ => id) (fun _ => Or.inl) fun key' t hkey => ?_
    -- A command that is inserted is no command of an event that is still to come.
    dsimp only at hkey
    rw [(Table.get_of_insert hinsert).2] at hkey
    split at hkey
    · next heq =>
      right
      rw [heq]
      exact horderly.2 key taskId rfl
    · exact Or.inl hkey
  | bind taskId executionId =>
    obtain ⟨db, hdb, rfl⟩ := Option.map_eq_some_iff.mp h
    exact hfresh.bind (Fallible.toOption_eq_some.mp hdb)
  | reconcile key =>
    dsimp only [Workers.step] at h
    -- Only the sequence of a binding moves, and forwards.
    split at h
    · next taskId signal hsignal =>
      obtain ⟨db, hdb, rfl⟩ := Option.map_eq_some_iff.mp h
      have hupdate := Fallible.toOption_eq_some.mp hdb
      unfold updateBinding at hupdate
      split at hupdate
      · cases hupdate
      · obtain rfl := Except.ok.inj hupdate
        exact hfresh.grown (.modifyAt (f := fun b => { b with
          lastEventSequence := max b.lastEventSequence signal.eventSequence }) rfl
          fun b _ => ⟨rfl, le_max_left _ _⟩) (fun _ => id) (fun _ => Or.inl) fun _ _ => Or.inl
    · cases h
  | begin id call =>
    dsimp only [Workers.step] at h
    split at h
    · obtain rfl := Option.some.inj h
      exact hfresh
    · cases h
  | answer id pages =>
    dsimp only [Workers.step] at h
    split at h
    · obtain rfl := Option.some.inj h
      exact hfresh
    · cases h
  | persist id fails =>
    dsimp only [Workers.step] at h
    split at h
    · next stream taskId event rest hcall =>
      split at h
      · next inserted db hpersist =>
        obtain rfl := Option.some.inj h
        -- The event comes from the history that the call was told.
        have htold := hinv.calls id
        rw [hcall] at htold
        obtain ⟨b, hb, htold⟩ := htold
        refine hfresh.persist hpersist fun b' hb' => ?_
        obtain rfl := Option.some.inj (hb.symm.trans hb')
        exact htold event (List.mem_cons_self ..)
      · obtain rfl := Option.some.inj h
        exact hfresh
    · cases h
  | die id =>
    obtain rfl := Option.some.inj h
    exact hfresh

/-- In every orderly run, the events behind the received ones are fresh. -/
theorem orderly_reachable {s : State} (hr : ingestion.ReachableWhen (Orderly log) s) :
    Inv (fun x e => e ∈ log x) s ∧ Fresh log s.db := by
  induction hr with
  | start hs =>
    obtain rfl := hs
    exact ⟨inv_reachable (.start rfl), ⟨nofun, nofun, nofun, nofun⟩⟩
  | next _ horderly hstep ih => exact ⟨ih.1.step horderly.1 hstep, ih.2.step ih.1 horderly hstep⟩

/-! ## A call alone -/

/-- The rows of the later events are not there. -/
structure Ready (log : Uuid → List ExecutorEvent) (x : Uuid) (stream : String) (taskId : Uuid)
    (last : ℕ) (db : Db) :
    Prop where
  binding : db.bindings.get taskId = some ⟨x, last⟩
  task : (db.tasks.get taskId).isSome
  inbox : ∀ e ∈ log x, last < e.eventSequence → (stream, messageId e) ∉ db.inbox
  commands : ∀ e ∈ log x, last < e.eventSequence → db.commands.get (signalKey e) = none

/-- In every state that is reached they are not. -/
theorem Fresh.ready (hlog : IsLog log) (hnamed : Named log) (hfresh : Fresh log db)
    (hingested : Ingested (fun x e => e ∈ log x) db) {taskId : Uuid} {b : Binding}
    (hb : db.bindings.get taskId = some b) (stream : String) :
    Ready log b.executionId stream taskId b.lastEventSequence db := by
  -- What was counted for an execution was counted by its binding.
  have hcounted : ∀ e ∈ log b.executionId, ∀ t b', db.bindings.get t = some b' →
    e ∈ log b'.executionId →
      e.eventSequence ≤ b'.lastEventSequence → e.eventSequence ≤ b.lastEventSequence := by
    intro e he t b' hb' he' hle
    have hexecution : b'.executionId = b.executionId :=
      (hlog.execution _ e he').symm.trans (hlog.execution _ e he)
    obtain rfl := hfresh.unique t taskId b' b hb' hb hexecution
    obtain rfl := Option.some.inj (hb'.symm.trans hb)
    exact hle
  refine ⟨hb, hfresh.task taskId (by rw [hb]; rfl), fun e he hlast hmem => ?_, fun e he hlast => ?_⟩
  · obtain ⟨t, b', e', hb', he', hmessage, hle⟩ := hfresh.inbox _ hmem
    obtain rfl := hnamed.eq_of_text he he' hmessage
    have := hcounted e he t b' hb' he' hle
    omega
  · cases hkey : db.commands.get (signalKey e) with
    | none => rfl
    | some c =>
      obtain ⟨t, signal⟩ := c
      cases signal with
      | none => exact absurd rfl (hfresh.commands _ t hkey _ e he)
      | some payload =>
        have hmem : (signalKey e, (⟨t, some payload⟩ : WorkflowCommand)) ∈
            db.commands.entries.filter fun c => c.2.taskId = t ∧ c.2.signal.isSome :=
          List.mem_filter.mpr ⟨Table.mem_entries_iff.mpr hkey, by simp⟩
        cases hb' : db.bindings.get t with
        | none =>
          rw [(hingested.unbound t hb').signals] at hmem
          cases hmem
        | some b' =>
          obtain ⟨events, hrows, hsequences, htold⟩ := hingested.bound t b' hb'
          rw [hrows.signals] at hmem
          obtain ⟨e', he', heq⟩ := List.mem_map.mp hmem
          have hevents := (List.mem_filter.mp he').1
          obtain rfl := hnamed.eq_of_text (htold e' hevents) he (congrArg Prod.fst heq)
          have hrange : e'.eventSequence ∈ List.range' 1 b'.lastEventSequence :=
            hsequences ▸ List.mem_map_of_mem hevents
          have hle := (List.mem_range'_1.mp hrange).2
          have := hcounted e' he t b' hb' (htold e' hevents) (by omega)
          omega

/-- The next event is written. -/
theorem Ready.persist (hnamed : Named log) {x : Uuid} {stream : String} {taskId : Uuid} {last : ℕ}
    (hready : Ready log x stream taskId last db) {e : ExecutorEvent} (he : e ∈ log x)
    (hnext : e.eventSequence = last + 1) :
    ∃ db', (Workers.persist db stream taskId e).map Prod.snd = .ok db' ∧
      Ready log x stream taskId (last + 1) db' := by
  -- Nothing in the way: the message and the sequence are new.
  have hinbox : insertInbox db stream (messageId e) =
      some { db with inbox := db.inbox ++ [(stream, messageId e)] } :=
    if_neg (hready.inbox e he (by omega))
  have hadvance :
      advanceExecutorSequence { db with inbox := db.inbox ++ [(stream, messageId e)] } taskId
        e.eventSequence =
      .ok (true, { db with
        inbox := db.inbox ++ [(stream, messageId e)]
        bindings := db.bindings.modifyAt taskId fun b =>
          { b with lastEventSequence := e.eventSequence } }) := by
    unfold advanceExecutorSequence
    dsimp only
    rw [hready.binding]
    dsimp only
    rw [if_neg (by omega), if_neg (by omega)]
  obtain ⟨db', hpersist⟩ : ∃ db', Workers.persist db stream taskId e = .ok (true, db') := by
    unfold Workers.persist
    -- An event that may move the Task on becomes a command; another one is recorded as progress.
    split
    · unfold ingestSignal
      rw [hinbox]
      dsimp only
      rw [hadvance]
      obtain ⟨commands, hinsert⟩ :=
        Table.insert_of_get_none (hready.commands e he (by omega)) (signalCommand taskId e)
      dsimp only [Bind.bind, Except.bind]
      rw [if_neg nofun, hinsert]
      exact ⟨_, rfl⟩
    · unfold recordProgress
      rw [hinbox]
      dsimp only
      rw [hadvance]
      have htask : ¬ (db.tasks.get taskId).isNone = true := by
        rw [Option.isNone_eq_false_iff.mpr hready.task]
        nofun
      dsimp only [Bind.bind, Except.bind]
      rw [if_neg nofun, if_neg htask]
      exact ⟨_, rfl⟩
  refine ⟨db', by rw [hpersist]; rfl, ?_⟩
  have happended : Appended stream taskId e db db' := by
    rcases persist_ok hpersist with ⟨hfalse, -⟩ | ⟨-, happended⟩
    · cases hfalse
    · exact happended
  -- Behind the written event, the log is as fresh as before.
  constructor
  · rw [happended.bindings, Table.get_modifyAt, if_pos rfl, hready.binding]
    exact congrArg (fun n => some (Binding.mk x n)) hnext
  · rw [happended.tasks]
    exact hready.task
  · intro e' he' hlast hmem
    rw [happended.inbox] at hmem
    rcases List.mem_append.mp hmem with hmem | hmem
    · exact hready.inbox e' he' (by omega) hmem
    · have hmessage := (Prod.mk.inj (List.mem_singleton.mp hmem)).2
      obtain rfl := hnamed.eq_of_text he' he hmessage
      omega
  · intro e' he' hlast
    rw [Table.get_eq_none_iff, happended.commands, List.map_append, List.mem_append, not_or]
    refine ⟨Table.get_eq_none_iff.mp (hready.commands e' he' (by omega)), fun hmem => ?_⟩
    split at hmem
    · have hkey := List.mem_singleton.mp hmem
      obtain rfl := hnamed.eq_of_text he' he hkey
      omega
    · cases hmem

/-- The events that a call has are written one after the other. -/
theorem Ready.foldlM (hnamed : Named log) {x : Uuid} {stream : String} {taskId : Uuid}
    (events : List ExecutorEvent)
    {last : ℕ} {db : Db} (hready : Ready log x stream taskId last db)
    (hmem : ∀ e ∈ events, e ∈ log x)
    (hsequences : events.map ExecutorEvent.eventSequence = List.range' (last + 1) events.length) :
    ∃ db', events.foldlM
      (fun db event => (Workers.persist db stream taskId event).map Prod.snd) db = .ok db' ∧
      Ready log x stream taskId (last + events.length) db' := by
  induction events generalizing last db with
  | nil => exact ⟨db, rfl, hready⟩
  | cons e events ih =>
    rw [List.map_cons, List.length_cons, List.range'_succ] at hsequences
    obtain ⟨hnext, hrest⟩ := List.cons.inj hsequences
    obtain ⟨db₁, hpersist, hready₁⟩ := hready.persist hnamed (hmem e (List.mem_cons_self ..)) hnext
    obtain ⟨db', hfold, hready'⟩ :=
      ih hready₁ (fun e' he' => hmem e' (List.mem_cons_of_mem _ he')) hrest
    refine ⟨db', ?_, ?_⟩
    · rw [List.foldlM_cons, hpersist]
      exact hfold
    · rw [List.length_cons, Nat.add_comm events.length 1, ← Nat.add_assoc]
      exact hready'

/-- The binding of an execution is found. -/
theorem Fresh.bindingForExecution (hfresh : Fresh log db) {taskId : Uuid} {b : Binding}
    (hb : db.bindings.get taskId = some b) :
    Workers.bindingForExecution db b.executionId = some (taskId, b) := by
  have hsome : (Workers.bindingForExecution db b.executionId).isSome = true := by
    unfold Workers.bindingForExecution
    rw [List.find?_isSome]
    exact ⟨(taskId, b), Table.mem_entries_iff.mpr hb, decide_eq_true rfl⟩
  obtain ⟨⟨t, b'⟩, hfound⟩ := Option.isSome_iff_exists.mp hsome
  have hb' : db.bindings.get t = some b' :=
    Table.mem_entries_iff.mp (List.mem_of_find?_eq_some hfound)
  have hexecution : b'.executionId = b.executionId := by simpa using List.find?_some hfound
  obtain rfl := hfresh.unique t taskId b' b hb' hb hexecution
  obtain rfl := Option.some.inj (hb'.symm.trans hb)
  exact hfound

end Keys

/-- The phase is the last one gone to. -/
theorem goto_goto (s : State) (id : ℕ) (phase phase' : Phase) :
    (s.goto id phase).goto id phase' = s.goto id phase' := by
  unfold State.goto
  rw [Function.update_idem]

/-- The phase is that of its call. -/
theorem goto_calls (s : State) (id : ℕ) (phase : Phase) : (s.goto id phase).calls id = phase :=
  Function.update_self ..

/-- A persisted event is a step of its call. -/
theorem persist_step {s : State} {id : ℕ} {stream : String} {taskId : Uuid} {event : ExecutorEvent}
    {rest : List ExecutorEvent} {db db' : Db}
    (h : (Workers.persist db stream taskId event).map Prod.snd = .ok db') :
    ingestion.step ({ s with db }.goto id (.persisting stream taskId (event :: rest)))
      (.persist id false) =
      some ({ s with db := db' }.goto id (afterPersist stream taskId rest false)) := by
  obtain ⟨⟨inserted, db'⟩, hpersist, rfl⟩ := Fallible.map_eq_ok.mp h
  dsimp only [ingestion, step]
  rw [goto_calls]
  dsimp only [State.goto]
  rw [hpersist]
  dsimp only
  rw [Function.update_idem]

/-- A call persists its events while nothing else happens. -/
theorem persist_leads {s : State} {id : ℕ} {stream : String} {taskId : Uuid}
    (events : List ExecutorEvent) {event : ExecutorEvent} {db db' : Db}
    (h : (event :: events).foldlM
      (fun db event => (Workers.persist db stream taskId event).map Prod.snd) db = .ok db') :
    ingestion.Leads ({ s with db }.goto id (.persisting stream taskId (event :: events)))
      ({ s with db := db' }.goto id (.returned true)) := by
  induction events generalizing event db with
  | nil =>
    rw [List.foldlM_cons] at h
    obtain ⟨db₁, hpersist, hrest⟩ := Fallible.bind_eq_ok.mp h
    obtain rfl := Except.ok.inj hrest
    exact .single ⟨_, persist_step hpersist⟩
  | cons event' events ih =>
    rw [List.foldlM_cons] at h
    obtain ⟨db₁, hpersist, hrest⟩ := Fallible.bind_eq_ok.mp h
    exact .head ⟨_, persist_step hpersist⟩ (ih hrest)

/-- What `process` does is what a call does while nothing else happens. -/
theorem process_leads {s : State} {id : ℕ} (hunused : s.calls id = .unused) {call : Call}
    {pages : List ExecutorEventPage} {processed : Bool} {db' : Db}
    (h : process s.db call pages = .ok (processed, db')) :
    ingestion.Leads s ({ s with db := db' }.goto id (.returned processed)) := by
  have hbegin : ingestion.step s (.begin id call) =
      some (s.goto id (afterBinding call (bindingForExecution s.db call.event.executionId))) := by
    dsimp only [ingestion, step]
    rw [hunused]
  unfold process at h
  cases hfound : bindingForExecution s.db call.event.executionId with
  | none =>
    rw [hfound] at h hbegin
    obtain ⟨rfl, rfl⟩ := Prod.mk.inj (Except.ok.inj h)
    exact .single ⟨_, hbegin⟩
  | some found =>
    obtain ⟨taskId, b⟩ := found
    rw [hfound] at h hbegin
    obtain ⟨history, hfetch, h⟩ := Fallible.bind_eq_ok.mp h
    obtain ⟨ordered, hordered, h⟩ := Fallible.bind_eq_ok.mp h
    obtain ⟨db₁, hfold, h⟩ := Fallible.bind_eq_ok.mp h
    obtain ⟨rfl, rfl⟩ := Prod.mk.inj (Except.ok.inj h)
    -- The history is read, if one is asked for.
    have hread : ingestion.Leads s
        (s.goto id (afterHistory call taskId b.lastEventSequence (.ok history))) := by
      unfold Call.fetch at hfetch
      unfold afterBinding at hbegin
      dsimp only at hbegin
      cases hlimit : call.limit b.lastEventSequence with
      | none =>
        rw [hlimit] at hfetch hbegin
        obtain rfl := Except.ok.inj hfetch
        exact .single ⟨_, hbegin⟩
      | some limit =>
        rw [hlimit] at hfetch hbegin
        dsimp only at hfetch hbegin
        refine .head ⟨_, hbegin⟩ (.single ⟨.answer id pages, ?_⟩)
        dsimp only [ingestion, step]
        rw [goto_calls]
        dsimp only
        rw [hfetch, goto_goto]
    unfold afterHistory at hread
    dsimp only at hread
    rw [hordered] at hread
    cases ordered with
    | nil =>
      obtain rfl := Except.ok.inj hfold
      exact hread
    | cons event rest => exact hread.trans (persist_leads rest hfold)

/-- In every state that overlapping calls, failures and deaths lead to, a call for an event of the
log that runs alone, with the history that the Executor serves, ends unless it catches up with an
event that is more than 501 after the last one; and then the binding is at that event, or at the end
of what was served. -/
theorem process_iff {log : Uuid → List ExecutorEvent} (hlog : IsLog log)
    (hnamed : Named log) {s : State}
    (hr : ingestion.ReachableWhen (Orderly log) s) {taskId : Uuid} {b : Binding}
    (hb : s.db.bindings.get taskId = some b) {call : Call}
    (hevent : call.event ∈ log b.executionId) :
    ((∃ result,
        process s.db call (answers (log b.executionId) call b.lastEventSequence) = .ok result) ↔
      call.catchUp = false ∨ call.event.eventSequence ≤ b.lastEventSequence + 501) ∧
    ∀ processed db', process s.db call (answers (log b.executionId) call b.lastEventSequence) =
      .ok (processed, db') →
      processed = true ∧ db'.bindings.get taskId =
        some ⟨b.executionId, call.target b.lastEventSequence (log b.executionId).length⟩ ∧
      ∀ id, s.calls id = .unused →
        ingestion.Leads s ({ s with db := db' }.goto id (.returned true)) := by
  obtain ⟨hinv, hfresh⟩ := orderly_reachable hr
  have hready := hfresh.ready hlog hnamed hinv.ingested hb call.stream
  have hlast : b.lastEventSequence ≤ (log b.executionId).length := by
    obtain ⟨events, -, hsequences, htold⟩ := hinv.ingested.bound taskId b hb
    exact (hlog.take hsequences htold).1
  have hexecution : call.event.executionId = b.executionId := hlog.execution _ _ hevent
  -- The call orders the history it has read, and writes it event by event.
  have hprocess : process s.db call (answers (log b.executionId) call b.lastEventSequence) =
      (call.ordered b.lastEventSequence (call.history (log b.executionId) b.lastEventSequence)).bind
      fun ordered =>
        (ordered.foldlM
          (fun db event => (Workers.persist db call.stream taskId event).map Prod.snd) s.db).bind
          fun db' => .ok (true, db') := by
    have hhistory := eventsAfter_answers (log b.executionId) call b.lastEventSequence
    unfold process
    rw [hexecution, hfresh.bindingForExecution hb]
    dsimp only [Bind.bind]
    rw [hhistory]
    rfl
  -- An ordered history is written to its end.
  have hfold : ∀ ordered,
      call.ordered b.lastEventSequence
        (call.history (log b.executionId) b.lastEventSequence) = .ok ordered →
      ∃ db', ordered.foldlM
          (fun db event => (Workers.persist db call.stream taskId event).map Prod.snd) s.db =
          .ok db' ∧
        db'.bindings.get taskId =
          some ⟨b.executionId, call.target b.lastEventSequence (log b.executionId).length⟩ := by
    intro ordered hordered
    have htarget := current_target hlog hevent hlast
    obtain ⟨-, hsequences⟩ := mergeContiguousEvents_ok hordered
    have hlength := congrArg List.length hsequences
    rw [List.length_map, List.length_range'] at hlength
    have hmem : ∀ e ∈ ordered, e ∈ log b.executionId := by
      intro e he
      rcases ordered_mem hordered e he with hmem | rfl
      · exact history_mem e hmem
      · exact hevent
    obtain ⟨db', hdb, hready'⟩ := hready.foldlM hnamed ordered hmem (by rw [hsequences, hlength])
    refine ⟨db', hdb, hready'.binding.trans ?_⟩
    rw [← htarget, hlength]
    congr 2
    omega
  rw [hprocess, ← exists_ordered_iff hlog hevent]
  constructor
  · constructor
    · -- The call succeeds exactly when the history can be ordered.
      rintro ⟨result, hresult⟩
      obtain ⟨ordered, hordered, -⟩ := Fallible.bind_eq_ok.mp hresult
      exact ⟨ordered, hordered⟩
    · rintro ⟨ordered, hordered⟩
      obtain ⟨db', hdb, -⟩ := hfold ordered hordered
      refine ⟨(true, db'), ?_⟩
      rw [hordered]
      dsimp only [Except.bind]
      rw [hdb]
  · -- Then the binding is at the last event that was written.
    intro processed db' hresult
    obtain ⟨ordered, hordered, hrest⟩ := Fallible.bind_eq_ok.mp hresult
    obtain ⟨db₁, hdb, hbinding⟩ := hfold ordered hordered
    obtain ⟨db₂, hdb', hrest⟩ := Fallible.bind_eq_ok.mp hrest
    obtain ⟨rfl, rfl⟩ := Prod.mk.inj (Except.ok.inj hrest)
    obtain rfl := Except.ok.inj (hdb.symm.trans hdb')
    exact ⟨rfl, hbinding, fun id hunused => process_leads hunused (hprocess.trans hresult)⟩

namespace Sample

/-- The events of the sample have IDs of their own. -/
theorem log_named : Named log where
  small := by
    intro x e he
    unfold log at he
    split at he
    · rcases List.mem_cons.mp he with rfl | he
      · decide
      · obtain rfl := List.mem_singleton.mp he
        decide
    · cases he
  ids := by
    intro x y e he e' he' heq
    unfold log at he he'
    split at he
    · split at he'
      · rcases List.mem_cons.mp he with rfl | he
        · rcases List.mem_cons.mp he' with rfl | he'
          · rfl
          · obtain rfl := List.mem_singleton.mp he'
            cases heq
        · obtain rfl := List.mem_singleton.mp he
          rcases List.mem_cons.mp he' with rfl | he'
          · cases heq
          · obtain rfl := List.mem_singleton.mp he'
            rfl
      · cases he'
    · cases he

/-- The state after a Task was created and its execution bound. -/
def bound : State := { db := {
  tasks := ⟨[(5, .waitingForExecutorEvent)], by simp⟩
  bindings := ⟨[(5, ⟨7, 0⟩)], by simp⟩ } }

/-- The state of the sample is reached by an orderly run. -/
theorem bound_reachable : ingestion.ReachableWhen (Orderly log) bound := by
  have hcreated : ingestion.ReachableWhen (Orderly log)
      { db := { tasks := ⟨[(5, .waitingForExecutorEvent)], by simp⟩ } } :=
    .next (.start rfl) (a := .create 5 .waitingForExecutorEvent) ⟨trivial, nofun⟩ rfl
  exact hcreated.next (a := .bind 5 7) ⟨trivial, nofun⟩ rfl

/-- Its Task is bound, and has received nothing. -/
theorem bound_binding : bound.db.bindings.get 5 = some ⟨7, 0⟩ := rfl

end Sample

/-- The second event comes first. -/
theorem process_sample :
    ∃ result, process Sample.bound.db ⟨"s", ⟨2, .completed, 7, 2, "\x7b\x7d"⟩, false⟩
    (answers (Sample.log 7) ⟨"s", ⟨2, .completed, 7, 2, "\x7b\x7d"⟩, false⟩ 0) = .ok result :=
  (process_iff Sample.log_isLog Sample.log_named Sample.bound_reachable Sample.bound_binding
    (by decide)).1.mpr (Or.inl rfl)

end ExAgent.Workers
