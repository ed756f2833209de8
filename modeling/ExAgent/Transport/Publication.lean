import ExAgent.Lib.Fallible
import ExAgent.Lib.History
import ExAgent.Transport.ProductEvents
import Mathlib.Data.List.Induction

/-!
# What the outbox guarantees

The results of the pipeline are one list for two kinds of commands, matched to the events by
position: the `XADD` of an event by its place in the batch, the `PUBLISH` of its Task by the place
of the Task in `last_event_by_task`, counted from the end of the batch. `outcomes_sent` says that an
event counts as published only when both of its commands have succeeded, and `mem_lastEventByTask`
that the `PUBLISH` of a Task carries the largest `id` of its events in the batch.

A claim is fenced by its time alone. `publication_sound` holds of every run, and what it says of a
claim that was taken over, of every run in which the claims of an event have distinct times
(`DistinctTimes`).
-/

namespace ExAgent.Transport.ProductEvents

open Lib

variable {C : Config} {s s' : State} {events events' : Events} {p p' : Publication} {i j : ℕ}
  {id : ℕ} {row row' : TaskEvent} {batch : List (ℕ × TaskEvent)} {results : List Bool}

/-! ## The last event of a Task -/

/-- An assignment gives its key the new value and keeps every other one. -/
theorem lookup_assign (taskId key : Uuid) (eventId : ℕ) (last : List (Uuid × ℕ)) :
    (assign taskId eventId last).lookup key =
      if key = taskId then some eventId else last.lookup key := by
  induction last with
  | nil =>
    unfold assign
    rw [List.lookup_cons]
    by_cases hkey : key = taskId
    · simp [hkey]
    · simp [hkey, beq_false_of_ne hkey]
  | cons entry last ih =>
    obtain ⟨k, v⟩ := entry
    unfold assign
    split_ifs with hk hkey hkey
    · subst hk
      rw [hkey, List.lookup_cons]
      simp
    · subst hk
      rw [List.lookup_cons, List.lookup_cons, beq_false_of_ne hkey]
    · have hne : key ≠ k := fun h => hk (h.symm.trans hkey)
      rw [List.lookup_cons, beq_false_of_ne hne, ih, if_pos hkey]
    · rw [List.lookup_cons, List.lookup_cons, ih, if_neg hkey]

/-- An assignment adds no key twice. -/
theorem keys_assign (taskId : Uuid) (eventId : ℕ) (last : List (Uuid × ℕ)) :
    (assign taskId eventId last).map Prod.fst =
      if taskId ∈ last.map Prod.fst then last.map Prod.fst else last.map Prod.fst ++ [taskId] := by
  induction last with
  | nil => rfl
  | cons entry last ih =>
    obtain ⟨k, v⟩ := entry
    unfold assign
    by_cases hk : k = taskId
    · simp [hk]
    · rw [if_neg hk, List.map_cons, ih]
      by_cases hmem : taskId ∈ last.map Prod.fst
      · simp [hmem]
      · simp [hmem, Ne.symm hk]

/-- The dictionary after one more event. -/
theorem lastEventByTask_append (batch : List (ℕ × TaskEvent)) (e : ℕ × TaskEvent) :
    lastEventByTask (batch ++ [e]) = assign e.2.taskId e.1 (lastEventByTask batch) := by
  unfold lastEventByTask
  rw [List.foldl_append]
  rfl

/-- The keys of the dictionary are distinct. -/
theorem nodup_lastEventByTask (batch : List (ℕ × TaskEvent)) :
    ((lastEventByTask batch).map Prod.fst).Nodup := by
  induction batch using List.reverseRecOn with
  | nil => exact List.nodup_nil
  | append_singleton batch e ih =>
    rw [lastEventByTask_append, keys_assign]
    split_ifs with hmem
    · exact ih
    · refine List.nodup_append.mpr ⟨ih, List.nodup_singleton _, ?_⟩
      rintro key hkey _ hsingle rfl
      exact hmem (List.mem_singleton.mp hsingle ▸ hkey)

/-- The dictionary as a table. -/
theorem mem_iff_lookup (batch : List (ℕ × TaskEvent)) {taskId : Uuid} {eventId : ℕ} :
    (taskId, eventId) ∈ lastEventByTask batch ↔
      (lastEventByTask batch).lookup taskId = some eventId :=
  Table.mem_entries_iff (t := ⟨lastEventByTask batch, nodup_lastEventByTask batch⟩)

/-- Every Task of the batch has a value. -/
theorem key_of_mem {e : ℕ × TaskEvent} (h : e ∈ batch) :
    e.2.taskId ∈ (lastEventByTask batch).map Prod.fst := by
  induction batch using List.reverseRecOn with
  | nil => cases h
  | append_singleton batch last ih =>
    rw [lastEventByTask_append, keys_assign]
    rcases List.mem_append.mp h with h | h
    · split_ifs
      · exact ih h
      · exact List.mem_append_left _ (ih h)
    · obtain rfl := List.mem_singleton.mp h
      split_ifs with hmem
      · exact hmem
      · exact List.mem_append_right _ List.mem_cons_self

/-- For a batch in the order of its ids, the value of a Task is the largest `id` of its events. -/
theorem mem_lastEventByTask (hsorted : batch.Pairwise fun a b => a.1 < b.1) {taskId : Uuid}
    {eventId : ℕ} :
    (taskId, eventId) ∈ lastEventByTask batch ↔
      (∃ e ∈ batch, e.1 = eventId ∧ e.2.taskId = taskId) ∧
        ∀ e ∈ batch, e.2.taskId = taskId → e.1 ≤ eventId := by
  rw [mem_iff_lookup]
  induction batch using List.reverseRecOn generalizing eventId with
  | nil => simp [lastEventByTask]
  | append_singleton batch e ih =>
    obtain ⟨hbatch, -, hlast⟩ := List.pairwise_append.mp hsorted
    have hbelow : ∀ a ∈ batch, a.1 < e.1 := fun a ha => hlast a ha e List.mem_cons_self
    rw [lastEventByTask_append, lookup_assign]
    by_cases htask : taskId = e.2.taskId
    · rw [if_pos htask]
      -- The last event of the batch is its Task's: it has the largest `id` of all.
      constructor
      · intro heq
        obtain rfl := Option.some.inj heq
        refine ⟨⟨e, by simp, rfl, htask.symm⟩, fun a ha _ => ?_⟩
        rcases List.mem_append.mp ha with ha | ha
        · exact (hbelow a ha).le
        · exact (congrArg Prod.fst (List.mem_singleton.mp ha)).le
      · rintro ⟨⟨a, ha, rfl, -⟩, hmax⟩
        have hle := hmax e (by simp) htask.symm
        rcases List.mem_append.mp ha with ha | ha
        · exact absurd (hbelow a ha) (not_lt.mpr hle)
        · rw [List.mem_singleton.mp ha]
    · -- It is another Task's, so the value is the one before.
      have hne : ∀ a ∈ [e], a.2.taskId ≠ taskId := by
        intro a ha heq
        exact htask ((List.mem_singleton.mp ha) ▸ heq.symm)
      rw [if_neg htask, ih hbatch]
      constructor
      · rintro ⟨⟨a, ha, heq⟩, hmax⟩
        refine ⟨⟨a, List.mem_append_left _ ha, heq⟩, fun b hb hb' => ?_⟩
        rcases List.mem_append.mp hb with hb | hb
        · exact hmax b hb hb'
        · exact absurd hb' (hne b hb)
      · rintro ⟨⟨a, ha, heq⟩, hmax⟩
        refine ⟨⟨a, ?_, heq⟩, fun b hb => hmax b (List.mem_append_left _ hb)⟩
        rcases List.mem_append.mp ha with ha | ha
        · exact ha
        · exact absurd heq.2 (hne a ha)

/-- The pipeline has one `PUBLISH` for each Task of its batch, with the largest `id`. -/
theorem publish_mem_commands (hsorted : batch.Pairwise fun a b => a.1 < b.1) {taskId : Uuid}
    {eventId : ℕ} :
    Command.publish taskId eventId ∈ commands batch ↔
      (∃ e ∈ batch, e.1 = eventId ∧ e.2.taskId = taskId) ∧
        ∀ e ∈ batch, e.2.taskId = taskId → e.1 ≤ eventId := by
  rw [← mem_lastEventByTask hsorted]
  unfold commands
  rw [List.mem_append]
  constructor
  · rintro (h | h)
    · obtain ⟨e, -, heq⟩ := List.mem_map.mp h
      cases heq
    · obtain ⟨⟨t, n⟩, hmem, heq⟩ := List.mem_map.mp h
      obtain ⟨rfl, rfl⟩ := Command.publish.inj heq
      exact hmem
  · intro h
    exact .inr (List.mem_map.mpr ⟨(taskId, eventId), h, rfl⟩)

/-! ## The results of the pipeline -/

/-- The number of commands. -/
theorem length_commands (batch : List (ℕ × TaskEvent)) :
    (commands batch).length = batch.length + (lastEventByTask batch).length := by
  unfold commands
  rw [List.length_append, List.length_map, List.length_map]

/-- The commands at the positions of the events. -/
theorem commands_xadd {e : ℕ × TaskEvent} (h : batch[i]? = some e) :
    (commands batch)[i]? = some (xadd e) := by
  have hi := (List.getElem?_eq_some_iff.mp h).1
  unfold commands
  rw [List.getElem?_append_left (by rwa [List.length_map]), List.getElem?_map, h]
  rfl

/-- The commands at the positions of the Tasks. -/
theorem commands_publish {taskId : Uuid} {eventId : ℕ}
    (h : (lastEventByTask batch)[i]? = some (taskId, eventId)) :
    (commands batch)[batch.length + i]? = some (.publish taskId eventId) := by
  unfold commands
  rw [List.getElem?_append_right (by rw [List.length_map]; exact Nat.le_add_right _ _),
    List.length_map, Nat.add_sub_cancel_left, List.getElem?_map, h]
  rfl

/-- The result of a Task is that of its `PUBLISH`. -/
theorem notificationResults_spec {notifications : List (Uuid × Bool)}
    (h : notificationResults batch results = some notifications) {taskId : Uuid} {result : Bool}
    (hmem : notifications.lookup taskId = some result) :
    ∃ index eventId, (lastEventByTask batch)[index]? = some (taskId, eventId) ∧
      results[batch.length + index]? = some result := by
  obtain ⟨_, _, hsplit, -⟩ := List.lookup_eq_some_iff.mp hmem
  have hin : (taskId, result) ∈ notifications := by
    rw [hsplit]
    simp
  obtain ⟨⟨⟨t, eventId⟩, index⟩, hlast, hresult⟩ := Fallible.of_mem_mapM h hin
  obtain ⟨_, hget, heq⟩ := Option.map_eq_some_iff.mp hresult
  obtain ⟨rfl, rfl⟩ := Prod.mk.inj heq
  exact ⟨index, eventId, List.mem_zipIdx_iff_getElem?.mp hlast, hget⟩

/-- An event counts as published only when both of its commands have succeeded. -/
theorem outcomes_spec {os : List (ℕ × Bool)} (h : outcomes batch results = some os)
    (hmem : (id, true) ∈ os) :
    ∃ (k : ℕ) (e : ℕ × TaskEvent) (index eventId : ℕ), batch[k]? = some e ∧ e.1 = id ∧
      results[k]? = some true ∧
      (lastEventByTask batch)[index]? = some (e.2.taskId, eventId) ∧
      results[batch.length + index]? = some true := by
  obtain ⟨notifications, hnotifications, h⟩ := Option.bind_eq_some_iff.mp h
  obtain ⟨⟨e, k⟩, hevent, hresult⟩ := Fallible.of_mem_mapM h hmem
  obtain ⟨streamResult, hstream, hresult⟩ := Option.bind_eq_some_iff.mp hresult
  obtain ⟨notificationResult, hnotification, heq⟩ := Option.map_eq_some_iff.mp hresult
  obtain ⟨hid, hboth⟩ := Prod.mk.inj heq
  obtain ⟨rfl, rfl⟩ := Bool.and_eq_true_iff.mp hboth
  obtain ⟨index, eventId, hlast, hpublish⟩ := notificationResults_spec hnotifications hnotification
  exact ⟨k, e, index, eventId, List.mem_zipIdx_iff_getElem?.mp hevent, hid,
    hstream, hlast, hpublish⟩

/-- The keys of a list with positions. -/
theorem keys_zipIdx {α β : Type} (as : List (α × β)) :
    (as.zipIdx.map fun x => x.1.1) = as.map Prod.fst :=
  (List.map_map (f := Prod.fst) (g := Prod.fst)).symm.trans (congrArg _ (List.zipIdx_map_fst 0 as))

/-- With a result for each event and for its Task, every event has its outcome. -/
theorem outcomes_mapM {notifications : List (Uuid × Bool)} (hlength : batch.length ≤ results.length)
    (hlookup : ∀ e ∈ batch, ∃ result, notifications.lookup e.2.taskId = some result) :
    ∃ os : List (ℕ × Bool),
      batch.zipIdx.mapM (fun (event, index) =>
        (results[index]?).bind fun streamResult =>
          (notifications.lookup event.2.taskId).map fun notificationResult =>
            (event.1, streamResult && notificationResult)) = some os ∧
      os.map Prod.fst = batch.zipIdx.map fun x => x.1.1 := by
  refine Fallible.mapM_keys _ ?_
  rintro ⟨e, index⟩ hevent
  have he := List.mem_zipIdx_iff_getElem?.mp hevent
  have hin : index < results.length := lt_of_lt_of_le (List.getElem?_eq_some_iff.mp he).1 hlength
  obtain ⟨result, hresult⟩ := hlookup e (List.mem_of_getElem? he)
  refine ⟨(e.1, results[index] && result), ?_, rfl⟩
  dsimp only
  rw [List.getElem?_eq_getElem hin, Option.bind_some, hresult]
  rfl

/-- With one result for each command, every event has its outcome. -/
theorem outcomes_total (hlength : results.length = (commands batch).length) :
    ∃ os, outcomes batch results = some os ∧ os.map Prod.fst = batch.map Prod.fst := by
  rw [length_commands] at hlength
  have hnotifications : ∃ ns : List (Uuid × Bool), notificationResults batch results = some ns ∧
      ns.map Prod.fst = (lastEventByTask batch).zipIdx.map fun x => x.1.1 := by
    refine Fallible.mapM_keys _ ?_
    rintro ⟨last, index⟩ hlast
    have hindex := (List.getElem?_eq_some_iff.mp (List.mem_zipIdx_iff_getElem?.mp hlast)).1
    have hin : batch.length + index < results.length :=
      hlength ▸ Nat.add_lt_add_left hindex batch.length
    refine ⟨(last.1, results[batch.length + index]), ?_, rfl⟩
    dsimp only
    rw [List.getElem?_eq_getElem hin]
    rfl
  obtain ⟨ns, hns, hkeys⟩ := hnotifications
  have hfst : (lastEventByTask batch).zipIdx.map (fun x => x.1.1) =
      (lastEventByTask batch).map Prod.fst := keys_zipIdx _
  have hlookup : ∀ e ∈ batch, ∃ result, ns.lookup e.2.taskId = some result := by
    intro e he
    apply Option.ne_none_iff_exists'.mp
    intro hnone
    have hkey : e.2.taskId ∈ ns.map Prod.fst := by
      rw [hkeys, hfst]
      exact key_of_mem he
    obtain ⟨entry, hentry, heq⟩ := List.mem_map.mp hkey
    exact absurd heq.symm (by simpa using List.lookup_eq_none_iff.mp hnone entry hentry)
  obtain ⟨os, hos, hids⟩ := outcomes_mapM (hlength ▸ Nat.le_add_right _ _) hlookup
  refine ⟨os, ?_, ?_⟩
  · unfold outcomes
    rw [hns]
    exact hos
  · rw [hids]
    exact keys_zipIdx _

/-- The positions of the commands that succeeded are in the log. -/
theorem mem_succeededOf {cs : List Command} {succeeded : List Bool} {k : ℕ} {c : Command}
    (hc : cs[k]? = some c) (hok : succeeded[k]? = some true) :
    (i, c) ∈ succeededOf i cs succeeded := by
  have hzip : (cs.zip succeeded)[k]? = some (c, true) := List.getElem?_zip_eq_some.mpr ⟨hc, hok⟩
  exact List.mem_filterMap.mpr ⟨(c, true), List.mem_of_getElem? hzip, rfl⟩

/-- What is in the log was a command. -/
theorem of_mem_succeededOf {cs : List Command} {succeeded : List Bool} {entry : ℕ × Command}
    (h : entry ∈ succeededOf i cs succeeded) : entry.1 = i ∧ entry.2 ∈ cs := by
  obtain ⟨⟨c, ok⟩, hzip, hentry⟩ := List.mem_filterMap.mp h
  dsimp only at hentry
  split_ifs at hentry
  obtain rfl := Option.some.inj hentry
  exact ⟨rfl, (List.of_mem_zip hzip).1⟩

/-! ## The repository -/

/-- A finish writes to the events of its list that are claimed at its time. -/
theorem get_finish (events : Events) (ids : List ℕ) (claimedAt : Instant) (published : Bool)
    (error : Option String) (id : ℕ) :
    (finishTaskEventPublications events ids claimedAt published error).get id =
      (events.get id).map fun row =>
        if id ∈ ids ∧ row.deliveryState = .publishing ∧ row.deliveryClaimedAt = some claimedAt
        then row.finished published error else row := by
  unfold finishTaskEventPublications
  split_ifs with hids
  · subst hids
    simp
  · rw [Table.get_modify]

section Claim

variable {limit claimTimeout : ℕ} {now claimedAt : Instant} {locked : List ℕ}

/-- The rows that a claim selects can be claimed. -/
theorem of_mem_selected {e : ℕ × TaskEvent} (h : e ∈ selected events limit now locked) :
    events.get e.1 = some e.2 ∧ e.2.claimable now := by
  have hsorted := (List.mem_insertionSort _).mp (List.mem_of_mem_take h)
  obtain ⟨hentry, hdue⟩ := List.mem_filter.mp hsorted
  exact ⟨Table.mem_entries_iff.mp hentry, (of_decide_eq_true hdue).1⟩

/-- They come in the order of their ids. -/
theorem selected_sorted (events : Events) (limit : ℕ) (now : Instant) (locked : List ℕ) :
    (selected events limit now locked).Pairwise fun a b => a.1 < b.1 := by
  unfold selected
  refine List.Pairwise.sublist (List.take_sublist _ _) ?_
  have hle := List.pairwise_insertionSort (fun a b : ℕ × TaskEvent => a.1 ≤ b.1)
    (events.entries.filter fun e => e.2.claimable now ∧ e.1 ∉ locked)
  have hne :
      ((events.entries.filter fun e => decide (e.2.claimable now ∧ e.1 ∉ locked)).insertionSort
      fun a b => a.1 ≤ b.1).Pairwise fun a b => a.1 ≠ b.1 := by
    refine (List.perm_insertionSort _ _).symm.pairwise ?_ fun h => Ne.symm h
    exact (List.pairwise_map.mp events.nodup).sublist List.filter_sublist
  exact (hle.and hne).imp fun h => lt_of_le_of_ne h.1 h.2

/-- A claim writes to the events of its batch. -/
theorem get_claim (id : ℕ) :
    (claimPendingTaskEvents events limit claimTimeout now locked claimedAt).1.get id =
      (events.get id).map fun row =>
        if id ∈ (claimPendingTaskEvents events limit claimTimeout now locked claimedAt).2.map
          Prod.fst
        then row.claimed claimedAt else row := by
  unfold claimPendingTaskEvents
  dsimp only
  rw [Table.get_modify, List.map_map]
  rfl

/-- An event of the batch is a row that could be claimed. -/
theorem of_mem_batch {e : ℕ × TaskEvent}
    (h : e ∈ (claimPendingTaskEvents events limit claimTimeout now locked claimedAt).2) :
    ∃ row, events.get e.1 = some row ∧ row.claimable (now - claimTimeout) ∧
      e.2 = row.claimed claimedAt := by
  obtain ⟨e₀, he₀, rfl⟩ := List.mem_map.mp h
  obtain ⟨hrow, hdue⟩ := of_mem_selected he₀
  exact ⟨e₀.2, hrow, hdue, rfl⟩

/-- The batch is in the order of its ids. -/
theorem batch_sorted :
    (claimPendingTaskEvents events limit claimTimeout now locked claimedAt).2.Pairwise
      fun a b => a.1 < b.1 :=
  List.pairwise_map.mpr (selected_sorted events limit (now - claimTimeout) locked)

end Claim

/-! ## The steps of the system -/

/-- What the steps do. -/
inductive Moves (C : Config) (s : State) : Action → State → Prop
  | appended {id : ℕ} {taskId : Uuid} {eventType : String} {payload : Dict} {events : Events}
      (hnew : s.events.insert id { taskId, eventType, payload } = some events) :
      Moves C s (.append id taskId eventType payload) { s with events }
  | passed {now : Instant} {locked : List ℕ} {claimedAt : Instant} :
      Moves C s (.claim now locked claimedAt) s
  | claimed {now : Instant} {locked : List ℕ} {claimedAt : Instant} {events : Events}
      {batch : List (ℕ × TaskEvent)}
      (h : claimPendingTaskEvents s.events C.batchSize C.claimTimeout now locked claimedAt =
        (events, batch)) :
      Moves C s (.claim now locked claimedAt)
        { s with events, publications := s.publications ++ [⟨batch, claimedAt, .claimed⟩] }
  | sent {i : ℕ} {succeeded : List Bool} {error : Option String} {p : Publication}
      (hp : s.publications[i]? = some p) (hphase : p.phase = .claimed)
      (hlength : succeeded.length = (commands p.events).length) :
      Moves C s (.pipeline i succeeded error)
        { s with
          publications := s.publications.set i (p.goto (match error with
            | some error => .raised error
            | none => .received succeeded))
          sent := s.sent ++ succeededOf i (commands p.events) succeeded }
  | finished {i : ℕ} {raises : Bool} {p : Publication} {events : Events} {phase : Phase}
      (hp : s.publications[i]? = some p) (h : p.finish s.events = some (events, phase)) :
      Moves C s (.finish i raises)
        { s with events
                 publications :=
                   s.publications.set i (p.goto (if raises then .returned else phase)) }
  | died {i : ℕ} {p : Publication} (hp : s.publications[i]? = some p) :
      Moves C s (.die i) { s with publications := s.publications.set i (p.goto .returned) }

/-- Every step is one of these. -/
theorem step_moves {a : Action} (h : step C s a = some s') : Moves C s a s' := by
  cases a with
  | append id taskId eventType payload =>
    obtain ⟨events, hnew, rfl⟩ := Option.map_eq_some_iff.mp h
    exact .appended hnew
  | claim now locked claimedAt =>
    unfold step at h
    dsimp only at h
    split_ifs at h
    · obtain rfl := Option.some.inj h
      exact .passed
    · obtain rfl := Option.some.inj h
      exact .claimed rfl
  | pipeline i succeeded error =>
    obtain ⟨p, hp, h⟩ := Option.bind_eq_some_iff.mp h
    split_ifs at h with hready
    obtain rfl := Option.some.inj h
    exact .sent hp hready.1 hready.2
  | finish i raises =>
    obtain ⟨p, hp, h⟩ := Option.bind_eq_some_iff.mp h
    obtain ⟨⟨events, phase⟩, hfinish, rfl⟩ := Option.map_eq_some_iff.mp h
    exact .finished hp hfinish
  | die i =>
    obtain ⟨p, hp, h⟩ := Option.bind_eq_some_iff.mp h
    split_ifs at h
    obtain rfl := Option.some.inj h
    exact .died hp

/-- What a publication's call of the repository does: it finishes events that are claimed at its
time, and as published only those whose commands have both succeeded. -/
theorem Publication.finish_spec {phase : Phase} (h : p.finish events = some (events', phase)) :
    (∀ results, phase ≠ .received results) ∧
      (events' = events ∨ ∃ ids published error,
        events' = finishTaskEventPublications events ids p.claimedAt published error ∧
        (published = true → ∃ results os, p.phase = .received results ∧
          outcomes p.events results = some os ∧ ids = idsOf os true)) := by
  unfold Publication.finish at h
  split at h
  · obtain ⟨rfl, rfl⟩ := Prod.mk.inj (Option.some.inj h)
    exact ⟨nofun, .inr ⟨_, _, _, rfl, nofun⟩⟩
  · rename_i results hphase
    split at h
    · obtain ⟨rfl, rfl⟩ := Prod.mk.inj (Option.some.inj h)
      exact ⟨nofun, .inl rfl⟩
    · rename_i os hos
      obtain ⟨rfl, rfl⟩ := Prod.mk.inj (Option.some.inj h)
      exact ⟨nofun, .inr ⟨_, _, _, rfl, fun _ => ⟨results, os, hphase, hos, rfl⟩⟩⟩
  · obtain ⟨rfl, rfl⟩ := Prod.mk.inj (Option.some.inj h)
    exact ⟨nofun, .inr ⟨_, _, _, rfl, nofun⟩⟩
  · cases h
  · cases h

/-! ## Rows -/

/-- Two rows of one event, apart from its delivery. -/
structure TaskEvent.Same (row row' : TaskEvent) : Prop where
  taskId : row'.taskId = row.taskId
  eventType : row'.eventType = row.eventType
  payload : row'.payload = row.payload

/-- What a step can do to a row: it stays the same event, and once it is published it stays as it
is. -/
structure TaskEvent.Follows (row row' : TaskEvent) : Prop where
  same : row.Same row'
  absorbed : row.deliveryState = .published → row' = row

/-- An event is the same as itself. -/
theorem TaskEvent.Same.refl (row : TaskEvent) : row.Same row := ⟨rfl, rfl, rfl⟩

/-- Being the same event follows on. -/
theorem TaskEvent.Same.trans {a b c : TaskEvent} (hab : a.Same b) (hbc : b.Same c) : a.Same c :=
  ⟨hbc.taskId.trans hab.taskId, hbc.eventType.trans hab.eventType, hbc.payload.trans hab.payload⟩

/-- An event follows itself. -/
theorem TaskEvent.Follows.refl (row : TaskEvent) : row.Follows row := ⟨.refl row, fun _ => rfl⟩

/-- Later rows follow. -/
theorem TaskEvent.Follows.trans {a b c : TaskEvent} (hab : a.Follows b) (hbc : b.Follows c) :
    a.Follows c := by
  refine ⟨hab.same.trans hbc.same, fun h => ?_⟩
  have hb := hab.absorbed h
  exact (hbc.absorbed (hb ▸ h)).trans hb

/-- A row that can be claimed is not published. -/
theorem not_published_of_claimable {now : Instant} (h : row.claimable now) :
    row.deliveryState ≠ .published := by
  intro hpublished
  unfold TaskEvent.claimable at h
  rw [hpublished] at h
  cases h

/-- A claim leaves an event that follows. -/
theorem follows_claim {limit claimTimeout : ℕ} {now claimedAt : Instant} {locked : List ℕ}
    (hrow : events.get id = some row) :
    ∃ row', (claimPendingTaskEvents events limit claimTimeout now locked claimedAt).1.get id =
      some row' ∧ row.Follows row' := by
  rw [get_claim, hrow, Option.map_some]
  refine ⟨_, rfl, ?_⟩
  split_ifs with hmem
  · obtain ⟨e, he, rfl⟩ := List.mem_map.mp hmem
    obtain ⟨row₀, hrow₀, hdue, -⟩ := of_mem_batch he
    obtain rfl := Option.some.inj (hrow₀.symm.trans hrow)
    exact ⟨⟨rfl, rfl, rfl⟩, fun h => absurd h (not_published_of_claimable hdue)⟩
  · exact .refl row

/-- A finish leaves an event that follows. -/
theorem follows_finish {ids : List ℕ} {claimedAt : Instant} {published : Bool}
    {error : Option String} (hrow : events.get id = some row) :
    ∃ row', (finishTaskEventPublications events ids claimedAt published error).get id = some row' ∧
      row.Follows row' := by
  rw [get_finish, hrow, Option.map_some]
  refine ⟨_, rfl, ?_⟩
  split_ifs with hclaimed
  · refine ⟨⟨rfl, rfl, rfl⟩, fun h => ?_⟩
    rw [hclaimed.2.1] at h
    cases h
  · exact .refl row

/-- Events are never dropped, and follow along every step. -/
theorem Moves.follows {a : Action} (h : Moves C s a s') (hrow : s.events.get id = some row) :
    ∃ row', s'.events.get id = some row' ∧ row.Follows row' := by
  cases h with
  | appended hnew =>
    obtain ⟨hfree, hget⟩ := Table.get_of_insert hnew
    refine ⟨row, ?_, .refl row⟩
    rw [hget id]
    refine (if_neg ?_).trans hrow
    rintro rfl
    exact absurd (hfree.symm.trans hrow) nofun
  | passed => exact ⟨row, hrow, .refl row⟩
  | @claimed now locked claimedAt events batch h =>
    have hfollows : ∃ row', (claimPendingTaskEvents s.events C.batchSize C.claimTimeout now locked
        claimedAt).1.get id = some row' ∧ row.Follows row' := follows_claim hrow
    rwa [h] at hfollows
  | sent => exact ⟨row, hrow, .refl row⟩
  | @finished i raises p events phase hp h =>
    rcases (Publication.finish_spec h).2 with rfl | ⟨ids, published, error, rfl, -⟩
    · exact ⟨row, hrow, .refl row⟩
    · exact follows_finish hrow
  | died => exact ⟨row, hrow, .refl row⟩

/-! ## The invariant -/

/-- The publication `j` is the last one that claimed the event. -/
def LastClaim (s : State) (id j : ℕ) (p : Publication) : Prop :=
  s.publications[j]? = some p ∧ id ∈ p.ids ∧
    ∀ (k : ℕ) (q : Publication), j < k → s.publications[k]? = some q → id ∉ q.ids

/-- What the delivery columns of an event say: one that is being published carries the time of its
last claim, the others no time. -/
def Timed (s : State) (id : ℕ) (row : TaskEvent) : Prop :=
  match row.deliveryState with
  | .publishing => ∃ (j : ℕ) (p : Publication), LastClaim s id j p ∧
      row.deliveryClaimedAt = some p.claimedAt
  | .pending | .published => row.deliveryClaimedAt = none

/-- What holds between the events, the publications and the log. -/
structure Inv (s : State) : Prop where
  batches : ∀ (i : ℕ) (p : Publication), s.publications[i]? = some p →
    p.events.Pairwise (fun a b => a.1 < b.1) ∧
      ∀ e ∈ p.events, ∃ row, s.events.get e.1 = some row ∧ e.2.Same row
  received : ∀ (i : ℕ) (p : Publication) (results : List Bool), s.publications[i]? = some p →
    p.phase = .received results → results.length = (commands p.events).length ∧
      ∀ (k : ℕ) (c : Command), (commands p.events)[k]? = some c → results[k]? = some true →
        (i, c) ∈ s.sent
  sent : ∀ entry ∈ s.sent, ∃ p, s.publications[entry.1]? = some p ∧ entry.2 ∈ commands p.events
  timed : ∀ (id : ℕ) (row : TaskEvent), s.events.get id = some row → Timed s id row

/-- A publication that goes on keeps its batch and its time. -/
theorem of_getElem?_set {phase : Phase} (hp : s.publications[i]? = some p) {q : Publication}
    (hq : (s.publications.set i (p.goto phase))[j]? = some q) :
    ∃ q₀, s.publications[j]? = some q₀ ∧ q.events = q₀.events ∧ q.claimedAt = q₀.claimedAt ∧
      (q = q₀ ∨ i = j ∧ q.phase = phase) := by
  by_cases hij : i = j
  · subst hij
    rw [List.getElem?_set_self (List.getElem?_eq_some_iff.mp hp).1] at hq
    obtain rfl := Option.some.inj hq
    exact ⟨p, hp, rfl, rfl, .inr ⟨rfl, rfl⟩⟩
  · rw [List.getElem?_set_ne hij] at hq
    exact ⟨q, hq, rfl, rfl, .inl rfl⟩

/-- Every publication is still there, with its batch and its time. -/
theorem getElem?_set_goto {phase : Phase} (hp : s.publications[i]? = some p) {q₀ : Publication}
    (hq : s.publications[j]? = some q₀) :
    ∃ q, (s.publications.set i (p.goto phase))[j]? = some q ∧ q.events = q₀.events ∧
      q.claimedAt = q₀.claimedAt := by
  by_cases hij : i = j
  · subst hij
    obtain rfl := Option.some.inj (hp.symm.trans hq)
    exact ⟨p.goto phase, List.getElem?_set_self (List.getElem?_eq_some_iff.mp hp).1, rfl, rfl⟩
  · exact ⟨q₀, (List.getElem?_set_ne hij).trans hq, rfl, rfl⟩

/-- The last claim of an event stays the last while publications go on. -/
theorem LastClaim.goes {phase : Phase} {sent : List (ℕ × Command)} (h : LastClaim s id j p')
    (hp : s.publications[i]? = some p) :
    ∃ q, LastClaim ⟨events, s.publications.set i (p.goto phase), sent⟩ id j q ∧
      q.claimedAt = p'.claimedAt := by
  obtain ⟨hj, hid, hlast⟩ := h
  have hset : ∃ q, (s.publications.set i (p.goto phase))[j]? = some q ∧ q.events = p'.events ∧
      q.claimedAt = p'.claimedAt := getElem?_set_goto hp hj
  obtain ⟨q, hq, hevents, htime⟩ := hset
  refine ⟨q, ⟨hq, ?_, fun k r hk hr => ?_⟩, htime⟩
  · unfold Publication.ids at hid ⊢
    rwa [hevents]
  · obtain ⟨r₀, hr₀, hrevents, -⟩ := of_getElem?_set hp hr
    have hnot := hlast k r₀ hk hr₀
    unfold Publication.ids at hnot ⊢
    rwa [hrevents]

/-- What the columns of a row say stays true while its row stays as it is and publications go on. -/
theorem Timed.goes {phase : Phase} {sent : List (ℕ × Command)} (h : Timed s id row)
    (hp : s.publications[i]? = some p) :
    Timed ⟨events, s.publications.set i (p.goto phase), sent⟩ id row := by
  unfold Timed at h ⊢
  split at h
  · rename_i hstate
    obtain ⟨j, q, hlast, htime⟩ := h
    have hgoes : ∃ q', LastClaim ⟨events, s.publications.set i (p.goto phase), sent⟩ id j q' ∧
        q'.claimedAt = q.claimedAt := hlast.goes hp
    obtain ⟨q', hlast', htime'⟩ := hgoes
    exact ⟨j, q', hlast', htime.trans (congrArg some htime'.symm)⟩
  · exact h
  · exact h

/-- A row that was finished carries no time. -/
theorem timed_finished (published : Bool) (error : Option String) :
    Timed s id (row.finished published error) := by
  unfold Timed TaskEvent.finished
  cases published with
  | false => rfl
  | true => rfl

/-- What is known of the batches stays known when publications go on and events follow. -/
theorem Inv.batches_goes {phase : Phase} (hinv : Inv s) (hp : s.publications[i]? = some p)
    (hfollows : ∀ id row, s.events.get id = some row →
      ∃ row', events'.get id = some row' ∧ row.Follows row')
    (hq : (s.publications.set i (p.goto phase))[j]? = some p') :
    p'.events.Pairwise (fun a b => a.1 < b.1) ∧
      ∀ e ∈ p'.events, ∃ row, events'.get e.1 = some row ∧ e.2.Same row := by
  obtain ⟨q₀, hq₀, hevents, -⟩ := of_getElem?_set hp hq
  obtain ⟨hsorted, hrows⟩ := hinv.batches j q₀ hq₀
  rw [hevents]
  refine ⟨hsorted, fun e he => ?_⟩
  obtain ⟨row, hrow, hsame⟩ := hrows e he
  obtain ⟨row', hrow', hfollows⟩ := hfollows e.1 row hrow
  exact ⟨row', hrow', hsame.trans hfollows.same⟩

/-- What has been received stays matched to the log, and nothing else counts as received. -/
theorem Inv.received_goes {phase : Phase} (hinv : Inv s) (hp : s.publications[i]? = some p)
    (hphase : ∀ results, phase ≠ .received results)
    (hq : (s.publications.set i (p.goto phase))[j]? = some p') {results : List Bool}
    (hresults : p'.phase = .received results) :
    results.length = (commands p'.events).length ∧
      ∀ (k : ℕ) (c : Command), (commands p'.events)[k]? = some c → results[k]? = some true →
        (j, c) ∈ s.sent := by
  obtain ⟨q₀, hq₀, -, -, rfl | ⟨-, hnew⟩⟩ := of_getElem?_set hp hq
  · exact hinv.received j p' results hq₀ hresults
  · exact absurd (hnew.symm.trans hresults) (hphase results)

/-- The log stays matched to the publications. -/
theorem Inv.sent_goes {phase : Phase} (hinv : Inv s) (hp : s.publications[i]? = some p)
    {entry : ℕ × Command} (hentry : entry ∈ s.sent) :
    ∃ q, (s.publications.set i (p.goto phase))[entry.1]? = some q ∧
      entry.2 ∈ commands q.events := by
  obtain ⟨q₀, hq₀, hmem⟩ := hinv.sent entry hentry
  have hset : ∃ q, (s.publications.set i (p.goto phase))[entry.1]? = some q ∧
      q.events = q₀.events ∧ q.claimedAt = q₀.claimedAt := getElem?_set_goto hp hq₀
  obtain ⟨q, hq, hevents, -⟩ := hset
  exact ⟨q, hq, hevents ▸ hmem⟩

/-- The invariant is kept by a claim. -/
theorem Inv.claimed {now claimedAt : Instant} {limit claimTimeout : ℕ} {locked : List ℕ}
    (hinv : Inv s)
    (h : claimPendingTaskEvents s.events limit claimTimeout now locked claimedAt =
      (events, batch)) :
    Inv { s with events, publications := s.publications ++ [⟨batch, claimedAt, .claimed⟩] } := by
  -- What the claim does to each row, and what its batch holds.
  have hget : ∀ id,
    (claimPendingTaskEvents s.events limit claimTimeout now locked claimedAt).1.get id
      = _ := fun id => get_claim id
  have hbatch : ∀ e ∈ (claimPendingTaskEvents s.events limit claimTimeout now locked claimedAt).2,
      ∃ row, s.events.get e.1 = some row ∧ row.claimable (now - claimTimeout) ∧
        e.2 = row.claimed claimedAt := fun e he => of_mem_batch he
  have hsorted :
    (claimPendingTaskEvents s.events limit claimTimeout now locked claimedAt).2.Pairwise
      fun a b => a.1 < b.1 := batch_sorted
  rw [h] at hbatch hsorted
  simp only [h] at hget
  constructor
  · -- The batches: an old one follows its rows, the new one holds the rows just written.
    intro i p hp
    rcases of_getElem?_concat hp with hp | ⟨-, rfl⟩
    · obtain ⟨hpsorted, hrows⟩ := hinv.batches i p hp
      refine ⟨hpsorted, fun e he => ?_⟩
      obtain ⟨row, hrow, hsame⟩ := hrows e he
      have hfollows : ∃ row', (claimPendingTaskEvents s.events limit claimTimeout now locked
          claimedAt).1.get e.1 = some row' ∧ row.Follows row' := follows_claim hrow
      rw [h] at hfollows
      obtain ⟨row', hrow', hfollows⟩ := hfollows
      exact ⟨row', hrow', hsame.trans hfollows.same⟩
    · refine ⟨hsorted, fun e he => ⟨e.2, ?_, .refl _⟩⟩
      obtain ⟨row, hrow, -, heq⟩ := hbatch e he
      rw [hget, hrow, Option.map_some, if_pos (List.mem_map_of_mem he), heq]
  · -- The answers: the new publication has none yet.
    intro i p results hp hresults
    rcases of_getElem?_concat hp with hp | ⟨-, rfl⟩
    · exact hinv.received i p results hp hresults
    · cases hresults
  · -- The stream is not touched.
    intro entry hentry
    obtain ⟨p, hp, hmem⟩ := hinv.sent entry hentry
    exact ⟨p, (List.getElem?_append_left (List.getElem?_eq_some_iff.mp hp).1).trans hp, hmem⟩
  · -- The claim times: the last claim of a row is the new one or the one before.
    intro id row' hrow'
    dsimp only at hrow'
    rw [hget] at hrow'
    obtain ⟨row, hrow, heq⟩ := Option.map_eq_some_iff.mp hrow'
    split_ifs at heq with hmem
    · -- The claim that is made here is the last one.
      subst heq
      refine ⟨s.publications.length, ⟨batch, claimedAt, .claimed⟩,
        ⟨List.getElem?_concat_length, hmem, fun k q hk hq => ?_⟩, rfl⟩
      have hlt := (List.getElem?_eq_some_iff.mp hq).1
      rw [List.length_append, List.length_singleton] at hlt
      exact absurd (Nat.lt_succ_iff.mp hlt) (not_le.mpr hk)
    · subst heq
      have htimed := hinv.timed id row hrow
      unfold Timed at htimed ⊢
      split at htimed
      · obtain ⟨j, p, ⟨hp, hid, hlast⟩, htime⟩ := htimed
        have hlt := (List.getElem?_eq_some_iff.mp hp).1
        refine ⟨j, p, ⟨(List.getElem?_append_left hlt).trans hp, hid, fun k q hk hq => ?_⟩, htime⟩
        rcases of_getElem?_concat hq with hq | ⟨-, rfl⟩
        · exact hlast k q hk hq
        · exact hmem
      · exact htimed
      · exact htimed

/-- The invariant is kept by a publication that ends. -/
theorem Inv.ended (hinv : Inv s) (hp : s.publications[i]? = some p) :
    Inv { s with publications := s.publications.set i (p.goto .returned) } where
  batches _ _ hq := hinv.batches_goes hp (fun _ row hrow => ⟨row, hrow, .refl row⟩) hq
  received _ _ _ hq := hinv.received_goes hp (by nofun) hq
  sent _ hentry := hinv.sent_goes hp hentry
  timed id row hrow := (hinv.timed id row hrow).goes hp

/-- The invariant is kept by a pipeline. -/
theorem Inv.piped {succeeded : List Bool} {error : Option String} (hinv : Inv s)
    (hp : s.publications[i]? = some p) (hlength : succeeded.length = (commands p.events).length) :
    Inv { s with
      publications := s.publications.set i (p.goto (match error with
        | some error => .raised error
        | none => .received succeeded))
      sent := s.sent ++ succeededOf i (commands p.events) succeeded } where
  batches _ _ hq := hinv.batches_goes hp (fun _ row hrow => ⟨row, hrow, .refl row⟩) hq
  received j q results hq hresults := by
    obtain ⟨q₀, hq₀, hevents, -, rfl | ⟨rfl, hphase⟩⟩ := of_getElem?_set hp hq
    · obtain ⟨hlen, hsent⟩ := hinv.received j q results hq₀ hresults
      exact ⟨hlen, fun k c hc hk => List.mem_append_left _ (hsent k c hc hk)⟩
    · obtain rfl := Option.some.inj (hp.symm.trans hq₀)
      rw [hresults] at hphase
      cases error with
      | some error => cases hphase
      | none =>
        obtain rfl := Phase.received.inj hphase
        rw [hevents]
        exact ⟨hlength, fun k c hc hk => List.mem_append_right _ (mem_succeededOf hc hk)⟩
  sent entry hentry := by
    rcases List.mem_append.mp hentry with hentry | hentry
    · exact hinv.sent_goes hp hentry
    · obtain ⟨hi, hmem⟩ := of_mem_succeededOf hentry
      rw [hi]
      exact ⟨_, List.getElem?_set_self (List.getElem?_eq_some_iff.mp hp).1, hmem⟩
  timed id row hrow := (hinv.timed id row hrow).goes hp

/-- The invariant is kept by a call of the repository. -/
theorem Inv.finished {phase next : Phase} (hinv : Inv s) (hp : s.publications[i]? = some p)
    (h : p.finish s.events = some (events, phase))
    (hnext : next = phase ∨ next = .returned) :
    Inv { s with events, publications := s.publications.set i (p.goto next) } := by
  obtain ⟨hphase, hevents⟩ := Publication.finish_spec h
  have hnot : ∀ results, next ≠ .received results := by
    rcases hnext with rfl | rfl
    · exact hphase
    · exact nofun
  constructor
  · intro j q hq
    refine hinv.batches_goes hp (fun id row hrow => ?_) hq
    rcases hevents with rfl | ⟨ids, published, error, rfl, -⟩
    · exact ⟨row, hrow, .refl row⟩
    · exact follows_finish hrow
  · exact fun j q results hq => hinv.received_goes hp hnot hq
  · exact fun entry hentry => hinv.sent_goes hp hentry
  · intro id row' hrow'
    rcases hevents with rfl | ⟨ids, published, error, rfl, -⟩
    · exact (hinv.timed id row' hrow').goes hp
    · dsimp only at hrow'
      rw [get_finish] at hrow'
      obtain ⟨row, hrow, heq⟩ := Option.map_eq_some_iff.mp hrow'
      split_ifs at heq
      · subst heq
        exact timed_finished published error
      · subst heq
        exact (hinv.timed id row hrow).goes hp

/-- The invariant is kept. -/
theorem Inv.step {a : Action} (hinv : Inv s) (h : Moves C s a s') : Inv s' := by
  have hfollows : ∀ id row, s.events.get id = some row →
      ∃ row', s'.events.get id = some row' ∧ row.Follows row' := fun _ _ hrow => h.follows hrow
  cases h with
  | appended hnew =>
    obtain ⟨hfree, hget⟩ := Table.get_of_insert hnew
    refine ⟨fun i p hp => ?_, hinv.received, hinv.sent, fun id row hrow => ?_⟩
    · obtain ⟨hsorted, hrows⟩ := hinv.batches i p hp
      refine ⟨hsorted, fun e he => ?_⟩
      obtain ⟨row, hrow, hsame⟩ := hrows e he
      obtain ⟨row', hrow', hfollows⟩ := hfollows e.1 row hrow
      exact ⟨row', hrow', hsame.trans hfollows.same⟩
    · dsimp only at hrow
      rw [hget id] at hrow
      split_ifs at hrow
      · obtain rfl := Option.some.inj hrow
        rfl
      · exact hinv.timed id row hrow
  | passed => exact hinv
  | claimed h => exact hinv.claimed h
  | sent hp hphase hlength => exact hinv.piped hp hlength
  | @finished i raises p events phase hp h =>
    refine hinv.finished hp h ?_
    cases raises with
    | false => exact .inl rfl
    | true => exact .inr rfl
  | died hp => exact hinv.ended hp

/-- The invariant holds in every run. -/
theorem inv_reachable (hr : (machine C).Reachable s) : Inv s := by
  refine hr.invariant (fun s hs => ?_) fun s a s' _ hinv hstep => hinv.step (step_moves hstep)
  obtain rfl := hs
  refine ⟨fun i p hp => ?_, fun i p results hp => ?_, fun entry hentry => ?_, fun id row hrow => ?_⟩
  · exact absurd (hp.symm.trans List.getElem?_nil) nofun
  · exact absurd (hp.symm.trans List.getElem?_nil) nofun
  · exact absurd hentry List.not_mem_nil
  · exact absurd hrow.symm (Option.some_ne_none row)

/-! ## Distinct times -/

/-- A claim has another time than every earlier claim of its events. -/
def DistinctTimes (C : Config) (s : State) : Action → Prop
  | .claim now locked claimedAt =>
    ∀ e ∈ (claimPendingTaskEvents s.events C.batchSize C.claimTimeout now locked claimedAt).2,
      ∀ p ∈ s.publications, e.1 ∈ p.ids → p.claimedAt ≠ claimedAt
  | _ => True

instance (C : Config) (s : State) (a : Action) : Decidable (DistinctTimes C s a) :=
  match a with
  | .claim now locked claimedAt => inferInstanceAs (Decidable
      (∀ e ∈ (claimPendingTaskEvents s.events C.batchSize C.claimTimeout now locked claimedAt).2,
        ∀ p ∈ s.publications, e.1 ∈ p.ids → p.claimedAt ≠ claimedAt))
  | .append .. | .pipeline .. | .finish .. | .die _ => .isTrue trivial

/-- Two claims of one event have distinct times. -/
def Distinct (s : State) : Prop :=
  ∀ (i j : ℕ) (p q : Publication) (id : ℕ), i < j → s.publications[i]? = some p →
    s.publications[j]? = some q → id ∈ p.ids → id ∈ q.ids → p.claimedAt ≠ q.claimedAt

/-- Distinct times stay distinct while publications go on. -/
theorem Distinct.goes {phase : Phase} {sent : List (ℕ × Command)} (h : Distinct s)
    (hp : s.publications[i]? = some p) :
    Distinct ⟨events, s.publications.set i (p.goto phase), sent⟩ := by
  intro j k q r id hlt hq hr hidq hidr
  obtain ⟨q₀, hq₀, hqevents, hqtime, -⟩ := of_getElem?_set hp hq
  obtain ⟨r₀, hr₀, hrevents, hrtime, -⟩ := of_getElem?_set hp hr
  unfold Publication.ids at hidq hidr
  rw [hqevents] at hidq
  rw [hrevents] at hidr
  rw [hqtime, hrtime]
  exact h j k q₀ r₀ id hlt hq₀ hr₀ hidq hidr

/-- Claims keep distinct times when each of them has a new one. -/
theorem Distinct.step {a : Action} (h : Distinct s) (hmove : Moves C s a s')
    (hnew : DistinctTimes C s a) : Distinct s' := by
  cases hmove with
  | appended => exact h
  | passed => exact h
  | @claimed now locked claimedAt events batch hclaim =>
    unfold DistinctTimes at hnew
    dsimp only at hnew
    rw [hclaim] at hnew
    intro i j p q id hlt hp hq hidp hidq
    rcases of_getElem?_concat hp with hp | ⟨rfl, rfl⟩
    · rcases of_getElem?_concat hq with hq | ⟨-, rfl⟩
      · exact h i j p q id hlt hp hq hidp hidq
      · obtain ⟨e, he, rfl⟩ := List.mem_map.mp hidq
        exact hnew e he p (List.mem_of_getElem? hp) hidp
    · have hj := (List.getElem?_eq_some_iff.mp hq).1
      rw [List.length_append, List.length_singleton] at hj
      exact absurd (Nat.lt_succ_iff.mp hj) (not_le.mpr hlt)
  | sent hp => exact h.goes hp
  | finished hp => exact h.goes hp
  | died hp => exact h.goes hp

/-- Claims have distinct times in every run in which each has a new one. -/
theorem distinct_reachable (hr : (machine C).ReachableWhen (DistinctTimes C) s) : Distinct s := by
  refine hr.invariant (fun s hs => ?_) fun s a s' _ h hnew hstep => h.step (step_moves hstep) hnew
  obtain rfl := hs
  exact fun i j p q id _ hp => absurd (hp.symm.trans List.getElem?_nil) nofun

/-- A later publication claimed the event. -/
def TakenOver (s : State) (i id : ℕ) : Prop :=
  ∃ (j : ℕ) (p : Publication), i < j ∧ s.publications[j]? = some p ∧ id ∈ p.ids

/-- An event whose claim was taken over does not carry the time of that claim. -/
theorem Inv.not_claimedAt (hinv : Inv s) (hdistinct : Distinct s) (hp : s.publications[i]? = some p)
    (hid : id ∈ p.ids) (htaken : TakenOver s i id) (hrow : s.events.get id = some row)
    (hstate : row.deliveryState = .publishing) : row.deliveryClaimedAt ≠ some p.claimedAt := by
  have htimed := hinv.timed id row hrow
  unfold Timed at htimed
  rw [hstate] at htimed
  obtain ⟨j, q, ⟨hq, hidq, hlast⟩, htime⟩ := htimed
  obtain ⟨k, r, hlt, hr, hidr⟩ := htaken
  -- The last claim is not before the one that took over.
  have hle : k ≤ j := not_lt.mp fun hjk => hlast k r hjk hr hidr
  intro heq
  have htimes : q.claimedAt = p.claimedAt := Option.some.inj (htime.symm.trans heq)
  exact hdistinct i j p q id (hlt.trans_le hle) hp hq hid hidq htimes.symm

/-! ## The guarantees -/

/-- Along every run events are kept, and published ones stay as they are. -/
theorem leads_follows (hl : (machine C).Leads s s') (hrow : s.events.get id = some row) :
    ∃ row', s'.events.get id = some row' ∧ row.Follows row' := by
  induction hl with
  | refl => exact ⟨row, hrow, .refl row⟩
  | tail _ hs ih =>
    obtain ⟨a, hstep⟩ := hs
    obtain ⟨mid, hmid, hfollows⟩ := ih
    obtain ⟨row', hrow', hfollows'⟩ := (step_moves hstep).follows hmid
    exact ⟨row', hrow', hfollows.trans hfollows'⟩

/-- An event is pending, or is being published by a claim that carries a time, or is published. -/
theorem Inv.states (hinv : Inv s) (hrow : s.events.get id = some row) :
    row.deliveryState = .pending ∨
      (row.deliveryState = .publishing ∧ ∃ claimedAt, row.deliveryClaimedAt = some claimedAt) ∨
      row.deliveryState = .published := by
  have htimed := hinv.timed id row hrow
  unfold Timed at htimed
  split at htimed
  · rename_i hstate
    obtain ⟨_, p, -, htime⟩ := htimed
    exact .inr (.inl ⟨hstate, p.claimedAt, htime⟩)
  · rename_i hstate
    exact .inl hstate
  · rename_i hstate
    exact .inr (.inr hstate)

/-- The results of a pipeline are matched to its events without a gap. -/
theorem Inv.matched (hinv : Inv s) (hp : s.publications[i]? = some p)
    (hphase : p.phase = .received results) :
    ∃ os, outcomes p.events results = some os ∧ os.map Prod.fst = p.ids :=
  outcomes_total (hinv.received i p results hp hphase).1

/-- The events that a publication finishes as published have both of their commands in the log. -/
theorem Inv.published_sent {os : List (ℕ × Bool)} (hinv : Inv s) (hp : s.publications[i]? = some p)
    (hphase : p.phase = .received results) (hos : outcomes p.events results = some os)
    (hid : id ∈ idsOf os true) (hrow : s.events.get id = some row) :
    id ∈ p.ids ∧ (i, xadd (id, row)) ∈ s.sent ∧
      ∃ eventId, (i, Command.publish row.taskId eventId) ∈ s.sent := by
  obtain ⟨⟨_, b⟩, hmem, rfl⟩ := List.mem_map.mp hid
  obtain ⟨hos', hb⟩ := List.mem_filter.mp hmem
  obtain rfl : b = true := of_decide_eq_true hb
  obtain ⟨k, e, index, eventId, he, heid, hstream, hlast, hpublish⟩ := outcomes_spec hos hos'
  dsimp only at heid hrow ⊢
  subst heid
  obtain ⟨row₀, hrow₀, hsame⟩ := (hinv.batches i p hp).2 e (List.mem_of_getElem? he)
  obtain rfl := Option.some.inj (hrow₀.symm.trans hrow)
  obtain ⟨-, hsent⟩ := hinv.received i p results hp hphase
  have hxadd : xadd (e.1, row₀) = xadd e := by
    unfold xadd
    rw [hsame.taskId, hsame.eventType, hsame.payload]
  refine ⟨List.mem_map_of_mem (List.mem_of_getElem? he), ?_, eventId, ?_⟩
  · rw [hxadd]
    exact hsent k _ (commands_xadd he) hstream
  · rw [hsame.taskId]
    exact hsent _ _ (commands_publish hlast) hpublish

/-- A step that publishes an event is a finish of the publication that sent both of its commands,
and that holds its claim. -/
theorem Inv.published_by {a : Action} (hinv : Inv s) (h : Moves C s a s')
    (hrow : s.events.get id = some row) (hbefore : row.deliveryState ≠ .published)
    (hrow' : s'.events.get id = some row') (hafter : row'.deliveryState = .published) :
    ∃ i raises p, a = .finish i raises ∧ s.publications[i]? = some p ∧ id ∈ p.ids ∧
      row.deliveryState = .publishing ∧ row.deliveryClaimedAt = some p.claimedAt ∧
      (i, xadd (id, row)) ∈ s.sent ∧ ∃ eventId,
      (i, Command.publish row.taskId eventId) ∈ s.sent := by
  -- A row that is left alone cannot have become published.
  have hunchanged : s'.events.get id = some row → False := fun hsame => by
    obtain rfl := Option.some.inj (hsame.symm.trans hrow')
    exact hbefore hafter
  cases h with
  | appended hnew =>
    obtain ⟨hfree, hget⟩ := Table.get_of_insert hnew
    refine (hunchanged ?_).elim
    dsimp only
    rw [hget id]
    refine (if_neg ?_).trans hrow
    rintro rfl
    exact absurd (hfree.symm.trans hrow) nofun
  | passed => exact (hunchanged hrow).elim
  | @claimed now locked claimedAt events batch hclaim =>
    have hget : (claimPendingTaskEvents s.events C.batchSize C.claimTimeout now locked
        claimedAt).1.get id = _ := get_claim id
    rw [hclaim] at hget
    dsimp only at hrow'
    rw [hget, hrow, Option.map_some] at hrow'
    obtain rfl := Option.some.inj hrow'
    split_ifs at hafter
    · cases hafter
    · exact absurd hafter hbefore
  | sent => exact (hunchanged hrow).elim
  | @finished i raises p events phase hp hfinish =>
    rcases (Publication.finish_spec hfinish).2 with rfl | ⟨ids, published, error, rfl, hpublished⟩
    · exact (hunchanged hrow).elim
    · -- The batch is finished: its own rows are published, if it still holds their claim.
      dsimp only at hrow'
      rw [get_finish, hrow, Option.map_some] at hrow'
      obtain rfl := Option.some.inj hrow'
      split_ifs at hafter with hclaimed
      · obtain ⟨hid, hstate, htime⟩ := hclaimed
        cases published with
        | false => cases hafter
        | true =>
          obtain ⟨results, os, hphase, hos, rfl⟩ := hpublished rfl
          obtain ⟨hids, hxadd, hpublish⟩ := hinv.published_sent hp hphase hos hid hrow
          exact ⟨i, raises, p, rfl, hp, hids, hstate, htime, hxadd, hpublish⟩
      · exact absurd hafter hbefore
  | died => exact (hunchanged hrow).elim

/-- A finish by a claim that was taken over leaves the event as it is. -/
theorem Inv.finish_refused (hinv : Inv s) (hdistinct : Distinct s)
    (hp : s.publications[i]? = some p)
    (hid : id ∈ p.ids) (htaken : TakenOver s i id) (ids : List ℕ) (published : Bool)
    (error : Option String) :
    (finishTaskEventPublications s.events ids p.claimedAt published error).get id =
      s.events.get id := by
  rw [get_finish]
  cases hrow : s.events.get id with
  | none => rfl
  | some row =>
    rw [Option.map_some, if_neg]
    rintro ⟨-, hstate, htime⟩
    exact hinv.not_claimedAt hdistinct hp hid htaken hrow hstate htime

/-- **The outbox of product events.** In every run, events are never dropped: each stays the same
event, is pending, being published under a time, or published, and once published stays as it is. An
event becomes published only in a finish of the publication that holds its claim and whose `XADD` of
the event and `PUBLISH` for its Task have both succeeded. A finish by a claim that was taken over
changes nothing, when the claims of an event have distinct times. The `PUBLISH` of a Task carries
the largest `id` of its events in the batch, nothing but the commands of a batch is sent, and the
results of a pipeline give every event of its batch an outcome. -/
theorem publication_sound (C : Config) :
    (∀ (s s' : State) (id : ℕ) (row : TaskEvent), (machine C).Reachable s → (machine C).Leads s s' →
      s.events.get id = some row → ∃ row', s'.events.get id = some row' ∧ row.Same row' ∧
        (row.deliveryState = .published → row' = row) ∧
        (row'.deliveryState = .pending ∨
          (row'.deliveryState = .publishing ∧
          ∃ claimedAt, row'.deliveryClaimedAt = some claimedAt) ∨
          row'.deliveryState = .published)) ∧
    (∀ (s : State) (a : Action) (s' : State) (id : ℕ) (row row' : TaskEvent),
      (machine C).Reachable s → step C s a = some s' → s.events.get id = some row →
      row.deliveryState ≠ .published → s'.events.get id = some row' →
      row'.deliveryState = .published →
      ∃ i raises p, a = .finish i raises ∧ s.publications[i]? = some p ∧ id ∈ p.ids ∧
        row.deliveryState = .publishing ∧ row.deliveryClaimedAt = some p.claimedAt ∧
        (i, xadd (id, row)) ∈ s.sent ∧ ∃ eventId,
        (i, Command.publish row.taskId eventId) ∈ s.sent) ∧
    (∀ (s : State) (i : ℕ) (p : Publication) (id : ℕ),
      (machine C).ReachableWhen (DistinctTimes C) s → s.publications[i]? = some p → id ∈ p.ids →
      TakenOver s i id → ∀ ids published error,
        (finishTaskEventPublications s.events ids p.claimedAt published error).get id =
          s.events.get id) ∧
    ∀ s : State, (machine C).Reachable s →
      (∀ entry ∈ s.sent, ∃ p, s.publications[entry.1]? = some p ∧ entry.2 ∈ commands p.events) ∧
      (∀ (i : ℕ) (p : Publication) (results : List Bool), s.publications[i]? = some p →
        p.phase = .received results →
        ∃ os, outcomes p.events results = some os ∧ os.map Prod.fst = p.ids) ∧
      ∀ (i : ℕ) (p : Publication), s.publications[i]? = some p → ∀ (taskId : Uuid) (eventId : ℕ),
        Command.publish taskId eventId ∈ commands p.events ↔
          (∃ e ∈ p.events, e.1 = eventId ∧ e.2.taskId = taskId) ∧
            ∀ e ∈ p.events, e.2.taskId = taskId → e.1 ≤ eventId := by
  refine ⟨?_, ?_, ?_, ?_⟩
  · intro s s' id row hr hl hrow
    obtain ⟨row', hrow', hfollows⟩ := leads_follows hl hrow
    exact ⟨row', hrow', hfollows.same, hfollows.absorbed,
      (inv_reachable (hr.leads hl)).states hrow'⟩
  · intro s a s' id row row' hr hstep hrow hbefore hrow' hafter
    exact (inv_reachable hr).published_by (step_moves hstep) hrow hbefore hrow' hafter
  · intro s i p id hr hp hid htaken
    exact (inv_reachable hr.reachable).finish_refused (distinct_reachable hr) hp hid htaken
  · intro s hr
    have hinv := inv_reachable hr
    exact ⟨hinv.sent, fun i p results hp hphase => hinv.matched hp hphase,
      fun i p hp taskId eventId => publish_mem_commands (hinv.batches i p hp).1⟩

namespace Sample

/-- Batches of ten, and claims that are stale after five microseconds. -/
def config : Config := ⟨10, 5⟩

/-- A payload. -/
def payload : Dict := ⟨[], Dict.sorted_nil⟩

/-- Two events of Task 7 are claimed. The first pipeline loses its replies, and at time 20 a second
publisher claims both events again. -/
def takeover : List Action :=
  [.append 1 7 "TASK_STARTED" payload, .append 2 7 "TASK_COMPLETED" payload, .claim 0 [] 1,
    .pipeline 0 [true, true, true] (some "timeout"), .claim 20 [] 21]

/-- The claims of the run have distinct times. -/
theorem takeover_distinct : ∃ s, (machine config).ReachableWhen (DistinctTimes config) s ∧
    s.publications.map (fun p => (p.ids, p.claimedAt)) = [([1, 2], 1), ([1, 2], 21)] ∧
    (s.events.get 1).bind TaskEvent.deliveryClaimedAt = some 21 := by
  have hrun :
    (((machine config).runIf (DistinctTimes config) ⟨.empty, [], []⟩ takeover).any fun s =>
      s.publications.map (fun p => (p.ids, p.claimedAt)) = [([1, 2], 1), ([1, 2], 21)] ∧
        (s.events.get 1).bind TaskEvent.deliveryClaimedAt = some 21) = true := by
    decide +kernel
  obtain ⟨s, hs, hfinal⟩ := (Option.any_eq_true _ _).mp hrun
  exact ⟨s, Machine.ReachableWhen.runIf (.start rfl) hs, of_decide_eq_true hfinal⟩

end Sample

/-- In that run the first publication, whose pipeline has raised, does not put the event back. -/
theorem publication_sound_taken_over :
    ∃ s, (machine Sample.config).ReachableWhen (DistinctTimes Sample.config) s ∧
      ∃ p, s.publications[0]? = some p ∧ p.ids = [1, 2] ∧ p.claimedAt = 1 ∧
        ((finishTaskEventPublications s.events p.ids p.claimedAt false (some "timeout")).get 1).bind
          TaskEvent.deliveryClaimedAt = some 21 := by
  obtain ⟨s, hs, hpublications, htime⟩ := Sample.takeover_distinct
  obtain ⟨p, rest, hlist, hp, hrest⟩ := List.map_eq_cons_iff.mp hpublications
  obtain ⟨q, qs, hsecond, hq, -⟩ := List.map_eq_cons_iff.mp hrest
  rw [hsecond] at hlist
  obtain ⟨hids, hclaimed⟩ := Prod.mk.inj hp
  obtain ⟨hids', -⟩ := Prod.mk.inj hq
  refine ⟨s, hs, p, by simp [hlist], hids, hclaimed, ?_⟩
  rw [(publication_sound Sample.config).2.2.1 s 0 p 1 hs (by simp [hlist]) (by simp [hids])
    ⟨1, q, one_pos, by simp [hlist], by simp [hids']⟩]
  exact htime

end ExAgent.Transport.ProductEvents
