import ExAgent.Stores.Admission

/-!
# A finished cleanup leaves no live request

What holds when only `RequestStore` and `FailureStore` write. `accept` looks for a cleanup before it
locks the Task, so it can miss one; what keeps it from leaving a live request behind is the lock of
the Task. The commit of `finish` compensates every active request of the Task and makes the Task
terminal under this lock, and an input for an existing Task is inserted under it too, for a Task
that is not terminal.
-/

namespace ExAgent.Stores

open Lib ExAgent.Graph
open Session (ApiRequest RequestState)

/-- The Task is terminal and has no request that is `PENDING`, `RUNNING` or `BLOCKED`. -/
def Settled (db : Db) (taskId : Uuid) : Prop :=
  (∃ task, db.tasks.get taskId = some task ∧ task.status.isTerminal = true) ∧
    ∀ id row, db.requests.get id = some row → row.taskId = taskId → row.state.isActive = false

/-- The cleanup of the Task is `DONE`. -/
def IsDone (db : Db) (taskId : Uuid) : Prop :=
  ∃ row, db.cleanups.get taskId = some row ∧ row.state = .done

/-- The Task has this status and this terminal message. -/
def HasResult (db : Db) (taskId : Uuid) (status : TaskStatus) (message : Option String) : Prop :=
  ∃ task, db.tasks.get taskId = some task ∧ task.status = status ∧ task.terminalMessage = message

section Commits

variable {S : Settings} {op : Op} {held : List RowKey} {result : Result} {db db' : Db}

/-- The status that a cleanup gives its Task is terminal. -/
def FinalStatuses (db : Db) : Prop :=
  ∀ id row, db.cleanups.get id = some row → row.finalStatus.isTerminal = true

/-- The calls that write one cleanup neither finish it nor touch its final status. -/
theorem CleanupChange.unfinished {id : Uuid} {row row' : CleanupRow}
    (h : CleanupChange op id result row row') :
    row.state ≠ .done ∧ row'.state ≠ .done ∧ row'.finalStatus = row.finalStatus := by
  cases h with
  | claim hstate =>
    unfold FailureStore.claimed
    split_ifs <;> simp [CleanupRow.touch, hstate]
  | deferBusy hstate => simp [hstate]
  | retry hstate hversion => simp [FailureStore.retried, hstate]
  | confirm hproof hstate hattempts hrow' => simp [hrow', CleanupRow.touch, hstate]
  | @defer _ _ _ _ _ _ blocked hstate hattempts => cases blocked <;> simp [hstate]

/-- A commit keeps the final statuses. -/
theorem Commit.finalStatuses (h : Commit S op held result db db') (hf : FinalStatuses db) :
    FinalStatuses db' := by
  intro id row' hrow'
  cases h.cleanup_fate id with
  | same hsame => exact hf id row' (hsame ▸ hrow')
  | opened hop hnone htask hnew hrow =>
    obtain rfl := Option.some.inj (hrow'.symm.trans hnew)
    rw [hrow]
    simp only [FailureStore.opened]
    split
    · assumption
    · rfl
  | changed hrow hnew hchange =>
    obtain rfl := Option.some.inj (hrow'.symm.trans hnew)
    rw [hchange.unfinished.2.2]
    exact hf id _ hrow
  | bound hop hid hrow hstate hattempts hfor hnew =>
    obtain rfl := Option.some.inj (hrow'.symm.trans hnew)
    have hterminal := hf id _ hrow
    exact hterminal
  | finished hop hid hrow hstate hattempts hnew =>
    obtain rfl := Option.some.inj (hrow'.symm.trans hnew)
    have hterminal := hf id _ hrow
    exact hterminal

/-- A cleanup does not leave `DONE`. -/
theorem Commit.done (h : Commit S op held result db db') {taskId : Uuid} (hd : IsDone db taskId) :
    IsDone db' taskId := by
  obtain ⟨row, hrow, hdone⟩ := hd
  cases h.cleanup_fate taskId with
  | same hsame => exact ⟨row, hsame.trans hrow, hdone⟩
  | opened hop hnone htask hnew hrow₁ =>
    rw [hrow] at hnone
    cases hnone
  | changed hrow₁ hnew hchange =>
    obtain rfl := Option.some.inj (hrow.symm.trans hrow₁)
    exact absurd hdone hchange.unfinished.1
  | bound hop hid hrow₁ hstate hattempts hfor hnew =>
    obtain rfl := Option.some.inj (hrow.symm.trans hrow₁)
    rw [hdone] at hstate
    cases hstate
  | finished hop hid hrow₁ hstate hattempts hnew => exact ⟨_, hnew, rfl⟩

/-- The two stores do not change the result of a terminal Task. -/
theorem Commit.hasResult (h : Commit S op held result db db') (hop : op.isOfStores = true)
    {taskId : Uuid} {status : TaskStatus} {message : Option String}
    (hterminal : status.isTerminal = true) (hr : HasResult db taskId status message) :
    HasResult db' taskId status message := by
  obtain ⟨task, htask, hs, hm⟩ := hr
  cases h.task_fate taskId with
  | same hsame => exact ⟨task, hsame.trans htask, hs, hm⟩
  | started hnone hnew =>
    rw [htask] at hnone
    cases hnone
  | bound htask₁ hnew =>
    obtain rfl := Option.some.inj (htask.symm.trans htask₁)
    exact ⟨_, hnew, hs, hm⟩
  | settled hop hid hrow htask₁ hopen hnew =>
    obtain rfl := Option.some.inj (htask.symm.trans htask₁)
    rw [hs, hterminal] at hopen
    cases hopen
  | changed htask₁ hnew hchange => cases hchange <;> cases hop

/-- A terminal Task gets no active request. -/
theorem Commit.inactive (h : Commit S op held result db db') {taskId : Uuid} {task : TaskRow}
    (htask : db.tasks.get taskId = some task) (hterminal : task.status.isTerminal = true)
    (hin : ∀ id row, db.requests.get id = some row → row.taskId = taskId →
      row.state.isActive = false) :
    ∀ id row, db'.requests.get id = some row → row.taskId = taskId →
      row.state.isActive = false := by
  intro id row' hrow' ht
  rw [Bool.eq_false_iff]
  intro ha
  cases h.request_fate id with
  | same hsame =>
    have := hin id row' (hsame ▸ hrow') ht
    simp [this] at ha
  | admitted hop hid hnone hidle hnew haccept =>
    obtain rfl := Option.some.inj (hrow'.symm.trans hnew)
    replace ht : _ = taskId := ht
    simp only [RequestStore.admitted] at ht
    rw [ht, htask] at haccept
    rcases haccept with hnone | ⟨-, task', htask', hopen⟩
    · cases hnone
    · obtain rfl := Option.some.inj htask'
      simp [hterminal] at hopen
  | changed hop hrow hnew hchange =>
    obtain rfl := Option.some.inj (hrow'.symm.trans hnew)
    have := hin id _ hrow (hchange.active.1 ▸ ht)
    simp [hchange.active.2 ha] at this
  | compensated hop hrow htask' hactive hnew =>
    obtain rfl := Option.some.inj (hrow'.symm.trans hnew)
    simp [RequestState.isActive] at ha

/-- A cleanup that becomes `DONE` settles its Task. -/
theorem Commit.settles (h : Commit S op held result db db') (hf : FinalStatuses db) {taskId : Uuid}
    (hbefore : ¬ IsDone db taskId) (hafter : IsDone db' taskId) : Settled db' taskId := by
  obtain ⟨row', hrow', hdone⟩ := hafter
  -- Only `finish` of this cleanup writes the state.
  have hfinish : ∃ claim record, op = .fenced claim record .finish ∧ taskId = record.taskId := by
    cases h.cleanup_fate taskId with
    | same hsame => exact absurd ⟨row', hsame ▸ hrow', hdone⟩ hbefore
    | opened hop hnone htask hnew hrow =>
      obtain rfl := Option.some.inj (hrow'.symm.trans hnew)
      rw [hrow] at hdone
      cases hdone
    | changed hrow hnew hchange =>
      obtain rfl := Option.some.inj (hrow'.symm.trans hnew)
      exact absurd hdone hchange.unfinished.2.1
    | bound hop hid hrow hstate hattempts hfor hnew =>
      obtain rfl := Option.some.inj (hrow'.symm.trans hnew)
      rw [CleanupRow.touch, hstate] at hdone
      cases hdone
    | finished hop hid hrow hstate hattempts hnew => exact ⟨_, _, hop, hid⟩
  obtain ⟨claim, record, rfl, rfl⟩ := hfinish
  cases h with
  | request hid hheld hrow hchange => cases hid
  | cleanup hheld hrow hchange => cases hchange
  | task hheld htask hchange hlocks => cases hchange
  | @finish _ _ _ _ row r' task ids sessionIds hheld hproof hrow hstate hattempts htask hsame hids
      hlocks hr' =>
    constructor
    · show ∃ t, (FailureStore.settle record.taskId row task db).tasks.get record.taskId = some t ∧ _
      rw [settle_tasks]
      split
      · rename_i hterminal
        exact ⟨task, htask, hterminal⟩
      · exact ⟨FailureStore.settledTask row task, by simp [htask], hf record.taskId row hrow⟩
    · intro id req hreq ht
      have hget :
        (FailureStore.settle record.taskId row task db |>.compensate ids).requests.get id =
          some req := hreq
      simp only [Db.compensate, settle_requests, Table.get_modify, Option.map_eq_some_iff] at hget
      obtain ⟨req₀, hreq₀, hreq₁⟩ := hget
      by_cases hi : id ∈ ids
      · rw [if_pos hi] at hreq₁
        rw [← hreq₁]
        rfl
      · rw [if_neg hi] at hreq₁
        subst hreq₁
        rw [Bool.eq_false_iff]
        exact fun ha => hi ((hids.2 id).mpr ⟨req₀, hreq₀, ht, ha⟩)

end Commits

/-! ## Runs -/

/-- What holds of a finished cleanup in a state of the two stores and of the runs from there. -/
structure FinishedGuarantee (S : Settings) (s : State) (taskId : Uuid) : Prop where
  /-- The Task is terminal and has no live request. -/
  settled : Settled s.db taskId
  /-- The cleanup stays `DONE` and the Task settled. -/
  stays : ∀ s', (twoStores S).Leads s s' → IsDone s'.db taskId ∧ Settled s'.db taskId
  /-- The status and the terminal message of the Task stay as they are. -/
  result : ∀ s', (twoStores S).Leads s s' → ∀ status message,
    HasResult s.db taskId status message → HasResult s'.db taskId status message

/-- In every run of the two stores a finished cleanup has settled its Task. -/
theorem settled_reachable {S : Settings} {s : State} (hr : (twoStores S).Reachable s) :
    FinalStatuses s.db ∧ ∀ taskId, IsDone s.db taskId → Settled s.db taskId := by
  refine commits_invariant (I := fun db _ => FinalStatuses db ∧
    ∀ taskId, IsDone db taskId → Settled db taskId) ?_ ?_ hr
  · rintro db ⟨-, hcl⟩
    refine ⟨fun id row hrow => ?_, ?_⟩
    · simp [hcl] at hrow
    · rintro taskId ⟨row, hrow, -⟩
      simp [hcl] at hrow
  · rintro e held db db' history ⟨hf, hset⟩ ⟨_, hop⟩ h
    rw [Bool.and_eq_true] at hop
    refine ⟨h.finalStatuses hf, ?_⟩
    rintro taskId ⟨row', hrow', hdone⟩
    by_cases hbefore : IsDone db taskId
    · obtain ⟨⟨task, htask, hterminal⟩, hin⟩ := hset taskId hbefore
      obtain ⟨task', htask', hs, -⟩ := h.hasResult hop.1 hterminal ⟨task, htask, rfl, rfl⟩
      exact ⟨⟨task', htask', hs ▸ hterminal⟩, h.inactive htask hterminal hin⟩
    · exact h.settles hf hbefore ⟨row', hrow', hdone⟩

/-- A finished cleanup in every run of the two stores. -/
theorem finished_guarantee (S : Settings) {s : State} (hr : (twoStores S).Reachable s)
    {taskId : Uuid} (hdone : IsDone s.db taskId) : FinishedGuarantee S s taskId where
  settled := (settled_reachable hr).2 taskId hdone
  stays s' hl := by
    have hdone' : IsDone s'.db taskId :=
      commits_stable (P := fun db => IsDone db taskId)
        (fun _ _ _ _ _ hd _ h => h.done hd) hr hl hdone
    exact ⟨hdone', (settled_reachable (hr.leads hl)).2 taskId hdone'⟩
  result s' hl status message hres := by
    obtain ⟨⟨task, htask, hterminal⟩, -⟩ := (settled_reachable hr).2 taskId hdone
    have hstatus : status.isTerminal = true := by
      obtain ⟨task', htask', hs, -⟩ := hres
      obtain rfl := Option.some.inj (htask.symm.trans htask')
      exact hs ▸ hterminal
    refine commits_stable (P := fun db => HasResult db taskId status message) ?_ hr hl hres
    rintro op held result db db' hres ⟨_, hop⟩ h
    rw [Bool.and_eq_true] at hop
    exact h.hasResult hop.1 hstatus hres

/-- The cleanup of Task 7 is finished. -/
theorem finished_guarantee_sample :
    FinishedGuarantee Sample.settings
      (Sample.after (twoStores Sample.settings) Sample.finished) 7 :=
  finished_guarantee Sample.settings (Sample.after_reachable rfl) ⟨_, rfl, rfl⟩

end ExAgent.Stores
