import ExAgent.Plans.Repository

/-!
# `PlanRepository.persist` is serial

The calls of a Task take turns at its row, and the commits for other Tasks touch neither its plan
nor its revisions. So what a call has read under the row of its Task is still true when it decides,
and it ends as it would have, run alone.
-/

namespace ExAgent.Plans

open Lib ExAgent.Graph

variable {D : Deployment} {op : Persist} {w w' : World} {taskId : Uuid} {number : ℕ}

/-! ## Revisions by their number -/

/-- The revision found under a number has it. -/
theorem revisionAt_some {id : Uuid} {r : Revision} (h : w.revisionAt taskId number = some (id, r)) :
    w.revisions.get id = some r ∧ r.taskId = taskId ∧ r.revisionNumber = number := by
  have hmem := List.mem_of_find?_eq_some h
  have hkey := List.find?_some h
  simp only [decide_eq_true_eq] at hkey
  exact ⟨Table.mem_entries_iff.mp hmem, hkey⟩

/-- A number without a revision is no revision's number. -/
theorem revisionAt_none (h : w.revisionAt taskId number = none) {id : Uuid} {r : Revision}
    (hr : w.revisions.get id = some r) : ¬(r.taskId = taskId ∧ r.revisionNumber = number) := by
  have hnone := List.find?_eq_none.mp h (id, r) (Table.mem_entries_iff.mpr hr)
  simpa using hnone

/-! ## What the writes do -/

/-- `w'` is `w` with the next revision of a plan. -/
structure Stored (D : Deployment) (op : Persist) (plan : Option PlanRow) (steps : List PlanStep)
    (w w' : World) : Prop where
  tasks : w'.tasks = w.tasks
  plans : ∀ t, w'.plans.get t = if t = op.taskId then some (nextPlan op plan) else w.plans.get t
  /-- The id of a new plan is new. -/
  planId : plan = none → ∀ t p, w.plans.get t = some p → p.id ≠ op.newPlanId
  fresh : w.revisions.get op.newRevisionId = none
  free : w.revisionAt op.taskId (nextPlan op plan).currentRevision = none
  stepped : (steps.map PlanStep.sequence).Nodup
  revisions : w'.revisions.entries =
    w.revisions.entries ++ [(op.newRevisionId, nextRevision D op (nextPlan op plan) steps)]

/-- A revision that was stored is among the others. -/
theorem Stored.get {plan : Option PlanRow} {steps : List PlanStep} (h : Stored D op plan steps w w')
    (id : Uuid) : w'.revisions.get id =
      if id = op.newRevisionId then some (nextRevision D op (nextPlan op plan) steps)
      else w.revisions.get id := by
  obtain ⟨t, ht⟩ := Table.insert_of_get_none h.fresh (nextRevision D op (nextPlan op plan) steps)
  have hentries : w'.revisions.get id = t.get id := by
    unfold Table.get
    rw [h.revisions, Table.entries_of_insert ht]
  rw [hentries, (Table.get_of_insert ht).2]

/-- The numbers of other Tasks stay as they are. -/
theorem Stored.numbers {plan : Option PlanRow} {steps : List PlanStep}
    (h : Stored D op plan steps w w') (hne : taskId ≠ op.taskId) :
    w'.revisionAt taskId number = w.revisionAt taskId number := by
  unfold World.revisionAt
  rw [h.revisions, List.find?_append]
  have hnew : List.find? (fun e : Uuid × Revision => e.2.taskId = taskId ∧
    e.2.revisionNumber = number)
      [(op.newRevisionId, nextRevision D op (nextPlan op plan) steps)] = none := by
    rw [List.find?_eq_none]
    intro e he
    obtain rfl := List.mem_singleton.mp he
    have : op.taskId ≠ taskId := Ne.symm hne
    simp [nextRevision, this]
  rw [hnew, Option.or_none]

/-- An insert needs a number and Steps that are not taken, and adds its row only. -/
theorem insertRevision_spec {id : Uuid} {r : Revision} (h : insertRevision w id r = some w') :
    w.revisionAt r.taskId r.revisionNumber = none ∧ (r.steps.map PlanStep.sequence).Nodup ∧
      w.revisions.get id = none ∧ w'.revisions.entries = w.revisions.entries ++ [(id, r)] ∧
      w'.tasks = w.tasks ∧ w'.plans = w.plans := by
  unfold insertRevision at h
  split_ifs at h with hfree hnodup
  obtain ⟨revisions, hi, rfl⟩ := Option.map_eq_some_iff.mp h
  refine ⟨?_, hnodup, (Table.get_of_insert hi).1, Table.entries_of_insert hi, rfl, rfl⟩
  simpa using hfree

/-- The writes of a call that knows the plan of its Task. -/
theorem written_spec {plan : Option PlanRow} {steps : List PlanStep}
    (hplan : w.plans.get op.taskId = plan) (h : written D op plan steps w = some w') :
    Stored D op plan steps w w' := by
  obtain ⟨w₁, hw₁, h⟩ := Option.bind_eq_some_iff.mp h
  obtain ⟨hfree, hstepped, hfresh, hentries, htasks, hplans⟩ := insertRevision_spec h
  have hplanned : w₁.tasks = w.tasks ∧ w₁.revisions = w.revisions ∧
      (∀ t, w₁.plans.get t = if t = op.taskId then some (nextPlan op plan) else w.plans.get t) ∧
      (plan = none → ∀ t p, w.plans.get t = some p → p.id ≠ op.newPlanId) := by
    cases plan with
    | none =>
      dsimp only at hw₁
      unfold insertPlan at hw₁
      split_ifs at hw₁ with hid
      obtain ⟨plans, hi, rfl⟩ := Option.map_eq_some_iff.mp hw₁
      refine ⟨rfl, rfl, (Table.get_of_insert hi).2, fun _ t p hp hpid => hid ?_⟩
      exact List.any_eq_true.mpr ⟨(t, p), Table.mem_entries_iff.mpr hp, decide_eq_true hpid⟩
    | some p =>
      obtain rfl := Option.some.inj hw₁
      refine ⟨rfl, rfl, fun t => ?_, nofun⟩
      refine (Table.get_modifyAt _ _ _ _).trans ?_
      by_cases ht : t = op.taskId
      · rw [if_pos ht, if_pos ht, ht, hplan]
        rfl
      · rw [if_neg ht, if_neg ht]
  obtain ⟨htasks₁, hrevisions₁, hplans₁, hplanId⟩ := hplanned
  have hat : w₁.revisionAt op.taskId (nextPlan op plan).currentRevision =
      w.revisionAt op.taskId (nextPlan op plan).currentRevision := by
    unfold World.revisionAt
    rw [hrevisions₁]
  exact ⟨htasks.trans htasks₁, fun t => by rw [hplans, hplans₁], hplanId, hrevisions₁ ▸ hfresh,
    hat ▸ hfree, hstepped, by rw [hentries, hrevisions₁]⟩

/-! ## The contract -/

/-- What a commit for a Task does to the others: nothing; and to the revisions that are there. It
holds the row of its Task, and that of the plan if there is one. -/
structure Advanced (op : Persist) (held : List RowKey) (w w' : World) : Prop where
  task : .task op.taskId ∈ held
  plan : ∀ p, w.plans.get op.taskId = some p → .plan op.taskId ∈ held
  tasks : w'.tasks = w.tasks
  plans : ∀ t, t ≠ op.taskId → w'.plans.get t = w.plans.get t
  numbers : ∀ t n, t ≠ op.taskId → w'.revisionAt t n = w.revisionAt t n
  revisions : ∀ id r, w.revisions.get id = some r → w'.revisions.get id = some r
  fresh : w.revisions.get op.newRevisionId = none
  stored : ∃ r, w'.revisions.get op.newRevisionId = some r

/-- The contracts of the calls. -/
def own (op : Persist) (held : List RowKey) (a : Result) (w w' : World) : Prop :=
  Advanced op held w w' ∧ ∃ p, a = .ok p

/-- A stored revision is an advance of the plan, where the rows it changed are locked. -/
theorem Stored.advanced {plan : Option PlanRow} {steps : List PlanStep} {held : List RowKey}
    (h : Stored D op plan steps w w') (htask : .task op.taskId ∈ held)
    (hplan : ∀ p, w.plans.get op.taskId = some p → .plan op.taskId ∈ held) :
    Advanced op held w w' where
  task := htask
  plan := hplan
  tasks := h.tasks
  plans t ht := by rw [h.plans, if_neg ht]
  numbers _ _ ht := h.numbers ht
  revisions id r hr := by
    have hne : id ≠ op.newRevisionId := by
      rintro rfl
      exact absurd (hr.symm.trans h.fresh) (by simp)
    rw [h.get, if_neg hne, hr]
  fresh := h.fresh
  stored := ⟨_, (h.get op.newRevisionId).trans (if_pos rfl)⟩

/-- Other transactions leave the rows a lock covers. -/
theorem frames : Txn.Frames row (relyOn own) := by
  rintro held w w' ⟨op, _, h, -⟩ k hk r hr
  cases k with
  | task id =>
    unfold row at hr ⊢
    rw [h.tasks]
    exact hr
  | plan taskId =>
    unfold row at hr ⊢
    have hne : taskId ≠ op.taskId := by
      rintro rfl
      obtain ⟨p, hp, -⟩ := Option.map_eq_some_iff.mp hr
      exact hk (h.plan p hp)
    dsimp only at hr ⊢
    rw [h.plans taskId hne]
    exact hr

/-- What is known of the rows that are looked up for a Task is kept as long as its row is held. -/
theorem stable_of_task {held : List RowKey} {P : World → Prop} (hheld : .task taskId ∈ held)
    (hP : ∀ w w', P w → w'.tasks = w.tasks → w'.plans.get taskId = w.plans.get taskId →
      (∀ n, w'.revisionAt taskId n = w.revisionAt taskId n) →
      (∀ id r, w.revisions.get id = some r → w'.revisions.get id = some r) → P w') :
    Txn.Stable (relyOn own) held P := by
  rintro w w' held' h hd ⟨op, _, hmove, -⟩
  have hne : taskId ≠ op.taskId := by
    rintro rfl
    exact hd _ hheld hmove.task
  exact hP w w' h hmove.tasks (hmove.plans _ hne) (fun n => hmove.numbers _ n hne) hmove.revisions

/-! ## The program run alone -/

/-- Alone, a locked Task row is the row there is. -/
theorem exec_lockTask {id : Uuid} {next : Option TaskRow → Transaction} :
    (lockTask id next).exec row w = (next (w.tasks.get id)).exec row w := by
  have hrow : (row w (.task id)).bind Row.task? = w.tasks.get id := by
    unfold row
    dsimp only
    cases w.tasks.get id <;> rfl
  show (next ((row w (.task id)).bind Row.task?)).exec row w = _
  rw [hrow]

/-- Alone, a locked plan row is the row there is. -/
theorem exec_lockPlan {id : Uuid} {next : Option PlanRow → Transaction} :
    (lockPlan id next).exec row w = (next (w.plans.get id)).exec row w := by
  have hrow : (row w (.plan id)).bind Row.plan? = w.plans.get id := by
    unfold row
    dsimp only
    cases w.plans.get id <;> rfl
  show (next ((row w (.plan id)).bind Row.plan?)).exec row w = _
  rw [hrow]

/-- Without its Task, `persist` stops. -/
theorem exec_unknown (htask : w.tasks.get op.taskId = none) :
    (persist D op).exec row w = (.error (.lookupError "Unknown plan Task"), w) := by
  unfold persist
  rw [exec_lockTask, htask]
  rfl

/-- Without a plan, `persist` stores the first revision. -/
theorem exec_first {task : TaskRow} (htask : w.tasks.get op.taskId = some task)
    (hplan : w.plans.get op.taskId = none) :
    (persist D op).exec row w = (checked D op none none).exec row w := by
  unfold persist
  rw [exec_lockTask, htask]
  show (lockPlan op.taskId (forPlan D op)).exec row w = _
  rw [exec_lockPlan, hplan]
  rfl

/-- With a plan, `persist` first looks for the revision it expects. -/
theorem exec_later {task : TaskRow} {p : PlanRow} (htask : w.tasks.get op.taskId = some task)
    (hplan : w.plans.get op.taskId = some p) :
    (persist D op).exec row w =
      (checked D op (some p) (w.revisionAt op.taskId op.expectedRevisionNumber)).exec row w := by
  unfold persist
  rw [exec_lockTask, htask]
  show (lockPlan op.taskId (forPlan D op)).exec row w = _
  rw [exec_lockPlan, hplan]
  rfl

/-- A locked Task row splits the proof into the row and its absence. -/
theorem serial_lockTask {whole : World → Result × World} {held : List RowKey} {P : World → Prop}
    {id : Uuid} {next : Option TaskRow → Transaction} (hP : Txn.Stable (relyOn own) held P)
    (hnone : Txn.Stable (relyOn own) held fun w => P w ∧ w.tasks.get id = none)
    (hthere : ∀ t, (next (some t)).Serial row (relyOn own) (own op) whole (.task id :: held)
      fun w => P w ∧ w.tasks.get id = some t)
    (habsent : (next none).Serial row (relyOn own) (own op) whole held
      fun w => P w ∧ w.tasks.get id = none) :
    (lockTask id next).Serial row (relyOn own) (own op) whole held P :=
  Txn.Serial.lockRow (f := .task) frames (fun _ => rfl) (fun _ => rfl) hP hnone hthere habsent

/-- So does a locked plan row. -/
theorem serial_lockPlan {whole : World → Result × World} {held : List RowKey} {P : World → Prop}
    {id : Uuid} {next : Option PlanRow → Transaction} (hP : Txn.Stable (relyOn own) held P)
    (hnone : Txn.Stable (relyOn own) held fun w => P w ∧ w.plans.get id = none)
    (hthere : ∀ p, (next (some p)).Serial row (relyOn own) (own op) whole (.plan id :: held)
      fun w => P w ∧ w.plans.get id = some p)
    (habsent : (next none).Serial row (relyOn own) (own op) whole held
      fun w => P w ∧ w.plans.get id = none) :
    (lockPlan id next).Serial row (relyOn own) (own op) whole held P :=
  Txn.Serial.lockRow (f := .plan) frames (fun _ => rfl) (fun _ => rfl) hP hnone hthere habsent

/-- `store` of a call that knows what its program does. -/
theorem serial_store {plan : Option PlanRow} {held : List RowKey} {P : World → Prop}
    (hexec : ∀ w, P w → (persist D op).exec row w = (store D op plan).exec row w)
    (hplan : ∀ w, P w → w.plans.get op.taskId = plan) (htask : .task op.taskId ∈ held)
    (hheld : ∀ p, plan = some p → .plan op.taskId ∈ held) :
    (store D op plan).Serial row (relyOn own) (own op) ((persist D op).exec row) held P := by
  unfold store at hexec ⊢
  cases hsteps : planSteps op.plan op.compiled with
  | error e =>
    rw [hsteps] at hexec
    exact hexec
  | ok steps =>
    rw [hsteps] at hexec
    refine Txn.Serial.commit (fun w w' hw hwritten => ⟨?_, ?_⟩) fun w hw hwritten => ?_
    · refine ⟨(written_spec (hplan w hw) hwritten).advanced htask fun p hp => ?_, _, rfl⟩
      exact hheld p ((hplan w hw).symm.trans hp)
    · rw [hexec w hw]
      unfold Txn.exec
      rw [hwritten]
    · rw [hexec w hw]
      unfold Txn.exec
      rw [hwritten]
      rfl

/-- The same of what follows the search for the revision. -/
theorem serial_checked {plan : Option PlanRow} {found : Option (Uuid × Revision)}
    {held : List RowKey} {P : World → Prop}
    (hexec : ∀ w, P w → (persist D op).exec row w = (checked D op plan found).exec row w)
    (hplan : ∀ w, P w → w.plans.get op.taskId = plan)
    (hfound : ∀ id r, found = some (id, r) → ∀ w, P w → w.revisions.get id = some r)
    (hP : Txn.Stable (relyOn own) held P) (htask : .task op.taskId ∈ held)
    (hheld : ∀ p, plan = some p → .plan op.taskId ∈ held) :
    (checked D op plan found).Serial row (relyOn own) (own op)
      ((persist D op).exec row) held P := by
  cases found with
  | none =>
    unfold checked at hexec ⊢
    dsimp only at hexec ⊢
    by_cases hnext : op.expectedRevisionNumber ≠ current plan + 1
    · rw [if_pos hnext] at hexec ⊢
      exact hexec
    · rw [if_neg hnext] at hexec ⊢
      exact serial_store hexec hplan htask hheld
  | some e =>
    obtain ⟨id, r⟩ := e
    have hget := hfound id r rfl
    -- The Steps of a stored revision stay as they are.
    have hsteps : ∀ b, Txn.Stable (relyOn own) held fun w => P w ∧ stepsOf w id = b := by
      rintro b w w' held' ⟨hw, hb⟩ hd hmove
      refine ⟨hP w w' held' hw hd hmove, ?_⟩
      obtain ⟨op', _, hadvanced, -⟩ := hmove
      unfold stepsOf at hb ⊢
      rw [hadvanced.revisions id r (hget w hw), ← hget w hw]
      exact hb
    let compared : List PlanStep → Transaction := fun steps =>
      if SameInput D op r steps then .ret (.ok (r.persistedPlan id))
      else raise (.valueError "Plan revision was reused with different input")
    show Txn.Serial row _ _ _ (Txn.select fun w => compared (stepsOf w id)) held P
    refine Txn.Serial.select hsteps fun b => ?_
    dsimp only [compared]
    have hend : ∀ w, P w ∧ stepsOf w id = b → (persist D op).exec row w =
        (if SameInput D op r b then (.ret (.ok (r.persistedPlan id)) : Transaction)
          else raise (.valueError "Plan revision was reused with different input")).exec row w := by
      rintro w ⟨hw, rfl⟩
      exact hexec w hw
    by_cases hsame : SameInput D op r b
    · rw [if_pos hsame] at hend ⊢
      exact hend
    · rw [if_neg hsame] at hend ⊢
      exact hend

/-- Every `persist` takes effect at one point. -/
theorem isSerial (D : Deployment) : (workload D).IsSerial own := by
  refine ⟨frames, fun op => ?_⟩
  show (lockTask op.taskId (forTask D op)).Serial row _ _ ((persist D op).exec row) _ _
  refine serial_lockTask Txn.Stable.true ?_ (fun task => ?_) ?_
  · rintro w w' held' h - ⟨op', _, hmove, -⟩
    exact ⟨trivial, hmove.tasks ▸ h.2⟩
  · show (lockPlan op.taskId (forPlan D op)).Serial row _ _ ((persist D op).exec row) _ _
    refine serial_lockPlan ?_ ?_ (fun p => ?_) ?_
    · exact stable_of_task List.mem_cons_self fun w w' h ht _ _ _ => ⟨trivial, ht ▸ h.2⟩
    · exact stable_of_task List.mem_cons_self fun w w' h ht hp _ _ =>
        ⟨⟨trivial, ht ▸ h.1.2⟩, hp ▸ h.2⟩
    · -- A plan that is there: the revision with the number is looked up.
      have htask : RowKey.task op.taskId ∈ [.plan op.taskId, .task op.taskId] :=
        List.mem_cons_of_mem _ List.mem_cons_self
      have hkept : ∀ b, Txn.Stable (relyOn own) [.plan op.taskId, .task op.taskId] fun w =>
          ((True ∧ w.tasks.get op.taskId = some task) ∧ w.plans.get op.taskId = some p) ∧
            w.revisionAt op.taskId op.expectedRevisionNumber = b := fun b =>
        stable_of_task htask fun w w' h ht hp hn _ =>
          ⟨⟨⟨trivial, ht ▸ h.1.1.2⟩, hp ▸ h.1.2⟩, hn _ ▸ h.2⟩
      show Txn.Serial row _ _ _ (Txn.select fun w : World =>
        checked D op (some p) (w.revisionAt op.taskId op.expectedRevisionNumber)) _ _
      refine Txn.Serial.select hkept fun b => ?_
      refine serial_checked (fun w h => ?_) (fun w h => h.1.2)
        (fun id r hb w h => ?_) (hkept b) htask
        fun _ _ => List.mem_cons_self
      · rw [exec_later h.1.1.2 h.1.2, h.2]
      · exact (revisionAt_some (h.2.trans hb)).1
    · -- The first revision.
      refine serial_checked (fun w h => exec_first h.1.2 h.2) (fun w h => h.2) nofun ?_
        List.mem_cons_self nofun
      exact stable_of_task List.mem_cons_self fun w w' h ht hp _ _ =>
        ⟨⟨trivial, ht ▸ h.1.2⟩, hp ▸ h.2⟩
  · exact fun w h => exec_unknown h.2

end ExAgent.Plans
