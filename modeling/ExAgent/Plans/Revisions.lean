import ExAgent.Lib.Numbering
import ExAgent.Plans.Contracts
import ExAgent.Graph.Guarantees

/-!
# Plan revisions advance once

Calls of `PlanRepository.persist` in any number and any order, each of them statement by statement
and each lost at any point. Since they are serial, the database is that of the committed calls one
after another, and every call that has ended did what it does alone in some state while it ran
(`Decides`). So the revisions of a Task have the numbers from one to the current one of its plan,
each stored by one call with all its Steps. The step that the graph takes for a call is the call run
alone (`Consistent.persistPlan_eq`).
-/

namespace ExAgent.Plans

open Lib ExAgent.Graph

variable {D : Deployment} {op : Persist} {w w' : World} {a : Result}

/-! ## The invariant -/

/-- The number of a revision in the plan of its Task. -/
def number (w : World) (id : Uuid) : Option (Uuid × ℕ) :=
  (w.revisions.get id).map fun r => (r.taskId, r.revisionNumber)

/-- The current revision of the plan of a Task. -/
def latest (w : World) (taskId : Uuid) : Option ℕ :=
  (w.plans.get taskId).map PlanRow.currentRevision

/-- What holds between two commits. -/
structure Consistent (w : World) : Prop where
  /-- The revisions of a plan are numbered from one to its current revision. -/
  numbering : Numbering (number w) (latest w)
  /-- A plan is that of a Task. -/
  known : ∀ t p, w.plans.get t = some p → ∃ task, w.tasks.get t = some task
  /-- A revision is one of the plan of its Task. -/
  owned : ∀ id r, w.revisions.get id = some r → ∃ p, w.plans.get r.taskId = some p ∧ p.id = r.planId
  /-- Two Tasks have two plans. -/
  single : ∀ t t' p p', w.plans.get t = some p → w.plans.get t' = some p' → p.id = p'.id → t = t'

/-- No plans yet. -/
def Unplanned (w : World) : Prop := w.plans = .empty ∧ w.revisions = .empty

/-- A world without plans is consistent. -/
theorem Consistent.unplanned (h : Unplanned w) : Consistent w := by
  obtain ⟨hp, hr⟩ := h
  constructor
  · constructor <;> simp [number, latest, hp, hr]
  all_goals simp [hp, hr]

/-- The row's current revision is the latest there is. -/
theorem current_eq {plan : Option PlanRow} (hplan : w.plans.get op.taskId = plan) :
    (∃ p, plan = some p ∧ latest w op.taskId = some (current plan) ∧ (nextPlan op plan).id = p.id) ∨
      (plan = none ∧ latest w op.taskId = none ∧ current plan = 0 ∧
        (nextPlan op plan).id = op.newPlanId) := by
  unfold latest
  rw [hplan]
  cases plan with
  | none => exact .inr ⟨rfl, rfl, rfl, rfl⟩
  | some p => exact .inl ⟨p, rfl, rfl, rfl⟩

/-- The next plan row names the next number. -/
theorem nextPlan_current (op : Persist) (plan : Option PlanRow) :
    (nextPlan op plan).currentRevision = current plan + 1 := by
  cases plan <;> rfl

/-- The next revision keeps the invariant. -/
theorem Consistent.stored {plan : Option PlanRow} {steps : List PlanStep} {task : TaskRow}
    (h : Consistent w) (htask : w.tasks.get op.taskId = some task)
    (hplan : w.plans.get op.taskId = plan) (hs : Stored D op plan steps w w') : Consistent w' where
  numbering := by
    refine h.numbering.next (i := op.newRevisionId) (w := op.taskId) (m := current plan) ?_ ?_
      (fun j => ?_) fun v => ?_
    · unfold number
      rw [hs.fresh]
      rfl
    · rcases current_eq hplan with ⟨p, -, hlatest, -⟩ | ⟨-, hlatest, hzero, -⟩
      · exact .inl hlatest
      · exact .inr ⟨hlatest, hzero⟩
    · unfold number
      rw [hs.get]
      split_ifs
      · rw [← nextPlan_current op plan]
        rfl
      · rfl
    · unfold latest
      rw [hs.plans]
      split_ifs
      · rw [← nextPlan_current op plan]
        rfl
      · rfl
  known t p hp := by
    rw [hs.tasks]
    rw [hs.plans] at hp
    split_ifs at hp with ht
    · exact ⟨task, ht ▸ htask⟩
    · exact h.known t p hp
  owned id r hr := by
    rw [hs.get] at hr
    rw [hs.plans]
    split_ifs at hr with hid
    · obtain rfl := Option.some.inj hr
      exact ⟨_, if_pos rfl, rfl⟩
    · obtain ⟨p, hp, hpid⟩ := h.owned id r hr
      by_cases ht : r.taskId = op.taskId
      · refine ⟨_, if_pos ht, ?_⟩
        rcases current_eq hplan with ⟨p', hp', -, hid'⟩ | ⟨hnone, -⟩
        · obtain rfl : p = p' := Option.some.inj ((ht ▸ hp).symm.trans (hplan.trans hp'))
          rw [hid', hpid]
        · exact absurd ((ht ▸ hp).symm.trans (hplan.trans hnone)) (by simp)
      · exact ⟨p, (if_neg ht).trans hp, hpid⟩
  single t t' p p' hp hp' hid := by
    -- The plan of the call's Task has the id it had, or one that no plan had.
    have hnew : ∀ t p, w.plans.get t = some p → p.id = (nextPlan op plan).id → t = op.taskId := by
      intro t p hp hid
      rcases current_eq hplan with ⟨q, hq, -, hqid⟩ | ⟨hnone, -, -, hqid⟩
      · exact h.single t op.taskId p q hp (hplan.trans hq) (hid.trans hqid)
      · exact absurd (hid.trans hqid) (hs.planId hnone t p hp)
    rw [hs.plans] at hp hp'
    split_ifs at hp with ht
    · split_ifs at hp' with ht'
      · rw [ht, ht']
      · obtain rfl := Option.some.inj hp
        rw [ht, hnew t' p' hp' hid.symm]
    · split_ifs at hp' with ht'
      · obtain rfl := Option.some.inj hp'
        rw [ht', hnew t p hp hid]
      · exact h.single t t' p p' hp hp' hid

/-! ## One call -/

/-- What a call does in a state, by the revision with its number. -/
structure Decides (D : Deployment) (op : Persist) (w : World) (a : Result) (w' : World) : Prop where
  /-- A stored one is returned to a call with the same input, and refused to any other. -/
  existing : ∀ id r, w.revisionAt op.taskId op.expectedRevisionNumber = some (id, r) → w' = w ∧
    (SameInput D op r r.steps → a = .ok (r.persistedPlan id)) ∧
    (¬SameInput D op r r.steps → ∃ e, a = .error e)
  /-- A number that is neither stored nor the next one is refused. -/
  skipped : w.revisionAt op.taskId op.expectedRevisionNumber = none →
    op.expectedRevisionNumber ≠ current (w.plans.get op.taskId) + 1 → w' = w ∧ ∃ e, a = .error e
  /-- The next one is stored with its Steps, when the call returns. -/
  advanced : w.revisionAt op.taskId op.expectedRevisionNumber = none → ∀ p, a = .ok p →
    op.expectedRevisionNumber = current (w.plans.get op.taskId) + 1 ∧
    ∃ steps, planSteps op.plan op.compiled = .ok steps ∧
      Stored D op (w.plans.get op.taskId) steps w w' ∧
      p = (nextRevision D op (nextPlan op (w.plans.get op.taskId)) steps).persistedPlan
      op.newRevisionId
  /-- An exception changes nothing. -/
  raised : ∀ e, a = .error e → w' = w

/-- The next revision, if its writes are accepted. -/
theorem store_decides (hnone : w.revisionAt op.taskId op.expectedRevisionNumber = none)
    (hnext : op.expectedRevisionNumber = current (w.plans.get op.taskId) + 1)
    (hexec : (store D op (w.plans.get op.taskId)).exec row w = (a, w')) : Decides D op w a w' := by
  refine ⟨fun id r hr => absurd (hnone.symm.trans hr) (by simp), fun _ h => absurd hnext h, ?_, ?_⟩
  · rintro - p rfl
    refine ⟨hnext, ?_⟩
    unfold store at hexec
    split at hexec
    · exact absurd (Prod.mk.inj hexec).1 (by simp)
    · rename_i steps hsteps
      refine ⟨steps, hsteps, ?_⟩
      unfold Txn.exec at hexec
      split at hexec
      · rename_i w₁ hw
        obtain ⟨hp, rfl⟩ := Prod.mk.inj hexec
        exact ⟨written_spec rfl hw, (Except.ok.inj hp).symm⟩
      · exact absurd (Prod.mk.inj hexec).1 (by simp)
  · rintro e rfl
    unfold store at hexec
    split at hexec
    · exact (Prod.mk.inj hexec).2.symm
    · unfold Txn.exec at hexec
      split at hexec
      · exact absurd (Prod.mk.inj hexec).1 (by simp)
      · exact (Prod.mk.inj hexec).2.symm

/-- A stored revision is one of a plan. -/
theorem Consistent.found (h : Consistent w) {number : ℕ} {id : Uuid} {r : Revision}
    (hr : w.revisionAt taskId number = some (id, r)) : ∃ p, w.plans.get taskId = some p := by
  obtain ⟨hget, ht, -⟩ := revisionAt_some hr
  obtain ⟨p, hp, -⟩ := h.owned id r hget
  exact ⟨p, ht ▸ hp⟩

/-- A call for a Task that is there decides by its plan and by the revision with its number. -/
theorem Consistent.exec_checked (h : Consistent w) {task : TaskRow}
    (htask : w.tasks.get op.taskId = some task) :
    (persist D op).exec row w = (checked D op (w.plans.get op.taskId)
      (w.revisionAt op.taskId op.expectedRevisionNumber)).exec row w := by
  cases hplan : w.plans.get op.taskId with
  | none =>
    cases hr : w.revisionAt op.taskId op.expectedRevisionNumber with
    | none => exact exec_first htask hplan
    | some e =>
      obtain ⟨p, hp⟩ := h.found hr
      exact absurd (hplan.symm.trans hp) (by simp)
  | some p => exact exec_later htask hplan

/-- A call run alone in a consistent state. -/
theorem Consistent.decides (h : Consistent w) (hexec : (persist D op).exec row w = (a, w')) :
    Decides D op w a w' := by
  cases htask : w.tasks.get op.taskId with
  | none =>
    -- Of an unknown Task there is no plan and no revision.
    rw [exec_unknown htask] at hexec
    obtain ⟨rfl, rfl⟩ := Prod.mk.inj hexec
    refine ⟨fun id r hr => ?_, fun _ _ => ⟨rfl, _, rfl⟩,
      fun _ p hp => absurd hp nofun, fun _ _ => rfl⟩
    obtain ⟨p, hp⟩ := h.found hr
    obtain ⟨task, ht⟩ := h.known _ p hp
    exact absurd (htask.symm.trans ht) (by simp)
  | some task =>
    rw [h.exec_checked htask] at hexec
    cases hr : w.revisionAt op.taskId op.expectedRevisionNumber with
    | none =>
      rw [hr] at hexec
      unfold checked at hexec
      dsimp only at hexec
      by_cases hnext : op.expectedRevisionNumber ≠ current (w.plans.get op.taskId) + 1
      · rw [if_pos hnext] at hexec
        obtain ⟨rfl, rfl⟩ := Prod.mk.inj hexec
        exact ⟨fun id r hr' => absurd (hr.symm.trans hr') (by simp), fun _ _ => ⟨rfl, _, rfl⟩,
          fun _ p hp => absurd hp nofun, fun _ _ => rfl⟩
      · rw [if_neg hnext] at hexec
        exact store_decides hr (not_not.mp hnext) hexec
    | some e =>
      obtain ⟨id, r⟩ := e
      have hsteps : stepsOf w id = r.steps := by
        unfold stepsOf
        rw [(revisionAt_some hr).1]
        rfl
      rw [hr] at hexec
      have hend : (if SameInput D op r r.steps then (.ret (.ok (r.persistedPlan id)) : Transaction)
          else raise (.valueError "Plan revision was reused with different input")).exec row w =
            (a, w') := by
        rw [← hsteps]
        exact hexec
      have hone : ∀ id' r', w.revisionAt op.taskId op.expectedRevisionNumber = some (id', r') →
          id' = id ∧ r' = r := by
        intro id' r' hr'
        exact Prod.mk.inj (Option.some.inj (hr'.symm.trans hr))
      by_cases hsame : SameInput D op r r.steps
      · rw [if_pos hsame] at hend
        obtain ⟨rfl, rfl⟩ := Prod.mk.inj hend
        refine ⟨fun id' r' hr' => ?_, fun hnone => absurd (hr.symm.trans hnone) (by simp),
          fun hnone => absurd (hr.symm.trans hnone) (by simp), fun e he => absurd he nofun⟩
        obtain ⟨rfl, rfl⟩ := hone id' r' hr'
        exact ⟨rfl, fun _ => rfl, fun hne => absurd hsame hne⟩
      · rw [if_neg hsame] at hend
        obtain ⟨rfl, rfl⟩ := Prod.mk.inj hend
        refine ⟨fun id' r' hr' => ?_, fun hnone => absurd (hr.symm.trans hnone) (by simp),
          fun hnone => absurd (hr.symm.trans hnone) (by simp), fun _ _ => rfl⟩
        obtain ⟨rfl, rfl⟩ := hone id' r' hr'
        exact ⟨rfl, fun hs => absurd hs hsame, fun _ => ⟨_, rfl⟩⟩

/-! ## The call of the graph -/

/-- A new plan has an id that no other plan has: it is inserted; and one that is there is
updated. -/
theorem written_plans {steps : List PlanStep} (hplan : w.plans.get op.taskId = none →
      ∀ t p, w.plans.get t = some p → p.id ≠ op.newPlanId) :
    written D op (w.plans.get op.taskId) steps w =
      insertRevision { w with
          plans := (w.plans.insertIfAbsent op.taskId (nextPlan op (w.plans.get op.taskId))).modifyAt
            op.taskId fun _ => nextPlan op (w.plans.get op.taskId) }
        op.newRevisionId (nextRevision D op (nextPlan op (w.plans.get op.taskId)) steps) := by
  cases hold : w.plans.get op.taskId with
  | none =>
    obtain ⟨plans, hplans⟩ := Table.insert_of_get_none hold (nextPlan op none)
    have hnew : ¬(w.plans.entries.any fun e => e.2.id = (nextPlan op none).id) = true := by
      rw [List.any_eq_true]
      rintro ⟨⟨t, q⟩, hmem, hq⟩
      exact hplan hold t q (Table.mem_entries_iff.mp hmem) (of_decide_eq_true hq)
    have hinserted : w.plans.insertIfAbsent op.taskId (nextPlan op none) = plans := by
      unfold Table.insertIfAbsent
      rw [hplans, Option.getD_some]
    have hsame : plans.modifyAt op.taskId (fun _ => nextPlan op none) = plans := by
      refine Table.modifyAt_eq_self fun r hr => ?_
      rw [(Table.get_of_insert hplans).2, if_pos rfl] at hr
      exact Option.some.inj hr
    unfold written insertPlan
    dsimp only
    rw [if_neg hnew, hplans, hinserted, hsame]
    rfl
  | some q =>
    have hkept : w.plans.insertIfAbsent op.taskId (nextPlan op (some q)) = w.plans := by
      unfold Table.insertIfAbsent
      rw [Table.insert_of_get_some hold, Option.getD_none]
    rw [hkept]
    rfl

/-- The number of the revision is free, and so are those of its Steps. -/
theorem insertRevision_eq {id : Uuid} {r : Revision}
    (hfree : w.revisionAt r.taskId r.revisionNumber = none)
    (hsteps : (r.steps.map PlanStep.sequence).Nodup) :
    insertRevision w id r = (w.revisions.insert id r).map fun revisions =>
      { w with revisions, log := w.log ++ [.persisted id r] } := by
  unfold insertRevision
  rw [hfree, if_neg (by simp), if_neg (not_not.mpr hsteps)]

/-- The call that `Graph.persistPlan` makes. -/
def callOf (svc : Services) (taskId : Uuid) (plan : PlanDraft)
    (compiled : List (CompiledStep × InputPath)) (feedback : Option String) (expected : ℕ) :
    Persist where
  taskId := taskId
  plan := plan
  compiled := compiled
  registrySnapshotHash := svc.registrySnapshotHash
  feedback := feedback
  expectedRevisionNumber := expected
  compiledBundleId := svc.newBundleId
  newPlanId := svc.newPlanId
  newRevisionId := svc.newRevisionId

section Graph

variable {svc : Services} {plan : PlanDraft} {compiled : List (CompiledStep × InputPath)}
  {feedback : Option String} {expected : ℕ}

/-- The row of the plan is the one that the graph writes. -/
theorem nextPlan_callOf : nextPlan (callOf svc taskId plan compiled feedback expected)
    (w.plans.get taskId) = w.nextPlanRow taskId svc.newPlanId := by
  unfold nextPlan World.nextPlanRow
  cases w.plans.get taskId with
  | none => rfl
  | some p => rfl

/-- The revision that the graph writes. -/
def revisionOf (D : Deployment) (w : World) (svc : Services) (taskId : Uuid) (plan : PlanDraft)
    (feedback : Option String) (steps : List PlanStep) : Revision :=
  ⟨taskId, (w.nextPlanRow taskId svc.newPlanId).id,
    (w.nextPlanRow taskId svc.newPlanId).currentRevision, plan, D.payloadHash plan, svc.newBundleId,
    svc.registrySnapshotHash, feedback, steps⟩

/-- The writes of the next revision are those of the graph. -/
theorem store_callOf
    (hplan : w.plans.get taskId = none → ∀ t p, w.plans.get t = some p → p.id ≠ svc.newPlanId)
    (hfree : w.revisionAt taskId expected = none)
    (hnext : expected = current (w.plans.get taskId) + 1) {steps : List PlanStep}
    (hplanned : planSteps plan compiled = .ok steps)
    (hsteps : (steps.map PlanStep.sequence).Nodup) :
    (store D (callOf svc taskId plan compiled feedback expected) (w.plans.get taskId)).exec row w =
      match w.revisions.insert svc.newRevisionId
        (revisionOf D w svc taskId plan feedback steps) with
      | none => (.error .other, w)
      | some revisions => (.ok ((revisionOf D w svc taskId plan feedback steps).persistedPlan
          svc.newRevisionId), w.withRevision (w.nextPlanRow taskId svc.newPlanId) revisions
            svc.newRevisionId (revisionOf D w svc taskId plan feedback steps)) := by
  -- The row and the number that both sides write.
  have hrevision : nextRevision D (callOf svc taskId plan compiled feedback expected)
      (nextPlan (callOf svc taskId plan compiled feedback expected) (w.plans.get taskId)) steps =
        revisionOf D w svc taskId plan feedback steps := by
    rw [nextPlan_callOf]
    rfl
  have hnumber : (w.nextPlanRow taskId svc.newPlanId).currentRevision = expected := by
    have hrow : nextPlan (callOf svc taskId plan compiled feedback expected) (w.plans.get taskId) =
        w.nextPlanRow taskId svc.newPlanId := nextPlan_callOf
    rw [← hrow, nextPlan_current, hnext]
  have hwritten : written D (callOf svc taskId plan compiled feedback expected)
      (w.plans.get taskId) steps w = insertRevision { w with
          plans :=
            (w.plans.insertIfAbsent taskId (nextPlan (callOf svc taskId plan compiled feedback
            expected) (w.plans.get taskId))).modifyAt taskId fun _ => nextPlan (callOf svc taskId
              plan compiled feedback expected) (w.plans.get taskId) } svc.newRevisionId
        (nextRevision D (callOf svc taskId plan compiled feedback expected) (nextPlan (callOf svc
          taskId plan compiled feedback expected) (w.plans.get taskId)) steps) :=
    written_plans hplan
  -- The same writes in the graph's words.
  have hwrites : written D (callOf svc taskId plan compiled feedback expected) (w.plans.get taskId)
      steps w = (w.revisions.insert svc.newRevisionId
        (revisionOf D w svc taskId plan feedback steps)).map fun revisions =>
          w.withRevision (w.nextPlanRow taskId svc.newPlanId) revisions svc.newRevisionId
            (revisionOf D w svc taskId plan feedback steps) := by
    rw [hwritten, hrevision, nextPlan_callOf]
    refine insertRevision_eq ?_ hsteps
    show w.revisionAt taskId (w.nextPlanRow taskId svc.newPlanId).currentRevision = none
    rw [hnumber]
    exact hfree
  unfold store
  rw [show planSteps (callOf svc taskId plan compiled feedback expected).plan
    (callOf svc taskId plan compiled feedback expected).compiled = .ok steps from hplanned]
  dsimp only
  rw [hrevision]
  unfold Txn.exec
  rw [hwrites]
  cases w.revisions.insert svc.newRevisionId (revisionOf D w svc taskId plan feedback steps) with
  | none => rfl
  | some revisions => rfl

/-- The graph takes the transaction as one step: in a consistent state, with a new id for the plan
and with Steps of distinct numbers, `Graph.persistPlan` ends as the transaction does when it runs
alone. -/
theorem Consistent.persistPlan_eq (h : Consistent w)
    (hplan : w.plans.get taskId = none → ∀ t p, w.plans.get t = some p → p.id ≠ svc.newPlanId)
    (hsteps : ∀ steps, planSteps plan compiled = .ok steps → (steps.map PlanStep.sequence).Nodup) :
    (persist D (callOf svc taskId plan compiled feedback expected)).exec row w =
      ((persistPlan D svc taskId plan compiled feedback expected w).result,
        (persistPlan D svc taskId plan compiled feedback expected w).final) := by
  unfold persistPlan Prog.transact
  dsimp only
  cases htask : w.tasks.get taskId with
  | none => exact exec_unknown htask
  | some task =>
    rw [h.exec_checked htask]
    show (checked D (callOf svc taskId plan compiled feedback expected) (w.plans.get taskId)
      (w.revisionAt taskId expected)).exec row w = _
    unfold existingRevision
    -- The revision is new.
    cases hr : w.revisionAt taskId expected with
    | none =>
      dsimp only
      unfold checked
      by_cases hnext : expected ≠ current (w.plans.get taskId) + 1
      · rw [if_pos (by exact hnext)]
        dsimp only
        rw [if_pos (by exact hnext)]
        rfl
      · rw [if_neg (by exact hnext)]
        dsimp only
        rw [if_neg (by exact hnext)]
        -- Its Steps are planned and stored in one transaction.
        cases hplanned : planSteps plan compiled with
        | error e =>
          unfold store
          rw [show planSteps (callOf svc taskId plan compiled feedback expected).plan
            (callOf svc taskId plan compiled feedback expected).compiled = .error e from hplanned]
          rfl
        | ok steps =>
          rw [store_callOf hplan hr (not_not.mp hnext) hplanned (hsteps steps hplanned)]
          unfold revisionOf
          dsimp only
          generalize w.revisions.insert svc.newRevisionId _ = inserted
          cases inserted with
          | none => rfl
          | some revisions => rfl
    -- The revision is stored: the call is compared with it.
    | some e =>
      obtain ⟨id, r⟩ := e
      have hstored : stepsOf w id = r.steps := by
        unfold stepsOf
        rw [(revisionAt_some hr).1]
        rfl
      have hchecked : (checked D (callOf svc taskId plan compiled feedback expected)
          (w.plans.get taskId) (some (id, r))).exec row w =
            if SameInput D (callOf svc taskId plan compiled feedback expected) r r.steps then
              (.ok (r.persistedPlan id), w)
            else (.error (.valueError "Plan revision was reused with different input"), w) := by
        unfold checked
        simp only [Txn.exec]
        rw [hstored]
        split_ifs
        · rfl
        · rfl
      -- Both compare the same four things.
      rw [hchecked]
      dsimp only
      by_cases hsame : SameInput D (callOf svc taskId plan compiled feedback expected) r r.steps
      · obtain ⟨hpayload, hregistry, hfeedback, hperm⟩ := hsame
        rw [if_pos ⟨hpayload, hregistry, hfeedback, hperm⟩, if_neg (by
          rintro (hne | hne | hne | hne)
          · exact hne hpayload
          · exact hne hregistry
          · exact hne hfeedback
          · exact hne hperm)]
      · rw [if_neg hsame, if_pos]
        by_contra hall
        simp only [not_or, not_not] at hall
        exact hsame hall

end Graph

/-! ## All calls together -/

/-- The server, from a database without plans. -/
def repository (D : Deployment) : Machine (Server World RowKey Row Persist Result)
    (Server.Act Persist) :=
  Server.machine (workload D) Unplanned

/-- A commit of a call is that of the next revision of its Task. -/
theorem committed_decides {s s' : Server World RowKey Row Persist Result} {act : Server.Act Persist}
    (hr : (repository D).Reachable s) (hc : Consistent s.db)
    (hstep : (repository D).step s act = some s') :
    (s'.db = s.db ∧ s'.history = s.history) ∨ ∃ e steps held, act = .next e.id ∧
      (∃ rest, s.calls.get e.id = some ⟨e.op, .running held rest⟩) ∧
      s'.calls.get e.id = some ⟨e.op, .ended e.result⟩ ∧
      s'.history = s.history ++ [e] ∧ Decides D e.op s.db e.result s'.db ∧
      Advanced e.op held s.db s'.db ∧ (∃ task, s.db.tasks.get e.op.taskId = some task) ∧
      e.op.expectedRevisionNumber = current (s.db.plans.get e.op.taskId) + 1 ∧
      planSteps e.op.plan e.op.compiled = .ok steps ∧
      Stored D e.op (s.db.plans.get e.op.taskId) steps s.db s'.db ∧
      e.result = .ok ((nextRevision D e.op (nextPlan e.op (s.db.plans.get e.op.taskId))
        steps).persistedPlan e.op.newRevisionId) := by
  cases Server.moved (isSerial D).meets hr hstep with
  | quiet hdb hhistory => exact .inl ⟨hdb, hhistory⟩
  | committed e held write violated ha hcall hown hhistory hended =>
    obtain ⟨hadvanced, p, hp⟩ := hown
    have hne : s'.history ≠ s.history := by
      rw [hhistory]
      simp
    obtain ⟨e', -, hhistory', hexec⟩ := Server.exec_of_committed (isSerial D) hr hstep hne
    obtain rfl : e = e' := by
      have := List.append_cancel_left (hhistory.symm.trans hhistory')
      simpa using this
    have hdecides : Decides D e.op s.db e.result s'.db := hc.decides hexec
    have hknown : ∃ task, s.db.tasks.get e.op.taskId = some task := by
      cases htask : s.db.tasks.get e.op.taskId with
      | some task => exact ⟨task, rfl⟩
      | none =>
        have herror := congrArg Prod.fst ((exec_unknown htask).symm.trans hexec)
        exact absurd (herror.trans hp) nofun
    -- It did change the database, so the number was not stored.
    have hchanged : s'.db ≠ s.db := by
      intro hsame
      obtain ⟨r, hr⟩ := hadvanced.stored
      rw [hsame, hadvanced.fresh] at hr
      exact absurd hr (by simp)
    cases hat : s.db.revisionAt e.op.taskId e.op.expectedRevisionNumber with
    | some e => exact absurd (hdecides.existing e.1 e.2 hat).1 hchanged
    | none =>
      obtain ⟨hnext, steps, hsteps, hstored, rfl⟩ := hdecides.advanced hat p hp
      exact .inr ⟨e, steps, held, ha, ⟨_, hcall⟩, hended, hhistory, hdecides, hadvanced, hknown,
        hnext, hsteps, hstored, hp⟩

/-- Every revision was stored by a commit, and every commit stored one. -/
structure Recorded (s : Server World RowKey Row Persist Result) : Prop where
  consistent : Consistent s.db
  revisions : ∀ id r, s.db.revisions.get id = some r → ∃ e ∈ s.history, e.op.taskId = r.taskId ∧
    e.op.expectedRevisionNumber = r.revisionNumber ∧
    planSteps e.op.plan e.op.compiled = .ok r.steps ∧ e.result = .ok (r.persistedPlan id)
  commits : ∀ e ∈ s.history, ∃ r, s.db.revisions.get e.op.newRevisionId = some r ∧
    r.taskId = e.op.taskId ∧ r.revisionNumber = e.op.expectedRevisionNumber
  once : (s.history.map fun e => (e.op.taskId, e.op.expectedRevisionNumber)).Nodup

/-- In every reachable state, the history records the revisions. -/
theorem recorded_reachable {s : Server World RowKey Row Persist Result}
    (hr : (repository D).Reachable s) : Recorded s := by
  refine hr.invariant ?_ fun s act s' hr h hstep => ?_
  · rintro s ⟨w, hw, rfl⟩
    refine ⟨.unplanned hw, fun id r hid => ?_,
      fun e he => absurd he List.not_mem_nil, List.nodup_nil⟩
    rw [show w.revisions = .empty from hw.2, Table.get_empty] at hid
    exact absurd hid nofun
  · rcases committed_decides hr h.consistent hstep with ⟨hdb, hhistory⟩ | ⟨e, steps, held, -, -, -,
      hhistory, -, hadvanced, ⟨task, htask⟩, hnext, hsteps, hstored, hresult⟩
    · obtain ⟨hc, hrevisions, hcommits, honce⟩ := h
      constructor <;> simp only [hdb, hhistory] <;> assumption
    · have hnumber : (nextPlan e.op (s.db.plans.get e.op.taskId)).currentRevision =
          e.op.expectedRevisionNumber := (nextPlan_current _ _).trans hnext.symm
      have hnew : s'.db.revisions.get e.op.newRevisionId = some (nextRevision D e.op
          (nextPlan e.op (s.db.plans.get e.op.taskId)) steps) := (hstored.get _).trans (if_pos rfl)
      have hold : ∀ e' ∈ s.history, e' ∈ s'.history := by
        intro e' he'
        rw [hhistory]
        exact List.mem_append_left _ he'
      have hmine : e ∈ s'.history := by
        rw [hhistory]
        exact List.mem_append_right _ List.mem_cons_self
      refine ⟨h.consistent.stored htask rfl hstored, fun id r hid => ?_, fun e' he' => ?_, ?_⟩
      · rw [hstored.get] at hid
        split_ifs at hid with hnewid
        · obtain rfl := Option.some.inj hid
          refine ⟨e, hmine, rfl, hnumber.symm, hsteps, ?_⟩
          rw [hnewid]
          exact hresult
        · obtain ⟨e', he', hrest⟩ := h.revisions id r hid
          exact ⟨e', hold e' he', hrest⟩
      · rw [hhistory] at he'
        rcases List.mem_append.mp he' with he' | he'
        · obtain ⟨r, hr, hrest⟩ := h.commits e' he'
          exact ⟨r, hadvanced.revisions _ _ hr, hrest⟩
        · obtain rfl := List.mem_singleton.mp he'
          exact ⟨_, hnew, rfl, hnumber⟩
      · rw [hhistory, List.map_append, List.nodup_append]
        refine ⟨h.once, List.nodup_singleton _, ?_⟩
        rintro x hx y hy rfl
        -- The number of an earlier commit is taken.
        obtain rfl := List.mem_singleton.mp hy
        obtain ⟨e', he', hkey⟩ := List.mem_map.mp hx
        obtain ⟨ht, hn⟩ := Prod.mk.inj hkey
        obtain ⟨r, hr, hrt, hrn⟩ := h.commits e' he'
        have hfree := hstored.free
        rw [hnumber] at hfree
        exact revisionAt_none hfree hr ⟨hrt.trans ht, hrn.trans hn⟩

/-- Whatever calls are made, and however their statements interleave, the revisions of every Task
have the numbers from one to the current revision of its plan. Each was stored by one commit with
all its Steps, no two commits have the same number, and no step changes a revision that is stored. A
step that changes anything is the commit of a call with the next number, which returns the revision
it stores. Every call that has ended decided in a state it met while it ran: a stored revision is
returned to a call with the same input and refused to one with another, a number that is neither
stored nor next is refused, and what returns a stored revision or raises changes nothing. -/
theorem revisions_advance_once (D : Deployment) {s : Server World RowKey Row Persist Result}
    (hr : (repository D).Reachable s) :
    Numbering (number s.db) (latest s.db) ∧
      (∀ id r, s.db.revisions.get id = some r → ∃ e ∈ s.history, e.op.taskId = r.taskId ∧
        e.op.expectedRevisionNumber = r.revisionNumber ∧
        planSteps e.op.plan e.op.compiled = .ok r.steps ∧ e.result = .ok (r.persistedPlan id)) ∧
      (s.history.map fun e => (e.op.taskId, e.op.expectedRevisionNumber)).Nodup ∧
      (∀ act s', (repository D).step s act = some s' →
        (∀ id r, s.db.revisions.get id = some r → s'.db.revisions.get id = some r) ∧
        (s'.db = s.db ∨ ∃ (e : Entry Persist Result) (steps : List PlanStep), act = .next e.id ∧
          s'.calls.get e.id = some ⟨e.op, .ended e.result⟩ ∧
          e.op.expectedRevisionNumber = current (s.db.plans.get e.op.taskId) + 1 ∧
          planSteps e.op.plan e.op.compiled = .ok steps ∧
          Stored D e.op (s.db.plans.get e.op.taskId) steps s.db s'.db ∧
          e.result = .ok ((nextRevision D e.op (nextPlan e.op (s.db.plans.get e.op.taskId))
            steps).persistedPlan e.op.newRevisionId))) ∧
      ∀ id op a, s.calls.get id = some ⟨op, .ended a⟩ → ∃ t w' held rest,
        (repository D).Reachable t ∧ (repository D).Leads t s ∧
        t.calls.get id = some ⟨op, .running held rest⟩ ∧ Decides D op t.db a w' ∧
        (w' = t.db ∨ ∃ t', (repository D).step t (.next id) = some t' ∧
          (repository D).Leads t' s ∧ t'.db = w') := by
  have hrecorded := recorded_reachable hr
  refine ⟨hrecorded.consistent.numbering, hrecorded.revisions, hrecorded.once,
    fun act s' hstep => ?_, fun id op a hc => ?_⟩
  · rcases committed_decides hr hrecorded.consistent hstep with ⟨hdb, -⟩ | ⟨e, steps, held, hact, -,
      hended, -, -, hadvanced, -, hnext, hsteps, hstored, hresult⟩
    · exact ⟨fun id r hid => hdb ▸ hid, .inl hdb⟩
    · exact ⟨hadvanced.revisions, .inr ⟨e, steps, hact, hended, hnext, hsteps, hstored, hresult⟩⟩
  · obtain ⟨t, w', held, rest, ht, hl, hrun, hexec, hdb⟩ := Server.takesEffect (isSerial D) hr hc
    exact ⟨t, w', held, rest, ht, hl, hrun, (recorded_reachable ht).consistent.decides hexec, hdb⟩

/-! ## Two calls for the first revision -/

namespace Sample

/-- A call for the first revision of Task 1, which draws these ids. -/
def first (bundleId planId revisionId : Uuid) : Persist where
  taskId := 1
  plan := Graph.Sample.plan
  compiled := [(⟨0, "load()", 6⟩, ⟨1, 6, "py"⟩)]
  registrySnapshotHash := 0
  feedback := none
  expectedRevisionNumber := 1
  compiledBundleId := bundleId
  newPlanId := planId
  newRevisionId := revisionId

/-- Both begin before either has the Task; the second one waits for it. -/
def race : List (Server.Act Persist) :=
  [.begin 1 (first 10 11 12), .begin 2 (first 20 21 22), .next 1, .next 1,
    .next 1, .next 2, .next 2, .next 2, .next 2, .next 2]

/-- A store with one Task and no plan. -/
def start : Server World RowKey Row Persist Result := { db := World.accept {} 1 }

/-- The server after the race. -/
def raced : Server World RowKey Row Persist Result :=
  ((repository Graph.Sample.deployment).run start race).getD start

end Sample

/-- Two calls race for revision 1: one of them stores it, and the other gets its receipt. -/
theorem revisions_advance_once_raced :
    (Sample.raced.history.map fun e => (e.op.taskId, e.op.expectedRevisionNumber)).Nodup ∧
      Sample.raced.calls.get 2 = some ⟨Sample.first 20 21 22, .ended (.ok ⟨11, 12, 1, 1, 10⟩)⟩ := by
  have hinit : (repository Graph.Sample.deployment).init Sample.start := ⟨_, ⟨rfl, rfl⟩, rfl⟩
  have hrun : (repository Graph.Sample.deployment).run Sample.start Sample.race =
      some Sample.raced :=
    rfl
  have hr : (repository Graph.Sample.deployment).Reachable Sample.raced := .run (.start hinit) hrun
  exact ⟨(revisions_advance_once _ hr).2.2.1, rfl⟩

end ExAgent.Plans
