import ExAgent.Api.Turns
import ExAgent.Failure.Graph
import ExAgent.Session.Application
import ExAgent.Session.Succession

/-!
# Which checkpoints a cleanup may settle

A cleanup of a Task that has not ended finds the session's checkpoint where the graph, the hosts and
the Worker have left it. `validate_target` refuses it in one case too many: the `START` of the Task
is stored, `begin_task` has not run, and an earlier Task is still the active one. The pending work
is the Task's own then, as `next_invocation` knows, and the text of the refusal names another Task
that has ended. Everywhere else it refuses conflicting evidence only (`validate_target_iff`).
-/

namespace ExAgent.Failure

open Lib ExAgent.Graph ExAgent.Session
open Stores (CleanupRow)

/-- The Task that owns a checkpoint: that of the turn which `begin_task` is about to take, or the
active one. -/
def owner? (t : Thread) : Option Uuid :=
  if t.next = some .beginTask then t.values.turn.map TaskTurn.activeTaskId
    else t.values.activeTaskId

/-- Another Task that has not ended owns the checkpoint. -/
def OtherOwns (s : System) (taskId : Uuid) : Prop :=
  ∃ other, owner? s.thread = some other ∧ other ≠ taskId ∧ Unfinished s.thread.world other

/-- The checkpoint is that of another user, project or session, or has the Task with another
turn. -/
def Conflicts (D : Deployment) (t : Thread) (record : CleanupRow) : Prop :=
  (∃ identity, t.values.identity = some identity ∧
      identity ≠ (record.turn.userId, record.turn.projectId, record.turn.sessionId)) ∨
    ∃ fingerprint, t.values.taskRequests record.taskId = some fingerprint ∧
      fingerprint ≠ D.fingerprint record.turn

/-- The Task's own `START` is stored behind another Task. -/
def StartBehind (t : Thread) (taskId : Uuid) : Prop :=
  t.next = some .beginTask ∧ t.values.turn.map TaskTurn.activeTaskId = some taskId ∧
    ∃ active, t.values.activeTaskId = some active ∧ active ≠ taskId

/-- The cleanup of a Task that has not ended. -/
structure PendingCleanup (s : System) (record : CleanupRow) : Prop where
  made : record.taskId ∈ s.tables.cleanups
  pending : record.state = .pending
  unfinished : Unfinished s.thread.world record.taskId
  turn : s.tables.turns.get record.taskId = some record.turn
  preserve : record.preserveTerminal = false

section

variable {H : Host} {D : Deployment} {s : System} {record : CleanupRow} {snapshot : Checkpoint}

/-- The refusals of `validate_target`, by their branches. -/
theorem validateTarget_error {e : UnsafeCleanupError}
    (h : validateTarget D snapshot record = .error e) :
    Conflicts D snapshot.toThread record ∨
      ∃ active, snapshot.values.activeTaskId = some active ∧ active ≠ record.taskId ∧
        (snapshot.next ≠ none ∨ hasEnded snapshot.values = false ∨
          snapshot.values.taskRequests record.taskId ≠ none) := by
  have hforeign : (snapshot.values.activeTaskId.any fun active => active ≠ record.taskId) = true →
      ∃ active, snapshot.values.activeTaskId = some active ∧ active ≠ record.taskId := by
    intro hf
    simpa [Option.any_eq_true] using hf
  unfold validateTarget at h
  dsimp only at h
  split_ifs at h with hid hpreserved hother hrewind hfp
  · exact .inl (.inl (by simpa [Option.any_eq_true] using hid))
  · obtain ⟨active, hactive, hne⟩ := hforeign hother.1
    exact .inr ⟨active, hactive, hne, hother.2.elim .inl fun h => .inr (.inl h)⟩
  · obtain ⟨active, hactive, hne⟩ := hforeign hrewind.1
    exact .inr ⟨active, hactive, hne, .inr (.inr hrewind.2)⟩
  · exact .inl (.inr (by simpa [Option.any_eq_true] using hfp))

/-- Pending work behind another active Task is refused. -/
theorem validateTarget_behind (hpreserve : record.preserveTerminal = false)
    (h : StartBehind snapshot.toThread record.taskId) :
    ∃ e, validateTarget D snapshot record = .error e := by
  obtain ⟨hnext, -, active, hactive, hne⟩ := h
  have hforeign :
      (snapshot.values.activeTaskId.any fun active => active ≠ record.taskId) = true := by
    simp [hactive, hne]
  have hpending : snapshot.next ≠ none := by simp [hnext]
  have hother : (snapshot.values.activeTaskId.any fun active => active ≠ record.taskId) = true ∧
      (snapshot.next ≠ none ∨ hasEnded snapshot.values = false) := ⟨hforeign, .inl hpending⟩
  unfold validateTarget
  dsimp only
  split
  · exact ⟨_, rfl⟩
  · have hlate : ¬((snapshot.values.activeTaskId.any fun active => active ≠ record.taskId) = true ∧
        record.preserveTerminal = true) := by simp [hpreserve]
    rw [if_neg hlate]
    exact ⟨_, rfl⟩

/-- The checkpoint of a Task whose `START` is stored does not conflict with its cleanup. -/
theorem not_conflicts_of_behind (hr : (session H).Reachable s) (hc : PendingCleanup s record)
    (h : StartBehind s.thread record.taskId) : ¬Conflicts H.deployment s.thread record := by
  obtain ⟨hnext, hturn, -⟩ := h
  obtain ⟨turn, hcoming⟩ := (succession_reachable hr).coming hnext
  have hid : turn.activeTaskId = record.taskId := by simpa [hcoming.stored] using hturn
  have hknown := (Api.Turns.known_reachable hr).stored turn hcoming.stored
  obtain rfl : turn = record.turn := by
    rw [hid, hc.turn] at hknown
    exact (Option.some.inj hknown).symm
  rintro (⟨identity, hidentity, hne⟩ | ⟨fingerprint, hreq, -⟩)
  · rcases hcoming.identity with hnone | hsame
    · exact absurd (hnone.symm.trans hidentity) (by simp)
    · exact hne (Option.some.inj (hidentity.symm.trans hsame))
  · exact absurd (hreq.symm.trans (hid ▸ hcoming.new)) (by simp)

/-- Behind another active Task, a Task that has not ended waits for its own turn. -/
theorem startBehind_of_pending (hr : (session H).Reachable s)
    (hopen : Unfinished s.thread.world record.taskId) {active : Uuid}
    (hactive : s.thread.values.activeTaskId = some active) (hne : active ≠ record.taskId)
    (hpending : s.thread.next ≠ none) : StartBehind s.thread record.taskId := by
  have hsucc := succession_reachable hr
  have hother : s.thread.values.activeTaskId ≠ some record.taskId := by simp [hactive, hne]
  have hnext := (hsucc.waiting _ hopen hother).resolve_left hpending
  obtain ⟨turn, hcoming⟩ := hsucc.coming hnext
  have hid := hsucc.single _ _ hcoming.unfinished hopen
  exact ⟨hnext, by simp [hcoming.stored, hid], active, hactive, hne⟩

/-- `validate_target` refuses a Task that has not ended for conflicting evidence only, but for the
one whose `START` is stored behind another Task. -/
theorem validate_target_iff (hr : (session H).Reachable s) (hc : PendingCleanup s record)
    (hsnapshot : snapshot.toThread = s.thread) :
    (∀ e, validateTarget H.deployment snapshot record = .error e →
      OtherOwns s record.taskId ∨ Conflicts H.deployment s.thread record) ↔
      ¬StartBehind s.thread record.taskId := by
  have hsucc := succession_reachable hr
  constructor
  · intro h hbehind
    obtain ⟨e, he⟩ := validateTarget_behind (D := H.deployment) hc.preserve (hsnapshot ▸ hbehind)
    rcases h e he with ⟨other, hother, hne, -⟩ | hconflict
    · obtain ⟨hnext, hturn, -⟩ := hbehind
      unfold owner? at hother
      rw [if_pos hnext, hturn] at hother
      exact hne (Option.some.inj hother).symm
    · exact not_conflicts_of_behind hr hc hbehind hconflict
  · intro hbehind e he
    refine .inr ?_
    have hbranch := validateTarget_error he
    rw [hsnapshot] at hbranch
    rcases hbranch with hconflict | ⟨active, hactive, hne, hwhy⟩
    · exact hconflict
    have hother : s.thread.values.activeTaskId ≠ some record.taskId := by
      rw [hactive]
      exact fun h => hne (Option.some.inj h)
    by_cases hnext : s.thread.next = none
    · rcases hwhy with hpending | hopen | hrewind
      · exact absurd hnext hpending
      · -- The graph has been left, so the Task that is active has ended.
        exfalso
        have hworkflow := hsucc.active
        rw [hactive, Option.map_eq_some_iff] at hworkflow
        obtain ⟨wf, hwf, -⟩ := hworkflow
        have hended : hasEnded s.thread.values = true := by
          simp [hasEnded, hwf, hsucc.ended (.inl hnext) wf hwf]
        exact absurd (hopen.symm.trans hended) (by simp)
      · exact absurd hc.unfinished (hsucc.before _ hrewind hother)
    · exact absurd (startBehind_of_pending hr hc.unfinished hactive hne hnext) hbehind

end

/-! ## Runs on concrete inputs -/

namespace Sample

/-- The turn of Task 9, in the session of Task 7. -/
def turn : TaskTurn := ⟨"user", "project", 1, 9, 10, "explain", "basic"⟩

/-- Task 7 is a question that is answered. -/
def answered : List Action :=
  Session.Sample.serve ⟨61, Session.Sample.turn, .start⟩ [{}, {},
    { intentDecision := .ok ⟨.generalQa, false, none, none, Graph.question_of_no_clarification⟩ },
    { answer := .ok "done" }, {}]

/-- Request 64 starts Task 9, and every host that executes it dies with the turn stored. -/
def stored : List Action :=
  [.accept ⟨64, turn, .start⟩] ++
    (List.replicate 5 [Action.execute 64, .decide, .die]).flatten ++ [.execute 64, .cleanup 9]

/-- A cleanup of Task 9 begins before its `START` is executed. -/
def early : List Action := [.accept ⟨64, turn, .start⟩, .cleanup 9]

/-- The cleanup of Task 9. -/
def record : CleanupRow where
  taskId := 9
  sessionId := 1
  turn := turn
  source := .api 64
  reason := "API invocation attempts exhausted"
  nextAttemptAt := 0
  executionId := none
  executorStatus := none
  preserveTerminal := false
  finalStatus := .failed
  message := none

/-- The sample's record is that of a pending cleanup, where Task 9 is known and has not ended. -/
theorem pendingCleanup {s : System} (hmade : (9 : Uuid) ∈ s.tables.cleanups)
    (hopen : (s.thread.world.tasks.get 9).map (fun t => t.status.isTerminal) = some false)
    (hturn : s.tables.turns.get 9 = some turn) : PendingCleanup s record := by
  obtain ⟨t, ht, hstatus⟩ := Option.map_eq_some_iff.mp hopen
  exact ⟨hmade, rfl, ⟨t, ht, hstatus⟩, hturn, rfl⟩

end Sample

/-- The early cleanup finds the checkpoint of Task 7, which it may settle. -/
theorem validate_target_early :
    let s := Session.Sample.after (Sample.answered ++ Sample.early)
    ∀ e, validateTarget Session.Sample.host.deployment { toThread := s.thread }
      Sample.record = .error e →
      OtherOwns s 9 ∨ Conflicts Session.Sample.host.deployment s.thread Sample.record := by
  intro s
  have hbehind : ¬StartBehind s.thread 9 := by
    rintro ⟨hnext, -⟩
    exact absurd hnext (by decide +kernel)
  exact (validate_target_iff (Session.Sample.after_reachable (by decide +kernel))
    (Sample.pendingCleanup (by decide +kernel) (by decide +kernel) (by decide +kernel)) rfl).mpr
    hbehind

/-- The cleanup of a Task whose turn is stored is refused for another Task, which has ended. -/
theorem validate_target_stored :
    let s := Session.Sample.after (Sample.answered ++ Sample.stored)
    (session Session.Sample.host).Reachable s ∧ PendingCleanup s Sample.record ∧
      ¬∀ e, validateTarget Session.Sample.host.deployment { toThread := s.thread } Sample.record =
          .error e → OtherOwns s 9 ∨
          Conflicts Session.Sample.host.deployment s.thread Sample.record := by
  intro s
  have hrefused : validateTarget Session.Sample.host.deployment
      { toThread := s.thread } Sample.record =
      .error ⟨"Another Task owns the checkpoint"⟩ := by decide +kernel
  have howner : owner? s.thread = some 9 := by decide +kernel
  have hidentity : s.thread.values.identity = some ("user", "project", 1) := by decide +kernel
  have hnew : s.thread.values.taskRequests 9 = none := by decide +kernel
  refine ⟨Session.Sample.after_reachable (by decide +kernel),
    Sample.pendingCleanup (by decide +kernel) (by decide +kernel) (by decide +kernel),
    fun hall => ?_⟩
  rcases hall _ hrefused with
    ⟨other, hother, hne, -⟩ | ⟨identity, hid, hne⟩ | ⟨fingerprint, hreq, -⟩
  · exact hne (Option.some.inj (howner.symm.trans hother)).symm
  · obtain rfl := Option.some.inj (hidentity.symm.trans hid)
    exact hne rfl
  · exact absurd (hnew.symm.trans hreq) (by simp)

end ExAgent.Failure
