import ExAgent.Failure.Settlement
import ExAgent.Failure.Targets

/-!
# Settlements converge

`settle_graph` is two writes, and a process that dies after one of them runs it again. Every run of
it from the checkpoint of a reachable session, and from every checkpoint that earlier runs have
left, has the same result, and its end is the same but for the number of the checkpoint
(`settlement_converges`). A checkpoint of another unfinished Task is never written, and no write
touches the tables or what belongs to another Task.

The exception is the turn of a `START` that is stored on a checkpoint which is settled already. The
first write takes the `START` back and leaves its turn, and what is left counts as settled.
-/

namespace ExAgent.Failure

open Lib ExAgent.Graph
open Stores (CleanupRow isText)

/-- Everything of a checkpoint but its number. -/
def Checkpoint.content (c : Checkpoint) : Checkpoint := { c with checkpointId := 0 }

/-- The checkpoint with another turn. -/
def Checkpoint.withTurn (c : Checkpoint) (turn : Option TaskTurn) : Checkpoint :=
  { c with values := { c.values with turn } }

/-- What `settle_graph` has made of a checkpoint when it was run any number of times, each time to
its end or up to a crash after one of its writes. -/
def Reruns (D : Deployment) (record : CleanupRow) : Checkpoint → Checkpoint → Prop :=
  Relation.ReflTransGen fun c c' => ∃ writes, (settleGraph D record).stoppedAt c writes = some c'

/-- A settlement has left the tables, the receipts, and what belongs to another Task or another
Execution. -/
structure Spares (record : CleanupRow) (before after : Checkpoint) : Prop where
  world : after.world = before.world
  apiReceipts : after.values.apiReceipts = before.values.apiReceipts
  ewReceipts : after.values.ewReceipts = before.values.ewReceipts
  requests : ∀ taskId, taskId ≠ record.taskId →
    after.values.taskRequests taskId = before.values.taskRequests taskId
  failureReceipts : ∀ taskId, taskId ≠ record.taskId →
    after.failureReceipts taskId = before.failureReceipts taskId
  sequences : ∀ id, record.executionId ≠ some id →
    after.values.ewSequences id = before.values.ewSequences id

/-- The active Task of the checkpoint is another one. -/
def Foreign (c : Checkpoint) (taskId : Uuid) : Prop :=
  ∃ active, c.values.activeTaskId = some active ∧ active ≠ taskId

/-- The active Task is another one that has not ended. -/
def OtherUnfinished (c : Checkpoint) (taskId : Uuid) : Prop :=
  Foreign c taskId ∧
    (c.next ≠ none ∨ ¬∃ wf, c.values.workflow = some wf ∧ wf.phase.isTerminal = true)

/-- A later Task has taken the checkpoint of one that had ended before its cleanup. -/
def Replaced (c : Checkpoint) (record : CleanupRow) : Prop :=
  record.preserveTerminal = true ∧ Foreign c record.taskId

/-- A `START` is stored on a checkpoint that is settled for the record. -/
def Overlaid (c : Checkpoint) (record : CleanupRow) : Prop :=
  c.next ≠ none ∧ c.failureReceipts record.taskId = record.message

instance (c : Checkpoint) (record : CleanupRow) : Decidable (Overlaid c record) :=
  inferInstanceAs (Decidable (_ ∧ _))

/-- What a settlement that succeeds leaves. -/
def Leaves (D : Deployment) (record : CleanupRow) (before after : Checkpoint) : Prop :=
  Replaced before record ∧ after = before ∨
    after.next = none ∧ Settled D after.values after.toMarks record

variable {H : Session.Host} {D : Deployment} {c c' c'' : Checkpoint}
    {record : CleanupRow} {s : Site}

/-! ## What is decided -/

/-- `validate_target` lets a settlement go on. -/
structure Valid (D : Deployment) (c : Checkpoint) (record : CleanupRow) : Prop where
  identity : ∀ identity, c.values.identity = some identity →
    identity = (record.turn.userId, record.turn.projectId, record.turn.sessionId)
  foreign : Foreign c record.taskId → record.preserveTerminal = false ∧ c.next = none ∧
    hasEnded c.values = true ∧ c.values.taskRequests record.taskId = none
  fingerprint : ∀ fingerprint, c.values.taskRequests record.taskId = some fingerprint →
    fingerprint = D.fingerprint record.turn

/-- `validate_target` goes on exactly when the target is valid. -/
theorem validateTarget_valid : validateTarget D c record = .ok true ↔ Valid D c record := by
  have hforeign : (c.values.activeTaskId.any fun active => active ≠ record.taskId) = true ↔
      Foreign c record.taskId := by
    simp [Option.any_eq_true, Foreign]
  have hidentity : (c.values.identity.any fun identity =>
      identity ≠ (record.turn.userId, record.turn.projectId, record.turn.sessionId)) = true ↔
      ∃ identity, c.values.identity = some identity ∧
        identity ≠ (record.turn.userId, record.turn.projectId, record.turn.sessionId) := by
    simp [Option.any_eq_true]
  have hfingerprint : ((c.values.taskRequests record.taskId).any fun fingerprint =>
      fingerprint ≠ D.fingerprint record.turn) = true ↔
      ∃ fingerprint, c.values.taskRequests record.taskId = some fingerprint ∧
        fingerprint ≠ D.fingerprint record.turn := by
    simp [Option.any_eq_true]
  unfold validateTarget
  dsimp only
  constructor
  · -- Each refusal is one of the three clauses violated.
    intro h
    split_ifs at h with hid hpreserved hother hrewind hfp
    · exact absurd h (by simp)
    refine ⟨fun identity hi => ?_, fun hf => ?_, fun fingerprint hreq => ?_⟩
    · by_contra hne
      exact hid (hidentity.mpr ⟨identity, hi, hne⟩)
    · have hf := hforeign.mpr hf
      simp only [hf, true_and, not_or, not_not, Bool.not_eq_true,
        Bool.not_eq_false] at hpreserved hother hrewind
      exact ⟨hpreserved, hother.1, hother.2, hrewind⟩
    · by_contra hne
      exact hfp (hfingerprint.mpr ⟨fingerprint, hreq, hne⟩)
  · -- No refusal applies.
    rintro ⟨hid, hf, hfp⟩
    have hnoid : ¬∃ identity, c.values.identity = some identity ∧
        identity ≠ (record.turn.userId, record.turn.projectId, record.turn.sessionId) :=
      fun ⟨identity, hi, hne⟩ => hne (hid identity hi)
    have hnofp : ¬∃ fingerprint, c.values.taskRequests record.taskId = some fingerprint ∧
        fingerprint ≠ D.fingerprint record.turn :=
      fun ⟨fingerprint, hreq, hne⟩ => hne (hfp fingerprint hreq)
    have hopen : ∀ {p : Prop}, (Foreign c record.taskId → ¬p) →
        ¬((c.values.activeTaskId.any fun active => active ≠ record.taskId) = true ∧ p) :=
      fun h hp => h (hforeign.mp hp.1) hp.2
    rw [if_neg (mt hidentity.mp hnoid), if_neg (hopen fun h => by simp [(hf h).1]),
      if_neg (hopen fun h => by simp [(hf h).2]), if_neg (hopen fun h => by simp [(hf h).2]),
      if_neg (mt hfingerprint.mp hnofp)]

/-- `validate_target` leaves a checkpoint as it is: a later Task has taken it. -/
theorem replaced_of_validateTarget (h : validateTarget D c record = .ok false) :
    Replaced c record := by
  unfold validateTarget at h
  dsimp only at h
  split_ifs at h with hid hpreserved
  · obtain ⟨hforeign, hpreserve⟩ := hpreserved
    exact ⟨hpreserve, by simpa [Option.any_eq_true, Foreign] using hforeign⟩
  · exact absurd h (by simp)

/-- A settlement that writes. -/
theorem mustSettle_iff : mustSettle D c record = .ok true ↔
    (record.executorStatus ≠ none ∧ isText record.message = true) ∧ Valid D c record ∧
      ¬(c.next = none ∧ c.failureReceipts record.taskId = record.message) := by
  rw [← validateTarget_valid]
  unfold mustSettle isSettled
  split_ifs with hproof
  · refine iff_of_false (by simp) fun h => ?_
    rcases hproof with hnone | hempty
    · exact h.1.1 hnone
    · exact absurd (h.1.2.symm.trans hempty) (by simp)
  · rw [not_or, Bool.not_eq_false] at hproof
    rcases hvalid : validateTarget D c record with e | _ | _ <;> simp [hproof, imp_iff_not_or]

/-- A settlement that has nothing to write. -/
theorem mustSettle_done (h : mustSettle D c record = .ok false) :
    (record.executorStatus ≠ none ∧ isText record.message = true) ∧
      (Replaced c record ∨ Valid D c record ∧
        c.next = none ∧ c.failureReceipts record.taskId = record.message) := by
  unfold mustSettle at h
  split_ifs at h with hproof
  rw [not_or, Bool.not_eq_false] at hproof
  refine ⟨hproof, ?_⟩
  rcases hvalid : validateTarget D c record with e | _ | _
  · rw [hvalid] at h
    exact absurd h (by simp)
  · exact .inl (replaced_of_validateTarget hvalid)
  · rw [hvalid] at h
    refine .inr ⟨validateTarget_valid.mp hvalid, ?_⟩
    simpa [isSettled] using h

/-! ## Where runs can stand -/

/-- After the first write the settlement goes on, unless the checkpoint counts as settled then. -/
theorem mustSettle_cleared (h : mustSettle D c record = .ok true) :
    mustSettle D c.cleared record = .ok (decide (¬Overlaid c record)) := by
  obtain ⟨hproof, hvalid, hopen⟩ := mustSettle_iff.mp h
  have hcleared : Valid D c.cleared record :=
    ⟨hvalid.identity, fun hf => ⟨(hvalid.foreign hf).1, rfl, (hvalid.foreign hf).2.2⟩,
      hvalid.fingerprint⟩
  have hreceipt : Overlaid c record ↔ c.failureReceipts record.taskId = record.message := by
    refine ⟨fun h => h.2, fun h => ⟨fun hn => hopen ⟨hn, h⟩, h⟩⟩
  unfold mustSettle
  rw [if_neg (by simp [hproof]), validateTarget_valid.mpr hcleared]
  simp only [hreceipt, decide_not]
  rfl

/-- After the second write there is nothing left to write. -/
theorem mustSettle_settled (h : mustSettle D c record = .ok true) :
    mustSettle D (c.settled D record) record = .ok false := by
  obtain ⟨hproof, -⟩ := mustSettle_iff.mp h
  have hs := settled_settled D c record
  have hvalid : Valid D (c.settled D record) record := by
    refine ⟨fun identity hid => ?_, fun ⟨active, hactive, hne⟩ => ?_, fun fingerprint hreq => ?_⟩
    · exact Option.some.inj (hid.symm.trans hs.identity)
    · exact absurd (Option.some.inj (hactive.symm.trans hs.active)) hne
    · exact Option.some.inj (hreq.symm.trans hs.request)
  have hreceipt : (c.settled D record).failureReceipts record.taskId = record.message := hs.receipt
  unfold mustSettle
  rw [if_neg (by simp [hproof]), validateTarget_valid.mpr hvalid]
  simp [isSettled, hreceipt, show (c.settled D record).next = none from rfl]

/-- Where the runs of a settlement that writes can stand. -/
inductive Stands (D : Deployment) (record : CleanupRow) (c c' : Checkpoint) : Prop
  | start (h : c' = c)
  | cleared (h : c'.content = c.cleared.content)
  | settled (h : c'.content = (c.settled D record).content)

/-- Only the content of a checkpoint is looked at. -/
theorem mustSettle_content (h : c.content = c'.content) :
    mustSettle D c record = mustSettle D c' record := by
  change mustSettle D c.content record = mustSettle D c'.content record
  rw [h]

/-- Content that was cleared is cleared. -/
theorem cleared_content (h : c'.content = c.cleared.content) :
    c'.cleared.content = c.cleared.content := by
  change c'.content.cleared.content = c.cleared.content
  rw [h]
  rfl

/-- A checkpoint is settled alike whether it was cleared before or not. -/
theorem settled_content (h : c'.content = c.cleared.content) :
    (c'.cleared.settled D record).content = (c.settled D record).content := by
  change (c'.content.cleared.settled D record).content = _
  rw [h]
  rfl

/-- Another run that is stopped. -/
theorem Stands.step {writes : ℕ} (hmust : mustSettle D c record = .ok true)
    (h : Stands D record c c') (hrun : (settleGraph D record).stoppedAt c' writes = some c'') :
    Stands D record c c'' := by
  rcases settleGraph_stoppedAt hrun with rfl | ⟨hwrites, hwritten⟩
  · exact h
  cases h with
  | start h =>
    subst h
    rcases hwritten with rfl | rfl
    · exact .cleared rfl
    · exact .settled rfl
  | cleared h =>
    rcases hwritten with rfl | rfl
    · exact .cleared (cleared_content h)
    · exact .settled (settled_content h)
  | settled h =>
    have hdone := (mustSettle_content h).trans (mustSettle_settled hmust)
    exact absurd (hwrites.symm.trans hdone) (by simp)

/-- A settlement that has nothing to write leaves the checkpoint as often as it is run. -/
theorem Reruns.eq (hruns : Reruns D record c c') (hmust : mustSettle D c record ≠ .ok true) :
    c' = c := by
  induction hruns with
  | refl => rfl
  | tail _ hrun ih =>
    subst ih
    obtain ⟨writes, hrun⟩ := hrun
    rcases settleGraph_stoppedAt hrun with rfl | ⟨hwrites, -⟩
    · rfl
    · exact absurd hwrites hmust

/-- However often a settlement is run, it stands at one of its checkpoints. -/
theorem Reruns.stands (hruns : Reruns D record c c') (hmust : mustSettle D c record = .ok true) :
    Stands D record c c' := by
  induction hruns with
  | refl => exact .start rfl
  | tail _ hrun ih =>
    obtain ⟨writes, hrun⟩ := hrun
    exact ih.step hmust hrun

/-! ## What is spared -/

/-- A checkpoint is spared by itself. -/
theorem Spares.refl (record : CleanupRow) (c : Checkpoint) : Spares record c c :=
  ⟨rfl, rfl, rfl, fun _ _ => rfl, fun _ _ => rfl, fun _ _ => rfl⟩

/-- Only the content matters. -/
theorem Spares.content (h : Spares record c c') (heq : c''.content = c'.content) :
    Spares record c c'' := by
  have hvalues : c''.values = c'.values := congrArg (fun x => x.values) heq
  have hworld : c''.world = c'.world := congrArg (fun x => x.world) heq
  have hreceipts : c''.failureReceipts = c'.failureReceipts :=
    congrArg (fun x => x.failureReceipts) heq
  refine ⟨hworld.trans h.world, ?_, ?_, ?_, ?_, ?_⟩
  · rw [hvalues]
    exact h.apiReceipts
  · rw [hvalues]
    exact h.ewReceipts
  · rw [hvalues]
    exact h.requests
  · rw [hreceipts]
    exact h.failureReceipts
  · rw [hvalues]
    exact h.sequences

/-- The first update spares the other Tasks. -/
theorem spares_cleared (record : CleanupRow) (c : Checkpoint) : Spares record c c.cleared :=
  ⟨rfl, rfl, rfl, fun _ _ => rfl, fun _ _ => rfl, fun _ _ => rfl⟩

/-- The second update spares the other Tasks. -/
theorem spares_settled (D : Deployment) (record : CleanupRow) (c : Checkpoint) :
    Spares record c (c.settled D record) := by
  refine ⟨rfl, rfl, rfl, fun _ hne => Function.update_of_ne hne .., fun _ hne =>
    Function.update_of_ne hne .., fun id hne => ?_⟩
  unfold Checkpoint.settled
  cases hex : record.executionId with
  | none => rfl
  | some id' =>
    have hid : id ≠ id' := by
      rintro rfl
      exact hne hex
    exact Function.update_of_ne hid ..

/-- Wherever the runs stand, they have spared what is not the Task's. -/
theorem Stands.spares (h : Stands D record c c') : Spares record c c' := by
  cases h with
  | start h => exact h ▸ .refl record c
  | cleared h => exact (spares_cleared record c).content h
  | settled h => exact (spares_settled D record c).content h

/-! ## The end -/

/-- A checkpoint with the receipt of a record that may be settled: its Task is the active one, so
the checkpoint is the one that a settlement has left, but for what is next. -/
theorem settled_of_receipt (hinv : Inv H s) (hrow : s.records.get record.taskId = some record)
    (hproof : isText record.message = true) (hvalid : Valid H.deployment s.checkpoint record)
    (hreceipt : s.marks.failureReceipts record.taskId = record.message) :
    Settled H.deployment s.session.thread.values s.marks record := by
  obtain ⟨message, hmessage⟩ : ∃ message, record.message = some message := by
    cases hm : record.message with
    | none => exact absurd (hm ▸ hproof) (by simp [isText])
    | some message => exact ⟨message, rfl⟩
  obtain ⟨row, hrow', -, -, hrecorded⟩ :=
    hinv.recorded record.taskId message (hreceipt.trans hmessage)
  obtain rfl := Option.some.inj (hrow.symm.trans hrow')
  obtain ⟨active, hactive⟩ := Option.ne_none_iff_exists'.mp hrecorded.begun
  by_cases htask : active = record.taskId
  · exact (hrecorded.settled (htask ▸ hactive)).1
  · exact absurd (hvalid.foreign ⟨active, hactive, htask⟩).2.2.2 hrecorded.request

/-- The sequence of the execution has its entry. -/
theorem sequences_settled {executionId : Option Uuid} {sequences : Uuid → Option ℕ} :
    (∀ id, executionId = some id → sequences id ≠ none) →
      (match executionId with
        | some id => Function.update sequences id (some ((sequences id).getD 0))
        | none => sequences) = sequences := by
  intro h
  cases executionId with
  | none => rfl
  | some id =>
    obtain ⟨n, hn⟩ := Option.ne_none_iff_exists'.mp (h id rfl)
    dsimp only
    rw [hn, Option.getD_some, ← hn, Function.update_eq_self]

/-- The second write changes nothing but the turn of a checkpoint that is settled. -/
theorem settled_again (h : Settled D c.values c.toMarks record) :
    (c.settled D record).content = (c.cleared.withTurn (some record.turn)).content := by
  obtain ⟨wf, hwf, hphase, hmessage, hexecution⟩ := h.workflow
  have hworkflow : settledWorkflow c.values record = wf := by
    have hid : record.executionId.or wf.executionId = wf.executionId := by
      cases hid : record.executionId with
      | none => rfl
      | some id =>
        rw [hexecution (by simp [hid]), hid]
        rfl
    unfold settledWorkflow
    rw [if_pos h.active, hwf, Option.getD_some]
    dsimp only
    rw [hid, ← hphase, ← hmessage]
  have hsequences := sequences_settled h.sequence
  have hrequests : Function.update c.values.taskRequests record.taskId
      (some (D.fingerprint record.turn)) = c.values.taskRequests := by
    rw [← h.request, Function.update_eq_self]
  have hreceipts : Function.update c.failureReceipts record.taskId record.message =
      c.failureReceipts := by
    rw [← h.receipt, Function.update_eq_self]
  have hvalues : (c.settled D record).values = { c.values with turn := some record.turn } := by
    simp only [Checkpoint.settled, SessionState.mk.injEq]
    exact ⟨trivial, h.identity.symm, h.active.symm, h.execution.symm, by
      rw [hworkflow, hwf], hrequests, h.pending.symm, trivial, hsequences, trivial, h.owner.1.symm⟩
  have hmarks : (c.settled D record).toMarks = c.toMarks := by
    simp only [Checkpoint.settled]
    rw [hreceipts, addMessages_settled h.messages, ← h.owner.2]
  calc (c.settled D record).content
      = { c.cleared.content with
          values := (c.settled D record).values, toMarks := (c.settled D record).toMarks } := rfl
    _ = (c.cleared.withTurn (some record.turn)).content := by
        rw [hvalues, hmarks]
        rfl

/-- The result of a run, and its end: what a settlement leaves, or what its first write leaves of a
checkpoint that was settled before. -/
theorem Stands.final (hmust : mustSettle D c record = .ok true) (h : Stands D record c c') :
    (settleGraph D record c').result = .ok () ∧
      ((settleGraph D record c').final.content = (c.settled D record).content ∨
        Overlaid c record ∧ (settleGraph D record c').final.content = c.cleared.content) := by
  cases h with
  | start h =>
    subst h
    rw [settleGraph_writes hmust]
    exact ⟨rfl, .inl rfl⟩
  | cleared h =>
    have hagain := (mustSettle_content h).trans (mustSettle_cleared hmust)
    by_cases hover : Overlaid c record
    · rw [decide_eq_false (not_not.mpr hover)] at hagain
      rw [settleGraph_done hagain]
      exact ⟨rfl, .inr ⟨hover, h⟩⟩
    · rw [decide_eq_true hover] at hagain
      rw [settleGraph_writes hagain]
      exact ⟨rfl, .inl (settled_content h)⟩
  | settled h =>
    have hdone := (mustSettle_content h).trans (mustSettle_settled hmust)
    rw [settleGraph_done hdone]
    exact ⟨rfl, .inl h⟩

/-- What is left depends on the content only. -/
theorem Settled.content (h : Settled D c.values c.toMarks record) (heq : c'.content = c.content) :
    Settled D c'.values c'.toMarks record := by
  have hvalues : c'.values = c.values := congrArg (fun x => x.values) heq
  have hmarks : c'.toMarks = c.toMarks := congrArg (fun x => x.toMarks) heq
  rw [hvalues, hmarks]
  exact h

/-- A settlement of a reachable checkpoint, from any checkpoint that runs of it have left. -/
theorem settlement_converges {taskId : Uuid} (hr : (recovery H).Reachable s)
    (hrow : s.records.get taskId = some record)
    (hruns : Reruns H.deployment record s.checkpoint c) :
    -- No write touches the tables, or what belongs to another Task or Execution.
    Spares record s.checkpoint c ∧
    -- The checkpoint of another unfinished Task is not written.
    (OtherUnfinished s.checkpoint taskId → c = s.checkpoint) ∧
    -- The run from here ends as the first one.
    (settleGraph H.deployment record c).result =
      (settleGraph H.deployment record s.checkpoint).result ∧
    ((settleGraph H.deployment record c).result = .ok () →
      Leaves H.deployment record s.checkpoint (settleGraph H.deployment record c).final) ∧
    ((settleGraph H.deployment record c).final.withTurn none).content =
      ((settleGraph H.deployment record s.checkpoint).final.withTurn none).content ∧
    (¬Overlaid s.checkpoint record → (settleGraph H.deployment record c).final.content =
      (settleGraph H.deployment record s.checkpoint).final.content) := by
  have htask := (inv_reachable hr).keyed taskId record hrow
  have hreceipt := settled_of_receipt (inv_reachable hr) (htask ▸ hrow)
  rcases hmust : mustSettle H.deployment s.checkpoint record with e | _ | _
  · obtain rfl := hruns.eq (by simp [hmust])
    rw [settleGraph_error hmust]
    exact ⟨.refl record _, fun _ => rfl, rfl, fun h => absurd h (by simp), rfl, fun _ => rfl⟩
  · obtain rfl := hruns.eq (by simp [hmust])
    rw [settleGraph_done hmust]
    refine ⟨.refl record _, fun _ => rfl, rfl, fun _ => ?_, rfl, fun _ => rfl⟩
    obtain ⟨hproof, hreplaced | ⟨hvalid, hnext, hpresent⟩⟩ := mustSettle_done hmust
    · exact .inl ⟨hreplaced, rfl⟩
    · exact .inr ⟨hnext, hreceipt hproof.2 hvalid hpresent⟩
  · have hstands := hruns.stands hmust
    obtain ⟨hresult, hfinal⟩ := hstands.final hmust
    obtain ⟨hproof, hvalid, -⟩ := mustSettle_iff.mp hmust
    have hfirst : (settleGraph H.deployment record s.checkpoint).final.content =
        (s.checkpoint.settled H.deployment record).content := by
      rw [settleGraph_writes hmust]
      rfl
    refine ⟨hstands.spares, fun ⟨hforeign, hopen⟩ => ?_, ?_, fun _ => .inr ?_, ?_, fun hover => ?_⟩
    · obtain ⟨-, hnext, hended, -⟩ := hvalid.foreign (htask ▸ hforeign)
      rcases hopen with hpending | hopen
      · exact absurd hnext hpending
      · exact absurd (by simpa [hasEnded, Option.any_eq_true] using hended) hopen
    · rw [hresult, settleGraph_writes hmust]
    · rcases hfinal with hend | ⟨hover, hend⟩
      · exact ⟨congrArg (fun x => x.next) hend,
          (settled_settled H.deployment s.checkpoint record).content hend⟩
      · have hbefore : Settled H.deployment s.checkpoint.cleared.values
            s.checkpoint.cleared.toMarks record := hreceipt hproof.2 hvalid hover.2
        exact ⟨congrArg (fun x => x.next) hend, hbefore.content hend⟩
    · rcases hfinal with hend | ⟨hover, hend⟩
      · exact congrArg (fun x => x.withTurn none) (hend.trans hfirst.symm)
      · have hsettled := settled_again (D := H.deployment) (c := s.checkpoint)
          (hreceipt hproof.2 hvalid hover.2)
        have hlast := congrArg (fun x => x.withTurn none) hend
        exact hlast.trans (congrArg (fun x => x.withTurn none) (hfirst.trans hsettled)).symm
    · rcases hfinal with hend | ⟨hover', hend⟩
      · exact hend.trans hfirst.symm
      · exact absurd hover' hover

namespace Sample

/-- The cleanup of Task 7, which was answered before its failure was seen. -/
def late : CleanupRow :=
  { Sample.record with
    taskId := 7
    turn := Session.Sample.turn
    source := .api 61
    executorStatus := some .alreadyTerminal
    preserveTerminal := true
    finalStatus := .succeeded
    message := some "done" }

/-- Actions of the session. -/
def acts (actions : List Session.Action) : List Act := actions.map fun a => .session a []

/-- The cleanup of Task 7 is opened. -/
def opened : List Act := acts answered ++ [.ensure late]

/-- Task 9 begins before the cleanup of Task 7 is settled. -/
def overtaken : List Act :=
  opened ++ acts [.accept ⟨64, turn, .start⟩, .execute 64, .decide, .node {}, .die]

/-- The end of the cleanup of Task 7 is lost, and the `START` of Task 9 is stored. -/
def overlaid : List Act :=
  opened ++ [.settle 7 2] ++ acts [.accept ⟨64, turn, .start⟩, .execute 64, .decide, .die]

/-- The state that a list of actions leads to. -/
def site (actions : List Act) : Site := ((recovery Session.Sample.host).run {} actions).getD {}

/-- A list of steps that runs to its end reaches its state. -/
theorem site_reachable {actions : List Act}
    (h : ((recovery Session.Sample.host).run {} actions).isSome = true) :
    (recovery Session.Sample.host).Reachable (site actions) := by
  obtain ⟨s, hs⟩ := Option.isSome_iff_exists.mp h
  have hsite : site actions = s := by
    unfold site
    rw [hs]
    rfl
  rw [hsite]
  exact Machine.Reachable.run (.start rfl) hs

/-- The settlement of the late cleanup. -/
def settleLate : Prog Checkpoint UnsafeCleanupError Unit :=
  settleGraph Session.Sample.host.deployment late

end Sample

/-- A process that dies after the first write of the late cleanup has lost nothing. -/
theorem settlement_converges_late :
    (Sample.settleLate (Sample.site Sample.opened).checkpoint.cleared).final.content =
      (Sample.settleLate (Sample.site Sample.opened).checkpoint).final.content := by
  have hrow : (Sample.site Sample.opened).records.get 7 = some Sample.late := by decide +kernel
  have hruns : Reruns Session.Sample.host.deployment Sample.late
      (Sample.site Sample.opened).checkpoint (Sample.site Sample.opened).checkpoint.cleared :=
    .single ⟨1, rfl⟩
  have hover : ¬Overlaid (Sample.site Sample.opened).checkpoint Sample.late := by decide +kernel
  obtain ⟨-, -, -, -, -, hsame⟩ :=
    settlement_converges (Sample.site_reachable (by decide +kernel)) hrow hruns
  exact hsame hover

/-- A settlement succeeds where Task 9 has work to do; and where only the `START` of Task 9 is
stored, a death after the first write decides whose turn is left. -/
theorem not_settlement_converges :
    (∃ s, (recovery Session.Sample.host).Reachable s ∧ s.records.get 7 = some Sample.late ∧
      (Sample.settleLate s.checkpoint).result = .ok () ∧
      (Sample.settleLate s.checkpoint).final.next ≠ none) ∧
    ∃ s c, (recovery Session.Sample.host).Reachable s ∧ s.records.get 7 = some Sample.late ∧
      Reruns Session.Sample.host.deployment Sample.late s.checkpoint c ∧
      (Sample.settleLate s.checkpoint).result = .ok () ∧ (Sample.settleLate c).result = .ok () ∧
      (Sample.settleLate c).final.values.turn ≠
      (Sample.settleLate s.checkpoint).final.values.turn := by
  refine ⟨⟨Sample.site Sample.overtaken, Sample.site_reachable (by decide +kernel),
      by decide +kernel, rfl, by decide +kernel⟩,
    Sample.site Sample.overlaid, (Sample.site Sample.overlaid).checkpoint.cleared,
      Sample.site_reachable (by decide +kernel), by decide +kernel, .single ⟨1, rfl⟩, rfl, rfl,
      by decide +kernel⟩

end ExAgent.Failure
