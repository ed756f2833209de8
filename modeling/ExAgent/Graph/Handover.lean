import ExAgent.Graph.Idle

/-!
# Handing a Step over

What `submit_execution` and `append_operation` do to the items of their Task, stopped at any
transaction. The effect of such a node is either still to be sent, and then its request follows the
items, or its request is the last item. The two nodes share the journal: what they prepare, and
which Step sequence the binding has before they are done, is all that differs.
-/

namespace ExAgent.Graph

open Lib Prog

/-- The Step sequence in the binding of a Task. -/
def World.sequence? (w : World) (taskId : Uuid) : Option ℕ :=
  (w.bindings.get taskId).map Binding.nextStepSequence

/-- The effect of a node that hands Steps over: its key and its inputs. -/
def WorkflowState.handover? (wf : WorkflowState) : Node → Option (EffectKey × EffectInputs)
  | .submitExecution => do
    let plan ← wf.plan
    let revision ← wf.persisted
    let mode ← wf.executionMode
    pure (.submit wf.activeTaskId revision.planRevisionNumber,
      .submit revision.planRevisionId revision.planRevisionNumber revision.publicPayloadHash
        wf.runtimeProfile mode wf.userId wf.projectId wf.sessionId
          wf.selectedWorkflowVersionId plan)
  | .appendOperation => do
    let current ← wf.plan
    let operationId ← wf.currentOperationId
    let executionId ← wf.executionId
    let revision ← wf.persisted
    let decision ← wf.multiDecision
    pure (.append wf.activeTaskId operationId,
      .append executionId operationId revision.planRevisionId
      (current.withStep current.first) decision)
  | _ => none

/-- The stored effect. -/
def World.Holds (w : World) (key : EffectKey) (sha : Sha256) (row : EffectRow) : Prop :=
  w.effects.get key = some row ∧ row.inputSha256 = sha

/-- Before a submission (`create`) the Task has no item and no binding; before an append the last
item is a result, and the binding has the sequence of the next Step. -/
def Opened (create : Bool) (w : World) (taskId : Uuid) : Prop :=
  match create with
  | true => items taskId w.log = [] ∧ w.sequence? taskId = none
  | false => (∃ outcome, (items taskId w.log).getLast? = some (.result outcome)) ∧
      w.sequence? taskId = some (nextSequence (items taskId w.log))

/-- The Step sequence in the binding before a request is projected. -/
def ExecutorRequest.behind? (r : ExecutorRequest) (create : Bool) : Option ℕ :=
  if create then none else r.nextStepSequence?.map Nat.pred

/-- A request that a node prepares; `Fits` says what is in it. -/
structure Prepared (create : Bool) (Fits : ExecutorRequest → Prop) (l : List Item)
    (r : ExecutorRequest) : Prop where
  steps : r.steps ≠ []
  follows : Follows l r
  mode : create = false → r.mode? ≠ some .single
  fits : Fits r

/-- A request that hands Steps over: in a MULTI execution it is one Step. -/
structure Proper (create : Bool) (Fits : ExecutorRequest → Prop) (r : ExecutorRequest) : Prop where
  steps : r.steps ≠ []
  mode : create = false → r.mode? ≠ some .single
  numbered : r.mode? ≠ some .single → ∃ n, r.sequences = [n] ∧ r.nextStepSequence? = some (n + 1)
  fits : Fits r

/-- A prepared request is a proper one. -/
theorem Prepared.proper {create : Bool} {Fits : ExecutorRequest → Prop} {l : List Item}
    {r : ExecutorRequest} (h : Prepared create Fits l r) : Proper create Fits r :=
  ⟨h.steps, h.mode, fun hmode => ⟨_, h.follows hmode⟩, h.fits⟩

/-- How far the effect of a node has come. -/
inductive Handing (w : World) (taskId : Uuid) (key : EffectKey) (sha : Sha256) (create : Bool)
    (Fits : ExecutorRequest → Prop) : Prop
  | unsent (opened : Opened create w taskId)
      (rows : ∀ row, w.Holds key sha row → row.response = none ∧
        Prepared create Fits (items taskId w.log) row.request)
  | sent (row : EffectRow) (stored : w.Holds key sha row) (proper : Proper create Fits row.request)
      (last : (items taskId w.log).getLast? = some (.sent row.request))
      (bound : w.sequence? taskId = row.request.behind? create ∨
        w.sequence? taskId = row.request.nextStepSequence?)

/-- What a node that hands Steps over keeps of the items, and of the revisions where it submits
one. -/
structure Paces (limit : ℕ) (create : Bool) (taskId : Uuid) (w₀ w : World) : Prop where
  others : ∀ id, id ≠ taskId → items id w.log = items id w₀.log
  each : Each (Paced limit) (items taskId w.log)
  failures : failures (items taskId w.log) = failures (items taskId w₀.log)
  frontier : create = false → frontier (items taskId w.log) = frontier (items taskId w₀.log)
  revisions : create = true → w.revisions = w₀.revisions

section

variable {D : Deployment} {svc : Services} {wf : WorkflowState} {w₀ w w' : World} {limit : ℕ}
  {create : Bool} {Fits : ExecutorRequest → Prop} {taskId : Uuid} {key : EffectKey} {sha : Sha256}
  {row : EffectRow}

/-! ## Commits of such a node -/

/-- Without a commit the items keep pace. -/
theorem Paces.refl (h : Each (Paced limit) (items taskId w.log)) : Paces limit create taskId w w :=
  ⟨fun _ _ => rfl, h, rfl, fun _ => rfl, fun _ => rfl⟩

/-- A commit that leaves the log and the revisions as they are. -/
theorem Paces.of_log (h : Paces limit create taskId w₀ w) (hlog : w'.log = w.log)
    (hrevisions : w'.revisions = w.revisions) : Paces limit create taskId w₀ w' where
  others id hid := by rw [hlog]; exact h.others id hid
  each := by rw [hlog]; exact h.each
  failures := by rw [hlog]; exact h.failures
  frontier hc := by rw [hlog]; exact h.frontier hc
  revisions hc := hrevisions.trans (h.revisions hc)

/-- An idle commit of an append. -/
theorem Paces.idle (h : Paces limit false taskId w₀ w) (hi : Idle w w') :
    Paces limit false taskId w₀ w' where
  others id hid := (hi.items id).trans (h.others id hid)
  each := by rw [hi.items]; exact h.each
  failures := by rw [hi.items]; exact h.failures
  frontier hc := by rw [hi.items]; exact h.frontier hc
  revisions := nofun

/-- Idle commits leave a Task opened. -/
theorem Opened.idle (h : Opened create w taskId) (hi : Idle w w') : Opened create w' taskId := by
  have hbound : w'.sequence? taskId = w.sequence? taskId := hi.bindings taskId
  unfold Opened at h ⊢
  rw [hi.items, hbound]
  exact h

/-- How far an effect has come does not change with idle commits. -/
theorem Handing.idle (hkey : key.startsOperation = true) (h : Handing w taskId key sha create Fits)
    (hi : Idle w w') : Handing w' taskId key sha create Fits := by
  have hholds : ∀ row, w'.Holds key sha row ↔ w.Holds key sha row := by
    intro row
    unfold World.Holds
    rw [hi.effects key hkey]
  have hbound : w'.sequence? taskId = w.sequence? taskId := hi.bindings taskId
  cases h with
  | unsent opened rows =>
    refine .unsent (opened.idle hi) fun row hrow => ?_
    rw [hi.items]
    exact rows row ((hholds row).mp hrow)
  | sent row stored proper last bound =>
    exact .sent row ((hholds row).mpr stored) proper (by rw [hi.items]; exact last)
      (by rw [hbound]; exact bound)

/-- The effect is prepared. -/
theorem Handing.withEffect (h : Handing w taskId key sha create Fits)
    (hprepared : Prepared create Fits (items taskId w.log) row.request)
    (hresponse : row.response = none) :
    Handing (w.withEffect key row) taskId key sha create Fits := by
  cases h with
  | unsent opened rows =>
    refine .unsent opened fun row' hrow' => ?_
    rcases effect_cases hrow'.1 with hold | ⟨-, rfl⟩
    · exact rows row' ⟨hold, hrow'.2⟩
    · exact ⟨hresponse, hprepared⟩
  | sent row' stored proper last bound =>
    refine .sent row' ⟨?_, stored.2⟩ proper last bound
    show (w.effects.insertIfAbsent key row).get key = some row'
    rw [Table.get_insertIfAbsent, if_pos rfl, stored.1]
    rfl

/-- A new request is the first one or answers a result. -/
theorem Opened.items (h : Opened create w taskId) : items taskId w.log = [] ∨
    ∃ outcome, (Graph.items taskId w.log).getLast? = some (.result outcome) := by
  cases create with
  | true => exact .inl h.1
  | false => exact .inr h.1

/-- The binding is where the request expects it. -/
theorem Opened.behind {r : ExecutorRequest} (h : Opened create w taskId)
    (hprepared : Prepared create Fits (Graph.items taskId w.log) r) :
    w.sequence? taskId = r.behind? create := by
  cases create with
  | true => exact h.2
  | false =>
    obtain ⟨-, hnext⟩ := hprepared.follows (hprepared.mode rfl)
    have hbehind : r.behind? false = some (nextSequence (Graph.items taskId w.log)) := by
      simp [ExecutorRequest.behind?, hnext]
    exact h.2.trans hbehind.symm

/-- The item of a request that leaves. -/
theorem items_sent {id : Uuid} {log : List Event} {request : ExecutorRequest}
    (hsteps : request.steps ≠ []) : items id (log ++ [.sent taskId request]) =
      if taskId = id then items id log ++ [.sent request] else items id log := by
  split
  · rename_i hid
    exact items_concat_some (if_pos ⟨hid, hsteps⟩)
  · rename_i hid
    exact items_concat_none (if_neg fun h => hid h.1)

/-- The request of a stored effect leaves. -/
theorem Handing.posted (h : Handing w taskId key sha create Fits)
    (hp : Paces limit create taskId w₀ w)
    (hlimit : failures (items taskId w₀.log) ≤ limit) (hrow : w.Holds key sha row) :
    Handing (w.logged (.sent taskId row.request)) taskId key sha create Fits ∧
      Paces limit create taskId w₀ (w.logged (.sent taskId row.request)) ∧
      (items taskId (w.logged (.sent taskId row.request)).log).getLast? =
      some (.sent row.request) := by
  -- The request follows the items, or is the last one again.
  have hnew : Proper create Fits row.request ∧
    Paced limit (items taskId w.log) (.sent row.request) ∧
      (w.sequence? taskId = row.request.behind? create ∨
        w.sequence? taskId = row.request.nextStepSequence?) := by
    have hcount : failures (items taskId w.log) ≤ limit := hp.failures.trans_le hlimit
    cases h with
    | unsent opened rows =>
      obtain ⟨-, hprepared⟩ := rows row hrow
      exact ⟨hprepared.proper, ⟨hcount, .inr ⟨opened.items, hprepared.follows⟩⟩,
        .inl (opened.behind hprepared)⟩
    | sent row' stored proper last bound =>
      obtain rfl : row' = row := Option.some.inj (stored.1.symm.trans hrow.1)
      exact ⟨proper, ⟨hcount, .inl last⟩, bound⟩
  obtain ⟨hproper, hpaced, hbound⟩ := hnew
  have hitems : items taskId (w.logged (.sent taskId row.request)).log =
      items taskId w.log ++ [.sent row.request] := (items_sent hproper.steps).trans (if_pos rfl)
  have hlast : (items taskId (w.logged (.sent taskId row.request)).log).getLast? =
      some (.sent row.request) := by
    rw [hitems]
    exact List.getLast?_concat
  refine ⟨.sent row hrow hproper hlast hbound,
    ⟨fun id hid => ?_, ?_, ?_, fun hc => ?_, hp.revisions⟩, hlast⟩
  · exact ((items_sent hproper.steps).trans (if_neg fun h => hid h.symm)).trans (hp.others id hid)
  · rw [hitems]
    exact hp.each.concat hpaced
  · rw [hitems, failures_concat_sent]
    exact hp.failures
  · rw [hitems, frontier_concat_sent hpaced (hproper.mode hc)]
    exact hp.frontier hc

/-- Between two commits of a node that hands Steps over. -/
structure Underway (limit : ℕ) (create : Bool) (Fits : ExecutorRequest → Prop) (taskId : Uuid)
    (key : EffectKey) (sha : Sha256) (w₀ w : World) : Prop where
  paces : Paces limit create taskId w₀ w
  handing : Handing w taskId key sha create Fits

/-- The request of a stored effect was sent last. -/
structure Sent (taskId : Uuid) (key : EffectKey) (sha : Sha256) (record : EffectRow) (w : World) :
    Prop where
  stored : w.Holds key sha record
  last : (items taskId w.log).getLast? = some (.sent record.request)

/-- An effect with a response was sent. -/
theorem Underway.sent_of_response (h : Underway limit create Fits taskId key sha w₀ w)
    (hrow : w.Holds key sha row) (hresponse : row.response ≠ none) : Sent taskId key sha row w := by
  cases h.handing with
  | unsent opened rows => exact absurd (rows row hrow).1 hresponse
  | sent row' stored proper last bound =>
    obtain rfl : row' = row := Option.some.inj (stored.1.symm.trans hrow.1)
    exact ⟨hrow, last⟩

/-- The effect that was sent last is the one the node is at. -/
theorem Underway.bound_of_sent (h : Underway limit create Fits taskId key sha w₀ w)
    (hsent : Sent taskId key sha row w) : Proper create Fits row.request ∧
      (w.sequence? taskId = row.request.behind? create ∨
        w.sequence? taskId = row.request.nextStepSequence?) := by
  cases h.handing with
  | unsent opened rows =>
    -- What was sent last is no result.
    rcases opened.items with hnone | ⟨outcome, hresult⟩
    · exact absurd (hsent.last.symm.trans (congrArg List.getLast? hnone)) (by simp)
    · exact absurd (Option.some.inj (hsent.last.symm.trans hresult)) (by simp)
  | sent row' stored proper last bound =>
    obtain rfl : row' = row := Option.some.inj (stored.1.symm.trans hsent.stored.1)
    exact ⟨proper, bound⟩

/-- The response of a request that was sent is stored. -/
theorem Underway.responded {response : EffectResponse}
    (h : Underway limit create Fits taskId key sha w₀ w) (hsent : Sent taskId key sha row w)
    (hw' : w' = { w with effects := w.effects.modifyAt key fun _ =>
      { row with response := some response } }) :
    Underway limit create Fits taskId key sha w₀ w' ∧
      Sent taskId key sha { row with response := some response } w' := by
  subst hw'
  have hget : (w.effects.modifyAt key fun _ => { row with response := some response }).get key =
      some { row with response := some response } := by
    rw [Table.get_modifyAt, if_pos rfl, hsent.stored.1]
    rfl
  obtain ⟨hproper, hbound⟩ := h.bound_of_sent hsent
  exact ⟨⟨h.paces.of_log rfl rfl, .sent _ ⟨hget, hsent.stored.2⟩ hproper hsent.last hbound⟩,
    ⟨hget, hsent.stored.2⟩, hsent.last⟩

/-! ## The journal -/

/-- The journal of a node that hands Steps over. -/
theorem journalRun_handing {kind : EffectKind} {inputs : EffectInputs}
    {prepare : Run ExecutorRequest} (hlimit : failures (items taskId w₀.log) ≤ limit)
    (hprepare : Triple (fun w => Underway limit create Fits taskId key (D.inputDigest inputs) w₀ w ∧
        w.effects.get key = none) prepare
      (fun request w => Prepared create Fits (items taskId w.log) request ∧
        Underway limit create Fits taskId key (D.inputDigest inputs) w₀ w)
      (Underway limit create Fits taskId key (D.inputDigest inputs) w₀)) :
    Triple (Underway limit create Fits taskId key (D.inputDigest inputs) w₀)
      (journalRun D taskId key kind inputs prepare (send svc taskId))
      (fun record w => Sent taskId key (D.inputDigest inputs) record w ∧
        Underway limit create Fits taskId key (D.inputDigest inputs) w₀ w)
      (Underway limit create Fits taskId key (D.inputDigest inputs) w₀) := by
  let U := Underway limit create Fits taskId key (D.inputDigest inputs) w₀
  -- The record is found, or prepared while no record is there.
  have hrecord : ∀ found, Triple (fun w => U w ∧ w.effects.get key = found)
      (storedRecord D taskId key kind inputs prepare found)
      (fun record w => U w ∧ w.effects.get key = some record) U := by
    intro found
    cases found with
    | some record => exact .pure fun w hw => hw
    | none =>
      refine hprepare.bind fun request => prepareEffect_spec key taskId kind _ request
        (fun w hw => hw.2) fun w hw => ?_
      exact ⟨hw.2.paces.of_log rfl rfl, hw.2.handing.withEffect hw.1 rfl⟩
  refine (getEffect_spec key).bind fun found => (hrecord found).bind fun record => ?_
  refine (Triple.refuseIf fun w hw => hw.1).bind fun _ => .assume fun hid => ?_
  have hsha : record.inputSha256 = D.inputDigest inputs := (not_not.mp hid).2.2
  unfold completedRecord
  cases hresponse : record.response with
  | some response =>
    refine .pure fun w hw => ⟨hw.1.sent_of_response ⟨hw.2, hsha⟩ ?_, hw.1⟩
    simp [hresponse]
  | none =>
    -- The request is posted when its record has no response yet.
    have hsend : Triple (fun w => U w ∧ w.effects.get key = some record)
        (send svc taskId record.request)
        (fun _ w => Sent taskId key (D.inputDigest inputs) record w ∧ U w) U := by
      refine send_posts svc taskId record.request (fun w hw => hw.1)
        (fun w hw => hw.2) fun w hw => ?_
      obtain ⟨hhanding, hpaces, hlast⟩ := hw.1.handing.posted hw.1.paces hlimit ⟨hw.2, hsha⟩
      exact ⟨⟨⟨hw.2, hsha⟩, hlast⟩, hpaces, hhanding⟩
    -- The response is stored in the record that was posted.
    refine hsend.bind fun response => .transact (fun w hw record' w' h => ?_) fun w hw => hw.2
    rw [hw.1.stored.1] at h
    dsimp only at h
    rw [hresponse] at h
    dsimp only at h
    split at h
    · exact absurd h (by simp)
    · rename_i written hwritten
      obtain ⟨rfl, rfl⟩ := Prod.mk.inj (Except.ok.inj h)
      obtain rfl := eq_of_recordOf hwritten
      obtain ⟨hU, hsent⟩ := hw.2.responded hw.1 rfl
      exact ⟨hU, hsent, hU⟩

/-! ## The binding -/

/-- The receipt of what was sent last moves the binding to the sequence after it. -/
theorem projectBinding_handing {record : EffectRow} {executionId operationId : Uuid}
    {version next : ℕ} (hnext : record.request.nextStepSequence? = some next) :
    Triple (fun w => Sent taskId key sha record w ∧ Underway limit create Fits taskId key sha w₀ w)
      (projectBinding taskId executionId version (some operationId) (some next) create)
      (fun _ w => w.sequence? taskId = some (nextSequence (items taskId w.log)) ∧
        Sent taskId key sha record w ∧ Underway limit create Fits taskId key sha w₀ w)
      (Underway limit create Fits taskId key sha w₀) := by
  refine .transact (fun w hw a w' h => ?_) fun w hw => hw.2
  obtain ⟨hproper, hold⟩ := hw.2.bound_of_sent hw.1
  -- Whatever is written has the sequence that the request expects.
  have hwritten : w'.log = w.log → w'.effects = w.effects → w'.revisions = w.revisions →
      w'.sequence? taskId = some next → Underway limit create Fits taskId key sha w₀ w' ∧
        w'.sequence? taskId = some (nextSequence (items taskId w'.log)) ∧
          Sent taskId key sha record w' ∧ Underway limit create Fits taskId key sha w₀ w' := by
    intro hlog heffects hrevisions hbound
    have hstored : w'.Holds key sha record := ⟨heffects ▸ hw.1.stored.1, hw.1.stored.2⟩
    have hU : Underway limit create Fits taskId key sha w₀ w' := ⟨hw.2.paces.of_log hlog hrevisions,
      .sent record hstored hproper (hlog.symm ▸ hw.1.last) (.inr (hbound.trans hnext.symm))⟩
    refine ⟨hU, ?_, ⟨hstored, hlog.symm ▸ hw.1.last⟩, hU⟩
    rw [hbound, hlog, nextSequence_of_last hw.1.last, hnext]
    rfl
  split at h
  · exact absurd h (by simp)
  · rename_i task htask
    split at h
    · -- The first receipt of a submission binds the Task.
      rename_i hnone
      cases create with
      | false => exact absurd h (by simp)
      | true =>
        dsimp only at h
        split_ifs at h
        obtain ⟨-, rfl⟩ := Prod.mk.inj (Except.ok.inj h)
        refine hwritten rfl rfl rfl ?_
        unfold World.sequence? World.withBinding
        rw [Table.get_insertIfAbsent, if_pos rfl, hnone]
        rfl
    · rename_i b hb
      have hsequence : w.sequence? taskId = some b.nextStepSequence := by
        unfold World.sequence?
        rw [hb]
        rfl
      have hmoved : ∀ b' : Binding, b'.nextStepSequence = next →
          World.sequence? { w with bindings := w.bindings.modifyAt taskId fun _ => b' } taskId =
            some next := by
        intro b' hb'
        unfold World.sequence?
        rw [Table.get_modifyAt, if_pos rfl, hb]
        exact congrArg some hb'
      dsimp only at h
      split_ifs at h with hother heq hop hlt
      · obtain ⟨-, rfl⟩ := Prod.mk.inj (Except.ok.inj h)
        exact hwritten rfl rfl rfl (hmoved _ heq.symm)
      · cases create with
        | false =>
          obtain ⟨-, rfl⟩ := Prod.mk.inj (Except.ok.inj h)
          exact hwritten rfl rfl rfl (hmoved _ rfl)
        | true => exact absurd h (by simp)
      · -- The binding is not ahead of what was sent last.
        rw [hsequence, hnext] at hold
        unfold ExecutorRequest.behind? at hold
        rw [hnext] at hold
        cases create with
        | true =>
          rcases hold with hold | hold
          · exact absurd hold (by simp)
          · exact absurd (Option.some.inj hold).symm heq
        | false =>
          rcases hold with hold | hold
          · have hpred : b.nextStepSequence = next.pred := Option.some.inj hold
            have hle : next.pred ≤ next := Nat.pred_le next
            omega
          · exact absurd (Option.some.inj hold).symm heq

/-! ## What is prepared -/

/-- A node that finds no effect has sent none. -/
theorem Underway.opened (h : Underway limit create Fits taskId key sha w₀ w)
    (hnone : w.effects.get key = none) : Opened create w taskId := by
  cases h.handing with
  | unsent opened rows => exact opened
  | sent row stored proper last bound => exact absurd (hnone.symm.trans stored.1) (by simp)

/-- The first Step of a revision has sequence zero. -/
theorem Revision.Lawful.first {r : Revision} {row : PlanStep} (h : r.Lawful D)
    (hhead : r.ordered.head? = some row) : row.sequence = 0 := by
  obtain ⟨row', hrow', hhead'⟩ := h
  obtain rfl : row' = row := Option.some.inj (hhead'.symm.trans hhead)
  unfold firstRow at hrow'
  split at hrow'
  · exact absurd hrow' (by simp)
  · rename_i c hc
    obtain rfl := Except.ok.inj hrow'
    exact (compileFile_sequence hc).trans r.publicPayload.first_sequence

/-- The request has the first Step of the plan in the state. -/
def CarriesFirst (D : Deployment) (wf : WorkflowState) (request : ExecutorRequest) : Prop :=
  ∃ plan row sequence, wf.plan = some plan ∧ firstRow D wf.activeTaskId plan = .ok row ∧
    request.steps = [{ executorStep row with sequence }]

/-- A MULTI submission has the first Step of the plan. -/
def SubmitsFirst (D : Deployment) (wf : WorkflowState) (n : Node)
    (request : ExecutorRequest) : Prop :=
  n = .submitExecution → wf.executionMode = some .multi →
    request.mode? ≠ some .single ∧ CarriesFirst D wf request

/-- The plan in the state is the payload of its revision. -/
def Matched (w : World) (wf : WorkflowState) : Prop :=
  ∃ p r, wf.persisted = some p ∧ w.revisions.get p.planRevisionId = some r ∧
    r.taskId = wf.activeTaskId ∧ wf.plan = some r.publicPayload

/-- The first row of a revision, where there are rows. -/
theorem take_approvedSteps {revisionId : Uuid} (hne : (w.approvedSteps revisionId).take 1 ≠ []) :
    ∃ r row, w.revisions.get revisionId = some r ∧ r.ordered.head? = some row ∧
      (w.approvedSteps revisionId).take 1 = [row] := by
  unfold World.approvedSteps at hne ⊢
  cases hr : w.revisions.get revisionId with
  | none => simp [hr] at hne
  | some r =>
    simp only [hr] at hne ⊢
    unfold Revision.ordered
    cases hsorted : r.steps.insertionSort (fun a b => a.sequence ≤ b.sequence) with
    | nil => simp [hsorted] at hne
    | cons row rest => exact ⟨r, row, rfl, by rw [hsorted]; rfl, rfl⟩

/-- A submission prepares the first request of its Task. -/
theorem prepareSubmit_handing {mode : ExecutionMode} {p : PersistedPlan}
    (hmode : wf.executionMode = some mode) (hp : wf.persisted = some p)
    (hlaw : ∀ (id : Uuid) (r : Revision), w₀.revisions.get id = some r → r.Lawful D)
    (hmatch : wf.executionMode = some .multi → Matched w₀ wf) :
    Triple (fun w =>
      Underway limit true (SubmitsFirst D wf .submitExecution) wf.activeTaskId key sha w₀ w ∧
        w.effects.get key = none)
      (prepareSubmit svc wf mode p.planRevisionId)
      (fun request w =>
        Prepared true (SubmitsFirst D wf .submitExecution) (items wf.activeTaskId w.log) request ∧
          Underway limit true (SubmitsFirst D wf .submitExecution) wf.activeTaskId key sha w₀ w)
      (Underway limit true (SubmitsFirst D wf .submitExecution) wf.activeTaskId key sha w₀) := by
  refine (Triple.query fun _ h => h.1).bind fun rows => ?_
  refine (Triple.refuseIf fun _ h => h.2.1).bind fun _ => .assume fun hne => ?_
  refine (Triple.ofExcept fun _ h => h.2.1).bind fun _ => .assume fun _ => .pure fun w hw => ?_
  obtain ⟨hrows, hU, hnone⟩ := hw
  obtain rfl := Except.ok.inj hrows
  -- A MULTI submission has the first row of the revision only.
  have hfirst : mode = .multi → ∃ r row, w₀.revisions.get p.planRevisionId = some r ∧
      r.ordered.head? = some row ∧ row.sequence = 0 ∧
      (if mode = .multi then (w.approvedSteps p.planRevisionId).take 1
        else w.approvedSteps p.planRevisionId) = [row] := by
    rintro rfl
    rw [if_pos rfl] at hne ⊢
    obtain ⟨r, row, hr, hhead, htake⟩ := take_approvedSteps hne
    rw [hU.paces.revisions rfl] at hr
    exact ⟨r, row, hr, hhead, (hlaw _ r hr).first hhead, htake⟩
  have hmulti : (some mode : Option ExecutionMode) ≠ some .single → mode = .multi := by
    intro h
    cases mode with
    | multi => rfl
    | single => exact absurd rfl h
  refine ⟨⟨fun hnil => hne (List.map_eq_nil_iff.mp hnil), fun hm => ?_, nofun,
    fun _ hm => ⟨?_, ?_⟩⟩, hU⟩
  · obtain ⟨r, row, -, -, hzero, hrow⟩ := hfirst (hmulti hm)
    rw [(hU.opened hnone).1, hrow]
    constructor
    · simp [ExecutorRequest.sequences, ExecutorRequest.steps, executorStep, hzero, nextSequence,
        requests]
    · simp [ExecutorRequest.nextStepSequence?, nextSequence, requests]
  · rw [hmode] at hm
    show some mode ≠ some ExecutionMode.single
    rw [hm]
    simp
  · obtain ⟨r, row, hr, hhead, -, hrow⟩ := hfirst (Option.some.inj (hmode.symm.trans hm))
    obtain ⟨p', r', hp', hr', htask, hplan⟩ := hmatch hm
    obtain rfl : p = p' := Option.some.inj (hp.symm.trans hp')
    obtain rfl : r = r' := Option.some.inj (hr.symm.trans hr')
    obtain ⟨row', hrow', hhead'⟩ := hlaw _ r hr
    obtain rfl : row' = row := Option.some.inj (hhead'.symm.trans hhead)
    refine ⟨r.publicPayload, row', (executorStep row').sequence, hplan, htask ▸ hrow', ?_⟩
    show List.map executorStep _ = _
    rw [hrow]
    rfl

/-- A revision may be persisted before the append is prepared. -/
theorem prepareAppend_handing {plan : PlanDraft} {executionId operationId : Uuid}
    (hkey : key.startsOperation = true) :
    Triple (fun w =>
      Underway limit false (SubmitsFirst D wf .appendOperation) wf.activeTaskId key sha w₀ w ∧
        w.effects.get key = none)
      (prepareAppend D svc wf plan executionId operationId)
      (fun request w =>
        Prepared false (SubmitsFirst D wf .appendOperation) (items wf.activeTaskId w.log) request ∧
          Underway limit false (SubmitsFirst D wf .appendOperation) wf.activeTaskId key sha w₀ w)
      (Underway limit false (SubmitsFirst D wf .appendOperation) wf.activeTaskId key sha w₀) := by
  let U := fun w =>
    Underway limit false (SubmitsFirst D wf .appendOperation) wf.activeTaskId key sha w₀ w ∧
    w.effects.get key = none
  have hpersist : Triple U (persist D svc wf plan) (fun _ => U) U :=
    .along Idle.refl (fun w w' hw hi => ⟨⟨hw.1.paces.idle hi, hw.1.handing.idle hkey hi⟩,
      (hi.effects key hkey).trans hw.2⟩) fun _ => persist_idle
  refine (hpersist.weaken (fun _ h => h) (fun _ _ h => h) fun _ h => h.1).bind fun p => ?_
  refine (Triple.query fun _ h => h.1).bind fun rows => ?_
  refine (Triple.query fun _ h => h.2.1).bind fun binding => ?_
  refine (Triple.refuseIf fun _ h => h.2.2.1).bind fun _ => .assume fun _ => ?_
  refine (Triple.demand fun _ h => h.2.2.1).bind fun row => .assume fun _ => ?_
  refine (Triple.ofExcept fun _ h => h.2.2.1).bind fun _ => .assume fun _ => .pure fun w hw => ?_
  obtain ⟨hbinding, -, hU, hnone⟩ := hw
  -- The binding has the sequence of the next Step.
  have hsequence : binding.nextStepSequence = nextSequence (items wf.activeTaskId w.log) := by
    have hbound := (hU.opened hnone).2
    unfold World.sequence? at hbound
    split at hbinding
    · exact absurd hbinding (by simp)
    · rename_i b hb
      obtain rfl := Except.ok.inj hbinding
      rw [hb] at hbound
      exact Option.some.inj hbound
  refine ⟨⟨by simp [ExecutorRequest.steps], fun _ => ?_, fun _ => by simp [ExecutorRequest.mode?],
    fun h => absurd h (by decide)⟩, hU⟩
  simp [ExecutorRequest.sequences, ExecutorRequest.steps,
    ExecutorRequest.nextStepSequence?, hsequence]

/-! ## The two nodes -/

/-- Between two commits of the node that is next. -/
structure Between (D : Deployment) (limit : ℕ) (wf : WorkflowState) (n : Node) (w₀ w : World) :
    Prop where
  paces : Paces limit (decide (n = .submitExecution)) wf.activeTaskId w₀ w
  handing : ∀ key inputs, wf.handover? n = some (key, inputs) → Handing w wf.activeTaskId key
    (D.inputDigest inputs) (decide (n = .submitExecution)) (SubmitsFirst D wf n)

/-- Between two commits of a node that hands over, its effect is under way. -/
theorem between_iff {n : Node} {inputs : EffectInputs} (h : wf.handover? n = some (key, inputs)) :
    Between D limit wf n w₀ w ↔ Underway limit (decide (n = .submitExecution)) (SubmitsFirst D wf n)
      wf.activeTaskId key (D.inputDigest inputs) w₀ w := by
  constructor
  · intro hb
    exact ⟨hb.paces, hb.handing key inputs h⟩
  · intro hU
    refine ⟨hU.paces, fun key' inputs' h' => ?_⟩
    obtain ⟨rfl, rfl⟩ := Prod.mk.inj (Option.some.inj (h.symm.trans h'))
    exact hU.handing

/-- The effect of a node is done: its request was sent last and answered, and the binding is at the
next Step. -/
structure Handed (D : Deployment) (wf : WorkflowState) (n : Node) (record : EffectRow)
    (receipt : SubmissionReceipt) (w : World) : Prop where
  sent : ∃ key inputs, wf.handover? n = some (key, inputs) ∧
    Sent wf.activeTaskId key (D.inputDigest inputs) record w
  proper : Proper (decide (n = .submitExecution)) (SubmitsFirst D wf n) record.request
  bound : w.sequence? wf.activeTaskId = some (nextSequence (items wf.activeTaskId w.log))
  response : record.response = some (.command receipt.executionId receipt.executionVersion
    (some receipt.operationId))

/-- The receipt is the response. -/
theorem submissionReceipt_response {I : World → Prop} {record : EffectRow} :
    Triple I (submissionReceipt record) (fun receipt w =>
      record.response = some (.command receipt.executionId receipt.executionVersion
        (some receipt.operationId)) ∧ I w) I := by
  unfold submissionReceipt
  split
  · rename_i hresponse
    exact .pure fun w hw => ⟨hresponse, hw⟩
  · exact .raise fun _ h => h

/-- A program that keeps its effect under way keeps what holds between two commits. -/
theorem between_of_underway {α : Type} {n : Node} {inputs : EffectInputs} {m : Run α}
    {Q : α → World → Prop} (h : wf.handover? n = some (key, inputs))
    (hm : Triple
      (Underway limit (decide (n = .submitExecution)) (SubmitsFirst D wf n) wf.activeTaskId
        key (D.inputDigest inputs) w₀) m
      (fun a w => Q a w ∧ Underway limit (decide (n = .submitExecution)) (SubmitsFirst D wf n)
        wf.activeTaskId key (D.inputDigest inputs) w₀ w)
      (Underway limit (decide (n = .submitExecution)) (SubmitsFirst D wf n) wf.activeTaskId key
        (D.inputDigest inputs) w₀)) :
    Triple (Between D limit wf n w₀) m (fun a w => Q a w ∧ Between D limit wf n w₀ w)
      (Between D limit wf n w₀) :=
  hm.weaken (fun _ hw => (between_iff h).mp hw) (fun _ _ hw => ⟨hw.1, (between_iff h).mpr hw.2⟩)
    fun _ hw => (between_iff h).mpr hw

/-- A submission hands its Steps over once. -/
theorem submit_handing (hlimit : failures (items wf.activeTaskId w₀.log) ≤ limit)
    (hlaw : ∀ (id : Uuid) (r : Revision), w₀.revisions.get id = some r → r.Lawful D)
    (hmatch : wf.executionMode = some .multi → Matched w₀ wf) :
    Triple (Between D limit wf .submitExecution w₀) (submit D svc wf)
      (fun receipt w => (∃ record, Handed D wf .submitExecution record receipt w) ∧
        Between D limit wf .submitExecution w₀ w) (Between D limit wf .submitExecution w₀) := by
  refine (Triple.demand fun _ h => h).bind fun plan => .assume fun hplan => ?_
  refine validatePlanExecutionMode_spec.bind fun _ => .assume fun _ => ?_
  refine (Triple.demand fun _ h => h).bind fun p => .assume fun hp => ?_
  refine (Triple.demand fun _ h => h).bind fun mode => .assume fun hmode => ?_
  have hhand : wf.handover? .submitExecution = some (.submit wf.activeTaskId p.planRevisionNumber,
      .submit p.planRevisionId p.planRevisionNumber p.publicPayloadHash
      wf.runtimeProfile mode wf.userId
        wf.projectId wf.sessionId wf.selectedWorkflowVersionId plan) := by
    simp [WorkflowState.handover?, hplan, hp, hmode]
  refine between_of_underway hhand ?_
  refine (journalRun_handing hlimit (prepareSubmit_handing hmode hp hlaw hmatch)).bind fun record =>
    ?_
  refine (submissionReceipt_response.weaken (fun _ h => h) (fun _ _ h => h) fun _ h => h.2).bind
    fun receipt => .assume fun hresponse => ?_
  refine (Triple.demand fun _ h => h.2).bind fun next => .assume fun hnext => ?_
  refine (projectBinding_handing hnext).bind fun _ => .pure fun w hw => ⟨⟨record, ?_⟩, hw.2.2⟩
  exact ⟨⟨_, _, hhand, hw.2.1⟩, (hw.2.2.bound_of_sent hw.2.1).1, hw.1, hresponse⟩

/-- An append hands its Step over once, with the plan that was persisted for it. -/
theorem append_handing {d : MultiDecision} (hd : wf.multiDecision = some d)
    (hlimit : failures (items wf.activeTaskId w₀.log) ≤ limit) :
    Triple (Between D limit wf .appendOperation w₀) (append D svc wf d)
      (fun receipt w => (∃ record, Handed D wf .appendOperation record receipt w ∧
          receipt.persistedPlan ≠ none ∧ record.request.persistedPlan? = receipt.persistedPlan) ∧
        Between D limit wf .appendOperation w₀ w) (Between D limit wf .appendOperation w₀) := by
  refine (Triple.demand fun _ h => h).bind fun mode => .assume fun _ => ?_
  refine (Triple.refuseIf fun _ h => h).bind fun _ => .assume fun _ => ?_
  refine (Triple.demand fun _ h => h).bind fun plan => .assume fun hplan => ?_
  refine (Triple.demand fun _ h => h).bind fun op => .assume fun hop => ?_
  refine (Triple.demand fun _ h => h).bind fun x => .assume fun hx => ?_
  refine (Triple.demand fun _ h => h).bind fun p => .assume fun hp => ?_
  have hhand : wf.handover? .appendOperation = some (.append wf.activeTaskId op,
      .append x op p.planRevisionId (plan.withStep plan.first) d) := by
    simp [WorkflowState.handover?, hplan, hp, hop, hx, hd]
  refine between_of_underway hhand ?_
  refine (journalRun_handing hlimit (prepareAppend_handing rfl)).bind fun record => ?_
  refine (submissionReceipt_response.weaken (fun _ h => h) (fun _ _ h => h) fun _ h => h.2).bind
    fun receipt => .assume fun hresponse => ?_
  refine (Triple.demand fun _ h => h.2).bind fun next => .assume fun hnext => ?_
  refine (projectBinding_handing hnext).bind fun _ => ?_
  refine (Triple.demand fun _ h => h.2.2).bind fun stored => .assume fun hstored => ?_
  refine .pure fun w hw => ⟨⟨record, ?_, by simp, hstored⟩, hw.2.2⟩
  exact ⟨⟨_, _, hhand, hw.2.1⟩, (hw.2.2.bound_of_sent hw.2.1).1, hw.1, hresponse⟩

/-- What a node that handed its Steps over makes of the workflow. -/
structure HandedOver (D : Deployment) (n : Node) (wf wf' : WorkflowState) (record : EffectRow)
    (receipt : SubmissionReceipt) (w : World) : Prop extends Handed D wf n record receipt w where
  count : wf'.correctionCount = wf.correctionCount
  mode : wf'.executionMode = wf.executionMode
  operation : wf'.currentOperationId = some receipt.operationId
  plan : (n = .submitExecution ∧ wf'.plan = wf.plan) ∨ (n = .appendOperation ∧
    ∃ plan p, record.request.persistedPlan? = some (plan, p) ∧ wf'.plan = some plan)

/-- Both nodes with their receipt and their edge. -/
theorem superstep_handing {config : Config} {s : SessionState} {n : Node}
    (hn : n = .submitExecution ∨ n = .appendOperation) (hwf : s.workflow = some wf)
    (hlimit : failures (items wf.activeTaskId w₀.log) ≤ limit)
    (hlaw : ∀ (id : Uuid) (r : Revision), w₀.revisions.get id = some r → r.Lawful D)
    (hmatch : n = .submitExecution → wf.executionMode = some .multi → Matched w₀ wf) :
    Triple (Between D limit wf n w₀) (superstep D config svc n s)
      (fun r w => (∃ wf', SameTask s r.1 wf wf' ∧
        (∃ record receipt, HandedOver D n wf wf' record receipt w) ∧ successor n r.1 = .ok r.2) ∧
        Between D limit wf n w₀ w) (Between D limit wf n w₀) := by
  rcases hn with rfl | rfl
  · refine superstep_of_business rfl hwf (fun _ h => h) ?_
    refine (submit_handing hlimit hlaw (hmatch rfl)).bind fun receipt => .pure fun w hw => ?_
    obtain ⟨⟨record, hhanded⟩, hb⟩ := hw
    exact ⟨⟨rfl, record, receipt, hhanded, rfl, rfl, rfl, .inl ⟨rfl, rfl⟩⟩, hb⟩
  · refine superstep_of_business rfl hwf (fun _ h => h) ?_
    refine (Triple.demand fun _ h => h).bind fun d => .assume fun hd => ?_
    refine (append_handing hd hlimit).bind fun receipt => ?_
    cases hplan : receipt.persistedPlan with
    | none =>
      refine .pure fun w hw => ?_
      obtain ⟨⟨record, -, hsome, -⟩, -⟩ := hw
      exact absurd rfl hsome
    | some stored =>
      refine .pure fun w hw => ?_
      obtain ⟨⟨record, hhanded, -, hstored⟩, hb⟩ := hw
      exact ⟨⟨rfl, record, receipt, hhanded, rfl, rfl, rfl,
        .inr ⟨rfl, stored.1, stored.2, hstored, rfl⟩⟩, hb⟩

end

end ExAgent.Graph
