import ExAgent.Graph.History

/-!
# The contracts of the services

What the transactions of `Store.lean` and the services of `Services.lean` do to the tables, as crash
contracts. Most commits are of no interest to an invariant of the graph: a status, a lock, a
binding, a response that arrives. `Quiet` says what such a commit leaves alone, and the contracts
below hold for every condition `I` on the tables that quiet commits keep (`QuietClosed`). What is
left for a caller to show is that `I` survives the commits that matter: a new revision, a new
request to run Steps, a request that leaves, a Task that is closed.
-/

namespace ExAgent.Graph

open Lib Prog

/-- The keys of the requests that hand Steps to the Executor. -/
def EffectKey.startsOperation : EffectKey → Bool
  | .submit .. | .append .. => true
  | .finalize _ | .cancel _ | .report _ => false

/-- A commit that changes no revision, no execution of a Task or of a binding, no request that was
prepared and not the log; a request it prepares has no Steps. -/
structure Quiet (w w' : World) : Prop where
  revisions : w'.revisions = w.revisions
  log : w'.log = w.log
  tasks : ∀ taskId, (w'.tasks.get taskId).map TaskRow.executionId =
    (w.tasks.get taskId).map TaskRow.executionId
  bindings : ∀ taskId, (w'.bindings.get taskId).map Binding.executionId =
    (w.bindings.get taskId).map Binding.executionId
  effects : ∀ (key : EffectKey) (row' : EffectRow), w'.effects.get key = some row' →
    (∃ row, w.effects.get key = some row ∧ row'.request = row.request ∧
      row'.inputSha256 = row.inputSha256) ∨
    (key.startsOperation = false ∧ row'.request.steps = [])

/-- A condition that quiet commits keep. -/
def QuietClosed (I : World → Prop) : Prop := ∀ w w', I w → Quiet w w' → I w'

/-- Where the effects are the same, nothing was prepared. -/
theorem Quiet.of_effects {w w' : World} (hr : w'.revisions = w.revisions) (hl : w'.log = w.log)
    (ht : ∀ taskId, (w'.tasks.get taskId).map TaskRow.executionId =
      (w.tasks.get taskId).map TaskRow.executionId)
    (hb : ∀ taskId, (w'.bindings.get taskId).map Binding.executionId =
      (w.bindings.get taskId).map Binding.executionId)
    (he : w'.effects = w.effects) : Quiet w w' :=
  ⟨hr, hl, ht, hb, fun _ row' h => .inl ⟨row', he ▸ h, rfl, rfl⟩⟩

/-- Rewriting a row and not the field a view reads. -/
theorem map_modifyAt {α β : Type} (rows : Table Uuid α) (key : Uuid) {f : α → α} {view : α → β}
    (hf : ∀ row, rows.get key = some row → view (f row) = view row) (k : Uuid) :
    ((rows.modifyAt key f).get k).map view = (rows.get k).map view := by
  rw [Table.get_modifyAt]
  split
  · rename_i hk
    cases hrow : rows.get k with
    | none => rfl
    | some row => simp [hf row (hk ▸ hrow)]
  · rfl

section

variable {I : World → Prop}

/-! ## Quiet transactions -/

/-- A transaction whose commits are all quiet. -/
theorem transact_quiet {α : Type} {f : World → Except Raised (α × World)} (hI : QuietClosed I)
    (hf : ∀ w a w', f w = .ok (a, w') → Quiet w w') :
    Triple I (.transact f : Run α) (fun _ => I) I :=
  .transact (fun w hw a w' h => ⟨hI w w' hw (hf w a w' h), hI w w' hw (hf w a w' h)⟩) fun _ h => h

/-- A Task's status is a quiet commit. -/
theorem updateStatus_spec (hI : QuietClosed I) (taskId : Uuid) (status : TaskStatus) :
    Triple I (updateStatus taskId status) (fun _ => I) I := by
  refine transact_quiet hI fun w a w' h => ?_
  split at h
  · exact absurd h (by simp)
  · obtain ⟨-, rfl⟩ : a = () ∧ _ = w' := by simpa using h
    exact .of_effects rfl rfl (map_modifyAt _ _ fun _ _ => rfl) (fun _ => rfl) rfl

/-- The Session lock is a quiet commit. -/
theorem lockSession_spec (hI : QuietClosed I) (taskId : Uuid) :
    Triple I (lockSession taskId) (fun _ => I) I := by
  refine transact_quiet hI fun w a w' h => ?_
  split at h
  · exact absurd h (by simp)
  · split at h
    · split at h
      · exact absurd h (by simp)
      · obtain ⟨-, rfl⟩ : a = () ∧ w = w' := by simpa using h
        exact .of_effects rfl rfl (fun _ => rfl) (fun _ => rfl) rfl
    · obtain ⟨-, rfl⟩ : a = () ∧ _ = w' := by simpa using h
      exact .of_effects rfl rfl (fun _ => rfl) (fun _ => rfl) rfl

/-- A binding's version is a quiet commit. -/
theorem updateBinding_spec (hI : QuietClosed I) (taskId : Uuid) (version sequence : ℕ) :
    Triple I (updateBinding taskId version sequence) (fun _ => I) I := by
  refine transact_quiet hI fun w a w' h => ?_
  split at h
  · exact absurd h (by simp)
  · obtain ⟨-, rfl⟩ : a = () ∧ _ = w' := by simpa using h
    exact .of_effects rfl rfl (fun _ => rfl) (map_modifyAt _ _ fun _ _ => rfl) rfl

/-- Moving a binding on keeps the execution it is of. -/
theorem Quiet.of_binding {w : World} {taskId : Uuid} {b b' : Binding}
    (hb : w.bindings.get taskId = some b) (hid : b'.executionId = b.executionId) :
    Quiet w { w with bindings := w.bindings.modifyAt taskId fun _ => b' } := by
  refine .of_effects rfl rfl (fun _ => rfl) (map_modifyAt _ _ fun b₀ hb₀ => ?_) rfl
  obtain rfl : b = b₀ := Option.some.inj (hb.symm.trans hb₀)
  exact hid

/-- A binding that exists is moved on without touching its Task; a new one is written to the Task,
which is not bound to another execution. -/
theorem projectBinding_cases {taskId executionId : Uuid} {version : ℕ} {operationId : Option Uuid}
    {next : Option ℕ} {create : Bool} {P : World → Prop} {Q : World → Prop} (hPI : ∀ w, P w → I w)
    (hmove : ∀ w b b', P w → w.bindings.get taskId = some b → b.executionId = executionId →
      b'.executionId = b.executionId →
      I { w with bindings := w.bindings.modifyAt taskId fun _ => b' } ∧
        Q { w with bindings := w.bindings.modifyAt taskId fun _ => b' })
    (hcreate : ∀ w b task, create = true → P w → w.bindings.get taskId = none →
      w.tasks.get taskId = some task → task.executionId = none ∨
      task.executionId = some executionId →
      b.executionId = executionId → I (w.withBinding taskId b) ∧ Q (w.withBinding taskId b)) :
    Triple P (projectBinding taskId executionId version operationId next create)
      (fun _ => Q) I := by
  refine .transact (fun w hw a w' h => ?_) hPI
  split at h
  · exact absurd h (by simp)
  · rename_i task htask
    split at h
    · -- There is no row yet, and it may be created.
      rename_i hnone
      split at h
      · split_ifs at h with hother
        obtain ⟨-, rfl⟩ : a = () ∧ _ = w' := by simpa using h
        refine hcreate w _ task rfl hw hnone htask ?_ rfl
        by_contra hne
        exact hother (not_or.mp hne)
      · exact absurd h (by simp)
      · exact absurd h (by simp)
    · -- There is a row, and its execution is the one that is projected.
      rename_i b hb
      dsimp only at h
      split at h
      · exact absurd h (by simp)
      · rename_i hid
        have key : ∀ b' : Binding,
            (.ok ((), { w with bindings := w.bindings.modifyAt taskId fun _ => b' }) :
              Except Raised (Unit × World)) = .ok (a, w') → b'.executionId = b.executionId →
            I w' ∧ Q w' := by
          intro b' hok hb'
          obtain ⟨-, rfl⟩ : a = () ∧ _ = w' := by simpa using hok
          exact hmove w b b' hw hb (not_not.mp hid) hb'
        split at h
        · exact key _ h rfl
        · split_ifs at h
          · exact key _ h rfl
          · split at h
            · exact key _ h rfl
            · exact absurd h (by simp)
          · exact key _ h rfl

/-- The projected binding is a quiet commit. -/
theorem projectBinding_spec (hI : QuietClosed I) (taskId executionId : Uuid) (version : ℕ)
    (operationId : Option Uuid) (next : Option ℕ) :
    Triple I (projectBinding taskId executionId version operationId next false) (fun _ => I) I := by
  refine projectBinding_cases (fun _ h => h) (fun w b b' hw hb _ hid => ?_) fun _ _ _ hfalse => ?_
  · have hq := Quiet.of_binding hb hid
    exact ⟨hI _ _ hw hq, hI _ _ hw hq⟩
  · exact absurd hfalse (by simp)

/-- Storing a response changes no request. -/
theorem Quiet.of_response {w : World} {key : EffectKey} {row : EffectRow}
    (hrow : w.effects.get key = some row) (written : EffectRow)
    (hreq : written.request = row.request) (hsha : written.inputSha256 = row.inputSha256) :
    Quiet w { w with effects := w.effects.modifyAt key fun _ => written } := by
  refine ⟨rfl, rfl, fun _ => rfl, fun _ => rfl, fun k row' h => ?_⟩
  rw [Table.get_modifyAt] at h
  split at h
  · rename_i hk
    rw [hk, hrow] at h
    obtain rfl : written = row' := by simpa using h
    exact .inl ⟨row, by rw [hk, hrow], hreq, hsha⟩
  · exact .inl ⟨row', h, rfl, rfl⟩

/-- The record of a row is the row. -/
theorem eq_of_recordOf {D : Deployment} {row record : EffectRow} (h : recordOf D row = .ok record) :
    record = row := by
  unfold recordOf at h
  split at h
  · exact absurd h (by simp)
  · exact (Except.ok.inj h).symm

/-- A finished effect keeps the input it was prepared with. -/
theorem completeEffect_spec {D : Deployment} (hI : QuietClosed I) (key : EffectKey)
    (response : EffectResponse) (sha : Sha256) :
    Triple (fun w => I w ∧ ∃ row, w.effects.get key = some row ∧ row.inputSha256 = sha)
      (completeEffect D key response)
      (fun record w => I w ∧ w.effects.get key = some record ∧ record.inputSha256 = sha) I := by
  refine .transact (fun w hw record w' h => ?_) fun w hw => hw.1
  obtain ⟨hw, row, hrow, hsha⟩ := hw
  rw [hrow] at h
  dsimp only at h
  split at h
  · split at h
    · exact absurd h (by simp)
    · split at h
      · exact absurd h (by simp)
      · rename_i record' hrec
        obtain ⟨rfl, rfl⟩ : record' = record ∧ w = w' := by simpa using h
        obtain rfl := eq_of_recordOf hrec
        exact ⟨hw, hw, hrow, hsha⟩
  · split at h
    · exact absurd h (by simp)
    · rename_i record' hrec
      obtain ⟨rfl, rfl⟩ : record' = record ∧ _ = w' := by simpa using h
      have hq := Quiet.of_response hrow { row with response := some response } rfl rfl
      obtain rfl := eq_of_recordOf hrec
      refine ⟨hI _ _ hw hq, hI _ _ hw hq, ?_, hsha⟩
      simp [hrow]

/-! ## The journal -/

/-- The journal is read and not changed. -/
theorem getEffect_spec {D : Deployment} (key : EffectKey) :
    Triple I (getEffect D key) (fun found w => I w ∧ w.effects.get key = found) I := by
  refine (Triple.query fun _ h => h).weaken (fun _ h => h) (fun found w hw => ?_) fun _ h => h
  obtain ⟨h, hw⟩ := hw
  refine ⟨hw, ?_⟩
  split at h
  · rename_i hnone
    rw [hnone]
    exact Except.ok.inj h
  · rename_i row hrow
    split at h
    · exact absurd h (by simp)
    · rename_i record hrec
      obtain rfl := eq_of_recordOf hrec
      rw [hrow]
      exact Except.ok.inj h

/-- Preparing an effect keeps what an insert keeps, and the stored row has the caller's inputs. -/
theorem prepareEffect_spec {D : Deployment} {P : World → Prop} (key : EffectKey) (taskId : Uuid)
    (kind : EffectKind) (sha : Sha256) (request : ExecutorRequest) (hPI : ∀ w, P w → I w)
    (hins : ∀ w, P w → I (w.withEffect key
      ⟨taskId, kind, sha, D.requestDigest request, request, none⟩)) :
    Triple P (prepareEffect D key taskId kind sha request)
      (fun record w => I w ∧ w.effects.get key = some record) I := by
  refine .transact (fun w hw record w' h => ?_) hPI
  dsimp only at h
  split at h
  · exact absurd h (by simp)
  · rename_i row hrow
    split at h
    · exact absurd h (by simp)
    · rename_i record' hrec
      split at h
      · obtain ⟨rfl, rfl⟩ : record' = record ∧ _ = w' := by simpa using h
        obtain rfl := eq_of_recordOf hrec
        exact ⟨hins w hw, hins w hw, hrow⟩
      · exact absurd h (by simp)

/-- The contract of `EffectJournal.run`. `Good` is what `I` says of the request stored under the key
with the caller's inputs; a request is sent only when it is good. -/
theorem journalRun_spec (Ready Good : ExecutorRequest → World → Prop) {D : Deployment}
    {taskId : Uuid} {key : EffectKey} {kind : EffectKind} {inputs : EffectInputs}
    {prepare : Run ExecutorRequest} {send : ExecutorRequest → Run EffectResponse}
    (hI : QuietClosed I) (hprepare : Triple (fun w => I w ∧ w.effects.get key = none) prepare
      (fun request w => Ready request w) I)
    (hready : ∀ request w, Ready request w → I w)
    (hins : ∀ request w, Ready request w → I (w.withEffect key
      ⟨taskId, kind, D.inputDigest inputs, D.requestDigest request, request, none⟩))
    (hgood : ∀ w row, I w → w.effects.get key = some row → row.inputSha256 = D.inputDigest inputs →
      Good row.request w)
    (hsend : ∀ request row, row.request = request → row.inputSha256 = D.inputDigest inputs →
      Triple (fun w => (I w ∧ w.effects.get key = some row) ∧ Good request w) (send request)
        (fun _ w => I w ∧ w.effects.get key = some row) I) :
    Triple I (journalRun D taskId key kind inputs prepare send)
      (fun record w => I w ∧ w.effects.get key = some record ∧
        record.inputSha256 = D.inputDigest inputs) I := by
  refine (getEffect_spec key).bind fun found => ?_
  have hrecord : Triple (fun w => I w ∧ w.effects.get key = found)
      (storedRecord D taskId key kind inputs prepare found)
      (fun record w => I w ∧ w.effects.get key = some record) I := by
    cases found with
    | some record => exact .pure fun w hw => hw
    | none =>
      exact hprepare.bind fun request =>
        prepareEffect_spec key taskId kind _ request (hready request) (hins request)
  refine hrecord.bind fun record => ?_
  refine (Triple.refuseIf fun w hw => hw.1).bind fun _ => .assume fun hid => ?_
  have hsha : record.inputSha256 = D.inputDigest inputs := (not_not.mp hid).2.2
  unfold completedRecord
  cases record.response with
  | some _ => exact .pure fun w hw => ⟨hw.1, hw.2, hsha⟩
  | none =>
    refine ((hsend record.request record rfl hsha).weaken
      (fun w hw => ⟨hw, hgood w record hw.1 hw.2 hsha⟩) (fun _ _ h => h) fun _ h => h).bind
        fun response => ?_
    exact (completeEffect_spec hI key response (D.inputDigest inputs)).weaken
      (fun w hw => ⟨hw.1, record, hw.2, hsha⟩) (fun _ _ h => h) fun _ h => h

/-- A request that is sent leaves its entry in the log, and nothing else. -/
theorem send_posts {P J : World → Prop} (svc : Services) (taskId : Uuid) (request : ExecutorRequest)
    (hPI : ∀ w, P w → I w) (hJI : ∀ w, J w → I w)
    (hpost : ∀ w, P w → J (w.logged (.sent taskId request))) :
    Triple P (send svc taskId request) (fun _ => J) I := by
  refine (Triple.ofExcept hPI).bind fun _ => .assume fun _ => ?_
  have hsent : Triple P (post taskId request) (fun _ => J) I := by
    refine .transact (fun w hw a w' h => ?_) hPI
    obtain ⟨-, rfl⟩ : () = a ∧ _ = w' := by simpa using h
    exact ⟨hJI _ (hpost w hw), hpost w hw⟩
  refine hsent.bind fun _ => ?_
  split
  · refine (Triple.ofExcept hJI).bind fun a => .assume fun _ => ?_
    exact .pure fun w hw => hw
  · refine (Triple.ofExcept hJI).bind fun a => .assume fun _ => ?_
    refine (Triple.refuseIf hJI).bind fun _ => .assume fun _ => ?_
    refine (Triple.refuseIf hJI).bind fun _ => .assume fun _ => ?_
    exact .pure fun w hw => hw

/-- Sending a request keeps what its entry in the log keeps. -/
theorem send_spec {P : World → Prop} (svc : Services) (taskId : Uuid) (request : ExecutorRequest)
    {row : EffectRow} {key : EffectKey} (hPI : ∀ w, P w → I w)
    (hpost : ∀ w, P w → I (w.logged (.sent taskId request))) :
    Triple (fun w => P w ∧ w.effects.get key = some row) (send svc taskId request)
      (fun _ w => I w ∧ w.effects.get key = some row) I :=
  send_posts svc taskId request (fun w hw => hPI w hw.1) (fun _ hw => hw.1)
    fun w hw => ⟨hpost w hw.1, hw.2⟩

end

/-! ## Plans -/

/-- `mapM` in `Except` maps element by element. -/
theorem forall₂_of_mapM {ε α β : Type} {f : α → Except ε β} {l : List α} {l' : List β}
    (h : l.mapM f = .ok l') : List.Forall₂ (fun a b => f a = .ok b) l l' := by
  induction l generalizing l' with
  | nil =>
    obtain rfl : [] = l' := Except.ok.inj h
    exact .nil
  | cons a l ih =>
    rw [List.mapM_cons] at h
    cases ha : f a with
    | error e =>
      rw [ha] at h
      exact absurd h (by simp [bind, Except.bind])
    | ok b =>
      cases hl : l.mapM f with
      | error e =>
        rw [ha, hl] at h
        exact absurd h (by simp [bind, Except.bind])
      | ok bs =>
        rw [ha, hl] at h
        obtain rfl : b :: bs = l' := Except.ok.inj h
        exact .cons ha (ih hl)

/-- What each result has in common with its argument, the lists have. -/
theorem map_eq_of_mapM {ε α β γ : Type} {f : α → Except ε β} {g : β → γ} {h : α → γ} {l : List α}
    {l' : List β} (hf : ∀ a b, f a = .ok b → g b = h a) (hl : l.mapM f = .ok l') :
    l'.map g = l.map h := by
  have hrel := forall₂_of_mapM hl
  clear hl
  induction hrel with
  | nil => rfl
  | cons ha _ ih => rw [List.map_cons, List.map_cons, hf _ _ ha, ih]

/-- The row of a plan's first Step. -/
def firstRow (D : Deployment) (taskId : Uuid) (plan : PlanDraft) : Except Raised PlanStep :=
  match compileFile D taskId plan.first with
  | .error e => .error e
  | .ok c => .ok (planStep plan.first c.1 c.2)

/-- The first Step of a revision is the compiled first Step of its payload. -/
def Revision.Lawful (D : Deployment) (r : Revision) : Prop :=
  ∃ row, firstRow D r.taskId r.publicPayload = .ok row ∧ r.ordered.head? = some row

/-- A compiled Step keeps its sequence. -/
theorem compileFile_sequence {D : Deployment} {taskId : Uuid} {step : PlanStepDraft}
    {c : CompiledStep × InputPath} (h : compileFile D taskId step = .ok c) :
    c.1.sequence = step.sequence := by
  unfold compileFile at h
  split at h
  · exact absurd h (by simp)
  · rename_i item hitem
    obtain rfl := Except.ok.inj h
    unfold compile at hitem
    split at hitem
    · split at hitem
      · split at hitem
        · exact absurd hitem (by simp)
        · split at hitem
          · exact absurd hitem (by simp)
          · split at hitem
            · exact absurd hitem (by simp)
            · exact (Except.ok.inj hitem) ▸ rfl
      · exact absurd hitem (by simp)
    · split at hitem
      · exact absurd hitem (by simp)
      · exact (Except.ok.inj hitem) ▸ rfl
    · exact absurd hitem (by simp)

/-- The rows of a compiled plan stand in the order of their sequences. -/
theorem map_sequence_planSteps {D : Deployment} {taskId : Uuid} {plan : PlanDraft}
    {compiled : List (CompiledStep × InputPath)} {steps : List PlanStep}
    (hc : plan.steps.mapM (compileFile D taskId) = .ok compiled)
    (hs : planSteps plan compiled = .ok steps) :
    steps.map PlanStep.sequence = List.range plan.steps.length := by
  have hcompiled : compiled.map (fun c => c.1.sequence) = plan.steps.map PlanStepDraft.sequence :=
    map_eq_of_mapM (fun _ _ h => compileFile_sequence h) hc
  have hsteps : steps.map PlanStep.sequence = compiled.map fun c => c.1.sequence := by
    refine map_eq_of_mapM (fun c row hrow => ?_) hs
    split at hrow
    · exact absurd hrow (by simp)
    · obtain rfl := Except.ok.inj hrow
      rfl
  rw [hsteps, hcompiled]
  exact plan.sequences

/-- A revision that is made of a compiled plan is lawful. -/
theorem lawful_of_compiled {D : Deployment} {r : Revision}
    {compiled : List (CompiledStep × InputPath)}
    (hc : r.publicPayload.steps.mapM (compileFile D r.taskId) = .ok compiled)
    (hs : planSteps r.publicPayload compiled = .ok r.steps) : r.Lawful D := by
  have hsorted : r.ordered = r.steps := by
    apply List.Pairwise.insertionSort_eq
    have h : (r.steps.map PlanStep.sequence).Pairwise (· ≤ ·) := by
      rw [map_sequence_planSteps hc hs]
      exact List.pairwise_le_range
    exact List.pairwise_map.mp h
  -- The first compiled Step has sequence zero, so its draft is the first one.
  obtain ⟨c, cs, hfirst, -, rfl⟩ := List.forall₂_cons_left_iff.mp (forall₂_of_mapM hc)
  have hdraft : r.publicPayload.steps[c.1.sequence]? = some r.publicPayload.first := by
    rw [compileFile_sequence hfirst, r.publicPayload.first_sequence]
    rfl
  refine ⟨planStep r.publicPayload.first c.1 c.2, by simp [firstRow, hfirst], ?_⟩
  obtain ⟨row, rows, hrow, -, hsteps⟩ := List.forall₂_cons_left_iff.mp (forall₂_of_mapM hs)
  rw [hdraft] at hrow
  rw [hsorted, hsteps, ← Except.ok.inj hrow]
  rfl

/-- What `persist` finds or makes: a revision of the Task with the next number. -/
structure NextRevision (w : World) (wf : WorkflowState) (p : PersistedPlan)
    (r : Revision) : Prop where
  stored : w.revisions.get p.planRevisionId = some r
  plan : p = r.persistedPlan p.planRevisionId
  task : r.taskId = wf.activeTaskId
  number : r.revisionNumber = wf.persisted.elim 0 PersistedPlan.planRevisionNumber + 1

/-- The row found for a number. -/
theorem revisionAt_spec {w : World} {taskId revisionId : Uuid} {number : ℕ} {r : Revision}
    (h : w.revisionAt taskId number = some (revisionId, r)) :
    w.revisions.get revisionId = some r ∧ r.taskId = taskId ∧ r.revisionNumber = number := by
  unfold World.revisionAt at h
  have hmem := List.mem_of_find?_eq_some h
  have hp := List.find?_some h
  exact ⟨Table.mem_entries_iff.mp hmem, by simpa using hp⟩

/-- A stored plan that is returned is that of the revision with the number. -/
theorem existingRevision_some {w : World} {taskId : Uuid} {number : ℕ} {hash registry : Sha256}
    {feedback : Option String} {compiled : List (CompiledStep × InputPath)} {p : PersistedPlan}
    (h : existingRevision w taskId number hash registry feedback compiled = .ok (some p)) :
    ∃ revisionId r, w.revisionAt taskId number = some (revisionId, r) ∧
      p = r.persistedPlan revisionId := by
  unfold existingRevision at h
  split at h
  · split at h
    · exact absurd h (by simp)
    · exact absurd h (by simp)
  · rename_i revisionId r hat
    split at h
    · exact absurd h (by simp)
    · exact ⟨revisionId, r, hat, (Option.some.inj (Except.ok.inj h)).symm⟩

/-- A revision is missing only where the plan's next one is expected. -/
theorem existingRevision_none {w : World} {taskId : Uuid} {number : ℕ} {hash registry : Sha256}
    {feedback : Option String} {compiled : List (CompiledStep × InputPath)}
    (h : existingRevision w taskId number hash registry feedback compiled = .ok none) :
    number = (w.plans.get taskId).elim 0 PlanRow.currentRevision + 1 := by
  unfold existingRevision at h
  split at h
  · split at h
    · exact absurd h (by simp)
    · rename_i hn
      exact not_not.mp hn
  · split at h
    · exact absurd h (by simp)
    · exact absurd h (by simp)

section

variable {I : World → Prop}

/-- The plan has the mode the user chose, or the node stops. -/
theorem validatePlanExecutionMode_spec {wf : WorkflowState} {plan : PlanDraft} :
    Triple I (validatePlanExecutionMode wf plan)
      (fun _ w => wf.executionMode = some plan.executionMode ∧ I w) I := by
  unfold validatePlanExecutionMode need
  refine (Triple.demand fun _ h => h).bind fun expected => .assume fun hexpected => ?_
  refine (Triple.refuseIf fun _ h => h).weaken (fun _ h => h) (fun _ w hw => ?_) fun _ h => h
  exact ⟨by rw [hexpected, not_not.mp hw.1], hw.2⟩

/-- The contract of `DurablePlans.persist`. -/
theorem persist_spec {D : Deployment} {svc : Services} {wf : WorkflowState} {plan : PlanDraft}
    (hins : ∀ w row revisions r, I w → w.revisions.insert svc.newRevisionId r = some revisions →
      r.taskId = wf.activeTaskId →
      r.revisionNumber = wf.persisted.elim 0 PersistedPlan.planRevisionNumber + 1 →
      r.publicPayload = plan → r.Lawful D → I (w.withRevision row revisions svc.newRevisionId r)) :
    Triple I (persist D svc wf plan)
      (fun p w => (wf.executionMode = some plan.executionMode ∧ ∃ r, NextRevision w wf p r) ∧ I w)
      I := by
  refine validatePlanExecutionMode_spec.bind fun _ => .assume fun hmode => ?_
  refine (Triple.ofExcept fun _ h => h).bind fun compiled => .assume fun hcompiled => ?_
  refine (Triple.ofExcept fun _ h => h).bind fun _ => .assume fun _ => ?_
  refine .transact (fun w hw p w' h => ?_) fun _ h => h
  split at h
  · exact absurd h (by simp)
  · split at h
    · exact absurd h (by simp)
    · -- The revision is there already.
      rename_i found hfound
      obtain ⟨rfl, rfl⟩ : found = p ∧ w = w' := by simpa using h
      obtain ⟨revisionId, r, hat, rfl⟩ := existingRevision_some hfound
      obtain ⟨hget, htask, hnumber⟩ := revisionAt_spec hat
      exact ⟨hw, ⟨hmode, r, hget, rfl, htask, hnumber⟩, hw⟩
    · -- A new one is inserted, with the number that was expected.
      rename_i hnone
      have hnumber := existingRevision_none hnone
      split at h
      · exact absurd h (by simp)
      · rename_i steps hsteps
        dsimp only at h
        split at h
        · exact absurd h (by simp)
        · rename_i revisions hrevisions
          have hnext : (w.nextPlanRow wf.activeTaskId svc.newPlanId).currentRevision =
              wf.persisted.elim 0 PersistedPlan.planRevisionNumber + 1 := by
            rw [hnumber]
            unfold World.nextPlanRow
            cases w.plans.get wf.activeTaskId <;> rfl
          have hI := hins w (w.nextPlanRow wf.activeTaskId svc.newPlanId) revisions _ hw hrevisions
            rfl hnext rfl (lawful_of_compiled hcompiled hsteps)
          obtain ⟨rfl, rfl⟩ : _ = p ∧ _ = w' := by simpa using h
          refine ⟨hI, ⟨hmode, _, ?_, rfl, rfl, hnext⟩, hI⟩
          exact ((Table.get_of_insert hrevisions).2 _).trans (if_pos rfl)

end

end ExAgent.Graph
