import ExAgent.Graph.Frame
import ExAgent.Graph.Guarantees

/-!
# Success and reports

A Task that was submitted becomes SUCCEEDED only with a report: the Executor's result says
SUCCEEDED, the report effect of the Task is stored with the artifact the Executor answered, and the
last message of the Task is the markdown of the stored request. The text is generated anew whenever
`generate_report` runs again after a crash, but only the first one is journaled, and the state gets
what the journal has.

The invariant (`Reporting`) says this of every state, in the middle of nodes too. Only three kinds
of node touch what it looks at: `build_report_evidence` and `generate_report`, and the terminal
nodes. For all others `superstep_calm` is enough.
-/

namespace ExAgent.Graph

open Lib Prog

/-! ## What is reported -/

/-- `build_report_evidence` ran for the Task and its execution, and this is what `executor.result`
returned there. -/
def Evidenced (log : List Event) (taskId x : Uuid) (result : ExecutionResult) : Prop :=
  ∃ r ∈ nodeRuns log, r.node = .buildReportEvidence ∧ r.before.activeTaskId = taskId ∧
    r.before.executionId = some x ∧ r.svc.result = .ok result

/-- The Executor reported the success of the Task's execution. -/
def ReachedSuccess (log : List Event) (taskId x : Uuid) : Prop :=
  ∃ result, Evidenced log taskId x result ∧ result.status = .succeeded ∧ result.executionId = x

/-- The row of a report effect: a request to report the Task's execution, for evidence of its
success. -/
def ReportsSuccess (D : Deployment) (w : World) (taskId : Uuid) (row : EffectRow) : Prop :=
  ∃ t x evidence source markdown, w.tasks.get taskId = some t ∧ t.executionId = some x ∧
    row.request = .report x source markdown ∧ row.inputSha256 = D.inputDigest (.report x evidence) ∧
    evidence.executorResult.status = .succeeded ∧ evidence.executorResult.executionId = x ∧
    Evidenced w.log taskId x evidence.executorResult

/-- The Task has an execution, or a submission of it is in the journal, which is written before the
request leaves. -/
def Submitted (w : World) (taskId : Uuid) (t : TaskRow) : Prop :=
  t.executionId ≠ none ∨ ∃ number row, w.effects.get (.submit taskId number) = some row

/-- The report of a Task is stored with the Executor's answer, and its text is the Task's last
message. -/
def Reported (w : World) (taskId : Uuid) (t : TaskRow) : Prop :=
  ∃ row x source markdown artifactId, w.effects.get (.report taskId) = some row ∧
    row.response = some (.artifact artifactId) ∧ row.request = .report x source markdown ∧
    t.executionId = some x ∧ t.terminalMessage = some markdown

/-! ## The invariant -/

/-- What a reporting node finds. -/
def ReportStage (w : World) (wf : WorkflowState) : Node → Prop
  | .generateReport => ∃ x evidence, wf.executionId = some x ∧ wf.reportEvidence = some evidence ∧
    Evidenced w.log wf.activeTaskId x evidence.executorResult
  | .commitSuccess => ∃ row x source markdown artifactId,
    w.effects.get (.report wf.activeTaskId) = some row ∧
    row.response = some (.artifact artifactId) ∧ row.request = .report x source markdown ∧
    wf.executionId = some x ∧ wf.reportMarkdown = some markdown
  | _ => True

/-- The nodes that close their Task. -/
def Node.closes : Node → Bool
  | .commitAnswer | .commitSuccess | .commitRejected | .commitBlocked | .commitFailed
  | .commitCancelled => true
  | _ => false

/-- The active Task, before a node. -/
structure ActiveReport (w : World) (wf : WorkflowState) (n : Node) : Prop where
  /-- From `hydrate_turn` on the Task is known to have a row. -/
  row : n ≠ .hydrateTurn → w.tasks.get wf.activeTaskId ≠ none
  /-- Only a node that closes it can find it closed. -/
  live : n.closes = false → ∀ t, w.tasks.get wf.activeTaskId = some t → t.status.isTerminal = false
  stage : ReportStage w wf n

/-- The invariant of reports. -/
structure Reporting (D : Deployment) (w : World) (s : SessionState)
    (next : Option Node) : Prop where
  /-- A Task that has not begun is open and has no report. -/
  fresh : ∀ taskId, s.taskRequests taskId = none →
    (∀ t, w.tasks.get taskId = some t → t.status.isTerminal = false) ∧
      w.effects.get (.report taskId) = none
  rows : ∀ taskId row, w.effects.get (.report taskId) = some row → ReportsSuccess D w taskId row
  tasks : ∀ taskId t, w.tasks.get taskId = some t → t.status = .succeeded → Submitted w taskId t →
    Reported w taskId t
  closed : Each (fun pre e => ∀ taskId x, e = .closed taskId (some x) .succeeded →
    ReachedSuccess pre taskId x) w.log
  active : ∀ n wf, next = some n → n ≠ .beginTask → s.workflow = some wf → ActiveReport w wf n

section

variable {D : Deployment} {rs : List NodeRun} {config : Config} {svc : Services} {w w' : World}
  {s s' : SessionState} {wf wf' : WorkflowState} {n m : Node} {next : Option Node} {taskId x : Uuid}

/-- What was found stays found. -/
theorem Evidenced.mono {log log' : List Event} {result : ExecutionResult} (hlog : log.Sublist log')
    (h : Evidenced log taskId x result) : Evidenced log' taskId x result := by
  obtain ⟨r, hr, h⟩ := h
  exact ⟨r, (hlog.filterMap Event.nodeRun?).subset hr, h⟩

/-- The row of a report in later tables, where the Task keeps its execution. -/
theorem ReportsSuccess.mono {row row' : EffectRow} (hlog : w.log.Sublist w'.log)
    (htask : ∀ t x, w.tasks.get taskId = some t → t.executionId = some x →
      ∃ t', w'.tasks.get taskId = some t' ∧ t'.executionId = some x)
    (hreq : row'.request = row.request) (hsha : row'.inputSha256 = row.inputSha256)
    (h : ReportsSuccess D w taskId row) : ReportsSuccess D w' taskId row' := by
  obtain ⟨t, x, evidence, source, markdown, ht, hx, hrow, hin, hstatus, hid, hev⟩ := h
  obtain ⟨t', ht', hx'⟩ := htask t x ht hx
  exact ⟨t', x, evidence, source, markdown, ht', hx', hreq.trans hrow, hsha.trans hin, hstatus, hid,
    hev.mono hlog⟩

/-- Entries that close no Task keep what is known of those that do. -/
theorem closed_append {Φ : List Event → Uuid → Uuid → Prop} {log inner : List Event}
    (h : Each (fun pre e => ∀ taskId x, e = .closed taskId (some x) .succeeded →
      Φ pre taskId x) log)
    (hinner : ∀ e ∈ inner, ∀ taskId x, e ≠ .closed taskId (some x) .succeeded) :
    Each (fun pre e => ∀ taskId x, e = .closed taskId (some x) .succeeded → Φ pre taskId x)
      (log ++ inner) := by
  induction inner generalizing log with
  | nil => simpa using h
  | cons e inner ih =>
    have hcons : log ++ e :: inner = (log ++ [e]) ++ inner := by simp
    rw [hcons]
    refine ih (h.concat fun taskId x he => ?_) fun e' he' => hinner e' (List.mem_cons_of_mem _ he')
    exact absurd he (hinner e List.mem_cons_self taskId x)

/-- An inner entry closes no Task. -/
theorem not_closed_of_inner {e : Event} (h : e.isInner = true) (taskId x : Uuid) :
    e ≠ .closed taskId (some x) .succeeded := by
  rintro rfl
  exact absurd h nofun

/-- What a reporting node finds stays where nothing is reported. -/
theorem ReportStage.calm (hc : Calm wf.activeTaskId w w') (h : ReportStage w wf n) :
    ReportStage w' wf n := by
  obtain ⟨inner, hlog, -⟩ := hc.log
  have hsub : w.log.Sublist w'.log := hlog ▸ List.sublist_append_left _ _
  cases n with
  | generateReport =>
    obtain ⟨x, evidence, hx, hevidence, hev⟩ := h
    exact ⟨x, evidence, hx, hevidence, hev.mono hsub⟩
  | commitSuccess =>
    obtain ⟨row, x, source, markdown, artifactId, hrow, h⟩ := h
    exact ⟨row, x, source, markdown, artifactId, hc.report.trans hrow, h⟩
  | _ => trivial

/-- Calm commits of a Task that is not being closed keep the invariant. -/
theorem Reporting.calm (h : Reporting D w s (some n)) (hinv : Inv D rs w s (some n))
    (hb : n ≠ .beginTask) (hopen : n.closes = false) (hwf : s.workflow = some wf)
    (hc : Calm wf.activeTaskId w w') : Reporting D w' s (some n) := by
  obtain ⟨inner, hlog, hinner⟩ := hc.log
  have hsub : w.log.Sublist w'.log := hlog ▸ List.sublist_append_left _ _
  have hactive := h.active n wf rfl hb hwf
  -- Report effects are as they were.
  have hreport : ∀ taskId, w'.effects.get (.report taskId) = w.effects.get (.report taskId) := by
    intro taskId
    by_cases ht : taskId = wf.activeTaskId
    · rw [ht]
      exact hc.report
    · exact hc.effects (.report taskId) ht
  have hlive : ∀ t', w'.tasks.get wf.activeTaskId = some t' → t'.status.isTerminal = false := by
    intro t' ht'
    obtain ⟨t, ht, hkept⟩ := hc.row_of_some ht'
    exact hkept.live (hactive.live hopen t ht)
  refine ⟨fun taskId ht => ?_, fun taskId row hrow => ?_,
    fun taskId t ht hstatus hsubmitted => ?_, ?_, fun n' wf' hn' hb' hwf' => ?_⟩
  · have hne : taskId ≠ wf.activeTaskId := by
      rintro rfl
      exact (hinv.owner wf hwf).2.1 ht
    obtain ⟨hfresh, hnone⟩ := h.fresh taskId ht
    exact ⟨fun t ht' => hfresh t (hc.tasks taskId hne ▸ ht'), (hreport taskId).trans hnone⟩
  · refine (h.rows taskId row ((hreport taskId).symm.trans hrow)).mono hsub
      (fun t x ht hx => ?_) rfl rfl
    by_cases hid : taskId = wf.activeTaskId
    · subst hid
      obtain ⟨t', ht', hkept⟩ := hc.row_some ht
      exact ⟨t', ht', hkept.execution x hx⟩
    · exact ⟨t, (hc.tasks taskId hid).trans ht, hx⟩
  · by_cases hid : taskId = wf.activeTaskId
    · subst hid
      have hfalse := hlive t ht
      rw [hstatus] at hfalse
      exact absurd hfalse (by decide)
    · have hsubmitted' : Submitted w taskId t := by
        refine hsubmitted.imp id fun hrow => ?_
        obtain ⟨number, row, hrow⟩ := hrow
        exact ⟨number, row, (hc.effects (.submit taskId number) hid).symm.trans hrow⟩
      obtain ⟨row, x, source, markdown, artifactId, hrow, hreported⟩ :=
        h.tasks taskId t ((hc.tasks taskId hid).symm.trans ht) hstatus hsubmitted'
      exact ⟨row, x, source, markdown, artifactId, (hreport taskId).trans hrow, hreported⟩
  · rw [hlog]
    exact closed_append h.closed fun e he => not_closed_of_inner (hinner e he)
  · obtain rfl : n = n' := Option.some.inj hn'
    obtain rfl : wf = wf' := Option.some.inj (hwf.symm.trans hwf')
    refine ⟨fun hh => ?_, fun _ => hlive, hactive.stage.calm hc⟩
    obtain ⟨t, ht⟩ := Option.ne_none_iff_exists'.mp (hactive.row hh)
    obtain ⟨t', ht', -⟩ := hc.row_some ht
    rw [ht']
    simp

/-- The rule of a completed node: what is to be shown is what the node that follows finds. -/
theorem Reporting.ran (h : Reporting D w s (some n)) (hst : SameTask s s' wf wf')
    (hactive : ∀ m, next = some m → m ≠ .beginTask →
      ActiveReport (w.logged (.ran n svc s s')) wf' m) :
    Reporting D (w.logged (.ran n svc s s')) s' next where
  fresh taskId ht := h.fresh taskId (hst.requests ▸ ht)
  rows taskId row hrow :=
    (h.rows taskId row hrow).mono (List.sublist_append_left _ _)
      (fun t _ ht hx => ⟨t, ht, hx⟩) rfl rfl
  tasks := h.tasks
  closed := closed_append h.closed fun e he taskId x => by simp [List.mem_singleton.mp he]
  active m wf₀ hm hb hwf₀ := by
    obtain rfl : wf' = wf₀ := Option.some.inj (hst.after.symm.trans hwf₀)
    exact hactive m hm hb

/-- A node keeps the invariant of reports wherever it stops. -/
def KeepsReports (D : Deployment) (n : Node) : Prop :=
  ∀ (rs : List NodeRun) (config : Config) (svc : Services) (s : SessionState) (w : World),
    Inv D rs w s (some n) → Reporting D w s (some n) →
    Triple (fun w' => w' = w) (superstep D config svc n s)
      (fun r w' => Reporting D (w'.logged (.ran n svc s r.1)) r.1 r.2)
      fun w' => Reporting D w' s (some n)

/-! ## Calm nodes -/

/-- What follows a calm node finds no report yet, but it may find the evidence for one. -/
theorem ReportStage.of_calm (hn : n.isCalm = true) (hm : m ∈ n.successors)
    (hst : SameTask s s' wf wf') (hu : Update svc n wf wf') :
    ReportStage (w.logged (.ran n svc s s')) wf' m := by
  cases m with
  | commitSuccess =>
    cases n <;> first | exact absurd hn (by decide) | exact absurd hm (by decide)
  | generateReport =>
    obtain rfl : n = .buildReportEvidence := by
      cases n <;> first | rfl | exact absurd hn (by decide) | exact absurd hm (by decide)
    obtain ⟨x, evidence, hx, hresult, hevidence⟩ := hu.own
    refine ⟨x, evidence, (hu.executionId (by decide)).trans hx, hevidence, ?_⟩
    refine ⟨⟨.buildReportEvidence, svc, wf, wf'⟩, ?_, rfl, hu.task.symm, hx, hresult⟩
    rw [hst.runs]
    exact List.mem_append_right _ (List.mem_singleton.mpr rfl)
  | _ => trivial

/-- A node whose commits are calm publishes no report and keeps those there are. -/
theorem keepsReports_of_calm (hn : n.isCalm = true) : KeepsReports D n := by
  intro rs config svc s w hinv hrep
  have hb : n ≠ .beginTask := by
    rintro rfl
    exact absurd hn (by decide)
  have hopen : n.closes = false := by cases n <;> first | rfl | exact absurd hn (by decide)
  obtain ⟨wf, hwf, hx⟩ := hinv.workflow hb
  refine (superstep_calm hn hwf hx).weaken (fun w' h => h ▸ Calm.refl wf.activeTaskId w) ?_
    fun w' hc => hrep.calm hinv hb hopen hwf hc
  rintro ⟨s', next⟩ w' ⟨⟨wf', hst, ⟨hu, hhydrate⟩, hnext⟩, hc⟩
  have hrep' := hrep.calm hinv hb hopen hwf hc
  have hactive := hrep'.active n wf rfl hb hwf
  refine hrep'.ran hst fun m hm _ => ⟨fun _ => ?_, fun _ => ?_, ?_⟩
  · rw [hu.task]
    by_cases hh : n = .hydrateTurn
    · exact hhydrate hh
    · exact hactive.row hh
  · rw [hu.task]
    exact hactive.live hopen
  · exact .of_calm hn (mem_successors (hm ▸ hnext)) hst hu

/-! ## The report of a Task -/

/-- The tables with another row for the report of the active Task. What was stored of it stays, and
a new row reports a success. -/
theorem Reporting.withReport (h : Reporting D w s (some .generateReport))
    (hinv : Inv D rs w s (some .generateReport)) (hwf : s.workflow = some wf)
    {effects : Table EffectKey EffectRow}
    (hother : ∀ key, key ≠ .report wf.activeTaskId → effects.get key = w.effects.get key)
    (hrow : ∀ row, effects.get (.report wf.activeTaskId) = some row →
      ReportsSuccess D w wf.activeTaskId row) :
    Reporting D { w with effects } s (some .generateReport) := by
  have hactive := h.active .generateReport wf rfl (by decide) hwf
  refine ⟨fun taskId ht => ?_, fun taskId row hget => ?_, fun taskId t ht hstatus hsubmitted => ?_,
    h.closed, fun n' wf' hn' hb' hwf' => ?_⟩
  · have hne : taskId ≠ wf.activeTaskId := by
      rintro rfl
      exact (hinv.owner wf hwf).2.1 ht
    exact ⟨(h.fresh taskId ht).1, (hother _ (by simpa using hne)).trans (h.fresh taskId ht).2⟩
  · have hlog : w.log.Sublist ({ w with effects } : World).log := .refl _
    by_cases hid : taskId = wf.activeTaskId
    · subst hid
      exact (hrow row hget).mono hlog (fun t _ ht hx => ⟨t, ht, hx⟩) rfl rfl
    · refine (h.rows taskId row ((hother _ ?_).symm.trans hget)).mono hlog
        (fun t _ ht hx => ⟨t, ht, hx⟩) rfl rfl
      simpa using hid
  · by_cases hid : taskId = wf.activeTaskId
    · subst hid
      have hfalse := hactive.live rfl t ht
      rw [hstatus] at hfalse
      exact absurd hfalse (by decide)
    · have hsubmitted' : Submitted w taskId t := by
        refine hsubmitted.imp id fun hsub => ?_
        obtain ⟨number, row, hsub⟩ := hsub
        exact ⟨number, row, (hother (.submit taskId number) nofun).symm.trans hsub⟩
      obtain ⟨row, x, source, markdown, artifactId, hget, hreported⟩ :=
        h.tasks taskId t ht hstatus hsubmitted'
      exact ⟨row, x, source, markdown, artifactId,
        (hother _ (by simpa using hid)).trans hget, hreported⟩
  · obtain rfl : Node.generateReport = n' := Option.some.inj hn'
    obtain rfl : wf = wf' := Option.some.inj (hwf.symm.trans hwf')
    exact ⟨hactive.row, hactive.live, hactive.stage⟩

/-- While `generate_report` runs: the invariant, and the Task keeps the execution of the state. -/
structure Generating (D : Deployment) (rs : List NodeRun) (s : SessionState) (taskId x : Uuid)
    (w : World) : Prop where
  inv : Inv D rs w s (some .generateReport)
  reporting : Reporting D w s (some .generateReport)
  task : ∃ t, w.tasks.get taskId = some t ∧ t.executionId = some x

/-- The journal's row of a report. -/
def Journaled (taskId : Uuid) (record : EffectRow) (w : World) : Prop :=
  w.effects.get (.report taskId) = some record

/-- The report's effect is prepared with the evidence of the result, or the first one is kept. -/
theorem prepareReport_generating {evidence : ReportEvidence} {source : InputPath}
    {markdown : String}
    (hwf : s.workflow = some wf) (hstatus : evidence.executorResult.status = .succeeded)
    (hid : evidence.executorResult.executionId = x)
    (hev : ∀ w, Generating D rs s wf.activeTaskId x w →
      Evidenced w.log wf.activeTaskId x evidence.executorResult) :
    Triple (Generating D rs s wf.activeTaskId x)
      (prepareEffect D (.report wf.activeTaskId) wf.activeTaskId .report
        (D.inputDigest (.report x evidence)) (.report x source markdown))
      (fun record w => Generating D rs s wf.activeTaskId x w ∧ Journaled wf.activeTaskId record w)
      (Generating D rs s wf.activeTaskId x) := by
  refine prepareEffect_spec _ _ _ _ _ (fun _ h => h) fun w hw => ?_
  have hinv : Inv D rs (w.withEffect (.report wf.activeTaskId) ⟨wf.activeTaskId, .report,
      D.inputDigest (.report x evidence), D.requestDigest (.report x source markdown),
      .report x source markdown, none⟩) s (some .generateReport) :=
    Inv.quietClosed _ _ hw.inv (.withEffect rfl rfl)
  refine ⟨hinv, hw.reporting.withReport hw.inv hwf (fun key hkey => ?_)
    (fun row hrow => ?_), hw.task⟩
  · rw [Table.get_insertIfAbsent, if_neg hkey]
  · rw [Table.get_insertIfAbsent, if_pos rfl] at hrow
    cases hold : w.effects.get (.report wf.activeTaskId) with
    | some row₀ =>
      rw [hold] at hrow
      obtain rfl : row₀ = row := Option.some.inj hrow
      exact hw.reporting.rows _ row₀ hold
    | none =>
      rw [hold] at hrow
      obtain rfl := Option.some.inj hrow
      obtain ⟨t, ht, hx⟩ := hw.task
      exact ⟨t, x, evidence, source, markdown, ht, hx, rfl, rfl, hstatus, hid, hev w hw⟩

/-- A finished report is the one that was prepared. -/
theorem completeReport_generating {record : EffectRow} {response : EffectResponse}
    (hwf : s.workflow = some wf) :
    Triple (fun w => Generating D rs s wf.activeTaskId x w ∧ Journaled wf.activeTaskId record w)
      (completeEffect D (.report wf.activeTaskId) response)
      (fun record w => Generating D rs s wf.activeTaskId x w ∧ Journaled wf.activeTaskId record w)
      (Generating D rs s wf.activeTaskId x) := by
  refine .transact (fun w hw written w' h => ?_) fun w hw => hw.1
  obtain ⟨hw, hrow⟩ := hw
  unfold Journaled at hrow
  rw [hrow] at h
  dsimp only at h
  split at h
  · -- There is a response already.
    split at h
    · exact absurd h (by simp)
    · split at h
      · exact absurd h (by simp)
      · rename_i record' hrec
        obtain ⟨rfl, rfl⟩ : record' = written ∧ w = w' := by simpa using h
        obtain rfl := eq_of_recordOf hrec
        exact ⟨hw, hw, hrow⟩
  · split at h
    · exact absurd h (by simp)
    · rename_i record' hrec
      obtain ⟨rfl, rfl⟩ : record' = written ∧ _ = w' := by simpa using h
      have hinv := Inv.quietClosed _ _ hw.inv
        (Quiet.of_response hrow { record with response := some response } rfl rfl)
      have hgen : Generating D rs s wf.activeTaskId x { w with
          effects := w.effects.modifyAt (.report wf.activeTaskId) fun _ =>
            { record with response := some response } } := by
        refine ⟨hinv, hw.reporting.withReport hw.inv hwf (fun key hkey => ?_) (fun row hget => ?_),
          hw.task⟩
        · rw [Table.get_modifyAt, if_neg hkey]
        · rw [Table.get_modifyAt, if_pos rfl, hrow] at hget
          obtain rfl : { record with response := some response } = row := by simpa using hget
          exact (hw.reporting.rows _ record hrow).mono (.refl _)
            (fun t _ ht hx => ⟨t, ht, hx⟩) rfl rfl
      obtain rfl := eq_of_recordOf hrec
      refine ⟨hgen, hgen, ?_⟩
      show (w.effects.modifyAt _ _).get _ = _
      rw [Table.get_modifyAt, if_pos rfl, hrow]
      rfl

/-- A request that leaves is an entry of the log only. -/
theorem sendReport_generating {record : EffectRow} {request : ExecutorRequest}
    (hwf : s.workflow = some wf) (hreq : record.request = request) :
    Triple (fun w => Generating D rs s wf.activeTaskId x w ∧ Journaled wf.activeTaskId record w)
      (send svc wf.activeTaskId request)
      (fun _ w => Generating D rs s wf.activeTaskId x w ∧ Journaled wf.activeTaskId record w)
      (Generating D rs s wf.activeTaskId x) := by
  have hnote : ∀ w, Generating D rs s wf.activeTaskId x w ∧ Journaled wf.activeTaskId record w →
      Generating D rs s wf.activeTaskId x (w.logged (.sent wf.activeTaskId request)) := by
    intro w hw
    have hplain : request.steps = [] :=
      hreq ▸ hw.1.inv.plain (.report wf.activeTaskId) record rfl hw.2
    have hcalm : Calm wf.activeTaskId w (w.logged (.sent wf.activeTaskId request)) :=
      .of_log (e := .sent wf.activeTaskId request) rfl rfl rfl rfl
    exact ⟨hw.1.inv.note rfl (sound_plain hplain),
      hw.1.reporting.calm hw.1.inv (by decide) rfl hwf hcalm, hw.1.task⟩
  exact (send_spec svc wf.activeTaskId request (fun w hw => hw.1) hnote).weaken
    (fun w hw => ⟨hw, hw.2⟩) (fun _ _ h => h) fun _ h => h

/-- The journal of a report: the first request that was prepared is the one it keeps. -/
theorem journalReport_generating {evidence : ReportEvidence} {prepare : Run ExecutorRequest}
    (hwf : s.workflow = some wf) (hstatus : evidence.executorResult.status = .succeeded)
    (hid : evidence.executorResult.executionId = x)
    (hev : ∀ w, Generating D rs s wf.activeTaskId x w →
      Evidenced w.log wf.activeTaskId x evidence.executorResult)
    (hprepare : Triple (Generating D rs s wf.activeTaskId x) prepare
      (fun request w => (∃ source markdown, request = .report x source markdown) ∧
        Generating D rs s wf.activeTaskId x w) (Generating D rs s wf.activeTaskId x)) :
    Triple (Generating D rs s wf.activeTaskId x)
      (journalRun D wf.activeTaskId (.report wf.activeTaskId) .report (.report x evidence) prepare
        (send svc wf.activeTaskId))
      (fun record w => Generating D rs s wf.activeTaskId x w ∧ Journaled wf.activeTaskId record w)
      (Generating D rs s wf.activeTaskId x) := by
  refine (getEffect_spec _).bind fun found => ?_
  have hstored : Triple (fun w => Generating D rs s wf.activeTaskId x w ∧
        w.effects.get (.report wf.activeTaskId) = found)
      (storedRecord D wf.activeTaskId (.report wf.activeTaskId) .report (.report x evidence) prepare
        found)
      (fun record w => Generating D rs s wf.activeTaskId x w ∧ Journaled wf.activeTaskId record w)
      (Generating D rs s wf.activeTaskId x) := by
    cases found with
    | some record => exact .pure fun w hw => hw
    | none =>
      refine (hprepare.weaken (fun _ h => h.1) (fun _ _ h => h) fun _ h => h).bind fun request =>
        .assume fun hreq => ?_
      obtain ⟨source, markdown, rfl⟩ := hreq
      exact prepareReport_generating hwf hstatus hid hev
  refine hstored.bind fun record => ?_
  refine (Triple.refuseIf fun _ h => h.1).bind fun _ => .assume fun _ => ?_
  unfold completedRecord
  cases record.response with
  | some _ => exact .pure fun w hw => hw
  | none => exact (sendReport_generating hwf rfl).bind fun _ => completeReport_generating hwf

/-- What `report` returns is what the journal has. -/
theorem report_generating {evidence : ReportEvidence} (hwf : s.workflow = some wf)
    (hx : wf.executionId = some x) (hevidence : wf.reportEvidence = some evidence) :
    Triple (Generating D rs s wf.activeTaskId x) (report D svc wf evidence)
      (fun out w => (∃ row source, w.effects.get (.report wf.activeTaskId) = some row ∧
        row.response = some (.artifact out.2) ∧ row.request = .report x source out.1) ∧
        Generating D rs s wf.activeTaskId x w) (Generating D rs s wf.activeTaskId x) := by
  refine (Triple.demand fun _ h => h).bind fun x₀ => .assume fun hx₀ => ?_
  obtain rfl : x = x₀ := Option.some.inj (hx.symm.trans hx₀)
  refine (Triple.refuseIf fun _ h => h).bind fun _ => .assume fun hsuccess => ?_
  obtain ⟨hstatus, hid⟩ := not_or.mp hsuccess
  have hev : ∀ w, Generating D rs s wf.activeTaskId x w →
      Evidenced w.log wf.activeTaskId x evidence.executorResult := by
    intro w hw
    obtain ⟨x', evidence', hx', hevidence', hev⟩ :=
      (hw.reporting.active .generateReport wf rfl (by decide) hwf).stage
    obtain rfl : x = x' := Option.some.inj (hx.symm.trans hx')
    obtain rfl : evidence = evidence' := Option.some.inj (hevidence.symm.trans hevidence')
    exact hev
  refine (journalReport_generating hwf (not_not.mp hstatus) (not_not.mp hid) hev ?_).bind
    fun record => ?_
  · refine (Triple.ofExcept fun _ h => h).bind fun markdown => .assume fun _ => ?_
    exact .pure fun w hw => ⟨⟨_, markdown, rfl⟩, hw⟩
  refine (Triple.demand fun _ h => h.1).bind fun markdown => .assume fun hmarkdown => ?_
  split
  · rename_i artifactId hresponse
    refine .pure fun w hw => ⟨?_, hw.1⟩
    -- The stored request is one of the Task's execution.
    obtain ⟨t, x', evidence', source, markdown', ht, hx', hreq, -⟩ :=
      hw.1.reporting.rows _ record hw.2
    obtain ⟨t₀, ht₀, hx₀⟩ := hw.1.task
    obtain rfl : t = t₀ := Option.some.inj (ht.symm.trans ht₀)
    obtain rfl : x = x' := Option.some.inj (hx₀.symm.trans hx')
    rw [hreq] at hmarkdown
    obtain rfl : markdown' = markdown := Option.some.inj hmarkdown
    exact ⟨record, source, hw.2, hresponse, hreq⟩
  · exact .raise fun _ h => h.1

/-- `generate_report` publishes the report of its own evidence only. -/
theorem generateReport_keepsReports : KeepsReports D .generateReport := by
  intro rs config svc s w hinv hrep
  obtain ⟨wf, hwf, ht⟩ := hinv.task _ rfl (by decide)
  have hactive := hrep.active .generateReport wf rfl (by decide) hwf
  obtain ⟨x, evidence, hx, hevidence, -⟩ := hactive.stage
  obtain ⟨t, htask⟩ := Option.ne_none_iff_exists'.mp (hactive.row (by decide))
  have hgen : Generating D rs s wf.activeTaskId x w :=
    ⟨hinv, hrep, t, htask, (ht.execution (by decide) t htask).trans hx⟩
  have hnode : Triple (Generating D rs s wf.activeTaskId x) (businessNode D svc .generateReport wf)
      (fun wf' w => (wf'.activeTaskId = wf.activeTaskId ∧ ReportStage w wf' .commitSuccess) ∧
        Generating D rs s wf.activeTaskId x w) (Generating D rs s wf.activeTaskId x) := by
    refine (Triple.demand fun _ h => h).bind fun evidence₀ => .assume fun hevidence₀ => ?_
    obtain rfl : evidence = evidence₀ := Option.some.inj (hevidence.symm.trans hevidence₀)
    refine (report_generating hwf hx hevidence).bind fun out => .pure fun w hw => ?_
    obtain ⟨⟨row, source, hrow, hresponse, hreq⟩, hw⟩ := hw
    exact ⟨⟨rfl, row, x, source, out.1, out.2, hrow, hresponse, hreq, hx, rfl⟩, hw⟩
  refine (superstep_of_business rfl hwf (fun _ h => h) hnode).weaken (fun w' h => h ▸ hgen) ?_
    fun _ h => h.reporting
  rintro ⟨s', next⟩ w' ⟨⟨wf', hst, hstage, hnext⟩, hw⟩
  refine hw.reporting.ran hst fun m hm _ => ?_
  have hedge := edge_of_successor rfl (hm ▸ hnext : successor .generateReport s' = .ok (some m))
  obtain rfl : Node.commitSuccess = m := Option.some.inj hedge
  have hactive' := hw.reporting.active .generateReport wf rfl (by decide) hwf
  refine ⟨fun _ => ?_, fun h => absurd h (by decide), hstage⟩
  rw [hst.task]
  exact hactive'.row (by decide)

/-! ## Terminal nodes -/

/-- The tables after a Task is closed. -/
def World.close (w : World) (taskId : Uuid) (t : TaskRow) (status : TaskStatus) (message : String)
    (metadata : Option TerminalMetadata) : World :=
  { w with
    tasks := w.tasks.modifyAt taskId fun t =>
      { t with status, terminalMessage := some message, assistant := some (message, metadata) }
    lock := w.lock.filter fun l => l.activeTaskId ≠ taskId
    log := w.log ++ [.closed taskId t.executionId status] }

/-- Closing the active Task keeps the invariant, if a success of a submitted Task is the one that
was reported. -/
theorem Reporting.close {status : TaskStatus} {message : String}
    {metadata : Option TerminalMetadata}
    {t : TaskRow} (h : Reporting D w s (some n)) (hinv : Inv D rs w s (some n))
    (hb : n ≠ .beginTask) (hcloses : n.closes = true) (hwf : s.workflow = some wf)
    (ht : w.tasks.get wf.activeTaskId = some t)
    (hsuccess : status = .succeeded → Submitted w wf.activeTaskId t →
      ∃ row x source artifactId, w.effects.get (.report wf.activeTaskId) = some row ∧
        row.response = some (.artifact artifactId) ∧ row.request = .report x source message ∧
        t.executionId = some x) :
    Reporting D (w.close wf.activeTaskId t status message metadata) s (some n) := by
  have hactive := h.active n wf rfl hb hwf
  have hget : ∀ taskId, (w.close wf.activeTaskId t status message metadata).tasks.get taskId =
      if taskId = wf.activeTaskId then some { t with
        status
        terminalMessage := some message
        assistant := some (message, metadata) } else w.tasks.get taskId := by
    intro taskId
    refine (Table.get_modifyAt _ _ _ _).trans ?_
    split
    · rename_i hid
      rw [hid, ht]
      rfl
    · rfl
  have hlog : w.log.Sublist (w.close wf.activeTaskId t status message metadata).log :=
    List.sublist_append_left _ _
  refine ⟨fun taskId hnew => ?_, fun taskId row hrow => ?_,
    fun taskId t' ht' hstatus hsubmitted => ?_, ?_, fun n' wf' hn' hb' hwf' => ?_⟩
  · -- The active Task is not new.
    have hne : taskId ≠ wf.activeTaskId := by
      rintro rfl
      exact (hinv.owner wf hwf).2.1 hnew
    refine ⟨fun t' ht' => ?_, (h.fresh taskId hnew).2⟩
    rw [hget, if_neg hne] at ht'
    exact (h.fresh taskId hnew).1 t' ht'
  · -- Every report keeps the Task it belongs to.
    refine (h.rows taskId row hrow).mono hlog (fun t₀ x ht₀ hx => ?_) rfl rfl
    rw [hget]
    split
    · rename_i hid
      subst hid
      obtain rfl : t = t₀ := Option.some.inj (ht.symm.trans ht₀)
      exact ⟨_, rfl, hx⟩
    · exact ⟨t₀, ht₀, hx⟩
  · -- A success of the active Task is the one that was reported.
    rw [hget] at ht'
    split at ht'
    · rename_i hid
      subst hid
      obtain rfl := Option.some.inj ht'
      obtain ⟨row, x, source, artifactId, hrow, hresponse, hreq, hx⟩ := hsuccess hstatus hsubmitted
      exact ⟨row, x, source, message, artifactId, hrow, hresponse, hreq, hx, rfl⟩
    · exact h.tasks taskId t' ht' hstatus hsubmitted
  · -- So is the one the log tells of.
    refine h.closed.concat fun taskId x he => ?_
    obtain ⟨rfl, hx, rfl⟩ := Event.closed.inj he
    obtain ⟨row, x', source, artifactId, hrow, -, hreq, hx'⟩ :=
      hsuccess rfl (.inl (by rw [hx]; simp))
    obtain rfl : x = x' := Option.some.inj (hx.symm.trans hx')
    obtain ⟨t₀, x₀, evidence, _, _, ht₀, hx₀, -, -, hdone, hid, hev⟩ := h.rows _ row hrow
    obtain rfl : t = t₀ := Option.some.inj (ht.symm.trans ht₀)
    obtain rfl : x = x₀ := Option.some.inj (hx.symm.trans hx₀)
    exact ⟨evidence.executorResult, hev, hdone, hid⟩
  · -- At the node itself, only the message remains to be written.
    obtain rfl : n = n' := Option.some.inj hn'
    obtain rfl : wf = wf' := Option.some.inj (hwf.symm.trans hwf')
    refine ⟨fun _ => ?_, fun hno => absurd (hcloses.symm.trans hno) (by decide), ?_⟩
    · rw [hget, if_pos rfl]
      simp
    · cases n with
      | commitSuccess => exact hactive.stage
      | generateReport => exact absurd hcloses (by decide)
      | _ => trivial

/-- `EffectProjections.terminal` for the active Task. -/
theorem terminal_reporting {status : TaskStatus} {message : String}
    {metadata : Option TerminalMetadata} (h : Reporting D w s (some n))
    (hinv : Inv D rs w s (some n))
    (hb : n ≠ .beginTask) (hcloses : n.closes = true) (hwf : s.workflow = some wf)
    (hsuccess : ∀ t, w.tasks.get wf.activeTaskId = some t → status = .succeeded →
      Submitted w wf.activeTaskId t → ∃ row x source artifactId,
        w.effects.get (.report wf.activeTaskId) = some row ∧
        row.response = some (.artifact artifactId) ∧ row.request = .report x source message ∧
        t.executionId = some x) :
    Triple (fun w' => w' = w) (terminal wf.activeTaskId status message metadata)
      (fun _ w' => Reporting D w' s (some n)) fun w' => Reporting D w' s (some n) := by
  refine .transact (fun w₀ hw₀ a w' hok => ?_) fun w₀ hw₀ => hw₀.symm ▸ h
  obtain rfl := hw₀
  split at hok
  · exact absurd hok (by simp)
  · split at hok
    · exact absurd hok (by simp)
    · rename_i t ht
      split at hok
      · split at hok
        · exact absurd hok (by simp)
        · obtain ⟨-, rfl⟩ : a = () ∧ _ = w' := by simpa using hok
          exact ⟨h, h⟩
      · obtain ⟨-, rfl⟩ := Prod.mk.inj (Except.ok.inj hok)
        have hclosed :
            Reporting D (w₀.close wf.activeTaskId t status message metadata) s (some n) :=
          h.close hinv hb hcloses hwf ht (hsuccess t ht)
        exact ⟨hclosed, hclosed⟩

/-- A terminal node: it closes the Task, and nothing follows. -/
theorem keepsReports_of_closing (hn : n.isBusiness = true) (hroute : routeOf n = none)
    (hedge : edgeOf n = none) (hnode : ∀ (rs : List NodeRun) (svc : Services) (s : SessionState)
      (wf : WorkflowState) (w : World), s.workflow = some wf → Inv D rs w s (some n) →
      Reporting D w s (some n) → Triple (fun w' => w' = w) (businessNode D svc n wf)
        (fun wf' w' => wf'.activeTaskId = wf.activeTaskId ∧ Reporting D w' s (some n))
        fun w' => Reporting D w' s (some n)) : KeepsReports D n := by
  intro rs config svc s w hinv hrep
  have hb : n ≠ .beginTask := by
    rintro rfl
    exact absurd hn (by decide)
  obtain ⟨wf, hwf, -⟩ := hinv.task n rfl hb
  have hsuper : Triple (fun w' => w' = w) (superstep D config svc n s)
      (fun r w' => (∃ wf', SameTask s r.1 wf wf' ∧ True ∧ successor n r.1 = .ok r.2) ∧
        Reporting D w' s (some n)) fun w' => Reporting D w' s (some n) := by
    refine superstep_of_business hn hwf (fun w' h => h.symm ▸ hrep) ?_
    exact (hnode rs svc s wf w hwf hinv hrep).weaken (fun _ h => h)
      (fun wf' w' h => ⟨⟨h.1, trivial⟩, h.2⟩) fun _ h => h
  refine hsuper.weaken (fun _ h => h) ?_ fun _ h => h
  rintro ⟨s', next⟩ w' ⟨⟨wf', hst, -, hnext⟩, hw⟩
  refine hw.ran hst fun m hm _ => ?_
  have hm' := edge_of_successor hroute (hm ▸ hnext : successor n s' = .ok (some m))
  exact absurd (hedge.symm.trans hm') (by simp)

/-- The success of a Task that is not the one of `commit_success` is no success of a submitted
Task. -/
theorem commitWith_reporting {status : TaskStatus} {message : String}
    (hstatus : status ≠ .succeeded)
    (hb : n ≠ .beginTask) (hcloses : n.closes = true) (hwf : s.workflow = some wf)
    (hinv : Inv D rs w s (some n)) (h : Reporting D w s (some n)) :
    Triple (fun w' => w' = w) (commitWith wf status message)
      (fun wf' w' => wf'.activeTaskId = wf.activeTaskId ∧ Reporting D w' s (some n))
      fun w' => Reporting D w' s (some n) := by
  refine (terminal_reporting h hinv hb hcloses hwf fun _ _ hs => absurd hs hstatus).bind fun _ => ?_
  exact .pure fun w' hw => ⟨rfl, hw⟩

/-- `commit_answer` keeps the reports: an answered Task has none. -/
theorem commitAnswer_keepsReports : KeepsReports D .commitAnswer := by
  refine keepsReports_of_closing rfl rfl rfl fun rs svc s wf w hwf hinv h => ?_
  obtain ⟨wf₀, hwf₀, ht⟩ := hinv.task _ rfl (by decide)
  obtain rfl : wf = wf₀ := Option.some.inj (hwf.symm.trans hwf₀)
  have hplan : NoPlan wf := ht.stage
  refine (Triple.demand fun w' hw => hw.symm ▸ h).bind fun answer => .assume fun _ => ?_
  refine (terminal_reporting h hinv (by decide) rfl hwf fun t htask _ hsubmitted => ?_).bind
    fun _ =>
    .pure fun w' hw => ⟨rfl, hw⟩
  -- A question that is answered was never submitted.
  rcases hsubmitted with hx | ⟨number, row, hrow⟩
  · exact absurd ((ht.execution (by decide) t htask).trans hplan.executionId) hx
  · exact absurd (ht.submits hplan.executionId number row hrow).1 (by decide)

/-- `commit_success` keeps the reports: its message is the report's. -/
theorem commitSuccess_keepsReports : KeepsReports D .commitSuccess := by
  refine keepsReports_of_closing rfl rfl rfl fun rs svc s wf w hwf hinv h => ?_
  obtain ⟨wf₀, hwf₀, ht⟩ := hinv.task _ rfl (by decide)
  obtain rfl : wf = wf₀ := Option.some.inj (hwf.symm.trans hwf₀)
  obtain ⟨row, x, source, markdown, artifactId, hrow, hresponse, hreq, hx, hmarkdown⟩ :=
    (h.active .commitSuccess wf rfl (by decide) hwf).stage
  refine (Triple.demand fun w' hw => hw.symm ▸ h).bind fun message => .assume fun hmessage => ?_
  obtain rfl : markdown = message := Option.some.inj (hmarkdown.symm.trans hmessage)
  refine (terminal_reporting h hinv (by decide) rfl hwf fun t htask _ _ => ?_).bind fun _ =>
    .pure fun w' hw => ⟨rfl, hw⟩
  exact ⟨row, x, source, artifactId, hrow, hresponse, hreq,
    (ht.execution (by decide) t htask).trans hx⟩

/-- `commit_rejected` keeps the reports: it ends the Task without one. -/
theorem commitRejected_keepsReports : KeepsReports D .commitRejected :=
  keepsReports_of_closing rfl rfl rfl fun _ _ _ _ _ hwf hinv h =>
    commitWith_reporting (by decide) (by decide) rfl hwf hinv h

/-- `commit_blocked` keeps the reports: it ends the Task without one. -/
theorem commitBlocked_keepsReports : KeepsReports D .commitBlocked := by
  refine keepsReports_of_closing rfl rfl rfl fun rs svc s wf w hwf hinv h => ?_
  refine (Triple.demand fun w' hw => hw.symm ▸ h).bind fun _ => .assume fun _ => ?_
  exact commitWith_reporting (by decide) (by decide) rfl hwf hinv h

/-- `commit_failed` keeps the reports: it ends the Task without one. -/
theorem commitFailed_keepsReports : KeepsReports D .commitFailed := by
  refine keepsReports_of_closing rfl rfl rfl fun rs svc s wf w hwf hinv h => ?_
  refine (Triple.demand fun w' hw => hw.symm ▸ h).bind fun _ => .assume fun _ => ?_
  exact commitWith_reporting (by decide) (by decide) rfl hwf hinv h

/-- `commit_cancelled` keeps the reports: it ends the Task without one. -/
theorem commitCancelled_keepsReports : KeepsReports D .commitCancelled :=
  keepsReports_of_closing rfl rfl rfl fun _ _ _ _ _ hwf hinv h =>
    commitWith_reporting (by decide) (by decide) rfl hwf hinv h

/-! ## Every run -/

/-- `begin_task` keeps the reports: the new Task has none. -/
theorem beginTask_keepsReports : KeepsReports D .beginTask := by
  intro rs config svc s w hinv hrep
  refine (superstep_begin (I := fun w' => Reporting D w' s (some .beginTask))).weaken
    (fun w' h => h.symm ▸ hrep) ?_ fun _ h => h
  rintro ⟨s', next⟩ w' ⟨⟨⟨turn, updated, hbegins, hcore⟩, rfl⟩, hw⟩
  have hwf' : s'.workflow = some (.ofTurn turn) := hcore.workflow.trans hbegins.workflow
  obtain ⟨fingerprint, hreq⟩ := hbegins.requests
  -- Whatever has not begun now had not begun before.
  have hold : ∀ taskId, s'.taskRequests taskId = none → s.taskRequests taskId = none := by
    intro taskId ht
    rw [hcore.requests, hreq] at ht
    by_cases hid : taskId = turn.activeTaskId
    · subst hid
      exact hbegins.new
    · rwa [Function.update_of_ne hid] at ht
  refine ⟨fun taskId ht => hw.fresh taskId (hold taskId ht),
    fun taskId row hrow => ?_, hw.tasks, ?_, fun n wf hn _ hwf => ?_⟩
  · exact (hw.rows taskId row hrow).mono (List.sublist_append_left _ _)
      (fun t _ ht hx => ⟨t, ht, hx⟩) rfl rfl
  · exact closed_append hw.closed fun e he taskId x => by simp [List.mem_singleton.mp he]
  · obtain rfl : Node.hydrateTurn = n := Option.some.inj hn
    obtain rfl : WorkflowState.ofTurn turn = wf := Option.some.inj (hwf'.symm.trans hwf)
    exact ⟨fun h => absurd rfl h, fun _ => (hw.fresh _ hbegins.new).1, trivial⟩

/-- Every node keeps the invariant of reports. -/
theorem keepsReports (n : Node) : KeepsReports D n := by
  cases hn : n.isCalm with
  | true => exact keepsReports_of_calm hn
  | false =>
    cases n with
    | beginTask => exact beginTask_keepsReports
    | generateReport => exact generateReport_keepsReports
    | commitAnswer => exact commitAnswer_keepsReports
    | commitSuccess => exact commitSuccess_keepsReports
    | commitRejected => exact commitRejected_keepsReports
    | commitBlocked => exact commitBlocked_keepsReports
    | commitFailed => exact commitFailed_keepsReports
    | commitCancelled => exact commitCancelled_keepsReports
    | _ => exact absurd hn (by decide)

/-- Admitting another Task keeps the invariant. -/
theorem Reporting.accept (h : Reporting D w s next) (taskId : Uuid) :
    Reporting D (w.accept taskId) s next := by
  have hlog : w.log.Sublist (w.accept taskId).log := .refl _
  refine ⟨fun taskId' ht => ⟨fun t ht' => ?_, (h.fresh taskId' ht).2⟩, fun taskId' row hrow => ?_,
    fun taskId' t ht hstatus hsubmitted => ?_, h.closed, fun n wf hn hb hwf => ?_⟩
  · rcases accept_cases ht' with hold | ⟨-, rfl⟩
    · exact (h.fresh taskId' ht).1 t hold
    · rfl
  · exact (h.rows taskId' row hrow).mono hlog (fun t _ ht hx => ⟨t, get_accept ht, hx⟩) rfl rfl
  · rcases accept_cases ht with hold | ⟨-, rfl⟩
    · exact h.tasks taskId' t hold hstatus hsubmitted
    · exact absurd hstatus (by decide)
  · have hactive := h.active n wf hn hb hwf
    refine ⟨fun hh => ?_, fun hopen t ht => ?_, ?_⟩
    · obtain ⟨t, ht⟩ := Option.ne_none_iff_exists'.mp (hactive.row hh)
      rw [get_accept ht]
      simp
    · rcases accept_cases ht with hold | ⟨-, rfl⟩
      · exact hactive.live hopen t hold
      · rfl
    · cases n with
      | generateReport | commitSuccess => exact hactive.stage
      | _ => trivial

/-- Every step keeps the invariant of reports. -/
theorem Reporting.step {g g' : GraphState} {a : GraphAction}
    (h : Reporting D g.world g.values g.next) (hinv : Inv D rs g.world g.values g.next)
    (hstep : graphStep D g a = some g') : Reporting D g'.world g'.values g'.next := by
  cases a with
  | accept taskId =>
    unfold graphStep at hstep
    dsimp only at hstep
    split at hstep
    · exact absurd hstep (by simp)
    · obtain rfl := Option.some.inj hstep
      exact h.accept taskId
  | start turn =>
    obtain rfl := Option.some.inj hstep
    exact ⟨h.fresh, h.rows, h.tasks, h.closed,
      fun n _ hn hb => absurd (Option.some.inj hn).symm hb⟩
  | run config svc =>
    obtain ⟨n, hn, hstep⟩ := Option.map_eq_some_iff.mp hstep
    rw [hn] at h hinv
    have hkeeps := keepsReports n rs config svc g.values g.world hinv h
    dsimp only at hstep
    split at hstep
    · rename_i after next hok
      obtain rfl := hstep
      exact hkeeps.returns _ rfl _ hok
    · rename_i e herr
      obtain rfl := hstep
      rw [hn]
      exact hkeeps.raises _ rfl e herr
  | stop config svc commits =>
    obtain ⟨n, hn, hstep⟩ := Option.bind_eq_some_iff.mp hstep
    obtain ⟨w, hw, rfl⟩ := Option.map_eq_some_iff.mp hstep
    rw [hn] at h hinv ⊢
    exact (keepsReports n rs config svc g.values g.world hinv h).stoppedAt rfl h hw

/-- The invariant of reports holds in every state that a run reaches. -/
theorem reporting_reachable {g : GraphState} (htells : D.TellsRevision)
    (hg : (sessionGraph D).Reachable g) : Reporting D g.world g.values g.next := by
  induction hg with
  | start hg =>
    obtain rfl := hg
    exact ⟨fun _ _ => ⟨fun _ h => absurd h (by simp), rfl⟩, fun _ _ h => absurd h (by simp),
      fun _ _ h => absurd h (by simp), Each.nil _, fun _ _ h => absurd h (by simp)⟩
  | next hg _ hstep ih =>
    obtain ⟨rs, hinv⟩ := inv_reachable htells hg
    exact ih.step hinv hstep

/-! ## What is guaranteed -/

/-- A Task that was submitted is SUCCEEDED only when its report is stored with the artifact, the
text of the stored request is its last message and the Executor's result was SUCCEEDED, which was so
before it was closed. A report effect is there only for the success of the Task's own execution. So
a Task that ends FAILED, CANCELLED or REJECTED has none, unless its execution had reached
SUCCEEDED. -/
theorem success_reported {g : GraphState} (htells : D.TellsRevision)
    (hg : (sessionGraph D).Reachable g) :
    (∀ taskId t, g.world.tasks.get taskId = some t → t.status = .succeeded →
      Submitted g.world taskId t → Reported g.world taskId t ∧
        ∃ x, t.executionId = some x ∧ ReachedSuccess g.world.log taskId x) ∧
    Each (fun pre e => ∀ taskId x, e = .closed taskId (some x) .succeeded →
      ReachedSuccess pre taskId x) g.world.log ∧
    (∀ taskId row, g.world.effects.get (.report taskId) = some row →
      ReportsSuccess D g.world taskId row) ∧
    (∀ taskId t, g.world.tasks.get taskId = some t →
      t.status = .failed ∨ t.status = .cancelled ∨ t.status = .rejected →
      g.world.effects.get (.report taskId) ≠ none →
      ∃ x, t.executionId = some x ∧ ReachedSuccess g.world.log taskId x) := by
  have h := reporting_reachable htells hg
  -- Whose report is there, its execution has reached SUCCEEDED.
  have hreached : ∀ taskId t row, g.world.tasks.get taskId = some t →
      g.world.effects.get (.report taskId) = some row →
      ∃ x, t.executionId = some x ∧ ReachedSuccess g.world.log taskId x := by
    intro taskId t row ht hrow
    obtain ⟨t₀, x, evidence, _, _, ht₀, hx, -, -, hstatus, hid, hev⟩ := h.rows taskId row hrow
    obtain rfl : t = t₀ := Option.some.inj (ht.symm.trans ht₀)
    exact ⟨x, hx, evidence.executorResult, hev, hstatus, hid⟩
  refine ⟨fun taskId t ht hstatus hsubmitted => ?_, h.closed, h.rows, fun taskId t ht _ hrow => ?_⟩
  · have hreported := h.tasks taskId t ht hstatus hsubmitted
    refine ⟨hreported, ?_⟩
    obtain ⟨row, _, _, _, _, hrow, -⟩ := hreported
    exact hreached taskId t row ht hrow
  · obtain ⟨row, hrow⟩ := Option.ne_none_iff_exists'.mp hrow
    exact hreached taskId t row ht hrow

/-- The run in which the execution succeeds. -/
theorem success_reported_sample :
    ∃ t, (Sample.after Sample.succeeded).world.tasks.get 7 = some t ∧ t.status = .succeeded ∧
      t.terminalMessage = some "done" ∧ Reported (Sample.after Sample.succeeded).world 7 t ∧
      ∃ x, t.executionId = some x ∧
        ReachedSuccess (Sample.after Sample.succeeded).world.log 7 x := by
  have hreach : (sessionGraph Sample.deployment).Reachable (Sample.after Sample.succeeded) :=
    Sample.after_reachable rfl
  have h := success_reported Sample.deployment_tellsRevision hreach
  exact ⟨_, rfl, rfl, rfl, h.1 7 _ rfl rfl (.inl nofun)⟩

end

end ExAgent.Graph
