import ExAgent.Stores.Finished

/-!
# The result of a Task

Once a Task is terminal, its status and terminal message should stay, and no session lock of it
should appear again. The projections and the two stores look at the status under the lock of the
Task and leave a terminal Task alone. The methods of `TaskRepository` write what they are given,
whatever the status: a caller that was paused before its call overwrites a result that was committed
meanwhile, and `lock_session` locks the session for a Task that is over (`not_terminalFinal`). The
property holds as long as no such write is committed (`terminal_final`).
-/

namespace ExAgent.Stores

open Lib ExAgent.Graph

/-- From `s` to `s'`, terminal Tasks keep their results, and no session lock of theirs appears. -/
def TerminalFinal (s s' : State) : Prop :=
  ∀ taskId task, s.db.tasks.get taskId = some task → task.status.isTerminal = true →
    HasResult s'.db taskId task.status task.terminalMessage ∧
      ∀ sessionId lock', s'.db.locks.get sessionId = some lock' → lock'.activeTaskId = taskId →
        ∃ lock, s.db.locks.get sessionId = some lock ∧ lock.activeTaskId = taskId

/-- The Task, if it is terminal. -/
def terminal? (db : Db) (taskId : Uuid) : Option TaskRow :=
  (db.tasks.get taskId).filter fun task => task.status.isTerminal

/-- A write of `TaskRepository` to a terminal Task repeats its result, and does not lock its
session. -/
def Op.spares (db : Db) : Op → Bool
  | .updateStatus taskId status _ => (terminal? db taskId).all fun task => task.status = status
  | .recordInterrupt taskId _ => (terminal? db taskId).isNone
  | .commitMessage taskId content status _ =>
    (terminal? db taskId).all fun task =>
      decide (task.status = status) && decide (task.terminalMessage = some content)
  | .lockSession taskId =>
    (terminal? db taskId).all fun task =>
      (db.insertLock task.sessionId { activeTaskId := taskId }).isNone
  | _ => true

/-- A call is about to commit. -/
def commits? : Progress Db RowKey Row Result → Bool
  | .running _ (.commit ..) => true
  | _ => false

/-- The step commits no write that changes a terminal Task. -/
def Spares (s : State) : Server.Act Op → Prop
  | .next i => ∀ c, s.calls.get i = some c → commits? c.progress = true → c.op.spares s.db = true
  | _ => True

instance (s : State) (a : Server.Act Op) : Decidable (Spares s a) :=
  match a with
  | .begin .. => isTrue trivial
  | .lose _ => isTrue trivial
  | .next i =>
    match h : s.calls.get i with
    | none => isTrue fun c hc => by rw [h] at hc; cases hc
    | some c =>
      decidable_of_iff (commits? c.progress = true → c.op.spares s.db = true)
        ⟨fun hs c' hc' hcom => by
          rw [h] at hc'
          obtain rfl := Option.some.inj hc'
          exact hs hcom, fun hs => hs c h⟩

section Commits

variable {S : Settings} {op : Op} {held : List RowKey} {result : Result} {db db' : Db}

/-- A row with a terminal status is the terminal one. -/
theorem terminal?_eq {taskId : Uuid} {task : TaskRow} (htask : db.tasks.get taskId = some task)
    (hterminal : task.status.isTerminal = true) : terminal? db taskId = some task := by
  simp [terminal?, htask, hterminal, Option.filter]

/-- A commit that spares terminal Tasks keeps their results. -/
theorem Commit.spared_result (h : Commit S op held result db db') (hs : op.spares db = true)
    {taskId : Uuid} {task : TaskRow} (htask : db.tasks.get taskId = some task)
    (hterminal : task.status.isTerminal = true) :
    HasResult db' taskId task.status task.terminalMessage := by
  cases h.task_fate taskId with
  | same hsame => exact ⟨task, hsame.trans htask, rfl, rfl⟩
  | started hnone hnew =>
    rw [htask] at hnone
    cases hnone
  | bound htask₁ hnew =>
    obtain rfl := Option.some.inj (htask.symm.trans htask₁)
    exact ⟨_, hnew, rfl, rfl⟩
  | settled hop hid hrow htask₁ hopen hnew =>
    obtain rfl := Option.some.inj (htask.symm.trans htask₁)
    simp [hterminal] at hopen
  | changed htask₁ hnew hchange =>
    obtain rfl := Option.some.inj (htask.symm.trans htask₁)
    have hopen : task.status.isTerminal = false → False := by simp [hterminal]
    cases hchange with
    | updateStatus =>
      rw [Op.spares, terminal?_eq htask hterminal] at hs
      exact ⟨_, hnew, (by simpa using hs : task.status = _).symm, rfl⟩
    | recordInterrupt =>
      rw [Op.spares, terminal?_eq htask hterminal] at hs
      cases hs
    | clearInterrupt => exact ⟨_, hnew, rfl, rfl⟩
    | commitMessage =>
      rw [Op.spares, terminal?_eq htask hterminal] at hs
      simp only [Option.all_some, Bool.and_eq_true, decide_eq_true_eq] at hs
      exact ⟨_, hnew, hs.1.symm, hs.2.symm⟩
    | project ho => exact (hopen ho).elim
    | terminal ho => exact (hopen ho).elim

/-- A commit that spares terminal Tasks gives them no session lock. -/
theorem Commit.spared_lock (h : Commit S op held result db db') (hs : op.spares db = true)
    {taskId sessionId : Uuid} {task : TaskRow} {lock' : LockRow}
    (htask : db.tasks.get taskId = some task) (hterminal : task.status.isTerminal = true)
    (hlock' : db'.locks.get sessionId = some lock') (howner : lock'.activeTaskId = taskId) :
    ∃ lock, db.locks.get sessionId = some lock ∧ lock.activeTaskId = taskId := by
  subst howner
  cases h.lock_fate hlock' with
  | kept hlock howner => exact ⟨_, hlock, howner.symm⟩
  | ensured hheld htask₁ hopen =>
    obtain rfl := Option.some.inj (htask.symm.trans htask₁)
    simp [hterminal] at hopen
  | locked hop hheld htask₁ hsession hnone =>
    subst hop
    cases h with
    | request hid => cases hid
    | cleanup hheld hrow hchange => cases hchange
    | task hheld htask hchange hlocks => cases hchange
    | lockSession hheld htask₂ hdb =>
      obtain rfl := Option.some.inj (htask.symm.trans htask₂)
      rw [Op.spares, terminal?_eq htask hterminal] at hs
      simp [hdb] at hs

end Commits

/-! ## Runs -/

/-- A step that spares terminal Tasks keeps them. -/
theorem terminalFinal_step {S : Settings} {s s' : State} {a : Server.Act Op}
    (hr : (stores S).Reachable s) (hc : Spares s a) (hstep : (stores S).step s a = some s') :
    TerminalFinal s s' := by
  intro taskId task htask hterminal
  cases moved hr hstep with
  | quiet hdb hhistory =>
    rw [hdb]
    exact ⟨⟨task, htask, rfl, rfl⟩, fun sessionId lock hlock howner => ⟨lock, hlock, howner⟩⟩
  | committed e held write violated ha hcall hown hhistory hended =>
    subst ha
    have hs := hc _ hcall rfl
    exact ⟨hown.spared_result hs htask hterminal,
      fun sessionId lock' hlock' howner => hown.spared_lock hs htask hterminal hlock' howner⟩

/-- Terminal rows stay final over two parts of a run. -/
theorem TerminalFinal.trans {s s' s'' : State} (h : TerminalFinal s s')
    (h' : TerminalFinal s' s'') :
    TerminalFinal s s'' := by
  intro taskId task htask hterminal
  obtain ⟨⟨task', htask', hs', hm'⟩, hlocks⟩ := h taskId task htask hterminal
  obtain ⟨hres, hlocks'⟩ := h' taskId task' htask' (hs' ▸ hterminal)
  rw [hs', hm'] at hres
  refine ⟨hres, fun sessionId lock'' hlock'' howner => ?_⟩
  obtain ⟨lock', hlock', howner'⟩ := hlocks' sessionId lock'' hlock'' howner
  exact hlocks sessionId lock' hlock' howner'

/-- Terminal Tasks are final in every run that spares them. -/
theorem terminal_final (S : Settings) {s s' : State} (hr : (stores S).Reachable s)
    (hl : (stores S).LeadsWhen Spares s s') : TerminalFinal s s' := by
  refine hl.stable (P := fun s' => TerminalFinal s s') ?_ hr ?_
  · intro s₁ a s₂ hr₁ ih hc hstep
    exact ih.trans (terminalFinal_step hr₁ hc hstep)
  · intro taskId task htask hterminal
    exact ⟨⟨task, htask, rfl, rfl⟩, fun sessionId lock hlock howner => ⟨lock, hlock, howner⟩⟩

namespace Sample

/-- Task 7 succeeds while another process is about to move it to `EXECUTING`. -/
def succeeded : List (Server.Act Op) :=
  start ++ [.begin 2 (.updateStatus 7 .executing none)] ++
    call 3 (.terminal 7 .succeeded "done" ⟨[], Dict.sorted_nil⟩) 3

end Sample

/-- The result of Task 7 is committed again. -/
theorem terminal_final_repeated :
    TerminalFinal (Sample.after (stores Sample.settings) Sample.succeeded)
      (Sample.after (stores Sample.settings) (Sample.succeeded ++
        Sample.call 4 (.commitMessage 7 "done" .succeeded ⟨[], Dict.sorted_nil⟩) 3)) := by
  have hrun : (stores Sample.settings).runIf Spares
      (Sample.after (stores Sample.settings) Sample.succeeded)
      (Sample.call 4 (.commitMessage 7 "done" .succeeded ⟨[], Dict.sorted_nil⟩) 3) = some _ := rfl
  exact terminal_final Sample.settings (Sample.after_reachable rfl) (Machine.LeadsWhen.runIf hrun)

/-- The other process goes on: Task 7 is `EXECUTING` with a terminal message. -/
theorem not_terminalFinal : ¬ ∀ s s', (stores Sample.settings).Reachable s →
    (stores Sample.settings).Leads s s' → TerminalFinal s s' := by
  intro h
  have hrun : (stores Sample.settings).run (Sample.after (stores Sample.settings) Sample.succeeded)
      [.next 2, .next 2] = some _ := rfl
  have hfinal := h _ _ (Sample.after_reachable rfl) (Machine.Leads.run hrun)
  obtain ⟨⟨task, htask, hs, -⟩, -⟩ := hfinal 7 _ rfl rfl
  have hexecuting : task.status = .executing := by
    rw [← Option.some.inj htask]
    rfl
  rw [hexecuting] at hs
  exact absurd hs (by decide)

end ExAgent.Stores
