import ExAgent.Lib.Register
import ExAgent.Graph.Store

/-!
# Receipts and the binding row

Every reply of the Executor is projected to the binding row of its Task, again after every crash, so
the row meets the receipts of an execution in any order and any number of times. It is two
registers: the Execution's version, and the current Operation under its Step sequence.
`Binding.take` is what one receipt does to it, and `projectAll_run` shows that
`EffectProjections.binding` does that and nothing else. From the rules of a register follows
`binding_confluent`: the row is a function of the set of receipts that were applied.
-/

namespace ExAgent.Graph

open Lib Prog

/-- A journaled response, with what its effect passes to `EffectProjections.binding`. -/
inductive Receipt
  /-- `DurableExecution.submit`. -/
  | submit (executionVersion : ℕ) (operationId : Uuid) (nextStepSequence : ℕ)
  /-- `DurableExecution.append`. -/
  | append (executionVersion : ℕ) (operationId : Uuid) (nextStepSequence : ℕ)
  /-- `DurableExecution.lifecycle`, for the replies to finalize and cancel. -/
  | lifecycle (executionVersion : ℕ)
deriving DecidableEq

namespace Receipt

/-- The version that a receipt carries. -/
def executionVersion : Receipt → ℕ
  | submit version .. | append version .. | lifecycle version => version

/-- The Operation a receipt names, under the sequence of the Step after it. -/
def progress? : Receipt → Option (Register ℕ Uuid)
  | submit _ operationId next | append _ operationId next => some ⟨next, operationId⟩
  | lifecycle _ => none

/-- The call of `EffectProjections.binding`. -/
def project (taskId executionId : Uuid) : Receipt → Run Unit
  | submit version operationId next =>
    projectBinding taskId executionId version (some operationId) (some next) true
  | append version operationId next =>
    projectBinding taskId executionId version (some operationId) (some next) false
  | lifecycle version => projectBinding taskId executionId version none none false

end Receipt

/-- The receipts one after another. -/
def projectAll (taskId executionId : Uuid) : List Receipt → Run Unit
  | [] => pure ()
  | r :: rs => do
    r.project taskId executionId
    projectAll taskId executionId rs

/-- What the journal holds of one execution: a submission, appends, and replies of any version. An
append is prepared with the sequence after the one in the row, so no two of them have the same. -/
structure ExecutionJournal where
  executionId : Uuid
  submitVersion : ℕ
  submitted : Register ℕ Uuid
  appended : List (ℕ × Register ℕ Uuid)
  versions : List ℕ
  /-- A Step sequence has one receipt. -/
  distinct : (submitted.stamp :: appended.map fun a => a.2.stamp).Nodup

namespace ExecutionJournal

/-- The receipt of the submission. -/
def submission (J : ExecutionJournal) : Receipt :=
  .submit J.submitVersion J.submitted.value J.submitted.stamp

/-- All of them. -/
def receipts (J : ExecutionJournal) : List Receipt :=
  J.submission :: (J.appended.map fun a => .append a.1 a.2.value a.2.stamp) ++
    J.versions.map .lifecycle

end ExecutionJournal

/-! ## One receipt -/

attribute [ext] Binding

namespace Binding

/-- The current Operation under the sequence of the Step after it. -/
def progress (b : Binding) : Register ℕ Uuid := ⟨b.nextStepSequence, b.operationId⟩

/-- The row after a receipt of its execution. -/
def take (b : Binding) (r : Receipt) : Binding :=
  let progress := r.progress?.elim b.progress b.progress.put
  { b with
    executionVersion := max b.executionVersion r.executionVersion
    operationId := progress.value
    nextStepSequence := progress.stamp }

/-- The row after receipts of its execution. -/
def takeAll (b : Binding) (rs : List Receipt) : Binding := rs.foldl take b

/-- What the row does not refuse: at its own sequence a receipt names its Operation, and a
submission is not ahead of it. -/
structure Fits (b : Binding) (r : Receipt) : Prop where
  same : ∀ p, r.progress? = some p → p.stamp = b.nextStepSequence → p.value = b.operationId
  replayed : ∀ version operationId next, r = .submit version operationId next →
    next ≤ b.nextStepSequence

/-- The row is what the receipts say together: the greatest version, and the Operation of the
greatest sequence. -/
structure Reflects (b : Binding) (executionId : Uuid) (rs : List Receipt) : Prop where
  execution : b.executionId = executionId
  version : IsGreatest {v | ∃ r ∈ rs, r.executionVersion = v} b.executionVersion
  current : ∃ r ∈ rs, r.progress? = some b.progress
  latest : ∀ r ∈ rs, ∀ p, r.progress? = some p → p.stamp ≤ b.nextStepSequence

end Binding

/-- `w` is `w₀` with the row of the Task at `b`. -/
structure Bound (w₀ : World) (taskId : Uuid) (b : Binding) (w : World) : Prop where
  row : w.bindings.get taskId = some b
  others : ∀ id, id ≠ taskId → w.bindings.get id = w₀.bindings.get id
  rest : { w with bindings := w₀.bindings } = w₀

/-- `m` commits once, and leaves `w'`. -/
def Accepts (m : Run Unit) (w w' : World) : Prop := m w = ⟨[w'], w', .ok ()⟩

/-- `m` raises, and leaves everything as it is. -/
def Refuses (m : Run Unit) (w : World) : Prop := ∃ e, m w = ⟨[], w, .error e⟩

section

variable {w w₀ w' : World} {taskId executionId : Uuid} {b : Binding} {r : Receipt}

/-- A transaction that returns is accepted with its tables. -/
theorem accepts_of_ok {f : World → Except Raised (Unit × World)} (h : f w = .ok ((), w')) :
    Accepts (transact f) w w' := by
  unfold Accepts transact
  rw [h]

/-- A transaction that is accepted returns. -/
theorem ok_of_accepts {f : World → Except Raised (Unit × World)} (h : Accepts (transact f) w w') :
    f w = .ok ((), w') := by
  unfold Accepts transact at h
  split at h
  · rename_i hf
    obtain ⟨-, rfl, -⟩ := Outcome.mk.inj h
    exact hf
  · exact absurd (Outcome.mk.inj h).1 nofun

/-- A transaction that raises is refused. -/
theorem refuses_of_error {f : World → Except Raised (Unit × World)} {e : Raised}
    (h : f w = .error e) : Refuses (transact f) w := by
  refine ⟨e, ?_⟩
  unfold transact
  rw [h]

/-- A receipt that fits moves the row on and nothing else. -/
theorem project_take {task : TaskRow} (htask : w.tasks.get taskId = some task)
    (hb : w.bindings.get taskId = some b) (hx : b.executionId = executionId) (hfits : b.Fits r) :
    Accepts (r.project taskId executionId) w
      { w with bindings := w.bindings.modifyAt taskId fun _ => b.take r } := by
  -- A receipt of a sequence: at the row's own, ahead of it, or obsolete.
  have hstep : ∀ version operationId next create, r.executionVersion = version →
      r.progress? = some ⟨next, operationId⟩ →
      (create = true → next ≤ b.nextStepSequence) →
      Accepts (projectBinding taskId executionId version (some operationId) (some next) create) w
        { w with bindings := w.bindings.modifyAt taskId fun _ => b.take r } := by
    intro version operationId next create hversion hprogress hcreate
    refine accepts_of_ok ?_
    dsimp only
    rw [htask, hb]
    dsimp only
    rw [if_neg (not_not.mpr hx)]
    unfold Binding.take
    rw [hprogress, hversion]
    have hput : b.progress.put ⟨next, operationId⟩ =
        if b.nextStepSequence < next then ⟨next, operationId⟩ else b.progress := rfl
    dsimp only [Option.elim]
    rw [hput]
    by_cases heq : next = b.nextStepSequence
    · have hsame : operationId = b.operationId := hfits.same _ hprogress heq
      rw [if_pos heq, if_neg (by rw [hsame]; exact not_not.mpr rfl), if_neg (by omega)]
      rfl
    · rw [if_neg heq]
      by_cases hlt : b.nextStepSequence < next
      · rw [if_pos hlt, if_pos hlt]
        cases create with
        | false => rfl
        | true => exact absurd (hcreate rfl) (by omega)
      · rw [if_neg hlt, if_neg hlt]
        rfl
  cases r with
  | submit version operationId next =>
    exact hstep version operationId next true rfl rfl fun _ => hfits.replayed _ _ _ rfl
  | append version operationId next => exact hstep version operationId next false rfl rfl nofun
  | lifecycle version =>
    refine accepts_of_ok ?_
    dsimp only
    rw [htask, hb]
    dsimp only
    rw [if_neg (not_not.mpr hx)]
    rfl

/-- The first receipt of a Task's execution makes the row. -/
theorem submission_creates {version : ℕ} {operationId : Uuid} {next : ℕ}
    (hfree : w.bindings.get taskId = none)
    (hc : Accepts ((Receipt.submit version operationId next).project taskId executionId) w w') :
    (∃ task, w'.tasks.get taskId = some task) ∧
      w'.bindings.get taskId = some ⟨executionId, operationId, version, next, 0⟩ := by
  have hok := ok_of_accepts hc
  dsimp only at hok
  cases htask : w.tasks.get taskId with
  | none =>
    rw [htask] at hok
    exact absurd hok nofun
  | some task =>
    rw [htask, hfree] at hok
    dsimp only at hok
    split_ifs at hok
    obtain rfl := (Prod.mk.inj (Except.ok.inj hok)).2
    constructor
    · refine ⟨{ task with executionId := some executionId }, ?_⟩
      refine (Table.get_modifyAt _ _ _ _).trans ?_
      rw [if_pos rfl, htask]
      rfl
    · refine (Table.get_insertIfAbsent _ _ _ _).trans ?_
      rw [if_pos rfl, hfree]
      rfl

/-- A receipt of another execution, or of another Operation at the current sequence, is refused. -/
theorem projectBinding_refuses {task : TaskRow} {version : ℕ} {operationId : Option Uuid}
    {next : Option ℕ} {create : Bool} (htask : w.tasks.get taskId = some task)
    (hb : w.bindings.get taskId = some b)
    (hbad : executionId ≠ b.executionId ∨
      (next = some b.nextStepSequence ∧ operationId ≠ some b.operationId)) :
    Refuses (projectBinding taskId executionId version operationId next create) w := by
  by_cases hx : b.executionId = executionId
  · obtain ⟨rfl, hop⟩ := hbad.resolve_left fun h => h hx.symm
    refine refuses_of_error (e := .valueError "Step sequence has another Operation") ?_
    dsimp only
    rw [htask, hb]
    dsimp only
    rw [if_neg (not_not.mpr hx), if_pos rfl, if_pos hop]
  · refine refuses_of_error (e := .valueError "Task is bound to another Execution") ?_
    dsimp only
    rw [htask, hb]
    dsimp only
    rw [if_pos hx]

/-! ## The receipts of a journal -/

namespace Binding

/-- The progress of a row is a register, which the receipts of a sequence write. -/
theorem progress_take (b : Binding) (r : Receipt) :
    (b.take r).progress = b.progress.putAll r.progress?.toList := by
  unfold take
  cases r.progress? with
  | none => rfl
  | some p => rfl

/-- The progress of a binding after many receipts is that of their numbers. -/
theorem progress_takeAll (b : Binding) (rs : List Receipt) :
    (b.takeAll rs).progress = b.progress.putAll (rs.filterMap Receipt.progress?) := by
  induction rs generalizing b with
  | nil => rfl
  | cons r rs ih =>
    have h : (b.takeAll (r :: rs)).progress = ((b.take r).takeAll rs).progress := rfl
    rw [h, ih, progress_take, ← Register.putAll_append]
    cases hr : r.progress? with
    | none => rw [List.filterMap_cons_none hr]; rfl
    | some p => rw [List.filterMap_cons_some hr]; rfl

/-- So is its version, of which only the stamp is kept. -/
theorem version_takeAll (b : Binding) (rs : List Receipt) :
    (b.takeAll rs).executionVersion =
      ((⟨b.executionVersion, ()⟩ : Register ℕ Unit).putAll
        (rs.map fun r => ⟨r.executionVersion, ()⟩)).stamp := by
  induction rs generalizing b with
  | nil => rfl
  | cons r rs ih =>
    have h : (b.takeAll (r :: rs)).executionVersion =
        ((b.take r).takeAll rs).executionVersion := rfl
    have hput : (⟨b.executionVersion, ()⟩ : Register ℕ Unit).put ⟨r.executionVersion, ()⟩ =
        ⟨(b.take r).executionVersion, ()⟩ := Register.ext (Register.stamp_put _ _) rfl
    rw [h, ih, List.map_cons, Register.putAll_cons, hput]

/-- No receipt changes the execution of a binding or the sequence of its last event. -/
theorem fixed_takeAll (b : Binding) (rs : List Receipt) :
    (b.takeAll rs).executionId = b.executionId ∧
      (b.takeAll rs).lastEventSequence = b.lastEventSequence := by
  induction rs generalizing b with
  | nil => exact ⟨rfl, rfl⟩
  | cons r rs ih => exact ih (b.take r)

end Binding

namespace ExecutionJournal

variable (J : ExecutionJournal) {rs rs' : List Receipt}

/-- The row the submission makes. -/
def row : Binding := ⟨J.executionId, J.submitted.value, J.submitVersion, J.submitted.stamp, 0⟩

/-- What a receipt of the journal names is what was submitted or appended. -/
theorem progress_mem {p : Register ℕ Uuid} (hr : r ∈ J.receipts) (hp : r.progress? = some p) :
    p ∈ J.submitted :: J.appended.map Prod.snd := by
  rcases List.mem_append.mp hr with hr | hr
  · rcases List.mem_cons.mp hr with rfl | hr
    · obtain rfl : J.submitted = p := Option.some.inj hp
      exact List.mem_cons_self
    · obtain ⟨a, ha, rfl⟩ := List.mem_map.mp hr
      obtain rfl : a.2 = p := Option.some.inj hp
      exact List.mem_cons_of_mem _ (List.mem_map_of_mem ha)
  · obtain ⟨v, -, rfl⟩ := List.mem_map.mp hr
    exact absurd hp nofun

/-- Its sequence tells which one. -/
theorem agree : Register.Agree (J.submitted :: J.appended.map Prod.snd) := by
  have hnodup : ((J.submitted :: J.appended.map Prod.snd).map Register.stamp).Nodup := by
    have hmap : (J.submitted :: J.appended.map Prod.snd).map Register.stamp =
        J.submitted.stamp :: J.appended.map fun a => a.2.stamp := by
      rw [List.map_cons, List.map_map]
      rfl
    rw [hmap]
    exact J.distinct
  intro a ha b hb hab
  exact List.inj_on_of_nodup_map hnodup ha hb hab

/-- The writes of receipts of the journal are among its own. -/
theorem writes_mem (hrs : ∀ r ∈ rs, r ∈ J.receipts) {p : Register ℕ Uuid}
    (hp : p ∈ J.submitted :: rs.filterMap Receipt.progress?) :
    p ∈ J.submitted :: J.appended.map Prod.snd := by
  rcases List.mem_cons.mp hp with rfl | hp
  · exact List.mem_cons_self
  · obtain ⟨r, hr, hp⟩ := List.mem_filterMap.mp hp
    exact J.progress_mem (hrs r hr) hp

/-- The row a list of receipts leaves fits every receipt of the journal. -/
theorem fits (hrs : ∀ r ∈ rs, r ∈ J.receipts) (hr : r ∈ J.receipts) :
    (J.row.takeAll rs).Fits r := by
  have hprogress : (J.row.takeAll rs).progress =
      J.submitted.putAll (rs.filterMap Receipt.progress?) :=
    J.row.progress_takeAll rs
  constructor
  · intro p hp hstamp
    have hmine := J.writes_mem hrs (Register.putAll_mem _ _)
    rw [← hprogress] at hmine
    obtain rfl := J.agree p (J.progress_mem hr hp) _ hmine hstamp
    rfl
  · rintro version operationId next rfl
    -- The only submission of the journal is the one that made the row.
    have hnext : next = J.submitted.stamp := by
      rcases List.mem_append.mp hr with hr | hr
      · rcases List.mem_cons.mp hr with hr | hr
        · exact (Receipt.submit.inj hr).2.2
        · obtain ⟨a, -, h⟩ := List.mem_map.mp hr
          exact absurd h nofun
      · obtain ⟨v, -, h⟩ := List.mem_map.mp hr
        exact absurd h nofun
    have hle := J.submitted.stamp_le_putAll (rs.filterMap Receipt.progress?)
    rw [← hprogress] at hle
    exact hnext ▸ hle

/-- The row after receipts says what they say together. -/
theorem reflects (rs : List Receipt) :
    (J.row.takeAll rs).Reflects J.executionId (J.submission :: rs) := by
  have hprogress : (J.row.takeAll rs).progress =
      J.submitted.putAll (rs.filterMap Receipt.progress?) :=
    J.row.progress_takeAll rs
  refine ⟨(J.row.fixed_takeAll rs).1, ?_, ?_, ?_⟩
  · rw [J.row.version_takeAll rs]
    have hgreatest := Register.isGreatest_putAll (⟨J.submitVersion, ()⟩ : Register ℕ Unit)
      (rs.map fun r => ⟨r.executionVersion, ()⟩)
    have hset : {v | ∃ r ∈ J.submission :: rs, r.executionVersion = v} =
        {v | ∃ a ∈ (⟨J.submitVersion, ()⟩ : Register ℕ Unit) ::
          rs.map fun r => ⟨r.executionVersion, ()⟩, a.stamp = v} := by
      ext v
      simp [submission, Receipt.executionVersion]
    rw [hset]
    exact hgreatest
  · have hmem := Register.putAll_mem J.submitted (rs.filterMap Receipt.progress?)
    rw [← hprogress] at hmem
    rcases List.mem_cons.mp hmem with h | h
    · exact ⟨J.submission, List.mem_cons_self, congrArg some h.symm⟩
    · obtain ⟨r, hr, hp⟩ := List.mem_filterMap.mp h
      exact ⟨r, List.mem_cons_of_mem _ hr, hp⟩
  · intro r hr p hp
    have hwrite : p ∈ J.submitted :: rs.filterMap Receipt.progress? := by
      rcases List.mem_cons.mp hr with rfl | hr
      · obtain rfl : J.submitted = p := Option.some.inj hp
        exact List.mem_cons_self
      · exact List.mem_cons_of_mem _ (List.mem_filterMap.mpr ⟨r, hr, hp⟩)
    have hle := Register.le_putAll hwrite
    rw [← hprogress] at hle
    exact hle

/-- Receipts of the same set leave the same row. -/
theorem takeAll_eq (hrs : ∀ r ∈ rs, r ∈ J.receipts)
    (hsame : ∀ r, r ∈ J.submission :: rs ↔ r ∈ J.submission :: rs') :
    J.row.takeAll rs = J.row.takeAll rs' := by
  have hprogress : (J.row.takeAll rs).progress = (J.row.takeAll rs').progress := by
    rw [Binding.progress_takeAll, Binding.progress_takeAll]
    refine Register.putAll_eq
      (fun a ha b hb => J.agree a (J.writes_mem hrs ha) b (J.writes_mem hrs hb))
      fun a => ?_
    have hmem : ∀ qs : List Receipt, a ∈ J.submitted :: qs.filterMap Receipt.progress? ↔
        ∃ r ∈ J.submission :: qs, r.progress? = some a := by
      intro qs
      rw [← List.mem_filterMap]
      rfl
    exact (hmem rs).trans
      ((exists_congr fun r => and_congr_left fun _ => hsame r).trans (hmem rs').symm)
  have hversion : (J.row.takeAll rs).executionVersion = (J.row.takeAll rs').executionVersion := by
    refine (J.reflects rs).version.unique ?_
    have hset : {v | ∃ r ∈ J.submission :: rs, r.executionVersion = v} =
        {v | ∃ r ∈ J.submission :: rs', r.executionVersion = v} := by
      ext v
      exact exists_congr fun r => and_congr_left fun _ => hsame r
    rw [hset]
    exact (J.reflects rs').version
  obtain ⟨hx, hlast⟩ := J.row.fixed_takeAll rs
  obtain ⟨hx', hlast'⟩ := J.row.fixed_takeAll rs'
  exact Binding.ext (hx.trans hx'.symm) (congrArg Register.value hprogress) hversion
    (congrArg Register.stamp hprogress) (hlast.trans hlast'.symm)

end ExecutionJournal

/-! ## The calls one after another -/

/-- A bound Task leaves the Tasks as they are. -/
theorem Bound.tasks (h : Bound w₀ taskId b w) : w.tasks = w₀.tasks := by
  rw [← h.rest]

/-- A bound Task leaves the lock as it is. -/
theorem Bound.lock (h : Bound w₀ taskId b w) : w.lock = w₀.lock := by
  rw [← h.rest]

/-- Receipts that fit, each the row it meets, move the row on and nothing else. -/
theorem projectAll_run {task : TaskRow} {rs : List Receipt}
    (htask : w₀.tasks.get taskId = some task)
    (hx : b.executionId = executionId) (hbound : Bound w₀ taskId b w)
    (hfits : ∀ rs₁ r rs₂, rs = rs₁ ++ r :: rs₂ → (b.takeAll rs₁).Fits r) :
    (projectAll taskId executionId rs w).result = .ok () ∧
      Bound w₀ taskId (b.takeAll rs) (projectAll taskId executionId rs w).final := by
  induction rs generalizing b w with
  | nil => exact ⟨rfl, hbound⟩
  | cons r rs ih =>
    have hone := project_take (hbound.tasks ▸ htask) hbound.row hx (hfits [] r rs rfl)
    have hnext : Bound w₀ taskId (b.take r)
        { w with bindings := w.bindings.modifyAt taskId fun _ => b.take r } := by
      refine ⟨?_, fun id hid => ?_, hbound.rest⟩
      · dsimp only
        rw [Table.get_modifyAt, if_pos rfl, hbound.row]
        rfl
      · dsimp only
        rw [Table.get_modifyAt, if_neg hid]
        exact hbound.others id hid
    have hrest := ih (b := b.take r) hx hnext fun rs₁ r' rs₂ h =>
      hfits (r :: rs₁) r' rs₂ (congrArg (r :: ·) h)
    have hrun : projectAll taskId executionId (r :: rs) w =
        (r.project taskId executionId).andThen (fun _ => projectAll taskId executionId rs) w := rfl
    rw [hrun]
    unfold andThen
    rw [hone]
    exact hrest

namespace ExecutionJournal

variable (J : ExecutionJournal)

/-- The tables after the submission and the receipts. -/
def after (taskId : Uuid) (rs : List Receipt) (w₀ : World) : World :=
  (projectAll taskId J.executionId rs w₀).final

/-- Receipts of the journal, in any order, return and leave the binding that takes them. -/
theorem after_bound {task : TaskRow} {rs : List Receipt} (htask : w₀.tasks.get taskId = some task)
    (hrow : w₀.bindings.get taskId = some J.row) (hrs : ∀ r ∈ rs, r ∈ J.receipts) :
    (projectAll taskId J.executionId rs w₀).result = .ok () ∧
      Bound w₀ taskId (J.row.takeAll rs) (J.after taskId rs w₀) := by
  refine projectAll_run htask rfl ⟨hrow, fun _ _ => rfl, rfl⟩ fun rs₁ r rs₂ h => ?_
  subst h
  exact J.fits (fun r' hr' => hrs r' (List.mem_append_left _ hr'))
    (hrs r (List.mem_append_right _ List.mem_cons_self))

end ExecutionJournal

/-- The projection of an execution's receipts does not depend on their order. From a submission that
was projected to a Task without a row on, receipts of the journal are all accepted, in every order
and however often. They change the row of the Task only, which says after each of them what they say
together: its execution is the journal's, its version the greatest, its Operation that of the
greatest sequence. So the row is the same for the same set of receipts, and one more receipt never
takes its version or its sequence back; one with a smaller sequence changes the version at most. A
receipt of another execution, or of another Operation at the row's sequence, is refused and nothing
changes. -/
theorem binding_confluent (J : ExecutionJournal) (taskId : Uuid) {w w₀ : World}
    (hfree : w.bindings.get taskId = none)
    (hsubmit : Accepts (J.submission.project taskId J.executionId) w w₀) {rs : List Receipt}
    (hrs : ∀ r ∈ rs, r ∈ J.receipts) :
    (projectAll taskId J.executionId rs w₀).result = .ok () ∧
      ∃ b, Bound w₀ taskId b (J.after taskId rs w₀) ∧
        b.Reflects J.executionId (J.submission :: rs) ∧
        (∀ rs', (∀ r, r ∈ J.submission :: rs ↔ r ∈ J.submission :: rs') →
          Bound w₀ taskId b (J.after taskId rs' w₀)) ∧
        (∀ r ∈ J.receipts, ∃ b', Bound w₀ taskId b' (J.after taskId (rs ++ [r]) w₀) ∧
          b'.executionId = b.executionId ∧ b.executionVersion ≤ b'.executionVersion ∧
          b.nextStepSequence ≤ b'.nextStepSequence) ∧
        (∀ (r : Receipt) p, r.progress? = some p → p.stamp < b.nextStepSequence →
          ∃ w', Accepts (r.project taskId J.executionId) (J.after taskId rs w₀) w' ∧
            Bound w₀ taskId
              { b with executionVersion := max b.executionVersion r.executionVersion } w') ∧
        ∀ executionId version operationId next create,
          executionId ≠ J.executionId ∨
            (next = some b.nextStepSequence ∧ operationId ≠ some b.operationId) →
          Refuses (projectBinding taskId executionId version operationId next create)
            (J.after taskId rs w₀) := by
  obtain ⟨⟨task, htask⟩, hrow⟩ := submission_creates hfree hsubmit
  have hafter : ∀ {rs : List Receipt}, (∀ r ∈ rs, r ∈ J.receipts) →
      (projectAll taskId J.executionId rs w₀).result = .ok () ∧
        Bound w₀ taskId (J.row.takeAll rs) (J.after taskId rs w₀) := J.after_bound htask hrow
  obtain ⟨hok, hbound⟩ := hafter hrs
  have htask' : (J.after taskId rs w₀).tasks.get taskId = some task := hbound.tasks ▸ htask
  have hx : (J.row.takeAll rs).executionId = J.executionId := (J.row.fixed_takeAll rs).1
  refine ⟨hok, J.row.takeAll rs, hbound, J.reflects rs, fun rs' hsame => ?_, fun r hr => ?_,
    fun r p hp hlt => ?_, fun executionId version operationId next create hbad => ?_⟩
  · -- The same receipts in another order.
    rw [J.takeAll_eq hrs hsame]
    refine (hafter fun r hr => ?_).2
    rcases List.mem_cons.mp ((hsame r).mpr (List.mem_cons_of_mem _ hr)) with rfl | hr
    · exact List.mem_cons_self
    · exact hrs r hr
  · -- One receipt more.
    have hmore : ∀ r' ∈ rs ++ [r], r' ∈ J.receipts := by
      intro r' hr'
      rcases List.mem_append.mp hr' with hr' | hr'
      · exact hrs r' hr'
      · exact List.mem_singleton.mp hr' ▸ hr
    have htake : J.row.takeAll (rs ++ [r]) = (J.row.takeAll rs).take r := List.foldl_append
    refine ⟨_, (hafter hmore).2, ?_, ?_, ?_⟩ <;> rw [htake]
    · rfl
    · exact le_max_left _ _
    · have hprogress := (J.row.takeAll rs).progress_take r
      have hle := (J.row.takeAll rs).progress.stamp_le_putAll r.progress?.toList
      rw [← hprogress] at hle
      exact hle
  · -- A receipt that is behind the row changes the version at most.
    have hfits : (J.row.takeAll rs).Fits r := by
      constructor
      · intro q hq hstamp
        obtain rfl : p = q := Option.some.inj (hp.symm.trans hq)
        exact absurd hstamp hlt.ne
      · rintro version operationId next rfl
        obtain rfl : _ = p := Option.some.inj hp
        exact hlt.le
    have hobsolete : (J.row.takeAll rs).take r = { J.row.takeAll rs with
        executionVersion := max (J.row.takeAll rs).executionVersion r.executionVersion } := by
      unfold Binding.take
      rw [hp]
      have hput : (J.row.takeAll rs).progress.put p = (J.row.takeAll rs).progress :=
        if_neg (not_lt.mpr hlt.le)
      dsimp only [Option.elim]
      rw [hput]
      rfl
    refine ⟨_, project_take htask' hbound.row hx hfits, ?_⟩
    rw [hobsolete]
    refine ⟨?_, fun id hid => ?_, hbound.rest⟩
    · dsimp only
      rw [Table.get_modifyAt, if_pos rfl, hbound.row]
      rfl
    · dsimp only
      rw [Table.get_modifyAt, if_neg hid]
      exact hbound.others id hid
  · exact projectBinding_refuses htask' hbound.row (hx.symm ▸ hbad)

end

/-! ## A journal of two appends -/

namespace Sample

/-- Task 1 runs as Execution 5. Its submission was followed by the Operations 8 and 9, and by a
cancellation at version 6. -/
def journal : ExecutionJournal where
  executionId := 5
  submitVersion := 1
  submitted := ⟨1, 7⟩
  appended := [(2, ⟨2, 8⟩), (4, ⟨3, 9⟩)]
  versions := [6]
  distinct := by decide

/-- The receipts from the last one back, with a late replay of the submission. -/
def backwards : List Receipt :=
  [.lifecycle 6, .append 4 9 3, .append 2 8 2, .submit 1 7 1]

/-- The tables after the submission. -/
def submitted : World := (journal.submission.project 1 5 (World.accept {} 1)).final

end Sample

/-- Two orders of the sample's receipts leave the same binding. -/
theorem binding_confluent_backwards :
    ∃ b, Bound Sample.submitted 1 b (Sample.journal.after 1 Sample.backwards Sample.submitted) ∧
      Bound Sample.submitted 1 b
        (Sample.journal.after 1 Sample.backwards.reverse Sample.submitted) ∧
      b.operationId = 9 := by
  have hsubmit : Accepts (Sample.journal.submission.project 1 5) (World.accept {} 1)
      Sample.submitted := rfl
  have hreceipts : ∀ r ∈ Sample.backwards, r ∈ Sample.journal.receipts := by decide
  obtain ⟨-, b, hbound, hreflects, hsame, -⟩ :=
    binding_confluent Sample.journal 1 (w := World.accept {} 1) rfl hsubmit hreceipts
  have hrow : (Sample.journal.after 1 Sample.backwards Sample.submitted).bindings.get 1 =
      some ⟨5, 9, 6, 3, 0⟩ := rfl
  obtain rfl : b = _ := Option.some.inj (hbound.row.symm.trans hrow)
  refine ⟨_, hbound, hsame _ fun r => ?_, rfl⟩
  rw [List.mem_cons, List.mem_cons, List.mem_reverse]

end ExAgent.Graph
