import ExAgent.Maintenance.Jobs
import Mathlib.Data.List.Count

/-!
# The attempts of a maintenance job

Every claim begins an attempt of its own, and an attempt starts its trim or plan at most once, so
the number of starts is at most that of the claims (`Inv`). What bounds the claims is `fail`: it is
the only place that compares `attempts` with the limit. `claim` takes over a stale job whatever its
attempts are, and a job whose worker dies in every attempt is claimed and started without end
(`not_started_within`).

The limit is kept by every run in which no job is left behind in its last attempt (`Leaves`): its
execution reaches `fail` or `succeed`, and no other worker takes it over before that.
-/

namespace ExAgent.Maintenance

open Lib

variable {R : Recovery} {s s' : State} {jobs jobs' : Jobs} {e e' : Execution} {i j : ℕ} {id : Uuid}
  {job job' : Job}

/-! ## What the store writes -/

/-- The job has ended. -/
def Job.Settled (job : Job) : Prop := job.state = .succeeded ∨ job.state = .failed

instance (job : Job) : Decidable job.Settled := inferInstanceAs (Decidable (_ ∨ _))

/-- The claim that began an attempt is the current one of its job. -/
def Holds (jobs : Jobs) (id : Uuid) (attempt : ℕ) : Prop :=
  ∃ job, jobs.get id = some job ∧ job.state = .running ∧ job.attempts = attempt

/-- `_claimed` finds the row of a current claim, and refuses every other one. -/
theorem claimed_eq_ok {attempt : ℕ} :
    claimed jobs id attempt = .ok job ↔
      jobs.get id = some job ∧ job.state = .running ∧ job.attempts = attempt := by
  unfold claimed
  cases hget : jobs.get id with
  | none => simp
  | some row =>
    dsimp only
    split_ifs with h
    · constructor
      · nofun
      · rintro ⟨hrow, hstate, hattempt⟩
        obtain rfl := Option.some.inj hrow
        exact absurd h (by simp [hstate, hattempt])
    · obtain ⟨hstate, hattempt⟩ := not_or.mp h
      constructor
      · intro hok
        obtain rfl := Except.ok.inj hok
        exact ⟨rfl, not_not.mp hstate, not_not.mp hattempt⟩
      · rintro ⟨hrow, -⟩
        rw [Option.some.inj hrow]

/-- A claim of a job that has another current attempt, or none, is refused. -/
theorem claimed_superseded {attempt : ℕ} (hjob : jobs.get id = some job)
    (h : ¬Holds jobs id attempt) : claimed jobs id attempt = .error superseded := by
  unfold claimed
  rw [hjob]
  dsimp only
  refine if_pos ?_
  by_contra hnot
  obtain ⟨hstate, hattempt⟩ := not_or.mp hnot
  exact h ⟨job, hjob, not_not.mp hstate, not_not.mp hattempt⟩

/-- A call on a claim raises exactly when the claim is not current. -/
theorem map_claimed_error {attempt : ℕ} {f : Job → Jobs} :
    (∃ error, (claimed jobs id attempt).map f = .error error) ↔ ¬Holds jobs id attempt := by
  have hok := @claimed_eq_ok jobs id
  unfold Holds
  cases hclaimed : claimed jobs id attempt with
  | ok job =>
    constructor
    · nofun
    · intro hnot
      exact absurd ⟨job, hok.mp hclaimed⟩ hnot
  | error error =>
    refine ⟨fun _ ⟨job, hjob⟩ => ?_, fun _ => ⟨error, rfl⟩⟩
    exact absurd (hclaimed.symm.trans (hok.mpr hjob)) nofun

/-- What `claim` does: it begins the next attempt of a job that is due. -/
theorem claim_eq_some {now : Instant} {claimTimeout : ℕ} {actor : String} {row : Job} :
    claim jobs id now claimTimeout actor = some (jobs', row) ↔
      ∃ job, jobs.get id = some job ∧ job.claimable now claimTimeout ∧ row = job.taken now actor ∧
        jobs' = jobs.modifyAt id fun _ => job.taken now actor := by
  unfold claim
  cases hget : jobs.get id with
  | none => simp
  | some job =>
    dsimp only
    split_ifs with h
    · simp only [Option.some.injEq, Prod.mk.injEq]
      constructor
      · rintro ⟨hjobs, hrow⟩
        exact ⟨job, rfl, h, hrow.symm, hjobs.symm⟩
      · rintro ⟨_, rfl, -, hrow, hjobs⟩
        exact ⟨hjobs.symm, hrow.symm⟩
    · constructor
      · nofun
      · rintro ⟨_, hrow, hclaimable, -⟩
        exact absurd (Option.some.inj hrow ▸ hclaimable) h

/-- A job that has ended is not claimed. -/
theorem Job.Settled.not_claimable (h : job.Settled) (now : Instant) (claimTimeout : ℕ) :
    ¬job.claimable now claimTimeout := by
  unfold Job.claimable
  rcases h with h | h <;> simp [h]

/-- A row that an execution's call leaves for a current claim. -/
inductive Outcome (R : Recovery) (job : Job) : Job → Prop
  | succeeded (result : Result) (actor : String) :
      Outcome R job { job with state := .succeeded, result := some result, lastError := none,
                               claimedAt := none, updatedBy := actor }
  | failed (error : String) (now : Instant) (actor : String) :
      Outcome R job (job.retried error R.maxAttempts R.retryDelay now actor)

/-- The limit is applied to what a call leaves. -/
theorem Outcome.limited (h : Outcome R job job') :
    job'.attempts = job.attempts ∧
      (job'.Settled ∨ job'.state = .pending ∧ job.attempts < R.maxAttempts) := by
  cases h with
  | succeeded result actor => exact ⟨rfl, .inl (.inl rfl)⟩
  | failed error now actor =>
    unfold Job.retried
    dsimp only
    split_ifs with h
    · exact ⟨rfl, .inl (.inr rfl)⟩
    · exact ⟨rfl, .inr ⟨rfl, not_le.mp h⟩⟩

/-- An execution's call of the store writes to the row of its job when it holds the current
claim. -/
theorem settle_ok {now : Instant} (h : settle R jobs e now = some (.ok jobs')) :
    ∃ job job', jobs.get e.jobId = some job ∧ job.state = .running ∧ job.attempts = e.attempt ∧
      Outcome R job job' ∧ jobs' = jobs.modifyAt e.jobId fun _ => job' := by
  unfold settle at h
  split at h
  · unfold succeed at h
    obtain ⟨job, hjob, rfl⟩ := Fallible.map_eq_ok.mp (Option.some.inj h)
    obtain ⟨hget, hstate, hattempt⟩ := claimed_eq_ok.mp hjob
    exact ⟨job, _, hget, hstate, hattempt, .succeeded _ _, rfl⟩
  · unfold fail at h
    obtain ⟨job, hjob, rfl⟩ := Fallible.map_eq_ok.mp (Option.some.inj h)
    obtain ⟨hget, hstate, hattempt⟩ := claimed_eq_ok.mp hjob
    exact ⟨job, _, hget, hstate, hattempt, .failed _ _ _, rfl⟩
  · cases h

/-- A claim that is not current gets an error from the store, which then writes nothing. -/
theorem settle_error {now : Instant} {answer : Except StoreError Jobs}
    (h : settle R jobs e now = some answer) :
    (∃ error, answer = .error error) ↔ ¬Holds jobs e.jobId e.attempt := by
  unfold settle at h
  split at h
  · obtain rfl := Option.some.inj h
    exact map_claimed_error
  · obtain rfl := Option.some.inj h
    exact map_claimed_error
  · cases h

/-! ## What an execution does -/

/-- The claim of an execution: its job, and the attempt that it began. -/
def Execution.key (e : Execution) : Uuid × ℕ := (e.jobId, e.attempt)

/-- A phase does not touch the key of an execution. -/
@[simp] theorem Execution.goto_key (e : Execution) (phase : Phase) :
    (e.goto phase).key = e.key := rfl

/-- The phase is the one gone to. -/
@[simp] theorem Execution.goto_phase (e : Execution) (phase : Phase) :
    (e.goto phase).phase = phase :=
  rfl

/-- A caught error does not touch the key of an execution. -/
@[simp]
theorem Execution.caught_key (e : Execution) (text : String) : (e.caught text).key = e.key := by
  unfold Execution.caught
  split <;> rfl

/-- An exception is handled by `fail`, and one of `fail` itself by nobody. -/
theorem Execution.caught_phase (e : Execution) (text : String) :
    (e.caught text).phase ≠ .claimed ∧
      ((e.caught text).phase = .returned → e.phase = .returned ∨
      ∃ error, e.phase = .failing error) := by
  unfold Execution.caught
  split
  · rename_i error h
    exact ⟨nofun, fun _ => .inr ⟨error, h⟩⟩
  · rename_i h
    exact ⟨nofun, fun _ => .inl h⟩
  · exact ⟨nofun, nofun⟩

/-- The execution ends without an answer of the store: its process dies, or the transaction of
`fail` is lost. -/
def Execution.Abandons (e : Execution) : Go → Prop
  | .die => True
  | .raise _ => ∃ error, e.phase = .failing error
  | _ => False

/-- What a step of an execution does to the jobs: nothing, or it settles the current claim. -/
def Wrote (R : Recovery) (jobs : Jobs) (e : Execution) (jobs' : Jobs) : Prop :=
  ∃ job job', jobs.get e.jobId = some job ∧ job.state = .running ∧ job.attempts = e.attempt ∧
    Outcome R job job' ∧ jobs' = jobs.modifyAt e.jobId fun _ => job'

/-- One step of an execution. -/
structure Went (R : Recovery) (jobs : Jobs) (e : Execution) (g : Go) (jobs' : Jobs) (e' : Execution)
    (started : List Uuid) : Prop where
  live : e.phase ≠ .returned
  key : e'.key = e.key
  left : e'.phase ≠ .claimed
  /-- A start is the step out of the first phase. -/
  starts : started = [] ∨ started = [e.jobId] ∧ e.phase = .claimed
  table : jobs' = jobs ∨ Wrote R jobs e jobs'
  /-- It ends by an answer of the store, or is abandoned. -/
  ends : e'.phase = .returned → Wrote R jobs e jobs' ∨ ¬Holds jobs e.jobId e.attempt ∨ e.Abandons g
  abandoned : e.Abandons g → jobs' = jobs ∧ e'.phase = .returned

/-- Only two phases call the store. -/
theorem settle_phase {now : Instant} {answer : Except StoreError Jobs}
    (h : settle R jobs e now = some answer) :
    e.phase ≠ .returned ∧ e.phase ≠ .claimed := by
  unfold settle at h
  split at h
  · rename_i hphase
    exact ⟨by rw [hphase]; nofun, by rw [hphase]; nofun⟩
  · rename_i hphase
    exact ⟨by rw [hphase]; nofun, by rw [hphase]; nofun⟩
  · cases h

/-- The inversion of an execution's steps. -/
theorem Execution.go_spec {g : Go} {started : List Uuid}
    (h : e.go R jobs g = some (jobs', e', started)) : Went R jobs e g jobs' e' started := by
  cases g with
  | resume now uuidText =>
    unfold Execution.go at h
    -- A claimed execution starts its job, or writes what its job came to.
    dsimp only at h
    split at h
    · rename_i hphase
      obtain ⟨rfl, rfl, rfl⟩ : jobs = jobs' ∧ e.goto .started = e' ∧ [e.jobId] = started := by
        simpa using h
      exact ⟨by rw [hphase]; nofun, rfl, nofun, .inr ⟨rfl, hphase⟩, .inl rfl, nofun, nofun⟩
    · obtain ⟨answer, hanswer, h⟩ := Option.map_eq_some_iff.mp h
      obtain ⟨hlive, hclaimed⟩ := settle_phase hanswer
      split at h
      · obtain ⟨rfl, rfl, rfl⟩ := Prod.mk.inj h |>.imp_right Prod.mk.inj
        have hwrote := settle_ok hanswer
        -- The write was refused: the job is no longer this execution's.
        exact ⟨hlive, rfl, nofun, .inl rfl, .inr hwrote, fun _ => .inl hwrote, nofun⟩
      · rename_i error
        obtain ⟨rfl, rfl, rfl⟩ := Prod.mk.inj h |>.imp_right Prod.mk.inj
        have hnot := (settle_error hanswer).mp ⟨error, rfl⟩
        exact ⟨hlive, e.caught_key _, (e.caught_phase _).1, .inl rfl, .inl rfl,
          fun _ => .inr (.inl hnot), nofun⟩
  | respond outcome =>
    unfold Execution.go at h
    dsimp only at h
    split_ifs at h with hphase
    obtain ⟨rfl, rfl, rfl⟩ : jobs = jobs' ∧ e.goto (.succeeding outcome) = e' ∧ [] = started := by
      simpa using h
    exact ⟨by rw [hphase]; nofun, rfl, nofun, .inl rfl, .inl rfl, nofun, nofun⟩
  | raise text =>
    unfold Execution.go at h
    dsimp only at h
    split_ifs at h with hphase
    obtain ⟨rfl, rfl, rfl⟩ : jobs = jobs' ∧ e.caught text = e' ∧ [] = started := by simpa using h
    refine ⟨hphase, e.caught_key _, (e.caught_phase _).1, .inl rfl, .inl rfl,
      fun hreturned => ?_, ?_⟩
    · -- An execution that fails again while failing has returned.
      have hfailing := ((e.caught_phase text).2 hreturned).resolve_left hphase
      exact .inr (.inr hfailing)
    · rintro ⟨error, hfailing⟩
      refine ⟨rfl, ?_⟩
      unfold Execution.caught
      rw [hfailing]
      rfl
  -- The write has committed, but the process sees an exception.
  | lose now text =>
    unfold Execution.go at h
    dsimp only at h
    obtain ⟨answer, hanswer, h⟩ := Option.bind_eq_some_iff.mp h
    obtain ⟨hlive, -⟩ := settle_phase hanswer
    split at h
    · obtain ⟨rfl, rfl, rfl⟩ : _ = jobs' ∧ e.caught text = e' ∧ [] = started := by simpa using h
      have hwrote := settle_ok hanswer
      exact ⟨hlive, e.caught_key _, (e.caught_phase _).1, .inl rfl, .inr hwrote,
        fun _ => .inl hwrote, nofun⟩
    · cases h
  | die =>
    unfold Execution.go at h
    dsimp only at h
    split_ifs at h with hphase
    obtain ⟨rfl, rfl, rfl⟩ : jobs = jobs' ∧ e.goto .returned = e' ∧ [] = started := by simpa using h
    exact ⟨hphase, rfl, nofun, .inl rfl, .inl rfl, fun _ => .inr (.inr trivial),
      fun _ => ⟨rfl, rfl⟩⟩

/-! ## The steps of the system -/

/-- What the steps do. -/
inductive Moves (R : Recovery) (s : State) : Action → State → Prop
  | refused {id : Uuid} {now : Instant} {q : Request} : Moves R s (.create id now q) s
  | passed {id : Uuid} {now : Instant} {actor : String}
      (h : ∀ job, s.jobs.get id = some job → ¬job.claimable now R.claimTimeout) :
      Moves R s (.claim id now actor) s
  | created {id : Uuid} {now : Instant} {q : Request} {row : Job} {jobs : Jobs}
      (hnew : s.jobs.insert id row = some jobs) (hrow : row.state = .pending ∧ row.attempts = 0) :
      Moves R s (.create id now q) { s with jobs }
  | claimed {id : Uuid} {now : Instant} {actor : String} {job : Job}
      (hjob : s.jobs.get id = some job) (hdue : job.claimable now R.claimTimeout) :
      Moves R s (.claim id now actor)
        { s with jobs := s.jobs.modifyAt id fun _ => job.taken now actor
                 executions := s.executions ++ [⟨id, job.taken now actor, actor, .claimed⟩] }
  | went {i : ℕ} {g : Go} {e e' : Execution} {jobs : Jobs} {started : List Uuid}
      (he : s.executions[i]? = some e) (h : Went R s.jobs e g jobs e' started) :
      Moves R s (.go i g) ⟨jobs, s.executions.set i e', s.starts ++ started⟩

/-- A job that is created is pending and was never claimed. -/
theorem create_ok {now : Instant} {q : Request} {r : Uuid × Bool}
    (h : create jobs id now q = .ok (jobs', r)) :
    jobs' = jobs ∨ ∃ row, jobs.insert id row = some jobs' ∧ row.state = .pending ∧
      row.attempts = 0 := by
  unfold create at h
  split at h
  · obtain ⟨_, -, heq⟩ := Fallible.map_eq_ok.mp h
    exact .inl (Prod.mk.inj heq).1.symm
  · obtain ⟨-, h⟩ := Fallible.ite_eq_ok.mp h
    split at h
    · rename_i hinsert
      obtain ⟨rfl, -⟩ := Prod.mk.inj (Except.ok.inj h)
      exact .inr ⟨_, hinsert, rfl, rfl⟩
    · cases h

/-- Every step is one of these. -/
theorem step_moves {a : Action} (h : step R s a = some s') : Moves R s a s' := by
  cases a with
  | create id now q =>
    unfold step at h
    dsimp only at h
    split at h
    · rename_i jobs r hcreate
      obtain rfl := Option.some.inj h
      rcases create_ok hcreate with rfl | ⟨row, hnew, hrow⟩
      · exact .refused
      · exact .created hnew hrow
    · obtain rfl := Option.some.inj h
      exact .refused
  | claim id now actor =>
    unfold step at h
    dsimp only at h
    split at h
    · rename_i jobs row hclaim
      obtain rfl := Option.some.inj h
      obtain ⟨job, hjob, hdue, rfl, rfl⟩ := claim_eq_some.mp hclaim
      exact .claimed hjob hdue
    · rename_i hclaim
      obtain rfl := Option.some.inj h
      refine .passed fun job hjob hdue => ?_
      have hsome : claim s.jobs id now R.claimTimeout actor = some (_, _) :=
        claim_eq_some.mpr ⟨job, hjob, hdue, rfl, rfl⟩
      rw [hclaim] at hsome
      cases hsome
  | go i g =>
    obtain ⟨e, he, h⟩ := Option.bind_eq_some_iff.mp h
    obtain ⟨⟨jobs, e', started⟩, hgo, rfl⟩ := Option.map_eq_some_iff.mp h
    exact .went he (Execution.go_spec hgo)

/-- What a step can do to a row: attempts only grow, and a job that has ended stays as it is. -/
def Job.Grows (job job' : Job) : Prop := job.attempts ≤ job'.attempts ∧ (job.Settled → job' = job)

/-- A running job has not ended. -/
theorem not_settled_of_running (h : job.state = .running) : ¬job.Settled := by
  unfold Job.Settled
  rw [h]
  decide

/-- Rows are never dropped, and only grow. -/
theorem Moves.grows {a : Action} (h : Moves R s a s') (hjob : s.jobs.get id = some job) :
    ∃ job', s'.jobs.get id = some job' ∧ job.Grows job' := by
  cases h with
  | refused => exact ⟨job, hjob, le_rfl, fun _ => rfl⟩
  | passed => exact ⟨job, hjob, le_rfl, fun _ => rfl⟩
  | created hnew hrow =>
    obtain ⟨hfree, hget⟩ := Table.get_of_insert hnew
    refine ⟨job, ?_, le_rfl, fun _ => rfl⟩
    rw [hget id]
    refine (if_neg ?_).trans hjob
    rintro rfl
    exact absurd (hfree.symm.trans hjob) nofun
  | @claimed id' now actor row hrow hdue =>
    by_cases hid : id = id'
    · subst hid
      obtain rfl := Option.some.inj (hrow.symm.trans hjob)
      refine ⟨row.taken now actor, by simp [hrow], Nat.le_succ _, fun hsettled => ?_⟩
      exact absurd hdue (hsettled.not_claimable now R.claimTimeout)
    · exact ⟨job, by simp [hid, hjob], le_rfl, fun _ => rfl⟩
  | @went i g e e' jobs started he hwent =>
    rcases hwent.table with rfl | ⟨row, row', hrow, hstate, hattempt, houtcome, rfl⟩
    · exact ⟨job, hjob, le_rfl, fun _ => rfl⟩
    · by_cases hid : id = e.jobId
      · subst hid
        obtain rfl := Option.some.inj (hrow.symm.trans hjob)
        refine ⟨row', by simp [hrow], houtcome.limited.1.ge, fun hsettled => ?_⟩
        exact absurd hsettled (not_settled_of_running hstate)
      · exact ⟨job, by simp [hid, hjob], le_rfl, fun _ => rfl⟩

/-! ## The claims -/

/-- The claims of the run in their order, each with its job and the attempt that it began. -/
def State.claims (s : State) : List (Uuid × ℕ) := s.executions.map Execution.key

/-- The executions of a job that are past their first phase. -/
def State.begun (s : State) (id : Uuid) : ℕ :=
  s.executions.countP fun e => e.jobId = id ∧ e.phase ≠ .claimed

/-- Every claim of a job begins an attempt of its own, the last of them the current one; a start
belongs to an execution that has left its first phase. -/
structure Inv (s : State) : Prop where
  rows : ∀ k ∈ s.claims, ∃ job, s.jobs.get k.1 = some job ∧ k.2 ≤ job.attempts
  ordered : s.claims.Pairwise fun a b => a.1 = b.1 → a.2 < b.2
  counted : ∀ id job, s.jobs.get id = some job → s.claims.countP (fun k => k.1 = id) = job.attempts
  started : ∀ id, s.starts.count id ≤ s.begun id

/-- An execution that goes on keeps its claim. -/
theorem claims_set {started : List Uuid} {g : Go} (he : s.executions[i]? = some e)
    (h : Went R s.jobs e g jobs' e' started) :
    State.claims ⟨jobs', s.executions.set i e', s.starts ++ started⟩ = s.claims := by
  unfold State.claims
  dsimp only
  rw [List.map_set, h.key]
  apply List.ext_getElem?
  intro j
  rw [List.getElem?_set]
  split_ifs with hij hlt
  · subst hij
    rw [List.getElem?_map, he]
    rfl
  · rw [List.length_map] at hlt
    rw [← hij, List.getElem?_map, List.getElem?_eq_none (not_lt.mp hlt)]
    rfl
  · rfl

/-- A start is counted when the execution leaves its first phase. -/
theorem begun_set {started : List Uuid} {g : Go} (he : s.executions[i]? = some e)
    (h : Went R s.jobs e g jobs' e' started) (id : Uuid) :
    s.begun id + started.count id ≤ State.begun
      ⟨jobs', s.executions.set i e', s.starts ++ started⟩ id := by
  obtain ⟨hi, hget⟩ := List.getElem?_eq_some_iff.mp he
  have hjob : e'.jobId = e.jobId := (Prod.mk.inj h.key).1
  have hleft : e'.phase ≠ .claimed := h.left
  have hset : State.begun ⟨jobs', s.executions.set i e', s.starts ++ started⟩ id =
      s.begun id - (if e.jobId = id ∧ e.phase ≠ .claimed then 1 else 0) +
        (if e'.jobId = id ∧ e'.phase ≠ .claimed then 1 else 0) := by
    unfold State.begun
    rw [List.countP_set hi, hget]
    simp only [decide_eq_true_eq]
  rw [hset]
  by_cases hid : e.jobId = id
  · rw [if_pos (show e'.jobId = id ∧ e'.phase ≠ .claimed from ⟨hjob.trans hid, hleft⟩)]
    rcases h.starts with rfl | ⟨rfl, hphase⟩
    · rw [List.count_nil]
      split_ifs <;> omega
    · have hcount : List.count id [e.jobId] = 1 := by rw [hid, List.count_singleton_self]
      rw [if_neg (not_and.mpr fun _ => not_not.mpr hphase), hcount]
      omega
  · have hcount : started.count id = 0 := by
      rcases h.starts with rfl | ⟨rfl, -⟩
      · rfl
      · exact List.count_eq_zero.mpr (by simpa using Ne.symm hid)
    rw [if_neg (not_and.mpr fun h => absurd h hid),
      if_neg (not_and.mpr fun h => absurd (hjob ▸ h) hid), hcount]
    omega

/-- The row of a job after an execution's step has the attempts that it had. -/
theorem Went.attempts {g : Go} {started : List Uuid} (h : Went R jobs e g jobs' e' started)
    (hjob' : jobs'.get id = some job') :
    ∃ job, jobs.get id = some job ∧ job'.attempts = job.attempts := by
  rcases h.table with rfl | ⟨row, row', hrow, -, -, houtcome, rfl⟩
  · exact ⟨job', hjob', rfl⟩
  · by_cases hid : id = e.jobId
    · subst hid
      have : some row' = some job' := by simpa [hrow] using hjob'
      obtain rfl := Option.some.inj this
      exact ⟨row, hrow, houtcome.limited.1⟩
    · exact ⟨job', by simpa [hid] using hjob', rfl⟩

/-- A claim of a state whose jobs only grow has a row in the next one. -/
theorem Inv.rows_of_grows {a : Action} (hinv : Inv s) (h : Moves R s a s') {k : Uuid × ℕ}
    (hk : k ∈ s.claims) : ∃ job, s'.jobs.get k.1 = some job ∧ k.2 ≤ job.attempts := by
  obtain ⟨job, hjob, hle⟩ := hinv.rows k hk
  obtain ⟨job', hjob', hgrows, -⟩ := h.grows hjob
  exact ⟨job', hjob', hle.trans hgrows⟩

/-- The invariant is kept. -/
theorem Inv.step {a : Action} (hinv : Inv s) (h : Moves R s a s') : Inv s' := by
  have hrows := fun k hk => hinv.rows_of_grows h (k := k) hk
  cases h with
  | refused => exact hinv
  | passed => exact hinv
  | created hnew hrow =>
    obtain ⟨hfree, hget⟩ := Table.get_of_insert hnew
    refine ⟨hrows, hinv.ordered, fun id job hjob => ?_, hinv.started⟩
    rw [hget id] at hjob
    split_ifs at hjob with hid
    · -- Nobody has claimed a job that did not exist.
      obtain rfl := Option.some.inj hjob
      refine (List.countP_eq_zero.mpr fun k hk hkid => ?_).trans hrow.2.symm
      obtain ⟨row, hrow, -⟩ := hinv.rows k hk
      rw [of_decide_eq_true hkid, hid, hfree] at hrow
      cases hrow
    · exact hinv.counted id job hjob
  | @claimed id now actor job hjob hdue =>
    have hclaims : State.claims { s with
        jobs := s.jobs.modifyAt id fun _ => job.taken now actor
        executions := s.executions ++ [⟨id, job.taken now actor, actor, .claimed⟩] } =
          s.claims ++ [(id, job.attempts + 1)] := List.map_append
    constructor
    · -- The new claim has the next attempt of its job.
      intro k hk
      rw [hclaims] at hk
      rcases List.mem_append.mp hk with hk | hk
      · exact hrows k hk
      · obtain rfl := List.mem_singleton.mp hk
        exact ⟨job.taken now actor, by simp [hjob], le_rfl⟩
    · rw [hclaims]
      -- It is above the earlier claims of the job.
      refine List.pairwise_append.mpr ⟨hinv.ordered, List.pairwise_singleton _ _, ?_⟩
      intro k hk k' hk' heq
      obtain rfl := List.mem_singleton.mp hk'
      obtain ⟨row, hrow, hle⟩ := hinv.rows k hk
      have hid : k.1 = id := heq
      rw [hid, hjob] at hrow
      exact Nat.lt_succ_of_le (Option.some.inj hrow ▸ hle)
    · -- It counts for its own job only.
      intro id' row hrow
      rw [hclaims, List.countP_append]
      by_cases hid : id' = id
      · subst hid
        obtain rfl : job.taken now actor = row := by simpa [hjob] using hrow
        rw [hinv.counted id' job hjob]
        simp [Job.taken]
      · have hold : s.jobs.get id' = some row := by simpa [hid] using hrow
        rw [hinv.counted id' row hold]
        simp [Ne.symm hid]
    · intro id'
      refine (hinv.started id').trans ?_
      unfold State.begun
      rw [List.countP_append]
      exact Nat.le_add_right _ _
  | @went i g e e' jobs started he hwent =>
    have hclaims := claims_set he hwent
    refine ⟨fun k hk => hrows k (hclaims ▸ hk), hclaims ▸ hinv.ordered, fun id job' hjob' => ?_,
      fun id => ?_⟩
    · obtain ⟨job, hjob, hattempts⟩ := hwent.attempts hjob'
      rw [hclaims, hattempts]
      exact hinv.counted id job hjob
    · have hbegun := begun_set he hwent id
      have hstarted := hinv.started id
      dsimp only
      rw [List.count_append]
      omega

/-- The invariant holds in every run. -/
theorem inv_reachable (hr : (machine R).Reachable s) : Inv s := by
  refine hr.invariant (fun s hs => ?_) fun s a s' _ hinv hstep => hinv.step (step_moves hstep)
  obtain rfl := hs
  refine ⟨fun k hk => absurd hk List.not_mem_nil, .nil, fun id job hjob => ?_, fun _ => le_rfl⟩
  exact absurd hjob.symm (Option.some_ne_none job)

/-! ## Current claims -/

/-- Two executions with one claim are one execution. -/
theorem Inv.unique (hinv : Inv s) (he : s.executions[i]? = some e)
    (he' : s.executions[j]? = some e') (hkey : e.key = e'.key) : i = j := by
  have hordered : ∀ {i j : ℕ} {e e' : Execution}, s.executions[i]? = some e →
      s.executions[j]? = some e' → e.key = e'.key → ¬i < j := by
    intro i j e e' he he' hkey hlt
    obtain ⟨hi, rfl⟩ := List.getElem?_eq_some_iff.mp he
    obtain ⟨hj, rfl⟩ := List.getElem?_eq_some_iff.mp he'
    have hpair := List.pairwise_iff_getElem.mp (List.pairwise_map.mp hinv.ordered) i j hi hj hlt
    rw [hkey] at hpair
    exact lt_irrefl _ (hpair rfl)
  have hle := not_lt.mp (hordered he' he hkey.symm)
  exact le_antisymm hle (not_lt.mp (hordered he he' hkey))

/-- A later execution claimed the job. -/
def TakenOver (s : State) (i : ℕ) (id : Uuid) : Prop :=
  ∃ j e, i < j ∧ s.executions[j]? = some e ∧ e.jobId = id

/-- A claim that was taken over is not current. -/
theorem Inv.not_holds (hinv : Inv s) (he : s.executions[i]? = some e) (h : TakenOver s i e.jobId) :
    ¬Holds s.jobs e.jobId e.attempt := by
  rintro ⟨job, hjob, -, hattempt⟩
  obtain ⟨j, later, hlt, hlater, hid⟩ := h
  obtain ⟨hi, rfl⟩ := List.getElem?_eq_some_iff.mp he
  obtain ⟨hj, rfl⟩ := List.getElem?_eq_some_iff.mp hlater
  have hpair : s.executions[i].attempt < s.executions[j].attempt :=
    List.pairwise_iff_getElem.mp (List.pairwise_map.mp hinv.ordered) i j hi hj hlt hid.symm
  obtain ⟨row, hrow, hle⟩ :=
    hinv.rows s.executions[j].key (List.mem_map_of_mem (List.getElem_mem hj))
  have hrow' : s.jobs.get s.executions[i].jobId = some row := hid ▸ hrow
  obtain rfl := Option.some.inj (hrow'.symm.trans hjob)
  exact absurd (hpair.trans_le hle) (by rw [hattempt]; exact lt_irrefl _)

/-- Every execution has the row of its job. -/
theorem Inv.row (hinv : Inv s) (he : s.executions[i]? = some e) :
    ∃ job, s.jobs.get e.jobId = some job := by
  obtain ⟨job, hjob, -⟩ := hinv.rows e.key (List.mem_map_of_mem (List.mem_of_getElem? he))
  exact ⟨job, hjob⟩

/-! ## The limit -/

/-- The step leaves a job behind in its last attempt: the execution with its current claim is
abandoned, or another worker takes it over. -/
def Leaves (R : Recovery) (s : State) : Action → Prop
  | .create .. => False
  | .claim id now _ => ∃ job, s.jobs.get id = some job ∧ job.state = .running ∧
      R.maxAttempts ≤ job.attempts ∧ job.stale now R.claimTimeout
  | .go i g => ∃ e job, s.executions[i]? = some e ∧ s.jobs.get e.jobId = some job ∧
      job.state = .running ∧ job.attempts = e.attempt ∧ R.maxAttempts ≤ job.attempts ∧ e.Abandons g

/-- An execution that has not returned holds the current claim of the job. -/
def Held (s : State) (id : Uuid) : Prop :=
  ∃ (i : ℕ) (e : Execution), s.executions[i]? = some e ∧ e.jobId = id ∧ e.phase ≠ .returned ∧
    Holds s.jobs id e.attempt

/-- The limit of attempts is kept for a job: it is claimed and started at most that often, and once
its attempts are used up and nobody is at work on the last one, it has ended. -/
structure Bounded (R : Recovery) (s : State) (id : Uuid) (job : Job) : Prop where
  claims : s.claims.countP (fun k => k.1 = id) ≤ R.maxAttempts
  starts : s.starts.count id ≤ R.maxAttempts
  ends : R.maxAttempts ≤ job.attempts → job.Settled ∨ Held s id

/-- Starts are claims. -/
theorem Inv.starts_le (hinv : Inv s) (id : Uuid) :
    s.starts.count id ≤ s.claims.countP fun k => k.1 = id := by
  refine (hinv.started id).trans ?_
  unfold State.begun State.claims
  rw [List.countP_map]
  refine List.countP_mono_left fun e _ h => ?_
  exact decide_eq_true (of_decide_eq_true h).1

/-- What is to be shown of a job is about its row. -/
theorem Inv.bounded (hinv : Inv s) (hjob : s.jobs.get id = some job)
    (hle : job.attempts ≤ R.maxAttempts)
    (hends : R.maxAttempts ≤ job.attempts → job.Settled ∨ Held s id) : Bounded R s id job := by
  have hclaims := (hinv.counted id job hjob).trans_le hle
  exact ⟨hclaims, (hinv.starts_le id).trans hclaims, hends⟩

/-- A job that can be claimed, and is not taken over in its last attempt, has an attempt left. -/
theorem Bounded.attempts_lt {now : Instant} {actor : String} (h : Bounded R s id job)
    (hjob : s.jobs.get id = some job) (hdue : job.claimable now R.claimTimeout)
    (hleaves : ¬Leaves R s (.claim id now actor)) : job.attempts < R.maxAttempts := by
  by_contra hge
  have hge := not_lt.mp hge
  rcases h.ends hge with hsettled | ⟨i, e, -, -, -, row, hrow, hstate, -⟩
  · exact hsettled.not_claimable now R.claimTimeout hdue
  · obtain rfl := Option.some.inj (hrow.symm.trans hjob)
    unfold Job.claimable at hdue
    rw [hstate] at hdue
    exact hleaves ⟨row, hjob, hstate, hge, hdue⟩

/-- A job stays held when its row stays as it is and the execution that holds it does. -/
theorem Held.went {started : List Uuid} (h : Held s id) (he : s.executions[i]? = some e)
    (hkey : e'.key = e.key) (hrow : jobs'.get id = s.jobs.get id)
    (hlive : e.jobId = id → Holds s.jobs id e.attempt → e'.phase ≠ .returned) :
    Held ⟨jobs', s.executions.set i e', s.starts ++ started⟩ id := by
  obtain ⟨j, held, hheld, hid, hphase, hholds⟩ := h
  have hholds' : Holds jobs' id held.attempt := by
    unfold Holds at hholds ⊢
    rwa [hrow]
  by_cases hij : i = j
  · subst hij
    obtain rfl := Option.some.inj (he.symm.trans hheld)
    obtain ⟨hid', hattempt⟩ := Prod.mk.inj hkey
    obtain ⟨hlt, -⟩ := List.getElem?_eq_some_iff.mp he
    exact ⟨i, e', List.getElem?_set_self hlt, hid'.trans hid, hlive hid hholds,
      hattempt.symm ▸ hholds'⟩
  · exact ⟨j, held, (List.getElem?_set_ne hij).trans hheld, hid, hphase, hholds'⟩

/-- The limit of attempts is kept for every job. -/
def Limited (R : Recovery) (s : State) : Prop :=
  ∀ id job, s.jobs.get id = some job → Bounded R s id job

/-- The limit is kept by every step that leaves no job behind in its last attempt. -/
theorem Limited.step {a : Action} (h : Limited R s) (hinv : Inv s) (hmove : Moves R s a s')
    (hleaves : ¬Leaves R s a) : Limited R s' := by
  have hinv' := hinv.step hmove
  have hattempts : ∀ id job, s.jobs.get id = some job → job.attempts ≤ R.maxAttempts :=
    fun id job hjob => (hinv.counted id job hjob).symm.trans_le (h id job hjob).claims
  intro id job' hjob'
  cases hmove with
  | refused => exact h id job' hjob'
  | passed => exact h id job' hjob'
  | created hnew hrow =>
    obtain ⟨hfree, hget⟩ := Table.get_of_insert hnew
    rw [hget id] at hjob'
    split_ifs at hjob' with hid
    · -- No attempt was made yet, and at least one is allowed.
      obtain rfl := Option.some.inj hjob'
      have hpositive := R.positive.2.1
      refine hinv'.bounded ((hget id).trans (if_pos hid)) (by rw [hrow.2]; exact Nat.zero_le _) ?_
      intro hge
      rw [hrow.2] at hge
      exact absurd hpositive (not_lt.mpr hge)
    · refine hinv'.bounded ((hget id).trans ((if_neg hid).trans hjob')) (hattempts id job' hjob') ?_
      intro hge
      refine ((h id job' hjob').ends hge).imp_right fun hheld => ?_
      obtain ⟨i, e, he, heid, hphase, row, hrow', hholds⟩ := hheld
      exact ⟨i, e, he, heid, hphase, row, (hget id).trans ((if_neg hid).trans hrow'), hholds⟩
  | @claimed id₀ now actor job hjob hdue =>
    -- The claimed job is in the hands of the new execution; the other jobs keep theirs.
    by_cases hid : id = id₀
    · subst hid
      have hlt := (h id job hjob).attempts_lt hjob hdue hleaves
      obtain rfl : job.taken now actor = job' := by simpa [hjob] using hjob'
      refine hinv'.bounded hjob' hlt fun _ => .inr ?_
      exact ⟨s.executions.length, ⟨id, job.taken now actor, actor, .claimed⟩,
        List.getElem?_concat_length, rfl, by simp, job.taken now actor, hjob', rfl, rfl⟩
    · have hsame : s.jobs.get id = some job' := by simpa [hid] using hjob'
      refine hinv'.bounded hjob' (hattempts id job' hsame) fun hge => ?_
      refine ((h id job' hsame).ends hge).imp_right fun hheld => ?_
      obtain ⟨i, e, he, heid, hphase, row, hrow, hholds⟩ := hheld
      have hi := (List.getElem?_eq_some_iff.mp he).1
      refine ⟨i, e, (List.getElem?_append_left hi).trans he, heid, hphase, row, ?_, hholds⟩
      simpa [hid] using hrow
  | @went i g e e' jobs started he hwent =>
    obtain ⟨job, hjob, hsame⟩ := hwent.attempts hjob'
    refine hinv'.bounded hjob' (hsame.trans_le (hattempts id job hjob)) fun hge => ?_
    rw [hsame] at hge
    -- The step has left the table alone, or written this execution's job.
    rcases hwent.table with rfl | ⟨row, row', hrow, hstate, hattempt, houtcome, rfl⟩
    · obtain rfl := Option.some.inj (hjob.symm.trans hjob')
      refine ((h id job hjob).ends hge).imp_right fun hheld => ?_
      refine hheld.went he hwent.key rfl fun hid hholds hreturned => ?_
      subst hid
      rcases hwent.ends hreturned with
        ⟨row, row', hrow, hstate, -, houtcome, hwrote⟩ | hnot | habandons
      · -- The write would have left another state.
        have hrow' : s.jobs.get e.jobId = some row' := by
          rw [hwrote]
          simp [hrow]
        obtain rfl := Option.some.inj (hrow.symm.trans hrow')
        rcases houtcome.limited.2 with hsettled | ⟨hpending, -⟩
        · exact not_settled_of_running hstate hsettled
        · rw [hstate] at hpending
          cases hpending
      · exact hnot hholds
      · obtain ⟨row, hrow, hstate, hattempt⟩ := hholds
        obtain rfl := Option.some.inj (hrow.symm.trans hjob)
        exact hleaves ⟨e, row, he, hrow, hstate, hattempt, hge, habandons⟩
    · -- A job that is settled here may have used up its attempts.
      by_cases hid : id = e.jobId
      · subst hid
        obtain rfl := Option.some.inj (hrow.symm.trans hjob)
        obtain rfl : row' = job' := by simpa [hrow] using hjob'
        exact houtcome.limited.2.imp_right fun hpending => absurd hpending.2 (not_lt.mpr hge)
      · have hget : (s.jobs.modifyAt e.jobId fun _ => row').get id = s.jobs.get id := by simp [hid]
        obtain rfl := Option.some.inj (hjob.symm.trans (hget ▸ hjob'))
        refine ((h id job hjob).ends hge).imp_right fun hheld => ?_
        exact hheld.went he hwent.key hget fun heid => absurd heid.symm hid

/-- A step that leaves a job behind in its last attempt breaks the limit. -/
theorem Leaves.not_limited {a : Action} (hleaves : Leaves R s a) (hinv : Inv s)
    (hmove : Moves R s a s') : ¬Limited R s' := by
  have hinv' := hinv.step hmove
  intro h
  cases hmove with
  | refused => exact hleaves
  | created => exact hleaves
  | passed hpassed =>
    obtain ⟨job, hjob, hstate, -, hstale⟩ := hleaves
    refine hpassed job hjob ?_
    unfold Job.claimable
    rw [hstate]
    exact hstale
  | @claimed id now actor job hjob hdue =>
    -- One claim too many.
    obtain ⟨row, hrow, -, hge, -⟩ := hleaves
    obtain rfl := Option.some.inj (hjob.symm.trans hrow)
    have hrow' : (s.jobs.modifyAt id fun _ => job.taken now actor).get id =
        some (job.taken now actor) := by
      simp [hjob]
    have hclaims := (h id _ hrow').claims
    rw [hinv'.counted id _ hrow'] at hclaims
    exact absurd (lt_of_lt_of_le (Nat.lt_succ_of_le hge) hclaims) (lt_irrefl _)
  | @went i g e e' jobs started he hwent =>
    -- The only execution that holds the last claim has returned.
    obtain ⟨e₀, job, he₀, hjob, hstate, hattempt, hge, habandons⟩ := hleaves
    obtain rfl := Option.some.inj (he.symm.trans he₀)
    obtain ⟨rfl, hreturned⟩ := hwent.abandoned habandons
    rcases (h e.jobId job hjob).ends hge with
      hsettled | ⟨j, held, hheld, hid, hphase, row, hrow, -, hattempt'⟩
    · exact not_settled_of_running hstate hsettled
    · obtain rfl := Option.some.inj (hjob.symm.trans hrow)
      have hlt := (List.getElem?_eq_some_iff.mp he).1
      have he' : (s.executions.set i e')[i]? = some e' := List.getElem?_set_self hlt
      have hkey : e'.key = held.key :=
        hwent.key.trans (Prod.ext hid.symm (hattempt.symm.trans hattempt'))
      obtain rfl := hinv'.unique he' hheld hkey
      obtain rfl := Option.some.inj (he'.symm.trans hheld)
      exact hphase hreturned

/-- The limit is kept in every run that leaves no job behind in its last attempt. -/
theorem limited_reachable (hr : (machine R).ReachableWhen (fun s a => ¬Leaves R s a) s) :
    Limited R s := by
  refine hr.invariant (fun s hs => ?_) fun s a s' hr h hleaves hstep => ?_
  · obtain rfl := hs
    exact fun id job hjob => absurd hjob.symm (Option.some_ne_none job)
  · exact h.step (inv_reachable hr.reachable) (step_moves hstep) hleaves

/-- A row is only ever added to, along every run. -/
theorem leads_grows (hl : (machine R).Leads s s') (hjob : s.jobs.get id = some job) :
    ∃ job', s'.jobs.get id = some job' ∧ job.Grows job' := by
  induction hl with
  | refl => exact ⟨job, hjob, le_rfl, fun _ => rfl⟩
  | tail _ hs ih =>
    obtain ⟨a, hstep⟩ := hs
    obtain ⟨row, hrow, hle, hsettled⟩ := ih
    obtain ⟨row', hrow', hle', hsettled'⟩ := (step_moves hstep).grows hrow
    refine ⟨row', hrow', hle.trans hle', fun h => ?_⟩
    have hsame := hsettled h
    exact (hsettled' (hsame ▸ h)).trans hsame

/-- A claim that was taken over is refused by the store. -/
theorem Inv.refused (hinv : Inv s) (he : s.executions[i]? = some e) (h : TakenOver s i e.jobId) :
    claimed s.jobs e.jobId e.attempt = .error superseded := by
  obtain ⟨job, hjob⟩ := hinv.row he
  exact claimed_superseded hjob (hinv.not_holds he h)

/-- Whatever an execution does whose claim was taken over, the jobs stay as they are. -/
theorem Inv.unchanged {g : Go} (hinv : Inv s) (he : s.executions[i]? = some e)
    (h : TakenOver s i e.jobId) (hstep : Maintenance.step R s (.go i g) = some s') :
    s'.jobs = s.jobs := by
  cases step_moves hstep with
  | went he' hwent =>
    obtain rfl := Option.some.inj (he.symm.trans he')
    rcases hwent.table with hsame | ⟨job, -, hjob, hstate, hattempt, -⟩
    · exact hsame
    · exact absurd ⟨job, hjob, hstate, hattempt⟩ (hinv.not_holds he h)

/-- **The attempts of maintenance jobs.** In every run a job's attempts never decrease, and a job
that has ended stays as it is; at most one claim of a job is current; and `succeed` and `fail` by a
claim that was taken over raise and change nothing. A job is claimed and started at most
`max_attempts` times, and has ended once its attempts are used up and nobody is at work on the last,
in every run whose steps leave no job behind in its last attempt; the first step that does breaks
this. -/
theorem attempts_bounded (R : Recovery) :
    (∀ (s s' : State) (id : Uuid) (job : Job), (machine R).Reachable s → (machine R).Leads s s' →
      s.jobs.get id = some job → ∃ job', s'.jobs.get id = some job' ∧ job.attempts ≤ job'.attempts ∧
        (job.state = .succeeded ∨ job.state = .failed → job' = job)) ∧
    (∀ (s : State) (i j : ℕ) (e e' : Execution), (machine R).Reachable s →
      s.executions[i]? = some e → s.executions[j]? = some e' → e.jobId = e'.jobId →
      Holds s.jobs e.jobId e.attempt →
      Holds s.jobs e'.jobId e'.attempt → i = j) ∧
    (∀ (s : State) (i : ℕ) (e : Execution), (machine R).Reachable s →
      s.executions[i]? = some e → TakenOver s i e.jobId →
      (∀ result actor, succeed s.jobs e.jobId e.attempt result actor = .error superseded) ∧
      (∀ error now actor, fail s.jobs e.jobId e.attempt error R.maxAttempts R.retryDelay now actor =
        .error superseded) ∧
      ∀ g s', step R s (.go i g) = some s' → s'.jobs = s.jobs) ∧
    ∀ s, (machine R).ReachableWhen (fun s a => ¬Leaves R s a) s →
      Limited R s ∧ ∀ a s', step R s a = some s' → (Limited R s' ↔ ¬Leaves R s a) := by
  refine ⟨fun s s' id job _ hl hjob => leads_grows hl hjob, ?_, ?_, ?_⟩
  · rintro s i j e e' hr he he' hid ⟨job, hjob, -, hattempt⟩ ⟨job', hjob', -, hattempt'⟩
    rw [hid, hjob'] at hjob
    obtain rfl := Option.some.inj hjob
    exact (inv_reachable hr).unique he he' (Prod.ext hid (hattempt.symm.trans hattempt'))
  · intro s i e hr he htaken
    have hinv := inv_reachable hr
    have hclaimed := hinv.refused he htaken
    refine ⟨fun result actor => ?_, fun error now actor => ?_, fun g s' hstep => ?_⟩
    · unfold succeed
      rw [hclaimed]
      rfl
    · unfold fail
      rw [hclaimed]
      rfl
    · exact hinv.unchanged he htaken hstep
  · intro s hr
    have hinv := inv_reachable hr.reachable
    refine ⟨limited_reachable hr, fun a s' hstep => ⟨fun h hleaves => ?_, fun hleaves => ?_⟩⟩
    · exact hleaves.not_limited hinv (step_moves hstep) h
    · exact (limited_reachable hr).step hinv (step_moves hstep) hleaves

/-! ## A worker that dies in every attempt -/

namespace Sample

/-- The default settings. -/
def recovery : Recovery := ⟨60000000, 5, 5000000, by decide⟩

/-- A trim of one stream. -/
def request : Request :=
  { streamAlias := "agent_commands", streamKey := "agent:commands", action := .trim
    actor := "operator-1", idempotencyKey := "trim-1", requestHash := 1, reason := "retention"
    retentionSeconds := 60, minimumRetainedEntries := 1 }

/-- The `n`-th worker claims the job two minutes after the one before, starts the trim and dies. -/
def attempt (n : ℕ) : List Action :=
  [.claim 1 (120000000 * n) "WORKER", .go n (.resume (120000000 * n) fun _ => ""), .go n .die]

/-- The job is created, and six workers die in their trims. -/
def deaths : List Action := .create 1 0 request :: (List.range 6).flatMap attempt

end Sample

/-- A job whose worker dies in every attempt is claimed again and started more often than
`max_attempts`, and has not failed. -/
theorem not_started_within :
    ¬∀ s, (machine Sample.recovery).Reachable s → ∀ id job, s.jobs.get id = some job →
      s.starts.count id ≤ Sample.recovery.maxAttempts ∧
        (Sample.recovery.maxAttempts ≤ job.attempts → job.Settled ∨ Held s id) := by
  intro h
  have hrun : ∃ s, (machine Sample.recovery).run ⟨.empty, [], []⟩ Sample.deaths = some s ∧
      s.starts.count 1 = 6 ∧ ∃ job, s.jobs.get 1 = some job := by
    refine ⟨_, rfl, rfl, _, rfl⟩
  obtain ⟨s, hs, hstarts, job, hjob⟩ := hrun
  have hle := (h s (Machine.Reachable.run (.start rfl) hs) 1 job hjob).1
  rw [hstarts] at hle
  exact absurd hle (by decide)

end ExAgent.Maintenance
