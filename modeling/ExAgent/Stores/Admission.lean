import ExAgent.Stores.Contracts

/-!
# The life of a request

What holds of the rows of `agent_api_requests` in every run of the stores. A session has at most one
request that is `PENDING`, `RUNNING` or `BLOCKED`: only an insert makes a request active, and the
partial unique index refuses it next to another one. A row goes through its states in one direction
(`Evolved`). The state and the attempt number that a caller read never come back once the row has
left them (`Passed`), so the fence of `finish` refuses a caller that was overtaken. A claim that
answers `RUNNING` takes one attempt, and the graph is invoked at most once for it.
-/

namespace ExAgent.Stores

open Lib ExAgent.Graph
open Session (ApiRequest RequestState)

/-- At most one request of a session is active. -/
def OneActive (db : Db) : Prop :=
  ∀ id₁ id₂ row₁ row₂, db.requests.get id₁ = some row₁ → db.requests.get id₂ = some row₂ →
    row₁.state.isActive = true → row₂.state.isActive = true → row₁.sessionId = row₂.sessionId →
      id₁ = id₂

/-- The states that a request does not leave. -/
def isFinal : RequestState → Bool
  | .applied | .rejected | .compensated => true
  | _ => false

/-- What becomes of a request: its command stays, its attempts are counted up, and it moves on from
state to state without coming back. -/
structure Evolved (row row' : RequestRow) : Prop where
  command : row'.command = row.command
  fingerprint : row'.fingerprint = row.fingerprint
  task : row'.taskId = row.taskId
  session : row'.sessionId = row.sessionId
  attempts : row.attempts ≤ row'.attempts
  absorbing : isFinal row.state = true → row'.state = row.state ∧ row'.attempts = row.attempts
  blocked : row.state = .blocked → row'.state = .blocked ∨ row'.state = .applied ∨
    row'.state = .compensated
  active : row'.state.isActive = true → row.state.isActive = true

/-- The row has left the state and attempt of a record for good: it is closed, or a later attempt
was claimed, or the attempt ended and waits for the next one. -/
def Passed (record row : RequestRow) : Prop :=
  RequestStore.isOpen row.state = false ∨ record.attempts < row.attempts ∨
    (record.attempts = row.attempts ∧ record.state = .running ∧ row.state = .pending)

/-- A commit of `claim` by which the request was taken to be run: the graph is invoked at most once
for it, with the record that it returns. -/
def isRunningClaim (id : Uuid) (e : Entry Op Result) : Bool :=
  match e.op, e.result with
  | .claimRequest id' .., .ok (.request row) => decide (id' = id) && decide (row.state = .running)
  | _, _ => false

/-- How often a request was taken to be run. -/
def invocations (history : List (Entry Op Result)) (id : Uuid) : ℕ :=
  history.countP (isRunningClaim id)

section Changes

variable {S : Settings} {op : Op} {held : List RowKey} {result : Result} {db db' : Db}
variable {row row' record : RequestRow}

/-- A row that does not change has evolved. -/
theorem Evolved.refl (row : RequestRow) : Evolved row row :=
  ⟨rfl, rfl, rfl, rfl, le_rfl, fun _ => ⟨rfl, rfl⟩, fun h => .inl h, fun h => h⟩

/-- Rows go on evolving. -/
theorem Evolved.trans {row'' : RequestRow} (h : Evolved row row') (h' : Evolved row' row'') :
    Evolved row row'' where
  command := h'.command.trans h.command
  fingerprint := h'.fingerprint.trans h.fingerprint
  task := h'.task.trans h.task
  session := h'.session.trans h.session
  attempts := h.attempts.trans h'.attempts
  absorbing hf := by
    obtain ⟨hs, ha⟩ := h.absorbing hf
    obtain ⟨hs', ha'⟩ := h'.absorbing (hs ▸ hf)
    exact ⟨hs'.trans hs, ha'.trans ha⟩
  blocked hb := by
    rcases h.blocked hb with hb' | hb' | hb'
    · exact h'.blocked hb'
    · exact .inr (.inl ((h'.absorbing (by rw [hb']; rfl)).1.trans hb'))
    · exact .inr (.inr ((h'.absorbing (by rw [hb']; rfl)).1.trans hb'))
  active ha := h.active (h'.active ha)

/-- An open request is neither final nor blocked. -/
theorem isOpen_cases {state : RequestState} (h : RequestStore.isOpen state = true) :
    isFinal state = false ∧ state ≠ .blocked ∧ state.isActive = true := by
  cases state <;> simp_all [RequestStore.isOpen, isFinal, RequestState.isActive]

/-- The three ways a claim can end. -/
theorem claimed_cases (S : Settings) (row : RequestRow) (hasCleanup : Bool) (now delay : Time) :
    (∃ error, RequestStore.claimed S row hasCleanup now delay =
        { row with state := .blocked, lastError := error }) ∨
      (row.attempts < S.maxAttempts ∧ RequestStore.claimed S row hasCleanup now delay =
        { row with
          state := .running, attempts := row.attempts + 1, nextAttemptAt := now + delay }) := by
  unfold RequestStore.claimed
  split_ifs with hc hm
  · exact .inl ⟨_, rfl⟩
  · exact .inl ⟨row.lastError, rfl⟩
  · exact .inl ⟨_, rfl⟩
  · exact .inr ⟨by omega, rfl⟩

/-- The fence of `finish`. -/
theorem isCurrent_iff : RequestStore.isCurrent row record = true ↔
    RequestStore.isOpen record.state = true ∧ row.state = record.state ∧
      row.attempts = record.attempts := by
  simp only [RequestStore.isCurrent, Bool.and_eq_true, decide_eq_true_eq, and_assoc]

/-- A change of a request is one of its life. -/
theorem RequestChange.evolved (h : RequestChange S op result row row') : Evolved row row' := by
  -- A call that needs an open row has nothing to say about a final or blocked one.
  have hopen : RequestStore.isOpen row.state = true → ∀ {r : RequestRow},
      r.command = row.command → r.fingerprint = row.fingerprint → r.taskId = row.taskId →
      r.sessionId = row.sessionId → row.attempts ≤ r.attempts → Evolved row r := by
    intro ho r h₁ h₂ h₃ h₄ h₅
    obtain ⟨hf, hb, ha⟩ := isOpen_cases ho
    exact ⟨h₁, h₂, h₃, h₄, h₅, fun h => by simp [hf] at h, fun h => absurd h hb, fun _ => ha⟩
  cases h with
  | @claim _ id now delay hasCleanup ho =>
    rcases claimed_cases S row hasCleanup now delay with ⟨error, he⟩ | ⟨-, he⟩
    · rw [he]
      exact hopen ho rfl rfl rfl rfl le_rfl
    · rw [he]
      exact hopen ho rfl rfl rfl rfl (Nat.le_succ _)
  | finish hstate hcurrent =>
    obtain ⟨ho, hs, -⟩ := isCurrent_iff.mp hcurrent
    exact hopen (hs ▸ ho) rfl rfl rfl rfl le_rfl
  | resolve hstate hattempts =>
    exact ⟨rfl, rfl, rfl, rfl, le_rfl, fun h => by simp [hstate, isFinal] at h,
      fun _ => .inr (.inl rfl), fun h => by simp [RequestState.isActive] at h⟩
  | defer ho => exact hopen ho rfl rfl rfl rfl le_rfl

/-- A row that has left a record does not come back to it. -/
theorem RequestChange.passed (h : RequestChange S op result row row') (hp : Passed record row) :
    Passed record row' := by
  cases h with
  | @claim _ id now delay hasCleanup ho =>
    rcases claimed_cases S row hasCleanup now delay with ⟨error, he⟩ | ⟨-, he⟩
    · exact .inl (by rw [he]; rfl)
    · rcases hp with hp | hp | hp
      · simp [hp] at ho
      · exact .inr (.inl (by rw [he]; exact Nat.lt_succ_of_lt hp))
      · exact .inr (.inl (by rw [he]; exact Nat.lt_succ_of_le hp.1.le))
  | @finish _ held state error now delay hstate hcurrent =>
    obtain ⟨ho, hs, ha⟩ := isCurrent_iff.mp hcurrent
    rcases hp with hp | hp | hp
    · rw [hs] at hp
      simp [hp] at ho
    · exact .inr (.inl hp)
    · cases state with
      | pending => exact .inr (.inr ⟨hp.1, hp.2.1, rfl⟩)
      | running => simp at hstate
      | _ => exact .inl rfl
  | resolve hstate hattempts => exact .inl rfl
  | defer ho => exact hp

/-- A row that leaves the state and attempt of a record has left them for good. -/
theorem RequestChange.leaves (h : RequestChange S op result row row')
    (hs : row.state = record.state) (ha : row.attempts = record.attempts)
    (hne : row'.state ≠ record.state ∨ row'.attempts ≠ record.attempts) : Passed record row' := by
  cases h with
  | @claim _ id now delay hasCleanup ho =>
    rcases claimed_cases S row hasCleanup now delay with ⟨error, he⟩ | ⟨-, he⟩
    · exact .inl (by rw [he]; rfl)
    · exact .inr (.inl (by rw [he, ← ha]; exact Nat.lt_succ_self _))
  | @finish _ held state error now delay hstate hcurrent =>
    have hne : state ≠ record.state := hne.resolve_right fun h => h ha
    cases state with
    | pending =>
      refine .inr (.inr ⟨ha.symm, ?_, rfl⟩)
      obtain ⟨ho, hs', -⟩ := isCurrent_iff.mp hcurrent
      have ho' : RequestStore.isOpen record.state = true := hs ▸ hs'.symm ▸ ho
      revert hne ho'
      cases record.state <;> simp [RequestStore.isOpen]
    | running => simp at hstate
    | _ => exact .inl rfl
  | resolve hstate hattempts => exact .inl rfl
  | defer ho =>
    rcases hne with hne | hne
    · exact absurd hs hne
    · exact absurd ha hne

/-- The fence refuses a record that the row has left. -/
theorem Passed.not_current (h : Passed record row) : RequestStore.isCurrent row record = false := by
  rw [Bool.eq_false_iff]
  intro hc
  obtain ⟨ho, hs, ha⟩ := isCurrent_iff.mp hc
  rcases h with h | h | h
  · rw [hs] at h
    simp [h] at ho
  · omega
  · rw [hs, h.2.1] at h
    simp at h

/-- A commit of a call of `RequestStore` other than `accept` changes its request. -/
theorem Commit.request_change (h : Commit S op held result db db') (id : Uuid)
    (hid : op.requestId? = some id) : ∃ row row', db.requests.get id = some row ∧
      db'.requests.get id = some row' ∧ RequestChange S op result row row' := by
  cases h with
  | @request _ _ _ _ i row row' hid' hheld hrow hchange =>
    obtain rfl := Option.some.inj (hid.symm.trans hid')
    exact ⟨row, row', hrow, by simp [Db.putRequest, hrow], hchange⟩
  | cleanup hheld hrow hchange => cases hchange <;> cases hid
  | task hheld htask hchange hlocks => cases hchange <;> cases hid
  | _ => cases hid

/-- A commit keeps every request and moves it on. -/
theorem Commit.evolved (h : Commit S op held result db db') {id : Uuid}
    (hrow : db.requests.get id = some row) :
    ∃ row', db'.requests.get id = some row' ∧ Evolved row row' := by
  cases h.request_fate id with
  | same hsame => exact ⟨row, hsame.trans hrow, .refl row⟩
  | admitted hop hid hnone hidle hnew htask =>
    rw [hrow] at hnone
    cases hnone
  | changed hop hrow' hnew hchange =>
    obtain rfl := Option.some.inj (hrow.symm.trans hrow')
    exact ⟨_, hnew, hchange.evolved⟩
  | compensated hop hrow' htask hactive hnew =>
    obtain rfl := Option.some.inj (hrow.symm.trans hrow')
    refine ⟨_, hnew, rfl, rfl, rfl, rfl, le_rfl, fun hf => ?_, fun _ => .inr (.inr rfl), ?_⟩
    · revert hf hactive
      cases row.state <;> simp [isFinal, RequestState.isActive]
    · exact fun h => by simp [RequestState.isActive] at h

/-- Where an active request comes from: it was active before, or it was admitted to a session
without an active request. -/
theorem Commit.active_source (h : Commit S op held result db db') {id : Uuid}
    (hrow' : db'.requests.get id = some row') (ha : row'.state.isActive = true) :
    (∃ row, db.requests.get id = some row ∧ row.state.isActive = true ∧
        row.sessionId = row'.sessionId) ∨
      ∃ command node base now, op = .accept command node base now ∧ id = command.requestId ∧
        db.activeRequest? row'.sessionId = none := by
  cases h.request_fate id with
  | same hsame => exact .inl ⟨row', hsame ▸ hrow', ha, rfl⟩
  | admitted hop hid hnone hidle hnew htask =>
    obtain rfl := Option.some.inj (hrow'.symm.trans hnew)
    exact .inr ⟨_, _, _, _, hop, hid, hidle⟩
  | changed hop hrow hnew hchange =>
    obtain rfl := Option.some.inj (hrow'.symm.trans hnew)
    exact .inl ⟨_, hrow, hchange.evolved.active ha, hchange.evolved.session.symm⟩
  | compensated hop hrow htask hactive hnew =>
    obtain rfl := Option.some.inj (hrow'.symm.trans hnew)
    simp [RequestState.isActive] at ha

/-- A commit keeps at most one request of a session active. -/
theorem Commit.oneActive (h : Commit S op held result db db') (hone : OneActive db) :
    OneActive db' := by
  -- A new request meets no active one in its session.
  have hidle : ∀ {sessionId id : Uuid} {row : RequestRow}, db.activeRequest? sessionId = none →
      db.requests.get id = some row → row.state.isActive = true → row.sessionId ≠ sessionId := by
    intro sessionId id row hnone hrow ha hs
    have := Db.activeRequest?_eq_none.mp hnone id row hrow hs
    simp [this] at ha
  intro id₁ id₂ row₁ row₂ h₁ h₂ ha₁ ha₂ hs
  rcases h.active_source h₁ ha₁ with ⟨r₁, hr₁, hra₁, hrs₁⟩ | ⟨c₁, _, _, _, hop₁, hid₁, hn₁⟩
  · rcases h.active_source h₂ ha₂ with ⟨r₂, hr₂, hra₂, hrs₂⟩ | ⟨c₂, _, _, _, hop₂, hid₂, hn₂⟩
    · exact hone id₁ id₂ r₁ r₂ hr₁ hr₂ hra₁ hra₂ (by rw [hrs₁, hrs₂, hs])
    · exact absurd (hrs₁.trans hs) (hidle hn₂ hr₁ hra₁)
  · rcases h.active_source h₂ ha₂ with ⟨r₂, hr₂, hra₂, hrs₂⟩ | ⟨c₂, _, _, _, hop₂, hid₂, hn₂⟩
    · exact absurd (hrs₂.trans hs.symm) (hidle hn₁ hr₂ hra₂)
    · rw [hop₁] at hop₂
      injection hop₂ with hc
      rw [hid₁, hid₂, hc]

/-- A request has as many attempts as it was taken to be run, and not more than allowed. -/
def Counted (S : Settings) (db : Db) (history : List (Entry Op Result)) (id : Uuid) : Prop :=
  match db.requests.get id with
  | none => invocations history id = 0
  | some row => invocations history id = row.attempts ∧ row.attempts ≤ S.maxAttempts

/-- A change counts one attempt when it claims the request, and none otherwise. -/
theorem RequestChange.counted (h : RequestChange S op result row row') {i : ℕ} {id : Uuid}
    (hid : op.requestId? = some id) (hmax : row.attempts ≤ S.maxAttempts) :
    row'.attempts = row.attempts + (if isRunningClaim id ⟨i, op, result⟩ then 1 else 0) ∧
      row'.attempts ≤ S.maxAttempts := by
  cases h with
  | @claim _ id' now delay hasCleanup ho =>
    obtain rfl : id' = id := Option.some.inj hid
    rcases claimed_cases S row hasCleanup now delay with ⟨error, he⟩ | ⟨hlt, he⟩
    · simp [he, isRunningClaim, hmax]
    · simp only [he, isRunningClaim, decide_true, Bool.and_self, if_true, true_and]
      omega
  | finish hstate hcurrent => simp [isRunningClaim, hmax]
  | resolve hstate hattempts => simp [isRunningClaim, hmax]
  | defer ho => simp [isRunningClaim, hmax]

/-- A commit keeps the count of the attempts. -/
theorem Commit.counted (h : Commit S op held result db db') {history : List (Entry Op Result)}
    {i : ℕ} {id : Uuid} (hc : Counted S db history id) :
    Counted S db' (history ++ [⟨i, op, result⟩]) id := by
  have happend : invocations (history ++ [⟨i, op, result⟩]) id =
      invocations history id + (if isRunningClaim id ⟨i, op, result⟩ then 1 else 0) := by
    simp [invocations, List.countP_append, List.countP_singleton]
  by_cases hid : op.requestId? = some id
  · obtain ⟨row, row', hrow, hrow', hchange⟩ := h.request_change id hid
    unfold Counted at hc ⊢
    rw [hrow] at hc
    rw [hrow', happend]
    obtain ⟨hadd, hle⟩ := hchange.counted (i := i) hid hc.2
    exact ⟨by omega, hle⟩
  · have hno : isRunningClaim id ⟨i, op, result⟩ = false := by
      unfold isRunningClaim
      split
      · rename_i id' _ _ _ heq _
        rw [show op = _ from heq] at hid
        have : id' ≠ id := fun hii => hid (congrArg some hii)
        simp [this]
      · rfl
    rw [hno, if_neg (by simp), Nat.add_zero] at happend
    unfold Counted at hc ⊢
    rw [happend]
    cases h.request_fate id with
    | same hsame => rwa [hsame]
    | admitted hop hid' hnone hidle hnew htask =>
      rw [hnone] at hc
      rw [hnew]
      exact ⟨hc, Nat.zero_le _⟩
    | changed hop hrow hnew hchange => exact absurd hop hid
    | compensated hop hrow htask hactive hnew =>
      rw [hrow] at hc
      rw [hnew]
      exact hc

/-- A commit comes with an answer, not with an exception. -/
theorem Commit.answered (h : Commit S op held result db db') : ∃ answer, result = .ok answer := by
  cases h with
  | request hid hheld hrow hchange => cases hchange <;> exact ⟨_, rfl⟩
  | cleanup hheld hrow hchange => cases hchange <;> exact ⟨_, rfl⟩
  | _ => exact ⟨_, rfl⟩

end Changes

/-! ## Runs -/

section Runs

variable {S : Settings} {s s' : State}

/-- In every reachable state, a Session has one active request at most. -/
theorem oneActive_reachable (hr : (stores S).Reachable s) : OneActive s.db := by
  refine commits_invariant (I := fun db _ => OneActive db) ?_ ?_ hr
  · rintro db ⟨hreq, -⟩ id₁ id₂ row₁ row₂ h₁
    simp [hreq] at h₁
  · intro e held db db' history hone _ h
    exact h.oneActive hone

/-- In every reachable state, the attempts of a request are its claims in the history. -/
theorem counted_reachable (hr : (stores S).Reachable s) (id : Uuid) :
    Counted S s.db s.history id := by
  refine commits_invariant (I := fun db history => Counted S db history id) ?_ ?_ hr
  · rintro db ⟨hreq, -⟩
    simp [Counted, hreq, invocations]
  · intro e held db db' history hc _ h
    exact h.counted hc

/-- A request is kept and moves on along every run. -/
theorem evolved_of_leads (hr : (stores S).Reachable s) (hl : (stores S).Leads s s') {id : Uuid}
    {row : RequestRow} (hrow : s.db.requests.get id = some row) :
    ∃ row', s'.db.requests.get id = some row' ∧ Evolved row row' := by
  refine commits_stable (P := fun db => ∃ row', db.requests.get id = some row' ∧ Evolved row row')
    ?_ hr hl ⟨row, hrow, .refl row⟩
  rintro op held result db db' ⟨row₁, hrow₁, h₁⟩ - h
  obtain ⟨row₂, hrow₂, h₂⟩ := h.evolved hrow₁
  exact ⟨row₂, hrow₂, h₁.trans h₂⟩

/-- The request of a record is where the record was read, or has left it for good. -/
def AtOrPassed (record : RequestRow) (id : Uuid) (db : Db) : Prop :=
  ∃ row, db.requests.get id = some row ∧
    (row.state = record.state ∧ row.attempts = record.attempts ∨ Passed record row)

/-- A request that is at a claim, or has passed it, goes on so. -/
theorem Commit.atOrPassed {op : Op} {held : List RowKey} {result : Result} {db db' : Db}
    (h : Commit S op held result db db') {record : RequestRow} {id : Uuid}
    (hat : AtOrPassed record id db) : AtOrPassed record id db' := by
  obtain ⟨row, hrow, hpos⟩ := hat
  cases h.request_fate id with
  | same hsame => exact ⟨row, hsame.trans hrow, hpos⟩
  | admitted hop hid hnone hidle hnew htask =>
    rw [hrow] at hnone
    cases hnone
  | @changed _ row' hop hrow₁ hnew hchange =>
    obtain rfl := Option.some.inj (hrow.symm.trans hrow₁)
    refine ⟨row', hnew, ?_⟩
    rcases hpos with ⟨hs, ha⟩ | hp
    · by_cases hsame : row'.state = record.state ∧ row'.attempts = record.attempts
      · exact .inl hsame
      · exact .inr (hchange.leaves hs ha (by tauto))
    · exact .inr (hchange.passed hp)
  | compensated hop hrow₁ htask hactive hnew => exact ⟨_, hnew, .inr (.inl rfl)⟩

/-- A request that has left a record has done so for good. -/
theorem passed_of_leads (hr : (stores S).Reachable s) (hl : (stores S).Leads s s')
    {record : RequestRow} {id : Uuid}
    (hp : ∃ row, s.db.requests.get id = some row ∧ Passed record row) :
    ∃ row, s'.db.requests.get id = some row ∧ Passed record row := by
  refine commits_stable (P := fun db => ∃ row, db.requests.get id = some row ∧ Passed record row)
    ?_ hr hl hp
  rintro op held result db db' ⟨row, hrow, hp⟩ - h
  cases h.request_fate id with
  | same hsame => exact ⟨row, hsame.trans hrow, hp⟩
  | admitted hop hid hnone hidle hnew htask =>
    rw [hrow] at hnone
    cases hnone
  | changed hop hrow₁ hnew hchange =>
    obtain rfl := Option.some.inj (hrow.symm.trans hrow₁)
    exact ⟨_, hnew, hchange.passed hp⟩
  | compensated hop hrow₁ htask hactive hnew => exact ⟨_, hnew, .inl rfl⟩

/-- What holds of the requests in a state of the stores and of the runs from there. -/
structure RequestGuarantee (S : Settings) (s : State) : Prop where
  /-- At most one request of a session is `PENDING`, `RUNNING` or `BLOCKED`. -/
  oneActive : OneActive s.db
  /-- The attempts of a request do not exceed the limit. -/
  attempts : ∀ id row, s.db.requests.get id = some row → row.attempts ≤ S.maxAttempts
  /-- The graph is invoked at most as often as the limit says. -/
  invoked : ∀ id, invocations s.history id ≤ S.maxAttempts
  /-- Command and fingerprint stay, attempts are counted up, `APPLIED`, `REJECTED` and `COMPENSATED`
  are absorbing, and `BLOCKED` changes only to `APPLIED` or `COMPENSATED`. -/
  evolved : ∀ s', (stores S).Leads s s' → ∀ id row, s.db.requests.get id = some row →
    ∃ row', s'.db.requests.get id = some row' ∧ Evolved row row'
  /-- A claim that commits takes the row away from the state and attempt it was in. -/
  claimed : ∀ a s' e id now delay row row', (stores S).step s a = some s' →
    s'.history = s.history ++ [e] → e.op = .claimRequest id now delay →
    s.db.requests.get id = some row → s'.db.requests.get id = some row' →
      row'.state ≠ row.state ∨ row'.attempts ≠ row.attempts
  /-- A caller that read the row here, and whose row is in another state or attempt later on, cannot
  change anything by `finish` from then on. -/
  fenced : ∀ s₁ s₂ s₃ i record state error now delay progress row row₁,
    (stores S).Leads s s₁ → (stores S).Leads s₁ s₂ → (stores S).step s₂ (.next i) = some s₃ →
    s₂.calls.get i = some ⟨.finishRequest record state error now delay, progress⟩ →
    s.db.requests.get record.command.requestId = some row →
    row.state = record.state → row.attempts = record.attempts →
    s₁.db.requests.get record.command.requestId = some row₁ →
    (row₁.state ≠ record.state ∨ row₁.attempts ≠ record.attempts) → s₃.db = s₂.db
  /-- The tables change only by the commit of a call. -/
  changes : ∀ a s', (stores S).step s a = some s' →
    s'.db = s.db ∨ ∃ e, a = .next e.id ∧ s'.history = s.history ++ [e]
  /-- An `accept` that raised has committed nothing. -/
  raised : ∀ i command node base now error,
    s.calls.get i = some ⟨.accept command node base now, .ended (.error error)⟩ →
      ∀ e ∈ s.history, e.id ≠ i

/-- The requests in every run of the stores. -/
theorem request_guarantee (S : Settings) {s : State} (hr : (stores S).Reachable s) :
    RequestGuarantee S s where
  oneActive := oneActive_reachable hr
  attempts id row hrow := by
    have hc := counted_reachable hr id
    rw [Counted, hrow] at hc
    exact hc.2
  invoked id := by
    have hc := counted_reachable hr id
    unfold Counted at hc
    split at hc
    · omega
    · omega
  evolved s' hl id row hrow := evolved_of_leads hr hl hrow
  claimed a s' e id now delay row row' hstep hhistory hop hrow hrow' := by
    cases moved hr hstep with
    | quiet hdb hhistory' =>
      rw [hhistory'] at hhistory
      simp at hhistory
    | committed e' held write violated ha hcall hown hhistory' hended =>
      obtain rfl : e' = e := by simpa using hhistory'.symm.trans hhistory
      obtain ⟨r, r', hr₁, hr₁', hchange⟩ := hown.request_change id (by rw [hop]; rfl)
      obtain rfl := Option.some.inj (hrow.symm.trans hr₁)
      obtain rfl := Option.some.inj (hrow'.symm.trans hr₁')
      rw [hop] at hchange
      generalize e'.result = result at hchange
      cases hchange with
      | claim hasCleanup ho =>
        rcases claimed_cases S row hasCleanup now delay with ⟨error, he⟩ | ⟨-, he⟩
        · left
          rw [he]
          exact (isOpen_cases ho).2.1.symm
        · right
          rw [he]
          exact Nat.succ_ne_self _
  fenced s₁ s₂ s₃ i record state error now delay progress row row₁ hl₁ hl₂ hstep hcall hrow hs ha
      hrow₁ hne := by
    have hr₁ := hr.leads hl₁
    have hr₂ := hr₁.leads hl₂
    -- The row was at the record, is somewhere else now, and so has left it for good.
    have hat : AtOrPassed record record.command.requestId s₁.db :=
      commits_stable (P := AtOrPassed record record.command.requestId)
        (fun _ _ _ _ _ hat _ h => h.atOrPassed hat) hr hl₁ ⟨row, hrow, .inl ⟨hs, ha⟩⟩
    obtain ⟨r, hr', hpos⟩ := hat
    obtain rfl := Option.some.inj (hrow₁.symm.trans hr')
    have hpassed : Passed record row₁ := hpos.resolve_left fun h => by tauto
    obtain ⟨row₂, hrow₂, hpassed₂⟩ := passed_of_leads hr₁ hl₂ ⟨row₁, hrow₁, hpassed⟩
    cases moved hr₂ hstep with
    | quiet hdb hhistory => exact hdb
    | committed e held write violated hact hcall' hown hhistory hended =>
      obtain rfl : e.id = i := (Server.Act.next.inj hact).symm
      rw [hcall] at hcall'
      simp only [Option.some.injEq, Call.mk.injEq] at hcall'
      obtain ⟨r, r', hr₃, -, hchange⟩ := hown.request_change
        record.command.requestId (by rw [← hcall'.1]; rfl)
      obtain rfl := Option.some.inj (hrow₂.symm.trans hr₃)
      rw [← hcall'.1] at hchange
      generalize e.result = result at hchange
      cases hchange with
      | finish hstate hcurrent =>
        rw [hpassed₂.not_current] at hcurrent
        cases hcurrent
  changes a s' hstep := by
    cases moved hr hstep with
    | quiet hdb hhistory => exact .inl hdb
    | committed e held write violated ha hcall hown hhistory hended => exact .inr ⟨e, ha, hhistory⟩
  raised i command node base now error hcall e he hi := by
    obtain ⟨answer, hans⟩ : ∃ answer, e.result = .ok answer := by
      refine commits_invariant (I := fun _ history => ∀ e ∈ history, ∃ answer,
        e.result = .ok answer)
        ?_ ?_ hr e he
      · intro db hdb e he
        simp at he
      · intro e held db db' history ih _ h e' he'
        rcases List.mem_append.mp he' with he' | he'
        · exact ih e' he'
        · rw [List.mem_singleton.mp he']
          exact h.answered
    have hend := Server.ended_of_mem_history (meets S _) hr e he
    rw [hi, hcall] at hend
    simp only [Option.some.injEq, Call.mk.injEq, Progress.ended.injEq] at hend
    rw [← hend.2] at hans
    cases hans

end Runs

/-- Request 61 is admitted and claimed once. -/
theorem request_guarantee_claimed :
    let s := Sample.after (stores Sample.settings)
      (Sample.start ++ Sample.call 2 (.claimRequest 61 1 5) 3)
    invocations s.history 61 = 1 ∧ RequestGuarantee Sample.settings s :=
  ⟨rfl, request_guarantee Sample.settings (Sample.after_reachable rfl)⟩

end ExAgent.Stores
