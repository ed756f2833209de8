import ExAgent.Lib.History
import ExAgent.Stores.Terminal

/-!
# The fence of a cleanup's attempts

A worker that claimed a cleanup writes to it with the record of its claim, and the fence should
refuse it once a later claim has succeeded. The fence compares the attempt number, which counts the
claims since the last operator retry: `retry_blocked` starts it at zero again. So a record from
before the retry is taken for the current one as soon as its number comes up again
(`not_fenced_retried`). With records claimed after the last retry the fence does what it is for
(`cleanup_fence`).
-/

namespace ExAgent.Stores

open Lib ExAgent.Graph

/-- No later claim of the cleanup has succeeded between a claim and a write that is committed with
its record. -/
def Fenced (history : List (Entry Op Result)) : Prop :=
  ∀ (j i : ℕ) (e : Entry Op Result) (record : CleanupRow) (write : FencedWrite),
    history[j]? = some e → e.op = .fenced (some i) record write →
      ∀ k e', i < k → k < j → history[k]? = some e' →
        (claimed? e').map Prod.fst ≠ some record.taskId

/-- A commit of `retry_blocked` for the cleanup. -/
def isRetry (taskId : Uuid) (e : Entry Op Result) : Bool :=
  match e.op with
  | .retryBlocked taskId' .. => decide (taskId' = taskId)
  | _ => false

/-- No operator has retried the cleanup since the commit at `i`. -/
def notRetriedSince (history : List (Entry Op Result)) (i : ℕ) (taskId : Uuid) : Bool :=
  (history.drop (i + 1)).all fun e => !isRetry taskId e

/-- A fenced write is committed only with a claim that was made after the last operator retry. -/
def Fresh (s : State) : Server.Act Op → Prop
  | .next id =>
    match s.calls.get id with
    | some ⟨.fenced (some i) record _, .running _ (.commit ..)⟩ =>
      notRetriedSince s.history i record.taskId = true
    | _ => True
  | _ => True

instance (s : State) (a : Server.Act Op) : Decidable (Fresh s a) := by
  unfold Fresh
  split
  · split
    · infer_instance
    · infer_instance
  · infer_instance

/-- Nothing after an index of the history retries the Task. -/
theorem notRetriedSince_iff {history : List (Entry Op Result)} {i : ℕ} {taskId : Uuid} :
    notRetriedSince history i taskId = true ↔
      ∀ k e, i < k → history[k]? = some e → isRetry taskId e = false := by
  simp only [notRetriedSince, List.all_eq_true, Bool.not_eq_true', List.mem_iff_getElem?,
    List.getElem?_drop]
  constructor
  · intro h k e hk he
    exact h e ⟨k - (i + 1), by rw [show i + 1 + (k - (i + 1)) = k by omega]; exact he⟩
  · rintro h e ⟨k, he⟩
    exact h (i + 1 + k) e (by omega) he

/-- The attempt number of a cleanup counts the claims since the last retry: a claim has a number
that was reached, and one that was followed by another has a number that was passed. -/
def Numbered (taskId : Uuid) (db : Db) (history : List (Entry Op Result)) : Prop :=
  ∀ i e n, history[i]? = some e → claimed? e = some (taskId, n) →
    notRetriedSince history i taskId = true →
    ∃ row, db.cleanups.get taskId = some row ∧ n ≤ row.attempts ∧
      ∀ k e' m, i < k → history[k]? = some e' → claimed? e' = some (taskId, m) → n < row.attempts

section Commits

variable {S : Settings} {held : List RowKey} {db db' : Db}

/-- The two ways a claim of a cleanup can end. -/
theorem cleanup_claimed_cases (row : CleanupRow) (maxAttempts : ℕ) (now delay : Time) :
    (∃ error, FailureStore.claimed row maxAttempts now delay =
        { row with state := .blocked, lastError := error }.touch) ∨
      FailureStore.claimed row maxAttempts now delay =
        { row with attempts := row.attempts + 1, nextAttemptAt := now + delay }.touch := by
  unfold FailureStore.claimed
  split
  · exact .inl ⟨_, rfl⟩
  · exact .inr rfl

/-- What a commit does to the attempt number of a cleanup: a retry starts it again, a claim that
succeeds counts it up, and every other commit leaves it. -/
theorem Commit.attempts {e : Entry Op Result} (h : Commit S e.op held e.result db db')
    (taskId : Uuid) :
    isRetry taskId e = true ∨
      (∃ row row', db.cleanups.get taskId = some row ∧ db'.cleanups.get taskId = some row' ∧
        row'.attempts = row.attempts + 1 ∧ claimed? e = some (taskId, row'.attempts)) ∨
      ((∀ n, claimed? e ≠ some (taskId, n)) ∧ ∀ row, db.cleanups.get taskId = some row →
        ∃ row', db'.cleanups.get taskId = some row' ∧ row'.attempts = row.attempts) := by
  obtain ⟨i, op, result⟩ := e
  -- A claim is a commit of one cleanup.
  have hclaim : ∀ n, claimed? ⟨i, op, result⟩ = some (taskId, n) →
      ∃ row row', db.cleanups.get taskId = some row ∧ db'.cleanups.get taskId = some row' ∧
        row'.attempts = row.attempts + 1 ∧ n = row'.attempts := by
    intro n hn
    unfold claimed? at hn
    split at hn
    · rename_i t maxAttempts now delay row' hop hres
      replace hop : op = _ := hop
      replace hres : result = _ := hres
      subst hop hres
      split at hn
      · rename_i hpending
        simp only [Option.some.injEq, Prod.mk.injEq] at hn
        obtain ⟨rfl, rfl⟩ := hn
        cases h with
        | request hid => cases hid
        | @cleanup _ _ _ _ _ row _ _ hheld hrow hchange =>
          cases hchange with
          | claim hstate =>
            refine ⟨row, _, hrow, by simp [Db.putCleanup, hrow], ?_, rfl⟩
            rcases cleanup_claimed_cases row maxAttempts now delay with ⟨error, he⟩ | he
            · rw [he] at hpending
              cases hpending
            · rw [he]
              rfl
      · cases hn
    · cases hn
  by_cases hret : isRetry taskId ⟨i, op, result⟩ = true
  · exact .inl hret
  right
  by_cases hcl : ∃ n, claimed? ⟨i, op, result⟩ = some (taskId, n)
  · obtain ⟨n, hn⟩ := hcl
    obtain ⟨row, row', hrow, hrow', hsucc, hnr⟩ := hclaim n hn
    exact .inl ⟨row, row', hrow, hrow', hsucc, hnr ▸ hn⟩
  · refine .inr ⟨fun n hn => hcl ⟨n, hn⟩, fun row hrow => ?_⟩
    cases h.cleanup_fate taskId with
    | same hsame => exact ⟨row, hsame.trans hrow, rfl⟩
    | opened hop hnone htask hnew hrow₁ =>
      rw [hrow] at hnone
      cases hnone
    | bound hop hid hrow₁ hstate hattempts hfor hnew =>
      obtain rfl := Option.some.inj (hrow.symm.trans hrow₁)
      exact ⟨_, hnew, rfl⟩
    | finished hop hid hrow₁ hstate hattempts hnew =>
      obtain rfl := Option.some.inj (hrow.symm.trans hrow₁)
      exact ⟨_, hnew, rfl⟩
    | changed hrow₁ hnew hchange =>
      obtain rfl := Option.some.inj (hrow.symm.trans hrow₁)
      refine ⟨_, hnew, ?_⟩
      cases hchange with
      | @claim _ _ maxAttempts now delay hstate =>
        -- A claim that leaves the row `PENDING` is one of the claims above.
        rcases cleanup_claimed_cases row maxAttempts now delay with ⟨error, he⟩ | he
        · rw [he]
          rfl
        · rw [he] at hcl
          exact absurd ⟨_, by simp [claimed?, CleanupRow.touch, hstate]; rfl⟩ hcl
      | deferBusy hstate => rfl
      | retry hstate hversion => simp [isRetry] at hret
      | confirm hproof hstate hattempts hrow' => rw [hrow']; rfl
      | defer hstate hattempts => rfl

/-- A commit keeps the numbers of a Task's claims. -/
theorem Commit.numbered {e : Entry Op Result} {history : List (Entry Op Result)} {taskId : Uuid}
    (h : Commit S e.op held e.result db db') (hn : Numbered taskId db history) :
    Numbered taskId db' (history ++ [e]) := by
  intro i e₁ n hi hcl hret
  rw [notRetriedSince_iff] at hret
  have hlast : (history ++ [e])[history.length]? = some e := by simp
  rcases of_getElem?_concat hi with hi' | ⟨rfl, rfl⟩
  · -- An earlier claim: it is not retried by this commit either.
    have hlt : i < history.length := (List.getElem?_eq_some_iff.mp hi').1
    have hnot : isRetry taskId e = false := hret _ e hlt hlast
    have hret' : notRetriedSince history i taskId = true := by
      rw [notRetriedSince_iff]
      intro k e₂ hk he₂
      have hkl : k < history.length := (List.getElem?_eq_some_iff.mp he₂).1
      exact hret k e₂ hk (by rw [List.getElem?_append_left hkl]; exact he₂)
    obtain ⟨row, hrow, hle, hlater⟩ := hn i e₁ n hi' hcl hret'
    rcases h.attempts taskId with hr | ⟨r, row', hr, hrow', hsucc, -⟩ | ⟨hno, hkeep⟩
    · simp [hr] at hnot
    · obtain rfl := Option.some.inj (hrow.symm.trans hr)
      exact ⟨row', hrow', by omega, fun _ _ _ _ _ _ => by omega⟩
    · obtain ⟨row', hrow', hsame⟩ := hkeep row hrow
      refine ⟨row', hrow', by omega, fun k e₂ m hk he₂ hm => ?_⟩
      rcases of_getElem?_concat he₂ with he₂ | ⟨-, rfl⟩
      · have := hlater k e₂ m hk he₂ hm
        omega
      · exact absurd hm (hno m)
  · -- The claim that is committed now is the last one.
    rcases h.attempts taskId with hr | ⟨r, row', hr, hrow', hsucc, hn'⟩ | ⟨hno, -⟩
    · exfalso
      unfold isRetry at hr
      unfold claimed? at hcl
      split at hr
      · rename_i hop
        rw [hop] at hcl
        cases hcl
      · cases hr
    · rw [hcl] at hn'
      simp only [Option.some.injEq, Prod.mk.injEq, true_and] at hn'
      refine ⟨row', hrow', by omega, fun k e₂ m hk he₂ hm => ?_⟩
      have hlen := (List.getElem?_eq_some_iff.mp he₂).1
      simp only [List.length_append, List.length_singleton] at hlen
      omega
    · exact absurd hcl (hno n)

/-- A fenced write is committed for the attempt of its record. -/
theorem Commit.fence {op : Op} {result : Result} {claim : Option ℕ} {record : CleanupRow}
    {write : FencedWrite} (h : Commit S op held result db db')
    (hop : op = .fenced claim record write) :
    ∃ row, db.cleanups.get record.taskId = some row ∧ row.attempts = record.attempts := by
  subst hop
  cases h with
  | request hid => cases hid
  | task hheld htask hchange hlocks => cases hchange
  | bindExecution hheld hrow hstate hattempts => exact ⟨_, hrow, hattempts⟩
  | finish hheld hproof hrow hstate hattempts => exact ⟨_, hrow, hattempts⟩
  | cleanup hheld hrow hchange =>
    cases hchange with
    | confirm hproof hstate hattempts => exact ⟨_, hrow, hattempts⟩
    | defer hstate hattempts => exact ⟨_, hrow, hattempts⟩

end Commits

/-! ## Runs -/

/-- In every reachable state, the claims of a Task are numbered. -/
theorem numbered_reachable {S : Settings} {s : State}
    (hr : (stores S).Reachable s) (taskId : Uuid) :
    Numbered taskId s.db s.history := by
  refine commits_invariant (I := Numbered taskId) ?_ ?_ hr
  · intro db hdb i e n hi
    simp at hi
  · intro e held db db' history hn _ h
    exact h.numbered hn

/-- The fence holds in every run whose fenced writes are made with fresh claims. -/
theorem cleanup_fence (S : Settings) {s : State} (hr : (stores S).ReachableWhen Fresh s) :
    Fenced s.history := by
  induction hr with
  | start hs =>
    obtain ⟨db, -, rfl⟩ := hs
    intro j i e record write hj
    simp at hj
  | @next s s' a hr hc hstep ih =>
    cases moved hr.reachable hstep with
    | quiet hdb hhistory => rwa [hhistory]
    | committed e held write violated ha hcall hown hhistory hended =>
      rw [hhistory]
      intro j i e₁ record w hj hop k e₂ hik hkj hk
      rcases of_getElem?_concat hk with hk' | ⟨rfl, -⟩
      swap
      · have := (List.getElem?_eq_some_iff.mp hj).1
        simp only [List.length_append, List.length_singleton] at this
        omega
      rcases of_getElem?_concat hj with hj | ⟨rfl, rfl⟩
      · exact ih j i e₁ record w hj hop k e₂ hik hkj hk'
      -- The write that is committed now: its claim was admitted, and no retry came after it.
      obtain ⟨h, hprefix, hadmits⟩ := Server.admitted_reachable hr.reachable _ _ hcall
      replace hadmits : Op.isAdmitted h e₁.op = true := hadmits
      simp only [hop, Op.isAdmitted, decide_eq_true_eq] at hadmits
      obtain ⟨e₀, he₀, hcl₀⟩ := Option.bind_eq_some_iff.mp hadmits
      have he₀' : s.history[i]? = some e₀ := by
        obtain ⟨t, ht⟩ := hprefix
        rw [← ht, List.getElem?_append_left (List.getElem?_eq_some_iff.mp he₀).1]
        exact he₀
      have hfresh : notRetriedSince s.history i record.taskId = true := by
        subst ha
        rw [hop] at hcall
        simpa only [Fresh, hcall] using hc
      obtain ⟨row, hrow, -, hlater⟩ :=
        numbered_reachable hr.reachable record.taskId i e₀ _ he₀' hcl₀ hfresh
      obtain ⟨row', hrow', hattempts⟩ := hown.fence hop
      obtain rfl := Option.some.inj (hrow.symm.trans hrow')
      intro hm
      obtain ⟨⟨t, m⟩, hm₁, hm₂⟩ := Option.map_eq_some_iff.mp hm
      have hm₂ : t = record.taskId := hm₂
      have := hlater k e₂ m hik hk' (hm₂ ▸ hm₁)
      omega

namespace Sample

/-- Task 7 is cleaned up by the worker of call 3 until the limit blocks the cleanup; an operator
retries it, and another worker claims it. -/
def retried : List (Server.Act Op) :=
  cleaning ++ call 4 (.claimCleanup 7 1 3 5) 2 ++
    call 5 (.retryBlocked 7 ⟨90, .retry, 1, "again", "operator"⟩ 3 4) 2 ++
    call 6 (.claimCleanup 7 20 5 5) 2

/-- The first worker writes with the record of its claim. -/
def overtaken : List (Server.Act Op) :=
  retried ++ call 7 (.fenced (some 2) (record 1) (.confirm none .notRequired "failed")) 2

end Sample

/-- The second worker of a retried cleanup finishes it. -/
theorem cleanup_fence_retried :
    Fenced (Sample.after (stores Sample.settings) (Sample.retried ++
      Sample.call 7 (.fenced (some 5) (Sample.record 1) (.confirm none .notRequired "failed")) 2 ++
      Sample.call 8 (.fenced (some 5) (Sample.record 1) .finish) 7)).history :=
  cleanup_fence Sample.settings (Sample.after_reachableWhen (C := Fresh) rfl)

/-- The write of the first worker is committed after the second claim. -/
theorem not_fenced_retried :
    ¬ ∀ s, (stores Sample.settings).Reachable s → Fenced s.history := by
  intro h
  have hf := h (Sample.after (stores Sample.settings) Sample.overtaken) (Sample.after_reachable rfl)
  exact hf 6 2 _ (Sample.record 1) _ rfl rfl 5 _ (by decide) (by decide) rfl rfl

end ExAgent.Stores
