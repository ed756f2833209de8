import Mathlib.Data.List.Chain
import ExAgent.Graph.History

/-!
# The Steps of a Task and the results they answer

What a log says of the Steps of a Task: the requests that handed one over, and the results of its
Operations that were reconciled. `Answers` is what a MULTI Task owes its Executor: the Steps have
the sequences 0, 1, 2, … and each request is sent again only before the next one, every Step but the
first answers a result of its own, and no more Steps than `correction_limit` answer a failure.

`Paced` says it of one entry, from the entries before it. A run can keep that; `answers_of_each`
makes the whole of it.
-/

namespace ExAgent.Graph

open Lib

/-- An entry of a log that has to do with the Steps of a Task. -/
inductive Item
  /-- A request with Steps left for the Executor. -/
  | sent (request : ExecutorRequest)
  /-- `reconcile_executor` completed with the result of an Operation. -/
  | result (outcome : ExecutorOutcome)
deriving DecidableEq

/-- The outcomes of an Operation of an execution that goes on. -/
def ExecutorOutcome.isOperation : ExecutorOutcome → Bool
  | .operationSucceeded | .operationFailed => true
  | .waiting | .succeeded | .failed | .cancelled => false

/-- What the workflow of a Task says of its last reconciliation. -/
def WorkflowState.outcome? (wf : WorkflowState) : Option ExecutorOutcome :=
  wf.executorReconciliation.map ExecutorReconciliation.outcome

/-- The item of a node that completed. -/
def resultItem (taskId : Uuid) (n : Node) (wf : WorkflowState) : Option Item :=
  if n = .reconcileExecutor ∧ wf.activeTaskId = taskId then
    (wf.outcome?.filter ExecutorOutcome.isOperation).map .result
  else none

/-- The item of an entry. -/
def Event.item? (taskId : Uuid) : Event → Option Item
  | .sent id request => if id = taskId ∧ request.steps ≠ [] then some (.sent request) else none
  | .ran n _ _ after => after.workflow.bind (resultItem taskId n)
  | .persisted .. | .closed .. => none

/-- The items of a Task. -/
def items (taskId : Uuid) (log : List Event) : List Item := log.filterMap (Event.item? taskId)

/-- The request of an item. -/
def Item.request? : Item → Option ExecutorRequest
  | .sent request => some request
  | .result _ => none

/-- The requests that were sent. -/
def requests (l : List Item) : List ExecutorRequest := l.filterMap Item.request?

/-- The sequences of the Steps of a request. -/
def ExecutorRequest.sequences (r : ExecutorRequest) : List ℕ := r.steps.map ExecutorStep.sequence

/-- The mode of a submission. -/
def ExecutorRequest.mode? : ExecutorRequest → Option ExecutionMode
  | .submit mode .. => some mode
  | .append .. | .finalize .. | .cancel .. | .report .. => none

/-- The failures that were reconciled. -/
def failures (l : List Item) : ℕ := l.count (.result .operationFailed)

/-- The Steps that answer a failure: those that were sent right after one. -/
def corrections : List Item → ℕ
  | .result .operationFailed :: .sent r :: l => corrections (.sent r :: l) + 1
  | _ :: l => corrections l
  | [] => 0

/-- A request is the one before it again, or has the next Step. -/
def Advances (r r' : ExecutorRequest) : Prop :=
  r' = r ∨ ∃ n, r.sequences = [n] ∧ r'.sequences = [n + 1]

/-- The discipline of the Steps of a MULTI Task. -/
structure Answers (limit : ℕ) (l : List Item) : Prop where
  /-- The sequences are 0, 1, 2, …, and a request is sent again only before the next one. -/
  first : ∀ r, (requests l).head? = some r → r.sequences = [0]
  numbered : (requests l).IsChain Advances
  /-- Between two Steps there is a result. -/
  answered : ∀ pre mid post r r', l = pre ++ .sent r :: (mid ++ .sent r' :: post) → r ≠ r' →
    ∃ outcome, .result outcome ∈ mid
  corrected : corrections l ≤ limit
  /-- A failure beyond the limit is the end. -/
  ended : ∀ pre post, l = pre ++ .result .operationFailed :: post → limit ≤ failures pre →
    requests post = []

/-- The sequence of the next Step. -/
def nextSequence (l : List Item) : ℕ :=
  ((requests l).getLast?.bind ExecutorRequest.nextStepSequence?).getD 0

/-- The request has the next Step, if it is one of a MULTI execution. -/
def Follows (l : List Item) (r : ExecutorRequest) : Prop :=
  r.mode? ≠ some .single →
    r.sequences = [nextSequence l] ∧ r.nextStepSequence? = some (nextSequence l + 1)

/-- What an item has with respect to those before it: a request is the last item again, or it is the
first item or answers a result. -/
def Paced (limit : ℕ) (l : List Item) : Item → Prop
  | .result _ => True
  | .sent r => failures l ≤ limit ∧ (l.getLast? = some (.sent r) ∨
      ((l = [] ∨ ∃ outcome, l.getLast? = some (.result outcome)) ∧ Follows l r))

/-- The sequence of the first Step without a result. -/
def frontier (l : List Item) : ℕ :=
  match l.getLast? with
  | some (.sent _) => nextSequence l - 1
  | some (.result _) | none => nextSequence l

/-! ## One more item -/

section

variable {limit : ℕ} {l pre post : List Item} {item : Item} {r : ExecutorRequest}

/-- A request at the end of the items is the last request. -/
@[simp]
theorem requests_concat_sent (l : List Item) (r : ExecutorRequest) :
    requests (l ++ [.sent r]) = requests l ++ [r] := by
  simp [requests, Item.request?]

/-- A result adds no request. -/
@[simp]
theorem requests_concat_result (l : List Item) (outcome : ExecutorOutcome) :
    requests (l ++ [.result outcome]) = requests l := by
  simp [requests, Item.request?]

/-- A request adds no failure. -/
@[simp]
theorem failures_concat_sent (l : List Item) (r : ExecutorRequest) :
    failures (l ++ [.sent r]) = failures l := by
  simp [failures, List.count_append]

/-- A result counts if it is a failure. -/
theorem failures_concat_result (l : List Item) (outcome : ExecutorOutcome) :
    failures (l ++ [.result outcome]) =
      failures l + if outcome = .operationFailed then 1 else 0 := by
  unfold failures
  rw [List.count_append, List.count_singleton]
  cases outcome <;> rfl

/-- Items only add failures. -/
theorem failures_le_append (l l' : List Item) : failures l ≤ failures (l ++ l') := by
  unfold failures
  rw [List.count_append]
  exact Nat.le_add_right _ _

/-- An item more does not lower the number of failures. -/
theorem failures_le_cons (item : Item) (l : List Item) : failures l ≤ failures (item :: l) :=
  List.count_le_count_cons

/-- A result does not move the next sequence. -/
theorem nextSequence_concat_result (l : List Item) (outcome : ExecutorOutcome) :
    nextSequence (l ++ [.result outcome]) = nextSequence l := by
  simp [nextSequence]

/-- After a request the next sequence is the one it names. -/
theorem nextSequence_of_last (h : l.getLast? = some (.sent r)) :
    nextSequence l = r.nextStepSequence?.getD 0 := by
  obtain ⟨l', rfl⟩ := List.getLast?_eq_some_iff.mp h
  simp [nextSequence]

/-- A Step that is sent in its turn has no result yet. -/
theorem frontier_concat_sent (h : Paced limit l (.sent r)) (hmode : r.mode? ≠ some .single) :
    frontier (l ++ [.sent r]) = frontier l := by
  have hsent : frontier (l ++ [.sent r]) = r.nextStepSequence?.getD 0 - 1 := by
    unfold frontier
    rw [List.getLast?_concat]
    exact congrArg (· - 1) (nextSequence_of_last List.getLast?_concat)
  rw [hsent]
  obtain ⟨-, hsame | ⟨hopen, hfollows⟩⟩ := h
  · unfold frontier
    rw [hsame]
    exact congrArg (· - 1) (nextSequence_of_last hsame).symm
  · obtain ⟨-, hnext⟩ := hfollows hmode
    have hold : frontier l = nextSequence l := by
      unfold frontier
      rcases hopen with rfl | ⟨outcome, hresult⟩
      · rfl
      · rw [hresult]
    rw [hold, hnext]
    rfl

/-- A correction is a request. -/
theorem corrections_concat_result (l : List Item) (outcome : ExecutorOutcome) :
    corrections (l ++ [.result outcome]) = corrections l := by
  induction l with
  | nil => simp [corrections]
  | cons item l ih =>
    cases l with
    | nil =>
      cases item with
      | sent r => simp [corrections]
      | result o => cases o <;> simp [corrections]
    | cons item' l =>
      simp only [List.cons_append] at ih ⊢
      cases item with
      | sent r => simpa only [corrections] using ih
      | result o =>
        cases o <;> cases item' <;> simp only [corrections] at ih ⊢ <;> rw [ih]

/-- Every correction answers a failure of its own. -/
theorem corrections_le_failures (l : List Item) : corrections l ≤ failures l := by
  induction l using corrections.induct with
  | case1 r l ih =>
    simp only [corrections, failures, List.count_cons_self] at ih ⊢
    exact Nat.succ_le_succ ih
  | case2 item l h ih =>
    have hcorrections : corrections (item :: l) = corrections l := by
      cases item with
      | sent r => simp only [corrections]
      | result o =>
        cases o <;> simp only [corrections]
    rw [hcorrections]
    exact ih.trans (failures_le_cons item l)
  | case3 => exact Nat.zero_le _

/-! ## From every item to the whole -/

/-- Behind a request there is nothing but that request until the next result. -/
theorem getLast_of_unanswered (h : Each (Paced limit) (pre ++ .sent r :: post))
    (hpost : ∀ outcome, .result outcome ∉ post) :
    (pre ++ .sent r :: post).getLast? = some (.sent r) := by
  induction post using List.reverseRecOn with
  | nil => simp
  | append_singleton post item ih =>
    have hassoc : pre ++ .sent r :: (post ++ [item]) = (pre ++ .sent r :: post) ++ [item] := by simp
    rw [hassoc] at h ⊢
    have hlast := ih h.of_append fun outcome hmem => hpost outcome (List.mem_append_left _ hmem)
    cases item with
    | result outcome => exact absurd (by simp) (hpost outcome)
    | sent r' =>
      obtain ⟨-, hsame | ⟨hnone | ⟨outcome, hresult⟩, -⟩⟩ := h _ _ [] rfl
      · obtain rfl : r = r' := Item.sent.inj (Option.some.inj (hlast.symm.trans hsame))
        exact List.getLast?_concat
      · exact absurd hnone (by simp)
      · exact absurd (Option.some.inj (hlast.symm.trans hresult)) (by simp)

/-- The last request has the sequence before the next one. -/
theorem numbered_of_each (h : Each (Paced limit) l)
    (hmulti : ∀ r ∈ requests l, r.mode? ≠ some .single) :
    (∀ r, (requests l).head? = some r → r.sequences = [0]) ∧ (requests l).IsChain Advances ∧
      ∀ r, (requests l).getLast? = some r →
        ∃ n, r.sequences = [n] ∧ r.nextStepSequence? = some (n + 1) := by
  induction l using List.reverseRecOn with
  | nil => exact ⟨fun _ h => absurd h (by simp [requests]), by simp [requests],
    fun _ h => absurd h (by simp [requests])⟩
  | append_singleton l item ih =>
    cases item with
    -- A result changes nothing in the list of requests.
    | result outcome =>
      rw [requests_concat_result] at hmulti ⊢
      exact ih h.of_append hmulti
    | sent r =>
      rw [requests_concat_sent] at hmulti ⊢
      obtain ⟨hfirst, hchain, hlast⟩ :=
        ih h.of_append fun q hq => hmulti q (List.mem_append_left _ hq)
      have hr := hmulti r (by simp)
      -- What the law says of the last item: it repeats the request before, or follows it.
      obtain ⟨-, hsame | ⟨-, hfollows⟩⟩ := h l (.sent r) [] rfl
      · -- The request is sent again.
        have hagain : (requests l).getLast? = some r := by
          obtain ⟨l', rfl⟩ := List.getLast?_eq_some_iff.mp hsame
          rw [requests_concat_sent]
          exact List.getLast?_concat
        obtain ⟨l', hl'⟩ := List.getLast?_eq_some_iff.mp hagain
        refine ⟨fun q hq => hfirst q ?_, ?_, fun q hq => ?_⟩
        · rw [hl'] at hq ⊢
          rwa [List.head?_append_of_ne_nil _ (by simp)] at hq
        · refine hchain.append (List.isChain_singleton r) fun x hx y hy => ?_
          obtain rfl : r = x := Option.some.inj (hagain.symm.trans hx)
          obtain rfl : r = y := Option.some.inj hy
          exact .inl rfl
        · rw [List.getLast?_concat] at hq
          obtain rfl := Option.some.inj hq
          exact hlast r hagain
      · obtain ⟨hsequences, hnext⟩ := hfollows hr
        -- The next request: it is the first one, or it follows the last one.
        refine ⟨fun q hq => ?_, ?_, fun q hq => ?_⟩
        · cases hrequests : requests l with
          | nil =>
            rw [hrequests] at hq
            obtain rfl : r = q := Option.some.inj hq
            rw [hsequences]
            simp [nextSequence, hrequests]
          | cons r₀ rs =>
            rw [hrequests] at hq
            exact hfirst q (hrequests ▸ hq)
        · refine hchain.append (List.isChain_singleton r) fun x hx y hy => .inr ?_
          obtain rfl : r = y := Option.some.inj hy
          obtain ⟨n, hn, hn'⟩ := hlast x hx
          refine ⟨n, hn, ?_⟩
          have hlast' : (requests l).getLast? = some x := hx
          rw [hsequences]
          unfold nextSequence
          rw [hlast']
          simp [hn']
        · rw [List.getLast?_concat] at hq
          obtain rfl := Option.some.inj hq
          exact ⟨_, hsequences, hnext⟩

/-- A request stands behind no more failures than the limit. -/
theorem corrections_le_limit (h : Each (Paced limit) l) : corrections l ≤ limit := by
  induction l using List.reverseRecOn with
  | nil => exact Nat.zero_le _
  | append_singleton l item ih =>
    cases item with
    | result outcome =>
      rw [corrections_concat_result]
      exact ih h.of_append
    | sent r =>
      have hle := corrections_le_failures (l ++ [.sent r])
      rw [failures_concat_sent] at hle
      exact hle.trans (h l (.sent r) [] rfl).1

/-- A MULTI Task whose items keep pace keeps the discipline. -/
theorem answers_of_each (h : Each (Paced limit) l)
    (hmulti : ∀ r ∈ requests l, r.mode? ≠ some .single) : Answers limit l := by
  obtain ⟨hfirst, hnumbered, -⟩ := numbered_of_each h hmulti
  refine ⟨hfirst, hnumbered, fun pre mid post r r' hl hne => ?_, corrections_le_limit h,
    fun pre post hl hlimit => ?_⟩
  · by_contra hno
    have hsplit : l = (pre ++ .sent r :: (mid ++ [.sent r'])) ++ post := by simp [hl]
    have hunanswered : ∀ outcome, .result outcome ∉ mid ++ [.sent r'] := by
      intro outcome hmem
      rcases List.mem_append.mp hmem with hmem | hmem
      · exact hno ⟨outcome, hmem⟩
      · simp at hmem
    have hlast := getLast_of_unanswered (hsplit ▸ h).of_append hunanswered
    have hassoc : pre ++ .sent r :: (mid ++ [.sent r']) =
        (pre ++ .sent r :: mid) ++ [.sent r'] := by
      simp
    rw [hassoc, List.getLast?_concat] at hlast
    exact hne (Item.sent.inj (Option.some.inj hlast)).symm
  · -- A request behind the failure would be one too many.
    rw [requests, List.filterMap_eq_nil_iff]
    intro item hitem
    cases item with
    | result outcome => rfl
    | sent r =>
      obtain ⟨mid, post', rfl⟩ := List.append_of_mem hitem
      have hpaced := (h (pre ++ .result .operationFailed :: mid) (.sent r) post' (by simp [hl])).1
      have hle := failures_le_append (pre ++ [.result .operationFailed]) mid
      rw [failures_concat_result, if_pos rfl] at hle
      have hassoc : pre ++ .result .operationFailed :: mid =
          (pre ++ [.result .operationFailed]) ++ mid := by simp
      rw [hassoc] at hpaced
      omega

end

end ExAgent.Graph
