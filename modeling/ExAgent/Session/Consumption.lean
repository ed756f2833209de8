import ExAgent.Session.Application

/-!
# Executor events are consumed once and in order

An event is consumed by the checkpoint of `wait_external_signal` that takes it; its receipt and its
sequence are recorded two nodes later. In between the session is in flight: the event is the pending
one, and above every sequence recorded for its execution (`Flight`). So a command is consumed once,
and the events of an execution in increasing order, whatever is delivered how often and whoever dies
where.

Whose nodes a delivery goes on with is another matter. `invocation_owner` is written when an input
is consumed, so it says who started the pending nodes only while nobody has left an input behind
that is stored and not yet consumed. In runs without such steps it does (`Fed`). The last section
has a run in which a host dies with the turn of a new Task stored, and the redelivery of a command
that finished the Task before runs `begin_task` for it.
-/

namespace ExAgent.Session

open Lib ExAgent.Graph

/-- The event that a checkpoint consumes. -/
def Entry.consumes? : Entry → Option WorkerAction
  | .checkpointed _ .waitExternalSignal (some (.worker a)) _ _ => some a
  | _ => none

/-- The sequences recorded in a checkpoint. -/
def Entry.sequences? : Entry → Option (Uuid → Option ℕ)
  | .checkpointed _ _ _ _ after => some after.ewSequences
  | _ => none

/-- Every sequence that is recorded stays so, or is exceeded. -/
def Below (f g : Uuid → Option ℕ) : Prop := ∀ x q, f x = some q → ∃ q', g x = some q' ∧ q ≤ q'

/-- What a delivery may give to the graph, after the entries before it. -/
structure Delivered (pre : List Entry) (d : Delivery) (input : Input) (t : Thread) : Prop where
  /-- Its event answers a wait for an Executor event, of its Task and its execution. -/
  answer : ∀ interruptId value, input = .resume interruptId value →
    value = .worker d.action ∧ t.next = some .waitExternalSignal ∧
      t.interrupt = some interruptId ∧ t.values.activeTaskId = some d.taskId ∧
      t.values.executionId = some d.executionId
  /-- Pending nodes it goes on with were started by the acceptance of its event. -/
  own : input = .pending → t.starter = some (.executor d.commandId) ∧
    t.values.invocationOwner = some (some (.executor d.commandId)) ∧
    ∃ a ∈ pre.filterMap Entry.consumes?, a.commandId = d.commandId
  /-- It never starts a Task. -/
  turn : ∀ turn, input ≠ .turn turn

/-- Events are consumed once and in order, and deliveries keep to their own work. -/
structure ConsumedOnce (log : List Entry) : Prop where
  once : Each (fun pre e => ∀ a, e.consumes? = some a → ∀ a' ∈ pre.filterMap Entry.consumes?,
    a'.commandId ≠ a.commandId ∧ (a'.event.executionId = a.event.executionId →
      a'.event.eventSequence < a.event.eventSequence)) log
  sequences : Each (fun pre e => ∀ g, e.sequences? = some g →
    ∀ f ∈ pre.filterMap Entry.sequences?, Below f g) log
  delivered : Each (fun pre e => ∀ d input t, e = .invoked (.executor d) input t →
    Delivered pre d input t) log

/-! ## Events in flight -/

/-- An event is accepted and not yet recorded. -/
def Thread.InFlight (t : Thread) : Prop :=
  t.next = some .reconcileExecutor ∨ t.next = some .recordEventReceipt

/-- What is known of the events that were consumed. -/
structure Flight (t : Thread) (consumed : List WorkerAction) : Prop where
  /-- The event in flight is above what is recorded for its execution. -/
  above : t.InFlight → ∃ a, t.values.ewPending = some a ∧
    (t.values.ewSequences a.event.executionId).getD 0 < a.event.eventSequence
  /-- A consumed event is recorded, or in flight. -/
  recorded : ∀ a ∈ consumed, (t.InFlight ∧ t.values.ewPending = some a) ∨
    t.values.ewReceipts a.commandId ≠ none ∧
      a.event.eventSequence ≤ (t.values.ewSequences a.event.executionId).getD 0
  /-- The event that the wait gets was not consumed before. -/
  fresh : ∀ a, t.resume = some (.worker a) → ∀ a' ∈ consumed, a'.commandId ≠ a.commandId
  /-- A session without an owner has no Task. -/
  unowned : t.values.invocationOwner = none → t.values.activeTaskId = none
  /-- An Executor command owns the session by its event. -/
  owner : ∀ c, t.values.invocationOwner = some (some (.executor c)) →
    ∃ a ∈ consumed, a.commandId = c

section

variable {H : Host} {s s' : System} {left : Option Owner} {t t' : Thread}
  {consumed : List WorkerAction} {config : Config} {n : Node} {resume : Option Resume}
  {v v' : SessionState}

/-- Sequences are not below themselves. -/
theorem Below.refl (f : Uuid → Option ℕ) : Below f f := fun _ q h => ⟨q, h, le_rfl⟩

/-- What is below follows on. -/
theorem Below.trans {f g h : Uuid → Option ℕ} (hfg : Below f g) (hgh : Below g h) : Below f h := by
  intro x q hq
  obtain ⟨q', hq', hle⟩ := hfg x q hq
  obtain ⟨q'', hq'', hle'⟩ := hgh x q' hq'
  exact ⟨q'', hq'', hle.trans hle'⟩

/-- A sequence that moves up leaves the earlier ones below. -/
theorem Below.update {f : Uuid → Option ℕ} {x : Uuid} {q : ℕ} (h : (f x).getD 0 ≤ q) :
    Below f (Function.update f x (some q)) := by
  intro y p hp
  by_cases hy : y = x
  · subst hy
    rw [hp] at h
    exact ⟨q, by simp, h⟩
  · exact ⟨p, by simp [Function.update_of_ne hy, hp], le_rfl⟩

/-- A sequence that is not recorded counts as zero. -/
theorem Below.getD {f g : Uuid → Option ℕ} (h : Below f g) (x : Uuid) :
    (f x).getD 0 ≤ (g x).getD 0 := by
  cases hf : f x with
  | none => exact Nat.zero_le _
  | some q =>
    obtain ⟨q', hq', hle⟩ := h x q hf
    simpa [hq'] using hle

/-- No node takes a recorded sequence back, as long as the event in flight is above it. -/
theorem Completed.below (h : Completed config n resume v v')
    (habove : n = .recordEventReceipt → ∃ a, v.ewPending = some a ∧
      (v.ewSequences a.event.executionId).getD 0 < a.event.eventSequence) :
    Below v.ewSequences v'.ewSequences := by
  rw [h.sequences]
  unfold sequencesAfter
  split
  · exact .update le_rfl
  · rename_i a ha
    obtain ⟨a', ha', hlt⟩ := habove rfl
    obtain rfl : a = a' := Option.some.inj (ha.symm.trans ha')
    exact .update hlt.le
  · exact .refl _

/-- A node records no receipt of an event, or that of the event it has pending. -/
theorem receiptsAfter_cases (n : Node) (v : SessionState) :
    receiptsAfter n v = v.ewReceipts ∨ ∃ a, v.ewPending = some a ∧
      receiptsAfter n v = Function.update v.ewReceipts a.commandId (some a.event.eventId) := by
  unfold receiptsAfter
  split
  · rename_i a ha
    exact .inr ⟨a, ha, rfl⟩
  · exact .inl rfl

/-- No node takes a receipt back. -/
theorem Completed.event_receipt_kept (h : Completed config n resume v v') {c : Uuid}
    (hc : v.ewReceipts c ≠ none) : v'.ewReceipts c ≠ none := by
  rw [h.receipts]
  rcases receiptsAfter_cases n v with hsame | ⟨a, -, hupdate⟩
  · rw [hsame]
    exact hc
  · rw [hupdate]
    by_cases hca : c = a.commandId
    · simp [hca]
    · simpa [Function.update_of_ne hca] using hc

/-- A wait that completes with an event is not in flight before, and is afterwards. -/
theorem not_inFlight (h : t.next = some .waitExternalSignal) : ¬t.InFlight := by
  rintro (hr | hr)
  · rw [h] at hr
    exact absurd hr (by simp)
  · rw [h] at hr
    exact absurd hr (by simp)

/-- The events that a checkpoint consumes, by its node and its answer. -/
def consumedBy (n : Node) (resume : Option Resume) : List WorkerAction :=
  match n, resume with
  | .waitExternalSignal, some (.worker a) => [a]
  | _, _ => []

/-- The only node that consumes an event is `wait_external_signal`. -/
theorem mem_consumedBy {a : WorkerAction} :
    a ∈ consumedBy n resume ↔ n = .waitExternalSignal ∧ resume = some (.worker a) := by
  unfold consumedBy
  split
  · simp [eq_comm]
  · rename_i hne
    constructor
    · intro h
      exact absurd h List.not_mem_nil
    · rintro ⟨rfl, rfl⟩
      exact absurd rfl (hne a rfl)

/-- A completed node moves the flight on. -/
theorem Flight.checkpoint (h : Flight t consumed) (hnext : t.next = some n)
    (hc : Completed config n t.resume t.values v') {next : Option Node}
    (hsucc : successor n v' = .ok next) (hvalues : t'.values = v') (hnext' : t'.next = next)
    (hresume : t'.resume = none) : Flight t' (consumed ++ consumedBy n t.resume) := by
  have habove : n = .recordEventReceipt → ∃ a, t.values.ewPending = some a ∧
      (t.values.ewSequences a.event.executionId).getD 0 < a.event.eventSequence := by
    rintro rfl
    exact h.above (.inr hnext)
  have hbelow := hc.below habove
  -- Between the wait and `begin_task`, the pending event and the sequences stay.
  have hpending : n ≠ .beginTask → n ≠ .waitExternalSignal → v'.ewPending = t.values.ewPending := by
    intro hb hw
    rw [hc.pending]
    unfold pendingAfter
    split <;> first | rfl | contradiction
  have hsequences : n ≠ .registerExecution → n ≠ .recordEventReceipt →
      v'.ewSequences = t.values.ewSequences := by
    intro hb hw
    rw [hc.sequences]
    unfold sequencesAfter
    split <;> first | rfl | contradiction
  refine ⟨?_, ?_, fun a ha => absurd ha (by simp [hresume]), ?_, ?_⟩
  · rw [hvalues]
    -- What is in flight comes from the wait, or was in flight before.
    rintro (hn | hn)
    · rw [hnext'] at hn
      obtain rfl : n = .waitExternalSignal := (successor_targets (hn ▸ hsucc)).2.2 rfl
      obtain ⟨a, ha⟩ := (hc.successor_wait hsucc).mp hn
      refine ⟨a, by rw [hc.pending, ha]; rfl, ?_⟩
      rw [hsequences (by decide) (by decide)]
      exact hc.fresh a rfl ha
    · rw [hnext'] at hn
      obtain rfl : n = .reconcileExecutor := (successor_targets (hn ▸ hsucc)).2.1 rfl
      obtain ⟨a, ha, hlt⟩ := h.above (.inl hnext)
      refine ⟨a, by rw [hpending (by decide) (by decide), ha], ?_⟩
      rw [hsequences (by decide) (by decide)]
      exact hlt
  · intro a ha
    rw [hvalues]
    rcases List.mem_append.mp ha with ha | ha
    · -- What was consumed before stays in flight or is recorded by this node.
      rcases h.recorded a ha with ⟨hflight, hpend⟩ | ⟨hreceipt, hseq⟩
      · rcases hflight with hn | hn
        · -- From `reconcile_executor` the flight goes on.
          obtain rfl : n = .reconcileExecutor := Option.some.inj (hnext.symm.trans hn)
          obtain rfl : some .recordEventReceipt = next := Except.ok.inj hsucc
          exact .inl ⟨.inr hnext', by rw [hpending (by decide) (by decide), hpend]⟩
        · obtain rfl : n = .recordEventReceipt := Option.some.inj (hnext.symm.trans hn)
          refine .inr ⟨?_, ?_⟩
          · rw [hc.receipts]
            simp [receiptsAfter, hpend]
          · rw [hc.sequences]
            simp [sequencesAfter, hpend]
      · exact .inr ⟨hc.event_receipt_kept hreceipt, hseq.trans (hbelow.getD _)⟩
    · -- What this node consumes goes in flight.
      obtain ⟨rfl, hresume⟩ := mem_consumedBy.mp ha
      have hn := (hc.successor_wait hsucc).mpr ⟨a, hresume⟩
      exact .inl ⟨.inl (hnext'.trans hn), by rw [hc.pending, hresume]; rfl⟩
  · rw [hvalues]
    intro ho
    rw [hc.owner] at ho
    have hbegin : n ≠ .beginTask := by
      rintro rfl
      simp [ownerAfter] at ho
    rw [hc.active hbegin]
    apply h.unowned
    have hafter : ownerAfter n t.resume t.values.invocationOwner = none :=
      (Option.or_eq_none_iff.mp ho).2
    unfold ownerAfter at hafter
    split at hafter <;> first | exact hafter | exact absurd hafter (by simp)
  · rw [hvalues]
    intro c ho
    rw [hc.owner] at ho
    cases hst : stamps? config n t.values with
    | some a => simp [hst] at ho
    | none =>
      have hafter : ownerAfter n t.resume t.values.invocationOwner = some (some (.executor c)) := by
        simpa [hst] using ho
      unfold ownerAfter at hafter
      split at hafter
      · exact absurd hafter (by simp)
      · rename_i a hresume
        obtain rfl : a.commandId = c := by simpa using hafter
        exact ⟨a, List.mem_append_right _ (mem_consumedBy.mpr ⟨rfl, hresume⟩), rfl⟩
      · obtain ⟨a, ha, hac⟩ := h.owner c hafter
        exact ⟨a, List.mem_append_left _ ha, hac⟩

/-- The flight looks at the checkpoint and at the event that the wait gets only. -/
theorem Flight.carry (h : Flight t consumed) (hvalues : t'.values = t.values)
    (hnext : t'.next = t.next) (hresume : ∀ value, t'.resume = some value → t.resume = some value) :
    Flight t' consumed := by
  have hflight : t'.InFlight ↔ t.InFlight := by
    unfold Thread.InFlight
    rw [hnext]
  refine ⟨?_, ?_, ?_, ?_, ?_⟩
  · rw [hflight, hvalues]
    exact h.above
  · rw [hflight, hvalues]
    exact h.recorded
  · exact fun a ha => h.fresh a (hresume _ ha)
  · rw [hvalues]
    exact h.unowned
  · rw [hvalues]
    exact h.owner

/-- An answer is given; an event only if it was not consumed before. -/
theorem Flight.answer (h : Flight t consumed) (hvalues : t'.values = t.values)
    (hnext : t'.next = t.next) (hfresh : ∀ a, t'.resume = some (.worker a) →
      ∀ a' ∈ consumed, a'.commandId ≠ a.commandId) : Flight t' consumed := by
  have hflight : t'.InFlight ↔ t.InFlight := by
    unfold Thread.InFlight
    rw [hnext]
  refine ⟨?_, ?_, hfresh, ?_, ?_⟩
  · rw [hflight, hvalues]
    exact h.above
  · rw [hflight, hvalues]
    exact h.recorded
  · rw [hvalues]
    exact h.unowned
  · rw [hvalues]
    exact h.owner

/-- An answer that is given reaches the wait, or stands behind one that does. -/
theorem resume_put (hint : t.interrupt = some interruptId) {owner : Owner} {value value' : Resume}
    (h : (t.put owner (.resume interruptId value)).resume = some value') :
    value = value' ∨ t.resume = some value' := by
  rw [t.put_answer hint, Thread.resume, Thread.answer?_given] at h
  split_ifs at h
  · exact .inl (by simpa using h)
  · exact .inr h

/-- A request gives its input, or goes on with what is pending. -/
theorem Flight.request (h : Flight t consumed) {record : RequestRow} {input : Input}
    (hdec : Decided H t record input) (owner : Owner) : Flight (t.put owner input) consumed := by
  cases hdec with
  | own | begun | stored => exact h
  | start hreceipt hin hnext hbase =>
    -- Nothing is pending, so nothing is in flight.
    have hnone : ¬t.InFlight := by
      rintro (hr | hr) <;> rw [hnext] at hr <;> exact absurd hr (by simp)
    have hnone' : ¬(t.put owner (.turn record.command.turn)).InFlight := by
      rintro (hr | hr) <;> exact absurd hr (by simp [Thread.put])
    have hresume : (t.put owner (.turn record.command.turn)).resume = none := rfl
    refine ⟨fun hf => absurd hf hnone', fun a ha => .inr ?_, fun a ha => ?_, h.unowned, h.owner⟩
    · rcases h.recorded a ha with ⟨hf, -⟩ | hrec
      · exact absurd hf hnone
      · exact hrec
    · exact absurd (hresume.symm.trans ha) (by simp)
  | @answer interruptId signal hreceipt hin hvalid =>
    obtain ⟨hint, -⟩ := validateResumeSnapshot_ok hvalid
    refine h.answer (by simp [Thread.put, hint]) (by simp [Thread.put, hint]) fun a ha => ?_
    rcases resume_put hint ha with hvalue | hresume
    · exact absurd hvalue (toResume_ne_worker signal a)
    · exact h.fresh a hresume

/-- A delivery gives its event, or goes on with what is pending. -/
theorem Flight.event (h : Flight t consumed) {d : Delivery} {input : Input}
    (hans : Answered d t input) (owner : Owner) : Flight (t.put owner input) consumed := by
  cases hans with
  | own => exact h
  | @event interruptId hreceipt htask hexecution hint hnext =>
    refine h.answer (by simp [Thread.put, hint]) (by simp [Thread.put, hint])
      fun a ha a' ha' heq => ?_
    rcases resume_put hint ha with hvalue | hresume
    · -- What was consumed before has its receipt, and this command has none.
      obtain rfl := Resume.worker.inj hvalue
      rcases h.recorded a' ha' with ⟨hf, -⟩ | ⟨hrec, -⟩
      · exact not_inFlight hnext hf
      · rw [heq] at hrec
        exact hrec hreceipt
    · exact h.fresh a hresume a' ha' heq

/-! ## Who started what is pending -/

/-- An input that no node has returned from is that of the call in the graph, and behind
`begin_task` the recorded owner is the starter. -/
structure Fed (s : System) : Prop where
  running : s.thread.Unconsumed → ∃ call, s.running = some (call, .looping) ∧
    s.thread.source = some call.owner
  unkept : s.thread.kept = none
  starter : ∀ o, s.thread.next ≠ some .beginTask →
    s.thread.values.invocationOwner = some (some o) → s.thread.starter = some o

/-- The end of an attempt that leaves no input behind. -/
theorem Fed.carry (h : Fed s) (hshape : Shape s.thread) (took : Bool) {w : World}
    (hthread : s'.thread = { s.thread.ended took with world := w })
    (hopen : s.openInput? took = none) : Fed s' := by
  have hbegin : s.thread.next ≠ some .beginTask := by
    intro hb
    obtain ⟨call, hrun, hsource⟩ := h.running (.inr hb)
    have hstarter : s.thread.starter = some call.owner := by
      simpa [Thread.source, hshape.answer?_eq_none hb] using hsource
    simp [System.openInput?, hrun, hb, hstarter] at hopen
  have hkept : (s.thread.ended took).kept = none := by
    cases took with
    | false => exact h.unkept
    | true =>
      show s.thread.answer? = none
      by_contra hans
      obtain ⟨call, hrun, -⟩ := h.running (.inl fun hr => hans (Thread.resume_eq_none.mp hr))
      simp [System.openInput?, hrun, hbegin, hans] at hopen
  refine ⟨fun hu => ?_, by rw [hthread]; exact hkept, ?_⟩
  · rcases hu with hr | hb
    · refine absurd (Thread.resume_eq_none.mpr ?_) hr
      rw [hthread]
      exact Option.or_eq_none_iff.mpr ⟨hkept, rfl⟩
    · rw [hthread] at hb
      exact absurd hb hbegin
  · rw [hthread]
    exact h.starter

/-- Outside of the graph, no input is pending. -/
theorem Fed.rest (h : Fed s) (hrows : Rows s) (hout : s.Outside) {w : World}
    (hthread : s'.thread = { s.thread with world := w }) : Fed s' :=
  h.carry hrows.shape false (w := w)
    (by rw [hthread, Thread.ended_false (hrows.given hout)]) (openInput?_eq_none hout false)

/-- After a node, the recorded owner is that of the input the work goes back to. -/
theorem Fed.starter_checkpoint (h : Fed s) (howned : Owned H s) (hrows : Rows s) {call : Call}
    {n : Node} {after : SessionState} {o : Owner} (hrun : s.running = some (call, .looping))
    (hnext : s.thread.next = some n)
    (hc : Completed (call.config H) n s.thread.resume s.thread.values after)
    (ho : after.invocationOwner = some (some o)) : s.thread.source = some o := by
  rw [hc.owner] at ho
  cases hst : stamps? (call.config H) n s.thread.values with
  | some a =>
    obtain ⟨record, rfl, rfl, rfl, hin, -⟩ := stamps?_eq_some hst
    obtain rfl : .api record.command.requestId = o := by
      simpa [hst, RequestRow.action] using ho
    exact (howned.source_of_api hrows hrun (unconsumed_of_input hnext hin hc)).1
  | none =>
    have hafter : ownerAfter n s.thread.resume s.thread.values.invocationOwner = some (some o) := by
      simpa [hst] using ho
    by_cases hu : s.thread.Unconsumed
    · obtain ⟨call', hrun', hsource⟩ := h.running hu
      obtain ⟨rfl, -⟩ := Prod.mk.inj (Option.some.inj (hrun.symm.trans hrun'))
      cases call with
      | api record =>
        -- The request's own input is stamped with its receipt.
        obtain ⟨-, haw⟩ := howned.source_of_api hrows hrun hu
        have haim := hrows.aimed _ _ (hrows.held record _ hrun).1
        rw [stamps?_of_awaits haim haw hnext] at hst
        exact absurd hst (by simp)
      | executor d =>
        obtain ⟨d', hrun', -, hwait, hresume, -⟩ := howned.event _ hu hsource
        obtain ⟨hcall, -⟩ := Prod.mk.inj (Option.some.inj (hrun.symm.trans hrun'))
        obtain rfl := Call.executor.inj hcall
        obtain rfl : Node.waitExternalSignal = n := Option.some.inj (hwait.symm.trans hnext)
        rw [hresume] at hafter
        obtain rfl : .executor d.commandId = o := by
          simpa [ownerAfter, Delivery.action] using hafter
        exact hsource
    · have hbegin : n ≠ .beginTask := by
        rintro rfl
        exact hu (.inr hnext)
      have hsame : s.thread.values.invocationOwner = some (some o) := by
        unfold ownerAfter at hafter
        split at hafter
        · exact absurd rfl hbegin
        · rename_i a hresume
          exact absurd (.inl (by simp [hresume])) hu
        · exact hafter
      rw [Thread.source_of_consumed hu]
      exact h.starter o (fun hb => hu (.inr hb)) hsame

/-- Every move keeps the starter, unless an input is left behind. -/
theorem Move.fed (h : Fed s) (howned : Owned H s) (hrows : Rows s) (hmove : Move H s left s')
    (hleft : left = none) : Fed s' := by
  -- A call that is given an answer is in the graph with it.
  have hinvoke : ∀ (call : Call) (input : Input), s.running = some (call, .deciding) →
      Fed (s.invoke call input) := by
    intro call input hrun
    have hout : s.Outside := outside_of_phase hrun (by decide)
    cases input with
    | turn turn => exact ⟨fun _ => ⟨call, rfl, rfl⟩, rfl, fun _ hn => absurd rfl hn⟩
    | resume interruptId value =>
      by_cases hint : s.thread.interrupt = some interruptId
      · have hthread : (s.invoke call (.resume interruptId value)).thread =
            { s.thread with given := some ⟨value, call.owner⟩ } := s.thread.put_answer hint
        refine ⟨fun _ => ⟨call, rfl, ?_⟩, by rw [hthread]; exact h.unkept, by
          rw [hthread]; exact h.starter⟩
        rw [hthread, Thread.source, Thread.answer?_given, if_pos h.unkept]
        rfl
      · exact h.rest (w := s.thread.world) hrows hout (if_neg hint)
    | pending => exact h.rest (w := s.thread.world) hrows hout rfl
  cases hmove with
  | free cleanups log hout hlog => exact h.rest (w := s.thread.world) hrows hout rfl
  | died => exact h.carry (w := s.thread.world) hrows.shape false rfl hleft
  | admitted hfree htarget hstore => exact h.rest hrows (outside_of_free hfree) rfl
  | row state attempts hout hrow hactive hstate =>
    exact h.rest (w := s.thread.world) hrows hout rfl
  | claimed attempts hfree hrow hactive =>
    exact h.rest (w := s.thread.world) hrows (outside_of_free hfree) rfl
  | delivery d hfree => exact h.rest (w := s.thread.world) hrows (outside_of_free hfree) rfl
  | nothing hrun =>
    exact h.rest (w := s.thread.world) hrows (outside_of_phase hrun (by decide)) rfl
  | request hrun hinput => exact hinvoke _ _ hrun
  | event hrun hinput => exact hinvoke _ _ hrun
  | @checkpoint call n svc after next phase hrun hnext hok =>
    obtain ⟨hc, hsucc⟩ := superstep_completed hok
    refine ⟨fun hu => ?_, rfl, fun o _ ho => h.starter_checkpoint howned hrows hrun hnext hc ho⟩
    rcases hu with hr | hb
    · exact absurd rfl hr
    · have hb : next = some .beginTask := hb
      exact absurd rfl (successor_targets (hb ▸ hsucc)).1
  | @interrupt call n svc e hrun hnext hkind hresume herr =>
    refine ⟨fun hu => ?_, h.unkept, h.starter⟩
    rcases hu with hr | hb
    · exact absurd hresume hr
    · obtain rfl : n = .beginTask := Option.some.inj (hnext.symm.trans hb)
      exact absurd rfl hkind
  | broken took running hrun hnext hw hend => exact h.carry hrows.shape took rfl hleft

/-- No step of the run leaves an input behind that is stored and that no node has returned from. -/
def KeepsInputs (H : Host) (s : System) (a : Action) : Prop := abandons H s a = none

instance (H : Host) (s : System) (a : Action) : Decidable (KeepsInputs H s a) :=
  inferInstanceAs (Decidable (_ = none))

/-- A run that keeps the inputs keeps the events. -/
theorem keepsEvents_of_keepsInputs (h : (session H).ReachableWhen (KeepsInputs H) s) :
    (session H).ReachableWhen (KeepsEvents H) s := by
  induction h with
  | start hs => exact .start hs
  | next _ hc hstep ih =>
    refine .next ih (fun c => ?_) hstep
    rw [show abandons H _ _ = none from hc]
    simp

/-- While the inputs are kept, an input no node has returned from is that of the call in the
graph. -/
theorem fed_reachable (h : (session H).ReachableWhen (KeepsInputs H) s) : Fed s := by
  induction h with
  | start hs =>
    obtain rfl := hs
    refine ⟨fun hu => ?_, rfl, by simp⟩
    rcases hu with hr | hb
    · exact absurd rfl hr
    · exact absurd hb (by simp)
  | next hr hc hstep ih =>
    have hrows := rows_reachable hr.reachable
    exact (step_move hrows.toHeld hstep).fed ih (owned_reachable (keepsEvents_of_keepsInputs hr))
      hrows hc

/-! ## The log of a session -/

/-- The log is sound, and the flight knows what it has consumed. -/
structure Consumption (s : System) : Prop where
  once : ConsumedOnce s.log
  flight : Flight s.thread (s.log.filterMap Entry.consumes?)
  below : ∀ f ∈ s.log.filterMap Entry.sequences?, Below f s.thread.values.ewSequences

/-- An entry that is no checkpoint, and no `ainvoke` that its delivery may not make. -/
theorem Consumption.concat (h : Consumption s) {e : Entry} {thread : Thread} {tables : Tables}
    {running : Option (Call × Phase)} (hconsumes : e.consumes? = none)
    (hsequences : e.sequences? = none)
    (hdelivered : ∀ d input t, e = .invoked (.executor d) input t → Delivered s.log d input t)
    (hflight : Flight thread (s.log.filterMap Entry.consumes?))
    (hkept : thread.values.ewSequences = s.thread.values.ewSequences) :
    Consumption ⟨thread, tables, running, s.log ++ [e]⟩ := by
  refine ⟨⟨h.once.once.concat fun a ha => ?_, h.once.sequences.concat fun g hg => ?_,
    h.once.delivered.concat hdelivered⟩, ?_, ?_⟩
  · rw [hconsumes] at ha
    exact absurd ha (by simp)
  · rw [hsequences] at hg
    exact absurd hg (by simp)
  · simpa [List.filterMap_append, hconsumes] using hflight
  · intro f hf
    rw [List.filterMap_append] at hf
    simp only [List.filterMap_cons, hsequences, List.filterMap_nil, List.append_nil] at hf
    rw [hkept]
    exact h.below f hf

/-- What the adapter decides, its delivery may do. -/
theorem Fed.delivered (h : Fed s) (hflight : Flight s.thread (s.log.filterMap Entry.consumes?))
    {d : Delivery} {input : Input} (hrun : s.running = some (.executor d, .deciding))
    (hans : Answered d s.thread input) : Delivered s.log d input s.thread := by
  have hnu : ¬s.thread.Unconsumed := by
    intro hu
    obtain ⟨call, hlooping, -⟩ := h.running hu
    exact outside_of_phase hrun (by decide) call hlooping
  cases hans with
  | own howner hint htask =>
    have howner : s.thread.values.invocationOwner = some (some (.executor d.commandId)) := by
      rcases howner with hnone | hexec
      · rw [hflight.unowned hnone] at htask
        exact absurd htask (by simp)
      · exact hexec
    exact ⟨by simp, fun _ => ⟨h.starter _ (fun hb => hnu (.inr hb)) howner, howner,
      hflight.owner _ howner⟩, by simp⟩
  | event hreceipt htask hexecution hint hnext =>
    refine ⟨fun interruptId value hv => ?_, by simp, by simp⟩
    obtain ⟨rfl, rfl⟩ := Input.resume.inj hv
    exact ⟨rfl, hnext, hint, htask, hexecution⟩

/-- An input that is taken touches no sequence. -/
theorem put_ewSequences (owner : Owner) (input : Input) :
    (t.put owner input).values.ewSequences = t.values.ewSequences := by
  cases input with
  | turn turn => rfl
  | resume interruptId value =>
    unfold Thread.put
    dsimp only
    split_ifs <;> rfl
  | pending => rfl

/-- What an entry of a checkpoint consumes is what its node consumed. -/
theorem consumes?_checkpointed (call : Call) (n : Node) (resume : Option Resume)
    (before after : SessionState) :
    (Entry.checkpointed call n resume before after).consumes?.toList = consumedBy n resume := by
  unfold consumedBy
  split
  · rfl
  · rename_i hne
    unfold Entry.consumes?
    split
    · rename_i _ a _ _ heq
      obtain ⟨-, rfl, rfl, -, -⟩ := Entry.checkpointed.inj heq
      exact absurd rfl (hne a rfl)
    · rfl

/-- A step keeps the order of consumption. -/
theorem Move.consumption (h : Consumption s) (hfed : Fed s) (hmove : Move H s left s') :
    Consumption s' := by
  cases hmove with
  | free cleanups log hout hlog =>
    rcases hlog with rfl | ⟨d, e, rfl⟩
    · exact ⟨h.once, h.flight, h.below⟩
    · exact h.concat rfl rfl (by simp) h.flight rfl
  | admitted hfree htarget hstore =>
    exact h.concat rfl rfl (by simp) (h.flight.carry rfl rfl fun _ hv => hv) rfl
  -- Nothing is consumed by these.
  | row | claimed | delivery | nothing => exact ⟨h.once, h.flight, h.below⟩
  | interrupt => exact ⟨h.once, h.flight.carry rfl rfl fun _ hv => hv, h.below⟩
  | died | broken => exact ⟨h.once, h.flight.carry rfl rfl fun _ => Thread.ended_resume, h.below⟩
  | request hrun hinput =>
    exact h.concat rfl rfl (by simp) (h.flight.request (nextInvocation_decided hinput) _)
      (put_ewSequences _ _)
  | event hrun hinput =>
    have hans := decideDelivery_answered hinput
    refine h.concat rfl rfl (fun d input t he => ?_) (h.flight.event hans _) (put_ewSequences _ _)
    obtain ⟨hcall, rfl, rfl⟩ := Entry.invoked.inj he
    obtain rfl := Call.executor.inj hcall
    exact hfed.delivered h.flight hrun hans
  | @checkpoint call n svc after next phase hrun hnext hok =>
    -- What is consumed here was not consumed before: its sequence lies above those of the state.
    obtain ⟨hc, hsucc⟩ := superstep_completed hok
    have hbelow : Below s.thread.values.ewSequences after.ewSequences := by
      refine hc.below ?_
      rintro rfl
      exact h.flight.above (.inr hnext)
    have hlog :
      (s.log ++ [Entry.checkpointed call n s.thread.resume s.thread.values after]).filterMap
        Entry.consumes? = s.log.filterMap Entry.consumes? ++ consumedBy n s.thread.resume := by
      rw [List.filterMap_append, ← consumes?_checkpointed call n s.thread.resume
        s.thread.values after]
      congr 1
    refine ⟨⟨h.once.once.concat fun a ha a' ha' => ?_, h.once.sequences.concat fun g hg f hf => ?_,
      h.once.delivered.concat (by simp)⟩, ?_, ?_⟩
    · have hmem : a ∈ consumedBy n s.thread.resume := by
        rw [← consumes?_checkpointed call n s.thread.resume s.thread.values after, ha]
        simp
      obtain ⟨rfl, hresume⟩ := mem_consumedBy.mp hmem
      refine ⟨h.flight.fresh a hresume a' ha', fun hexec => ?_⟩
      rcases h.flight.recorded a' ha' with ⟨hf, -⟩ | ⟨-, hseq⟩
      · exact absurd hf (not_inFlight hnext)
      · rw [hexec] at hseq
        exact hseq.trans_lt (hc.fresh a rfl hresume)
    · obtain rfl : after.ewSequences = g := by simpa [Entry.sequences?] using hg
      exact (h.below f hf).trans hbelow
    · show Flight _ ((s.log ++ [_]).filterMap Entry.consumes?)
      rw [hlog]
      exact h.flight.checkpoint hnext hc hsucc rfl rfl rfl
    · intro f hf
      rcases List.mem_append.mp (List.filterMap_append ▸ hf) with hf | hf
      · exact (h.below f hf).trans hbelow
      · obtain rfl : after.ewSequences = f := by simpa [Entry.sequences?, eq_comm] using hf
        exact .refl _

/-- In a session in which no input is left behind, each command's event is consumed once, the
events of an execution in increasing order, recorded sequences never go back, and a delivery answers
its own wait only and goes on with its own nodes only. -/
theorem event_consumed_once (h : (session H).ReachableWhen (KeepsInputs H) s) :
    ConsumedOnce s.log := by
  suffices Consumption s from this.once
  induction h with
  | start hs =>
    obtain rfl := hs
    refine ⟨⟨Each.nil _, Each.nil _, Each.nil _⟩, ⟨?_, ?_, ?_, ?_, ?_⟩, ?_⟩ <;>
      simp [Thread.InFlight]
  | next hr hc hstep ih =>
    have hrows := rows_reachable hr.reachable
    exact (step_move hrows.toHeld hstep).consumption ih (fed_reachable hr)

end

/-! ## A turn that is left behind -/

namespace Sample

/-- Command 91 finishes Task 7 with a report. -/
def finished : List Action :=
  waiting ++ [.deliver completed, .decide, .node {},
    .node { result := .ok ⟨30, .succeeded, 2, [⟨40, .succeeded, none, []⟩]⟩ }, .node {},
    .node { result := .ok ⟨30, .succeeded, 2, [⟨40, .succeeded, none, []⟩]⟩ },
    .node { report := .ok "done", artifact := .ok 60 }, .node {}]

/-- The command is delivered again when its Task has ended. -/
def redelivered : List Action := finished ++ [.finish, .deliver completed, .decide]

/-- The Worker dies before it notes that the command is done. Request 64 starts Task 9, and its host
dies with the turn stored. Then the command is delivered again. -/
def preempted : List Action :=
  finished ++ [.die, .accept ⟨64, ⟨"user", "project", 1, 9, 10, "again", "basic"⟩, .start⟩,
    .execute 64, .decide, .die, .deliver completed, .decide]

end Sample

/-- The command that is delivered twice is consumed once. -/
theorem event_consumed_once_redelivered : ConsumedOnce (Sample.after Sample.redelivered).log :=
  event_consumed_once (Sample.after_reachableWhen (C := KeepsInputs Sample.host) rfl)

/-- The command that goes on with pending nodes, and who has started them. -/
def Entry.goesOn? : Entry → Option (Uuid × Option Owner)
  | .invoked (.executor d) .pending t => some (d.commandId, t.starter)
  | _ => none

/-- An event that goes on was started by its own delivery. -/
theorem ConsumedOnce.goesOn {log : List Entry} (h : ConsumedOnce log) {c : Uuid}
    {starter : Option Owner} (hmem : (c, starter) ∈ log.filterMap Entry.goesOn?) :
    starter = some (.executor c) := by
  obtain ⟨e, he, hview⟩ := List.mem_filterMap.mp hmem
  obtain ⟨pre, post, hsplit⟩ := List.append_of_mem he
  unfold Entry.goesOn? at hview
  split at hview
  · rename_i d t
    obtain ⟨rfl, rfl⟩ := Prod.mk.inj (Option.some.inj hview)
    exact ((h.delivered pre _ post hsplit d .pending t rfl).own rfl).1
  · exact absurd hview (by simp)

/-- Command 91 goes on with the nodes that request 64 has started: it runs `begin_task` of Task
9. -/
theorem not_consumedOnce_preempted :
    (session Sample.host).Reachable (Sample.after Sample.preempted) ∧
    ¬ConsumedOnce (Sample.after Sample.preempted).log := by
  refine ⟨Sample.after_reachable rfl, fun h => ?_⟩
  have hviews : (Sample.after Sample.preempted).log.filterMap Entry.goesOn? =
      [(91, some (.api 64))] := rfl
  have hown := h.goesOn (hviews ▸ List.mem_singleton_self _)
  exact absurd hown (by simp)

end ExAgent.Session
