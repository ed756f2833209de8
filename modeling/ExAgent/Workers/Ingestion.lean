import ExAgent.Workers.ExecutorEvents

/-!
# What is ingested

In every run the rows that are written for a Task are those of events with the sequences from one to
the last one of its binding, and the commands those of the boundaries among them. When the Executor
tells the events of its log, these are the first events of the log (`ingested_log`).
-/

namespace ExAgent.Workers

open Lib
open ExAgent.Graph (TaskStatus)

/-! ## The transactions -/

/-- Nothing is written but in the inbox, for an event that was counted before. -/
structure Kept (stream : String) (taskId : Uuid) (event : ExecutorEvent) (db db' : Db) : Prop where
  tasks : db'.tasks = db.tasks
  bindings : db'.bindings = db.bindings
  commands : db'.commands = db.commands
  events : db'.events = db.events
  inbox : db'.inbox = db.inbox ∨ db'.inbox = db.inbox ++ [(stream, messageId event)] ∧
    ∃ b, db.bindings.get taskId = some b ∧ event.eventSequence ≤ b.lastEventSequence

/-- The rows of an event are written. -/
structure Appended (stream : String) (taskId : Uuid) (event : ExecutorEvent)
    (db db' : Db) : Prop where
  next : ∃ b, db.bindings.get taskId = some b ∧ event.eventSequence = b.lastEventSequence + 1
  tasks : ∀ t, (db'.tasks.get t).isSome = (db.tasks.get t).isSome
  bindings : db'.bindings = db.bindings.modifyAt taskId fun b =>
    { b with lastEventSequence := event.eventSequence }
  commands : db'.commands.entries = db.commands.entries ++
    if event.eventType.isBoundary then [(signalKey event, signalCommand taskId event)] else []
  events : db'.events = db.events ++ [taskEvent taskId event]
  inbox : db'.inbox = db.inbox ++ [(stream, messageId event)]

/-- A message that is inserted changes the inbox only. -/
theorem insertInbox_some {db db' : Db} {stream message : String}
    (h : insertInbox db stream message = some db') :
    db' = { db with inbox := db.inbox ++ [(stream, message)] } := by
  unfold insertInbox at h
  split at h
  · cases h
  · exact (Option.some.inj h).symm

/-- The sequence of a binding moves on by one, or the event was received before. -/
theorem advanceExecutorSequence_ok {db db' : Db} {taskId : Uuid} {received : ℕ} {advanced : Bool}
    (h : advanceExecutorSequence db taskId received = .ok (advanced, db')) :
    ∃ b, db.bindings.get taskId = some b ∧
      ((advanced = false ∧ received ≤ b.lastEventSequence ∧ db' = db) ∨
        (advanced = true ∧ received = b.lastEventSequence + 1 ∧ db' = { db with
          bindings :=
  db.bindings.modifyAt taskId fun b => { b with lastEventSequence := received } })) := by
  unfold advanceExecutorSequence at h
  split at h
  · cases h
  · next b hb =>
    refine ⟨b, hb, ?_⟩
    split at h
    · next hle =>
      obtain ⟨rfl, rfl⟩ := Prod.mk.inj (Except.ok.inj h)
      exact Or.inl ⟨rfl, hle, rfl⟩
    · split at h
      · cases h
      · next hnext =>
        obtain ⟨rfl, rfl⟩ := Prod.mk.inj (Except.ok.inj h)
        exact Or.inr ⟨rfl, not_not.mp hnext, rfl⟩

/-- A transaction writes the rows of the next event, or nothing. -/
theorem persist_ok {db db' : Db} {stream : String} {taskId : Uuid}
    {event : ExecutorEvent} {inserted : Bool}
    (h : persist db stream taskId event = .ok (inserted, db')) :
    (inserted = false ∧ Kept stream taskId event db db') ∨
      (inserted = true ∧ Appended stream taskId event db db') := by
  unfold persist at h
  split at h
  · next hboundary =>
    -- A boundary event is stored with its signal command.
    unfold ingestSignal at h
    split at h
    · obtain ⟨rfl, rfl⟩ := Prod.mk.inj (Except.ok.inj h)
      exact Or.inl ⟨rfl, rfl, rfl, rfl, rfl, Or.inl rfl⟩
    · next db₁ hinbox =>
      obtain rfl := insertInbox_some hinbox
      obtain ⟨⟨advanced, db₂⟩, hadvance, hrest⟩ := Fallible.bind_eq_ok.mp h
      clear h
      dsimp only at hrest
      -- Its sequence lies behind the cursor, or is the next one.
      obtain ⟨b, hb, ⟨rfl, hle, rfl⟩ | ⟨rfl, hnext, rfl⟩⟩ := advanceExecutorSequence_ok hadvance
      · obtain ⟨rfl, rfl⟩ := Prod.mk.inj (Except.ok.inj hrest)
        exact Or.inl ⟨rfl, rfl, rfl, rfl, rfl, Or.inr ⟨rfl, b, hb, hle⟩⟩
      · rw [if_neg nofun] at hrest
        split at hrest
        · cases hrest
        · next commands hcommands =>
          obtain ⟨rfl, rfl⟩ := Prod.mk.inj (Except.ok.inj hrest)
          right
          refine ⟨rfl, ⟨b, hb, hnext⟩, fun t => rfl, rfl, ?_, rfl, rfl⟩
          rw [Table.entries_of_insert hcommands, if_pos hboundary]
  · next hboundary =>
    -- Any other event is recorded as progress, without a command.
    unfold recordProgress at h
    split at h
    · obtain ⟨rfl, rfl⟩ := Prod.mk.inj (Except.ok.inj h)
      exact Or.inl ⟨rfl, rfl, rfl, rfl, rfl, Or.inl rfl⟩
    · next db₁ hinbox =>
      obtain rfl := insertInbox_some hinbox
      obtain ⟨⟨advanced, db₂⟩, hadvance, hrest⟩ := Fallible.bind_eq_ok.mp h
      clear h
      dsimp only at hrest
      obtain ⟨b, hb, ⟨rfl, hle, rfl⟩ | ⟨rfl, hnext, rfl⟩⟩ := advanceExecutorSequence_ok hadvance
      · obtain ⟨rfl, rfl⟩ := Prod.mk.inj (Except.ok.inj hrest)
        exact Or.inl ⟨rfl, rfl, rfl, rfl, rfl, Or.inr ⟨rfl, b, hb, hle⟩⟩
      · rw [if_neg nofun] at hrest
        split at hrest
        · cases hrest
        · obtain ⟨rfl, rfl⟩ := Prod.mk.inj (Except.ok.inj hrest)
          right
          refine ⟨rfl, ⟨b, hb, hnext⟩, fun t => ?_, rfl, ?_, rfl, rfl⟩
          · dsimp only
            rw [Table.get_modifyAt]
            split
            · rw [Option.isSome_map]
            · rfl
          · rw [if_neg hboundary, List.append_nil]

/-! ## The events of a call -/

/-- The newest event is the one at hand or one of the history. -/
theorem newest_mem (event : ExecutorEvent) (history : List ExecutorEvent) :
    newest event history = event ∨ newest event history ∈ history := by
  unfold newest
  induction history generalizing event with
  | nil => exact Or.inl rfl
  | cons e history ih =>
    rw [List.foldl_cons]
    rcases ih (if event.eventSequence < e.eventSequence then e else event) with h | h
    · rw [h]
      split
      · exact Or.inr (List.mem_cons_self ..)
      · exact Or.inl rfl
    · exact Or.inr (List.mem_cons_of_mem _ h)

/-- The items of the pages. -/
theorem eventsAfter_mem {pages : List ExecutorEventPage} {remaining : ℤ}
    {events : List ExecutorEvent}
    (h : eventsAfter remaining pages = .ok events) :
    ∀ e ∈ events, ∃ page ∈ pages, e ∈ page.items := by
  induction pages generalizing remaining events with
  | nil =>
    unfold eventsAfter at h
    split at h
    · obtain rfl := Except.ok.inj h
      nofun
    · cases h
  | cons page pages ih =>
    unfold eventsAfter at h
    split at h
    · obtain rfl := Except.ok.inj h
      nofun
    · split at h
      · obtain rfl := Except.ok.inj h
        exact fun e he => ⟨page, List.mem_cons_self .., he⟩
      · split at h
        · cases h
        · obtain ⟨rest, hrest, h⟩ := Fallible.bind_eq_ok.mp h
          obtain rfl := Except.ok.inj h
          intro e he
          rcases List.mem_append.mp he with he | he
          · exact ⟨page, List.mem_cons_self .., he⟩
          · obtain ⟨page', hpage, he⟩ := ih hrest e he
            exact ⟨page', List.mem_cons_of_mem _ hpage, he⟩

/-- The events so far, by their sequences. -/
def Merged (events : List ExecutorEvent) (d : Dictionary ℕ ExecutorEvent) : Prop :=
  ∀ sequence event, d.get sequence = some event → event.eventSequence = sequence ∧ event ∈ events

/-- A merged event is one of those given. -/
theorem mergeEvent_ok {current event : ExecutorEvent} {afterSequence : ℕ}
    {events : List ExecutorEvent}
    {d d' : Dictionary ℕ ExecutorEvent} (hd : Merged events d) (hevent : event ∈ events)
    (h : mergeEvent current afterSequence d event = .ok d') : Merged events d' := by
  unfold mergeEvent at h
  split at h
  · cases h
  · split at h
    · obtain rfl := Except.ok.inj h
      exact hd
    · split at h
      · cases h
      · obtain rfl := Except.ok.inj h
        intro sequence e he
        rw [Dictionary.get_insert] at he
        split at he
        · next heq =>
          obtain rfl := Option.some.inj he
          exact ⟨heq.symm, hevent⟩
        · exact hd sequence e he

/-- So are all events that are merged. -/
theorem foldlM_mergeEvent_ok {current : ExecutorEvent} {afterSequence : ℕ}
    {events : List ExecutorEvent}
    (rest : List ExecutorEvent) (hrest : ∀ e ∈ rest, e ∈ events) {d d' : Dictionary ℕ ExecutorEvent}
    (hd : Merged events d) (h : rest.foldlM (mergeEvent current afterSequence) d = .ok d') :
    Merged events d' := by
  induction rest generalizing d with
  | nil =>
    obtain rfl := Except.ok.inj h
    exact hd
  | cons e rest ih =>
    rw [List.foldlM_cons] at h
    obtain ⟨d₁, hd₁, h⟩ := Fallible.bind_eq_ok.mp h
    exact ih (fun e he => hrest e (List.mem_cons_of_mem _ he))
      (mergeEvent_ok hd (hrest e (List.mem_cons_self ..)) hd₁) h

/-- Events that are merged have consecutive sequences, and come from the call. -/
theorem mergeContiguousEvents_ok {current : ExecutorEvent} {history events : List ExecutorEvent}
    {afterSequence : ℕ} (h : mergeContiguousEvents current history afterSequence = .ok events) :
    (∀ e ∈ events, e ∈ history ∨ e = current) ∧
    events.map ExecutorEvent.eventSequence =
      List.range' (afterSequence + 1) (current.eventSequence - afterSequence) := by
  unfold mergeContiguousEvents at h
  split at h
  · next hle =>
    obtain rfl := Except.ok.inj h
    exact ⟨nofun, by rw [Nat.sub_eq_zero_of_le hle]; rfl⟩
  · obtain ⟨d, hd, h⟩ := Fallible.bind_eq_ok.mp h
    split at h
    · cases h
    · next hkeys =>
      obtain rfl := Except.ok.inj h
      have hempty : Merged (history ++ [current]) Dictionary.empty := by
        intro sequence e he
        rw [Dictionary.get_empty] at he
        cases he
      have hmerged := foldlM_mergeEvent_ok _ (fun e he => he) hempty hd
      constructor
      · intro e he
        obtain ⟨p, hp, rfl⟩ := List.mem_map.mp he
        rcases List.mem_append.mp (hmerged p.1 p.2 (Dictionary.mem_entries_iff.mp hp)).2 with h | h
        · exact Or.inl h
        · exact Or.inr (List.mem_singleton.mp h)
      · rw [← not_not.mp hkeys, List.map_map]
        exact List.map_congr_left fun p hp => (hmerged p.1 p.2 (Dictionary.mem_entries_iff.mp hp)).1

/-- The events that a call persists come from it. -/
theorem ordered_mem {call : Call} {last : ℕ} {history events : List ExecutorEvent}
    (h : call.ordered last history = .ok events) : ∀ e ∈ events, e ∈ history ∨ e = call.event := by
  intro e he
  rcases (mergeContiguousEvents_ok h).1 e he with hmem | rfl
  · exact Or.inl hmem
  · split
    · exact (newest_mem call.event history).symm
    · exact Or.inr rfl

/-! ## What is written for a Task -/

/-- The rows of a Task are those of these events. -/
structure Written (db : Db) (taskId : Uuid) (events : List ExecutorEvent) : Prop where
  taskEvents : db.events.filter (fun e => e.taskId = taskId) = events.map (taskEvent taskId)
  signals : (db.commands.entries.filter fun c => c.2.taskId = taskId ∧ c.2.signal.isSome) =
    (events.filter fun e => e.eventType.isBoundary).map fun e =>
      (signalKey e, signalCommand taskId e)

/-- The rows of every Task: what its binding counts, of events that were told of its execution. -/
structure Ingested (Told : Uuid → ExecutorEvent → Prop) (db : Db) : Prop where
  bound : ∀ taskId b, db.bindings.get taskId = some b → ∃ events, Written db taskId events ∧
    events.map ExecutorEvent.eventSequence = List.range' 1 b.lastEventSequence ∧
    ∀ e ∈ events, Told b.executionId e
  unbound : ∀ taskId, db.bindings.get taskId = none → Written db taskId []

/-- The events of a call were told of the execution of its Task. -/
def Phase.Told (Told : Uuid → ExecutorEvent → Prop) (db : Db) : Phase → Prop
  | .fetching call taskId _ _ =>
      (∃ b, db.bindings.get taskId = some b ∧ b.executionId = call.event.executionId) ∧
    Told call.event.executionId call.event
  | .persisting _ taskId rest =>
    ∃ b, db.bindings.get taskId = some b ∧ ∀ e ∈ rest, Told b.executionId e
  | _ => True

/-- What is told of an execution: the events of the stream, and the items of its history. -/
def Tells (Told : Uuid → ExecutorEvent → Prop) (s : State) : Act → Prop
  | .begin _ call => Told call.event.executionId call.event
  | .answer id pages => ∀ call taskId last limit, s.calls id = .fetching call taskId last limit →
    ∀ page ∈ pages, ∀ e ∈ page.items, Told call.event.executionId e
  | _ => True

/-- A binding keeps its execution. -/
def Bound (db db' : Db) : Prop :=
  ∀ taskId b, db.bindings.get taskId = some b → ∃ b', db'.bindings.get taskId = some b' ∧
    b'.executionId = b.executionId

/-- The same bindings are bound. -/
theorem Bound.refl {db db' : Db} (h : db'.bindings = db.bindings) : Bound db db' :=
  fun _ b hb => ⟨b, h ▸ hb, rfl⟩

/-- A changed binding stays bound to its Execution. -/
theorem Bound.modifyAt {db db' : Db} {taskId : Uuid} {f : Binding → Binding}
    (h : db'.bindings = db.bindings.modifyAt taskId f)
    (hf : ∀ b, (f b).executionId = b.executionId) :
    Bound db db' := by
  intro taskId' b hb
  rw [h, Table.get_modifyAt, hb]
  split
  · exact ⟨f b, rfl, hf b⟩
  · exact ⟨b, rfl, rfl⟩

/-- What a call was told stays so while the bindings do. -/
theorem Phase.Told.mono {Told : Uuid → ExecutorEvent → Prop} {db db' : Db} {phase : Phase}
    (h : phase.Told Told db) (hbound : Bound db db') : phase.Told Told db' := by
  match phase with
  | .fetching call taskId last limit =>
    obtain ⟨⟨b, hb, hexecution⟩, htold⟩ := h
    obtain ⟨b', hb', heq⟩ := hbound taskId b hb
    exact ⟨⟨b', hb', heq.trans hexecution⟩, htold⟩
  | .persisting stream taskId rest =>
    obtain ⟨b, hb, htold⟩ := h
    obtain ⟨b', hb', heq⟩ := hbound taskId b hb
    exact ⟨b', hb', heq ▸ htold⟩
  | .unused | .returned _ | .raised _ | .died => trivial

/-- An appended event is written behind the others of its Task. -/
theorem Written.appended {db db' : Db} {stream : String} {taskId : Uuid}
    {events : List ExecutorEvent} {event : ExecutorEvent}
    (hwritten : Written db taskId events) (h : Appended stream taskId event db db') :
    Written db' taskId (events ++ [event]) where
  taskEvents := by
    rw [h.events, List.filter_append, hwritten.taskEvents, List.map_append]
    simp [taskEvent]
  signals := by
    rw [h.commands, List.filter_append, hwritten.signals, List.filter_append, List.map_append]
    by_cases hboundary : event.eventType.isBoundary
    · simp [hboundary, signalCommand]
    · simp [hboundary]

/-- An event of another Task leaves what is written. -/
theorem Written.appended_of_ne {db db' : Db} {stream : String} {taskId taskId' : Uuid}
    {events : List ExecutorEvent}
    {event : ExecutorEvent} (hwritten : Written db taskId events)
    (h : Appended stream taskId' event db db')
    (hne : taskId' ≠ taskId) : Written db' taskId events where
  taskEvents := by
    rw [h.events, List.filter_append, hwritten.taskEvents]
    simp [taskEvent, hne]
  signals := by
    rw [h.commands, List.filter_append, hwritten.signals]
    split
    · simp [signalCommand, hne]
    · simp

/-- A signal is that of an event that was written. -/
theorem Written.signal {db : Db} {taskId : Uuid} {events : List ExecutorEvent}
    (hwritten : Written db taskId events)
    {key : String} {payload : EventPayload}
    (h : db.commands.get key = some ⟨taskId, some payload⟩) :
    ∃ e ∈ events, payload = eventPayload e := by
  have hmem : (key, (⟨taskId, some payload⟩ : WorkflowCommand)) ∈
      db.commands.entries.filter fun c => c.2.taskId = taskId ∧ c.2.signal.isSome :=
    List.mem_filter.mpr ⟨Table.mem_entries_iff.mpr h, by simp⟩
  rw [hwritten.signals] at hmem
  obtain ⟨e, he, heq⟩ := List.mem_map.mp hmem
  refine ⟨e, (List.mem_filter.mp he).1, ?_⟩
  have hsignal := congrArg (fun c => c.2.signal) heq
  exact (Option.some.inj hsignal).symm

variable {Told : Uuid → ExecutorEvent → Prop} {db db' : Db}

/-- Rows of other kinds do not count. -/
theorem Ingested.same (hingested : Ingested Told db)
    (hbindings : ∀ taskId, db'.bindings.get taskId = db.bindings.get taskId)
    (hevents : db'.events = db.events)
    (hsignals : (db'.commands.entries.filter fun c => c.2.signal.isSome) =
      db.commands.entries.filter fun c => c.2.signal.isSome) : Ingested Told db' := by
  have hwritten : ∀ taskId events, Written db taskId events → Written db' taskId events := by
    intro taskId events h
    refine ⟨hevents ▸ h.taskEvents, ?_⟩
    have hfilter : ∀ entries : List (String × WorkflowCommand),
        (entries.filter fun c => c.2.taskId = taskId ∧ c.2.signal.isSome) =
          (entries.filter fun c => c.2.signal.isSome).filter fun c => c.2.taskId = taskId := by
      intro entries
      rw [List.filter_filter]
      simp
    rw [hfilter, hsignals, ← hfilter]
    exact h.signals
  constructor
  · intro taskId b hb
    obtain ⟨events, hrows, hsequences, htold⟩ := hingested.bound taskId b (hbindings taskId ▸ hb)
    exact ⟨events, hwritten _ _ hrows, hsequences, htold⟩
  · intro taskId hb
    exact hwritten _ _ (hingested.unbound taskId (hbindings taskId ▸ hb))

/-- The rows of the next event are written. -/
theorem Ingested.appended (hingested : Ingested Told db) {stream : String} {taskId : Uuid}
    {event : ExecutorEvent}
    (h : Appended stream taskId event db db')
    (htold : ∀ b, db.bindings.get taskId = some b → Told b.executionId event) :
    Ingested Told db' := by
  obtain ⟨b, hb, hnext⟩ := h.next
  constructor
  · intro taskId' b' hb'
    rw [h.bindings, Table.get_modifyAt] at hb'
    split at hb'
    · next heq =>
      obtain rfl := heq
      rw [hb] at hb'
      obtain rfl := Option.some.inj hb'
      obtain ⟨events, hrows, hsequences, htolds⟩ := hingested.bound _ b hb
      refine ⟨events ++ [event], hrows.appended h, ?_, ?_⟩
      · dsimp only
        rw [List.map_append, hsequences, hnext, List.range'_concat]
        simp [hnext, Nat.add_comm]
      · intro e he
        rcases List.mem_append.mp he with he | he
        · exact htolds e he
        · obtain rfl := List.mem_singleton.mp he
          exact htold b hb
    · next hne =>
      obtain ⟨events, hrows, hrest⟩ := hingested.bound taskId' b' hb'
      exact ⟨events, hrows.appended_of_ne h (Ne.symm hne), hrest⟩
  · intro taskId' hb'
    have hne : taskId' ≠ taskId := by
      rintro rfl
      rw [h.bindings, Table.get_modifyAt, if_pos rfl, hb] at hb'
      cases hb'
    rw [h.bindings, Table.get_modifyAt, if_neg hne] at hb'
    exact (hingested.unbound taskId' hb').appended_of_ne h hne.symm

/-- A binding begins without events. -/
theorem Ingested.bind (hingested : Ingested Told db) {taskId executionId : Uuid}
    {bindings : Table Uuid Binding}
    (h : db.bindings.insert taskId ⟨executionId, 0⟩ = some bindings) :
    Ingested Told { db with bindings } := by
  obtain ⟨hfree, hget⟩ := Table.get_of_insert h
  have hwritten : ∀ taskId events, Written db taskId events →
      Written { db with bindings } taskId events :=
    fun _ _ h => ⟨h.taskEvents, h.signals⟩
  constructor
  · intro taskId' b hb
    dsimp only at hb
    rw [hget] at hb
    split at hb
    · next heq =>
      obtain rfl := Option.some.inj hb
      obtain rfl := heq
      exact ⟨[], hwritten _ _ (hingested.unbound _ hfree), rfl, by simp⟩
    · obtain ⟨events, hrows, hrest⟩ := hingested.bound taskId' b hb
      exact ⟨events, hwritten _ _ hrows, hrest⟩
  · intro taskId' hb
    dsimp only at hb
    rw [hget] at hb
    split at hb
    · cases hb
    · exact hwritten _ _ (hingested.unbound taskId' hb)

/-- The sequence of a signal is not after that of the binding. -/
theorem Ingested.updateBinding (hingested : Ingested Told db) {key : String} {taskId : Uuid}
    {signal : EventPayload} (hsignal : db.commands.get key = some ⟨taskId, some signal⟩)
    (h : updateBinding db taskId signal.eventSequence = .ok db') :
    Ingested Told db' ∧ Bound db db' := by
  unfold Workers.updateBinding at h
  split at h
  · cases h
  · obtain rfl := Except.ok.inj h
    refine ⟨hingested.same (fun taskId' => ?_) rfl rfl,
      Bound.modifyAt
      (f := fun b => { b with lastEventSequence := max b.lastEventSequence signal.eventSequence })
        rfl fun _ => rfl⟩
    dsimp only
    rw [Table.get_modifyAt]
    split
    · next heq =>
      obtain rfl := heq
      cases hb : db.bindings.get taskId' with
      | none => rfl
      | some b =>
        obtain ⟨events, hrows, hsequences, -⟩ := hingested.bound taskId' b hb
        obtain ⟨e, he, rfl⟩ := hrows.signal hsignal
        have hmem : e.eventSequence ∈ List.range' 1 b.lastEventSequence :=
          hsequences ▸ List.mem_map_of_mem he
        have hle : e.eventSequence ≤ b.lastEventSequence := by
          have := (List.mem_range'_1.mp hmem).2
          omega
        have hmax : max b.lastEventSequence (eventPayload e).eventSequence = b.lastEventSequence :=
          Nat.max_eq_left hle
        rw [Option.map_some, hmax]
    · rfl

/-! ## Runs -/

/-- What holds in every state. -/
structure Inv (Told : Uuid → ExecutorEvent → Prop) (s : State) : Prop where
  ingested : Ingested Told s.db
  calls : ∀ id, (s.calls id).Told Told s.db

variable {s s' : State}

/-- A call goes on while the tables stay. -/
theorem Inv.goto (hinv : Inv Told s) {id : ℕ} {phase : Phase} (h : phase.Told Told s.db) :
    Inv Told (s.goto id phase) where
  ingested := hinv.ingested
  calls := by
    intro id'
    dsimp only [State.goto]
    by_cases heq : id' = id
    · rw [heq, Function.update_self]
      exact h
    · rw [Function.update_of_ne heq]
      exact hinv.calls id'

/-- The tables go on while the calls stay. -/
theorem Inv.write (hinv : Inv Told s) {db : Db} (h : Ingested Told db) (hbound : Bound s.db db) :
    Inv Told { s with db } :=
  ⟨h, fun id => (hinv.calls id).mono hbound⟩

/-- The events of a history were told by the Executor. -/
theorem afterHistory_told {call : Call} {taskId : Uuid} {last : ℕ}
    {result : Except IngestError (List ExecutorEvent)} {b : Binding}
    (hb : db.bindings.get taskId = some b)
    (hexecution : b.executionId = call.event.executionId)
    (hevent : Told call.event.executionId call.event)
    (hresult : ∀ history, result = .ok history → ∀ e ∈ history, Told call.event.executionId e) :
    (afterHistory call taskId last result).Told Told db := by
  unfold afterHistory
  split
  · trivial
  · next history =>
    split
    · trivial
    · trivial
    · next event rest hordered =>
      refine ⟨b, hb, fun e he => ?_⟩
      rw [hexecution]
      rcases ordered_mem hordered e he with hmem | rfl
      · exact hresult history rfl e hmem
      · exact hevent

/-- A call knows the binding that it has read. -/
theorem afterBinding_told {call : Call} (hevent : Told call.event.executionId call.event) :
    (afterBinding call (bindingForExecution db call.event.executionId)).Told Told db := by
  cases hfound : bindingForExecution db call.event.executionId with
  | none => trivial
  | some e =>
    obtain ⟨taskId, b⟩ := e
    have hb : db.bindings.get taskId = some b :=
      Table.mem_entries_iff.mp (List.mem_of_find?_eq_some hfound)
    have hexecution : b.executionId = call.event.executionId := by
      simpa using List.find?_some hfound
    unfold afterBinding
    dsimp only
    split
    · exact ⟨⟨b, hb, hexecution⟩, hevent⟩
    · exact afterHistory_told hb hexecution hevent fun history h => by
        obtain rfl := Except.ok.inj h
        nofun

/-- The events that are left. -/
theorem afterPersist_told {stream : String} {taskId : Uuid} {event : ExecutorEvent}
    {rest : List ExecutorEvent}
    {fails : Bool} (h : (Phase.persisting stream taskId (event :: rest)).Told Told db) :
    (afterPersist stream taskId rest fails).Told Told db := by
  obtain ⟨b, hb, htold⟩ := h
  unfold afterPersist
  split
  · trivial
  · split
    · trivial
    · exact ⟨b, hb, fun e he => htold e (List.mem_cons_of_mem _ he)⟩

/-- A transaction of a call. -/
theorem Inv.persist (hinv : Inv Told s) {id : ℕ} {stream : String} {taskId : Uuid}
    {event : ExecutorEvent}
    {rest : List ExecutorEvent}
    (hcall : s.calls id = .persisting stream taskId (event :: rest)) {db : Db}
    {inserted : Bool} (h : Workers.persist s.db stream taskId event = .ok (inserted, db)) :
    Inv Told { s with db } := by
  rcases persist_ok h with ⟨-, hkept⟩ | ⟨-, happended⟩
  · refine hinv.write (hinv.ingested.same (fun taskId' => ?_) hkept.events ?_)
      (Bound.refl hkept.bindings)
    · rw [hkept.bindings]
    · rw [hkept.commands]
  · have htold := hinv.calls id
    rw [hcall] at htold
    obtain ⟨b, hb, htold⟩ := htold
    refine hinv.write (hinv.ingested.appended happended fun b' hb' => ?_)
      (Bound.modifyAt happended.bindings fun _ => rfl)
    obtain rfl := Option.some.inj (hb.symm.trans hb')
    exact htold event (List.mem_cons_self ..)

/-- Every step keeps it. -/
theorem Inv.step (hinv : Inv Told s) {a : Act} (htells : Tells Told s a) (h : step s a = some s') :
    Inv Told s' := by
  cases a with
  | create taskId status =>
    obtain ⟨tasks, -, rfl⟩ := Option.map_eq_some_iff.mp h
    exact hinv.write (hinv.ingested.same (fun _ => rfl) rfl rfl) (Bound.refl rfl)
  | write taskId status =>
    obtain rfl := Option.some.inj h
    exact hinv.write (hinv.ingested.same (fun _ => rfl) rfl rfl) (Bound.refl rfl)
  | command key taskId =>
    obtain ⟨commands, hcommands, rfl⟩ := Option.map_eq_some_iff.mp h
    refine hinv.write (hinv.ingested.same (fun _ => rfl) rfl ?_) (Bound.refl rfl)
    dsimp only
    rw [Table.entries_of_insert hcommands, List.filter_append]
    simp
  | bind taskId executionId =>
    obtain ⟨db, hdb, rfl⟩ := Option.map_eq_some_iff.mp h
    have hbind := Fallible.toOption_eq_some.mp hdb
    unfold bind at hbind
    split at hbind
    · cases hbind
    · split at hbind
      · cases hbind
      · split at hbind
        · cases hbind
        · -- A new binding is of a Task that had none.
          next bindings hinsert =>
          obtain rfl := Except.ok.inj hbind
          refine hinv.write (hinv.ingested.bind hinsert) fun taskId' b hb => ⟨b, ?_, rfl⟩
          obtain ⟨hfree, hget⟩ := Table.get_of_insert hinsert
          dsimp only
          rw [hget]
          split
          · next heq =>
            obtain rfl := heq
            rw [hfree] at hb
            cases hb
          · exact hb
  | reconcile key =>
    dsimp only [Workers.step] at h
    split at h
    · next taskId signal hsignal =>
      obtain ⟨db, hdb, rfl⟩ := Option.map_eq_some_iff.mp h
      obtain ⟨hingested, hbound⟩ :=
        hinv.ingested.updateBinding hsignal (Fallible.toOption_eq_some.mp hdb)
      exact hinv.write hingested hbound
    · cases h
  | begin id call =>
    dsimp only [Workers.step] at h
    split at h
    · obtain rfl := Option.some.inj h
      exact hinv.goto (afterBinding_told htells)
    · cases h
  | answer id pages =>
    dsimp only [Workers.step] at h
    split at h
    · -- The history comes from the Executor, page by page.
      next call taskId last limit hcall =>
      obtain rfl := Option.some.inj h
      have htold := hinv.calls id
      rw [hcall] at htold
      obtain ⟨⟨b, hb, hexecution⟩, hevent⟩ := htold
      refine hinv.goto (afterHistory_told hb hexecution hevent fun history hhistory e he => ?_)
      obtain ⟨page, hpage, he⟩ := eventsAfter_mem hhistory e he
      exact htells call taskId last limit hcall page hpage e he
    · cases h
  | persist id fails =>
    dsimp only [Workers.step] at h
    split at h
    · next stream taskId event rest hcall =>
      split at h
      · next inserted db hpersist =>
        obtain rfl := Option.some.inj h
        -- What is left to be written was told with the rest.
        have hnext := hinv.persist hcall hpersist
        have htold := hnext.calls id
        dsimp only at htold
        rw [hcall] at htold
        exact hnext.goto (afterPersist_told htold)
      · obtain rfl := Option.some.inj h
        exact hinv.goto trivial
    · cases h
  | die id =>
    obtain rfl := Option.some.inj h
    exact hinv.goto trivial

/-- In every reachable state, what is written was told by the Executor. -/
theorem inv_reachable (hr : ingestion.ReachableWhen (Tells Told) s) : Inv Told s := by
  induction hr with
  | start hs =>
    obtain rfl := hs
    exact ⟨⟨nofun, fun _ _ => ⟨rfl, rfl⟩⟩, fun _ => trivial⟩
  | next _ htells hstep ih => exact ih.step htells hstep

/-! ## The log of the Executor -/

/-- The events of an execution, numbered from one. -/
structure IsLog (log : Uuid → List ExecutorEvent) : Prop where
  execution : ∀ x, ∀ e ∈ log x, e.executionId = x
  sequences : ∀ x, (log x).map ExecutorEvent.eventSequence = List.range' 1 (log x).length

/-- The event at a place of the log. -/
theorem IsLog.getElem? {log : Uuid → List ExecutorEvent} (hlog : IsLog log) {x : Uuid}
    {e : ExecutorEvent} (he : e ∈ log x) : ∃ i, e.eventSequence = i + 1 ∧ (log x)[i]? = some e := by
  obtain ⟨i, hi, rfl⟩ := List.getElem_of_mem he
  have h := congrArg (fun l => l[i]?) (hlog.sequences x)
  refine ⟨i, ?_, List.getElem?_eq_getElem hi⟩
  have hseq : (log x)[i].eventSequence = 1 + i := by simpa [hi] using h
  omega

/-- Events with consecutive sequences are consecutive in the log. -/
theorem IsLog.segment {log : Uuid → List ExecutorEvent} (hlog : IsLog log) {x : Uuid}
    {events : List ExecutorEvent}
    {m n : ℕ} (hsequences : events.map ExecutorEvent.eventSequence = List.range' (m + 1) n)
    (hmem : ∀ e ∈ events, e ∈ log x) : events = ((log x).drop m).take n := by
  have hlength : events.length = n := by simpa using congrArg List.length hsequences
  apply List.ext_getElem?
  intro i
  by_cases hi : i < events.length
  · obtain ⟨j, hj, hget⟩ := hlog.getElem? (hmem _ (List.getElem_mem hi))
    have hseq : events[i].eventSequence = m + 1 + i := by
      have h := congrArg (fun l => l[i]?) hsequences
      have hn : i < n := hlength ▸ hi
      simpa [hi, hn] using h
    obtain rfl : j = m + i := by omega
    rw [List.getElem?_take_of_lt (hlength ▸ hi), List.getElem?_drop, hget,
      List.getElem?_eq_getElem hi]
  · rw [List.getElem?_eq_none (Nat.not_lt.mp hi), List.getElem?_eq_none]
    rw [List.length_take]
    omega

/-- Events with the first sequences are the first events. -/
theorem IsLog.take {log : Uuid → List ExecutorEvent} (hlog : IsLog log) {x : Uuid}
    {events : List ExecutorEvent}
    {n : ℕ} (hsequences : events.map ExecutorEvent.eventSequence = List.range' 1 n)
    (hmem : ∀ e ∈ events, e ∈ log x) :
    n ≤ (log x).length ∧ events = (log x).take n := by
  have hprefix : events = (log x).take n := hlog.segment (m := 0) hsequences hmem
  refine ⟨?_, hprefix⟩
  have hlength : events.length = n := by simpa using congrArg List.length hsequences
  have h := congrArg List.length hprefix
  rw [List.length_take] at h
  omega

/-- Whatever is delivered, again or out of order, while calls overlap, fail and die: when the
Executor tells the events of its log, the rows of a Task are those of the first events of the log of
its execution, as many as the binding counts, in their order and once each, and its signals are
those of the boundaries among them. -/
theorem ingested_log {log : Uuid → List ExecutorEvent} (hlog : IsLog log) {s : State}
    (hr : ingestion.ReachableWhen (Tells fun x e => e ∈ log x) s) {taskId : Uuid} {b : Binding}
    (hb : s.db.bindings.get taskId = some b) :
    b.lastEventSequence ≤ (log b.executionId).length ∧
    s.db.events.filter (fun e => e.taskId = taskId) =
      ((log b.executionId).take b.lastEventSequence).map (taskEvent taskId) ∧
    (s.db.commands.entries.filter fun c => c.2.taskId = taskId ∧ c.2.signal.isSome) =
      (((log b.executionId).take b.lastEventSequence).filter fun e => e.eventType.isBoundary).map
        fun e => (signalKey e, signalCommand taskId e) := by
  obtain ⟨events, hrows, hsequences, htold⟩ := (inv_reachable hr).ingested.bound taskId b hb
  obtain ⟨hle, rfl⟩ := hlog.take hsequences htold
  exact ⟨hle, hrows.taskEvents, hrows.signals⟩

instance {Told : Uuid → ExecutorEvent → Prop} [∀ x e, Decidable (Told x e)] (s : State) :
    ∀ a, Decidable (Tells Told s a)
  | .begin _ call => inferInstanceAs (Decidable (Told call.event.executionId call.event))
  | .answer id pages =>
    match hcall : s.calls id with
    | .fetching call taskId last limit =>
      decidable_of_iff (∀ page ∈ pages, ∀ e ∈ page.items, Told call.event.executionId e)
        ⟨fun h call' taskId' last' limit' hcall' => by
          obtain ⟨rfl, -⟩ := Phase.fetching.inj (hcall.symm.trans hcall')
          exact h, fun h => h call taskId last limit hcall⟩
    | .unused | .persisting _ _ _ | .returned _ | .raised _ | .died =>
      isTrue fun _ _ _ _ hcall' => nomatch hcall.symm.trans hcall'
  | .create _ _ | .write _ _ | .command _ _ | .bind _ _ | .reconcile _ | .persist _ _ | .die _ =>
    isTrue trivial

namespace Sample

/-- An execution that started and was completed. -/
def log (x : Uuid) : List ExecutorEvent :=
  if x = 7 then [⟨1, .started, 7, 1, "\x7b\x7d"⟩, ⟨2, .completed, 7, 2, "\x7b\x7d"⟩] else []

/-- The log of the sample is one of an Executor. -/
theorem log_isLog : IsLog log where
  execution := by
    intro x e he
    unfold log at he
    split at he
    · next heq =>
      rcases List.mem_cons.mp he with rfl | he
      · exact heq.symm
      · rcases List.mem_cons.mp he with rfl | he
        · exact heq.symm
        · cases he
    · cases he
  sequences := by
    intro x
    unfold log
    split
    · rfl
    · rfl

/-- The second event comes first, and is delivered again. -/
def acts : List Act :=
  [.create 5 .waitingForExecutorEvent, .bind 5 7,
    .begin 0 ⟨"s", ⟨2, .completed, 7, 2, "\x7b\x7d"⟩, false⟩,
    .answer 0 [⟨log 7, none, false⟩], .persist 0 false, .persist 0 false,
    .begin 1 ⟨"s", ⟨2, .completed, 7, 2, "\x7b\x7d"⟩, true⟩, .answer 1 [⟨[], none, false⟩]]

/-- The state after them. -/
def state : State := (ingestion.runIf (Tells fun x e => e ∈ log x) {} acts).getD {}

/-- The state of the sample is reached by runs that are told its log. -/
theorem state_reachable : ingestion.ReachableWhen (Tells fun x e => e ∈ log x) state := by
  have hrun : (ingestion.runIf (Tells fun x e => e ∈ log x) {} acts).isSome = true := by
    decide +kernel
  obtain ⟨s, hs⟩ := Option.isSome_iff_exists.mp hrun
  have hstate : state = s := by
    unfold state
    rw [hs]
    rfl
  rw [hstate]
  exact Machine.ReachableWhen.runIf (.start rfl) hs

end Sample

/-- Both events are written once. -/
theorem ingested_log_sample :
    ∃ b, Sample.state.db.bindings.get 5 = some b ∧ b.lastEventSequence = 2 ∧
    Sample.state.db.events.filter (fun e => e.taskId = 5) =
      ((Sample.log b.executionId).take b.lastEventSequence).map (taskEvent 5) := by
  have hbound : ((Sample.state.db.bindings.get 5).any fun b => b.lastEventSequence = 2) = true := by
    decide +kernel
  obtain ⟨b, hb, hlast⟩ := (Option.any_eq_true _ _).mp hbound
  exact ⟨b, hb, of_decide_eq_true hlast,
    (ingested_log Sample.log_isLog Sample.state_reachable hb).2.1⟩

end ExAgent.Workers
