import ExAgent.Worker.Consumer

/-!
# No message is dropped

An entry leaves the pending list by one of three commands: the `XACK` of a run whose handler
returned `ACK`, the pipeline that appends the entry to the dead-letter stream, and a claim that
finds its body deleted. `RunStep` lists what a step of a run can do, and the invariant says what a
run stands for before such a command: the entry it holds is the one that was published, a decision
`ACK` is in the log, and an attempt count is covered by the retries that were counted.
-/

namespace ExAgent.Worker.RedisStreamConsumer

open Lib

variable {β : Type}

/-! ## Steps of a run -/

/-- The pending command of a run takes the entry off the pending list. -/
def Phase.removes : Phase → Bool
  | .acking | .burying .. => true
  | .locking | .acquiring _ | .handling | .counting _ | .leaving | .returned => false

/-- What a step of a run can do. -/
inductive RunStep (D : Deployment) (s : Server β) (r : Run β) :
    Server β → Run β → List Record → Prop
  /-- It goes on, or takes or gives up its lock. -/
  | quiet {locks : String → Option String} {lease : Option LockLease} {heartbeat : Bool}
      {phase : Phase} (h : phase.removes = false) :
      RunStep D s r { s with locks := locks }
        { r with lease := lease, heartbeat := heartbeat, phase := phase } []
  /-- The handler returns a decision. -/
  | decided {result : HandlerResult} :
      RunStep D s r s (r.goto (afterHandle (.returned result)))
        [.decided r.message.messageId result.decision]
  /-- The message is rejected for good. -/
  | rejected {message : String} :
      RunStep D s r s (r.goto (.burying message 0 "PermanentMessageError")) []
  /-- A retry is counted. -/
  | counted {phase : Phase} (h : phase.removes = false ∨
      ∃ reason errorType, phase = .burying reason (attempts D r.message s) errorType ∧
        D.settings.maxRetryAttempts ≤ attempts D r.message s) :
      RunStep D s r (countRetry D r.message s) (r.goto phase) [.counted r.message.messageId]
  /-- The entry is acknowledged. -/
  | acked {phase : Phase} (h : r.phase = .acking) (hnext : phase.removes = false) :
      RunStep D s r (ack D r.message s) (r.goto phase) []
  /-- The entry is moved to the dead-letter stream. -/
  | buried {reason errorType : String} {n : ℕ} {now : Time} {phase : Phase}
      (h : r.phase = .burying reason n errorType) (hnext : phase.removes = false) :
      RunStep D s r (deadLetter D r.consumer r.message now reason n errorType s) (r.goto phase) []
  /-- The lease is renewed or lost. -/
  | renewed {g : GroupView β} {heartbeat : Bool} (h : s.group.Retains g) :
      RunStep D s r { s with group := g } { r with heartbeat := heartbeat } []

/-- No phase after a broken one removes. -/
theorem Phase.removes_broken (p : Phase) : p.broken.removes = false := by
  cases p <;> rfl

/-- A step that moves a run to a phase without a removal. -/
theorem RunStep.goto (D : Deployment) (s : Server β) (r : Run β) {phase : Phase}
    (h : phase.removes = false) : RunStep D s r s (r.goto phase) [] :=
  show RunStep D s r { s with locks := s.locks }
    { r with lease := r.lease, heartbeat := r.heartbeat, phase := phase } [] from .quiet h

/-- The pending command, whether the run learns of its reply or not. -/
theorem command_cases {D : Deployment} {s s' : Server β} {r r' : Run β} {now : Time}
    {token : String} {l : List Record} (h : command D s r now token = some (s', r', l)) :
    RunStep D s r s' r' l ∧ RunStep D s r s' (r.goto r.phase.broken) l := by
  have hbroken := r.phase.removes_broken
  unfold command at h
  split at h
  · split at h
    · cases h
      exact ⟨.goto D s r rfl, .goto D s r hbroken⟩
    · cases h
      exact ⟨.quiet rfl, .quiet hbroken⟩
  · rename_i hphase
    cases h
    exact ⟨.acked hphase rfl, .acked hphase hbroken⟩
  · cases h
    refine ⟨.counted ?_, .counted (.inl hbroken)⟩
    split
    · exact .inl rfl
    · rename_i hle
      exact .inr ⟨_, _, rfl, Nat.le_of_not_lt hle⟩
  · rename_i hphase
    split at h
    · cases h
      exact ⟨.goto D s r rfl, .goto D s r hbroken⟩
    · cases h
      exact ⟨.buried hphase rfl, .buried hphase hbroken⟩
  · split at h
    · cases h
      exact ⟨.goto D s r rfl, .goto D s r hbroken⟩
    · cases h
      exact ⟨.quiet rfl, .quiet hbroken⟩
  · cases h
  · cases h
  · cases h

/-- Every step of a run is one of these. -/
theorem Run.step_cases {D : Deployment} {s s' : Server β} {r r' : Run β} {g : Go}
    {l : List Record} (h : r.step D s g = some (s', r', l)) : RunStep D s r s' r' l := by
  cases g with
  | lockKey k =>
    simp only [Run.step] at h
    split at h
    · cases h
      cases k with
      | none => exact .quiet rfl
      | key key => exact .goto D s r rfl
      | permanent message => exact .rejected
      | raised => exact .goto D s r rfl
    · cases h
  | handled hd =>
    simp only [Run.step] at h
    split at h
    · cases h
      cases hd with
      | returned result => exact .decided
      | permanent message => exact .rejected
      | raised typeName message => exact .goto D s r rfl
    · cases h
  | call now token => exact (command_cases h).1
  -- A call that breaks was executed, or has left the server alone.
  | fault executed now token =>
    obtain ⟨⟨t, u, l'⟩, hcommand, heq⟩ := Option.map_eq_some_iff.mp h
    cases executed with
    | true =>
      cases heq
      exact (command_cases hcommand).2
    | false =>
      cases heq
      exact .goto D s r r.phase.removes_broken
  | renew now lost =>
    simp only [Run.step] at h
    split at h
    · cases h
      exact .renewed (GroupView.retains_xclaim ..)
    · cases h
  | cancel =>
    simp only [Run.step] at h
    split at h
    · cases h
    · cases h
      exact .goto D s r r.phase.removes_broken

/-- The run is about the message it was about. -/
theorem RunStep.message {D : Deployment} {s s' : Server β} {r r' : Run β} {l : List Record}
    (h : RunStep D s r s' r' l) : r'.message = r.message := by
  cases h <;> rfl

/-- A run does not touch the bodies. -/
theorem RunStep.entries {D : Deployment} {s s' : Server β} {r r' : Run β} {l : List Record}
    (h : RunStep D s r s' r' l) : s'.group.entries = s.group.entries := by
  cases h with
  | renewed h => exact h.entries
  | _ => rfl

/-! ## The invariant -/

/-- The retries counted under the retry key of a message. -/
def countedRetries (D : Deployment) (log : List Record) (id : StreamId) : ℕ :=
  log.countP fun
    | .counted other => retryStateKey D other = retryStateKey D id
    | .decided .. => false

/-- A longer log counts no fewer retries. -/
theorem countedRetries_le (D : Deployment) (log l : List Record) (id : StreamId) :
    countedRetries D log id ≤ countedRetries D (log ++ l) id := by
  simp [countedRetries]

/-- Without a second message under the key, the retries are the message's own. -/
theorem countedRetries_own {D : Deployment} {log : List Record} {id : StreamId}
    (h : ∀ other, .counted other ∈ log → retryStateKey D other = retryStateKey D id → other = id) :
    countedRetries D log id = log.count (.counted id) := by
  unfold countedRetries List.count
  refine List.countP_congr fun record hmem => ?_
  cases record with
  | decided other decision => simp
  | counted other =>
    simp only [decide_eq_true_eq, beq_iff_eq, Record.counted.injEq]
    exact ⟨h other hmem, fun heq => by rw [heq]⟩

/-- What a run stands for. -/
structure RunInv (D : Deployment) (published : Table StreamId β) (log : List Record) (r : Run β) :
    Prop where
  message : published.get r.message.messageId = some r.message.fields
  acking : r.phase = .acking → .decided r.message.messageId .ack ∈ log
  burying : ∀ reason n errorType, r.phase = .burying reason n errorType → n ≠ 0 →
    D.settings.maxRetryAttempts ≤ n ∧ n ≤ countedRetries D log r.message.messageId

/-- The messages a slot still has to process. -/
def SlotPhase.waiting : SlotPhase β → List (StreamMessage β)
  | .processing messages _ _ => messages
  | .claiming | .reading | .stopped => []

/-- The invariant of the system. -/
structure Inv (D : Deployment) (s : System β) : Prop where
  bodies : ∀ e ∈ s.server.group.entries, s.published.get e.1 = some e.2
  retries : ∀ id n, s.server.retries (retryStateKey D id) = some n → n ≤ countedRetries D s.log id
  slots : ∀ slot ∈ s.slots, ∀ m ∈ slot.phase.waiting, s.published.get m.messageId = some m.fields
  runs : ∀ r ∈ s.runs, RunInv D s.published s.log r

/-- A run that does not move keeps its meaning while the log grows. -/
theorem RunInv.mono {D : Deployment} {published : Table StreamId β} {log : List Record} {r : Run β}
    (h : RunInv D published log r) (l : List Record) : RunInv D published (log ++ l) r where
  message := h.message
  acking := fun hp => List.mem_append_left _ (h.acking hp)
  burying := fun reason n errorType hp hn =>
    ⟨(h.burying reason n errorType hp hn).1,
      Nat.le_trans (h.burying reason n errorType hp hn).2 (countedRetries_le ..)⟩

/-- A run in a phase without a removal stands for its message only. -/
theorem RunInv.of_removes {D : Deployment} {published : Table StreamId β} {log : List Record}
    {r : Run β} (hm : published.get r.message.messageId = some r.message.fields)
    (h : r.phase.removes = false) : RunInv D published log r where
  message := hm
  acking := by
    intro hp
    simp [hp, Phase.removes] at h
  burying := by
    intro reason n errorType hp
    simp [hp, Phase.removes] at h

/-- The counter of a message is covered by the retries that were counted. -/
theorem attempts_le {D : Deployment} {s : System β} (hi : Inv D s) (m : StreamMessage β) :
    attempts D m s.server ≤ countedRetries D (s.log ++ [.counted m.messageId]) m.messageId := by
  have hone : countedRetries D (s.log ++ [.counted m.messageId]) m.messageId =
      countedRetries D s.log m.messageId + 1 := by
    simp [countedRetries]
  rw [hone]
  unfold attempts
  cases hn : s.server.retries (retryStateKey D m.messageId) with
  | none => simp
  | some n => simpa using hi.retries _ n hn

/-- The phase after a decision of the handler. -/
theorem RunInv.decided {D : Deployment} {published : Table StreamId β} {log : List Record}
    {r : Run β} (hm : published.get r.message.messageId = some r.message.fields)
    (result : HandlerResult) :
    RunInv D published (log ++ [.decided r.message.messageId result.decision])
      (r.goto (afterHandle (.returned result))) := by
  cases hd : result.decision with
  | ack =>
    have hphase : afterHandle (.returned result) = .acking := by
      simp [afterHandle, hd]
    rw [hphase]
    exact ⟨hm, fun _ => by simp [Run.goto], by simp [Run.goto]⟩
  | retry =>
    have hphase : afterHandle (.returned result) = .counting result := by
      simp [afterHandle, hd]
    rw [hphase]
    exact .of_removes hm rfl
  | defer =>
    have hphase : afterHandle (.returned result) = .leaving := by
      simp [afterHandle, hd]
    rw [hphase]
    exact .of_removes hm rfl
  | deadLetter =>
    refine ⟨hm, fun hp => ?_, fun reason n errorType hp hn => ?_⟩
    · simp [Run.goto, afterHandle, hd] at hp
    · simp only [Run.goto, afterHandle, hd, Phase.burying.injEq] at hp
      exact absurd hp.2.1.symm hn

/-- The run that moves keeps its meaning. -/
theorem RunStep.inv {D : Deployment} {s : System β} {server : Server β} {r r' : Run β}
    {l : List Record} (h : RunStep D s.server r server r' l) (hi : Inv D s)
    (hr : RunInv D s.published s.log r) : RunInv D s.published (s.log ++ l) r' := by
  cases h with
  | quiet h => exact .of_removes hr.message h
  | decided => exact .decided hr.message _
  | rejected =>
    refine ⟨hr.message, by simp [Run.goto], fun reason n errorType hp hn => ?_⟩
    simp only [Run.goto, Phase.burying.injEq] at hp
    exact absurd hp.2.1.symm hn
  | counted h =>
    obtain h | ⟨reason, errorType, rfl, hmax⟩ := h
    · exact .of_removes hr.message h
    · refine ⟨hr.message, by simp [Run.goto], fun reason' n errorType' hp hn => ?_⟩
      simp only [Run.goto, Phase.burying.injEq] at hp
      obtain ⟨-, rfl, -⟩ := hp
      exact ⟨hmax, attempts_le hi r.message⟩
  | acked hp hnext => exact .of_removes hr.message hnext
  | buried hp hnext => exact .of_removes hr.message hnext
  | renewed h =>
    have hr := hr.mono []
    exact ⟨hr.message, hr.acking, hr.burying⟩

/-- A step of a run keeps the invariant. -/
theorem Inv.run {D : Deployment} {s : System β} {server : Server β} {i : ℕ} {r r' : Run β}
    {l : List Record} (hi : Inv D s) (hr : s.runs[i]? = some r)
    (h : RunStep D s.server r server r' l) :
    Inv D { s with server := server, runs := s.runs.set i r', log := s.log ++ l } where
  bodies := by
    dsimp only
    rw [h.entries]
    exact hi.bodies
  -- The count of a message is at most that of its retries in the log.
  retries := by
    intro id n hn
    have hle : ∀ n, s.server.retries (retryStateKey D id) = some n →
        n ≤ countedRetries D (s.log ++ l) id := fun n hn =>
      Nat.le_trans (hi.retries id n hn) (countedRetries_le ..)
    have herase : Function.update s.server.retries (retryStateKey D r.message.messageId) none
        (retryStateKey D id) = some n → n ≤ countedRetries D (s.log ++ l) id := by
      intro hn
      by_cases hkey : retryStateKey D id = retryStateKey D r.message.messageId
      · rw [hkey, Function.update_self] at hn
        cases hn
      · rw [Function.update_of_ne hkey] at hn
        exact hle n hn
    cases h with
    | quiet => exact hle n hn
    | decided => exact hle n hn
    | rejected => exact hle n hn
    | renewed => exact hle n hn
    | buried => exact herase hn
    | acked =>
      simp only [ack] at hn
      split at hn
      · exact herase hn
      · exact hle n hn
    | counted =>
      simp only [countRetry] at hn
      by_cases hkey : retryStateKey D id = retryStateKey D r.message.messageId
      · rw [hkey, Function.update_self] at hn
        obtain rfl := Option.some.inj hn
        have hattempts := attempts_le hi r.message
        unfold countedRetries at hattempts ⊢
        rw [hkey]
        exact hattempts
      · rw [Function.update_of_ne hkey] at hn
        exact hle n hn
  slots := hi.slots
  runs := by
    intro u hu
    obtain hu | rfl := List.mem_or_eq_of_mem_set hu
    · exact (hi.runs u hu).mono l
    · exact h.inv hi (hi.runs r (List.mem_of_getElem? hr))

/-- A command that retains the pending list keeps the invariant. -/
theorem Inv.group {D : Deployment} {s : System β} {g : GroupView β} (hi : Inv D s)
    (h : s.server.group.Retains g) : Inv D { s with server := { s.server with group := g } } :=
  ⟨by dsimp only; rw [h.entries]; exact hi.bodies, hi.retries, hi.slots, hi.runs⟩

/-- A slot that moves on keeps the invariant when its messages were published. -/
theorem Inv.put {D : Deployment} {s : System β} {i : ℕ} {slot : Slot β} (hi : Inv D s)
    (h : ∀ m ∈ slot.phase.waiting, s.published.get m.messageId = some m.fields) :
    Inv D (s.put i slot) := by
  refine ⟨hi.bodies, hi.retries, fun u hu => ?_, hi.runs⟩
  obtain hu | rfl := List.mem_or_eq_of_mem_set hu
  · exact hi.slots u hu
  · exact h

/-- A body that is stored was published. -/
theorem Inv.published {D : Deployment} {s : System β} (hi : Inv D s) {id : StreamId} {b : β}
    (h : s.server.group.body id = some b) : s.published.get id = some b := by
  obtain ⟨before, after, hentries, -⟩ := List.lookup_eq_some_iff.mp h
  exact hi.bodies (id, b) (by rw [hentries]; simp)

/-! ## Commands of a slot -/

/-- One entry of the claim script. -/
theorem claimEntry_spec (D : Deployment) (consumer : String) (now : Time)
    (page : GroupView β × List (StreamId × β)) (entry : StreamId × Holding) :
    page.1.Retains (claimEntry D consumer now page entry).1 ∧
      ∀ e ∈ (claimEntry D consumer now page entry).2, e ∈ page.2 ∨ page.1.body e.1 = some e.2 := by
  unfold claimEntry
  split
  · exact ⟨.refl _, fun e he => .inl he⟩
  · have hclaim := GroupView.retains_xclaim (s := page.1) D.dropsDeleted consumer now
      D.settings.claimIdleMilliseconds entry.1
    split
    · rename_i g b heq
      rw [heq] at hclaim
      refine ⟨hclaim, fun e he => ?_⟩
      rcases List.mem_append.mp he with he | he
      · exact .inl he
      · obtain rfl := List.mem_singleton.mp he
        exact .inr (GroupView.body_of_xclaim _ _ _ _ _ (by rw [heq]))
    · rename_i g claimed hne heq
      rw [heq] at hclaim
      refine ⟨hclaim.trans ?_, fun e he => .inl he⟩
      dsimp only
      split
      · rename_i hnone
        exact GroupView.retains_xack (Option.isNone_iff_eq_none.mp hnone)
      · exact .refl g

/-- The claim script retains, and gives bodies that are stored. -/
theorem claimPendingPage_spec (D : Deployment) (consumer : String) (now : Time) (cursor : StreamId)
    (g : GroupView β) : g.Retains (claimPendingPage D consumer now cursor g).1 ∧
      ∀ e ∈ (claimPendingPage D consumer now cursor g).2.2, g.body e.1 = some e.2 := by
  unfold claimPendingPage
  dsimp only
  generalize g.xpending cursor D.settings.claimBatchSize = pending
  -- Induction on the page: what is claimed so far was stored when the script began.
  have hfold : ∀ page : GroupView β × List (StreamId × β), g.Retains page.1 →
      (∀ e ∈ page.2, g.body e.1 = some e.2) →
      g.Retains (pending.foldl (claimEntry D consumer now) page).1 ∧
        ∀ e ∈ (pending.foldl (claimEntry D consumer now) page).2, g.body e.1 = some e.2 := by
    induction pending with
    | nil => exact fun page hretains hbody => ⟨hretains, hbody⟩
    | cons entry pending ih =>
      intro page hretains hbody
      obtain ⟨hnext, hmem⟩ := claimEntry_spec D consumer now page entry
      refine ih _ (hretains.trans hnext) fun e he => ?_
      obtain he | he := hmem e he
      · exact hbody e he
      · exact (hretains.body e.1).symm.trans he
  exact hfold (g, []) (.refl g) (by simp)

/-- `_claim_stale` retains, and gives bodies that are stored. -/
theorem claimStale_spec (D : Deployment) (consumer : String) (now : Time) (cursor : StreamId)
    (g : GroupView β) : g.Retains (claimStale D consumer now cursor g).1 ∧
      ∀ e ∈ (claimStale D consumer now cursor g).2.2, g.body e.1 = some e.2 := by
  unfold claimStale
  split
  · exact GroupView.retains_xautoclaim ..
  · exact claimPendingPage_spec ..

/-- What a step outside the runs can do: it drops no pending entry with a body. -/
structure Keeps (D : Deployment) (s t : System β) : Prop where
  inv : Inv D t
  deadLetters : t.server.deadLetters = s.server.deadLetters
  pending : ∀ id, s.server.group.Pending id → t.server.group.Pending id ∨
    s.server.group.body id = none

/-- A command that retains the pending list, and a slot that moves on to published messages. -/
theorem Inv.keeps {D : Deployment} {s : System β} {g : GroupView β} {i : ℕ} {slot : Slot β}
    (hi : Inv D s) (h : s.server.group.Retains g)
    (hm : ∀ m ∈ slot.phase.waiting, s.published.get m.messageId = some m.fields) :
    Keeps D s ({ s with server := { s.server with group := g } }.put i slot) :=
  ⟨(hi.group h).put hm, rfl, h.pending⟩

/-- The messages of a reply were published. -/
theorem published_messages {s : System β} {entries : List (StreamId × β)}
    {reclaimed : Bool} (h : ∀ e ∈ entries, s.published.get e.1 = some e.2) :
    ∀ m ∈ messages entries reclaimed, s.published.get m.messageId = some m.fields := by
  intro m hm
  obtain ⟨e, he, rfl⟩ := List.mem_map.mp hm
  exact h e he

/-- A slot that goes on. -/
theorem next_keeps {D : Deployment} {s s' : System β} {i : ℕ} {slot : Slot β} {now : Time}
    (hi : Inv D s) (hslot : slot ∈ s.slots) (h : s.next D i slot now = some s') : Keeps D s s' := by
  have hwaiting := hi.slots slot hslot
  unfold System.next at h
  split at h
  · obtain ⟨hretains, hbody⟩ := claimStale_spec D slot.consumer now slot.claimCursor s.server.group
    cases h
    exact hi.keeps hretains (published_messages fun e he => hi.published (hbody e he))
  · cases h
    refine hi.keeps (.refl _) ?_
    dsimp only
    split <;> simp [SlotPhase.waiting]
  · rename_i m ms thenRead hphase
    rw [hphase] at hwaiting
    cases h
    have hnew : Inv D { s with runs := s.runs ++ [⟨slot.consumer, m, none, false, .locking⟩] } := by
      refine ⟨hi.bodies, hi.retries, hi.slots, fun r hr => ?_⟩
      rcases List.mem_append.mp hr with hr | hr
      · exact hi.runs r hr
      · obtain rfl := List.mem_singleton.mp hr
        exact .of_removes (hwaiting m (List.mem_cons_self ..)) rfl
    exact ⟨hnew.put fun m' hm' => hwaiting m' (List.mem_cons_of_mem _ hm'), rfl, fun _ h => .inl h⟩
  · rename_i ms r thenRead hphase
    rw [hphase] at hwaiting
    split at h
    · cases h
    · split at h
      · cases h
        exact hi.keeps (.refl _) hwaiting
      · cases h
  · have hretains := GroupView.retains_xreadgroup (s := s.server.group) slot.consumer now 1
    cases h
    refine hi.keeps hretains (published_messages fun e he => hi.bodies e ?_)
    exact (List.mem_filter.mp (List.mem_of_mem_take he)).1
  · cases h

/-- A slot whose command raises. -/
theorem fault_keeps {D : Deployment} {s s' : System β} {i : ℕ} {slot : Slot β} {executed : Bool}
    {now : Time} (hi : Inv D s) (h : s.fault D i slot executed now = some s') : Keeps D s s' := by
  unfold System.fault at h
  dsimp only at h
  split at h
  · cases h
  · cases h
    refine hi.keeps ?_ (by simp [SlotPhase.waiting])
    split
    · -- The command of the phase was executed, and its reply is lost.
      split
      · exact (claimStale_spec ..).1
      · exact GroupView.retains_xreadgroup ..
      · exact .refl _
      · exact .refl _
    · exact .refl _

/-- An ID that the server has given keeps its fields. -/
theorem published_insert {published published' : Table StreamId β} {id : StreamId} {fields : β}
    (h : published.insert id fields = some published') {other : StreamId} {b : β}
    (hother : published.get other = some b) : published'.get other = some b := by
  obtain ⟨hfree, hget⟩ := Table.get_of_insert h
  rw [hget, if_neg, hother]
  rintro rfl
  simp [hfree] at hother

/-- Every step is a step of a run, or drops no pending entry with a body. -/
theorem step_cases {D : Deployment} {s s' : System β} {a : Act β} (hi : Inv D s)
    (h : step D s a = some s') :
    (∃ i g r server r' l, a = .run i g ∧ s.runs[i]? = some r ∧
      r.step D s.server g = some (server, r', l) ∧
      s' = { s with server := server, runs := s.runs.set i r', log := s.log ++ l }) ∨
    (∀ i g, a ≠ .run i g) ∧ Keeps D s s' := by
  cases a with
  | run i g =>
    obtain ⟨r, hr, h⟩ := Option.bind_eq_some_iff.mp h
    obtain ⟨⟨server, r', l⟩, hstep, rfl⟩ := Option.map_eq_some_iff.mp h
    exact .inl ⟨i, g, r, server, r', l, rfl, hr, hstep, rfl⟩
  -- A new entry keeps the bodies; the group does not have it yet.
  | publish id fields =>
    refine .inr ⟨by simp, ?_⟩
    obtain ⟨g, hg, h⟩ := Option.bind_eq_some_iff.mp h
    obtain ⟨published, hinsert, rfl⟩ := Option.map_eq_some_iff.mp h
    obtain rfl : { s.server.group with
        entries := s.server.group.entries ++ [(id, fields)], lastId := id } = g := by
      unfold GroupView.xadd at hg
      split at hg
      · exact Option.some.inj hg
      · cases hg
    refine ⟨⟨fun e he => ?_, hi.retries, fun slot hslot m hm => ?_, fun r hr => ?_⟩, rfl,
      fun _ h => .inl h⟩
    · rcases List.mem_append.mp he with he | he
      · exact published_insert hinsert (hi.bodies e he)
      · obtain rfl := List.mem_singleton.mp he
        rw [(Table.get_of_insert hinsert).2, if_pos rfl]
    · exact published_insert hinsert (hi.slots slot hslot m hm)
    · have hrun := hi.runs r hr
      exact ⟨published_insert hinsert hrun.message, hrun.acking, hrun.burying⟩
  -- An evicted body is gone from the stream, and no entry from the pending list.
  | evict gone =>
    obtain rfl := Option.some.inj h
    exact .inr ⟨by simp, ⟨fun e he => hi.bodies e (List.mem_filter.mp he).1, hi.retries, hi.slots,
      hi.runs⟩, rfl, fun _ h => .inl h⟩
  | lockExpires key =>
    obtain rfl := Option.some.inj h
    exact .inr ⟨by simp, ⟨hi.bodies, hi.retries, hi.slots, hi.runs⟩, rfl, fun _ h => .inl h⟩
  | retriesExpire key =>
    obtain rfl := Option.some.inj h
    refine .inr ⟨by simp, ⟨hi.bodies, fun id n hn => ?_, hi.slots, hi.runs⟩, rfl, fun _ h => .inl h⟩
    by_cases hkey : retryStateKey D id = key
    · simp [hkey] at hn
    · simp only [Function.update_of_ne hkey] at hn
      exact hi.retries id n hn
  | openSlot consumer =>
    obtain rfl := Option.some.inj h
    refine .inr ⟨by simp, ⟨hi.bodies, hi.retries, fun slot hslot => ?_, hi.runs⟩, rfl,
      fun _ h => .inl h⟩
    rcases List.mem_append.mp hslot with hslot | hslot
    · exact hi.slots slot hslot
    · obtain rfl := List.mem_singleton.mp hslot
      simp [SlotPhase.waiting]
  -- A slot asks for entries, fails, or waits on.
  | slot i g =>
    refine .inr ⟨by simp, ?_⟩
    simp only [step] at h
    split at h
    · cases h
    · rename_i slot hslot
      split at h
      · exact next_keeps hi (List.mem_of_getElem? hslot) h
      · exact fault_keeps hi h
      · obtain rfl := Option.some.inj h
        exact ⟨hi.put (by simp [SlotPhase.waiting]), rfl, fun _ h => .inl h⟩

/-- The invariant holds in every reachable state. -/
theorem inv_reachable {D : Deployment} {s : System β} (hr : (consumers D).Reachable s) :
    Inv D s := by
  refine hr.invariant (fun s hs => ?_) fun s a s' _ hi h => ?_
  · obtain rfl : s = .initial := hs
    exact ⟨by simp [System.initial], by simp [System.initial], by simp [System.initial],
      by simp [System.initial]⟩
  · obtain ⟨i, g, r, server, r', l, -, hr, hstep, rfl⟩ | ⟨-, hkeeps⟩ := step_cases hi h
    · exact hi.run hr (Run.step_cases hstep)
    · exact hkeeps.inv

/-! ## The guarantee -/

/-- The run has no command left that reaches the stream. -/
def Phase.over : Phase → Bool
  | .leaving | .returned => true
  | .locking | .acquiring _ | .handling | .acking | .counting _ | .burying .. => false

/-- The steps by which a run gives its message up: the handler defers it, the lock has another
holder, or the task is cancelled, as it is when the lease was lost. -/
def GivesUp (s : Server β) (r : Run β) : Go → Prop
  | .handled (.returned result) => result.decision = .defer
  | .call .. => ∃ key, r.phase = .acquiring key ∧ (s.locks key).isSome
  | .cancel => True
  | .lockKey _ | .handled _ | .fault .. | .renew .. => False

/-- A broken run is over. -/
theorem Phase.over_broken (p : Phase) : p.broken.over = true := by
  cases p <;> rfl

/-- The last command of a run gives up its lock. -/
theorem command_over {D : Deployment} {s s' : Server β} {r r' : Run β} {now : Time} {token : String}
    {l : List Record} (hover : r.phase.over) (h : command D s r now token = some (s', r', l)) :
    s'.group = s.group ∧ r'.phase.over := by
  unfold command at h
  split at h <;> rename_i hphase <;> try (simp [hphase, Phase.over] at hover)
  · split at h <;> (cases h; exact ⟨rfl, rfl⟩)
  · cases h

/-- A run that gives its message up, or has ended, leaves the group alone and is over. -/
theorem Run.step_over {D : Deployment} {s s' : Server β} {r r' : Run β} {g : Go} {l : List Record}
    (h : r.step D s g = some (s', r', l)) (hg : GivesUp s r g ∨ r.phase.over) :
    s'.group = s.group ∧ r'.phase.over := by
  cases g with
  | lockKey k =>
    simp only [Run.step] at h
    split at h
    · rename_i hphase
      simp [GivesUp, hphase, Phase.over] at hg
    · cases h
  | handled hd =>
    simp only [Run.step] at h
    split at h
    · rename_i hphase
      cases hd with
      | returned result =>
        -- A message is given up by a decision to defer, and by no exception here.
        have hdefer : result.decision = .defer := by
          simpa [GivesUp, hphase, Phase.over] using hg
        cases h
        exact ⟨rfl, by simp [Run.goto, afterHandle, hdefer, Phase.over]⟩
      | permanent message => simp [GivesUp, hphase, Phase.over] at hg
      | raised typeName message => simp [GivesUp, hphase, Phase.over] at hg
    · cases h
  | call now token =>
    -- A message whose key is locked is given up by the next call.
    obtain ⟨key, hphase, hlocked⟩ | hover := hg
    · obtain ⟨holder, hholder⟩ := Option.isSome_iff_exists.mp hlocked
      simp only [Run.step, command, hphase, hholder] at h
      cases h
      exact ⟨rfl, rfl⟩
    · exact command_over hover h
  -- A call that breaks ends the run, whether it was executed or not.
  | fault executed now token =>
    obtain ⟨⟨t, u, l'⟩, hcommand, heq⟩ := Option.map_eq_some_iff.mp h
    have hover : r.phase.over := by simpa [GivesUp] using hg
    cases executed with
    | true =>
      cases heq
      exact ⟨(command_over hover hcommand).1, r.phase.over_broken⟩
    | false =>
      cases heq
      exact ⟨rfl, r.phase.over_broken⟩
  | renew now lost =>
    have hover : r.phase.over := by simpa [GivesUp] using hg
    simp only [Run.step] at h
    split at h
    · rename_i hleased
      cases hphase : r.phase <;> simp [hphase, Phase.over, Phase.leased] at hover hleased
    · cases h
  | cancel =>
    simp only [Run.step] at h
    split at h
    · cases h
    · cases h
      exact ⟨rfl, r.phase.over_broken⟩

/-- What a step guarantees. -/
structure StepGuarantee (D : Deployment) (s s' : System β) (a : Act β) : Prop where
  /-- An entry leaves the pending list after a decision `ACK` for it, together with a dead letter
  that carries its ID and its fields, or because its body is gone. -/
  removed : ∀ id, s.server.group.Pending id → ¬ s'.server.group.Pending id →
    .decided id .ack ∈ s.log ∨
      (∃ d, s'.server.deadLetters = s.server.deadLetters ++ [d] ∧ d.sourceMessageId = idText id ∧
        s.published.get id = some d.fields) ∨
      s.server.group.body id = none
  /-- A run that gives its message up leaves the group alone, then and for good. -/
  givenUp : ∀ i r g, a = .run i g → s.runs[i]? = some r → GivesUp s.server r g ∨ r.phase.over →
    s'.server.group = s.server.group ∧ ∃ r', s'.runs[i]? = some r' ∧ r'.phase.over
  /-- A renewal drops no entry with a body, also when the lease is lost. -/
  renewed : ∀ i now lost, a = .run i (.renew now lost) → ∀ id, s.server.group.Pending id →
    s'.server.group.Pending id ∨ s.server.group.body id = none
  /-- A dead letter of the retry path comes after enough counted retries: they are counted under the
  retry key of the message, and are its own when no other message has that key. -/
  exhausted : ∀ d, s'.server.deadLetters = s.server.deadLetters ++ [d] → d.retryAttempts ≠ 0 →
    ∃ id, d.sourceMessageId = idText id ∧
      D.settings.maxRetryAttempts ≤ countedRetries D s.log id ∧
      ((∀ other, .counted other ∈ s.log → retryStateKey D other = retryStateKey D id → other = id) →
        D.settings.maxRetryAttempts ≤ s.log.count (.counted id))

/-- What the steps of a run remove. -/
theorem RunStep.removed {D : Deployment} {s : System β} {server : Server β} {r r' : Run β}
    {l : List Record} (h : RunStep D s.server r server r' l) (hr : RunInv D s.published s.log r)
    {id : StreamId} (hid : s.server.group.Pending id) (hgone : ¬ server.group.Pending id) :
    .decided id .ack ∈ s.log ∨
      (∃ d, server.deadLetters = s.server.deadLetters ++ [d] ∧ d.sourceMessageId = idText id ∧
        s.published.get id = some d.fields) ∨
      s.server.group.body id = none := by
  -- An `XACK` takes off the message of the run only.
  have hown : ¬ (s.server.group.xack r.message.messageId).Pending id →
      id = r.message.messageId := by
    intro h
    by_contra hne
    exact h ((GroupView.pending_xack _ _).mpr ⟨hne, hid⟩)
  cases h with
  | quiet => exact absurd hid hgone
  | decided => exact absurd hid hgone
  | rejected => exact absurd hid hgone
  | counted => exact absurd hid hgone
  | acked hp =>
    obtain rfl := hown hgone
    exact .inl (hr.acking hp)
  | buried hp =>
    obtain rfl := hown hgone
    exact .inr (.inl ⟨_, rfl, rfl, hr.message⟩)
  | renewed hretains =>
    obtain hkept | hbody := hretains.pending id hid
    · exact absurd hkept hgone
    · exact .inr (.inr hbody)

/-- What the dead letters of a run stand for. -/
theorem RunStep.exhausted {D : Deployment} {s : System β} {server : Server β} {r r' : Run β}
    {l : List Record} (h : RunStep D s.server r server r' l) (hr : RunInv D s.published s.log r)
    {d : DeadLetter β} (hd : server.deadLetters = s.server.deadLetters ++ [d])
    (hn : d.retryAttempts ≠ 0) :
    d.sourceMessageId = idText r.message.messageId ∧
      D.settings.maxRetryAttempts ≤ countedRetries D s.log r.message.messageId := by
  have hsame : server.deadLetters ≠ s.server.deadLetters := by
    rw [hd]
    simp
  cases h with
  | quiet => exact absurd rfl hsame
  | decided => exact absurd rfl hsame
  | rejected => exact absurd rfl hsame
  | counted => exact absurd rfl hsame
  | acked => exact absurd rfl hsame
  | renewed => exact absurd rfl hsame
  | buried hp =>
    obtain rfl := List.singleton_inj.mp (List.append_cancel_left hd)
    obtain ⟨hmax, hcounted⟩ := hr.burying _ _ _ hp hn
    exact ⟨rfl, Nat.le_trans hmax hcounted⟩

/-- No step of any process drops a message silently. -/
theorem never_dropped (D : Deployment) (s s' : System β) (a : Act β)
    (hr : (consumers D).Reachable s) (h : step D s a = some s') : StepGuarantee D s s' a := by
  have hi := inv_reachable hr
  obtain ⟨i, g, r, server, r', l, rfl, hrun, hstep, rfl⟩ | ⟨hother, hkeeps⟩ := step_cases hi h
  · have hinv := hi.runs r (List.mem_of_getElem? hrun)
    have hcase := Run.step_cases hstep
    have hlt : i < s.runs.length := (List.getElem?_eq_some_iff.mp hrun).1
    refine ⟨fun id hid hgone => hcase.removed hinv hid hgone, ?_, ?_, ?_⟩
    · intro j u g' heq hu hg
      obtain ⟨rfl, rfl⟩ := Act.run.inj heq
      obtain rfl := Option.some.inj (hrun.symm.trans hu)
      obtain ⟨hgroup, hover⟩ := Run.step_over hstep hg
      exact ⟨hgroup, r', by simp [hlt], hover⟩
    · intro j now lost heq id hid
      obtain ⟨rfl, rfl⟩ := Act.run.inj heq
      simp only [Run.step] at hstep
      split at hstep
      · cases hstep
        exact (GroupView.retains_xclaim ..).pending id hid
      · cases hstep
    · intro d hd hn
      obtain ⟨hsource, hmax⟩ := hcase.exhausted hinv hd hn
      exact ⟨_, hsource, hmax, fun hown => countedRetries_own hown ▸ hmax⟩
  · refine ⟨fun id hid hgone => ?_, fun i r g heq => absurd heq (hother i g),
      fun i now lost heq => absurd heq (hother i _), fun d hd => ?_⟩
    · obtain hkept | hbody := hkeeps.pending id hid
      · exact absurd hkept hgone
      · exact .inr (.inr hbody)
    · rw [hkeeps.deadLetters] at hd
      simp at hd

namespace Sample

/-- A deployment for runs on concrete inputs. -/
def deployment : Deployment where
  settings := {
    stream := "events", group := "workers", claimIdleMilliseconds := 30000, claimBatchSize := 10
    deadLetterStream := some "dlq", maxRetryAttempts := 5, retryKeyPrefix := "retries"
    redisStreamMode := .compat, claimIdle_pos := by decide, claimBatchSize_range := by decide
    maxRetryAttempts_pos := by decide }
  sha256 := id
  dropsDeleted := false

/-- A run that publishes an entry, reads it and calls the handler, which returns `ACK`. -/
def handledRun : List (Act String) :=
  [.publish (toLex (1, 0)) "fields", .openSlot "consumer-0", .slot 0 (.next 0), .slot 0 (.next 0),
    .slot 0 (.next 1), .slot 0 (.next 1), .run 0 (.lockKey .none),
    .run 0 (.handled (.returned ⟨.ack, "succeeded", none, none⟩))]

end Sample

/-- The guarantee at the acknowledgement that follows: the entry leaves the pending list, and the
decision is in the log. -/
theorem never_dropped_handled :
    ∃ s s', (consumers Sample.deployment).run .initial Sample.handledRun =
    some s ∧ step Sample.deployment s (.run 0 (.call 2 "")) = some s' ∧
    s.server.group.Pending (toLex (1, 0)) ∧ ¬ s'.server.group.Pending (toLex (1, 0)) ∧
    StepGuarantee Sample.deployment s s' (.run 0 (.call 2 "")) := by
  have hinit : (consumers Sample.deployment).init (.initial : System String) := rfl
  have hrun : (consumers Sample.deployment).run .initial Sample.handledRun = some _ := rfl
  refine ⟨_, _, rfl, rfl, by decide, by decide, ?_⟩
  exact never_dropped _ _ _ _ (.run (.start hinit) hrun) rfl

end ExAgent.Worker.RedisStreamConsumer
