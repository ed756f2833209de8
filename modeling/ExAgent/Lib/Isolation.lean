import ExAgent.Lib.Locking

/-!
# Isolation between the callers of a server

When can a caller of a server tell that others use it too? A side of the server is given by the
states it cannot tell apart (`same`) and the rows that belong to it (`mine`), in the states that
occur (`inv`). A transaction is `Local` to the side when what it does depends only on what the side
can see, and `Foreign` to it when it locks none of its rows and its commit changes nothing that the
side can see.

`Server.isolated` compares two runs: the calls of the side answer the same, and leave a state that
looks the same, when the calls of everyone else are taken out of the run. The comparison is
statement by statement, so it also covers transactions that overlap.
-/

namespace ExAgent.Lib

namespace Txn

variable {σ τ κ ρ α β : Type}

/-- A transaction on a part of a larger state. Its caller goes on with `next` when it ends without
writes; a commit is the end, with the result `done`. -/
def within (get : τ → σ) (put : τ → σ → τ) (done : α → β) (next : α → Txn τ κ ρ β) :
    Txn σ κ ρ α → Txn τ κ ρ β
  | .ret a => next a
  | .select more => .select fun t => (more (get t)).within get put done next
  | .lock k more => .lock k fun r => (more r).within get put done next
  | .commit write a violated =>
    .commit (fun t => (write (get t)).map (put t)) (done a) (violated.within get put done next)

/-- What one side of a database is: the states it cannot tell apart, the rows that belong to it, and
the states that occur. -/
structure View (σ κ : Type) where
  same : σ → σ → Prop
  mine : κ → Prop
  inv : σ → Prop

variable (V : View σ κ) (row : σ → κ → Option ρ)

/-- A write does the same in states that cannot be told apart. -/
def View.Respects (write : σ → Option σ) : Prop :=
  ∀ s s', V.inv s → V.inv s' → V.same s s' → (write s = none → write s' = none) ∧
    ∀ t, write s = some t → ∃ t', write s' = some t' ∧ V.same t t'

/-- A write cannot be seen. -/
def View.Hides (write : σ → Option σ) : Prop := ∀ s t, V.inv s → write s = some t → V.same s t

/-- A write leads to states that occur. -/
def View.Keeps (write : σ → Option σ) : Prop := ∀ s t, V.inv s → write s = some t → V.inv t

/-- A transaction of the side: what it reads, locks and writes depends on what the side can see. -/
def Local : Txn σ κ ρ α → Prop
  | .ret _ => True
  | .select next =>
    (∀ s s', V.inv s → V.inv s' → V.same s s' → next s = next s') ∧ ∀ s, V.inv s → (next s).Local
  | .lock k next => V.mine k ∧ ∀ s, V.inv s → (next (row s k)).Local
  | .commit write _ violated => V.Respects write ∧ V.Keeps write ∧ violated.Local

/-- A transaction of someone else: it locks no row of the side, and the side cannot see its
commit. -/
def Foreign : Txn σ κ ρ α → Prop
  | .ret _ => True
  | .select next => ∀ s, V.inv s → (next s).Foreign
  | .lock k next => ¬ V.mine k ∧ ∀ s, V.inv s → (next (row s k)).Foreign
  | .commit write _ violated => V.Hides write ∧ V.Keeps write ∧ violated.Foreign

end Txn

namespace Server

variable {σ κ ρ ι α : Type}

/-- A side of a server: its view, and its calls. -/
structure Side (σ κ : Type) extends Txn.View σ κ where
  calls : ℕ → Bool

variable {W : Workload σ κ ρ ι α} {side : Side σ κ}

/-- The side sees the rows that belong to it, and `same` is an equivalence. -/
structure Side.Proper (W : Workload σ κ ρ ι α) (side : Side σ κ) : Prop where
  refl : ∀ s, side.same s s
  trans : ∀ s t u, side.same s t → side.same t u → side.same s u
  symm : ∀ s t, side.same s t → side.same t s
  row : ∀ s s' k, side.same s s' → side.mine k → W.row s k = W.row s' k

/-- Every call of the side is local to it, and every other call is foreign. -/
def Side.Allows (W : Workload σ κ ρ ι α) (side : Side σ κ) : Act ι → Prop
  | .begin id op =>
    (side.calls id = true → (W.program op).Local side.toView W.row) ∧
      (side.calls id = false → (W.program op).Foreign side.toView W.row)
  | _ => True

/-- A server with all its calls, and one with the calls of the side only. -/
structure Alike (W : Workload σ κ ρ ι α) (side : Side σ κ) (s s' : Server σ κ ρ ι α) : Prop where
  /-- The side cannot tell the databases apart. -/
  db : side.same s.db s'.db
  /-- The first database is one that occurs. -/
  occurs : side.inv s.db
  /-- So is the second. -/
  occurs' : side.inv s'.db
  /-- Its calls are where they are. -/
  own : ∀ id, side.calls id = true → s'.calls.get id = s.calls.get id
  /-- The other calls are not there. -/
  gone : ∀ id, side.calls id = false → s'.calls.get id = none
  /-- A call of the side stays local. -/
  isLocal : ∀ id op held rest, side.calls id = true →
    s.calls.get id = some ⟨op, .running held rest⟩ → rest.Local side.toView W.row
  /-- A call of someone else stays foreign. -/
  isForeign : ∀ id op held rest, side.calls id = false →
    s.calls.get id = some ⟨op, .running held rest⟩ → rest.Foreign side.toView W.row

section Locked

variable [DecidableEq κ]

/-- A row that no other call holds is not locked when there are fewer calls. -/
theorem Alike.not_locked {s s' : Server σ κ ρ ι α} (h : Alike W side s s') {id : ℕ} {k : κ}
    (hfree : s.isLockedByOther id k = false) : s'.isLockedByOther id k = false := by
  unfold isLockedByOther at hfree ⊢
  rw [List.any_eq_false] at hfree ⊢
  rintro ⟨i, c⟩ he
  have hc := Table.mem_entries_iff.mp he
  cases hside : side.calls i with
  | false => simp [h.gone i hside] at hc
  | true =>
    rw [h.own i hside] at hc
    exact hfree (i, c) (Table.mem_entries_iff.mpr hc)

end Locked

/-- A call of the side moves in both servers, to the same place. -/
theorem Alike.put {s s' : Server σ κ ρ ι α} (h : Alike W side s s') {id : ℕ}
    (hside : side.calls id = true) {p : Progress σ κ ρ α}
    (hp : ∀ held rest, p = .running held rest → rest.Local side.toView W.row) :
    Alike W side (s.put id p) (s'.put id p) where
  db := h.db
  occurs := h.occurs
  occurs' := h.occurs'
  own i hi := by simp only [get_put, h.own i hi]
  gone i hi := by
    have hne : i ≠ id := by
      rintro rfl
      simp [hside] at hi
    simp [hne, h.gone i hi]
  isLocal i op held rest hi hc := by
    rw [get_put] at hc
    split at hc
    · obtain ⟨c, -, hc⟩ := Option.map_eq_some_iff.mp hc
      exact hp held rest (congrArg Call.progress hc)
    · exact h.isLocal i op held rest hi hc
  isForeign i op held rest hi hc := by
    have hne : i ≠ id := by
      rintro rfl
      simp [hside] at hi
    exact h.isForeign i op held rest hi (by simpa [hne] using hc)

/-- A call of someone else moves, in the one server that has it. -/
theorem Alike.putOther {s s' : Server σ κ ρ ι α} (h : Alike W side s s') {id : ℕ}
    (hside : side.calls id = false) {p : Progress σ κ ρ α}
    (hp : ∀ held rest, p = .running held rest → rest.Foreign side.toView W.row) :
    Alike W side (s.put id p) s' where
  db := h.db
  occurs := h.occurs
  occurs' := h.occurs'
  own i hi := by
    have hne : i ≠ id := by
      rintro rfl
      simp [hside] at hi
    simp [hne, h.own i hi]
  gone := h.gone
  isLocal i op held rest hi hc := by
    have hne : i ≠ id := by
      rintro rfl
      simp [hside] at hi
    exact h.isLocal i op held rest hi (by simpa [hne] using hc)
  isForeign i op held rest hi hc := by
    rw [get_put] at hc
    split at hc
    · obtain ⟨c, -, hc⟩ := Option.map_eq_some_iff.mp hc
      exact hp held rest (congrArg Call.progress hc)
    · exact h.isForeign i op held rest hi hc

/-- The side's view after a commit. -/
theorem Alike.withDb {s s' : Server σ κ ρ ι α} (h : Alike W side s s') {db db' : σ}
    {history history' : List (Entry ι α)} (hdb : side.same db db') (hocc : side.inv db)
    (hocc' : side.inv db') :
    Alike W side { s with db, history } { s' with db := db', history := history' } :=
  ⟨hdb, hocc, hocc', h.own, h.gone, h.isLocal, h.isForeign⟩

/-- A server without calls is like itself. -/
theorem Alike.initial (hproper : side.Proper W) {db : σ} (hocc : side.inv db) :
    Alike W side ({ db } : Server σ κ ρ ι α) { db } where
  db := hproper.refl db
  occurs := hocc
  occurs' := hocc
  own _ _ := rfl
  gone _ _ := Table.get_empty _
  isLocal i op held rest _ hc := by simp [Table.get_empty] at hc
  isForeign i op held rest _ hc := by simp [Table.get_empty] at hc

variable [DecidableEq κ]

/-- A step of someone else is not seen by the side. -/
theorem Alike.other {s s' t : Server σ κ ρ ι α} (hproper : side.Proper W) (h : Alike W side s s')
    {a : Act ι} (hallows : side.Allows W a) (hside : side.calls a.call = false)
    (hstep : step W s a = some t) : Alike W side t s' := by
  cases step_cases hstep with
  -- A call that begins is not one of the side's own.
  | @began id op calls hadmits hc =>
    obtain ⟨hnone, hget⟩ := Table.get_of_insert hc
    refine ⟨h.db, h.occurs, h.occurs', fun i hi => ?_, h.gone, fun i op' held rest hi hrun => ?_,
      fun i op' held rest hi hrun => ?_⟩
    · have hne : i ≠ id := by
        rintro rfl
        exact absurd (hi.symm.trans hside) (by decide)
      rw [h.own i hi]
      simp [hget, hne]
    · have hne : i ≠ id := by
        rintro rfl
        exact absurd (hi.symm.trans hside) (by decide)
      exact h.isLocal i op' held rest hi (by simpa [hget, hne] using hrun)
    · replace hrun : calls.get i = some ⟨op', .running held rest⟩ := hrun
      rw [hget] at hrun
      split at hrun
      · obtain ⟨rfl, hp⟩ := Call.mk.inj (Option.some.inj hrun)
        obtain ⟨-, rfl⟩ := Progress.running.inj hp
        exact hallows.2 hside
      · exact h.isForeign i op' held rest hi hrun
  | lost hc => exact h.putOther hside fun held rest hp => by cases hp
  | ended hc => exact h.putOther hside fun held rest hp => by cases hp
  | selected hc =>
    have hforeign := h.isForeign _ _ _ _ hside hc
    refine h.putOther hside fun held rest hp => ?_
    obtain ⟨-, rfl⟩ := Progress.running.inj hp
    exact hforeign s.db h.occurs
  | locked hc hfree =>
    have hforeign := h.isForeign _ _ _ _ hside hc
    refine h.putOther hside fun held rest hp => ?_
    obtain ⟨-, rfl⟩ := Progress.running.inj hp
    exact hforeign.2 s.db h.occurs
  | refused hc hw =>
    have hforeign := h.isForeign _ _ _ _ hside hc
    refine h.putOther hside fun held rest hp => ?_
    obtain ⟨-, rfl⟩ := Progress.running.inj hp
    exact hforeign.2.2
  -- A commit of someone else writes what the side does not see.
  | @committed id op held write a violated db hc hw =>
    have hforeign := h.isForeign _ _ _ _ hside hc
    have hmoved : Alike W side (s.put id (.ended a)) s' :=
      h.putOther hside fun held rest hp => by cases hp
    exact hmoved.withDb (hproper.trans _ _ _ (hproper.symm _ _ (hforeign.1 _ _ h.occurs hw)) h.db)
      (hforeign.2.1 _ _ h.occurs hw) h.occurs'

/-- A step of the side is possible without the others too, and has the same effect. -/
theorem Alike.same_step {s s' t : Server σ κ ρ ι α} (hproper : side.Proper W)
    (hadmits : ∀ history op, W.admits history op = true) (h : Alike W side s s') {a : Act ι}
    (hallows : side.Allows W a) (hside : side.calls a.call = true)
    (hstep : step W s a = some t) : ∃ t', step W s' a = some t' ∧ Alike W side t t' := by
  cases step_cases hstep with
  -- The call begins here and there.
  | @began id op calls _ hc =>
    obtain ⟨hnone, hget⟩ := Table.get_of_insert hc
    obtain ⟨calls', hc'⟩ := Table.insert_of_get_none ((h.own id hside).trans hnone)
      (⟨op, .running [] (W.program op)⟩ : Call σ κ ρ ι α)
    obtain ⟨-, hget'⟩ := Table.get_of_insert hc'
    refine ⟨{ s' with calls := calls' }, ?_, h.db, h.occurs, h.occurs', fun i hi => ?_,
      fun i hi => ?_, fun i op' held rest hi hrun => ?_, fun i op' held rest hi hrun => ?_⟩
    · simp [step, hadmits, hc']
    · simp only [hget, hget', h.own i hi]
    · have hne : i ≠ id := by
        rintro rfl
        exact absurd (hi.symm.trans hside) (by decide)
      simp [hget', hne, h.gone i hi]
    · replace hrun : calls.get i = some ⟨op', .running held rest⟩ := hrun
      rw [hget] at hrun
      split at hrun
      · obtain ⟨rfl, hp⟩ := Call.mk.inj (Option.some.inj hrun)
        obtain ⟨-, rfl⟩ := Progress.running.inj hp
        exact hallows.1 hside
      · exact h.isLocal i op' held rest hi hrun
    · have hne : i ≠ id := by
        rintro rfl
        exact absurd (hi.symm.trans hside) (by decide)
      exact h.isForeign i op' held rest hi (by simpa [hget, hne] using hrun)
  | @lost id op held rest hc =>
    refine ⟨s'.put id .lost, ?_, h.put hside fun held rest hp => by cases hp⟩
    simp [step, h.own id hside, hc]
  | @ended id op held a hc =>
    refine ⟨s'.put id (.ended a), ?_, h.put hside fun held rest hp => by cases hp⟩
    simp [step, h.own id hside, hc, advance]
  -- It reads the same of its own side.
  | @selected id op held next hc =>
    obtain ⟨hsame, hlocal⟩ := h.isLocal _ _ _ _ hside hc
    refine ⟨s'.put id (.running held (next s.db)), ?_, h.put hside fun held rest hp => ?_⟩
    · simp [step, h.own id hside, hc, advance, hsame _ _ h.occurs h.occurs' h.db]
    · obtain ⟨-, rfl⟩ := Progress.running.inj hp
      exact hlocal s.db h.occurs
  -- It finds the same row, and the lock free.
  | @locked id op held k next hc hfree =>
    obtain ⟨hmine, hlocal⟩ := h.isLocal _ _ _ _ hside hc
    have hrow := hproper.row _ _ k h.db hmine
    refine ⟨s'.put id (.running (Txn.acquire W.row s.db k held) (next (W.row s.db k))), ?_,
      h.put hside fun held rest hp => ?_⟩
    · simp [step, h.own id hside, hc, advance, h.not_locked hfree, Txn.acquire, hrow]
    · obtain ⟨-, rfl⟩ := Progress.running.inj hp
      exact hlocal s.db h.occurs
  | @refused id op held write a violated hc hw =>
    obtain ⟨hrespects, -, hlocal⟩ := h.isLocal _ _ _ _ hside hc
    have hw' := (hrespects _ _ h.occurs h.occurs' h.db).1 hw
    refine ⟨s'.put id (.running [] violated), ?_, h.put hside fun held rest hp => ?_⟩
    · simp [step, h.own id hside, hc, advance, hw']
    · obtain ⟨-, rfl⟩ := Progress.running.inj hp
      exact hlocal
  -- It writes the same into its own side, and the others' part stays.
  | @committed id op held write a violated db hc hw =>
    obtain ⟨hrespects, hkeeps, -⟩ := h.isLocal _ _ _ _ hside hc
    obtain ⟨db', hw', hsame⟩ := (hrespects _ _ h.occurs h.occurs' h.db).2 db hw
    have hmoved : Alike W side (s.put id (.ended a)) (s'.put id (.ended a)) :=
      h.put hside fun held rest hp => by cases hp
    refine ⟨{ s'.put id (.ended a) with db := db', history := s'.history ++ [⟨id, op, a⟩] }, ?_,
      hmoved.withDb hsame (hkeeps _ _ h.occurs hw) (hkeeps _ _ h.occurs' hw')⟩
    simp [step, h.own id hside, hc, advance, hw']

/-- Two runs: with everyone, and with the calls of the side only. -/
theorem isolated {init : σ → Prop} (hproper : side.Proper W)
    (hadmits : ∀ history op, W.admits history op = true) {s s' t : Server σ κ ρ ι α}
    {actions : List (Act ι)} (h : Alike W side s s') (hallows : ∀ a ∈ actions, side.Allows W a)
    (hrun : (machine W init).run s actions = some t) :
    ∃ t', (machine W init).run s' (actions.filter fun a => side.calls a.call) = some t' ∧
      Alike W side t t' := by
  induction actions generalizing s s' with
  | nil =>
    obtain rfl : s = t := by simpa [Machine.run] using hrun
    exact ⟨s', rfl, h⟩
  | cons a actions ih =>
    obtain ⟨u, hu, hrest⟩ := Option.bind_eq_some_iff.mp hrun
    have ha := hallows a List.mem_cons_self
    have hactions := fun b hb => hallows b (List.mem_cons_of_mem a hb)
    cases hside : side.calls a.call with
    | false =>
      rw [List.filter_cons_of_neg (by simp [hside])]
      exact ih (h.other hproper ha hside hu) hactions hrest
    | true =>
      obtain ⟨u', hu', halike⟩ := h.same_step hproper hadmits ha hside hu
      obtain ⟨t', ht', hend⟩ := ih halike hactions hrest
      rw [List.filter_cons_of_pos (by simp [hside])]
      exact ⟨t', Option.bind_eq_some_iff.mpr ⟨u', hu', ht'⟩, hend⟩

end Server

end ExAgent.Lib
