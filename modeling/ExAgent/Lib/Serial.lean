import ExAgent.Lib.Locking

/-!
# Serializable transactions

A transaction that holds what it reads, or reads what nobody changes, takes effect at one moment:
its result is the one that its program run alone would have then, and so is what it leaves.
`Txn.Serial` is the proof obligation for a transaction, statement by statement, in the manner of
`Txn.Safe`: what is known after each statement is kept by the commits of others, and at the end it
determines what the whole program does. `Server.takesEffect` says of every call of a run that has
ended when that moment was.
-/

namespace ExAgent.Lib

variable {σ κ ρ ι α : Type}

/-- The contract of a transaction that ends as `whole` does, run in one step: what is left of it has
the commits `own`, and every end is that of `whole`. A commit that is refused ends the call. -/
def Txn.Serial (row : σ → κ → Option ρ) (rely : List κ → σ → σ → Prop)
    (own : List κ → α → σ → σ → Prop) (whole : σ → α × σ) :
    Txn σ κ ρ α → List κ → (σ → Prop) → Prop
  | .ret a, _, P => ∀ s, P s → whole s = (a, s)
  | .select next, held, P =>
    ∀ s, P s → ∃ Q, Stable rely held Q ∧ Q s ∧ (next s).Serial row rely own whole held Q
  | .lock k next, held, P =>
    ∀ s, P s → ∃ Q, Stable rely (acquire row s k held) Q ∧ Q s ∧
      (next (row s k)).Serial row rely own whole (acquire row s k held) Q
  | .commit write a violated, held, P =>
    ∀ s, P s → (∀ s', write s = some s' → own held a s s' ∧ whole s = (a, s')) ∧
      (write s = none → ∃ e, violated = .ret e ∧ whole s = (e, s))

namespace Txn

variable {row : σ → κ → Option ρ} {rely : List κ → σ → σ → Prop} {whole : σ → α × σ}
variable {own : List κ → α → σ → σ → Prop} {held : List κ} {P Q : σ → Prop}

/-- It is a contract on the commits. -/
theorem Serial.safe {t : Txn σ κ ρ α} (h : t.Serial row rely own whole held P) :
    t.Safe row rely own held P := by
  induction t generalizing held P with
  | ret a => trivial
  | select next ih =>
    intro s hs
    obtain ⟨Q, hst, hQ, hn⟩ := h s hs
    exact ⟨Q, hst, hQ, ih s hn⟩
  | lock k next ih =>
    intro s hs
    obtain ⟨Q, hst, hQ, hn⟩ := h s hs
    exact ⟨Q, hst, hQ, ih (row s k) hn⟩
  | commit write a violated =>
    intro s hs
    refine ⟨fun s' hw => ((h s hs).1 s' hw).1, fun hw => ?_⟩
    obtain ⟨e, he, -⟩ := (h s hs).2 hw
    rw [he]
    trivial

/-- A read of what others do not change. -/
theorem Serial.select {β : Type} {f : σ → β} {next : β → Txn σ κ ρ α}
    (hP : ∀ b, Stable rely held fun s => P s ∧ f s = b)
    (h : ∀ b, (next b).Serial row rely own whole held fun s => P s ∧ f s = b) :
    (Txn.select fun s => next (f s)).Serial row rely own whole held P :=
  fun s hs => ⟨fun s' => P s' ∧ f s' = f s, hP (f s), ⟨hs, rfl⟩, h (f s)⟩

/-- The lock of a row in the table with the rows `f`. That it is absent has to be kept by others. -/
theorem Serial.lockRow {β : Type} {k : κ} {f : β → ρ} {g : σ → Option β} {p : ρ → Option β}
    {next : Option β → Txn σ κ ρ α} (hf : Frames row rely) (hg : ∀ s, row s k = (g s).map f)
    (hp : ∀ b, p (f b) = some b) (hP : Stable rely held P)
    (hnone : Stable rely held fun s => P s ∧ g s = none)
    (hthere : ∀ b, (next (some b)).Serial row rely own whole (k :: held) fun s =>
      P s ∧ g s = some b)
    (habsent : (next none).Serial row rely own whole held fun s => P s ∧ g s = none) :
    (Txn.lock k fun r => next (r.bind p)).Serial row rely own whole held P := by
  intro s hs
  cases hr : g s with
  | none =>
    have hrow : row s k = none := by rw [hg, hr]; rfl
    refine ⟨fun s => P s ∧ g s = none, ?_, ⟨hs, hr⟩, ?_⟩
    · simpa only [acquire, hrow] using hnone
    · simp only [acquire, hrow]
      exact habsent
  | some b =>
    have hrow : row s k = some (f b) := by rw [hg, hr]; rfl
    have hkept : Stable rely (k :: held) fun s => P s ∧ g s = some b := by
      intro s s' held' h hd hm
      refine ⟨hP s s' held' h.1 (fun j hj => hd j (List.mem_cons_of_mem _ hj)) hm, ?_⟩
      have hthen : row s' k = some (f b) :=
        hf held' s s' hm k (hd k List.mem_cons_self) _ (by rw [hg, h.2]; rfl)
      rw [hg] at hthen
      obtain ⟨b', hb', hfb⟩ := Option.map_eq_some_iff.mp hthen
      have hb : some b' = some b := by rw [← hp b', hfb, hp b]
      rw [hb', hb]
    refine ⟨fun s => P s ∧ g s = some b, ?_, ⟨hs, hr⟩, ?_⟩
    · simpa only [acquire, hrow] using hkept
    · simp only [acquire, hrow]
      rw [Option.bind_some, hp]
      exact hthere b

/-- The rule of a commit whose refusal ends the call. -/
theorem Serial.commit {write : σ → Option σ} {a e : α}
    (hw : ∀ s s', P s → write s = some s' → own held a s s' ∧ whole s = (a, s'))
    (hv : ∀ s, P s → write s = none → whole s = (e, s)) :
    (Txn.commit write a (.ret e)).Serial row rely own whole held P :=
  fun s hs => ⟨fun s' h => hw s s' hs h, fun h => ⟨e, rfl, hv s hs h⟩⟩

end Txn

/-- Every transaction of the workload is serial. -/
structure Workload.IsSerial (W : Workload σ κ ρ ι α) (own : ι → List κ → α → σ → σ → Prop) :
    Prop where
  frames : Txn.Frames W.row (relyOn own)
  serial : ∀ op, (W.program op).Serial W.row (relyOn own) (own op) ((W.program op).exec W.row) []
    fun _ => True

/-- So it keeps its contract. -/
theorem Workload.IsSerial.meets {W : Workload σ κ ρ ι α} {own : ι → List κ → α → σ → σ → Prop}
    (h : W.IsSerial own) : W.Meets own :=
  ⟨h.frames, fun op => (h.serial op).safe⟩

namespace Server

variable [DecidableEq κ] {W : Workload σ κ ρ ι α} {own : ι → List κ → α → σ → σ → Prop}
  {init : σ → Prop} {s s' : Server σ κ ρ ι α}

/-- The call took effect on the way to `s`, in a state in which it was running: its program run
alone has the result there, and leaves the database that its next step leaves, or the one that is
there. -/
def TakesEffect (W : Workload σ κ ρ ι α) (init : σ → Prop) (s : Server σ κ ρ ι α) (id : ℕ) (op : ι)
    (a : α) : Prop :=
  ∃ t db held rest, (machine W init).Reachable t ∧ (machine W init).Leads t s ∧
    t.calls.get id = some ⟨op, .running held rest⟩ ∧ (W.program op).exec W.row t.db = (a, db) ∧
    (db = t.db ∨ ∃ t', (machine W init).step t (.next id) = some t' ∧
      (machine W init).Leads t' s ∧ t'.db = db)

/-- A call that takes effect goes on doing so under every step. -/
theorem TakesEffect.step {id : ℕ} {op : ι} {a : α} {act : Act ι}
    (h : TakesEffect W init s id op a) (hstep : (machine W init).step s act = some s') :
    TakesEffect W init s' id op a := by
  obtain ⟨t, db, held, rest, hr, hl, hc, hexec, hdb⟩ := h
  refine ⟨t, db, held, rest, hr, hl.tail ⟨act, hstep⟩, hc, hexec, hdb.imp_right ?_⟩
  rintro ⟨t', ht', hl', hdb'⟩
  exact ⟨t', ht', hl'.tail ⟨act, hstep⟩, hdb'⟩

/-- Every call will take effect when it ends, or has done so. -/
structure Serialized (W : Workload σ κ ρ ι α) (own : ι → List κ → α → σ → σ → Prop)
    (init : σ → Prop) (s : Server σ κ ρ ι α) : Prop where
  running : ∀ id op held rest, s.calls.get id = some ⟨op, .running held rest⟩ →
    (∃ P, Txn.Stable (relyOn own) held P ∧ P s.db ∧
      rest.Serial W.row (relyOn own) (own op) ((W.program op).exec W.row) held P) ∨
    ∃ a, rest = .ret a ∧ TakesEffect W init s id op a
  ended : ∀ id op a, s.calls.get id = some ⟨op, .ended a⟩ → TakesEffect W init s id op a

/-- A step of another call keeps what a running call knows. -/
theorem kept_of_other (hW : W.Meets own) (hr : (machine W init).Reachable s) {act : Act ι}
    (hstep : (machine W init).step s act = some s') {id : ℕ} {op : ι} {held : List κ}
    {rest : Txn σ κ ρ α} (hc : s.calls.get id = some ⟨op, .running held rest⟩)
    (hother : act.call ≠ id) {P : σ → Prop} (hst : Txn.Stable (relyOn own) held P) (hP : P s.db) :
    P s'.db := by
  cases moved hW hr hstep with
  | quiet hdb _ => exact hdb ▸ hP
  | committed e held' write violated ha hcall hown _ _ =>
    refine hst s.db s'.db held' hP ?_ ⟨e.op, e.result, hown⟩
    have hne : id ≠ e.id := by
      rintro rfl
      exact hother (ha ▸ rfl)
    exact (sound_reachable hW hr).exclusive id e.id _ _ hc hcall hne

omit [DecidableEq κ] in

/-- The call that moves is the only one that a step changes. -/
theorem get_put_ne (s : Server σ κ ρ ι α) {id i : ℕ} (hne : i ≠ id) (p : Progress σ κ ρ α) :
    (s.put id p).calls.get i = s.calls.get i := by
  rw [get_put, if_neg hne]

/-- Every reachable state is serialized. -/
theorem serialized_reachable (hW : W.IsSerial own) (hr : (machine W init).Reachable s) :
    Serialized W own init s := by
  induction hr with
  | start hs =>
    obtain ⟨db, -, rfl⟩ := hs
    exact ⟨fun id op held rest hc => by simp at hc, fun id op a hc => by simp at hc⟩
  | @next s s' act hr _ hstep ih =>
    replace hr : (machine W init).Reachable s := hr
    -- The calls that do not move.
    have hstay : ∀ id op p, act.call ≠ id → s.calls.get id = some ⟨op, p⟩ →
        (∀ held rest, p = .running held rest →
          (∃ P, Txn.Stable (relyOn own) held P ∧ P s'.db ∧
            rest.Serial W.row (relyOn own) (own op) ((W.program op).exec W.row) held P) ∨
          ∃ a, rest = .ret a ∧ TakesEffect W init s' id op a) ∧
        ∀ a, p = .ended a → TakesEffect W init s' id op a := by
      intro id op p hne hc
      constructor
      · rintro held rest rfl
        rcases ih.running id op held rest hc with ⟨P, hst, hP, hserial⟩ | ⟨a, ha, htakes⟩
        · exact .inl ⟨P, hst, kept_of_other hW.meets hr hstep hc hne hst hP, hserial⟩
        · exact .inr ⟨a, ha, htakes.step hstep⟩
      · rintro a rfl
        exact (ih.ended id op a hc).step hstep
    -- The call that moves, by where it is afterwards.
    have hmove : ∀ (i : ℕ) (q : Progress σ κ ρ α) (db : σ) (history : List (Entry ι α)) op p,
        act.call = i → s.calls.get i = some ⟨op, p⟩ →
        s' = { s.put i q with db, history } →
        (∀ held rest, q = .running held rest →
          (∃ P, Txn.Stable (relyOn own) held P ∧ P s'.db ∧
            rest.Serial W.row (relyOn own) (own op) ((W.program op).exec W.row) held P) ∨
          ∃ a, rest = .ret a ∧ TakesEffect W init s' i op a) →
        (∀ a, q = .ended a → TakesEffect W init s' i op a) → Serialized W own init s' := by
      intro i q db history op p hact hi hs' hrun hend
      have hget : ∀ j, s'.calls.get j = (s.put i q).calls.get j := by rw [hs']; exact fun _ => rfl
      have hmine : (s.put i q).calls.get i = some ⟨op, q⟩ := by
        rw [get_put, if_pos rfl, hi]
        rfl
      constructor
      · intro id op' held rest hc
        rw [hget] at hc
        by_cases hid : id = i
        · obtain rfl := hid
          obtain ⟨rfl, hq⟩ := Call.mk.inj (Option.some.inj (hmine.symm.trans hc))
          exact hrun held rest hq
        · rw [get_put_ne s hid] at hc
          exact (hstay id op' _ (hact ▸ Ne.symm hid) hc).1 held rest rfl
      · intro id op' a hc
        rw [hget] at hc
        by_cases hid : id = i
        · obtain rfl := hid
          obtain ⟨rfl, hq⟩ := Call.mk.inj (Option.some.inj (hmine.symm.trans hc))
          exact hend a hq
        · rw [get_put_ne s hid] at hc
          exact (hstay id op' _ (hact ▸ Ne.symm hid) hc).2 a rfl
    cases step_cases hstep with
    | @began i op calls hadmits hi =>
      obtain ⟨-, hget⟩ := Table.get_of_insert hi
      constructor
      · intro id op' held rest hc
        replace hc : calls.get id = some ⟨op', .running held rest⟩ := hc
        rw [hget] at hc
        by_cases hid : id = i
        · rw [if_pos hid] at hc
          obtain ⟨rfl, hrun⟩ := Call.mk.inj (Option.some.inj hc)
          obtain ⟨rfl, rfl⟩ := Progress.running.inj hrun
          exact .inl ⟨fun _ => True, Txn.Stable.true, trivial, hW.serial op⟩
        · rw [if_neg hid] at hc
          exact (hstay id op' _ (Ne.symm hid) hc).1 held rest rfl
      · intro id op' a hc
        replace hc : calls.get id = some ⟨op', .ended a⟩ := hc
        rw [hget] at hc
        by_cases hid : id = i
        · rw [if_pos hid] at hc
          exact absurd (Call.mk.inj (Option.some.inj hc)).2 (by simp)
        · rw [if_neg hid] at hc
          exact (hstay id op' _ (Ne.symm hid) hc).2 a rfl
    | lost hi => exact hmove _ .lost _ _ _ _ rfl hi rfl (by simp) (by simp)
    | @ended i op held a hi =>
      refine hmove i (.ended a) _ _ op _ rfl hi rfl (by simp) fun b hb => ?_
      obtain rfl := Progress.ended.inj hb
      rcases ih.running i op held _ hi with ⟨P, hst, hP, hserial⟩ | ⟨b, hb, htakes⟩
      · exact ⟨s, s.db, held, _, hr, .single ⟨_, hstep⟩, hi, hserial s.db hP, .inl rfl⟩
      · obtain rfl : a = b := by simpa using hb
        exact htakes.step hstep
    | @selected i op held next hi =>
      refine hmove i (.running held (next s.db)) _ _ op _ rfl hi rfl
        (fun held' rest hq => ?_) (by simp)
      obtain ⟨rfl, rfl⟩ := Progress.running.inj hq
      rcases ih.running i op held _ hi with ⟨P, hst, hP, hserial⟩ | ⟨b, hb, -⟩
      · obtain ⟨Q, hQst, hQ, hnext⟩ := hserial s.db hP
        exact .inl ⟨Q, hQst, hQ, hnext⟩
      · exact absurd hb (by simp)
    | @locked i op held k next hi hfree =>
      refine hmove i
        (.running (Txn.acquire W.row s.db k held) (next (W.row s.db k))) _ _ op _ rfl hi
        rfl (fun held' rest hq => ?_) (by simp)
      obtain ⟨rfl, rfl⟩ := Progress.running.inj hq
      rcases ih.running i op held _ hi with ⟨P, hst, hP, hserial⟩ | ⟨b, hb, -⟩
      · obtain ⟨Q, hQst, hQ, hnext⟩ := hserial s.db hP
        exact .inl ⟨Q, hQst, hQ, hnext⟩
      · exact absurd hb (by simp)
    | @refused i op held write a violated hi hw =>
      refine hmove i (.running [] violated) _ _ op _ rfl hi rfl (fun held' rest hq => ?_) (by simp)
      obtain ⟨rfl, rfl⟩ := Progress.running.inj hq
      rcases ih.running i op held _ hi with ⟨P, hst, hP, hserial⟩ | ⟨b, hb, -⟩
      · obtain ⟨e, he, hexec⟩ := (hserial s.db hP).2 hw
        exact .inr ⟨e, he, s, s.db, held, _, hr, .single ⟨_, hstep⟩, hi, hexec, .inl rfl⟩
      · exact absurd hb (by simp)
    | @committed i op held write a violated db hi hw =>
      refine hmove i (.ended a) db _ op _ rfl hi rfl (by simp) fun b hb => ?_
      obtain rfl := Progress.ended.inj hb
      rcases ih.running i op held _ hi with ⟨P, hst, hP, hserial⟩ | ⟨b, hb, -⟩
      · exact ⟨s, db, held, _, hr, .single ⟨_, hstep⟩, hi, ((hserial s.db hP).1 db hw).2,
          .inr ⟨_, hstep, .refl, rfl⟩⟩
      · exact absurd hb (by simp)

/-- Every call that has ended took effect while it was running. -/
theorem takesEffect (hW : W.IsSerial own) (hr : (machine W init).Reachable s) {id : ℕ} {op : ι}
    {a : α} (hc : s.calls.get id = some ⟨op, .ended a⟩) : TakesEffect W init s id op a :=
  (serialized_reachable hW hr).ended id op a hc

/-- A commit does what its program run alone does. -/
theorem exec_of_committed (hW : W.IsSerial own) (hr : (machine W init).Reachable s) {act : Act ι}
    (hstep : (machine W init).step s act = some s') (hhistory : s'.history ≠ s.history) :
    ∃ e, act = .next e.id ∧ s'.history = s.history ++ [e] ∧
      (W.program e.op).exec W.row s.db = (e.result, s'.db) := by
  cases step_cases hstep with
  | @committed i op held write a violated db hi hw =>
    refine ⟨⟨i, op, a⟩, rfl, rfl, ?_⟩
    rcases (serialized_reachable hW hr).running i op held _ hi with ⟨P, -, hP, hserial⟩ | ⟨b, hb, -⟩
    · exact ((hserial s.db hP).1 db hw).2
    · exact absurd hb nofun
  | _ => exact absurd rfl hhistory

end Server

end ExAgent.Lib
