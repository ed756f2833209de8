import ExAgent.Worker.Guard

/-!
# At most one body

Under the guard at most one body runs, in every run whose timers and answers are punctual, exactly
when the time to live covers the answer of `SET` and two waits of the heartbeat, and three waits
(`exclusive_iff`).
-/

namespace ExAgent.Worker.SessionGuard

open Lib

/-! ## What one step does -/

/-- The call that takes a step. -/
def Act.token : Act → Option Uuid
  | .delay _ => none
  | .hold t | .set t | .renew t | .release t | .enter t | .wake t | .confirm t | .lose t | .leave t
  | .die t => some t

/-- A hold that is put is there. -/
theorem put_self (s : State) (t : Uuid) (h : Hold) : (s.put t h).holds t = h :=
  Function.update_self ..

/-- It leaves the other holds. -/
theorem put_of_ne (s : State) {t t' : Uuid} (h : Hold) (hne : t' ≠ t) :
    (s.put t h).holds t' = s.holds t' :=
  Function.update_of_ne hne ..

/-- A step of another call leaves a call as it is, and the key that the call owns. -/
theorem step_frame {g : SessionGuard} {s s' : State} {a : Act} (h : step g s a = some s') {t : Uuid}
    (ht : a.token ≠ some t) : s'.holds t = s.holds t ∧ (s.key.Covers t s.now → s'.key = s.key) := by
  cases a with
  | delay ticks =>
    obtain rfl := Option.some.inj h
    exact ⟨rfl, fun _ => rfl⟩
  -- The key is set only while nobody owns it.
  | set t' =>
    have hne : t ≠ t' := fun heq => ht (congrArg some heq.symm)
    dsimp only [step] at h
    split at h
    · obtain rfl := Option.some.inj h
      refine ⟨put_of_ne s _ hne, fun hcovers => ?_⟩
      exact congrArg Prod.snd (hcovers.setNx le_rfl)
    · cases h
  -- It is renewed and released only by its own token.
  | renew t' =>
    have hne : t ≠ t' := fun heq => ht (congrArg some heq.symm)
    have hkey : s.key.Covers t s.now → (s.key.renew s.now g.ttl t').2 = s.key :=
      fun hcovers => congrArg Prod.snd (hcovers.renew_of_ne le_rfl hne.symm)
    dsimp only [step] at h
    split at h
    · obtain rfl := Option.some.inj h
      exact ⟨put_of_ne s _ hne, hkey⟩
    · obtain rfl := Option.some.inj h
      exact ⟨put_of_ne s _ hne, hkey⟩
    · cases h
  | release t' =>
    have hne : t ≠ t' := fun heq => ht (congrArg some heq.symm)
    dsimp only [step] at h
    split at h
    · obtain rfl := Option.some.inj h
      exact ⟨put_of_ne s _ hne, fun hcovers => hcovers.release_of_ne le_rfl hne.symm⟩
    · cases h
  | hold t' | enter t' | wake t' | confirm t' | lose t' | leave t' | die t' =>
    have hne : t ≠ t' := fun heq => ht (congrArg some heq.symm)
    dsimp only [step] at h
    repeat' split at h
    all_goals first
      | (obtain rfl := Option.some.inj h; exact ⟨put_of_ne s _ hne, fun _ => rfl⟩)
      | cases h

/-- Only the clock takes time. -/
theorem step_now {g : SessionGuard} {s s' : State} {a : Act} (h : step g s a = some s')
    (hdelay : ∀ ticks, a ≠ .delay ticks) : s'.now = s.now := by
  cases a with
  | delay ticks => exact absurd rfl (hdelay ticks)
  | _ =>
    dsimp only [step] at h
    repeat' split at h
    all_goals first
      | (obtain rfl := Option.some.inj h; rfl)
      | cases h

/-! ## What a call owns -/

/-- How long a call owns the key, by how far it is. -/
def Safe (g : SessionGuard) (w : Waits) (s : State) (t : Uuid) : Hold → Prop
  | .answered true since => s.now ≤ since + w.answer ∧ s.key.Covers t (since + g.ttl)
  | .body (.sleeping since) => s.now ≤ since + g.pace w ∧ s.key.Covers t (since + 2 * g.pace w)
  | .body (.renewing since answer) =>
    since ≤ s.now ∧ s.now ≤ since + g.pace w ∧ s.key.Covers t (since + g.pace w) ∧
      (answer ≠ none → answer = some true ∧ s.key.Covers t (since + g.ttl))
  | _ => True

/-- Every call owns what it needs. -/
def Guarded (g : SessionGuard) (w : Waits) (s : State) : Prop := ∀ t, Safe g w s t (s.holds t)

/-- The time to live covers the waits. -/
structure Enough (g : SessionGuard) (w : Waits) : Prop where
  answer : w.answer + 2 * g.pace w ≤ g.ttl
  renewal : 3 * g.pace w ≤ g.ttl

variable {g : SessionGuard} {w : Waits} {s s' : State}

/-- What a call owns does not change with the rest of the state. -/
theorem Safe.frame (henough : Enough g w) {t : Uuid} {h : Hold} (hsafe : Safe g w s t h)
    (hnow : s'.now = s.now) (hkey : s.key.Covers t s.now → s'.key = s.key) : Safe g w s' t h := by
  have hanswer := henough.answer
  match h with
  | .answered true since =>
    obtain ⟨hdue, hcovers⟩ := hsafe
    have heq := hkey (hcovers.mono (by omega))
    exact ⟨hnow ▸ hdue, heq ▸ hcovers⟩
  | .body (.sleeping since) =>
    obtain ⟨hdue, hcovers⟩ := hsafe
    have heq := hkey (hcovers.mono (by omega))
    exact ⟨hnow ▸ hdue, heq ▸ hcovers⟩
  | .body (.renewing since answer) =>
    obtain ⟨hsince, hdue, hcovers, hanswered⟩ := hsafe
    have heq := hkey (hcovers.mono hdue)
    exact ⟨hnow ▸ hsince, hnow ▸ hdue, heq ▸ hcovers, heq ▸ hanswered⟩
  | .unused | .setting _ | .answered false _ | .over _ _ => trivial

/-- The clock goes on as far as every call lets it. -/
theorem Safe.delay {t : Uuid} {h : Hold} (hsafe : Safe g w s t h) {ticks : ℕ}
    (hdue : ∀ time ∈ g.due w h, s.now + ticks ≤ time) :
    Safe g w { s with now := s.now + ticks } t h := by
  match h with
  | .answered true since => exact ⟨hdue _ rfl, hsafe.2⟩
  | .body (.sleeping since) => exact ⟨hdue _ rfl, hsafe.2⟩
  | .body (.renewing since answer) =>
    exact ⟨hsafe.1.trans (Nat.le_add_right _ _), hdue _ rfl, hsafe.2.2⟩
  | .unused | .setting _ | .answered false _ | .over _ _ => trivial

/-- A call that takes a step owns what it needs next. -/
theorem Safe.step (henough : Enough g w) {a : Act} {t : Uuid} (ht : a.token = some t)
    (hsafe : Safe g w s t (s.holds t)) (h : SessionGuard.step g s a = some s') :
    Safe g w s' t (s'.holds t) := by
  have hanswer := henough.answer
  have hrenewal := henough.renewal
  cases a with
  | delay ticks => cases ht
  | hold t' =>
    obtain rfl := Option.some.inj ht
    dsimp only [SessionGuard.step] at h
    split at h
    · obtain rfl := Option.some.inj h
      rw [put_self]
      trivial
    · cases h
  | set t' =>
    obtain rfl := Option.some.inj ht
    dsimp only [SessionGuard.step] at h
    split at h
    · obtain rfl := Option.some.inj h
      dsimp only
      rw [put_self]
      split
      · cases hset : (s.key.setNx s.now g.ttl t').1 with
        | false => trivial
        | true => exact ⟨Nat.le_add_right _ _, Lease.setNx_covers hset⟩
      · trivial
    · cases h
  | renew t' =>
    obtain rfl := Option.some.inj ht
    dsimp only [SessionGuard.step] at h
    split at h
    · next since hhold =>
      obtain rfl := Option.some.inj h
      rw [hhold] at hsafe
      obtain ⟨hsince, hdue, hcovers, -⟩ := hsafe
      dsimp only
      -- The key is there, so that it is renewed from now on.
      rw [put_self, hcovers.renew hdue]
      have hnew : Lease.Covers ⟨some (t', s.now + g.ttl)⟩ t' (since + g.ttl) := ⟨_, rfl, by omega⟩
      exact ⟨hsince, hdue, hnew.mono (by omega), fun _ => ⟨rfl, hnew⟩⟩
    · obtain rfl := Option.some.inj h
      dsimp only
      rw [put_self]
      trivial
    · cases h
  | release t' =>
    obtain rfl := Option.some.inj ht
    dsimp only [SessionGuard.step] at h
    split at h
    · obtain rfl := Option.some.inj h
      dsimp only
      rw [put_self]
      trivial
    · cases h
  | enter t' =>
    obtain rfl := Option.some.inj ht
    dsimp only [SessionGuard.step] at h
    split at h
    · next since hhold =>
      obtain rfl := Option.some.inj h
      rw [hhold] at hsafe
      obtain ⟨hdue, hcovers⟩ := hsafe
      rw [put_self]
      exact ⟨Nat.le_add_right _ _, hcovers.mono (by omega)⟩
    · obtain rfl := Option.some.inj h
      rw [put_self]
      trivial
    · cases h
  | wake t' =>
    obtain rfl := Option.some.inj ht
    dsimp only [SessionGuard.step] at h
    split at h
    · next since hhold =>
      split at h
      · obtain rfl := Option.some.inj h
        rw [hhold] at hsafe
        obtain ⟨hdue, hcovers⟩ := hsafe
        rw [put_self]
        exact ⟨le_rfl, Nat.le_add_right _ _, hcovers.mono (by omega),
          fun hne => absurd rfl hne⟩
      · cases h
    · cases h
  | confirm t' =>
    obtain rfl := Option.some.inj ht
    dsimp only [SessionGuard.step] at h
    split at h
    · next since hhold =>
      obtain rfl := Option.some.inj h
      rw [hhold] at hsafe
      obtain ⟨-, hdue, -, hanswered⟩ := hsafe
      have hcovers := (hanswered nofun).2
      rw [put_self]
      exact ⟨Nat.le_add_right _ _, hcovers.mono (by omega)⟩
    · cases h
  | lose t' | leave t' | die t' =>
    obtain rfl := Option.some.inj ht
    dsimp only [SessionGuard.step] at h
    repeat' split at h
    all_goals first
      | (obtain rfl := Option.some.inj h; rw [put_self]; trivial)
      | cases h

/-- Every step keeps that every call owns what it needs. -/
theorem Guarded.step (henough : Enough g w) (hguarded : Guarded g w s) {a : Act}
    (hpunctual : g.Punctual w s a) (h : SessionGuard.step g s a = some s') : Guarded g w s' := by
  intro t
  by_cases ht : a.token = some t
  · exact (hguarded t).step henough ht h
  · by_cases hdelay : ∃ ticks, a = .delay ticks
    · obtain ⟨ticks, rfl⟩ := hdelay
      obtain rfl := Option.some.inj h
      exact (hguarded t).delay (hpunctual t)
    · obtain ⟨hhold, hkey⟩ := step_frame h ht
      rw [hhold]
      exact (hguarded t).frame henough (step_now h fun ticks heq => hdelay ⟨ticks, heq⟩) hkey

/-- In every punctual run every call owns what it needs. -/
theorem guarded_reachable (henough : Enough g w) (hr : g.guard.ReachableWhen (g.Punctual w) s) :
    Guarded g w s := by
  induction hr with
  | start hs =>
    obtain rfl := hs
    exact fun t => trivial
  | next _ hpunctual hstep ih => exact ih.step henough hpunctual hstep

/-- The key is that of a body that runs. -/
theorem Guarded.body (hguarded : Guarded g w s) {t : Uuid} (hbody : s.InBody t) :
    ∃ upTo, s.key.Covers t upTo := by
  obtain ⟨heartbeat, hhold⟩ := hbody
  have hsafe := hguarded t
  rw [hhold] at hsafe
  cases heartbeat with
  | sleeping since => exact ⟨_, hsafe.2⟩
  | renewing since answer => exact ⟨_, hsafe.2.2.1⟩

/-- While the lease guards one holder, the holders exclude each other. -/
theorem Guarded.exclusive (hguarded : Guarded g w s) : s.Exclusive := by
  intro t t' hbody hbody'
  obtain ⟨upTo, hcovers⟩ := hguarded.body hbody
  obtain ⟨upTo', hcovers'⟩ := hguarded.body hbody'
  exact hcovers.unique hcovers'

/-! ## Two bodies -/

/-- The state of two calls. -/
def twoCalls (now : ℕ) (key : Lease Uuid) (h h' : Hold) : State where
  now := now
  key := key
  holds := fun t => if t = 0 then h else if t = 1 then h' else .unused

/-- The first call of two is put in its place. -/
theorem twoCalls_put_zero (now : ℕ) (key : Lease Uuid) (h h' h₁ : Hold) :
    (twoCalls now key h h').put 0 h₁ = twoCalls now key h₁ h' := by
  refine congrArg (State.mk now key) (funext fun t => ?_)
  by_cases hzero : t = 0
  · simp [twoCalls, hzero]
  · simp [twoCalls, hzero]

/-- So is the second. -/
theorem twoCalls_put_one (now : ℕ) (key : Lease Uuid) (h h' h₁ : Hold) :
    (twoCalls now key h h').put 1 h₁ = twoCalls now key h h₁ := by
  refine congrArg (State.mk now key) (funext fun t => ?_)
  by_cases hone : t = 1
  · simp [twoCalls, hone]
  · simp [twoCalls, hone]

/-- Two unused calls are no call. -/
theorem twoCalls_unused : twoCalls 0 {} .unused .unused = {} := by
  refine congrArg (State.mk 0 {}) (funext fun t => ?_)
  simp

/-- The clock goes on when the calls let it. -/
theorem twoCalls_delay {now ticks : ℕ} {key : Lease Uuid} {h h' : Hold}
    (hdue : ∀ time ∈ g.due w h, now + ticks ≤ time)
    (hdue' : ∀ time ∈ g.due w h', now + ticks ≤ time) :
    g.Punctual w (twoCalls now key h h') (.delay ticks) := by
  intro t
  dsimp only [twoCalls]
  split
  · exact hdue
  · split
    · exact hdue'
    · nofun

/-- A time that is too long is made of an answer, a sleep and a wait. -/
theorem exists_waits {a n : ℕ} (hlow : 2 * g.renewSeconds ≤ n) (hhigh : n ≤ a + 2 * g.pace w) :
    ∃ x y z, x ≤ a ∧ g.renewSeconds ≤ y ∧ y ≤ g.pace w ∧ z ≤ g.pace w ∧ x + y + z = n := by
  have hpace : g.renewSeconds ≤ g.pace w := Nat.le_add_right _ _
  -- The sleep keeps its least time.
  obtain ⟨x, hx, hrest⟩ : ∃ x ≤ a, g.renewSeconds ≤ n - x ∧ x ≤ n ∧ n - x ≤ 2 * g.pace w :=
    ⟨min a (n - g.renewSeconds), Nat.min_le_left _ _, by omega⟩
  exact ⟨x, min (g.pace w) (n - x), n - x - min (g.pace w) (n - x), hx, by omega⟩

/-- A call that sleeps while its key runs out, and whose next renewal is not answered, is passed by
another one. -/
theorem overrun {now expires y z : ℕ}
    (hr : g.guard.ReachableWhen (g.Punctual w)
      (twoCalls now ⟨some (0, expires)⟩ (.body (.sleeping now)) .unused))
    (hsleep : g.renewSeconds ≤ y) (hy : y ≤ g.pace w) (hz : z ≤ g.pace w)
    (hexpired : expires < now + y + z) :
    ∃ s, g.guard.ReachableWhen (g.Punctual w) s ∧ ¬ s.Exclusive := by
  have hslept : g.guard.ReachableWhen (g.Punctual w)
      (twoCalls (now + y) ⟨some (0, expires)⟩ (.body (.sleeping now)) .unused) :=
    hr.next (a := .delay y) (twoCalls_delay (by simpa [due] using hy) nofun) rfl
  have hwoken : g.guard.ReachableWhen (g.Punctual w)
      (twoCalls (now + y) ⟨some (0, expires)⟩ (.body (.renewing (now + y) none)) .unused) :=
    hslept.next (a := .wake 0) trivial
      ((if_pos (Nat.add_le_add_left hsleep now)).trans (congrArg some (twoCalls_put_zero ..)))
  have hwaited : g.guard.ReachableWhen (g.Punctual w)
      (twoCalls (now + y + z) ⟨some (0, expires)⟩ (.body (.renewing (now + y) none)) .unused) :=
    hwoken.next (a := .delay z) (twoCalls_delay (by simpa [due] using hz) nofun) rfl
  have hcalled : g.guard.ReachableWhen (g.Punctual w)
      (twoCalls (now + y + z) ⟨some (0, expires)⟩ (.body (.renewing (now + y) none))
        (.setting true)) :=
    hwaited.next (a := .hold 1) trivial (congrArg some (twoCalls_put_one ..))
  -- The key has expired, so that the other call sets it.
  have hset : g.guard.ReachableWhen (g.Punctual w)
      (twoCalls (now + y + z) ⟨some (1, now + y + z + g.ttl)⟩ (.body (.renewing (now + y) none))
        (.answered true (now + y + z))) := by
    refine hcalled.next (a := .set 1) trivial ?_
    have hstep :
        step g (twoCalls (now + y + z) ⟨some (0, expires)⟩ (.body (.renewing (now + y) none))
        (.setting true)) (.set 1) = some { State.put (twoCalls (now + y + z) ⟨some (0, expires)⟩
          (.body (.renewing (now + y) none)) (.setting true)) 1
            (.answered (Lease.setNx ⟨some (0, expires)⟩ (now + y + z) g.ttl 1).1 (now + y + z)) with
          key := (Lease.setNx ⟨some (0, expires)⟩ (now + y + z) g.ttl 1).2 } := rfl
    refine hstep.trans ?_
    rw [Lease.setNx_expired hexpired, twoCalls_put_one]
    rfl
  refine ⟨_, hset.next (a := .enter 1) trivial (congrArg some (twoCalls_put_one ..)),
    fun hexclusive => ?_⟩
  have heq := hexclusive 0 1 ⟨_, rfl⟩ ⟨_, rfl⟩
  cases heq

/-- The first call begins its body some time after Redis has run its `SET`. -/
theorem begun {x : ℕ} (hx : x ≤ w.answer) : g.guard.ReachableWhen (g.Punctual w)
    (twoCalls x ⟨some (0, g.ttl)⟩ (.body (.sleeping x)) .unused) := by
  have hstart : g.guard.ReachableWhen (g.Punctual w) (twoCalls 0 {} .unused .unused) :=
    .start twoCalls_unused
  have hcalled : g.guard.ReachableWhen (g.Punctual w) (twoCalls 0 {} (.setting true) .unused) :=
    hstart.next (a := .hold 0) trivial (congrArg some (twoCalls_put_zero ..))
  have hset : g.guard.ReachableWhen (g.Punctual w)
      (twoCalls 0 ⟨some (0, 0 + g.ttl)⟩ (.answered true 0) .unused) := by
    refine hcalled.next (a := .set 0) trivial ?_
    have hput := twoCalls_put_zero 0 {} (.setting true) .unused (.answered true 0)
    exact congrArg (fun s => some { s with key := ⟨some (0, 0 + g.ttl)⟩ }) hput
  have hwaited : g.guard.ReachableWhen (g.Punctual w)
      (twoCalls (0 + x) ⟨some (0, 0 + g.ttl)⟩ (.answered true 0) .unused) :=
    hset.next (a := .delay x) (twoCalls_delay (by simpa [due] using hx) nofun) rfl
  rw [Nat.zero_add, Nat.zero_add] at hwaited
  exact hwaited.next (a := .enter 0) trivial (congrArg some (twoCalls_put_zero ..))

/-- Its first renewal is run at once and answered some time later. -/
theorem renewed {x : ℕ} (hx : x ≤ g.pace w) : g.guard.ReachableWhen (g.Punctual w)
    (twoCalls (g.renewSeconds + x) ⟨some (0, g.renewSeconds + g.ttl)⟩
      (.body (.sleeping (g.renewSeconds + x)))
      .unused) := by
  have hpace : g.renewSeconds ≤ g.pace w := Nat.le_add_right _ _
  have hslept : g.guard.ReachableWhen (g.Punctual w)
      (twoCalls (0 + g.renewSeconds) ⟨some (0, g.ttl)⟩ (.body (.sleeping 0)) .unused) :=
    (begun (Nat.zero_le _)).next (a := .delay g.renewSeconds)
      (twoCalls_delay (by simpa [due] using hpace) nofun) rfl
  rw [Nat.zero_add] at hslept
  have hwoken : g.guard.ReachableWhen (g.Punctual w)
      (twoCalls g.renewSeconds ⟨some (0, g.ttl)⟩ (.body (.renewing g.renewSeconds none)) .unused) :=
    hslept.next (a := .wake 0) trivial
      ((if_pos (Nat.zero_add _).le).trans (congrArg some (twoCalls_put_zero ..)))
  have hrun : g.guard.ReachableWhen (g.Punctual w)
      (twoCalls g.renewSeconds ⟨some (0, g.renewSeconds + g.ttl)⟩
      (.body (.renewing g.renewSeconds (some true))) .unused) := by
    refine hwoken.next (a := .renew 0) trivial ?_
    have hlt := g.renew_lt
    have hcovers : Lease.Covers ⟨some (0, g.ttl)⟩ 0 g.ttl := ⟨_, rfl, le_rfl⟩
    have hstep : step g
      (twoCalls g.renewSeconds ⟨some (0, g.ttl)⟩ (.body (.renewing g.renewSeconds none)) .unused)
        (.renew 0) = some { State.put (twoCalls g.renewSeconds ⟨some (0, g.ttl)⟩
          (.body (.renewing g.renewSeconds none)) .unused) 0 (.body (.renewing g.renewSeconds
            (some (Lease.renew ⟨some (0, g.ttl)⟩ g.renewSeconds g.ttl 0).1))) with
          key := (Lease.renew ⟨some (0, g.ttl)⟩ g.renewSeconds g.ttl 0).2 } := rfl
    refine hstep.trans ?_
    rw [hcovers.renew (by omega), twoCalls_put_zero]
    rfl
  have hwaited : g.guard.ReachableWhen (g.Punctual w) (twoCalls (g.renewSeconds + x)
      ⟨some (0, g.renewSeconds + g.ttl)⟩ (.body (.renewing g.renewSeconds (some true))) .unused) :=
    hrun.next (a := .delay x) (twoCalls_delay (by simpa [due] using hx) nofun) rfl
  exact hwaited.next (a := .confirm 0) trivial (congrArg some (twoCalls_put_zero ..))

/-- However processes die, answers are lost and calls are cancelled: at most one body runs in every
punctual run exactly when the time to live covers the answer of `SET` with two waits of the
heartbeat, and three waits. -/
theorem exclusive_iff (g : SessionGuard) (w : Waits) :
    (∀ s, g.guard.ReachableWhen (g.Punctual w) s → s.Exclusive) ↔
      w.answer + 2 * (g.renewSeconds + w.late) ≤ g.ttl ∧ 3 * (g.renewSeconds + w.late) ≤ g.ttl := by
  constructor
  · intro h
    have hlt := g.renew_lt
    have hpace : g.pace w = g.renewSeconds + w.late := rfl
    by_contra hnot
    rcases Nat.lt_or_ge g.ttl (w.answer + 2 * (g.renewSeconds + w.late)) with hanswer | hanswer
    · -- The answer of `SET` takes its time, then the sleep and the renewal do.
      obtain ⟨x, y, z, hx, hsleep, hy, hz, hsum⟩ :=
        exists_waits (a := w.answer) (g := g) (w := w) (n := g.ttl + 1) (by omega) (by omega)
      obtain ⟨s, hs, hexclusive⟩ := overrun (begun hx) hsleep hy hz (by omega)
      exact hexclusive (h s hs)
    · -- The answer of the first renewal takes its time.
      obtain ⟨x, y, z, hx, hsleep, hy, hz, hsum⟩ :=
        exists_waits (a := g.pace w) (g := g) (w := w) (n := g.ttl + 1) (by omega) (by omega)
      obtain ⟨s, hs, hexclusive⟩ := overrun (renewed hx) hsleep hy hz (by omega)
      exact hexclusive (h s hs)
  · rintro ⟨hanswer, hrenewal⟩ s hr
    exact (guarded_reachable ⟨hanswer, hrenewal⟩ hr).exclusive

end ExAgent.Worker.SessionGuard
