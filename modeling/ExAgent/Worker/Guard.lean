import ExAgent.Lib.Lease
import ExAgent.Lib.Transition
import ExAgent.Values
import Mathlib.Logic.Function.Basic

/-!
# The guard of a session

`worker/guard.py`: the calls of `hold` for one session, with the clock of Redis. A call has the
token that it makes up. Redis runs a command or a script some time after it was sent, if at all,
also when its caller has given up or has died. The body runs until it ends or is cancelled. What
holds back the clock, an answer and the wake of a timer, is a condition on a run (`Punctual`).
-/

namespace ExAgent.Worker

open Lib

/-- `SessionGuard`, with what its constructor checks; the times are in ticks of the clock. -/
structure SessionGuard where
  ttl : ℕ
  renewSeconds : ℕ
  renew_pos : 0 < renewSeconds * 2
  renew_lt : renewSeconds * 2 < ttl

namespace SessionGuard

/-- The task `heartbeat`, in its sleep or waiting for the answer of the renewal, and since when. -/
inductive Heartbeat
  | sleeping (since : ℕ)
  | renewing (since : ℕ) (answer : Option Bool)

/-- A renewal is sent that Redis has not run. -/
def Heartbeat.pending : Heartbeat → Bool
  | .renewing _ none => true
  | _ => false

/-- A call of `hold`. -/
inductive Hold
  | unused
  /-- `SET` is sent; whether the caller still waits. -/
  | setting (waiting : Bool)
  /-- Redis has run `SET`. -/
  | answered (acquired : Bool) (since : ℕ)
  | body (heartbeat : Heartbeat)
  /-- The body is over; whether a renewal and the release are sent that Redis has not run. -/
  | over (renewal release : Bool)

/-- The key of the session, and the calls by their tokens. -/
structure State where
  now : ℕ := 0
  key : Lease Uuid := {}
  holds : Uuid → Hold := fun _ => .unused

/-- What happens. -/
inductive Act
  | delay (ticks : ℕ)
  | hold (token : Uuid)
  /-- Redis runs the command and the scripts of a call. -/
  | set (token : Uuid)
  | renew (token : Uuid)
  | release (token : Uuid)
  /-- The caller reads the answer of `SET`: the body begins, or the event is deferred. -/
  | enter (token : Uuid)
  /-- The heartbeat sends a renewal, reads its answer, or cancels the body. -/
  | wake (token : Uuid)
  | confirm (token : Uuid)
  | lose (token : Uuid)
  /-- The body ends or is cancelled from outside. -/
  | leave (token : Uuid)
  /-- The caller gives up before the answer of `SET`, or its process dies. -/
  | die (token : Uuid)

/-- A call goes on. -/
def State.put (s : State) (t : Uuid) (h : Hold) : State :=
  { s with holds := Function.update s.holds t h }

/-- One step. -/
def step (g : SessionGuard) (s : State) : Act → Option State
  | .delay ticks => some { s with now := s.now + ticks }
  | .hold t =>
    match s.holds t with
    | .unused => some (s.put t (.setting true))
    | _ => none
  | .set t =>
    match s.holds t with
    | .setting waiting =>
      let (acquired, key) := s.key.setNx s.now g.ttl t
      some { s.put t (if waiting then .answered acquired s.now else .over false false) with key }
    | _ => none
  | .renew t =>
    let (renewed, key) := s.key.renew s.now g.ttl t
    match s.holds t with
    | .body (.renewing since none) =>
      some { s.put t (.body (.renewing since (some renewed))) with key }
    | .over true release => some { s.put t (.over false release) with key }
    | _ => none
  | .release t =>
    match s.holds t with
    | .over renewal true => some { s.put t (.over renewal false) with key := s.key.release s.now t }
    | _ => none
  | .enter t =>
    match s.holds t with
    | .answered true _ => some (s.put t (.body (.sleeping s.now)))
    | .answered false _ => some (s.put t (.over false false))
    | _ => none
  | .wake t =>
    match s.holds t with
    | .body (.sleeping since) =>
      if since + g.renewSeconds ≤ s.now then some (s.put t (.body (.renewing s.now none))) else none
    | _ => none
  | .confirm t =>
    match s.holds t with
    | .body (.renewing _ (some true)) => some (s.put t (.body (.sleeping s.now)))
    | _ => none
  | .lose t =>
    -- Another answer, an error of the client, or the timeout.
    match s.holds t with
    | .body (.renewing since answer) =>
      some (s.put t (.over (Heartbeat.renewing since answer).pending true))
    | _ => none
  | .leave t =>
    match s.holds t with
    | .body heartbeat => some (s.put t (.over heartbeat.pending true))
    | _ => none
  | .die t =>
    match s.holds t with
    | .setting _ => some (s.put t (.setting false))
    | .answered _ _ => some (s.put t (.over false false))
    | .body heartbeat => some (s.put t (.over heartbeat.pending false))
    | .over renewal _ => some (s.put t (.over renewal false))
    | .unused => none

/-- The calls of one session. -/
def guard (g : SessionGuard) : Machine State Act := ⟨fun s => s = {}, step g⟩

/-- The body of a call runs, and it has not been cancelled. -/
def State.InBody (s : State) (t : Uuid) : Prop := ∃ heartbeat, s.holds t = .body heartbeat

/-- At most one body runs. -/
def State.Exclusive (s : State) : Prop := ∀ t t', s.InBody t → s.InBody t' → t = t'

/-! ## The clock -/

/-- How long the answer of `SET` takes at most, and how late a timer wakes its task. -/
structure Waits where
  answer : ℕ
  late : ℕ

/-- How long the heartbeat sleeps or waits at most. -/
def pace (g : SessionGuard) (w : Waits) : ℕ := g.renewSeconds + w.late

/-- When a call goes on at the latest. -/
def due (g : SessionGuard) (w : Waits) : Hold → Option ℕ
  | .answered true since => some (since + w.answer)
  | .body (.sleeping since) | .body (.renewing since _) => some (since + g.pace w)
  | _ => none

/-- The clock does not pass what is due. -/
def Punctual (g : SessionGuard) (w : Waits) (s : State) : Act → Prop
  | .delay ticks => ∀ t, ∀ time ∈ g.due w (s.holds t), s.now + ticks ≤ time
  | _ => True

end SessionGuard

end ExAgent.Worker
