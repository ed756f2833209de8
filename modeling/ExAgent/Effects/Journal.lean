import Mathlib.Logic.Function.Basic
import ExAgent.Lib.Transition
import ExAgent.Effects.Store

/-!
# The effect journal sends one request

`EffectJournal.run` of `agent/effects/journal.py`, as any number of calls that interleave: each call
is a process that stops wherever the code waits, for the store, for `prepare` or for the Executor,
and may die or get an error there, before or after the effect of what it waits for.

Two callers can both find no row, draft different requests and race on the insert. The row that is
committed first is the one both read back, and no later transaction changes anything of it but a
response that is still missing (`RowKept`). So whatever a process holds of a row stays true of the
table, and what is sent for a key is always the request of its row (`JournalInv`).

Two history variables record what the theorem speaks of and no step reads: the requests sent, and
for each key the call whose transaction inserted its row.
-/

namespace ExAgent.Effects

open Lib

/-- The arguments of `EffectJournal.run` that identify an effect. -/
structure Call where
  taskId : Uuid
  key : String
  kind : String
  inputs : Dict
deriving DecidableEq

/-- Where a call stands. -/
inductive Pc
  /-- `store.get` is next. -/
  | called
  /-- There was no row; `prepare()` is next. -/
  | missing
  /-- `prepare()` has returned a request; `store.prepare` is next. -/
  | drafted (request : Dict)
  /-- The record has no response; `send` is next. -/
  | sending (record : EffectRecord)
  /-- The request is out. -/
  | sent (record : EffectRecord)
  /-- The Executor has answered; `store.complete` is next. -/
  | replied (response : Dict)
  /-- The call has returned. -/
  | returned (record : EffectRecord)
  /-- The call has raised. -/
  | raised (error : EffectError)

/-- A call in progress. -/
structure Proc where
  call : Call
  pc : Pc

/-- The table, the calls, and the history. -/
structure State where
  effects : EffectTable
  procs : ℕ → Option Proc
  /-- The requests sent so far, with their keys. -/
  sends : List (String × Dict)
  /-- The call whose transaction inserted the row of a key. -/
  origin : String → Option Call

/-- No effect yet. -/
def State.initial : State := ⟨.empty, fun _ => none, [], fun _ => none⟩

/-- How a wait of a call ends: as the code wants it, with an error raised before or after the effect
took place, or with a value (the request of `prepare()`, the reply to `send`). -/
inductive Choice
  | ok
  | fault (committed : Bool)
  | value (d : Dict)

/-- The steps of the journal. -/
inductive Action
  /-- A call of `run`. -/
  | call (proc : ℕ) (c : Call)
  /-- A call goes on. -/
  | work (proc : ℕ) (choice : Choice)
  /-- The process of a call dies. -/
  | die (proc : ℕ)

/-- The call stands somewhere else. -/
def State.goto (s : State) (p : ℕ) (proc : Proc) (pc : Pc) : State :=
  { s with procs := Function.update s.procs p (some { proc with pc := pc }) }

/-- `run` with a record at hand: the identity check, and whether there is something to send. -/
def settle (digest : Dict → String) (c : Call) (record : EffectRecord) : Pc :=
  match validateIdentity record c.taskId c.kind (digest c.inputs) with
  | .error e => .raised e
  | .ok () =>
    match record.response with
    | none => .sending record
    | some _ => .returned record

/-- The state after `store.prepare` has committed, with the inserting call noted. -/
def State.prepared (s : State) (c : Call) (effects : EffectTable) : State :=
  { s with
    effects := effects
    origin := if s.effects.get c.key = none then Function.update s.origin c.key (some c)
      else s.origin }

/-- One step of a call. -/
def State.work (digest : Dict → String) (s : State) (p : ℕ) (proc : Proc) :
    Pc → Choice → Option State
  | .called, .ok =>
    match get digest s.effects proc.call.key with
    | .error e => some (s.goto p proc (.raised e))
    | .ok none => some (s.goto p proc .missing)
    | .ok (some record) => some (s.goto p proc (settle digest proc.call record))
  | .called, .fault _ => some (s.goto p proc (.raised .other))
  | .missing, .value request => some (s.goto p proc (.drafted request))
  | .missing, .fault _ => some (s.goto p proc (.raised .other))
  | .drafted request, .ok =>
    match prepare digest s.effects proc.call.key proc.call.taskId proc.call.kind
        (digest proc.call.inputs) request with
    | .error e => some (s.goto p proc (.raised e))
    | .ok (effects, record) =>
      some ((s.prepared proc.call effects).goto p proc (settle digest proc.call record))
  | .drafted request, .fault committed =>
    match prepare digest s.effects proc.call.key proc.call.taskId proc.call.kind
        (digest proc.call.inputs) request with
    | .error _ => some (s.goto p proc (.raised .other))
    | .ok (effects, _) =>
      some ((if committed then s.prepared proc.call effects else s).goto p proc (.raised .other))
  | .sending record, .ok =>
    some ({ s with sends := s.sends ++ [(proc.call.key, record.request)] }.goto p
      proc (.sent record))
  | .sending _, .fault _ => some (s.goto p proc (.raised .other))
  | .sent _, .value response => some (s.goto p proc (.replied response))
  | .sent _, .fault _ => some (s.goto p proc (.raised .other))
  | .replied response, .ok =>
    match complete digest s.effects proc.call.key response with
    | .error e => some (s.goto p proc (.raised e))
    | .ok (effects, record) => some ({ s with effects := effects }.goto p proc (.returned record))
  | .replied response, .fault committed =>
    match complete digest s.effects proc.call.key response with
    | .error _ => some (s.goto p proc (.raised .other))
    | .ok (effects, _) =>
      some ((if committed then { s with effects := effects } else s).goto p proc (.raised .other))
  | _, _ => none

/-- One step of the journal. -/
def step (digest : Dict → String) (s : State) : Action → Option State
  | .call p c =>
    if s.procs p = none then some { s with procs := Function.update s.procs p (some ⟨c, .called⟩) }
    else none
  | .work p choice =>
    match s.procs p with
    | none => none
    | some proc => s.work digest p proc proc.pc choice
  | .die p => some { s with procs := Function.update s.procs p none }

/-- The journal as a transition system. -/
def journal (digest : Dict → String) : Machine State Action := ⟨fun s => s = .initial, step digest⟩

/-! ## Every move of a call -/

/-- The moves of a call that stands at a point. -/
inductive Move (digest : Dict → String) (s : State) (p : ℕ) (proc : Proc) : Pc → State → Prop
  /-- The call raises without having written. -/
  | fail {pc : Pc} {e : EffectError} : Move digest s p proc pc (s.goto p proc (.raised e))
  /-- There is no row. -/
  | miss (h : s.effects.get proc.call.key = none) :
      Move digest s p proc .called (s.goto p proc .missing)
  /-- There is a row. -/
  | found {record : EffectRecord} {row : EffectRow} (hrow : s.effects.get proc.call.key = some row)
      (hrec : recordOf digest proc.call.key row = .ok record) :
      Move digest s p proc .called (s.goto p proc (settle digest proc.call record))
  /-- `prepare()` returns. -/
  | draft {request : Dict} : Move digest s p proc .missing (s.goto p proc (.drafted request))
  /-- The insert commits; its reply may be lost. -/
  | prepare {request : Dict} {effects : EffectTable} {record : EffectRecord} {pc' : Pc}
      (h : prepare digest s.effects proc.call.key proc.call.taskId proc.call.kind
        (digest proc.call.inputs) request = .ok (effects, record))
      (hpc : pc' = settle digest proc.call record ∨ ∃ e, pc' = .raised e) :
      Move digest s p proc (.drafted request) ((s.prepared proc.call effects).goto p proc pc')
  /-- The request goes out. -/
  | send {record : EffectRecord} :
      Move digest s p proc (.sending record)
        ({ s with sends := s.sends ++ [(proc.call.key, record.request)] }.goto p
          proc (.sent record))
  /-- The Executor answers. -/
  | reply {record : EffectRecord} {response : Dict} :
      Move digest s p proc (.sent record) (s.goto p proc (.replied response))
  /-- The response commits; the reply of the database may be lost. -/
  | complete {response : Dict} {effects : EffectTable} {record : EffectRecord} {pc' : Pc}
      (h : complete digest s.effects proc.call.key response = .ok (effects, record))
      (hpc : pc' = .returned record ∨ ∃ e, pc' = .raised e) :
      Move digest s p proc (.replied response) ({ s with effects := effects }.goto p proc pc')

/-- A step of a call is one of the moves. -/
theorem State.work_move {digest : Dict → String} {s s' : State} {p : ℕ} {proc : Proc} {pc : Pc}
    {c : Choice} (h : s.work digest p proc pc c = some s') : Move digest s p proc pc s' := by
  rcases pc with _ | _ | request | record | record | response | record | e
  · -- `called`
    rcases c with _ | b | d
    · simp only [State.work, get] at h
      cases hrow : s.effects.get proc.call.key with
      | none =>
        rw [hrow] at h
        obtain rfl := Option.some.inj h
        exact .miss hrow
      | some row =>
        rw [hrow] at h
        dsimp only at h
        cases hrec : recordOf digest proc.call.key row with
        | error e =>
          rw [hrec] at h
          obtain rfl := Option.some.inj h
          exact .fail
        | ok record =>
          rw [hrec] at h
          obtain rfl := Option.some.inj h
          exact .found hrow hrec
    · obtain rfl := Option.some.inj h
      exact .fail
    · exact absurd h (by simp [State.work])
  · -- `missing`
    rcases c with _ | b | d
    · exact absurd h (by simp [State.work])
    · obtain rfl := Option.some.inj h
      exact .fail
    · obtain rfl := Option.some.inj h
      exact .draft
  · -- `drafted`
    rcases c with _ | b | d
    · simp only [State.work] at h
      split at h
      · obtain rfl := Option.some.inj h
        exact .fail
      · obtain rfl := Option.some.inj h
        -- The insert is committed, and its reply is lost or not.
        exact .prepare ‹_› (.inl rfl)
    · simp only [State.work] at h
      split at h
      · obtain rfl := Option.some.inj h
        exact .fail
      · obtain rfl := Option.some.inj h
        rcases b with _ | _
        · exact .fail
        · exact .prepare ‹_› (.inr ⟨.other, rfl⟩)
    · exact absurd h (by simp [State.work])
  · -- `sending`
    rcases c with _ | b | d
    · obtain rfl := Option.some.inj h
      exact .send
    · obtain rfl := Option.some.inj h
      exact .fail
    · exact absurd h (by simp [State.work])
  · -- `sent`
    rcases c with _ | b | d
    · exact absurd h (by simp [State.work])
    · obtain rfl := Option.some.inj h
      exact .fail
    · obtain rfl := Option.some.inj h
      exact .reply
  · -- `replied`
    rcases c with _ | b | d
    · simp only [State.work] at h
      split at h
      · obtain rfl := Option.some.inj h
        exact .fail
      · obtain rfl := Option.some.inj h
        -- The response is committed, and its reply is lost or not.
        exact .complete ‹_› (.inl rfl)
    · simp only [State.work] at h
      split at h
      · obtain rfl := Option.some.inj h
        exact .fail
      · obtain rfl := Option.some.inj h
        rcases b with _ | _
        · exact .fail
        · exact .complete ‹_› (.inr ⟨.other, rfl⟩)
    · exact absurd h (by simp [State.work])
  · rcases c with _ | b | d <;> exact absurd h (by simp [State.work])
  · rcases c with _ | b | d <;> exact absurd h (by simp [State.work])

/-! ## What becomes of a row -/

/-- A row changes only by getting its response, once. -/
def RowKept (row row' : EffectRow) : Prop :=
  row' = row ∨ (row.response = none ∧ ∃ r, row' = { row with response := some r })

/-- A row keeps its request and identity, and a response it has. -/
theorem RowKept.spec {row row' : EffectRow} (h : RowKept row row') :
    row'.request = row.request ∧ row'.requestSha256 = row.requestSha256 ∧
      row'.taskId = row.taskId ∧ row'.kind = row.kind ∧ row'.inputSha256 = row.inputSha256 ∧
      ∀ r, row.response = some r → row'.response = some r := by
  rcases h with rfl | ⟨hnone, r, rfl⟩
  · exact ⟨rfl, rfl, rfl, rfl, rfl, fun _ h => h⟩
  · refine ⟨rfl, rfl, rfl, rfl, rfl, fun r' hr' => ?_⟩
    rw [hnone] at hr'
    exact absurd hr' (by simp)

/-- What becomes of the table in a step: rows are kept, and a new one is that of the call that is
noted as its origin. -/
structure Evolves (digest : Dict → String) (s s' : State) : Prop where
  rows : ∀ k row, s.effects.get k = some row →
    ∃ row', s'.effects.get k = some row' ∧ RowKept row row'
  origin : ∀ k, (s.effects.get k).isSome → s'.origin k = s.origin k
  fresh : ∀ k row', s'.effects.get k = some row' → s.effects.get k = none →
    ∃ c, s'.origin k = some c ∧ c.key = k ∧ row'.taskId = c.taskId ∧ row'.kind = c.kind ∧
      row'.inputSha256 = digest c.inputs ∧ row'.requestSha256 = digest row'.request

/-- Nothing written. -/
theorem Evolves.of_eq {digest : Dict → String} {s s' : State} (he : s'.effects = s.effects)
    (ho : s'.origin = s.origin) : Evolves digest s s' where
  rows := fun k row h => ⟨row, by rw [he, h], .inl rfl⟩
  origin := fun _ _ => by rw [ho]
  fresh := by
    intro k row' h hnone
    rw [he, hnone] at h
    exact absurd h (by simp)

/-- Every move evolves the table. -/
theorem Move.evolves {digest : Dict → String} {s s' : State} {p : ℕ} {proc : Proc} {pc : Pc}
    (h : Move digest s p proc pc s') : Evolves digest s s' := by
  cases h with
  | prepare hprep hpc =>
    rename_i request effects record pc'
    obtain ⟨row, hget, hold, hrec, htask, hkind, hsha⟩ := prepare_spec hprep
    constructor
    · -- The row of the key is the call's own, or was there before.
      intro k row₀ hk
      show ∃ row', effects.get k = some row' ∧ RowKept row₀ row'
      rw [hget]
      split
      · rename_i hkey
        rw [hkey] at hk
        rcases hold with hold | ⟨hnone, -⟩
        · exact ⟨row, rfl, .inl (Option.some.inj (hold.symm.trans hk))⟩
        · rw [hnone] at hk
          exact absurd hk (by simp)
      · exact ⟨row₀, hk, .inl rfl⟩
    · -- An origin is written with a new row only.
      intro k hk
      show (if s.effects.get proc.call.key = none then _ else s.origin) k = s.origin k
      split
      · rename_i hnone
        rw [Function.update_of_ne]
        rintro rfl
        rw [hnone] at hk
        exact absurd hk (by simp)
      · rfl
    · intro k row' hk hnone
      change effects.get k = some row' at hk
      rw [hget] at hk
      split at hk
      · rename_i hkey
        subst hkey
        obtain rfl := Option.some.inj hk
        rcases hold with hold | ⟨-, hrow⟩
        · rw [hnone] at hold
          exact absurd hold (by simp)
        · refine ⟨proc.call, ?_, rfl, htask, hkind, hsha, by rw [hrow]⟩
          show (if s.effects.get proc.call.key = none then _ else s.origin) proc.call.key = _
          rw [if_pos hnone, Function.update_self]
      · rw [hnone] at hk
        exact absurd hk (by simp)
  | complete hcomp hpc =>
    rename_i response effects record pc'
    obtain ⟨row, stored, hrow, hresp, hget, -⟩ := complete_spec hcomp
    constructor
    · -- The response is the first one, or the one stored before.
      intro k row₀ hk
      show ∃ row', effects.get k = some row' ∧ RowKept row₀ row'
      rw [hget]
      split
      · rename_i hkey
        rw [hkey, hrow] at hk
        obtain rfl := Option.some.inj hk
        refine ⟨_, rfl, ?_⟩
        rcases hresp with hsome | ⟨hnone, -⟩
        · exact .inl (by rw [← hsome])
        · exact .inr ⟨hnone, stored, rfl⟩
      · exact ⟨row₀, hk, .inl rfl⟩
    · intro k _
      rfl
    · intro k row' hk hnone
      change effects.get k = some row' at hk
      rw [hget] at hk
      split at hk
      · rename_i hkey
        rw [hkey, hrow] at hnone
        exact absurd hnone (by simp)
      · rw [hnone] at hk
        exact absurd hk (by simp)
  | _ => exact .of_eq rfl rfl

/-! ## The invariant -/

/-- The row has the identity of the call. -/
def Matches (digest : Dict → String) (row : EffectRow) (c : Call) : Prop :=
  row.taskId = c.taskId ∧ row.kind = c.kind ∧ row.inputSha256 = digest c.inputs

/-- What a call that stands at a point knows of the row of its key. -/
def PcInv (digest : Dict → String) (row : EffectRow) (c : Call) : Pc → Prop
  | .sending record | .sent record => Matches digest row c ∧ record.request = row.request
  | .replied _ => Matches digest row c
  | .returned record => Matches digest row c ∧ record.request = row.request ∧
    record.response = row.response ∧ row.response.isSome
  | .called | .missing | .drafted _ | .raised _ => True

/-- Whether a call has got past the check of its identity. -/
def Pc.admitted : Pc → Bool
  | .sending _ | .sent _ | .replied _ | .returned _ => true
  | .called | .missing | .drafted _ | .raised _ => false

/-- The invariant of the journal. -/
structure JournalInv (digest : Dict → String) (s : State) : Prop where
  /-- The stored digest is that of the stored request. -/
  checksum : ∀ k row, s.effects.get k = some row → row.requestSha256 = digest row.request
  /-- A row has the identity of the call that inserted it. -/
  origin : ∀ k row, s.effects.get k = some row →
    ∃ c, s.origin k = some c ∧ c.key = k ∧ Matches digest row c
  /-- What was sent for a key is the request of its row. -/
  sends : ∀ k r, (k, r) ∈ s.sends → ∃ row, s.effects.get k = some row ∧ row.request = r
  proc : ∀ p proc, s.procs p = some proc → proc.pc.admitted = true →
    ∃ row, s.effects.get proc.call.key = some row ∧ PcInv digest row proc.call proc.pc

/-- What a call knows of a row stays true of it. -/
theorem PcInv.kept {digest : Dict → String} {row row' : EffectRow} {c : Call} {pc : Pc}
    (h : PcInv digest row c pc) (hk : RowKept row row') : PcInv digest row' c pc := by
  obtain ⟨hreq, -, htask, hkind, hsha, hresp⟩ := hk.spec
  have hmatch : Matches digest row c → Matches digest row' c := by
    rintro ⟨h₁, h₂, h₃⟩
    exact ⟨htask.trans h₁, hkind.trans h₂, hsha.trans h₃⟩
  rcases pc with _ | _ | request | record | record | response | record | e
  · trivial
  · trivial
  · trivial
  · exact ⟨hmatch h.1, h.2.trans hreq.symm⟩
  · exact ⟨hmatch h.1, h.2.trans hreq.symm⟩
  · exact hmatch h
  · obtain ⟨hm, hr, hs, hsome⟩ := h
    obtain ⟨r, hr'⟩ := Option.isSome_iff_exists.mp hsome
    have hnew := hresp r hr'
    refine ⟨hmatch hm, hr.trans hreq.symm, ?_, ?_⟩
    · rw [hs, hr', hnew]
    · rw [hnew]
      rfl
  · trivial

/-- A call that settles with the record of a row knows that row. -/
theorem settle_pcInv {digest : Dict → String} {key : String} {row : EffectRow} {c : Call}
    {record : EffectRecord} (hrec : recordOf digest key row = .ok record) :
    PcInv digest row c (settle digest c record) := by
  unfold recordOf at hrec
  split at hrec
  · exact absurd hrec (by simp)
  · obtain rfl := Except.ok.inj hrec
    unfold settle validateIdentity
    split_ifs with hid
    · dsimp only
      split
      · exact ⟨hid, rfl⟩
      · rename_i r hr
        refine ⟨hid, rfl, rfl, ?_⟩
        rw [hr]
        rfl
    · trivial

/-- A call that settles with the record of a row of another identity raises. -/
theorem settle_raised {digest : Dict → String} {key : String} {row : EffectRow} {c : Call}
    {record : EffectRecord} (hrec : recordOf digest key row = .ok record)
    (h : ¬ Matches digest row c) : ∃ e, settle digest c record = .raised e := by
  unfold recordOf at hrec
  split at hrec
  · exact absurd hrec (by simp)
  · obtain rfl := Except.ok.inj hrec
    unfold settle validateIdentity
    split_ifs with hid
    · exact absurd hid h
    · exact ⟨_, rfl⟩

/-- The row of a call after its own move. -/
theorem Move.self {digest : Dict → String} {s s' : State} {p : ℕ} {proc proc' : Proc}
    (h : Move digest s p proc proc.pc s') (hi : JournalInv digest s) (hp : s.procs p = some proc)
    (hp' : s'.procs p = some proc') (had : proc'.pc.admitted = true) :
    ∃ row, s'.effects.get proc'.call.key = some row ∧ PcInv digest row proc'.call proc'.pc := by
  -- A move goes to one program point of its own process.
  have hgoto : ∀ {t : State} {pc : Pc}, (t.goto p proc pc).procs p = some proc' →
      proc' = { proc with pc := pc } := by
    intro t pc ht
    rw [show (t.goto p proc pc).procs = Function.update t.procs p (some { proc with pc := pc })
      from rfl, Function.update_self] at ht
    exact (Option.some.inj ht).symm
  have hold := hi.proc p proc hp
  generalize hpc : proc.pc = pc at h hold
  cases h with
  | fail =>
    rw [hgoto hp'] at had
    exact absurd had (by simp [Pc.admitted])
  | miss =>
    rw [hgoto hp'] at had
    exact absurd had (by simp [Pc.admitted])
  | found hrow hrec =>
    rw [hgoto hp']
    exact ⟨_, hrow, settle_pcInv hrec⟩
  | draft =>
    rw [hgoto hp'] at had
    exact absurd had (by simp [Pc.admitted])
  | prepare hprep hcase =>
    obtain ⟨row, hget, -, hrec, -⟩ := prepare_spec hprep
    rw [hgoto hp'] at had ⊢
    refine ⟨row, (hget proc.call.key).trans (if_pos rfl), ?_⟩
    -- The reply of the insert is lost: the call raises and holds nothing.
    rcases hcase with rfl | ⟨e, rfl⟩
    · exact settle_pcInv hrec
    · trivial
  | send =>
    rw [hgoto hp']
    exact hold rfl
  | reply =>
    rw [hgoto hp']
    obtain ⟨row, hrow, hm, -⟩ := hold rfl
    exact ⟨row, hrow, hm⟩
  | complete hcomp hcase =>
    obtain ⟨row₀, hrow₀, hm⟩ := hold rfl
    obtain ⟨row, stored, hrow, -, hget, hrec⟩ := complete_spec hcomp
    rw [hrow₀] at hrow
    obtain rfl := Option.some.inj hrow
    rw [hgoto hp'] at had ⊢
    refine ⟨_, (hget proc.call.key).trans (if_pos rfl), ?_⟩
    -- The same for the response.
    rcases hcase with rfl | ⟨e, rfl⟩
    · unfold recordOf at hrec
      split at hrec
      · exact absurd hrec (by simp)
      · obtain rfl := Except.ok.inj hrec
        exact ⟨hm, rfl, rfl, rfl⟩
    · trivial

/-- The other calls stand where they stood. -/
theorem Move.others {digest : Dict → String} {s s' : State} {p q : ℕ} {proc : Proc} {pc : Pc}
    (h : Move digest s p proc pc s') (hq : q ≠ p) : s'.procs q = s.procs q := by
  cases h <;> exact Function.update_of_ne hq ..

/-- A move sends nothing but the request of its record. -/
theorem Move.sends {digest : Dict → String} {s s' : State} {p : ℕ} {proc : Proc} {pc : Pc}
    (h : Move digest s p proc pc s') :
    s'.sends = s.sends ∨ ∃ record, pc = .sending record ∧ s'.effects = s.effects ∧
      s'.sends = s.sends ++ [(proc.call.key, record.request)] := by
  cases h with
  | send => exact .inr ⟨_, rfl, rfl, rfl⟩
  | _ => exact .inl rfl

/-- The steps of the journal. -/
theorem step_cases {digest : Dict → String} {s s' : State} {a : Action}
    (h : step digest s a = some s') :
    (∃ p c, s.procs p = none ∧
      s' = { s with procs := Function.update s.procs p (some ⟨c, .called⟩) }) ∨
    (∃ p proc, s.procs p = some proc ∧ Move digest s p proc proc.pc s') ∨
    ∃ p, s' = { s with procs := Function.update s.procs p none } := by
  rcases a with ⟨p, c⟩ | ⟨p, choice⟩ | p
  · simp only [step] at h
    split at h
    · exact .inl ⟨p, c, ‹_›, (Option.some.inj h).symm⟩
    · exact absurd h (by simp)
  · simp only [step] at h
    split at h
    · exact absurd h (by simp)
    · exact .inr (.inl ⟨p, _, ‹_›, State.work_move h⟩)
  · exact .inr (.inr ⟨p, (Option.some.inj h).symm⟩)

/-- The table evolves in every step. -/
theorem step_evolves {digest : Dict → String} {s s' : State} {a : Action}
    (h : step digest s a = some s') : Evolves digest s s' := by
  rcases step_cases h with ⟨p, c, -, rfl⟩ | ⟨p, proc, -, hm⟩ | ⟨p, rfl⟩
  · exact .of_eq rfl rfl
  · exact hm.evolves
  · exact .of_eq rfl rfl

/-- What is known of a row stays known of it. -/
theorem Evolves.pcInv {digest : Dict → String} {s s' : State} (h : Evolves digest s s') {k : String}
    {c : Call} {pc : Pc} (hp : ∃ row, s.effects.get k = some row ∧ PcInv digest row c pc) :
    ∃ row, s'.effects.get k = some row ∧ PcInv digest row c pc := by
  obtain ⟨row, hrow, hinv⟩ := hp
  obtain ⟨row', hrow', hkept⟩ := h.rows k row hrow
  exact ⟨row', hrow', hinv.kept hkept⟩

/-- Every step keeps the invariant. -/
theorem JournalInv.step {digest : Dict → String} {s s' : State} {a : Action}
    (hi : JournalInv digest s) (h : step digest s a = some s') : JournalInv digest s' := by
  have hev := step_evolves h
  constructor
  · -- Checksums: a new row has that of its request, and no request changes.
    intro k row' hk'
    cases hk : s.effects.get k with
    | none =>
      obtain ⟨c, -, -, -, -, -, hsum⟩ := hev.fresh k row' hk' hk
      exact hsum
    | some row =>
      obtain ⟨row'', hk'', hkept⟩ := hev.rows k row hk
      rw [hk'] at hk''
      obtain rfl := Option.some.inj hk''
      obtain ⟨hreq, hsum, -⟩ := hkept.spec
      rw [hreq, hsum]
      exact hi.checksum k row hk
  · -- Origins: a new row is its first caller's.
    intro k row' hk'
    cases hk : s.effects.get k with
    | none =>
      obtain ⟨c, hc, hkey, h₁, h₂, h₃, -⟩ := hev.fresh k row' hk' hk
      exact ⟨c, hc, hkey, h₁, h₂, h₃⟩
    | some row =>
      obtain ⟨row'', hk'', hkept⟩ := hev.rows k row hk
      rw [hk'] at hk''
      obtain rfl := Option.some.inj hk''
      obtain ⟨-, -, htask, hkind, hsha, -⟩ := hkept.spec
      obtain ⟨c, hc, hkey, h₁, h₂, h₃⟩ := hi.origin k row hk
      refine ⟨c, ?_, hkey, htask.trans h₁, hkind.trans h₂, hsha.trans h₃⟩
      rw [hev.origin k (by rw [hk]; rfl), hc]
  · -- A send is of the request its call has seen in the row.
    intro k r hmem
    have hold : (k, r) ∈ s.sends → ∃ row, s'.effects.get k = some row ∧ row.request = r := by
      intro hmem
      obtain ⟨row, hrow, hreq⟩ := hi.sends k r hmem
      obtain ⟨row', hrow', hkept⟩ := hev.rows k row hrow
      exact ⟨row', hrow', hkept.spec.1.trans hreq⟩
    rcases step_cases h with ⟨p, c, -, rfl⟩ | ⟨p, proc, hp, hm⟩ | ⟨p, rfl⟩
    · exact hold hmem
    · rcases hm.sends with hs | ⟨record, hpc, he, hs⟩
      · rw [hs] at hmem
        exact hold hmem
      · rw [hs, List.mem_append, List.mem_singleton] at hmem
        rcases hmem with hmem | hmem
        · exact hold hmem
        · obtain ⟨rfl, rfl⟩ : k = _ ∧ r = _ := by simpa using hmem
          obtain ⟨row, hrow, hinv⟩ := hi.proc p proc hp (by rw [hpc]; rfl)
          rw [hpc] at hinv
          rw [he]
          exact ⟨row, hrow, hinv.2.symm⟩
    · exact hold hmem
  · -- A process is held by its own move, or by what the move of another one keeps.
    intro q proc' hq had
    rcases step_cases h with ⟨p, c, hp, rfl⟩ | ⟨p, proc, hp, hm⟩ | ⟨p, rfl⟩
    · by_cases hqp : q = p
      · subst hqp
        dsimp only at hq
        rw [Function.update_self] at hq
        obtain rfl := Option.some.inj hq
        exact absurd had (by simp [Pc.admitted])
      · dsimp only at hq
        rw [Function.update_of_ne hqp] at hq
        exact hi.proc q proc' hq had
    · by_cases hqp : q = p
      · subst hqp
        exact hm.self hi hp hq had
      · rw [hm.others hqp] at hq
        exact hev.pcInv (hi.proc q proc' hq had)
    · by_cases hqp : q = p
      · subst hqp
        dsimp only at hq
        rw [Function.update_self] at hq
        exact absurd hq (by simp)
      · dsimp only at hq
        rw [Function.update_of_ne hqp] at hq
        exact hi.proc q proc' hq had

/-- The invariant holds in every reachable state. -/
theorem reachable_journal {digest : Dict → String} {s : State}
    (h : (journal digest).Reachable s) : JournalInv digest s := by
  refine h.invariant (fun s hs => ?_) (fun s a s' _ hi hs => hi.step hs)
  obtain rfl : s = .initial := hs
  refine ⟨fun k row hk => ?_, fun k row hk => ?_, fun k r hr => ?_, fun p proc hp => ?_⟩
  · exact absurd hk (by simp [State.initial])
  · exact absurd hk (by simp [State.initial])
  · exact absurd hr (by simp [State.initial])
  · exact absurd hp (by simp [State.initial])

/-! ## The result -/

/-- A row is kept along every run. -/
theorem leads_kept {digest : Dict → String} {s s' : State} {k : String} {row : EffectRow}
    (hs : (journal digest).Reachable s) (hl : (journal digest).Leads s s')
    (hk : s.effects.get k = some row) :
    ∃ row', s'.effects.get k = some row' ∧ row'.request = row.request ∧
      row'.inputSha256 = row.inputSha256 ∧ row'.taskId = row.taskId ∧ row'.kind = row.kind ∧
      ∀ r, row.response = some r → row'.response = some r := by
  refine Machine.Leads.stable (P := fun t => ∃ row', t.effects.get k = some row' ∧
    row'.request = row.request ∧ row'.inputSha256 = row.inputSha256 ∧
    row'.taskId = row.taskId ∧ row'.kind = row.kind ∧
    ∀ r, row.response = some r → row'.response = some r) (fun t a t' _ hP hstep => ?_) hs
    ⟨row, hk, rfl, rfl, rfl, rfl, fun _ h => h⟩ hl
  obtain ⟨row₁, hk₁, h₁, h₂, h₃, h₄, h₅⟩ := hP
  obtain ⟨row₂, hk₂, hkept⟩ := (step_evolves hstep).rows k row₁ hk₁
  obtain ⟨g₁, -, g₃, g₄, g₂, g₅⟩ := hkept.spec
  exact ⟨row₂, hk₂, g₁.trans h₁, g₂.trans h₂, g₃.trans h₃, g₄.trans h₄,
    fun r hr => g₅ r (h₅ r hr)⟩

/-- A call that has got past its identity check has the identity of the call that inserted the
row, when digests do not collide. -/
theorem admitted_identity {digest : Dict → String} (hdig : Function.Injective digest) {s : State}
    (hi : JournalInv digest s) {p : ℕ} {proc : Proc} {c : Call} (hp : s.procs p = some proc)
    (ho : s.origin proc.call.key = some c) (had : proc.pc.admitted = true) : proc.call = c := by
  obtain ⟨row, hrow, hinv⟩ := hi.proc p proc hp had
  obtain ⟨c', hc', hkey, h₁, h₂, h₃⟩ := hi.origin _ row hrow
  rw [ho] at hc'
  obtain rfl := Option.some.inj hc'
  have hm : Matches digest row proc.call := by
    generalize proc.pc = pc at hinv had
    rcases pc with _ | _ | request | record | record | response | record | e
    · exact absurd had (by simp [Pc.admitted])
    · exact absurd had (by simp [Pc.admitted])
    · exact absurd had (by simp [Pc.admitted])
    · exact hinv.1
    · exact hinv.1
    · exact hinv
    · exact hinv.1
    · exact absurd had (by simp [Pc.admitted])
  obtain ⟨g₁, g₂, g₃⟩ := hm
  obtain ⟨task, key, kind, inputs⟩ := c
  obtain ⟨⟨task', key', kind', inputs'⟩, pc⟩ := proc
  dsimp only at *
  have hin : inputs' = inputs := hdig (g₃.symm.trans h₃)
  rw [← g₁, ← g₂, h₁, h₂, hin, hkey]

/-- A call whose identity is not that of the row of its key, when it moves, writes nothing and sends
nothing, and either raises or has drafted a request. -/
theorem Move.mismatch {digest : Dict → String} (hdig : Function.Injective digest) {s s' : State}
    (hi : JournalInv digest s) {p : ℕ} {proc : Proc} {c : Call} {row : EffectRow}
    (hm : Move digest s p proc proc.pc s') (hp : s.procs p = some proc)
    (hrow : s.effects.get proc.call.key = some row) (ho : s.origin proc.call.key = some c)
    (hne : proc.call ≠ c) :
    s'.effects = s.effects ∧ s'.sends = s.sends ∧
      ∃ proc', s'.procs p = some proc' ∧ proc'.call = proc.call ∧
        ((∃ e, proc'.pc = .raised e) ∨ ∃ request, proc'.pc = .drafted request) := by
  have hnot : proc.pc.admitted = false := by
    by_contra had
    exact hne (admitted_identity hdig hi hp ho (by simpa using had))
  -- The row does not have the identity of the call.
  have hother : ¬ Matches digest row proc.call := by
    rintro ⟨g₁, g₂, g₃⟩
    obtain ⟨c', hc', hkey, h₁, h₂, h₃⟩ := hi.origin _ row hrow
    rw [ho] at hc'
    obtain rfl := Option.some.inj hc'
    obtain ⟨task, key, kind, inputs⟩ := c
    obtain ⟨⟨task', key', kind', inputs'⟩, pc⟩ := proc
    dsimp only at *
    apply hne
    have hin : inputs' = inputs := hdig (g₃.symm.trans h₃)
    rw [← g₁, ← g₂, h₁, h₂, hin, hkey]
  have hself : ∀ (t : State) (pc : Pc), (t.goto p proc pc).procs p = some { proc with pc := pc } :=
    fun t pc => Function.update_self ..
  generalize hpc : proc.pc = pc at hm hnot
  cases hm with
  | fail => exact ⟨rfl, rfl, _, hself s _, rfl, .inl ⟨_, rfl⟩⟩
  | miss hnone =>
    rw [hrow] at hnone
    exact absurd hnone (by simp)
  | found hrow' hrec =>
    rename_i record row'
    rw [hrow] at hrow'
    obtain rfl := Option.some.inj hrow'
    exact ⟨rfl, rfl, _, hself s _, rfl, .inl (settle_raised hrec hother)⟩
  | draft => exact ⟨rfl, rfl, _, hself s _, rfl, .inr ⟨_, rfl⟩⟩
  | prepare hprep hcase =>
    obtain ⟨row', -, hold, -, h₁, h₂, h₃⟩ := prepare_spec hprep
    rw [hrow] at hold
    rcases hold with hold | ⟨hnone, -⟩
    · obtain rfl := Option.some.inj hold
      exact absurd ⟨h₁, h₂, h₃⟩ hother
    · exact absurd hnone (by simp)
  | send => exact absurd hnot (by simp [Pc.admitted])
  | reply => exact absurd hnot (by simp [Pc.admitted])
  | complete hcomp hcase => exact absurd hnot (by simp [Pc.admitted])

/-- At most one request for each effect key. In every reachable state of the journal: a call about
to send finds its request committed in the row of its key; everything sent for a key is the request
of its row; request, input digest, Task and kind of a row never change again, nor does a response it
has; calls that return, now or later, return the one response of the row of their key; a row has the
identity of the call that inserted it; and a call with another identity for the key of a row is
never past its check, and whatever it does writes nothing, sends nothing and ends in an error. -/
theorem journal_single_request (digest : Dict → String) (hdig : Function.Injective digest)
    (s : State) (hs : (journal digest).Reachable s) :
    (∀ p proc record, s.procs p = some proc → proc.pc = .sending record →
      ∃ row, s.effects.get proc.call.key = some row ∧ row.request = record.request) ∧
    (∀ k r, (k, r) ∈ s.sends → ∃ row, s.effects.get k = some row ∧ row.request = r) ∧
    (∀ s' k row, (journal digest).Leads s s' → s.effects.get k = some row →
      ∃ row', s'.effects.get k = some row' ∧ row'.request = row.request ∧
        row'.inputSha256 = row.inputSha256 ∧ row'.taskId = row.taskId ∧ row'.kind = row.kind ∧
        ∀ r, row.response = some r → row'.response = some r) ∧
    (∀ s' p q proc proc' record record', (journal digest).Leads s s' →
      s.procs p = some proc → proc.pc = .returned record →
      s'.procs q = some proc' → proc'.pc = .returned record' → proc'.call.key = proc.call.key →
      ∃ row r, s'.effects.get proc.call.key = some row ∧ row.response = some r ∧
        record.response = some r ∧ record'.response = some r) ∧
    (∀ k row, s.effects.get k = some row → ∃ c, s.origin k = some c ∧ c.key = k ∧
      row.taskId = c.taskId ∧ row.kind = c.kind ∧ row.inputSha256 = digest c.inputs) ∧
    (∀ p proc row c, s.procs p = some proc → s.effects.get proc.call.key = some row →
      s.origin proc.call.key = some c →
      proc.call.taskId ≠ c.taskId ∨ proc.call.kind ≠ c.kind ∨ proc.call.inputs ≠ c.inputs →
      proc.pc.admitted = false ∧
        ∀ choice s', step digest s (.work p choice) = some s' →
          s'.effects = s.effects ∧ s'.sends = s.sends ∧
            ∃ proc', s'.procs p = some proc' ∧ proc'.call = proc.call ∧
              ((∃ e, proc'.pc = .raised e) ∨ ∃ request, proc'.pc = .drafted request)) := by
  have hi := reachable_journal hs
  refine ⟨?_, hi.sends, fun s' k row hl hk => leads_kept hs hl hk, ?_, hi.origin, ?_⟩
  · intro p proc record hp hpc
    obtain ⟨row, hrow, hinv⟩ := hi.proc p proc hp (by rw [hpc]; rfl)
    rw [hpc] at hinv
    exact ⟨row, hrow, hinv.2.symm⟩
  · -- The response returned is the row's, which is kept to the later return.
    intro s' p q proc proc' record record' hl hp hpc hq hqc hkey
    obtain ⟨row, hrow, hinv⟩ := hi.proc p proc hp (by rw [hpc]; rfl)
    rw [hpc] at hinv
    obtain ⟨-, -, hresp, hsome⟩ := hinv
    obtain ⟨r, hr⟩ := Option.isSome_iff_exists.mp hsome
    obtain ⟨row₁, hrow₁, -, -, -, -, hkept⟩ := leads_kept hs hl hrow
    obtain ⟨row₂, hrow₂, hinv'⟩ :=
      (reachable_journal (hs.leads hl)).proc q proc' hq (by rw [hqc]; rfl)
    rw [hkey, hrow₁] at hrow₂
    obtain rfl := Option.some.inj hrow₂
    rw [hqc] at hinv'
    exact ⟨row₁, r, hrow₁, hkept r hr, hresp.trans hr, hinv'.2.2.1.trans (hkept r hr)⟩
  · intro p proc row c hp hrow ho hdiff
    have hne : proc.call ≠ c := by
      rintro rfl
      rcases hdiff with h | h | h <;> exact h rfl
    refine ⟨?_, fun choice s' hstep => ?_⟩
    · by_contra had
      exact hne (admitted_identity hdig hi hp ho (by simpa using had))
    · simp only [step, hp] at hstep
      exact (State.work_move hstep).mismatch hdig hi hp hrow ho hne

/-! ## A run on concrete inputs

The digest of the run writes out the members, with a mark before every character and another after
every text, so that it does not collide. -/

/-- A text with a mark before each character and one at the end. -/
def marked : List Char → List Char
  | [] => ['e']
  | c :: cs => 'x' :: c :: marked cs

/-- A marked text is read back from in front of any other text. -/
theorem marked_append_inj (a b u v : List Char) (h : marked a ++ u = marked b ++ v) :
    a = b ∧ u = v := by
  induction a generalizing b with
  | nil =>
    cases b with
    | nil => simpa [marked] using h
    | cons c cs => exact absurd h (by simp [marked])
  | cons c cs ih =>
    cases b with
    | nil => exact absurd h (by simp [marked])
    | cons d ds =>
      simp only [marked, List.cons_append, List.cons.injEq, true_and] at h
      obtain ⟨rfl, h⟩ := h
      obtain ⟨rfl, rfl⟩ := ih ds h
      exact ⟨rfl, rfl⟩

/-- The members of an object, marked one after the other. -/
def markedMembers : List (String × String) → List Char
  | [] => []
  | m :: ms => marked m.1.toList ++ (marked m.2.toList ++ markedMembers ms)

/-- Marked members are read back. -/
theorem markedMembers_inj (a b : List (String × String)) (h : markedMembers a = markedMembers b) :
    a = b := by
  -- A marked text is never empty, so the lists have the same length.
  have hne : ∀ cs : List Char, marked cs ≠ [] := by
    intro cs
    cases cs <;> simp [marked]
  induction a generalizing b with
  | nil =>
    cases b with
    | nil => rfl
    | cons m ms => exact absurd h.symm (by simp [markedMembers, hne])
  | cons m ms ih =>
    cases b with
    | nil => exact absurd h (by simp [markedMembers, hne])
    | cons n ns =>
      obtain ⟨h₁, h⟩ := marked_append_inj _ _ _ _ h
      obtain ⟨h₂, h⟩ := marked_append_inj _ _ _ _ h
      rw [ih ns h, Prod.ext (String.toList_inj.mp h₁) (String.toList_inj.mp h₂)]

/-- A digest for runs on concrete inputs. -/
def sampleDigest (d : Dict) : String := String.ofList (markedMembers d.members)

/-- The sample digest does not collide. -/
theorem sampleDigest_injective : Function.Injective sampleDigest := by
  intro a b h
  have hm := markedMembers_inj _ _ (String.ofList_injective h)
  obtain ⟨ma, ha⟩ := a
  obtain ⟨mb, hb⟩ := b
  dsimp only at hm
  subst hm
  rfl

/-- An object with one member. -/
def sampleDict (key value : String) : Dict := ⟨[(key, value)], by simp⟩

/-- A call for runs on concrete inputs. -/
def sampleCall (input : String) : Call := ⟨1, "task:1:submit:1", "submit", sampleDict "plan" input⟩

/-- Two calls find no row, draft different requests, and both send; a third one has other inputs. -/
def raceRun : List Action :=
  [.call 1 (sampleCall "p"), .call 2 (sampleCall "p"), .work 1 .ok, .work 2 .ok,
    .work 1 (.value (sampleDict "body" "first")), .work 2 (.value (sampleDict "body" "second")),
    .work 1 .ok, .work 2 .ok, .work 2 .ok, .work 1 .ok,
    .work 2 (.value (sampleDict "execution_version" "1")),
    .work 1 (.value (sampleDict "execution_version" "2")), .work 1 .ok, .work 2 .ok,
    .call 3 (sampleCall "q"), .work 3 .ok]

/-- At the end of that run both calls have sent the first request and returned the first stored
response, and the third call has raised. -/
theorem journal_single_request_raceRun :
    ∃ s, (journal sampleDigest).run .initial raceRun = some s ∧
      s.sends = [("task:1:submit:1", sampleDict "body" "first"),
        ("task:1:submit:1", sampleDict "body" "first")] ∧
      (∃ e, (s.procs 3).map Proc.pc = some (.raised e)) ∧
      ∀ k r, (k, r) ∈ s.sends → ∃ row, s.effects.get k = some row ∧ row.request = r := by
  have hrun : (journal sampleDigest).run .initial raceRun = some _ := rfl
  exact ⟨_, hrun, by rfl, ⟨_, rfl⟩,
    (journal_single_request sampleDigest sampleDigest_injective _
      (Machine.Reachable.run (.start rfl) hrun)).2.1⟩

end ExAgent.Effects
