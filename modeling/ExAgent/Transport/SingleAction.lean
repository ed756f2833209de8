import ExAgent.Transport.DeadLetterActions

/-!
# A dead letter is acted on once

For an entry of the dead-letter stream: however the calls of `replay` and `discard` interleave that
name it by its ID, one at most is applied; the entry goes, and one audit record is written, exactly
when one is applied; every other call reports that action or raises (`dead_letter_actions`). A call
without an actor or a reason raises `ValueError` before it looks at the entry.

The marker may expire at any time: a later call then finds no entry.
-/

namespace ExAgent.Transport.DeadLetterManager

open Lib Lib.JsonText Worker.RedisStreamConsumer

/-! ## Texts of IDs -/

/-- The decimal text of a 64-bit part is read back. -/
theorem parsePart_decimal {n : ℕ} (h : n < 2 ^ 64) : parsePart (decimal n) = some n := by
  have hdigits : (decimal n).all Char.isDigit = true :=
    List.all_eq_true.mpr (DecimalText.digits_decimal n)
  unfold parsePart
  rw [DecimalText.value_decimal]
  exact if_pos ⟨DecimalText.decimal_ne_nil n, hdigits, h⟩

/-- The text of an ID of the server stands for the ID. -/
theorem parseId_text {id : StreamId} (h : Fits id) (missing : ℕ) :
    parseId missing id.text = some id := by
  unfold parseId StreamId.text
  rw [StreamId.span_digits (DecimalText.digits_decimal _)]
  simp only [parsePart_decimal h.1, parsePart_decimal h.2, Option.bind_some, Option.map_some]
  rfl

/-- It is the range of this ID alone. -/
theorem rangeOf_text {id : StreamId} (h : Fits id) : rangeOf id.text = some (id, id) := by
  have hparse := parseId_text h
  have hdigit : ∀ c ∈ id.text.head?, c.isDigit = true := by
    intro c hc
    have hhead : id.text.head? = (decimal id.milliseconds).head? := by
      unfold StreamId.text
      exact List.head?_append_of_ne_nil _ (DecimalText.decimal_ne_nil _)
    rw [hhead] at hc
    exact DecimalText.digits_decimal _ c (List.mem_of_mem_head? hc)
  unfold rangeOf
  split
  · rename_i heq
    rw [heq] at hdigit
    exact absurd (hdigit '-' rfl) (by decide)
  · rename_i heq
    rw [heq] at hdigit
    exact absurd (hdigit '+' rfl) (by decide)
  · rename_i heq
    rw [heq] at hdigit
    exact absurd (hdigit '(' rfl) (by decide)
  · rw [hparse, hparse]
    rfl

/-- The parts that the missing sequence number stands in for. -/
theorem parseId_mono {text : List Char} {low : StreamId} (h : parseId 0 text = some low) :
    ∃ high, parseId maxPart text = some high ∧ low ≤ high := by
  unfold parseId at h ⊢
  split at h
  · obtain ⟨ms, hms, rfl⟩ := Option.map_eq_some_iff.mp h
    refine ⟨toLex (ms, maxPart), by rw [hms]; rfl, ?_⟩
    rw [← not_lt, StreamId.lt_iff]
    simp [StreamId.milliseconds, StreamId.sequence]
  · exact ⟨low, h, le_rfl⟩
  · cases h

/-- The ID that `XDEL` takes from a text is in its range. -/
theorem rangeOf_of_parseId {text : List Char} {id : StreamId} {range : StreamId × StreamId}
    (hrange : rangeOf text = some range) (hid : parseId 0 text = some id) :
    range.1 ≤ id ∧ id ≤ range.2 := by
  obtain ⟨high, hhigh, hle⟩ := parseId_mono hid
  have hopen : ∀ rest, parseId 0 ('(' :: rest) = none := by
    intro rest
    have hspan : ('(' :: rest).span Char.isDigit = ([], '(' :: rest) := by
      have hparen : Char.isDigit '(' = false := by decide
      rw [List.span_eq_takeWhile_dropWhile]
      simp [hparen]
    unfold parseId
    rw [hspan]
    simp
  have hleast : parseId 0 ['-'] = none := by decide
  have hgreatest : parseId 0 ['+'] = none := by decide
  unfold rangeOf at hrange
  split at hrange
  · rw [hleast] at hid
    cases hid
  · rw [hgreatest] at hid
    cases hid
  · rw [hopen] at hid
    cases hid
  · rw [hid, hhigh] at hrange
    obtain rfl := Option.some.inj hrange
    exact ⟨le_rfl, hle⟩

/-! ## Entries by their ID -/

/-- The ID of an entry stands for this entry. -/
theorem Log.xrange_mem {s : Log} {id : StreamId} {fields : Fields} (h : (id, fields) ∈ s.entries) :
    s.xrange id.text = some [(id, fields)] := by
  have hunique : ∀ (l : List (StreamId × Fields)), (l.map Prod.fst).Pairwise (· < ·) →
      (id, fields) ∈ l → l.filter (fun e => id ≤ e.1 ∧ e.1 ≤ id) = [(id, fields)] := by
    intro l hl hmem
    induction l with
    | nil => cases hmem
    | cons e rest ih =>
      obtain ⟨hhead, htail⟩ := List.pairwise_cons.mp hl
      rcases List.mem_cons.mp hmem with rfl | hmem
      · have hnone : rest.filter (fun e => id ≤ e.1 ∧ e.1 ≤ id) = [] := by
          refine List.filter_eq_nil_iff.mpr fun e he => ?_
          have hlt := hhead e.1 (List.mem_map_of_mem he)
          simp [hlt.not_ge]
        rw [List.filter_cons, if_pos (by simp), hnone]
      · have hlt := hhead id (List.mem_map_of_mem hmem)
        rw [List.filter_cons, if_neg (by simp [hlt.not_ge]), ih htail hmem]
  unfold Log.xrange
  rw [rangeOf_text (s.fits _ h)]
  exact congrArg some (hunique s.entries s.sorted h)

/-- The ID of no entry stands for none. -/
theorem Log.xrange_gone {s : Log} {id : StreamId} (hfits : Fits id)
    (h : ∀ fields, (id, fields) ∉ s.entries) :
    s.xrange id.text = some [] := by
  unfold Log.xrange
  rw [rangeOf_text hfits]
  refine congrArg some (List.filter_eq_nil_iff.mpr fun e he heq => ?_)
  obtain ⟨hle, hge⟩ : id ≤ e.1 ∧ e.1 ≤ id := by simpa using heq
  obtain rfl := le_antisymm hle hge
  exact h e.2 he

section Scripts

/-! ## What a script does -/

variable {spell : PyJson .value → PyText} {L : Lua} {M : Manager} {id : StreamId}

/-- A change of the server that leaves an entry and its marker as they were. -/
structure Spares (M : Manager) (id : StreamId) (R R' : Redis) : Prop where
  marker : R'.markers (M.markerKey id.text) = R.markers (M.markerKey id.text)
  entry : id ≤ (R.streams M.dlqStream).lastId → ∀ fields,
    (id, fields) ∈ (R'.streams M.dlqStream).entries ↔ (id, fields) ∈ (R.streams M.dlqStream).entries
  lastId : (R.streams M.dlqStream).lastId ≤ (R'.streams M.dlqStream).lastId

/-- Nothing done spares an entry. -/
theorem Spares.refl (R : Redis) : Spares M id R R := ⟨rfl, fun _ _ => Iff.rfl, le_rfl⟩

/-- Commands that spare an entry follow each other. -/
theorem Spares.trans {R R' R'' : Redis} (h : Spares M id R R') (h' : Spares M id R' R'') :
    Spares M id R R'' where
  marker := h'.marker.trans h.marker
  entry := fun hle fields => (h'.entry (hle.trans h.lastId) fields).trans (h.entry hle fields)
  lastId := h.lastId.trans h'.lastId

/-- The server gives out new IDs. -/
theorem Redis.xadd_some {R R' : Redis} {key : PyText} {new : StreamId} {fields : Fields}
    (h : R.xadd key new fields = some R') :
    ∃ hnew : (R.streams key).lastId < new ∧ Fits new,
      R' = { R with
        streams := Function.update R.streams key ((R.streams key).push new fields hnew) } := by
  unfold Redis.xadd at h
  split at h
  · rename_i hnew
    exact ⟨hnew, (Option.some.inj h).symm⟩
  · cases h

/-- XADD spares the entries there are. -/
theorem Spares.xadd {R R' : Redis} {key : PyText} {new : StreamId} {fields : Fields}
    (h : R.xadd key new fields = some R') : Spares M id R R' := by
  obtain ⟨hnew, rfl⟩ := Redis.xadd_some h
  refine ⟨rfl, fun hle others => ?_, ?_⟩
  · by_cases hkey : M.dlqStream = key
    · rw [hkey] at hle ⊢
      have hne : id ≠ new := (hle.trans_lt hnew.1).ne
      show (id, others) ∈ (Function.update R.streams key _ key).entries ↔ _
      rw [Function.update_self]
      simp [Log.push, hne]
    · show (id, others) ∈ (Function.update R.streams key _ M.dlqStream).entries ↔ _
      rw [Function.update_of_ne hkey]
  · by_cases hkey : M.dlqStream = key
    · rw [hkey]
      show _ ≤ (Function.update R.streams key _ key).lastId
      rw [Function.update_self]
      exact hnew.1.le
    · show _ ≤ (Function.update R.streams key _ M.dlqStream).lastId
      rw [Function.update_of_ne hkey]

/-- The new entry is there. -/
theorem Redis.xadd_mem {R R' : Redis} {key : PyText} {new : StreamId} {fields : Fields}
    (h : R.xadd key new fields = some R') : (new, fields) ∈ (R'.streams key).entries := by
  obtain ⟨hnew, rfl⟩ := Redis.xadd_some h
  show (new, fields) ∈ (Function.update R.streams key _ key).entries
  rw [Function.update_self]
  exact List.mem_append_right _ (List.mem_singleton_self _)

/-- It was not there before. -/
theorem Redis.xadd_new {R R' : Redis} {key : PyText} {new : StreamId} {fields : Fields}
    (h : R.xadd key new fields = some R') : new ∉ (R.streams key).entries.map Prod.fst := by
  obtain ⟨hnew, -⟩ := Redis.xadd_some h
  intro hmem
  obtain ⟨e, he, rfl⟩ := List.mem_map.mp hmem
  exact absurd hnew.1 ((R.streams key).bounded e he).not_gt

/-- The entries stay when another one is added. -/
theorem Redis.xadd_keeps {R R' : Redis} {key : PyText} {new : StreamId} {fields : Fields}
    (h : R.xadd key new fields = some R') {stream : PyText} {e : StreamId × Fields}
    (he : e ∈ (R.streams stream).entries) : e ∈ (R'.streams stream).entries := by
  obtain ⟨hnew, rfl⟩ := Redis.xadd_some h
  by_cases hkey : stream = key
  · rw [hkey] at he ⊢
    show e ∈ (Function.update R.streams key _ key).entries
    rw [Function.update_self]
    exact List.mem_append_left _ he
  · show e ∈ (Function.update R.streams key _ stream).entries
    rw [Function.update_of_ne hkey]
    exact he

/-- An entry other than the deleted one stays. -/
theorem Redis.xdel_keeps {R : Redis} {gone : StreamId} {key stream : PyText} {e : StreamId × Fields}
    (he : e ∈ (R.streams stream).entries) (hne : stream = key → e.1 ≠ gone) :
    e ∈ ((R.xdel key gone).streams stream).entries := by
  by_cases hkey : stream = key
  · have hne := hne hkey
    rw [hkey] at he ⊢
    show e ∈ (Function.update R.streams key _ key).entries
    rw [Function.update_self]
    exact List.mem_filter.mpr ⟨he, decide_eq_true hne⟩
  · show e ∈ (Function.update R.streams key _ stream).entries
    rw [Function.update_of_ne hkey]
    exact he

/-- XDEL of another entry spares an entry. -/
theorem Spares.xdel {R : Redis} {gone : StreamId} (hne : gone ≠ id) :
    Spares M id R (R.xdel M.dlqStream gone) := by
  refine ⟨rfl, fun _ fields => ?_, ?_⟩
  · show (id, fields) ∈ (Function.update R.streams M.dlqStream _ M.dlqStream).entries ↔ _
    rw [Function.update_self]
    simp [Log.remove, hne.symm]
  · show _ ≤ (Function.update R.streams M.dlqStream _ M.dlqStream).lastId
    rw [Function.update_self]
    exact le_rfl

/-- SET of another marker spares an entry. -/
theorem Spares.set {R : Redis} {key marker : PyText} (hne : M.markerKey id.text ≠ key) :
    Spares M id R (R.set key marker) :=
  ⟨Function.update_of_ne hne _ _, fun _ _ => Iff.rfl, le_rfl⟩

/-- The deleted entry is gone. -/
theorem Redis.xdel_gone {R : Redis} {gone : StreamId} {key : PyText} (fields : Fields) :
    (gone, fields) ∉ ((R.xdel key gone).streams key).entries := by
  show (gone, fields) ∉ (Function.update R.streams key _ key).entries
  rw [Function.update_self]
  simp [Log.remove]

/-- What a script can do: it finds a marker; it finds no entry; it fails before it changes anything,
or at the deletion; or it is applied. -/
inductive Ran (action : DeadLetterAction) (L : Lua) (M : Manager) (a : Arguments)
    (d : Draw) (R : Redis) :
    Redis → Reply → Prop
  | marked {prior : PyText} (h : R.markers (M.markerKey a.entryId) = some prior) :
    Ran action L M a d R R (.status 0 prior)
  | missing (h : R.markers (M.markerKey a.entryId) = none)
    (hrange : (R.streams M.dlqStream).xrange a.entryId = some []) :
    Ran action L M a d R R (.status (-1) (key "missing"))
  | refused (h : R.markers (M.markerKey a.entryId) = none)
    (hrange : (R.streams M.dlqStream).xrange a.entryId = none) : Ran action L M a d R R .error
  | failed {rows : List (StreamId × Fields)} (h : R.markers (M.markerKey a.entryId) = none)
    (hrange : (R.streams M.dlqStream).xrange a.entryId = some rows) (hrows : rows ≠ [])
    (hpublish : publish L action a d R = some (.error ())) : Ran action L M a d R R .error
  | broken {rows : List (StreamId × Fields)} {R₁ R₂ : Redis} {target : Option StreamId}
    (h : R.markers (M.markerKey a.entryId) = none)
    (hrange : (R.streams M.dlqStream).xrange a.entryId = some rows) (hrows : rows ≠ [])
    (hpublish : publish L action a d R = some (.ok (R₁, target)))
    (haudit : R₁.xadd M.auditStream d.auditId (auditFields M action a target d.actedAt) = some R₂)
    (hid : parseId 0 a.entryId = none) :
    Ran action L M a d R R₂ .error
  | applied {rows : List (StreamId × Fields)} {R₁ R₂ : Redis}
      {target : Option StreamId} {gone : StreamId}
    (h : R.markers (M.markerKey a.entryId) = none)
    (hrange : (R.streams M.dlqStream).xrange a.entryId = some rows) (hrows : rows ≠ [])
    (hpublish : publish L action a d R = some (.ok (R₁, target)))
    (haudit : R₁.xadd M.auditStream d.auditId (auditFields M action a target d.actedAt) = some R₂)
    (hid : parseId 0 a.entryId = some gone) :
    Ran action L M a d R
      ((R₂.xdel M.dlqStream gone).set (M.markerKey a.entryId)
        (L.encode (markerMembers action target)))
      (.status 1 (L.encode (markerMembers action target)))

/-- A script that answers ran as its action says. -/
theorem script_ran {action : DeadLetterAction} {a : Arguments} {d : Draw}
    {R R' : Redis} {reply : Reply}
    (h : script action L M a d R = some (R', reply)) : Ran action L M a d R R' reply := by
  unfold script at h
  cases hmarker : R.markers (M.markerKey a.entryId) with
  -- The entry's marker is there already.
  | some prior =>
    rw [hmarker] at h
    cases h
    exact .marked hmarker
  | none =>
    rw [hmarker] at h
    dsimp only at h
    cases hrange : (R.streams M.dlqStream).xrange a.entryId with
    | none =>
      rw [hrange] at h
      cases h
      exact .refused hmarker hrange
    | some rows =>
      rw [hrange] at h
      cases rows with
      | nil =>
        cases h
        exact .missing hmarker hrange
      -- The entry is on the stream: it is published, audited, and then deleted.
      | cons row rows =>
        dsimp only at h
        cases hpublish : publish L action a d R with
        | none =>
          rw [hpublish] at h
          cases h
        | some result =>
          rw [hpublish] at h
          rcases result with error | ⟨R₁, target⟩
          · cases h
            exact .failed hmarker hrange (by simp) hpublish
          · dsimp only at h
            cases haudit : R₁.xadd M.auditStream d.auditId
              (auditFields M action a target d.actedAt) with
            | none =>
              rw [haudit] at h
              cases h
            | some R₂ =>
              rw [haudit] at h
              dsimp only at h
              cases hid : parseId 0 a.entryId with
              | none =>
                rw [hid] at h
                cases h
                exact .broken hmarker hrange (by simp) hpublish haudit hid
              | some gone =>
                rw [hid] at h
                cases h
                exact .applied hmarker hrange (by simp) hpublish haudit hid

/-- What a script publishes: a replay adds the pairs that were decoded to the source stream. -/
theorem publish_ok {action : DeadLetterAction} {a : Arguments} {d : Draw} {R R₁ : Redis}
    {target : Option StreamId} (h : publish L action a d R = some (.ok (R₁, target))) :
    (action = .discarded ∧ R₁ = R ∧ target = none) ∨
      (action = .replayed ∧ target = some d.targetId ∧
        (∃ fields, L.decode a.fields = some fields ∧ d.pairs.Perm fields) ∧
        R.xadd a.sourceStream d.targetId d.pairs = some R₁) := by
  unfold publish at h
  cases action with
  | discarded =>
    cases h
    exact .inl ⟨rfl, rfl, rfl⟩
  | replayed =>
    dsimp only at h
    cases hdecode : L.decode a.fields with
    | none =>
      rw [hdecode] at h
      cases h
    | some fields =>
      rw [hdecode] at h
      dsimp only at h
      split_ifs at h with hlimit hperm
      · cases h
      · cases hadd : R.xadd a.sourceStream d.targetId d.pairs with
        | none =>
          rw [hadd] at h
          cases h
        | some R₂ =>
          rw [hadd] at h
          cases h
          exact .inr ⟨rfl, rfl, ⟨fields, rfl, hperm⟩, rfl⟩

/-- A publication spares the dead letter it is made of. -/
theorem Spares.publish {action : DeadLetterAction} {a : Arguments} {d : Draw} {R R₁ : Redis}
    {target : Option StreamId} (h : publish L action a d R = some (.ok (R₁, target))) :
    Spares M id R R₁ := by
  rcases publish_ok h with ⟨-, rfl, -⟩ | ⟨-, -, -, hadd⟩
  · exact .refl R₁
  · exact .xadd hadd

/-- The text names other entries: it has another marker, and its range leaves the entry out. -/
def Elsewhere (M : Manager) (id : StreamId) (text : List Char) : Prop :=
  M.markerKey id.text ≠ M.markerKey text ∧
    ∀ range ∈ rangeOf text, ¬(range.1 ≤ id ∧ id ≤ range.2)

instance (M : Manager) (id : StreamId) (text : List Char) : Decidable (Elsewhere M id text) :=
  inferInstanceAs (Decidable (_ ∧ _))

/-- A target elsewhere has another text. -/
theorem Elsewhere.ne {text : List Char} (h : Elsewhere M id text) : text ≠ id.text := by
  rintro rfl
  exact h.1 rfl

/-- A script for other entries leaves the entry and its marker as they were. -/
theorem Spares.ran {action : DeadLetterAction} {a : Arguments} {d : Draw}
    {R R' : Redis} {reply : Reply}
    (h : Ran action L M a d R R' reply) (helse : Elsewhere M id a.entryId) : Spares M id R R' := by
  cases h with
  | marked => exact .refl R
  | missing => exact .refl R
  | refused => exact .refl R
  | failed => exact .refl R
  | broken _ _ _ hpublish haudit _ => exact (Spares.publish hpublish).trans (.xadd haudit)
  | @applied _ _ _ _ gone _ hrange _ hpublish haudit hid =>
    obtain ⟨range, hof, -⟩ := Option.map_eq_some_iff.mp hrange
    have hne : gone ≠ id := by
      intro heq
      rw [heq] at hid
      exact helse.2 range hof (rangeOf_of_parseId hof hid)
    exact (Spares.publish hpublish).trans
      ((Spares.xadd haudit).trans ((Spares.xdel hne).trans (.set helse.1)))

/-! ## The marker -/

/-- The text of an ID is not empty. -/
theorem targetText_ne_nil (id : StreamId) : targetText (some id) ≠ [] := by
  unfold targetText StreamId.text
  simp

/-- A marker reports its action. -/
theorem markerOutcome_encode (action : DeadLetterAction) (target : Option StreamId)
    (applied : Bool) :
    markerOutcome spell applied (L.encode (markerMembers action target)) =
      .result action applied (target.map fun id => targetText (some id)) := by
  have hresult : markerResult spell (L.encode (markerMembers action target)) =
      some (action, target.map fun id => targetText (some id)) := by
    unfold markerResult
    rw [L.loads_encode]
    dsimp only
    cases target with
    | none => cases action <;> rfl
    | some id =>
      have htarget : lookup (key "target_message_id") (collect (markerMembers action (some id))) =
          some (.text (targetText (some id))) := by cases action <;> rfl
      have haction : lookup (key "action") (collect (markerMembers action (some id))) =
          some (.text action.text) := by cases action <;> rfl
      have htruthy : truthy (.text (targetText (some id))) = true :=
        decide_eq_true (targetText_ne_nil id)
      rw [htarget, haction]
      dsimp only
      rw [if_pos htruthy]
      cases action <;> rfl
  unfold markerOutcome
  rw [hresult]

/-! ## An entry of the stream -/

/-- The call names the entry by its ID. -/
abbrev Call.Names (id : StreamId) (c : Call) : Prop := c.entryId = id.text

/-- The call was applied. -/
def Call.applied (c : Call) : Bool :=
  match c.phase with
  | .done (.result _ true _) => true
  | _ => false

/-- How many calls that name the entry were applied. -/
def State.appliedTo (s : State) (id : StreamId) : ℕ :=
  s.calls.countP fun c => decide (c.Names id) && c.applied

/-- How many audit records were written for the entry. -/
def State.auditsOf (s : State) (id : StreamId) : ℕ := s.audits.countP fun a => a.1 = id.text

/-- The entry is in the dead-letter stream, and nothing was done about it. -/
structure Fresh (M : Manager) (id : StreamId) (values : Fields) (s : State) : Prop where
  present : (id, values) ∈ (s.redis.streams M.dlqStream).entries
  unmarked : s.redis.markers (M.markerKey id.text) = none
  audits : ∀ a ∈ s.audits, a.1 ≠ id.text
  calls : ∀ c ∈ s.calls, Elsewhere M id c.entryId

/-- The calls about an entry, from the time on when it is there. -/
def machine (spell : PyJson .value → PyText) (L : Lua) (M : Manager) (id : StreamId)
    (values : Fields) :
    Machine State Action where
  init := Fresh M id values
  step := step spell L M

/-- A call names the entry by its ID, or it names other entries. -/
def Addressed (M : Manager) (id : StreamId) (_ : State) : Action → Prop
  | .call _ entryId _ _ => entryId = id.text ∨ Elsewhere M id entryId
  | _ => True

instance (M : Manager) (id : StreamId) (s : State) : ∀ a, Decidable (Addressed M id s a)
  | .call _ entryId _ _ => inferInstanceAs (Decidable (entryId = id.text ∨ Elsewhere M id entryId))
  | .step _ _ | .append _ _ _ | .expire _ => inferInstanceAs (Decidable True)

/-- The call has no actor or no reason. -/
def Call.Blank (c : Call) : Prop := blank c.actor ∨ blank c.reason

/-- A call before anything is applied: it raised for its actor or its reason. -/
def Call.Waits (c : Call) : Prop :=
  ∀ outcome, c.phase = .done outcome → outcome = .raised .valueError ∧ c.Blank

/-- A call when an action was applied: it reports the action, or it raises. -/
def Call.Reports (action : DeadLetterAction) (target : Option StreamId) (c : Call) : Prop :=
  ∀ outcome, c.phase = .done outcome →
    outcome = .raised .valueError ∧ c.Blank ∨ outcome = .raised .lookupError ∨
      ∃ applied, outcome = .result action applied (target.map fun id => targetText (some id)) ∧
        (applied = true → c.action = action)

/-- Nothing was applied. -/
structure Waiting (M : Manager) (id : StreamId) (values : Fields) (s : State) : Prop where
  present : (id, values) ∈ (s.redis.streams M.dlqStream).entries
  unmarked : s.redis.markers (M.markerKey id.text) = none
  audits : s.auditsOf id = 0
  applied : s.appliedTo id = 0
  calls : ∀ c ∈ s.calls, c.Names id → c.Waits

/-- One call was applied. -/
structure Acted (L : Lua) (M : Manager) (id : StreamId) (action : DeadLetterAction)
    (target : Option StreamId) (s : State) : Prop where
  gone : ∀ fields, (id, fields) ∉ (s.redis.streams M.dlqStream).entries
  passed : id ≤ (s.redis.streams M.dlqStream).lastId
  marker : ∀ marker, s.redis.markers (M.markerKey id.text) = some marker →
    marker = L.encode (markerMembers action target)
  audits : s.auditsOf id = 1
  applied : s.appliedTo id = 1
  calls : ∀ c ∈ s.calls, c.Names id → c.Reports action target

/-- What holds of the entry in every run. -/
structure Inv (spell : PyJson .value → PyText) (L : Lua) (M : Manager)
    (id : StreamId) (values : Fields) (s : State) : Prop where
  names : ∀ c ∈ s.calls, c.Names id ∨ Elsewhere M id c.entryId
  fetched : ∀ c ∈ s.calls, c.Names id → ∀ entry, c.phase = .fetched entry →
    DeadLetterEntry.fromRedis spell id.text values = some entry
  stands : Waiting M id values s ∨ ∃ action target, Acted L M id action target s

/-! ## What a step preserves -/

variable {values : Fields}

/-- Neither a change elsewhere nor calls that are counted alike change how the entry stands. -/
theorem Waiting.mono {s s' : State} (h : Waiting M id values s)
    (hspares : Spares M id s.redis s'.redis)
    (haudits : s'.auditsOf id = s.auditsOf id) (happlied : s'.appliedTo id = s.appliedTo id)
    (hcalls : ∀ c ∈ s'.calls, c.Names id → c ∈ s.calls ∨ c.Waits) : Waiting M id values s' where
  present :=
    (hspares.entry ((s.redis.streams M.dlqStream).bounded _ h.present) values).mpr h.present
  unmarked := hspares.marker.trans h.unmarked
  audits := haudits.trans h.audits
  applied := happlied.trans h.applied
  calls := fun c hc hn => (hcalls c hc hn).elim (fun hc => h.calls c hc hn) fun h => h

/-- An action stays done while its entry is spared and its records stay. -/
theorem Acted.mono {action : DeadLetterAction} {target : Option StreamId} {s s' : State}
    (h : Acted L M id action target s) (hspares : Spares M id s.redis s'.redis)
    (haudits : s'.auditsOf id = s.auditsOf id) (happlied : s'.appliedTo id = s.appliedTo id)
    (hcalls : ∀ c ∈ s'.calls, c.Names id → c ∈ s.calls ∨ c.Reports action target) :
    Acted L M id action target s' where
  gone := fun fields hmem => h.gone fields ((hspares.entry h.passed fields).mp hmem)
  passed := h.passed.trans hspares.lastId
  marker := fun marker hm => h.marker marker (hspares.marker ▸ hm)
  audits := haudits.trans h.audits
  applied := happlied.trans h.applied
  calls := fun c hc hn => (hcalls c hc hn).elim (fun hc => h.calls c hc hn) fun h => h

/-- A call in a new phase is counted where it is applied to the entry. -/
theorem appliedTo_set {s s' : State} {i : ℕ} {c c' : Call} (hc : s.calls[i]? = some c)
    (hfree : c.applied = false) (hcalls : s'.calls = s.calls.set i c') :
    s'.appliedTo id = s.appliedTo id + if c'.entryId = id.text ∧
      c'.applied = true then 1 else 0 := by
  obtain ⟨hi, hget⟩ := List.getElem?_eq_some_iff.mp hc
  unfold State.appliedTo
  rw [hcalls, List.countP_set hi, hget, hfree]
  simp

/-- The calls after one is in a new phase. -/
theorem mem_calls_set {s : State} {i : ℕ} {c c' : Call} (h : c ∈ s.calls.set i c') :
    c ∈ s.calls ∨ c = c' :=
  (List.mem_or_eq_of_mem_set h)

/-- While the entry is there, a call that names it finds it, unless it has no actor or no reason. -/
theorem Waiting.look {s : State} (h : Waiting M id values s) {entry : DeadLetterEntry}
    (hread : DeadLetterEntry.fromRedis spell id.text values = some entry)
    {c : Call} (hn : c.Names id) (hphase : c.phase = .start ∨ c.phase = .unmarked) :
    c.look spell M s.redis = .done (.raised .valueError) ∧ c.Blank ∨
      c.look spell M s.redis = .unmarked ∨ c.look spell M s.redis = .fetched entry := by
  unfold Call.look
  rcases hphase with hphase | hphase
  · rw [hphase]
    dsimp only
    by_cases hblank : blank c.actor ∨ blank c.reason
    · rw [if_pos hblank]
      exact .inl ⟨rfl, hblank⟩
    · rw [if_neg hblank, hn, h.unmarked]
      exact .inr (.inl rfl)
  · rw [hphase]
    dsimp only
    rw [hn, Log.xrange_mem h.present]
    dsimp only
    rw [hread]
    exact .inr (.inr rfl)

/-- After an action, it finds the marker or no entry. -/
theorem Acted.look {action : DeadLetterAction} {target : Option StreamId} {s : State}
    (h : Acted L M id action target s) (hfits : Fits id) {c : Call} (hn : c.Names id)
    (hphase : c.phase = .start ∨ c.phase = .unmarked) :
    c.look spell M s.redis = .done (.raised .valueError) ∧ c.Blank ∨
      c.look spell M s.redis =
      .done (.result action false (target.map fun id => targetText (some id))) ∨
      c.look spell M s.redis = .unmarked ∨ c.look spell M s.redis =
      .done (.raised .lookupError) := by
  unfold Call.look
  rcases hphase with hphase | hphase
  · rw [hphase]
    dsimp only
    by_cases hblank : blank c.actor ∨ blank c.reason
    · rw [if_pos hblank]
      exact .inl ⟨rfl, hblank⟩
    · rw [if_neg hblank, hn]
      cases hmarker : s.redis.markers (M.markerKey id.text) with
      | none => exact .inr (.inr (.inl rfl))
      | some marker =>
        rw [h.marker marker hmarker]
        dsimp only
        rw [markerOutcome_encode]
        exact .inr (.inl rfl)
  · rw [hphase]
    dsimp only
    rw [hn, Log.xrange_gone hfits h.gone]
    exact .inr (.inr (.inr rfl))

/-- A call that looks is not applied. -/
theorem Call.look_applied (R : Redis) {c : Call} (hphase : c.phase = .start ∨ c.phase = .unmarked) :
    ({ c with phase := c.look spell M R } : Call).applied = false := by
  have hmarker : ∀ marker,
      ({ c with phase := .done (markerOutcome spell false marker) } : Call).applied = false := by
    intro marker
    unfold markerOutcome
    cases markerResult spell marker with
    | none => rfl
    | some result => rfl
  unfold Call.look
  rcases hphase with hphase | hphase
  · rw [hphase]
    dsimp only
    by_cases hblank : blank c.actor ∨ blank c.reason
    · rw [if_pos hblank]
      rfl
    · rw [if_neg hblank]
      cases R.markers (M.markerKey c.entryId) with
      | none => rfl
      | some marker => exact hmarker marker
  · rw [hphase]
    dsimp only
    cases (R.streams M.dlqStream).xrange c.entryId with
    | none => rfl
    | some rows =>
      cases rows with
      | nil => rfl
      | cons row rows =>
        dsimp only
        cases DeadLetterEntry.fromRedis spell row.1.text row.2 with
        | none => rfl
        | some entry => rfl

/-- The fields of the entry are published. -/
theorem publish_sound {action : DeadLetterAction} {a : Arguments} {d : Draw}
    {R : Redis} {fields : Fields}
    (hdecode : L.decode a.fields = some fields) (hne : fields ≠ []) (hsize : fields.length ≤ 1000) :
    publish L action a d R ≠ some (.error ()) := by
  have hlimit : ¬(L.unpackLimit < fields.length ∨ fields = []) := by
    have hunpack := L.limit
    rintro (hlt | hnil)
    · omega
    · exact hne hnil
  unfold publish
  cases action with
  | discarded => simp
  | replayed =>
    dsimp only
    rw [hdecode]
    dsimp only
    rw [if_neg hlimit]
    split_ifs
    · cases R.xadd a.sourceStream d.targetId d.pairs with
      | none => simp
      | some R₁ => simp
    · simp

/-- While the entry is there, a script that names it is applied. -/
theorem Waiting.ran {s : State} (h : Waiting M id values s)
    {action : DeadLetterAction} {a : Arguments}
    {d : Draw} {R' : Redis} {reply : Reply} (hran : Ran action L M a d s.redis R' reply)
    (hn : a.entryId = id.text) (hsound : publish L action a d s.redis ≠ some (.error ())) :
    ∃ R₁ R₂ target, publish L action a d s.redis = some (.ok (R₁, target)) ∧
      R₁.xadd M.auditStream d.auditId (auditFields M action a target d.actedAt) = some R₂ ∧
      R' = (R₂.xdel M.dlqStream id).set (M.markerKey id.text)
      (L.encode (markerMembers action target)) ∧
      reply = .status 1 (L.encode (markerMembers action target)) := by
  have hfits : Fits id := (s.redis.streams M.dlqStream).fits _ h.present
  have hxrange := Log.xrange_mem h.present
  have hmarker := h.unmarked
  rw [← hn] at hxrange hmarker
  cases hran with
  | marked hprior =>
    rw [hprior] at hmarker
    cases hmarker
  | missing _ hrange =>
    rw [hrange] at hxrange
    cases hxrange
  | refused _ hrange =>
    rw [hrange] at hxrange
    cases hxrange
  | failed _ _ _ hpublish => exact absurd hpublish hsound
  | broken _ _ _ _ _ hid =>
    rw [hn, parseId_text hfits] at hid
    cases hid
  | applied _ _ _ hpublish haudit hid =>
    rw [hn, parseId_text hfits] at hid
    obtain rfl := Option.some.inj hid
    rw [hn]
    exact ⟨_, _, _, hpublish, haudit, rfl, rfl⟩

/-- After an action, it reports the action or finds no entry, and it changes nothing. -/
theorem Acted.ran {acted : DeadLetterAction} {target : Option StreamId} {s : State}
    (h : Acted L M id acted target s) (hfits : Fits id) {action : DeadLetterAction}
    {a : Arguments} {d : Draw}
    {R' : Redis} {reply : Reply} (hran : Ran action L M a d s.redis R' reply)
    (hn : a.entryId = id.text) :
    R' = s.redis ∧ (reply = .status 0 (L.encode (markerMembers acted target)) ∨
      reply = .status (-1) (key "missing")) := by
  have hxrange := Log.xrange_gone hfits h.gone
  rw [← hn] at hxrange
  have hrows : ∀ rows, (s.redis.streams M.dlqStream).xrange a.entryId = some rows → rows = [] := by
    intro rows hrange
    rw [hrange] at hxrange
    exact Option.some.inj hxrange
  cases hran with
  | marked hprior =>
    rw [hn] at hprior
    rw [h.marker _ hprior]
    exact ⟨rfl, .inl rfl⟩
  | missing => exact ⟨rfl, .inr rfl⟩
  | refused _ hrange =>
    rw [hrange] at hxrange
    cases hxrange
  | failed _ hrange hne _ => exact absurd (hrows _ hrange) hne
  | broken _ hrange hne _ _ _ => exact absurd (hrows _ hrange) hne
  | applied _ hrange hne _ _ _ => exact absurd (hrows _ hrange) hne

/-- What a call can do when it goes on: it looks, or it runs its script. -/
theorem advance_cases {s s' : State} {i : ℕ} {d : Draw} (h : s.advance spell L M i d = some s') :
    ∃ c, s.calls[i]? = some c ∧
      ((c.phase = .start ∨ c.phase = .unmarked) ∧
          s' = { s with calls := s.calls.set i { c with phase := c.look spell M s.redis } } ∨
        ∃ entry R' reply, c.phase = .fetched entry ∧
          Ran c.action L M (c.arguments entry) d s.redis R' reply ∧
          s' = { redis := R'
                 calls := s.calls.set i { c with phase := .done (scriptResult spell reply) }
                 audits := if reply.applied then s.audits ++ [(c.entryId, d.auditId)]
                   else s.audits }) := by
  unfold State.advance at h
  cases hc : s.calls[i]? with
  | none =>
    rw [hc] at h
    cases h
  | some c =>
    rw [hc] at h
    dsimp only at h
    refine ⟨c, rfl, ?_⟩
    cases hphase : c.phase with
    | done outcome =>
      rw [hphase] at h
      cases h
    | fetched entry =>
      rw [hphase] at h
      obtain ⟨⟨R', reply⟩, hscript, rfl⟩ := Option.map_eq_some_iff.mp h
      exact .inr ⟨entry, R', reply, rfl, script_ran hscript, rfl⟩
    | start =>
      rw [hphase] at h
      exact .inl ⟨.inl rfl, (Option.some.inj h).symm⟩
    | unmarked =>
      rw [hphase] at h
      exact .inl ⟨.inr rfl, (Option.some.inj h).symm⟩

/-- A call that is not done was not applied. -/
theorem Call.applied_eq_false {c : Call} (h : ∀ outcome, c.phase ≠ .done outcome) :
    c.applied = false := by
  unfold Call.applied
  split
  · rename_i hphase
    exact absurd hphase (h _)
  · rfl

/-- What an applied call does: the entry goes, its audit record is added, and a replay adds an entry
with the fields of the message to the stream of the message. -/
structure Performed (M : Manager) (source : Source) (message : StreamMessage) (id : StreamId)
    (values : Fields) (entry : DeadLetterEntry) (c : Call) (d : Draw) (target : Option StreamId)
    (R R' : Redis) : Prop where
  present : (id, values) ∈ (R.streams M.dlqStream).entries
  removed : ∀ fields, (id, fields) ∉ (R'.streams M.dlqStream).entries
  audit : (d.auditId, auditFields M c.action (c.arguments entry) target d.actedAt) ∈
    (R'.streams M.auditStream).entries ∧ d.auditId ∉ (R.streams M.auditStream).entries.map Prod.fst
  replayed : c.action = .replayed → target = some d.targetId ∧ ∃ pairs,
    pairs.Perm message.fields.members ∧ (d.targetId, pairs) ∈ (R'.streams source.stream).entries ∧
      d.targetId ∉ (R.streams source.stream).entries.map Prod.fst

/-- Replay can publish the message: it has fields, no more than `unpack` takes, and `cjson` decodes
what `json.dumps` makes of them. -/
structure Replayable (L : Lua) (message : StreamMessage) : Prop where
  nonempty : message.fields.members ≠ []
  size : message.fields.members.length ≤ 1000
  decode : L.decode (dumpsTexts true [44, 32] [58, 32] message.fields.members) =
    some message.fields.members

variable {source : Source} {message : StreamMessage}

/-- The entry of a message, as the calls read it. -/
structure Reads (spell : PyJson .value → PyText) (source : Source) (message : StreamMessage)
    (id : StreamId) (values : Fields) (entry : DeadLetterEntry) : Prop where
  read : DeadLetterEntry.fromRedis spell id.text values = some entry
  entryId : entry.entryId = id.text
  fields : entry.fields = message.fields.members
  sourceStream : entry.sourceStream = source.stream
  sourceGroup : entry.sourceGroup = source.group
  sourceMessageId : entry.sourceMessageId = message.messageId

/-- While the entry is there, a script that names it does what an applied call does. -/
theorem Waiting.performs {s : State} (h : Waiting M id values s) {entry : DeadLetterEntry}
    (hread : Reads spell source message id values entry) (hrep : Replayable L message) {c : Call}
    (hn : c.Names id) {d : Draw} {R' : Redis} {reply : Reply}
    (hran : Ran c.action L M (c.arguments entry) d s.redis R' reply) :
    ∃ target, Performed M source message id values entry c d target s.redis R' ∧
      reply = .status 1 (L.encode (markerMembers c.action target)) ∧
      R'.markers (M.markerKey id.text) = some (L.encode (markerMembers c.action target)) ∧
      id ≤ (R'.streams M.dlqStream).lastId := by
  have hdecode : L.decode (c.arguments entry).fields = some message.fields.members := by
    show L.decode (dumpsTexts true [44, 32] [58, 32] entry.fields) = _
    rw [hread.fields]
    exact hrep.decode
  obtain ⟨R₁, R₂, target, hpublish, haudit, rfl, rfl⟩ :=
    h.ran hran hn (publish_sound hdecode hrep.nonempty hrep.size)
  have hpassed : id ≤ (s.redis.streams M.dlqStream).lastId :=
    (s.redis.streams M.dlqStream).bounded _ h.present
  have hfirst : Spares M id s.redis R₁ := .publish hpublish
  have hsecond : Spares M id R₁ R₂ := .xadd haudit
  have hpresent : (id, values) ∈ (R₁.streams M.dlqStream).entries :=
    (hfirst.entry hpassed values).mpr h.present
  have hkept : ∀ stream, ∀ e ∈ (s.redis.streams stream).entries,
      e ∈ (R₁.streams stream).entries := by
    intro stream e he
    rcases publish_ok hpublish with ⟨-, rfl, -⟩ | ⟨-, -, -, hadd⟩
    · exact he
    · exact Redis.xadd_keeps hadd he
  refine ⟨target,
    ⟨h.present, fun fields => Redis.xdel_gone fields, ⟨?_, ?_⟩, fun hreplay => ?_⟩, rfl,
    Function.update_self _ _ _, ?_⟩
  · refine Redis.xdel_keeps (Redis.xadd_mem haudit) fun haudits => ?_
    -- The entry was in the stream when the server gave out the ID of the record.
    rintro rfl
    rw [← haudits] at hpresent
    exact Redis.xadd_new haudit (List.mem_map_of_mem hpresent)
  · intro hold
    obtain ⟨e, he, hid⟩ := List.mem_map.mp hold
    exact Redis.xadd_new haudit (hid ▸ List.mem_map_of_mem (hkept _ e he))
  · rcases publish_ok hpublish with ⟨hdiscard, -⟩ | ⟨-, htarget, ⟨fields, hfields, hperm⟩, hadd⟩
    · rw [hdiscard] at hreplay
      cases hreplay
    · rw [hdecode] at hfields
      obtain rfl := Option.some.inj hfields
      replace hadd : s.redis.xadd source.stream d.targetId d.pairs = some R₁ :=
        hread.sourceStream ▸ hadd
      refine ⟨htarget, d.pairs, hperm, ?_, Redis.xadd_new hadd⟩
      refine Redis.xdel_keeps (Redis.xadd_keeps haudit (Redis.xadd_mem hadd)) fun hstream => ?_
      rintro rfl
      have hold := h.present
      rw [← hstream] at hold
      exact Redis.xadd_new hadd (List.mem_map_of_mem hold)
  · show id ≤ (Function.update R₂.streams M.dlqStream _ M.dlqStream).lastId
    rw [Function.update_self]
    exact hpassed.trans (hfirst.lastId.trans hsecond.lastId)

/-- What happens elsewhere, and calls that start, preserve the invariant. -/
theorem Inv.mono {s s' : State} (h : Inv spell L M id values s)
    (hspares : Spares M id s.redis s'.redis)
    (haudits : s'.auditsOf id = s.auditsOf id) (happlied : s'.appliedTo id = s.appliedTo id)
    (hnames : ∀ c ∈ s'.calls, c.Names id ∨ Elsewhere M id c.entryId)
    (hcalls : ∀ c ∈ s'.calls, c.Names id → c ∈ s.calls ∨ c.phase = .start) :
    Inv spell L M id values s' where
  names := hnames
  fetched := by
    intro c hc hn entry hentry
    rcases hcalls c hc hn with hold | hstart
    · exact h.fetched c hold hn entry hentry
    · rw [hstart] at hentry
      cases hentry
  stands := by
    have hfree : ∀ c : Call, c.phase = .start → ∀ outcome, c.phase ≠ .done outcome := by
      intro c hstart outcome hdone
      rw [hstart] at hdone
      cases hdone
    rcases h.stands with hwaiting | ⟨action, target, hacted⟩
    · refine .inl (hwaiting.mono hspares haudits happlied fun c hc hn => ?_)
      exact (hcalls c hc hn).imp_right fun hstart outcome hdone =>
        absurd hdone (hfree c hstart outcome)
    · refine .inr ⟨action, target, hacted.mono hspares haudits happlied fun c hc hn => ?_⟩
      exact (hcalls c hc hn).imp_right fun hstart outcome hdone =>
        absurd hdone (hfree c hstart outcome)

/-- A call for other entries goes on. -/
theorem Inv.elsewhere {s s' : State} (h : Inv spell L M id values s) {i : ℕ}
    {c : Call} {phase : Phase}
    (hc : s.calls[i]? = some c) (hfree : c.applied = false) (helse : Elsewhere M id c.entryId)
    (hspares : Spares M id s.redis s'.redis) (hcalls : s'.calls = s.calls.set i { c with phase })
    (haudits : s'.auditsOf id = s.auditsOf id) : Inv spell L M id values s' := by
  have hmem : c ∈ s.calls := List.mem_of_getElem? hc
  have hother : ¬(c.entryId = id.text ∧ ({ c with phase } : Call).applied = true) := fun hown =>
    helse.ne hown.1
  refine h.mono hspares haudits ?_ ?_ ?_
  · rw [appliedTo_set hc hfree hcalls, if_neg hother, Nat.add_zero]
  · intro c' hc'
    rw [hcalls] at hc'
    rcases mem_calls_set hc' with hold | rfl
    · exact h.names c' hold
    · exact .inr helse
  · intro c' hc' hn
    rw [hcalls] at hc'
    rcases mem_calls_set hc' with hold | rfl
    · exact .inl hold
    · exact absurd hn helse.ne

/-- A marker expires. -/
theorem Inv.expire {s : State} (h : Inv spell L M id values s) (key : PyText) :
    Inv spell L M id values
      { s with redis := { s.redis with markers := Function.update s.redis.markers key none } } where
  names := h.names
  fetched := h.fetched
  stands := by
    have hmarker : ∀ marker, Function.update s.redis.markers key none
      (M.markerKey id.text) = some marker →
        s.redis.markers (M.markerKey id.text) = some marker := by
      intro marker hm
      by_cases hkey : M.markerKey id.text = key
      · rw [hkey, Function.update_self] at hm
        cases hm
      · rwa [Function.update_of_ne hkey] at hm
    rcases h.stands with hwaiting | ⟨action, target, hacted⟩
    · refine .inl { hwaiting with unmarked := ?_ }
      refine Option.eq_none_iff_forall_ne_some.mpr fun marker hm => ?_
      have hold := hmarker marker hm
      rw [hwaiting.unmarked] at hold
      cases hold
    · exact .inr ⟨action, target,
        { hacted with marker := fun marker hm => hacted.marker marker (hmarker marker hm) }⟩

/-- A call that names the entry goes on, and the server stays as it is. -/
theorem Inv.own {s : State} (h : Inv spell L M id values s) {i : ℕ} {c : Call} {phase : Phase}
    (hc : s.calls[i]? = some c) (hn : c.Names id) (hfree : c.applied = false)
    (hnot : ({ c with phase } : Call).applied = false)
    (hfetched : ∀ entry, phase = .fetched entry →
      DeadLetterEntry.fromRedis spell id.text values = some entry)
    (hstands : Waiting M id values s ∧ ({ c with phase } : Call).Waits ∨ ∃ action target,
      Acted L M id action target s ∧ ({ c with phase } : Call).Reports action target) :
    Inv spell L M id values { s with calls := s.calls.set i { c with phase } } where
  names := by
    intro c' hc'
    rcases mem_calls_set hc' with hold | rfl
    · exact h.names c' hold
    · exact .inl hn
  fetched := by
    intro c' hc' hn' entry hentry
    rcases mem_calls_set hc' with hold | rfl
    · exact h.fetched c' hold hn' entry hentry
    · exact hfetched entry hentry
  stands := by
    have happlied : State.appliedTo { s with calls := s.calls.set i { c with phase } } id =
        s.appliedTo id := by
      rw [appliedTo_set hc hfree rfl, hnot, if_neg (by simp), Nat.add_zero]
    rcases hstands with ⟨hwaiting, hwaits⟩ | ⟨action, target, hacted, hreports⟩
    · refine .inl (hwaiting.mono (.refl _) rfl happlied fun c' hc' _ => ?_)
      rcases mem_calls_set hc' with hold | rfl
      · exact .inl hold
      · exact .inr hwaits
    · refine .inr ⟨action, target, hacted.mono (.refl _) rfl happlied fun c' hc' _ => ?_⟩
      rcases mem_calls_set hc' with hold | rfl
      · exact .inl hold
      · exact .inr hreports

/-- A call that names the entry looks. -/
theorem Inv.looks (hfits : Fits id) {entry : DeadLetterEntry}
    (hread : DeadLetterEntry.fromRedis spell id.text values = some entry) {s : State}
    (h : Inv spell L M id values s) {i : ℕ} {c : Call} (hc : s.calls[i]? = some c) (hn : c.Names id)
    (hphase : c.phase = .start ∨ c.phase = .unmarked) :
    Inv spell L M id values
      { s with calls := s.calls.set i { c with phase := c.look spell M s.redis } } := by
  have hfree : c.applied = false := Call.applied_eq_false (by
    intro outcome hdone
    rw [hdone] at hphase
    simp at hphase)
  rcases h.stands with hwaiting | ⟨action, target, hacted⟩
  · rcases hwaiting.look hread hn hphase with ⟨hlook, hblank⟩ | hlook | hlook
    · rw [hlook]
      refine h.own hc hn hfree rfl nofun (.inl ⟨hwaiting, fun outcome hdone => ?_⟩)
      cases hdone
      exact ⟨rfl, hblank⟩
    · rw [hlook]
      exact h.own hc hn hfree rfl nofun (.inl ⟨hwaiting, nofun⟩)
    · rw [hlook]
      refine h.own hc hn hfree rfl (fun entry hentry => ?_) (.inl ⟨hwaiting, nofun⟩)
      cases hentry
      exact hread
  · rcases hacted.look hfits hn hphase with ⟨hlook, hblank⟩ | hlook | hlook | hlook
    · rw [hlook]
      refine h.own hc hn hfree rfl nofun (.inr ⟨action, target, hacted, fun outcome hdone => ?_⟩)
      cases hdone
      exact .inl ⟨rfl, hblank⟩
    · rw [hlook]
      refine h.own hc hn hfree rfl nofun (.inr ⟨action, target, hacted, fun outcome hdone => ?_⟩)
      cases hdone
      exact .inr (.inr ⟨false, rfl, nofun⟩)
    · rw [hlook]
      exact h.own hc hn hfree rfl nofun (.inr ⟨action, target, hacted, nofun⟩)
    · rw [hlook]
      refine h.own hc hn hfree rfl nofun (.inr ⟨action, target, hacted, fun outcome hdone => ?_⟩)
      cases hdone
      exact .inr (.inl rfl)

/-- A call that is applied while the entry is there. -/
theorem Inv.performs {s : State} (h : Inv spell L M id values s) (hwaiting : Waiting M id values s)
    {i : ℕ} {c : Call} (hc : s.calls[i]? = some c) (hn : c.Names id) {entry : DeadLetterEntry}
    (hphase : c.phase = .fetched entry) {R' : Redis} {target : Option StreamId} {auditId : StreamId}
    (hgone : ∀ fields, (id, fields) ∉ (R'.streams M.dlqStream).entries)
    (hmarker : R'.markers (M.markerKey id.text) = some (L.encode (markerMembers c.action target)))
    (hpassed : id ≤ (R'.streams M.dlqStream).lastId) :
    Inv spell L M id values
      { redis := R'
        calls := s.calls.set i { c with phase := .done (.result c.action true
          (target.map fun id => targetText (some id))) }
        audits := s.audits ++ [(c.entryId, auditId)] } where
  names := by
    intro c' hc'
    rcases mem_calls_set hc' with hold | rfl
    · exact h.names c' hold
    · exact .inl hn
  fetched := by
    intro c' hc' hn' entry hentry
    rcases mem_calls_set hc' with hold | rfl
    · exact h.fetched c' hold hn' entry hentry
    · cases hentry
  stands := by
    have hfree : c.applied = false := Call.applied_eq_false (by
      intro outcome hdone
      rw [hdone] at hphase
      cases hphase)
    refine .inr ⟨c.action, target, hgone, hpassed, fun marker hm => ?_, ?_, ?_, ?_⟩
    · -- The marker is the one just written.
      rw [hmarker] at hm
      exact (Option.some.inj hm).symm
    · -- This call's record is the first one of the entry.
      show (s.audits ++ [(c.entryId, auditId)]).countP _ = 1
      rw [List.countP_append, show s.audits.countP _ = 0 from hwaiting.audits]
      simp [hn]
    · rw [appliedTo_set hc hfree rfl, hwaiting.applied, if_pos ⟨hn, rfl⟩]
    · intro c' hc' hn' outcome hdone
      rcases mem_calls_set hc' with hold | rfl
      · exact .inl (hwaiting.calls c' hold hn' outcome hdone)
      · cases hdone
        exact .inr (.inr ⟨true, rfl, fun _ => rfl⟩)

/-- What a call that names the entry does when it goes on. If it has read the entry and the entry is
still there, its script is applied; else the server and the audit records stay as they are, and the
call is not applied. -/
def Goes (M : Manager) (source : Source) (message : StreamMessage) (id : StreamId) (values : Fields)
    (c c' : Call) (d : Draw) (s s' : State) : Prop :=
  (∃ entry target, c.phase = .fetched entry ∧
      c'.phase = .done (.result c.action true (target.map fun id => targetText (some id))) ∧
      Performed M source message id values entry c d target s.redis s'.redis ∧
      s'.audits = s.audits ++ [(id.text, d.auditId)]) ∨
    ¬((∃ entry, c.phase = .fetched entry) ∧ (id, values) ∈ (s.redis.streams M.dlqStream).entries) ∧
      c'.applied = false ∧ s'.redis = s.redis ∧ s'.audits = s.audits

/-- A call that names the entry goes on. -/
theorem Inv.goes (hfits : Fits id) {entry : DeadLetterEntry}
    (hread : Reads spell source message id values entry)
    (hrep : Replayable L message) {s s' : State}
    (h : Inv spell L M id values s) {i : ℕ} {d : Draw}
    (hstep : s.advance spell L M i d = some s') {c c' : Call}
    (hc : s.calls[i]? = some c) (hc' : s'.calls[i]? = some c') (hn : c.Names id) :
    Inv spell L M id values s' ∧ Goes M source message id values c c' d s s' := by
  have hmem : c ∈ s.calls := List.mem_of_getElem? hc
  obtain ⟨hi, -⟩ := List.getElem?_eq_some_iff.mp hc
  obtain ⟨c₀, hc₀, hcase⟩ := advance_cases hstep
  obtain rfl : c = c₀ := Option.some.inj (hc.symm.trans hc₀)
  -- The call looks for the entry, or runs its script.
  rcases hcase with ⟨hphase, rfl⟩ | ⟨read, R', reply, hphase, hran, rfl⟩
  · have hinv := h.looks hfits hread.read hc hn hphase
    obtain rfl : _ = c' := Option.some.inj ((List.getElem?_set_self hi).symm.trans hc')
    refine ⟨hinv, .inr ⟨?_, ?_, rfl, rfl⟩⟩
    · rintro ⟨⟨read, hfetched⟩, -⟩
      rw [hfetched] at hphase
      simp at hphase
    · exact Call.look_applied s.redis hphase
  · obtain rfl : _ = c' := Option.some.inj ((List.getElem?_set_self hi).symm.trans hc')
    obtain rfl : read = entry :=
      Option.some.inj ((h.fetched c hmem hn read hphase).symm.trans hread.read)
    have hfree : c.applied = false := Call.applied_eq_false (by
      intro outcome hdone
      rw [hdone] at hphase
      cases hphase)
    -- The entry still waits, and the script takes it, or it is settled already.
    rcases h.stands with hwaiting | ⟨action, target, hacted⟩
    · obtain ⟨target, hperformed, rfl, hmarker, hpassed⟩ := hwaiting.performs hread hrep hn hran
      have houtcome : scriptResult spell (.status 1 (L.encode (markerMembers c.action target))) =
          .result c.action true (target.map fun id => targetText (some id)) :=
        markerOutcome_encode c.action target true
      rw [houtcome]
      refine ⟨h.performs hwaiting hc hn hphase hperformed.removed hmarker hpassed,
        .inl ⟨read, target, hphase, rfl, hperformed, ?_⟩⟩
      rw [← show c.entryId = id.text from hn]
      rfl
    · have hpresent : ¬((∃ entry, c.phase = .fetched entry) ∧
          (id, values) ∈ (s.redis.streams M.dlqStream).entries) :=
            fun hboth => hacted.gone values hboth.2
      obtain ⟨rfl, hreply⟩ := hacted.ran hfits hran hn
      -- A script that comes too late answers with the marker, or finds nothing.
      rcases hreply with rfl | rfl
      · have houtcome : scriptResult spell (.status 0 (L.encode (markerMembers action target))) =
            .result action false (target.map fun id => targetText (some id)) :=
          markerOutcome_encode action target false
        rw [houtcome]
        refine ⟨h.own hc hn hfree rfl nofun
          (.inr ⟨action, target, hacted, fun outcome hdone => ?_⟩), .inr ⟨hpresent, rfl, rfl, rfl⟩⟩
        cases hdone
        exact .inr (.inr ⟨false, rfl, nofun⟩)
      · have houtcome : scriptResult spell (.status (-1) (key "missing")) =
            .raised .lookupError := rfl
        rw [houtcome]
        refine ⟨h.own hc hn hfree rfl nofun
          (.inr ⟨action, target, hacted, fun outcome hdone => ?_⟩), .inr ⟨hpresent, rfl, rfl, rfl⟩⟩
        cases hdone
        exact .inr (.inl rfl)

/-- Every step preserves the invariant. -/
theorem Inv.step (hfits : Fits id) {entry : DeadLetterEntry}
    (hread : Reads spell source message id values entry)
    (hrep : Replayable L message) {s s' : State}
    {a : Action} (h : Inv spell L M id values s) (haddressed : Addressed M id s a)
    (hstep : step spell L M s a = some s') : Inv spell L M id values s' := by
  cases a with
  | call action entryId actor reason =>
    obtain rfl := Option.some.inj hstep
    refine h.mono (.refl _) rfl ?_ ?_ ?_
    · show (s.calls ++ [_]).countP _ = s.calls.countP _
      rw [List.countP_append]
      simp [Call.applied]
    · exact List.forall_mem_append.mpr ⟨h.names, List.forall_mem_singleton.mpr haddressed⟩
    · exact List.forall_mem_append.mpr
        ⟨fun c hc _ => .inl hc, List.forall_mem_singleton.mpr fun _ => .inr rfl⟩
  | append key new fields =>
    obtain ⟨R', hadd, rfl⟩ := Option.map_eq_some_iff.mp hstep
    exact h.mono (.xadd hadd) rfl rfl h.names fun c hc _ => .inl hc
  | expire key =>
    obtain rfl := Option.some.inj hstep
    exact h.expire key
  | step i d =>
    obtain ⟨c, hc, hcase⟩ := advance_cases hstep
    have hmem : c ∈ s.calls := List.mem_of_getElem? hc
    obtain ⟨hi, -⟩ := List.getElem?_eq_some_iff.mp hc
    rcases h.names c hmem with hn | helse
    · -- A call that names the entry goes on in one of the known ways.
      have hc' : ∃ c', s'.calls[i]? = some c' := by
        rcases hcase with ⟨-, rfl⟩ | ⟨_, _, _, -, -, rfl⟩
        · exact ⟨_, List.getElem?_set_self hi⟩
        · exact ⟨_, List.getElem?_set_self hi⟩
      obtain ⟨c', hc'⟩ := hc'
      exact (h.goes hfits hread hrep hstep hc hc' hn).1
    · rcases hcase with ⟨hphase, rfl⟩ | ⟨read, R', reply, hphase, hran, rfl⟩
      · -- Any other call leaves the entry and its marker alone.
        have hfree : c.applied = false := Call.applied_eq_false (by
          intro outcome hdone
          rw [hdone] at hphase
          simp at hphase)
        exact h.elsewhere hc hfree helse (.refl _) rfl rfl
      · have hfree : c.applied = false := Call.applied_eq_false (by
          intro outcome hdone
          rw [hdone] at hphase
          cases hphase)
        refine h.elsewhere hc hfree helse (.ran hran helse) rfl ?_
        show List.countP _
          (if reply.applied then s.audits ++ [(c.entryId, d.auditId)] else s.audits) =
          s.audits.countP _
        split_ifs
        · rw [List.countP_append]
          simp [helse.ne]
        · rfl

/-- The invariant holds in every run. -/
theorem inv_reachable (hfits : Fits id) {entry : DeadLetterEntry}
    (hread : Reads spell source message id values entry) (hrep : Replayable L message) {s : State}
    (hs : (machine spell L M id values).ReachableWhen (Addressed M id) s) :
    Inv spell L M id values s := by
  refine hs.invariant (fun s hs => ?_) fun s a s' _ hinv haddressed hstep =>
    hinv.step hfits hread hrep haddressed hstep
  have hnone : ∀ c ∈ s.calls, ¬c.Names id := fun c hc => (hs.calls c hc).ne
  refine ⟨fun c hc => .inr (hs.calls c hc), fun c hc hn => absurd hn (hnone c hc),
    .inl ⟨hs.present, hs.unmarked, ?_, ?_, fun c hc hn => absurd hn (hnone c hc)⟩⟩
  · exact List.countP_eq_zero.mpr fun a ha => by simp [hs.audits a ha]
  · exact List.countP_eq_zero.mpr fun c hc => by simp [hnone c hc]

/-- The entry that the calls are about has an ID of the server. -/
theorem fits_reachable {s : State}
    (hs : (machine spell L M id values).ReachableWhen (Addressed M id) s) : Fits id := by
  induction hs with
  | start hs => exact Log.fits _ _ hs.present
  | next _ _ _ ih => exact ih

/-- A dead letter is read back, and acted on once. The reader recovers the fields, the stream, the
group and the ID of the message. In every run of calls that name the entry by its ID, one at most is
applied, and the entry is gone, and one audit record is written, exactly when one is; a call that is
done reports that action or raises `LookupError`, or it raised `ValueError` for its actor or its
reason. A replay that is applied adds the fields to the source stream; a call that raises changes
nothing. -/
theorem dead_letter_actions (spell : PyJson .value → PyText) (L : Lua) (M : Manager)
    {failure : Failure} (hvalues : deadLetterValues source message failure = some values)
    (hrep : Replayable L message) {s : State}
    (hs : (machine spell L M id values).ReachableWhen (Addressed M id) s) :
    (∃ entry, Reads spell source message id values entry) ∧
      s.appliedTo id ≤ 1 ∧ s.auditsOf id = s.appliedTo id ∧
      ((id, values) ∈ (s.redis.streams M.dlqStream).entries ↔ s.appliedTo id = 0) ∧
      ((∀ fields, (id, fields) ∉ (s.redis.streams M.dlqStream).entries) ↔ s.appliedTo id = 1) ∧
      (∀ c ∈ s.calls, c.Names id → ∀ outcome, c.phase = .done outcome →
        outcome = .raised .valueError ∧ c.Blank ∨
          s.appliedTo id = 1 ∧ (outcome = .raised .lookupError ∨
            ∃ c₀ ∈ s.calls, c₀.Names id ∧ ∃ target applied,
              c₀.phase = .done (.result c₀.action true target) ∧
                outcome = .result c₀.action applied target)) ∧
      ∀ i d s' c c', step spell L M s (.step i d) = some s' → s.calls[i]? = some c → c.Names id →
        s'.calls[i]? = some c' → Goes M source message id values c c' d s s' ∧
          ∀ error, c'.phase = .done (.raised error) → s'.redis = s.redis ∧
          s'.audits = s.audits := by
  have hfits := fits_reachable hs
  obtain ⟨entry, hread, hrest⟩ := fromRedis_deadLetter spell id.text hvalues
  have hreads : Reads spell source message id values entry :=
    ⟨hread, hrest.1, hrest.2.1, hrest.2.2.1, hrest.2.2.2.1, hrest.2.2.2.2⟩
  have hinv := inv_reachable hfits hreads hrep hs
  have hgoes : ∀ i d s' c c', step spell L M s (.step i d) = some s' →
    s.calls[i]? = some c → c.Names id →
      s'.calls[i]? = some c' → Goes M source message id values c c' d s s' ∧
        ∀ error, c'.phase = .done (.raised error) → s'.redis = s.redis ∧ s'.audits = s.audits := by
    intro i d s' c c' hstep hc hn hc'
    have hgoes := (hinv.goes hfits hreads hrep hstep hc hc' hn).2
    refine ⟨hgoes, fun error hraised => ?_⟩
    rcases hgoes with ⟨_, _, _, hdone, -⟩ | ⟨-, -, hredis, haudits⟩
    · rw [hdone] at hraised
      cases hraised
    · exact ⟨hredis, haudits⟩
  -- Nothing was applied: the entry waits, and no call has a result.
  rcases hinv.stands with hwaiting | ⟨action, target, hacted⟩
  · have happlied := hwaiting.applied
    refine ⟨⟨entry, hreads⟩, by omega, hwaiting.audits.trans happlied.symm,
      iff_of_true hwaiting.present happlied, iff_of_false
      (fun h => h values hwaiting.present) (by omega),
      fun c hc hn outcome hdone => .inl (hwaiting.calls c hc hn outcome hdone), hgoes⟩
  · -- One action was applied: its own call is the one that says so.
    have happlied := hacted.applied
    refine ⟨⟨entry, hreads⟩, by omega, hacted.audits.trans happlied.symm,
      iff_of_false (hacted.gone values) (by omega), iff_of_true hacted.gone happlied, ?_, hgoes⟩
    obtain ⟨c₀, hc₀, hcounted⟩ :=
      List.countP_pos_iff.mp (happlied.symm ▸ Nat.one_pos : 0 < s.appliedTo id)
    obtain ⟨hn₀, happlied₀⟩ : c₀.Names id ∧ c₀.applied = true := by simpa using hcounted
    have hdone₀ : c₀.phase =
      .done (.result c₀.action true (target.map fun id => targetText (some id))) ∧
        c₀.action = action := by
      unfold Call.applied at happlied₀
      split at happlied₀
      · rename_i hphase
        rcases hacted.calls c₀ hc₀ hn₀ _ hphase with
          ⟨hraised, -⟩ | hraised | ⟨applied, heq, haction⟩
        · cases hraised
        · cases hraised
        · obtain ⟨rfl, rfl, rfl⟩ := Outcome.result.inj heq
          have hsame := haction rfl
          rw [hphase, hsame]
          exact ⟨rfl, rfl⟩
      · cases happlied₀
    obtain ⟨hphase₀, rfl⟩ := hdone₀
    intro c hc hn outcome hdone
    rcases hacted.calls c hc hn outcome hdone with hraised | hraised | ⟨applied, heq, -⟩
    · exact .inl hraised
    · exact .inr ⟨happlied, .inl hraised⟩
    · exact .inr ⟨happlied, .inr ⟨c₀, hc₀, hn₀, _, applied, hphase₀, heq⟩⟩

end Scripts

/-! ## A dead letter of a Task -/

namespace Sample

/-- The conversions, where values that are no texts do not occur. -/
def lua : Lua where
  decode := loadFields fun _ => []
  encode := dumpsTexts false [44] [58]
  unpackLimit := 3999
  limit := by decide
  loads_encode := fun members => @loads_dumpsTexts [] nofun members

/-- The streams of the sample. -/
def manager : Manager := ⟨key "tasks.dlq", key "tasks.dlq.audit", key "dlq-actions"⟩

/-- Where its message came from. -/
def source : Source := ⟨key "tasks", key "workers"⟩

/-- A name and a title that is not ASCII. -/
def message : StreamMessage where
  messageId := key "3-0"
  fields := ⟨[(key "task_id", key "7"), (key "title", [233, 0x1F600])], by decide⟩
  reclaimed := false

/-- The fields of its dead letter. -/
def values : Fields :=
  (deadLetterValues source message
    ⟨key "worker-1", key "unknown version", 0, key "FormatError", key "now"⟩).getD []

/-- The ID of the entry. -/
def id : StreamId := toLex (5, 1)

/-- The queue that holds it. -/
def queue : Log := Log.empty.push id values (by decide)

/-- The state before any call. -/
def start : State where
  redis := ⟨fun k => if k = manager.dlqStream then queue else Log.empty, fun _ => none⟩

/-- What the calls draw: the time, the IDs and the message. -/
def draw (n : ℕ) : Draw := ⟨toLex (9, n), toLex (9, n), message.fields.members, key "now"⟩

/-- A replay and a discard look at the same time; the replay is applied first. -/
def race : List Action :=
  [.call .replayed id.text ['o'] ['r'], .call .discarded id.text ['o'] ['r'],
    .step 0 (draw 0), .step 1 (draw 0),
    .step 0 (draw 0), .step 1 (draw 0), .step 0 (draw 1), .step 1 (draw 2)]

/-- The dead letter is new. -/
theorem fresh : Fresh manager id values start :=
  ⟨List.mem_singleton_self _, rfl, nofun, nofun⟩

/-- The calls about the entry. -/
def calls : Machine State Action := machine (fun _ => []) lua manager id values

/-- The state after actions, or the start where one is not possible. -/
def after (actions : List Action) : State := (calls.run start actions).getD start

/-- A run of the calls leads to a reachable state. -/
theorem after_reachable {actions : List Action} (h : (calls.run start actions).isSome = true) :
    calls.Reachable (after actions) := by
  obtain ⟨s, hs⟩ := Option.isSome_iff_exists.mp h
  have hafter : after actions = s := by
    unfold after
    rw [hs]
    rfl
  rw [hafter]
  exact Machine.Reachable.run (.start fresh) hs

/-- The race of the sample is a run of addressed calls. -/
theorem race_reachable : calls.ReachableWhen (Addressed manager id) (after race) := by
  obtain ⟨s, hs⟩ := Option.isSome_iff_exists.mp
    (by decide +kernel : (calls.runIf (Addressed manager id) start race).isSome = true)
  have hafter : after race = s := by
    unfold after
    rw [Machine.run_of_runIf hs]
    rfl
  rw [hafter]
  exact Machine.ReachableWhen.runIf (.start fresh) hs

/-- The fields are those the Worker writes for the message. -/
theorem values_eq : deadLetterValues source message
    ⟨key "worker-1", key "unknown version", 0, key "FormatError", key "now"⟩ = some values := rfl

/-- The message can be replayed. -/
theorem replayable : Replayable lua message := ⟨by decide, by decide, by decide +kernel⟩

/-- What the calls return or raise. -/
def outcomes (s : State) : List (Option Outcome) :=
  s.calls.map fun c =>
    match c.phase with
    | .done outcome => some outcome
    | _ => none

end Sample

/-- The replay is applied, with one audit record, and the discard reports it. -/
theorem dead_letter_actions_race : (Sample.after Sample.race).appliedTo Sample.id = 1 ∧
    (Sample.after Sample.race).auditsOf Sample.id = 1 ∧
    Sample.outcomes (Sample.after Sample.race) =
      [some (.result .replayed true (some (key "9-1"))),
        some (.result .replayed false (some (key "9-1")))] := by
  have hrace : ((Sample.after Sample.race).redis.streams Sample.manager.dlqStream).entries = [] ∧
      Sample.outcomes (Sample.after Sample.race) =
        [some (.result .replayed true (some (key "9-1"))),
          some (.result .replayed false (some (key "9-1")))] := by
    decide +kernel
  obtain ⟨-, -, haudits, -, hgone, -⟩ := dead_letter_actions (fun _ => []) Sample.lua Sample.manager
    Sample.values_eq Sample.replayable Sample.race_reachable
  have happlied := hgone.mp fun fields => by
    rw [hrace.1]
    exact List.not_mem_nil
  exact ⟨happlied, haudits.trans happlied, hrace.2⟩

/-- A call without an actor neither reports an action nor raises `LookupError`. A call with an
incomplete ID is applied to an entry that is not the first of its millisecond, and leaves it in the
stream. -/
theorem not_dead_letter_actions :
    (¬∀ s, Sample.calls.Reachable s → ∀ c ∈ s.calls, c.Names Sample.id → ∀ outcome,
      c.phase = .done outcome →
        outcome = .raised .lookupError ∨ ∃ action applied target,
        outcome = .result action applied target) ∧
    ¬∀ s, Sample.calls.Reachable s → ∀ c ∈ s.calls, c.applied = true →
      (∃ range ∈ rangeOf c.entryId, range.1 ≤ Sample.id ∧ Sample.id ≤ range.2) →
        ∀ e ∈ (s.redis.streams Sample.manager.dlqStream).entries, e.1 ≠ Sample.id := by
  constructor
  · intro h
    let actions : List Action := [.call .replayed Sample.id.text [] ['r'], .step 0 (Sample.draw 0)]
    have hreach : Sample.calls.Reachable (Sample.after actions) :=
      Sample.after_reachable (by decide +kernel)
    have hcall : (Sample.after actions).calls =
        [⟨.replayed, Sample.id.text, [], ['r'], .done (.raised .valueError)⟩] := rfl
    have hc := h _ hreach _ (hcall ▸ List.mem_singleton_self _) rfl _ rfl
    simp at hc
  · intro h
    let actions : List Action := [.call .discarded ['5'] ['o'] ['r'], .step 0 (Sample.draw 0),
      .step 0 (Sample.draw 0), .step 0 (Sample.draw 1)]
    have hreach : Sample.calls.Reachable (Sample.after actions) :=
      Sample.after_reachable (by decide +kernel)
    have hcall : ∃ c ∈ (Sample.after actions).calls, c.applied = true ∧ c.entryId = ['5'] := by
      decide +kernel
    have hentry : ∃ e ∈ ((Sample.after actions).redis.streams Sample.manager.dlqStream).entries,
        e.1 = Sample.id := by decide +kernel
    obtain ⟨c, hc, happlied, htext⟩ := hcall
    obtain ⟨e, he, hid⟩ := hentry
    exact h _ hreach c hc happlied (by rw [htext]; decide) e he hid

end ExAgent.Transport.DeadLetterManager
