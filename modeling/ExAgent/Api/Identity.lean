import ExAgent.Lib.Base64
import ExAgent.Lib.Fallible
import ExAgent.Lib.Sha256
import ExAgent.Lib.Transition
import Mathlib.Data.Rat.Floor
import Mathlib.Tactic.Linarith

/-!
# The signed identity of a BFF request

`SignedBffIdentityProvider` of `ex_agent/api/identity.py`. A request is presented with headers that
carry a timestamp, a nonce and a signature over everything else. `user_id` checks the headers and
the clock, waits for the body, checks the signature, and sets a key for the nonce in Redis, with
`NX` and an expiry of twice the allowed skew and one second more. Each of the three is a step of its
own, and any time can pass between them.

The expiry covers every presentation that sets its key before the timestamp leaves the allowed range
(`accepted_once`). The clock is read before the body, though, and nothing bounds the wait: a body
that arrives after the key has expired is accepted a second time (`accepted_twice`).
-/

namespace ExAgent.Api.Identity

open Lib

/-! ## Headers -/

/-- `IdentityHeaders`. -/
structure IdentityHeaders where
  userId : Option String
  signatureVersion : Option String
  keyId : Option String
  timestamp : Option String
  nonce : Option String
  signature : Option String
deriving DecidableEq

/-- What is signed of a request apart from its headers. -/
structure Request where
  method : String
  rawPath : String
  rawQuery : String
  body : List UInt8
deriving DecidableEq

/-- `HTTPException`. -/
structure HttpError where
  statusCode : ℕ
  detail : String
deriving DecidableEq

/-- `_unauthorized`. -/
def unauthorized (detail : String) : HttpError := ⟨401, detail⟩

/-- The settings of the provider. -/
structure Provider where
  /-- The secrets by key ID. -/
  keys : List (String × List UInt8)
  maxClockSkewSeconds : ℕ
  noncePrefix : String
  positive_skew : 1 ≤ maxClockSkewSeconds

/-- A letter or digit of ASCII. -/
def isAlnum (c : Char) : Bool :=
  ('A' ≤ c && c ≤ 'Z') || ('a' ≤ c && c ≤ 'z') || ('0' ≤ c && c ≤ '9')

/-- A text of some length whose characters are letters, digits or among a few others. -/
def matchesPattern (extra : List Char) (least most : ℕ) (s : String) : Bool :=
  let l := s.toList
  decide (least ≤ l.length) && decide (l.length ≤ most) && l.all fun c => isAlnum c || c ∈ extra

/-- `_KEY_ID`. -/
def isKeyId : String → Bool := matchesPattern ['.', '_', '-'] 1 64

/-- `_NONCE`. -/
def isNonce : String → Bool := matchesPattern ['.', '_', ':', '-'] 16 128

/-- `_SIGNATURE`. -/
def isSignature : String → Bool := matchesPattern ['_', '-'] 43 43

/-- `isdigit` and `int` of a header. Of the characters a header can have, those that `int` accepts
are the ASCII digits, and it accepts 4300 of them at most. -/
def parseTimestamp (s : String) : Option ℕ :=
  let l := s.toList
  if l ≠ [] ∧ l.length ≤ 4300 ∧ l.all Char.isDigit = true then
    some (l.foldl (fun n c => 10 * n + (c.toNat - 48)) 0)
  else none

/-- `_required_user`. -/
def requiredUser : Option String → Except HttpError String
  | none => .error (unauthorized "X-User-ID header is required")
  | some value =>
    if value = "" ∨ 255 < value.length ∨ value.toList.any (fun c => c = '\n' ∨ c = '\r') then
      .error (unauthorized "X-User-ID header is required")
    else .ok value

/-- A header that must be there and have a form. -/
def requiredHeader (form : String → Bool) (detail : String) :
    Option String → Except HttpError String
  | none => .error (unauthorized detail)
  | some value => if form value then .ok value else .error (unauthorized detail)

/-- `int` of the clock. -/
def truncated (now : ℚ) : ℤ := if 0 ≤ now then ⌊now⌋ else ⌈now⌉

/-- The clock check: the timestamp is at most the allowed skew away. -/
def Fresh (P : Provider) (now : ℚ) (timestamp : ℕ) : Prop :=
  |truncated now - timestamp| ≤ P.maxClockSkewSeconds

instance (P : Provider) (now : ℚ) (timestamp : ℕ) : Decidable (Fresh P now timestamp) :=
  inferInstanceAs (Decidable (_ ≤ _))

/-- What `user_id` has found out before it reads the body. -/
structure Checked where
  userId : String
  keyId : String
  timestamp : ℕ
  nonce : String
  signature : String
  secret : List UInt8
deriving DecidableEq

/-- `user_id` up to the body. -/
def checkHeaders (P : Provider) (now : ℚ) (headers : IdentityHeaders) :
    Except HttpError Checked := do
  let userId ← requiredUser headers.userId
  if headers.signatureVersion ≠ some "v1" then
    .error (unauthorized "Unsupported BFF signature version")
  let keyId ← requiredHeader isKeyId "Invalid BFF key ID" headers.keyId
  let nonce ← requiredHeader isNonce "Invalid BFF nonce" headers.nonce
  let signature ← requiredHeader isSignature "Invalid BFF signature" headers.signature
  match headers.timestamp.bind parseTimestamp with
  | none => .error (unauthorized "Invalid BFF timestamp")
  | some timestamp =>
    if ¬Fresh P now timestamp then .error (unauthorized "Expired BFF signature")
    else
      match P.keys.lookup keyId with
      | none => .error (unauthorized "Unknown BFF key ID")
      | some secret => .ok ⟨userId, keyId, timestamp, nonce, signature, secret⟩

/-! ## Signatures -/

/-- `str.encode`. -/
def encode (s : String) : List UInt8 := s.toList.flatMap String.utf8EncodeChar

/-- `upper` of a method, which is ASCII. -/
def upper (s : String) : String :=
  String.ofList (s.toList.map fun c =>
    if 'a' ≤ c ∧ c ≤ 'z' then Char.ofNat (c.toNat - 32) else c)

/-- `canonical_bff_request`. -/
def canonicalBffRequest (method rawPath rawQuery userId : String) (timestamp : ℕ)
    (nonce bodySha256 : String) : List UInt8 :=
  encode (String.intercalate "\n"
    ["v1", upper method, rawPath, rawQuery, userId, toString timestamp, nonce, bodySha256])

/-- `sign_bff_request`. -/
def signBffRequest (secret : List UInt8) (request : Request) (userId : String) (timestamp : ℕ)
    (nonce : String) : String :=
  String.ofList (Base64.urlsafeEncode (Sha256.hmac secret
    (canonicalBffRequest request.method request.rawPath request.rawQuery userId timestamp nonce
      (String.ofList (Sha256.hexdigest request.body)))))

/-- `_replay_key`. -/
def replayKey (noncePrefix keyId nonce : String) : String :=
  noncePrefix ++ ":" ++
    String.ofList (Sha256.hexdigest (encode keyId ++ 0 :: encode nonce))

/-! ## Presentations -/

/-- Where a presentation stands. -/
inductive Phase
  /-- The clock was checked; the body has not arrived. -/
  | reading (request : Request) (c : Checked)
  /-- The signature was checked; the key of the nonce has not been set. -/
  | storing (c : Checked)
  | done (result : Except HttpError String)

/-- How Redis answers a `SET`. -/
inductive Answer
  | ok
  /-- The client sees an exception; the command may have been applied. -/
  | failed (applied : Bool)
deriving DecidableEq

/-- The provider with its Redis, and the presentations so far. The acceptances are a history
variable. -/
structure Service where
  now : ℚ := 0
  /-- The keys of nonces with their expiry. -/
  nonces : String → Option ℚ := fun _ => none
  presentations : ℕ → Option Phase := fun _ => none
  accepted : List Checked := []

/-- A step of the service. -/
inductive Action
  | tick (seconds : ℚ)
  /-- A presentation arrives, with everything but its body. -/
  | present (id : ℕ) (headers : IdentityHeaders) (request : Request)
  /-- The body of a presentation has arrived. -/
  | read (id : ℕ)
  /-- A presentation is given up while its body or Redis is awaited. -/
  | abort (id : ℕ)
  | store (id : ℕ) (answer : Answer)

/-- A key is set and has not expired. -/
def Service.isSet (s : Service) (key : String) : Bool :=
  match s.nonces key with
  | none => false
  | some expiry => decide (s.now < expiry)

/-- `EX` of the key of a nonce. -/
def expirySeconds (P : Provider) : ℕ := P.maxClockSkewSeconds * 2 + 1

/-- `SET key 1 NX EX …` takes effect. -/
def Service.set (P : Provider) (s : Service) (key : String) : Service :=
  if s.isSet key then s
  else { s with nonces := fun k => if k = key then some (s.now + expirySeconds P) else s.nonces k }

/-- A presentation moves on. -/
def Service.goto (s : Service) (id : ℕ) (phase : Phase) : Service :=
  { s with presentations := fun i => if i = id then some phase else s.presentations i }

/-- The end of `user_id`: the key of the nonce is set, and the request accepted when it was not set
before. -/
def Service.store (P : Provider) (s : Service) (id : ℕ) (c : Checked) : Answer → Service
  | .failed applied =>
    (if applied then s.set P (replayKey P.noncePrefix c.keyId c.nonce) else s).goto id
      (.done (.error ⟨503, "BFF replay protection is unavailable"⟩))
  | .ok =>
    let key := replayKey P.noncePrefix c.keyId c.nonce
    if s.isSet key then s.goto id (.done (.error (unauthorized "Replayed BFF request")))
    else
      { (s.set P key).goto id (.done (.ok c.userId)) with accepted := s.accepted ++ [c] }

/-- One step of the service. -/
def step (P : Provider) (s : Service) : Action → Option Service
  | .tick seconds => if 0 ≤ seconds then some { s with now := s.now + seconds } else none
  | .present id headers request =>
    match s.presentations id with
    | some _ => none
    | none =>
      match checkHeaders P s.now headers with
      | .error e => some (s.goto id (.done (.error e)))
      | .ok c => some (s.goto id (.reading request c))
  | .read id =>
    match s.presentations id with
    | some (.reading request c) =>
      -- The signature covers the body, so it is checked when the body is there.
      if signBffRequest c.secret request c.userId c.timestamp c.nonce = c.signature then
        some (s.goto id (.storing c))
      else some (s.goto id (.done (.error (unauthorized "Invalid BFF signature"))))
    | _ => none
  | .abort id =>
    match s.presentations id with
    -- The client goes away while it waits.
    | some (.reading _ _) | some (.storing _) => some
        { s with presentations := fun i => if i = id then none else s.presentations i }
    | _ => none
  | .store id answer =>
    match s.presentations id with
    | some (.storing c) => some (s.store P id c answer)
    | _ => none

/-- The service as a transition system; its clock starts anywhere. -/
def service (P : Provider) : Machine Service Action :=
  ⟨fun s => ∃ now, 0 ≤ now ∧ s = { now }, step P⟩

/-! ## Replay -/

/-- A step that sets the key of a nonce does so while the timestamp still passes the clock check,
and the nonce was signed with one timestamp. -/
def inTime (P : Provider) (signedAt : String → String → ℕ) (s : Service) : Action → Bool
  | .store id _ =>
    match s.presentations id with
    | some (.storing c) =>
      decide (Fresh P s.now c.timestamp) && decide (c.timestamp = signedAt c.keyId c.nonce)
    | _ => true
  | _ => true

/-- The acceptances for a key ID and a nonce. -/
def Service.acceptedFor (s : Service) (keyId nonce : String) : List Checked :=
  s.accepted.filter fun c => c.keyId = keyId ∧ c.nonce = nonce

/-- The clock at a time that passes the check. -/
theorem Fresh.bounds {P : Provider} {now : ℚ} {timestamp : ℕ} (hnow : 0 ≤ now)
    (h : Fresh P now timestamp) :
    (timestamp : ℚ) - P.maxClockSkewSeconds ≤ now ∧
      now < timestamp + P.maxClockSkewSeconds + 1 := by
  unfold Fresh truncated at h
  rw [if_pos hnow, abs_le] at h
  have hle : ((timestamp - P.maxClockSkewSeconds : ℤ) : ℚ) ≤ (⌊now⌋ : ℚ) := by
    exact_mod_cast (show (timestamp - P.maxClockSkewSeconds : ℤ) ≤ ⌊now⌋ by linarith [h.1])
  have hge : ((⌊now⌋ : ℤ) : ℚ) ≤ (timestamp + P.maxClockSkewSeconds : ℤ) := by
    exact_mod_cast (show ⌊now⌋ ≤ (timestamp + P.maxClockSkewSeconds : ℤ) by linarith [h.2])
  have hfloor : (⌊now⌋ : ℚ) ≤ now := Int.floor_le now
  have hceil : now < ⌊now⌋ + 1 := Int.lt_floor_add_one now
  push_cast at hle hge
  constructor
  · linarith
  · linarith

/-- A key expires no earlier than before. -/
theorem Service.nonces_set {P : Provider} {s : Service} {key k : String} {expiry : ℚ}
    (h : s.nonces k = some expiry) :
    ∃ later, (s.set P key).nonces k = some later ∧ expiry ≤ later := by
  unfold Service.set
  by_cases hset : s.isSet key = true
  · rw [if_pos hset]
    exact ⟨expiry, h, le_rfl⟩
  · rw [if_neg hset]
    dsimp only
    by_cases hk : k = key
    · subst hk
      rw [if_pos rfl]
      have hexpired : expiry ≤ s.now := by
        simpa [Service.isSet, h] using hset
      have hpos : (0 : ℚ) ≤ expirySeconds P := Nat.cast_nonneg _
      exact ⟨_, rfl, by linarith⟩
    · rw [if_neg hk]
      exact ⟨expiry, h, le_rfl⟩

/-- What holds of the service when keys are set in time: the key of an accepted request lives until
its timestamp leaves the allowed range. -/
structure Inv (P : Provider) (signedAt : String → String → ℕ) (s : Service) : Prop where
  now_nonneg : 0 ≤ s.now
  covered : ∀ c ∈ s.accepted, ∃ expiry,
    s.nonces (replayKey P.noncePrefix c.keyId c.nonce) = some expiry ∧
      (signedAt c.keyId c.nonce : ℚ) + P.maxClockSkewSeconds + 1 ≤ expiry
  once : ∀ keyId nonce, (s.acceptedFor keyId nonce).length ≤ 1

section Steps

variable {P : Provider} {signedAt : String → String → ℕ} {s : Service}

/-- A change that leaves the clock, the keys and the acceptances. -/
theorem Inv.congr {s' : Service} (h : Inv P signedAt s) (hnow : s'.now = s.now)
    (hnonces : s'.nonces = s.nonces) (haccepted : s'.accepted = s.accepted) :
    Inv P signedAt s' := by
  refine ⟨by rw [hnow]; exact h.now_nonneg, ?_, ?_⟩
  · rw [haccepted, hnonces]
    exact h.covered
  · intro keyId nonce
    unfold Service.acceptedFor
    rw [haccepted]
    exact h.once keyId nonce

/-- Setting a key. -/
theorem Inv.set (h : Inv P signedAt s) (key : String) : Inv P signedAt (s.set P key) := by
  have hnow : (s.set P key).now = s.now := by
    unfold Service.set
    split <;> rfl
  have haccepted : (s.set P key).accepted = s.accepted := by
    unfold Service.set
    split <;> rfl
  refine ⟨by rw [hnow]; exact h.now_nonneg, ?_, ?_⟩
  · intro c hc
    rw [haccepted] at hc
    obtain ⟨expiry, hexpiry, hle⟩ := h.covered c hc
    have hset : ∃ later, (s.set P key).nonces
      (replayKey P.noncePrefix c.keyId c.nonce) = some later ∧
        expiry ≤ later := Service.nonces_set hexpiry
    obtain ⟨later, hlater, hmono⟩ := hset
    exact ⟨later, hlater, le_trans hle hmono⟩
  · intro keyId nonce
    unfold Service.acceptedFor
    rw [haccepted]
    exact h.once keyId nonce

/-- Accepting a request whose key was not set. -/
theorem Inv.accept (h : Inv P signedAt s) {c : Checked} (hfresh : Fresh P s.now c.timestamp)
    (hsigned : c.timestamp = signedAt c.keyId c.nonce)
    (hset : s.isSet (replayKey P.noncePrefix c.keyId c.nonce) = false) :
    Inv P signedAt { s.set P (replayKey P.noncePrefix c.keyId c.nonce) with
      accepted := s.accepted ++ [c] } := by
  obtain ⟨hlow, hhigh⟩ := hfresh.bounds h.now_nonneg
  rw [hsigned] at hlow hhigh
  have hkept := h.set (replayKey P.noncePrefix c.keyId c.nonce)
  have hkeys : (s.set P (replayKey P.noncePrefix c.keyId c.nonce)).nonces
      (replayKey P.noncePrefix c.keyId c.nonce) = some (s.now + expirySeconds P) := by
    simp [Service.set, hset]
  have haccepted : (s.set P (replayKey P.noncePrefix c.keyId c.nonce)).accepted = s.accepted := by
    simp [Service.set, hset]
  -- An earlier acceptance of the nonce would still have its key.
  have hfirst : s.acceptedFor c.keyId c.nonce = [] := by
    unfold Service.acceptedFor
    rw [List.filter_eq_nil_iff]
    intro d hd hsame
    obtain ⟨hkey, hnonce⟩ := of_decide_eq_true hsame
    obtain ⟨expiry, hexpiry, hle⟩ := h.covered d hd
    rw [hkey, hnonce] at hexpiry hle
    have hexpired : expiry ≤ s.now := by
      simpa [Service.isSet, hexpiry] using hset
    linarith
  refine ⟨hkept.now_nonneg, ?_, ?_⟩
  · intro d hd
    rcases List.mem_append.mp hd with hd | hd
    · exact hkept.covered d (by rwa [haccepted])
    · rw [List.mem_singleton.mp hd]
      refine ⟨_, hkeys, ?_⟩
      unfold expirySeconds
      push_cast
      linarith
  · intro keyId nonce
    unfold Service.acceptedFor
    rw [List.filter_append]
    by_cases hsame : c.keyId = keyId ∧ c.nonce = nonce
    · obtain ⟨rfl, rfl⟩ := hsame
      rw [show s.accepted.filter (fun d => d.keyId = c.keyId ∧ d.nonce = c.nonce) = [] from hfirst]
      simp
    · have hnone : [c].filter (fun d => d.keyId = keyId ∧ d.nonce = nonce) = [] := by
        simp [hsame]
      rw [hnone, List.append_nil]
      exact h.once keyId nonce

/-- A step that is in time keeps the invariant. -/
theorem inv_step {s' : Service} {a : Action} (h : Inv P signedAt s) (hc : inTime P signedAt s a)
    (hs : step P s a = some s') : Inv P signedAt s' := by
  cases a with
  | tick seconds =>
    simp only [step] at hs
    split at hs
    · rename_i hpos
      obtain rfl := Option.some.inj hs
      -- Time only passes.
      have hnow := h.now_nonneg
      exact ⟨by dsimp only; linarith, h.covered, h.once⟩
    · exact absurd hs (by simp)
  | present id headers request =>
    simp only [step] at hs
    split at hs
    · exact absurd hs (by simp)
    · -- A request that is presented does not touch the store.
      split at hs
      · obtain rfl := Option.some.inj hs
        exact h.congr rfl rfl rfl
      · obtain rfl := Option.some.inj hs
        exact h.congr rfl rfl rfl
  | read id =>
    simp only [step] at hs
    split at hs
    · split at hs
      · obtain rfl := Option.some.inj hs
        exact h.congr rfl rfl rfl
      · obtain rfl := Option.some.inj hs
        exact h.congr rfl rfl rfl
    · exact absurd hs (by simp)
  | abort id =>
    simp only [step] at hs
    split at hs
    · obtain rfl := Option.some.inj hs
      exact h.congr rfl rfl rfl
    · obtain rfl := Option.some.inj hs
      exact h.congr rfl rfl rfl
    · exact absurd hs (by simp)
  | store id answer =>
    simp only [step] at hs
    split at hs
    · rename_i c hphase
      obtain rfl := Option.some.inj hs
      -- The `SET` is done while the timestamp is fresh, so the key is still there for any other.
      obtain ⟨hfresh, hsigned⟩ : Fresh P s.now c.timestamp ∧
          c.timestamp = signedAt c.keyId c.nonce := by
        simpa [inTime, hphase] using hc
      cases answer with
      | failed applied =>
        -- An answer that was lost may have set the key all the same.
        cases applied with
        | false => exact h.congr rfl rfl rfl
        | true => exact (h.set _).congr rfl rfl rfl
      | ok =>
        -- An accepted nonce was not in the store.
        unfold Service.store
        dsimp only
        split
        · exact h.congr rfl rfl rfl
        · rename_i hset
          exact (h.accept hfresh hsigned (Bool.eq_false_iff.mpr hset)).congr rfl rfl rfl
    · exact absurd hs (by simp)

end Steps

/-- **A signed request is accepted at most once** in every run in which each nonce is set while its
timestamp still passes the clock check. -/
theorem accepted_once (P : Provider) (signedAt : String → String → ℕ) {s : Service}
    (h : (service P).ReachableWhen (fun s a => inTime P signedAt s a = true) s)
    (keyId nonce : String) :
    (s.acceptedFor keyId nonce).length ≤ 1 := by
  have hinv : Inv P signedAt s := by
    refine h.invariant ?_ ?_
    · rintro s ⟨now, hnow, rfl⟩
      exact ⟨hnow, by simp, by simp [Service.acceptedFor]⟩
    · intro s a s' _ hi hc hs
      exact inv_step hi hc hs
  exact hinv.once keyId nonce

/-! ## A run with a slow body -/

/-- A provider with one key and the smallest skew. -/
def sampleProvider : Provider :=
  ⟨[("bff", List.replicate 32 7)], 1, "agent:bff-auth:nonce", Nat.one_pos⟩

/-- A request. -/
def sampleBody : Request := ⟨"POST", "/api/v1/tasks", "", encode "x"⟩

/-- Its headers, signed for the second 100. -/
def sampleHeaders : IdentityHeaders where
  userId := some "user-1"
  signatureVersion := some "v1"
  keyId := some "bff"
  timestamp := some "100"
  nonce := some "nonce-0000000001"
  signature := some "z_Rop2liQbPBZM7ETefztZbYch67XtY1u3v72cyQp1M"

/-- Two presentations of it at the second 100: the first is accepted, and the body of the second
arrives only after some time. -/
def samplePresentations (wait : ℚ) : List Action :=
  [.tick 100, .present 1 sampleHeaders sampleBody, .present 2 sampleHeaders sampleBody, .read 1,
    .store 1 .ok, .tick wait, .read 2, .store 2 .ok]

/-- How often the request is accepted in a run of the sample provider. -/
def acceptances (actions : List Action) : Option ℕ :=
  ((service sampleProvider).run {} actions).map fun s =>
    (s.acceptedFor "bff" "nonce-0000000001").length

/-- The timestamp of the sample request's nonce. -/
def sampleSignedAt : String → String → ℕ := fun _ _ => 100

/-- In a run that presents one signed request more than once, it is accepted once. -/
theorem accepted_once_sample : ∃ s, (service sampleProvider).runIf
      (fun s a => inTime sampleProvider sampleSignedAt s a = true) {}
        (samplePresentations 1) = some s ∧
    (s.acceptedFor "bff" "nonce-0000000001").length ≤ 1 := by
  have hrun : ((service sampleProvider).runIf
      (fun s a => inTime sampleProvider sampleSignedAt s a = true) {}
      (samplePresentations 1)).isSome := by decide +kernel
  obtain ⟨s, hs⟩ := Option.isSome_iff_exists.mp hrun
  exact ⟨s, hs, accepted_once sampleProvider sampleSignedAt
    (Machine.ReachableWhen.runIf (.start ⟨0, le_rfl, rfl⟩) hs) "bff" "nonce-0000000001"⟩

/-- With a body that takes three seconds the request is accepted twice. -/
theorem accepted_twice : acceptances (samplePresentations 3) = some 2 := by decide +kernel

end ExAgent.Api.Identity
