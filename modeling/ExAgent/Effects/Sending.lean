import ExAgent.Effects.Files
import ExAgent.Pages.Cursors

/-!
# What the Executor is sent

The proof of `executed_bytes`: whatever a call reads or restores, the paths of its request lead to
files with the checksums of the request, and nobody else's call changes them. The invariant follows
the files through all calls: a file that a call has restored was written by a call, and a path that
a call writes names the checksum of the bytes (`Named`).
-/

namespace ExAgent.Effects.Files

open Lib

/-! ## Paths -/

/-- Digits and hyphens hold no slash. -/
theorem slash_not_mem_uuidText (id : Uuid) : 47 ∉ (Api.uuidText id).map Char.toNat := by
  have hhex : ∀ c ∈ Api.hexDigits 32 id, c.toNat ≠ 47 := by
    intro c hc
    have h := Pages.isHex_hexDigits id c.toNat (List.mem_map_of_mem hc)
    unfold Pages.IsHex at h
    omega
  have hdash : ('-' : Char).toNat ≠ 47 := by decide
  intro hmem
  obtain ⟨d, hd, h47⟩ := List.mem_map.mp hmem
  unfold Api.uuidText at hd
  simp only [List.mem_append, List.mem_cons] at hd
  rcases hd with (((hd | rfl | hd) | rfl | hd) | rfl | hd) | rfl | hd
  · exact hhex d (List.mem_of_mem_take hd) h47
  · exact hdash h47
  · exact hhex d (List.mem_of_mem_drop (List.mem_of_mem_take hd)) h47
  · exact hdash h47
  · exact hhex d (List.mem_of_mem_drop (List.mem_of_mem_take hd)) h47
  · exact hdash h47
  · exact hhex d (List.mem_of_mem_drop (List.mem_of_mem_take hd)) h47
  · exact hdash h47
  · exact hhex d (List.mem_of_mem_drop hd) h47

/-- The text of a UUID has a hyphen. -/
theorem hyphen_mem_uuidText (id : Uuid) : 45 ∈ (Api.uuidText id).map Char.toNat := by
  have h : '-' ∈ Api.uuidText id := by simp [Api.uuidText]
  exact List.mem_map.mpr ⟨'-', h, by decide⟩

/-- The text of a digest has no slash. -/
theorem slash_not_mem_checksum (bytes : List UInt8) : 47 ∉ checksum bytes := by
  intro hmem
  obtain ⟨c, hc, h47⟩ := List.mem_map.mp hmem
  obtain ⟨w, -, hc⟩ := List.mem_flatMap.mp hc
  obtain ⟨i, -, rfl⟩ := List.mem_map.mp hc
  have h := (Pages.digitChar_hex (Nat.mod_lt (w.toNat / 16 ^ (7 - i)) (by decide : 0 < 16))).1
  unfold Pages.IsHex at h
  omega

/-- The endings that the callers of `input_file` give. -/
def IsSuffix (suffix : PyText) : Prop :=
  suffix = PyText.ofString "py" ∨ suffix = PyText.ofString "md"

/-- An ending has two signs. -/
theorem IsSuffix.length {suffix : PyText} (h : IsSuffix suffix) : suffix.length = 2 := by
  rcases h with rfl | rfl
  · decide
  · decide

/-- An ending has no slash. -/
theorem IsSuffix.slash {suffix : PyText} (h : IsSuffix suffix) : 47 ∉ suffix := by
  rcases h with rfl | rfl
  · decide
  · decide

/-- The components of an input path: the Task, `effects`, and the checksum with the ending. -/
theorem inputPath_parts (taskId : Uuid) (bytes : List UInt8) {suffix : PyText}
    (h : IsSuffix suffix) :
    requestKey (inputPath taskId (checksum bytes) suffix) =
      some [(Api.uuidText taskId).map Char.toNat, PyText.ofString "effects",
      checksum bytes ++ 46 :: suffix] := by
  -- The last component is longer than a dot or two, and no component has a slash.
  have hlong : 2 < (checksum bytes ++ 46 :: suffix).length := by
    rw [List.length_append, List.length_cons, h.length]
    omega
  have hslash : 47 ∉ checksum bytes ++ 46 :: suffix := by
    simp only [List.mem_append, List.mem_cons, not_or]
    exact ⟨slash_not_mem_checksum bytes, by decide, h.slash⟩
  have hparts : ∀ part ∈ [(Api.uuidText taskId).map Char.toNat, PyText.ofString "effects",
      checksum bytes ++ 46 :: suffix], (47 ∉ part ∧ part ≠ [] ∧ part ≠ [46]) ∧
      part ≠ PyText.ofString ".." := by
    simp only [List.forall_mem_cons]
    refine ⟨⟨⟨slash_not_mem_uuidText taskId, ?_, ?_⟩, ?_⟩, by decide, ⟨⟨hslash, ?_, ?_⟩, ?_⟩, nofun⟩
    · exact List.ne_nil_of_mem (hyphen_mem_uuidText taskId)
    · intro he
      have := hyphen_mem_uuidText taskId
      rw [he] at this
      exact absurd this (by decide)
    · intro he
      have := hyphen_mem_uuidText taskId
      rw [he] at this
      exact absurd this (by decide)
    · intro he
      rw [he] at hlong
      exact absurd hlong (by decide)
    · intro he
      rw [he] at hlong
      exact absurd hlong (by decide)
    · intro he
      rw [he] at hlong
      exact absurd hlong (by decide)
  have hpath : PosixPath.ofText (inputPath taskId (checksum bytes) suffix) = ⟨false, _⟩ :=
    PosixPath.ofText_intercalate (by simp) fun part hp => (hparts part hp).1
  unfold requestKey
  rw [hpath]
  dsimp only
  rw [if_neg]
  rintro (habs | hdots | hnil)
  · exact absurd habs (by decide)
  · exact (hparts _ hdots).2 rfl
  · exact absurd hnil (by simp)

/-- `path` is a path that `input_file` gives to a content with this checksum. -/
def Named (path sha256 : PyText) : Prop :=
  ∃ taskId bytes suffix, IsSuffix suffix ∧ sha256 = checksum bytes ∧
    path = inputPath taskId sha256 suffix

/-- Paths to one file name one checksum. -/
theorem Named.sha256_eq {path path' c c' : PyText} {key : List PyText} (h : Named path c)
    (h' : Named path' c')
    (hk : requestKey path = some key) (hk' : requestKey path' = some key) : c = c' := by
  obtain ⟨taskId, bytes, suffix, hsuffix, rfl, rfl⟩ := h
  obtain ⟨taskId', bytes', suffix', hsuffix', rfl, rfl⟩ := h'
  have hparts := (inputPath_parts taskId bytes hsuffix).symm.trans (hk.trans (hk'.symm.trans
    (inputPath_parts taskId' bytes' hsuffix')))
  have hlast : checksum bytes ++ 46 :: suffix = checksum bytes' ++ 46 :: suffix' := by
    simpa using congrArg (fun parts : Option (List PyText) => parts.bind List.getLast?) hparts
  have hlength : (46 :: suffix).length = (46 :: suffix').length := by
    rw [List.length_cons, List.length_cons, hsuffix.length, hsuffix'.length]
  exact (List.append_inj' hlast hlength).1

/-- An input file is named by the digest of its content. -/
theorem named_inputFile (taskId : Uuid) (content : PyText) {suffix : PyText} (h : IsSuffix suffix) :
    Named (inputFile taskId content suffix).path (inputFile taskId content suffix).sha256 :=
  ⟨taskId, Utf8.encode content, suffix, h, rfl, rfl⟩

/-! ## What holds in every state -/

/-- What a body names of a file. -/
def InputFile.source (item : InputFile) : Source := ⟨item.path, item.sha256⟩

/-- A source has the path of its checksum. -/
def Source.Named (source : Source) : Prop := Files.Named source.path source.sha256

/-- A call has written to the path of the checksum of its bytes. -/
def Addressed (w : List PyText × List UInt8) : Prop :=
  ∃ source : Source, source.Named ∧ requestKey source.path = some w.1 ∧ checksum w.2 = source.sha256

/-- Under the path of a source there are bytes with its checksum, which a call has written. -/
def State.Holds (s : State) (source : Source) : Prop :=
  ∃ key bytes, requestKey source.path = some key ∧ s.store key = some bytes ∧
    (key, bytes) ∈ s.writes ∧ checksum bytes = source.sha256

/-- A request names the Steps of its revision, all or the first. -/
def Request.Approved (revisions : ℕ → Option (List PlanStep)) (r : Request) : Prop :=
  ∃ number rows, r.revision = some number ∧ revisions number = some rows ∧
    (r.named = rows.map executorStep ∨ r.named = (rows.take 1).map executorStep)

/-- A request whose files are still to be read from `todo` on. -/
structure Request.Collecting (revisions : ℕ → Option (List PlanStep)) (r : Request)
    (todo : List Source) :
    Prop where
  named : r.named = r.files.map InputFile.source ++ todo
  shaped : ∀ source ∈ r.named, source.Named
  approved : r.kind = .submit ∨ r.kind = .append → r.Approved revisions

/-- What a call relies on where it stands. -/
def Phase.Sound (s : State) : Phase → Prop
  | .compiling todo rows =>
      (∀ item ∈ todo, item.source.Named) ∧ ∀ row ∈ rows, (executorStep row).Named
  | .called _ | .missing _ | .done => True
  | .capturing _ request todo => request.Collecting s.revisions todo
  | .drafted _ request => request.Collecting s.revisions []
  | .sending _ request todo restored =>
    request.Collecting s.revisions [] ∧ request.files = restored ++ todo ∧
      ∀ item ∈ restored, s.Holds item.source

/-- A request that was sent found its files. -/
def Delivered (s : State) (e : Request × FileStore) : Prop :=
  e.1.Collecting s.revisions [] ∧ ∀ source ∈ e.1.named,
    ∃ key bytes, requestKey source.path = some key ∧ e.2 key = some bytes ∧
    checksum bytes = source.sha256

/-- The invariant of the calls. -/
structure Inv (s : State) : Prop where
  rows : ∀ number rows, s.revisions number = some rows → ∀ row ∈ rows, (executorStep row).Named
  journal : ∀ key row, s.journal key = some row → row.request.Collecting s.revisions []
  calls : ∀ phase ∈ s.calls, phase.Sound s
  writes : ∀ w ∈ s.writes, Addressed w
  sent : ∀ e ∈ s.sent, Delivered s e

/-! ## What changes keep -/

/-- A restored file is a source of the request. -/
theorem restoreFile_eq_some {item : InputFile} {w : List PyText × List UInt8}
    (h : restoreFile item = some w) :
    requestKey item.path = some w.1 ∧ checksum w.2 = item.sha256 := by
  unfold restoreFile at h
  dsimp only at h
  by_cases hsum : checksum (Utf8.encode item.content) = item.sha256
  · rw [if_neg (not_not.mpr hsum)] at h
    obtain ⟨key, hkey, rfl⟩ := Option.map_eq_some_iff.mp h
    exact ⟨hkey, hsum⟩
  · rw [if_pos hsum] at h
    exact absurd h (by simp)

/-- A file that is read keeps the path and the checksum of its source. -/
theorem captureFile_source {store : FileStore} {source : Source} {item : InputFile}
    (h : captureFile store source = some item) : item.source = source := by
  unfold captureFile at h
  dsimp only at h
  by_cases habs : (PosixPath.ofText source.path).absolute
  · rw [if_pos habs] at h
    exact absurd h (by simp)
  · rw [if_neg habs] at h
    obtain ⟨key, -, h⟩ := Option.bind_eq_some_iff.mp h
    obtain ⟨raw, -, h⟩ := Option.bind_eq_some_iff.mp h
    by_cases hsum : checksum raw = source.sha256
    · rw [if_neg (not_not.mpr hsum)] at h
      obtain ⟨content, -, h⟩ := Option.bind_eq_some_iff.mp h
      obtain rfl := Option.some.inj h
      rfl
    · rw [if_pos hsum] at h
      exact absurd h (by simp)

/-- What was approved stays approved when revisions are added. -/
theorem Request.Approved.mono {revisions revisions' : ℕ → Option (List PlanStep)} {r : Request}
    (hrev : ∀ number rows, revisions number = some rows → revisions' number = some rows)
    (h : r.Approved revisions) : r.Approved revisions' := by
  obtain ⟨number, rows, hnumber, hrows, hnamed⟩ := h
  exact ⟨number, rows, hnumber, hrev number rows hrows, hnamed⟩

/-- What is being collected stays so when revisions are added. -/
theorem Request.Collecting.mono {revisions revisions' : ℕ → Option (List PlanStep)} {r : Request}
    {todo : List Source}
    (hrev : ∀ number rows, revisions number = some rows → revisions' number = some rows)
    (h : r.Collecting revisions todo) : r.Collecting revisions' todo :=
  ⟨h.named, h.shaped, fun hk => (h.approved hk).mono hrev⟩

/-- What a call relies on stays when revisions and the files of named sources do. -/
theorem Phase.Sound.mono {s s' : State} {phase : Phase} (h : phase.Sound s)
    (hrev : ∀ number rows, s.revisions number = some rows → s'.revisions number = some rows)
    (hholds : ∀ source : Source, source.Named → s.Holds source → s'.Holds source) :
    phase.Sound s' := by
  cases phase with
  | compiling todo rows => exact h
  | called call => exact trivial
  | missing call => exact trivial
  | capturing call request todo => exact Request.Collecting.mono hrev h
  | drafted call request => exact Request.Collecting.mono hrev h
  | sending call request todo restored =>
    obtain ⟨hrequest, hfiles, hrestored⟩ := h
    refine ⟨hrequest.mono hrev, hfiles, fun item hitem => hholds _ ?_ (hrestored item hitem)⟩
    apply hrequest.shaped
    rw [hrequest.named, List.append_nil, hfiles]
    exact List.mem_map_of_mem (List.mem_append_left _ hitem)
  | done => exact trivial

/-- What was delivered stays so when revisions are added. -/
theorem Delivered.mono {s s' : State} {e : Request × FileStore} (h : Delivered s e)
    (hrev : ∀ number rows, s.revisions number = some rows → s'.revisions number = some rows) :
    Delivered s' e :=
  ⟨h.1.mono hrev, h.2⟩

/-- Another write leaves bytes of the same checksum under a path. -/
theorem State.Holds.write {s : State} {source : Source} {w : List PyText × List UInt8}
    (hn : source.Named) (hw : Addressed w) (h : s.Holds source) : (s.write w).Holds source := by
  obtain ⟨key, bytes, hkey, hstore, hmem, hsum⟩ := h
  by_cases hsame : w.1 = key
  · obtain ⟨source', hn', hkey', hsum'⟩ := hw
    have hsums : source.sha256 = source'.sha256 := Named.sha256_eq hn hn' hkey (hsame ▸ hkey')
    refine ⟨w.1, w.2, hsame ▸ hkey, ?_, List.mem_append_right _ List.mem_cons_self,
      hsum'.trans hsums.symm⟩
    exact Function.update_self ..
  · refine ⟨key, bytes, hkey, ?_, List.mem_append_left _ hmem, hsum⟩
    exact (Function.update_of_ne (Ne.symm hsame) ..).trans hstore

/-- The bytes under a path that a call writes do not change unless checksums collide. -/
theorem Addressed.eq_of_key {w w' : List PyText × List UInt8} (hw : Addressed w)
    (hw' : Addressed w') (hkey : w.1 = w'.1) : checksum w.2 = checksum w'.2 := by
  obtain ⟨source, hn, hk, hsum⟩ := hw
  obtain ⟨source', hn', hk', hsum'⟩ := hw'
  rw [hsum, hsum']
  exact Named.sha256_eq hn hn' hk (hkey ▸ hk')

namespace Inv

variable {s : State}

/-- A call may stand wherever it finds what it relies on. -/
theorem goto (hi : Inv s) (i : ℕ) {phase : Phase} (hp : phase.Sound s) : Inv (s.goto i phase) where
  rows := hi.rows
  journal := hi.journal
  calls := by
    intro p hmem
    rcases List.mem_or_eq_of_mem_set hmem with hold | rfl
    · exact (hi.calls p hold).mono (fun _ _ h => h) (fun _ _ h => h)
    · exact hp.mono (fun _ _ h => h) (fun _ _ h => h)
  writes := hi.writes
  sent := fun e he => (hi.sent e he).mono fun _ _ h => h

/-- A call may begin with any phase that is sound. -/
theorem call (hi : Inv s) {phase : Phase} (hp : phase.Sound s) :
    Inv { s with calls := s.calls ++ [phase] } where
  rows := hi.rows
  journal := hi.journal
  calls := by
    intro p hmem
    rcases List.mem_append.mp hmem with hold | hnew
    · exact (hi.calls p hold).mono (fun _ _ h => h) (fun _ _ h => h)
    · obtain rfl := List.mem_singleton.mp hnew
      exact hp.mono (fun _ _ h => h) (fun _ _ h => h)
  writes := hi.writes
  sent := fun e he => (hi.sent e he).mono fun _ _ h => h

/-- A write of a file that is named by its content keeps the invariant. -/
theorem write (hi : Inv s) {w : List PyText × List UInt8} (hw : Addressed w) : Inv (s.write w) where
  rows := hi.rows
  journal := hi.journal
  calls := by
    intro p hp
    exact (hi.calls p hp).mono (fun _ _ h => h) fun source hn h => State.Holds.write hn hw h
  writes := List.forall_mem_append.mpr ⟨hi.writes, List.forall_mem_singleton.mpr hw⟩
  sent := fun e he => (hi.sent e he).mono fun _ _ h => h

/-- New rows of a revision. -/
theorem revise (hi : Inv s) {number : ℕ} {rows : List PlanStep} (hnew : s.revisions number = none)
    (hrows : ∀ row ∈ rows, (executorStep row).Named) :
    Inv { s with revisions := Function.update s.revisions number (some rows) } := by
  have hrev : ∀ n rs, s.revisions n = some rs →
      Function.update s.revisions number (some rows) n = some rs := by
    intro n rs h
    have hne : n ≠ number := by
      rintro rfl
      exact absurd (hnew.symm.trans h) (by simp)
    rwa [Function.update_of_ne hne]
  constructor
  · intro n rs h
    by_cases hn : n = number
    · subst hn
      change Function.update s.revisions n (some rows) n = some rs at h
      rw [Function.update_self] at h
      obtain rfl := Option.some.inj h
      exact hrows
    · change Function.update s.revisions number (some rows) n = some rs at h
      rw [Function.update_of_ne hn] at h
      exact hi.rows n rs h
  · exact fun key row h => (hi.journal key row h).mono hrev
  · exact fun p hp => (hi.calls p hp).mono hrev (fun _ _ h => h)
  · exact hi.writes
  · exact fun e he => (hi.sent e he).mono hrev

/-- A row of the journal with a sound request. -/
theorem record (hi : Inv s) (key : PyText) {row : Option JournalRow}
    (hrow : ∀ r, row = some r → r.request.Collecting s.revisions []) :
    Inv { s with journal := Function.update s.journal key row } := by
  constructor
  · exact hi.rows
  · intro k r h
    by_cases hk : k = key
    · subst hk
      change Function.update s.journal k row k = some r at h
      rw [Function.update_self] at h
      exact hrow r h
    · change Function.update s.journal key row k = some r at h
      rw [Function.update_of_ne hk] at h
      exact hi.journal k r h
  · exact fun p hp => (hi.calls p hp).mono (fun _ _ h => h) (fun _ _ h => h)
  · exact hi.writes
  · exact fun e he => (hi.sent e he).mono fun _ _ h => h

/-- The row after `store.prepare` has a request whose files were collected. -/
theorem preparedRow (hi : Inv s) (call : Call) {request : Request}
    (hr : request.Collecting s.revisions []) :
    (Files.preparedRow s call request).request.Collecting s.revisions [] := by
  unfold Files.preparedRow
  cases h : s.journal call.key with
  | none => exact hr
  | some row => exact hi.journal call.key row h

/-- `store.prepare` keeps the invariant. -/
theorem prepared (hi : Inv s) (call : Call) {request : Request}
    (hr : request.Collecting s.revisions []) :
    Inv (s.prepared call request) := by
  apply hi.record
  intro r h
  obtain rfl := Option.some.inj h
  exact hi.preparedRow call hr

/-- `store.complete` keeps the invariant. -/
theorem answered (hi : Inv s) (call : Call) :
    Inv { s with journal := Function.update s.journal call.key (answeredRow s call) } := by
  apply hi.record
  intro r h
  obtain ⟨row, hrow, rfl⟩ := Option.map_eq_some_iff.mp h
  exact hi.journal call.key row hrow

/-- A request is sent when all its files are restored. -/
theorem send (hi : Inv s) {call : Call} {request : Request} {restored : List InputFile}
    (hp : (Phase.sending call request [] restored).Sound s) :
    Inv { s with sent := s.sent ++ [(request, s.store)] } where
  rows := hi.rows
  journal := hi.journal
  calls := fun p h => (hi.calls p h).mono (fun _ _ h => h) (fun _ _ h => h)
  writes := hi.writes
  sent := by
    obtain ⟨hrequest, hfiles, hrestored⟩ := hp
    intro e hmem
    rcases List.mem_append.mp hmem with hold | hnew
    · exact (hi.sent e hold).mono fun _ _ h => h
    · obtain rfl := List.mem_singleton.mp hnew
      refine ⟨hrequest, fun source hsource => ?_⟩
      change source ∈ request.named at hsource
      rw [hrequest.named, List.append_nil, hfiles, List.append_nil] at hsource
      obtain ⟨item, hitem, rfl⟩ := List.mem_map.mp hsource
      obtain ⟨key, bytes, hkey, hstore, -, hsum⟩ := hrestored item hitem
      exact ⟨key, bytes, hkey, hstore, hsum⟩

/-- Someone else changes a file that no call has restored. -/
theorem outside (hi : Inv s) {key : List PyText} {bytes : Option (List UInt8)}
    (hc : Undisturbed s (.outside key bytes)) :
    Inv { s with store := Function.update s.store key bytes } where
  rows := hi.rows
  journal := hi.journal
  calls := by
    intro p hp
    have hsound := hi.calls p hp
    cases p with
    | sending call request todo restored =>
      obtain ⟨hrequest, hfiles, hrestored⟩ := hsound
      refine ⟨hrequest, hfiles, fun item hitem => ?_⟩
      obtain ⟨k, b, hkey, hstore, hmem, hsum⟩ := hrestored item hitem
      have hne : k ≠ key := by
        rintro rfl
        exact hc _ hp item hitem hkey
      exact ⟨k, b, hkey, (Function.update_of_ne hne ..).trans hstore, hmem, hsum⟩
    | compiling todo rows => exact hsound
    | called call => exact trivial
    | missing call => exact trivial
    | capturing call request todo => exact hsound
    | drafted call request => exact hsound
    | done => exact trivial
  writes := hi.writes
  sent := fun e he => (hi.sent e he).mono fun _ _ h => h

end Inv

/-! ## The steps keep it -/

/-- A row that was found or prepared is sent from the start. -/
theorem settle_sound {s : State} {call : Call} {row : JournalRow}
    (h : row.request.Collecting s.revisions []) : (settle call row).Sound s := by
  unfold settle
  split_ifs
  · exact trivial
  · exact ⟨h, rfl, nofun⟩
  · exact trivial

/-- The Steps of a revision are still to be read. -/
theorem captureSteps_sound {s : State} {call : Call} {number : ℕ} {all rows : List PlanStep}
    (hall : s.revisions number = some all) (hrows : ∀ row ∈ rows, (executorStep row).Named)
    (hpart : rows = all ∨ rows = all.take 1) : (captureSteps call number rows).Sound s := by
  unfold captureSteps
  dsimp only
  split_ifs
  · exact trivial
  · refine ⟨rfl, ?_, fun _ => ⟨number, all, rfl, hall, ?_⟩⟩
    · intro source hsource
      obtain ⟨row, hrow, rfl⟩ := List.mem_map.mp hsource
      exact hrows row hrow
    · rcases hpart with rfl | rfl
      · exact Or.inl rfl
      · exact Or.inr rfl

/-- What `prepare()` starts from. -/
theorem draft_sound {s : State} (hi : Inv s) {call : Call} {choice : Choice} {phase : Phase}
    (h : draft s call choice = some phase) : phase.Sound s := by
  unfold draft at h
  split at h
  · -- Finalizing and cancelling name no files.
    split at h
    · obtain rfl := Option.some.inj h
      rename_i hkind
      exact ⟨rfl, nofun, fun hk => by simp [hkind] at hk⟩
    · obtain rfl := Option.some.inj h
      rename_i hkind
      exact ⟨rfl, nofun, fun hk => by simp [hkind] at hk⟩
    · exact absurd h (by simp)
  · rename_i number first
    -- Both kinds read the Steps of a revision, all or the first.
    have hsteps : ∀ rows, s.revisions number = some rows →
        (captureSteps call number (if first ∨ call.kind = .append then rows.take 1 else rows)).Sound
        s := by
      intro rows hrows
      by_cases hfirst : first = true ∨ call.kind = .append
      · rw [if_pos hfirst]
        exact captureSteps_sound hrows
          (fun row hrow => hi.rows number rows hrows row (List.mem_of_mem_take hrow))
          (Or.inr rfl)
      · rw [if_neg hfirst]
        exact captureSteps_sound hrows (hi.rows number rows hrows) (Or.inl rfl)
    split at h
    · rename_i rows hkind hrows
      obtain rfl := Option.some.inj h
      exact hsteps rows hrows
    · rename_i rows hkind hrows
      obtain rfl := Option.some.inj h
      exact hsteps rows hrows
    · exact absurd h (by simp)
  · split at h
    · obtain rfl := Option.some.inj h
      refine ⟨rfl, List.forall_mem_singleton.mpr ?_, fun hk => by simp at hk⟩
      exact named_inputFile call.taskId _ (Or.inr rfl)
    · exact absurd h (by simp)
  · obtain rfl := Option.some.inj h
    exact trivial
  · exact absurd h (by simp)

/-- A restored file is written to its path. -/
theorem addressed_restored {item : InputFile} {w : List PyText × List UInt8}
    (hn : item.source.Named) (h : restoreFile item = some w) : Addressed w :=
  ⟨item.source, hn, restoreFile_eq_some h⟩

/-- A step of a call keeps the invariant. -/
theorem work_inv {s s' : State} {i : ℕ} {phase : Phase} {choice : Choice} (hi : Inv s)
    (hp : phase.Sound s) (h : s.work i phase choice = some s') : Inv s' := by
  unfold State.work at h
  split at h
  · -- A file is restored for the compiler.
    rename_i item todo rows
    have hnamed : item.source.Named := hp.1 item List.mem_cons_self
    split at h
    · obtain rfl := Option.some.inj h
      exact hi.goto i trivial
    · rename_i w hw
      obtain rfl := Option.some.inj h
      apply (hi.write (addressed_restored hnamed hw)).goto
      exact ⟨fun it hit => hp.1 it (List.mem_cons_of_mem _ hit), hp.2⟩
  · -- A revision is stored.
    split at h
    · rename_i hnew
      obtain rfl := Option.some.inj h
      exact (hi.revise hnew hp.2).goto i trivial
    · exact absurd h (by simp)
  · -- A journaled call is found again, or goes on to its draft.
    rename_i call
    split at h
    · obtain rfl := Option.some.inj h
      exact hi.goto i trivial
    · rename_i row hrow
      obtain rfl := Option.some.inj h
      exact hi.goto i (settle_sound (hi.journal call.key row hrow))
  · obtain ⟨p, hdraft, rfl⟩ := Option.map_eq_some_iff.mp h
    exact hi.goto i (draft_sound hi hdraft)
  · -- A source is captured into the request.
    rename_i call request source todo
    split at h
    · obtain rfl := Option.some.inj h
      exact hi.goto i trivial
    · rename_i item hitem
      obtain rfl := Option.some.inj h
      have hrequest : request.Collecting s.revisions (source :: todo) := hp
      refine hi.goto i ⟨?_, hrequest.shaped, hrequest.approved⟩
      dsimp only
      rw [hrequest.named, List.map_append, List.append_assoc, List.map_singleton,
        captureFile_source hitem]
      rfl
  · obtain rfl := Option.some.inj h
    exact hi.goto i hp
  · -- The request is journaled and found again, or is journaled and its call stops.
    rename_i call request
    obtain rfl := Option.some.inj h
    exact (hi.prepared call hp).goto i (settle_sound (hi.preparedRow call hp))
  · rename_i call request
    obtain rfl := Option.some.inj h
    exact (hi.prepared call hp).goto i trivial
  · -- A file is restored in front of the Executor.
    rename_i call request item todo restored
    obtain ⟨hrequest, hfiles, hrestored⟩ := hp
    split at h
    · obtain rfl := Option.some.inj h
      exact hi.goto i trivial
    · rename_i w hw
      obtain rfl := Option.some.inj h
      have hshaped : ∀ it ∈ request.files, it.source.Named := by
        intro it hit
        apply hrequest.shaped
        rw [hrequest.named, List.append_nil]
        exact List.mem_map_of_mem hit
      have hw' : Addressed w :=
        addressed_restored (hshaped item (hfiles ▸ List.mem_append_right _ List.mem_cons_self)) hw
      refine (hi.write hw').goto i ⟨hrequest, by rw [hfiles, List.append_assoc]; rfl, ?_⟩
      intro it hit
      -- The files restored before stay, and this one is there now.
      rcases List.mem_append.mp hit with hold | hnew
      · exact State.Holds.write (hshaped it (hfiles ▸ List.mem_append_left _ hold)) hw'
          (hrestored it hold)
      · obtain rfl := List.mem_singleton.mp hnew
        refine ⟨w.1, w.2, (restoreFile_eq_some hw).1, ?_,
          List.mem_append_right _ List.mem_cons_self, (restoreFile_eq_some hw).2⟩
        exact Function.update_self ..
  · -- The request is sent, and then its response is journaled.
    obtain rfl := Option.some.inj h
    exact hi.send hp
  · rename_i call request restored
    obtain rfl := Option.some.inj h
    exact (hi.answered call).goto i trivial
  · exact absurd h (by simp)
  · obtain rfl := Option.some.inj h
    exact hi.goto i trivial
  · exact absurd h (by simp)

/-- A call writes one file at most. -/
theorem work_files {s s' : State} {i : ℕ} {phase : Phase} {choice : Choice}
    (h : s.work i phase choice = some s') :
    (s'.store = s.store ∧ s'.writes = s.writes) ∨
      ∃ w, s'.store = Function.update s.store w.1 (some w.2) ∧ s'.writes = s.writes ++ [w] := by
  unfold State.work at h
  split at h
  · -- The compiler writes the file of a source.
    split at h
    · obtain rfl := Option.some.inj h
      exact Or.inl ⟨rfl, rfl⟩
    · rename_i w _
      obtain rfl := Option.some.inj h
      exact Or.inr ⟨w, rfl, rfl⟩
  · split at h
    · obtain rfl := Option.some.inj h
      exact Or.inl ⟨rfl, rfl⟩
    · exact absurd h (by simp)
  · split at h
    · obtain rfl := Option.some.inj h
      exact Or.inl ⟨rfl, rfl⟩
    · obtain rfl := Option.some.inj h
      exact Or.inl ⟨rfl, rfl⟩
  · obtain ⟨p, -, rfl⟩ := Option.map_eq_some_iff.mp h
    exact Or.inl ⟨rfl, rfl⟩
  · split at h
    · obtain rfl := Option.some.inj h
      exact Or.inl ⟨rfl, rfl⟩
    · obtain rfl := Option.some.inj h
      exact Or.inl ⟨rfl, rfl⟩
  · obtain rfl := Option.some.inj h
    exact Or.inl ⟨rfl, rfl⟩
  · obtain rfl := Option.some.inj h
    exact Or.inl ⟨rfl, rfl⟩
  · obtain rfl := Option.some.inj h
    exact Or.inl ⟨rfl, rfl⟩
  · -- A call writes the files of its request again before it sends it.
    split at h
    · obtain rfl := Option.some.inj h
      exact Or.inl ⟨rfl, rfl⟩
    · rename_i w _
      obtain rfl := Option.some.inj h
      exact Or.inr ⟨w, rfl, rfl⟩
  · obtain rfl := Option.some.inj h
    exact Or.inl ⟨rfl, rfl⟩
  · obtain rfl := Option.some.inj h
    exact Or.inl ⟨rfl, rfl⟩
  · exact absurd h (by simp)
  · obtain rfl := Option.some.inj h
    exact Or.inl ⟨rfl, rfl⟩
  · exact absurd h (by simp)

/-- Every step keeps the invariant. -/
theorem step_inv {s s' : State} {a : Action} (hi : Inv s) (hc : Undisturbed s a)
    (h : step s a = some s') : Inv s' := by
  unfold step at h
  split at h
  · rename_i taskId sources
    obtain rfl := Option.some.inj h
    have hnamed : ∀ item ∈ sources.map fun source => inputFile taskId source (PyText.ofString "py"),
        item.source.Named := by
      intro item hitem
      obtain ⟨source, -, rfl⟩ := List.mem_map.mp hitem
      exact named_inputFile taskId source (Or.inl rfl)
    refine hi.call ⟨hnamed, fun row hrow => ?_⟩
    obtain ⟨item, hitem, rfl⟩ := List.mem_map.mp hrow
    exact hnamed item hitem
  · obtain rfl := Option.some.inj h
    exact hi.call trivial
  · obtain ⟨phase, hphase, hwork⟩ := Option.bind_eq_some_iff.mp h
    exact work_inv hi (hi.calls phase (List.mem_of_getElem? hphase)) hwork
  · obtain rfl := Option.some.inj h
    exact hi.goto _ trivial
  · obtain rfl := Option.some.inj h
    exact hi.outside hc

/-- It holds in every state. -/
theorem inv_reachable {s : State} (hr : machine.ReachableWhen Undisturbed s) : Inv s := by
  apply hr.invariant
  · rintro s rfl
    exact ⟨nofun, nofun, nofun, nofun, nofun⟩
  · exact fun s a s' _ hi hc h => step_inv hi hc h

/-! ## What calls write -/

/-- What a step does to the files: nothing, a write of a call, or a change from outside. -/
theorem step_files {s s' : State} {a : Action} (h : step s a = some s') :
    (s'.store = s.store ∧ s'.writes = s.writes) ∨
      (∃ w, s'.store = Function.update s.store w.1 (some w.2) ∧ s'.writes = s.writes ++ [w]) ∨
      ∃ key bytes, a = .outside key bytes ∧ s'.store = Function.update s.store key bytes ∧
      s'.writes = s.writes := by
  unfold step at h
  split at h
  · obtain rfl := Option.some.inj h
    exact Or.inl ⟨rfl, rfl⟩
  · obtain rfl := Option.some.inj h
    exact Or.inl ⟨rfl, rfl⟩
  · obtain ⟨phase, -, hwork⟩ := Option.bind_eq_some_iff.mp h
    rcases work_files hwork with hsame | hwrite
    · exact Or.inl hsame
    · exact Or.inr (Or.inl hwrite)
  · obtain rfl := Option.some.inj h
    exact Or.inl ⟨rfl, rfl⟩
  · rename_i key bytes
    obtain rfl := Option.some.inj h
    exact Or.inr (Or.inr ⟨key, bytes, rfl, rfl, rfl⟩)

/-- Different contents that were written have different checksums. -/
def CollisionFree (writes : List (List PyText × List UInt8)) : Prop :=
  ∀ w ∈ writes, ∀ w' ∈ writes, checksum w.2 = checksum w'.2 → w.2 = w'.2

/-- While nobody else changes a file, it stays as a call wrote it. -/
theorem written_kept {s s' : State} {w : List PyText × List UInt8}
    (hr : machine.ReachableWhen Undisturbed s) (hw : w ∈ s.writes) (hstore : s.store w.1 = some w.2)
    (hl : machine.LeadsWhen (fun t a => Undisturbed t a ∧ Spares w.1 a) s s') :
    machine.ReachableWhen Undisturbed s' ∧ w ∈ s'.writes ∧
      (CollisionFree s'.writes → s'.store w.1 = some w.2) := by
  induction hl with
  | refl => exact ⟨hr, hw, fun _ => hstore⟩
  | tail _ hs ih =>
    rename_i t t' _
    obtain ⟨a, ⟨hc, hspares⟩, hs⟩ := hs
    obtain ⟨hrt, hwt, hkept⟩ := ih
    have hr' : machine.ReachableWhen Undisturbed t' := .next hrt hc hs
    refine ⟨hr', ?_⟩
    rcases step_files hs with
      ⟨hsame, hwrites⟩ | ⟨w', hsame, hwrites⟩ | ⟨key, bytes, rfl, hsame, hwrites⟩
    · rw [hsame, hwrites]
      exact ⟨hwt, hkept⟩
    · rw [hsame, hwrites]
      have hwt' : w ∈ t.writes ++ [w'] := List.mem_append_left _ hwt
      refine ⟨hwt', fun hfree => ?_⟩
      by_cases hkey : w.1 = w'.1
      · -- The same file is written again: the checksums are the same, so the bytes are.
        have hmem : w' ∈ t.writes ++ [w'] := List.mem_append_right _ List.mem_cons_self
        have hsum : checksum w.2 = checksum w'.2 :=
          Addressed.eq_of_key ((inv_reachable hrt).writes w hwt)
            ((inv_reachable hr').writes w' (by rw [hwrites]; exact hmem)) hkey
        rw [hkey, Function.update_self, hfree w hwt' w' hmem hsum]
      · rw [Function.update_of_ne hkey]
        exact hkept fun v hv v' hv' =>
          hfree v (List.mem_append_left _ hv) v' (List.mem_append_left _ hv')
    · rw [hsame, hwrites]
      exact ⟨hwt, fun hfree => (Function.update_of_ne (Ne.symm hspares) ..).trans (hkept hfree)⟩

/-- Whenever a request is sent, each file that it names is there with the checksum that it names,
and a submission or an append names the Steps of the revision that it was prepared from. The path of
a file gives the Task and the checksum, so what calls write to one path has one checksum, and while
nobody else changes the file, no call does. -/
theorem executed_bytes {s : State} (hr : machine.ReachableWhen Undisturbed s) :
    (∀ e ∈ s.sent,
      (∀ source ∈ e.1.named, ∃ key bytes, requestKey source.path = some key ∧ e.2 key = some bytes ∧
        checksum bytes = source.sha256) ∧
      (e.1.kind = .submit ∨ e.1.kind = .append → e.1.Approved s.revisions)) ∧
    (∀ w ∈ s.writes, ∃ taskId suffix, IsSuffix suffix ∧
      requestKey (inputPath taskId (checksum w.2) suffix) = some w.1) ∧
    (∀ w ∈ s.writes, ∀ w' ∈ s.writes, w.1 = w'.1 → checksum w.2 = checksum w'.2) ∧
    ∀ w ∈ s.writes, s.store w.1 = some w.2 → ∀ s',
      machine.LeadsWhen (fun t a => Undisturbed t a ∧ Spares w.1 a) s s' →
      CollisionFree s'.writes → s'.store w.1 = some w.2 := by
  have hi := inv_reachable hr
  refine ⟨fun e he => ?_, fun w hw => ?_, fun w hw w' hw' => ?_, fun w hw hstore s' hl => ?_⟩
  · exact ⟨(hi.sent e he).2, (hi.sent e he).1.approved⟩
  · obtain ⟨source, ⟨taskId, bytes, suffix, hsuffix, -, hpath⟩, hkey, hsum⟩ := hi.writes w hw
    refine ⟨taskId, suffix, hsuffix, ?_⟩
    rw [hsum, ← hpath]
    exact hkey
  · exact Addressed.eq_of_key (hi.writes w hw) (hi.writes w' hw')
  · exact (written_kept hr hw hstore hl).2.2

namespace Sample

/-- The file of the first source. -/
def firstKey : List PyText :=
  (requestKey (inputFile 7 (PyText.ofString "print(1)") (PyText.ofString "py")).path).getD []

/-- A plan of two sources is compiled and submitted. The first file is deleted before the call
restores it; another call appends the first Step meanwhile. -/
def actions : List Action :=
  [.compile 7 [PyText.ofString "print(1)", PyText.ofString "print(2)"],
    .work 0 .ok, .work 0 .ok, .work 0 (.revision 3 false),
    .run ⟨PyText.ofString "submit", 7, .submit, []⟩, .work 1 .ok,
    .work 1 (.revision 3 false), .work 1 .ok,
    .work 1 .ok, .work 1 .ok, .work 1 .ok,
    .run ⟨PyText.ofString "append", 7, .append, []⟩, .work 2 .ok,
    .work 2 (.revision 3 false), .work 2 .ok,
    .work 2 .ok, .work 2 .ok,
    .outside firstKey none, .work 1 .ok, .work 2 .ok, .work 1 .ok, .work 1 .ok,
    .work 2 .ok, .work 1 .reply]

/-- Where they lead. -/
def sent : State := (machine.runIf Undisturbed {} actions).getD {}

/-- The actions of the sample run to its state. -/
theorem run_actions : machine.runIf Undisturbed {} actions = some sent := by
  have h : (machine.runIf Undisturbed {} actions).isSome := by decide +kernel
  obtain ⟨s, hs⟩ := Option.isSome_iff_exists.mp h
  unfold sent
  rw [hs]
  rfl

end Sample

/-- Two requests are sent with their files. -/
theorem executed_bytes_two :
    Sample.sent.sent.length = 2 ∧ ∀ e ∈ Sample.sent.sent, ∀ source ∈ e.1.named,
    ∃ key bytes, requestKey source.path = some key ∧ e.2 key = some bytes ∧
    checksum bytes = source.sha256 :=
  ⟨by decide +kernel, fun e he =>
    ((executed_bytes (.runIf (.start rfl) Sample.run_actions)).1 e he).1⟩

end ExAgent.Effects.Files
