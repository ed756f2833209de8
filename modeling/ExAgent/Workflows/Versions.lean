import ExAgent.Lib.Numbering
import ExAgent.Workflows.Contracts

/-!
# The versions of a workflow

Every commit keeps the versions of a workflow numbered from one to its latest version, with at most
one of them active and that one approved; it never changes a review that was made. An approval or an
activation that is applied leaves exactly its version active. A repeated one, which returns what the
first one stored, changes nothing and says nothing about the versions of today.
-/

namespace ExAgent.Workflows

open Lib ExAgent.Graph
open WorkflowLifecycleRepository WorkflowPromotionRepository

/-! ## The invariant -/

/-- The number of a version in its workflow. -/
def Db.number (db : Db) (id : Uuid) : Option (Uuid × ℕ) :=
  (db.versions.get id).map fun v => (v.workflowId, v.version)

/-- The latest version of a workflow. -/
def Db.latest (db : Db) (id : Uuid) : Option ℕ :=
  (db.workflows.get id).map WorkflowRow.latestVersion

/-- What holds of the versions between two commits. -/
structure Consistent (db : Db) : Prop where
  /-- The versions of a workflow are numbered from one to its latest version. -/
  numbering : Numbering db.number db.latest
  /-- A workflow has at most one active version. -/
  single : ∀ i j v w, db.versions.get i = some v → db.versions.get j = some w →
    v.workflowId = w.workflowId → v.active = true → w.active = true → i = j
  /-- An active version is approved. -/
  approved : ∀ i v, db.versions.get i = some v → v.active = true → v.reviewStatus = .approved

/-- An empty database. -/
theorem Consistent.empty : Consistent {} where
  numbering := ⟨fun i w n h => by simp [Db.number] at h, fun w m n h => by simp [Db.latest] at h,
    fun i j x h => by simp [Db.number] at h⟩
  single i j v w h := by simp at h
  approved i v h := by simp at h

section Commits

variable {S : Settings} {op : Op} {held : List RowKey} {result : Result} {db db' : Db}

/-- What becomes of a version: its number and its content stay, and so does a review. -/
structure Continues (v v' : VersionRow) : Prop where
  workflowId : v'.workflowId = v.workflowId
  version : v'.version = v.version
  content : v'.content = v.content
  review : v.reviewStatus ≠ .pendingReview → v'.reviewStatus = v.reviewStatus

/-- A version goes on as itself. -/
theorem Continues.refl (v : VersionRow) : Continues v v := ⟨rfl, rfl, rfl, fun _ => rfl⟩

/-- Versions go on from one to the next. -/
theorem Continues.trans {u v w : VersionRow} (h : Continues u v) (h' : Continues v w) :
    Continues u w where
  workflowId := h'.workflowId.trans h.workflowId
  version := h'.version.trans h.version
  content := h'.content.trans h.content
  review hu := by rw [h'.review (by rwa [h.review hu]), h.review hu]

/-- The rows of a workflow whose versions are switched: the target active and approved, the others
inactive, other workflows untouched. -/
structure Switched (db db' : Db) (workflowId target : Uuid) : Prop where
  chosen : ∃ v v', db.versions.get target = some v ∧ db'.versions.get target = some v' ∧
    v.workflowId = workflowId ∧ Continues v v' ∧ v'.active = true ∧ v'.reviewStatus = .approved
  others : ∀ i, i ≠ target → ∀ v, db.versions.get i = some v → v.workflowId = workflowId →
    ∃ v', db'.versions.get i = some v' ∧ Continues v v' ∧ v'.active = false
  rest : ∀ i, (∀ v, db.versions.get i = some v → v.workflowId ≠ workflowId) →
    db'.versions.get i = db.versions.get i
  latest : ∀ w, db'.latest w = db.latest w

/-- What an approval and an activation write. -/
theorem Switched.of_writes {workflowId versionId : Uuid} {version row : VersionRow}
    {taken : List Uuid} {actorUserId : String} {f : WorkflowRow → WorkflowRow}
    (htaken : Deactivates workflowId taken held db)
    (hversion : db.versions.get versionId = some version) (hof : version.workflowId = workflowId)
    (hget : ∀ k, db'.versions.get k = if k = versionId then some row
      else if k ∈ taken then (db.versions.get k).map (deactivated actorUserId)
      else db.versions.get k)
    (hworkflows : db'.workflows = db.workflows.modifyAt workflowId f)
    (hf : ∀ w, (f w).latestVersion = w.latestVersion) (hrow : Continues version row)
    (hactive : row.active = true) (happroved : row.reviewStatus = .approved) :
    Switched db db' workflowId versionId where
  chosen := ⟨version, row, hversion, by rw [hget, if_pos rfl], hof, hrow, hactive, happroved⟩
  others i hi v hv hvof := by
    refine ⟨deactivated actorUserId v, ?_, ⟨rfl, rfl, rfl, fun _ => rfl⟩, rfl⟩
    rw [hget, if_neg hi, if_pos ((htaken.mem i).mpr ⟨v, hv, hvof⟩), hv]
    rfl
  rest i hi := by
    have hout : i ∉ taken := by
      intro hin
      obtain ⟨v, hv, hvof⟩ := (htaken.mem i).mp hin
      exact hi v hv hvof
    have hne : i ≠ versionId := fun heq => hi version (heq ▸ hversion) hof
    rw [hget, if_neg hne, if_neg hout]
  latest w := by
    simp only [Db.latest, hworkflows, Table.get_modifyAt]
    split
    · rw [Option.map_map]
      exact congrArg (fun g => Option.map g _) (funext hf)
    · rfl

/-- The ways in which a commit changes versions. -/
inductive Versioned (db db' : Db) : Prop
  /-- A version with the next number of a workflow, which may be new. -/
  | added (id workflowId : Uuid) (m : ℕ) (row : VersionRow) (hnone : db.versions.get id = none)
      (hm : db.latest workflowId = some m ∨ db.latest workflowId = none ∧ m = 0)
      (hget : ∀ k, db'.versions.get k = if k = id then some row else db.versions.get k)
      (hlatest : ∀ w, db'.latest w = if w = workflowId then some (m + 1) else db.latest w)
      (hworkflow : row.workflowId = workflowId) (hversion : row.version = m + 1)
      (hactive : row.active = true → m = 0 ∧ row.reviewStatus = .approved)
  | switched (workflowId target : Uuid) (h : Switched db db' workflowId target)
  /-- A review that rejects. -/
  | rejected (id : Uuid) (v v' : VersionRow) (hv : db.versions.get id = some v)
      (hget : ∀ k, db'.versions.get k = if k = id then some v' else db.versions.get k)
      (hlatest : ∀ w, db'.latest w = db.latest w) (hpending : v.reviewStatus = .pendingReview)
      (hcontinues : Continues v v') (hactive : v'.active = v.active)
  | same (hget : ∀ k, db'.versions.get k = db.versions.get k)
      (hlatest : ∀ w, db'.latest w = db.latest w)

/-- An approval and an activation switch the versions of their workflow. -/
theorem Change.switched {c : LifecycleCall} {versionId : Uuid} {reason : Option String}
    (h : Change S op held result db db')
    (hop : op = .reviewVersion c versionId .approve reason ∨
      op = .activateVersion c versionId reason) :
    Switched db db' c.workflowId versionId := by
  cases h with
  | approved hlocked hversion hof hpending htaken hwrite =>
    obtain h | h := hop
    · obtain ⟨rfl, rfl, -, rfl⟩ := Op.reviewVersion.inj h
      obtain ⟨-, hget, hworkflows⟩ :=
        approved_spec hwrite hversion (Change.taken htaken hversion hof)
      exact Switched.of_writes htaken hversion hof hget hworkflows (fun _ => rfl)
        ⟨rfl, rfl, rfl, fun hne => absurd hpending hne⟩ rfl rfl
    · cases h
  | activated hlocked hversion hof happroved htaken hwrite =>
    obtain h | h := hop
    · cases h
    · obtain ⟨rfl, rfl, rfl⟩ := Op.activateVersion.inj h
      obtain ⟨-, hget, hworkflows⟩ :=
        switched_spec hwrite hversion (Change.taken htaken hversion hof)
      exact Switched.of_writes htaken hversion hof hget hworkflows (fun _ => rfl)
        ⟨rfl, rfl, rfl, fun _ => rfl⟩ rfl happroved
  | _ => rcases hop with h | h <;> cases h

/-- A change keeps the versions numbered. -/
theorem Change.versioned (h : Change S op held result db db') : Versioned db db' := by
  have hlatest : ∀ {workflowId : Uuid} {f : WorkflowRow → WorkflowRow},
      db'.workflows = db.workflows.modifyAt workflowId f →
      (∀ w, (f w).latestVersion = w.latestVersion) → ∀ w, db'.latest w = db.latest w := by
    intro workflowId f heq hf w
    simp only [Db.latest, heq, Table.get_modifyAt]
    split
    · rw [Option.map_map]
      exact congrArg (fun g => Option.map g _) (funext hf)
    · rfl
  cases h with
  | @created c new workflow steps held db db' hlocked hwrite =>
    obtain ⟨-, hnone, hget, hworkflows⟩ := created_spec hwrite
    refine .added new.id c.workflowId workflow.latestVersion _ hnone
      (.inl (by simp [Db.latest, hlocked.workflow])) hget (fun w => ?_) rfl rfl fun h => by cases h
    simp only [Db.latest, hworkflows, Table.get_modifyAt]
    split
    · rename_i hw
      simp [hw, hlocked.workflow]
    · rfl
  | approved hlocked hversion hof hpending htaken hwrite =>
    exact .switched _ _ (Change.switched (S := S)
      (.approved hlocked hversion hof hpending htaken hwrite) (.inl rfl))
  | @rejected c versionId reason workflow version held db db' hlocked hversion hof hpending hheld
      hwrite =>
    obtain ⟨-, hget, hworkflows⟩ := rejected_spec hwrite hversion
    exact .rejected versionId version _ hversion hget (fun w => by simp [Db.latest, hworkflows])
      hpending ⟨rfl, rfl, rfl, fun hne => absurd hpending hne⟩ rfl
  | activated hlocked hversion hof happroved htaken hwrite =>
    exact .switched _ _ (Change.switched (S := S)
      (.activated hlocked hversion hof happroved htaken hwrite) (.inr rfl))
  | restated hlocked hwrite =>
    obtain ⟨-, hversions, hworkflows⟩ := restated_spec hwrite
    exact .same (fun k => by rw [hversions]) (hlatest hworkflows fun _ => rfl)
  | @promoted p new htask steps held db db' hprepared hwrite =>
    obtain ⟨hfree, hnone, -, hworkflows, hget, -⟩ := promoted_spec hwrite
    refine .added new.id p.workflowId 0 _ hnone (.inr ⟨by simp [Db.latest, hfree], rfl⟩) hget
      (fun w => ?_) rfl rfl fun _ => ⟨rfl, rfl⟩
    simp only [Db.latest, hworkflows]
    split <;> rfl

/-- A version stays, with its number, its content and its review. -/
theorem Versioned.continues (h : Versioned db db') {id : Uuid} {v : VersionRow}
    (hv : db.versions.get id = some v) : ∃ v', db'.versions.get id = some v' ∧ Continues v v' := by
  cases h with
  | added i workflowId m row hnone hm hget hlatest hworkflow hversion hactive =>
    have hne : id ≠ i := by
      rintro rfl
      simp [hnone] at hv
    exact ⟨v, by rw [hget, if_neg hne, hv], .refl v⟩
  | switched workflowId target h =>
    by_cases hof : v.workflowId = workflowId
    · by_cases hid : id = target
      · obtain ⟨u, u', hu, hu', -, hcont, -, -⟩ := h.chosen
        rw [← hid] at hu hu'
        obtain rfl := Option.some.inj (hu.symm.trans hv)
        exact ⟨u', hu', hcont⟩
      · obtain ⟨v', hv', hcont, -⟩ := h.others id hid v hv hof
        exact ⟨v', hv', hcont⟩
    · refine ⟨v, ?_, .refl v⟩
      rw [h.rest id fun u hu => ?_, hv]
      obtain rfl := Option.some.inj (hu.symm.trans hv)
      exact hof
  | rejected i u u' hu hget hlatest hpending hcont hactive =>
    by_cases hid : id = i
    · subst hid
      obtain rfl := Option.some.inj (hu.symm.trans hv)
      exact ⟨u', by rw [hget, if_pos rfl], hcont⟩
    · exact ⟨v, by rw [hget, if_neg hid, hv], .refl v⟩
  | same hget hlatest => exact ⟨v, by rw [hget, hv], .refl v⟩

/-- Apart from an added version, versions come from versions. -/
theorem Versioned.number (h : Versioned db db') :
    (∃ id workflowId m, db.number id = none ∧
      (db.latest workflowId = some m ∨ db.latest workflowId = none ∧ m = 0) ∧
      (∀ k, db'.number k = if k = id then some (workflowId, m + 1) else db.number k) ∧
      ∀ w, db'.latest w = if w = workflowId then some (m + 1) else db.latest w) ∨
    (∀ k, db'.number k = db.number k) ∧ ∀ w, db'.latest w = db.latest w := by
  -- Where the same versions are there, they have their numbers.
  have hsame : (∀ k, db.versions.get k = none → db'.versions.get k = none) →
      ∀ k, db'.number k = db.number k := by
    intro hnone k
    unfold Db.number
    cases hv : db.versions.get k with
    | none => rw [hnone k hv]
    | some v =>
      obtain ⟨v', hv', hcont⟩ := h.continues hv
      rw [hv', Option.map_some, Option.map_some, hcont.workflowId, hcont.version]
  cases h with
  | added i workflowId m row hnone hm hget hlatest hworkflow hversion hactive =>
    refine .inl ⟨i, workflowId, m, by simp [Db.number, hnone], hm, fun k => ?_, hlatest⟩
    unfold Db.number
    rw [hget]
    split
    · rw [Option.map_some, hworkflow, hversion]
    · rfl
  | switched workflowId target h =>
    exact .inr ⟨hsame fun k hk => by rw [h.rest k (by simp [hk]), hk], h.latest⟩
  | rejected i u u' hu hget hlatest hpending hcont hactive =>
    refine .inr ⟨hsame fun k hk => ?_, hlatest⟩
    have hne : k ≠ i := by
      rintro rfl
      simp [hu] at hk
    rw [hget, if_neg hne, hk]
  | same hget hlatest => exact .inr ⟨hsame fun k hk => by rw [hget, hk], hlatest⟩

/-- In a switched workflow exactly the target is active. -/
theorem Switched.active_iff {workflowId target : Uuid} (h : Switched db db' workflowId target)
    {i : Uuid} {v : VersionRow} (hv : db'.versions.get i = some v)
    (hof : v.workflowId = workflowId) : v.active = true ↔ i = target := by
  obtain ⟨u, u', hu, hu', huof, hcont, hactive, -⟩ := h.chosen
  by_cases hi : i = target
  · rw [hi] at hv
    obtain rfl := Option.some.inj (hu'.symm.trans hv)
    exact iff_of_true hactive hi
  · refine iff_of_false ?_ hi
    cases hold : db.versions.get i with
    | none =>
      rw [h.rest i (by simp [hold]), hold] at hv
      cases hv
    | some w =>
      by_cases hw : w.workflowId = workflowId
      · obtain ⟨w', hw', -, hinactive⟩ := h.others i hi w hold hw
        obtain rfl := Option.some.inj (hw'.symm.trans hv)
        simp [hinactive]
      · have hsame := h.rest i fun x hx => by
          obtain rfl := Option.some.inj (hold.symm.trans hx)
          exact hw
        rw [hsame, hold] at hv
        obtain rfl := Option.some.inj hv
        exact absurd hof hw

/-- The step lemma of the versions. -/
theorem Consistent.change (hc : Consistent db) (h : Change S op held result db db') :
    Consistent db' := by
  have hnumbering : Numbering db'.number db'.latest := by
    rcases h.versioned.number with ⟨id, workflowId, m, hid, hm, hnumber, hlatest⟩ | ⟨hn, hl⟩
    · exact hc.numbering.next hid hm hnumber hlatest
    · rw [show db'.number = db.number from funext hn, show db'.latest = db.latest from funext hl]
      exact hc.numbering
  -- The active versions, seen from after the commit.
  cases h.versioned with
  | added i workflowId m row hnone hm hget hlatest hworkflow hversion hactive =>
    -- A first version has no other version beside it.
    have halone : row.active = true → ∀ j v, db.versions.get j = some v →
        v.workflowId ≠ workflowId := by
      intro hrow j v hv hof
      obtain ⟨k, hk, hle, hlt⟩ := hc.numbering.inside j v.workflowId v.version
        (by simp [Db.number, hv])
      rw [hof] at hk
      obtain ⟨rfl, -⟩ := hactive hrow
      rcases hm with hm | ⟨hm, -⟩
      · obtain rfl := Option.some.inj (hk.symm.trans hm)
        omega
      · exact absurd (hk.symm.trans hm) (by simp)
    refine ⟨hnumbering, fun j k v w hv hw hof hav haw => ?_, fun j v hv hav => ?_⟩
    · rw [hget] at hv hw
      split at hv
      · obtain rfl := Option.some.inj hv
        split at hw
        · rename_i hj hk
          rw [hj, hk]
        · exact absurd (hof.symm.trans hworkflow) (halone hav k w hw)
      · split at hw
        · obtain rfl := Option.some.inj hw
          exact absurd (hof.trans hworkflow) (halone haw j v hv)
        · exact hc.single j k v w hv hw hof hav haw
    · rw [hget] at hv
      split at hv
      · obtain rfl := Option.some.inj hv
        exact (hactive hav).2
      · exact hc.approved j v hv hav
  | switched workflowId target hswitched =>
    have hrest : ∀ j v, db'.versions.get j = some v → v.workflowId ≠ workflowId →
        db.versions.get j = some v := by
      intro j v hv hof
      cases hold : db.versions.get j with
      | none =>
        rw [hswitched.rest j (by simp [hold]), hold] at hv
        exact hv
      | some u =>
        obtain ⟨v', hv', hcont⟩ := h.versioned.continues hold
        obtain rfl := Option.some.inj (hv'.symm.trans hv)
        have huof : u.workflowId ≠ workflowId := fun hu => hof (hcont.workflowId.trans hu)
        rw [hswitched.rest j fun x hx => by
          obtain rfl := Option.some.inj (hold.symm.trans hx)
          exact huof, hold] at hv
        exact hv
    refine ⟨hnumbering, fun j k v w hv hw hof hav haw => ?_, fun j v hv hav => ?_⟩
    · by_cases hvof : v.workflowId = workflowId
      · rw [(hswitched.active_iff hv hvof).mp hav,
          (hswitched.active_iff hw (hof.symm.trans hvof)).mp haw]
      · exact hc.single j k v w (hrest j v hv hvof)
          (hrest k w hw fun hw' => hvof (hof.trans hw')) hof hav haw
    · by_cases hvof : v.workflowId = workflowId
      · obtain ⟨u, u', -, hu', -, -, -, happroved⟩ := hswitched.chosen
        rw [(hswitched.active_iff hv hvof).mp hav] at hv
        obtain rfl := Option.some.inj (hu'.symm.trans hv)
        exact happroved
      · exact hc.approved j v (hrest j v hv hvof) hav
  | rejected i u u' hu hget hlatest hpending hcont hactive =>
    -- A version to be reviewed is not active.
    have hinactive : u'.active ≠ true := by
      intro hu'
      have := hc.approved i u hu (hactive ▸ hu')
      rw [hpending] at this
      cases this
    have hold : ∀ j v, db'.versions.get j = some v → v.active = true →
        db.versions.get j = some v := by
      intro j v hv hav
      rw [hget] at hv
      split at hv
      · obtain rfl := Option.some.inj hv
        exact absurd hav hinactive
      · exact hv
    exact ⟨hnumbering, fun j k v w hv hw hof hav haw =>
      hc.single j k v w (hold j v hv hav) (hold k w hw haw) hof hav haw,
      fun j v hv hav => hc.approved j v (hold j v hv hav) hav⟩
  | same hget hlatest =>
    refine ⟨hnumbering, fun j k v w hv hw => ?_, fun j v hv => ?_⟩
    · rw [hget] at hv hw
      exact hc.single j k v w hv hw
    · rw [hget] at hv
      exact hc.approved j v hv

end Commits

/-! ## Runs -/

/-- Any calls of the repositories, statement by statement, from a consistent database. -/
abbrev server (S : Settings) := Server.machine (workload S) Consistent

section Runs

variable {S : Settings} {s s' : Server Db RowKey Row Op Result} {act : Server.Act Op}

/-- Every database of a run is consistent. -/
theorem consistent_reachable (hr : (server S).Reachable s) : Consistent s.db := by
  induction hr with
  | start hs =>
    obtain ⟨db, hdb, rfl⟩ := hs
    exact hdb
  | next hr _ hstep ih =>
    cases Server.moved (meets S) hr hstep with
    | quiet hdb _ => exact hdb ▸ ih
    | committed e held write violated ha hcall hown hhistory hended => exact ih.change hown

/-- A version continues along a run. -/
theorem continues_leads (hr : (server S).Reachable s) (hl : (server S).Leads s s') {id : Uuid}
    {v : VersionRow} (hv : s.db.versions.get id = some v) :
    ∃ v', s'.db.versions.get id = some v' ∧ Continues v v' := by
  refine Machine.Leads.stable (P := fun t => ∃ v', t.db.versions.get id = some v' ∧ Continues v v')
    ?_ hr ⟨v, hv, .refl v⟩ hl
  rintro t a t' ht ⟨u, hu, hcont⟩ hstep
  cases Server.moved (meets S) ht hstep with
  | quiet hdb _ => exact ⟨u, hdb ▸ hu, hcont⟩
  | committed e held write violated ha hcall hown hhistory hended =>
    obtain ⟨u', hu', hcont'⟩ := hown.versioned.continues hu
    exact ⟨u', hu', hcont.trans hcont'⟩

/-- A call that ends as if it had written has made the commit of this step. -/
theorem change_of_ended (hr : (server S).Reachable s) (hstep : (server S).step s act = some s')
    {id : ℕ} {op : Op} {p : Progress Db RowKey Row Result} {result : Result}
    (hbefore : s.calls.get id = some ⟨op, p⟩) (hp : p ≠ .ended result)
    (hafter : s'.calls.get id = some ⟨op, .ended result⟩) (happlied : ¬ Unapplied result) :
    ∃ held, Change S op held result s.db s'.db := by
  have hmem := Server.committed_of_ended (program_ends S) (hr.step hstep) hafter happlied
  have hnew : ⟨id, op, result⟩ ∉ s.history := by
    intro hin
    have hended := Server.ended_of_mem_history (meets S) hr _ hin
    rw [hbefore] at hended
    exact hp (Call.mk.inj (Option.some.inj hended)).2
  cases Server.moved (meets S) hr hstep with
  | quiet _ hhistory =>
    rw [hhistory] at hmem
    exact absurd hmem hnew
  | committed e held write violated ha hcall hown hhistory hended =>
    rw [hhistory, List.mem_append, List.mem_singleton] at hmem
    rcases hmem with hin | rfl
    · exact absurd hin hnew
    · exact ⟨held, hown⟩

/-- A step that changes the database ends its call with a result that says so. -/
theorem ended_of_change (hr : (server S).Reachable s) (hstep : (server S).step s act = some s') :
    s'.db = s.db ∨ ∃ op answer, s'.calls.get act.call = some ⟨op, .ended (.ok answer)⟩ ∧
      ¬ Unapplied (.ok answer) := by
  cases Server.moved (meets S) hr hstep with
  | quiet hdb _ => exact .inl hdb
  | committed e held write violated ha hcall hown hhistory hended =>
    obtain ⟨answer, hanswer, happlied⟩ := hown.applied
    rw [hanswer] at hended happlied
    subst ha
    exact .inr ⟨e.op, answer, hended, happlied⟩

/-- The result of a call is final. -/
theorem ended_leads (hr : (server S).Reachable s) (hl : (server S).Leads s s') {id : ℕ} {op : Op}
    {result : Result} (hc : s.calls.get id = some ⟨op, .ended result⟩) :
    s'.calls.get id = some ⟨op, .ended result⟩ :=
  Machine.Leads.stable (P := fun t => t.calls.get id = some ⟨op, .ended result⟩)
    (fun _ _ _ _ h hstep => Server.step_ended hstep h) hr hc hl

/-- What holds of the versions of workflows at a state of a run. -/
structure VersionsKept (S : Settings) (s : Server Db RowKey Row Op Result) : Prop where
  consistent : Consistent s.db
  /-- A version keeps its number and its content, and its review once it is made. -/
  continues : ∀ s', (server S).Leads s s' → ∀ id v, s.db.versions.get id = some v →
    ∃ v', s'.db.versions.get id = some v' ∧ Continues v v'
  /-- A step that ends an approval or an activation, with a result that is applied, leaves exactly
  its version active. -/
  switches : ∀ act s' id op p r c versionId reason, (server S).step s act = some s' →
    op = .reviewVersion c versionId .approve reason ∨ op = .activateVersion c versionId reason →
    s.calls.get id = some ⟨op, p⟩ → p ≠ .ended (.ok (.action r)) →
    s'.calls.get id = some ⟨op, .ended (.ok (.action r))⟩ → r.applied = true →
    (∃ v, s'.db.versions.get versionId = some v ∧ v.workflowId = c.workflowId) ∧
      ∀ i v, s'.db.versions.get i = some v → v.workflowId = c.workflowId →
        (v.active = true ↔ i = versionId)
  /-- The steps of a call that raises change nothing. -/
  raises : ∀ act s' s'' op e, (server S).step s act = some s' → (server S).Leads s' s'' →
    s''.calls.get act.call = some ⟨op, .ended (.error e)⟩ → s'.db = s.db

/-- The versions of workflows, in every run of the repositories' calls: they are consistent, a
review is made once, an approval or an activation that is applied leaves exactly its version active,
and the steps of a call that raises change nothing. -/
theorem versions_of_every_run (hr : (server S).Reachable s) : VersionsKept S s := by
  constructor
  case consistent => exact consistent_reachable hr
  case continues => exact fun s' hl id v hv => continues_leads hr hl hv
  case switches =>
    intro act s' id op p r c versionId reason hstep hop hbefore hp hafter happlied
    obtain ⟨held, hchange⟩ :=
      change_of_ended hr hstep hbefore hp hafter (by simp [Unapplied, happlied])
    have hswitched := hchange.switched hop
    obtain ⟨v, v', -, hv', hof, hcont, -, -⟩ := hswitched.chosen
    exact ⟨⟨v', hv', hcont.workflowId.trans hof⟩, fun i w hw hwof => hswitched.active_iff hw hwof⟩
  case raises =>
    intro act s' s'' op e hstep hl hraised
    rcases ended_of_change hr hstep with hdb | ⟨op', answer, hended, -⟩
    · exact hdb
    · have hlater := ended_leads (hr.step hstep) hl hended
      rw [hraised] at hlater
      simp at hlater

end Runs

/-! ## A run

Task 7 is promoted to workflow 1 with version 11; version 12 is added and approved, version 11 is
activated again, and the approval of version 12 is repeated. -/

namespace Sample

/-- The settings. -/
def settings : Settings where
  payloadHash plan _ := plan.steps.length

/-- A Step of a registered tool. -/
def step : PlanStepDraft where
  sequence := 0
  title := "load"
  purpose := "sample"
  planningKind := .toolPlan
  skill := some ⟨"tables", "1", 1⟩
  tool := some ⟨"load", "1", 2⟩
  parameters := ⟨[], Dict.sorted_nil⟩
  selectionRationale := "sample"
  expectedOutputs := []
  validationCriteria := []
  timeoutSeconds := 300
  customCode := none
  lineage_of_tool _ := ⟨nofun, nofun, rfl⟩
  lineage_of_code := nofun

/-- The plan of a version. -/
def plan : PlanDraft where
  objective := "sample"
  strategySummary := "sample"
  executionMode := .single
  runtimeProfile := "basic"
  first := step
  rest := []
  assumptions := []
  expectedArtifacts := []
  sequences := rfl

/-- A version made from Task 7. -/
def version (id : Uuid) : NewVersion where
  id
  source := ⟨7, "user", "project", some 30, [⟨100, 101⟩]⟩
  requestExamples := []
  tags := []
  plan
  inputContract := ⟨[], Dict.sorted_nil⟩
  embeddingModel := "sample"
  registrySnapshotHash := "sample"
  searchableText := "sample"

/-- The promotion. -/
def promotion (key : String) : PromoteCall where
  taskId := 7
  actorUserId := "user"
  idempotencyKey := key
  requestHash := 1
  name := "monthly"
  description := "sample"
  policyVersion := "v1"
  workflowId := 1
  prepared := .ok ⟨version 11, rfl⟩

/-- A call about workflow 1. -/
def call (key : String) : LifecycleCall := ⟨1, "user", key, 2, "v1"⟩

/-- A call with its statements. -/
def runs (id : ℕ) (op : Op) (statements : ℕ) : List (Server.Act Op) :=
  .begin id op :: List.replicate statements (.next id)

/-- Up to the approval of version 12. -/
def approval : List (Server.Act Op) :=
  runs 1 (.promote (promotion "p")) 6 ++ runs 2 (.createVersion (call "c") (version 12)) 5 ++
    runs 3 (.reviewVersion (call "r") 12 .approve none) 9

/-- The run. -/
def repeated : List (Server.Act Op) :=
  approval ++ runs 4 (.activateVersion (call "a") 11 none) 8 ++
    runs 5 (.reviewVersion (call "r") 12 .approve none) 3

/-- The call and its result, when it has ended with one. -/
def ended (s : Server Db RowKey Row Op Result) (id : ℕ) : Option (Op × Result) :=
  match s.calls.get id with
  | some ⟨op, .ended result⟩ => some (op, result)
  | _ => none

/-- Whether a version is active. -/
def active (s : Server Db RowKey Row Op Result) (id : Uuid) : Option Bool :=
  (s.db.versions.get id).map VersionRow.active

/-- The approval. -/
def approve : Op := .reviewVersion (call "r") 12 .approve none

/-- What the approval returns. -/
def approvedResult (applied : Bool) : LifecycleResult :=
  ⟨1, some 12, some 2, some 1, .versionApproved, .active, some .approved, some true, applied⟩

/-- A call that has ended has its result. -/
theorem ended_eq_some {s : Server Db RowKey Row Op Result} {id : ℕ} {op : Op} {result : Result}
    (h : ended s id = some (op, result)) : s.calls.get id = some ⟨op, .ended result⟩ := by
  unfold ended at h
  split at h
  · rename_i hc
    obtain ⟨rfl, rfl⟩ := Prod.mk.inj (Option.some.inj h)
    exact hc
  · cases h

end Sample

section

open Workflows.Sample

/-- After the approval exactly version 12 is active. -/
theorem versions_of_approval :
    ∃ s s', (server settings).run { db := {} } approval.dropLast = some s ∧
    (server settings).step s (.next 3) = some s' ∧ active s' 12 = some true ∧
    ∀ i v, s'.db.versions.get i = some v → v.workflowId = 1 → (v.active = true ↔ i = 12) := by
  have hrun : ((server settings).run { db := {} } approval.dropLast).any (fun s =>
      ((s.calls.get 3).map Call.op == some approve) && (ended s 3).isNone &&
        ((server settings).step s (.next 3)).any fun s' => active s' 12 == some true &&
          (ended s' 3 == some (approve, .ok (.action (approvedResult true))))) = true := by
    decide +kernel
  obtain ⟨s, hs, hrun⟩ := (Option.any_eq_true _ _).mp hrun
  simp only [Bool.and_eq_true, beq_iff_eq, Option.isNone_iff_eq_none] at hrun
  obtain ⟨⟨hop, hopen⟩, hrun⟩ := hrun
  obtain ⟨s', hstep, hrun⟩ := (Option.any_eq_true _ _).mp hrun
  simp only [Bool.and_eq_true, beq_iff_eq] at hrun
  obtain ⟨⟨op, p⟩, hc, rfl⟩ := Option.map_eq_some_iff.mp hop
  have hp : p ≠ .ended (.ok (.action (approvedResult true))) := by
    rintro rfl
    simp [ended, hc] at hopen
  have hr : (server settings).Reachable s :=
    Machine.Reachable.run (.start ⟨{}, Consistent.empty, rfl⟩) hs
  have hactive := (versions_of_every_run hr).switches
  exact ⟨s, s', hs, hstep, hrun.1, (hactive _ s' 3 _ p _ (call "r") 12 none hstep (.inl rfl) hc hp
    (ended_eq_some hrun.2) rfl).2⟩

/-- The repeated approval of version 12 succeeds, and version 11 stays active. -/
theorem approval_repeated :
    ((server settings).run { db := {} } repeated.dropLast).map (fun s => ended s 5) = some none ∧
    ((server settings).run { db := {} } repeated).map (fun s =>
      (ended s 5, active s 11, active s 12)) =
      some (some (approve, .ok (.action (approvedResult false))), some true, some false) := by
  decide +kernel

end

end ExAgent.Workflows
