import CloudWai.Deployment.Race

/-!
# Requests that do not race

`RaceInv` is what callers of one project and the rest of the plane keep up between them:
a row that lacks its job, or its preview target, is held by the one thread that made it,
and that thread is still at work. Under it the insert of a row, of a target and of a job
are each the first, so nobody is refused, and the caller is told its own row.

About `requestDeployment` in `apps/api/src/procedures/deployments.ts` and
`deployFromDelivery` in `apps/api/src/git-hook.ts`, as `Procedures.lean` and `Hook.lean`
have them.
-/

namespace CloudWai.Deployment

open Base Queue ControlPlaneStore

variable {engines : Engines} {org : OrganizationId} {project : ProjectId}
  {members : OrganizationId → UserId → Bool}

/-! ## What is there -/

/-- What a row was made with and keeps. -/
structure Imprint where
  organizationId : OrganizationId
  idempotencyKey : String
  projectId : ProjectId
  previewKey : Option String
deriving DecidableEq

/-- What of a row never changes. -/
def DeploymentRow.imprint (r : DeploymentRow) : Imprint :=
  ⟨r.organizationId, r.idempotencyKey, r.projectId, r.previewKey⟩

/-- And what it will be of the row that is inserted. -/
def DeploymentCreateInput.imprint (input : DeploymentCreateInput) : Imprint :=
  ⟨input.organizationId, input.idempotencyKey, input.projectId, input.previewKey⟩

def World.imprint (w : World) (d : DeploymentId) : Option Imprint :=
  (w.row d).map DeploymentRow.imprint

/-- The preview targets that are there, each by its project and key. -/
def World.targets (w : World) : List (ProjectId × String) :=
  w.store.previewTargets.rows.map fun t => (t.projectId, t.previewKey)

/-- The organization the project is in. -/
def World.home (w : World) (project : ProjectId) : Option OrganizationId :=
  (w.store.projects.find project).map (·.organizationId)

/-- No row has two jobs. -/
def OneJob (w : World) : Prop :=
  ∀ j ∈ w.jobs, ∀ j' ∈ w.jobs, j.payload.deploymentId = j'.payload.deploymentId → j.id = j'.id

section Perform

variable {w : World} {o : Oracle} {d : DeploymentId} {c : Call}

theorem ident_of_imprint {m : Imprint} (h : w.imprint d = some m) :
    w.ident d = some (m.organizationId, m.idempotencyKey) := by
  obtain ⟨r, hr, rfl⟩ := Option.map_eq_some_iff.mp h
  rw [World.ident, hr]
  rfl

theorem fixed_imprint : Fixed DeploymentRow.imprint := ⟨fun _ _ => rfl, fun _ _ => rfl⟩

theorem imprint_perform (hc : ∀ input, c ≠ .store (.insertDeployment input)) :
    (w.perform engines o c).2.imprint d = w.imprint d :=
  fixed_imprint.perform hc

theorem imprint_insert {input : DeploymentCreateInput} :
    (w.perform engines o (.store (.insertDeployment input))).2.imprint d =
      if o.fault.Lands ∧ w.store.accepts input = true ∧ d = w.store.deployments.nextId then
        some input.imprint
      else w.imprint d := by
  unfold World.imprint
  rw [row_insert]
  split <;> rfl

/-- An imprint that is there stays. -/
theorem imprint_stays {m : Imprint} (h : w.imprint d = some m) :
    (w.perform engines o c).2.imprint d = some m :=
  fixed_imprint.stays h

/-- Nobody becomes a member on the way. -/
theorem members_perform : (w.perform engines o c).2.store.members = w.store.members := by
  cases c with
  | engine row c => rfl
  | queue c => rw [perform_queue_store]
  | store c =>
    rw [perform_store]
    split
    · cases c with
      | insertPreviewTarget o' p k b n =>
        simp only [StoreCall.run]
        split <;> rfl
      | insertDeployment input =>
        simp only [StoreCall.run]
        split <;> rfl
      | promote o' p id =>
        simp only [StoreCall.run, Store.promoteDeployment]
        split
        · split <;> rfl
        · rfl
      | _ => rfl
    · rfl

/-- And no project changes hands. -/
theorem home_perform : (w.perform engines o c).2.home project = w.home project := by
  -- whatever is edited in a project, its organization is not
  have hedit : ∀ (t : ProjectsTable) (p : ProjectRow → Bool)
      (f : Table.Edit fun p : ProjectRow => p.id),
      (∀ a, (f.run a).organizationId = a.organizationId) →
      ((t.update p f).find project).map (·.organizationId) =
        (t.find project).map (·.organizationId) := by
    intro t p f hf
    rw [Table.find_update, Option.map_map]
    congr 1
    funext a
    show (f.on p a).organizationId = a.organizationId
    unfold Table.Edit.on
    split
    · exact hf a
    · rfl
  cases c with
  | engine row c => rfl
  | queue c =>
    unfold World.home
    rw [perform_queue_store]
  | store c =>
    unfold World.home
    rw [perform_store]
    split
    · cases c with
      -- of all calls two edit a project: a handle is stored, the pointer is moved
      | patchProjectProvider o' p provider resource => exact hedit _ _ _ fun _ => rfl
      | insertPreviewTarget o' p k b n =>
        simp only [StoreCall.run]
        split <;> rfl
      | insertDeployment input =>
        simp only [StoreCall.run]
        split <;> rfl
      | promote o' p id =>
        simp only [StoreCall.run, Store.promoteDeployment]
        split
        · split
          · exact hedit _ _ _ fun _ => rfl
          · rfl
        · rfl
      | _ => rfl
    · rfl

/-- Nothing else makes a preview target. -/
theorem targets_perform
    (hc : ∀ o' p k b n, c ≠ .store (.insertPreviewTarget o' p k b n)) :
    (w.perform engines o c).2.targets = w.targets := by
  cases c with
  | engine row c => rfl
  | queue c =>
    unfold World.targets
    rw [perform_queue_store]
  | store c =>
    unfold World.targets
    rw [perform_store]
    split
    · cases c with
      | insertPreviewTarget o' p k b n => exact absurd rfl (hc o' p k b n)
      -- a handle on a target leaves its two keys as they are
      | patchPreviewTarget o' p k provider resource =>
        simp only [StoreCall.run, Table.update, List.map_map]
        refine List.map_congr_left fun t _ => ?_
        show ((Table.Edit.on _ _ t).projectId, (Table.Edit.on _ _ t).previewKey) = _
        unfold Table.Edit.on
        split <;> rfl
      | insertDeployment input =>
        simp only [StoreCall.run]
        split <;> rfl
      | promote o' p id =>
        simp only [StoreCall.run, Store.promoteDeployment]
        split
        · split <;> rfl
        · rfl
      | _ => rfl
    · rfl

theorem any_target {p : ProjectId} {k : String} :
    (w.store.previewTargets.rows.any fun t => t.projectId == p && t.previewKey == k) = true ↔
      (p, k) ∈ w.targets := by
  rw [List.any_eq_true, World.targets, List.mem_map]
  constructor
  · rintro ⟨t, ht, hk⟩
    rw [Bool.and_eq_true, beq_iff_eq, beq_iff_eq] at hk
    exact ⟨t, ht, Prod.ext hk.1 hk.2⟩
  · rintro ⟨t, ht, hk⟩
    cases hk
    exact ⟨t, ht, by simp⟩

theorem targets_insert {o' : OrganizationId} {p : ProjectId} {k : String} {b : Option String}
    {n : Option Nat} :
    (w.perform engines o (.store (.insertPreviewTarget o' p k b n))).2.targets =
      if o.fault.Lands ∧ (p, k) ∉ w.targets then w.targets ++ [(p, k)] else w.targets := by
  rw [World.targets, perform_store]
  by_cases hlands : o.fault.Lands
  · by_cases hthere : (p, k) ∈ w.targets
    · rw [if_pos hlands, if_neg fun hnot => hnot.2 hthere]
      simp only [StoreCall.run, any_target.mpr hthere, if_true]
      rfl
    · rw [if_pos hlands, if_pos ⟨hlands, hthere⟩]
      simp only [StoreCall.run, mt any_target.mp hthere]
      exact List.map_append
  · rw [if_neg hlands, if_neg fun hnot => hlands hnot.1]
    rfl

theorem targets_mono {t : ProjectId × String} (h : t ∈ w.targets) :
    t ∈ (w.perform engines o c).2.targets := by
  by_cases hc : ∃ o' p k b n, c = .store (.insertPreviewTarget o' p k b n)
  · obtain ⟨o', p, k, b, n, rfl⟩ := hc
    rw [targets_insert]
    split
    · exact List.mem_append_left _ h
    · exact h
  · rw [targets_perform fun o' p k b n hcall => hc ⟨o', p, k, b, n, hcall⟩]
    exact h

theorem nodup_targets (h : w.targets.Nodup) : (w.perform engines o c).2.targets.Nodup := by
  by_cases hc : ∃ o' p k b n, c = .store (.insertPreviewTarget o' p k b n)
  · obtain ⟨o', p, k, b, n, rfl⟩ := hc
    rw [targets_insert]
    split
    next hnew => exact List.nodup_append.mpr ⟨h, List.nodup_singleton _, fun t ht t' ht' => by
      rw [List.mem_singleton.mp ht']
      exact fun heq => hnew.2 (heq ▸ ht)⟩
    next => exact h
  · rw [targets_perform fun o' p k b n hcall => hc ⟨o', p, k, b, n, hcall⟩]
    exact h

/-- A row keeps at most one job, if none is enqueued for a row that has one. -/
theorem oneJob_perform (h : OneJob w)
    (hc : ∀ n, c = .queue (.insert n) → ¬ HasJob n.payload.deploymentId w) :
    OneJob (w.perform engines o c).2 := by
  by_cases hinsert : ∃ n, c = .queue (.insert n)
  · obtain ⟨n, rfl⟩ := hinsert
    -- two jobs of one row: one of them is the new one, or both were there
    have hnone := hc n rfl
    intro j hj j' hj' hsame
    rw [perform_queue_jobs] at hj hj'
    split at hj
    · rw [if_pos ‹_›] at hj'
      simp only [QueueCall.run, insertJob] at hj hj'
      split at hj
      -- the key is taken: nothing is inserted
      · rw [if_pos ‹_›] at hj'
        exact h j hj j' hj' hsame
      · rw [if_neg ‹_›] at hj'
        split at hj
        · rw [if_pos ‹_›] at hj'
          exact h j hj j' hj' hsame
        · rw [if_neg ‹_›] at hj'
          rcases Table.mem_insertNew.mp hj with hj | rfl
          -- the row had no job, so an old one and the new one are of different rows
          · rcases Table.mem_insertNew.mp hj' with hj' | rfl
            · exact h j hj j' hj' hsame
            · exact absurd ⟨j, hj, hsame⟩ hnone
          · rcases Table.mem_insertNew.mp hj' with hj' | rfl
            · exact absurd ⟨j', hj', hsame.symm⟩ hnone
            · rfl
    · rw [if_neg ‹_›] at hj'
      exact h j hj j' hj' hsame
  · intro j hj j' hj' hsame
    -- every other call has the jobs as they were, with other fields
    rcases job_of_after hj with ⟨i, hi, hij⟩ | ⟨n, _, hcall, _⟩
    · rcases job_of_after hj' with ⟨i', hi', hij'⟩ | ⟨n, _, hcall, _⟩
      · rw [hij.payload, hij'.payload] at hsame
        rw [hij.id, hij'.id]
        exact h i hi i' hi' hsame
      · exact absurd ⟨n, hcall⟩ hinsert
    · exact absurd ⟨n, hcall⟩ hinsert

end Perform

/-! ## A caller's steps -/

/-- A look for the row by its key. -/
def Looks (org : OrganizationId) (key : String) : Call → Prop
  | .store (.selectDeploymentByKey _ o k) => o = org ∧ k = key
  | .store (.selectDeploymentByKeyForService o k) => o = org ∧ k = key
  | _ => False

/-- One step of a caller that is not refused. -/
inductive Advance (org : OrganizationId) (project : ProjectId) (a : Asked) :
    Standing → (c : Call) → Except String c.Ans → Standing → Prop where
  | asked {c : Call} {r : Except String c.Ans} (hc : ¬ Founds c) :
      Advance org project a (.entering a) c r (.entering a)
  | found {c : Call} {r : Except String c.Ans} {row : DeploymentRow} (hc : Looks org a.key c)
      (hr : HEq r (Except.ok (some row) : Except String (Option DeploymentRow))) :
      Advance org project a (.entering a) c r (.holds a row.id false false)
  | made {input : DeploymentCreateInput} {row : DeploymentRow}
      (horg : input.organizationId = org) (hkey : input.idempotencyKey = a.key)
      (hproject : input.projectId = project) (hpreview : input.previewKey = a.previewKey) :
      Advance org project a (.entering a) (.store (.insertDeployment input)) (.ok row)
        (.holds a row.id a.previewKey.isSome true)
  | seen {row : DeploymentId} {key : String} {found : Option PreviewTargetRow} {job : Bool}
      (hkey : a.previewKey = some key) :
      Advance org project a (.holds a row true job) (.store (.selectPreviewTarget org project key))
        (.ok found) (.holds a row found.isNone job)
  | recorded {row : DeploymentId} {key : String} {branch : Option String} {pull : Option Nat}
      {job : Bool} (hkey : a.previewKey = some key) :
      Advance org project a (.holds a row true job)
        (.store (.insertPreviewTarget org project key branch pull)) (.ok ()) (.holds a row false job)
  | enqueued {row : DeploymentId} {n : NewJob DeploymentJobPayload}
      {r : Except String (Call.queue (.insert n)).Ans} (hn : JobOf row org a.key n) :
      Advance org project a (.holds a row false true) (.queue (.insert n)) r
        (.holds a row false false)
  | waits {row : DeploymentId} {target job : Bool} {c : Call} {r : Except String c.Ans}
      (hc : ¬ Founds c) :
      Advance org project a (.holds a row target job) c r (.holds a row target job)

theorem onIf_eq {good : Bool} {x x' : Standing} (h : onIf good x = some x')
    (hin : x' ≠ .outside) : x' = x ∧ good = true := by
  unfold onIf at h
  cases good with
  | true => exact ⟨(Option.some.inj h).symm, rfl⟩
  | false => exact absurd (Option.some.inj h).symm hin

theorem onIf_good {good : Bool} {x x' : Standing} (h : onIf good x = some x')
    (hgood : good = true) : x' = x := by
  subst hgood
  exact (Option.some.inj h).symm

theorem advance_of_look {a : Asked} {c : Call} {r : Except String c.Ans} {x' : Standing}
    {r' : Except String (Option DeploymentRow)} (hc : Looks org a.key c) (hnot : ¬ Founds c)
    (hr : HEq r r') (h : Standing.afterLook project a r' = x') (hin : x' ≠ .outside) :
    Advance org project a (.entering a) c r x' := by
  subst h
  unfold Standing.afterLook at hin ⊢
  split
  · exact .asked hnot
  next row =>
    split
    · exact .found hc hr
    next hno =>
      simp only [hno, if_false] at hin
      exact absurd rfl hin
  · exact absurd rfl hin

/-- **Inversion** of a caller's step. -/
theorem advance_of_next {x x' : Standing} {c : Call} {r : Except String c.Ans}
    (h : x.next org project members c r = some x') (hin : x' ≠ .outside) :
    x = .aside ∧ x' = .aside ∧ ¬ Founds c ∨ ∃ a, Advance org project a x c r x' := by
  cases x with
  | aside =>
    change (if Founds c then none else some Standing.aside) = some x' at h
    split at h
    · cases h
    next hc => exact .inl ⟨rfl, (Option.some.inj h).symm, hc⟩
  | outside => exact absurd (Option.some.inj h).symm hin
  | «over» => cases h
  | entering a =>
    -- the read of the project, by a member and by the service role
    refine .inr ⟨a, ?_⟩
    change Standing.afterEntering org project members a c r = some x' at h
    unfold Standing.afterEntering at h
    split at h
    · split at h
      · obtain ⟨rfl, _⟩ := onIf_eq h hin
        exact .asked id
      · cases h
    · split at h
      · obtain ⟨rfl, _⟩ := onIf_eq h hin
        exact .asked id
      · cases h
    -- the look for the row, which may find it
    · split at h
      next hc => exact advance_of_look ⟨hc.1, hc.2.1⟩ id HEq.rfl (Option.some.inj h) hin
      · cases h
    · split at h
      next hc => exact advance_of_look hc id HEq.rfl (Option.some.inj h) hin
      · cases h
    -- the budget and the environments: it goes on unless one of them refuses
    · obtain ⟨rfl, _⟩ := onIf_eq h hin
      exact .asked id
    · obtain ⟨rfl, _⟩ := onIf_eq h hin
      exact .asked id
    · obtain ⟨rfl, _⟩ := onIf_eq h hin
      exact .asked id
    next input r =>
      split at h
      next hc =>
        obtain ⟨horg, hkey, hproject, hpreview⟩ := hc
        -- the insert: refused, and the caller is outside
        cases r with
        | ok row =>
          cases h
          exact .made horg hkey hproject hpreview
        | error e =>
          cases h
          exact absurd rfl hin
      · cases h
    · cases h
  | holds a row target job =>
    refine .inr ⟨a, ?_⟩
    change Standing.afterHolds org project a row target job c r = some x' at h
    unfold Standing.afterHolds at h
    split at h
    next o' id key r =>
      -- the look for the preview target
      split at h
      next hc =>
        obtain ⟨rfl, rfl, rfl, hkey⟩ := hc
        cases r with
        | ok found =>
          cases h
          exact .seen hkey
        | error e =>
          cases h
          exact absurd rfl hin
      · cases h
    next o' id key branch pull r =>
      -- the insert of the target, of which only a success goes on
      split at h
      next hc =>
        obtain ⟨rfl, rfl, rfl, hkey⟩ := hc
        obtain ⟨rfl, hgood⟩ := onIf_eq h hin
        cases r with
        | ok v => exact .recorded hkey
        | error e => cases hgood
      · cases h
    next n r =>
      -- and the job
      split at h
      next hc =>
        obtain ⟨rfl, rfl, hn⟩ := hc
        obtain ⟨rfl, _⟩ := onIf_eq h hin
        exact .enqueued hn
      · cases h
    · obtain ⟨rfl, _⟩ := onIf_eq h hin
      exact .waits id
    · obtain ⟨rfl, _⟩ := onIf_eq h hin
      exact .waits id
    · cases h

/-! ## States -/

/-- Where thread `tid` stands. -/
def standOf (org : OrganizationId) (project : ProjectId)
    (members : OrganizationId → UserId → Bool) (s : RaceSys) (tid : Nat) : Option Standing :=
  s.stage (raceProtocol org project members) (Standing.first org project members) tid

/-- The event is an answer. -/
def Replied (e : Event (Call ⊕ Reply) RaceAns String) : Prop := ∃ reply, e.call = .inr reply

/-- A caller that is answered is told the row of its key. -/
def Right (org : OrganizationId) (w : World) (e : Event (Call ⊕ Reply) RaceAns String) : Prop :=
  ∀ t r a, e.call = .inr (t, r) → t.asks = some a →
    ∃ row, w.ident row = some (org, a.key) ∧ Names row r

/-- What is true of the tables. -/
structure Ordered (org : OrganizationId) (project : ProjectId)
    (members : OrganizationId → UserId → Bool) (w : World) : Prop where
  members : w.store.members = members
  home : w.home project = some org
  local_ : ∀ d m, w.imprint d = some m → m.organizationId = org ∧ m.projectId = project
  homed : Homed w
  distinct : Distinct w
  oneJob : OneJob w
  oneTarget : w.targets.Nodup

/-- What is true of every state, as long as nobody races. -/
structure RaceInv (org : OrganizationId) (project : ProjectId)
    (members : OrganizationId → UserId → Bool) (s : RaceSys) : Prop where
  sane : s.Sane
  typed : s.Typed (raceDuty org project members)
  tables : Ordered org project members s.world
  inside : ∀ i, standOf org project members s i ≠ some .outside
  /-- A caller's row has its key; while its job is owed there is none. -/
  held : ∀ i a row target job, standOf org project members s i = some (.holds a row target job) →
    ∃ m, s.world.imprint row = some m ∧ m.idempotencyKey = a.key ∧
      (target = true → m.previewKey = a.previewKey) ∧ (job = true → ¬ HasJob row s.world)
  lone : ∀ i j a a' row target target',
    standOf org project members s i = some (.holds a row target true) →
    standOf org project members s j = some (.holds a' row target' true) → i = j
  job : ∀ d m, s.world.imprint d = some m → HasJob d s.world ∨
    ∃ i a target, standOf org project members s i = some (.holds a d target true)
  target : ∀ d m key, s.world.imprint d = some m → m.previewKey = some key →
    (project, key) ∈ s.world.targets ∨
      ∃ i a job, standOf org project members s i = some (.holds a d true job)
  right : ∀ e ∈ s.log, Right org s.world e.2
  answered : ∀ i < s.born, s.live i = none → ∃ e ∈ s.log, e.1 = i ∧ Replied e.2

/-! ## The condition -/

/-- The insert is of a row, or a target, that is not there. -/
def Free (w : World) : Call ⊕ Reply → Prop
  | .inl (.store (.insertDeployment input)) => ∀ r ∈ w.store.deployments.rows,
      ¬ (r.organizationId = input.organizationId ∧ r.idempotencyKey = input.idempotencyKey)
  | .inl (.store (.insertPreviewTarget _ project key _ _)) => (project, key) ∉ w.targets
  | _ => True

instance (w : World) (c : Call ⊕ Reply) : Decidable (Free w c) := by
  unfold Free
  split <;> infer_instance

/-- Callers are let in, they are within their budget, and none dies. -/
def LetIn (org : OrganizationId) (project : ProjectId)
    (members : OrganizationId → UserId → Bool) : Move Task Oracle Drift → Prop
  | .spawn t => t.Admitted org project members
  | .exec _ o => o.away.refusal = none
  | .crash _ => False
  | .drift _ => True

instance (l : Move Task Oracle Drift) : Decidable (LetIn org project members l) := by
  unfold LetIn
  split <;> infer_instance

/-- And none inserts what is there already. -/
def Unraced (org : OrganizationId) (project : ProjectId)
    (members : OrganizationId → UserId → Bool) (s : RaceSys) (l : Move Task Oracle Drift) : Prop :=
  LetIn org project members l ∧
    match l with
    | .exec tid _ => ∀ c ∈ s.pending tid, Free s.world c
    | _ => True

instance (s : RaceSys) (l : Move Task Oracle Drift) :
    Decidable (Unraced org project members s l) := by
  unfold Unraced
  cases l <;> infer_instance

/-! ## Nobody is refused -/

section Step

variable {s : RaceSys} {o : Oracle} {x x' : Standing} {c : Call}

theorem thisProject_found {w : World} {p : Option ProjectRow} (hp : w.store.projects.find project = p)
    (h : w.home project = some org) :
    ∃ row, p = some row ∧ row.organizationId = org ∧ thisProject org project (.ok p) = true := by
  subst hp
  obtain ⟨row, hrow, rfl⟩ := Option.map_eq_some_iff.mp h
  refine ⟨row, hrow, rfl, ?_⟩
  rw [hrow]
  have hid : row.id = project := (Table.mem_of_find hrow).2
  simp [thisProject, hid]

/-- The row found under a key is the project's. -/
theorem local_of_found {w : World} (h : Ordered org project members w) {p : DeploymentRow → Bool}
    {row : DeploymentRow} (hrow : w.store.deployments.rows.find? p = some row) :
    row.projectId = project ∧ w.imprint row.id = some row.imprint := by
  have hfind : w.store.deployments.find row.id = some row :=
    Table.find_eq_some.mpr ⟨List.mem_of_find?_eq_some hrow, rfl⟩
  have himprint : w.imprint row.id = some row.imprint := by
    rw [World.imprint, World.row, hfind]
    rfl
  exact ⟨(h.local_ row.id _ himprint).2, himprint⟩

theorem afterLook_inside {a : Asked} {found : Option DeploymentRow}
    (hfound : ∀ row, found = some row → row.projectId = project) :
    Standing.afterLook project a (.ok found) ≠ .outside := by
  cases found with
  | none => nofun
  | some row =>
    show (if row.projectId = project then Standing.holds a row.id false false else .outside) ≠ _
    rw [if_pos (hfound row rfl)]
    nofun

/-- The insert of a row's job answers with the job. -/
theorem insertJob_new {w : World} (h : Ordered org project members w) {row : DeploymentId}
    {m : Imprint} {n : NewJob DeploymentJobPayload} {a : Asked} (hm : w.imprint row = some m)
    (hkey : m.idempotencyKey = a.key) (hn : JobOf row org a.key n) (hnone : ¬ HasJob row w) :
    ∃ job, (w.perform engines { o with fault := .none } (.queue (.insert n))).1 = .ok [job] := by
  have hfree : w.jobs.rows.any (sameKey n.organizationId n.kind n.idempotencyKey) = false := by
    rw [List.any_eq_false]
    intro j hj hsame
    simp only [sameKey, Bool.and_eq_true, beq_iff_eq] at hsame
    refine hnone ⟨j, hj, h.distinct _ _ (org, a.key) ?_ ?_⟩
    · rw [h.homed j hj, hsame.1.1, hsame.2, hn.org, hn.key]
    · rw [ident_of_imprint hm, (h.local_ row m hm).1, hkey]
  refine ⟨n.row w.now w.jobs.nextId, ?_⟩
  show (insertJob w.now n w.jobs).1 = _
  simp only [insertJob, hn.attempts, not_true_eq_false, if_false, hfree]
  rfl

/-- A request on its way in stays in, where no step of it fails: it finds its project, the cap
does not refuse it, and its insert is accepted. -/
theorem onward_entering {a : Asked} {r : Except String c.Ans}
    (hw : Ordered org project members s.world) (hcap : o.away.refusal = none)
    (hfree : Free s.world (.inl c))
    (hr : (s.world.perform engines { o with fault := .none } c).1 = r)
    (hnext : Standing.afterEntering org project members a c r = some x') : x' ≠ .outside := by
  unfold Standing.afterEntering at hnext
  split at hnext
  next user id r =>
    split at hnext
    -- a member is shown the project, and it is the right one
    next hc =>
      obtain ⟨rfl, hmember⟩ := hc
      obtain ⟨p, hp, horg, hthis⟩ := thisProject_found rfl hw.home
      have hseen : s.world.store.seenBy user (·.organizationId)
          (s.world.store.projects.find id) = s.world.store.projects.find id := by
        rw [hp, Store.seenBy, Option.filter_some, hw.members, horg, if_pos hmember]
      have hr' : r = .ok (s.world.store.projects.find id) := by
        rw [← hr, ← hseen]
        rfl
      obtain rfl := onIf_good hnext (by rw [hr']; exact hthis)
      intro hout
      cases hout
    · cases hnext
  next o' id r =>
    split at hnext
    -- the service role is shown it whoever asks
    next hc =>
      obtain ⟨rfl, rfl⟩ := hc
      obtain ⟨p, hp, horg, hthis⟩ := thisProject_found rfl hw.home
      have hr' : r = .ok (s.world.store.projects.find id) := by
        rw [← hr]
        show Except.ok (s.world.store.project o' id) = _
        rw [Store.project, hp, Option.filter_some, horg, beq_self_eq_true, if_pos rfl]
        rfl
      obtain rfl := onIf_good hnext (by rw [hr']; exact hthis)
      intro hout
      cases hout
    · cases hnext
  next user o' key r =>
    split at hnext
    -- what is found under the key is a row of this project, or nothing
    next hc =>
      cases hnext
      subst hr
      refine afterLook_inside fun row hrow => ?_
      exact (local_of_found hw (Option.filter_eq_some_iff.mp hrow).1).1
    · cases hnext
  next o' key r =>
    split at hnext
    next hc =>
      cases hnext
      subst hr
      exact afterLook_inside fun row hrow => (local_of_found hw hrow).1
    · cases hnext
  -- the cap does not refuse
  next o' metric r =>
    have hr' : r = .ok o.away.refusal := hr.symm
    rw [hr', hcap] at hnext
    cases hnext
    intro hout
    cases hout
  next =>
    subst hr
    cases hnext
    intro hout
    cases hout
  next =>
    subst hr
    cases hnext
    intro hout
    cases hout
  next input r =>
    split at hnext
    next hc =>
      obtain ⟨rfl, hkey, rfl, hpreview⟩ := hc
      obtain ⟨p, hp, _⟩ := Option.map_eq_some_iff.mp hw.home
      -- no row has the key, and the project is there: that is all the table asks
      have haccepts : s.world.store.accepts input = true := by
        simp only [Store.accepts, hp, Option.isSome_some, Bool.true_and, Bool.not_eq_true',
          List.any_eq_false, Bool.and_eq_true, beq_iff_eq]
        exact hfree
      have hr' : r = .ok (input.row s.world.now s.world.store.deployments.nextId) := by
        rw [← hr]
        show (StoreCall.run _ _ _ (.insertDeployment input)).1 = _
        simp only [StoreCall.run, haccepts, if_true]
        rfl
      rw [hr'] at hnext
      cases hnext
      intro hout
      cases hout
    · cases hnext
  · cases hnext

/-- One that holds its row stays in: its key is free, and so is its preview target. -/
theorem onward_holds {tid : Nat} {a : Asked} {row : DeploymentId} {target job : Bool}
    {r : Except String c.Ans} (h : RaceInv org project members s)
    (hwas : standOf org project members s tid = some (.holds a row target job))
    (hfree : Free s.world (.inl c))
    (hr : (s.world.perform engines { o with fault := .none } c).1 = r)
    (hnext : Standing.afterHolds org project a row target job c r = some x') : x' ≠ .outside := by
  have hw := h.tables
  unfold Standing.afterHolds at hnext
  split at hnext
  -- the look is answered, since nothing is lost here: the row is held
  next o' id key r =>
    split at hnext
    · subst hr
      cases hnext
      intro hout
      cases hout
    · cases hnext
  next o' id key branch pull r =>
    split at hnext
    next hc =>
      -- nobody has made the target, so it can be inserted
      have hr' : r = .ok () := by
        rw [← hr]
        show (StoreCall.run _ _ _ (.insertPreviewTarget o' id key branch pull)).1 = _
        simp only [StoreCall.run, mt any_target.mp hfree]
        rfl
      rw [hr'] at hnext
      cases hnext
      intro hout
      cases hout
    · cases hnext
  next n r =>
    split at hnext
    next hc =>
      obtain ⟨rfl, rfl, hn⟩ := hc
      -- the row has no job yet, as the invariant says, so its key is free in the queue
      obtain ⟨m, hm, hkey, _, hnone⟩ := h.held tid a row false true hwas
      obtain ⟨made, hmade⟩ := (@insertJob_new engines _ _ _ o) hw hm hkey hn
        (hnone rfl)
      rw [← hr, hmade] at hnext
      cases hnext
      intro hout
      cases hout
    · cases hnext
  · subst hr
    cases hnext
    intro hout
    cases hout
  · subst hr
    cases hnext
    intro hout
    cases hout
  · cases hnext

/-- **Nobody is refused.** -/
theorem onward {tid : Nat} (h : RaceInv org project members s)
    (hwas : standOf org project members s tid = some x) (hcap : o.away.refusal = none)
    (hfree : Free s.world (.inl c))
    (hnext : x.next org project members c
      (s.world.perform engines { o with fault := .none } c).1 = some x') : x' ≠ .outside := by
  generalize hr : (s.world.perform engines { o with fault := .none } c).1 = r at hnext
  cases x with
  | aside =>
    change (if Founds c then none else some Standing.aside) = some x' at hnext
    split at hnext
    · cases hnext
    · cases hnext
      intro hout
      cases hout
  | outside => exact absurd hwas (h.inside tid)
  | «over» => cases hnext
  | entering a => exact onward_entering h.tables hcap hfree hr hnext
  | holds a row target job => exact onward_holds h hwas hfree hr hnext

/-! ## One step -/

/-- The tables stay in order. -/
theorem ordered_perform {w : World} (h : Ordered org project members w)
    (hrow : ∀ input, c = .store (.insertDeployment input) →
      input.organizationId = org ∧ input.projectId = project)
    (hjob : ∀ n, c = .queue (.insert n) → ¬ HasJob n.payload.deploymentId w ∧
      w.ident n.payload.deploymentId = some (n.organizationId, n.idempotencyKey)) :
    Ordered org project members (w.perform engines o c).2 where
  members := members_perform.trans h.members
  home := home_perform.trans h.home
  local_ d m hm := by
    by_cases hc : ∃ input, c = .store (.insertDeployment input)
    · obtain ⟨input, rfl⟩ := hc
      rw [imprint_insert] at hm
      split at hm
      · cases hm
        exact hrow input rfl
      · exact h.local_ d m hm
    · rw [imprint_perform fun input hcall => hc ⟨input, hcall⟩] at hm
      exact h.local_ d m hm
  homed := homed_perform h.homed fun n hn => (hjob n hn).2
  distinct := distinct_perform h.distinct
  oneJob := oneJob_perform h.oneJob fun n hn => (hjob n hn).1
  oneTarget := nodup_targets h.oneTarget

/-- An answer stays right. -/
theorem right_perform {w : World} {e : Event (Call ⊕ Reply) RaceAns String} (h : Right org w e) :
    Right org (w.perform engines o c).2 e := by
  intro t r a hcall hasks
  obtain ⟨row, hident, hnames⟩ := h t r a hcall hasks
  exact ⟨row, ident_stays hident, hnames⟩

/-- A row after a call was there before, or was made by it. -/
theorem was_or_made {w : World} {d : DeploymentId} {m : Imprint}
    (h : (w.perform engines o c).2.imprint d = some m) :
    w.imprint d = some m ∨
      d = w.store.deployments.nextId ∧ ∃ input, c = .store (.insertDeployment input) := by
  by_cases hc : ∃ input, c = .store (.insertDeployment input)
  · obtain ⟨input, rfl⟩ := hc
    rw [imprint_insert] at h
    split at h
    next hnew => exact .inr ⟨hnew.2.2, input, rfl⟩
    next => exact .inl h
  · rw [imprint_perform fun input hcall => hc ⟨input, hcall⟩] at h
    exact .inl h

/-- The row a look found. -/
theorem found_row {w : World} (h : Ordered org project members w) {key : String}
    {row : DeploymentRow} (hc : Looks org key c)
    (hr : HEq (w.perform engines { o with fault := .none } c).1
      (Except.ok (some row) : Except String (Option DeploymentRow))) :
    w.imprint row.id = some row.imprint ∧ row.imprint.idempotencyKey = key := by
  unfold Looks at hc
  split at hc
  next user o' k =>
    obtain ⟨rfl, rfl⟩ := hc
    have hfound := (Option.filter_eq_some_iff.mp (Except.ok.inj (eq_of_heq hr))).1
    have hkeyed := List.find?_some hfound
    rw [Bool.and_eq_true, beq_iff_eq, beq_iff_eq] at hkeyed
    exact ⟨(local_of_found h hfound).2, hkeyed.2⟩
  next o' k =>
    obtain ⟨rfl, rfl⟩ := hc
    have hfound := Except.ok.inj (eq_of_heq hr)
    have hkeyed := List.find?_some hfound
    rw [Bool.and_eq_true, beq_iff_eq, beq_iff_eq] at hkeyed
    exact ⟨(local_of_found h hfound).2, hkeyed.2⟩
  next => exact hc.elim

/-- The preview target a look found. -/
theorem seen_target {w : World} {key : String} {t : PreviewTargetRow}
    (hr : (w.perform engines { o with fault := .none }
      (.store (.selectPreviewTarget org project key))).1 = .ok (some t)) :
    (project, key) ∈ w.targets := by
  have hfound : w.store.previewTargets.rows.find? (previewKeyed org project key) = some t :=
    Except.ok.inj hr
  have hkeyed := List.find?_some hfound
  simp only [previewKeyed, Bool.and_eq_true, beq_iff_eq] at hkeyed
  exact List.mem_map.mpr ⟨t, List.mem_of_find?_eq_some hfound, Prod.ext hkeyed.1.2 hkeyed.2⟩

theorem not_over_of_advance {a : Asked} {r : Except String c.Ans}
    (h : Advance org project a x c r x') : x' ≠ .over := by
  cases h <;> nofun

theorem not_outside_of_advance {a : Asked} {r : Except String c.Ans}
    (h : Advance org project a x c r x') : x' ≠ .outside := by
  cases h <;> nofun

/-- The job that a caller enqueues. -/
theorem job_of_advance {a : Asked} {r : Except String c.Ans}
    (h : Advance org project a x c r x') {n : NewJob DeploymentJobPayload}
    (hc : c = .queue (.insert n)) :
    ∃ row, x = .holds a row false true ∧ x' = .holds a row false false ∧ JobOf row org a.key n := by
  cases h with
  | enqueued hn =>
    cases hc
    exact ⟨_, rfl, rfl, hn⟩
  | asked hnot =>
    subst hc
    exact absurd trivial hnot
  | waits hnot =>
    subst hc
    exact absurd trivial hnot
  | found hlook =>
    subst hc
    exact hlook.elim
  | made => cases hc
  | seen => cases hc
  | recorded => cases hc

variable {s' : RaceSys} {tid : Nat}

/-- A call of the plane, of somebody who is not refused. -/
structure Onward (engines : Engines) (org : OrganizationId) (project : ProjectId)
    (members : OrganizationId → UserId → Bool) (s s' : RaceSys) (tid : Nat) (o : Oracle) (c : Call)
    (x x' : Standing) : Prop where
  was : standOf org project members s tid = some x
  now : standOf org project members s' tid = some x'
  others : ∀ i, i ≠ tid → s'.live i = s.live i
  step : x = .aside ∧ x' = .aside ∧ ¬ Founds c ∨
    ∃ a, Advance org project a x c (s.world.perform engines { o with fault := .none } c).1 x'
  world : s'.world = (s.world.perform engines { o with fault := .none } c).2
  log : ∃ r, s'.log = (tid, ⟨.inl c, r⟩) :: s.log
  born : s'.born = s.born

theorem onward_of_called (h : RaceInv org project members s)
    (hc : Called (raceHost engines) (raceDuty org project members) s s' tid o (.inl c) x x')
    (hcap : o.away.refusal = none) (hfree : Free s.world (.inl c)) :
    Onward engines org project members s s' tid o c x x' := by
  have hnext : x.next org project members c
      (s.world.perform engines { o with fault := .none } c).1 = some x' := hc.moves
  have hin : x' ≠ .outside := onward h hc.was hcap hfree hnext
  have hstep := advance_of_next hnext hin
  refine ⟨hc.was, ?_, hc.others, hstep, hc.world, ⟨_, hc.log⟩, hc.born⟩
  rcases hc.now with hnow | ⟨_, _, _, hover | hout⟩
  · exact hnow
  · subst hover
    rcases hstep with ⟨_, hx', _⟩ | ⟨a, hadv⟩
    · cases hx'
    · exact absurd rfl (not_over_of_advance hadv)
  · exact absurd hout hin

section Onward

variable (h : RaceInv org project members s)
  (hon : Onward engines org project members s s' tid o c x x')

include hon

theorem Onward.stand {i : Nat} (hi : i ≠ tid) :
    standOf org project members s' i = standOf org project members s i := by
  unfold standOf Sys.stage
  rw [hon.others i hi]

/-- The insert of the row makes it, and its caller holds it from then on. -/
theorem Onward.insert_row {input : DeploymentCreateInput}
    (hc : c = .store (.insertDeployment input)) :
    ∃ a row, (s.world.perform engines { o with fault := .none } c).1 ≍
        (Except.ok row : Except String DeploymentRow) ∧
      input.organizationId = org ∧ input.idempotencyKey = a.key ∧ input.projectId = project ∧
      input.previewKey = a.previewKey ∧ x = .entering a ∧
      x' = .holds a row.id a.previewKey.isSome true := by
  rcases hon.step with ⟨_, _, hnot⟩ | ⟨a, hadv⟩
  · subst hc
    exact absurd trivial hnot
  · generalize hr : (s.world.perform engines { o with fault := .none } c).1 = r at hadv
    cases hadv with
    | made horg hkey hproject hpreview =>
      cases hc
      exact ⟨a, _, HEq.rfl, horg, hkey, hproject, hpreview, rfl, rfl⟩
    | asked hnot =>
      subst hc
      exact absurd trivial hnot
    | waits hnot =>
      subst hc
      exact absurd trivial hnot
    | found hlook =>
      subst hc
      exact hlook.elim
    | seen => cases hc
    | recorded => cases hc
    | enqueued => cases hc

/-- The row that a call made: its maker holds it. -/
theorem Onward.made {input : DeploymentCreateInput} (hc : c = .store (.insertDeployment input)) :
    ∃ a, x = .entering a ∧
      x' = .holds a s.world.store.deployments.nextId a.previewKey.isSome true ∧
      s'.world.imprint s.world.store.deployments.nextId = some input.imprint ∧
      input.idempotencyKey = a.key ∧ input.previewKey = a.previewKey := by
  obtain ⟨a, row, hr, horg, hkey, hproject, hpreview, rfl, rfl⟩ := hon.insert_row hc
  subst hc
  obtain ⟨_, haccepts, hid⟩ := insert_answer (eq_of_heq hr)
  refine ⟨a, rfl, by rw [hid], ?_, hkey, hpreview⟩
  rw [hon.world, imprint_insert, if_pos ⟨trivial, haccepts, rfl⟩]

/-- The row whose job a call enqueued. -/
theorem Onward.job {n : NewJob DeploymentJobPayload} (hc : c = .queue (.insert n)) :
    ∃ a row, x = .holds a row false true ∧ x' = .holds a row false false ∧ JobOf row org a.key n := by
  rcases hon.step with ⟨_, _, hnot⟩ | ⟨a, hadv⟩
  · subst hc
    exact absurd trivial hnot
  · obtain ⟨row, hx, hx', hn⟩ := job_of_advance hadv hc
    exact ⟨a, row, hx, hx', hn⟩

omit hon in
include h in
/-- A new row is nobody's yet. -/
theorem nobody_holds {i : Nat} {a : Asked} {row : DeploymentId} {target job : Bool}
    (hi : standOf org project members s i = some (.holds a row target job)) :
    row ≠ s.world.store.deployments.nextId := by
  obtain ⟨m, hm, _⟩ := h.held i a row target job hi
  exact row_isSome_of_ident (ident_of_imprint hm)

include h in
theorem Onward.ordered : Ordered org project members s'.world := by
  rw [hon.world]
  refine ordered_perform h.tables (fun input hc => ?_) fun n hc => ?_
  · obtain ⟨a, row, _, horg, _, hproject, _⟩ := hon.insert_row hc
    exact ⟨horg, hproject⟩
  · obtain ⟨a, row, rfl, _, hn⟩ := hon.job hc
    obtain ⟨m, hm, hkey, _, hnone⟩ := h.held tid a row false true hon.was
    rw [hn.payload, hn.org, hn.key, ← hkey, ← (h.tables.local_ row m hm).1]
    exact ⟨hnone rfl, ident_of_imprint hm⟩

/-- Who owes a row its job owed it before, or has just made the row. -/
theorem Onward.owed {i : Nat} {a : Asked} {row : DeploymentId} {target : Bool}
    (hi : standOf org project members s' i = some (.holds a row target true)) :
    (∃ target', (target = true → target' = true) ∧
      standOf org project members s i = some (.holds a row target' true)) ∨
    i = tid ∧ row = s.world.store.deployments.nextId ∧
      ∃ input, c = .store (.insertDeployment input) := by
  by_cases hit : i = tid
  · subst hit
    have hx' : x' = .holds a row target true := by
      rw [hon.now] at hi
      exact Option.some.inj hi
    -- a caller that moved: what it holds now it held before, or has just made
    rcases hon.step with ⟨_, haside, _⟩ | ⟨b, hadv⟩
    · rw [hx'] at haside
      cases haside
    · generalize hr : (s.world.perform engines { o with fault := .none } c).1 = r at hadv
      generalize hy : x = y at hadv
      cases hadv with
      | asked => cases hx'
      | found => cases hx'
      | enqueued => cases hx'
      | made =>
        obtain ⟨_, _, hheld, _⟩ := hon.made rfl
        rw [hx'] at hheld
        cases hheld
        exact .inr ⟨rfl, rfl, _, rfl⟩
      -- the target is found: it is owed no longer, and the job still is
      | seen =>
        cases hx'
        exact .inl ⟨true, fun _ => rfl, hy ▸ hon.was⟩
      | recorded =>
        cases hx'
        exact .inl ⟨true, fun _ => rfl, hy ▸ hon.was⟩
      | waits =>
        cases hx'
        exact .inl ⟨target, id, hy ▸ hon.was⟩
  -- and the others are where they were
  · rw [hon.stand hit] at hi
    exact .inl ⟨target, id, hi⟩

include h in
theorem Onward.lone {i j : Nat} {a a' : Asked} {row : DeploymentId} {target target' : Bool}
    (hi : standOf org project members s' i = some (.holds a row target true))
    (hj : standOf org project members s' j = some (.holds a' row target' true)) : i = j := by
  rcases hon.owed hi with ⟨_, _, hi⟩ | ⟨rfl, hnew, _⟩
  · rcases hon.owed hj with ⟨_, _, hj⟩ | ⟨_, hnew, _⟩
    · exact h.lone i j a a' row _ _ hi hj
    · exact absurd hnew (nobody_holds h hi)
  · rcases hon.owed hj with ⟨_, _, hj⟩ | ⟨rfl, _⟩
    · exact absurd hnew (nobody_holds h hj)
    · rfl

include h in
/-- While a row's job is owed there is none. -/
theorem Onward.none_owed {i : Nat} {a : Asked} {row : DeploymentId} {target : Bool}
    (hi : standOf org project members s' i = some (.holds a row target true)) :
    ¬ HasJob row s'.world := by
  intro hjob
  rw [hon.world] at hjob
  rcases hasJob_after hjob with hjob | ⟨n, hc, hn⟩
  · rcases hon.owed hi with ⟨target', _, hwas⟩ | ⟨_, hnew, _⟩
    · obtain ⟨_, _, _, _, hnone⟩ := h.held i a row target' true hwas
      exact hnone rfl hjob
    · obtain ⟨j, hj, hfor⟩ := hjob
      exact row_isSome_of_ident (h.tables.homed j hj) (hfor.trans hnew)
  · obtain ⟨a', row', hx, hx', hjobOf⟩ := hon.job hc
    obtain rfl : row' = row := hjobOf.payload.symm.trans hn
    rcases hon.owed hi with ⟨target', _, hwas⟩ | ⟨_, hnew, _⟩
    · have hlone := h.lone i tid a a' row' target' false hwas (hx ▸ hon.was)
      rw [hlone, hon.now, hx'] at hi
      cases hi
    · exact nobody_holds h (hx ▸ hon.was) hnew

include h in
/-- A caller's row was there, and has the caller's key. -/
theorem Onward.held {i : Nat} {a : Asked} {row : DeploymentId} {target job : Bool}
    (hi : standOf org project members s' i = some (.holds a row target job)) :
    ∃ m, s'.world.imprint row = some m ∧ m.idempotencyKey = a.key ∧
      (target = true → m.previewKey = a.previewKey) := by
  have hstays : ∀ {target' job'}, (target = true → target' = true) →
      standOf org project members s i = some (.holds a row target' job') →
      ∃ m, s'.world.imprint row = some m ∧ m.idempotencyKey = a.key ∧
        (target = true → m.previewKey = a.previewKey) := by
    intro target' job' htarget hwas
    obtain ⟨m, hm, hkey, hpreview, _⟩ := h.held i a row target' job' hwas
    exact ⟨m, hon.world ▸ imprint_stays hm, hkey, fun ht => hpreview (htarget ht)⟩
  by_cases hit : i = tid
  · subst hit
    have hx' : x' = .holds a row target job := by
      rw [hon.now] at hi
      exact Option.some.inj hi
    rcases hon.step with ⟨_, haside, _⟩ | ⟨b, hadv⟩
    · rw [hx'] at haside
      cases haside
    · generalize hr : (s.world.perform engines { o with fault := .none } c).1 = r at hadv
      generalize hy : x = y at hadv
      cases hadv with
      | asked => cases hx'
      | found hlook hrow =>
        cases hx'
        -- the row that was read is in the table, under the key that was asked for
        obtain ⟨himprint, hkey⟩ := (@found_row engines) h.tables hlook (hr ▸ hrow)
        exact ⟨_, hon.world ▸ imprint_stays himprint, hkey, nofun⟩
      | made =>
        obtain ⟨_, hy', hheld, himprint, hkey, hpreview⟩ := hon.made rfl
        rw [hx'] at hheld
        cases hheld
        exact ⟨_, himprint, hkey, fun _ => hpreview⟩
      | seen =>
        cases hx'
        exact hstays (fun _ => rfl) (hy ▸ hon.was)
      | recorded =>
        cases hx'
        exact hstays (fun _ => rfl) (hy ▸ hon.was)
      | enqueued =>
        cases hx'
        exact hstays id (hy ▸ hon.was)
      | waits =>
        cases hx'
        exact hstays id (hy ▸ hon.was)
  · rw [hon.stand hit] at hi
    exact hstays id hi

include h in
/-- Every row has its job, or is owed it. -/
theorem Onward.has_job {d : DeploymentId} {m : Imprint} (hm : s'.world.imprint d = some m) :
    HasJob d s'.world ∨
      ∃ i a target, standOf org project members s' i = some (.holds a d target true) := by
  -- a row that was there has its job, or somebody owes it
  rcases was_or_made (hon.world ▸ hm) with hwas | ⟨rfl, input, rfl⟩
  · rcases h.job d m hwas with hjob | ⟨i, a, target, hi⟩
    · exact .inl (hon.world ▸ hasJob_perform c hjob)
    -- who owes it has moved: only the enqueue lets go of the debt, and pays it
    by_cases hit : i = tid
    · subst hit
      have hx : x = .holds a d target true := by
        rw [hon.was] at hi
        exact Option.some.inj hi
      rcases hon.step with ⟨haside, _⟩ | ⟨b, hadv⟩
      · rw [hx] at haside
        cases haside
      · have hnow := hon.now
        generalize hr : (s.world.perform engines { o with fault := .none } c).1 = r at hadv
        generalize hy : x' = y at hadv hnow
        cases hadv with
        | asked => cases hx
        | found => cases hx
        | made => cases hx
        | seen =>
          cases hx
          exact .inr ⟨i, a, _, hnow⟩
        | recorded =>
          cases hx
          exact .inr ⟨i, a, _, hnow⟩
        | waits =>
          cases hx
          exact .inr ⟨i, a, _, hnow⟩
        -- the job lands, since nothing in this run is lost
        | enqueued hn =>
          cases hx
          obtain ⟨m', hm', hkey, _⟩ := h.held i a d false true hi
          have hident : s.world.ident d = some (org, a.key) := by
            rw [ident_of_imprint hm', hkey, (h.tables.local_ d m' hm').1]
          exact .inl (hon.world ▸
            hasJob_insert h.tables.homed h.tables.distinct hident hn trivial)
    · exact .inr ⟨i, a, target, (hon.stand hit).trans hi⟩
  -- a new row is owed its job by the one that made it
  · obtain ⟨a, _, hheld, _⟩ := hon.made rfl
    exact .inr ⟨tid, a, _, hheld ▸ hon.now⟩

include h in
/-- And its preview target, or is owed that. -/
theorem Onward.has_target {d : DeploymentId} {m : Imprint} {key : String}
    (hm : s'.world.imprint d = some m) (hkey : m.previewKey = some key) :
    (project, key) ∈ s'.world.targets ∨
      ∃ i a job, standOf org project members s' i = some (.holds a d true job) := by
  rcases was_or_made (hon.world ▸ hm) with hwas | ⟨rfl, input, rfl⟩
  -- as for the job
  · rcases h.target d m key hwas hkey with htarget | ⟨i, a, job, hi⟩
    · exact .inl (hon.world ▸ targets_mono htarget)
    by_cases hit : i = tid
    · subst hit
      have hx : x = .holds a d true job := by
        rw [hon.was] at hi
        exact Option.some.inj hi
      obtain ⟨m', hm', _, hpreview, _⟩ := h.held i a d true job hi
      obtain rfl : m' = m := Option.some.inj (hm'.symm.trans hwas)
      rcases hon.step with ⟨haside, _⟩ | ⟨b, hadv⟩
      · rw [hx] at haside
        cases haside
      · have hnow := hon.now
        have hworld := hon.world
        generalize hr : (s.world.perform engines { o with fault := .none } c).1 = r at hadv
        generalize hy : x' = y at hadv hnow
        cases hadv with
        | asked => cases hx
        | found => cases hx
        | made => cases hx
        | enqueued => cases hx
        | waits =>
          cases hx
          exact .inr ⟨i, a, _, hnow⟩
        | @seen _ key' found _ hasked =>
          cases hx
          cases found with
          | none => exact .inr ⟨i, a, _, hnow⟩
          -- a target that was found is there
          | some t =>
            obtain rfl : key' = key :=
              Option.some.inj ((hasked.symm.trans (hpreview rfl).symm).trans hkey)
            refine .inl (hworld ▸ targets_mono ?_)
            exact seen_target hr
        | @recorded _ key' branch pull _ hasked =>
          -- one that is inserted is there as well
          cases hx
          obtain rfl : key' = key :=
            Option.some.inj ((hasked.symm.trans (hpreview rfl).symm).trans hkey)
          left
          rw [hworld, targets_insert]
          split
          · exact List.mem_append_right _ (List.mem_singleton_self _)
          next hnot =>
            by_contra hno
            exact hnot ⟨trivial, hno⟩
    · exact .inr ⟨i, a, job, (hon.stand hit).trans hi⟩
  · obtain ⟨a, _, hheld, himprint, _, hpreview⟩ := hon.made rfl
    obtain rfl : input.imprint = m := Option.some.inj (himprint.symm.trans hm)
    -- a new row that has a preview key comes with a debt for the target
    have hsome : a.previewKey.isSome = true := by
      rw [← hpreview]
      exact Option.isSome_iff_exists.mpr ⟨key, hkey⟩
    rw [hsome] at hheld
    exact .inr ⟨tid, a, true, hheld ▸ hon.now⟩

end Onward

end Step

/-! ## Every step -/

section Moves

variable {s s' : RaceSys}

theorem race_answers (w : World) : (raceHost engines).Answers (raceDuty org project members) w :=
  fun _ _ => trivial

/-- A call keeps it. -/
theorem raceInv_call {tid : Nat} {o : Oracle} {c : Call} {x x' : Standing}
    (h : RaceInv org project members s) (hsane : s'.Sane)
    (htyped : s'.Typed (raceDuty org project members))
    (hon : Onward engines org project members s s' tid o c x x') :
    RaceInv org project members s' where
  sane := hsane
  typed := htyped
  tables := hon.ordered h
  -- a thread that has moved is not outside, by its own step; the others were not
  inside i hi := by
    by_cases hit : i = tid
    · subst hit
      rw [hon.now] at hi
      have hx' : x' = .outside := Option.some.inj hi
      rcases hon.step with ⟨_, haside, _⟩ | ⟨a, hadv⟩
      · rw [hx'] at haside
        cases haside
      · exact absurd hx' (not_outside_of_advance hadv)
    · rw [hon.stand hit] at hi
      exact h.inside i hi
  -- what is held keeps its imprint, and has no job while one is owed
  held i a row target job hi := by
    obtain ⟨m, hm, hkey, hpreview⟩ := hon.held h hi
    refine ⟨m, hm, hkey, hpreview, fun hjob => ?_⟩
    subst hjob
    exact hon.none_owed h hi
  lone _ _ _ _ _ _ _ hi hj := hon.lone h hi hj
  job _ _ hm := hon.has_job h hm
  target _ _ _ hm hkey := hon.has_target h hm hkey
  -- what is new in the log is a call, and not an answer to a caller
  right e he := by
    obtain ⟨r, hlog⟩ := hon.log
    rw [hlog] at he
    rcases List.mem_cons.mp he with rfl | he
    · exact fun _ _ _ hcall => by cases hcall
    · rw [hon.world]
      exact right_perform (h.right e he)
  answered i hi hgone := by
    obtain ⟨r, hlog⟩ := hon.log
    -- a thread that is gone was gone before: this one is at work still
    have hne : i ≠ tid := by
      rintro rfl
      have hnow : s'.stage _ _ i = some x' := hon.now
      rw [stage_of_live_none hgone] at hnow
      cases hnow
    obtain ⟨e, he, hei⟩ := h.answered i (hon.born ▸ hi) (hon.others i hne ▸ hgone)
    exact ⟨e, hlog ▸ List.mem_cons_of_mem _ he, hei⟩

/-- So does what changes neither the tables nor what anybody owes. -/
theorem raceInv_quiet (h : RaceInv org project members s) (hsane : s'.Sane)
    (htyped : s'.Typed (raceDuty org project members)) (htables : Ordered org project members s'.world)
    (himprint : ∀ d, s'.world.imprint d = s.world.imprint d)
    (hjobs : s'.world.jobs = s.world.jobs) (htargets : s'.world.targets = s.world.targets)
    (hinside : ∀ i, standOf org project members s' i ≠ some .outside)
    (hheld : ∀ i a row target job,
      standOf org project members s' i = some (.holds a row target job) →
      standOf org project members s i = some (.holds a row target job))
    (hstays : ∀ i a row target job, target = true ∨ job = true →
      standOf org project members s i = some (.holds a row target job) →
      standOf org project members s' i = some (.holds a row target job))
    (hright : ∀ e ∈ s'.log, Right org s'.world e.2)
    (hanswered : ∀ i < s'.born, s'.live i = none → ∃ e ∈ s'.log, e.1 = i ∧ Replied e.2) :
    RaceInv org project members s' := by
  have hjob : ∀ d, HasJob d s'.world ↔ HasJob d s.world := hasJob_congr hjobs
  refine ⟨hsane, htyped, htables, hinside, ?_, ?_, ?_, ?_, hright, hanswered⟩
  · intro i a row target job hi
    obtain ⟨m, hm, hrest⟩ := h.held i a row target job (hheld i a row target job hi)
    rw [himprint, hjob]
    exact ⟨m, hm, hrest⟩
  · intro i j a a' row target target' hi hj
    exact h.lone i j a a' row target target' (hheld _ _ _ _ _ hi) (hheld _ _ _ _ _ hj)
  · intro d m hm
    rw [himprint] at hm
    rw [hjob]
    -- rows and debts are what they were
    rcases h.job d m hm with hj | ⟨i, a, target, hi⟩
    · exact .inl hj
    · exact .inr ⟨i, a, target, hstays i a d target true (.inr rfl) hi⟩
  · intro d m key hm hkey
    rw [himprint] at hm
    rw [htargets]
    rcases h.target d m key hm hkey with ht | ⟨i, a, job, hi⟩
    · exact .inl ht
    · exact .inr ⟨i, a, job, hstays i a d true job (.inl rfl) hi⟩

/-- An answer. -/
theorem raceInv_reply {tid : Nat} {o : Oracle} {reply : Reply} {x x' : Standing}
    (h : RaceInv org project members s) (hsane : s'.Sane)
    (htyped : s'.Typed (raceDuty org project members))
    (hc : Called (raceHost engines) (raceDuty org project members) s s' tid o (.inr reply) x x') :
    RaceInv org project members s' := by
  have hworld : s'.world = s.world := hc.world
  have hwas : standOf org project members s tid = some x := hc.was
  have hnext : x.afterReply reply = some x' := hc.moves
  have hin : x ≠ .outside := fun hx => h.inside tid (hx ▸ hwas)
  -- it owed nothing, and what it says is so
  have hends : x' = .over ∧ (∀ a row target job, target = true ∨ job = true →
      x ≠ .holds a row target job) ∧ Right org s.world ⟨.inr reply, .ok ()⟩ := by
    unfold Standing.afterReply at hnext
    split at hnext
    · split at hnext
      next hnone =>
        refine ⟨(Option.some.inj hnext).symm, nofun, fun t r a hcall hasks => ?_⟩
        cases hcall
        rw [hnone] at hasks
        cases hasks
      · cases hnext
    next a row =>
      split at hnext
      next hnames =>
        obtain ⟨m, hm, hkey, _⟩ := h.held tid a row false false hwas
        refine ⟨(Option.some.inj hnext).symm, ?_, fun t r b hcall hasks => ?_⟩
        · rintro a' row' target job (rfl | rfl) hx
          · cases hx
          · cases hx
        · cases hcall
          obtain rfl : a = b := Option.some.inj (hnames.1.symm.trans hasks)
          refine ⟨row, ?_, hnames.2⟩
          rw [ident_of_imprint hm, hkey, (h.tables.local_ row m hm).1]
      · cases hnext
    · exact absurd rfl hin
    · cases hnext
  obtain ⟨rfl, hfree, hright⟩ := hends
  have hother : ∀ i, i ≠ tid →
      standOf org project members s' i = standOf org project members s i :=
    fun i hi => hc.others_stage hi
  have hself : ∀ y, standOf org project members s' tid = some y → y = .over := by
    intro y hy
    rcases hc.stage_after hy with ⟨_, rfl⟩ | ⟨hne, _⟩
    · rfl
    · exact absurd rfl hne
  refine raceInv_quiet h hsane htyped (hworld ▸ h.tables) (fun d => by rw [hworld])
    (by rw [hworld]) (by rw [hworld]) ?_ ?_ ?_ ?_ ?_
  · intro i hi
    by_cases hit : i = tid
    · subst hit
      cases hself _ hi
    · exact h.inside i (hother i hit ▸ hi)
  · intro i a row target job hi
    by_cases hit : i = tid
    · subst hit
      cases hself _ hi
    · exact hother i hit ▸ hi
  · intro i a row target job howes hi
    by_cases hit : i = tid
    · subst hit
      exact absurd (Option.some.inj (hwas.symm.trans hi)) (hfree a row target job howes)
    · exact (hother i hit).trans hi
  · intro e he
    rw [hc.log] at he
    rw [hworld]
    rcases List.mem_cons.mp he with rfl | he
    · exact hright
    · exact h.right e he
  · intro i hi hgone
    rw [hc.log]
    by_cases hit : i = tid
    · exact ⟨_, List.mem_cons_self, hit.symm, reply, rfl⟩
    · obtain ⟨e, he, hei⟩ := h.answered i (hc.born ▸ hi) (hc.others i hit ▸ hgone)
      exact ⟨e, List.mem_cons_of_mem _ he, hei⟩

/-- A task is at its first stage once it has started: it has asked nothing yet. -/
theorem started (t : Task) (h : t.Admitted org project members) :
    Thread.park ⟨t, [], (raceHost engines).body t⟩ ≠ none ∧
      Standing.first org project members t ≠ .outside ∧
      ∀ a row target job, Standing.first org project members t ≠ .holds a row target job := by
  have hfirst : Standing.first org project members t = .aside ∨
      ∃ a, Standing.first org project members t = .entering a := by
    unfold Standing.first
    cases t.asks with
    | none => exact .inl rfl
    | some a => exact .inr ⟨a, if_pos h⟩
  refine ⟨fun hpark => ?_, ?_, ?_⟩
  · have hfollows := @race_follows engines org project members t
    have hends : ∀ r, (raceDuty org project members).ends t r
        (Standing.first org project members t) → False := by
      rintro r (hover | hout)
      · rcases hfirst with hfirst | ⟨a, hfirst⟩ <;> rw [hover] at hfirst <;> cases hfirst
      · rcases hfirst with hfirst | ⟨a, hfirst⟩ <;> rw [hout] at hfirst <;> cases hfirst
    rcases park_eq_none hpark with hrest | ⟨e, hrest⟩
    · have hrest' : t.answered engines = .ret () := hrest
      rw [hrest'] at hfollows
      exact hends _ hfollows
    · have hrest' : t.answered engines = .raise e := hrest
      rw [hrest'] at hfollows
      exact hends _ hfollows
  · rcases hfirst with hfirst | ⟨a, hfirst⟩ <;> rw [hfirst] <;> nofun
  · rcases hfirst with hfirst | ⟨a, hfirst⟩ <;> rw [hfirst] <;> nofun

/-- A new caller holds nothing yet. -/
theorem raceInv_spawn {t : Task} (h : RaceInv org project members s)
    (hadmitted : t.Admitted org project members) :
    RaceInv org project members ((raceHost engines).step s (.spawn t)) := by
  obtain ⟨hpark, hin, hholds⟩ := (@started engines) t hadmitted
  obtain ⟨hothers, hfirst⟩ := spawn_stage (H := raceHost engines) (raceDuty org project members) s t
  have hnew : standOf org project members s s.born = none :=
    stage_of_live_none (h.sane.fresh _ (Nat.le_refl _)).1
  have hother : ∀ i, i ≠ s.born → standOf org project members
      ((raceHost engines).step s (.spawn t)) i = standOf org project members s i := by
    intro i hi
    unfold standOf Sys.stage
    rw [hothers i hi]
  refine raceInv_quiet h (sane_step _ h.sane _)
    (typed_step (race_follows org project members) (race_answers _) h.typed _) h.tables
    (fun _ => rfl) rfl rfl ?_ ?_ ?_ h.right ?_
  · intro i hi
    -- the new thread is at the beginning, where nothing is owed
    by_cases hit : i = s.born
    · subst hit
      exact hin (hfirst _ hi).symm
    · exact h.inside i (hother i hit ▸ hi)
  · intro i a row target job hi
    by_cases hit : i = s.born
    · subst hit
      exact absurd (hfirst _ hi).symm (hholds a row target job)
    · exact hother i hit ▸ hi
  -- nobody who owed anything is the new thread
  · intro i a row target job _ hi
    have hit : i ≠ s.born := by
      rintro rfl
      rw [hnew] at hi
      cases hi
    exact (hother i hit).trans hi
  · intro i hi hgone
    by_cases hit : i = s.born
    · subst hit
      exact absurd ((Function.update_self _ _ _).symm.trans hgone) hpark
    -- a thread that was answered has its answer in the log
    · refine h.answered i ?_ (hothers i hit ▸ hgone)
      have hlt : i < s.born + 1 := hi
      omega

theorem ordered_drift {w : World} (h : Ordered org project members w) (δ : Drift) :
    Ordered org project members (w.drift δ) := by
  cases δ with
  | tick ms =>
    exact ⟨h.members, h.home, h.local_, h.homed, h.distinct, h.oneJob, h.oneTarget⟩
  | reconfigure p slug model rootDirectory =>
    refine ⟨h.members, ?_, h.local_, h.homed, h.distinct, h.oneJob, h.oneTarget⟩
    rw [← h.home]
    show ((Table.update _ _ _).find project).map _ = _
    rw [Table.find_update, Option.map_map]
    unfold World.home
    congr 1
    funext a
    show (Table.Edit.on _ _ a).organizationId = a.organizationId
    unfold Table.Edit.on
    split <;> rfl

/-- **Step.** -/
theorem raceInv_step {l : Move Task Oracle Drift} (h : RaceInv org project members s)
    (hl : Unraced org project members s l) :
    RaceInv org project members ((raceHost engines).step s l) := by
  have hsane := sane_step (raceHost engines) h.sane l
  have htyped := typed_step (H := raceHost engines) (Y := raceDuty org project members)
    (race_follows org project members) (race_answers s.world) h.typed l
  cases l with
  | spawn t => exact raceInv_spawn h hl.1
  -- no thread dies, under the condition
  | crash tid => exact hl.1.elim
  | exec tid o =>
    rcases exec_cases h.typed (race_answers s.world) tid o with ⟨hsame, _⟩ | ⟨c, x, x', hc⟩
    · rw [hsame]
      exact h
    · cases c with
      | inl c =>
        exact raceInv_call h hsane htyped
          (onward_of_called h hc hl.1 (hl.2 _ hc.pending))
      | inr reply => exact raceInv_reply h hsane htyped hc
  | drift δ =>
    -- what drifts is the clock or a project's settings: no row, no job, no target
    have himprint : ∀ d, (s.world.drift δ).imprint d = s.world.imprint d := by
      intro d
      cases δ <;> rfl
    have hjobs : (s.world.drift δ).jobs = s.world.jobs := by cases δ <;> rfl
    have htargets : (s.world.drift δ).targets = s.world.targets := by cases δ <;> rfl
    refine raceInv_quiet h hsane htyped (ordered_drift h.tables δ) himprint hjobs htargets
      h.inside (fun _ _ _ _ _ hi => hi) (fun _ _ _ _ _ _ hi => hi) ?_ h.answered
    intro e he t r a hcall hasks
    obtain ⟨row, hident, hnames⟩ := h.right e he t r a hcall hasks
    refine ⟨row, ?_, hnames⟩
    cases δ <;> exact hident

end Moves

/-! ## Whole runs -/

def RaceSys.initial (now : Instant) (projects : ProjectsTable)
    (members : OrganizationId → UserId → Bool) : RaceSys :=
  Sys.start (World.initial now projects members)

/-- In the beginning there is no row. -/
theorem raceInv_start {now : Instant} {projects : ProjectsTable}
    (h : (World.initial now projects members).home project = some org) :
    RaceInv org project members (RaceSys.initial now projects members) where
  sane := sane_start _
  typed := typed_start _ _
  tables :=
    { members := rfl
      home := h
      local_ := fun _ _ hm => by cases hm
      homed := fun _ hj => absurd hj (Table.not_mem_empty _)
      distinct := fun _ _ _ hd => by cases hd
      oneJob := fun _ hj => absurd hj (Table.not_mem_empty _)
      oneTarget := List.nodup_nil }
  inside _ hi := by cases hi
  held _ _ _ _ _ hi := by cases hi
  lone _ _ _ _ _ _ _ hi := by cases hi
  job _ _ hm := by cases hm
  target _ _ _ hm := by cases hm
  right _ he := absurd he List.not_mem_nil
  answered _ hi := absurd hi (Nat.not_lt_zero _)

/-- One row to a key, one job to a row, one target to a preview key, and every caller is
told the row of its key. -/
structure OneOfEach (org : OrganizationId) (s : RaceSys) : Prop where
  row : ∀ r ∈ s.world.store.deployments, ∀ r' ∈ s.world.store.deployments,
    r.organizationId = r'.organizationId → r.idempotencyKey = r'.idempotencyKey → r = r'
  job : OneJob s.world
  target : s.world.targets.Nodup
  told : ∀ e ∈ s.log, Right org s.world e.2
  answered : ∀ i < s.born, s.live i = none → ∃ e ∈ s.log, e.1 = i ∧ Replied e.2
  /-- Once everybody is answered, the row has its job, and a preview its target. -/
  complete : (∀ i, s.live i = none) → ∀ r ∈ s.world.store.deployments,
    HasJob r.id s.world ∧ ∀ key, r.previewKey = some key → (r.projectId, key) ∈ s.world.targets

theorem imprint_of_mem {w : World} {r : DeploymentRow} (h : r ∈ w.store.deployments) :
    w.imprint r.id = some r.imprint := by
  have hfind : w.store.deployments.find r.id = some r := Table.find_eq_some.mpr ⟨h, rfl⟩
  rw [World.imprint, World.row, hfind]
  rfl

/-- The property follows. -/
theorem oneOfEach_of_inv {s : RaceSys} (h : RaceInv org project members s) : OneOfEach org s where
  row r hr r' hr' horg hkey := by
    -- two rows under one key are one row, by its identity
    have hident := ident_of_imprint (imprint_of_mem hr)
    have hident' := ident_of_imprint (imprint_of_mem hr')
    have hsame : r.id = r'.id := by
      refine h.tables.distinct _ _ _ hident (hident'.trans ?_)
      rw [DeploymentRow.imprint, DeploymentRow.imprint, horg, hkey]
    have hfind : s.world.store.deployments.find r.id = some r :=
      Table.find_eq_some.mpr ⟨hr, rfl⟩
    have hfind' : s.world.store.deployments.find r.id = some r' :=
      Table.find_eq_some.mpr ⟨hr', hsame.symm⟩
    exact Option.some.inj (hfind.symm.trans hfind')
  job := h.tables.oneJob
  target := h.tables.oneTarget
  told := h.right
  answered := h.answered
  complete hgone r hr := by
    have himprint := imprint_of_mem hr
    -- where every thread is gone nobody owes anything
    have hnobody : ∀ i y, standOf org project members s i ≠ some y := by
      intro i y hy
      have hnone : standOf org project members s i = none := stage_of_live_none (hgone i)
      rw [hnone] at hy
      cases hy
    refine ⟨?_, fun key hkey => ?_⟩
    · rcases h.job r.id _ himprint with hjob | ⟨i, a, target, hi⟩
      · exact hjob
      · exact absurd hi (hnobody i _)
    · rw [show r.projectId = project from (h.tables.local_ r.id _ himprint).2]
      rcases h.target r.id _ key himprint hkey with htarget | ⟨i, a, job, hi⟩
      · exact htarget
      · exact absurd hi (hnobody i _)

/-- **Callers that do not race** get one of each, whatever the order of their requests. -/
theorem oneOfEach_of_unraced (engines : Engines) (org : OrganizationId) (project : ProjectId)
    (now : Instant) (projects : ProjectsTable) (members : OrganizationId → UserId → Bool)
    (ls : List (Move Task Oracle Drift))
    (hhome : (World.initial now projects members).home project = some org)
    (hrun : EachStep (raceHost engines).step (Unraced org project members)
      (RaceSys.initial now projects members) ls) :
    Always (raceHost engines).step (OneOfEach org) (RaceSys.initial now projects members) ls :=
  always_of_inv (raceInv_start hhome) (fun _ _ h hl => raceInv_step h hl)
    (fun _ h => oneOfEach_of_inv h) hrun

/-! ## A race -/

/-- `n` calls of thread `tid`. -/
def turns (tid n : Nat) : List (Move Task Oracle Drift) :=
  List.replicate n (.exec tid building.oracle)

/-- The same request twice: the second finds the row of the first. -/
def replayedRun : List (Move Task Oracle Drift) :=
  [.spawn (.request owner production), .spawn (.request owner production)] ++
    turns 0 5 ++ turns 1 3 ++ turns 0 3

theorem oneOfEach_replayed :
    Always (raceHost ⟨none, false⟩).step (OneOfEach 1)
      (RaceSys.initial 0 oneProject fun _ _ => true) replayedRun :=
  oneOfEach_of_unraced ⟨none, false⟩ 1 0 0 oneProject (fun _ _ => true) replayedRun (by decide)
    (by decide)

/-- Both look before either inserts. -/
def racingRun : List (Move Task Oracle Drift) :=
  [.spawn (.request owner production), .spawn (.request owner production)] ++
    turns 0 4 ++ turns 1 4 ++ turns 0 1 ++ turns 1 2

/-- The answer is an error. -/
def Refused (e : Event (Call ⊕ Reply) RaceAns String) : Bool :=
  match e.call with
  | .inr (t, r) => t.asks.isSome && threw r
  | .inl _ => false

theorem not_refused_of_right {w : World} {e : Event (Call ⊕ Reply) RaceAns String}
    (h : Right org w e) : Refused e = false := by
  unfold Refused
  split
  next t r hcall =>
    cases hasks : t.asks with
    | none => rfl
    | some a =>
      obtain ⟨row, _, hnames⟩ := h t r a hcall hasks
      cases r with
      | ok outcome => rfl
      | error e => exact hnames.elim
  next => rfl

/-- The loser is answered that the database refused its row. -/
theorem racing_request_refused :
    ¬ ∀ (engines : Engines) (org : OrganizationId) (project : ProjectId) (now : Instant)
      (projects : ProjectsTable) (members : OrganizationId → UserId → Bool)
      (ls : List (Move Task Oracle Drift)),
      (World.initial now projects members).home project = some org →
      (∀ l ∈ ls, LetIn org project members l) →
      Always (raceHost engines).step (OneOfEach org) (RaceSys.initial now projects members) ls := by
  intro h
  have hrun := h ⟨none, false⟩ 1 0 0 oneProject (fun _ _ => true) racingRun (by decide) (by decide)
  have hlast := (always_iff_prefixes.mp hrun racingRun [] (by rw [List.append_nil])).told
  have hnobody : (runFrom (raceHost ⟨none, false⟩).step
      (RaceSys.initial 0 oneProject fun _ _ => true) racingRun).log.any
        (fun e => Refused e.2) = false :=
    List.any_eq_false.mpr fun e he => by simp [not_refused_of_right (hlast e he)]
  revert hnobody
  decide

end CloudWai.Deployment
