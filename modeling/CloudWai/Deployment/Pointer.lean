import CloudWai.Deployment.Plane

/-!
# The production pointer

`promote_deployment` checks that what goes live is a succeeded production
deployment of the project, moves the flag and the pointer in one transaction,
and from then on nobody looks. The flag and the pointer stay together whatever
happens (`Coupled`): the row the pointer names is the one current row of its
project. What does not stay is its status, for a status patch of the row is as
blind as any other.

`pointer_sound_iff` says when the whole law holds of a run with any interleaving
of tasks and bare store calls: exactly if no patch that takes effect gives the
live row a status other than `succeeded`.

About `promote_deployment` of migration 0014 and whoever calls it, as `Store.lean` has it.
-/

namespace CloudWai.Deployment

open Base Queue

variable {engines : Engines} {s : OpenSys} {w : World}

/-- The open plane before anything was deployed. -/
def OpenSys.initial (now : Instant) (projects : ProjectsTable)
    (members : OrganizationId → UserId → Bool) : OpenSys :=
  Sys.start (World.initial now projects members)

/-- `projects.organization_id`. -/
def World.projectOrg (w : World) (project : ProjectId) : Option OrganizationId :=
  (w.store.projects.find project).map (·.organizationId)

/-- What the pointer names is a live, succeeded production deployment of the
project, and no other row of the project is current. -/
def PointerSound (w : World) : Prop :=
  ∀ project id, w.pointer project = some id →
    (∃ r, w.row id = some r ∧ r.projectId = project ∧ r.kind = .production ∧
      r.status = .succeeded ∧ r.isCurrent = true) ∧
    ∀ r ∈ w.store.deployments, r.projectId = project → r.isCurrent = true → r.id = id

/-! ## Flag and pointer -/

/-- Rows belong to their project's organization, a current row is the one its
project points at, and the pointer names a current production row. -/
structure Coupled (w : World) : Prop where
  org : ∀ id r, w.row id = some r → w.projectOrg r.projectId = some r.organizationId
  current : ∀ id r, w.row id = some r → r.isCurrent = true → w.pointer r.projectId = some id
  target : ∀ project id, w.pointer project = some id →
    ∃ r, w.row id = some r ∧ r.projectId = project ∧ r.kind = .production ∧ r.isCurrent = true

/-- Given the coupling, only the status of the live row is in question. -/
theorem pointerSound_iff (h : Coupled w) :
    PointerSound w ↔ ∀ project id r, w.pointer project = some id → w.row id = some r →
      r.status = .succeeded := by
  constructor
  · intro hsound project id r hp hr
    obtain ⟨⟨r', hr', _, _, hst, _⟩, _⟩ := hsound project id hp
    rw [hr] at hr'
    rw [Option.some.inj hr']
    exact hst
  · intro hst project id hp
    obtain ⟨r, hr, hproject, hkind, hcurrent⟩ := h.target project id hp
    refine ⟨⟨r, hr, hproject, hkind, hst project id r hp hr, hcurrent⟩, ?_⟩
    intro r' hmem hproject' hcurrent'
    have hrow : w.row r'.id = some r' := Table.find_eq_some.mpr ⟨hmem, rfl⟩
    have hpoints := h.current r'.id r' hrow hcurrent'
    rw [hproject', hp] at hpoints
    exact (Option.some.inj hpoints).symm

theorem projectOrg_update {t : ProjectsTable} {p : ProjectRow → Bool}
    {f : Table.Edit fun p : ProjectRow => p.id}
    (hf : ∀ r, (f.run r).organizationId = r.organizationId) (project : ProjectId) :
    ((t.update p f).find project).map (·.organizationId) =
      (t.find project).map (·.organizationId) := by
  rw [Table.find_update, Option.map_map]
  congr 1
  funext r
  simp only [Function.comp, Table.Edit.on]
  split
  · exact hf r
  · rfl

/-- No call changes a project's organization. -/
theorem projectOrg_perform (engines : Engines) (w : World) (o : Oracle) (c : Call)
    (project : ProjectId) : (w.perform engines o c).2.projectOrg project = w.projectOrg project := by
  cases c with
  | engine row c => rfl
  | queue c =>
    rw [World.projectOrg, perform_queue_store]
    rfl
  | store c =>
    rw [World.projectOrg, perform_store]
    split
    next =>
      cases c with
      | patchProjectProvider org id provider resource => exact projectOrg_update (fun _ => rfl) project
      | promote org id d =>
        simp only [StoreCall.run, Store.promoteDeployment]
        split
        · split
          · exact projectOrg_update (fun _ => rfl) project
          · rfl
        · rfl
      | insertPreviewTarget org id key branch pullRequest =>
        simp only [StoreCall.run]
        split <;> rfl
      | insertDeployment input =>
        simp only [StoreCall.run]
        split <;> rfl
      | _ => rfl
    next => rfl

/-- The pointers after a promotion's update of the projects. -/
theorem pointer_promoted (t : ProjectsTable) (org : OrganizationId) (project : ProjectId)
    (id : DeploymentId) (p : ProjectId) :
    ((t.update (fun p => p.id == project && p.organizationId == org)
        ⟨fun p => { p with productionDeploymentId := some id }, fun _ => rfl⟩).find p).bind
          (·.productionDeploymentId) =
      if p = project ∧ (t.find p).map (·.organizationId) = some org then some id
      else (t.find p).bind (·.productionDeploymentId) := by
  rw [Table.find_update]
  rcases Option.eq_none_or_eq_some (t.find p) with hp | ⟨row, hp⟩
  · simp [hp]
  · have hid : row.id = p := (Table.mem_of_find hp).2
    simp only [hp, Option.map_some, Option.bind_some, Table.Edit.on, hid, Bool.and_eq_true,
      beq_iff_eq, Option.some.injEq]
    split <;> rfl

/-- **What a promotion does**, if it does anything: the flags of the project are
moved, and its pointer. -/
theorem promote_perform (engines : Engines) (w : World) (o : Oracle) (org : OrganizationId)
    (project : ProjectId) (id : DeploymentId) :
    (w.perform engines o (.store (.promote org project id))).2.store = w.store ∨
      (∃ r, w.row id = some r ∧ promotable org project id r = true) ∧
      (∀ d, (w.perform engines o (.store (.promote org project id))).2.row d =
        (w.row d).map fun r => { r with isCurrent :=
          (r.id == id && r.projectId == project && r.organizationId == org) ||
            (!liveIn org project r && r.isCurrent) }) ∧
      ∀ p, (w.perform engines o (.store (.promote org project id))).2.pointer p =
        if p = project ∧ w.projectOrg p = some org then some id else w.pointer p := by
  rw [perform_store]
  split
  next hlands =>
    simp only [StoreCall.run, Store.promoteDeployment]
    split
    next hany =>
      split
      next hone =>
        right
        refine ⟨find_of_any hany, fun d => ?_, fun p => ?_⟩
        · rw [World.row, perform_store, if_pos hlands]
          simp only [StoreCall.run, Store.promoteDeployment, hany, hone, if_true]
          exact find_movedFlags _ _ _ _ _
        · rw [World.pointer, perform_store, if_pos hlands]
          simp only [StoreCall.run, Store.promoteDeployment, hany, hone, if_true]
          exact pointer_promoted _ _ _ _ _
      next => exact .inl rfl
    next => exact .inl rfl
  next => exact .inl rfl

/-- Two states of a row that agree on what the coupling is about. -/
structure SameSlot (r r' : DeploymentRow) : Prop where
  project : r'.projectId = r.projectId
  org : r'.organizationId = r.organizationId
  kind : r'.kind = r.kind
  current : r'.isCurrent = r.isCurrent

theorem SameSlot.refl (r : DeploymentRow) : SameSlot r r := ⟨rfl, rfl, rfl, rfl⟩

/-- No other call touches flag or pointer, and a new row is not current. -/
theorem row_perform {o : Oracle} {c : Call} (hc : ∀ org project id, c ≠ .store (.promote org project id))
    (id : DeploymentId) :
    (∃ r r', w.row id = some r ∧ (w.perform engines o c).2.row id = some r' ∧ SameSlot r r') ∨
      w.row id = none ∧ ((w.perform engines o c).2.row id = none ∨
        ∃ input, c = .store (.insertDeployment input) ∧
          (w.perform engines o c).2.row id = some (input.row w.now id)) := by
  have htouches := touches_perform engines id w o c
  generalize (w.perform engines o c).2.row id = after at htouches ⊢
  cases htouches with
  | keep =>
    cases hrow : w.row id with
    | none => exact .inr ⟨rfl, .inl rfl⟩
    | some r => exact .inl ⟨r, r, rfl, rfl, .refl r⟩
  | patch hid hrow => exact .inl ⟨_, _, hrow, rfl, rfl, rfl, rfl, rfl⟩
  | promote => exact absurd rfl (hc _ _ _)
  | insert hnone => exact .inr ⟨hnone, .inr ⟨_, rfl, rfl⟩⟩

/-- What is neither an insert nor a promotion leaves the pointers coupled. -/
theorem coupled_perform {o : Oracle} {c : Call} (h : Coupled w)
    (hc : ∀ org project id, c ≠ .store (.promote org project id))
    (hinsert : ∀ input, c = .store (.insertDeployment input) →
      w.projectOrg input.projectId = some input.organizationId) :
    Coupled (w.perform engines o c).2 := by
  have hpointer : ∀ project, (w.perform engines o c).2.pointer project = w.pointer project := by
    intro project
    rcases pointer_perform engines w o c project with hsame | ⟨org, id, _, rfl, _⟩
    · exact hsame
    · exact absurd rfl (hc org project id)
  refine ⟨?_, ?_, ?_⟩
  · intro id r' hr'
    rw [projectOrg_perform]
    rcases (@row_perform engines _ o) hc id with
      ⟨r, r'', hr, hr'', hsame⟩ | ⟨_, hnone | ⟨input, hcall, hnew⟩⟩
    · rw [hr''] at hr'
      obtain rfl := Option.some.inj hr'
      rw [hsame.project, hsame.org]
      exact h.org id r hr
    · rw [hnone] at hr'
      cases hr'
    · rw [hnew] at hr'
      obtain rfl := Option.some.inj hr'
      exact hinsert input hcall
  · intro id r' hr' hcurrent
    rw [hpointer]
    rcases (@row_perform engines _ o) hc id with
      ⟨r, r'', hr, hr'', hsame⟩ | ⟨_, hnone | ⟨input, hcall, hnew⟩⟩
    · rw [hr''] at hr'
      obtain rfl := Option.some.inj hr'
      rw [hsame.project]
      exact h.current id r hr (hsame.current.symm.trans hcurrent)
    · rw [hnone] at hr'
      cases hr'
    · rw [hnew] at hr'
      obtain rfl := Option.some.inj hr'
      cases hcurrent
  · intro project id hp
    rw [hpointer] at hp
    obtain ⟨r, hr, hproject, hkind, hcurrent⟩ := h.target project id hp
    rcases (@row_perform engines _ o) hc id with
      ⟨r₀, r', hr₀, hr', hsame⟩ | ⟨hnone, _⟩
    · rw [hr] at hr₀
      obtain rfl := Option.some.inj hr₀
      exact ⟨r', hr', hsame.project.trans hproject, hsame.kind.trans hkind,
        hsame.current.trans hcurrent⟩
    · rw [hr] at hnone
      cases hnone

/-- **A promotion keeps flag and pointer together.** -/
theorem coupled_promote {o : Oracle} (h : Coupled w) (org : OrganizationId) (project : ProjectId)
    (id : DeploymentId) : Coupled (w.perform engines o (.store (.promote org project id))).2 := by
  rcases promote_perform engines w o org project id with hsame | ⟨⟨r, hr, hprom⟩, hrows, hpointers⟩
  · refine ⟨?_, ?_, ?_⟩
    · intro d r hd
      rw [World.row, hsame] at hd
      rw [World.projectOrg, hsame]
      exact h.org d r hd
    · intro d r hd hcurrent
      rw [World.row, hsame] at hd
      rw [World.pointer, hsame]
      exact h.current d r hd hcurrent
    · intro p d hp
      rw [World.pointer, hsame] at hp
      rw [World.row, hsame]
      exact h.target p d hp
  · have hslot : r.id = id ∧ r.projectId = project ∧ r.organizationId = org ∧
        r.kind = .production := by
      simp only [promotable, Bool.and_eq_true, beq_iff_eq] at hprom
      exact ⟨hprom.1.1.1.1, hprom.1.1.1.2, hprom.1.1.2, hprom.1.2⟩
    obtain ⟨hid, hproject, horg, hkind⟩ := hslot
    have hprojectOrg : w.projectOrg project = some org := by
      have hr' := h.org id r hr
      rw [hproject, horg] at hr'
      exact hr'
    refine ⟨?_, ?_, ?_⟩
    · intro d r' hd
      rw [hrows] at hd
      obtain ⟨r₀, hr₀, rfl⟩ := Option.map_eq_some_iff.mp hd
      rw [projectOrg_perform]
      exact h.org d r₀ hr₀
    · intro d r' hd hcurrent
      rw [hrows] at hd
      obtain ⟨r₀, hr₀, rfl⟩ := Option.map_eq_some_iff.mp hd
      have hd₀ : r₀.id = d := (Table.mem_of_find hr₀).2
      simp only [Bool.or_eq_true, Bool.and_eq_true, beq_iff_eq, Bool.not_eq_true'] at hcurrent
      rw [hpointers]
      rcases hcurrent with ⟨⟨hnew, hproject₀⟩, _⟩ | ⟨hlive, hcurrent⟩
      · rw [if_pos ⟨hproject₀, hproject₀ ▸ hprojectOrg⟩, ← hd₀, hnew]
      · -- a row that was current and kept its flag belongs to another project
        have hne : r₀.projectId ≠ project := by
          intro heq
          have horg₀ := h.org d r₀ hr₀
          rw [heq, hprojectOrg] at horg₀
          rw [liveIn, heq, ← Option.some.inj horg₀, hcurrent] at hlive
          simp at hlive
        rw [if_neg fun hboth => hne hboth.1]
        exact h.current d r₀ hr₀ hcurrent
    · intro p d hp
      rw [hpointers] at hp
      split at hp
      next hboth =>
        obtain rfl := Option.some.inj hp
        obtain ⟨rfl, _⟩ := hboth
        refine ⟨_, (hrows id).trans (congrArg _ hr), hproject, hkind, ?_⟩
        simp [hid, hproject, horg]
      next hother =>
        obtain ⟨r₀, hr₀, hproject₀, hkind₀, hcurrent₀⟩ := h.target p d hp
        have hne : r₀.projectId ≠ project := by
          intro heq
          have hp' : p = project := hproject₀.symm.trans heq
          exact hother ⟨hp', hp' ▸ hprojectOrg⟩
        refine ⟨_, (hrows d).trans (congrArg _ hr₀), hproject₀, hkind₀, ?_⟩
        simp [liveIn, hne, hcurrent₀]

/-! ## The open plane -/

/-- The stage of a thread of the open plane, on some row: which one does not
matter for what a request knows of its project. -/
def openStage (s : OpenSys) (tid : Nat) : Option Stage :=
  s.stage (openDuty 0).protocol (openDuty 0).first tid

/-- What every open run keeps. -/
structure OpenInv (s : OpenSys) : Prop where
  sane : s.Sane
  typed : s.Typed (openDuty 0)
  coupled : Coupled s.world
  known : ∀ i project, openStage s i = some (.knows project) →
    s.world.projectOrg project.id = some project.organizationId

theorem project_of_sight {o : Oracle} {c : Call} {project : ProjectRow}
    (h : sight 0 c (w.perform engines o c).1 = .project project) :
    w.projectOrg project.id = some project.organizationId := by
  generalize hr : (w.perform engines o c).1 = r at h
  have hshows := shows_sight 0 c r
  rw [h] at hshows
  cases hshows with
  | engine _ ha => exact ha.elim
  | project | projectForService =>
    have hseen := Except.ok.inj (perform_store_ok hr).2
    have hfind := (Option.filter_eq_some_iff.mp hseen).1
    rw [World.projectOrg, (Table.mem_of_find hfind).2, hfind]
    rfl

/-- Time and settings are not what the coupling is about. -/
theorem coupled_drift (h : Coupled w) (δ : Drift) : Coupled (w.drift δ) := by
  cases δ with
  | tick ms => exact ⟨h.org, h.current, h.target⟩
  | reconfigure project slug model rootDirectory =>
    have hpointer : ∀ p, (w.drift (.reconfigure project slug model rootDirectory)).pointer p =
        w.pointer p := pointer_update fun _ => rfl
    have horg : ∀ p, (w.drift (.reconfigure project slug model rootDirectory)).projectOrg p =
        w.projectOrg p := projectOrg_update fun _ => rfl
    refine ⟨?_, ?_, ?_⟩
    · intro id r hr
      rw [horg]
      exact h.org id r hr
    · intro id r hr hcurrent
      rw [hpointer]
      exact h.current id r hr hcurrent
    · intro p id hp
      rw [hpointer] at hp
      exact h.target p id hp

theorem projectOrg_drift (δ : Drift) (project : ProjectId) :
    (w.drift δ).projectOrg project = w.projectOrg project := by
  cases δ with
  | tick ms => rfl
  | reconfigure id slug model rootDirectory => exact projectOrg_update (fun _ => rfl) project

/-- A request inserts rows for the project it has read. -/
theorem coupled_of_called (h : OpenInv s) {tid : Nat} {o : Oracle} {c : Call} {x x' : Stage}
    {s' : OpenSys} (hc : Called (openHost engines) (openDuty 0) s s' tid o c x x') :
    Coupled s'.world := by
  have hworld : s'.world = (s.world.perform engines o c).2 := hc.world
  rw [hworld]
  by_cases hprom : ∃ org project id, c = .store (.promote org project id)
  · obtain ⟨org, project, id, rfl⟩ := hprom
    exact coupled_promote h.coupled org project id
  · refine coupled_perform h.coupled ?_ ?_
    · intro org project id hcall
      exact hprom ⟨org, project, id, hcall⟩
    · intro input hcall
      subst hcall
      have hmove : x.move (.created input) = some x' := hc.moves
      cases moves_of_move hmove with
      | direct hnot => exact absurd rfl (hnot input)
      | phase hph => cases hph
      | created horg hproject =>
        rw [hproject, horg]
        exact h.known tid _ hc.was
      | passing ha => exact ha.elim

/-- **Step.** Whatever happens, flag and pointer stay together. -/
theorem openInv_step (h : OpenInv s) (l : OpenMove) : OpenInv ((openHost engines).step s l) := by
  refine ⟨sane_step _ h.sane l, open_typed engines 0 h.typed l, ?_, ?_⟩
  · rcases step_cases h.sane h.typed (open_answers engines 0 s.world) l with
      hs | ⟨tid, o, c, x, x', _, hc⟩
    · rcases hs.world with hw | ⟨δ, hw⟩
      · rw [hw]
        exact h.coupled
      · rw [hw]
        exact coupled_drift h.coupled δ
    · exact coupled_of_called h hc
  · intro i project hi
    rcases step_cases h.sane h.typed (open_answers engines 0 s.world) l with
      hs | ⟨tid, o, c, x, x', _, hc⟩
    · have horg : ((openHost engines).step s l).world.projectOrg project.id =
          s.world.projectOrg project.id := by
        rcases hs.world with hw | ⟨δ, hw⟩
        · rw [hw]
        · rw [hw]
          exact projectOrg_drift δ _
      rw [horg]
      rcases hs.stage i _ hi with hwas | ⟨_, t, ht⟩
      · exact h.known i project hwas
      · cases t with
        | inl t => cases t <;> cases ht
        | inr t => cases ht
    · have horg : ((openHost engines).step s l).world.projectOrg project.id =
          s.world.projectOrg project.id := by
        rw [hc.world]
        exact projectOrg_perform engines s.world o c _
      rw [horg]
      rcases hc.stage_after hi with ⟨_, hx'⟩ | ⟨_, hwas⟩
      · rcases knows_of_move (hx' ▸ hc.moves) with rfl | hproject
        · exact h.known tid project hc.was
        · exact project_of_sight hproject
      · exact h.known i project hwas

/-- Nothing is live at first. -/
theorem pointer_initial (now : Instant) (projects : ProjectsTable)
    (members : OrganizationId → UserId → Bool) (project : ProjectId) :
    (World.initial now projects members).pointer project = none := by
  show ((projects.update (fun _ => true) _).find project).bind (·.productionDeploymentId) = none
  rw [Table.find_update]
  cases projects.find project <;> rfl

/-! ## The condition -/

/-- A status patch that takes effect on a live row writes `succeeded`. -/
def SoundWrite (s : OpenSys) : OpenMove → Prop
  | .exec tid o =>
    match s.pending tid with
    | some (.store (.patchDeployment p)) =>
      o.fault.Lands → ∀ r, s.world.row p.id = some r → r.organizationId = p.organizationId →
        s.world.pointer r.projectId = some p.id → p.status = .succeeded
    | _ => True
  | _ => True

theorem pointerSound_silent (h : OpenInv s) (hsound : PointerSound s.world) {l : OpenMove}
    (hs : Silent (openHost engines) (openDuty 0) s l)
    (hcoupled : Coupled ((openHost engines).step s l).world) :
    PointerSound ((openHost engines).step s l).world := by
  rw [pointerSound_iff hcoupled]
  have hst := (pointerSound_iff h.coupled).mp hsound
  rcases hs.world with hw | ⟨δ, hw⟩
  · rw [hw]
    exact hst
  · rw [hw]
    intro project id r hp hr
    cases δ with
    | tick ms => exact hst project id r hp hr
    | reconfigure p slug model rootDirectory =>
      have hpointer : (s.world.drift (.reconfigure p slug model rootDirectory)).pointer project =
          s.world.pointer project := pointer_update (fun _ => rfl) project
      exact hst project id r (hpointer.symm.trans hp) hr

/-- A status patch is sound exactly if it leaves the pointer sound. -/
theorem pointerSound_patch_iff (h : Coupled w) (hsound : PointerSound w) (o : Oracle)
    (p : DeploymentStatusInput)
    (hcoupled : Coupled (w.perform engines o (.store (.patchDeployment p))).2) :
    PointerSound (w.perform engines o (.store (.patchDeployment p))).2 ↔
      (o.fault.Lands → ∀ r, w.row p.id = some r → r.organizationId = p.organizationId →
        w.pointer r.projectId = some p.id → p.status = .succeeded) := by
  have hst := (pointerSound_iff h).mp hsound
  have hpointer : ∀ project,
      (w.perform engines o (.store (.patchDeployment p))).2.pointer project = w.pointer project := by
    intro project
    rcases pointer_perform engines w o (.store (.patchDeployment p)) project with
      hsame | ⟨_, _, _, hcall, _⟩
    · exact hsame
    · cases hcall
  rw [pointerSound_iff hcoupled]
  constructor
  · intro hafter hlands r hrow horg hp
    refine hafter r.projectId p.id (p.set r) ((hpointer _).trans hp) ?_
    rw [World.row, perform_store, if_pos hlands]
    show (w.store.patchDeployment p).deployments.find p.id = some (p.set r)
    rw [find_patchDeployment, show w.store.deployments.find p.id = some r from hrow,
      Option.map_some, if_pos]
    simp only [owned, Bool.and_eq_true, beq_iff_eq]
    exact ⟨(Table.mem_of_find hrow).2, horg⟩
  · intro hwrite project id r hp hr
    rw [hpointer] at hp
    have htouches := touches_perform engines id w o (.store (.patchDeployment p))
    rw [hr] at htouches
    generalize hafter : some r = after at htouches
    cases htouches with
    | keep => exact hst project id r hp hafter.symm
    | patch hid hrow horg hlands =>
      obtain rfl := Option.some.inj hafter
      obtain ⟨r₀, hr₀, hproject, _⟩ := h.target project id hp
      obtain rfl := Option.some.inj (hrow.symm.trans hr₀)
      subst hid
      exact hwrite hlands _ hrow horg (hproject ▸ hp)

/-- Any other call leaves it sound. -/
theorem pointerSound_perform (h : Coupled w) (hsound : PointerSound w) (o : Oracle) (c : Call)
    (hc : ∀ p, c ≠ .store (.patchDeployment p)) (hcoupled : Coupled (w.perform engines o c).2) :
    PointerSound (w.perform engines o c).2 := by
  have hst := (pointerSound_iff h).mp hsound
  rw [pointerSound_iff hcoupled]
  intro project id r hp hr
  -- what the pointer names had succeeded before, and the call keeps statuses
  have hbefore : ∃ r₀, w.row id = some r₀ ∧ r₀.status = .succeeded := by
    rcases pointer_perform engines w o c project with hsame | ⟨_, id', r₀, _, hr₀, hprom, hid⟩
    · rw [hsame] at hp
      obtain ⟨r₀, hr₀, _⟩ := h.target project id hp
      exact ⟨r₀, hr₀, hst project id r₀ hp hr₀⟩
    · rw [hp] at hid
      obtain rfl := Option.some.inj hid
      exact ⟨r₀, hr₀, status_of_promotable hprom⟩
  obtain ⟨r₀, hr₀, hsucceeded⟩ := hbefore
  have htouches := touches_perform engines id w o c
  rw [hr] at htouches
  generalize hafter : some r = after at htouches
  cases htouches with
  | keep =>
    obtain rfl := Option.some.inj (hafter.trans hr₀)
    exact hsucceeded
  | promote hrow =>
    obtain rfl := Option.some.inj (hrow.symm.trans hr₀)
    obtain rfl := Option.some.inj hafter
    exact hsucceeded
  | insert hnone =>
    rw [hr₀] at hnone
    cases hnone
  | patch => exact absurd rfl (hc _)

/-- **One step.** -/
theorem pointerSound_step_iff (h : OpenInv s) (hsound : PointerSound s.world) (l : OpenMove) :
    PointerSound ((openHost engines).step s l).world ↔ SoundWrite s l := by
  have hcoupled := ((@openInv_step engines) h l).coupled
  rcases step_cases h.sane h.typed (open_answers engines 0 s.world) l with
    hs | ⟨tid, o, c, x, x', rfl, hc⟩
  · refine iff_of_true (pointerSound_silent h hsound hs hcoupled) ?_
    cases l with
    | exec tid o => simp only [SoundWrite, hs.idle tid o rfl]
    | _ => trivial
  · have hworld : ((openHost engines).step s (.exec tid o)).world =
        (s.world.perform engines o c).2 := hc.world
    rw [hworld] at hcoupled ⊢
    simp only [SoundWrite, hc.pending]
    split
    next p hp =>
      obtain rfl := Option.some.inj hp
      exact pointerSound_patch_iff h.coupled hsound o p hcoupled
    next hnot =>
      refine iff_of_true (pointerSound_perform h.coupled hsound o c ?_ hcoupled) trivial
      intro p hp
      exact hnot p (congrArg some hp)

theorem openInv_start (now : Instant) (projects : ProjectsTable)
    (members : OrganizationId → UserId → Bool) : OpenInv (OpenSys.initial now projects members) where
  sane := sane_start _
  typed := typed_start _ _
  coupled :=
    { org := fun _ _ h => by cases h
      current := fun _ _ h => by cases h
      target := fun project id h => by
        rw [show (OpenSys.initial now projects members).world.pointer project = none from
          pointer_initial now projects members project] at h
        cases h }
  known _ _ h := by cases h

/-- **The pointer, exactly.** In every state of a run it names the one current,
succeeded production deployment of its project, if and only if every status
patch that took effect on a live row wrote `succeeded`. -/
theorem pointer_sound_iff (engines : Engines) (now : Instant) (projects : ProjectsTable)
    (members : OrganizationId → UserId → Bool) (ls : List OpenMove) :
    Always (openHost engines).step (fun s => PointerSound s.world)
        (OpenSys.initial now projects members) ls ↔
      EachStep (openHost engines).step SoundWrite (OpenSys.initial now projects members) ls := by
  refine always_iff_eachStep (openInv_start now projects members) (fun _ l h => openInv_step h l) ?_
    fun _ l h hsound => pointerSound_step_iff h hsound l
  intro project id h
  rw [show (OpenSys.initial now projects members).world.pointer project = none from
    pointer_initial now projects members project] at h
  cases h

/-! ## A live row that is not succeeded -/

/-- A run of the plane, as one of the open plane. -/
def opened (ls : List PlaneMove) : List OpenMove :=
  ls.map fun
    | .spawn t => .spawn (.inl t)
    | .exec tid o => .exec tid o
    | .crash tid => .crash tid
    | .drift δ => .drift δ

/-- The refused cancel that writes its stale status back does so over the row that
went live meanwhile. -/
theorem live_row_reopened :
    ¬ Always (openHost ⟨none, false⟩).step (fun s => PointerSound s.world)
      (OpenSys.initial 0 oneProject fun _ _ => true)
      (opened (staleCancelRun ++ calls 2 1 refusing)) := by
  intro h
  have hlast := always_iff_prefixes.mp h _ [] (List.append_nil _).symm
  obtain ⟨⟨r, hr, _, _, hst, _⟩, _⟩ := hlast 0 0 (by decide)
  have hrunning : ((runFrom (openHost ⟨none, false⟩).step
      (OpenSys.initial 0 oneProject fun _ _ => true)
      (opened (staleCancelRun ++ calls 2 1 refusing))).world.row 0).map (·.status) =
        some .running := by decide
  rw [hr, Option.map_some, hst] at hrunning
  cases hrunning

end CloudWai.Deployment
