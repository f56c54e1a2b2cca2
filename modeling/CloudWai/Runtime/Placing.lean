import CloudWai.Runtime.Quiet
import CloudWai.Runtime.Writing

/-!
# Where a delivery builds

The executor builds on the application that the project has, or the preview, and
creates one where there is none. This module follows it through the calls that
are not quiet, once for all: `executeDeployment_keeps` says that a property of
installations is kept by every delivery if it is kept by quiet changes, by a new
application that is put in its place (`Founded`), and by a push of the variables
onto an application that is the delivery's to push to (`Owned`).

`Seated` is the bookkeeping behind it: every application on record exists, no two
projects share one, and no preview has a project's.
-/

namespace CloudWai.Runtime

open Base Queue Deployment ControlPlaneStore

variable {setup : Setup} {o : Outside} {w w' w'' : Estate}

/-- No application is of two projects, or of a project and a preview. -/
structure Seated (w : Estate) : Prop where
  named : ∀ p id, w.appOf p = some id → (w.runtime.apps.find id).isSome
  apart : ∀ p q id, w.appOf p = some id → w.appOf q = some id → p = q
  previewNamed : ∀ t id, previewSeat w.store t = some id → (w.runtime.apps.find id).isSome
  previewApart : ∀ p t id, w.appOf p = some id → previewSeat w.store t ≠ some id

/-- Nobody moves, and no application goes away. -/
theorem seated_of (h : Seated w) (happOf : w'.appOf = w.appOf)
    (hpreview : previewSeat w'.store = previewSeat w.store)
    (hexists : ∀ id, (w.runtime.apps.find id).isSome → (w'.runtime.apps.find id).isSome) :
    Seated w' := by
  refine ⟨?_, ?_, ?_, ?_⟩
  · rw [happOf]
    exact fun p id hp => hexists id (h.named p id hp)
  · rw [happOf]
    exact h.apart
  · rw [hpreview]
    exact fun t id ht => hexists id (h.previewNamed t id ht)
  · rw [happOf, hpreview]
    exact h.previewApart

/-- Related applications are there or not together. -/
theorem isSome_of_rel {R : App → App → Prop} {x y : Option App} (h : Option.Rel R x y)
    (hx : x.isSome) : y.isSome := by
  cases h with
  | none => exact hx
  | some _ => rfl

theorem seated_quiet (h : Seated w) (hq : Quiet w w') : Seated w' :=
  seated_of h hq.appOf hq.previewSeat fun id => isSome_of_rel (hq.runtime.apps id)

/-- A write changes nothing about who has which application. -/
theorem Writes.appOf {P : String → String → Prop} {id : String} (h : Writes P id w w') :
    w'.appOf = w.appOf :=
  appOf_of_seat (congrArg (fun plane : World => seat plane.store) h.plane)

theorem seated_writes {P : String → String → Prop} {id : String} (h : Seated w)
    (hwrites : Writes P id w w') : Seated w' := by
  have hstore : w'.store = w.store := congrArg World.store hwrites.plane
  refine seated_of h hwrites.appOf (congrArg previewSeat hstore) fun i hi => ?_
  by_cases hne : i = id
  · subst hne
    exact isSome_of_rel hwrites.runtime.app hi
  · rw [hwrites.runtime.others i hne]
    exact hi

/-! ## A new application -/

/-- `w'` is `w` with a new application that nobody had, with nothing on it. It is
the project's if the delivery is for production and the project had none, or a
preview's if it is for one, or nobody's. -/
structure Founded (input : ExecuteDeploymentInput) (w w' : Estate) (id : String) : Prop where
  proper : id ≠ ""
  fresh : w.runtime.apps.find id = none
  blank : ∃ app, w'.runtime.apps.find id = some app ∧ app.env = Table.empty ∧ app.domains = [] ∧
    app.container = none
  others : ∀ i, i ≠ id → w'.runtime.apps.find i = w.runtime.apps.find i
  starts : w'.runtime.starts = w.runtime.starts
  appOf : ∀ p, w'.appOf p = w.appOf p ∨
    input.preview = none ∧ p = input.projectId ∧ w.appOf p = none ∧ w'.appOf p = some id
  previewSeat : ∀ t, previewSeat w'.store t = previewSeat w.store t ∨
    input.preview ≠ none ∧ previewSeat w'.store t = some id
  orgs : ∀ p, (seat w'.store p).map Prod.fst = (seat w.store p).map Prod.fst
  members : w'.store.members = w.store.members
  environments : w'.environments = w.environments
  vars : w'.vars = w.vars
  domains : w'.domains = w.domains
  edge : w'.edge = w.edge
  saved : w'.saved = w.saved
  removed : w'.removed = w.removed

/-- A new application is seated where its input says, and at no other place. -/
theorem seated_founded {input : ExecuteDeploymentInput} {id : String} (h : Seated w)
    (hf : Founded input w w' id) : Seated w' := by
  -- the new application's id was free, so it is none of those there
  have hthere : ∀ {i : String}, (w.runtime.apps.find i).isSome →
      (w'.runtime.apps.find i).isSome ∧ i ≠ id := by
    intro i hi
    have hne : i ≠ id := by
      rintro rfl
      rw [hf.fresh] at hi
      cases hi
    rw [hf.others i hne]
    exact ⟨hi, hne⟩
  have hhere : (w'.runtime.apps.find id).isSome := by
    obtain ⟨app, happ, _⟩ := hf.blank
    rw [happ]
    rfl
  refine ⟨?_, ?_, ?_, ?_⟩
  · intro p i hp
    -- a seat that is taken now was taken before, or is the new one
    rcases hf.appOf p with hold | ⟨_, _, _, hnew⟩
    · exact (hthere (h.named p i (hold ▸ hp))).1
    · rw [← Option.some.inj (hnew.symm.trans hp)]
      exact hhere
  · intro p q i hp hq
    rcases hf.appOf p with holdp | ⟨_, rfl, _, hnewp⟩
    · rcases hf.appOf q with holdq | ⟨_, _, _, hnewq⟩
      · exact h.apart p q i (holdp ▸ hp) (holdq ▸ hq)
      · have hne := (hthere (h.named p i (holdp ▸ hp))).2
        exact absurd (Option.some.inj (hq.symm.trans hnewq)) hne
    · rcases hf.appOf q with holdq | ⟨_, rfl, _, _⟩
      · have hne := (hthere (h.named q i (holdq ▸ hq))).2
        exact absurd (Option.some.inj (hp.symm.trans hnewp)) hne
      · rfl
  · intro t i ht
    rcases hf.previewSeat t with hold | ⟨_, hnew⟩
    · exact (hthere (h.previewNamed t i (hold ▸ ht))).1
    · rw [← Option.some.inj (hnew.symm.trans ht)]
      exact hhere
  · intro p t i hp ht
    rcases hf.appOf p with holdp | ⟨hprod, _, _, hnewp⟩
    · rcases hf.previewSeat t with hold | ⟨_, hnew⟩
      · exact h.previewApart p t i (holdp ▸ hp) (hold ▸ ht)
      · have hne := (hthere (h.named p i (holdp ▸ hp))).2
        exact hne (Option.some.inj (ht.symm.trans hnew))
    · rcases hf.previewSeat t with hold | ⟨hprev, _⟩
      · have hne := (hthere (h.previewNamed t i (hold ▸ ht))).2
        exact hne (Option.some.inj (hp.symm.trans hnewp))
      · exact hprev hprod

/-! ## The application of a delivery -/

/-- What the tables say of the application a delivery is to build on. -/
def Resolved (input : ExecuteDeploymentInput) (w : Estate) : Option ProviderRef → Prop
  | some ref =>
    match input.preview with
    | none => w.appOf input.projectId = some ref.resourceId
    | some _ => ∃ t, previewSeat w.store t = some ref.resourceId
  | none => input.preview = none →
      ∀ app, seat w.store input.projectId = some (input.organizationId, app) → app = none

/-- If it is a project's at all, it is the production application of the project
that is being deployed to production. -/
def Owned (input : ExecuteDeploymentInput) (w : Estate) (ref : ProviderRef) : Prop :=
  ∀ p, w.appOf p = some ref.resourceId → input.preview = none ∧ p = input.projectId

theorem resolved_quiet {input : ExecuteDeploymentInput} {application : Option ProviderRef}
    (h : Resolved input w application) (hq : Quiet w w') : Resolved input w' application := by
  unfold Resolved at h ⊢
  rw [hq.appOf, hq.seat, hq.previewSeat]
  exact h

theorem owned_of_resolved {input : ExecuteDeploymentInput} {ref : ProviderRef} (hw : Seated w)
    (h : Resolved input w (some ref)) : Owned input w ref := by
  intro p hp
  unfold Resolved at h
  cases hpreview : input.preview with
  | none =>
    rw [hpreview] at h
    exact ⟨rfl, hw.apart p input.projectId _ hp h⟩
  | some key =>
    rw [hpreview] at h
    obtain ⟨t, ht⟩ := h
    exact absurd ht (hw.previewApart p t _ hp)

theorem applicationRef_eq_some {org : OrganizationId} {provider resource : Option String}
    {ref : ProviderRef} (h : applicationRef org provider resource = some ref) :
    given resource = some ref.resourceId := by
  unfold applicationRef at h
  obtain ⟨id, hid, rfl⟩ := Option.map_eq_some_iff.mp h
  exact hid

theorem applicationRef_eq_none {org : OrganizationId} {provider resource : Option String} :
    applicationRef org provider resource = none ↔ given resource = none := by
  unfold applicationRef
  exact Option.map_eq_none_iff

/-! ## Creating one -/

/-- `s'` has one application more, as it is created. -/
def Created (s s' : State) (id : String) : Prop :=
  id ≠ "" ∧ s.apps.find id = none ∧ ∃ body : CreateAppBody, s' = s.put (body.app id)

theorem createApp_cases (id : String) (body : CreateAppBody) (s : State) :
    (∃ code message, s.createApp id body = (.refuse code message, s)) ∨
      ∃ s', s.createApp id body = (.accept 201 id, s') ∧ Created s s' id := by
  unfold State.createApp
  split
  · exact .inl ⟨_, _, rfl⟩
  split
  · exact .inl ⟨_, _, rfl⟩
  split
  · exact .inl ⟨_, _, rfl⟩
  split
  · exact .inl ⟨_, _, rfl⟩
  next h =>
    simp only [Bool.or_eq_true, beq_iff_eq, not_or, Bool.not_eq_true, Option.isSome_eq_false_iff,
      Option.isNone_iff_eq_none] at h
    exact .inr ⟨_, rfl, h.1, h.2, body, rfl⟩

/-- The adapter's method: an application was created, or nothing happened; and if
it says so, one was. -/
theorem createApplication_cases (ctx : AdapterContext) (input : CreateApplicationInput)
    (s : State) :
    let a := SelfHosted.createApplication setup o ctx input s
    (a.2 = s ∨ Created s a.2 o.appId) ∧
      ∀ status ref, a.1 = .ok status ref → ref.resourceId = o.appId ∧ Created s a.2 o.appId := by
  intro a
  simp only [a, SelfHosted.createApplication]
  split
  · exact ⟨.inl rfl, fun _ _ h => by cases h⟩
  generalize hbody : CreateAppBody.mk _ _ _ _ _ = body
  constructor
  -- the request was carried out or not, and its answer may be lost either way
  · rcases (@call_state setup o ctx) "POST" "/apps"
      (State.createApp o.appId body) s with hs | hs
    · exact .inl hs
    · rw [hs]
      rcases createApp_cases o.appId body s with ⟨_, _, hr⟩ | ⟨s', hr, hcreated⟩
      · exact .inl (by rw [hr])
      · rw [hr]
        exact .inr hcreated
  -- but a success says that it was
  · intro status ref h
    cases hcall : (call setup o ctx "POST" "/apps" (State.createApp o.appId body) s).1 with
    | err st reason =>
      rw [hcall] at h
      cases h
    | ok st id =>
      rw [hcall] at h
      obtain ⟨code, hroute⟩ := call_ok hcall
      rcases createApp_cases o.appId body s with ⟨_, _, hr⟩ | ⟨s', hr, hcreated⟩
      · rw [hr] at hroute
        cases hroute
      · rw [hr] at hroute
        obtain ⟨hreply, hstate⟩ := Prod.mk.inj hroute
        cases hreply
        cases h
        exact ⟨rfl, hstate ▸ hcreated⟩

/-- An application that nobody is told of. -/
theorem founded_created {input : ExecuteDeploymentInput} {s' : State} {id : String}
    (h : Created w.runtime s' id) : Founded input w { w with runtime := s' } id := by
  obtain ⟨hid, hfresh, body, rfl⟩ := h
  refine ⟨hid, hfresh, ⟨body.app id, ?_, rfl, rfl, rfl⟩, fun i hi => ?_, rfl, fun _ => .inl rfl,
    fun _ => .inl rfl, fun _ => rfl, rfl, rfl, rfl, rfl, rfl, rfl, rfl⟩
  · exact (Table.find_put _ _ _).trans (if_pos rfl)
  · exact (Table.find_put _ _ _).trans (if_neg hi)

/-- Nobody had an application that is new. -/
theorem owned_of_founded {input : ExecuteDeploymentInput} {ref : ProviderRef} (h : Seated w)
    (hf : Founded input w w' ref.resourceId) : Owned input w' ref := by
  intro p hp
  rcases hf.appOf p with hold | ⟨hproduction, hproject, _⟩
  · have hthere := h.named p _ (hold ▸ hp)
    rw [hf.fresh] at hthere
    cases hthere
  · exact ⟨hproduction, hproject⟩

/-- The one row of a project that the patch finds. -/
theorem seat_patched (now : Instant) (away : Elsewhere) (s : Store) (org : OrganizationId)
    (project : ProjectId) (provider resource : String) (p : ProjectId) :
    let s' := (StoreCall.run now away s (.patchProjectProvider org project provider resource)).2
    seat s' p = seat s p ∨
      p = project ∧ (∃ app, seat s p = some (org, app)) ∧
        seat s' p = some (org, given (some resource)) := by
  simp only [StoreCall.run]
  unfold seat
  simp only [Table.find_update, Option.map_map]
  cases hp : s.projects.find p with
  | none => exact .inl rfl
  | some r =>
    have hkey : r.id = p := (Table.mem_of_find hp).2
    simp only [Option.map_some, Function.comp_apply, Table.Edit.on]
    split
    next hhit =>
      simp only [Bool.and_eq_true, beq_iff_eq] at hhit
      right
      rw [← hhit.2]
      exact ⟨hkey.symm.trans hhit.1, ⟨_, rfl⟩, rfl⟩
    next => exact .inl rfl

theorem previewSeat_patched (now : Instant) (away : Elsewhere) (s : Store) (org : OrganizationId)
    (project : ProjectId) (key provider resource : String) (t : Nat) :
    let s' := (StoreCall.run now away s
      (.patchPreviewTarget org project key provider resource)).2
    previewSeat s' t = previewSeat s t ∨ previewSeat s' t = given (some resource) := by
  simp only [StoreCall.run]
  unfold previewSeat
  simp only [Table.find_update]
  cases s.previewTargets.find t with
  | none => exact .inl rfl
  | some r =>
    simp only [Option.map_some, Option.bind_some, Table.Edit.on]
    split
    · exact .inr rfl
    · exact .inl rfl

/-! ## The rule -/

/-- What keeps `K`, as far as a delivery goes. -/
structure Keeps (setup : Setup) (o : Outside) (input : ExecuteDeploymentInput)
    (K : Estate → Prop) : Prop where
  quiet : ∀ w w', Seated w → K w → Quiet w w' → K w'
  founded : input.action = .create → ∀ w w' id, Seated w → K w → Founded input w w' id → K w'
  synced : ∀ w ref environment, Seated w → K w → input.environmentId = some environment →
    Owned input w ref → K (syncEnvVars setup o input.ctx ref input.projectId environment w)

section Rule

variable {input : ExecuteDeploymentInput} {K : Estate → Prop} {α : Type}

/-- A read is answered from the tables as they are. -/
theorem ends_read {β : Type} {op : String} {c : StoreCall} {a : c.Ans} {f : c.Ans → PlaneProg β}
    {Q : Except String β → Estate → Prop}
    (h : c.run w.plane.now (w.away o c) w.store = (.ok a, w.store))
    (hf : (f a).Ends (Estate.perform setup o) Q w) :
    ((Deployment.must op c).bind f).Ends (Estate.perform setup o) Q w := by
  refine Prog.ends_await ?_
  simp only [Estate.perform, h]
  exact hf

/-- The executor finds the application of its project, or of its preview. -/
theorem ends_resolveApplication (w : Estate) {target : Option ProjectDeploymentTarget}
    (htarget : target = w.targetForService input.organizationId input.projectId) :
    (resolveApplication input target).Ends (Estate.perform setup o)
      (fun r w' => w' = w ∧ ∀ x, r = .ok x → Resolved input w x.2) w := by
  unfold resolveApplication
  cases hpreview : input.preview with
  -- a preview's application is found by the target's row
  | some key =>
    refine ends_read rfl (Prog.ends_ret ⟨rfl, ?_⟩)
    rintro x hx
    cases hx
    simp only
    generalize hrow : w.store.previewTargets.rows.find? _ = t
    cases happ : (t.bind fun t =>
        applicationRef input.organizationId t.provider t.providerResourceId) with
    | none =>
      intro hnone
      rw [hpreview] at hnone
      cases hnone
    | some ref =>
      obtain ⟨row, rfl, href⟩ := Option.bind_eq_some_iff.mp happ
      unfold Resolved
      rw [hpreview]
      have hmem := List.mem_of_find?_eq_some hrow
      refine ⟨row.id, ?_⟩
      unfold previewSeat
      rw [Table.find_eq_some.mpr ⟨hmem, rfl⟩]
      exact applicationRef_eq_some href
  -- a project's own application is the one its row names
  | none =>
    refine Prog.ends_ret ⟨rfl, ?_⟩
    rintro x hx
    cases hx
    subst htarget
    unfold Resolved Estate.appOf seat Estate.targetForService
    cases hrow : w.store.projects.find input.projectId with
    | none =>
      have hproject : w.store.project input.organizationId input.projectId = none := by
        unfold Store.project
        rw [hrow]
        rfl
      rw [hproject]
      intro _ app happ
      cases happ
    | some r =>
      by_cases horg : r.organizationId = input.organizationId
      · have hproject := project_eq_some.mpr ⟨hrow, horg⟩
        rw [hproject]
        simp only [Option.map_some, Option.bind_some]
        cases happ : applicationRef input.organizationId (ProjectRow.target r).provider
            (ProjectRow.target r).providerResourceId with
        | none =>
          intro _ app hseat
          rw [← (Prod.mk.inj (Option.some.inj hseat)).2]
          exact applicationRef_eq_none.mp happ
        | some ref =>
          simp only [hpreview]
          exact applicationRef_eq_some happ
      -- a project of another organization is not found
      · have hproject : w.store.project input.organizationId input.projectId = none := by
          unfold Store.project
          rw [hrow]
          simp [horg]
        rw [hproject]
        intro _ app hseat
        exact absurd (Prod.mk.inj (Option.some.inj hseat)).1 horg

/-- The answer of `patchProjectProvider` and `patchPreviewTarget` is not looked at. -/
theorem ends_rememberApplication {s' : State} {ref : ProviderRef}
    (h : Created w.runtime s' ref.resourceId) (hnone : Resolved input w none) :
    (rememberApplication input ref).Ends (Estate.perform setup o)
      (fun _ w' => Founded input w w' ref.resourceId) { w with runtime := s' } := by
  have hf := (@founded_created _ input) h
  -- the new id is not empty, so it counts as given
  have hid : given (some ref.resourceId) = some ref.resourceId := by
    unfold given truthy
    simp [h.1]
  unfold rememberApplication
  cases hpreview : input.preview with
  -- the preview target's row takes it
  | some key =>
    refine ⟨hf.proper, hf.fresh, hf.blank, hf.others, hf.starts, fun _ => .inl rfl, ?_,
      fun _ => rfl, rfl, rfl, rfl, rfl, rfl, rfl, rfl⟩
    intro t
    rcases previewSeat_patched w.plane.now (w.away o (.patchPreviewTarget input.organizationId
      input.projectId key ref.provider ref.resourceId)) w.store input.organizationId
      input.projectId key ref.provider ref.resourceId t with hsame | hnew
    · exact .inl hsame
    · refine .inr ⟨?_, hnew.trans hid⟩
      rw [hpreview]
      exact Option.some_ne_none key
  -- or the project's
  | none =>
    have hpatched := seat_patched w.plane.now (w.away o (.patchProjectProvider
      input.organizationId input.projectId ref.provider ref.resourceId)) w.store
      input.organizationId input.projectId ref.provider ref.resourceId
    refine ⟨hf.proper, hf.fresh, hf.blank, hf.others, hf.starts, fun p => ?_, fun _ => .inl rfl,
      fun p => ?_, rfl, rfl, rfl, rfl, rfl, rfl, rfl⟩
    · unfold Estate.appOf
      rcases hpatched p with hsame | ⟨rfl, ⟨app, hseat⟩, hnew⟩
      · exact .inl (congrArg (Option.bind · _) hsame)
      · refine .inr ⟨hpreview, rfl, ?_, ?_⟩
        · rw [hseat, hnone hpreview app hseat]
          rfl
        · exact (congrArg (Option.bind · _) hnew).trans hid
    · rcases hpatched p with hsame | ⟨rfl, ⟨app, hseat⟩, hnew⟩
      · exact congrArg (Option.map _) hsame
      · have horg := congrArg (Option.map Prod.fst) hseat
        exact (congrArg (Option.map Prod.fst) hnew).trans horg.symm

section Keeps

variable (hK : Keeps setup o input K)
include hK

theorem keeps_quiet (hw : Seated w) (hk : K w) (hq : Quiet w w') : Seated w' ∧ K w' :=
  ⟨seated_quiet hw hq, hK.quiet w w' hw hk hq⟩

theorem keeps_routine {p : PlaneProg α} (hp : p.Only (Routine input.deploymentId)) (hw : Seated w)
    (hk : K w) : p.Ends (Estate.perform setup o) (fun _ w' => Seated w' ∧ K w') w :=
  Prog.ends_mono (fun _ _ hq => keeps_quiet hK hw hk hq) (ends_routine hp w)

/-- Creating an application and recording it, in whatever words. -/
theorem keeps_created (hcreate : input.action = .create) (target : CreateApplicationInput)
    (hresolved : Resolved input w none) (hw : Seated w) (hk : K w) :
    Prog.Ends (Estate.perform setup o)
      (fun (r : Except String (Except DeploymentExecutionResult ProviderRef)) w' =>
        (Seated w' ∧ K w') ∧ ∀ ref, r = .ok (.ok ref) → Owned input w' ref)
      ((show PlaneProg (AdapterResult ProviderRef) from
          onEngine input.deploymentId (.createApplication input.ctx target)).bind fun
        | .err status reason => .ret (.error (.refused status none reason))
        | .ok _ application =>
          (rememberApplication input application).bind fun _ => .ret (.ok application)) w := by
  refine Prog.ends_await ?_
  simp only [Estate.perform, Estate.engine, Estate.onRuntime, Prog.bind]
  obtain ⟨hstate, hok⟩ := @createApplication_cases setup o input.ctx target w.runtime
  generalize SelfHosted.createApplication setup o input.ctx target w.runtime = a at hstate hok ⊢
  obtain ⟨answer, s'⟩ := a
  cases answer with
  | err status reason =>
    refine Prog.ends_ret ⟨?_, fun ref h => by cases h⟩
    rcases hstate with rfl | hcreated
    · exact ⟨hw, hk⟩
    · -- the application is there, but its answer never came
      have hf := (@founded_created _ input) hcreated
      exact ⟨seated_founded hw hf, hK.founded hcreate _ _ _ hw hk hf⟩
  | ok status ref =>
    obtain ⟨hid, hcreated⟩ := hok status ref rfl
    rw [← hid] at hcreated
    refine Prog.ends_bind (ends_rememberApplication hcreated hresolved) ?_ ?_
    · intro _ w' hf
      refine Prog.ends_ret ⟨⟨seated_founded hw hf, hK.founded hcreate _ _ _ hw hk hf⟩, ?_⟩
      intro ref' h
      cases h
      exact owned_of_founded hw hf
    · intro e w' hf
      exact ⟨⟨seated_founded hw hf, hK.founded hcreate _ _ _ hw hk hf⟩, fun ref h => by cases h⟩

theorem keeps_ensureApplication (hcreate : input.action = .create) (model : ExecutionModel)
    (rootDirectory : Option String) {application : Option ProviderRef}
    (hresolved : Resolved input w application) (hw : Seated w) (hk : K w) :
    (ensureApplication (deploymentEngineFor setup.engines input.deploymentId model) input
      rootDirectory application).Ends (Estate.perform setup o)
      (fun r w' => (Seated w' ∧ K w') ∧ ∀ ref, r = .ok (.ok ref) → Owned input w' ref) w := by
  cases application with
  | some ref =>
    refine Prog.ends_ret ⟨⟨hw, hk⟩, ?_⟩
    intro ref' h
    cases h
    exact owned_of_resolved hw hresolved
  | none =>
    cases model with
    | serverless => exact ⟨⟨hw, hk⟩, fun ref h => by cases h⟩
    | container =>
      unfold ensureApplication
      exact keeps_created hK hcreate _ hresolved hw hk

/-- A push that never comes to be leaves things as they are. -/
theorem keeps_syncEnvironment (model : ExecutionModel) {ref : ProviderRef}
    (howned : Owned input w ref) (hw : Seated w) (hk : K w) :
    (syncEnvironment setup.engines model input ref).Ends (Estate.perform setup o)
      (fun _ w' => Seated w' ∧ K w') w := by
  unfold syncEnvironment
  cases setup.engines.envVars with
  | false => exact ⟨hw, hk⟩
  | true =>
    cases model with
    | serverless => exact ⟨hw, hk⟩
    | container =>
      cases henv : input.environmentId with
      | none => exact ⟨hw, hk⟩
      | some environment =>
        have hwrites := @syncEnvVars_writes setup o (fun _ _ => True) w input.ctx ref input.projectId environment fun _ _ _ _ _ => trivial
        exact ⟨seated_writes hw hwrites, hK.synced w ref environment hw hk henv howned⟩

theorem keeps_create (hcreate : input.action = .create) (model : ExecutionModel)
    (rootDirectory : Option String) {application : Option ProviderRef}
    (hresolved : Resolved input w application) (hw : Seated w) (hk : K w) :
    (create setup.engines (deploymentEngineFor setup.engines input.deploymentId model) input
      rootDirectory application).Ends (Estate.perform setup o) (fun _ w' => Seated w' ∧ K w') w := by
  refine Prog.ends_bind (keeps_ensureApplication hK hcreate model rootDirectory hresolved hw hk)
    ?_ ?_
  · rintro answer w₁ ⟨⟨hw₁, hk₁⟩, howned⟩
    cases answer with
    | error refused => exact ⟨hw₁, hk₁⟩
    | ok ref =>
      refine Prog.ends_bind (keeps_syncEnvironment hK _ (howned ref rfl) hw₁ hk₁) ?_ ?_
      · rintro _ w₂ ⟨hw₂, hk₂⟩
        exact keeps_routine hK (only_build setup.engines model _ rootDirectory ref) hw₂ hk₂
      · exact fun _ _ h => h
  · exact fun _ _ h => h.1

/-- **The executor.** -/
theorem keeps_executeDeployment (hw : Seated w) (hk : K w) :
    (executeDeployment setup.engines input).Ends (Estate.perform setup o)
      (fun _ w' => Seated w' ∧ K w') w := by
  refine ends_read rfl ?_
  refine Prog.ends_bind (ends_resolveApplication w rfl) ?_ ?_
  · rintro ⟨model, application⟩ w₁ ⟨rfl, hresolved⟩
    refine Prog.ends_bind (ends_routine (only_resume setup.engines model application) w₁) ?_ ?_
    · intro resumed w₂ hq
      have hkeep := keeps_quiet hK hw hk hq
      cases resumed with
      | some result => exact hkeep
      | none =>
        simp only
        split
        · exact keeps_routine hK (only_rollback setup.engines model application) hkeep.1 hkeep.2
        next hcreate =>
          exact keeps_create hK hcreate model _ (resolved_quiet (hresolved _ rfl) hq)
            hkeep.1 hkeep.2
    · exact fun _ _ hq => keeps_quiet hK hw hk hq
  · rintro e w₁ ⟨rfl, _⟩
    exact ⟨hw, hk⟩

end Keeps

end Rule

/-- **A delivery**, whatever its job is for. -/
theorem keeps_delivery {K : Estate → Prop} {options : WorkerOptions}
    {job : Job DeploymentJobPayload}
    (hK : ∀ ctx, Keeps setup o (executeInput job.payload ctx) K) (hw : Seated w) (hk : K w) :
    (delivery setup options job).Ends (Estate.perform setup o) (fun _ w' => Seated w' ∧ K w') w := by
  have hroutine : ∀ {α : Type} {p : PlaneProg α} {w : Estate},
      p.Only (Routine job.payload.deploymentId) → Seated w ∧ K w →
      p.Ends (Estate.perform setup o) (fun _ w' => Seated w' ∧ K w') w := by
    intro α p w hp h
    exact keeps_routine (hK ⟨0, "", 0⟩) hp h.1 h.2
  unfold delivery InProcessWorker.deliver handlers
  by_cases hkind : job.kind = deploymentJobKind
  · simp only [hkind, if_true]
    refine Prog.ends_bind (Prog.ends_attempt (R := fun _ w' => Seated w' ∧ K w') ?_) ?_ ?_
    · refine Prog.ends_bind (keeps_executeDeployment (hK _) hw hk) ?_ ?_
      · exact fun _ _ h => h
      · exact fun _ _ h => h
    · intro outcome w₁ h₁
      cases outcome with
      | ok result => exact hroutine (only_finish options job result) h₁
      | error reason =>
        refine Prog.ends_bind (hroutine (only_fail _ _) h₁) ?_ ?_
        · exact fun _ _ h => hroutine (only_settle _ _ _) h
        · exact fun _ _ h => h
    · exact fun _ _ h => h
  · simp only [hkind, if_false]
    refine Prog.ends_bind (hroutine (only_terminate _ _) ⟨hw, hk⟩) ?_ ?_
    · exact fun _ _ h => hroutine (only_settle _ _ _) h
    · exact fun _ _ h => h

end CloudWai.Runtime
