import CloudWai.Runtime.Front

/-!
# What a call takes

The hostnames an application has are its valid domains and its default hostname. A `createApp`
gives it the first, `setDomains` both, and a run the second once the container is up. An
operation of an application that was destroyed meanwhile gives it nothing any more, but goes
on to make requests for what it lists.

What a call takes (`Front.Call.takes`) is read off the call and the state before it. `effect`
says that this is all there is to it: the other applications keep their hostnames, its own get
no others, and it lists no others for its requests.
-/

namespace CloudWai.Runtime

open Base Grammar Deployment

variable {config : Config} {f : Front} {o : Front.Luck} {c : Front.Call}

/-! ## What is taken -/

/-- The hostnames that the application of this id can be routed under. -/
def Front.hosts (f : Front) (id : String) : List String := ((f.app id).map routableHosts).getD []

/-- The application that a call is about. -/
def Front.Call.subject : Front.Call → String
  | .lookup id | .createApp id _ _ | .register id _ _ | .place id | .conclude id _ _
  | .rename id _ | .publishable id | .report id _ | .rollback id | .removeContainer id
  | .withdrawable id | .forget id => id
  | .send r => r.sender

/-- A body that an application is created for. -/
structure Creatable (f : Front) (id : String) (body : CreateAppBody) : Prop where
  name : body.name ≠ ""
  repository : truthy body.gitRepository = true → body.gitRepository.all isGitRepository = true
  branch : body.gitBranch.all isGitRef = true
  fresh : id ≠ "" ∧ id ∉ f.gone ∧ f.runtime.apps.find id = none

instance (id : String) (body : CreateAppBody) : Decidable (Creatable f id body) :=
  decidable_of_iff (body.name ≠ "" ∧
      (truthy body.gitRepository = true → body.gitRepository.all isGitRepository = true) ∧
      body.gitBranch.all isGitRef = true ∧ id ≠ "" ∧ id ∉ f.gone ∧
      f.runtime.apps.find id = none)
    ⟨fun ⟨h₁, h₂, h₃, h₄⟩ => ⟨h₁, h₂, h₃, h₄⟩, fun ⟨h₁, h₂, h₃, h₄⟩ => ⟨h₁, h₂, h₃, h₄⟩⟩

/-- The run gets as far as publishing the routes. -/
def Ready (outcome : Outcome) (app : App) : Prop :=
  outcome.docker = .started true ∧ ∃ payload ∈ source app,
    isGitRepository payload.repository = true ∧ (buildSource payload outcome).isOk = true

instance (outcome : Outcome) (app : App) : Decidable (Ready outcome app) :=
  inferInstanceAs (Decidable (_ ∧ ∃ payload ∈ source app, _))

/-- The hostnames that a call gives to its application. -/
def Front.Call.gives (config : Config) (f : Front) (o : Front.Luck) : Front.Call → List String
  | .createApp id body domains => if Creatable f id body then domains.filter isHostname else []
  | .place id =>
    ((f.runtime.apps.find id).map fun app =>
      if Ready o.outcome app then routableHosts (ensureDefaultHostname config app) else []).getD []
  | .rename id domains =>
    ((f.runtime.apps.find id).map fun app => routableHosts (renamed config domains app)).getD []
  | _ => []

/-- The hostnames it had before that are listed by a call. -/
def Front.Call.relists (f : Front) : Front.Call → List String
  | .rename id _ | .publishable id | .withdrawable id =>
    ((f.runtime.apps.find id).map routableHosts).getD []
  | _ => []

/-- What a call takes: if its application is gone, that is what it makes requests for. -/
def Front.Call.takes (config : Config) (f : Front) (o : Front.Luck) (c : Front.Call) :
    List String :=
  if c.subject ∈ f.gone then
    if config.routerConfigured then c.gives config f o ++ c.relists f else []
  else c.gives config f o

/-! ## What a call does -/

/-- The hosts that are asked for. -/
def Publication.hosts : Publication → List String
  | .ok (_, hosts) => hosts
  | .error _ => []

/-- The hostnames in the answer to a call, which the program goes on to make requests for. -/
def Front.Call.listed : (c : Front.Call) → Front.Ans c → List String
  | .place _, a => (a.map Publication.hosts).getD []
  | .rename .., a => a.1 ++ Publication.hosts a.2
  | .publishable _, a => Publication.hosts a
  | .withdrawable _, a => a
  | _, _ => []

/-- The application's hostnames come from what the call takes, and so do those it lists for
its requests. The other applications keep theirs. -/
structure Front.Effect (config : Config) (f : Front) (o : Front.Luck) (c : Front.Call) : Prop where
  others : ∀ j, j ≠ c.subject → (f.perform config o c).2.hosts j = f.hosts j
  mine : ∀ host ∈ (f.perform config o c).2.hosts c.subject,
    host ∈ c.takes config f o ∧ c.subject ∉ f.gone ∨ host ∈ f.hosts c.subject
  listed : ∀ host ∈ c.listed (f.perform config o c).1,
    host ∈ c.takes config f o ∨ host ∈ f.hosts c.subject

/-! ### Hostnames of a table -/

theorem app_eq_some {id : String} {app : App} : f.app id = some app ↔
    id ∉ f.gone ∧ f.runtime.apps.find id = some app := by
  unfold Front.app
  split
  next h => simp_all
  next h => simp_all

theorem app_of_not_gone {id : String} (h : id ∉ f.gone) : f.app id = f.runtime.apps.find id :=
  if_neg (by simpa using h)

theorem app_of_gone {id : String} (h : id ∈ f.gone) : f.app id = none := if_pos (by simpa using h)

theorem hosts_of_app {id : String} {app : App} (h : f.app id = some app) :
    f.hosts id = routableHosts app := by
  unfold Front.hosts
  rw [h]
  rfl

theorem hosts_of_gone {id : String} (h : id ∈ f.gone) : f.hosts id = [] := by
  unfold Front.hosts
  rw [app_of_gone h]
  rfl

theorem hosts_congr {f' : Front} (hgone : f'.gone = f.gone)
    (happs : f'.runtime.apps = f.runtime.apps) : f'.hosts = f.hosts := by
  funext j
  unfold Front.hosts Front.app
  rw [hgone, happs]

/-- An application is put into the table. -/
theorem hosts_put {f' : Front} {app : App} (hgone : f'.gone = f.gone)
    (happs : f'.runtime.apps = f.runtime.apps.put app) (j : String) :
    f'.hosts j = if j = app.id ∧ j ∉ f.gone then routableHosts app else f.hosts j := by
  unfold Front.hosts Front.app
  rw [hgone, happs, Table.find_put]
  by_cases hj : j ∈ f.gone
  · simp [hj]
  · by_cases hid : j = app.id
    · have hgone : ¬ app.id ∈ f.gone := hid ▸ hj
      simp [hid, hgone]
    · simp [hid]

theorem edit_apps {id : String} {change : App → App} :
    (f.edit id change).runtime.apps = f.runtime.apps ∧ f.runtime.apps.find id = none ∨
      ∃ app, f.runtime.apps.find id = some app ∧
        (f.edit id change).runtime.apps = f.runtime.apps.put (change app) := by
  unfold Front.edit
  split
  next h => exact .inl ⟨rfl, h⟩
  next app h => exact .inr ⟨app, h, rfl⟩

theorem edit_rest {id : String} {change : App → App} : (f.edit id change).gone = f.gone ∧
    (f.edit id change).router = f.router ∧ (f.edit id change).late = f.late := by
  unfold Front.edit
  split <;> exact ⟨rfl, rfl, rfl⟩

/-- A change of one application leaves the others, and decides its own hostnames. -/
theorem hosts_edit {f' : Front} {id : String} {change : App → App}
    (hid : ∀ app, (change app).id = app.id) (hgone : f'.gone = f.gone)
    (happs : f'.runtime.apps = (f.edit id change).runtime.apps) (j : String) :
    f'.hosts j = if j = id then ((f.app id).map fun app => routableHosts (change app)).getD []
      else f.hosts j := by
  rcases @edit_apps f id change with ⟨hsame, hnone⟩ | ⟨app, hfind, hput⟩
  · rw [hosts_congr hgone (happs.trans hsame)]
    split
    next h =>
      have happ : f.app id = none := by
        by_contra hne
        obtain ⟨app, happ⟩ := Option.ne_none_iff_exists'.mp hne
        rw [(app_eq_some.mp happ).2] at hnone
        cases hnone
      unfold Front.hosts
      rw [h, happ]
      rfl
    next => rfl
  · have hname : (change app).id = id := (hid app).trans (Table.mem_of_find hfind).2
    rw [hosts_put hgone (happs.trans hput), hname]
    by_cases hj : j = id
    · subst hj
      rw [if_pos rfl]
      by_cases hmem : j ∈ f.gone
      · rw [if_neg fun h => h.2 hmem, hosts_of_gone hmem, app_of_gone hmem]
        rfl
      · rw [if_pos ⟨rfl, hmem⟩, app_of_not_gone hmem, hfind]
        rfl
    · rw [if_neg fun h => hj h.1, if_neg hj]

/-- A change that is not of hostnames. -/
theorem hosts_edit_same {f' : Front} {id : String} {change : App → App}
    (hid : ∀ app, (change app).id = app.id)
    (hsame : ∀ app, routableHosts (change app) = routableHosts app) (hgone : f'.gone = f.gone)
    (happs : f'.runtime.apps = (f.edit id change).runtime.apps) : f'.hosts = f.hosts := by
  funext j
  rw [hosts_edit hid hgone happs]
  split
  next h =>
    simp only [hsame]
    rw [h]
    rfl
  next => rfl

/-! ### Hostnames of an application -/

theorem routableHosts_congr {app app' : App} (hdomains : app'.domains = app.domains)
    (hname : app'.defaultHostname = app.defaultHostname) :
    routableHosts app' = routableHosts app := by
  unfold routableHosts customerHosts
  rw [hdomains, hname]

theorem ensureDefaultHostname_congr {app app' : App} (hid : app'.id = app.id)
    (hname : app'.name = app.name) (hdefault : app'.defaultHostname = app.defaultHostname) :
    (ensureDefaultHostname config app').defaultHostname =
      (ensureDefaultHostname config app).defaultHostname := by
  have hlabel : defaultLabel app' = defaultLabel app := by
    unfold defaultLabel
    rw [hid, hname]
  unfold ensureDefaultHostname
  rw [hlabel, hdefault]
  split
  · exact hdefault
  · dsimp only
    split
    · rfl
    · exact hdefault

theorem ensureDefaultHostname_domains (app : App) :
    (ensureDefaultHostname config app).domains = app.domains := by
  unfold ensureDefaultHostname
  split
  · rfl
  · dsimp only
    split <;> rfl

theorem runContainer_hosts (start : Nat) (docker : Docker) (port : Nat) (app : App) (image : Image) :
    (runContainer start docker port app image).2.domains = app.domains ∧
      (runContainer start docker port app image).2.defaultHostname = app.defaultHostname := by
  unfold runContainer
  dsimp only
  split <;> exact ⟨rfl, rfl⟩

/-- A run that does not get to the routes fails, and leaves the hostnames. -/
theorem runDeploy_not_ready {outcome : Outcome} {app : App} (start : Nat)
    (h : ¬ Ready outcome app) :
    (runDeploy config start outcome app).status ≠ .succeeded ∧
      routableHosts (runDeploy config start outcome app) = routableHosts app := by
  unfold runDeploy
  split
  -- no source to build, no repository, no image: the run fails before any container
  · exact ⟨nofun, rfl⟩
  next payload hsource =>
  split
  · exact ⟨nofun, rfl⟩
  next hrepository =>
  split
  · exact ⟨nofun, rfl⟩
  next image himage =>
  -- a container that does not come up leaves the hostnames alone
  have hhosts := runContainer_hosts start outcome.docker outcome.port app image
  split
  next hrun =>
    rw [hrun] at hhosts
    exact ⟨nofun, routableHosts_congr hhosts.1 hhosts.2⟩
  next hrun =>
    rw [hrun] at hhosts
    exact ⟨nofun, routableHosts_congr hhosts.1 hhosts.2⟩
  -- and if one does, the run was ready
  next app' hrun =>
    refine absurd ⟨?_, payload, hsource, by simpa using hrepository, ?_⟩ h
    · unfold runContainer at hrun
      dsimp only at hrun
      split at hrun
      · cases hrun
      next running hdocker =>
        rw [hdocker]
        cases hrun
        rfl
    · rw [himage]
      rfl

/-- A run that does puts the routes of an application with its default hostname. -/
theorem runDeploy_ready {outcome : Outcome} {app : App} (start : Nat) (h : Ready outcome app) :
    routableHosts (runDeploy config start outcome app) =
      routableHosts (ensureDefaultHostname config app) := by
  obtain ⟨hdocker, payload, hsource, hrepository, hbuilt⟩ := h
  unfold runDeploy
  rw [hsource]
  dsimp only
  rw [if_neg (by rw [hrepository]; exact Bool.false_ne_true)]
  cases himage : buildSource payload outcome with
  | error reason =>
    rw [himage] at hbuilt
    cases hbuilt
  | ok image =>
    rw [hdocker]
    unfold runContainer
    dsimp only
    refine routableHosts_congr ?_ (ensureDefaultHostname_congr rfl rfl rfl)
    show (ensureDefaultHostname config _).domains = _
    rw [ensureDefaultHostname_domains, ensureDefaultHostname_domains]

/-! ### What is listed -/

theorem mem_publication {app : App} {host : String}
    (h : host ∈ Publication.hosts (publication config app)) :
    config.routerConfigured = true ∧ host ∈ routableHosts app := by
  unfold publication at h
  split at h
  next => cases h
  next hconfigured =>
    refine ⟨by simpa using hconfigured, ?_⟩
    split at h
    next => cases h
    next => exact h

theorem mem_dropped {domains : List String} {app : App} {host : String}
    (h : host ∈ dropped config domains app) :
    config.routerConfigured = true ∧ host ∈ customerHosts app := by
  unfold dropped at h
  split at h
  next hconfigured => exact ⟨hconfigured, List.mem_eraseDups.mp (List.mem_of_mem_filter h)⟩
  next => cases h

theorem customerHosts_subset {app : App} {host : String} (h : host ∈ customerHosts app) :
    host ∈ routableHosts app := by
  unfold routableHosts
  split
  · split
    · exact List.mem_append_left _ h
    · exact h
  · exact h

theorem takes_of_live (h : c.subject ∉ f.gone) : c.takes config f o = c.gives config f o := if_neg h

/-- With a router, a call takes what it gives. -/
theorem mem_takes {host : String} (hconfigured : config.routerConfigured = true)
    (h : host ∈ c.gives config f o) : host ∈ c.takes config f o := by
  unfold Front.Call.takes
  rw [if_pos hconfigured]
  split
  · exact List.mem_append_left _ h
  · exact h

/-- What the application had before is its own, or taken anew. -/
theorem mem_relists {host : String} (hconfigured : config.routerConfigured = true)
    (h : host ∈ c.relists f) : host ∈ c.takes config f o ∨ host ∈ f.hosts c.subject := by
  by_cases hgone : c.subject ∈ f.gone
  · left
    unfold Front.Call.takes
    rw [if_pos hgone, if_pos hconfigured]
    exact List.mem_append_right _ h
  · right
    have happ := app_of_not_gone hgone
    unfold Front.hosts
    rw [happ]
    cases c <;> first | exact h | cases h

/-! ### Each call -/

/-- A call that leaves the hostnames alone. -/
theorem effect_same (hhosts : (f.perform config o c).2.hosts = f.hosts)
    (hlisted : ∀ host ∈ c.listed (f.perform config o c).1,
      config.routerConfigured = true ∧ host ∈ c.relists f) : f.Effect config o c where
  others j _ := by rw [hhosts]
  mine host h := .inr (by rwa [hhosts] at h)
  listed host h := mem_relists (hlisted host h).1 (hlisted host h).2

/-- `createApp` refuses, or makes the application. -/
theorem createApp_eq {id : String} {body : CreateAppBody} (hgone : id ∉ f.gone) :
    (∃ code message, f.runtime.createApp id body = (.refuse code message, f.runtime)) ∧
        ¬ Creatable f id body ∨
      f.runtime.createApp id body = (.accept 201 id, f.runtime.put (body.app id)) ∧
        Creatable f id body := by
  unfold State.createApp
  split
  -- each refusal of the route is one of the conditions
  next hname => exact .inl ⟨⟨_, _, rfl⟩, fun h => h.name (by simpa using hname)⟩
  next hname =>
  split
  next hrepository =>
    refine .inl ⟨⟨_, _, rfl⟩, fun h => ?_⟩
    rw [Bool.and_eq_true, Bool.not_eq_true'] at hrepository
    rw [h.repository hrepository.1] at hrepository
    cases hrepository.2
  next hrepository =>
  split
  next hbranch =>
    refine .inl ⟨⟨_, _, rfl⟩, fun h => ?_⟩
    rw [h.branch] at hbranch
    cases hbranch
  next hbranch =>
  split
  next hfresh =>
    refine .inl ⟨⟨_, _, rfl⟩, fun h => ?_⟩
    rw [Bool.or_eq_true, beq_iff_eq] at hfresh
    rcases hfresh with hempty | hsome
    · exact h.fresh.1 hempty
    · rw [h.fresh.2.2] at hsome
      cases hsome
  next hfresh =>
    rw [Bool.or_eq_true, not_or, beq_iff_eq, Bool.not_eq_true, Option.isSome_eq_false_iff,
      Option.isNone_iff_eq_none] at hfresh
    refine .inr ⟨rfl, by simpa using hname, fun h => ?_, by simpa using hbranch, hfresh.1, hgone,
      hfresh.2⟩
    simpa [h] using hrepository

theorem createAppWith_state {id : String} {body : CreateAppBody} {domains : List String}
    (hgone : id ∉ f.gone) : (f.runtime.createAppWith id body domains).2 =
      if Creatable f id body then
        f.runtime.put { body.app id with domains := domains.filter isHostname }
      else f.runtime := by
  unfold State.createAppWith
  rcases @createApp_eq f _ body hgone with
    ⟨⟨code, message, hrefused⟩, hnot⟩ | ⟨haccepted, hcreate⟩
  · rw [hrefused, if_neg hnot]
  · rw [haccepted, if_pos hcreate]

/-- A new application has what is valid of its domains. -/
theorem effect_createApp (id : String) (body : CreateAppBody) (domains : List String) :
    f.Effect config o (.createApp id body domains) := by
  by_cases hcreate : Creatable f id body
  · have hgone : id ∉ f.gone := hcreate.fresh.2.1
    have hhosts : ∀ j, (f.perform config o (.createApp id body domains)).2.hosts j =
        if j = id ∧ j ∉ f.gone then domains.filter isHostname else f.hosts j := by
      -- the application has what is valid of the domains it was made with
      intro j
      have hrouted : routableHosts { body.app id with domains := domains.filter isHostname } =
          domains.filter isHostname := by
        show (domains.filter isHostname).filter isHostname = _
        rw [List.filter_filter]
        simp
      rw [← hrouted]
      refine @hosts_put f _ { body.app id with domains := domains.filter isHostname } ?_ ?_ j
      · show Front.gone (if _ then _ else _) = _
        split <;> rfl
      · show (State.apps (Front.runtime (if _ then _ else _))) = _
        rw [if_neg (by simpa using hgone), createAppWith_state hgone, if_pos hcreate]
        rfl
    refine ⟨fun j hj => ?_, fun host h => .inl ⟨?_, hgone⟩, nofun⟩
    · rw [hhosts, if_neg fun h => hj h.1]
    · rw [hhosts, if_pos ⟨rfl, hgone⟩] at h
      rw [takes_of_live (c := .createApp id body domains) hgone]
      show host ∈ if _ then _ else _
      rwa [if_pos hcreate]
  -- a request that is refused, or of an application that is gone
  · refine effect_same ?_ nofun
    have hstep : (f.perform config o (.createApp id body domains)).2 = f := by
      show (if _ then _ else _) = _
      split
      next => rfl
      next hgone =>
        rw [createAppWith_state (by simpa using hgone), if_neg hcreate]
    rw [hstep]

theorem effect_register (id attempt : String) (row : DeploymentId) :
    f.Effect config o (.register id attempt row) := by
  refine effect_same (@hosts_edit_same f _ id (fun app => { app with
    status := .running
    engineReason := none
    attempts := recordAttempt ⟨attempt, .running, none, none⟩ app.attempts })
    (fun _ => rfl) (fun _ => rfl) rfl ?_) nofun
  show (State.route id _ f.runtime).2.apps = _
  unfold State.route Front.edit
  cases f.runtime.apps.find id <;> rfl

/-- A rollback changes no hostname. -/
theorem effect_rollback (id : String) : f.Effect config o (.rollback id) := by
  refine effect_same ?_ nofun
  -- the container is another one, and the hostnames are the same
  have hput : (f.runtime.rollback o.docker o.port id).2.apps = f.runtime.apps ∨
      ∃ app app', f.runtime.apps.find id = some app ∧
        (f.runtime.rollback o.docker o.port id).2.apps = f.runtime.apps.put app' ∧
          app'.id = app.id ∧ routableHosts app' = routableHosts app := by
    unfold State.rollback State.route
    cases happ : f.runtime.apps.find id with
    | none => exact .inl rfl
    | some app =>
      dsimp only
      split
      · exact .inl rfl
      next target _ =>
        have hid := runContainer_id f.runtime.starts o.docker o.port app target
        have hhosts := runContainer_hosts f.runtime.starts o.docker o.port app target
        right
        split
        next hrun =>
          rw [hrun] at hid hhosts
          exact ⟨app, _, rfl, rfl, hid, routableHosts_congr hhosts.1 hhosts.2⟩
        next hrun =>
          rw [hrun] at hid hhosts
          exact ⟨app, _, rfl, rfl, hid, routableHosts_congr hhosts.1 hhosts.2⟩
        next hrun =>
          rw [hrun] at hid hhosts
          exact ⟨app, _, rfl, rfl, hid, routableHosts_congr hhosts.1 hhosts.2⟩
  rcases hput with hsame | ⟨app, app', hfind, hput, hid, hrouted⟩
  · exact hosts_congr rfl hsame
  · funext j
    have hname : app'.id = id := hid.trans (Table.mem_of_find hfind).2
    rw [@hosts_put f (f.perform config o (.rollback id)).2 app' rfl hput, hname]
    split
    next h =>
      rw [hrouted, h.1, hosts_of_app (app_eq_some.mpr ⟨h.1 ▸ h.2, hfind⟩)]
    next => rfl

theorem placed_id (start : Nat) (outcome : Outcome) (app : App) :
    (placed config start outcome app).id = app.id := runDeploy_id config start outcome app

theorem renamed_id (domains : List String) (app : App) : (renamed config domains app).id = app.id :=
  ensureDefaultHostname_id config _

/-- A run's application has its default hostname from there on, if the run succeeds. -/
theorem effect_place (id : String) : f.Effect config o (.place id) := by
  -- the default hostname comes with a container that is up
  have hrouted : ∀ app, routableHosts (placed config f.runtime.starts o.outcome app) =
      if Ready o.outcome app then routableHosts (ensureDefaultHostname config app)
      else routableHosts app := by
    intro app
    split
    next hready => exact (@runDeploy_ready config) f.runtime.starts hready
    next hready => exact ((@runDeploy_not_ready config) f.runtime.starts hready).2
  have hhosts := @hosts_edit f (f.perform config o (.place id)).2 id
    (placed config f.runtime.starts o.outcome) (placed_id _ _) edit_rest.1 rfl
  refine ⟨fun j hj => (hhosts j).trans (if_neg hj), fun host h => ?_, fun host h => ?_⟩
  -- what the application has now it took, or had before
  · change host ∈ Front.hosts _ id at h
    rw [hhosts, if_pos rfl] at h
    cases happ : f.app id with
    | none =>
      rw [happ] at h
      cases h
    | some app =>
      obtain ⟨hlive, hfind⟩ := app_eq_some.mp happ
      rw [happ, Option.map_some, Option.getD_some, hrouted] at h
      rw [takes_of_live (c := .place id) hlive]
      show (host ∈ ((f.runtime.apps.find id).map _).getD [] ∧ _) ∨ host ∈ f.hosts id
      rw [hfind, Option.map_some, Option.getD_some, hosts_of_app happ]
      split at h
      next hready => exact .inl ⟨by rwa [if_pos hready], hlive⟩
      next => exact .inr h
  -- what the run asks for is what the application has then
  · change host ∈
      ((Option.bind ((f.runtime.apps.find id).map _) _).map Publication.hosts).getD [] at h
    cases hfind : f.runtime.apps.find id with
    | none =>
      rw [hfind] at h
      cases h
    | some app =>
      rw [hfind] at h
      dsimp only [Option.map_some, Option.bind_some] at h
      split at h
      next hstatus =>
        obtain ⟨hconfigured, hmem⟩ := mem_publication h
        refine .inl (mem_takes hconfigured ?_)
        -- a run that asks at all has succeeded, so it was ready
        have hready : Ready o.outcome app := by
          by_contra hnot
          exact ((@runDeploy_not_ready config) f.runtime.starts hnot).1 hstatus
        rw [hrouted, if_pos hready] at hmem
        show host ∈ ((f.runtime.apps.find id).map _).getD []
        rw [hfind, Option.map_some, Option.getD_some, if_pos hready]
        exact hmem
      next => cases h

/-- New domains are what the application has from then on, with its default hostname. -/
theorem effect_rename (id : String) (domains : List String) :
    f.Effect config o (.rename id domains) := by
  have hhosts := @hosts_edit f (f.perform config o (.rename id domains)).2 id
    (renamed config domains) (renamed_id domains) edit_rest.1 rfl
  refine ⟨fun j hj => (hhosts j).trans (if_neg hj), fun host h => ?_, fun host h => ?_⟩
  -- as for a run
  · change host ∈ Front.hosts _ id at h
    rw [hhosts, if_pos rfl] at h
    cases happ : f.app id with
    | none =>
      rw [happ] at h
      cases h
    | some app =>
      obtain ⟨hlive, hfind⟩ := app_eq_some.mp happ
      rw [happ] at h
      rw [takes_of_live (c := .rename id domains) hlive]
      refine .inl ⟨?_, hlive⟩
      show host ∈ ((f.runtime.apps.find id).map _).getD []
      rw [hfind]
      exact h
  · change host ∈ (f.renaming config id domains).1 ++
      Publication.hosts (f.renaming config id domains).2 at h
    unfold Front.renaming at h
    cases hfind : f.runtime.apps.find id with
    | none =>
      rw [hfind] at h
      cases h
    | some app =>
      rw [hfind] at h
      -- dropped hostnames are withdrawn, and these were the application's own
      rcases List.mem_append.mp h with hdropped | hnew
      · obtain ⟨hconfigured, hmem⟩ := mem_dropped hdropped
        refine mem_relists hconfigured ?_
        show host ∈ ((f.runtime.apps.find id).map routableHosts).getD []
        rw [hfind]
        exact customerHosts_subset hmem
      · obtain ⟨hconfigured, hmem⟩ := mem_publication hnew
        refine .inl (mem_takes hconfigured ?_)
        show host ∈ ((f.runtime.apps.find id).map _).getD []
        rw [hfind]
        exact hmem

theorem effect_publishable (id : String) : f.Effect config o (.publishable id) := by
  refine effect_same rfl fun host h => ?_
  change host ∈ Publication.hosts (((f.runtime.apps.find id).map (publication config)).getD _) at h
  show _ ∧ host ∈ ((f.runtime.apps.find id).map routableHosts).getD []
  cases hfind : f.runtime.apps.find id with
  | none =>
    rw [hfind] at h
    cases h
  | some app =>
    rw [hfind] at h
    exact mem_publication h

theorem effect_withdrawable (id : String) : f.Effect config o (.withdrawable id) := by
  refine effect_same rfl fun host h => ?_
  change host ∈ (if _ then _ else _) at h
  split at h
  next hconfigured => exact ⟨hconfigured, h⟩
  next => cases h

theorem effect_forget (id : String) : f.Effect config o (.forget id) := by
  refine ⟨fun j hj => ?_, fun host h => ?_, nofun⟩
  · show Front.hosts { f with gone := id :: f.gone } j = f.hosts j
    have hne : j ≠ id := hj
    unfold Front.hosts Front.app
    simp [hne]
  · change host ∈ Front.hosts { f with gone := id :: f.gone } id at h
    rw [hosts_of_gone List.mem_cons_self] at h
    cases h

theorem effect_send (r : Front.Request) : f.Effect config o (.send r) := by
  refine effect_same ?_ nofun
  show Front.hosts (f.pass r o.passage) = f.hosts
  cases o.passage <;> exact hosts_congr rfl rfl

/-- **Every call.** -/
theorem effect (c : Front.Call) : f.Effect config o c := by
  cases c with
  | lookup id => exact effect_same rfl nofun
  | createApp id body domains => exact effect_createApp id body domains
  | register id attempt row => exact effect_register id attempt row
  | place id => exact effect_place id
  | conclude id attempt routeError =>
    exact effect_same (@hosts_edit_same f _ id (concluded attempt routeError) (fun _ => rfl)
      (fun _ => rfl) edit_rest.1 rfl) nofun
  | rename id domains => exact effect_rename id domains
  | publishable id => exact effect_publishable id
  | report id routeError =>
    exact effect_same (@hosts_edit_same f _ id (fun app => { app with routeError := routeError })
      (fun _ => rfl) (fun _ => rfl) edit_rest.1 rfl) nofun
  | rollback id => exact effect_rollback id
  | removeContainer id =>
    exact effect_same (@hosts_edit_same f _ id (fun app => { app with container := none })
      (fun _ => rfl) (fun _ => rfl) edit_rest.1 rfl) nofun
  | withdrawable id => exact effect_withdrawable id
  | forget id => exact effect_forget id
  | send r => exact effect_send r

/-- Only a request changes the router, or is on its way. -/
theorem perform_router (h : ∀ r, c ≠ .send r) : (f.perform config o c).2.router = f.router ∧
    (f.perform config o c).2.late = f.late := by
  cases c with
  | send r => exact absurd rfl (h r)
  | createApp id body domains =>
    show Front.router (if _ then _ else _) = _ ∧ Front.late (if _ then _ else _) = _
    split <;> exact ⟨rfl, rfl⟩
  | place | conclude | rename | report | removeContainer => exact edit_rest.2
  | _ => exact ⟨rfl, rfl⟩

/-- A request changes the route of its own hostname. -/
theorem route_carry {r : Front.Request} {host : String} (h : host ≠ r.host) :
    (f.carry r).router.route host = f.router.route host := by
  unfold Front.carry
  dsimp only
  cases r.route with
  | some route => exact Router.route_publish.trans (if_neg h)
  | none => exact Router.route_withdraw.trans (if_neg h)

theorem route_perform {host : String} (h : ∀ r, c = .send r → host ≠ r.host) :
    (f.perform config o c).2.router.route host = f.router.route host := by
  by_cases hsend : ∃ r, c = .send r
  · obtain ⟨r, rfl⟩ := hsend
    show Router.State.route (f.pass r o.passage).router host = _
    cases o.passage with
    | carried => exact route_carry (h r rfl)
    | late => rfl
    | lost => rfl
  · rw [(perform_router fun r hr => hsend ⟨r, hr⟩).1]

end CloudWai.Runtime
