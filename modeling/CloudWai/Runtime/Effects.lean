import CloudWai.Runtime.Requests

/-!
# What the API's operations do

Requests on variables and on domains, each with one theorem about what it leaves.
Storing a variable changes one row, and then one application has that value under
that name or things are as they were (`setEnvVar_effect`). Removing one deletes
from one application at most the names that some row keeps for a handle
(`removeEnvVar_drops`), and a row if it says so (`removeEnvVar_removed`). A request
on a domain never touches a variable.

`Tame` is what all but a write have in common: no application has a value it did
not have, and no row appears.
-/

namespace CloudWai.Runtime

open Base Deployment

variable {setup : Setup} {o : Outside} {w w' w'' : Estate}

/-! ## Nothing new -/

/-- No variable is new, and a new container starts with those that are there. -/
structure App.Less (n m : Nat) (a a' : App) : Prop where
  value : ∀ k x, a'.value k = some x → a.value k = some x
  container : ∀ c, a'.container = some c →
    a.container = some c ∨ (∀ v ∈ c.env, a.value v.1 = some v.2) ∧ n ≤ c.start ∧ c.start < m

/-- The same of every application. -/
structure State.Less (s s' : State) : Prop where
  starts : s.starts ≤ s'.starts
  apps : ∀ id, Option.Rel (App.Less s.starts s'.starts) (s.apps.find id) (s'.apps.find id)

theorem App.Less.trans {n m k : Nat} {a b c : App} (hnm : n ≤ m) (hmk : m ≤ k)
    (h : App.Less n m a b) (h' : App.Less m k b c) : App.Less n k a c := by
  refine ⟨fun i x hx => h.value i x (h'.value i x hx), fun d hd => ?_⟩
  rcases h'.container d hd with hb | ⟨henv, hstart⟩
  · rcases h.container d hb with ha | ⟨henv, hstart⟩
    · exact .inl ha
    · exact .inr ⟨henv, by omega⟩
  · exact .inr ⟨fun v hv => h.value v.1 v.2 (henv v hv), by omega⟩

theorem State.Less.trans {s s' s'' : State} (h : s.Less s') (h' : s'.Less s'') : s.Less s'' := by
  refine ⟨h.starts.trans h'.starts, fun id => ?_⟩
  have hrel := h.apps id
  have hrel' := h'.apps id
  revert hrel hrel'
  cases s.apps.find id <;> cases s'.apps.find id <;> cases s''.apps.find id <;>
    intro hrel hrel' <;> cases hrel <;> cases hrel'
  · exact .none
  · next hl hl' => exact .some (hl.trans h.starts h'.starts hl')

/-- A container is given what the application carries. -/
theorem value_of_containerEnv {a : App} {v : String × String} (hv : v ∈ containerEnv a) :
    a.value v.1 = some v.2 := by
  obtain ⟨x, hx, rfl⟩ := List.mem_map.mp hv
  have hmem : x ∈ a.env := (List.mem_filter.mp hx).1
  unfold App.value
  rw [Table.find_eq_some.mpr ⟨hmem, rfl⟩]
  rfl

theorem less_of_steady {s s' : State} (h : Steady s s') : s.Less s' := by
  refine ⟨h.starts, fun id => ?_⟩
  have hrel := h.apps id
  revert hrel
  cases s.apps.find id <;> cases s'.apps.find id <;> intro hrel <;> cases hrel
  · exact .none
  next hlike =>
    refine .some ⟨fun k x hx => ?_, fun c hc => ?_⟩
    · unfold App.value at hx ⊢
      rw [← hlike.env]
      exact hx
    · rcases hlike.container c hc with hold | ⟨henv, hstart⟩
      · exact .inl hold
      · exact .inr ⟨fun v hv => value_of_containerEnv (henv ▸ hv), hstart⟩

theorem less_refl (s : State) : s.Less s := less_of_steady (.refl s)

theorem State.Less.some_find {s s' : State} (h : s.Less s') {id : String} {a' : App}
    (ha' : s'.apps.find id = some a') :
    ∃ a, s.apps.find id = some a ∧ App.Less s.starts s'.starts a a' := by
  have hrel := h.apps id
  rw [ha'] at hrel
  generalize s.apps.find id = x at hrel ⊢
  cases hrel with
  | some hless => exact ⟨_, rfl, hless⟩

/-- What an application does not carry, it is not given later. -/
theorem App.Less.none {n m : Nat} {a a' : App} {k : String} (h : App.Less n m a a')
    (hnone : a.value k = none) :
    a'.value k = none ∧
      ∀ c, a'.container = some c → a.container = some c ∨ ∀ v ∈ c.env, v.1 ≠ k := by
  constructor
  · cases hx : a'.value k with
    | none => rfl
    | some x =>
      rw [h.value k x hx] at hnone
      cases hnone
  · intro c hc
    rcases h.container c hc with hold | ⟨henv, _⟩
    · exact .inl hold
    · refine .inr fun v hv hkey => ?_
      have hcarried := henv v hv
      rw [hkey, hnone] at hcarried
      cases hcarried

/-- No variable is new, in the runtime or the database, and nobody moves. -/
structure Tame (w w' : Estate) : Prop where
  runtime : w.runtime.Less w'.runtime
  vars : ∀ i r, w'.vars.find i = some r → w.vars.find i = some r
  seat : seat w'.store = seat w.store
  previewSeat : previewSeat w'.store = previewSeat w.store
  environments : w'.environments = w.environments
  saved : w'.saved = w.saved
  removed : w'.removed = w.removed

theorem tame_of_quiet (h : Quiet w w') : Tame w w' := by
  refine ⟨less_of_steady h.runtime, fun i r hr => ?_, h.seat, h.previewSeat, h.environments,
    h.saved, h.removed⟩
  rw [← h.vars]
  exact hr

theorem Tame.appOf (h : Tame w w') : w'.appOf = w.appOf := appOf_of_seat h.seat

theorem seated_tame (h : Seated w) (ht : Tame w w') : Seated w' :=
  seated_of h ht.appOf ht.previewSeat fun id => isSome_of_rel (ht.runtime.apps id)

theorem lawful_of_plane (h : Lawful w) (hplane : w'.plane = w.plane)
    (henvironments : w'.environments = w.environments) : Lawful w' := by
  unfold Lawful Proper Estate.production Estate.listEnvironments
  rw [hplane, henvironments]
  exact h

/-! ## Who is asked about what -/

theorem ok_of_bind {ε α β : Type} {x : Except ε α} {f : α → Except ε β} {b : β}
    (h : x.bind f = .ok b) : ∃ a, x = .ok a ∧ f a = .ok b := by
  cases x with
  | error e => cases h
  | ok a => exact ⟨a, rfl, h⟩

theorem find_of_getProject {user : UserId} {project : ProjectId} {r : ProjectRow}
    (h : w.getProject user project = some r) : w.store.projects.find project = some r :=
  (Option.filter_eq_some_iff.mp h).1

theorem updatableProject_spec {ctx : CloudWai.RequestContext} {project : ProjectId}
    {r : ProjectRow} (h : updatableProject ctx project w = .ok r) :
    w.store.projects.find r.id = some r := by
  unfold updatableProject at h
  split at h
  · cases h
  next found hfound =>
    have hfind := find_of_getProject hfound
    cases hcap : CloudWai.requireCapability ctx found.organizationId .projectUpdate with
    | error e =>
      rw [hcap] at h
      cases h
    | ok _ =>
      rw [hcap] at h
      cases h
      rw [(Table.mem_of_find hfind).2]
      exact hfind

/-- The environment that is found is one of the project's. -/
theorem resolveEnvironment_mem {project : ProjectRow} {id : Option EnvironmentId}
    {e : ProjectEnvironment} (h : resolveEnvironment w project id = .ok e) :
    e ∈ w.listEnvironments project.id := by
  unfold resolveEnvironment at h
  split at h
  · cases h
  next first rest hlist =>
    rw [hlist]
    split at h
    · cases hdefault : (first :: rest).find? (·.isDefault) with
      | none =>
        rw [hdefault] at h
        cases h
        exact List.mem_cons_self
      | some found =>
        rw [hdefault] at h
        cases h
        exact List.mem_of_find?_eq_some hdefault
    · split at h
      next found hfound =>
        cases h
        exact List.mem_of_find?_eq_some hfound
      next => cases h

theorem normaliseKey_spec {value key : String} (h : normaliseKey value = .ok key) :
    Grammar.keyPattern.test key = true := by
  unfold normaliseKey at h
  generalize Grammar.upperCase (Grammar.trim value) = upper at h
  by_cases htest : Grammar.keyPattern.test upper = true
  · simp only [htest, if_true] at h
    rw [← Except.ok.inj h]
    exact htest
  · simp only [htest] at h
    cases h

/-- What a request that is let through is about. -/
structure EnvVarTarget.Good (t : EnvVarTarget) (w : Estate) : Prop where
  project : w.store.projects.find t.project.id = some t.project
  environment : t.environment ∈ w.listEnvironments t.project.id
  key : Grammar.keyPattern.test t.key = true

theorem setTarget_good {ctx : CloudWai.RequestContext} {input : SetEnvVarInput} {t : EnvVarTarget}
    (h : setTarget setup ctx input w = .ok t) : t.Good w := by
  unfold setTarget at h
  obtain ⟨project, hproject, h⟩ := ok_of_bind h
  split at h
  · cases h
  obtain ⟨key, hkey, h⟩ := ok_of_bind h
  obtain ⟨_, _, h⟩ := ok_of_bind h
  obtain ⟨environment, henvironment, h⟩ := ok_of_bind h
  cases h
  exact ⟨updatableProject_spec hproject, resolveEnvironment_mem henvironment, normaliseKey_spec hkey⟩

theorem removeTarget_good {ctx : CloudWai.RequestContext} {input : RemoveEnvVarInput}
    {t : EnvVarTarget} (h : removeTarget ctx input w = .ok t) : t.Good w := by
  unfold removeTarget at h
  obtain ⟨project, hproject, h⟩ := ok_of_bind h
  obtain ⟨key, hkey, h⟩ := ok_of_bind h
  obtain ⟨environment, henvironment, h⟩ := ok_of_bind h
  cases h
  exact ⟨updatableProject_spec hproject, resolveEnvironment_mem henvironment, normaliseKey_spec hkey⟩

/-- The application a push goes to is the production one. -/
theorem appOf_of_applicationRefFor {user : UserId} {project : ProjectRow} {ref : ProviderRef}
    (h : applicationRefFor user project w = some ref) :
    w.appOf project.id = some ref.resourceId := by
  unfold applicationRefFor Estate.target at h
  obtain ⟨target, htarget, href⟩ := Option.bind_eq_some_iff.mp h
  obtain ⟨r, hr, rfl⟩ := Option.map_eq_some_iff.mp htarget
  unfold Estate.appOf seat
  rw [find_of_getProject hr]
  exact applicationRef_eq_some href

/-- What holds of the target of a request, if it is let through. -/
def Admitted {α : Type} (x : Except Failure α) (P : α → Prop) : Prop :=
  match x with
  | .ok a => P a
  | .error _ => True

instance {α : Type} {x : Except Failure α} {P : α → Prop} [DecidablePred P] :
    Decidable (Admitted x P) :=
  match x with
  | .ok a => inferInstanceAs (Decidable (P a))
  | .error _ => isTrue trivial

/-! ## Storing a variable -/

/-- A request of this method and path gets to the runtime. -/
def Setup.reaches (setup : Setup) (o : Outside) (org : OrganizationId) (method path : String) :
    Bool := (setup.credentials org).isSome && (o.wire method path).arrives

/-- A request that does not reach the runtime leaves it. -/
theorem call_unreached {β : Type} {ctx : AdapterContext} {method path : String}
    {route : State → Reply β × State} {s : State}
    (h : setup.reaches o ctx.organizationId method path = false) :
    (call setup o ctx method path route s).2 = s := by
  unfold Setup.reaches at h
  unfold call
  cases hcreds : setup.credentials ctx.organizationId with
  | none => rfl
  | some baseUrl =>
    rw [hcreds] at h
    cases hwire : o.wire method path with
    | answered =>
      rw [hwire] at h
      cases h
    | unreachable message => rfl
    | timedOut arrived =>
      rw [hwire] at h
      cases arrived with
      | false => rfl
      | true => cases h

/-- Where a variable is pushed. -/
def envPath (id : String) : String := s!"/apps/{id}/env"

theorem setEnvVar_refused {ctx : CloudWai.RequestContext} {input : SetEnvVarInput} {e : Failure}
    (h : setTarget setup ctx input w = .error e) : (setEnvVar setup o ctx input w).2 = w := by
  unfold setEnvVar
  rw [h]

/-- **What a request to set a variable leaves.** -/
theorem setEnvVar_effect {ctx : CloudWai.RequestContext} {input : SetEnvVarInput}
    {t : EnvVarTarget} (h : setTarget setup ctx input w = .ok t) :
    let w₁ := w.saveEnvVar t.project.organizationId t.index input.value
      (input.isBuildTime.getD true)
    (setEnvVar setup o ctx input w).2 = w₁ ∨
      ∃ id, w.appOf t.project.id = some id ∧
        Writes (fun k x => k = t.key ∧ x = input.value) id w₁ (setEnvVar setup o ctx input w).2 ∧
        (setup.reaches o t.project.organizationId "POST" (envPath id) = false →
          (setEnvVar setup o ctx input w).2.runtime = w.runtime) := by
  intro w₁
  unfold setEnvVar
  rw [h]
  simp only
  split
  · exact .inl rfl
  next ref href =>
    right
    have happ : w.appOf t.project.id = some ref.resourceId := appOf_of_applicationRefFor href
    refine ⟨ref.resourceId, happ, ?_⟩
    generalize hcall : SelfHosted.createEnvVar setup o _ ref _ _ = a
    have hruntime : w₁.runtime.Writes (fun k x => k = t.key ∧ x = input.value) ref.resourceId
        a.2 := by
      rw [← hcall]
      exact call_writes "POST" _ (writeEnv_writes ⟨rfl, rfl⟩ 201 _ _)
    have hunreached : setup.reaches o t.project.organizationId "POST" (envPath ref.resourceId) =
        false → a.2 = w.runtime := by
      rw [← hcall]
      exact fun hno => call_unreached hno
    cases hanswer : a.1 with
    | err status reason => exact ⟨writes_of_runtime hruntime, hunreached⟩
    | ok status state =>
      have hroute : ∃ ref : Handle, state.engineRef = ref.text := by
        rw [← hcall] at hanswer
        exact engineRef_of_call hanswer
      obtain ⟨handle, hhandle⟩ := hroute
      simp only [hhandle]
      exact ⟨(writes_of_runtime hruntime).trans (writes_setEngineRef _ _ _ handle _), hunreached⟩

/-! ## Removing a variable -/

/-- Application `id` lost at most what `gone` names. -/
structure App.Drops (gone : String → Prop) (a a' : App) : Prop where
  domains : a'.domains = a.domains
  container : a'.container = a.container
  value : ∀ k, a'.value k = a.value k ∨ gone k ∧ a'.value k = none

/-- Variables of these names may go, and nothing else changes. -/
structure State.Drops (gone : String → Prop) (s s' : State) : Prop where
  starts : s'.starts = s.starts
  apps : ∀ id, Option.Rel (App.Drops gone) (s.apps.find id) (s'.apps.find id)

theorem App.Drops.refl {gone : String → Prop} (a : App) : App.Drops gone a a :=
  ⟨rfl, rfl, fun _ => .inl rfl⟩

theorem State.Drops.refl {gone : String → Prop} (s : State) : s.Drops gone s := by
  refine ⟨rfl, fun id => ?_⟩
  cases s.apps.find id with
  | none => exact .none
  | some a => exact .some (.refl a)

theorem value_delete (a : App) (key k : String) :
    App.value { a with env := a.env.delete (·.key == key) } k =
      if k = key then none else a.value k := by
  unfold App.value
  simp only [Table.find_delete]
  cases hk : a.env.find k with
  | none => simp
  | some v =>
    have hkey : v.key = k := (Table.mem_of_find hk).2
    by_cases hgone : k = key
    · simp [Option.filter, hkey, hgone]
    · simp [Option.filter, hkey, hgone]

/-- A deletion drops what has the name, and nothing else. -/
theorem deleteEnv_drops {gone : String → Prop} {key : String} (hkey : gone key) (id : String)
    (s : State) : s.Drops gone (State.deleteEnv key id s).2 := by
  unfold State.deleteEnv State.route
  cases ha : s.apps.find id with
  | none => exact .refl s
  | some a =>
    obtain rfl : a.id = id := app_id ha
    refine ⟨rfl, fun i => ?_⟩
    show Option.Rel _ _ ((s.apps.put _).find i)
    rw [Table.find_put]
    split
    next hi =>
      rw [hi]
      show Option.Rel _ (s.apps.find a.id) _
      rw [ha]
      refine .some ⟨rfl, rfl, fun k => ?_⟩
      rw [value_delete]
      split
      next hk => exact .inr ⟨hk ▸ hkey, rfl⟩
      next => exact .inl rfl
    next => exact (State.Drops.refl s).apps i

theorem call_drops {gone : String → Prop} {β : Type} {ctx : AdapterContext} (method path : String)
    {route : State → Reply β × State} {s : State} (h : s.Drops gone (route s).2) :
    s.Drops gone (call setup o ctx method path route s).2 := by
  rcases (@call_state setup o ctx) method path route s with hs | hs
  · rw [hs]
    exact .refl s
  · rw [hs]
    exact h

theorem less_of_drops {gone : String → Prop} {s s' : State} (h : s.Drops gone s') : s.Less s' := by
  refine ⟨h.starts.ge, fun id => ?_⟩
  have hrel := h.apps id
  revert hrel
  cases s.apps.find id <;> cases s'.apps.find id <;> intro hrel <;> cases hrel
  · exact .none
  · next hdrops =>
      refine .some ⟨fun k x hx => ?_, fun c hc => .inl (hdrops.container ▸ hc)⟩
      rcases hdrops.value k with hsame | ⟨_, hnone⟩
      · rw [← hsame]
        exact hx
      · rw [hnone] at hx
        cases hx

/-- The handles the rows keep. -/
def Estate.handles (w : Estate) (k : String) : Prop :=
  ∃ i r, w.vars.find i = some r ∧ given r.engineRef = some k

theorem removeFromEngine_effect (ctx : CloudWai.RequestContext) (t : EnvVarTarget)
    {existing : EnvVarRow} {i : EnvVarKey} (hrow : w.vars.find i = some existing) :
    ∃ s, (removeFromEngine setup o ctx t existing w).2 = { w with runtime := s } ∧
      w.runtime.Drops w.handles s := by
  unfold removeFromEngine
  split
  · exact ⟨w.runtime, rfl, .refl _⟩
  split
  · exact ⟨w.runtime, rfl, .refl _⟩
  next ref _ engineRef hgiven =>
    exact ⟨_, rfl, call_drops "DELETE" _ (deleteEnv_drops ⟨i, existing, hrow, hgiven⟩ _ _)⟩

/-- **What a request to remove a variable leaves.** -/
theorem removeEnvVar_effect (ctx : CloudWai.RequestContext) (input : RemoveEnvVarInput)
    (w : Estate) :
    let r := removeEnvVar setup o ctx input w
    ∃ s, w.runtime.Drops w.handles s ∧
      (r.2 = { w with runtime := s } ∧ (∀ reason, r.1 ≠ .ok ⟨true, reason⟩) ∨
        ∃ t, removeTarget ctx input w = .ok t ∧ (w.vars.find t.index).isSome ∧
          r.2 = (Estate.deleteEnvVar { w with runtime := s } ctx.userId t.project.organizationId
            t.index).2 ∧
          ∀ reason, r.1 = .ok ⟨true, reason⟩ → r.2.vars.find t.index = none) := by
  intro r
  simp only [r, removeEnvVar]
  split
  · exact ⟨w.runtime, .refl _, .inl ⟨rfl, fun _ h => by cases h⟩⟩
  next t htarget =>
    split
    · exact ⟨w.runtime, .refl _, .inl ⟨rfl, fun _ h => by cases h⟩⟩
    next existing hexisting =>
      have hrow := (Option.filter_eq_some_iff.mp hexisting).1
      obtain ⟨s, hstate, hdrops⟩ :=
        (@removeFromEngine_effect setup o) ctx t hrow
      refine ⟨s, hdrops, ?_⟩
      split
      next w' hremove =>
        rw [hremove] at hstate
        exact .inl ⟨hstate, fun _ h => by cases h⟩
      next w' hremove =>
        rw [hremove] at hstate
        have hstate : w' = { w with runtime := s } := hstate
        subst hstate
        refine .inr ⟨t, htarget, hrow ▸ rfl, rfl, fun reason hremoved => ?_⟩
        obtain ⟨v, hv, hnamed⟩ := List.any_eq_true.mp
          (congrArg RemoveEnvVarOutcome.removed (Except.ok.inj hremoved))
        have hindex : v.index = t.index := by
          simp only [Bool.and_eq_true, beq_iff_eq] at hnamed
          exact hnamed.1.1
        show (w.vars.delete _).find t.index = none
        rw [Table.find_delete, Table.find_eq_some.mpr ⟨hv, hindex⟩]
        simp only [Option.filter, hnamed, Bool.not_true, Bool.false_eq_true, if_false]

theorem removeEnvVar_tame (ctx : CloudWai.RequestContext) (input : RemoveEnvVarInput)
    (w : Estate) : Tame w (removeEnvVar setup o ctx input w).2 := by
  obtain ⟨s, hdrops, ⟨hstate, _⟩ | ⟨t, _, _, hstate, _⟩⟩ :=
    @removeEnvVar_effect setup o ctx input w
  · rw [hstate]
    exact ⟨less_of_drops hdrops, fun _ _ h => h, rfl, rfl, rfl, rfl, rfl⟩
  · rw [hstate]
    refine ⟨less_of_drops hdrops, fun i r hr => ?_, rfl, rfl, rfl, rfl, rfl⟩
    simp only [Estate.deleteEnvVar, Table.find_delete] at hr
    exact (Option.filter_eq_some_iff.mp hr).1

/-! ## Domains -/

/-- Application `id` has these hostnames now, those of them that are any. -/
structure State.Rehosts (id : String) (hosts : List String) (s s' : State) : Prop where
  starts : s'.starts = s.starts
  others : ∀ i, i ≠ id → s'.apps.find i = s.apps.find i
  app : ∃ a a', s.apps.find id = some a ∧ s'.apps.find id = some a' ∧ a'.env = a.env ∧
    a'.container = a.container ∧ a'.domains = hosts.filter isHostname

/-- The list of hostnames is replaced, if there is such an application. -/
theorem setDomains_cases (config : Config) (refusal : String → Option String) (hosts : List String)
    (id : String) (s : State) :
    s.apps.find id = none ∧ (State.setDomains config refusal hosts id s).2 = s ∨
      s.Rehosts id hosts (State.setDomains config refusal hosts id s).2 := by
  unfold State.setDomains State.route
  cases ha : s.apps.find id with
  | none => exact .inl ⟨rfl, rfl⟩
  | some a =>
    right
    obtain ⟨henv, hdomains, hcontainer⟩ :=
      ensureDefaultHostname_same config { a with domains := hosts.filter isHostname }
    have hid := ensureDefaultHostname_id config { a with domains := hosts.filter isHostname }
    simp only
    generalize ensureDefaultHostname config _ = named at henv hdomains hcontainer hid ⊢
    have hkey : id = named.id := (app_id ha).symm.trans hid.symm
    refine ⟨rfl, fun i hi => ?_, a, { named with routeError := publishAppRoutes config refusal named },
      ha, ?_, henv, hcontainer, hdomains⟩
    · exact (Table.find_put _ _ _).trans (if_neg fun h => hi (h.trans hkey.symm))
    · exact (Table.find_put _ _ _).trans (if_pos hkey)

/-- Nothing but hostnames, and what is done with them. -/
structure Sideways (w w' : Estate) : Prop where
  runtime : w.runtime.Less w'.runtime
  plane : w'.plane = w.plane
  environments : w'.environments = w.environments
  vars : w'.vars = w.vars
  saved : w'.saved = w.saved
  removed : w'.removed = w.removed

theorem Sideways.refl (w : Estate) : Sideways w w := ⟨less_refl _, rfl, rfl, rfl, rfl, rfl⟩

theorem Sideways.trans (h : Sideways w w') (h' : Sideways w' w'') : Sideways w w'' where
  runtime := h.runtime.trans h'.runtime
  plane := h'.plane.trans h.plane
  environments := h'.environments.trans h.environments
  vars := h'.vars.trans h.vars
  saved := h'.saved.trans h.saved
  removed := h'.removed.trans h.removed

theorem tame_of_sideways (h : Sideways w w') : Tame w w' := by
  have hstore : w'.store = w.store := congrArg World.store h.plane
  refine ⟨h.runtime, fun i r hr => h.vars ▸ hr, ?_, ?_, h.environments, h.saved, h.removed⟩
  · rw [hstore]
  · rw [hstore]

theorem less_of_rehosts {s s' : State} {id : String} {hosts : List String}
    (h : s.Rehosts id hosts s') : s.Less s' := by
  refine ⟨h.starts.ge, fun i => ?_⟩
  by_cases hi : i = id
  · subst hi
    obtain ⟨a, a', ha, ha', henv, hcontainer, _⟩ := h.app
    rw [ha, ha']
    refine .some ⟨fun k x hx => ?_, fun c hc => .inl (hcontainer ▸ hc)⟩
    unfold App.value at hx ⊢
    rw [← henv]
    exact hx
  · rw [h.others i hi, h.starts]
    exact (less_refl s).apps i

theorem setDomains_less (config : Config) (refusal : String → Option String) (hosts : List String)
    (id : String) (s : State) : s.Less (State.setDomains config refusal hosts id s).2 := by
  rcases setDomains_cases config refusal hosts id s with ⟨_, hsame⟩ | hrehosts
  · rw [hsame]
    exact less_refl s
  · exact less_of_rehosts hrehosts

theorem call_less {β : Type} {ctx : AdapterContext} (method path : String)
    {route : State → Reply β × State} {s : State} (h : s.Less (route s).2) :
    s.Less (call setup o ctx method path route s).2 := by
  rcases (@call_state setup o ctx) method path route s with hs | hs
  · rw [hs]
    exact less_refl s
  · rw [hs]
    exact h

/-- The call about an application's hostnames, in whichever of its two uses. -/
theorem routeHostnames_effect (org : OrganizationId) (project : ProjectId) (key : String)
    (hosts : List String) (w : Estate) :
    ∃ s, (routeHostnames setup o org project key hosts w).2 = { w with runtime := s } ∧
      w.runtime.Less s := by
  simp only [routeHostnames]
  split
  · exact ⟨w.runtime, rfl, less_refl _⟩
  next resource _ =>
    exact ⟨_, rfl, call_less "PUT" _ (setDomains_less _ _ _ _ _)⟩

theorem routeHostnames_sideways (org : OrganizationId) (project : ProjectId) (key : String)
    (hosts : List String) (w : Estate) :
    Sideways w (routeHostnames setup o org project key hosts w).2 := by
  obtain ⟨s, hstate, hless⟩ := @routeHostnames_effect setup o org project key hosts w
  rw [hstate]
  exact ⟨hless, rfl, rfl, rfl, rfl, rfl⟩

theorem addDomain_sideways (token : String) (ctx : CloudWai.RequestContext)
    (input : AddDomainInput) (w : Estate) : Sideways w (addDomain token ctx input w).2 := by
  unfold addDomain
  split
  · exact .refl w
  · unfold Estate.createDomain
    split
    · exact .refl w
    next hcreated =>
      split at hcreated
      · cases hcreated
      · cases hcreated
        exact ⟨less_refl _, rfl, rfl, rfl, rfl, rfl⟩

theorem verifyDomain_sideways (ctx : CloudWai.RequestContext) (org : OrganizationId) (id : Nat)
    (answer : VerifierAnswer) (w : Estate) :
    Sideways w (verifyDomain setup o ctx org id answer w).2 := by
  unfold verifyDomain
  split
  · exact .refl w
  · exact ⟨less_refl _, rfl, rfl, rfl, rfl, rfl⟩
  next domain _ =>
    have hedge : Sideways w
        (publishVerified o domain (w.setDomainVerification domain.organizationId domain.id true)).2 := by
      unfold publishVerified
      split <;> exact ⟨less_refl _, rfl, rfl, rfl, rfl, rfl⟩
    simp only
    generalize (publishVerified o domain _).2 = w₁ at hedge ⊢
    unfold routeVerified
    split
    · exact hedge
    · exact hedge.trans (routeHostnames_sideways _ _ _ _ _)

/-- Removing a domain leaves variables and containers alone. -/
theorem removeDomain_sideways (ctx : CloudWai.RequestContext) (org : OrganizationId) (id : Nat)
    (w : Estate) : Sideways w (removeDomain setup o ctx org id w).2 := by
  unfold removeDomain
  split
  · exact .refl w
  next domain _ =>
    have hdeleted : Sideways w (w.deleteDomain ctx.userId org id).2 :=
      ⟨less_refl _, rfl, rfl, rfl, rfl, rfl⟩
    split
    next w' hdelete =>
      rw [hdelete] at hdeleted
      exact hdeleted
    next w' hdelete =>
      rw [hdelete] at hdeleted
      have hwithdrawn : Sideways w' (withdraw o org domain.hostname w') := by
        unfold withdraw
        split <;> exact ⟨less_refl _, rfl, rfl, rfl, rfl, rfl⟩
      refine (hdeleted.trans hwithdrawn).trans ?_
      unfold routeRemaining
      split
      · exact .refl _
      · exact routeHostnames_sideways _ _ _ _ _

end CloudWai.Runtime
