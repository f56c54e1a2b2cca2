import CloudWai.Runtime.Adapter

/-!
# What the runtime leaves alone

Most routes, and the end of a run, touch neither the variables nor the hostnames
of any application: they change statuses, images and containers. `Steady` says so
of two states, application by application, and says of a container that was
started in between that it was given the variables as they were.

Only four routes are not steady: the one that creates an application, the two
that write variables or hostnames, and the one that deletes a variable.
-/

namespace CloudWai.Runtime

open Base Deployment

variable {s s' s'' : State}

/-- An application before and after; from `n` containers that had been started
the count went to `m`. -/
structure App.Like (n m : Nat) (a a' : App) : Prop where
  env : a'.env = a.env
  domains : a'.domains = a.domains
  container : ∀ c, a'.container = some c →
    a.container = some c ∨ c.env = containerEnv a ∧ n ≤ c.start ∧ c.start < m

/-- Applications keep variables and domains; containers may start anew. -/
structure Steady (s s' : State) : Prop where
  starts : s.starts ≤ s'.starts
  apps : ∀ id, Option.Rel (App.Like s.starts s'.starts) (s.apps.find id) (s'.apps.find id)

theorem App.Like.refl (n m : Nat) (a : App) : App.Like n m a a := ⟨rfl, rfl, fun _ h => .inl h⟩

theorem App.Like.trans {n m k : Nat} {a b c : App} (hnm : n ≤ m) (hmk : m ≤ k)
    (h : App.Like n m a b) (h' : App.Like m k b c) : App.Like n k a c := by
  refine ⟨h'.env.trans h.env, h'.domains.trans h.domains, fun d hd => ?_⟩
  rcases h'.container d hd with hb | ⟨henv, hstart⟩
  · rcases h.container d hb with ha | ⟨henv, hstart⟩
    · exact .inl ha
    · exact .inr ⟨henv, by omega⟩
  · right
    have hsame : containerEnv b = containerEnv a := by
      unfold containerEnv
      rw [h.env]
    exact ⟨henv.trans hsame, by omega⟩

theorem Steady.refl (s : State) : Steady s s := by
  refine ⟨Nat.le_refl _, fun id => ?_⟩
  cases s.apps.find id with
  | none => exact .none
  | some a => exact .some (.refl _ _ a)

theorem Steady.trans (h : Steady s s') (h' : Steady s' s'') : Steady s s'' := by
  refine ⟨h.starts.trans h'.starts, fun id => ?_⟩
  have hrel := h.apps id
  have hrel' := h'.apps id
  revert hrel hrel'
  cases s.apps.find id <;> cases s'.apps.find id <;> cases s''.apps.find id <;>
    intro hrel hrel' <;> cases hrel <;> cases hrel'
  · exact .none
  · next hl hl' => exact .some (hl.trans h.starts h'.starts hl')

theorem Steady.some_find (h : Steady s s') {id : String} {a' : App}
    (ha' : s'.apps.find id = some a') : ∃ a, s.apps.find id = some a ∧ a.Like s.starts s'.starts a' := by
  have hrel := h.apps id
  rw [ha'] at hrel
  generalize s.apps.find id = x at hrel ⊢
  cases hrel with
  | some hlike => exact ⟨_, rfl, hlike⟩

/-! ## Writing one application back -/

theorem app_id {id : String} {a : App} (h : s.apps.find id = some a) : a.id = id :=
  (Table.mem_of_find h).2

/-- An application that is put back much as it was, whatever becomes of the runs. -/
theorem steady_put {id : String} {a app : App} (ha : s.apps.find id = some a)
    (happs : s'.apps = s.apps.put app) (hid : app.id = a.id) (hlike : a.Like s.starts s'.starts app)
    (hstarts : s.starts ≤ s'.starts) : Steady s s' := by
  refine ⟨hstarts, fun i => ?_⟩
  rw [happs, Table.find_put]
  split
  next hi =>
    rw [hi, hid, app_id ha, ha]
    exact .some hlike
  next =>
    cases s.apps.find i with
    | none => exact .none
    | some b => exact .some (.refl _ _ b)

theorem steady_route {β : Type} {id : String} {f : App → Reply β × State}
    (h : ∀ app, s.apps.find id = some app → Steady s (f app).2) : Steady s (s.route id f).2 := by
  unfold State.route
  split
  · exact .refl s
  next app happ => exact h app happ

/-! ## The steady routes -/

theorem deploy_steady (attempt : String) (row : DeploymentId) (id : String) :
    Steady s (State.deploy attempt row id s).2 :=
  steady_route fun _ happ =>
    steady_put happ rfl rfl ⟨rfl, rfl, fun _ h => .inl h⟩ (Nat.le_refl _)

theorem getApp_steady (running : Bool) (id : String) : Steady s (State.getApp running id s).2 := by
  refine steady_route fun app happ => ?_
  simp only
  split
  · exact steady_put happ rfl rfl ⟨rfl, rfl, fun _ h => .inl h⟩ (Nat.le_refl _)
  · exact steady_put happ rfl rfl (.refl _ _ _) (Nat.le_refl _)

theorem getAttempt_state (attempt : String) : (State.getAttempt attempt s).2 = s := by
  unfold State.getAttempt
  split <;> rfl

theorem cancelApp_steady (id : String) : Steady s (State.cancelApp id s).2 :=
  steady_route fun _ happ =>
    steady_put happ rfl rfl ⟨rfl, rfl, fun _ h => .inl h⟩ (Nat.le_refl _)

theorem cancelAttempt_steady (attempt : String) : Steady s (State.cancelAttempt attempt s).2 := by
  unfold State.cancelAttempt
  split
  · exact .refl s
  next app found hfound =>
    have hmem : app ∈ s.apps := by
      unfold State.findAttempt at hfound
      obtain ⟨b, hb, hsome⟩ := List.exists_of_findSome?_eq_some hfound
      obtain ⟨x, _, hx⟩ := Option.map_eq_some_iff.mp hsome
      rw [← (Prod.mk.inj hx).1]
      exact hb
    exact steady_put (Table.find_eq_some.mpr ⟨hmem, rfl⟩) rfl rfl ⟨rfl, rfl, fun _ h => .inl h⟩
      (Nat.le_refl _)

theorem listEnv_state (id : String) : (State.listEnv id s).2 = s := by
  unfold State.listEnv State.route
  split <;> rfl

/-- A container that is started is given the variables there are. -/
theorem runContainer_like (start : Nat) (docker : Docker) (port : Nat) (app : App) (image : Image) :
    app.Like start (start + 1) (runContainer start docker port app image).2 := by
  unfold runContainer
  split
  · exact ⟨rfl, rfl, fun _ h => by cases h⟩
  · refine ⟨rfl, rfl, fun c hc => .inr ?_⟩
    cases hc
    exact ⟨rfl, Nat.le_refl _, Nat.lt_succ_self _⟩

/-- A rollback starts at most one container. -/
theorem rollback_steady (docker : Docker) (port : Nat) (id : String) :
    Steady s (State.rollback docker port id s).2 := by
  refine steady_route fun app happ => ?_
  split
  · exact .refl s
  next target _ =>
    have hid := runContainer_id s.starts docker port app target
    have hlike := runContainer_like s.starts docker port app target
    simp only
    split
    next h =>
      rw [h] at hid hlike
      exact steady_put happ rfl hid hlike (Nat.le_succ _)
    next h =>
      rw [h] at hid hlike
      exact steady_put happ rfl hid hlike (Nat.le_succ _)
    next h =>
      rw [h] at hid hlike
      exact steady_put happ rfl hid ⟨hlike.env, hlike.domains, hlike.container⟩ (Nat.le_succ _)

/-! ## The end of a run -/

theorem ensureDefaultHostname_same (config : Config) (app : App) :
    (ensureDefaultHostname config app).env = app.env ∧
      (ensureDefaultHostname config app).domains = app.domains ∧
      (ensureDefaultHostname config app).container = app.container := by
  simp only [ensureDefaultHostname]
  split
  · exact ⟨rfl, rfl, rfl⟩
  · split <;> exact ⟨rfl, rfl, rfl⟩

/-- And so does a deploy. -/
theorem runDeploy_like (config : Config) (start : Nat) (outcome : Outcome) (app : App) :
    app.Like start (start + 1) (runDeploy config start outcome app) := by
  have hfail : ∀ (a : App) (reason : String), app.Like start (start + 1) a → app.Like start (start + 1) (a.fail reason) :=
    fun a reason h => ⟨h.env, h.domains, h.container⟩
  unfold runDeploy
  split
  · exact hfail _ _ (.refl _ _ _)
  split
  · exact hfail _ _ (.refl _ _ _)
  split
  · exact hfail _ _ (.refl _ _ _)
  next image _ =>
    have hlike := runContainer_like start outcome.docker outcome.port app image
    split
    next h =>
      rw [h] at hlike
      exact hfail _ _ hlike
    next h =>
      rw [h] at hlike
      exact hfail _ _ hlike
    next app' h =>
      rw [h] at hlike
      obtain ⟨henv, hdomains, hcontainer⟩ := ensureDefaultHostname_same config
        { app' with
          currentImage := some image
          previousImage := app.currentImage.or app.previousImage
          status := .succeeded }
      generalize ensureDefaultHostname config _ = named at henv hdomains hcontainer ⊢
      refine ⟨henv.trans hlike.env, hdomains.trans hlike.domains, fun c hc => ?_⟩
      exact hlike.container c (hcontainer ▸ hc)

theorem finish_steady (config : Config) (outcome : Outcome) (attempt : String) (s : State) :
    Steady s (s.finish config outcome attempt) := by
  unfold State.finish
  split
  · exact .refl s
  next run _ =>
    refine ⟨Nat.le_succ _, fun id => ?_⟩
    rw [Table.find_update]
    cases s.apps.find id with
    | none => exact .none
    | some a =>
      refine .some ?_
      show a.Like s.starts (s.starts + 1) (Table.Edit.on _ _ a)
      unfold Table.Edit.on
      split
      · have hlike := runDeploy_like config s.starts outcome a
        exact ⟨hlike.env, hlike.domains, hlike.container⟩
      · exact .refl _ _ _

/-! ## The adapter -/

section Adapter

variable {setup : Setup} {o : Outside} {ctx : AdapterContext}

/-- A request had no effect, or that of its route. -/
theorem call_state {β : Type} (method path : String) (route : State → Reply β × State) (s : State) :
    (call setup o ctx method path route s).2 = s ∨
      (call setup o ctx method path route s).2 = (route s).2 := by
  unfold call
  split
  · exact .inl rfl
  next baseUrl _ =>
    unfold request
    split
    · exact .inl rfl
    · split
      · exact .inr rfl
      · exact .inl rfl
    · split
      next h => exact .inr (by rw [h])
      next h => exact .inr (by rw [h])

/-- A request that was accepted was answered by its route. -/
theorem call_ok {β : Type} {method path : String} {route : State → Reply β × State} {s : State}
    {status : EngineStatus} {body : β}
    (h : (call setup o ctx method path route s).1 = .ok status body) :
    ∃ code, route s = (.accept code body, (call setup o ctx method path route s).2) := by
  unfold call at h ⊢
  cases hcreds : setup.credentials ctx.organizationId with
  | none =>
    rw [hcreds] at h
    cases h
  | some baseUrl =>
    simp only [hcreds] at h ⊢
    cases hwire : o.wire method path with
    | unreachable message =>
      rw [hwire] at h
      cases h
    | timedOut arrived =>
      rw [hwire] at h
      cases h
    | answered =>
      simp only [hwire, request] at h ⊢
      cases hroute : route s with
      | mk reply s' =>
        rw [hroute] at h
        cases reply with
        | refuse code message => cases h
        | accept code b =>
          cases h
          exact ⟨code, rfl⟩

theorem call_steady {β : Type} (method path : String) {route : State → Reply β × State}
    (h : Steady s (route s).2) : Steady s (call setup o ctx method path route s).2 := by
  rcases (@call_state setup o ctx) method path route s with hs | hs
  · rw [hs]
    exact .refl s
  · rw [hs]
    exact h

theorem adapter_deploy_steady (row : DeploymentId) (ref : ProviderRef) :
    Steady s (SelfHosted.deploy setup o ctx row ref s).2 :=
  call_steady "POST" _ (deploy_steady o.attempt row ref.resourceId)

theorem adapter_getDeployment_steady (ref : ProviderRef) :
    Steady s (SelfHosted.getDeployment setup o ctx ref s).2 := by
  unfold SelfHosted.getDeployment
  simp only
  split
  · refine call_steady "GET" _ ?_
    rw [getAttempt_state]
    exact .refl s
  · exact call_steady "GET" _ (getApp_steady o.running ref.resourceId)

theorem adapter_cancel_steady (ref : ProviderRef) :
    Steady s (SelfHosted.cancelDeployment setup o ctx ref s).2 := by
  unfold SelfHosted.cancelDeployment
  split
  · exact call_steady "POST" _ (cancelAttempt_steady ref.resourceId)
  · exact call_steady "POST" _ (cancelApp_steady ref.resourceId)

theorem adapter_rollback_steady (ref : ProviderRef) (commit : String) :
    Steady s (SelfHosted.rollback setup o ctx ref commit s).2 := by
  have hcall : Steady s (call setup o ctx "POST" s!"/apps/{ref.resourceId}/rollback"
      (State.rollback o.docker o.port ref.resourceId) s).2 :=
    call_steady "POST" _ (rollback_steady o.docker o.port ref.resourceId)
  unfold SelfHosted.rollback
  simp only
  split
  · exact hcall
  · split
    · exact hcall
    · exact hcall

theorem adapter_listEnvVars_state (ref : ProviderRef) :
    (SelfHosted.listEnvVars setup o ctx ref s).2 = s := by
  rcases (@call_state setup o ctx) "GET" s!"/apps/{ref.resourceId}/env"
    (State.listEnv ref.resourceId) s with hs | hs
  · exact hs
  · exact hs.trans (listEnv_state ref.resourceId)

end Adapter

end CloudWai.Runtime
