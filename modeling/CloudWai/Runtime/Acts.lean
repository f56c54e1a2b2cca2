import Mathlib.Logic.Relation
import CloudWai.Base.Machine
import CloudWai.Runtime.Steady
import CloudWai.Runtime.System

/-!
# Everything that is done to the runtime

Operations of the installation get to the runtime through its routes, and a
background run ends by itself. `Act` lists these, one constructor each, and `step_acts`
says that an operation, whichever it is, does nothing else: what the runtime has after it
was reached by a sequence of them. So a fact about the runtime's applications is shown once
for each route, and the API, the worker and the engines between are not gone through again.
-/

namespace CloudWai.Runtime

open Base Queue Deployment

/-- One route of the runtime, or the end of a run. -/
inductive Act (config : Config) : State → State → Prop where
  | createApp (id : String) (body : CreateAppBody) (s : State) :
      Act config s (State.createApp id body s).2
  | getApp (running : Bool) (id : String) (s : State) : Act config s (State.getApp running id s).2
  | deploy (attempt : String) (row : DeploymentId) (id : String) (s : State) :
      Act config s (State.deploy attempt row id s).2
  | getAttempt (attempt : String) (s : State) : Act config s (State.getAttempt attempt s).2
  | cancelApp (id : String) (s : State) : Act config s (State.cancelApp id s).2
  | cancelAttempt (attempt : String) (s : State) : Act config s (State.cancelAttempt attempt s).2
  | rollback (docker : Docker) (port : Nat) (id : String) (s : State) :
      Act config s (State.rollback docker port id s).2
  | setDomains (refusal : String → Option String) (domains : List String) (id : String)
      (s : State) : Act config s (State.setDomains config refusal domains id s).2
  | listEnv (id : String) (s : State) : Act config s (State.listEnv id s).2
  | writeEnv (code : Nat) (fresh : Handle) (body : EnvBody) (id : String) (s : State) :
      Act config s (State.writeEnv code fresh body id s).2
  | deleteEnv (key id : String) (s : State) : Act config s (State.deleteEnv key id s).2
  | finish (outcome : Outcome) (attempt : String) (s : State) :
      Act config s (s.finish config outcome attempt)

/-- Any number of them. -/
def Acts (config : Config) : State → State → Prop := Relation.ReflTransGen (Act config)

namespace Acts

variable {config : Config} {s s' s'' : State}

theorem refl (s : State) : Acts config s s := Relation.ReflTransGen.refl

theorem one (h : Act config s s') : Acts config s s' := Relation.ReflTransGen.single h

theorem trans (h : Acts config s s') (h' : Acts config s' s'') : Acts config s s'' :=
  Relation.ReflTransGen.trans h h'

/-- **Induction.** A relation that every act is in, and that goes on, holds across any number
of acts. -/
theorem rule {R : State → State → Prop} (hrefl : ∀ s, R s s)
    (htrans : ∀ {a b c}, R a b → R b c → R a c) (hact : ∀ {a b}, Act config a b → R a b)
    (h : Acts config s s') : R s s' := by
  induction h with
  | refl => exact hrefl _
  | tail _ hlast ih => exact htrans ih (hact hlast)

end Acts

variable {setup : Setup} {o : Outside}

/-! ## The adapter -/

section Adapter

variable {ctx : AdapterContext} {s : State}

/-- A request does what its route does, or nothing. -/
theorem call_acts {β : Type} (method path : String) {route : State → Reply β × State}
    (h : ∀ s, Act setup.config s (route s).2) :
    Acts setup.config s (call setup o ctx method path route s).2 := by
  rcases (@call_state setup o ctx) method path route s with hs | hs
  · rw [hs]
    exact .refl s
  · rw [hs]
    exact .one (h s)

theorem createApplication_acts (input : CreateApplicationInput) :
    Acts setup.config s (SelfHosted.createApplication setup o ctx input s).2 := by
  unfold SelfHosted.createApplication
  split
  · exact .refl s
  · exact call_acts "POST" _ fun s => .createApp o.appId _ s

theorem adapter_deploy_acts (row : DeploymentId) (ref : ProviderRef) :
    Acts setup.config s (SelfHosted.deploy setup o ctx row ref s).2 :=
  call_acts "POST" _ fun s => .deploy o.attempt row ref.resourceId s

theorem adapter_getDeployment_acts (ref : ProviderRef) :
    Acts setup.config s (SelfHosted.getDeployment setup o ctx ref s).2 := by
  unfold SelfHosted.getDeployment
  dsimp only
  split
  · exact call_acts "GET" _ fun s => .getAttempt ref.resourceId s
  · exact call_acts "GET" _ fun s => .getApp o.running ref.resourceId s

theorem adapter_cancel_acts (ref : ProviderRef) :
    Acts setup.config s (SelfHosted.cancelDeployment setup o ctx ref s).2 := by
  unfold SelfHosted.cancelDeployment
  split
  · exact call_acts "POST" _ fun s => .cancelAttempt ref.resourceId s
  · exact call_acts "POST" _ fun s => .cancelApp ref.resourceId s

theorem adapter_rollback_acts (ref : ProviderRef) (commit : String) :
    Acts setup.config s (SelfHosted.rollback setup o ctx ref commit s).2 := by
  have hcall : Acts setup.config s (call setup o ctx "POST" s!"/apps/{ref.resourceId}/rollback"
      (State.rollback o.docker o.port ref.resourceId) s).2 :=
    call_acts "POST" _ fun s => .rollback o.docker o.port ref.resourceId s
  unfold SelfHosted.rollback
  dsimp only
  split
  · exact hcall
  · split
    · exact hcall
    · exact hcall

theorem adapter_listEnvVars_acts (ref : ProviderRef) :
    Acts setup.config s (SelfHosted.listEnvVars setup o ctx ref s).2 :=
  call_acts "GET" _ fun s => .listEnv ref.resourceId s

theorem adapter_createEnvVar_acts (ref : ProviderRef) (entry : EnvBody) :
    Acts setup.config s (SelfHosted.createEnvVar setup o ctx ref entry s).2 :=
  call_acts "POST" _ fun s => .writeEnv 201 (o.handle entry.key) entry ref.resourceId s

theorem adapter_updateEnvVar_acts (ref : ProviderRef) (entry : EnvBody) :
    Acts setup.config s (SelfHosted.updateEnvVar setup o ctx ref entry s).2 :=
  call_acts "PATCH" _ fun s => .writeEnv 200 (o.handle entry.key) entry ref.resourceId s

theorem adapter_deleteEnvVar_acts (ref : ProviderRef) (engineRef : String) :
    Acts setup.config s (SelfHosted.deleteEnvVar setup o ctx ref engineRef s).2 :=
  call_acts "DELETE" _ fun s => .deleteEnv engineRef ref.resourceId s

theorem adapter_setDomains_acts (ref : ProviderRef) (hostnames : List String) :
    Acts setup.config s (SelfHosted.setDomains setup o ctx ref hostnames s).2 :=
  call_acts "PUT" _ fun s => .setDomains o.refusal hostnames ref.resourceId s

end Adapter

/-! ## Variables -/

variable {w : Estate}

theorem pushVariable_acts (ctx : AdapterContext) (ref : ProviderRef)
    (existing : List EnvVarState) (w : Estate) (v : EnvVarRow) :
    Acts setup.config w.runtime (pushVariable setup o ctx ref existing w v).runtime := by
  unfold pushVariable
  dsimp only
  split
  · exact .refl _
  · have hpush : Acts setup.config w.runtime
        (if existing.any (·.key == v.key) then
          SelfHosted.updateEnvVar setup o ctx ref ⟨v.key, v.value, v.isBuildTime⟩ w.runtime
        else SelfHosted.createEnvVar setup o ctx ref ⟨v.key, v.value, v.isBuildTime⟩ w.runtime).2 := by
      split
      · exact adapter_updateEnvVar_acts ref _
      · exact adapter_createEnvVar_acts ref _
    split
    · exact hpush
    · exact hpush

/-- The worker's push of variables is a list of acts. -/
theorem syncEnvVars_acts (ctx : AdapterContext) (ref : ProviderRef) (project : ProjectId)
    (environment : EnvironmentId) (w : Estate) :
    Acts setup.config w.runtime (syncEnvVars setup o ctx ref project environment w).runtime := by
  unfold syncEnvVars
  dsimp only
  split
  · exact .refl _
  · have hlist := (@adapter_listEnvVars_acts setup o ctx w.runtime) ref
    split
    · exact hlist
    next existing _ =>
      refine hlist.trans ?_
      -- one variable after the other
      generalize hstart : Estate.mk _ _ _ _ _ (SelfHosted.listEnvVars setup o ctx ref w.runtime).2
        _ _ = start
      have hruntime : (SelfHosted.listEnvVars setup o ctx ref w.runtime).2 = start.runtime := by
        rw [← hstart]
      rw [hruntime]
      generalize w.listEnvVarsForService ctx.organizationId project environment = stored
      clear hstart hruntime hlist
      induction stored generalizing start with
      | nil => exact .refl _
      | cons v rest ih => exact (pushVariable_acts ctx ref existing start v).trans (ih _)

theorem setEnvVar_acts (ctx : CloudWai.RequestContext) (input : SetEnvVarInput) (w : Estate) :
    Acts setup.config w.runtime (setEnvVar setup o ctx input w).2.runtime := by
  unfold setEnvVar
  split
  · exact .refl _
  next t _ =>
    dsimp only
    split
    · exact .refl _
    next ref _ =>
      have hpush := (@adapter_createEnvVar_acts setup o
        ⟨t.project.organizationId, s!"env-{t.project.id}-{t.environment.id}-{t.key}",
          envVarTimeoutMs⟩ w.runtime) ref ⟨t.key, input.value, input.isBuildTime.getD true⟩
      split
      · exact hpush
      · exact hpush

theorem removeFromEngine_acts (ctx : CloudWai.RequestContext) (t : EnvVarTarget)
    (existing : EnvVarRow) (w : Estate) :
    Acts setup.config w.runtime (removeFromEngine setup o ctx t existing w).2.runtime := by
  unfold removeFromEngine
  split
  · exact .refl _
  · split
    · exact .refl _
    · exact adapter_deleteEnvVar_acts _ _

theorem removeEnvVar_acts (ctx : CloudWai.RequestContext) (input : RemoveEnvVarInput)
    (w : Estate) : Acts setup.config w.runtime (removeEnvVar setup o ctx input w).2.runtime := by
  unfold removeEnvVar
  split
  · exact .refl _
  next t _ =>
    split
    · exact .refl _
    next existing _ =>
      have hremoved := (@removeFromEngine_acts setup o) ctx t existing w
      split
      next h => rwa [h] at hremoved
      next h => rwa [h] at hremoved

/-! ## Hostnames -/

theorem routeHostnames_acts (org : OrganizationId) (project : ProjectId) (key : String)
    (hosts : List String) (w : Estate) :
    Acts setup.config w.runtime (routeHostnames setup o org project key hosts w).2.runtime := by
  unfold routeHostnames
  dsimp only
  split
  · exact .refl _
  · exact adapter_setDomains_acts _ _

theorem addDomain_runtime (token : String) (ctx : CloudWai.RequestContext) (input : AddDomainInput)
    (w : Estate) : (addDomain token ctx input w).2.runtime = w.runtime := by
  unfold addDomain
  split
  · rfl
  · split
    · rfl
    next hcreated =>
      unfold Estate.createDomain at hcreated
      split at hcreated
      · cases hcreated
      · cases hcreated
        rfl

theorem verifyDomain_acts (ctx : CloudWai.RequestContext) (org : OrganizationId) (id : Nat)
    (answer : VerifierAnswer) (w : Estate) :
    Acts setup.config w.runtime (verifyDomain setup o ctx org id answer w).2.runtime := by
  unfold verifyDomain
  split
  · exact .refl _
  · exact .refl _
  next domain _ =>
    dsimp only
    have hedge : (publishVerified o domain
        (w.setDomainVerification domain.organizationId domain.id true)).2.runtime = w.runtime := by
      unfold publishVerified
      split <;> rfl
    rw [← hedge]
    unfold routeVerified
    split
    · exact .refl _
    · exact routeHostnames_acts _ _ _ _ _

/-- So is the removal of a domain. -/
theorem removeDomain_acts (ctx : CloudWai.RequestContext) (org : OrganizationId) (id : Nat)
    (w : Estate) : Acts setup.config w.runtime (removeDomain setup o ctx org id w).2.runtime := by
  unfold removeDomain
  split
  · exact .refl _
  next domain _ =>
    have hdeleted : (w.deleteDomain ctx.userId org id).2.runtime = w.runtime := rfl
    split
    next h =>
      rw [h] at hdeleted
      rw [← hdeleted]
      exact .refl _
    next w' h =>
      rw [h] at hdeleted
      have hwithdrawn : (withdraw o org domain.hostname w').runtime = w.runtime := by
        unfold withdraw
        split <;> exact hdeleted
      rw [← hwithdrawn]
      unfold routeRemaining
      split
      · exact .refl _
      · exact routeHostnames_acts _ _ _ _ _

/-! ## Programs -/

theorem engine_acts (row : DeploymentId) (w : Estate) (c : EngineCall) :
    Acts setup.config w.runtime (w.engine setup o row c).2.runtime := by
  cases c with
  | createApplication ctx input => exact createApplication_acts input
  | deploy ctx ref => exact adapter_deploy_acts row ref
  | rollback ctx ref commit => exact adapter_rollback_acts ref commit
  | cancelDeployment ctx ref => exact adapter_cancel_acts ref
  | syncEnvVars ctx ref project environment => exact syncEnvVars_acts ctx ref project environment w
  | getDeployment model ctx ref =>
    cases model with
    | container => exact adapter_getDeployment_acts ref
    | serverless => exact .refl _
  | _ => exact .refl _

theorem perform_acts (w : Estate) (c : Deployment.Call) :
    Acts setup.config w.runtime (w.perform setup o c).2.runtime := by
  cases c with
  | queue c => exact .refl _
  | store c => exact .refl _
  | engine row c => exact engine_acts row w c

theorem carryOut_acts {α : Type} (p : PlaneProg α) (w : Estate) :
    Acts setup.config w.runtime (w.carryOut setup o p).2.runtime := by
  unfold Estate.carryOut
  induction p generalizing w with
  | ret a => exact .refl _
  | raise e => exact .refl _
  | await c k ih => exact (perform_acts w c).trans (ih _ _)

/-! ## Operations -/

theorem noteSave_runtime (ctx : CloudWai.RequestContext) (input : SetEnvVarInput)
    (before after : Estate) : (before.noteSave setup ctx input after).runtime = after.runtime := by
  unfold Estate.noteSave
  split
  · rfl
  · split <;> rfl

theorem noteRemoval_runtime (ctx : CloudWai.RequestContext) (input : RemoveEnvVarInput)
    (before : Estate) (r : Result RemoveEnvVarOutcome) :
    (before.noteRemoval ctx input r).runtime = r.2.runtime := by
  unfold Estate.noteRemoval
  split
  · split <;> rfl
  · rfl

/-- **An operation does nothing to the runtime but acts.** -/
theorem step_acts (w : Estate) (m : Move) :
    Acts setup.config w.runtime (step setup w m).runtime := by
  obtain ⟨op, o⟩ := m
  cases op with
  | request ctx input => exact carryOut_acts _ w
  | rollback ctx project key commit => exact carryOut_acts _ w
  | deliver options id =>
    unfold step
    dsimp only
    split
    · exact .refl _
    · exact carryOut_acts _ w
  | finish attempt outcome => exact .one (.finish outcome attempt w.runtime)
  | setEnvVar ctx input =>
    show Acts setup.config w.runtime (w.noteSave setup ctx input _).runtime
    rw [noteSave_runtime]
    exact setEnvVar_acts ctx input w
  | removeEnvVar ctx input =>
    show Acts setup.config w.runtime (w.noteRemoval ctx input _).runtime
    rw [noteRemoval_runtime]
    exact removeEnvVar_acts ctx input w
  | addDomain token ctx input =>
    show Acts setup.config w.runtime (addDomain token ctx input w).2.runtime
    rw [addDomain_runtime]
    exact .refl _
  | verifyDomain ctx org id answer => exact verifyDomain_acts ctx org id answer w
  | removeDomain ctx org id => exact removeDomain_acts ctx org id w

/-- And so does a run. -/
theorem run_acts (w : Estate) (ms : List Move) :
    Acts setup.config w.runtime (runFrom (step setup) w ms).runtime := by
  induction ms generalizing w with
  | nil => exact .refl _
  | cons m ms ih => exact (step_acts w m).trans (ih _)

end CloudWai.Runtime
