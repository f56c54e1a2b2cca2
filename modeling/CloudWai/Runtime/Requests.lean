import CloudWai.Runtime.Placing

/-!
# The jobs there are

What a deployment job says of its environment: unless it is for a preview, the
environment whose variables it will push is the project's Production. The API
looks the environment up when it writes the job (`environmentIdFor`), and nothing
changes a job's payload after that.
-/

namespace CloudWai.Runtime

open Base Queue Deployment ControlPlaneStore

variable {setup : Setup} {o : Outside} {w w' : Estate} {α : Type}

/-- One of the project's Production environments. -/
def Estate.production (w : Estate) (project : ProjectId) (environment : EnvironmentId) : Prop :=
  ∃ e ∈ w.listEnvironments project, e.id = environment ∧ e.kind = .production

theorem production_congr (h : w'.environments = w.environments) {project : ProjectId}
    {environment : EnvironmentId} :
    w'.production project environment ↔ w.production project environment := by
  unfold Estate.production Estate.listEnvironments
  rw [h]

/-- One Production environment is the other. -/
theorem production_unique {project : ProjectId} {e : ProjectEnvironment} {id : EnvironmentId}
    (he : e ∈ w.listEnvironments project) (hkind : e.kind = .production)
    (h : w.production project id) : e.id = id := by
  obtain ⟨e', he', rfl, hkind'⟩ := h
  rw [(w.environments project).oneProduction e he e' he' hkind hkind']

/-- An environment of another kind is not it. -/
theorem not_production {project : ProjectId} {e : ProjectEnvironment}
    (he : e ∈ w.listEnvironments project) (hkind : e.kind ≠ .production) :
    ¬ w.production project e.id := by
  rintro ⟨e', he', hid, hkind'⟩
  have hsame := List.inj_on_of_nodup_map (w.environments project).ids he' he hid
  exact hkind (hsame ▸ hkind')

/-- A delivery of the payload pushes Production's variables or builds a preview. -/
def Proper (w : Estate) (p : DeploymentJobPayload) : Prop :=
  p.kind = .production ∨ p.previewKey = none →
    ∀ environment, p.environmentId = some environment → w.production p.projectId environment

theorem kind_of_preview {payload : DeploymentJobPayload} {ctx : JobContext}
    (h : (executeInput payload ctx).preview = none) :
    payload.kind = .production ∨ payload.previewKey = none := by
  simp only [ExecuteDeploymentInput.preview, executeInput] at h
  split at h
  next => exact .inr h
  next hkind => exact .inl hkind

/-- A push that a delivery makes onto a project's application is of Production. -/
theorem production_of_owned {payload : DeploymentJobPayload} {ctx : JobContext}
    {ref : ProviderRef} {environment : EnvironmentId} {p : ProjectId}
    (hproper : Proper w payload) (howned : Owned (executeInput payload ctx) w' ref)
    (henvironment : payload.environmentId = some environment)
    (happ : w'.appOf p = some ref.resourceId) :
    p = payload.projectId ∧ w.production p environment := by
  obtain ⟨hpreview, hproject⟩ := howned p happ
  refine ⟨hproject, ?_⟩
  rw [show p = payload.projectId from hproject]
  exact hproper (kind_of_preview hpreview) environment henvironment

/-- Every job in the queue is proper. -/
def Lawful (w : Estate) : Prop := ∀ job ∈ w.plane.jobs, Proper w job.payload

/-! ## Payloads do not change -/

theorem payload_update {jobs : JobsTable DeploymentJobPayload}
    {p : JobRow DeploymentJobPayload → Bool} {f : JobEdit DeploymentJobPayload}
    (hf : ∀ r, (f.run r).payload = r.payload) {job : JobRow DeploymentJobPayload}
    (hjob : job ∈ jobs.update p f) : ∃ r ∈ jobs, r.payload = job.payload := by
  rcases Table.mem_update.mp hjob with ⟨hmem, _⟩ | ⟨r, hmem, _, rfl⟩
  · exact ⟨job, hmem, rfl⟩
  · exact ⟨r, hmem, (hf r).symm⟩

/-- A payload in the queue was enqueued. -/
theorem payload_run (now : Instant) (locked : JobId → Bool)
    (jobs : JobsTable DeploymentJobPayload) (c : DeploymentQueueCall)
    {job : JobRow DeploymentJobPayload} (hjob : job ∈ (c.run now locked jobs).2) :
    (∃ r ∈ jobs, r.payload = job.payload) ∨ ∃ n, c = .insert n ∧ job.payload = n.payload := by
  have hsame : job ∈ jobs → ∃ r ∈ jobs, r.payload = job.payload := fun h => ⟨job, h, rfl⟩
  cases c with
  | insert n =>
    simp only [QueueCall.run, insertJob] at hjob
    split at hjob
    · exact .inl (hsame hjob)
    split at hjob
    · exact .inl (hsame hjob)
    · rcases Table.mem_insertNew.mp hjob with hold | rfl
      · exact .inl (hsame hold)
      · exact .inr ⟨n, rfl, rfl⟩
  | patch id p => exact .inl (payload_update (fun _ => rfl) hjob)
  | claim worker leaseSeconds =>
    simp only [QueueCall.run, claimOrchestrationJob] at hjob
    split at hjob
    · exact .inl (hsame hjob)
    split at hjob
    · exact .inl (hsame hjob)
    split at hjob
    · exact .inl (hsame hjob)
    · exact .inl (payload_update (fun _ => rfl) hjob)
  | defer id reason deferSeconds => exact .inl (payload_update (fun _ => rfl) hjob)
  | reap t =>
    refine .inl (payload_update (fun r => ?_) hjob)
    simp only [reaped]
    split <;> rfl
  | selectByKey org kind key => exact .inl (hsame hjob)
  | select id => exact .inl (hsame hjob)
  | clock => exact .inl (hsame hjob)

/-! ## One call -/

/-- An engine call changes no job and no environment. -/
theorem engine_plane (w : Estate) (row : DeploymentId) (c : EngineCall) :
    (w.engine setup o row c).2.plane = w.plane ∧
      (w.engine setup o row c).2.environments = w.environments := by
  cases c with
  | syncEnvVars ctx ref project environment =>
    have hwrites := @syncEnvVars_writes setup o (fun _ _ => True) w ctx ref project environment
      fun _ _ _ _ _ => trivial
    exact ⟨hwrites.plane, hwrites.environments⟩
  | getDeployment model ctx ref => cases model <;> exact ⟨rfl, rfl⟩
  | _ => exact ⟨rfl, rfl⟩

theorem lawful_perform (h : Lawful w) {c : Deployment.Call}
    (hc : ∀ n, c = .queue (.insert n) → Proper w n.payload) :
    Lawful (w.perform setup o c).2 := by
  cases c with
  | queue c =>
    intro job hjob
    rcases payload_run _ _ _ c hjob with ⟨r, hr, hpayload⟩ | ⟨n, rfl, hpayload⟩
    · rw [← hpayload]
      exact h r hr
    · rw [hpayload]
      exact hc n rfl
  | store c => exact h
  | engine row c =>
    obtain ⟨hplane, henvironments⟩ := @engine_plane setup o w row c
    unfold Lawful Proper Estate.production Estate.listEnvironments Estate.perform
    simp only [hplane, henvironments]
    exact h

/-! ## Deliveries -/

theorem lawful_delivery {options : WorkerOptions} {job : Job DeploymentJobPayload} (h : Lawful w) :
    (delivery setup options job).Ends (Estate.perform setup o) (fun _ w' => Lawful w') w := by
  refine Prog.ends_of_only (only_delivery setup.engines options job) ?_ h
  rintro w c hw hc
  refine lawful_perform hw ?_
  rintro n rfl
  rcases hc with hroutine | hplacing
  · exact hroutine.elim
  · exact hplacing.elim

/-! ## Requests -/

/-- What a request leaves. -/
def Requested (w w' : Estate) : Prop := Quiet w w' ∧ Lawful w'

/-- Quiet calls, and jobs written for the right environment. -/
def Modest (w : Estate) (c : Deployment.Call) : Prop :=
  quiet c = true ∧ ∀ n, c = .queue (.insert n) → Proper w n.payload

theorem proper_of_environments {p : DeploymentJobPayload} (h : Proper w p)
    (henvironments : w'.environments = w.environments) : Proper w' p := by
  unfold Proper Estate.production Estate.listEnvironments at h ⊢
  rw [henvironments]
  exact h

theorem ends_modest {w₀ : Estate} {p : PlaneProg α} (hp : p.Only (Modest w₀))
    (h : Requested w₀ w) : p.Ends (Estate.perform setup o) (fun _ w' => Requested w₀ w') w := by
  refine Prog.ends_of_only hp ?_ h
  rintro w c ⟨hq, hlawful⟩ ⟨hquiet, hc⟩
  refine ⟨hq.trans (perform_quiet w c hquiet), lawful_perform hlawful fun n hn => ?_⟩
  exact proper_of_environments (hc n hn) hq.environments

section Modest

variable {w₀ : Estate} {project : ProjectRow}

theorem modest_must {op : String} {c : StoreCall} (h : quiet (.store c) = true) :
    (Deployment.must op c).Only (Modest w₀) := only_must ⟨h, fun n hn => by cases hn⟩

theorem modest_apiError {code message : String} :
    (apiError code message : PlaneProg α).Only (Modest w₀) := trivial

theorem modest_authorizedProject (ctx : Deployment.RequestContext) (id : ProjectId)
    (c : Deployment.Capability) : (authorizedProject ctx id c).Only (Modest w₀) := by
  refine Prog.only_bind (modest_must rfl) fun found => ?_
  cases found with
  | none => exact modest_apiError
  | some project =>
    refine Prog.only_bind ?_ fun _ => trivial
    unfold Deployment.requireCapability
    split <;> trivial

theorem modest_replayOf (ctx : Deployment.RequestContext) (key : String) :
    (replayOf ctx project key).Only (Modest w₀) := by
  refine Prog.only_bind (modest_must rfl) fun found => ?_
  cases found with
  | none => trivial
  | some existing =>
    simp only
    split
    · trivial
    · exact modest_apiError

theorem modest_assertWithinBudget (org : OrganizationId) (metric : String) :
    (assertWithinBudget org metric).Only (Modest w₀) := by
  refine Prog.only_bind (modest_must rfl) fun refusal => ?_
  cases refusal <;> trivial

theorem modest_recordPreviewTarget (org : OrganizationId) (id : ProjectId) (input : RequestInput)
    (pullRequest : Option Nat) :
    (recordPreviewTarget org id input pullRequest).Only (Modest w₀) := by
  unfold recordPreviewTarget
  split
  · trivial
  · refine Prog.only_bind (modest_must rfl) fun found => ?_
    cases found with
    | none => exact modest_must rfl
    | some target => trivial

/-- What is dispatched with a proper payload is modest. -/
theorem modest_dispatch (ctx : Deployment.RequestContext) (event key : String)
    {payload : DeploymentJobPayload} (h : Proper w₀ payload) :
    (dispatch ctx event key payload).Only (Modest w₀) := by
  have hqueue : ∀ {op : String} {c : DeploymentQueueCall},
      (∀ n, c = .insert n → Proper w₀ n.payload) →
      (onQueue (Queue.must op c)).Only (Modest w₀) :=
    fun hc => only_queue ⟨rfl, fun n hn => hc n (by cases hn; rfl)⟩
  refine Prog.only_bind ?_ fun _ => modest_must rfl
  unfold SqlJobQueue.enqueue
  rw [onQueue_bind]
  refine Prog.only_bind (hqueue fun n hn => ?_) fun inserted => ?_
  · cases hn
    exact h
  · split
    · trivial
    · unfold SqlJobQueue.findByKey
      rw [onQueue_bind, onQueue_bind]
      refine Prog.only_bind (Prog.only_bind (hqueue fun n hn => by cases hn) fun _ => trivial) ?_
      intro existing
      split <;> trivial

end Modest

/-- The environment a production request finds. -/
theorem ends_environmentIdFor (user : UserId) (project : ProjectId) (kind : DeploymentKind) :
    (environmentIdFor user project kind).Ends (Estate.perform setup o)
      (fun r w' => w' = w ∧ ∀ found, r = .ok found → kind = .production →
        ∀ environment, found = some environment → w.production project environment) w := by
  refine ends_read rfl (Prog.ends_ret ⟨rfl, ?_⟩)
  rintro found hfound rfl environment rfl
  obtain ⟨pair, hpair, rfl⟩ := Option.map_eq_some_iff.mp (Except.ok.inj hfound)
  have hkind := List.find?_some hpair
  obtain ⟨e, he, rfl⟩ := List.mem_map.mp (List.mem_of_find?_eq_some hpair)
  exact ⟨e, he, rfl, by simpa using hkind⟩

/-- What comes before the environment is looked up, and after. -/
theorem requested_bind {β : Type} {p : PlaneProg α} {f : α → PlaneProg β} {w₀ : Estate}
    (hp : p.Only (Modest w₀)) (h : Requested w₀ w)
    (hf : ∀ a w', Requested w₀ w' →
      (f a).Ends (Estate.perform setup o) (fun _ w'' => Requested w₀ w'') w') :
    (p.bind f).Ends (Estate.perform setup o) (fun _ w' => Requested w₀ w') w :=
  Prog.ends_bind (ends_modest hp h) hf fun _ _ h => h

/-- **A request.** -/
theorem ends_requestDeployment (ctx : Deployment.RequestContext) (input : RequestInput)
    (h : Lawful w) :
    (requestDeployment ctx input).Ends (Estate.perform setup o) (fun _ w' => Requested w w') w := by
  refine requested_bind (modest_authorizedProject ctx input.projectId .create) ⟨.refl w, h⟩ ?_
  intro project w₁ h₁
  simp only
  split
  · exact h₁
  refine requested_bind (modest_replayOf ctx input.idempotencyKey) h₁ ?_
  intro replay w₂ h₂
  cases replay with
  | some result => exact h₂
  | none =>
    refine requested_bind (modest_assertWithinBudget _ _) h₂ fun _ w₃ h₃ => ?_
    refine Prog.ends_bind (ends_environmentIdFor ctx.userId project.id input.kind) ?_ ?_
    · rintro environmentId _ ⟨rfl, henvironment⟩
      refine ends_modest ?_ h₃
      refine Prog.only_bind (modest_must rfl) fun row => ?_
      refine Prog.only_bind (modest_recordPreviewTarget _ _ input _) fun _ => ?_
      refine Prog.only_bind (modest_dispatch ctx _ _ ?_) fun _ => trivial
      rintro hproduction environment rfl
      have hkind : input.kind = .production := by
        rcases hproduction with hkind | hkey
        · exact hkind
        · simp only [RequestInput.previewKey] at hkey
          split at hkey
          next hkind => exact hkind
          next => cases hkey
      exact (production_congr h₃.1.environments).mp (henvironment _ rfl hkind environment rfl)
    · rintro e _ ⟨rfl, _⟩
      exact h₃

/-- **A rollback request.** -/
theorem ends_rollbackDeployment (ctx : Deployment.RequestContext) (project : ProjectId)
    (key commit : String) (h : Lawful w) :
    (rollbackDeployment ctx project key commit).Ends (Estate.perform setup o)
      (fun _ w' => Requested w w') w := by
  refine requested_bind (modest_authorizedProject ctx project .rollback) ⟨.refl w, h⟩ ?_
  intro project w₁ h₁
  refine requested_bind (modest_replayOf ctx key) h₁ fun replay w₂ h₂ => ?_
  cases replay with
  | some result => exact h₂
  | none =>
    refine requested_bind (modest_assertWithinBudget _ _) h₂ fun _ w₃ h₃ => ?_
    refine Prog.ends_bind (ends_environmentIdFor ctx.userId project.id .production) ?_ ?_
    · rintro environmentId _ ⟨rfl, henvironment⟩
      refine ends_modest ?_ h₃
      refine Prog.only_bind (modest_must rfl) fun row => ?_
      refine Prog.only_bind (modest_must rfl) fun _ => ?_
      refine Prog.only_bind (modest_dispatch ctx _ _ ?_) fun _ => trivial
      rintro _ environment rfl
      exact (production_congr h₃.1.environments).mp (henvironment _ rfl rfl environment rfl)
    · rintro e _ ⟨rfl, _⟩
      exact h₃

end CloudWai.Runtime
