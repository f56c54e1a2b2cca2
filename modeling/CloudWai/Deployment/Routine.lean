import CloudWai.Deployment.Worker

/-!
# The calls of a delivery

What a delivery of row `id` can come to await, whatever it is answered. Most of
it is `Routine id`: it polls and starts the engine, marks the row, settles it,
and reports to the queue. Three kinds of calls are not routine and decide where
the build goes: an application is created, it is recorded with its project or
preview, and the environment is pushed onto it. They are `Placing id`.
-/

namespace CloudWai.Deployment

open Base Queue ControlPlaneStore

variable {α β : Type} {P : Call → Prop}

/-! ## Single requests -/

theorem only_must {op : String} {c : StoreCall} (h : P (.store c)) : (must op c).Only P := by
  refine ⟨h, fun r => ?_⟩
  cases r <;> trivial

theorem only_clock (h : P (.queue .clock)) : clock.Only P := by
  refine ⟨h, fun r => ?_⟩
  cases r <;> trivial

theorem only_queue {op : String} {c : DeploymentQueueCall} (h : P (.queue c)) :
    (onQueue (Queue.must op c)).Only P := by
  refine ⟨h, fun r => ?_⟩
  cases r <;> trivial

theorem onQueue_bind {p : QueueProg DeploymentJobPayload α}
    {f : α → QueueProg DeploymentJobPayload β} :
    onQueue (p.bind f) = (onQueue p).bind fun a => onQueue (f a) := Prog.embed_bind _ _ _ _

/-! ## The calls -/

/-- The calls a delivery of row `id` makes once its application is in place. -/
def Routine (id : DeploymentId) : Call → Prop
  | .queue (.claim _ _) => False
  | .queue (.insert _) => False
  | .queue _ => True
  | .store (.selectTarget _ _) => True
  | .store (.selectPreviewTarget _ _ _) => True
  | .store (.selectDeployment _ i) => i = id
  | .store (.patchDeployment p) => p.id = id
  | .store (.selectPointer _ _) => True
  | .store (.promote _ _ _) => True
  | .store (.insertUsage settled _ _ _) => settled = id
  | .store _ => False
  | .engine _ (.createApplication _ _) => False
  | .engine _ (.syncEnvVars _ _ _ _) => False
  | .engine row _ => row = id

/-- And those that put it in place. -/
def Placing (id : DeploymentId) : Call → Prop
  | .store (.patchProjectProvider _ _ _ _) => True
  | .store (.patchPreviewTarget _ _ _ _ _) => True
  | .engine row (.createApplication _ _) => row = id
  | .engine row (.syncEnvVars _ _ _ _) => row = id
  | _ => False

/-- Every call of a delivery. -/
def Delivering (id : DeploymentId) (c : Call) : Prop := Routine id c ∨ Placing id c

theorem only_routine {id : DeploymentId} {p : PlaneProg α} (h : p.Only (Routine id)) :
    p.Only (Delivering id) := Prog.only_mono (fun _ => .inl) h

/-- The part of the routine that starts no build: it reads the row, polls, settles and
reports. -/
def Tends (id : DeploymentId) : Call → Prop
  | .queue (.claim _ _) => False
  | .queue (.insert _) => False
  | .queue _ => True
  | .store (.selectDeployment _ i) => i = id
  | .store (.patchDeployment p) => p.id = id
  | .store (.selectPointer _ _) => True
  | .store (.promote _ _ _) => True
  | .store (.insertUsage settled _ _ _) => settled = id
  | .engine row (.getDeployment _ _ _) => row = id
  | .engine row (.build _ _) => row = id
  | .engine row (.getArtifact _ _) => row = id
  | _ => False

theorem routine_of_tends {id : DeploymentId} {c : Call} (h : Tends id c) : Routine id c := by
  cases c with
  | queue c => cases c <;> exact h
  | store c => cases c <;> first | exact h | exact h.elim
  | engine row c => cases c <;> first | exact h | exact h.elim

theorem only_tends {id : DeploymentId} {p : PlaneProg α} (h : p.Only (Tends id)) :
    p.Only (Routine id) := Prog.only_mono (fun _ => routine_of_tends) h

/-! ## Reports to the queue -/

section Queue

variable {id : DeploymentId}

theorem tends_patchJob (job : JobId) (p : JobPatch) :
    (onQueue (SqlJobQueue.patch job p)).Only (Tends id) := by
  unfold SqlJobQueue.patch
  rw [onQueue_bind]
  exact Prog.only_bind (only_queue trivial) fun _ => trivial

theorem tends_terminate (job : JobId) (reason : String) :
    (onQueue (SqlJobQueue.terminate job reason)).Only (Tends id) := by
  unfold SqlJobQueue.terminate
  rw [onQueue_bind]
  exact Prog.only_bind (only_clock trivial) fun _ => tends_patchJob _ _

theorem tends_complete (job : JobId) :
    (onQueue (SqlJobQueue.complete job)).Only (Tends id) := by
  unfold SqlJobQueue.complete
  rw [onQueue_bind]
  exact Prog.only_bind (only_clock trivial) fun _ => tends_patchJob _ _

theorem tends_defer (job : JobId) (reason : String) (ms : Nat) :
    (onQueue (SqlJobQueue.defer job reason ms)).Only (Tends id) := by
  unfold SqlJobQueue.defer
  rw [onQueue_bind]
  exact Prog.only_bind (only_queue trivial) fun _ => trivial

theorem tends_fail (job : JobId) (reason : String) :
    (onQueue (SqlJobQueue.fail job reason)).Only (Tends id) := by
  unfold SqlJobQueue.fail SqlJobQueue.get
  rw [onQueue_bind, onQueue_bind]
  refine Prog.only_bind (Prog.only_bind (only_queue trivial) fun _ => trivial) fun current => ?_
  cases current with
  | none => trivial
  | some current =>
    simp only
    split
    · rw [onQueue_bind]
      exact Prog.only_bind (only_clock trivial) fun _ => tends_patchJob _ _
    · exact tends_patchJob _ _

theorem only_terminate (job : JobId) (reason : String) :
    (onQueue (SqlJobQueue.terminate job reason)).Only (Routine id) :=
  only_tends (tends_terminate job reason)

theorem only_fail (job : JobId) (reason : String) :
    (onQueue (SqlJobQueue.fail job reason)).Only (Routine id) := only_tends (tends_fail job reason)

end Queue

/-! ## The executor -/

/-- Reading, marking and polling the row's build: no engine is started. -/
def Polling (id : DeploymentId) : Call → Prop
  | .store (.selectDeployment _ i) => i = id
  | .store (.patchDeployment p) => p.id = id
  | .engine row (.getDeployment _ _ _) => row = id
  | .engine row (.build _ _) => row = id
  | .engine row (.getArtifact _ _) => row = id
  | _ => False

/-- The same, and starting the engine. -/
def Building (id : DeploymentId) : Call → Prop
  | .store (.selectDeployment _ i) => i = id
  | .store (.patchDeployment p) => p.id = id
  | .engine _ (.createApplication _ _) => False
  | .engine _ (.syncEnvVars _ _ _ _) => False
  | .engine row _ => row = id
  | _ => False

/-- Finding the place a build goes to, and putting it there. -/
def Locating (input : ExecuteDeploymentInput) : Call → Prop
  | .store (.selectTarget org project) => org = input.organizationId ∧ project = input.projectId
  | .store (.selectPreviewTarget org project key) =>
    org = input.organizationId ∧ project = input.projectId ∧ input.preview = some key
  | .store (.patchProjectProvider org project _ _) =>
    org = input.organizationId ∧ project = input.projectId ∧ input.preview = none
  | .store (.patchPreviewTarget org project key _ _) =>
    org = input.organizationId ∧ project = input.projectId ∧ input.preview = some key
  | .engine row (.createApplication _ _) => row = input.deploymentId
  | .engine row (.syncEnvVars _ _ _ _) => row = input.deploymentId
  | _ => False

/-- Every call of an execution. -/
def Executing (input : ExecuteDeploymentInput) (c : Call) : Prop :=
  Building input.deploymentId c ∨ Locating input c

theorem tends_of_polling {id : DeploymentId} {c : Call} (h : Polling id c) : Tends id c := by
  unfold Polling at h
  split at h <;> first | exact h | exact h.elim

theorem routine_of_building {id : DeploymentId} {c : Call} (h : Building id c) :
    Routine id c := by
  unfold Building at h
  split at h
  · exact h
  · exact h
  · exact h.elim
  · exact h.elim
  next row c hcreate hsync =>
    cases c <;> first | exact h | exact absurd rfl (hcreate _ _) | exact absurd rfl (hsync _ _ _ _)
  · exact h.elim

theorem delivering_of_executing {input : ExecuteDeploymentInput} {c : Call}
    (h : Executing input c) : Delivering input.deploymentId c := by
  rcases h with h | h
  · exact .inl (routine_of_building h)
  · unfold Locating at h
    split at h <;>
      first | exact .inl trivial | exact .inr trivial | exact .inr h | exact h.elim

section Executor

variable {input : ExecuteDeploymentInput} (engines : Engines) (model : ExecutionModel)

/-- `P` holds of the calls that read, mark and poll the build of `input`. -/
structure Polls (P : Call → Prop) (input : ExecuteDeploymentInput) : Prop where
  read : ∀ org, P (.store (.selectDeployment org input.deploymentId))
  mark : ∀ status resource handle,
    P (.store (.patchDeployment (markDeploymentInFlight input status resource handle)))
  noted : ∀ ref, P (.store (.patchDeployment
    (markDeploymentBuildHandle input.organizationId input.deploymentId ref)))
  poll : ∀ m ctx ref, P (.engine input.deploymentId (.getDeployment m ctx ref))
  build : ∀ ctx request, P (.engine input.deploymentId (.build ctx request))
  artifact : ∀ ctx ref, P (.engine input.deploymentId (.getArtifact ctx ref))

/-- And of those that start the engine. -/
structure Builds (P : Call → Prop) (input : ExecuteDeploymentInput) : Prop
    extends Polls P input where
  deploy : ∀ ctx ref, P (.engine input.deploymentId (.deploy ctx ref))
  publish : ∀ ctx ref artifact, P (.engine input.deploymentId (.publish ctx ref artifact))
  rollback : ∀ ctx ref commit, P (.engine input.deploymentId (.rollback ctx ref commit))

/-- And of those that find the place it goes to. -/
structure Executes (P : Call → Prop) (input : ExecuteDeploymentInput) : Prop
    extends Builds P input where
  create : ∀ ctx name, P (.engine input.deploymentId (.createFunction ctx name))
  locate : ∀ c, Locating input c → P c

theorem locating_resolveApplication (target : Option ProjectDeploymentTarget) :
    (resolveApplication input target).Only (Locating input) := by
  unfold resolveApplication
  split
  next key hpreview => exact Prog.only_bind (only_must ⟨rfl, rfl, hpreview⟩) fun _ => trivial
  · trivial

theorem locating_rememberApplication (application : ProviderRef) :
    (rememberApplication input application).Only (Locating input) := by
  unfold rememberApplication
  split
  next key hpreview => exact Prog.only_bind (only_must ⟨rfl, rfl, hpreview⟩) fun _ => trivial
  next hpreview => exact Prog.only_bind (only_must ⟨rfl, rfl, hpreview⟩) fun _ => trivial

theorem locating_syncEnvironment (application : ProviderRef) :
    (syncEnvironment engines model input application).Only (Locating input) := by
  unfold syncEnvironment
  cases engines.envVars with
  | false => trivial
  | true =>
    cases model with
    | serverless => trivial
    | container =>
      cases input.environmentId with
      | none => trivial
      | some environment => exact Prog.only_call rfl

theorem polls_pollArtifact (hP : Polls P input) (ctx : AdapterContext) (buildRef : ProviderRef)
    (left : Nat) : (pollArtifact input.deploymentId ctx buildRef left).Only P := by
  induction left with
  | zero => trivial
  | succ left ih =>
    refine Prog.only_bind (Prog.only_call (hP.artifact _ _)) fun answer => ?_
    cases answer with
    | ok status artifact =>
      simp only
      split <;> trivial
    | err status reason =>
      simp only
      split
      · exact ih
      · trivial

theorem polls_resume (hP : Polls P input) (application : Option ProviderRef) :
    (resumeRunningDeployment (deploymentEngineFor engines input.deploymentId model) input
      application).Only P := by
  refine Prog.only_bind (only_must (hP.read _)) fun stored => ?_
  split
  · trivial
  · obtain ⟨m, hm⟩ := port_getDeployment engines input.deploymentId model
    simp only [hm]
    refine Prog.only_bind (Prog.only_call (hP.poll _ _ _)) fun answer => ?_
    cases answer <;> trivial

theorem polls_buildArtifact (hP : Polls P input) (rootDirectory : Option String) :
    (buildArtifact model input rootDirectory).Only P := by
  unfold buildArtifact
  split
  · trivial
  · refine Prog.only_bind ?_ fun built => ?_
    · unfold runBuildStep
      split
      · trivial
      · refine Prog.only_bind (Prog.only_call (hP.build _ _)) fun started => ?_
        cases started with
        | err status reason => trivial
        | ok status buildRef =>
          refine Prog.only_bind (Prog.only_bind (only_must (hP.noted _)) fun _ => trivial)
            fun _ => ?_
          exact polls_pollArtifact hP _ _ _
    · cases built <;> trivial

theorem polls_confirm (hP : Polls P input) (action : AdapterResult ProviderRef)
    (providerResourceId : Option String) (buildRef : Option ProviderRef) :
    (confirm (deploymentEngineFor engines input.deploymentId model) input action
      providerResourceId buildRef).Only P := by
  cases action with
  | err status reason => trivial
  | ok accepted ref =>
    refine Prog.only_bind ?_ fun _ => ?_
    · split
      · exact Prog.only_bind (only_must (hP.mark _ _ _)) fun _ => trivial
      · trivial
    · obtain ⟨m, hm⟩ := port_getDeployment engines input.deploymentId model
      simp only [hm]
      refine Prog.only_bind (Prog.only_call (hP.poll _ _ _)) fun answer => ?_
      cases answer <;> trivial

theorem builds_deploy (hP : Builds P input) (ctx : AdapterContext) (ref : ProviderRef)
    (artifact : Option ServerlessArtifact) :
    ((deploymentEngineFor engines input.deploymentId model).deploy ctx ref artifact).Only P := by
  unfold deploymentEngineFor
  split
  · exact Prog.only_call (hP.deploy _ _)
  split
  · cases artifact with
    | none => trivial
    | some artifact => exact Prog.only_call (hP.publish _ _ _)
  · exact Prog.only_call (hP.publish _ _ _)

theorem builds_portRollback (hP : Builds P input) (ctx : AdapterContext) (ref : ProviderRef)
    (commit : Option String) :
    ((deploymentEngineFor engines input.deploymentId model).rollback ctx ref commit).Only P := by
  unfold deploymentEngineFor
  split
  · simp only [containerDeploymentEngine]
    split
    · exact Prog.only_call (hP.rollback _ _ _)
    · trivial
  split
  · trivial
  · exact Prog.only_call (hP.publish _ _ _)

theorem builds_rollback (hP : Builds P input) (application : Option ProviderRef) :
    (rollback (deploymentEngineFor engines input.deploymentId model) input application).Only P := by
  unfold rollback
  split
  · refine Prog.only_bind (builds_portRollback engines model hP _ _ _) fun action => ?_
    exact polls_confirm engines model hP.toPolls _ _ _
  · trivial

/-- What `create` does once the application is there and has its environment. -/
theorem builds_build (hP : Builds P input) (m : ExecutionModel) (rootDirectory : Option String)
    (application : ProviderRef) :
    ((buildArtifact m input rootDirectory).bind fun
      | .error reason => .ret (.refused .failed (some application.resourceId) reason)
      | .ok (artifact, buildRef) =>
        ((deploymentEngineFor engines input.deploymentId model).deploy input.ctx application
          artifact).bind fun deployed =>
        confirm (deploymentEngineFor engines input.deploymentId model) input deployed
          (some application.resourceId) buildRef).Only P := by
  refine Prog.only_bind (polls_buildArtifact m hP.toPolls rootDirectory) fun built => ?_
  cases built with
  | error reason => trivial
  | ok pair =>
    refine Prog.only_bind (builds_deploy engines model hP _ _ _) fun deployed => ?_
    exact polls_confirm engines model hP.toPolls _ _ _

/-- Of the calls of an execution: those that make the application. -/
theorem executes_ensureApplication (hP : Executes P input) (rootDirectory : Option String)
    (application : Option ProviderRef) :
    (ensureApplication (deploymentEngineFor engines input.deploymentId model) input rootDirectory
      application).Only P := by
  cases application with
  | some application => trivial
  | none =>
    refine Prog.only_bind ?_ fun answer => ?_
    · unfold deploymentEngineFor
      split
      · exact Prog.only_call (hP.locate _ rfl)
      split
      · exact Prog.only_call (hP.create _ _)
      · exact Prog.only_call (hP.create _ _)
    · cases answer with
      | err status reason => trivial
      | ok status application =>
        refine Prog.only_bind ?_ fun _ => trivial
        exact Prog.only_mono hP.locate (locating_rememberApplication application)

/-- **An execution** makes no other calls. -/
theorem executes_executeDeployment (hP : Executes P input) :
    (executeDeployment engines input).Only P := by
  refine Prog.only_bind (only_must (hP.locate _ ⟨rfl, rfl⟩)) fun target => ?_
  refine Prog.only_bind (Prog.only_mono hP.locate (locating_resolveApplication target))
    fun resolved => ?_
  refine Prog.only_bind (polls_resume engines _ hP.toPolls _) fun resumed => ?_
  cases resumed with
  | some result => trivial
  | none =>
    simp only
    split
    · exact builds_rollback engines _ hP.toBuilds _
    · refine Prog.only_bind (executes_ensureApplication engines _ hP _ _) fun ensured => ?_
      cases ensured with
      | error result => trivial
      | ok application =>
        exact Prog.only_bind
          (Prog.only_mono hP.locate (locating_syncEnvironment engines _ application))
          fun _ => builds_build engines _ hP.toBuilds _ _ application

theorem polls_polling : Polls (Polling input.deploymentId) input where
  read _ := rfl
  mark _ _ _ := rfl
  noted _ := rfl
  poll _ _ _ := rfl
  build _ _ := rfl
  artifact _ _ := rfl

theorem builds_routine : Builds (Routine input.deploymentId) input where
  read _ := rfl
  mark _ _ _ := rfl
  noted _ := rfl
  poll _ _ _ := rfl
  build _ _ := rfl
  artifact _ _ := rfl
  deploy _ _ := rfl
  publish _ _ _ := rfl
  rollback _ _ _ := rfl

theorem executes_executing : Executes (Executing input) input where
  read _ := .inl rfl
  mark _ _ _ := .inl rfl
  noted _ := .inl rfl
  poll _ _ _ := .inl rfl
  build _ _ := .inl rfl
  artifact _ _ := .inl rfl
  deploy _ _ := .inl rfl
  publish _ _ _ := .inl rfl
  rollback _ _ _ := .inl rfl
  create _ _ := .inl rfl
  locate _ := .inr

theorem tends_resume (application : Option ProviderRef) :
    (resumeRunningDeployment (deploymentEngineFor engines input.deploymentId model) input
      application).Only (Tends input.deploymentId) :=
  Prog.only_mono (fun _ => tends_of_polling) (polls_resume engines model polls_polling application)

theorem only_resume (application : Option ProviderRef) :
    (resumeRunningDeployment (deploymentEngineFor engines input.deploymentId model) input
      application).Only (Routine input.deploymentId) :=
  only_tends (tends_resume engines model application)

theorem only_rollback (application : Option ProviderRef) :
    (rollback (deploymentEngineFor engines input.deploymentId model) input application).Only
      (Routine input.deploymentId) := builds_rollback engines model builds_routine application

theorem only_build (m : ExecutionModel) (rootDirectory : Option String)
    (application : ProviderRef) :
    ((buildArtifact m input rootDirectory).bind fun
      | .error reason => .ret (.refused .failed (some application.resourceId) reason)
      | .ok (artifact, buildRef) =>
        ((deploymentEngineFor engines input.deploymentId model).deploy input.ctx application
          artifact).bind fun deployed =>
        confirm (deploymentEngineFor engines input.deploymentId model) input deployed
          (some application.resourceId) buildRef).Only (Routine input.deploymentId) :=
  builds_build engines model builds_routine m rootDirectory application

theorem executing_executeDeployment : (executeDeployment engines input).Only (Executing input) :=
  executes_executeDeployment engines executes_executing

theorem only_executeDeployment :
    (executeDeployment engines input).Only (Delivering input.deploymentId) :=
  Prog.only_mono (fun _ => delivering_of_executing) (executing_executeDeployment engines)

end Executor

/-! ## Settling -/

theorem tends_celebrate (id : DeploymentId) (org : OrganizationId) (project : ProjectId)
    (kind : DeploymentKind) (staged : Bool) :
    (celebrate id org project kind staged).Only (Tends id) := by
  refine Prog.only_bind ?_ fun _ => only_must rfl
  split
  · refine Prog.only_bind ?_ fun _ => trivial
    refine Prog.only_bind (only_must trivial) fun _ => ?_
    refine Prog.only_bind (only_must trivial) fun moved => ?_
    cases moved with
    | false => trivial
    | true => exact Prog.only_bind (only_must rfl) fun _ => trivial
  · trivial

theorem tends_settle (job : Job DeploymentJobPayload) (outcome : JobOutcome)
    (result : AdapterResult DeploymentExecutionResult) :
    (InProcessWorker.settle deploymentApplier job outcome result).Only
      (Tends job.payload.deploymentId) := by
  refine Prog.only_bind (Prog.only_attempt ?_) fun _ => trivial
  unfold deploymentApplier
  split
  · trivial
  · refine Prog.only_bind (only_clock trivial) fun finished => ?_
    cases result with
    | err status reason => exact Prog.only_bind (only_must rfl) fun _ => trivial
    | ok status value =>
      refine Prog.only_bind (only_must rfl) fun _ => ?_
      split
      · exact tends_celebrate _ _ _ _ _
      · trivial

/-- What follows a handler that returned. -/
theorem tends_finish (options : WorkerOptions) (job : Job DeploymentJobPayload)
    (result : AdapterResult DeploymentExecutionResult) :
    (InProcessWorker.finish planePort options deploymentApplier job result).Only
      (Tends job.payload.deploymentId) := by
  unfold InProcessWorker.finish
  simp only
  split
  · exact Prog.only_bind (tends_complete _) fun _ => tends_settle _ _ _
  split
  · refine Prog.only_bind (only_clock trivial) fun _ => ?_
    split
    · exact Prog.only_bind (tends_terminate _ _) fun _ => tends_settle _ _ _
    · exact Prog.only_bind (tends_defer _ _ _) fun _ => tends_settle _ _ _
  split
  · exact Prog.only_bind (tends_terminate _ _) fun _ => tends_settle _ _ _
  · exact Prog.only_bind (tends_fail _ _) fun _ => tends_settle _ _ _

theorem only_celebrate (id : DeploymentId) (org : OrganizationId) (project : ProjectId)
    (kind : DeploymentKind) (staged : Bool) :
    (celebrate id org project kind staged).Only (Routine id) :=
  only_tends (tends_celebrate id org project kind staged)

theorem only_settle (job : Job DeploymentJobPayload) (outcome : JobOutcome)
    (result : AdapterResult DeploymentExecutionResult) :
    (InProcessWorker.settle deploymentApplier job outcome result).Only
      (Routine job.payload.deploymentId) := only_tends (tends_settle job outcome result)

theorem only_finish (options : WorkerOptions) (job : Job DeploymentJobPayload)
    (result : AdapterResult DeploymentExecutionResult) :
    (InProcessWorker.finish planePort options deploymentApplier job result).Only
      (Routine job.payload.deploymentId) := only_tends (tends_finish options job result)

/-- A delivery makes no other calls. -/
theorem only_delivery (engines : Engines) (options : WorkerOptions)
    (job : Job DeploymentJobPayload) :
    (InProcessWorker.deliver planePort options (handlers engines) deploymentApplier job).Only
      (Delivering job.payload.deploymentId) := by
  unfold InProcessWorker.deliver handlers
  by_cases hkind : job.kind = deploymentJobKind
  · simp only [hkind, if_true]
    refine Prog.only_bind (Prog.only_attempt ?_) fun outcome => ?_
    · exact Prog.only_bind (@only_executeDeployment (executeInput job.payload _) engines)
        fun _ => trivial
    · cases outcome with
      | error reason =>
        exact Prog.only_bind (only_routine (only_fail _ _)) fun _ =>
          only_routine (only_settle _ _ _)
      | ok result => exact only_routine (only_finish options job result)
  · simp only [hkind, if_false]
    exact Prog.only_bind (only_routine (only_terminate _ _)) fun _ =>
      only_routine (only_settle _ _ _)

end CloudWai.Deployment
