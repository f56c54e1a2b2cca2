import CloudWai.Deployment.Engine

/-!
# The worker's deployment execution step

`executeDeployment` and what it calls, await by await: resolve the target, ask
the row whether a build is already in flight, otherwise create the application,
push the environment, run the builder for a serverless project, start the build
and read its state back.

`executeDeployment` decides between building and polling by one read of its own
row (`resumeRunningDeployment`): a handle and a status in flight mean poll.

Mirrors `apps/worker/src/deployment-executor.ts`, with `runBuildStep` of
`packages/adapters/src/build-run.ts` and the store's methods. The runtime image, the port
and the domains of a request are left out, which no adapter sends, and so are streamed
logs.
-/

namespace CloudWai.Deployment

open Base

/-! ## Store methods the executor uses -/

namespace ControlPlaneStore

def getProjectDeploymentTargetForService (org : OrganizationId) (project : ProjectId) :
    PlaneProg (Option ProjectDeploymentTarget) :=
  must "getProjectDeploymentTargetForService" (.selectTarget org project)

def setProjectProviderResource (org : OrganizationId) (project : ProjectId)
    (provider resource : String) : PlaneProg (Option ProjectRow) :=
  must "setProjectProviderResource" (.patchProjectProvider org project provider resource)

def getPreviewTargetForService (org : OrganizationId) (project : ProjectId) (key : String) :
    PlaneProg (Option PreviewTargetRow) :=
  must "getPreviewTargetForService" (.selectPreviewTarget org project key)

def setPreviewTargetProvider (org : OrganizationId) (project : ProjectId)
    (key provider resource : String) : PlaneProg (Option PreviewTargetRow) :=
  must "setPreviewTargetProvider" (.patchPreviewTarget org project key provider resource)

def getDeploymentForService (org : OrganizationId) (id : DeploymentId) :
    PlaneProg (Option DeploymentRow) :=
  must "getDeploymentForService" (.selectDeployment org id)

def updateDeploymentStatus (input : DeploymentStatusInput) : PlaneProg (Option DeploymentRow) :=
  must "updateDeploymentStatus" (.patchDeployment input)

end ControlPlaneStore

open ControlPlaneStore

/-! ## Inputs and results -/

/-- What `executeDeployment` is given: the row, its project and the source. -/
structure ExecuteDeploymentInput where
  organizationId : OrganizationId
  projectId : ProjectId
  projectSlug : String
  deploymentId : DeploymentId
  idempotencyKey : String
  action : DeploymentAction
  gitRepository : Option String
  gitBranch : Option String
  buildPack : Option String
  rootDirectory : Option String
  commit : Option String
  timeoutMs : Nat
  kind : DeploymentKind
  previewKey : Option String
  environmentId : Option EnvironmentId
deriving DecidableEq

/-- What a delivery has made of the row. -/
structure DeploymentExecutionResult where
  status : EngineStatus
  url : Option String
  providerResourceId : Option String
  deploymentResourceId : Option String
  buildProviderResourceId : Option String
  buildProvider : Option String
  reason : Option String
deriving DecidableEq

/-- A result with a reason and no build of its own to show. -/
def DeploymentExecutionResult.refused (status : EngineStatus) (application : Option String)
    (reason : String) : DeploymentExecutionResult :=
  ⟨status, none, application, none, none, none, some reason⟩

/-- `adapterCtx`. -/
def ExecuteDeploymentInput.ctx (input : ExecuteDeploymentInput) : AdapterContext :=
  ⟨input.organizationId, input.idempotencyKey, input.timeoutMs⟩

/-! ## The marks -/

/-- `markDeploymentInFlight`: the engine's handle, before anything is read back. -/
def markDeploymentInFlight (input : ExecuteDeploymentInput) (status : EngineStatus)
    (providerResourceId deploymentResourceId : Option String) : DeploymentStatusInput where
  id := input.deploymentId
  organizationId := input.organizationId
  status := status
  url := none
  failureReason := none
  providerResourceId := providerResourceId
  deploymentResourceId := deploymentResourceId
  buildProviderResourceId := none
  buildProvider := none
  startedAt := none
  finishedAt := none

/-- `markDeploymentBuildHandle`: the builder's handle, and `running`. -/
def markDeploymentBuildHandle (org : OrganizationId) (id : DeploymentId) (ref : ProviderRef) :
    DeploymentStatusInput where
  id := id
  organizationId := org
  status := .running
  url := none
  failureReason := none
  providerResourceId := none
  deploymentResourceId := none
  buildProviderResourceId := some ref.resourceId
  buildProvider := some ref.provider
  startedAt := none
  finishedAt := none

/-! ## The build step -/

/-- An image or a bundle of functions, if the build has made one. -/
def toServerlessArtifact (artifact : BuildArtifact) : Option ServerlessArtifact :=
  match given artifact.image with
  | some image => some (.image image)
  | none =>
    match artifact.functions, given artifact.bucket with
    | (_, key) :: _, some bucket => some (.s3 bucket key)
    | _, _ => none

/-- What the build step is given. -/
structure BuildStepInput where
  idempotencyKey : String
  timeoutMs : Nat
  repository : Option String
  branch : Option String
  buildPack : Option String
  rootDirectory : Option String

/-- `BuildStepResult`. -/
abbrev BuildStepResult := Except String (ServerlessArtifact × ProviderRef)

/-- How often the build step polls. -/
def maxPolls : Nat := 150

/-- And how long it waits in between. -/
def buildPollIntervalMs : Nat := 2000

/-- The polling loop, `left` polls before it gives up. -/
def pollArtifact (row : DeploymentId) (ctx : AdapterContext) (buildRef : ProviderRef) :
    Nat → PlaneProg BuildStepResult
  | 0 => .ret (.error
      s!"The build did not produce an artifact within {maxPolls} polls of {buildPollIntervalMs}ms.")
  | left + 1 => (onEngine row (.getArtifact ctx buildRef)).bind fun
    | .ok _ artifact =>
      match toServerlessArtifact artifact with
      | some code => .ret (.ok (code, buildRef))
      | none => .ret (.error ("The build finished but produced no artifact a serverless engine " ++
          "can publish (no image and no function bundle)."))
    | .err status reason =>
      -- `degraded` is the builder saying "still running"
      if status = .degraded then pollArtifact row ctx buildRef left else .ret (.error reason)

/-- The build step, with the executor's callback at the build's start. -/
def runBuildStep (row : DeploymentId) (org : OrganizationId)
    (onBuildStarted : ProviderRef → PlaneProg Unit) (input : BuildStepInput) :
    PlaneProg BuildStepResult :=
  match given input.repository with
  | none => .ret (.error "This project has no git repository, so there is nothing to build.")
  | some repository =>
    let ctx : AdapterContext := ⟨org, input.idempotencyKey, input.timeoutMs⟩
    (onEngine row (.build ctx
      ⟨repository, given input.branch, given input.rootDirectory, given input.buildPack⟩)).bind fun
    | .err _ reason => .ret (.error reason)
    | .ok _ buildRef =>
      (onBuildStarted buildRef).bind fun _ => pollArtifact row ctx buildRef maxPolls

/-! ## Reading the state back -/

/-- The reason `confirm` reports, which a live or succeeded build does not have. -/
def confirmedReason (state : DeploymentState) : Option String :=
  match state.status with
  | .succeeded | .running | .pending => none
  | _ => state.reason

/-- `confirm`. -/
def confirm (engine : DeploymentEngine) (input : ExecuteDeploymentInput)
    (action : AdapterResult ProviderRef) (providerResourceId : Option String)
    (buildRef : Option ProviderRef) : PlaneProg DeploymentExecutionResult :=
  let buildHandle := buildRef.map (·.resourceId)
  let builder := buildRef.map (·.provider)
  match action with
  | .err status reason =>
    .ret ⟨status, none, providerResourceId, none, buildHandle, builder, some reason⟩
  | .ok accepted ref =>
    let resolvedId := some (providerResourceId.getD ref.resourceId)
    -- only a deployment ref addresses a build; a rollback answers with the application
    let deploymentResourceId := if ref.resourceType = .deployment then some ref.resourceId else none
    let mark : PlaneProg Unit :=
      if deploymentResourceId.isSome then
        (updateDeploymentStatus
          (markDeploymentInFlight input accepted resolvedId deploymentResourceId)).bind fun _ =>
          .ret ()
      else .ret ()
    mark.bind fun _ =>
    (engine.getDeployment input.ctx ref).bind fun
    | .ok _ state =>
      .ret ⟨state.status, state.url, resolvedId, deploymentResourceId, buildHandle, builder,
        confirmedReason state⟩
    | .err _ _ =>
      .ret ⟨accepted, none, resolvedId, deploymentResourceId, buildHandle, builder, none⟩

/-- `rollback`. -/
def rollback (engine : DeploymentEngine) (input : ExecuteDeploymentInput)
    (application : Option ProviderRef) : PlaneProg DeploymentExecutionResult :=
  match application, given input.commit with
  | some application, some commit =>
    (engine.rollback input.ctx application (some commit)).bind fun result =>
    confirm engine input result none none
  | _, _ =>
    .ret (.refused .notConfigured (application.map (·.resourceId))
      "This project has no application on the hosting engine yet, so there is nothing to roll back.")

/-! ## Resuming -/

/-- The build a stored row says is in flight. -/
def inFlightHandle (stored : Option DeploymentRow) : Option (DeploymentRow × String) :=
  match stored with
  | none => none
  | some row =>
    match row.deploymentResourceId with
    | none => none
    | some handle => if row.status.InFlight then some (row, handle) else none

/-- `resumeRunningDeployment`: `none` where there is nothing to resume. -/
def resumeRunningDeployment (engine : DeploymentEngine) (input : ExecuteDeploymentInput)
    (application : Option ProviderRef) : PlaneProg (Option DeploymentExecutionResult) :=
  (getDeploymentForService input.organizationId input.deploymentId).bind fun stored =>
  match inFlightHandle stored with
  | none => .ret none
  | some (row, handle) =>
    (engine.getDeployment input.ctx
      ⟨input.organizationId, ((application.map (·.provider)).getD "coolify"), .deployment,
        handle⟩).bind fun
    | .err status reason =>
      .ret (some ⟨status, none, row.providerResourceId, some handle, none, none, some reason⟩)
    | .ok _ state =>
      .ret (some ⟨state.status, state.url, row.providerResourceId, some handle, none, none,
        state.reason⟩)

/-! ## `executeDeployment` -/

/-- `providerResourceId ? { … resourceType: "application" … } : null`. -/
def applicationRef (org : OrganizationId) (provider resource : Option String) :
    Option ProviderRef :=
  (given resource).map fun id => ⟨org, provider.getD "coolify", .application, id⟩

/-- `kind === "preview" && previewKey !== null`. -/
def ExecuteDeploymentInput.preview (input : ExecuteDeploymentInput) : Option String :=
  match input.kind with
  | .preview => input.previewKey
  | .production => none

/-- The application this run addresses, and the model its engine is chosen by. -/
def resolveApplication (input : ExecuteDeploymentInput) (target : Option ProjectDeploymentTarget) :
    PlaneProg (ExecutionModel × Option ProviderRef) :=
  match input.preview with
  | some key =>
    (getPreviewTargetForService input.organizationId input.projectId key).bind fun t =>
    .ret (.container, t.bind fun t =>
      applicationRef input.organizationId t.provider t.providerResourceId)
  | none =>
    .ret ((target.map (·.executionModel)).getD .container, target.bind fun t =>
      applicationRef input.organizationId t.provider t.providerResourceId)

/-- `setPreviewTargetProvider` or `setProjectProviderResource`. -/
def rememberApplication (input : ExecuteDeploymentInput) (application : ProviderRef) :
    PlaneProg Unit :=
  match input.preview with
  | some key =>
    (setPreviewTargetProvider input.organizationId input.projectId key application.provider
      application.resourceId).bind fun _ => .ret ()
  | none =>
    (setProjectProviderResource input.organizationId input.projectId application.provider
      application.resourceId).bind fun _ => .ret ()

/-- Create the application if there is none; an engine that refuses ends the run. -/
def ensureApplication (engine : DeploymentEngine) (input : ExecuteDeploymentInput)
    (rootDirectory : Option String) :
    Option ProviderRef → PlaneProg (Except DeploymentExecutionResult ProviderRef)
  | some application => .ret (.ok application)
  | none =>
    let name := match input.preview with
      | some key => s!"{input.projectSlug}-{key}"
      | none => input.projectSlug
    (engine.ensureTarget input.ctx
      ⟨name, input.gitRepository, input.gitBranch, input.buildPack, rootDirectory⟩).bind fun
    | .err status reason => .ret (.error (.refused status none reason))
    | .ok _ application =>
      (rememberApplication input application).bind fun _ => .ret (.ok application)

/-- Push the environment onto a container application. The worker wires no
`listEnvironmentsForService`, so a job without an environment skips the step. -/
def syncEnvironment (engines : Engines) (model : ExecutionModel) (input : ExecuteDeploymentInput)
    (application : ProviderRef) : PlaneProg Unit :=
  match engines.envVars, model, input.environmentId with
  | true, .container, some environment =>
    onEngine input.deploymentId
      (.syncEnvVars input.ctx application input.projectId environment)
  | _, _, _ => .ret ()

/-- The artifact a serverless deploy needs, and the builder's ref; a container
engine builds for itself. -/
def buildArtifact (model : ExecutionModel) (input : ExecuteDeploymentInput)
    (rootDirectory : Option String) :
    PlaneProg (Except String (Option ServerlessArtifact × Option ProviderRef)) :=
  match model with
  | .container => .ret (.ok (none, none))
  | .serverless =>
    (runBuildStep input.deploymentId input.organizationId
      (fun ref => (updateDeploymentStatus
        (markDeploymentBuildHandle input.organizationId input.deploymentId ref)).bind fun _ =>
        .ret ())
      { idempotencyKey := s!"{input.idempotencyKey}:build"
        timeoutMs := input.timeoutMs
        repository := input.gitRepository
        branch := input.gitBranch
        buildPack := input.buildPack
        rootDirectory := rootDirectory }).bind fun
    | .error reason => .ret (.error reason)
    | .ok (artifact, buildRef) => .ret (.ok (some artifact, some buildRef))

/-- The create path, once nothing was found to resume. -/
def create (engines : Engines) (engine : DeploymentEngine) (input : ExecuteDeploymentInput)
    (rootDirectory : Option String) (application : Option ProviderRef) :
    PlaneProg DeploymentExecutionResult :=
  (ensureApplication engine input rootDirectory application).bind fun
  | .error refused => .ret refused
  | .ok application =>
    (syncEnvironment engines engine.model input application).bind fun _ =>
    (buildArtifact engine.model input rootDirectory).bind fun
    | .error reason => .ret (.refused .failed (some application.resourceId) reason)
    | .ok (artifact, buildRef) =>
      (engine.deploy input.ctx application artifact).bind fun deployed =>
      confirm engine input deployed (some application.resourceId) buildRef

/-- `executeDeployment`. -/
def executeDeployment (engines : Engines) (input : ExecuteDeploymentInput) :
    PlaneProg DeploymentExecutionResult :=
  (getProjectDeploymentTargetForService input.organizationId input.projectId).bind fun target =>
  let rootDirectory := input.rootDirectory.or (target.bind (·.rootDirectory))
  (resolveApplication input target).bind fun (model, application) =>
  let engine := deploymentEngineFor engines input.deploymentId model
  (resumeRunningDeployment engine input application).bind fun
  | some resumed => .ret resumed
  | none =>
    match input.action with
    | .rollback => rollback engine input application
    | .create => create engines engine input rootDirectory application

end CloudWai.Deployment
