import CloudWai.Deployment.Procedures

/-!
# Without a queue

`requestDeployment` and `rollbackDeployment` of an API that wires no queue: the
engine is called on the request path, and the row is written from what it said. The
guards, the row and the preview target come first and are those of the durable path;
from there on the procedures have their own code for what `executeDeployment` does.

Mirrors `apps/api/src/procedures/deployments.ts` where no queue is wired.
-/

namespace CloudWai.Deployment

open Base Queue ControlPlaneStore

/-- What a procedure has found out when it writes the row. -/
structure DirectResult where
  status : EngineStatus
  url : Option String
  engineReason : Option String
  providerResourceId : Option String
  deploymentResourceId : Option String
  buildRef : Option ProviderRef
deriving DecidableEq

/-- `persistTransition`: the row as it is now, or as it was if the write found none. -/
def persistTransition (org : OrganizationId) (current : DeploymentRow) (result : DirectResult) :
    PlaneProg DeploymentRow :=
  clock.bind fun started =>
  (updateDeploymentStatus
    { id := current.id
      organizationId := org
      status := result.status
      url := some result.url
      failureReason := some result.engineReason
      providerResourceId := result.providerResourceId
      deploymentResourceId := result.deploymentResourceId
      buildProviderResourceId := result.buildRef.map (·.resourceId)
      buildProvider := result.buildRef.map (·.provider)
      startedAt := some started
      finishedAt := some (finishedAt result.status started) }).bind fun updated =>
  .ret (updated.getD current)

/-- `runBuildStep`, with the ref that `onBuildStarted` was handed. -/
def buildNoted (row : DeploymentId) (org : OrganizationId)
    (onBuildStarted : ProviderRef → PlaneProg Unit) (input : BuildStepInput) :
    PlaneProg (Option ProviderRef × BuildStepResult) :=
  match given input.repository with
  | none => .ret (none, .error "This project has no git repository, so there is nothing to build.")
  | some repository =>
    let ctx : AdapterContext := ⟨org, input.idempotencyKey, input.timeoutMs⟩
    (onEngine row (.build ctx
      ⟨repository, given input.branch, given input.rootDirectory, given input.buildPack⟩)).bind fun
    | .err _ reason => .ret (none, .error reason)
    | .ok _ buildRef =>
      (onBuildStarted buildRef).bind fun _ =>
      (pollArtifact row ctx buildRef maxPolls).bind fun result => .ret (some buildRef, result)

/-- It is the build step. -/
theorem buildNoted_snd (row : DeploymentId) (org : OrganizationId)
    (onBuildStarted : ProviderRef → PlaneProg Unit) (input : BuildStepInput) :
    ((buildNoted row org onBuildStarted input).bind fun built => .ret built.2) =
      runBuildStep row org onBuildStarted input := by
  unfold buildNoted runBuildStep
  cases given input.repository with
  | none => rfl
  | some repository =>
    dsimp only
    rw [Prog.bind_assoc]
    congr 1
    funext answer
    cases answer with
    | err status reason => rfl
    | ok status buildRef =>
      simp only [Prog.bind_assoc]
      congr 1
      funext _
      exact Prog.bind_ret _

/-! ## The engine's part of a request -/

/-- The application a request goes to, and the model its engine is chosen by. -/
def directTarget (ctx : RequestContext) (project : ProjectRow) (input : RequestInput) :
    PlaneProg (ExecutionModel × Option ProviderRef) :=
  match input.previewKey with
  | some key =>
    (getPreviewTargetForService project.organizationId project.id key).bind fun target =>
    .ret (.container, target.bind fun t =>
      applicationRef project.organizationId t.provider t.providerResourceId)
  | none =>
    (getProjectDeploymentTarget ctx.userId project.id).bind fun probe =>
    .ret ((probe.map (·.executionModel)).getD project.executionModel, probe.bind fun t =>
      applicationRef project.organizationId t.provider t.providerResourceId)

/-- The new application is remembered on the preview target or the project. -/
def rememberDirect (project : ProjectRow) (input : RequestInput) (application : ProviderRef) :
    PlaneProg Unit :=
  match input.previewKey with
  | some key =>
    (setPreviewTargetProvider project.organizationId project.id key application.provider
      application.resourceId).bind fun _ => .ret ()
  | none =>
    (setProjectProviderResource project.organizationId project.id application.provider
      application.resourceId).bind fun _ => .ret ()

/-- `if (!application)`: one is created, or the engine's refusal is kept. -/
def ensureDirect (engine : DeploymentEngine) (ctx : AdapterContext) (project : ProjectRow)
    (input : RequestInput) (rootDirectory : Option String) :
    Option ProviderRef → PlaneProg (Except DirectResult ProviderRef)
  | some application => .ret (.ok application)
  | none =>
    let name := match input.previewKey with
      | some key => s!"{project.slug}-{key}"
      | none => project.slug
    (engine.ensureTarget ctx
      ⟨name, input.gitRepository, input.gitBranch, input.buildPack, rootDirectory⟩).bind fun
    | .err status reason => .ret (.error ⟨status, none, some reason, none, none, none⟩)
    | .ok _ application =>
      (rememberDirect project input application).bind fun _ => .ret (.ok application)

/-- The artifact of a serverless request, and the builder's ref. -/
def buildDirect (engine : DeploymentEngine) (ctx : AdapterContext) (project : ProjectRow)
    (input : RequestInput) (rootDirectory : Option String) (row : DeploymentRow)
    (application : ProviderRef) :
    PlaneProg (Option ProviderRef × Except String (Option ServerlessArtifact)) :=
  match engine.model with
  | .container => .ret (none, .ok none)
  | .serverless =>
    (buildNoted row.id project.organizationId
      (fun ref => (persistTransition project.organizationId row
        ⟨.running, none, none, some application.resourceId, none, some ref⟩).bind fun _ => .ret ())
      { idempotencyKey := s!"{input.idempotencyKey}:build"
        timeoutMs := ctx.timeoutMs
        repository := input.gitRepository
        branch := input.gitBranch
        buildPack := input.buildPack
        rootDirectory := rootDirectory }).bind fun (ref, built) =>
    .ret (ref, built.map fun artifact => some artifact.1)

/-- The deploy, and its state read back. -/
def deployDirect (engine : DeploymentEngine) (ctx : AdapterContext) (application : ProviderRef)
    (artifact : Option ServerlessArtifact) (buildRef : Option ProviderRef) :
    PlaneProg DirectResult :=
  (engine.deploy ctx application artifact).bind fun
  | .err status reason =>
    .ret ⟨status, none, some reason, some application.resourceId, none, buildRef⟩
  | .ok status ref =>
    (engine.getDeployment ctx ref).bind fun
    | .ok _ state =>
      .ret ⟨state.status, state.url, none, some application.resourceId, some ref.resourceId,
        buildRef⟩
    | .err _ _ =>
      .ret ⟨status, none, none, some application.resourceId, some ref.resourceId, buildRef⟩

/-- Everything a request asks of the engines. -/
def requestEngine (engines : Engines) (ctx : RequestContext) (project : ProjectRow)
    (input : RequestInput) (rootDirectory : Option String) (row : DeploymentRow) :
    PlaneProg DirectResult :=
  let adapterCtx : AdapterContext :=
    ⟨project.organizationId, input.idempotencyKey, adapterTimeoutMs⟩
  (directTarget ctx project input).bind fun (model, application) =>
  let engine := deploymentEngineFor engines row.id model
  (ensureDirect engine adapterCtx project input rootDirectory application).bind fun
  | .error refused => .ret refused
  | .ok application =>
    (buildDirect engine adapterCtx project input rootDirectory row application).bind fun
      (buildRef, built) =>
    match built with
    | .error reason =>
      .ret ⟨.failed, none, some reason, some application.resourceId, none, buildRef⟩
    | .ok artifact => deployDirect engine adapterCtx application artifact buildRef

/-! ## The procedures -/

/-- What follows the engine: the row, the pointer, the audit. -/
def concludeRequest (ctx : RequestContext) (project : ProjectRow) (input : RequestInput)
    (row : DeploymentRow) (result : DirectResult) : PlaneProg DeploymentRequestResult :=
  (persistTransition project.organizationId row result).bind fun deployment =>
  (if result.status = .succeeded ∧ input.kind = .production ∧ input.staged = false then
    (promoteDeployment project.organizationId project.id row.id).bind fun _ => .ret ()
  else .ret ()).bind fun _ =>
  (recordAuditEvent ⟨project.organizationId, ctx.userId, "deployment.created", row.id⟩).bind
    fun _ => .ret ⟨deployment, false, result.engineReason⟩

/-- `requestDeployment`, without a queue. -/
def requestDirectly (engines : Engines) (ctx : RequestContext) (input : RequestInput) :
    PlaneProg DeploymentRequestResult :=
  (authorizedProject ctx input.projectId .create).bind fun project =>
  let rootDirectory := input.rootDirectory.getD project.rootDirectory
  let pullRequest := match input.kind with
    | .production => none
    | .preview => input.pullRequest.filter (0 < ·)
  if input.staged = true ∧ input.kind = .preview then
    apiError "invalid_input"
      "Only a production deployment can be staged; a preview always has its own URL."
  else
    (replayOf ctx project input.idempotencyKey).bind fun
    | some result => .ret result
    | none =>
      (assertWithinBudget project.organizationId "deployments").bind fun _ =>
      (environmentIdFor ctx.userId project.id input.kind).bind fun environmentId =>
      (createDeployment
        { pendingRow ctx project input.idempotencyKey environmentId with
          kind := input.kind
          staged := input.staged
          gitBranch := input.gitBranch
          gitCommit := input.commit
          pullRequest := pullRequest
          previewKey := input.previewKey
          gitRepository := input.gitRepository
          buildPack := input.buildPack
          rootDirectory := rootDirectory }).bind fun row =>
      (recordPreviewTarget project.organizationId project.id input pullRequest).bind fun _ =>
      (requestEngine engines ctx project input rootDirectory row).bind fun result =>
      concludeRequest ctx project input row result

end CloudWai.Deployment
