import CloudWai.Queue.Processor
import CloudWai.Deployment.Executor

/-!
# The deployment job

The handler runs `executeDeployment` on the job's payload; the applier writes
the row from what the handler reported. A result still in flight is an `ok` too,
so that its handle reaches the row; any other status is an `err` with the
engine's reason.

Mirrors `apps/worker/src/deployment-job.ts`.
-/

namespace CloudWai.Deployment

open Base Queue

namespace ControlPlaneStore

/-- `promoteDeployment`: the pointer before, the move, and the row it names now. -/
def promoteDeployment (org : OrganizationId) (project : ProjectId) (id : DeploymentId) :
    PlaneProg (Option DeploymentRow × Option DeploymentId) :=
  (must "promoteDeployment:project" (.selectPointer org project)).bind fun previous =>
  (must "promoteDeployment" (.promote org project id)).bind fun (moved : Bool) =>
  if moved then
    (must "promoteDeployment:read" (.selectDeployment org id)).bind fun row => .ret (row, previous)
  else .ret (none, previous)

/-- `recordUsage`, for the deployment it settles. -/
def recordUsage (settled : DeploymentId) (org : OrganizationId) (metric : String)
    (quantity : Nat) : PlaneProg Unit :=
  must "recordUsage" (.insertUsage settled org metric quantity)

end ControlPlaneStore

open ControlPlaneStore

/-- The command a payload stands for. -/
def executeInput (p : DeploymentJobPayload) (ctx : JobContext) :
    ExecuteDeploymentInput where
  organizationId := p.organizationId
  projectId := p.projectId
  projectSlug := p.projectSlug
  deploymentId := p.deploymentId
  idempotencyKey := ctx.idempotencyKey
  action := p.action
  gitRepository := p.gitRepository
  gitBranch := p.gitBranch
  buildPack := p.buildPack
  rootDirectory := p.rootDirectory
  commit := p.commit
  timeoutMs := ctx.timeoutMs
  kind := p.kind
  previewKey := p.previewKey
  environmentId := p.environmentId

/-- How the handler reports a result. -/
def reported (result : DeploymentExecutionResult) : AdapterResult DeploymentExecutionResult :=
  if result.reason = none ∧ (result.status = .succeeded ∨ result.status.InFlight) then
    .ok result.status result
  else
    .err result.status (result.reason.getD s!"Deployment ended {result.status.wire}.")

/-- `buildDeploymentJobHandler`. -/
def deploymentJobHandler (engines : Engines) (payload : DeploymentJobPayload) (ctx : JobContext) :
    PlaneProg (AdapterResult DeploymentExecutionResult) :=
  (executeDeployment engines (executeInput payload ctx)).bind fun result =>
  .ret (reported result)

/-- `isTerminal(status) ? finished : null`. -/
def finishedAt (status : EngineStatus) (finished : Instant) : Option Instant :=
  if status.Terminal then some finished else none

/-- The row an `ok` result is written as. -/
def okPatch (payload : DeploymentJobPayload) (value : DeploymentExecutionResult)
    (finished : Instant) : DeploymentStatusInput where
  id := payload.deploymentId
  organizationId := payload.organizationId
  status := value.status
  url := some value.url
  failureReason := some none
  providerResourceId := value.providerResourceId
  deploymentResourceId := value.deploymentResourceId
  buildProviderResourceId := value.buildProviderResourceId
  buildProvider := value.buildProvider
  startedAt := some finished
  finishedAt := some (finishedAt value.status finished)

/-- The row an `err` result is written as. -/
def errPatch (payload : DeploymentJobPayload) (status : EngineStatus) (reason : String)
    (finished : Instant) : DeploymentStatusInput where
  id := payload.deploymentId
  organizationId := payload.organizationId
  status := status
  url := some none
  failureReason := some (some reason)
  providerResourceId := none
  deploymentResourceId := none
  buildProviderResourceId := none
  buildProvider := none
  startedAt := some finished
  finishedAt := some (finishedAt status finished)

/-- A confirmed success: a production build that is not staged goes live, and
the organization consumed one unit. -/
def celebrate (id : DeploymentId) (org : OrganizationId) (project : ProjectId)
    (kind : DeploymentKind) (staged : Bool) : PlaneProg Unit :=
  (if kind = .production ∧ staged = false then
    (promoteDeployment org project id).bind fun _ => .ret ()
  else .ret ()).bind fun _ =>
  recordUsage id org "deployments" 1

/-- `buildDeploymentApplier`. -/
def deploymentApplier (job : Job DeploymentJobPayload)
    (result : AdapterResult DeploymentExecutionResult) : PlaneProg Unit :=
  if job.kind ≠ deploymentJobKind then .ret ()
  else
    clock.bind fun finished =>
    match result with
    | .ok _ value =>
      (updateDeploymentStatus (okPatch job.payload value finished)).bind fun _ =>
      if value.status = .succeeded then
        celebrate job.payload.deploymentId job.payload.organizationId job.payload.projectId
          job.payload.kind job.payload.staged
      else .ret ()
    | .err status reason =>
      (updateDeploymentStatus (errPatch job.payload status reason finished)).bind fun _ => .ret ()

/-- The queue's requests among the calls of this program. -/
def planePort : Port DeploymentJobPayload Call Call.Ans := ⟨Call.queue, fun _ a => a⟩

/-- The handlers the worker wires, as far as deployments go. -/
def handlers (engines : Engines) (kind : String) :
    Option (InProcessWorker.Handler DeploymentJobPayload DeploymentExecutionResult Call Call.Ans) :=
  if kind = deploymentJobKind then some (deploymentJobHandler engines) else none

/-- One tick of a wired worker. -/
def workerTick (engines : Engines) (options : WorkerOptions) : PlaneProg (Option JobOutcome) :=
  InProcessWorker.tick planePort options (handlers engines) deploymentApplier

end CloudWai.Deployment
