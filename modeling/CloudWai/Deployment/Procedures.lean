import CloudWai.Grammar
import CloudWai.Deployment.Reconcile

/-!
# The API's deployment procedures

`requestDeployment` and `rollbackDeployment` on the durable path — the row is
written, the command is enqueued, the engine is left to the worker — and
`cancelDeployment` and `promoteDeployment`, which act on the request path.

The inputs are those that passed the procedures' own validation: refs,
repository and build pack are well-formed or absent, and the idempotency key is
trimmed or freshly generated. `requireCapability` reads the caller's memberships
and key, which do not change during a request, so it is a function of the
request's context.

Mirrors `apps/api/src/procedures/deployments.ts` and `assertWithinBudget` of `billing.ts`.
Whether the hard cap refuses is settled outside here; `Billing` has the decision itself.
-/

namespace CloudWai.Deployment

open Base Queue ControlPlaneStore

/-- A capability the deployment procedures ask for. -/
inductive Capability where
  | create | rollback | cancel | read
deriving DecidableEq

/-- `RequestContext`: who asks, and what `requireCapability` says to it. -/
structure RequestContext where
  userId : UserId
  refusal : OrganizationId → Capability → Option String

/-- `throw new ApiError(code, message)`. -/
def apiError {α : Type} (code message : String) : PlaneProg α := .raise s!"{code}: {message}"

/-- `requireCapability`. -/
def requireCapability (ctx : RequestContext) (org : OrganizationId) (c : Capability) :
    PlaneProg Unit :=
  match ctx.refusal org c with
  | none => .ret ()
  | some reason => .raise reason

namespace ControlPlaneStore

def getProject (user : UserId) (project : ProjectId) : PlaneProg (Option ProjectRow) :=
  must "getProject" (.selectProjectOfMember user project)

def getDeployment (user : UserId) (id : DeploymentId) : PlaneProg (Option DeploymentRow) :=
  must "getDeployment" (.selectDeploymentOfMember user id)

def getProjectDeploymentTarget (user : UserId) (project : ProjectId) :
    PlaneProg (Option ProjectDeploymentTarget) :=
  must "getProjectDeploymentTarget" (.selectTargetOfMember user project)

def findDeploymentByIdempotencyKey (user : UserId) (org : OrganizationId) (key : String) :
    PlaneProg (Option DeploymentRow) :=
  must "findDeploymentByIdempotencyKey" (.selectDeploymentByKey user org key)

def createDeployment (input : DeploymentCreateInput) : PlaneProg DeploymentRow :=
  must "createDeployment" (.insertDeployment input)

def createPreviewTarget (org : OrganizationId) (project : ProjectId) (key : String)
    (branch : Option String) (pullRequest : Option Nat) : PlaneProg Unit :=
  must "createPreviewTarget" (.insertPreviewTarget org project key branch pullRequest)

def recordAuditEvent (event : AuditEvent) : PlaneProg Unit :=
  must "recordAuditEvent" (.insertAudit event)

def listEnvironments (user : UserId) (project : ProjectId) :
    PlaneProg (List (EnvironmentId × EnvironmentKind)) :=
  must "listEnvironments" (.selectEnvironments user project)

end ControlPlaneStore

/-- The caller's project, and leave to act in its organization. -/
def authorizedProject (ctx : RequestContext) (project : ProjectId) (c : Capability) :
    PlaneProg ProjectRow :=
  (getProject ctx.userId project).bind fun
  | none => apiError "not_found" "Project not found."
  | some project => (requireCapability ctx project.organizationId c).bind fun _ => .ret project

/-- The project's own deployment, or `not_found`. -/
def projectDeployment (ctx : RequestContext) (project : ProjectRow) (id : DeploymentId) :
    PlaneProg DeploymentRow :=
  (getDeployment ctx.userId id).bind fun
  | none => apiError "not_found" "Deployment not found."
  | some row =>
    if row.projectId = project.id then .ret row
    else apiError "not_found" "Deployment not found."

/-! ## Cancelling -/

/-- `ADAPTER_TIMEOUT_MS`. -/
def adapterTimeoutMs : Nat := 30000

/-- What cancel writes: the row's own url and handles, a status, a reason. -/
def cancelPatch (org : OrganizationId) (row : DeploymentRow) (status : EngineStatus)
    (reason : String) (started : Instant) (finished : Option Instant) : DeploymentStatusInput where
  id := row.id
  organizationId := org
  status := status
  url := some row.url
  failureReason := some (some reason)
  providerResourceId := row.providerResourceId
  deploymentResourceId := row.deploymentResourceId
  buildProviderResourceId := none
  buildProvider := none
  startedAt := some started
  finishedAt := some finished

/-- The refusal to cancel what no engine has. -/
def neverReached : String :=
  "This deployment never reached the hosting engine, so there was no build to cancel."

/-- `CancelDeploymentResult`: the row, and the engine's own words. -/
abbrev CancelDeploymentResult := DeploymentRow × Option String

/-- The engine refused: the row keeps the status it was read with. -/
def keepRow (org : OrganizationId) (row : DeploymentRow) (reason : String) :
    PlaneProg CancelDeploymentResult :=
  clock.bind fun started =>
  (updateDeploymentStatus (cancelPatch org row row.status reason started none)).bind
    fun unchanged => .ret (unchanged.getD row, some reason)

/-- The run did not complete: the row is `failed`, and the audit says who. -/
def closeRow (ctx : RequestContext) (org : OrganizationId) (row : DeploymentRow)
    (reason : String) : PlaneProg CancelDeploymentResult :=
  clock.bind fun started =>
  clock.bind fun finished =>
  (updateDeploymentStatus
    (cancelPatch org row .failed reason started (some finished))).bind fun updated =>
  (recordAuditEvent ⟨org, ctx.userId, "deployment.cancelled", row.id⟩).bind fun _ =>
  .ret (updated.getD row, some reason)

/-- `engine.model === "serverless" ? "lambda" : "coolify"`. -/
def providerOf : ExecutionModel → String
  | .serverless => "lambda"
  | .container => "coolify"

/-- `cancelDeployment`, once the row was read. -/
def cancelRow (engines : Engines) (ctx : RequestContext) (project : ProjectRow)
    (row : DeploymentRow) : PlaneProg CancelDeploymentResult :=
  if ¬ row.status.InFlight then
    apiError "conflict"
      s!"Only a pending or running deployment can be cancelled; this one is {row.status.wire}."
  else
    let engine := deploymentEngineFor engines row.id project.executionModel
    match given row.deploymentResourceId with
    | none => closeRow ctx project.organizationId row neverReached
    | some handle =>
      (engine.cancel ⟨project.organizationId, s!"cancel-{row.id}", adapterTimeoutMs⟩
        ⟨project.organizationId, providerOf engine.model, .deployment, handle⟩).bind fun
      | .err _ reason => keepRow project.organizationId row reason
      | .ok _ _ => closeRow ctx project.organizationId row "Cancelled by the customer."

/-- `cancelDeployment`. -/
def cancelDeployment (engines : Engines) (ctx : RequestContext) (project : ProjectId)
    (id : DeploymentId) : PlaneProg CancelDeploymentResult :=
  (authorizedProject ctx project .cancel).bind fun project =>
  (projectDeployment ctx project id).bind fun row =>
  cancelRow engines ctx project row

/-! ## Logs -/

/-- Where a page of logs came from. -/
inductive LogSource where
  | build | deployment | application
deriving DecidableEq

/-- What `deploymentsLogs` answers. -/
structure DeploymentLogs where
  lines : List String
  cursor : Option String
  source : Option LogSource
  engineReason : Option String
deriving DecidableEq

/-- The page an engine gave, or its reason and no lines. -/
def logsFrom (source : LogSource) : AdapterResult LogPage → DeploymentLogs
  | .ok _ page => ⟨page.lines, page.cursor, some source, none⟩
  | .err _ reason => ⟨[], none, some source, some reason⟩

/-- The run's ref if the row has one, else the project's application. -/
def logsRef (project : ProjectRow) (row : Option DeploymentRow)
    (target : Option ProjectDeploymentTarget) (provider : String) :
    Option (ProviderRef × LogSource) :=
  match row.bind fun r => given r.deploymentResourceId with
  | some handle => some (⟨project.organizationId, provider, .deployment, handle⟩, .deployment)
  | none => target.bind fun t => (given t.providerResourceId).map fun app =>
      (⟨project.organizationId, t.provider.getD provider, .application, app⟩, .application)

/-- `deploymentsLogs`. That the row is one of the project's is not checked. -/
def deploymentsLogs (engines : Engines) (ctx : RequestContext) (project : ProjectId)
    (id : DeploymentId) (cursor : Option String) : PlaneProg DeploymentLogs :=
  (authorizedProject ctx project .read).bind fun project =>
  (getDeployment ctx.userId id).bind fun row =>
  (getProjectDeploymentTarget ctx.userId project.id).bind fun target =>
  match row.bind fun r => (given r.buildProviderResourceId).map fun handle => (r, handle) with
  | some (row, handle) =>
    (onEngine id (.getBuildLogs ⟨project.organizationId, s!"build-logs-{id}", adapterTimeoutMs⟩
      ⟨project.organizationId, row.buildProvider.getD "lambda", .build, handle⟩ cursor)).bind
      fun page => .ret (logsFrom .build page)
  | none =>
    let model := (target.map (·.executionModel)).getD project.executionModel
    match logsRef project row target (providerOf model) with
    | none => .ret ⟨[], none, none,
        some "This project has no application on the hosting engine yet, so it has no logs."⟩
    | some (ref, source) =>
      ((deploymentEngineFor engines id model).getLogs
        ⟨project.organizationId, s!"logs-{id}", adapterTimeoutMs⟩ ref cursor).bind fun page =>
      .ret (logsFrom source page)

/-! ## Promoting -/

/-- `promoteDeployment` of the API, once the row was read. -/
def promoteRow (ctx : RequestContext) (project : ProjectRow) (row : DeploymentRow) :
    PlaneProg (DeploymentRow × Option DeploymentId) :=
  if row.kind ≠ .production then
    apiError "conflict"
      "Only a production deployment can be live. A preview has its own URL and is never promoted."
  else if row.status ≠ .succeeded then
    apiError "conflict"
      s!"Only a succeeded deployment can be promoted; this one is {row.status.wire}."
  else
    (promoteDeployment project.organizationId project.id row.id).bind fun (promoted, previous) =>
    match promoted with
    | none => apiError "conflict" "The production pointer could not be moved."
    | some promoted =>
      (recordAuditEvent
        ⟨project.organizationId, ctx.userId, "deployment.promoted", row.id⟩).bind fun _ =>
      .ret (promoted, previous)

/-- `promoteDeployment` of the API: the row now live, and the one before it. -/
def promoteProcedure (ctx : RequestContext) (project : ProjectId) (id : DeploymentId) :
    PlaneProg (DeploymentRow × Option DeploymentId) :=
  (authorizedProject ctx project .rollback).bind fun project =>
  (projectDeployment ctx project id).bind fun row =>
  promoteRow ctx project row

/-! ## Requesting -/

/-- `[^a-z0-9]+` to a dash, and no dash at either end. -/
def dashed : List Char → List Char
  | [] => []
  | c :: rest =>
    if c.isLower || c.isDigit then c :: dashed rest
    else
      match dashed rest with
      | '-' :: rest => '-' :: rest
      | rest => '-' :: rest

/-- In lower case, dashed, and cut to its first `n` characters. -/
def slugOf (n : Nat) (value : String) : String :=
  let chars := dashed (Grammar.lowerCase value).toList
  let stripped := ((chars.dropWhile (· == '-')).reverse.dropWhile (· == '-')).reverse
  String.ofList (stripped.take n)

/-- `slug` of `previewKeyFor`. -/
def slug (value : String) : String := slugOf 100 value

/-- `previewKeyFor`. -/
def previewKeyFor (pullRequest : Option Nat) (branch commit : Option String) : String :=
  match pullRequest with
  | some n => s!"pr-{n}"
  | none =>
    match given branch with
    | some branch =>
      let key := s!"branch-{slug branch}"
      if key = "branch-" then "branch-unknown" else key
    | none =>
      match given commit with
      | some commit =>
        let kept := (Grammar.lowerCase commit).toList.filter fun c => c.isLower || c.isDigit
        let short := String.ofList (kept.take 40)
        if short = "" then "commit-unknown" else s!"commit-{short}"
      | none => "preview-unknown"

/-- `CreateDeploymentInput`, validated. -/
structure RequestInput where
  projectId : ProjectId
  idempotencyKey : String
  gitRepository : Option String
  gitBranch : Option String
  commit : Option String
  buildPack : Option String
  /-- `none` is absent; the inner option is what `parseRootDirectory` made of it. -/
  rootDirectory : Option (Option String)
  kind : DeploymentKind
  staged : Bool
  pullRequest : Option Nat

/-- `environmentIdFor`. -/
def environmentIdFor (user : UserId) (project : ProjectId) (kind : DeploymentKind) :
    PlaneProg (Option EnvironmentId) :=
  (listEnvironments user project).bind fun environments =>
  let wanted : EnvironmentKind := match kind with
    | .production => .production
    | .preview => .preview
  .ret ((environments.find? fun e => e.2 == wanted).map (·.1))

/-- `assertWithinBudget`. -/
def assertWithinBudget (org : OrganizationId) (metric : String) : PlaneProg Unit :=
  (must "getBudgetForService" (.hardCapRefusal org metric)).bind fun (refusal : Option String) =>
  match refusal with
  | none => .ret ()
  | some message => apiError "budget_exceeded" message

/-- `ensurePreviewTarget`: find or create. -/
def ensurePreviewTarget (org : OrganizationId) (project : ProjectId) (key : String)
    (branch : Option String) (pullRequest : Option Nat) : PlaneProg Unit :=
  (getPreviewTargetForService org project key).bind fun
  | some _ => .ret ()
  | none => createPreviewTarget org project key branch pullRequest

/-- `DeploymentRequestResult`. -/
structure DeploymentRequestResult where
  deployment : DeploymentRow
  replayed : Bool
  engineReason : Option String

/-- The replay test both requests make: the row the key already names. -/
def replayOf (ctx : RequestContext) (project : ProjectRow) (key : String) :
    PlaneProg (Option DeploymentRequestResult) :=
  (findDeploymentByIdempotencyKey ctx.userId project.organizationId key).bind fun
  | none => .ret none
  | some existing =>
    if existing.projectId = project.id then .ret (some ⟨existing, true, existing.failureReason⟩)
    else apiError "conflict"
      "This idempotency key was already used for a deployment in another project."

/-- The row a durable command starts from: `pending`, with no engine fields. -/
def pendingRow (ctx : RequestContext) (project : ProjectRow) (key : String)
    (environmentId : Option EnvironmentId) : DeploymentCreateInput where
  organizationId := project.organizationId
  projectId := project.id
  idempotencyKey := key
  requestedBy := ctx.userId
  status := .pending
  provider := "coolify"
  providerResourceId := none
  url := none
  failureReason := none
  kind := .production
  environmentId := environmentId
  staged := false
  gitBranch := none
  gitCommit := none
  pullRequest := none
  previewKey := none
  gitRepository := none
  buildPack := none
  rootDirectory := none

/-- Enqueue the command and say so. -/
def dispatch (ctx : RequestContext) (event key : String) (payload : DeploymentJobPayload) :
    PlaneProg Unit :=
  (onQueue (SqlJobQueue.enqueue
    ⟨payload.organizationId, deploymentJobKind, payload, key, none⟩)).bind fun _ =>
  recordAuditEvent ⟨payload.organizationId, ctx.userId, event, payload.deploymentId⟩

/-- The preview key of a request, if it is for a preview. -/
def RequestInput.previewKey (input : RequestInput) : Option String :=
  match input.kind with
  | .production => none
  | .preview => some (previewKeyFor (input.pullRequest.filter (0 < ·)) input.gitBranch input.commit)

/-- A preview's target is recorded before the worker runs. -/
def recordPreviewTarget (org : OrganizationId) (project : ProjectId) (input : RequestInput)
    (pullRequest : Option Nat) : PlaneProg Unit :=
  match input.previewKey with
  | none => .ret ()
  | some key => ensurePreviewTarget org project key input.gitBranch pullRequest

/-- `requestDeployment`, with a queue. -/
def requestDeployment (ctx : RequestContext) (input : RequestInput) :
    PlaneProg DeploymentRequestResult :=
  (authorizedProject ctx input.projectId .create).bind fun project =>
  let rootDirectory := input.rootDirectory.getD project.rootDirectory
  let pullRequest := match input.kind with
    | .production => none
    | .preview => input.pullRequest.filter (0 < ·)
  if input.staged = true ∧ input.kind = .preview then
    apiError "invalid_input"
      "Only a production deployment can be staged; a preview always has its own URL."
  else
    (replayOf ctx project input.idempotencyKey).bind fun
    | some result => .ret result
    | none =>
      (assertWithinBudget project.organizationId "deployments").bind fun _ =>
      (environmentIdFor ctx.userId project.id input.kind).bind fun environmentId =>
      (createDeployment
        { pendingRow ctx project input.idempotencyKey environmentId with
          kind := input.kind
          staged := input.staged
          gitBranch := input.gitBranch
          gitCommit := input.commit
          pullRequest := pullRequest
          previewKey := input.previewKey
          gitRepository := input.gitRepository
          buildPack := input.buildPack
          rootDirectory := rootDirectory }).bind fun row =>
      (recordPreviewTarget project.organizationId project.id input pullRequest).bind fun _ =>
      (dispatch ctx "deployment.enqueued" input.idempotencyKey
        { deploymentId := row.id
          organizationId := project.organizationId
          projectId := project.id
          action := .create
          projectSlug := project.slug
          gitRepository := input.gitRepository
          gitBranch := input.gitBranch
          buildPack := input.buildPack
          rootDirectory := rootDirectory
          commit := input.commit
          kind := input.kind
          staged := input.staged
          environmentId := environmentId
          previewKey := input.previewKey }).bind fun _ =>
      .ret ⟨row, false, none⟩

/-- `rollbackDeployment`, with a queue. -/
def rollbackDeployment (ctx : RequestContext) (project : ProjectId) (key commit : String) :
    PlaneProg DeploymentRequestResult :=
  (authorizedProject ctx project .rollback).bind fun project =>
  (replayOf ctx project key).bind fun
  | some result => .ret result
  | none =>
    (assertWithinBudget project.organizationId "deployments").bind fun _ =>
    (environmentIdFor ctx.userId project.id .production).bind fun environmentId =>
    (createDeployment (pendingRow ctx project key environmentId)).bind fun row =>
    -- read for the synchronous path; the worker resolves the target again
    (getProjectDeploymentTarget ctx.userId project.id).bind fun _ =>
    (dispatch ctx "deployment.rollback_enqueued" key
      { deploymentId := row.id
        organizationId := project.organizationId
        projectId := project.id
        action := .rollback
        projectSlug := project.slug
        gitRepository := none
        gitBranch := none
        buildPack := none
        rootDirectory := none
        commit := some commit
        kind := .production
        staged := false
        environmentId := environmentId
        previewKey := none }).bind fun _ =>
    .ret ⟨row, false, none⟩

end CloudWai.Deployment
