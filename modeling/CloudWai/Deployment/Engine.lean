import CloudWai.Queue.Sql
import CloudWai.Deployment.Store

/-!
# Everything the deployment code awaits, and the execution router

An awaited call is a queue request, a store request or a call of an engine
adapter. An engine call is labelled with the deployment row it is made for; no
engine sees the label, and it lets a run be read as "the calls for this row".

`deploymentEngineFor` wraps the adapters in one port. A configured serverless
engine has neither rollback nor cancel, so its port answers those itself; an
unconfigured one is a stand-in adapter whose every method answers
`not_configured`, and its port passes every operation on to some method of it.

Mirrors `packages/adapters/src/execution-router.ts`. What an engine answers is settled
outside: any answer of its type, or none.
-/

namespace CloudWai.Deployment

open Base Queue

/-! ## Adapter calls -/

/-- What `createApplication` is told; a field the port drops is absent. -/
structure CreateApplicationInput where
  name : String
  gitRepository : Option String
  gitBranch : Option String
  buildPack : Option String
  rootDirectory : Option String
deriving DecidableEq

/-- `ServerlessArtifact`. -/
inductive ServerlessArtifact where
  | s3 (bucket key : String)
  | image (uri : String)
deriving DecidableEq

/-- `BuildArtifact`, the functions by route in the order of their keys. -/
structure BuildArtifact where
  image : Option String
  bucket : Option String
  functions : List (String × String)
deriving DecidableEq

/-- `BuildRequest` of a git source. -/
structure BuildRequest where
  repository : String
  branch : Option String
  rootDirectory : Option String
  buildPack : Option String
deriving DecidableEq

/-- `LogPage` -/
structure LogPage where
  lines : List String
  cursor : Option String
deriving DecidableEq

/-- The adapter methods, each with its context. -/
inductive EngineCall where
  /-- `hosting.createApplication` -/
  | createApplication (ctx : AdapterContext) (input : CreateApplicationInput)
  /-- `hosting.deploy` -/
  | deploy (ctx : AdapterContext) (applicationRef : ProviderRef)
  /-- `hosting.rollback` -/
  | rollback (ctx : AdapterContext) (applicationRef : ProviderRef) (commit : String)
  /-- `hosting.cancelDeployment` -/
  | cancelDeployment (ctx : AdapterContext) (ref : ProviderRef)
  /-- `serverless.createFunction` -/
  | createFunction (ctx : AdapterContext) (name : String)
  /-- `serverless.deploy` -/
  | publish (ctx : AdapterContext) (functionRef : ProviderRef)
      (artifact : Option ServerlessArtifact)
  /-- `serverless.deleteFunction` -/
  | deleteFunction (ctx : AdapterContext) (ref : ProviderRef)
  /-- `hosting.getDeployment` or `serverless.getDeployment` -/
  | getDeployment (model : ExecutionModel) (ctx : AdapterContext) (ref : ProviderRef)
  /-- `hosting.getLogs` or `serverless.getLogs` -/
  | getLogs (model : ExecutionModel) (ctx : AdapterContext) (ref : ProviderRef)
      (cursor : Option String)
  /-- `build.build` -/
  | build (ctx : AdapterContext) (request : BuildRequest)
  /-- `build.getArtifact` -/
  | getArtifact (ctx : AdapterContext) (ref : ProviderRef)
  /-- `build.getBuildLogs` -/
  | getBuildLogs (ctx : AdapterContext) (ref : ProviderRef) (cursor : Option String)
  /-- `envVars.sync` -/
  | syncEnvVars (ctx : AdapterContext) (applicationRef : ProviderRef) (project : ProjectId)
      (environment : EnvironmentId)

/-- An `OperationRef` is its `providerRef`; nobody reads the job id. -/
def EngineCall.Ans : EngineCall → Type
  | .createApplication .. => AdapterResult ProviderRef
  | .deploy .. => AdapterResult ProviderRef
  | .rollback .. => AdapterResult ProviderRef
  | .cancelDeployment .. => AdapterResult Unit
  | .createFunction .. => AdapterResult ProviderRef
  | .publish .. => AdapterResult ProviderRef
  | .deleteFunction .. => AdapterResult Unit
  | .getDeployment .. => AdapterResult DeploymentState
  | .getLogs .. => AdapterResult LogPage
  | .build .. => AdapterResult ProviderRef
  | .getArtifact .. => AdapterResult BuildArtifact
  | .getBuildLogs .. => AdapterResult LogPage
  | .syncEnvVars .. => Unit

/-! ## Calls and programs -/

abbrev DeploymentQueueCall := QueueCall DeploymentJobPayload

/-- One awaited call. -/
inductive Call where
  | queue (c : DeploymentQueueCall)
  | store (c : StoreCall)
  | engine (row : DeploymentId) (c : EngineCall)

def Call.Ans : Call → Type
  | .queue c => c.Ans
  | .store c => c.Ans
  | .engine _ c => c.Ans

/-- A program of the control plane. -/
abbrev PlaneProg (α : Type) := Prog Call Call.Ans String α

/-- A method of the SQL queue, run among the other calls. -/
def onQueue {α : Type} (p : QueueProg DeploymentJobPayload α) : PlaneProg α :=
  p.embed Call.queue fun _ a => a

/-- An adapter call made for `row`. -/
def onEngine (row : DeploymentId) (c : EngineCall) : PlaneProg c.Ans :=
  Prog.call (Call.engine row c)

/-- `new Date()`. -/
def clock : PlaneProg Instant := onQueue SqlJobQueue.now

/-- `must`: a refused store request throws. -/
def must (operation : String) (c : StoreCall) : PlaneProg c.Ans :=
  .await (.store c) fun
    | .ok a => .ret a
    | .error reason => .raise (unavailable operation reason)

/-! ## The execution router -/

/-- What is wired: the reason the serverless stand-in gives when there is no
configured serverless engine, and whether environment variables can be pushed. -/
structure Engines where
  serverlessMissing : Option String
  envVars : Bool

/-- What `ensureTarget` is told. -/
abbrev TargetInput := CreateApplicationInput

/-- `DeploymentEngine`: the operations both engines have. -/
structure DeploymentEngine where
  model : ExecutionModel
  ensureTarget : AdapterContext → TargetInput → PlaneProg (AdapterResult ProviderRef)
  deploy : AdapterContext → ProviderRef → Option ServerlessArtifact →
    PlaneProg (AdapterResult ProviderRef)
  getDeployment : AdapterContext → ProviderRef → PlaneProg (AdapterResult DeploymentState)
  rollback : AdapterContext → ProviderRef → Option String → PlaneProg (AdapterResult ProviderRef)
  cancel : AdapterContext → ProviderRef → PlaneProg (AdapterResult Unit)
  getLogs : AdapterContext → ProviderRef → Option String → PlaneProg (AdapterResult LogPage)

/-- `value ? { field: value } : {}`. -/
def given (s : Option String) : Option String := if truthy s then s else none

/-- The container engine's operations, as the executor calls them. -/
def containerDeploymentEngine (row : DeploymentId) : DeploymentEngine where
  model := .container
  ensureTarget ctx input := onEngine row (.createApplication ctx
    { name := input.name
      gitRepository := given input.gitRepository
      gitBranch := given input.gitBranch
      buildPack := given input.buildPack
      rootDirectory := given input.rootDirectory })
  deploy ctx ref _ := onEngine row (.deploy ctx ref)
  getDeployment ctx ref := onEngine row (.getDeployment .container ctx ref)
  rollback ctx ref commit :=
    match given commit with
    | some commit => onEngine row (.rollback ctx ref commit)
    | none => .ret (.err .notConfigured
        "A rollback needs the git revision to return to, and none was resolved.")
  cancel ctx ref := onEngine row (.cancelDeployment ctx ref)
  getLogs ctx ref cursor := onEngine row (.getLogs .container ctx ref cursor)

/-- What the serverless engine says to the container engine's operations. -/
def unsupported {α : Type} (operation : String) : AdapterResult α :=
  .err .notConfigured (s!"The serverless engine has no {operation}: that operation belongs to the " ++
    "container engine, and this project's execution model is serverless.")

/-- What it says without an artifact. -/
def missingArtifact {α : Type} (action : String) : AdapterResult α :=
  .err .notConfigured (s!"This project runs serverless, and {action} needs a built artifact (an S3 " ++
    "object or an ECR image). None reached the deploy, so the step is not performed rather than faked.")

/-- No caller of `ensureTarget` passes an artifact. -/
def serverlessDeploymentEngine (row : DeploymentId) : DeploymentEngine where
  model := .serverless
  ensureTarget ctx input := onEngine row (.createFunction ctx input.name)
  deploy ctx ref artifact :=
    match artifact with
    | none => .ret (missingArtifact "publishing new code")
    | some artifact => onEngine row (.publish ctx ref (some artifact))
  getDeployment ctx ref := onEngine row (.getDeployment .serverless ctx ref)
  rollback _ _ _ := .ret (unsupported "rollback")
  cancel _ _ := .ret (unsupported "cancel")
  getLogs ctx ref cursor := onEngine row (.getLogs .serverless ctx ref cursor)

/-- A rollback is passed on as a deploy and a cancel as a delete: the stand-in
answers them all alike. -/
def notConfiguredServerless (row : DeploymentId) : DeploymentEngine where
  model := .serverless
  ensureTarget ctx input := onEngine row (.createFunction ctx input.name)
  deploy ctx ref artifact := onEngine row (.publish ctx ref artifact)
  getDeployment ctx ref := onEngine row (.getDeployment .serverless ctx ref)
  rollback ctx ref _ := onEngine row (.publish ctx ref none)
  cancel ctx ref := onEngine row (.deleteFunction ctx ref)
  getLogs ctx ref cursor := onEngine row (.getLogs .serverless ctx ref cursor)

/-- The engine that the project's model asks for. -/
def deploymentEngineFor (engines : Engines) (row : DeploymentId) :
    ExecutionModel → DeploymentEngine
  | .container => containerDeploymentEngine row
  | .serverless =>
    if engines.serverlessMissing.isNone then serverlessDeploymentEngine row
    else notConfiguredServerless row

/-- What an adapter answers: the stand-in its reason, any other what it likes. -/
def Engines.answer (engines : Engines) (free : (c : EngineCall) → Except String c.Ans) :
    (c : EngineCall) → Except String c.Ans :=
  match engines.serverlessMissing with
  | none => free
  | some reason => fun
    | .createFunction .. => .ok (.err .notConfigured reason)
    | .publish .. => .ok (.err .notConfigured reason)
    | .deleteFunction .. => .ok (.err .notConfigured reason)
    | .getDeployment .serverless _ _ => .ok (.err .notConfigured reason)
    | .getLogs .serverless _ _ _ => .ok (.err .notConfigured reason)
    | c => free c

/-- Whatever the port, asking for a deployment is one call of its adapter. -/
theorem port_getDeployment (engines : Engines) (row : DeploymentId) (model : ExecutionModel) :
    ∃ m, ∀ ctx ref, (deploymentEngineFor engines row model).getDeployment ctx ref =
      onEngine row (.getDeployment m ctx ref) := by
  unfold deploymentEngineFor
  split
  · exact ⟨.container, fun _ _ => rfl⟩
  split
  · exact ⟨.serverless, fun _ _ => rfl⟩
  · exact ⟨.serverless, fun _ _ => rfl⟩

/-- A cancel is one call about the ref, or no call and a refusal. -/
theorem port_cancel (engines : Engines) (row : DeploymentId) (model : ExecutionModel)
    (ctx : AdapterContext) (ref : ProviderRef) :
    (∃ reason, (deploymentEngineFor engines row model).cancel ctx ref =
      .ret (.err .notConfigured reason)) ∨
    (deploymentEngineFor engines row model).cancel ctx ref =
      onEngine row (.cancelDeployment ctx ref) ∨
    (deploymentEngineFor engines row model).cancel ctx ref =
      onEngine row (.deleteFunction ctx ref) := by
  unfold deploymentEngineFor
  split
  · exact .inr (.inl rfl)
  split
  · exact .inl ⟨_, rfl⟩
  · exact .inr (.inr rfl)

end CloudWai.Deployment
