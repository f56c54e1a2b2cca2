import Mathlib.Data.List.Basic

/-!
# The vocabulary the packages share

What `packages/contracts` fixes for both apps: the engine's statuses, a job's
states, the result of an adapter call, references into an engine, and the
payload of the durable deployment job. Identifiers are opaque to every function
modelled here, so they are numbers; names, handles, commits and messages are
strings, because the code looks at some of them (an empty handle is falsy).
Instants and durations are milliseconds.

Mirrors `ids.ts`, `status.ts` and `jobs.ts` of `packages/contracts/src`. Payloads of job
kinds that no modelled worker runs are left out.
-/

namespace CloudWai

abbrev OrganizationId := Nat
abbrev ProjectId := Nat
abbrev DeploymentId := Nat
abbrev EnvironmentId := Nat
abbrev UserId := Nat
abbrev JobId := Nat

/-- Milliseconds since the epoch. -/
abbrev Instant := Nat

/-- `ENGINE_STATUSES`. -/
inductive EngineStatus where
  | pending | running | succeeded | failed | degraded | notConfigured
deriving DecidableEq, Repr

/-- A status as it is written in messages and columns. -/
def EngineStatus.wire : EngineStatus → String
  | .pending => "pending"
  | .running => "running"
  | .succeeded => "succeeded"
  | .failed => "failed"
  | .degraded => "degraded"
  | .notConfigured => "not_configured"

/-- A build the engine is still carrying out: the status test of the resume
path, the sweep, the cancel procedure and the processor. -/
def EngineStatus.InFlight (st : EngineStatus) : Prop := st = .pending ∨ st = .running

instance (st : EngineStatus) : Decidable st.InFlight := inferInstanceAs (Decidable (_ ∨ _))

/-- `isTerminal` of the deployment applier: everything that is not in flight. -/
def EngineStatus.Terminal (st : EngineStatus) : Prop := st ≠ .pending ∧ st ≠ .running

instance (st : EngineStatus) : Decidable st.Terminal := inferInstanceAs (Decidable (_ ∧ _))

theorem EngineStatus.terminal_iff {st : EngineStatus} : st.Terminal ↔ ¬ st.InFlight := by
  cases st <;> simp [Terminal, InFlight]

theorem EngineStatus.succeeded_terminal : EngineStatus.succeeded.Terminal := by decide

/-- The states `orchestration_jobs.state` is ever written with. -/
inductive JobState where
  | queued | running | succeeded | failed
deriving DecidableEq, Repr

/-- A job nobody will claim or reap again. -/
def JobState.Terminal (st : JobState) : Prop := st = .succeeded ∨ st = .failed

instance (st : JobState) : Decidable st.Terminal := inferInstanceAs (Decidable (_ ∨ _))

/-- `AdapterResult`: what an engine or a handler reports. -/
inductive AdapterResult (α : Type) where
  | ok (status : EngineStatus) (value : α)
  | err (status : EngineStatus) (reason : String)
deriving DecidableEq, Repr

/-- The status either shape carries. -/
def AdapterResult.status {α : Type} : AdapterResult α → EngineStatus
  | .ok st _ => st
  | .err st _ => st

/-- `result.ok`. -/
def AdapterResult.accepted {α : Type} : AdapterResult α → Bool
  | .ok _ _ => true
  | .err _ _ => false

/-- The result of a method whose one request had this result. -/
def AdapterResult.report {α β : Type} (status : EngineStatus) (f : α → β) :
    AdapterResult α → AdapterResult β
  | .ok _ value => .ok status (f value)
  | .err status reason => .err status reason

/-- `ExecutionModel`. -/
inductive ExecutionModel where
  | container | serverless
deriving DecidableEq, Repr

/-- What a `ProviderRef` addresses. -/
inductive ResourceType where
  | application | deployment | build | database | backup | function
deriving DecidableEq, Repr

/-- `ProviderRef`: an engine's own name for one of its things. -/
structure ProviderRef where
  organizationId : OrganizationId
  provider : String
  resourceType : ResourceType
  resourceId : String
deriving DecidableEq, Repr

/-- What every adapter call is told besides its input. -/
structure AdapterContext where
  organizationId : OrganizationId
  idempotencyKey : String
  timeoutMs : Nat
deriving DecidableEq, Repr

/-- `DeploymentState`: the engine's answer about one run. -/
structure DeploymentState where
  status : EngineStatus
  url : Option String
  reason : Option String
deriving DecidableEq, Repr

/-- What a deployment is for. -/
inductive DeploymentKind where
  | production | preview
deriving DecidableEq, Repr

/-- How it comes about: by a build, or by an image that is there. -/
inductive DeploymentAction where
  | create | rollback
deriving DecidableEq, Repr

/-- `DeploymentJobPayload`: the durable command the API writes and the worker
carries out. -/
structure DeploymentJobPayload where
  deploymentId : DeploymentId
  organizationId : OrganizationId
  projectId : ProjectId
  action : DeploymentAction
  projectSlug : String
  gitRepository : Option String
  gitBranch : Option String
  buildPack : Option String
  rootDirectory : Option String
  commit : Option String
  kind : DeploymentKind
  staged : Bool
  environmentId : Option EnvironmentId
  previewKey : Option String
deriving DecidableEq, Repr

/-- `DEPLOYMENT_JOB_KIND`. -/
def deploymentJobKind : String := "deployments.execute"

/-- JavaScript truthiness of a nullable string: neither null nor empty. -/
def truthy (s : Option String) : Bool := s.isSome && s != some ""

end CloudWai
