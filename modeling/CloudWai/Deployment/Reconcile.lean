import CloudWai.Deployment.Worker

/-!
# The stranded-deployment sweep

`buildDeploymentReconciler`: list the rows in flight that are older than a
cutoff, ask each row's engine about it, and write what the engine said — or, past
a ceiling counted from the row's creation, that it said nothing. A row is
resolved from the copy the listing returned; a call that throws ends the sweep.

Mirrors `apps/worker/src/deployment-reconcile.ts`.
-/

namespace CloudWai.Deployment

open Base Queue ControlPlaneStore

/-- `DeploymentReconcilerDeps`, at their defaults. -/
structure ReconcilerOptions where
  staleAfterMs : Nat := 10 * 60000
  hardCeilingMs : Nat := 60 * 60000
  limit : Nat := 50
  timeoutMs : Nat := 30000

/-- `unconfirmedReason`. -/
def unconfirmedReason (status : EngineStatus) (ceilingMs : Nat) (detail : String) : String :=
  s!"The deployment was still {status.wire} after {(ceilingMs + 30000) / 60000} minutes and " ++
    s!"the engine could not confirm the build: {detail}"

/-- What a sweep writes about a row. -/
structure Settled where
  status : EngineStatus
  url : Option String
  reason : Option String
deriving DecidableEq

/-- What the sweep writes. -/
def sweepPatch (row : DeploymentRow) (settled : Settled) (now : Instant) :
    DeploymentStatusInput where
  id := row.id
  organizationId := row.organizationId
  status := settled.status
  url := some settled.url
  failureReason := some settled.reason
  providerResourceId := row.providerResourceId
  deploymentResourceId := row.deploymentResourceId
  buildProviderResourceId := none
  buildProvider := none
  startedAt := some now
  finishedAt := some (finishedAt settled.status now)

/-- `writeSettled`. -/
def writeSettled (row : DeploymentRow) (now : Instant) (settled : Settled) : PlaneProg Bool :=
  (updateDeploymentStatus (sweepPatch row settled now)).bind fun _ =>
  if settled.status = .succeeded then
    (celebrate row.id row.organizationId row.projectId row.kind row.staged).bind fun _ => .ret true
  else .ret true

/-- The run's ref if the row has one, else the application's. -/
def strandedRef (row : DeploymentRow) : Option ProviderRef :=
  match given row.deploymentResourceId with
  | some handle => some ⟨row.organizationId, "coolify", .deployment, handle⟩
  | none =>
    (given row.providerResourceId).map fun id => ⟨row.organizationId, "coolify", .application, id⟩

/-- `ageMs(row.createdAt, now) < hardCeilingMs`. -/
def young (options : ReconcilerOptions) (now : Instant) (row : DeploymentRow) : Prop :=
  now - row.createdAt < options.hardCeilingMs

instance (options : ReconcilerOptions) (now : Instant) (row : DeploymentRow) :
    Decidable (young options now row) := inferInstanceAs (Decidable (_ < _))

/-- What the sweep makes of an engine's answer; `none` leaves the row alone. -/
def verdict (options : ReconcilerOptions) (now : Instant) (row : DeploymentRow) :
    AdapterResult DeploymentState → Option Settled
  | .ok _ state =>
    if state.status.InFlight then
      if young options now row then none
      else some ⟨.failed, none, some (unconfirmedReason row.status options.hardCeilingMs
        "the engine still reports it in flight.")⟩
    else some ⟨state.status, state.url, none⟩
  | .err status reason =>
    if status = .notConfigured then
      some ⟨.failed, none, some s!"The engine has no record of this build: {reason}"⟩
    else if young options now row then none
    else some ⟨.failed, none, some (unconfirmedReason row.status options.hardCeilingMs reason)⟩

/-- What becomes of an old row that no engine ever gave a handle. -/
def neverRecorded (options : ReconcilerOptions) (row : DeploymentRow) : Settled :=
  ⟨.failed, none, some (unconfirmedReason row.status options.hardCeilingMs
    "no engine handle was ever recorded.")⟩

/-- A preview is always a container; production follows the project. -/
def sweepModel (row : DeploymentRow) (target : Option ProjectDeploymentTarget) : ExecutionModel :=
  match row.kind with
  | .preview => .container
  | .production => (target.map (·.executionModel)).getD .container

/-- `settleOne`: was the row written? -/
def settleOne (engines : Engines) (options : ReconcilerOptions) (now : Instant)
    (row : DeploymentRow) : PlaneProg Bool :=
  (getProjectDeploymentTargetForService row.organizationId row.projectId).bind fun target =>
  let engine := deploymentEngineFor engines row.id (sweepModel row target)
  let ctx : AdapterContext :=
    ⟨row.organizationId, s!"reconcile-deployment-{row.id}", options.timeoutMs⟩
  match strandedRef row with
  | none =>
    if young options now row then .ret false
    else
      writeSettled row now (neverRecorded options row)
  | some ref =>
    (engine.getDeployment ctx ref).bind fun state =>
    match verdict options now row state with
    | some settled => writeSettled row now settled
    | none => .ret false

/-- `resolveListLimit`. -/
def resolveListLimit (limit : Nat) : Nat := if limit < 1 then 100 else min limit 200

/-- The sweep's loop, and how many rows it wrote. -/
def settleAll (engines : Engines) (options : ReconcilerOptions) (now : Instant) :
    List DeploymentRow → PlaneProg Nat
  | [] => .ret 0
  | row :: rest =>
    (settleOne engines options now row).bind fun settled =>
    (settleAll engines options now rest).bind fun n => .ret (if settled then n + 1 else n)

/-- The sweep. -/
def reconcile (engines : Engines) (options : ReconcilerOptions) : PlaneProg Nat :=
  clock.bind fun now =>
  (must "listStrandedDeploymentsForService"
    (.selectStranded (now - options.staleAfterMs) (resolveListLimit options.limit))).bind
    fun (stranded : List DeploymentRow) =>
  settleAll engines options now stranded

end CloudWai.Deployment
