import CloudWai.Runtime.Domains
import CloudWai.Runtime.Variables

/-!
# The installation at work

One operation after the other: requests of the API, deliveries of deployment
jobs, and the ends of the runtime's background runs. The programs of the
deployment modules are run here against the runtime itself: a call of the hosting
adapter is answered by `SelfHosted`, and the worker's `envVars.sync` by
`syncEnvVars`.

Which job is claimed when is the queue's affair: any job can be delivered at any
time, and as often as one likes. There is no serverless engine, as in a setup
that configures none.

The API's procedures are in `apps/api/src/procedures`, the runtime in
`infra/deployment/runtime-server.mjs`.
-/

namespace CloudWai.Runtime

open Base Queue Deployment

/-! ## Answering the deployment code -/

/-- What is said where the serverless engine is not set up. -/
def serverlessMissing : String :=
  "lambda is not configured in this deployment. Set AWS_ACCESS_KEY_ID__<organizationId>, " ++
    "AWS_SECRET_ACCESS_KEY__<organizationId> and AWS_REGION__<organizationId>."

/-- And where the build engine is not. -/
def buildMissing : String :=
  "railpack is not configured in this deployment. Set BUILD_ENGINE_URL__<organizationId> and " ++
    "BUILD_ENGINE_TOKEN__<organizationId>."

def Setup.engines (setup : Setup) : Engines := ⟨some serverlessMissing, setup.envVars⟩

namespace Estate

/-- A method of the adapter. -/
def onRuntime {α : Type} (w : Estate) (f : State → α × State) : Except String α × Estate :=
  (.ok (f w.runtime).1, { w with runtime := (f w.runtime).2 })

/-- What the engine answers, and what becomes of the runtime. -/
def engine (setup : Setup) (o : Outside) (row : DeploymentId) (w : Estate) :
    (c : EngineCall) → Except String c.Ans × Estate
  | .createApplication ctx input => w.onRuntime (SelfHosted.createApplication setup o ctx input)
  | .deploy ctx ref => w.onRuntime (SelfHosted.deploy setup o ctx row ref)
  | .rollback ctx ref commit => w.onRuntime (SelfHosted.rollback setup o ctx ref commit)
  | .cancelDeployment ctx ref => w.onRuntime (SelfHosted.cancelDeployment setup o ctx ref)
  | .getDeployment .container ctx ref => w.onRuntime (SelfHosted.getDeployment setup o ctx ref)
  | .syncEnvVars ctx ref project environment =>
    (.ok (), syncEnvVars setup o ctx ref project environment w)
  | .createFunction .. => (.ok (.err .notConfigured serverlessMissing), w)
  | .publish .. => (.ok (.err .notConfigured serverlessMissing), w)
  | .deleteFunction .. => (.ok (.err .notConfigured serverlessMissing), w)
  | .getDeployment .serverless _ _ => (.ok (.err .notConfigured serverlessMissing), w)
  | .build .. => (.ok (.err .notConfigured buildMissing), w)
  | .getArtifact .. => (.ok (.err .notConfigured buildMissing), w)
  | .getBuildLogs .. => (.ok (.err .notConfigured buildMissing), w)
  -- no operation below reads a log, and the state has none
  | .getLogs model .. =>
    (match model with
      | .serverless => .ok (.err .notConfigured serverlessMissing)
      | .container => .error "logs are not kept", w)

/-- What the tables answer that `Deployment.Store` does not have. -/
def away (o : Outside) (w : Estate) : StoreCall → Elsewhere
  | .selectEnvironments _ project =>
    ⟨(w.listEnvironments project).map fun e => (e.id, e.kind), o.hardCap⟩
  | _ => ⟨[], o.hardCap⟩

/-- One awaited call. -/
def perform (setup : Setup) (o : Outside) (w : Estate) :
    (c : Deployment.Call) → Except String c.Ans × Estate
  | .queue c =>
    let a := c.run w.plane.now (fun _ => false) w.plane.jobs
    (a.1, { w with plane := { w.plane with jobs := a.2 } })
  | .store c =>
    let a := c.run w.plane.now (w.away o c) w.store
    (a.1, { w with plane := { w.plane with store := a.2 } })
  | .engine row c => w.engine setup o row c

/-- A program, run to its end. -/
def carryOut {α : Type} (setup : Setup) (o : Outside) (p : PlaneProg α) (w : Estate) :
    Except String α × Estate := p.eval (perform setup o) w

end Estate

/-! ## Operations -/

/-- The delivery of a job that was claimed. -/
def delivery (setup : Setup) (options : WorkerOptions) (job : Job DeploymentJobPayload) :
    PlaneProg JobOutcome :=
  InProcessWorker.deliver planePort options (handlers setup.engines) deploymentApplier job

/-- What is called from outside. -/
inductive Op where
  | request (ctx : Deployment.RequestContext) (input : RequestInput)
  | rollback (ctx : Deployment.RequestContext) (project : ProjectId) (key commit : String)
  | deliver (options : WorkerOptions) (job : JobId)
  | finish (attempt : String) (outcome : Outcome)
  | setEnvVar (ctx : CloudWai.RequestContext) (input : SetEnvVarInput)
  | removeEnvVar (ctx : CloudWai.RequestContext) (input : RemoveEnvVarInput)
  | addDomain (token : String) (ctx : CloudWai.RequestContext) (input : AddDomainInput)
  | verifyDomain (ctx : CloudWai.RequestContext) (org : OrganizationId) (id : Nat)
      (answer : VerifierAnswer)
  | removeDomain (ctx : CloudWai.RequestContext) (org : OrganizationId) (id : Nat)

/-- An operation, and what the outside does meanwhile. -/
structure Move where
  op : Op
  outside : Outside

/-- The history keeps what a request saves for Production. -/
def Estate.noteSave (setup : Setup) (ctx : CloudWai.RequestContext) (input : SetEnvVarInput)
    (before after : Estate) : Estate :=
  match setTarget setup ctx input before with
  | .error _ => after
  | .ok t =>
    if t.environment.kind = .production then
      { after with
        saved := (t.project.id, t.key, input.value) :: before.saved
        removed := before.removed.filter fun r => !(r.projectId == t.project.id && r.key == t.key) }
    else after

/-- And what one removes from it. -/
def Estate.noteRemoval (ctx : CloudWai.RequestContext) (input : RemoveEnvVarInput)
    (before : Estate) (r : Result RemoveEnvVarOutcome) : Estate :=
  match r.1, removeTarget ctx input before with
  | .ok ⟨true, _⟩, .ok t =>
    if t.environment.kind = .production then
      { r.2 with removed := ⟨t.project.id, t.key, before.runtime.starts⟩ :: before.removed }
    else r.2
  | _, _ => r.2

/-- One operation. -/
def step (setup : Setup) (w : Estate) (m : Move) : Estate :=
  match m.op with
  | .request ctx input => (w.carryOut setup m.outside (requestDeployment ctx input)).2
  | .rollback ctx project key commit =>
    (w.carryOut setup m.outside (rollbackDeployment ctx project key commit)).2
  | .deliver options id =>
    match w.plane.jobs.find id with
    | none => w
    | some job => (w.carryOut setup m.outside (delivery setup options job.toJob)).2
  | .finish attempt outcome =>
    { w with runtime := w.runtime.finish setup.config outcome attempt }
  | .setEnvVar ctx input =>
    w.noteSave setup ctx input (setEnvVar setup m.outside ctx input w).2
  | .removeEnvVar ctx input =>
    w.noteRemoval ctx input (removeEnvVar setup m.outside ctx input w)
  | .addDomain token ctx input => (addDomain token ctx input w).2
  | .verifyDomain ctx org id answer => (verifyDomain setup m.outside ctx org id answer w).2
  | .removeDomain ctx org id => (removeDomain setup m.outside ctx org id w).2

/-- Projects, environments and members as they are, and nothing deployed. -/
def Estate.initial (now : Instant) (projects : ProjectsTable)
    (members : OrganizationId → UserId → Bool)
    (environments : ProjectId → ProjectEnvironments) : Estate where
  plane := World.initial now
    (projects.update (fun _ => true)
      ⟨fun p => { p with provider := none, providerResourceId := none }, fun _ => rfl⟩) members
  environments := environments
  vars := Table.empty
  domains := Table.empty
  edge := []
  runtime := State.initial
  saved := []
  removed := []

/-! ## Scripts -/

/-- A router, and a runtime that every organization may use. -/
def installation : Setup where
  config := ⟨true, "apps.example.com", "https", "127.0.0.1"⟩
  credentials _ := some "http://runtime:8095"
  cipher := true
  envVars := true

/-- Every request is answered, and docker starts what it is given. -/
def calm : Outside where
  wire _ _ := .answered
  appId := "app"
  attempt := "run"
  handle _ := ⟨"0a1b2c3d", by decide⟩
  docker := .started true
  port := 18100
  running := true
  refusal _ := none
  unreadable _ := false
  edgeRefusal := none
  policy _ := false
  hardCap := none

/-- Production and Preview, as the trigger of migration 0024 makes them. -/
def twoEnvironments : ProjectEnvironments where
  list := [⟨1, .preview, false⟩, ⟨0, .production, true⟩]
  ids := by decide
  oneProduction := by decide

/-- One project, of somebody who may do everything. -/
def Estate.scripted : Estate := Estate.initial 0 oneProject (fun _ _ => true) fun _ => twoEnvironments

/-- The owner of the organization. -/
def theOwner : CloudWai.RequestContext := ⟨7, [⟨1, 7, .owner⟩], none⟩

/-- A deploy with its background run still to come. -/
def deployed : List Move :=
  [⟨.request owner production, calm⟩, ⟨.deliver aWorker 0, calm⟩]

/-- The build of a repository with one branch succeeds, and the container starts. -/
def started : Outcome :=
  ⟨.ok ⟨some ⟨"c0", [("main", "c0")], ["main"]⟩, true, "tag"⟩, none, .started true, 18100,
    fun _ => none⟩

/-- Nothing gets to the runtime, and nothing comes back. -/
def cutOff : Outside := { calm with wire := fun _ _ => .unreachable "ECONNREFUSED" }

end CloudWai.Runtime
