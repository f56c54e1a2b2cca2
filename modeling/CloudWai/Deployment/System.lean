import CloudWai.Queue.Workers
import CloudWai.Deployment.Hook

/-!
# The control plane running

Any number of worker ticks, reaps, sweeps and API requests interleaved at their
awaits over one database. Requests can be lost, or their answers; engines answer
whatever they like; processes die; time passes, and customers change a project's
settings at any moment.

A worker's loop is a sequence of the ticks, reaps and sweeps here, so every run
of the loop is among the runs of this system.

The loop is that of `apps/worker/src/runtime.ts`; signals and the health endpoint are left
out.
-/

namespace CloudWai.Deployment

open Base Queue

/-- The database and its clock. -/
structure World where
  now : Instant
  jobs : JobsTable DeploymentJobPayload
  store : Store

/-- What the outside settles about one call. -/
structure Oracle where
  fault : Fault
  locked : JobId → Bool
  engine : (c : EngineCall) → Except String c.Ans
  away : Elsewhere

/-- Nothing is enqueued or deployed yet. -/
def World.initial (now : Instant) (projects : ProjectsTable)
    (members : OrganizationId → UserId → Bool) : World :=
  ⟨now, Table.empty, Store.initial projects members⟩

/-- One awaited call. -/
def World.perform (engines : Engines) (w : World) (o : Oracle) :
    (c : Call) → Except String c.Ans × World
  | .queue c =>
    let a := c.run w.now o.locked w.jobs
    (if c.remote then o.fault else .none).apply w (a.1, { w with jobs := a.2 })
  | .store c =>
    let a := c.run w.now o.away w.store
    o.fault.apply w (a.1, { w with store := a.2 })
  | .engine _ c => (engines.answer o.engine c, w)

/-- What changes without a call of this program. -/
inductive Drift where
  | tick (ms : Nat)
  /-- `updateProject` -/
  | reconfigure (project : ProjectId) (slug : String) (model : ExecutionModel)
      (rootDirectory : Option String)

/-- What happens without a thread: time passes, a project is edited. -/
def World.drift (w : World) : Drift → World
  | .tick ms => { w with now := w.now + ms }
  | .reconfigure project slug model rootDirectory =>
    { w with
      store := { w.store with
        projects := w.store.projects.update (fun p => p.id == project)
          ⟨fun p => { p with
            slug := slug
            executionModel := model
            rootDirectory := rootDirectory }, fun _ => rfl⟩ } }

/-! ## Tasks -/

/-- What the worker and the API do. -/
inductive Task where
  | work (options : WorkerOptions)
  | reap
  | sweep (options : ReconcilerOptions)
  | request (ctx : RequestContext) (input : RequestInput)
  | rollback (ctx : RequestContext) (project : ProjectId) (key commit : String)
  | cancel (ctx : RequestContext) (project : ProjectId) (id : DeploymentId)
  | promote (ctx : RequestContext) (project : ProjectId) (id : DeploymentId)
  | logs (ctx : RequestContext) (project : ProjectId) (id : DeploymentId) (cursor : Option String)
  /-- A git provider delivers. -/
  | hook (link : ProjectGitLink) (delivery : ParsedGitDelivery)

/-- `queue.reapExpired()`. -/
def reapOnce : PlaneProg Nat := clock.bind fun now => onQueue (SqlJobQueue.reapExpired now)

/-- A task's outcome is nobody's concern once it has ended. -/
def ignored {α : Type} (p : PlaneProg α) : PlaneProg Unit := p.bind fun _ => .ret ()

/-- The program of a task. -/
def Task.body (engines : Engines) : Task → PlaneProg Unit
  | .work options => ignored (workerTick engines options)
  | .reap => ignored reapOnce
  | .sweep options => ignored (reconcile engines options)
  | .request ctx input => ignored (requestDeployment ctx input)
  | .rollback ctx project key commit => ignored (rollbackDeployment ctx project key commit)
  | .cancel ctx project id => ignored (cancelDeployment engines ctx project id)
  | .promote ctx project id => ignored (promoteProcedure ctx project id)
  | .logs ctx project id cursor => ignored (deploymentsLogs engines ctx project id cursor)
  | .hook link delivery => ignored (deployFromDelivery link delivery)

/-- The control plane with everybody on it. -/
def planeHost (engines : Engines) : Host World Oracle Drift Task Call Call.Ans String where
  perform := World.perform engines
  drift := World.drift
  body := Task.body engines

/-- A world with the threads that run in it. -/
abbrev PlaneSys := Sys World Task Call Call.Ans String

/-- A step of such a system. -/
abbrev PlaneMove := Move Task Oracle Drift

/-- A bare call of one of the store's two writing methods. -/
inductive StoreTask where
  | update (input : DeploymentStatusInput)
  | promote (org : OrganizationId) (project : ProjectId) (id : DeploymentId)

def StoreTask.body : StoreTask → PlaneProg Unit
  | .update input => ignored (ControlPlaneStore.updateDeploymentStatus input)
  | .promote org project id => ignored (ControlPlaneStore.promoteDeployment org project id)

/-- The same control plane with bare store calls among the tasks. -/
def openHost (engines : Engines) :
    Host World Oracle Drift (Task ⊕ StoreTask) Call Call.Ans String where
  perform := World.perform engines
  drift := World.drift
  body
    | .inl t => t.body engines
    | .inr t => t.body

/-- The same with callers of the store's own methods. -/
abbrev OpenSys := Sys World (Task ⊕ StoreTask) Call Call.Ans String

abbrev OpenMove := Move (Task ⊕ StoreTask) Oracle Drift

/-! ## One call's effect on the tables -/

/-- A call takes no time. -/
theorem perform_now (engines : Engines) (w : World) (o : Oracle) (c : Call) :
    (w.perform engines o c).2.now = w.now := by
  cases c with
  | engine row c => rfl
  | queue c =>
    simp only [World.perform, Fault.apply_snd]
    split <;> split <;> rfl
  | store c =>
    simp only [World.perform, Fault.apply_snd]
    split <;> rfl

/-- A store request's effect, if it took one. -/
theorem perform_store (engines : Engines) (w : World) (o : Oracle) (c : StoreCall) :
    (w.perform engines o (.store c)).2.store =
      if o.fault.Lands then (c.run w.now o.away w.store).2 else w.store := by
  simp only [World.perform, Fault.apply_snd]
  split <;> rfl

theorem perform_store_jobs (engines : Engines) (w : World) (o : Oracle) (c : StoreCall) :
    (w.perform engines o (.store c)).2.jobs = w.jobs := by
  simp only [World.perform, Fault.apply_snd]
  split <;> rfl

/-- A queue request leaves the store alone. -/
theorem perform_queue_store (engines : Engines) (w : World) (o : Oracle) (c : DeploymentQueueCall) :
    (w.perform engines o (.queue c)).2.store = w.store := by
  simp only [World.perform, Fault.apply_snd, apply_ite World.store, ite_self]

/-- A store request that was answered took effect. -/
theorem perform_store_ok {engines : Engines} {w : World} {o : Oracle} {c : StoreCall} {a : c.Ans}
    (h : (w.perform engines o (.store c)).1 = .ok a) :
    o.fault = .none ∧ (c.run w.now o.away w.store).1 = .ok a := by
  have happly : (o.fault.apply w ((c.run w.now o.away w.store).1,
      { w with store := (c.run w.now o.away w.store).2 })).1 = .ok a := h
  have hok := Fault.apply_ok happly
  exact hok

/-! ## Scripts -/

/-- What an engine says in a script: to a deploy, to a poll and to a cancel. -/
structure Script where
  deployed : AdapterResult ProviderRef
  polled : AdapterResult DeploymentState
  cancelled : AdapterResult Unit

def Script.answer (s : Script) : (c : EngineCall) → Except String c.Ans
  | .createApplication ctx _ => .ok (.ok .succeeded ⟨ctx.organizationId, "coolify", .application, "app"⟩)
  | .createFunction ctx _ => .ok (.ok .succeeded ⟨ctx.organizationId, "lambda", .application, "fn"⟩)
  | .deploy .. => .ok s.deployed
  | .rollback .. => .ok s.deployed
  | .publish .. => .ok s.deployed
  | .getDeployment .. => .ok s.polled
  | .cancelDeployment .. => .ok s.cancelled
  | .deleteFunction .. => .ok s.cancelled
  | .getLogs .. => .ok (.ok .succeeded ⟨[], none⟩)
  | .build .. => .ok (.err .notConfigured "No build engine.")
  | .getArtifact .. => .ok (.err .notConfigured "No build engine.")
  | .getBuildLogs .. => .ok (.err .notConfigured "No build engine.")
  | .syncEnvVars .. => .ok ()

/-- Nothing is lost and no row is held. -/
def Script.oracle (s : Script) : Oracle where
  fault := .none
  locked _ := false
  engine := s.answer
  away := ⟨[], none⟩

/-- The engine accepted the build and gave it a name. -/
def accepted : AdapterResult ProviderRef := .ok .running ⟨1, "coolify", .deployment, "run"⟩

/-- A database with one container project in it. -/
def oneProject : ProjectsTable :=
  Table.empty.insertNew
    ⟨fun id =>
      { id := id
        organizationId := 1
        slug := "site"
        executionModel := .container
        rootDirectory := none
        provider := none
        providerResourceId := none
        productionDeploymentId := none }, fun _ => rfl⟩

/-- Somebody who may do everything. -/
def owner : RequestContext := ⟨7, fun _ _ => none⟩

/-- A production deployment of that project. -/
def production : RequestInput where
  projectId := 0
  idempotencyKey := "key"
  gitRepository := some "https://example.com/site.git"
  gitBranch := some "main"
  commit := none
  buildPack := none
  rootDirectory := none
  kind := .production
  staged := false
  pullRequest := none

/-- The build is accepted, and is still running. -/
def building : Script := ⟨accepted, .ok .running ⟨.running, none, none⟩, .ok .succeeded ()⟩

/-- It succeeded. -/
def built : Script := { building with polled := .ok .succeeded ⟨.succeeded, none, none⟩ }

/-- It failed. -/
def broken : Script := { building with polled := .ok .failed ⟨.failed, none, some "exit code 1"⟩ }

/-- `n` calls of thread `tid`. -/
def calls (tid n : Nat) (s : Script) : List PlaneMove := List.replicate n (.exec tid s.oracle)

/-- The production deployment is requested: row 0, and its job. -/
def requested : List PlaneMove := .spawn (.request owner production) :: calls 0 7 building

def aWorker : WorkerOptions := { workerId := "worker" }

/-- A delivery leaves a build in flight, and the next one finds it and ends it. -/
def resumedRun : List PlaneMove :=
  requested ++ .spawn (.work aWorker) :: calls 1 12 building ++
    .drift (.tick 10000) :: .spawn (.work aWorker) :: calls 2 12 built

/-- The engine will not cancel the build. -/
def refusing : Script := { building with cancelled := .err .degraded "503" }

/-- A cancel reads the row in flight and is refused by the engine; before it
writes that back, a delivery finds the build finished and settles the row. -/
def staleCancelRun : List PlaneMove :=
  requested ++ .spawn (.work aWorker) :: calls 1 12 building ++
    .spawn (.cancel owner 0 0) :: calls 2 3 refusing ++
    .drift (.tick 10000) :: .spawn (.work aWorker) :: calls 3 12 built ++
    calls 2 1 refusing

end CloudWai.Deployment
