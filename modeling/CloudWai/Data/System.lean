import CloudWai.Queue.Workers
import CloudWai.Data.Procedures

/-!
# Backups and restores running

Any number of worker ticks, reaps and API requests interleaved at their awaits over
one database and one engine. Requests to the database can be lost, or their
answers; a request to the engine is answered as the engine likes, or times out;
processes die; time passes, and resources are provisioned meanwhile.

The loop is that of `apps/worker/src/runtime.ts`, the requests those of
`apps/api/src/procedures/data.ts`.
-/

namespace CloudWai.Data

open Base Queue

/-- The database and its clock. -/
structure World where
  now : Instant
  jobs : JobsTable DataJobPayload
  store : Store

/-- What the outside settles about one call. -/
structure Oracle where
  fault : Fault
  locked : JobId → Bool
  engine : (c : EngineCall) → HttpAnswer c.Body
  refusal : Option String

/-- Nothing is enqueued, and there are no backups yet. -/
def World.initial (now : Instant) (resources : ResourcesTable)
    (members : OrganizationId → UserId → Bool) : World :=
  ⟨now, Table.empty, Store.initial resources members⟩

/-- One awaited call. An engine's answer is its own; nothing else of it is modelled. -/
def World.perform (w : World) (o : Oracle) : (c : Call) → Except String c.Ans × World
  | .queue c =>
    let a := c.run w.now o.locked w.jobs
    (if c.remote then o.fault else .none).apply w (a.1, { w with jobs := a.2 })
  | .store c =>
    let a := c.run o.refusal w.store
    o.fault.apply w (a.1, { w with store := a.2 })
  | .engine _ c => (.ok (o.engine c), w)

/-- What changes without a call of this program. -/
inductive Drift where
  | tick (ms : Nat)
  /-- A resource is created, or its engine has answered. -/
  | provision (resource : DataResource)

/-- What happens without a thread: time passes, a resource appears. -/
def World.drift (w : World) : Drift → World
  | .tick ms => { w with now := w.now + ms }
  | .provision resource =>
    { w with store := { w.store with resources := w.store.resources.put resource } }

/-! ## Tasks -/

/-- What is called from outside, and runs as a thread. -/
inductive Task where
  | work (options : WorkerOptions)
  | reap
  | backup (ctx : RequestContext) (org : OrganizationId) (resource : DataResourceId)
  | restore (ctx : RequestContext) (input : RestoreDataInput)

/-- `queue.reapExpired()` -/
def reapOnce : DataProg Nat := clock.bind fun now => onQueue (SqlJobQueue.reapExpired now)

/-- A task's outcome is nobody's concern once it has ended. -/
def ignored {α : Type} (p : DataProg α) : DataProg Unit := p.bind fun _ => .ret ()

/-- The program of a task. -/
def Task.body (d : DatabaseAdapter) : Task → DataProg Unit
  | .work options => ignored (workerTick d options)
  | .reap => ignored reapOnce
  | .backup ctx org resource => ignored (backupDataResource ctx org resource)
  | .restore ctx input => ignored (restoreDataResource ctx input)

/-- The data plane with everybody on it. -/
def dataHost (d : DatabaseAdapter) : Host World Oracle Drift Task Call Call.Ans String where
  perform := World.perform
  drift := World.drift
  body := Task.body d

/-- A world with the threads that run in it. -/
abbrev DataSys := Sys World Task Call Call.Ans String

/-- A step of such a system. -/
abbrev DataMove := Move Task Oracle Drift

/-! ## Scripts -/

/-- What becomes of an import in a script; the rest the engine does at once. -/
structure Script where
  fault : Fault
  imported : HttpAnswer Unit

def Script.answer (s : Script) : (c : EngineCall) → HttpAnswer c.Body
  | .executions .. => .replied 200 [⟨"run", some "dump.sql", "success"⟩] ""
  | .imports .. => s.imported
  | .backups .. => .replied 201 (some "run") ""

def Script.oracle (s : Script) : Oracle where
  fault := s.fault
  locked _ := false
  engine := s.answer
  refusal := none

/-- Everything works. -/
def fine : Script := ⟨.none, .replied 200 () ""⟩

/-- The engine takes the import, and its answer comes too late. -/
def slow : Script := ⟨.none, .timedOut⟩

/-- The database does not answer. -/
def silent : Script := ⟨.after "reset", .replied 200 () ""⟩

/-- The database was not reached. -/
def severed : Script := ⟨.before "refused", .replied 200 () ""⟩

/-- `n` calls of thread `tid`. -/
def calls (tid n : Nat) (s : Script) : List DataMove := List.replicate n (.exec tid s.oracle)

/-- A database of organization 1. -/
def oneResource : ResourcesTable :=
  Table.empty.insertNew
    ⟨fun id =>
      { id := id
        organizationId := 1
        kind := .postgres
        name := "shop"
        provider := some "postgres"
        providerResourceId := some "db" }, fun _ => rfl⟩

/-- Somebody who may do everything. -/
def owner : RequestContext := ⟨7, [⟨1, 7, .owner⟩], none⟩

def aWorker : WorkerOptions := { workerId := "worker" }

/-- An engine of organization 1. -/
def anEngine : DatabaseAdapter := createSelfHostedDatabase fun _ => some "https://engine"

/-- The database is backed up: row 0. -/
def backedUp : List DataMove :=
  .spawn (.backup owner 1 0) :: calls 0 5 fine ++ .spawn (.work aWorker) :: calls 1 10 fine

/-- Its restore is requested: row 0 of the restores. -/
def restoreRequested : List DataMove :=
  backedUp ++ .spawn (.restore owner ⟨1, 0, 0, "shop"⟩) :: calls 2 5 fine

end CloudWai.Data
