import CloudWai.Queue.Processor
import CloudWai.Data.Engine

/-!
# The backup job and the restore job

Each handler reads the resource again, and the restore's the backup too, and asks
the engine; each applier writes what came of it onto the row. The handlers keep no
record that the engine was asked: what a delivery knows of an earlier one is the
job's row and nothing else.

Mirrors `apps/worker/src/backup-job.ts` and `restore-job.ts`, and the methods of
`packages/database/src/supabase-store.ts` they call.
-/

namespace CloudWai.Data

open Base Queue

/-! ## Store methods -/

namespace ControlPlaneStore

def getDataResourceForService (org : OrganizationId) (id : DataResourceId) :
    DataProg (Option DataResource) :=
  must "getDataResourceForService" (.selectResource org id)

def getDataBackupForService (org : OrganizationId) (id : Nat) : DataProg (Option DataRow) :=
  must "getDataBackupForService" (.selectBackup org id)

def updateDataBackupStatus (input : DataStatusInput) : DataProg (Option DataRow) :=
  must "updateDataBackupStatus" (.patchRow .backup input)

def updateDataRestoreStatus (input : DataStatusInput) : DataProg (Option DataRow) :=
  must "updateDataRestoreStatus" (.patchRow .restore input)

def recordAuditEvent (event : AuditEvent) : DataProg Unit :=
  must "recordAuditEvent" (.insertAudit event)

def recordUsage (org : OrganizationId) (metric : String) (quantity : Nat) : DataProg Unit :=
  must "recordUsage" (.insertUsage org metric quantity)

end ControlPlaneStore

open ControlPlaneStore

/-! ## Handlers -/

/-- `BackupExecutionResult` and `RestoreExecutionResult`; the reason is always null. -/
structure DataExecutionResult where
  status : EngineStatus
  providerResourceId : Option String
deriving DecidableEq, Repr

/-- `performed.ok ? ok(status, { status, providerResourceId }) : err(status, reason)` -/
def reported {α : Type} (handle : α → String) :
    AdapterResult α → AdapterResult DataExecutionResult
  | .ok status value => .ok status ⟨status, some (handle value)⟩
  | .err status reason => .err status reason

/-- `{ ...ctx, organizationId }` -/
def adapterContext (ctx : JobContext) (org : OrganizationId) : AdapterContext :=
  ⟨org, ctx.idempotencyKey, ctx.timeoutMs⟩

/-- The database a resource is. -/
def databaseRef (resource : DataResource) (handle : String) : ProviderRef :=
  ⟨resource.organizationId, resource.provider.getD "postgres", .database, handle⟩

/-- `buildBackupJobHandler` -/
def backupJobHandler (d : DatabaseAdapter) (input : DataJobPayload) (ctx : JobContext) :
    DataProg (AdapterResult DataExecutionResult) :=
  (getDataResourceForService input.organizationId input.dataResourceId).bind fun found =>
  match found.filter fun r => r.organizationId == input.organizationId with
  | none => .ret (.err .failed "The data resource this backup names no longer exists.")
  | some resource =>
    match resource.providerResourceId.filter (· != "") with
    | none => .ret (.err .notConfigured
        "This resource has no engine handle, so it cannot be backed up.")
    | some handle =>
      if resource.kind ≠ .postgres then .ret (.err .notConfigured
        "Backing up an object-storage bucket is not available in this build yet.")
      else
        (d.backup ⟨.backup, input.recordId⟩ (adapterContext ctx resource.organizationId)
          (databaseRef resource handle)).bind fun taken =>
        .ret (reported (·.resourceId) taken)

/-- The backup's own artifact. -/
def artifactRef (resource : DataResource) (backup : DataRow) (handle : String) : ProviderRef :=
  ⟨resource.organizationId, backup.provider.getD "postgres", .backup, handle⟩

/-- What a restore reads, if the chosen backup is one of this resource's and names
an artifact. -/
def artifactOf (resource : DataResource) (backup : Option DataRow) : Except String ProviderRef :=
  match backup.filter fun b => b.dataResourceId == resource.id with
  | none => .error "The backup this restore names no longer exists for this resource."
  | some backup =>
    match backup.providerResourceId.filter (· != "") with
    | none => .error "That backup did not complete, so there is nothing to restore from it."
    | some handle =>
      if backup.status = .succeeded then .ok (artifactRef resource backup handle)
      else .error "That backup did not complete, so there is nothing to restore from it."

/-- `buildRestoreJobHandler` -/
def restoreJobHandler (d : DatabaseAdapter) (input : DataJobPayload) (ctx : JobContext) :
    DataProg (AdapterResult DataExecutionResult) :=
  (getDataResourceForService input.organizationId input.dataResourceId).bind fun found =>
  match found.filter fun r => r.organizationId == input.organizationId with
  | none => .ret (.err .failed "The data resource this restore names no longer exists.")
  | some resource =>
    if resource.kind ≠ .postgres then .ret (.err .notConfigured
      "Restoring an object-storage bucket is not available in this build yet.")
    else
      match resource.providerResourceId.filter (· != "") with
      | none => .ret (.err .notConfigured
          "This resource has no engine handle, so it cannot be restored.")
      | some handle =>
        (getDataBackupForService input.organizationId (input.backupId.getD 0)).bind fun backup =>
        match artifactOf resource backup with
        | .error reason => .ret (.err .failed reason)
        | .ok artifact =>
          (d.restore ⟨.restore, input.recordId⟩ (adapterContext ctx resource.organizationId) artifact
            (databaseRef resource handle)).bind fun performed =>
          .ret (reported (·.jobId) performed)

/-! ## Appliers -/

/-- `BACKUP_JOB_KIND` -/
def backupJobKind : String := "data.backup.execute"

/-- `RESTORE_JOB_KIND` -/
def restoreJobKind : String := "data.restore.execute"

/-- The patch either applier writes. -/
def outcomePatch (payload : DataJobPayload) (result : AdapterResult DataExecutionResult)
    (finished : Instant) : DataStatusInput where
  id := payload.recordId
  organizationId := payload.organizationId
  status := match result with
    | .ok _ value => value.status
    | .err status _ => status
  providerResourceId := match result with
    | .ok _ value => value.providerResourceId
    | .err _ _ => none
  finishedAt := some finished

/-- An applier: its job kind, its store method, the event it records, and what it
does of a success besides. -/
def outcomeApplier (kind : String) (update : DataStatusInput → DataProg (Option DataRow))
    (record : Nat → Record) (event : EngineStatus → String)
    (celebrate : OrganizationId → DataProg Unit) (job : Job DataJobPayload)
    (result : AdapterResult DataExecutionResult) : DataProg Unit :=
  if job.kind ≠ kind then .ret ()
  else
    clock.bind fun finished =>
    let p := outcomePatch job.payload result finished
    (update p).bind fun _ =>
    (recordAuditEvent ⟨job.payload.organizationId, job.payload.actorId, event p.status,
      record job.payload.recordId⟩).bind fun _ =>
    if p.status = .succeeded then celebrate job.payload.organizationId else .ret ()

/-- `buildBackupApplier` -/
def backupApplier : Job DataJobPayload → AdapterResult DataExecutionResult → DataProg Unit :=
  outcomeApplier backupJobKind updateDataBackupStatus (⟨.backup, ·⟩)
    (fun status => if status = .succeeded then "data.backup_completed" else "data.backup_failed")
    fun org => recordUsage org "backups" 1

/-- `buildRestoreApplier` -/
def restoreApplier : Job DataJobPayload → AdapterResult DataExecutionResult → DataProg Unit :=
  outcomeApplier restoreJobKind updateDataRestoreStatus (⟨.restore, ·⟩)
    (fun status => if status = .succeeded then "data.restore_completed" else "data.restore_failed")
    fun _ => .ret ()

/-- `buildApplier`, of these two. -/
def dataApplier (job : Job DataJobPayload) (result : AdapterResult DataExecutionResult) :
    DataProg Unit :=
  (backupApplier job result).bind fun _ => restoreApplier job result

/-! ## The worker -/

/-- The queue's requests among the calls of this program. -/
def dataPort : Port DataJobPayload Call Call.Ans := ⟨Call.queue, fun _ a => a⟩

/-- The handlers the worker wires, as far as data goes. -/
def handlers (d : DatabaseAdapter) (kind : String) :
    Option (InProcessWorker.Handler DataJobPayload DataExecutionResult Call Call.Ans) :=
  if kind = backupJobKind then some (backupJobHandler d)
  else if kind = restoreJobKind then some (restoreJobHandler d)
  else none

/-- One tick of a wired worker. -/
def workerTick (d : DatabaseAdapter) (options : WorkerOptions) : DataProg (Option JobOutcome) :=
  InProcessWorker.tick dataPort options (handlers d) dataApplier

end CloudWai.Data
