import CloudWai.Authorization
import CloudWai.Data.Jobs

/-!
# Requesting a backup or a restore

`backupDataResource` and `restoreDataResource` on the durable path: the checks, the
row, the job. The row's id is the job's idempotency key, so each row has one job at
most; between the row and the job there is a request that can be lost.

Mirrors `apps/api/src/procedures/data.ts`. The checks of the form of the input are left
out: what comes here has passed them.
-/

namespace CloudWai.Data

open Base Grammar Queue ControlPlaneStore

/-- What a procedure throws, as its caller sees it. -/
def Failure.text : Failure → String
  | .api code message => s!"{code}: {message}"
  | .unavailable operation reason => unavailable operation reason

/-- `throw new ApiError(code, message)` -/
def apiError {α : Type} (code message : String) : DataProg α :=
  .raise (Failure.text (.api code message))

/-- A check that awaits nothing. -/
def checked {α : Type} : Except Failure α → DataProg α
  | .ok a => .ret a
  | .error failure => .raise (Failure.text failure)

namespace ControlPlaneStore

def getDataResource (user : UserId) (id : DataResourceId) : DataProg (Option DataResource) :=
  must "getDataResource" (.selectResourceOfMember user id)

def createDataBackup (input : DataRowInput) : DataProg DataRow :=
  must "createDataBackup" (.insertRow .backup input)

def createDataRestore (input : DataRowInput) : DataProg DataRow :=
  must "createDataRestore" (.insertRow .restore input)

end ControlPlaneStore

/-- `assertWithinBudget` -/
def assertWithinBudget (org : OrganizationId) (metric : String) : DataProg Unit :=
  (must "getBudgetForService" (.hardCapRefusal org metric)).bind fun (refusal : Option String) =>
  match refusal with
  | none => .ret ()
  | some message => apiError "budget_exceeded" message

/-- The caller's resource, in the organization it names. -/
def authorizedResource (ctx : RequestContext) (org : OrganizationId) (id : DataResourceId)
    (c : Capability) : DataProg DataResource :=
  (checked (requireCapability ctx org c)).bind fun _ =>
  (getDataResource ctx.userId id).bind fun found =>
  match found.filter fun r => r.organizationId == org with
  | none => apiError "not_found" "Data resource not found."
  | some resource => .ret resource

/-- The row a durable command starts from: `pending`, with no engine fields. -/
def pendingRow (resource : DataResource) (backupId : Option Nat) : DataRowInput where
  organizationId := resource.organizationId
  dataResourceId := resource.id
  backupId := backupId
  provider := some (resource.provider.getD "postgres")
  status := .pending

/-- The command for a row, and the audit of it. -/
def dispatch (ctx : RequestContext) (kind event key : String) (row : Record)
    (payload : DataJobPayload) : DataProg Unit :=
  (onQueue (SqlJobQueue.enqueue
    ⟨payload.organizationId, kind, payload, key, none⟩)).bind fun _ =>
  recordAuditEvent ⟨payload.organizationId, ctx.userId, event, row⟩

/-- `backupDataResource`, with a queue. -/
def backupDataResource (ctx : RequestContext) (org : OrganizationId) (id : DataResourceId) :
    DataProg DataRow :=
  (authorizedResource ctx org id .dataBackup).bind fun resource =>
  if (resource.providerResourceId.filter (· != "")).isNone then
    apiError "conflict" "This resource has no engine handle yet, so it cannot be backed up."
  else if resource.kind ≠ .postgres then
    apiError "engine_unavailable"
      "Backing up an object-storage bucket is not available in this build yet."
  else
    (assertWithinBudget resource.organizationId "backups").bind fun _ =>
    (createDataBackup (pendingRow resource none)).bind fun row =>
    (dispatch ctx backupJobKind "data.backup_enqueued" s!"backup-{row.id}" ⟨.backup, row.id⟩
      { recordId := row.id
        organizationId := resource.organizationId
        backupId := none
        dataResourceId := resource.id
        actorId := ctx.userId }).bind fun _ =>
    .ret row

/-- `RestoreDataInput` -/
structure RestoreDataInput where
  organizationId : OrganizationId
  resourceId : DataResourceId
  backupId : Nat
  confirmName : String

/-- The chosen backup may be restored from. -/
def restorableBackup (resource : DataResource) (backup : Option DataRow) : DataProg DataRow :=
  match backup.filter fun b => b.dataResourceId == resource.id with
  | none => apiError "not_found" "Backup not found for this resource."
  | some backup =>
    if backup.status = .succeeded ∧ truthy backup.providerResourceId then .ret backup
    else apiError "conflict"
      "That backup did not complete, so there is nothing to restore from it."

/-- `restoreDataResource`, with a queue. -/
def restoreDataResource (ctx : RequestContext) (input : RestoreDataInput) : DataProg DataRow :=
  (authorizedResource ctx input.organizationId input.resourceId .dataRestore).bind fun resource =>
  if resource.kind ≠ .postgres then
    apiError "engine_unavailable"
      "Restoring an object-storage bucket is not available in this build yet."
  else if (resource.providerResourceId.filter (· != "")).isNone then
    apiError "conflict" "This resource has no engine handle yet, so it cannot be restored."
  else if trim input.confirmName ≠ resource.name then
    apiError "invalid_input" s!"Type the database name ({resource.name}) to confirm the restore."
  else
    (getDataBackupForService input.organizationId input.backupId).bind fun found =>
    (restorableBackup resource found).bind fun backup =>
    (createDataRestore (pendingRow resource (some backup.id))).bind fun row =>
    (dispatch ctx restoreJobKind "data.restore_enqueued" s!"restore-{row.id}" ⟨.restore, row.id⟩
      { recordId := row.id
        organizationId := resource.organizationId
        backupId := some backup.id
        dataResourceId := resource.id
        actorId := ctx.userId }).bind fun _ =>
    .ret row

/-- `ADAPTER_TIMEOUT_MS` -/
def adapterTimeoutMs : Nat := 20000

/-- `restoreDataResource`, without a queue: the engine is asked before the answer.
The row, and the engine's reason. -/
def restoreDataResourceNow (d : DatabaseAdapter) (ctx : RequestContext) (input : RestoreDataInput) :
    DataProg (DataRow × Option String) :=
  (authorizedResource ctx input.organizationId input.resourceId .dataRestore).bind fun resource =>
  if resource.kind ≠ .postgres then
    apiError "engine_unavailable"
      "Restoring an object-storage bucket is not available in this build yet."
  else
    match resource.providerResourceId.filter (· != "") with
    | none => apiError "conflict" "This resource has no engine handle yet, so it cannot be restored."
    | some handle =>
      if trim input.confirmName ≠ resource.name then
        apiError "invalid_input" s!"Type the database name ({resource.name}) to confirm the restore."
      else
        (getDataBackupForService input.organizationId input.backupId).bind fun found =>
        (restorableBackup resource found).bind fun backup =>
        (createDataRestore (pendingRow resource (some backup.id))).bind fun row =>
        (d.restore ⟨.restore, row.id⟩
          ⟨resource.organizationId, s!"restore-{row.id}", adapterTimeoutMs⟩
          (artifactRef resource backup (backup.providerResourceId.getD ""))
          (databaseRef resource handle)).bind fun performed =>
        let status := match performed with
          | .ok _ _ => .succeeded
          | .err status _ => status
        clock.bind fun finished =>
        (updateDataRestoreStatus
          { id := row.id
            organizationId := resource.organizationId
            status := status
            providerResourceId := match performed with
              | .ok _ value => some value.jobId
              | .err _ _ => none
            finishedAt := some finished }).bind fun updated =>
        (recordAuditEvent ⟨resource.organizationId, ctx.userId,
          if status = .succeeded then "data.restore_completed" else "data.restore_failed",
          ⟨.restore, row.id⟩⟩).bind fun _ =>
        .ret (updated.getD row, match performed with
          | .ok _ _ => none
          | .err _ reason => some reason)

end CloudWai.Data
