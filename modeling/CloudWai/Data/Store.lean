import CloudWai.Base.Table
import CloudWai.Contracts

/-!
# The data tables

Data resources, their backups and their restores. `data_backups` and
`data_restores` have the same columns but for the backup a restore reads, and the
store's methods on them are the same but for their table, so a row of either is a
`DataRow` and the table is a parameter.

A row's status is written by the worker's applier and by nothing else: there is no
sweep over these tables.

Mirrors the types of `packages/database/src/index.ts`. The columns `sizeBytes`, `state`
and `drift` are left out, which no function here reads.
-/

namespace CloudWai.Data

open Base

abbrev DataResourceId := Nat

/-! ## Rows -/

/-- `DataResource["kind"]` -/
inductive DataResourceKind where
  | postgres | objectStorage
deriving DecidableEq, Repr

/-- A row of `data_resources`. -/
structure DataResource where
  id : DataResourceId
  organizationId : OrganizationId
  kind : DataResourceKind
  name : String
  provider : Option String
  providerResourceId : Option String
deriving DecidableEq, Repr

/-- Which of the two tables. -/
inductive RecordKind where
  | backup | restore
deriving DecidableEq, Repr

/-- A backup or a restore, by its row. -/
structure Record where
  kind : RecordKind
  id : Nat
deriving DecidableEq, Repr

/-- `DataBackupCreateInput` and `DataRestoreCreateInput`. -/
structure DataRowInput where
  organizationId : OrganizationId
  dataResourceId : DataResourceId
  /-- `backup_id`, of a restore. -/
  backupId : Option Nat
  provider : Option String
  status : EngineStatus
deriving DecidableEq, Repr

/-- A row of `data_backups` or `data_restores`. -/
structure DataRow extends DataRowInput where
  id : Nat
  providerResourceId : Option String
  finishedAt : Option Instant
deriving DecidableEq, Repr

/-- The row that an insert makes. -/
def DataRowInput.row (input : DataRowInput) (id : Nat) : DataRow :=
  { input with id := id, providerResourceId := none, finishedAt := none }

/-- `DataBackupStatusInput` and `DataRestoreStatusInput`, as the appliers fill them. -/
structure DataStatusInput where
  id : Nat
  organizationId : OrganizationId
  status : EngineStatus
  providerResourceId : Option String
  finishedAt : Option Instant
deriving DecidableEq, Repr

/-- The columns the patch writes. -/
def DataStatusInput.set (p : DataStatusInput) (r : DataRow) : DataRow :=
  { r with
    status := p.status
    providerResourceId := p.providerResourceId
    finishedAt := p.finishedAt }

/-- A row of `audit_logs`. -/
structure AuditEvent where
  organizationId : OrganizationId
  actorId : UserId
  event : String
  target : Record
deriving DecidableEq, Repr

/-- A row of `usage_records`. -/
structure UsageRecord where
  organizationId : OrganizationId
  metric : String
  quantity : Nat
deriving DecidableEq, Repr

abbrev ResourcesTable := Table fun r : DataResource => r.id
abbrev DataTable := Table fun r : DataRow => r.id

/-- The tables of the data plane, with who is a member of what. -/
structure Store where
  resources : ResourcesTable
  backups : DataTable
  restores : DataTable
  audit : List AuditEvent
  usage : List UsageRecord
  members : OrganizationId → UserId → Bool

/-- Resources as they are, and no backup or restore of them. -/
def Store.initial (resources : ResourcesTable) (members : OrganizationId → UserId → Bool) : Store :=
  ⟨resources, Table.empty, Table.empty, [], [], members⟩

namespace Store

variable (s : Store)

/-- The table of the kind. -/
def table : RecordKind → DataTable
  | .backup => s.backups
  | .restore => s.restores

def withTable (kind : RecordKind) (t : DataTable) : Store :=
  match kind with
  | .backup => { s with backups := t }
  | .restore => { s with restores := t }

@[simp] theorem table_withTable (kind kind' : RecordKind) (t : DataTable) :
    (s.withTable kind t).table kind' = if kind' = kind then t else s.table kind' := by
  cases kind <;> cases kind' <;> rfl

@[simp] theorem resources_withTable (kind : RecordKind) (t : DataTable) :
    (s.withTable kind t).resources = s.resources := by
  cases kind <;> rfl

/-- The row of a backup or restore. -/
def row (x : Record) : Option DataRow := (s.table x.kind).find x.id

/-- `id=eq.…&organization_id=eq.…` -/
def owned (org : OrganizationId) (id : Nat) (r : DataRow) : Bool :=
  r.id == id && r.organizationId == org

/-- A resource in its organization. -/
def resource (org : OrganizationId) (id : DataResourceId) : Option DataResource :=
  (s.resources.find id).filter fun r => r.organizationId == org

/-- A backup in its organization. -/
def backup (org : OrganizationId) (id : Nat) : Option DataRow :=
  (s.backups.find id).filter fun r => r.organizationId == org

/-- A patch finds its row by organization and id. -/
def patchRow (kind : RecordKind) (p : DataStatusInput) : Store :=
  s.withTable kind ((s.table kind).update (owned p.organizationId p.id) ⟨p.set, fun _ => rfl⟩)

end Store

/-! ## Requests -/

/-- The requests of the data code. The last is answered by tables that are not
modelled. -/
inductive StoreCall where
  | selectResourceOfMember (user : UserId) (id : DataResourceId)
  | selectResource (org : OrganizationId) (id : DataResourceId)
  | selectBackup (org : OrganizationId) (id : Nat)
  | insertRow (kind : RecordKind) (input : DataRowInput)
  | patchRow (kind : RecordKind) (p : DataStatusInput)
  | insertAudit (event : AuditEvent)
  | insertUsage (org : OrganizationId) (metric : String) (quantity : Nat)
  | hardCapRefusal (org : OrganizationId) (metric : String)

/-- What each is answered with: the first row, for those that keep only that. -/
def StoreCall.Ans : StoreCall → Type
  | .selectResourceOfMember .. => Option DataResource
  | .selectResource .. => Option DataResource
  | .selectBackup .. => Option DataRow
  | .insertRow .. => DataRow
  | .patchRow .. => Option DataRow
  | .insertAudit _ => Unit
  | .insertUsage .. => Unit
  | .hardCapRefusal .. => Option String

/-- One request against the store; `refusal` is what the budget tables say. -/
def StoreCall.run (refusal : Option String) (s : Store) :
    (c : StoreCall) → Except String c.Ans × Store
  | .selectResourceOfMember user id =>
    (.ok ((s.resources.find id).filter fun r => s.members r.organizationId user), s)
  | .selectResource org id => (.ok (s.resource org id), s)
  | .selectBackup org id => (.ok (s.backup org id), s)
  | .insertRow kind input =>
    (.ok (input.row (s.table kind).nextId),
      s.withTable kind ((s.table kind).insertNew ⟨input.row, fun _ => rfl⟩))
  | .patchRow kind p =>
    let s' := s.patchRow kind p
    (.ok (((s'.table kind).find p.id).filter fun r => r.organizationId == p.organizationId), s')
  | .insertAudit event => (.ok (), { s with audit := event :: s.audit })
  | .insertUsage org metric quantity =>
    (.ok (), { s with usage := ⟨org, metric, quantity⟩ :: s.usage })
  | .hardCapRefusal .. => (.ok refusal, s)

end CloudWai.Data
