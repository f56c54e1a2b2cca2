import CloudWai.Base.Table
import CloudWai.Contracts
import Mathlib.Data.List.Sort

/-!
# The control-plane tables

Deployments, projects, preview targets, usage and audit as the database holds
them, and each request the deployment code sends as one function on them: the
REST filters are where-clauses, `promote_deployment` of migration 0014 is the
one transaction.

The service role writes with `organization_id` in the where-clause and nothing
else about the row; no request asks what the status was before.

A usage record has no column that says which deployment it is for. The model
keeps that in `UsageRecord.settled`, which no request reads, so that "the usage
of this row" can be spoken about. Organization membership never changes here.

Mirrors `packages/database/src/supabase-store.ts`. Columns that no modelled function reads
are left out.
-/

namespace CloudWai.Deployment

open Base

/-! ## Rows -/

/-- `DeploymentCreateInput`. -/
structure DeploymentCreateInput where
  organizationId : OrganizationId
  projectId : ProjectId
  idempotencyKey : String
  requestedBy : UserId
  status : EngineStatus
  provider : String
  providerResourceId : Option String
  url : Option String
  failureReason : Option String
  kind : DeploymentKind
  environmentId : Option EnvironmentId
  staged : Bool
  gitBranch : Option String
  gitCommit : Option String
  pullRequest : Option Nat
  previewKey : Option String
  gitRepository : Option String
  buildPack : Option String
  rootDirectory : Option String
deriving DecidableEq

/-- A row of `deployments`. -/
structure DeploymentRow extends DeploymentCreateInput where
  id : DeploymentId
  deploymentResourceId : Option String
  buildProvider : Option String
  buildProviderResourceId : Option String
  isCurrent : Bool
  createdAt : Instant
  startedAt : Option Instant
  finishedAt : Option Instant
deriving DecidableEq

/-- The row an insert makes. -/
def DeploymentCreateInput.row (now : Instant) (input : DeploymentCreateInput)
    (id : DeploymentId) : DeploymentRow :=
  { input with
    id := id
    deploymentResourceId := none
    buildProvider := none
    buildProviderResourceId := none
    isCurrent := false
    createdAt := now
    startedAt := none
    finishedAt := none }

/-- A row of `projects`. -/
structure ProjectRow where
  id : ProjectId
  organizationId : OrganizationId
  slug : String
  executionModel : ExecutionModel
  rootDirectory : Option String
  provider : Option String
  providerResourceId : Option String
  productionDeploymentId : Option DeploymentId
deriving DecidableEq

/-- `ProjectDeploymentTarget`. -/
structure ProjectDeploymentTarget where
  provider : Option String
  providerResourceId : Option String
  executionModel : ExecutionModel
  rootDirectory : Option String
deriving DecidableEq

/-- Where the project is deployed to. -/
def ProjectRow.target (p : ProjectRow) : ProjectDeploymentTarget :=
  ⟨p.provider, p.providerResourceId, p.executionModel, p.rootDirectory⟩

/-- A row of `preview_targets`. -/
structure PreviewTargetRow where
  id : Nat
  organizationId : OrganizationId
  projectId : ProjectId
  previewKey : String
  branch : Option String
  pullRequest : Option Nat
  provider : Option String
  providerResourceId : Option String
deriving DecidableEq

/-- A row of `usage_records`, with the deployment whose settlement wrote it. -/
structure UsageRecord where
  organizationId : OrganizationId
  metric : String
  quantity : Nat
  settled : DeploymentId
deriving DecidableEq

/-- A row of `audit_logs`; a delivery of a git provider has no actor. -/
structure AuditEvent where
  organizationId : OrganizationId
  actorId : Option UserId
  event : String
  targetId : DeploymentId
deriving DecidableEq

abbrev DeploymentsTable := Table fun r : DeploymentRow => r.id
abbrev ProjectsTable := Table fun p : ProjectRow => p.id
abbrev PreviewTargetsTable := Table fun t : PreviewTargetRow => t.id

/-- The tables of the control plane, with who is a member of what. -/
structure Store where
  projects : ProjectsTable
  deployments : DeploymentsTable
  previewTargets : PreviewTargetsTable
  usage : List UsageRecord
  audit : List AuditEvent
  members : OrganizationId → UserId → Bool

/-- Projects as they are before anything was deployed. -/
def Store.initial (projects : ProjectsTable) (members : OrganizationId → UserId → Bool) :
    Store where
  projects := projects.update (fun _ => true)
    ⟨fun p => { p with productionDeploymentId := none }, fun _ => rfl⟩
  deployments := Table.empty
  previewTargets := Table.empty
  usage := []
  audit := []
  members := members

/-! ## The status patch -/

/-- `DeploymentStatusInput`. An outer `none` is a field left `undefined`; the
four handles are set-or-leave, so for them `null` and `undefined` are one. -/
structure DeploymentStatusInput where
  id : DeploymentId
  organizationId : OrganizationId
  status : EngineStatus
  url : Option (Option String)
  failureReason : Option (Option String)
  providerResourceId : Option String
  deploymentResourceId : Option String
  buildProviderResourceId : Option String
  buildProvider : Option String
  startedAt : Option Instant
  finishedAt : Option (Option Instant)
deriving DecidableEq

/-- The columns the patch writes. -/
def DeploymentStatusInput.set (p : DeploymentStatusInput) (r : DeploymentRow) : DeploymentRow :=
  { r with
    status := p.status
    url := p.url.getD r.url
    failureReason := p.failureReason.getD r.failureReason
    providerResourceId := p.providerResourceId.or r.providerResourceId
    deploymentResourceId := p.deploymentResourceId.or r.deploymentResourceId
    buildProviderResourceId := p.buildProviderResourceId.or r.buildProviderResourceId
    buildProvider := p.buildProvider.or r.buildProvider
    startedAt := p.startedAt.or r.startedAt
    finishedAt := p.finishedAt.getD r.finishedAt }

/-- `id=eq.…&organization_id=eq.…`. -/
def owned (org : OrganizationId) (id : DeploymentId) (r : DeploymentRow) : Bool :=
  r.id == id && r.organizationId == org

/-- A patch finds its row by organization and id. -/
def Store.patchDeployment (s : Store) (p : DeploymentStatusInput) : Store :=
  { s with deployments := s.deployments.update (owned p.organizationId p.id) ⟨p.set, fun _ => rfl⟩ }

/-! ## `promote_deployment` -/

/-- A succeeded production deployment of this project in this organization. -/
def promotable (org : OrganizationId) (project : ProjectId) (id : DeploymentId)
    (r : DeploymentRow) : Bool :=
  r.id == id && r.projectId == project && r.organizationId == org &&
    r.kind == .production && r.status == .succeeded

/-- The rows whose flag the function clears. -/
def liveIn (org : OrganizationId) (project : ProjectId) (r : DeploymentRow) : Bool :=
  r.projectId == project && r.organizationId == org && r.isCurrent

/-- Clear the flag of the row that was live, then set the new one's. -/
def movedFlags (org : OrganizationId) (project : ProjectId) (id : DeploymentId)
    (t : DeploymentsTable) : DeploymentsTable :=
  (t.update (liveIn org project) ⟨fun r => { r with isCurrent := false }, fun _ => rfl⟩).update
    (fun r => r.id == id && r.projectId == project && r.organizationId == org)
    ⟨fun r => { r with isCurrent := true }, fun _ => rfl⟩

/-- The partial unique index: one current production row in a project. -/
def oneCurrent (project : ProjectId) (t : DeploymentsTable) : Bool :=
  (t.rows.filter fun r =>
    r.projectId == project && r.isCurrent && r.kind == .production).length ≤ 1

/-- `promote_deployment`. -/
def Store.promoteDeployment (s : Store) (org : OrganizationId) (project : ProjectId)
    (id : DeploymentId) : Except String Bool × Store :=
  if s.deployments.rows.any (promotable org project id) then
    let deployments := movedFlags org project id s.deployments
    if oneCurrent project deployments then
      (.ok true,
        { s with
          deployments := deployments
          projects := s.projects.update (fun p => p.id == project && p.organizationId == org)
            ⟨fun p => { p with productionDeploymentId := some id }, fun _ => rfl⟩ })
    else (.error "POST /rpc/promote_deployment returned 409.", s)
  else (.ok false, s)

/-! ## Requests -/

/-- The environment kinds of migration 0024. -/
inductive EnvironmentKind where
  | production | preview | custom
deriving DecidableEq

/-- The requests of the deployment code. The last three are answered by
tables that are not modelled; see `StoreCall.run`. -/
inductive StoreCall where
  | selectTarget (org : OrganizationId) (project : ProjectId)
  | selectTargetOfMember (user : UserId) (project : ProjectId)
  | patchProjectProvider (org : OrganizationId) (project : ProjectId) (provider resource : String)
  | selectPreviewTarget (org : OrganizationId) (project : ProjectId) (key : String)
  | insertPreviewTarget (org : OrganizationId) (project : ProjectId) (key : String)
      (branch : Option String) (pullRequest : Option Nat)
  | patchPreviewTarget (org : OrganizationId) (project : ProjectId)
      (key provider resource : String)
  | selectDeployment (org : OrganizationId) (id : DeploymentId)
  | selectStranded (olderThan : Instant) (limit : Nat)
  | patchDeployment (p : DeploymentStatusInput)
  | selectPointer (org : OrganizationId) (project : ProjectId)
  | promote (org : OrganizationId) (project : ProjectId) (id : DeploymentId)
  | insertUsage (settled : DeploymentId) (org : OrganizationId) (metric : String) (quantity : Nat)
  | selectProjectOfMember (user : UserId) (project : ProjectId)
  | selectDeploymentOfMember (user : UserId) (id : DeploymentId)
  | selectDeploymentByKey (user : UserId) (org : OrganizationId) (key : String)
  | insertDeployment (input : DeploymentCreateInput)
  | insertAudit (event : AuditEvent)
  | selectProject (org : OrganizationId) (project : ProjectId)
  | selectDeploymentByKeyForService (org : OrganizationId) (key : String)
  | selectEnvironments (user : UserId) (project : ProjectId)
  | selectEnvironmentsForService (org : OrganizationId) (project : ProjectId)
  | hardCapRefusal (org : OrganizationId) (metric : String)

/-- What each is answered with: the first row, for those that keep only that. -/
def StoreCall.Ans : StoreCall → Type
  | .selectTarget .. => Option ProjectDeploymentTarget
  | .selectTargetOfMember .. => Option ProjectDeploymentTarget
  | .patchProjectProvider .. => Option ProjectRow
  | .selectPreviewTarget .. => Option PreviewTargetRow
  | .insertPreviewTarget .. => Unit
  | .patchPreviewTarget .. => Option PreviewTargetRow
  | .selectDeployment .. => Option DeploymentRow
  | .selectStranded .. => List DeploymentRow
  | .patchDeployment _ => Option DeploymentRow
  | .selectPointer .. => Option DeploymentId
  | .promote .. => Bool
  | .insertUsage .. => Unit
  | .selectProjectOfMember .. => Option ProjectRow
  | .selectDeploymentOfMember .. => Option DeploymentRow
  | .selectDeploymentByKey .. => Option DeploymentRow
  | .insertDeployment _ => DeploymentRow
  | .insertAudit _ => Unit
  | .selectProject .. => Option ProjectRow
  | .selectDeploymentByKeyForService .. => Option DeploymentRow
  | .selectEnvironmentsForService .. => List (EnvironmentId × EnvironmentKind)
  | .selectEnvironments .. => List (EnvironmentId × EnvironmentKind)
  | .hardCapRefusal .. => Option String

/-- What the unmodelled tables answer. -/
structure Elsewhere where
  environments : List (EnvironmentId × EnvironmentKind)
  refusal : Option String

def Store.project (s : Store) (org : OrganizationId) (project : ProjectId) : Option ProjectRow :=
  (s.projects.find project).filter fun p => p.organizationId == org

def Store.deployment (s : Store) (org : OrganizationId) (id : DeploymentId) :
    Option DeploymentRow :=
  (s.deployments.find id).filter fun r => r.organizationId == org

/-- `organization_members!inner`: a row of an organization the user is in. -/
def Store.seenBy {α : Type} (s : Store) (user : UserId) (org : α → OrganizationId)
    (row : Option α) : Option α :=
  row.filter fun a => s.members (org a) user

/-- `organization_id`, `project_id` and `preview_key` together. -/
def previewKeyed (org : OrganizationId) (project : ProjectId) (key : String)
    (t : PreviewTargetRow) : Bool :=
  t.organizationId == org && t.projectId == project && t.previewKey == key

/-- `status=in.(pending,running)&created_at=lt.…&order=created_at.asc&limit=…`. -/
def Store.stranded (s : Store) (olderThan : Instant) (limit : Nat) : List DeploymentRow :=
  ((s.deployments.rows.filter fun r =>
      decide r.status.InFlight && decide (r.createdAt < olderThan)).insertionSort
    fun a b => a.createdAt ≤ b.createdAt).take limit

/-- An insert the database accepts: the project is there, the key is new. -/
def Store.accepts (s : Store) (input : DeploymentCreateInput) : Bool :=
  (s.projects.find input.projectId).isSome &&
    !s.deployments.rows.any fun r =>
      r.organizationId == input.organizationId && r.idempotencyKey == input.idempotencyKey

/-- One request against the store. -/
def StoreCall.run (now : Instant) (away : Elsewhere) (s : Store) :
    (c : StoreCall) → Except String c.Ans × Store
  | .selectTarget org project => (.ok ((s.project org project).map (·.target)), s)
  | .selectTargetOfMember user project =>
    (.ok ((s.seenBy user (·.organizationId) (s.projects.find project)).map (·.target)), s)
  | .patchProjectProvider org project provider resource =>
    let projects := s.projects.update (fun p => p.id == project && p.organizationId == org)
      ⟨fun p => { p with provider := some provider, providerResourceId := some resource },
        fun _ => rfl⟩
    let s' := { s with projects := projects }
    (.ok (s'.project org project), s')
  | .selectPreviewTarget org project key =>
    (.ok (s.previewTargets.rows.find? (previewKeyed org project key)), s)
  | .insertPreviewTarget org project key branch pullRequest =>
    if s.previewTargets.rows.any (fun t => t.projectId == project && t.previewKey == key) then
      (.error "POST /preview_targets returned 409.", s)
    else
      (.ok (),
        { s with
          previewTargets := s.previewTargets.insertNew
            ⟨fun id => ⟨id, org, project, key, branch, pullRequest, none, none⟩, fun _ => rfl⟩ })
  | .patchPreviewTarget org project key provider resource =>
    let targets := s.previewTargets.update (previewKeyed org project key)
      ⟨fun t => { t with provider := some provider, providerResourceId := some resource },
        fun _ => rfl⟩
    (.ok (targets.rows.find? (previewKeyed org project key)), { s with previewTargets := targets })
  | .selectDeployment org id => (.ok (s.deployment org id), s)
  | .selectStranded olderThan limit => (.ok (s.stranded olderThan limit), s)
  | .patchDeployment p =>
    let s' := s.patchDeployment p
    (.ok (s'.deployment p.organizationId p.id), s')
  | .selectPointer org project =>
    (.ok ((s.project org project).bind (·.productionDeploymentId)), s)
  | .promote org project id => s.promoteDeployment org project id
  | .insertUsage settled org metric quantity =>
    (.ok (), { s with usage := ⟨org, metric, quantity, settled⟩ :: s.usage })
  | .selectProjectOfMember user project =>
    (.ok (s.seenBy user (·.organizationId) (s.projects.find project)), s)
  | .selectDeploymentOfMember user id =>
    (.ok (s.seenBy user (·.organizationId) (s.deployments.find id)), s)
  | .selectDeploymentByKey user org key =>
    (.ok (s.seenBy user (·.organizationId) (s.deployments.rows.find? fun r =>
      r.organizationId == org && r.idempotencyKey == key)), s)
  | .insertDeployment input =>
    if s.accepts input then
      (.ok (input.row now s.deployments.nextId),
        { s with deployments := s.deployments.insertNew ⟨input.row now, fun _ => rfl⟩ })
    else (.error "POST /deployments returned 409.", s)
  | .insertAudit event => (.ok (), { s with audit := event :: s.audit })
  | .selectProject org project => (.ok (s.project org project), s)
  | .selectDeploymentByKeyForService org key =>
    (.ok (s.deployments.rows.find? fun r => r.organizationId == org && r.idempotencyKey == key), s)
  | .selectEnvironmentsForService .. => (.ok away.environments, s)
  | .selectEnvironments .. => (.ok away.environments, s)
  | .hardCapRefusal .. => (.ok away.refusal, s)

/-! ## What a request can do to the tables -/

/-- A row of a project in an organization, in whatever state. -/
theorem deployment_eq_some {s : Store} {org : OrganizationId} {id : DeploymentId}
    {r : DeploymentRow} :
    s.deployment org id = some r ↔ s.deployments.find id = some r ∧ r.organizationId = org := by
  simp only [Store.deployment, Option.filter_eq_some_iff, beq_iff_eq]

theorem mem_stranded {s : Store} {olderThan : Instant} {limit : Nat} {r : DeploymentRow}
    (h : r ∈ s.stranded olderThan limit) : r ∈ s.deployments ∧ r.status.InFlight := by
  have hmem := List.mem_of_mem_take h
  rw [List.mem_insertionSort, List.mem_filter, Bool.and_eq_true, decide_eq_true_eq] at hmem
  exact ⟨hmem.1, hmem.2.1⟩

/-- A sweep meets no row twice. -/
theorem stranded_nodup (s : Store) (olderThan : Instant) (limit : Nat) :
    ((s.stranded olderThan limit).map (·.id)).Nodup := by
  have hperm := List.perm_insertionSort (fun a b : DeploymentRow => a.createdAt ≤ b.createdAt)
    (s.deployments.rows.filter fun r =>
      decide r.status.InFlight && decide (r.createdAt < olderThan))
  have hsub : ((s.deployments.rows.filter fun r =>
      decide r.status.InFlight && decide (r.createdAt < olderThan)).map (·.id)).Nodup :=
    s.deployments.nodup.sublist (List.filter_sublist.map _)
  have hsorted := (hperm.map (·.id)).nodup_iff.mpr hsub
  exact hsorted.sublist ((List.take_sublist _ _).map _)

end CloudWai.Deployment
