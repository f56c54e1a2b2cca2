import CloudWai.Authorization
import CloudWai.Deployment.System
import CloudWai.Runtime.Adapter

/-!
# A self-hosted installation

The control plane's tables, the runtime and the security edge side by side. The
deployment tables are those of `Deployment.World`; here are the tables it does
not have, environment variables and domains, and the store methods that read and
write them. A method is a function on the whole: these operations run one after
the other, and no request to the database fails.

A stored value is kept as it was given. It is encrypted in the column, and
whether the worker can decrypt it is settled outside.

Two fields are history, and no function reads them: what was ever saved for a
Production environment, and which Production variables were removed and not set
again.

The store is `packages/database/src/supabase-store.ts`.
-/

namespace CloudWai.Runtime

open Base Deployment

/-! ## Environments -/

/-- A row of `environments`. -/
structure ProjectEnvironment where
  id : EnvironmentId
  kind : EnvironmentKind
  isDefault : Bool
deriving DecidableEq

/-- The environments of a project: `environments_project_kind_idx` allows one
Production. -/
structure ProjectEnvironments where
  list : List ProjectEnvironment
  ids : (list.map (·.id)).Nodup
  oneProduction : ∀ a ∈ list, ∀ b ∈ list, a.kind = .production → b.kind = .production → a = b

/-! ## Variables -/

/-- A row of `project_env_vars`. -/
structure EnvVarRow where
  organizationId : OrganizationId
  projectId : ProjectId
  environmentId : EnvironmentId
  key : String
  value : String
  isBuildTime : Bool
  engineRef : Option String
  provider : Option String
  providerResourceId : Option String
deriving DecidableEq

/-- What the unique index of migration 0025 is on. -/
structure EnvVarKey where
  projectId : ProjectId
  environmentId : EnvironmentId
  key : String
deriving DecidableEq

def EnvVarRow.index (v : EnvVarRow) : EnvVarKey := ⟨v.projectId, v.environmentId, v.key⟩

abbrev EnvVars := Table EnvVarRow.index

/-! ## Domains -/

/-- A row of `domains`. -/
structure DomainRow where
  id : Nat
  organizationId : OrganizationId
  projectId : Option ProjectId
  hostname : String
  verified : Bool
  verificationToken : Option String
deriving DecidableEq

abbrev Domains := Table fun d : DomainRow => d.id

/-! ## The installation -/

/-- A Production variable that was removed, and how many containers the runtime
had started by then. -/
structure Removal where
  projectId : ProjectId
  key : String
  starts : Nat
deriving DecidableEq

/-- The control plane with what it tells the engines, the runtime and the edge. -/
structure Estate where
  plane : World
  environments : ProjectId → ProjectEnvironments
  vars : EnvVars
  domains : Domains
  /-- The hostnames the edge serves, each for an organization. -/
  edge : List (OrganizationId × String)
  runtime : State
  saved : List (ProjectId × String × String)
  removed : List Removal

namespace Estate

variable (w : Estate)

def store : Store := w.plane.store

/-! ## Store methods -/

/-- `getProject` -/
def getProject (user : UserId) (project : ProjectId) : Option ProjectRow :=
  w.store.seenBy user (·.organizationId) (w.store.projects.find project)

/-- `getProjectDeploymentTargetForService` -/
def targetForService (org : OrganizationId) (project : ProjectId) :
    Option ProjectDeploymentTarget :=
  (w.store.project org project).map (·.target)

/-- `getProjectDeploymentTarget` -/
def target (user : UserId) (project : ProjectId) : Option ProjectDeploymentTarget :=
  (w.getProject user project).map (·.target)

/-- `listEnvironments` -/
def listEnvironments (project : ProjectId) : List ProjectEnvironment :=
  (w.environments project).list

/-- One row of `listEnvVars`. -/
def getEnvVar (user : UserId) (index : EnvVarKey) : Option EnvVarRow :=
  w.store.seenBy user (·.organizationId) (w.vars.find index)

/-- `saveEnvVar`: the engine's columns of a row that exists are left alone. -/
def saveEnvVar (org : OrganizationId) (index : EnvVarKey) (value : String) (isBuildTime : Bool) :
    Estate :=
  let before := w.vars.find index
  { w with
    vars := w.vars.put
      { organizationId := org
        projectId := index.projectId
        environmentId := index.environmentId
        key := index.key
        value := value
        isBuildTime := isBuildTime
        engineRef := before.bind (·.engineRef)
        provider := before.bind (·.provider)
        providerResourceId := before.bind (·.providerResourceId) } }

/-- `setEnvVarEngineRef` -/
def setEnvVarEngineRef (org : OrganizationId) (index : EnvVarKey) (engineRef : String)
    (application : ProviderRef) : Estate :=
  { w with
    vars := w.vars.update (fun v => v.index == index && v.organizationId == org)
      ⟨fun v => { v with
        engineRef := some engineRef
        provider := some application.provider
        providerResourceId := some application.resourceId }, fun _ => rfl⟩ }

/-- `deleteEnvVar`: whether a row was deleted. -/
def deleteEnvVar (user : UserId) (org : OrganizationId) (index : EnvVarKey) : Bool × Estate :=
  let named (v : EnvVarRow) : Bool :=
    v.index == index && v.organizationId == org && w.store.members v.organizationId user
  (w.vars.rows.any named, { w with vars := w.vars.delete named })

/-- `listEnvVarsForService` -/
def listEnvVarsForService (org : OrganizationId) (project : ProjectId)
    (environment : EnvironmentId) : List EnvVarRow :=
  (w.vars.rows.filter fun v =>
      v.organizationId == org && v.projectId == project && v.environmentId == environment).insertionSort
    fun a b => a.key ≤ b.key

/-- `listDomains` -/
def listDomains (user : UserId) (org : OrganizationId) : List DomainRow :=
  w.domains.rows.filter fun d => d.organizationId == org && w.store.members org user

/-- `getDomain` -/
def getDomain (user : UserId) (id : Nat) : Option DomainRow :=
  w.store.seenBy user (·.organizationId) (w.domains.find id)

/-- `createDomain`, unless the hostname is taken in the organization. -/
def createDomain (org : OrganizationId) (project : Option ProjectId) (hostname token : String) :
    Option Estate :=
  if w.domains.rows.any fun d => d.organizationId == org && d.hostname == hostname then none
  else some
    { w with
      domains := w.domains.insertNew
        ⟨fun id => ⟨id, org, project, hostname, false, some token⟩, fun _ => rfl⟩ }

/-- `deleteDomain` -/
def deleteDomain (user : UserId) (org : OrganizationId) (id : Nat) : Bool × Estate :=
  let named (d : DomainRow) : Bool :=
    d.id == id && d.organizationId == org && w.store.members d.organizationId user
  (w.domains.rows.any named, { w with domains := w.domains.delete named })

/-- `setDomainVerification` -/
def setDomainVerification (org : OrganizationId) (id : Nat) (verified : Bool) : Estate :=
  { w with
    domains := w.domains.update (fun d => d.id == id && d.organizationId == org)
      ⟨fun d => { d with verified := verified }, fun _ => rfl⟩ }

/-! ## The edge -/

/-- `securityEdge.publishRoute`: the route's fragment, and with it a fragment for
each other host of the organization's policy, which are verified hostnames. -/
def publishRoute (policy : String → Bool) (org : OrganizationId) (hostname : String) : Estate :=
  let others := w.domains.rows.filter fun d =>
    d.organizationId == org && d.verified && policy d.hostname
  { w with edge := (org, hostname) :: others.map (fun d => (org, d.hostname)) ++ w.edge }

/-- `securityEdge.removeRoute` -/
def removeRoute (org : OrganizationId) (hostname : String) : Estate :=
  { w with edge := w.edge.filter (· != (org, hostname)) }

end Estate

/-- What a procedure comes to: its result or what it throws, and what it left. -/
abbrev Result (α : Type) := Except Failure α × Estate

end CloudWai.Runtime
