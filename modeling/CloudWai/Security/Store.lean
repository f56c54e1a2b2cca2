import CloudWai.Authorization
import CloudWai.Base.Table
import CloudWai.Security.Compile
import Mathlib.Data.List.Sort

/-!
# The control plane's security tables

The rows the edge is compiled from, and the statements
`packages/database/src/supabase-store.ts` makes about them. Domains are keyed by
organization and hostname, protection postures by project alone: that is the
only constraint migration 0030 puts between a posture and a tenant. The clients'
reads join the caller's membership of the *row's* organization; the service
reads filter by the organization they are given.

Three things lie outside: the password digest, and how the two engines that see
a timestamp — JavaScript's `Date.parse` and the database's `timestamptz` — read
its text. They are the fields of `Platform`.
-/

namespace CloudWai

namespace Security

open Base

/-- What Node and the database do with texts. -/
structure Platform where
  /-- `createHash("sha256")`, in hex. -/
  passwordDigest : String → String
  /-- `Date.parse`; `none` is `NaN`. -/
  dateParse : String → Option Int
  /-- The instant the database stores for a text, if it accepts it. -/
  timestamptz : String → Option Int

/-- What a nullable timestamp column comes to hold, if the text is accepted. -/
def Platform.column (P : Platform) : Option String → Option (Option Int)
  | none => some none
  | some text => (P.timestamptz text).map some

/-- `DeploymentProtection`: what a client sees of a posture. -/
structure DeploymentProtection where
  id : Nat
  organizationId : OrganizationId
  projectId : ProjectId
  mode : ProtectionMode
  basicUser : Option String
  allowedCidrs : List String
  protectionExpiresAt : Option Int
  version : Nat
  updatedBy : UserId
deriving DecidableEq, Repr

/-- A row of `project_deployment_protection`. -/
structure ProtectionRow extends DeploymentProtection where
  basicPasswordHash : Option String
deriving DecidableEq, Repr

/-- The check constraints of migration 0030. -/
def ProtectionRow.checks (r : ProtectionRow) : Bool :=
  r.basicUser.all Grammar.basicUser.test && r.basicPasswordHash.all Grammar.sha256Hex.test &&
    decide (1 ≤ r.version) &&
    match r.mode with
    | .none => r.basicUser.isNone && r.basicPasswordHash.isNone && r.allowedCidrs.isEmpty
    | .password => r.basicUser.isSome && r.basicPasswordHash.isSome && r.allowedCidrs.isEmpty
    | .ip => r.basicUser.isNone && r.basicPasswordHash.isNone && !r.allowedCidrs.isEmpty

/-- A row the table holds: the constraints are the table's own. -/
structure StoredProtection where
  row : ProtectionRow
  checked : row.checks = true
deriving DecidableEq

/-- A row of `projects`, as far as it is read here. -/
structure Project where
  id : ProjectId
  organizationId : OrganizationId
deriving DecidableEq, Repr

/-- A row of `domains`. -/
structure Domain where
  id : Nat
  organizationId : OrganizationId
  projectId : Option ProjectId
  hostname : String
  verified : Bool
  verifiedAt : Option Instant
deriving DecidableEq, Repr

/-- A policy's `state`. -/
inductive PolicyState where
  | draft | compiled | distributed | active | rejected | degraded
deriving DecidableEq, Repr

/-- A row of `security_policies`. -/
structure SecurityPolicy where
  id : Nat
  organizationId : OrganizationId
  name : String
  riskLevel : RiskLevel
  action : EnforcementAction
  state : PolicyState
  protectionMode : RouteProtectionMode
  protectionExpiresAt : Option Int
  version : Nat
deriving DecidableEq, Repr

/-- A row of `security_rules`. -/
structure SecurityRule where
  organizationId : OrganizationId
  kind : DenyRuleKind
  value : String
deriving DecidableEq, Repr

/-- The column allows the two kinds of address only. -/
structure TrustedSourceRow where
  organizationId : OrganizationId
  kind : TrustedSourceKind
  value : String
deriving DecidableEq, Repr

/-- A row of `rate_limits`. -/
structure RateLimit where
  id : Nat
  organizationId : OrganizationId
  key : RateLimitKey
  headerName : Option String
  limit : Int
  windowSeconds : Int
deriving DecidableEq, Repr

/-- The control plane, as far as the edge is concerned. Lists are in the order
the rows were created. -/
structure Db where
  memberships : List Membership
  projects : Table fun p : Project => p.id
  domains : Table fun d : Domain => (d.organizationId, d.hostname)
  protections : Table fun r : StoredProtection => r.row.projectId
  policies : List SecurityPolicy
  rules : List SecurityRule
  trustedSources : List TrustedSourceRow
  rateLimits : List RateLimit

namespace Db

/-- `organizations!inner(organization_members!inner(user_id))` -/
def isMember (db : Db) (user : UserId) (org : OrganizationId) : Bool :=
  db.memberships.any fun m => m.organizationId == org && m.userId == user

/-- The project is one of the organization's. -/
def Owns (db : Db) (org : OrganizationId) (project : ProjectId) : Prop :=
  ∃ p, db.projects.find project = some p ∧ p.organizationId = org

/-! ## Reads -/

/-- A project's row, whoever's it is. -/
def protectionOf (db : Db) (project : ProjectId) : Option ProtectionRow :=
  (db.protections.find project).map (·.row)

/-- Whoever is no member sees nothing. -/
def getDeploymentProtection (db : Db) (user : UserId) (project : ProjectId) :
    Option DeploymentProtection :=
  ((db.protectionOf project).filter fun r => db.isMember user r.organizationId).map
    (·.toDeploymentProtection)

/-- The row, if it is of the organization. -/
def protectionIn (db : Db) (org : OrganizationId) (project : ProjectId) : Option ProtectionRow :=
  (db.protectionOf project).filter fun r => r.organizationId == org

/-- The row without its hash. -/
def getDeploymentProtectionForService (db : Db) (org : OrganizationId) (project : ProjectId) :
    Option DeploymentProtection :=
  (db.protectionIn org project).map (·.toDeploymentProtection)

/-- And the hash. -/
def getDeploymentProtectionPasswordHash (db : Db) (org : OrganizationId) (project : ProjectId) :
    Option String :=
  (db.protectionIn org project).bind (·.basicPasswordHash)

/-- The domain of a hostname. -/
def findDomainByHostnameForService (db : Db) (org : OrganizationId) (hostname : String) :
    Option Domain :=
  db.domains.find (org, hostname)

/-- By the time of verification; a time that is missing sorts last. -/
def VerifiedBefore (a b : Domain) : Prop :=
  b.verifiedAt.all (fun y => a.verifiedAt.any (· ≤ y)) = true

instance : DecidableRel VerifiedBefore := fun _ _ => inferInstanceAs (Decidable (_ = true))

/-- The verified ones, in the order of their verification. -/
def listRoutableDomainsForService (db : Db) (org : OrganizationId) : List Domain :=
  (db.domains.rows.filter fun d => d.organizationId == org && d.verified).insertionSort VerifiedBefore

/-- `order=version.desc&limit=1` -/
def getSecurityPolicyForService (db : Db) (org : OrganizationId) : Option SecurityPolicy :=
  ((db.policies.filter fun p => p.organizationId == org).insertionSort
    fun a b => b.version ≤ a.version).head?

/-- `order=created_at.desc&limit=200` -/
def newest {α : Type} (rows : List α) : List α := rows.reverse.take 200

/-- The newest first. -/
def listSecurityRulesForService (db : Db) (org : OrganizationId) : List SecurityRule :=
  newest (db.rules.filter fun r => r.organizationId == org)

def listTrustedSourcesForService (db : Db) (org : OrganizationId) : List TrustedSourceRow :=
  newest (db.trustedSources.filter fun r => r.organizationId == org)

def listRateLimitsForService (db : Db) (org : OrganizationId) : List RateLimit :=
  newest (db.rateLimits.filter fun r => r.organizationId == org)

theorem mem_listRoutable {db : Db} {org : OrganizationId} {d : Domain} :
    d ∈ db.listRoutableDomainsForService org ↔
      d ∈ db.domains ∧ d.organizationId = org ∧ d.verified = true := by
  rw [listRoutableDomainsForService, List.mem_insertionSort, List.mem_filter, Table.mem_rows]
  simp

/-- No two routable domains of an organization share a hostname. -/
theorem listRoutable_nodup (db : Db) (org : OrganizationId) :
    ((db.listRoutableDomainsForService org).map (·.hostname)).Nodup := by
  have hperm : (db.listRoutableDomainsForService org).Perm
      (db.domains.rows.filter fun d => d.organizationId == org && d.verified) :=
    List.perm_insertionSort ..
  rw [(hperm.map _).nodup_iff]
  refine List.Nodup.of_map (fun h => (org, h)) ?_
  rw [List.map_map]
  have hkeys := db.domains.nodup.sublist
    ((List.filter_sublist (p := fun d => d.organizationId == org && d.verified)).map _)
  have hsame : (db.domains.rows.filter fun d => d.organizationId == org && d.verified).map
      ((fun h => (org, h)) ∘ fun d => d.hostname) =
      (db.domains.rows.filter fun d => d.organizationId == org && d.verified).map
        fun d => (d.organizationId, d.hostname) := by
    refine List.map_congr_left ?_
    intro d hd
    have := (List.mem_filter.mp hd).2
    simp only [Bool.and_eq_true, beq_iff_eq] at this
    simp [this.1]
  rw [hsame]
  exact hkeys

/-! ## Saving a posture -/

/-- `DeploymentProtectionSaveInput` -/
structure ProtectionSave where
  id : Nat
  organizationId : OrganizationId
  projectId : ProjectId
  mode : ProtectionMode
  basicUser : Option String
  basicPasswordHash : Option String
  allowedCidrs : List String
  protectionExpiresAt : Option String
  updatedBy : UserId
deriving DecidableEq, Repr

/-- The row as the upsert leaves it: every column of the body replaces what a row
of the project had, the organization with the rest; the version stays. -/
def savedRow (db : Db) (input : ProtectionSave) (expiresAt : Option Int) : ProtectionRow where
  id := input.id
  organizationId := input.organizationId
  projectId := input.projectId
  mode := input.mode
  basicUser := input.basicUser
  allowedCidrs := input.allowedCidrs
  protectionExpiresAt := expiresAt
  version := ((db.protectionOf input.projectId).map (·.version)).getD 1
  updatedBy := input.updatedBy
  basicPasswordHash := input.basicPasswordHash

/-- The keys the table refuses: a project that is not there, an id another row has. -/
def acceptsKeys (db : Db) (row : ProtectionRow) : Bool :=
  (db.projects.find row.projectId).isSome &&
    db.protections.rows.all fun r => r.row.id != row.id || r.row.projectId == row.projectId

/-- `saveDeploymentProtection`: an upsert on `project_id`. -/
def saveDeploymentProtection (P : Platform) (db : Db) (input : ProtectionSave) :
    Except Failure (DeploymentProtection × Db) :=
  let refused := Failure.unavailable "saveDeploymentProtection" "the database refused the row"
  match P.column input.protectionExpiresAt with
  | none => .error refused
  | some expiresAt =>
    let row := db.savedRow input expiresAt
    if hchecks : row.checks = true then
      if db.acceptsKeys row then
        .ok (row.toDeploymentProtection, { db with protections := db.protections.put ⟨row, hchecks⟩ })
      else .error refused
    else .error refused

end Db

end Security

end CloudWai
