import CloudWai.Contracts

/-!
# Who may do what

`packages/authorization` and the guard of the API. A request carries the
memberships the server loaded for its principal and, when it was made with an
API key, the one organization and the capabilities that key is bound to.
`requireCapability` is the only decision procedures make about a caller, and it
is made about an organization id that the caller supplied.

Mirrors `packages/authorization/src/index.ts`, `apps/api/src/guard.ts` and the request
context of `apps/api/src/context.ts`. A verified token is a user id here: what verifies it
is not modelled.
-/

namespace CloudWai

/-- `ORG_ROLES` -/
inductive OrgRole where
  | owner | admin | member | viewer
deriving DecidableEq, Repr

/-- `CAPABILITIES` -/
inductive Capability where
  | orgRead | orgUpdate | orgDelete
  | memberRead | memberInvite | memberRemove
  | projectRead | projectCreate | projectUpdate | projectDelete
  | deploymentRead | deploymentCreate | deploymentCancel | deploymentRollback
  | dataRead | dataCreate | dataBackup | dataRestore | dataRotate | dataDestroy
  | domainRead | domainCreate | domainVerify | domainDelete
  | securityRead | securityUpdate | securityQuarantine
  | apikeyRead | apikeyCreate | apikeyRevoke
  | billingRead | billingManage
  | auditRead
deriving DecidableEq, Repr

/-- A capability as it is named in messages: `resource:action`. -/
def Capability.wire : Capability → String
  | .orgRead => "org:read" | .orgUpdate => "org:update" | .orgDelete => "org:delete"
  | .memberRead => "member:read" | .memberInvite => "member:invite"
  | .memberRemove => "member:remove"
  | .projectRead => "project:read" | .projectCreate => "project:create"
  | .projectUpdate => "project:update" | .projectDelete => "project:delete"
  | .deploymentRead => "deployment:read" | .deploymentCreate => "deployment:create"
  | .deploymentCancel => "deployment:cancel" | .deploymentRollback => "deployment:rollback"
  | .dataRead => "data:read" | .dataCreate => "data:create" | .dataBackup => "data:backup"
  | .dataRestore => "data:restore" | .dataRotate => "data:rotate"
  | .dataDestroy => "data:destroy"
  | .domainRead => "domain:read" | .domainCreate => "domain:create"
  | .domainVerify => "domain:verify" | .domainDelete => "domain:delete"
  | .securityRead => "security:read" | .securityUpdate => "security:update"
  | .securityQuarantine => "security:quarantine"
  | .apikeyRead => "apikey:read" | .apikeyCreate => "apikey:create"
  | .apikeyRevoke => "apikey:revoke"
  | .billingRead => "billing:read" | .billingManage => "billing:manage"
  | .auditRead => "audit:read"

/-- `ROLE_CAPABILITIES` -/
def hasCapability : OrgRole → Capability → Bool
  | .owner, _ => true
  | .admin, c => c != .orgDelete && c != .billingManage
  | .member, c => [Capability.orgRead, .memberRead, .projectRead, .projectCreate, .projectUpdate,
      .deploymentRead, .deploymentCreate, .deploymentCancel, .dataRead, .domainRead, .securityRead,
      .apikeyRead, .billingRead, .auditRead].contains c
  | .viewer, c => [Capability.orgRead, .memberRead, .projectRead, .deploymentRead, .dataRead,
      .domainRead, .securityRead, .billingRead, .auditRead].contains c

/-- A row of `memberships`, as the API reads it. -/
structure Membership where
  organizationId : OrganizationId
  userId : UserId
  role : OrgRole
deriving DecidableEq, Repr

/-- The authority of a request made with an API key. -/
structure ApiKeyAuth where
  organizationId : OrganizationId
  scopes : List Capability
deriving DecidableEq, Repr

/-- Who calls: a user, what it is a member of, and the key it came with, if any. -/
structure RequestContext where
  userId : UserId
  memberships : List Membership
  apiKey : Option ApiKeyAuth
deriving DecidableEq, Repr

/-- What a procedure throws: an `ApiError`, or an error of the store's. -/
inductive Failure where
  | api (code message : String)
  | unavailable (operation reason : String)
deriving DecidableEq, Repr

/-- `roleIn`, and `roleFor` of the guard. -/
def roleFor (ctx : RequestContext) (org : OrganizationId) : Option OrgRole :=
  (ctx.memberships.find? fun m => m.organizationId == org && m.userId == ctx.userId).map (·.role)

/-- Whether the caller's role has the capability. -/
def can (ctx : RequestContext) (org : OrganizationId) (c : Capability) : Bool :=
  match roleFor ctx org with
  | some role => hasCapability role c
  | none => false

/-- The membership's authority, narrowed by the key's. -/
def allowed (ctx : RequestContext) (org : OrganizationId) (c : Capability) : Bool :=
  can ctx org c &&
    match ctx.apiKey with
    | some key => key.organizationId == org && key.scopes.contains c
    | none => true

/-- An API key is of one organization; any other one is as good as not there. -/
def requireCapability (ctx : RequestContext) (org : OrganizationId) (c : Capability) :
    Except Failure Unit :=
  if ctx.apiKey.any fun key => key.organizationId != org then
    .error (.api "not_found" "Organization not found.")
  else if roleFor ctx org = none then .error (.api "not_found" "Organization not found.")
  else if !allowed ctx org c then .error (.api "forbidden" s!"Requires capability: {c.wire}.")
  else .ok ()

/-- What a caller the guard lets through has: a role that grants the capability
and, with a key, that organization's key and the capability among its scopes. -/
theorem of_requireCapability {ctx : RequestContext} {org : OrganizationId} {c : Capability}
    (h : requireCapability ctx org c = .ok ()) :
    (∃ role, roleFor ctx org = some role ∧ hasCapability role c = true) ∧
      ∀ key, ctx.apiKey = some key → key.organizationId = org ∧ c ∈ key.scopes := by
  unfold requireCapability at h
  split at h
  · cases h
  · split at h
    · cases h
    · split at h
      · cases h
      next hallowed =>
        rw [Bool.not_eq_true', Bool.not_eq_false, allowed, Bool.and_eq_true] at hallowed
        obtain ⟨hcan, hkey⟩ := hallowed
        constructor
        · unfold can at hcan
          split at hcan
          next role hrole => exact ⟨role, hrole, hcan⟩
          next => cases hcan
        · intro key hctx
          simp only [hctx, Bool.and_eq_true, beq_iff_eq, List.contains_iff_mem] at hkey
          exact hkey

end CloudWai
