import CloudWai.Authorization
import CloudWai.Grammar
import CloudWai.Base.Table
import CloudWai.Queue.Workers

/-!
# API keys that make API keys

`packages/auth/src/api-keys.ts`, the key half of `buildContext`, and
`createApiKey`. Two things bound a key. When it is issued, the scopes asked for
are cut down to what the *role* of its owner grants; when it is used, the scopes
it was stored with are cut down to the owner's role of that moment. The key that
authenticates the request that issues another one takes no part in the first:
it only has to carry `apikey:create`.

So a key's reach is its own scopes and whatever it can have made. `Within` is
the order in which nothing is gained: the same organization and owner, not older,
not outliving a revocation, no further scope. It is a preorder, and a key within
another never has a scope the other lacks, whatever the owner's role has become
(`effectiveScopes_subset`). A chain of issued keys stays within its first key
exactly as long as every call asks for nothing, of what the role grants, that the
first key has not (`contained_iff_modest`).

One clock serves the API and the database. A stored scope is a string, as in the
column, and is a capability only if it is the name of one.

The store's half is in `packages/database/src/supabase-store.ts`. Audit rows and
`last_used_at` are left out. SHA-256 is a parameter, and so is the random part of a secret.
-/

namespace CloudWai.Access

open Base Grammar

/-! ## Capabilities by name -/

/-- `CAPABILITIES` -/
def capabilities : List Capability :=
  [.orgRead, .orgUpdate, .orgDelete, .memberRead, .memberInvite, .memberRemove, .projectRead,
    .projectCreate, .projectUpdate, .projectDelete, .deploymentRead, .deploymentCreate,
    .deploymentCancel, .deploymentRollback, .dataRead, .dataCreate, .dataBackup, .dataRestore,
    .dataRotate, .dataDestroy, .domainRead, .domainCreate, .domainVerify, .domainDelete,
    .securityRead, .securityUpdate, .securityQuarantine, .apikeyRead, .apikeyCreate, .apikeyRevoke,
    .billingRead, .billingManage, .auditRead]

/-- The capability a stored scope is the name of. -/
def capabilityOf (scope : String) : Option Capability := capabilities.find? (·.wire == scope)

@[simp] theorem capabilityOf_wire (c : Capability) : capabilityOf c.wire = some c := by
  cases c <;> decide +kernel

theorem wire_of_capabilityOf {scope : String} {c : Capability} (h : capabilityOf scope = some c) :
    c.wire = scope := by
  have hc := List.find?_some h
  simpa using hc

/-- `hasCapability` of a requested scope: `ROLE_CAPABILITIES[role].includes(scope)`. -/
def grants (role : OrgRole) (scope : String) : Bool :=
  (capabilityOf scope).any (hasCapability role)

/-! ## Keys -/

/-- What is stored of a key: `api_keys`, less the stamp of its last use. -/
structure ApiKeyRow where
  id : Nat
  organizationId : OrganizationId
  name : String
  keyHash : String
  keyPrefix : String
  ownerId : UserId
  scopes : List String
  revokedAt : Option Instant
  createdAt : Instant
deriving DecidableEq, Repr

/-- `ApiKeySummary`: a key as it leaves the API. -/
structure ApiKeySummary where
  id : Nat
  organizationId : OrganizationId
  name : String
  keyPrefix : String
  scopes : List String
  createdAt : Instant
  revokedAt : Option Instant
deriving DecidableEq, Repr

/-- `toApiKey` -/
def toApiKey (row : ApiKeyRow) : ApiKeySummary :=
  ⟨row.id, row.organizationId, row.name, row.keyPrefix, row.scopes, row.createdAt, row.revokedAt⟩

/-- `SECRET_PREFIX` -/
def secretPrefix : String := "cw_live_"

/-- `looksLikeApiKey` -/
def looksLikeApiKey (presented : String) : Bool :=
  secretPrefix.toList.isPrefixOf presented.toList &&
    decide (jsLength presented > jsLength secretPrefix + 20)

/-- `boundedScopes` -/
def boundedScopes (requested : List String) (role : OrgRole) : List String :=
  requested.eraseDups.filter (grants role)

/-- `isKeyActive` -/
def isKeyActive (row : ApiKeyRow) (now : Instant) : Bool :=
  row.revokedAt.isNone && decide (row.createdAt ≤ now)

/-- The owner's membership of the key's organization. -/
def membershipOf (row : ApiKeyRow) (memberships : List Membership) : Option Membership :=
  memberships.find? fun m => m.organizationId == row.organizationId && m.userId == row.ownerId

/-- `effectiveScopes` -/
def effectiveScopes (row : ApiKeyRow) (memberships : List Membership) (now : Instant) :
    List Capability :=
  if !isKeyActive row now then []
  else
    match membershipOf row memberships with
    | none => []
    | some m => (row.scopes.filterMap capabilityOf).filter (hasCapability m.role)

/-- What a key has: a stored scope, if the key is active and the role of its owner grants it. -/
theorem mem_effectiveScopes {row : ApiKeyRow} {memberships : List Membership} {now : Instant}
    {c : Capability} : c ∈ effectiveScopes row memberships now ↔
      isKeyActive row now = true ∧ c.wire ∈ row.scopes ∧
        ∃ m, membershipOf row memberships = some m ∧ hasCapability m.role c = true := by
  have hstored : c ∈ row.scopes.filterMap capabilityOf ↔ c.wire ∈ row.scopes := by
    rw [List.mem_filterMap]
    constructor
    · rintro ⟨scope, hscope, hc⟩
      rw [wire_of_capabilityOf hc]
      exact hscope
    · intro hc
      exact ⟨c.wire, hc, capabilityOf_wire c⟩
  unfold effectiveScopes
  cases hactive : isKeyActive row now with
  | false => simp
  | true =>
    cases hm : membershipOf row memberships with
    | none => simp
    | some m =>
      simp only [Bool.not_true, Bool.false_eq_true, if_false, List.mem_filter, hstored, true_and,
        Option.some.injEq, exists_eq_left']

/-- `row` carries nothing that `k` does not. -/
structure Within (k row : ApiKeyRow) : Prop where
  org : row.organizationId = k.organizationId
  owner : row.ownerId = k.ownerId
  age : k.createdAt ≤ row.createdAt
  revoked : row.revokedAt = none → k.revokedAt = none
  scopes : ∀ c : Capability, c.wire ∈ row.scopes → c.wire ∈ k.scopes

theorem Within.refl (k : ApiKeyRow) : Within k k :=
  ⟨rfl, rfl, Nat.le_refl _, id, fun _ h => h⟩

/-- A key within another has no scope the other lacks, whoever is a member by then. -/
theorem effectiveScopes_subset {k row : ApiKeyRow} (h : Within k row)
    (memberships : List Membership) (now : Instant) :
    effectiveScopes row memberships now ⊆ effectiveScopes k memberships now := by
  intro c hc
  obtain ⟨hactive, hstored, m, hm, hrole⟩ := mem_effectiveScopes.mp hc
  refine mem_effectiveScopes.mpr ⟨?_, h.scopes c hstored, m, ?_, hrole⟩
  · simp only [isKeyActive, Bool.and_eq_true, Option.isNone_iff_eq_none, decide_eq_true_eq]
      at hactive ⊢
    exact ⟨h.revoked hactive.1, Nat.le_trans h.age hactive.2⟩
  · unfold membershipOf at hm ⊢
    rw [← h.org, ← h.owner]
    exact hm

/-! ## Using a key -/

/-- The keys, the members, and the time. -/
structure KeyStore where
  keys : Table ApiKeyRow.keyHash
  members : List Membership
  now : Instant

/-- `membershipsFor` -/
def KeyStore.membershipsFor (w : KeyStore) (user : UserId) : List Membership :=
  w.members.filter (·.userId == user)

/-- The refusal of whoever is not let in. -/
def unauthenticated : Failure := .api "unauthenticated" "Authentication required."

section Hash

-- the digest of a secret, as `node:crypto` computes it
variable (sha256 : String → String)

/-- `findApiKeyByHash` of a presented secret. -/
def KeyStore.lookup (w : KeyStore) (secret : String) : Option ApiKeyRow :=
  w.keys.find (sha256 secret)

/-- `authenticateApiKey` -/
def authenticateApiKey (w : KeyStore) (presented : String) : Except Failure RequestContext :=
  match (w.lookup sha256 presented).filter (·.revokedAt.isNone) with
  | none => .error unauthenticated
  | some record =>
    let memberships := w.membershipsFor record.ownerId
    let scopes := effectiveScopes record memberships w.now
    if (membershipOf record memberships).isNone then .error unauthenticated
    else .ok ⟨record.ownerId, memberships, some ⟨record.organizationId, scopes⟩⟩

/-- The context of a request that a key authenticated. -/
theorem authenticateApiKey_ok {w : KeyStore} {presented : String} {ctx : RequestContext}
    (h : authenticateApiKey sha256 w presented = .ok ctx) :
    ∃ r, w.lookup sha256 presented = some r ∧ r.revokedAt = none ∧
      ctx = ⟨r.ownerId, w.membershipsFor r.ownerId,
        some ⟨r.organizationId, effectiveScopes r (w.membershipsFor r.ownerId) w.now⟩⟩ := by
  unfold authenticateApiKey at h
  split at h
  · cases h
  next r hr =>
    rw [Option.filter_eq_some_iff, Option.isNone_iff_eq_none] at hr
    dsimp only at h
    split at h
    · cases h
    · exact ⟨r, hr.1, hr.2, (Except.ok.inj h).symm⟩

/-- `buildContext` of a request that presents a key; another text is the identity
provider's to refuse. -/
def buildContext (w : KeyStore) (presented : String) : Except Failure RequestContext :=
  if looksLikeApiKey presented then authenticateApiKey sha256 w presented
  else .error unauthenticated

/-! ## Making one -/

/-- What a caller asks for; the key's owner is the caller. -/
structure CreateApiKeyInput where
  organizationId : OrganizationId
  name : String
  scopes : List String
deriving DecidableEq, Repr

/-- What `createApiKey` settles before it writes: the name, and the role that
bounds the scopes. -/
def mintTarget (ctx : RequestContext) (input : CreateApiKeyInput) :
    Except Failure (String × OrgRole) :=
  (requireCapability ctx input.organizationId .apikeyCreate).bind fun _ =>
  let name := trim input.name
  if jsLength name < 1 ∨ jsLength name > 120 then
    .error (.api "invalid_input" "API key name must be 1-120 characters.")
  else
    match roleFor ctx input.organizationId with
    | none => .error (.api "not_found" "Organization not found.")
    | some role => .ok (name, role)

/-- `issueApiKey`: the secret, of which `token` is the random part, and the row. -/
def issueApiKey (id : Nat) (token : String) (org : OrganizationId) (owner : UserId) (name : String)
    (role : OrgRole) (requested : List String) (now : Instant) : String × ApiKeyRow :=
  let secret := secretPrefix ++ token
  (secret, ⟨id, org, name, sha256 secret,
    String.ofList (secret.toList.take (jsLength secretPrefix + 4)), owner,
    boundedScopes requested role, none, now⟩)

/-- The id and the hash are unique columns. -/
def KeyStore.taken (w : KeyStore) (id : Nat) (keyHash : String) : Bool :=
  (w.keys.find keyHash).isSome || w.keys.rows.any (·.id == id)

/-- `insert into api_keys` -/
def KeyStore.insert (w : KeyStore) (row : ApiKeyRow) : Option KeyStore :=
  if w.taken row.id row.keyHash then none else some { w with keys := w.keys.put row }

/-- The new row is found under its hash, and everything that was found is. -/
theorem lookup_insert {w w' : KeyStore} {row : ApiKeyRow} (h : w.insert row = some w')
    (secret : String) : w'.lookup sha256 secret =
      if sha256 secret = row.keyHash then some row else w.lookup sha256 secret := by
  unfold KeyStore.insert at h
  split at h
  · cases h
  · obtain rfl := Option.some.inj h
    exact Table.find_put w.keys row (sha256 secret)

theorem lookup_insert_of_found {w w' : KeyStore} {row : ApiKeyRow} (h : w.insert row = some w')
    {secret : String} {r : ApiKeyRow} (hr : w.lookup sha256 secret = some r) :
    w'.lookup sha256 secret = some r := by
  rw [lookup_insert sha256 h]
  split
  next hhash =>
    -- the hash would be taken
    unfold KeyStore.insert KeyStore.taken at h
    unfold KeyStore.lookup at hr
    rw [← hhash, hr] at h
    simp at h
  next => exact hr

/-- `IssuedKeyResult` -/
structure IssuedKeyResult where
  key : ApiKeySummary
  secret : String
deriving DecidableEq, Repr

/-- `fault` is what happens to the two writes: after one, the key is stored and the
caller never hears of it. -/
def createApiKey (ctx : RequestContext) (input : CreateApiKeyInput) (id : Nat) (token : String)
    (fault : Queue.Fault) (w : KeyStore) : Except Failure IssuedKeyResult × KeyStore :=
  match mintTarget ctx input with
  | .error failure => (.error failure, w)
  | .ok (name, role) =>
    let issued := issueApiKey sha256 id token input.organizationId ctx.userId name role input.scopes
      w.now
    match fault, w.insert issued.2 with
    | .before reason, _ => (.error (.unavailable "createApiKey" reason), w)
    | _, none => (.error (.unavailable "createApiKey" "POST /api_keys returned 409."), w)
    | .after reason, some w => (.error (.unavailable "createApiKey" reason), w)
    | .none, some w => (.ok ⟨toApiKey issued.2, issued.1⟩, w)

end Hash

end CloudWai.Access
