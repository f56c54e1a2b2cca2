import CloudWai.Access.Keys

/-!
# What a key may do

A request made with a key is decided in two places. `authenticateApiKey` reads the key's
row and its owner's memberships and works out the effective scopes; `requireCapability`
then reads the membership again, from the same list, and the scopes. Between them the
owner's membership is looked up three times, always as the first row that fits.

`keyRequest` is the two together, over any row and any list of memberships, and
`keyRequest_iff` says that they come to the intersection: the key's activity, its
organization, its stored scopes and its owner's role. Nothing of an earlier request is
kept, so a key that is revoked and an owner who is demoted or removed are refused by the
very next one.

Mirrors the key half of `apps/api/src/context.ts` and `apps/api/src/guard.ts`.
-/

namespace CloudWai.Access

open Base Grammar

/-- `roleForKey`: the role the owner holds in the key's organization. -/
def roleForKey (row : ApiKeyRow) (memberships : List Membership) : Option OrgRole :=
  (membershipOf row memberships).map (·.role)

/-- `authenticateApiKey`, from the key's row and its owner's memberships on. -/
def keyContext (row : ApiKeyRow) (memberships : List Membership) (now : Instant) :
    Except Failure RequestContext :=
  if row.revokedAt.isSome then .error unauthenticated
  else
    let scopes := effectiveScopes row memberships now
    if roleForKey row memberships = none then .error unauthenticated
    else .ok ⟨row.ownerId, memberships, some ⟨row.organizationId, scopes⟩⟩

/-- A procedure's guard, in a request made with the key. -/
def keyRequest (row : ApiKeyRow) (memberships : List Membership) (now : Instant)
    (org : OrganizationId) (c : Capability) : Except Failure Unit :=
  (keyContext row memberships now).bind fun ctx => requireCapability ctx org c

/-- What the key, as it is stored, and its owner, as things stand, allow together. -/
structure Entitled (row : ApiKeyRow) (memberships : List Membership) (now : Instant)
    (org : OrganizationId) (c : Capability) : Prop where
  active : isKeyActive row now = true
  org : org = row.organizationId
  scope : c.wire ∈ row.scopes
  role : ∃ role, roleForKey row memberships = some role ∧ hasCapability role c = true

/-! ## The guard with a key -/

section Guard

variable {row : ApiKeyRow} {memberships : List Membership} {now : Instant} {org : OrganizationId}
  {c : Capability}

/-- The guard's membership is the one the key was authenticated by. -/
theorem roleFor_key (scopes : List Capability) :
    roleFor ⟨row.ownerId, memberships, some ⟨row.organizationId, scopes⟩⟩ row.organizationId =
      roleForKey row memberships := rfl

/-- The guard lets a key through in its own organization, for its scopes, as far as the
owner's role goes. -/
theorem requireCapability_key (scopes : List Capability) :
    requireCapability ⟨row.ownerId, memberships, some ⟨row.organizationId, scopes⟩⟩ org c =
        .ok () ↔
      org = row.organizationId ∧ c ∈ scopes ∧
        ∃ role, roleForKey row memberships = some role ∧ hasCapability role c = true := by
  constructor
  · intro h
    obtain ⟨⟨role, hrole, hgrants⟩, hkey⟩ := of_requireCapability h
    obtain ⟨horg, hscope⟩ := hkey _ rfl
    obtain rfl : row.organizationId = org := horg
    rw [roleFor_key] at hrole
    exact ⟨rfl, hscope, role, hrole, hgrants⟩
  · rintro ⟨rfl, hscope, role, hrole, hgrants⟩
    have hfound := (@roleFor_key row memberships scopes).trans hrole
    have hcan : can ⟨row.ownerId, memberships, some ⟨row.organizationId, scopes⟩⟩
        row.organizationId c = true := by
      unfold can
      rw [hfound]
      exact hgrants
    have hallowed : allowed ⟨row.ownerId, memberships, some ⟨row.organizationId, scopes⟩⟩
        row.organizationId c = true := by
      unfold allowed
      rw [hcan]
      simp [hscope]
    unfold requireCapability
    rw [hallowed, hfound]
    simp

/-- **The decision is the intersection.** -/
theorem keyRequest_iff :
    keyRequest row memberships now org c = .ok () ↔ Entitled row memberships now org c := by
  unfold keyRequest keyContext
  by_cases hrevoked : row.revokedAt.isSome = true
  · rw [if_pos hrevoked]
    refine ⟨nofun, fun h => ?_⟩
    have hactive := h.active
    unfold isKeyActive at hactive
    rw [Bool.and_eq_true, Option.isNone_iff_eq_none] at hactive
    rw [hactive.1] at hrevoked
    cases hrevoked
  · rw [if_neg hrevoked]
    dsimp only
    by_cases hmember : roleForKey row memberships = none
    · rw [if_pos hmember]
      refine ⟨nofun, fun h => ?_⟩
      obtain ⟨role, hrole, _⟩ := h.role
      rw [hmember] at hrole
      cases hrole
    · rw [if_neg hmember]
      show requireCapability _ org c = .ok () ↔ _
      rw [requireCapability_key, mem_effectiveScopes]
      constructor
      · rintro ⟨horg, ⟨hactive, hscope, _⟩, hrole⟩
        exact ⟨hactive, horg, hscope, hrole⟩
      · intro h
        refine ⟨h.org, ⟨h.active, h.scope, ?_⟩, h.role⟩
        obtain ⟨role, hrole, hgrants⟩ := h.role
        obtain ⟨m, hm, rfl⟩ := Option.map_eq_some_iff.mp hrole
        exact ⟨m, hm, hgrants⟩

end Guard

/-! ## Requests over the stored rows -/

section Store

variable (sha256 : String → String)

/-- A request that presents a key and asks for one capability. -/
def KeyStore.request (w : KeyStore) (presented : String) (org : OrganizationId) (c : Capability) :
    Except Failure Unit :=
  (buildContext sha256 w presented).bind fun ctx => requireCapability ctx org c

/-- `revoked_at` is set to now. -/
def revocation (now : Instant) : Table.Edit ApiKeyRow.keyHash :=
  ⟨fun r => { r with revokedAt := some now }, fun _ => rfl⟩

/-- `revokeApiKey`: whatever has the id in the organization. -/
def KeyStore.revokeApiKey (w : KeyStore) (org : OrganizationId) (id : Nat) : KeyStore :=
  let hit := fun r : ApiKeyRow => r.id == id && r.organizationId == org
  { w with keys := w.keys.update hit (revocation w.now) }

/-- `updateMemberRole` -/
def KeyStore.updateMemberRole (w : KeyStore) (org : OrganizationId) (user : UserId)
    (role : OrgRole) : KeyStore :=
  { w with members := w.members.map fun m =>
      if m.organizationId = org ∧ m.userId = user then { m with role := role } else m }

/-- `removeMember` -/
def KeyStore.removeMember (w : KeyStore) (org : OrganizationId) (user : UserId) : KeyStore :=
  { w with members := w.members.filter fun m => !(m.organizationId == org && m.userId == user) }

variable {sha256} {w : KeyStore} {presented : String} {org : OrganizationId} {c : Capability}

/-- The stored memberships of a user are those `membershipsFor` reads. -/
theorem authenticateApiKey_eq : authenticateApiKey sha256 w presented =
    match w.lookup sha256 presented with
    | none => .error unauthenticated
    | some row => keyContext row (w.membershipsFor row.ownerId) w.now := by
  unfold authenticateApiKey
  cases w.lookup sha256 presented with
  | none => rfl
  | some row =>
    rw [Option.filter_some]
    unfold keyContext roleForKey
    cases hrevoked : row.revokedAt with
    | some t => simp [hrevoked]
    | none =>
      cases membershipOf row (w.membershipsFor row.ownerId) <;> simp [hrevoked]

/-- A request passes if the key is stored and its row and its owner allow it. -/
theorem request_iff : w.request sha256 presented org c = .ok () ↔
    looksLikeApiKey presented = true ∧ ∃ row, w.lookup sha256 presented = some row ∧
      Entitled row (w.membershipsFor row.ownerId) w.now org c := by
  unfold KeyStore.request buildContext
  by_cases hlooks : looksLikeApiKey presented = true
  · rw [if_pos hlooks, authenticateApiKey_eq]
    cases w.lookup sha256 presented with
    | none => exact ⟨nofun, nofun⟩
    | some row =>
      show keyRequest row _ _ org c = .ok () ↔ _
      rw [keyRequest_iff]
      exact ⟨fun h => ⟨hlooks, row, rfl, h⟩, fun ⟨_, _, hrow, h⟩ => Option.some.inj hrow ▸ h⟩
  · rw [if_neg hlooks]
    exact ⟨nofun, fun h => absurd h.1 hlooks⟩

/-- A key revoked just now is refused everything. -/
theorem request_revoked {row : ApiKeyRow} (hrow : w.lookup sha256 presented = some row) :
    (w.revokeApiKey row.organizationId row.id).request sha256 presented org c ≠ .ok () := by
  intro h
  obtain ⟨_, row', hrow', hentitled⟩ := request_iff.mp h
  have hfound : (w.revokeApiKey row.organizationId row.id).lookup sha256 presented =
      some { row with revokedAt := some w.now } := by
    unfold KeyStore.lookup at hrow ⊢
    show (w.keys.update _ _).find _ = _
    rw [Table.find_update, hrow]
    simp [Table.Edit.on, revocation]
  obtain rfl := Option.some.inj (hfound.symm.trans hrow')
  have hactive := hentitled.active
  simp [isKeyActive] at hactive

/-- After a change of the members, the owner's role is the one that is then found. -/
theorem request_role {w' : KeyStore} {row : ApiKeyRow} (hkeys : w'.keys = w.keys)
    (hrow : w.lookup sha256 presented = some row)
    (hrole : ∀ role, roleForKey row (w'.membershipsFor row.ownerId) = some role →
      hasCapability role c = false) :
    w'.request sha256 presented org c ≠ .ok () := by
  intro h
  obtain ⟨_, row', hrow', hentitled⟩ := request_iff.mp h
  have hfound : w'.lookup sha256 presented = some row := by
    unfold KeyStore.lookup at hrow ⊢
    rw [hkeys, hrow]
  obtain rfl := Option.some.inj (hfound.symm.trans hrow')
  obtain ⟨role, hr, hgrants⟩ := hentitled.role
  rw [hrole role hr] at hgrants
  cases hgrants

/-- The owner's new role is the only one that can be found. -/
theorem roleForKey_updated {row : ApiKeyRow} {role found : OrgRole}
    (h : roleForKey row ((w.updateMemberRole row.organizationId row.ownerId role).membershipsFor
      row.ownerId) = some found) : found = role := by
  obtain ⟨m, hm, rfl⟩ := Option.map_eq_some_iff.mp h
  have hmem := List.mem_of_find?_eq_some hm
  have hfits := List.find?_some hm
  simp only [Bool.and_eq_true, beq_iff_eq] at hfits
  unfold KeyStore.membershipsFor KeyStore.updateMemberRole at hmem
  obtain ⟨m₀, _, heq⟩ := List.mem_map.mp (List.mem_filter.mp hmem).1
  split at heq
  next => rw [← heq]
  next hother =>
    subst heq
    exact absurd hfits hother

/-- An owner who was removed has no role. -/
theorem roleForKey_removed {row : ApiKeyRow} :
    roleForKey row ((w.removeMember row.organizationId row.ownerId).membershipsFor row.ownerId) =
      none := by
  unfold roleForKey membershipOf
  rw [Option.map_eq_none_iff, List.find?_eq_none]
  intro m hm hfits
  unfold KeyStore.membershipsFor KeyStore.removeMember at hm
  have hkept := (List.mem_filter.mp (List.mem_filter.mp hm).1).2
  rw [hfits] at hkept
  cases hkept

/-- **A key's request passes exactly if the key is active, the organization is its own,
the capability is stored in its scopes and its owner's role grants it**; and after a
revocation, a demotion or a removal, the next request is refused. -/
theorem key_decided (sha256 : String → String) (row : ApiKeyRow) (memberships : List Membership)
    (now : Instant) (org : OrganizationId) (c : Capability) :
    (keyRequest row memberships now org c = .ok () ↔
      isKeyActive row now = true ∧ org = row.organizationId ∧ c.wire ∈ row.scopes ∧
        ∃ role, roleForKey row memberships = some role ∧ hasCapability role c = true) ∧
    ∀ (w : KeyStore) (presented : String), w.lookup sha256 presented = some row →
      (∀ org c, (w.revokeApiKey row.organizationId row.id).request sha256 presented org c ≠
        .ok ()) ∧
      (∀ role, hasCapability role c = false →
        (w.updateMemberRole row.organizationId row.ownerId role).request sha256 presented org c ≠
          .ok ()) ∧
      (w.removeMember row.organizationId row.ownerId).request sha256 presented org c ≠
        .ok () := by
  constructor
  · rw [keyRequest_iff]
    exact ⟨fun h => ⟨h.active, h.org, h.scope, h.role⟩, fun ⟨ha, ho, hs, hr⟩ => ⟨ha, ho, hs, hr⟩⟩
  · intro w presented hrow
    refine ⟨fun org c => request_revoked hrow, ?_, ?_⟩
    · intro role hrole
      refine request_role rfl hrow fun found hfound => ?_
      rw [roleForKey_updated hfound]
      exact hrole
    · refine request_role rfl hrow fun found hfound => ?_
      rw [roleForKey_removed] at hfound
      cases hfound

end Store

/-- A key that may read and delete, of an owner who became a viewer, in a list with a
stranger's row and the owner's row in another organization before it. -/
example :
    let row : ApiKeyRow := ⟨1, 7, "ci", "h", "cw_live_abcd", 3, ["project:read", "org:delete"],
      none, 10⟩
    let memberships : List Membership := [⟨7, 4, .owner⟩, ⟨8, 3, .owner⟩, ⟨7, 3, .viewer⟩]
    keyRequest row memberships 10 7 .projectRead = .ok () ∧
      keyRequest row memberships 10 7 .orgDelete ≠ .ok () ∧
        keyRequest row memberships 10 8 .projectRead ≠ .ok () := by
  decide +kernel

end CloudWai.Access
