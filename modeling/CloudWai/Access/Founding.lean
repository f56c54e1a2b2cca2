import CloudWai.Access.Members
import CloudWai.Grammar

/-!
# Founding an organization

`createOrganization` of the procedures and of the store: the organization, the
creator's membership, the audit entry, each a request of its own. "The creator
becomes owner", but only the second request makes it one, and nothing takes the
first back. Where the first has landed and the second never does, the
organization stands without a member, out of reach of every procedure, and its
slug is spent: `clean_iff` says when that is.

Mirrors `apps/api/src/procedures/organizations.ts` and the method of
`packages/database/src/supabase-store.ts`. Of an audit entry's metadata only the slug is
kept, and the service role is held back by no policy.
-/

namespace CloudWai.Access

open Base Queue Pattern Grammar

/-! ## The tables -/

/-- A row of `organizations`. -/
structure OrganizationRow where
  id : OrganizationId
  name : String
  slug : String
  createdBy : UserId
  createdAt : Instant
deriving DecidableEq, Repr

/-- What the audit entry of a founding names. -/
structure AuditEntry where
  organizationId : OrganizationId
  actorId : UserId
  event : String
  slug : String
deriving DecidableEq, Repr

/-- The tables a founding touches; every membership is of an organization there. -/
structure ControlPlane where
  organizations : Table OrganizationRow.id
  members : MembersTable
  /-- `auth.users` -/
  users : List UserId
  profiles : List UserId
  audit : List AuditEntry
  now : Instant
  refs : ∀ m ∈ members, (organizations.find m.organizationId).isSome

/-- The row a founding inserts; its id is a default. -/
def organizationDraft (name slug : String) (createdBy : UserId) (now : Instant) :
    Table.Draft OrganizationRow.id where
  row id := ⟨id, name, slug, createdBy, now⟩
  keyed _ := rfl

namespace ControlPlane

variable (w : ControlPlane)

/-- The keys of `organizations`: the slug is unique, and the creator is a user. -/
def admits (slug : String) (createdBy : UserId) : Bool :=
  w.organizations.rows.all (·.slug != slug) && w.users.contains createdBy

def addOrganization (d : Table.Draft OrganizationRow.id) : ControlPlane where
  organizations := w.organizations.insertNew d
  members := w.members
  users := w.users
  profiles := w.profiles
  audit := w.audit
  now := w.now
  refs m hm := by
    rw [Table.find_insertNew]
    split
    · rfl
    · exact w.refs m hm

/-- The keys of `organization_members`. -/
def admitsMember (org : OrganizationId) (user : UserId) : Bool :=
  (w.organizations.find org).isSome && w.users.contains user && w.profiles.contains user &&
    !isMember w.members user org

theorem found_of_admits {org : OrganizationId} {user : UserId}
    (h : w.admitsMember org user = true) : (w.organizations.find org).isSome := by
  simp only [admitsMember, Bool.and_eq_true] at h
  exact h.1.1.1

def addMember (m : MemberRow) (h : (w.organizations.find m.organizationId).isSome) :
    ControlPlane where
  organizations := w.organizations
  members := w.members.put m
  users := w.users
  profiles := w.profiles
  audit := w.audit
  now := w.now
  refs m' hm' := by
    have hfound := Table.find_eq_some.mpr ⟨hm', rfl⟩
    rw [Table.find_put] at hfound
    split at hfound
    · obtain rfl := Option.some.inj hfound
      exact h
    · exact w.refs m' (Table.mem_of_find hfound).1

/-- The user is an owner of the organization. -/
def Owns (org : OrganizationId) (user : UserId) : Prop :=
  ∃ m, w.members.find (org, user) = some m ∧ m.role = .owner

end ControlPlane

/-! ## The requests -/

/-- What `createOrganization` asks of the store. -/
inductive FoundingCall where
  | insertOrganization (name slug : String) (createdBy : UserId)
  | insertMembership (org : OrganizationId) (user : UserId) (role : OrgRole)
  | recordAuditEvent (entry : AuditEntry)
deriving DecidableEq, Repr

namespace FoundingCall

abbrev Ans : FoundingCall → Type
  | insertOrganization .. => List OrganizationRow
  | insertMembership .. => Unit
  | recordAuditEvent _ => List AuditEntry

/-- The operation an error names. -/
def op : FoundingCall → String
  | insertOrganization .. => "createOrganization"
  | insertMembership .. => "createOrganizationMembership"
  | recordAuditEvent _ => "recordAuditEvent"

/-- What the database does with a request. -/
def run (w : ControlPlane) : (c : FoundingCall) → Except String c.Ans × ControlPlane
  | insertOrganization name slug createdBy =>
    let d := organizationDraft name slug createdBy w.now
    if w.admits slug createdBy then
      (.ok [d.row w.organizations.nextId], w.addOrganization d)
    else (.error "POST /organizations returned 409.", w)
  | insertMembership org user role =>
    if h : w.admitsMember org user = true then
      (.ok (), w.addMember ⟨org, user, role, w.now⟩ (w.found_of_admits h))
    else (.error "POST /organization_members returned 409.", w)
  | recordAuditEvent entry =>
    if (w.organizations.find entry.organizationId).isSome then
      (.ok [entry], { w with audit := entry :: w.audit })
    else (.error "POST /audit_logs returned 409.", w)

end FoundingCall

/-- What the outside settles: what goes wrong with each request, and whether the
answer's rows can be read. -/
structure Outside where
  organization : Fault
  organizationShown : Bool
  membership : Fault
  audit : Fault
  auditShown : Bool

/-- Nothing goes wrong. -/
def Outside.fair : Outside := ⟨.none, true, .none, .none, true⟩

namespace Outside

variable (o : Outside)

def fault : FoundingCall → Fault
  | .insertOrganization .. => o.organization
  | .insertMembership .. => o.membership
  | .recordAuditEvent _ => o.audit

/-- The rows of an answer that could not be parsed are no rows. -/
def shows : (c : FoundingCall) → c.Ans → c.Ans
  | .insertOrganization .., rows => if o.organizationShown then rows else []
  | .insertMembership .., a => a
  | .recordAuditEvent _, rows => if o.auditShown then rows else []

/-- One awaited request. -/
def perform (w : ControlPlane) (c : FoundingCall) : Except Failure c.Ans × ControlPlane :=
  let a := (o.fault c).apply w (c.run w)
  ((a.1.map (o.shows c)).mapError (.unavailable c.op), a.2)

end Outside

/-! ## The procedure -/

/-- A program over the control plane's store. -/
abbrev FoundingProg (α : Type) := Prog FoundingCall FoundingCall.Ans Failure α

/-- `created[0]`, which must be there. -/
def firstRow {α : Type} (operation : String) : List α → FoundingProg α
  | [] => .raise (.unavailable operation "no row returned")
  | row :: _ => .ret row

/-- `createOrganization` of the store. -/
def storeOrganization (name slug : String) (createdBy : UserId) : FoundingProg OrganizationRow :=
  (Prog.call (FoundingCall.insertOrganization name slug createdBy)).bind fun created =>
  (firstRow "createOrganization" created).bind fun organization =>
  (Prog.call (FoundingCall.insertMembership organization.id createdBy .owner)).bind fun _ =>
  .ret organization

/-- `/^[a-z0-9][a-z0-9-]{1,62}$/` -/
def organizationSlug : Pattern :=
  seq (one lowerNum) (between 1 62 (one fun c => lowerNum c || c == '-'))

/-- The input, checked: the reason it is refused with. -/
def foundingRefusal (name slug : String) : Option String :=
  if jsLength (trim name) < 1 ∨ 120 < jsLength (trim name) then
    some "Organization name must be 1-120 characters."
  else if !organizationSlug.test slug then
    some "Organization slug must be lowercase alphanumeric with hyphens."
  else none

/-- `createOrganization` -/
def createOrganization (ctx : RequestContext) (name slug : String) : FoundingProg OrganizationRow :=
  match foundingRefusal name slug with
  | some reason => .raise (.api "invalid_input" reason)
  | none =>
    (storeOrganization (trim name) slug ctx.userId).bind fun org =>
    (Prog.call (FoundingCall.recordAuditEvent
      ⟨org.id, ctx.userId, "organization.created", org.slug⟩)).bind fun entries =>
    (firstRow "recordAuditEvent" entries).bind fun _ => .ret org

/-- A request to found an organization, made of `w`. -/
def found (w : ControlPlane) (o : Outside) (ctx : RequestContext) (name slug : String) :
    Except Failure OrganizationRow × ControlPlane :=
  (createOrganization ctx name slug).eval o.perform w

/-! ## What a founding leaves -/

/-- While these rows stand, no request for the slug gets through. -/
def Blocked (w : ControlPlane) (slug : String) : Prop :=
  ∀ (o : Outside) (ctx : RequestContext) (name : String),
    ∃ e, (found w o ctx name slug).1 = .error e

/-- Every new organization has its creator as owner; so after an error none is left
without one to block the slug. -/
structure Clean (w : ControlPlane) (slug : String)
    (a : Except Failure OrganizationRow × ControlPlane) : Prop where
  whole : ∀ org ∈ a.2.organizations, org ∉ w.organizations → a.2.Owns org.id org.createdBy
  retry : ∀ e, a.1 = .error e → ¬ ∃ org ∈ a.2.organizations, org ∉ w.organizations ∧
    (∀ user, ¬ a.2.Owns org.id user) ∧ Blocked a.2 slug

/-- The organization lands; its answer is lost, or the membership is. -/
structure Stranded (w : ControlPlane) (o : Outside) (user : UserId) (name slug : String) : Prop where
  valid : foundingRefusal name slug = none
  admits : w.admits slug user = true
  lands : o.organization.Lands
  lost : ¬ (o.organization.Clear ∧ o.organizationShown = true) ∨
    ¬ (o.membership.Lands ∧ user ∈ w.profiles)

/-! ## One request -/

section Requests

variable {w : ControlPlane} {o : Outside} {name slug : String} {user : UserId}

theorem perform_snd (w : ControlPlane) (o : Outside) (c : FoundingCall) :
    (o.perform w c).2 = if (o.fault c).Lands then (c.run w).2 else w :=
  Fault.apply_snd ..

/-- An answer that arrived is the one computed, with its rows or without. -/
theorem perform_ok {c : FoundingCall} {a : c.Ans} (h : (o.perform w c).1 = .ok a) :
    (o.fault c).Clear ∧ ∃ b, (c.run w).1 = .ok b ∧ a = o.shows c b := by
  unfold Outside.perform at h
  dsimp only at h
  cases hr : ((o.fault c).apply w (c.run w)).1 with
  | error e =>
    rw [hr] at h
    cases h
  | ok b =>
    rw [hr] at h
    obtain ⟨hfault, hb⟩ := Fault.apply_ok hr
    exact ⟨Fault.clear_iff.mpr hfault, b, hb, (Except.ok.inj h).symm⟩

theorem perform_clear {c : FoundingCall} (h : (o.fault c).Clear) {a : c.Ans}
    (ha : (c.run w).1 = .ok a) : (o.perform w c).1 = .ok (o.shows c a) := by
  unfold Outside.perform
  dsimp only
  rw [Fault.clear_iff.mp h]
  show (Except.map (o.shows c) (c.run w).1).mapError _ = _
  rw [ha]
  rfl

/-- The row a founding inserts into `w`. -/
abbrev foundedRow (w : ControlPlane) (name slug : String) (user : UserId) : OrganizationRow :=
  (organizationDraft name slug user w.now).row w.organizations.nextId

theorem run_organization (h : w.admits slug user = true) :
    (FoundingCall.insertOrganization name slug user).run w =
      (.ok [foundedRow w name slug user],
        w.addOrganization (organizationDraft name slug user w.now)) :=
  if_pos h

theorem run_organization_refused (h : ¬ w.admits slug user = true) :
    (FoundingCall.insertOrganization name slug user).run w =
      (.error "POST /organizations returned 409.", w) :=
  if_neg h

theorem run_membership {org : OrganizationId} {role : OrgRole}
    (h : w.admitsMember org user = true) : (FoundingCall.insertMembership org user role).run w =
      (.ok (), w.addMember ⟨org, user, role, w.now⟩ (w.found_of_admits h)) :=
  dif_pos h

theorem run_membership_refused {org : OrganizationId} {role : OrgRole}
    (h : ¬ w.admitsMember org user = true) : (FoundingCall.insertMembership org user role).run w =
      (.error "POST /organization_members returned 409.", w) :=
  dif_neg h

/-- The creator of a new organization is no member of it yet. -/
theorem admitsMember_new (h : w.admits slug user = true) :
    (w.addOrganization (organizationDraft name slug user w.now)).admitsMember
      w.organizations.nextId user = true ↔ user ∈ w.profiles := by
  have hfound : ((w.addOrganization (organizationDraft name slug user w.now)).organizations.find
      w.organizations.nextId).isSome = true := by
    show ((w.organizations.insertNew _).find w.organizations.nextId).isSome = true
    rw [Table.find_insertNew, if_pos rfl]
    rfl
  have husers : w.users.contains user = true := by
    unfold ControlPlane.admits at h
    rw [Bool.and_eq_true] at h
    exact h.2
  have hmember : isMember w.members user w.organizations.nextId = false := by
    by_contra hm
    obtain ⟨m, hm⟩ := Option.isSome_iff_exists.mp (Bool.eq_true_of_not_eq_false hm)
    obtain ⟨hmem, hkey⟩ := Table.mem_of_find hm
    have hthere := w.refs m hmem
    have horg : m.organizationId = w.organizations.nextId := congrArg Prod.fst hkey
    rw [horg, Table.find_nextId] at hthere
    cases hthere
  show (_ && w.users.contains user && w.profiles.contains user && !isMember w.members user _) = true ↔ _
  rw [hfound, husers, hmember]
  simp

/-! ## The whole request -/

theorem store_error {e : Failure}
    (h : (o.perform w (.insertOrganization name slug user)).1 = .error e) :
    (storeOrganization name slug user).eval o.perform w =
      (.error e, (o.perform w (.insertOrganization name slug user)).2) := by
  unfold storeOrganization
  rw [Prog.eval_bind, Prog.eval_call]
  revert h
  rcases o.perform w (.insertOrganization name slug user) with ⟨r, w₁⟩
  rintro rfl
  rfl

theorem store_empty (h : (o.perform w (.insertOrganization name slug user)).1 = .ok []) :
    ((storeOrganization name slug user).eval o.perform w).2 =
      (o.perform w (.insertOrganization name slug user)).2 := by
  unfold storeOrganization
  rw [Prog.eval_bind, Prog.eval_call]
  revert h
  rcases o.perform w (.insertOrganization name slug user) with ⟨r, w₁⟩
  rintro rfl
  rfl

theorem store_row {row : OrganizationRow} {rows : List OrganizationRow}
    (h : (o.perform w (.insertOrganization name slug user)).1 = .ok (row :: rows)) :
    ((storeOrganization name slug user).eval o.perform w).2 =
      (o.perform (o.perform w (.insertOrganization name slug user)).2
        (.insertMembership row.id user .owner)).2 := by
  unfold storeOrganization
  rw [Prog.eval_bind, Prog.eval_call]
  revert h
  rcases o.perform w (.insertOrganization name slug user) with ⟨r, w₁⟩
  rintro rfl
  show (((Prog.call (FoundingCall.insertMembership row.id user .owner)).bind fun _ =>
    .ret row).eval o.perform w₁).2 = _
  rw [Prog.eval_bind, Prog.eval_call]
  rcases o.perform w₁ (.insertMembership row.id user .owner) with ⟨e | a, w₂⟩ <;> rfl

theorem perform_audit_same (w : ControlPlane) (o : Outside) (entry : AuditEntry) :
    (o.perform w (.recordAuditEvent entry)).2.organizations = w.organizations ∧
      (o.perform w (.recordAuditEvent entry)).2.members = w.members := by
  rw [perform_snd]
  unfold FoundingCall.run
  split
  · dsimp only
    split <;> exact ⟨rfl, rfl⟩
  · exact ⟨rfl, rfl⟩

/-- Without the organization, a founding changes nothing and fails. -/
theorem store_nothing (name : String) (h : ¬ (w.admits slug user = true ∧ o.organization.Lands)) :
    (∃ e, ((storeOrganization name slug user).eval o.perform w).1 = .error e) ∧
      ((storeOrganization name slug user).eval o.perform w).2 = w := by
  have hworld : (o.perform w (.insertOrganization name slug user)).2 = w := by
    rw [perform_snd]
    split
    next hlands =>
      have hrefused : ¬ w.admits slug user = true := fun hadmits => h ⟨hadmits, hlands⟩
      rw [run_organization_refused hrefused]
    next => rfl
  have hanswer : ∀ a, (o.perform w (.insertOrganization name slug user)).1 ≠ .ok a := by
    intro a ha
    obtain ⟨hclear, b, hb, _⟩ := perform_ok ha
    have hrefused : ¬ w.admits slug user = true := fun hadmits => h ⟨hadmits, hclear.lands⟩
    rw [run_organization_refused hrefused] at hb
    cases hb
  cases hr : (o.perform w (.insertOrganization name slug user)).1 with
  | error e =>
    rw [store_error hr]
    exact ⟨⟨e, rfl⟩, hworld⟩
  | ok a => exact absurd hr (hanswer a)

theorem not_owns_new (w : ControlPlane) (d : Table.Draft OrganizationRow.id) (user : UserId) :
    ¬ (w.addOrganization d).Owns w.organizations.nextId user := by
  rintro ⟨m, hm, _⟩
  obtain ⟨hmem, hkey⟩ := Table.mem_of_find hm
  have hthere := w.refs m hmem
  have horg : m.organizationId = w.organizations.nextId := congrArg Prod.fst hkey
  rw [horg, Table.find_nextId] at hthere
  cases hthere

/-- The membership request of a new organization's creator. -/
theorem membership_tables (hadmits : w.admits slug user = true) :
    let w₁ := w.addOrganization (organizationDraft name slug user w.now)
    let w₂ := (o.perform w₁ (.insertMembership w.organizations.nextId user .owner)).2
    w₂.organizations = w₁.organizations ∧
      (w₂.Owns w.organizations.nextId user ↔ o.membership.Lands ∧ user ∈ w.profiles) := by
  dsimp only
  rw [perform_snd]
  by_cases hlands : o.membership.Lands
  · replace hlands : (o.fault (.insertMembership w.organizations.nextId user .owner)).Lands := hlands
    rw [if_pos hlands]
    by_cases hprofile : user ∈ w.profiles
    · rw [run_membership ((admitsMember_new hadmits).mpr hprofile)]
      refine ⟨rfl, fun _ => ⟨hlands, hprofile⟩, fun _ => ?_⟩
      exact ⟨_, (Table.find_put ..).trans (if_pos rfl), rfl⟩
    · rw [run_membership_refused fun h => hprofile ((admitsMember_new hadmits).mp h)]
      refine ⟨rfl, fun h => absurd h (not_owns_new _ _ _), fun h => absurd h.2 hprofile⟩
  · replace hlands : ¬ (o.fault (.insertMembership w.organizations.nextId user .owner)).Lands := hlands
    rw [if_neg hlands]
    exact ⟨rfl, fun h => absurd h (not_owns_new _ _ _), fun h => absurd h.1 hlands⟩

/-- With it, the new organization stands, and its creator owns it if the answer came
back and the membership landed. -/
theorem store_tables (name : String) (hadmits : w.admits slug user = true)
    (hlands : o.organization.Lands) :
    ((storeOrganization name slug user).eval o.perform w).2.organizations =
        w.organizations.insertNew (organizationDraft name slug user w.now) ∧
      (((storeOrganization name slug user).eval o.perform w).2.Owns w.organizations.nextId user ↔
        (o.organization.Clear ∧ o.organizationShown = true) ∧
          o.membership.Lands ∧ user ∈ w.profiles) := by
  have hworld : (o.perform w (.insertOrganization name slug user)).2 =
      w.addOrganization (organizationDraft name slug user w.now) := by
    rw [perform_snd, run_organization hadmits]
    exact if_pos hlands
  by_cases hback : o.organization.Clear ∧ o.organizationShown = true
  · have hanswer : (o.perform w (.insertOrganization name slug user)).1 =
        .ok [foundedRow w name slug user] := by
      rw [perform_clear (c := .insertOrganization name slug user) hback.1
        (congrArg Prod.fst (run_organization hadmits))]
      show Except.ok (if o.organizationShown then _ else _) = _
      rw [if_pos hback.2]
    rw [store_row hanswer, hworld, and_iff_right hback]
    exact membership_tables hadmits
  · -- the creator's membership is not even asked for
    have hleft : ((storeOrganization name slug user).eval o.perform w).2 =
        w.addOrganization (organizationDraft name slug user w.now) := by
      cases hr : (o.perform w (.insertOrganization name slug user)).1 with
      | error e =>
        rw [store_error hr]
        exact hworld
      | ok a =>
        obtain ⟨hclear, b, _, hshown⟩ := perform_ok hr
        have hfalse : o.organizationShown = false :=
          Bool.eq_false_iff.mpr fun hs => hback ⟨hclear, hs⟩
        have hempty : a = [] := by
          rw [hshown]
          show (if o.organizationShown then b else []) = []
          rw [hfalse]
          rfl
        rw [store_empty (hempty ▸ hr)]
        exact hworld
    rw [hleft]
    exact ⟨rfl, fun h => absurd h (not_owns_new _ _ _), fun h => absurd h.1 hback⟩

/-! ## A founding as a whole -/

theorem found_refused {ctx : RequestContext} {reason : String}
    (h : foundingRefusal name slug = some reason) :
    found w o ctx name slug = (.error (.api "invalid_input" reason), w) := by
  unfold found createOrganization
  rw [h]
  rfl

/-- The audit entry is the last thing, and touches neither table. -/
theorem found_valid (w : ControlPlane) (o : Outside) (ctx : RequestContext)
    (h : foundingRefusal name slug = none) :
    let stored := (storeOrganization (trim name) slug ctx.userId).eval o.perform w
    (found w o ctx name slug).2.organizations = stored.2.organizations ∧
      (found w o ctx name slug).2.members = stored.2.members ∧
      ∀ e, stored.1 = .error e → (found w o ctx name slug).1 = .error e := by
  dsimp only
  unfold found createOrganization
  rw [h]
  dsimp only
  rw [Prog.eval_bind]
  rcases (storeOrganization (trim name) slug ctx.userId).eval o.perform w with ⟨e | org, w₁⟩
  · exact ⟨rfl, rfl, fun _ h => h⟩
  dsimp only
  rw [Prog.eval_bind, Prog.eval_call]
  obtain ⟨horg, hmembers⟩ := perform_audit_same w₁ o
    ⟨org.id, ctx.userId, "organization.created", org.slug⟩
  revert horg hmembers
  rcases o.perform w₁ (.recordAuditEvent
    ⟨org.id, ctx.userId, "organization.created", org.slug⟩) with ⟨e | entries, w₂⟩
  · exact fun horg hmembers => ⟨horg, hmembers, fun _ h => by cases h⟩
  · intro horg hmembers
    rcases entries with _ | ⟨entry, entries⟩
    · exact ⟨horg, hmembers, fun _ h => by cases h⟩
    · exact ⟨horg, hmembers, fun _ h => by cases h⟩

/-- A slug that is taken is refused, whoever asks. -/
theorem blocked_of_slug {org : OrganizationRow} (hmem : org ∈ w.organizations)
    (hslug : org.slug = slug) : Blocked w slug := by
  intro o ctx name
  cases hv : foundingRefusal name slug with
  | some reason => exact ⟨_, congrArg Prod.fst (found_refused hv)⟩
  | none =>
    have hrefused : ¬ w.admits slug ctx.userId = true := by
      intro h
      unfold ControlPlane.admits at h
      rw [Bool.and_eq_true, List.all_eq_true] at h
      simpa [hslug] using h.1 org hmem
    obtain ⟨e, he⟩ := (store_nothing (o := o) (trim name) fun h => hrefused h.1).1
    exact ⟨e, (found_valid _ _ _ hv).2.2 e he⟩

end Requests

/-- **A founding** leaves every new organization with its creator as owner, and so
no slug spent on an error, unless the organization landed and its answer, or the
creator's membership, did not come through. -/
theorem clean_iff (w : ControlPlane) (o : Outside) (ctx : RequestContext) (name slug : String) :
    Clean w slug (found w o ctx name slug) ↔ ¬ Stranded w o ctx.userId name slug := by
  -- an owner there is no bar to, so the first half of `Clean` is all of it
  have hclean : Clean w slug (found w o ctx name slug) ↔
      ∀ org ∈ (found w o ctx name slug).2.organizations, org ∉ w.organizations →
        (found w o ctx name slug).2.Owns org.id org.createdBy := by
    refine ⟨fun h => h.whole, fun h => ⟨h, ?_⟩⟩
    intro e _ hleft
    obtain ⟨org, hmem, hnew, hnone, _⟩ := hleft
    exact hnone _ (h org hmem hnew)
  rw [hclean]
  cases hv : foundingRefusal name slug with
  | some reason =>
    rw [found_refused hv]
    refine ⟨fun _ h => ?_, fun _ org hmem hnew => absurd hmem hnew⟩
    rw [h.valid] at hv
    cases hv
  | none =>
    obtain ⟨horganizations, hmembers, _⟩ := found_valid w o ctx hv
    have howns : ∀ org user, (found w o ctx name slug).2.Owns org user ↔
        ((storeOrganization (trim name) slug ctx.userId).eval o.perform w).2.Owns org user := by
      intro org user
      unfold ControlPlane.Owns
      rw [hmembers]
    by_cases hin : w.admits slug ctx.userId = true ∧ o.organization.Lands
    · obtain ⟨hadmits, hlands⟩ := hin
      obtain ⟨hnew, hiff⟩ := store_tables (trim name) hadmits hlands
      rw [horganizations, hnew]
      constructor
      · intro h hstranded
        have hmem : foundedRow w (trim name) slug ctx.userId ∈
            w.organizations.insertNew (organizationDraft (trim name) slug ctx.userId w.now) :=
          Table.mem_insertNew.mpr (.inr rfl)
        have hfresh : foundedRow w (trim name) slug ctx.userId ∉ w.organizations := by
          intro hin
          exact Table.find_eq_none.mp (Table.find_nextId (t := w.organizations)) _ hin rfl
        have howner := h _ hmem hfresh
        rw [howns] at howner
        obtain ⟨hback, hmember⟩ := hiff.mp howner
        rcases hstranded.lost with hlost | hlost
        · exact hlost hback
        · exact hlost hmember
      · intro h org hmem hout
        rcases Table.mem_insertNew.mp hmem with hold | rfl
        · exact absurd hold hout
        · rw [howns]
          refine hiff.mpr ?_
          by_contra hlost
          exact h ⟨hv, hadmits, hlands, not_and_or.mp hlost⟩
    · rw [horganizations, (store_nothing (trim name) hin).2]
      exact ⟨fun _ h => hin ⟨h.admits, h.lands⟩, fun _ org hmem hnew => absurd hmem hnew⟩

/-! A membership that does not get through. -/

/-- One user, nothing founded. -/
def emptyPlane : ControlPlane := ⟨Table.empty, Table.empty, [1], [1], [], 0, fun _ h => by cases h⟩

/-- The membership is refused for a moment. -/
def interrupted : Outside :=
  { Outside.fair with membership := .before "POST /organization_members returned 503." }

/-- The organization stands without an owner, and its slug is taken: also for the
creator's next attempt, with nothing going wrong. -/
theorem ownerless_slug : ¬ Clean emptyPlane "acme" (found emptyPlane interrupted ⟨1, [], none⟩
    "Acme" "acme") := by
  intro h
  have hrow : (found emptyPlane interrupted ⟨1, [], none⟩ "Acme" "acme").2.organizations.rows =
      [⟨0, "Acme", "acme", 1, 0⟩] := by decide +kernel
  have hmembers : (found emptyPlane interrupted ⟨1, [], none⟩ "Acme" "acme").2.members.rows = [] := by
    decide +kernel
  have hanswer : (found emptyPlane interrupted ⟨1, [], none⟩ "Acme" "acme").1 =
      .error (.unavailable "createOrganizationMembership"
        "POST /organization_members returned 503.") := by decide +kernel
  -- from here on only these three facts count
  revert h hrow hmembers hanswer
  generalize found emptyPlane interrupted ⟨1, [], none⟩ "Acme" "acme" = a
  intro h hrow hmembers hanswer
  have hmem : ⟨0, "Acme", "acme", 1, 0⟩ ∈ a.2.organizations := by
    rw [Table.mem_rows, hrow]
    exact List.mem_singleton_self _
  refine h.retry _ hanswer ⟨_, hmem, Table.not_mem_empty _, ?_, blocked_of_slug hmem rfl⟩
  rintro user ⟨m, hm, _⟩
  have hin := (Table.mem_of_find hm).1
  rw [Table.mem_rows, hmembers] at hin
  cases hin

end CloudWai.Access
