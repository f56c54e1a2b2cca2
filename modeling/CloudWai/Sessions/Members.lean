import CloudWai.Access.Founding
import CloudWai.Base.RowSecurity
import Mathlib.Data.List.DropRight

/-!
# Members, as the browser may change them

The policies of `organizations` and `organization_members`, as migrations 0002,
0020 and 0026 leave them. They hold where a caller goes past the API and sends the
database statements with its own token: any statement on either table, of any number
of rows. Every policy asks for the caller's role in the state before the statement.

`owners_frozen` is the ceiling: whoever is no owner of an organization changes
nothing about who its owners are, in any number of statements of any number of such
callers. Below the rank of an admin all they can do is leave (`roster_frozen`).

Mirrors the policies and helper functions of those files in `supabase/migrations`, and
0001 for the tables. A statement is atomic here, and two do not run at once; the select
policies are left out, which the write policies imply, and keys are compared after the
whole statement.
-/

namespace CloudWai.Sessions

open Base Access

/-! ## Tables -/

/-- `length(trim(name)) between 1 and 120`: `trim` takes off blanks only. -/
def nameChecks (name : String) : Bool :=
  let trimmed := (name.toList.dropWhile (· == ' ')).rdropWhile (· == ' ')
  decide (1 ≤ trimmed.length ∧ trimmed.length ≤ 120)

/-- The keys and the checks of the two tables. -/
@[mk_iff]
structure Sound (organizations : List OrganizationRow) (members : List MemberRow)
    (users : List UserId) : Prop where
  ids : (organizations.map OrganizationRow.id).Nodup
  slugs : (organizations.map OrganizationRow.slug).Nodup
  checks : ∀ o ∈ organizations, (nameChecks o.name && organizationSlug.test o.slug) = true
  creators : ∀ o ∈ organizations, o.createdBy ∈ users
  keys : (members.map MemberRow.key).Nodup
  tenants : ∀ m ∈ members, m.organizationId ∈ organizations.map OrganizationRow.id
  people : ∀ m ∈ members, m.userId ∈ users

instance (organizations : List OrganizationRow) (members : List MemberRow)
    (users : List UserId) : Decidable (Sound organizations members users) :=
  decidable_of_iff' _ (sound_iff ..)

/-- The two tables, and `auth.users`. -/
structure Tenancy where
  organizations : List OrganizationRow
  members : List MemberRow
  users : List UserId
  sound : Sound organizations members users

/-! ## Scope helpers -/

section Scope

variable (w : Tenancy) (user : UserId) (org : OrganizationId)

/-- `is_org_member` -/
def isOrgMember : Bool := w.members.any fun m => m.organizationId == org && m.userId == user

/-- `role_in`, of any user. -/
def roleIn : Option OrgRole :=
  (w.members.find? fun m => m.organizationId == org && m.userId == user).map (·.role)

/-- `array_position(array['viewer', 'member', 'admin', 'owner'], role)` -/
def position : OrgRole → Nat
  | .viewer => 1
  | .member => 2
  | .admin => 3
  | .owner => 4

/-- `role_at_least` -/
def roleAtLeast (minimum : OrgRole) : Bool :=
  (roleIn w user org).any fun role => decide (position minimum ≤ position role)

/-- `and`, where `none` is `null`. -/
def sqlAnd : Option Bool → Option Bool → Option Bool
  | some false, _ => some false
  | _, some false => some false
  | some true, b => b
  | none, _ => none

@[simp] theorem sqlAnd_true (b : Option Bool) : sqlAnd (some true) b = b := by
  cases b with
  | none => rfl
  | some b => cases b <;> rfl

/-- `is_last_owner`: of a user without a row, the role and so the comparison is `null`. -/
def isLastOwner : Option Bool :=
  sqlAnd ((roleIn w user org).map (· == .owner))
    (some !(w.members.any fun other =>
      other.organizationId == org && other.role == .owner && other.userId != user))

end Scope

/-! ## Policies -/

/-- Who may act on a membership of this role: an owner on any, an admin on a non-owner's. -/
def outranks (user : UserId) (w : Tenancy) (r : MemberRow) : Bool :=
  roleIn w user r.organizationId == some .owner ||
    (roleAtLeast w user r.organizationId .admin && r.role != .owner)

/-- The creator's claim to the first membership. Its subselect reads `organizations` as
the caller does, through `organizations_select`. -/
def claims (user : UserId) (w : Tenancy) (r : MemberRow) : Bool :=
  r.userId == user && r.role == .owner &&
    (w.organizations.filter fun o => isOrgMember w user o.id).any
      fun o => o.id == r.organizationId && o.createdBy == user

/-- `not is_last_owner(organization_id, user_id)`; a `null` does not pass. -/
def notLastOwner (w : Tenancy) (r : MemberRow) : Bool :=
  (isLastOwner w r.userId r.organizationId).map (!·) == some true

/-- `organization_members`, as of 0026. -/
def memberRules : Rules UserId Tenancy MemberRow (OrganizationId × UserId) where
  key := MemberRow.key
  mayInsert user w r := claims user w r || outranks user w r
  mayUpdate user w r := r.userId != user && outranks user w r
  mayBecome user w r := r.userId != user && outranks user w r && notLastOwner w r
  mayDelete user w r := (r.userId == user || outranks user w r) && notLastOwner w r
  beforeInsert _ _ r := some r
  beforeUpdate _ _ _ r := some r

/-- `organizations` -/
def organizationRules : Rules UserId Tenancy OrganizationRow OrganizationId where
  key := OrganizationRow.id
  mayInsert user _ o := o.createdBy == user
  mayUpdate user w o := roleAtLeast w user o.id .admin
  mayBecome user w o := roleAtLeast w user o.id .admin
  mayDelete user w o := roleIn w user o.id == some .owner
  beforeInsert _ _ o := some o
  beforeUpdate _ _ _ o := some o

/-! ## Statements -/

/-- A statement on one of the two tables. -/
inductive Change where
  | organizations (st : Statement OrganizationRow)
  | members (st : Statement MemberRow)

/-- A statement and who sends it. -/
structure Move where
  user : UserId
  change : Change

/-- The memberships left: an organization's go with it, `on delete cascade`. -/
def cascade (members : List MemberRow) (organizations : List OrganizationRow) :
    Statement OrganizationRow → List MemberRow
  | .delete _ => members.filter fun m => (organizations.map OrganizationRow.id).contains m.organizationId
  | _ => members

namespace Tenancy

/-- The tables with these rows, if they may have them. -/
def restock (w : Tenancy) (organizations : List OrganizationRow) (members : List MemberRow) :
    Option Tenancy :=
  if h : Sound organizations members w.users then some ⟨organizations, members, w.users, h⟩
  else none

/-- One statement, or an error. -/
def exec (w : Tenancy) (m : Move) : Option Tenancy :=
  match m.change with
  | .organizations st =>
    (organizationRules.exec (.client m.user) w w.organizations st).bind fun organizations =>
      w.restock organizations (cascade w.members organizations st)
  | .members st =>
    (memberRules.exec (.client m.user) w w.members st).bind fun members =>
      w.restock w.organizations members

/-- An error leaves the tables as they are. -/
def step (w : Tenancy) (m : Move) : Tenancy := (w.exec m).getD w

/-- The memberships of an organization. -/
def roster (w : Tenancy) (org : OrganizationId) : List MemberRow :=
  w.members.filter (·.organizationId == org)

/-- Those of its owners. -/
def owners (w : Tenancy) (org : OrganizationId) : List MemberRow :=
  w.members.filter fun r => r.organizationId == org && r.role == .owner

end Tenancy

/-! ## One statement -/

section Step

variable {w : Tenancy} {user : UserId} {org : OrganizationId} {m : Move}

/-- The keys are unique, so the first row found is the row. -/
theorem roleIn_eq_some {role : OrgRole} : roleIn w user org = some role ↔
    ∃ r ∈ w.members, r.key = (org, user) ∧ r.role = role := by
  unfold roleIn
  rw [Option.map_eq_some_iff]
  constructor
  · intro h
    obtain ⟨r, hfind, hrole⟩ := h
    have hkey := List.find?_some hfind
    rw [Bool.and_eq_true, beq_iff_eq, beq_iff_eq] at hkey
    exact ⟨r, List.mem_of_find?_eq_some hfind, Prod.ext hkey.1 hkey.2, hrole⟩
  · intro h
    obtain ⟨r, hr, hkey, hrole⟩ := h
    have hhit : (r.organizationId == org && r.userId == user) = true := by
      rw [Bool.and_eq_true, beq_iff_eq, beq_iff_eq]
      exact ⟨congrArg Prod.fst hkey, congrArg Prod.snd hkey⟩
    cases hfind : w.members.find? fun r => r.organizationId == org && r.userId == user with
    | none => exact absurd hhit (List.find?_eq_none.mp hfind r hr)
    | some r₀ =>
      have hkey₀ := List.find?_some hfind
      rw [Bool.and_eq_true, beq_iff_eq, beq_iff_eq] at hkey₀
      have hsame : r₀.key = r.key := (Prod.ext hkey₀.1 hkey₀.2 : r₀.key = (org, user)).trans hkey.symm
      have heq := List.inj_on_of_nodup_map w.sound.keys (List.mem_of_find?_eq_some hfind) hr hsame
      exact ⟨r₀, rfl, heq ▸ hrole⟩

/-- An owner outranks everyone, and is at least an admin. -/
theorem not_owner_of_outranks {r : MemberRow} (h : outranks user w r = false) :
    roleIn w user r.organizationId ≠ some .owner := by
  intro howner
  unfold outranks at h
  rw [howner] at h
  cases h

theorem roleAtLeast_of_outranks {r : MemberRow} (h : outranks user w r = true) :
    roleAtLeast w user r.organizationId .admin = true := by
  unfold outranks at h
  rw [Bool.or_eq_true, beq_iff_eq, Bool.and_eq_true] at h
  rcases h with howner | hadmin
  · unfold roleAtLeast
    rw [howner]
    rfl
  · exact hadmin.1

/-- Whoever may claim an organization is a member of it already. -/
theorem mem_of_claims {r : MemberRow} (h : claims user w r = true) :
    r.key ∈ w.members.map MemberRow.key := by
  unfold claims at h
  rw [Bool.and_eq_true, Bool.and_eq_true, beq_iff_eq, List.any_eq_true] at h
  obtain ⟨⟨huser, _⟩, o, ho, horg⟩ := h
  rw [Bool.and_eq_true, beq_iff_eq] at horg
  have hmember := (List.mem_filter.mp ho).2
  unfold isOrgMember at hmember
  rw [List.any_eq_true] at hmember
  obtain ⟨x, hx, hkey⟩ := hmember
  rw [Bool.and_eq_true, beq_iff_eq, beq_iff_eq] at hkey
  refine List.mem_map.mpr ⟨x, hx, Prod.ext ?_ ?_⟩
  · exact hkey.1.trans horg.1
  · exact hkey.2.trans huser.symm

theorem outranks_of_makes {st : Statement MemberRow} {r : MemberRow}
    (h : memberRules.Makes (.client user) w st r)
    (hfresh : r.key ∉ w.members.map MemberRow.key) : outranks user w r = true := by
  obtain ⟨_, _, draft, _, hdraft⟩ := h
  obtain ⟨_, hmay⟩ := Option.filter_eq_some_iff.mp hdraft
  rcases (Bool.or_eq_true _ _).mp hmay with hclaim | hrank
  · exact absurd (mem_of_claims hclaim) hfresh
  · exact hrank

theorem outranks_of_turns {st : Statement MemberRow} {r r' : MemberRow}
    (h : memberRules.Turns (.client user) w st r r') :
    outranks user w r = true ∧ outranks user w r' = true := by
  obtain ⟨_, _, _, hhit, hset⟩ := h
  obtain ⟨_, hold⟩ := (Bool.and_eq_true _ _).mp hhit
  obtain ⟨_, hnew⟩ := Option.filter_eq_some_iff.mp hset
  exact ⟨((Bool.and_eq_true _ _).mp hold).2,
    ((Bool.and_eq_true _ _).mp ((Bool.and_eq_true _ _).mp hnew).1).2⟩

/-- What a statement does: nothing, or what the rules of its table say. -/
theorem step_cases (w : Tenancy) (m : Move) : w.step m = w ∨
    (∃ st, m.change = .members st ∧ (w.step m).organizations = w.organizations ∧
      memberRules.exec (.client m.user) w w.members st = some (w.step m).members) ∨
    ∃ st, m.change = .organizations st ∧
      organizationRules.exec (.client m.user) w w.organizations st =
        some (w.step m).organizations ∧
      (w.step m).members = cascade w.members (w.step m).organizations st := by
  unfold Tenancy.step
  cases h : w.exec m with
  | none => exact .inl rfl
  | some w' =>
    refine .inr ?_
    unfold Tenancy.exec Tenancy.restock at h
    cases hc : m.change with
    | organizations st =>
      rw [hc] at h
      obtain ⟨organizations, hexec, hstock⟩ := Option.bind_eq_some_iff.mp h
      rw [Option.dite_none_right_eq_some] at hstock
      obtain ⟨_, hw'⟩ := hstock
      obtain rfl := Option.some.inj hw'
      exact .inr ⟨st, rfl, hexec, rfl⟩
    | members st =>
      rw [hc] at h
      obtain ⟨members, hexec, hstock⟩ := Option.bind_eq_some_iff.mp h
      rw [Option.dite_none_right_eq_some] at hstock
      obtain ⟨_, hw'⟩ := hstock
      obtain rfl := Option.some.inj hw'
      exact .inl ⟨st, rfl, rfl, hexec⟩

/-- A statement on organizations takes members only from one its sender owns. -/
theorem mem_cascade {st : Statement OrganizationRow} {organizations : List OrganizationRow}
    (h : organizationRules.exec (.client user) w w.organizations st = some organizations)
    {r : MemberRow} (hr : r ∈ w.members)
    (howner : roleIn w user r.organizationId ≠ some .owner) :
    r ∈ cascade w.members organizations st := by
  cases st with
  | insert drafts => exact hr
  | update hits set => exact hr
  | delete hits =>
    obtain rfl := Option.some.inj (Rules.written_of_exec h)
    refine List.mem_filter.mpr ⟨hr, List.contains_iff_mem.mpr ?_⟩
    obtain ⟨o, ho, hid⟩ := List.mem_map.mp (w.sound.tenants r hr)
    refine List.mem_map.mpr ⟨o, List.mem_filter.mpr ⟨ho, ?_⟩, hid⟩
    have hkept : (roleIn w user o.id == some .owner) = false := by
      rw [hid]
      exact beq_eq_false_iff_ne.mpr howner
    show (!(hits o && (roleIn w user o.id == some .owner))) = true
    rw [hkept, Bool.and_false]
    rfl

theorem cascade_sublist {st : Statement OrganizationRow} {members : List MemberRow}
    {organizations : List OrganizationRow} :
    (cascade members organizations st).Sublist members := by
  cases st with
  | delete hits => exact List.filter_sublist
  | _ => exact List.Sublist.refl _

/-- **No new row** where the sender outranks nobody. -/
theorem old_of_step {P : MemberRow → Bool} (hP : ∀ r, P r = true → outranks m.user w r = false)
    {r : MemberRow} (hr : r ∈ (w.step m).members) (h : P r = true) : r ∈ w.members := by
  have hrank := hP r h
  rcases step_cases w m with hsame | ⟨st, _, _, hexec⟩ | ⟨st, _, _, hmembers⟩
  · rwa [hsame] at hr
  · rcases Rules.exec_after hexec hr with hold | ⟨hmakes, hfresh⟩ | ⟨_, _, hturns⟩
    · exact hold
    · rw [outranks_of_makes hmakes hfresh] at hrank
      cases hrank
    · rw [(outranks_of_turns hturns).2] at hrank
      cases hrank
  · rw [hmembers] at hr
    exact cascade_sublist.mem hr

/-- **The same rows** where the sender outranks nobody and has no row of its own. -/
theorem same_of_step {P : MemberRow → Bool} (hP : ∀ r, P r = true → outranks m.user w r = false)
    (hown : ∀ r ∈ w.members, P r = true → r.userId ≠ m.user) :
    (w.step m).members.filter P = w.members.filter P := by
  have hranked : ∀ r, outranks m.user w r = true → P r = false := by
    intro r hrank
    by_contra h
    rw [hP r (Bool.eq_true_of_not_eq_false h)] at hrank
    cases hrank
  rcases step_cases w m with hsame | ⟨st, _, _, hexec⟩ | ⟨st, _, hexec, hmembers⟩
  · rw [hsame]
  · apply Rules.exec_filter hexec
    · intro r hmakes hfresh
      exact hranked r (outranks_of_makes hmakes hfresh)
    · intro r _ r' hturns
      exact ⟨hranked r (outranks_of_turns hturns).1, hranked r' (outranks_of_turns hturns).2⟩
    · intro r hr hdrops
      obtain ⟨_, _, hhit⟩ := hdrops
      have hmay := ((Bool.and_eq_true _ _).mp hhit).2
      rcases (Bool.or_eq_true _ _).mp ((Bool.and_eq_true _ _).mp hmay).1 with hself | hrank
      · by_contra h
        exact hown r hr (Bool.eq_true_of_not_eq_false h) (beq_iff_eq.mp hself)
      · exact hranked r hrank
  · rw [hmembers]
    cases st with
    | delete hits =>
      unfold cascade
      rw [List.filter_filter]
      refine List.filter_congr fun r hr => ?_
      by_cases h : P r = true
      · have hkept := mem_cascade hexec hr (not_owner_of_outranks (hP r h))
        rw [h, (List.mem_filter.mp hkept).2]
        rfl
      · rw [Bool.eq_false_iff.mpr h]
        rfl
    | _ => rfl

end Step

/-! ## Runs -/

section Runs

/-- Two tenants; the first with an owner, an admin and a viewer. -/
def twoTenants : Tenancy where
  organizations := [⟨1, "Acme", "acme", 1, 0⟩, ⟨2, "Blue", "blue", 4, 0⟩]
  members := [⟨1, 1, .owner, 0⟩, ⟨1, 2, .admin, 0⟩, ⟨1, 3, .viewer, 0⟩, ⟨2, 4, .owner, 0⟩]
  users := [1, 2, 3, 4]
  sound := by decide

variable {w : Tenancy} {user : UserId} {org : OrganizationId} {m : Move} {ms : List Move}

theorem mem_owners {r : MemberRow} : r ∈ w.owners org ↔
    r ∈ w.members ∧ r.organizationId = org ∧ r.role = .owner := by
  unfold Tenancy.owners
  rw [List.mem_filter, Bool.and_eq_true, beq_iff_eq, beq_iff_eq]

theorem mem_roster {r : MemberRow} : r ∈ w.roster org ↔ r ∈ w.members ∧ r.organizationId = org := by
  unfold Tenancy.roster
  rw [List.mem_filter, beq_iff_eq]

theorem roleIn_owner : roleIn w user org = some .owner ↔ ∃ r ∈ w.owners org, r.userId = user := by
  rw [roleIn_eq_some]
  constructor
  · intro h
    obtain ⟨r, hr, hkey, hrole⟩ := h
    exact ⟨r, mem_owners.mpr ⟨hr, congrArg Prod.fst hkey, hrole⟩, congrArg Prod.snd hkey⟩
  · intro h
    obtain ⟨r, hr, huser⟩ := h
    obtain ⟨hmem, horg, hrole⟩ := mem_owners.mp hr
    exact ⟨r, hmem, Prod.ext horg huser, hrole⟩

/-- No rank in an organization, no act on its memberships. -/
theorem outranks_eq_false {r : MemberRow} (h : roleAtLeast w user r.organizationId .admin = false) :
    outranks user w r = false := by
  by_contra hrank
  rw [roleAtLeast_of_outranks (Bool.eq_true_of_not_eq_false hrank)] at h
  cases h

theorem owners_step (h : roleIn w m.user org ≠ some .owner) :
    (w.step m).owners org = w.owners org := by
  apply same_of_step
  · intro r hr
    rw [Bool.and_eq_true, beq_iff_eq, beq_iff_eq] at hr
    unfold outranks
    rw [hr.1, hr.2, beq_eq_false_iff_ne.mpr h]
    show (false || (_ && false)) = false
    rw [Bool.and_false]
    rfl
  · intro r hr hown huser
    rw [Bool.and_eq_true, beq_iff_eq, beq_iff_eq] at hown
    exact h (roleIn_owner.mpr ⟨r, mem_owners.mpr ⟨hr, hown⟩, huser⟩)

/-- **The owners stay as they are** through whatever is sent by others than owners. -/
theorem owners_frozen (h : ∀ m ∈ ms, roleIn w m.user org ≠ some .owner) :
    (runFrom Tenancy.step w ms).owners org = w.owners org := by
  induction ms generalizing w with
  | nil => rfl
  | cons m ms ih =>
    have hstep := owners_step (h m List.mem_cons_self)
    refine (ih ?_).trans hstep
    intro m' hm' howner
    rw [roleIn_owner, hstep, ← roleIn_owner] at howner
    exact h m' (List.mem_cons_of_mem _ hm') howner

/-- The admin raises everybody, the owner of the other tenant comes in, the viewer
deletes all rows: only the viewer's own goes. -/
theorem owners_frozen_coup : let ms : List Move :=
    [⟨2, .members (.update (fun _ => true) fun r => { r with role := .owner })⟩,
      ⟨4, .members (.insert [⟨1, 4, .owner, 0⟩])⟩, ⟨3, .members (.delete fun _ => true)⟩]
    (runFrom Tenancy.step twoTenants ms).owners 1 = [⟨1, 1, .owner, 0⟩] :=
  owners_frozen (by simp [roleIn, twoTenants])

theorem roster_step (h : roleAtLeast w m.user org .admin = false) {r : MemberRow}
    (hr : r ∈ (w.step m).roster org) : r ∈ w.roster org := by
  obtain ⟨hmem, horg⟩ := mem_roster.mp hr
  refine mem_roster.mpr ⟨?_, horg⟩
  apply old_of_step (P := fun r => r.organizationId == org) _ hmem (beq_iff_eq.mpr horg)
  intro r' hr'
  apply outranks_eq_false
  rwa [beq_iff_eq.mp hr']

theorem roleAtLeast_iff {minimum : OrgRole} : roleAtLeast w user org minimum = true ↔
    ∃ r ∈ w.roster org, r.userId = user ∧ position minimum ≤ position r.role := by
  unfold roleAtLeast
  rw [Option.any_eq_true]
  constructor
  · intro h
    obtain ⟨role, hrole, hrank⟩ := h
    obtain ⟨r, hr, hkey, rfl⟩ := roleIn_eq_some.mp hrole
    exact ⟨r, mem_roster.mpr ⟨hr, congrArg Prod.fst hkey⟩, congrArg Prod.snd hkey,
      of_decide_eq_true hrank⟩
  · intro h
    obtain ⟨r, hr, huser, hrank⟩ := h
    obtain ⟨hmem, horg⟩ := mem_roster.mp hr
    exact ⟨r.role, roleIn_eq_some.mpr ⟨r, hmem, Prod.ext horg huser, rfl⟩, decide_eq_true hrank⟩

/-- Nobody gains a rank in an organization whose roster gains no row. -/
theorem roleAtLeast_step {minimum : OrgRole} (h : roleAtLeast w m.user org .admin = false)
    (hlow : roleAtLeast w user org minimum = false) :
    roleAtLeast (w.step m) user org minimum = false := by
  by_contra hhigh
  obtain ⟨r, hr, hrank⟩ := roleAtLeast_iff.mp (Bool.eq_true_of_not_eq_false hhigh)
  rw [roleAtLeast_iff.mpr ⟨r, roster_step h hr, hrank⟩] at hlow
  cases hlow

/-- **Below an admin, one can only leave**: whatever a crew without an admin among them
sends, nobody comes in, and who is not of the crew keeps the row there was. -/
theorem roster_frozen {crew : List UserId} (hcrew : ∀ m ∈ ms, m.user ∈ crew)
    (hrank : ∀ u ∈ crew, roleAtLeast w u org .admin = false) :
    ((runFrom Tenancy.step w ms).roster org).filter (fun r => !crew.contains r.userId) =
        (w.roster org).filter (fun r => !crew.contains r.userId) ∧
      ∀ r ∈ (runFrom Tenancy.step w ms).roster org, r ∈ w.roster org := by
  induction ms generalizing w with
  | nil => exact ⟨rfl, fun _ hr => hr⟩
  | cons m ms ih =>
    have hm := hcrew m List.mem_cons_self
    have hlow := hrank m.user hm
    obtain ⟨hothers, hold⟩ := ih (w := w.step m) (fun m' hm' => hcrew m' (List.mem_cons_of_mem _ hm'))
      fun u hu => roleAtLeast_step hlow (hrank u hu)
    refine ⟨hothers.trans ?_, fun r hr => roster_step hlow (hold r hr)⟩
    unfold Tenancy.roster
    rw [List.filter_filter, List.filter_filter]
    apply same_of_step
    · intro r hr
      apply outranks_eq_false
      rwa [beq_iff_eq.mp ((Bool.and_eq_true _ _).mp hr).2]
    · intro r _ hr huser
      have hout := ((Bool.and_eq_true _ _).mp hr).1
      rw [huser, List.contains_iff_mem.mpr hm] at hout
      cases hout

/-- The viewer promotes itself, and leaves. -/
theorem roster_frozen_viewer : let ms : List Move :=
    [⟨3, .members (.update (fun _ => true) fun r => { r with role := .admin })⟩,
      ⟨3, .members (.delete fun _ => true)⟩]
    ((runFrom Tenancy.step twoTenants ms).roster 1).filter (fun r => !([3].contains r.userId)) =
        [⟨1, 1, .owner, 0⟩, ⟨1, 2, .admin, 0⟩] ∧
      ∀ r ∈ (runFrom Tenancy.step twoTenants ms).roster 1, r ∈ twoTenants.roster 1 :=
  roster_frozen (by simp) (by simp [roleAtLeast, roleIn, twoTenants, position])

/-- **An organization without members stays without**, whoever sends what: the creator's
claim only passes for a member, and a member has its row already. -/
theorem never_joined (h : w.roster org = []) : (runFrom Tenancy.step w ms).roster org = [] := by
  induction ms generalizing w with
  | nil => exact h
  | cons m ms ih =>
    apply ih
    refine List.eq_nil_iff_forall_not_mem.mpr fun r hr => ?_
    have hlow : roleAtLeast w m.user org .admin = false := by
      by_contra hrank
      obtain ⟨x, hx, _⟩ := roleAtLeast_iff.mp (Bool.eq_true_of_not_eq_false hrank)
      rw [h] at hx
      cases hx
    have hold := roster_step hlow hr
    rw [h] at hold
    cases hold

/-- A viewer founds an organization and claims it. -/
theorem never_joined_founder : let ms : List Move :=
    [⟨3, .organizations (.insert [⟨3, "Mine", "mine", 3, 0⟩])⟩,
      ⟨3, .members (.insert [⟨3, 3, .owner, 0⟩])⟩]
    (runFrom Tenancy.step twoTenants ms).roster 3 = [] :=
  never_joined rfl

end Runs

end CloudWai.Sessions
