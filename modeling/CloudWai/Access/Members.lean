import CloudWai.Authorization
import CloudWai.Base.Interleave
import CloudWai.Base.Table
import CloudWai.Queue.Workers
import Mathlib.Data.List.Sort

/-!
# Changing and removing members

`updateOrganizationMemberRole` and `removeOrganizationMember`. Both read the list
of members, refuse to let the last owner go by what the list says, and then write
with the service role, which the policies of migration 0020 do not hold back.
Between the read and the write any other request may move.

`owner_remains` says what is enough: when a write that ends somebody's ownership
is executed, the list its request read is still right about that. `both_demoted`
is two owners who demote each other.

Mirrors `apps/api/src/procedures/organizations.ts` and
`packages/database/src/supabase-store.ts`. The profiles that the list is joined with are
left out, and so is the audit entry's metadata.
-/

namespace CloudWai.Access

open Base

/-! ## The table -/

/-- A row of `organization_members`, and an `OrganizationMember` as it is read. -/
structure MemberRow where
  organizationId : OrganizationId
  userId : UserId
  role : OrgRole
  createdAt : Instant
deriving DecidableEq, Repr

/-- The primary key. -/
def MemberRow.key (r : MemberRow) : OrganizationId × UserId := (r.organizationId, r.userId)

abbrev MembersTable := Table MemberRow.key

/-- The join every request of a caller goes through. -/
def isMember (t : MembersTable) (user : UserId) (org : OrganizationId) : Bool :=
  (t.find (org, user)).isSome

/-- The requests of the two procedures. -/
inductive MemberCall where
  | membershipsFor (user : UserId)
  | listOrganizationMembers (user : UserId) (org : OrganizationId)
  | updateOrganizationMemberRole (user : UserId) (org : OrganizationId) (member : UserId)
      (role : OrgRole)
  | removeOrganizationMember (user : UserId) (org : OrganizationId) (member : UserId)
  | recordAuditEvent (org : OrganizationId) (actor : UserId) (event : String) (target : UserId)
deriving DecidableEq, Repr

namespace MemberCall

abbrev Ans : MemberCall → Type
  | membershipsFor _ => List Membership
  | listOrganizationMembers _ _ => List MemberRow
  | updateOrganizationMemberRole _ _ _ _ => Option MemberRow
  | removeOrganizationMember _ _ _ => Bool
  | recordAuditEvent _ _ _ _ => Unit

/-- A `set role` clause. -/
def setRole (role : OrgRole) : Table.Edit MemberRow.key where
  run r := { r with role := role }
  keeps _ := rfl

/-- What the database does with a request. -/
def run (t : MembersTable) : (c : MemberCall) → c.Ans × MembersTable
  | membershipsFor user =>
    ((t.rows.filter (·.userId == user)).map fun r => ⟨r.organizationId, r.userId, r.role⟩, t)
  | listOrganizationMembers user org =>
    (if isMember t user org then
      ((t.rows.filter (·.organizationId == org)).insertionSort
        fun a b => a.createdAt ≤ b.createdAt).take 200
    else [], t)
  | updateOrganizationMemberRole user org member role =>
    if isMember t user org then
      let t' := t.update (fun r => decide (r.key = (org, member))) (setRole role)
      (t'.find (org, member), t')
    else (none, t)
  | removeOrganizationMember user org member =>
    if isMember t user org then
      ((t.find (org, member)).isSome, t.delete fun r => decide (r.key = (org, member)))
    else (false, t)
  | recordAuditEvent _ _ _ _ => ((), t)

/-- The operation an error names. -/
def op : MemberCall → String
  | membershipsFor _ => "membershipsFor"
  | listOrganizationMembers _ _ => "listOrganizationMembers"
  | updateOrganizationMemberRole _ _ _ _ => "updateOrganizationMemberRole"
  | removeOrganizationMember _ _ _ => "removeOrganizationMember"
  | recordAuditEvent _ _ _ _ => "recordAuditEvent"

end MemberCall

/-! ## The procedures -/

/-- A program over the members' table. -/
abbrev MemberProg (α : Type) := Prog MemberCall MemberCall.Ans Failure α

/-- `throw` what a guard throws, or go on. -/
def lift {α : Type} : Except Failure α → MemberProg α
  | .ok a => .ret a
  | .error failure => .raise failure

/-- The refusal where there is no such row. -/
def notFound (what : String) : Failure := .api "not_found" s!"{what} not found."

/-- The owners besides `member` that a list names. -/
def otherOwners (members : List MemberRow) (member : UserId) : List MemberRow :=
  members.filter fun m => m.role == .owner && m.userId != member

/-- `roleFor`, and the error for a caller without one. -/
def callerRole (ctx : RequestContext) (org : OrganizationId) : Except Failure OrgRole :=
  match roleFor ctx org with
  | none => .error (notFound "Organization")
  | some role => .ok role

/-- What the list says against giving `member` the role. -/
def updateRefusal (caller : OrgRole) (members : List MemberRow) (member : UserId)
    (role : OrgRole) : Option Failure :=
  match members.find? (·.userId == member) with
  | none => some (notFound "Member")
  | some target =>
    if caller ≠ .owner ∧ target.role = .owner then
      some (.api "forbidden" "Only an owner can change an owner's role.")
    else if caller ≠ .owner ∧ role = .owner then
      some (.api "forbidden" "Only an owner can grant the owner role.")
    else if target.role = .owner ∧ role ≠ .owner ∧ otherOwners members member = [] then
      some (.api "conflict" "The last owner cannot be demoted.")
    else none

/-- The procedure; nobody changes their own role. -/
def updateOrganizationMemberRole (ctx : RequestContext) (org : OrganizationId) (member : UserId)
    (role : OrgRole) : MemberProg MemberRow :=
  (lift (requireCapability ctx org .memberInvite)).bind fun _ =>
  (lift (callerRole ctx org)).bind fun caller =>
  if member = ctx.userId then
    .raise (.api "invalid_input" "You cannot change your own role.")
  else
    (Prog.call (MemberCall.listOrganizationMembers ctx.userId org)).bind fun members =>
    match updateRefusal caller members member role with
    | some failure => .raise failure
    | none =>
      (Prog.call (MemberCall.updateOrganizationMemberRole ctx.userId org member role)).bind
        fun updated =>
      match updated with
      | none => .raise (notFound "Member")
      | some row =>
        (Prog.call (MemberCall.recordAuditEvent org ctx.userId "member.role_changed" member)).bind
          fun _ => .ret row

/-- What the list says against removing `member`. -/
def removeRefusal (caller : OrgRole) (removingSelf : Bool) (members : List MemberRow)
    (member : UserId) : Option Failure :=
  match members.find? (·.userId == member) with
  | none => some (notFound "Member")
  | some target =>
    if !removingSelf ∧ caller ≠ .owner ∧ target.role = .owner then
      some (.api "forbidden" "Only an owner can remove an owner.")
    else if target.role = .owner ∧ otherOwners members member = [] then
      some (.api "conflict" "The last owner cannot be removed.")
    else none

/-- The procedure; whoever leaves needs less than whoever removes another. -/
def removeOrganizationMember (ctx : RequestContext) (org : OrganizationId) (member : UserId) :
    MemberProg Unit :=
  let removingSelf := member == ctx.userId
  (lift (requireCapability ctx org (if removingSelf then .orgRead else .memberRemove))).bind fun _ =>
  (lift (callerRole ctx org)).bind fun caller =>
  (Prog.call (MemberCall.listOrganizationMembers ctx.userId org)).bind fun members =>
  match removeRefusal caller removingSelf members member with
  | some failure => .raise failure
  | none =>
    (Prog.call (MemberCall.removeOrganizationMember ctx.userId org member)).bind fun removed =>
    match removed with
    | false => .raise (notFound "Member")
    | true =>
      Prog.call (MemberCall.recordAuditEvent org ctx.userId "member.removed" member)

/-! ## Requests -/

/-- The two requests that change who is in charge. -/
inductive Command where
  | updateRole (org : OrganizationId) (member : UserId) (role : OrgRole)
  | remove (org : OrganizationId) (member : UserId)
deriving DecidableEq, Repr

/-- Who sends a command, and the key they send it with. -/
structure Request where
  caller : UserId
  apiKey : Option ApiKeyAuth
  command : Command

def Command.body (ctx : RequestContext) : Command → MemberProg Unit
  | .updateRole org member role =>
    (updateOrganizationMemberRole ctx org member role).bind fun _ => .ret ()
  | .remove org member => removeOrganizationMember ctx org member

/-- `buildContext`, then the procedure. -/
def Request.body (t : Request) : MemberProg Unit :=
  (Prog.call (MemberCall.membershipsFor t.caller)).bind fun memberships =>
  t.command.body ⟨t.caller, memberships, t.apiKey⟩

/-- A new member, as an accepted invitation makes one. -/
def join (t : MembersTable) (r : MemberRow) : MembersTable :=
  if isMember t r.userId r.organizationId then t else t.put r

/-- Requests, interleaved at every request to the database. -/
def membersHost :
    Host MembersTable Queue.Fault MemberRow Request MemberCall MemberCall.Ans Failure where
  perform t o c :=
    match o with
    | .none => (.ok (c.run t).1, (c.run t).2)
    | .before reason => (.error (.unavailable c.op reason), t)
    | .after reason => (.error (.unavailable c.op reason), (c.run t).2)
  drift := join
  body := Request.body

abbrev MembersSys := Sys MembersTable Request MemberCall MemberCall.Ans Failure

end CloudWai.Access
