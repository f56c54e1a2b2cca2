import CloudWai.Access.Members

/-!
# An owner remains

Which of two requests is first decides nothing here: each reads the members,
finds another owner on the list, and writes. What the list shows of a request's
target and of the other owners is what its write relies on, and `Current` says
that this much of it is still so when a write that ends an ownership is executed.
Under it an organization that has an owner keeps one (`owner_remains`). The
protocol below is the reason: no request gets to such a write without a list on
which the target is no owner or has another owner beside it.

About the two procedures of `apps/api/src/procedures/organizations.ts`, as `Members.lean`
has them.
-/

namespace CloudWai.Access

open Base

section Organization

variable (org : OrganizationId)

/-! ## What a request has read -/

/-- The member whose ownership of the organization a call can end. -/
def MemberCall.dethrones : MemberCall → Option UserId
  | .updateOrganizationMemberRole _ o member role =>
    if o = org ∧ role ≠ .owner then some member else none
  | .removeOrganizationMember _ o member => if o = org then some member else none
  | _ => none

/-- The list a request has read of the organization. -/
inductive Reading where
  | nothing
  | members (l : List MemberRow)
deriving DecidableEq, Repr

/-- The target is on the list, and another owner too if it is one. -/
def Cleared (l : List MemberRow) (member : UserId) : Prop :=
  ∃ target, l.find? (·.userId == member) = some target ∧
    (target.role = .owner → otherOwners l member ≠ [])

instance (l : List MemberRow) (member : UserId) : Decidable (Cleared l member) :=
  match h : l.find? (·.userId == member) with
  | none => isFalse (by rintro ⟨target, ht, -⟩; rw [h] at ht; cases ht)
  | some target =>
    decidable_of_iff (target.role = .owner → otherOwners l member ≠ []) (by simp [Cleared, h])

/-- What the answer to a request for the list shows. -/
def listed : Except Failure (List MemberRow) → Reading
  | .ok l => .members l
  | .error _ => .nothing

/-- A call that can end an ownership is made of a target that the list clears, and
uses the list up. -/
def spend (x : Reading) : Option UserId → Option Reading
  | none => some x
  | some member =>
    match x with
    | .members l => if Cleared l member then some .nothing else none
    | .nothing => none

def readingNext (x : Reading) : (c : MemberCall) → Except Failure c.Ans → Option Reading
  | .membershipsFor _, _ => some x
  | .listOrganizationMembers _ o, r => some (if o = org then listed r else x)
  | .updateOrganizationMemberRole user o member role, _ =>
    spend x ((MemberCall.updateOrganizationMemberRole user o member role).dethrones org)
  | .removeOrganizationMember user o member, _ =>
    spend x ((MemberCall.removeOrganizationMember user o member).dethrones org)
  | .recordAuditEvent _ _ _ _, _ => some x

def readingProtocol : Protocol MemberCall MemberCall.Ans Failure Reading where
  next := readingNext org
  Possible _ _ := True

/-- Every request follows it from the beginning. -/
def readingDuty : Duty Request MemberCall MemberCall.Ans Failure Reading where
  protocol := readingProtocol org
  first _ := .nothing
  ends _ _ _ := True

/-! ## The procedures follow it -/

/-- Whatever the outcome and the stage. -/
abbrev Reads {α : Type} (x : Reading) (p : MemberProg α) : Prop :=
  (readingProtocol org).Follows (fun _ _ => True) x p

variable {org} {α : Type}

theorem reads_lift {β : Type} {e : Except Failure β} {f : β → MemberProg α} {x : Reading}
    (h : ∀ b, e = .ok b → Reads org x (f b)) : Reads org x ((lift e).bind f) := by
  cases e with
  | error failure => trivial
  | ok b => exact h b rfl

theorem reads_call {c : MemberCall} {f : c.Ans → MemberProg α} {x : Reading}
    (h : ∀ r, ∃ x', readingNext org x c r = some x' ∧ ∀ a, r = .ok a → Reads org x' (f a)) :
    Reads org x ((Prog.call c).bind f) := by
  intro r _
  obtain ⟨x', hnext, hf⟩ := h r
  refine ⟨x', hnext, ?_⟩
  cases r with
  | ok a => exact hf a rfl
  | error e => trivial

/-- A request that ends with its entry in the audit log. -/
theorem reads_audit {o : OrganizationId} {actor member : UserId} {event : String} {x : Reading}
    {f : Unit → MemberProg α} (hf : ∀ a, Reads org x (f a)) :
    Reads org x ((Prog.call (MemberCall.recordAuditEvent o actor event member)).bind f) :=
  reads_call fun _ => ⟨x, rfl, fun a _ => hf a⟩

theorem spend_cleared {l : List MemberRow} {member : UserId} (h : Cleared l member)
    (dethroned : Option UserId) (hd : dethroned = none ∨ dethroned = some member) :
    ∃ x', spend (.members l) dethroned = some x' := by
  rcases hd with rfl | rfl
  · exact ⟨_, rfl⟩
  · exact ⟨.nothing, if_pos h⟩

/-- A list that does not refuse the change clears the target, unless the change keeps
it an owner. -/
theorem cleared_of_updateRefusal {caller : OrgRole} {l : List MemberRow} {member : UserId}
    {role : OrgRole} (h : updateRefusal caller l member role = none) (hrole : role ≠ .owner) :
    Cleared l member := by
  unfold updateRefusal at h
  cases hfind : l.find? (·.userId == member) with
  | none =>
    rw [hfind] at h
    cases h
  | some target =>
    rw [hfind] at h
    refine ⟨target, hfind, ?_⟩
    intro howner hnone
    simp only [howner, hnone] at h
    split at h
    · cases h
    · simp [hrole] at h

theorem cleared_of_removeRefusal {caller : OrgRole} {self : Bool} {l : List MemberRow}
    {member : UserId} (h : removeRefusal caller self l member = none) : Cleared l member := by
  unfold removeRefusal at h
  cases hfind : l.find? (·.userId == member) with
  | none =>
    rw [hfind] at h
    cases h
  | some target =>
    rw [hfind] at h
    refine ⟨target, hfind, ?_⟩
    intro howner hnone
    simp only [howner, hnone] at h
    split at h
    · cases h
    · simp at h

/-- The change of a role reads the members before it writes, and goes by what it read. -/
theorem reads_updateOrganizationMemberRole (ctx : RequestContext) (o : OrganizationId)
    (member : UserId) (role : OrgRole) :
    Reads org .nothing (updateOrganizationMemberRole ctx o member role) := by
  unfold updateOrganizationMemberRole
  refine reads_lift fun _ _ => reads_lift fun caller _ => ?_
  split
  · trivial
  · refine reads_call fun r => ⟨_, rfl, ?_⟩
    rintro l rfl
    cases hrefusal : updateRefusal caller l member role with
    | some failure => trivial
    | none =>
      refine reads_call fun r => ?_
      have hspend : ∃ x', spend (if o = org then .members l else .nothing)
          ((MemberCall.updateOrganizationMemberRole ctx.userId o member role).dethrones org) =
            some x' := by
        unfold MemberCall.dethrones
        dsimp only
        by_cases hends : o = org ∧ role ≠ .owner
        · rw [if_pos hends, if_pos hends.1]
          exact spend_cleared (cleared_of_updateRefusal hrefusal hends.2) _ (.inr rfl)
        · rw [if_neg hends]
          exact ⟨_, rfl⟩
      obtain ⟨x', hx'⟩ := hspend
      refine ⟨x', hx', ?_⟩
      intro updated _
      cases updated with
      | none => trivial
      | some row => exact reads_audit fun _ => trivial

/-- And so does a removal. -/
theorem reads_removeOrganizationMember (ctx : RequestContext) (o : OrganizationId)
    (member : UserId) : Reads org .nothing (removeOrganizationMember ctx o member) := by
  unfold removeOrganizationMember
  refine reads_lift fun _ _ => reads_lift fun caller _ => reads_call fun r => ⟨_, rfl, ?_⟩
  rintro l rfl
  cases hrefusal : removeRefusal caller (member == ctx.userId) l member with
  | some failure => trivial
  | none =>
    refine reads_call fun r => ?_
    have hspend : ∃ x', spend (if o = org then .members l else .nothing)
        ((MemberCall.removeOrganizationMember ctx.userId o member).dethrones org) = some x' := by
      unfold MemberCall.dethrones
      dsimp only
      by_cases horg : o = org
      · rw [if_pos horg, if_pos horg]
        exact spend_cleared (cleared_of_removeRefusal hrefusal) _ (.inr rfl)
      · rw [if_neg horg, if_neg horg]
        exact ⟨_, rfl⟩
    obtain ⟨x', hx'⟩ := hspend
    refine ⟨x', hx', ?_⟩
    intro removed _
    cases removed with
    | false => trivial
    | true =>
      refine Protocol.follows_call fun r _ => ⟨x', rfl, trivial⟩

theorem reads_body (t : Request) : Reads org .nothing t.body := by
  unfold Request.body
  refine reads_call fun r => ⟨.nothing, rfl, fun memberships _ => ?_⟩
  cases t.command with
  | updateRole o target role =>
    exact Protocol.follows_bind (reads_updateOrganizationMemberRole _ o target role)
      (fun _ _ _ => trivial) fun _ _ _ => trivial
  | remove o target => exact reads_removeOrganizationMember _ o target

theorem follows_duty (t : Request) :
    (readingDuty org).protocol.Follows ((readingDuty org).ends t) ((readingDuty org).first t)
      (membersHost.body t) := reads_body t

/-! ## Ownership -/

variable (org)

/-- Somebody owns the organization. -/
def Owned (t : MembersTable) : Prop :=
  ∃ r ∈ t.rows, r.organizationId = org ∧ r.role = .owner

/-- The member owns the organization. -/
def Owns (t : MembersTable) (member : UserId) : Prop :=
  ∃ r ∈ t.rows, r.key = (org, member) ∧ r.role = .owner

instance (t : MembersTable) : Decidable (Owned org t) := by unfold Owned; infer_instance

instance (t : MembersTable) (member : UserId) : Decidable (Owns org t member) := by
  unfold Owns
  infer_instance

/-- What the list shows of the owners is so: the target is an owner only if it was one
there, and not all the other owners there have ceased to be. -/
def Current (t : MembersTable) (l : List MemberRow) (member : UserId) : Prop :=
  Owns org t member → (l.find? (·.userId == member)).any (·.role == .owner) = true ∧
    (otherOwners l member ≠ [] → ∃ r ∈ otherOwners l member, Owns org t r.userId)

instance (t : MembersTable) (l : List MemberRow) (member : UserId) :
    Decidable (Current org t l member) := by
  unfold Current
  infer_instance

/-- **The condition**: a write that ends an ownership is executed while the list its
request read is current. -/
def NotOvertaken (s : MembersSys) : Move Request Queue.Fault MemberRow → Prop
  | .exec tid _ =>
    match (s.pending tid).bind (MemberCall.dethrones org),
        s.stage (readingProtocol org) (fun _ => .nothing) tid with
    | some member, some (.members l) => Current org s.world l member
    | _, _ => True
  | _ => True

instance (s : MembersSys) (l : Move Request Queue.Fault MemberRow) :
    Decidable (NotOvertaken org s l) := by
  unfold NotOvertaken
  split
  · split <;> infer_instance
  · infer_instance

variable {org}

/-! ## One call -/

/-- A call ends no ownership but that of the member it is about. -/
theorem owns_run {t : MembersTable} {c : MemberCall} {member : UserId} (h : Owns org t member)
    (hother : c.dethrones org ≠ some member) : Owns org (c.run t).2 member := by
  obtain ⟨r, hr, hkey, hrole⟩ := h
  cases c with
  | membershipsFor user => exact ⟨r, hr, hkey, hrole⟩
  | listOrganizationMembers user o => exact ⟨r, hr, hkey, hrole⟩
  | recordAuditEvent o actor event target => exact ⟨r, hr, hkey, hrole⟩
  | updateOrganizationMemberRole user o target role =>
    unfold MemberCall.run
    dsimp only
    split
    · refine ⟨_, List.mem_map_of_mem hr, ?_⟩
      by_cases hhit : r.key = (o, target)
      · rw [Table.Edit.on_hit (by simpa using hhit)]
        refine ⟨hkey, ?_⟩
        by_contra hdemoted
        rw [hkey, Prod.mk.injEq] at hhit
        obtain ⟨rfl, rfl⟩ := hhit
        exact hother (if_pos ⟨rfl, hdemoted⟩)
      · rw [Table.Edit.on_miss (by simpa using hhit)]
        exact ⟨hkey, hrole⟩
    · exact ⟨r, hr, hkey, hrole⟩
  | removeOrganizationMember user o target =>
    unfold MemberCall.run
    dsimp only
    split
    · have hmiss : r.key ≠ (o, target) := by
        intro hhit
        rw [hkey, Prod.mk.injEq] at hhit
        obtain ⟨rfl, rfl⟩ := hhit
        exact hother (if_pos rfl)
      exact ⟨r, Table.mem_delete.mpr ⟨hr, by simpa using hmiss⟩, hkey, hrole⟩
    · exact ⟨r, hr, hkey, hrole⟩

theorem owned_of_owns {t : MembersTable} {member : UserId} (h : Owns org t member) :
    Owned org t := by
  obtain ⟨r, hr, hkey, hrole⟩ := h
  exact ⟨r, hr, congrArg Prod.fst hkey, hrole⟩

theorem owns_of_owned {t : MembersTable} (h : Owned org t) : ∃ member, Owns org t member := by
  obtain ⟨r, hr, rfl, hrole⟩ := h
  exact ⟨r.userId, r, hr, rfl, hrole⟩

/-- A call that the list clears, while it is current, leaves an owner. -/
theorem owned_run {t : MembersTable} {c : MemberCall} (h : Owned org t)
    (hcleared : ∀ member, c.dethrones org = some member →
      ∃ l, Cleared l member ∧ Current org t l member) : Owned org (c.run t).2 := by
  cases hd : c.dethrones org with
  | none =>
    obtain ⟨member, hmember⟩ := owns_of_owned h
    exact owned_of_owns (owns_run hmember (by rw [hd]; nofun))
  | some member =>
    by_cases htarget : Owns org t member
    · obtain ⟨l, ⟨target, hfind, hothers⟩, hcurrent⟩ := hcleared member hd
      obtain ⟨hlisted, hstill⟩ := hcurrent htarget
      rw [hfind, Option.any_some, beq_iff_eq] at hlisted
      obtain ⟨other, hmem, hother⟩ := hstill (hothers hlisted)
      have hne : other.userId ≠ member := by
        have hfilter := (List.mem_filter.mp hmem).2
        simp only [Bool.and_eq_true, bne_iff_ne] at hfilter
        exact hfilter.2
      exact owned_of_owns
        (owns_run hother (by rw [hd]; exact fun he => hne (Option.some.inj he).symm))
    · obtain ⟨other, hother⟩ := owns_of_owned h
      have hne : other ≠ member := fun he => htarget (he ▸ hother)
      exact owned_of_owns (owns_run hother (by rw [hd]; exact fun he => hne (Option.some.inj he).symm))

/-- A call the protocol lets through at a list is about a target the list clears. -/
theorem cleared_of_next {x x' : Reading} {c : MemberCall} {r : Except Failure c.Ans}
    {member : UserId} (hnext : readingNext org x c r = some x') (hd : c.dethrones org = some member) :
    ∃ l, x = .members l ∧ Cleared l member := by
  have hspend : spend x (some member) = some x' := by
    cases c with
    | membershipsFor user => cases hd
    | listOrganizationMembers user o => cases hd
    | recordAuditEvent o actor event target => cases hd
    | updateOrganizationMemberRole user o target role =>
      rw [← hd]
      exact hnext
    | removeOrganizationMember user o target =>
      rw [← hd]
      exact hnext
  cases x with
  | nothing => cases hspend
  | members l =>
    refine ⟨l, rfl, ?_⟩
    by_contra hnot
    rw [spend, if_neg hnot] at hspend
    cases hspend

theorem owned_perform {t : MembersTable} {o : Queue.Fault} {c : MemberCall} (h : Owned org t)
    (hrun : Owned org (c.run t).2) : Owned org (membersHost.perform t o c).2 := by
  cases o with
  | none => exact hrun
  | before reason => exact h
  | after reason => exact hrun

theorem owned_join {t : MembersTable} {r : MemberRow} (h : Owned org t) :
    Owned org (join t r) := by
  unfold join
  split
  · exact h
  next hnew =>
    obtain ⟨member, row, hrow, hkey, hrole⟩ := owns_of_owned h
    have hfind := Table.find_eq_some.mpr ⟨hrow, hkey⟩
    have hne : (org, member) ≠ r.key := by
      intro he
      unfold isMember at hnew
      rw [show (r.organizationId, r.userId) = (org, member) from he.symm, hfind] at hnew
      exact hnew rfl
    have hput := (Table.find_put t r (org, member)).trans (if_neg hne)
    rw [hfind] at hput
    exact owned_of_owns ⟨row, (Table.mem_of_find hput).1, hkey, hrole⟩

/-! ## Runs -/

/-- Threads are where the protocol has them, and the organization is owned. -/
structure OwnedInv (org : OrganizationId) (s : MembersSys) : Prop where
  sane : s.Sane
  typed : s.Typed (readingDuty org)
  owned : Owned org s.world

theorem answers (s : MembersSys) : membersHost.Answers (readingDuty org) s.world :=
  fun _ _ => trivial

/-- **Step lemma.** -/
theorem ownedInv_step {s : MembersSys} {l : Move Request Queue.Fault MemberRow}
    (h : OwnedInv org s) (hl : NotOvertaken org s l) : OwnedInv org (membersHost.step s l) where
  sane := sane_step _ h.sane l
  typed := typed_step follows_duty (answers s) h.typed l
  owned := by
    rcases Base.step_cases h.sane h.typed (answers s) l with hsilent | ⟨tid, o, c, x, x', rfl, hcall⟩
    · rcases hsilent.world with hsame | ⟨r, hdrift⟩
      · rw [hsame]
        exact h.owned
      · rw [hdrift]
        exact owned_join h.owned
    · rw [hcall.world]
      refine owned_perform h.owned (owned_run h.owned fun member hd => ?_)
      obtain ⟨read, rfl, hcleared⟩ := cleared_of_next hcall.moves hd
      unfold NotOvertaken at hl
      have hwas : s.stage (readingProtocol org) (fun _ => .nothing) tid = some (.members read) :=
        hcall.was
      simp only [hcall.pending, Option.bind_some, hd, hwas] at hl
      exact ⟨read, hcleared, hl⟩

/-- **An owner remains**, as long as no write that ends an ownership is overtaken by
another since its request read the members. -/
theorem owner_remains (t : MembersTable) (moves : List (Move Request Queue.Fault MemberRow))
    (howned : Owned org t)
    (hmoves : EachStep membersHost.step (NotOvertaken org) (Sys.start t) moves) :
    Always membersHost.step (fun s => Owned org s.world) (Sys.start t) moves :=
  always_of_inv ⟨sane_start t, typed_start _ t, howned⟩ (fun _ _ h hl => ownedInv_step h hl)
    (fun _ h => h.owned) hmoves

end Organization

/-! ## Two owners -/

/-- An organization with two owners. -/
def twoOwners : MembersTable :=
  (Table.empty.put ⟨1, 7, .owner, 0⟩).put ⟨1, 8, .owner, 1⟩

/-- One demotes the other, and leaves when that is done. -/
theorem owner_remains_serial : Always membersHost.step (fun s => Owned 1 s.world)
    (Sys.start twoOwners)
    [.spawn ⟨7, none, .updateRole 1 8 .member⟩, .exec 0 .none, .exec 0 .none, .exec 0 .none,
      .exec 0 .none, .spawn ⟨7, none, .remove 1 7⟩, .exec 1 .none, .exec 1 .none] :=
  owner_remains twoOwners _ (by decide) (by decide +kernel)

/-- Each demotes the other; both have read the members before either writes. -/
theorem both_demoted : ¬ ∀ (org : OrganizationId) (t : MembersTable)
    (moves : List (Move Request Queue.Fault MemberRow)), Owned org t →
    Always membersHost.step (fun s => Owned org s.world) (Sys.start t) moves := by
  intro h
  have hlast := always_iff_prefixes.mp (h 1 twoOwners
    [.spawn ⟨7, none, .updateRole 1 8 .member⟩, .spawn ⟨8, none, .updateRole 1 7 .member⟩,
      .exec 0 .none, .exec 1 .none, .exec 0 .none, .exec 1 .none, .exec 0 .none, .exec 1 .none]
    (by decide)) _ [] (List.append_nil _).symm
  revert hlast
  decide +kernel

end CloudWai.Access
