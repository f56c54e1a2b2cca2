import CloudWai.Sessions.Members

/-!
# The last owner, as the policies guard it

`is_last_owner` is asked of one row at a time and answered from the table before the
statement. Of two owners neither is the last, so a `delete` of both passes for both.
That, and the deletion of the organization itself, is all that ends an organization's
ownership: `owned_throughout_iff`.

About `is_last_owner` and the policies of migrations 0002 and 0020, as `Members.lean` has
them.
-/

namespace CloudWai.Sessions

open Base Access

/-- An owner deletes the organization, or more than one owner and all of them at once. -/
def Orphans (w : Tenancy) (org : OrganizationId) (m : Move) : Prop :=
  roleIn w m.user org = some .owner ∧
    match m.change with
    | .organizations (.delete hits) => ∃ o ∈ w.organizations, o.id = org ∧ hits o = true
    | .members (.delete hits) =>
      (∃ r ∈ w.owners org, ∃ r' ∈ w.owners org, r.userId ≠ r'.userId) ∧
        ∀ r ∈ w.owners org, hits r = true
    | _ => False

variable {w : Tenancy} {user : UserId} {org : OrganizationId} {m : Move} {ms : List Move}

/-! ## Deletions go through -/

theorem Sound.of_sublist {os os' : List OrganizationRow} {rs rs' : List MemberRow}
    {users : List UserId} (h : Sound os rs users) (hos : os'.Sublist os) (hrs : rs'.Sublist rs)
    (hrefs : ∀ r ∈ rs', r.organizationId ∈ os'.map OrganizationRow.id) : Sound os' rs' users where
  ids := h.ids.sublist (hos.map _)
  slugs := h.slugs.sublist (hos.map _)
  checks o ho := h.checks o (hos.mem ho)
  creators o ho := h.creators o (hos.mem ho)
  keys := h.keys.sublist (hrs.map _)
  tenants := hrefs
  people r hr := h.people r (hrs.mem hr)

theorem step_delete_members (hits : MemberRow → Bool) :
    (w.step ⟨user, .members (.delete hits)⟩).members =
      w.members.filter fun r => !memberRules.deletes (.client user) w hits r := by
  have hsound : Sound w.organizations
      (w.members.filter fun r => !memberRules.deletes (.client user) w hits r) w.users :=
    w.sound.of_sublist (List.Sublist.refl _) List.filter_sublist
      fun r hr => w.sound.tenants r (List.mem_of_mem_filter hr)
  unfold Tenancy.step Tenancy.exec Tenancy.restock
  dsimp only
  rw [Rules.exec_delete (R := memberRules) w.sound.keys, Option.bind_some, dif_pos hsound]
  rfl

theorem step_delete_organizations (hits : OrganizationRow → Bool) :
    (w.step ⟨user, .organizations (.delete hits)⟩).members =
      w.members.filter fun r => ((w.organizations.filter
        fun o => !organizationRules.deletes (.client user) w hits o).map
          OrganizationRow.id).contains r.organizationId := by
  have hsound : Sound
      (w.organizations.filter fun o => !organizationRules.deletes (.client user) w hits o)
      (cascade w.members (w.organizations.filter
        fun o => !organizationRules.deletes (.client user) w hits o) (.delete hits)) w.users :=
    w.sound.of_sublist List.filter_sublist cascade_sublist
      fun r hr => List.contains_iff_mem.mp (List.mem_filter.mp hr).2
  unfold Tenancy.step Tenancy.exec Tenancy.restock
  dsimp only
  rw [Rules.exec_delete (R := organizationRules) w.sound.ids, Option.bind_some, dif_pos hsound]
  rfl

/-! ## One statement of an owner -/

theorem outranks_owner {r : MemberRow} (h : roleIn w user r.organizationId = some .owner) :
    outranks user w r = true := by
  unfold outranks
  rw [h]
  rfl

/-- Of the owners, one is not the last if there is another. -/
theorem notLastOwner_iff {r : MemberRow} (hr : r ∈ w.owners org) :
    notLastOwner w r = true ↔ ∃ x ∈ w.owners org, x.userId ≠ r.userId := by
  obtain ⟨_, horg, _⟩ := mem_owners.mp hr
  have hrole : roleIn w r.userId r.organizationId = some .owner :=
    horg ▸ roleIn_owner.mpr ⟨r, hr, rfl⟩
  unfold notLastOwner isLastOwner
  rw [hrole, horg, Option.map_some, beq_self_eq_true, sqlAnd_true, Option.map_some, Bool.not_not,
    beq_iff_eq, Option.some.injEq, List.any_eq_true]
  constructor
  · intro h
    obtain ⟨x, hx, hother⟩ := h
    rw [Bool.and_eq_true, Bool.and_eq_true, beq_iff_eq, beq_iff_eq, bne_iff_ne] at hother
    exact ⟨x, mem_owners.mpr ⟨hx, hother.1⟩, hother.2⟩
  · intro h
    obtain ⟨x, hx, hother⟩ := h
    obtain ⟨hmem, hthis⟩ := mem_owners.mp hx
    refine ⟨x, hmem, ?_⟩
    rw [Bool.and_eq_true, Bool.and_eq_true, beq_iff_eq, beq_iff_eq, bne_iff_ne]
    exact ⟨hthis, hother⟩

/-- An owner's `delete` takes an owner it hits, unless it is the last one. -/
theorem deletes_owner (howner : roleIn w user org = some .owner) {r : MemberRow}
    (hr : r ∈ w.owners org) {hits : MemberRow → Bool} :
    memberRules.deletes (.client user) w hits r = true ↔
      hits r = true ∧ ∃ x ∈ w.owners org, x.userId ≠ r.userId := by
  have hrank : outranks user w r = true := by
    apply outranks_owner
    rwa [(mem_owners.mp hr).2.1]
  rw [← notLastOwner_iff hr]
  show (hits r && ((r.userId == user || outranks user w r) && notLastOwner w r)) = true ↔ _
  rw [hrank, Bool.or_true, Bool.true_and, Bool.and_eq_true]

/-- A `delete` of members by an owner. -/
theorem owned_delete_members (howner : roleIn w user org = some .owner) (hits : MemberRow → Bool) :
    (w.step ⟨user, .members (.delete hits)⟩).owners org = [] ↔
      Orphans w org ⟨user, .members (.delete hits)⟩ := by
  have hgone : (w.step ⟨user, .members (.delete hits)⟩).owners org = [] ↔
      ∀ r ∈ w.owners org, memberRules.deletes (.client user) w hits r = true := by
    unfold Tenancy.owners
    rw [step_delete_members, List.filter_comm, List.filter_eq_nil_iff]
    refine forall₂_congr fun r _ => ?_
    rw [Bool.not_eq_true, Bool.not_eq_false']
  obtain ⟨r, hr, _⟩ := roleIn_owner.mp howner
  rw [hgone]
  constructor
  · intro hall
    obtain ⟨_, x, hx, hother⟩ := (deletes_owner howner hr).mp (hall r hr)
    exact ⟨howner, ⟨x, hx, r, hr, hother⟩, fun y hy => ((deletes_owner howner hy).mp (hall y hy)).1⟩
  · intro h y hy
    obtain ⟨_, hpair, hhits⟩ := h
    obtain ⟨a, ha, b, hb, hab⟩ := hpair
    refine (deletes_owner howner hy).mpr ⟨hhits y hy, ?_⟩
    -- one of the two is another than `y`
    by_cases hya : a.userId = y.userId
    · exact ⟨b, hb, fun hyb => hab (hya.trans hyb.symm)⟩
    · exact ⟨a, ha, hya⟩

/-- A `delete` of organizations. -/
theorem owned_delete_organizations (howner : roleIn w user org = some .owner)
    (hits : OrganizationRow → Bool) :
    (w.step ⟨user, .organizations (.delete hits)⟩).owners org = [] ↔
      Orphans w org ⟨user, .organizations (.delete hits)⟩ := by
  obtain ⟨r, hr, _⟩ := roleIn_owner.mp howner
  obtain ⟨hmem, horg, _⟩ := mem_owners.mp hr
  obtain ⟨o, ho, hid⟩ := List.mem_map.mp (w.sound.tenants r hmem)
  rw [horg] at hid
  have hdeletes : organizationRules.deletes (.client user) w hits o = hits o := by
    show (hits o && (roleIn w user o.id == some .owner)) = hits o
    rw [hid, howner]
    exact Bool.and_true _
  -- the row of an id is the only one
  have honly : ∀ o' ∈ w.organizations, o'.id = org → o' = o := fun o' ho' hid' =>
    List.inj_on_of_nodup_map w.sound.ids ho' ho (hid'.trans hid.symm)
  have hgone : (w.step ⟨user, .organizations (.delete hits)⟩).owners org = [] ↔ hits o = true := by
    unfold Tenancy.owners
    rw [step_delete_organizations, List.filter_comm, List.filter_eq_nil_iff]
    constructor
    · intro hall
      by_contra hkept
      refine hall r hr (List.contains_iff_mem.mpr ?_)
      rw [horg]
      refine List.mem_map.mpr ⟨o, List.mem_filter.mpr ⟨ho, ?_⟩, hid⟩
      rw [hdeletes, Bool.eq_false_iff.mpr hkept]
      rfl
    · intro hhit x hx hthere
      obtain ⟨o', ho', hid'⟩ := List.mem_map.mp (List.contains_iff_mem.mp hthere)
      obtain ⟨hmem', hkept⟩ := List.mem_filter.mp ho'
      obtain rfl := honly o' hmem' (hid'.trans (mem_owners.mp hx).2.1)
      rw [hdeletes, hhit] at hkept
      cases hkept
  rw [hgone]
  constructor
  · intro hhit
    exact ⟨howner, o, ho, hid, hhit⟩
  · intro h
    obtain ⟨_, o', ho', hid', hhit⟩ := h
    rwa [honly o' ho' hid'] at hhit

/-- The sender's own row is out of reach of an `update`. -/
theorem owned_other (howner : roleIn w m.user org = some .owner)
    (hmembers : ∀ hits, m.change ≠ .members (.delete hits))
    (horganizations : ∀ hits, m.change ≠ .organizations (.delete hits)) :
    (w.step m).owners org ≠ [] := by
  obtain ⟨r, hr, huser⟩ := roleIn_owner.mp howner
  obtain ⟨hmem, hthis⟩ := mem_owners.mp hr
  refine List.ne_nil_of_mem (mem_owners.mpr ⟨?_, hthis⟩)
  rcases step_cases w m with hsame | ⟨st, hst, _, hexec⟩ | ⟨st, hst, _, hcascade⟩
  · rwa [hsame]
  · rcases Rules.exec_before hexec hmem with hkept | ⟨_, _, hturns⟩ | ⟨hits, rfl, _⟩
    · exact hkept
    · obtain ⟨_, _, _, hhit, _⟩ := hturns
      obtain ⟨hself, _⟩ := (Bool.and_eq_true _ _).mp ((Bool.and_eq_true _ _).mp hhit).2
      exact absurd huser (bne_iff_ne.mp hself)
    · exact absurd hst (hmembers hits)
  · rw [hcascade]
    cases st with
    | delete hits => exact absurd hst (horganizations hits)
    | _ => exact hmem

/-! ## Runs -/

theorem owned_step (h : w.owners org ≠ []) : (w.step m).owners org ≠ [] ↔ ¬ Orphans w org m := by
  by_cases howner : roleIn w m.user org = some .owner
  · obtain ⟨user, change⟩ := m
    cases change with
    | members st =>
      cases st with
      | delete hits => exact not_congr (owned_delete_members howner hits)
      | insert drafts => exact iff_of_true (owned_other howner (by simp) (by simp)) fun ho => ho.2
      | update hits set => exact iff_of_true (owned_other howner (by simp) (by simp)) fun ho => ho.2
    | organizations st =>
      cases st with
      | delete hits => exact not_congr (owned_delete_organizations howner hits)
      | insert drafts => exact iff_of_true (owned_other howner (by simp) (by simp)) fun ho => ho.2
      | update hits set => exact iff_of_true (owned_other howner (by simp) (by simp)) fun ho => ho.2
  · rw [owners_step howner]
    exact iff_of_true h fun ho => howner ho.1

/-- **What ends an ownership**: an organization that has an owner has one throughout,
exactly if no owner deletes it, and none deletes all of its several owners at once. -/
theorem owned_throughout_iff (h : w.owners org ≠ []) :
    Always Tenancy.step (fun w => w.owners org ≠ []) w ms ↔
      EachStep Tenancy.step (fun w m => ¬ Orphans w org m) w ms :=
  always_iff_eachStep (J := fun _ => True) trivial (fun _ _ _ => trivial) h
    fun _ _ _ hs => owned_step hs

/-- An owner appoints a second one, and removes both in one statement. -/
theorem owned_throughout_pair : let ms : List Move :=
    [⟨1, .members (.update (fun r => r.userId == 2) fun r => { r with role := .owner })⟩,
      ⟨1, .members (.delete fun r => r.organizationId == 1)⟩]
    Always Tenancy.step (fun w => w.owners 1 ≠ []) twoTenants ms ↔
      EachStep Tenancy.step (fun w m => ¬ Orphans w 1 m) twoTenants ms :=
  owned_throughout_iff (by decide)

end CloudWai.Sessions
