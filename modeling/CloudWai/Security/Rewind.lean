import CloudWai.Base.Versioned
import CloudWai.Security.Conduct
import CloudWai.Security.Protection

/-!
# The stored policy and the edge's

`saveSecurityPolicy` of the store says that the version is monotonic, "so a
concurrent apply loses rather than silently rewinding"; the applier re-reads the
row "so a version that moved is not silently rewound". Neither is enforced: the
upsert replaces whatever row is there. A save that lands between a thread's read
of the row and its write is undone by the write.

`policy_kept` is what does hold. In a run in which each write meets the version
its thread read — and an activation also the version that was sent — versions
only rise, the stored row is always the draft saved last, and an active row is
one whose artifact the edge accepted. Stages of `policyProtocol` say what a
thread read; that a version seen again means the same row is the registers'
`Glimpse`.

About `saveSecurityPolicy` in `apps/api/src/procedures/security.ts` and the applier in
`apps/worker/src/policy-job.ts`, as `Policy.lean` has them.
-/

namespace CloudWai

namespace Security

open Base Queue

variable {P : Platform} {config : EdgeConfig} {w w' : PolicyWorld} {s : PolicySys}
  {org : OrganizationId}

/-! ## What is asked of a state -/

/-- The row but for the state, which is the edge's to report. -/
def SecurityPolicy.drafted (p : SecurityPolicy) : SecurityPolicy := { p with state := .draft }

/-- The stored policy of an organization. -/
abbrev PolicyWorld.policy (w : PolicyWorld) (org : OrganizationId) : Option SecurityPolicy :=
  w.db.getSecurityPolicyForService org

/-- What the organization's members saved last. -/
def PolicyWorld.lastSaved (w : PolicyWorld) (org : OrganizationId) : Option SecurityPolicy :=
  w.saved.find? fun p => p.organizationId == org

/-- The input was compiled from this row, at some moment. -/
def CompileInput.ShowsPolicy (input : CompileInput) (p : SecurityPolicy) : Prop :=
  input.policy = some ⟨p.riskLevel, p.action, p.version⟩ ∧
    ∃ now, input.protection = some (if protectionIsActive p now then .attack else .normal)

/-- The stored row is the draft saved last, and active only as the edge has it. -/
structure Kept (w : PolicyWorld) : Prop where
  content : ∀ org p, w.policy org = some p → w.lastSaved org = some p.drafted
  active : ∀ org p, w.policy org = some p → p.state = .active →
    ∃ input, (org, input) ∈ w.accepted ∧ input.ShowsPolicy p

/-- The step keeps every stored policy, and at no lower version. -/
def Forward (P : Platform) (config : EdgeConfig) (s : PolicySys) (l : PolicyMove) : Prop :=
  ∀ org p, s.world.policy org = some p →
    ∃ q, ((policyHost P config).step s l).world.policy org = some q ∧ p.version ≤ q.version

/-! ## The condition -/

/-- A write lands on the version its thread read; an activation's is also the one
that was sent, and the one it records. -/
def PolicyStage.Current (w : PolicyWorld) : PolicyStage → Prop
  | .saving org read => (w.policy org).map (·.version) = read.map (·.version)
  | .accepted p input version => (w.policy p.organizationId).map (·.version) = some version ∧
      p.version = version ∧ (compileEdge input).version = version
  | _ => True

instance (w : PolicyWorld) (x : PolicyStage) : Decidable (x.Current w) := by
  cases x <;> unfold PolicyStage.Current <;> infer_instance

/-- The stage of thread `tid`. -/
def policyStage (s : PolicySys) (tid : Nat) : Option PolicyStage :=
  s.stage policyProtocol PolicyTask.first tid

def writesPolicy : PolicyCall → Bool
  | .saveSecurityPolicy _ => true
  | _ => false

/-- If the step is a write of the policy that takes effect, nothing moved under it. -/
def Undisturbed (s : PolicySys) : PolicyMove → Prop
  | .exec tid o => (s.pending tid).any writesPolicy = true → o.fault.Lands →
      ∀ x ∈ policyStage s tid, x.Current s.world
  | _ => True

instance decideUndisturbed (s : PolicySys) : (l : PolicyMove) → Decidable (Undisturbed s l)
  | .exec _ _ => inferInstanceAs (Decidable (_ → _ → ∀ x ∈ _, _))
  | .spawn _ => isTrue trivial
  | .crash _ => isTrue trivial
  | .drift _ => isTrue trivial

/-! ## The table, one row an organization -/

/-- No organization has two policies. -/
def Db.OnePolicy (db : Db) : Prop :=
  ∀ p ∈ db.policies, ∀ q ∈ db.policies, p.organizationId = q.organizationId → p = q

theorem Db.OnePolicy.read {db : Db} (h : db.OnePolicy) {p : SecurityPolicy} :
    db.getSecurityPolicyForService org = some p ↔ p ∈ db.policies ∧ p.organizationId = org := by
  constructor
  · exact Db.getSecurityPolicyForService_org
  · rintro ⟨hmem, rfl⟩
    cases hread : db.getSecurityPolicyForService p.organizationId with
    | none =>
      have hnil := List.head?_eq_none_iff.mp hread
      have hin : p ∈ (db.policies.filter fun q => q.organizationId == p.organizationId).insertionSort
          fun a b => b.version ≤ a.version := by
        rw [List.mem_insertionSort, List.mem_filter]
        exact ⟨hmem, beq_self_eq_true _⟩
      rw [hnil] at hin
      exact absurd hin List.not_mem_nil
    | some q =>
      obtain ⟨hq, horg⟩ := Db.getSecurityPolicyForService_org hread
      rw [h q hq p hmem horg]

/-- **The upsert.** A row that takes the place of its organization's only row, or
is its first, is what is read afterwards; the others are as they were. -/
theorem Db.put_read {db : Db} {events : List PolicyEvent} {row : SecurityPolicy}
    (h : db.OnePolicy) (haccept : db.acceptsPolicy events row = true)
    (hid : ∀ p, db.getSecurityPolicyForService row.organizationId = some p → p.id = row.id) :
    (db.putPolicy row).OnePolicy ∧ ∀ org, (db.putPolicy row).getSecurityPolicyForService org =
      if org = row.organizationId then some row else db.getSecurityPolicyForService org := by
  -- a row of the organization has the upsert's name, or its id would be refused
  have hname : ∀ p ∈ db.policies, p.organizationId = row.organizationId ↔ row.sameName p = true := by
    intro p hp
    constructor
    · intro horg
      by_contra hne
      have hok := List.all_eq_true.mp haccept p hp
      rw [if_neg hne] at hok
      have hpid := hid p (h.read.mpr ⟨hp, horg⟩)
      simp [hpid] at hok
    · intro hs
      simp only [SecurityPolicy.sameName, Bool.and_eq_true, beq_iff_eq] at hs
      exact hs.1
  have hmem : ∀ p, p ∈ (db.putPolicy row).policies ↔
      p = row ∨ p ∈ db.policies ∧ p.organizationId ≠ row.organizationId := by
    intro p
    unfold Db.putPolicy
    dsimp only
    split
    next hany =>
      rw [List.mem_map]
      constructor
      · rintro ⟨q, hq, rfl⟩
        split
        next => exact .inl rfl
        next hs => exact .inr ⟨hq, fun horg => hs ((hname q hq).mp horg)⟩
      · rintro (rfl | ⟨hp, horg⟩)
        · obtain ⟨q, hq, hs⟩ := List.any_eq_true.mp hany
          exact ⟨q, hq, if_pos hs⟩
        · exact ⟨p, hp, if_neg fun hs => horg ((hname p hp).mpr hs)⟩
    next hnone =>
      rw [List.mem_append, List.mem_singleton]
      constructor
      · rintro (hp | rfl)
        · refine .inr ⟨hp, fun horg => hnone ?_⟩
          exact List.any_eq_true.mpr ⟨p, hp, (hname p hp).mp horg⟩
        · exact .inl rfl
      · rintro (rfl | ⟨hp, _⟩)
        · exact .inr rfl
        · exact .inl hp
  have hone : (db.putPolicy row).OnePolicy := by
    intro p hp q hq horg
    rcases (hmem p).mp hp with rfl | ⟨hp, hpo⟩
    · rcases (hmem q).mp hq with rfl | ⟨_, hqo⟩
      · rfl
      · exact absurd horg.symm hqo
    · rcases (hmem q).mp hq with rfl | ⟨hq, _⟩
      · exact absurd horg hpo
      · exact h p hp q hq horg
  refine ⟨hone, fun org => ?_⟩
  ext p
  rw [hone.read, hmem]
  split
  next horg =>
    rw [horg, Option.some_inj]
    constructor
    · rintro ⟨rfl | ⟨_, hne⟩, horg⟩
      · rfl
      · exact absurd horg hne
    · rintro rfl
      exact ⟨.inl rfl, rfl⟩
  next horg =>
    rw [h.read]
    constructor
    · rintro ⟨rfl | ⟨hp, _⟩, rfl⟩
      · exact absurd rfl horg
      · exact ⟨hp, rfl⟩
    · rintro ⟨hp, rfl⟩
      exact ⟨.inr ⟨hp, horg⟩, rfl⟩

/-! ## What a thread knows -/

/-- A policy as a register: its version stands for the whole row but the state. -/
def policyRegister : Versioned SecurityPolicy SecurityPolicy := ⟨(·.version), (·.drafted)⟩

/-- Version `n` of the organization's policy was seen, and then `F` was true of it. -/
def Seen (w : PolicyWorld) (org : OrganizationId) (n : Nat) (F : SecurityPolicy → Prop) : Prop :=
  ∃ p, w.policy org = some p ∧ policyRegister.Glimpse n F p

/-- What a thread at a stage knows of the policy. -/
def PolicyStage.Known (w : PolicyWorld) : PolicyStage → Prop
  | .saving org read => ∀ r ∈ read, Seen w org r.version (· = r.drafted)
  | .holds p => Seen w p.organizationId p.version (· = p.drafted)
  | .loaded p input => Seen w p.organizationId p.version (· = p.drafted) ∧
      Seen w p.organizationId (compileEdge input).version input.ShowsPolicy
  | .accepted p input _ => Seen w p.organizationId p.version (· = p.drafted) ∧
      Seen w p.organizationId (compileEdge input).version input.ShowsPolicy ∧
      (p.organizationId, input) ∈ w.accepted
  | _ => True

/-- No policy has gone, or back; nothing the edge accepted is forgotten. -/
structure Later (w w' : PolicyWorld) : Prop where
  policy : ∀ org p, w.policy org = some p →
    ∃ q, w'.policy org = some q ∧ policyRegister.Advance p q
  accepted : ∀ a ∈ w.accepted, a ∈ w'.accepted

theorem Seen.later {n : Nat} {F : SecurityPolicy → Prop} (h : Seen w org n F) (hl : Later w w') :
    Seen w' org n F := by
  obtain ⟨p, hp, hg⟩ := h
  obtain ⟨q, hq, ha⟩ := hl.policy org p hp
  exact ⟨q, hq, hg.advance ha⟩

/-- What is known stays known. -/
theorem PolicyStage.Known.later {x : PolicyStage} (h : x.Known w) (hl : Later w w') :
    x.Known w' := by
  cases x with
  | saving org read =>
    intro r hr
    exact (h r hr).later hl
  | holds p => exact Seen.later h hl
  | loaded p input => exact ⟨h.1.later hl, h.2.later hl⟩
  | accepted p input version => exact ⟨h.1.later hl, h.2.1.later hl, hl.accepted _ h.2.2⟩
  | _ => trivial

/-- A read of the stored row. -/
theorem seen_of_read {p : SecurityPolicy} (h : w.policy org = some p) :
    Seen w org p.version (· = p.drafted) :=
  ⟨p, h, Versioned.glimpse_of_read (V := policyRegister) rfl⟩

/-- What the loaders compile shows the stored row. -/
theorem seen_of_load {now : Int} {cache : ProtectionCache} {input : CompileInput}
    (h : (loadPolicy config w.db now cache org).1 = some input) :
    Seen w org (compileEdge input).version input.ShowsPolicy := by
  rw [loadPolicy_fst, Option.bind_eq_some_iff] at h
  obtain ⟨p, hp, hinput⟩ := h
  split at hinput
  · cases hinput
  · obtain rfl := Option.some.inj hinput
    refine ⟨p, hp, Versioned.glimpse_of_read (V := policyRegister) ⟨rfl, now, rfl⟩⟩

/-! ## One call -/

/-- The policies, and what was saved of them, are as they were. -/
structure SamePolicies (w w' : PolicyWorld) : Prop where
  policies : w'.db.policies = w.db.policies
  saved : w'.saved = w.saved
  accepted : ∀ a ∈ w.accepted, a ∈ w'.accepted

theorem SamePolicies.refl (w : PolicyWorld) : SamePolicies w w := ⟨rfl, rfl, fun _ h => h⟩

theorem SamePolicies.policy (h : SamePolicies w w') (org : OrganizationId) :
    w'.policy org = w.policy org := by
  unfold PolicyWorld.policy Db.getSecurityPolicyForService
  rw [h.policies]

theorem SamePolicies.later (h : SamePolicies w w') : Later w w' where
  policy org p hp := ⟨p, (h.policy org).trans hp, Versioned.advance_refl⟩
  accepted := h.accepted

theorem SamePolicies.kept (h : SamePolicies w w') (hk : Kept w) : Kept w' where
  content org p hp := by
    rw [h.policy] at hp
    unfold PolicyWorld.lastSaved
    rw [h.saved]
    exact hk.content org p hp
  active org p hp hs := by
    rw [h.policy] at hp
    obtain ⟨input, hmem, hshows⟩ := hk.active org p hp hs
    exact ⟨input, h.accepted _ hmem, hshows⟩

theorem SamePolicies.apply {A : Type} {f : Fault} {a : Except String A × PolicyWorld}
    (h : SamePolicies w a.2) : SamePolicies w (f.apply w a).2 := by
  rw [Fault.apply_snd]
  split
  · exact h
  · exact SamePolicies.refl w

/-- A call that is no write of the policy leaves the policies alone. -/
theorem perform_same (P : Platform) (config : EdgeConfig) (w : PolicyWorld) (o : PolicyOracle)
    {c : PolicyCall} (h : writesPolicy c = false) : SamePolicies w (w.perform P config o c).2 := by
  cases c with
  | saveSecurityPolicy input => cases h
  | queue c => exact SamePolicies.apply ⟨rfl, rfl, fun _ h => h⟩
  | recordPolicyEvent event =>
    refine SamePolicies.apply ?_
    unfold PolicyWorld.record
    split
    · exact ⟨rfl, rfl, fun _ h => h⟩
    · exact SamePolicies.refl w
  | postPolicy org input =>
    unfold PolicyWorld.perform
    dsimp only
    split
    · exact ⟨rfl, rfl, fun _ h => List.mem_cons_of_mem _ h⟩
    · exact SamePolicies.refl w
  | _ => exact SamePolicies.apply (SamePolicies.refl w)

theorem known_afterRead {r : Except String (Option SecurityPolicy)}
    (h : ∀ p, r = .ok (some p) → ∃ org, w.policy org = some p) :
    (PolicyStage.afterRead r).Known w := by
  unfold PolicyStage.afterRead
  split
  next p =>
    obtain ⟨org, hp⟩ := h p rfl
    have horg := (Db.getSecurityPolicyForService_org hp).2
    show Seen w p.organizationId p.version _
    rw [horg]
    exact seen_of_read hp
  next => trivial

section Reads

variable {o : PolicyOracle} {x x' : PolicyStage} {org : OrganizationId} {input : CompileInput}

/-- A member's read of the policy. -/
theorem known_getSecurityPolicy {user : UserId} (hx : x.Known w)
    (hsame : SamePolicies w (w.perform P config o (.getSecurityPolicy user org)).2)
    (hnext : x.next (.getSecurityPolicy user org)
      (w.perform P config o (.getSecurityPolicy user org)).1 = some x') :
    x'.Known (w.perform P config o (.getSecurityPolicy user org)).2 := by
  have hread : ∀ p, (w.perform P config o (.getSecurityPolicy user org)).1 = .ok (some p) →
      w.policy org = some p := by
    intro p hr
    exact Db.getSecurityPolicy_org (Except.ok.inj (Fault.apply_ok hr).2)
  -- the answer is all that the stage looks at
  revert hnext hread
  generalize (w.perform P config o (.getSecurityPolicy user org)).1 = r
  intro hnext hread
  cases x with
  -- no save: what is found decides whether there is anything to do
  | start saves =>
    cases saves with
    | false =>
      obtain rfl := Option.some.inj hnext
      refine known_afterRead fun p hp => ⟨org, ?_⟩
      rw [hsame.policy]
      exact hread p hp
    -- a save: what is read is what its draft will be written over
    | true =>
      cases r with
      | error e =>
        obtain rfl := Option.some.inj hnext
        trivial
      | ok read =>
        obtain rfl := Option.some.inj hnext
        rintro p rfl
        exact (seen_of_read (hread p rfl)).later hsame.later
  | _ => cases hnext

/-- The service's read: what it finds is what is held from there on, unless the thread has
what the edge accepted, which it checks against it. -/
theorem known_getSecurityPolicyForService (hx : x.Known w)
    (hsame : SamePolicies w (w.perform P config o (.getSecurityPolicyForService org)).2)
    (hnext : x.next (.getSecurityPolicyForService org)
      (w.perform P config o (.getSecurityPolicyForService org)).1 = some x') :
    x'.Known (w.perform P config o (.getSecurityPolicyForService org)).2 := by
  have hread : ∀ p, (w.perform P config o (.getSecurityPolicyForService org)).1 = .ok (some p) →
      (w.perform P config o (.getSecurityPolicyForService org)).2.policy org = some p := by
    intro p hr
    rw [hsame.policy]
    exact Except.ok.inj (Fault.apply_ok hr).2
  revert hnext hread
  generalize (w.perform P config o (.getSecurityPolicyForService org)).1 = r
  intro hnext hread
  cases x with
  | start saves =>
    cases saves with
    | false =>
      obtain rfl := Option.some.inj hnext
      exact known_afterRead fun p hp => ⟨org, hread p hp⟩
    | true => cases hnext
  | holds p =>
    obtain rfl := Option.some.inj hnext
    exact known_afterRead fun p hp => ⟨org, hread p hp⟩
  | loaded p input =>
    obtain rfl := Option.some.inj hnext
    exact known_afterRead fun p hp => ⟨org, hread p hp⟩
  -- the edge has accepted what was compiled; the row is read to be written back
  | accepted p input version =>
    obtain ⟨_, hinput, hmem⟩ := PolicyStage.Known.later hx hsame.later
    simp only [PolicyStage.next] at hnext
    split at hnext
    -- the row asked for is that of the organization that was compiled for
    next horg =>
      split at hnext
      next q =>
        obtain rfl := Option.some.inj hnext
        -- what is found is the organization's own policy
        have hq := (Db.getSecurityPolicyForService_org (hread q rfl)).2
        subst horg
        refine ⟨?_, ?_, ?_⟩ <;> rw [hq]
        · exact seen_of_read (hread q rfl)
        · exact hinput
        · exact hmem
      next =>
        obtain rfl := Option.some.inj hnext
        trivial
    next => cases hnext
  | _ => cases hnext

/-- What is compiled was loaded for the policy that is held. -/
theorem known_loadPolicy (hx : x.Known w)
    (hsame : SamePolicies w (w.perform P config o (.loadPolicy org)).2)
    (hnext : x.next (.loadPolicy org) (w.perform P config o (.loadPolicy org)).1 = some x') :
    x'.Known (w.perform P config o (.loadPolicy org)).2 := by
  cases x with
  | holds p =>
    simp only [PolicyStage.next] at hnext
    split at hnext
    next horg =>
      split at hnext
      next input hr =>
        obtain rfl := Option.some.inj hnext
        refine ⟨Seen.later hx hsame.later, ?_⟩
        rw [← horg]
        exact (seen_of_load (Except.ok.inj (Fault.apply_ok hr).2)).later hsame.later
      next =>
        obtain rfl := Option.some.inj hnext
        trivial
    next => cases hnext
  | start saves => cases saves <;> cases hnext
  | _ => cases hnext

/-- And what the edge says it accepted, it has. -/
theorem known_postPolicy (hx : x.Known w)
    (hsame : SamePolicies w (w.perform P config o (.postPolicy org input)).2)
    (hnext : x.next (.postPolicy org input) (w.perform P config o (.postPolicy org input)).1 =
      some x') :
    x'.Known (w.perform P config o (.postPolicy org input)).2 := by
  cases x with
  -- the edge is sent what was compiled for the policy that is held
  | loaded p input =>
    obtain ⟨hp, hinput⟩ := PolicyStage.Known.later hx hsame.later
    simp only [PolicyStage.next] at hnext
    split at hnext
    next hargs =>
      split at hnext
      next status echo hr =>
        obtain rfl := Option.some.inj hnext
        refine ⟨hp, hinput, ?_⟩
        -- an answer of success says that the edge took it
        have htook : o.edge.took = true := by
          have hreply : o.edge.result = .ok status echo := Except.ok.inj hr
          cases ho : o.edge with
          | refused status reason =>
            rw [ho] at hreply
            cases hreply
          | _ => rfl
        unfold PolicyWorld.perform
        dsimp only
        rw [if_pos htook, hargs.1, hargs.2]
        exact List.mem_cons_self ..
      next =>
        obtain rfl := Option.some.inj hnext
        trivial
    next => cases hnext
  | start saves => cases saves <;> cases hnext
  | _ => cases hnext

end Reads

/-- What a thread knows after a call that is no write. -/
theorem known_after {o : PolicyOracle} {c : PolicyCall} {x x' : PolicyStage}
    (hw : writesPolicy c = false) (hx : x.Known w)
    (hnext : x.next c (w.perform P config o c).1 = some x') :
    x'.Known (w.perform P config o c).2 := by
  have hsame := perform_same P config w o hw
  cases c with
  | saveSecurityPolicy input => cases hw
  | queue c =>
    have hmove : x.afterQueue c (w.perform P config o (.queue c)).1 = some x' := by
      cases x <;> exact hnext
    rcases afterQueue_cases hmove with rfl | rfl
    · exact hx.later hsame.later
    · trivial
  | recordPolicyEvent event =>
    obtain rfl : x = x' := Option.some.inj (by cases x <;> exact hnext)
    exact hx.later hsame.later
  | recordAuditEvent event org actor policy version =>
    obtain rfl : x = x' := Option.some.inj (by cases x <;> exact hnext)
    exact hx.later hsame.later
  | openSecurityIncident org severity summary =>
    obtain rfl : x = x' := Option.some.inj (by cases x <;> exact hnext)
    exact hx.later hsame.later
  | getSecurityPolicy user org => exact known_getSecurityPolicy hx hsame hnext
  | getSecurityPolicyForService org => exact known_getSecurityPolicyForService hx hsame hnext
  | loadPolicy org => exact known_loadPolicy hx hsame hnext
  | postPolicy org sent => exact known_postPolicy hx hsame hnext

/-! ## One write -/

/-- **A row put over what was read.** The row is higher than the stored one, or
the stored one made active; then the policies moved forward, and are kept. -/
theorem put_kept {row : SecurityPolicy} {saved : List SecurityPolicy}
    (hone : w.db.OnePolicy) (hk : Kept w) (haccept : w.db.acceptsPolicy w.events row = true)
    (hold : ∀ p, w.policy row.organizationId = some p →
      p.id = row.id ∧ policyRegister.Advance p row)
    (hother : ∀ org, org ≠ row.organizationId →
      saved.find? (fun p => p.organizationId == org) = w.lastSaved org)
    (hsaved : saved.find? (fun p => p.organizationId == row.organizationId) = some row.drafted)
    (hactive : row.state = .active →
      ∃ input, (row.organizationId, input) ∈ w.accepted ∧ input.ShowsPolicy row) :
    (w.db.putPolicy row).OnePolicy ∧ Kept { w with db := w.db.putPolicy row, saved } ∧
      Later w { w with db := w.db.putPolicy row, saved } := by
  -- of the organization the row is read back, and the others are as they were
  obtain ⟨hone', hread⟩ := Db.put_read hone haccept fun p hp => (hold p hp).1
  refine ⟨hone', ⟨?_, ?_⟩, ⟨?_, fun _ h => h⟩⟩
  -- what is stored is what was last saved, up to its state
  · intro org p hp
    replace hp : (w.db.putPolicy row).getSecurityPolicyForService org = some p := hp
    rw [hread] at hp
    split at hp
    next horg =>
      obtain rfl := Option.some.inj hp
      rw [horg]
      exact hsaved
    next horg => exact (hother org horg).trans (hk.content org p hp)
  -- an active row was accepted as it stands
  · intro org p hp hs
    replace hp : (w.db.putPolicy row).getSecurityPolicyForService org = some p := hp
    rw [hread] at hp
    split at hp
    next horg =>
      obtain rfl := Option.some.inj hp
      rw [horg]
      exact hactive hs
    next => exact hk.active org p hp hs
  -- and nothing goes back a version
  · intro org p hp
    by_cases horg : org = row.organizationId
    · refine ⟨row, ?_, (hold p (horg ▸ hp)).2⟩
      exact (hread org).trans (if_pos horg)
    · refine ⟨p, ?_, Versioned.advance_refl⟩
      exact ((hread org).trans (if_neg horg)).trans hp

/-- What a seen version says of the stored row under that version. -/
theorem Seen.same {n : Nat} {F : SecurityPolicy → Prop} {p : SecurityPolicy} (h : Seen w org n F)
    (hp : w.policy org = some p) (hn : p.version = n) : F p.drafted := by
  obtain ⟨q, hq, hg⟩ := h
  obtain rfl := Option.some.inj (hp.symm.trans hq)
  exact hg.2 hn.symm

theorem id_of_drafted {p q : SecurityPolicy} (h : p.drafted = q.drafted) : p.id = q.id := by
  show p.drafted.id = q.drafted.id
  rw [h]

/-- **A save's write** over the version it read. -/
theorem save_kept {read : Option SecurityPolicy} {input : PolicySave} {expiresAt : Option Int}
    (hone : w.db.OnePolicy) (hk : Kept w) (hdraft : IsDraft org read input)
    (hknown : PolicyStage.Known w (.saving org read))
    (hcurrent : (w.policy org).map (·.version) = read.map (·.version))
    (haccept : w.db.acceptsPolicy w.events (input.row expiresAt) = true) :
    (w.db.putPolicy (input.row expiresAt)).OnePolicy ∧
      Kept { w with db := w.db.putPolicy (input.row expiresAt),
                    saved := input.row expiresAt :: w.saved } ∧
      Later w { w with db := w.db.putPolicy (input.row expiresAt),
                       saved := input.row expiresAt :: w.saved } := by
  obtain ⟨rfl, hstate, hread⟩ := hdraft
  -- a draft is its own draft
  have hdrafted : (input.row expiresAt).drafted = input.row expiresAt := by
    unfold SecurityPolicy.drafted PolicySave.row
    rw [hstate]
  refine put_kept hone hk haccept ?_ ?_ ?_ ?_
  -- over a row there is the version is one higher, and the id the same
  · intro p hp
    replace hp : w.policy input.organizationId = some p := hp
    rw [hp] at hcurrent
    cases read with
    | none => cases hcurrent
    | some r =>
      have hv : p.version = r.version := Option.some.inj hcurrent
      have hsame : p.drafted = r.drafted := (hknown r rfl).same hp hv
      refine ⟨?_, .inl ?_⟩
      · show p.id = input.id
        rw [hread.1]
        exact id_of_drafted hsame
      · show p.version < input.version
        have := hread.2
        omega
  -- the others' last saves are behind it in the list
  · intro org' horg
    exact List.find?_cons_of_neg (by simpa [PolicySave.row] using fun h => horg h.symm)
  · rw [List.find?_cons_of_pos (by simp), hdrafted]
  -- a draft is not active
  · intro hactive
    replace hactive : input.state = .active := hactive
    rw [hstate] at hactive
    cases hactive

theorem activation_row {p : SecurityPolicy} {version : Nat} {actor : UserId} :
    Expiry.column P (activation p version actor).protectionExpiresAt = some p.protectionExpiresAt ∧
      (activation p version actor).row p.protectionExpiresAt =
        { p with state := .active, version := version } := by
  refine ⟨?_, rfl⟩
  unfold activation
  dsimp only
  cases p.protectionExpiresAt <;> rfl

/-- **An activation's write** over the version that was read and sent. -/
theorem activation_kept {p : SecurityPolicy} {input : CompileInput} {version : Nat}
    (hone : w.db.OnePolicy) (hk : Kept w)
    (hknown : PolicyStage.Known w (.accepted p input version))
    (hcurrent : PolicyStage.Current w (.accepted p input version))
    (haccept : w.db.acceptsPolicy w.events { p with state := .active, version := version } = true) :
    (w.db.putPolicy { p with state := .active, version := version }).OnePolicy ∧
      Kept { w with db := w.db.putPolicy { p with state := .active, version := version } } ∧
      Later w { w with db := w.db.putPolicy { p with state := .active, version := version } } := by
  obtain ⟨hp, hinput, hmem⟩ := hknown
  obtain ⟨hstored, rfl, hsent⟩ := hcurrent
  obtain ⟨q, hq, hv⟩ := Option.map_eq_some_iff.mp hstored
  have hsame : q.drafted = p.drafted := hp.same hq hv
  have hshows : input.ShowsPolicy q.drafted := hinput.same hq (hv.trans hsent.symm)
  refine @put_kept _ _ w.saved hone hk haccept ?_ ?_ ?_ ?_
  · intro q' hq'
    obtain rfl := Option.some.inj (hq.symm.trans hq')
    exact ⟨id_of_drafted hsame, .inr ⟨hv, hsame⟩⟩
  · intro org' _
    rfl
  · exact (hk.content _ q hq).trans (congrArg some hsame)
  · intro _
    rw [hsame] at hshows
    exact ⟨input, hmem, hshows⟩

/-! ## Runs -/

/-- What carries the proof: bookkeeping, one row an organization, the kept
policies, and what each thread knows. -/
structure Steady (s : PolicySys) : Prop where
  sane : s.Sane
  typed : s.Typed policyDuty
  one : s.world.db.OnePolicy
  kept : Kept s.world
  known : ∀ tid x, policyStage s tid = some x → x.Known s.world

theorem known_first (t : PolicyTask) : (PolicyTask.first t).Known w := by
  cases t <;> trivial

/-- A step after which the policies are kept and nothing has gone back. -/
theorem steady_of_later (h : Steady s) (l : PolicyMove)
    (hone : ((policyHost P config).step s l).world.db.OnePolicy)
    (hkept : Kept ((policyHost P config).step s l).world)
    (hlater : Later s.world ((policyHost P config).step s l).world)
    (hstage : ∀ tid x, policyStage ((policyHost P config).step s l) tid = some x →
      policyStage s tid = some x ∨ x.Known ((policyHost P config).step s l).world) :
    Steady ((policyHost P config).step s l) ∧ Forward P config s l := by
  refine ⟨⟨sane_step _ h.sane l, ?_, hone, hkept, ?_⟩, ?_⟩
  · exact typed_step (policyTask_follows P config) (policy_answers P config s.world) h.typed l
  · intro tid x hx
    rcases hstage tid x hx with hwas | hknown
    · exact (h.known tid x hwas).later hlater
    · exact hknown
  · intro org p hp
    obtain ⟨q, hq, ha⟩ := hlater.policy org p hp
    exact ⟨q, hq, ha.version_le⟩

/-- A write's effect: none, or the row it carries. -/
theorem save_cases (P : Platform) (w : PolicyWorld) (input : PolicySave) :
    (w.save P input).2 = w ∨ ∃ expiresAt,
      Expiry.column P input.protectionExpiresAt = some expiresAt ∧
      w.db.acceptsPolicy w.events (input.row expiresAt) = true ∧
      (w.save P input).2 = { w with
        db := w.db.putPolicy (input.row expiresAt)
        saved := if input.state = .draft then input.row expiresAt :: w.saved else w.saved } := by
  unfold PolicyWorld.save
  cases Expiry.column P input.protectionExpiresAt with
  | none => exact .inl rfl
  | some expiresAt =>
    dsimp only
    split
    next haccept => exact .inr ⟨expiresAt, rfl, haccept, rfl⟩
    next => exact .inl rfl

/-- **A write** over the version its thread read keeps the policies. -/
theorem write_kept {o : PolicyOracle} {input : PolicySave} {x x' : PolicyStage}
    {r : Except String SecurityPolicy} (hone : w.db.OnePolicy) (hk : Kept w) (hx : x.Known w)
    (hnext : x.next (.saveSecurityPolicy input) r = some x') (hcurrent : o.fault.Lands → x.Current w) :
    x' = .over ∧ (w.perform P config o (.saveSecurityPolicy input)).2.db.OnePolicy ∧
      Kept (w.perform P config o (.saveSecurityPolicy input)).2 ∧
      Later w (w.perform P config o (.saveSecurityPolicy input)).2 := by
  have hnone : w.db.OnePolicy ∧ Kept w ∧ Later w w :=
    ⟨hone, hk, (SamePolicies.refl w).later⟩
  -- a write that does not land leaves everything
  have hperform : (w.perform P config o (.saveSecurityPolicy input)).2 =
      if o.fault.Lands then (w.save P input).2 else w := Fault.apply_snd ..
  rw [hperform]
  cases x with
  -- a member's draft
  | saving org read =>
    simp only [PolicyStage.next] at hnext
    split at hnext
    next hdraft =>
      -- over the version that was read, since it is the current one
      refine ⟨(Option.some.inj hnext).symm, ?_⟩
      split
      next hl =>
        rcases save_cases P w input with hsame | ⟨expiresAt, _, haccept, hrow⟩
        · rw [hsame]
          exact hnone
        · rw [hrow, if_pos hdraft.2.1]
          exact save_kept hone hk hdraft hx (hcurrent hl) haccept
      next => exact hnone
    next => cases hnext
  -- the worker's row, made active
  | accepted p sent version =>
    simp only [PolicyStage.next] at hnext
    split at hnext
    next hactivation =>
      refine ⟨(Option.some.inj hnext).symm, ?_⟩
      split
      next hl =>
        rcases save_cases P w input with hsame | ⟨expiresAt, hcolumn, haccept, hrow⟩
        · rw [hsame]
          exact hnone
        · rw [hactivation] at hcolumn haccept hrow
          obtain rfl := Option.some.inj (activation_row.1.symm.trans hcolumn)
          rw [activation_row (P := P).2] at haccept hrow
          rw [hactivation, hrow]
          exact activation_kept hone hk hx (hcurrent hl) haccept
      next => exact hnone
    next => cases hnext
  | start saves => cases saves <;> cases hnext
  | _ => cases hnext

/-- **Step.** An undisturbed step keeps the policies, and takes no version back. -/
theorem steady_step (h : Steady s) (l : PolicyMove) (hl : Undisturbed s l) :
    Steady ((policyHost P config).step s l) ∧ Forward P config s l := by
  -- nothing happens to the policies, or a thread makes a call
  rcases step_cases h.sane h.typed (policy_answers P config s.world) l with
    hs | ⟨tid, o, c, x, x', rfl, hc⟩
  · have hsame : SamePolicies s.world ((policyHost P config).step s l).world := by
      rcases hs.world with hw | ⟨d, hw⟩
      · rw [hw]
        exact SamePolicies.refl _
      · rw [hw]
        cases d <;> exact ⟨rfl, rfl, fun _ h => h⟩
    refine steady_of_later h l ?_ (hsame.kept h.kept) hsame.later ?_
    · unfold Db.OnePolicy
      rw [hsame.policies]
      exact h.one
    · intro i y hy
      rcases hs.stage i y hy with hwas | ⟨_, t, rfl⟩
      · exact .inl hwas
      · exact .inr (known_first t)
  · have hx := h.known tid x hc.was
    -- what the other threads know they go on knowing
    have hothers : ∀ i y, policyStage ((policyHost P config).step s (.exec tid o)) i = some y →
        policyStage s i = some y ∨ y = x' := by
      intro i y hy
      rcases hc.stage_after hy with ⟨_, rfl⟩ | ⟨_, hwas⟩
      · exact .inr rfl
      · exact .inl hwas
    -- a call that is no write changes at most what its own thread knows
    cases hwrites : writesPolicy c with
    | false =>
      have hsame := perform_same P config s.world o hwrites
      have hknown := known_after hwrites hx hc.moves
      have hw : ((policyHost P config).step s (.exec tid o)).world =
          (s.world.perform P config o c).2 := hc.world
      rw [← hw] at hsame hknown
      refine steady_of_later h _ ?_ (hsame.kept h.kept) hsame.later ?_
      · unfold Db.OnePolicy
        rw [hsame.policies]
        exact h.one
      · intro i y hy
        rcases hothers i y hy with hwas | rfl
        · exact .inl hwas
        · exact .inr hknown
    | true =>
      cases c with
      | saveSecurityPolicy input =>
        -- a write that lands is of a thread whose version is the current one
        have hcurrent : o.fault.Lands → x.Current s.world := by
          intro hlands
          refine hl ?_ hlands x hc.was
          rw [hc.pending]
          rfl
        obtain ⟨rfl, hone, hkept, hlater⟩ :=
          (@write_kept P config) h.one h.kept hx hc.moves hcurrent
        have hw : ((policyHost P config).step s (.exec tid o)).world =
            (s.world.perform P config o (.saveSecurityPolicy input)).2 := hc.world
        rw [← hw] at hone hkept hlater
        refine steady_of_later h _ hone hkept hlater ?_
        intro i y hy
        rcases hothers i y hy with hwas | rfl
        · exact .inl hwas
        · exact .inr trivial
      | _ => cases hwrites

theorem steady_start (now : Instant) (db : Db) : Steady (Sys.start (PolicyWorld.initial now db)) where
  sane := sane_start _
  typed := typed_start _ _
  one _ hp := absurd hp List.not_mem_nil
  kept := by
    constructor <;> intro org p hp <;> cases hp
  known _ _ hx := by cases hx

/-- **Run.** In a run in which every write meets the version its thread read, and
an activation the version that was sent, no stored version goes down, the stored
row is the draft saved last, and an active row is one the edge accepted. -/
theorem policy_kept (P : Platform) (config : EdgeConfig) (now : Instant) (db : Db)
    (ls : List PolicyMove)
    (h : EachStep (policyHost P config).step Undisturbed
      (Sys.start (PolicyWorld.initial now db)) ls) :
    EachStep (policyHost P config).step (Forward P config)
        (Sys.start (PolicyWorld.initial now db)) ls ∧
      Always (policyHost P config).step (fun s => Kept s.world)
        (Sys.start (PolicyWorld.initial now db)) ls := by
  have hstart := steady_start now db
  constructor
  · exact eachStep_of_inv hstart (fun s l hs hl => (steady_step hs l hl).1)
      (fun s l hs hl => (steady_step hs l hl).2) h
  · exact always_of_inv hstart (fun s l hs hl => (steady_step hs l hl).1) (fun s hs => hs.kept) h

/-! One member at work on one policy. -/

/-- A policy is saved, distributed at once, saved again, and distributed by a job. -/
def orderlyRun : List PolicyMove :=
  .spawn (.save firstOwner (policyForm "log") 3) :: policyCalls 0 5 ++
    .spawn (.distribute false firstOwner 1) :: policyCalls 1 6 ++
    .spawn (.save firstOwner (policyForm "block") 4) :: policyCalls 2 5 ++
    .spawn (.distribute true firstOwner 1) :: policyCalls 3 3 ++
    .spawn (.work { workerId := "worker" }) :: policyCalls 4 10

theorem policy_kept_orderly :
    EachStep (policyHost plainPlatform edgeConfig).step (Forward plainPlatform edgeConfig)
        (Sys.start (PolicyWorld.initial 0 shop)) orderlyRun ∧
      Always (policyHost plainPlatform edgeConfig).step (fun s => Kept s.world)
        (Sys.start (PolicyWorld.initial 0 shop)) orderlyRun :=
  policy_kept plainPlatform edgeConfig 0 shop orderlyRun (by decide +kernel)

/-- Version 1 is saved and sent to the edge; before it is written back as active,
version 2 is saved. -/
def beforeOvertaken : List PolicyMove :=
  .spawn (.save firstOwner (policyForm "log") 3) :: policyCalls 0 5 ++
    .spawn (.distribute false firstOwner 1) :: policyCalls 1 3 ++
    .spawn (.save firstOwner (policyForm "block") 4) :: policyCalls 2 5

/-- Then the write lands. -/
def overtakenRun : List PolicyMove := beforeOvertaken ++ [.exec 1 accepting]

/-- The write takes the version back, and the older content with it. -/
theorem overtaken_policy :
    ¬ EachStep (policyHost plainPlatform edgeConfig).step (Forward plainPlatform edgeConfig)
        (Sys.start (PolicyWorld.initial 0 shop)) overtakenRun ∧
      ¬ Always (policyHost plainPlatform edgeConfig).step (fun s => Kept s.world)
        (Sys.start (PolicyWorld.initial 0 shop)) overtakenRun := by
  have hbefore : (runFrom (policyHost plainPlatform edgeConfig).step
      (Sys.start (PolicyWorld.initial 0 shop)) beforeOvertaken).world.policy 1 =
      some ⟨3, 1, "main", .high, .block, .draft, .normal, none, 2⟩ := by decide +kernel
  have hafter : (runFrom (policyHost plainPlatform edgeConfig).step
      (Sys.start (PolicyWorld.initial 0 shop)) overtakenRun).world.policy 1 =
      some ⟨3, 1, "main", .high, .log, .active, .normal, none, 1⟩ := by decide +kernel
  have hsaved : (runFrom (policyHost plainPlatform edgeConfig).step
      (Sys.start (PolicyWorld.initial 0 shop)) overtakenRun).world.lastSaved 1 =
      some ⟨3, 1, "main", .high, .block, .draft, .normal, none, 2⟩ := by decide +kernel
  constructor
  · intro h
    obtain ⟨q, hq, hle⟩ := EachStep.at h 1 _ hbefore
    rw [overtakenRun, runFrom_append] at hafter
    obtain rfl := Option.some.inj (hafter.symm.trans hq)
    exact absurd hle (by decide)
  · intro h
    have hkept := always_iff_prefixes.mp h overtakenRun [] (List.append_nil _).symm
    have hcontent := hkept.content 1 _ hafter
    rw [hsaved] at hcontent
    exact absurd hcontent (by decide)

end Security

end CloudWai
