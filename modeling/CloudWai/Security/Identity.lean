import CloudWai.Security.Rewind

/-!
# One policy, one id, any name

The table of policies has two keys: its id, and the name within an organization.
`saveSecurityPolicy` carries the id of the row it read and lets the upsert find
the row by its name. So a new name is no rename: the statement inserts, with an
id that is taken, and is refused. And of two first saves at once, each brings an
id of its own: under one name the later takes the earlier's row and gives it the
other id, under two names both rows stay.

`rows_iff` says which writes are safe: those that find the organization's row
under the id and the name they carry, or no row and their id unused. As long as
every write is one of these, an organization has at most one row, under one id,
and no key refuses a write or the event that follows it.

What an event may refer to is what its thread has read or written, so a thread's
stage here is the list of ids it has seen.

About the upsert of `saveSecurityPolicy` in `packages/database/src/supabase-store.ts`, as
`Policy.lean` has it.
-/

namespace CloudWai

namespace Security

open Base Queue

variable {P : Platform} {config : EdgeConfig} {w w' : PolicyWorld} {s : PolicySys}
  {org : OrganizationId} {α β : Type}

/-! ## What is asked of a step -/

/-- No key of the tables refuses the statement, and what a save wrote is what is
read of its organization. A time the column cannot hold is the caller's mistake. -/
def Served (P : Platform) (w : PolicyWorld) : PolicyCall → Prop
  | .saveSecurityPolicy input =>
    match Expiry.column P input.protectionExpiresAt with
    | none => True
    | some expiresAt => (w.save P input).1 = .ok (input.row expiresAt) ∧
        (w.save P input).2.policy input.organizationId = some (input.row expiresAt)
  | .recordPolicyEvent event => (w.record event).1 = .ok ()
  | _ => True

/-- Every organization keeps its row, under its id, and gets no second; and a
statement that reaches the database is served. -/
structure RowKept (P : Platform) (config : EdgeConfig) (s : PolicySys) (l : PolicyMove) : Prop where
  one : (((policyHost P config).step s l).world.db.policies.map (·.organizationId)).Nodup
  row : ∀ org p, s.world.policy org = some p →
    ∃ q, ((policyHost P config).step s l).world.policy org = some q ∧ q.id = p.id
  served : ∀ tid o, l = .exec tid o → o.fault.Lands →
    ∀ c, s.pending tid = some c → Served P s.world c

/-! ## The condition -/

/-- The organization's row has this id and this name, or there is none and the id
is new. -/
def Db.Fits (db : Db) (org : OrganizationId) (id : Nat) (name : String) : Prop :=
  match db.getSecurityPolicyForService org with
  | none => ∀ p ∈ db.policies, p.id ≠ id
  | some p => p.id = id ∧ p.name = name

instance (db : Db) (org : OrganizationId) (id : Nat) (name : String) :
    Decidable (db.Fits org id name) := by
  unfold Db.Fits
  split <;> infer_instance

/-- A write fits the table. -/
def FitsCall (P : Platform) (w : PolicyWorld) : PolicyCall → Prop
  | .saveSecurityPolicy input => (Expiry.column P input.protectionExpiresAt).isSome →
      w.db.Fits input.organizationId input.id input.name
  | _ => True

instance (P : Platform) (w : PolicyWorld) : (c : PolicyCall) → Decidable (FitsCall P w c)
  | .saveSecurityPolicy _ => inferInstanceAs (Decidable (_ → _))
  | .queue _ => isTrue trivial
  | .getSecurityPolicy .. => isTrue trivial
  | .getSecurityPolicyForService _ => isTrue trivial
  | .recordPolicyEvent _ => isTrue trivial
  | .recordAuditEvent .. => isTrue trivial
  | .openSecurityIncident .. => isTrue trivial
  | .loadPolicy _ => isTrue trivial
  | .postPolicy .. => isTrue trivial

/-- If the step is a write that takes effect, it fits. -/
def Fitting (P : Platform) (s : PolicySys) : PolicyMove → Prop
  | .exec tid o => o.fault.Lands → ∀ c ∈ s.pending tid, FitsCall P s.world c
  | _ => True

instance (P : Platform) (s : PolicySys) : (l : PolicyMove) → Decidable (Fitting P s l)
  | .exec _ _ => inferInstanceAs (Decidable (_ → ∀ c ∈ _, _))
  | .spawn _ => isTrue trivial
  | .crash _ => isTrue trivial
  | .drift _ => isTrue trivial

/-! ## Which ids a thread has seen -/

/-- The ids seen after a call. An event may be about one of them only. -/
def seeIds (ids : List Nat) : (c : PolicyCall) → Except String c.Ans → Option (List Nat)
  | .getSecurityPolicy .., .ok (some p) => some (p.id :: ids)
  | .getSecurityPolicyForService _, .ok (some p) => some (p.id :: ids)
  | .saveSecurityPolicy _, .ok p => some (p.id :: ids)
  | .recordPolicyEvent event, _ => if event.policyId ∈ ids then some ids else none
  | _, _ => some ids

/-- The ids that a program has seen. -/
def idProtocol : Protocol PolicyCall PolicyCall.Ans String (List Nat) where
  next := seeIds
  Possible _ _ := True

def idDuty : Duty PolicyTask PolicyCall PolicyCall.Ans String (List Nat) where
  protocol := idProtocol
  first _ := []
  ends _ _ _ := True

/-- A call that records no event. -/
def NoEvent : PolicyCall → Prop
  | .recordPolicyEvent _ => False
  | _ => True

/-- Once these ids are seen, the program's events are about ids it has seen. -/
def Records (ids : List Nat) (p : PolicyProg α) : Prop :=
  ∀ seen, ids ⊆ seen → idProtocol.Follows (fun _ y => seen ⊆ y) seen p

section Records

variable {ids ids' : List Nat}

theorem records_ret (a : α) : Records ids (.ret a : PolicyProg α) :=
  fun _ _ => List.Subset.refl _

theorem records_raise (e : String) : Records ids (.raise e : PolicyProg α) :=
  fun _ _ => List.Subset.refl _

theorem records_bind {p : PolicyProg α} {k : α → PolicyProg β} (hp : Records ids p)
    (hk : ∀ a, Records ids (k a)) : Records ids (p.bind k) := by
  intro seen hseen
  refine Protocol.follows_bind (hp seen hseen) ?_ fun _ _ h => h
  intro a y hy
  exact Protocol.follows_mono (fun _ _ hz => List.Subset.trans hy hz)
    (hk a y (List.Subset.trans hseen hy))

theorem records_attempt {p : PolicyProg α} (hp : Records ids p) : Records ids p.attempt :=
  fun seen hseen => Protocol.follows_attempt (hp seen hseen)

/-- A call that is no event leaves what was seen. -/
theorem seeIds_noEvent {c : PolicyCall} (h : NoEvent c) (r : Except String c.Ans) :
    ∃ y, seeIds ids c r = some y ∧ ids ⊆ y := by
  unfold seeIds
  split
  · exact ⟨_, rfl, List.subset_cons_self ..⟩
  · exact ⟨_, rfl, List.subset_cons_self ..⟩
  · exact ⟨_, rfl, List.subset_cons_self ..⟩
  · exact h.elim
  · exact ⟨_, rfl, List.Subset.refl _⟩

theorem records_of_only {p : PolicyProg α} (h : p.Only NoEvent) : Records ids p := by
  induction p generalizing ids with
  | ret a => exact records_ret a
  | raise e => exact records_raise e
  | await c k ih =>
    intro seen hseen r _
    obtain ⟨y, hy, hsub⟩ : ∃ y, seeIds seen _ r = some y ∧ seen ⊆ y := seeIds_noEvent h.1 r
    refine ⟨y, hy, ?_⟩
    exact Protocol.follows_mono (fun _ _ hz => List.Subset.trans hsub hz)
      (ih r (h.2 r) y (List.Subset.refl _))

/-- The queue records nothing. -/
theorem records_queue (p : QueueProg PolicyJobPayload α) : Records ids (onPolicyQueue p) := by
  refine records_of_only (Prog.only_embed ?_)
  induction p with
  | ret a => trivial
  | raise e => trivial
  | await c k ih => exact ⟨trivial, ih⟩

theorem records_store {op : String} {c : PolicyCall} (h : NoEvent c) : Records ids (onStore op c) := by
  refine records_of_only ⟨h, fun r => ?_⟩
  cases r <;> trivial

/-- What follows a read may be about the row that was read. -/
theorem records_read {op : String} {user : UserId} {org : OrganizationId}
    {k : Option SecurityPolicy → PolicyProg α} (hnone : Records ids (k none))
    (hsome : ∀ p : SecurityPolicy, Records (p.id :: ids) (k (some p))) :
    Records ids ((onStore op (.getSecurityPolicy user org)).bind k) := by
  intro seen hseen r _
  rcases r with e | stored
  · exact ⟨seen, rfl, List.Subset.refl _⟩
  rcases stored with _ | p
  · exact ⟨seen, rfl, hnone seen hseen⟩
  · refine ⟨p.id :: seen, rfl, ?_⟩
    exact Protocol.follows_mono (fun _ _ h => List.Subset.trans (List.subset_cons_self ..) h)
      (hsome p _ (List.cons_subset_cons _ hseen))

theorem records_readForService {op : String} {org : OrganizationId}
    {k : Option SecurityPolicy → PolicyProg α} (hnone : Records ids (k none))
    (hsome : ∀ p : SecurityPolicy, Records (p.id :: ids) (k (some p))) :
    Records ids ((onStore op (.getSecurityPolicyForService org)).bind k) := by
  intro seen hseen r _
  rcases r with e | stored
  · exact ⟨seen, rfl, List.Subset.refl _⟩
  rcases stored with _ | p
  · exact ⟨seen, rfl, hnone seen hseen⟩
  · refine ⟨p.id :: seen, rfl, ?_⟩
    exact Protocol.follows_mono (fun _ _ h => List.Subset.trans (List.subset_cons_self ..) h)
      (hsome p _ (List.cons_subset_cons _ hseen))

/-- What follows a write may be about the row that came back. -/
theorem records_write {op : String} {input : PolicySave} {k : SecurityPolicy → PolicyProg α}
    (hk : ∀ p, Records (p.id :: ids) (k p)) :
    Records ids ((onStore op (.saveSecurityPolicy input)).bind k) := by
  intro seen hseen r _
  rcases r with e | p
  · exact ⟨seen, rfl, List.Subset.refl _⟩
  · refine ⟨p.id :: seen, rfl, ?_⟩
    exact Protocol.follows_mono (fun _ _ h => List.Subset.trans (List.subset_cons_self ..) h)
      (hk p _ (List.cons_subset_cons _ hseen))

theorem records_event {event : PolicyEvent} (h : event.policyId ∈ ids) :
    Records ids (recordPolicyEvent event) := by
  intro seen hseen r _
  refine ⟨seen, if_pos (hseen h), ?_⟩
  cases r <;> exact List.Subset.refl _

theorem records_authorize (ctx : RequestContext) (org : OrganizationId) :
    Records ids (authorize ctx org) := by
  unfold authorize
  split
  · exact records_ret _
  · exact records_raise _
  · exact records_raise _

/-! ## Every program's events are about rows it has seen -/

/-- A save's events are about the policy it has read, or made. -/
theorem records_save (P : Platform) (ctx : RequestContext) (input : SavePolicyInput) (newId : Nat) :
    Records [] (saveSecurityPolicy P ctx input newId) := by
  unfold saveSecurityPolicy
  generalize input.checked = form
  generalize validatePolicy = validate
  generalize protectionWindow P = window
  refine records_bind (records_authorize ctx _) fun _ => ?_
  rcases form with reason | ⟨name, riskLevel, action⟩
  · exact records_raise _
  refine records_bind (records_store trivial) fun existing => ?_
  refine records_bind (records_queue _) fun now => ?_
  rcases window now input existing with reason | ⟨mode, expiresAt⟩
  · exact records_raise _
  dsimp only
  split
  · exact records_raise _
  refine records_write fun saved => ?_
  refine records_bind (records_event (List.mem_cons_self ..)) fun _ => ?_
  exact records_bind (records_store trivial) fun _ => records_ret _

theorem records_rejection {p : SecurityPolicy} (hp : p.id ∈ ids) (actor : UserId)
    (status : EngineStatus) (reason : String) : Records ids (recordRejection p actor status reason) :=
  records_bind (records_event hp) fun _ =>
    records_bind (records_store trivial) fun _ => records_store trivial

theorem records_activate {p : SecurityPolicy} (hp : p.id ∈ ids) (version : Nat) (actor : UserId) :
    Records ids (activate p version actor) :=
  records_write fun _ => records_bind (records_event (List.mem_cons_of_mem _ hp)) fun _ =>
    records_bind (records_store trivial) fun _ => records_ret _

theorem records_send (config : EdgeConfig) (p : SecurityPolicy) :
    Records ids (sendPolicy config p) := by
  unfold sendPolicy
  generalize hasCredentials config = credentials
  generalize staleVersion = stale
  refine records_bind (records_store trivial) fun loaded => ?_
  rcases loaded with _ | input
  · exact records_ret _
  dsimp only
  split
  · exact records_ret _
  refine records_bind (records_of_only (Prog.only_call trivial)) fun response => ?_
  rcases response with ⟨status, echo⟩ | ⟨status, reason⟩
  · exact records_ret _
  · dsimp only
    split <;> exact records_ret _

theorem records_distribute (config : EdgeConfig) (durable : Bool) (ctx : RequestContext)
    (org : OrganizationId) : Records [] (distributeSecurityPolicy config durable ctx org) := by
  unfold distributeSecurityPolicy
  generalize validatePolicy = validate
  refine records_bind (records_authorize ctx _) fun _ => ?_
  refine records_read (records_raise _) fun p => ?_
  dsimp only
  split
  · exact records_raise _
  · exact records_raise _
  split
  · exact records_bind (records_queue _) fun _ =>
      records_bind (records_store trivial) fun _ => records_ret _
  · refine records_bind (records_send config p) fun applied => ?_
    rcases applied with ⟨status, version⟩ | ⟨status, reason⟩
    · exact records_bind (records_activate (List.mem_cons_self ..) _ _) fun _ => records_ret _
    · exact records_bind (records_rejection (List.mem_cons_self ..) _ _ _) fun _ => records_ret _

theorem records_handler (config : EdgeConfig) (payload : PolicyJobPayload) (job : JobContext) :
    Records ids (policyJobHandler config payload job) := by
  unfold policyJobHandler
  generalize validatePolicy = validate
  refine records_bind (records_store trivial) fun stored => ?_
  split
  · exact records_ret _
  split
  · exact records_ret _
  · exact records_ret _
  refine records_bind (records_send config _) fun applied => ?_
  rcases applied with ⟨status, version⟩ | ⟨status, reason⟩ <;> exact records_ret _

theorem records_applier (job : Job PolicyJobPayload) (result : AdapterResult PolicyExecutionResult) :
    Records ids (policyApplier job result) := by
  unfold policyApplier
  split
  · exact records_ret _
  refine records_readForService (records_ret _) fun p => ?_
  split
  · exact records_ret _
  next q hq =>
    obtain rfl : p = q := Option.some.inj (Option.filter_eq_some_iff.mp hq).1
    rcases result with ⟨status, value⟩ | ⟨status, reason⟩
    · exact records_bind (records_activate (List.mem_cons_self ..) _ _) fun _ => records_ret _
    · exact records_rejection (List.mem_cons_self ..) _ _ _

theorem records_settle (job : Job PolicyJobPayload) (outcome : JobOutcome)
    (result : AdapterResult PolicyExecutionResult) :
    Records ids (InProcessWorker.settle policyApplier job outcome result) :=
  records_bind (records_attempt (records_applier job result)) fun _ => records_ret _

theorem records_finish (options : WorkerOptions) (job : Job PolicyJobPayload)
    (result : AdapterResult PolicyExecutionResult) :
    Records ids (InProcessWorker.finish policyPort options policyApplier job result) := by
  unfold InProcessWorker.finish
  dsimp only
  split
  · exact records_bind (records_queue _) fun _ => records_settle job _ _
  split
  · refine records_bind (records_queue _) fun now => ?_
    split <;> exact records_bind (records_queue _) fun _ => records_settle job _ _
  split <;> exact records_bind (records_queue _) fun _ => records_settle job _ _

theorem records_deliver (config : EdgeConfig) (options : WorkerOptions)
    (job : Job PolicyJobPayload) : Records ids
      (InProcessWorker.deliver policyPort options (policyHandlers config) policyApplier job) := by
  unfold InProcessWorker.deliver policyHandlers
  split
  next => exact records_bind (records_queue _) fun _ => records_settle job _ _
  next handler hkind =>
    obtain rfl : policyJobHandler config = handler := by
      split at hkind
      · exact Option.some.inj hkind
      · cases hkind
    refine records_bind (records_attempt (records_handler config _ _)) fun r => ?_
    rcases r with reason | result
    · exact records_bind (records_queue _) fun _ => records_settle job _ _
    · exact records_finish options job result

/-- **Every program's events** are about rows it has seen. -/
theorem policyTask_records (P : Platform) (config : EdgeConfig) (t : PolicyTask) :
    Records [] (t.body P config) := by
  cases t with
  | save ctx input newId =>
    exact records_bind (records_save P ctx input newId) fun _ => records_ret _
  | distribute durable ctx org =>
    exact records_bind (records_distribute config durable ctx org) fun _ => records_ret _
  | work options =>
    refine records_bind ?_ fun _ => records_ret _
    refine records_bind (records_queue _) fun claimed => ?_
    rcases claimed with _ | job
    · exact records_ret _
    · exact records_bind (records_deliver config options job) fun _ => records_ret _
  | reap =>
    exact records_bind (records_queue _) fun _ =>
      records_bind (records_queue _) fun _ => records_ret _

end Records

theorem policyTask_sees (P : Platform) (config : EdgeConfig) (t : PolicyTask) :
    idDuty.protocol.Follows (idDuty.ends t) (idDuty.first t) ((policyHost P config).body t) :=
  Protocol.follows_mono (fun _ _ _ => trivial) (policyTask_records P config t [] (List.Subset.refl _))

/-! ## The table under one write -/

/-- No organization has two rows, and no id is used twice. -/
structure Db.Keyed (db : Db) : Prop where
  orgs : (db.policies.map (·.organizationId)).Nodup
  ids : (db.policies.map (·.id)).Nodup

theorem Db.Keyed.one {db : Db} (h : db.Keyed) : db.OnePolicy :=
  fun _ hp _ hq => List.inj_on_of_nodup_map h.orgs hp hq

theorem Db.Keyed.of_id {db : Db} (h : db.Keyed) {p q : SecurityPolicy} (hp : p ∈ db.policies)
    (hq : q ∈ db.policies) (hid : p.id = q.id) : p = q :=
  List.inj_on_of_nodup_map h.ids hp hq hid

theorem sameName_iff {row p : SecurityPolicy} :
    row.sameName p = true ↔ p.organizationId = row.organizationId ∧ p.name = row.name := by
  simp [SecurityPolicy.sameName]

variable {db : Db} {events : List PolicyEvent} {row : SecurityPolicy}

/-- A row that fits is accepted. -/
theorem Db.Fits.accepted (events : List PolicyEvent) (hk : db.Keyed)
    (h : db.Fits row.organizationId row.id row.name) :
    db.acceptsPolicy events row = true := by
  refine List.all_eq_true.mpr fun p hp => ?_
  unfold Db.Fits at h
  split at h
  next hnone =>
    have hne : ¬ row.sameName p = true := by
      intro hs
      have hread := hk.one.read.mpr ⟨hp, (sameName_iff.mp hs).1⟩
      rw [hnone] at hread
      cases hread
    rw [if_neg hne]
    simpa using h p hp
  next q hq =>
    obtain ⟨hmem, horg⟩ := Db.getSecurityPolicyForService_org hq
    split
    next hs =>
      obtain rfl := hk.one p hp q hmem ((sameName_iff.mp hs).1.trans horg.symm)
      simp [h.1]
    next hs =>
      have hne : p.id ≠ row.id := by
        intro hid
        obtain rfl := hk.of_id hp hmem (hid.trans h.1.symm)
        exact hs (sameName_iff.mpr ⟨horg, h.2⟩)
      simpa using hne

/-- The row in whose place a row that fits goes has the same keys. -/
theorem Db.Fits.same (hk : db.Keyed) (h : db.Fits row.organizationId row.id row.name)
    {p : SecurityPolicy} (hp : p ∈ db.policies) (horg : p.organizationId = row.organizationId) :
    p.id = row.id ∧ p.name = row.name := by
  unfold Db.Fits at h
  rw [hk.one.read.mpr ⟨hp, horg⟩] at h
  exact h

/-- **A row that fits** takes its organization's place in the table, or a new one. -/
theorem Db.Fits.put (hk : db.Keyed) (h : db.Fits row.organizationId row.id row.name) :
    (db.putPolicy row).Keyed ∧ ∀ org, (db.putPolicy row).getSecurityPolicyForService org =
      if org = row.organizationId then some row else db.getSecurityPolicyForService org := by
  refine ⟨?_, ?_⟩
  · unfold Db.putPolicy
    by_cases hany : db.policies.any row.sameName = true
    · have hput : ∀ p ∈ db.policies, ∀ q, q = (if row.sameName p then row else p) →
          q.organizationId = p.organizationId ∧ q.id = p.id := by
        intro p hp q hq
        split at hq
        next hs =>
          have horg := (sameName_iff.mp hs).1
          exact ⟨hq ▸ horg.symm, hq ▸ (h.same hk hp horg).1.symm⟩
        next => exact ⟨hq ▸ rfl, hq ▸ rfl⟩
      have horgs : (db.policies.map fun p => if row.sameName p then row else p).map
          (·.organizationId) = db.policies.map (·.organizationId) := by
        rw [List.map_map]
        exact List.map_congr_left fun p hp => (hput p hp _ rfl).1
      have hids : (db.policies.map fun p => if row.sameName p then row else p).map (·.id) =
          db.policies.map (·.id) := by
        rw [List.map_map]
        exact List.map_congr_left fun p hp => (hput p hp _ rfl).2
      rw [if_pos hany]
      exact ⟨horgs ▸ hk.orgs, hids ▸ hk.ids⟩
    · -- nothing of the name: nothing of the organization
      have hfree : ∀ p ∈ db.policies, p.organizationId ≠ row.organizationId := by
        intro p hp horg
        refine hany (List.any_eq_true.mpr ⟨p, hp, ?_⟩)
        exact sameName_iff.mpr ⟨horg, (h.same hk hp horg).2⟩
      have hnew : ∀ p ∈ db.policies, p.id ≠ row.id := by
        intro p hp
        have haccept := List.all_eq_true.mp (h.accepted [] hk) p hp
        rw [if_neg fun hs => hfree p hp (sameName_iff.mp hs).1] at haccept
        simpa using haccept
      rw [if_neg hany]
      constructor
      · show ((db.policies ++ [row]).map (·.organizationId)).Nodup
        simp only [List.map_append, List.map_cons, List.map_nil]
        refine hk.orgs.append (List.nodup_singleton _) ?_
        simpa [List.disjoint_singleton] using hfree
      · show ((db.policies ++ [row]).map (·.id)).Nodup
        simp only [List.map_append, List.map_cons, List.map_nil]
        refine hk.ids.append (List.nodup_singleton _) ?_
        simpa [List.disjoint_singleton] using hnew
  · refine (Db.put_read hk.one (h.accepted [] hk) ?_).2
    intro p hp
    obtain ⟨hmem, horg⟩ := Db.getSecurityPolicyForService_org hp
    exact (h.same hk hmem horg).1

/-- **Conversely**, a row that is accepted and afterwards read of its organization,
whose earlier row, if it had one, is still read under its id, fits. -/
theorem fits_of_kept (hk : db.Keyed) (haccept : db.acceptsPolicy events row = true)
    (hread : (db.putPolicy row).getSecurityPolicyForService row.organizationId = some row)
    (hkept : ∀ p, db.getSecurityPolicyForService row.organizationId = some p →
      ∃ q, (db.putPolicy row).getSecurityPolicyForService row.organizationId = some q ∧ q.id = p.id) :
    db.Fits row.organizationId row.id row.name := by
  unfold Db.Fits
  split
  next hnone =>
    intro p hp
    have hok := List.all_eq_true.mp haccept p hp
    have hne : ¬ row.sameName p = true := by
      intro hs
      have hthere := hk.one.read.mpr ⟨hp, (sameName_iff.mp hs).1⟩
      rw [hnone] at hthere
      cases hthere
    rw [if_neg hne] at hok
    simpa using hok
  next p hp =>
    obtain ⟨q, hq, hid⟩ := hkept p hp
    obtain rfl : row = q := Option.some.inj (hread.symm.trans hq)
    refine ⟨hid.symm, ?_⟩
    have hok := List.all_eq_true.mp haccept p (Db.getSecurityPolicyForService_org hp).1
    by_contra hname
    rw [if_neg fun hs => hname (sameName_iff.mp hs).2] at hok
    simp [hid] at hok

/-! ## One call -/

/-- Every organization with a row keeps it under its id, and the keys hold. -/
structure Onward (w w' : PolicyWorld) : Prop where
  keyed : w'.db.Keyed
  row : ∀ org p, w.policy org = some p → ∃ q, w'.policy org = some q ∧ q.id = p.id

theorem onward_refl (hk : w.db.Keyed) : Onward w w := ⟨hk, fun _ p hp => ⟨p, hp, rfl⟩⟩

theorem SamePolicies.onward (h : SamePolicies w w') (hk : w.db.Keyed) : Onward w w' where
  keyed := by
    constructor <;> rw [h.policies]
    · exact hk.orgs
    · exact hk.ids
  row org p hp := ⟨p, (h.policy org).trans hp, rfl⟩

/-- An id in the table stays in the table. -/
theorem Onward.id_stays (h : Onward w w') (hk : w.db.Keyed) {p : SecurityPolicy}
    (hp : p ∈ w.db.policies) : ∃ q ∈ w'.db.policies, q.id = p.id := by
  obtain ⟨q, hq, hid⟩ := h.row p.organizationId p (hk.one.read.mpr ⟨hp, rfl⟩)
  exact ⟨q, (Db.getSecurityPolicyForService_org hq).1, hid⟩

theorem putPolicy_mem (db : Db) (row : SecurityPolicy) : row ∈ (db.putPolicy row).policies := by
  unfold Db.putPolicy
  dsimp only
  split
  next hany =>
    obtain ⟨p, hp, hs⟩ := List.any_eq_true.mp hany
    exact List.mem_map.mpr ⟨p, hp, if_pos hs⟩
  next => exact List.mem_append_right _ (List.mem_singleton_self _)

/-- A write that fits is served, and takes nothing back. -/
theorem save_fits {input : PolicySave} (hk : w.db.Keyed)
    (hfit : FitsCall P w (.saveSecurityPolicy input)) :
    Served P w (.saveSecurityPolicy input) ∧ Onward w (w.save P input).2 := by
  unfold Served PolicyWorld.save
  dsimp only
  cases hcolumn : Expiry.column P input.protectionExpiresAt with
  | none => exact ⟨trivial, onward_refl hk⟩
  | some expiresAt =>
    have hfits : w.db.Fits (input.row expiresAt).organizationId (input.row expiresAt).id
      (input.row expiresAt).name := hfit (Option.isSome_iff_exists.mpr ⟨expiresAt, hcolumn⟩)
    obtain ⟨hkeyed, hread⟩ := hfits.put hk
    dsimp only
    rw [if_pos (hfits.accepted _ hk)]
    refine ⟨⟨rfl, (hread _).trans (if_pos rfl)⟩, ⟨hkeyed, fun org p hp => ?_⟩⟩
    by_cases horg : org = (input.row expiresAt).organizationId
    · obtain ⟨hmem, hown⟩ := Db.getSecurityPolicyForService_org hp
      refine ⟨_, (hread org).trans (if_pos horg), ?_⟩
      exact (hfits.same hk hmem (hown.trans horg)).1.symm
    · exact ⟨p, ((hread org).trans (if_neg horg)).trans hp, rfl⟩

/-- A write that is served and takes no row's id fits. -/
theorem fits_of_save {input : PolicySave} (hk : w.db.Keyed)
    (hserved : Served P w (.saveSecurityPolicy input))
    (hrow : ∀ org p, w.policy org = some p →
      ∃ q, (w.save P input).2.policy org = some q ∧ q.id = p.id) :
    FitsCall P w (.saveSecurityPolicy input) := by
  intro hsome
  obtain ⟨expiresAt, hcolumn⟩ := Option.isSome_iff_exists.mp hsome
  unfold Served at hserved
  dsimp only at hserved
  rw [hcolumn] at hserved
  unfold PolicyWorld.save at hserved hrow
  rw [hcolumn] at hserved hrow
  dsimp only at hserved hrow
  by_cases haccept : w.db.acceptsPolicy w.events (input.row expiresAt) = true
  · rw [if_pos haccept] at hserved hrow
    exact fits_of_kept hk haccept hserved.2 (hrow _)
  · rw [if_neg haccept] at hserved
    cases hserved.1

theorem perform_save (config : EdgeConfig) (w : PolicyWorld) (o : PolicyOracle) (input : PolicySave) :
    (w.perform P config o (.saveSecurityPolicy input)).2 =
      if o.fault.Lands then (w.save P input).2 else w :=
  Fault.apply_snd ..

/-- **Every call** that fits, where it is a write, takes nothing back. -/
theorem call_onward {o : PolicyOracle} {c : PolicyCall} (hk : w.db.Keyed)
    (hfit : o.fault.Lands → FitsCall P w c) : Onward w (w.perform P config o c).2 := by
  cases hwrites : writesPolicy c with
  | false => exact (perform_same P config w o hwrites).onward hk
  | true =>
    cases c with
    | saveSecurityPolicy input =>
      rw [perform_save]
      split
      next hlands => exact (save_fits hk (hfit hlands)).2
      next => exact onward_refl hk
    | _ => cases hwrites

/-- The row that a write answers with is in the table. -/
theorem saved_mem {input : PolicySave} {p : SecurityPolicy} (h : (w.save P input).1 = .ok p) :
    p ∈ (w.save P input).2.db.policies := by
  revert h
  unfold PolicyWorld.save
  split
  · intro h
    cases h
  dsimp only
  split
  · intro h
    obtain rfl := Except.ok.inj h
    exact putPolicy_mem ..
  · intro h
    cases h

/-- An id seen by a call is in the table after it. -/
theorem seen_after {o : PolicyOracle} {c : PolicyCall} {ids ids' : List Nat}
    (hnext : seeIds ids c (w.perform P config o c).1 = some ids') {i : Nat} (hi : i ∈ ids') :
    i ∈ ids ∨ ∃ p ∈ (w.perform P config o c).2.db.policies, p.id = i := by
  have hsame : ids = ids' → i ∈ ids ∨ ∃ p ∈ (w.perform P config o c).2.db.policies, p.id = i := by
    intro h
    exact .inl (h ▸ hi)
  have hread : ∀ p, p ∈ (w.perform P config o c).2.db.policies → p.id :: ids = ids' →
      i ∈ ids ∨ ∃ p ∈ (w.perform P config o c).2.db.policies, p.id = i := by
    intro p hp h
    rcases List.mem_cons.mp (h ▸ hi) with rfl | hold
    · exact .inr ⟨p, hp, rfl⟩
    · exact .inl hold
  cases c with
  | getSecurityPolicy user org =>
    have hpolicies := (perform_same P config w o (c := .getSecurityPolicy user org) rfl).policies
    cases hr : (w.perform P config o (.getSecurityPolicy user org)).1 with
    | error e =>
      rw [hr] at hnext
      exact hsame (Option.some.inj hnext)
    | ok stored =>
      rw [hr] at hnext
      cases stored with
      | none => exact hsame (Option.some.inj hnext)
      | some p =>
        refine hread p ?_ (Option.some.inj hnext)
        rw [hpolicies]
        exact (Db.getSecurityPolicyForService_org
          (Db.getSecurityPolicy_org (Except.ok.inj (Fault.apply_ok hr).2))).1
  | getSecurityPolicyForService org =>
    have hpolicies :=
      (perform_same P config w o (c := .getSecurityPolicyForService org) rfl).policies
    cases hr : (w.perform P config o (.getSecurityPolicyForService org)).1 with
    | error e =>
      rw [hr] at hnext
      exact hsame (Option.some.inj hnext)
    | ok stored =>
      rw [hr] at hnext
      cases stored with
      | none => exact hsame (Option.some.inj hnext)
      | some p =>
        refine hread p ?_ (Option.some.inj hnext)
        rw [hpolicies]
        exact (Db.getSecurityPolicyForService_org (Except.ok.inj (Fault.apply_ok hr).2)).1
  | saveSecurityPolicy input =>
    cases hr : (w.perform P config o (.saveSecurityPolicy input)).1 with
    | error e =>
      rw [hr] at hnext
      exact hsame (Option.some.inj hnext)
    | ok p =>
      rw [hr] at hnext
      refine hread p ?_ (Option.some.inj hnext)
      obtain ⟨hfault, hsave⟩ := Fault.apply_ok hr
      rw [perform_save, hfault, if_pos (show Fault.none.Lands from trivial)]
      exact saved_mem hsave
  | recordPolicyEvent event =>
    replace hnext : (if event.policyId ∈ ids then some ids else none) = some ids' := hnext
    split at hnext
    · exact hsame (Option.some.inj hnext)
    · cases hnext
  | _ => exact hsame (Option.some.inj hnext)

/-- An event about an id in the table is recorded. -/
theorem record_served {event : PolicyEvent} (h : ∃ p ∈ w.db.policies, p.id = event.policyId) :
    Served P w (.recordPolicyEvent event) := by
  obtain ⟨p, hp, hid⟩ := h
  show (w.record event).1 = .ok ()
  unfold PolicyWorld.record
  rw [if_pos (List.any_eq_true.mpr ⟨p, hp, by simp [hid]⟩)]

/-! ## Runs -/

/-- The ids thread `tid` has seen. -/
def seenIds (s : PolicySys) (tid : Nat) : Option (List Nat) :=
  s.stage idDuty.protocol idDuty.first tid

/-- What carries the proof: the keys hold, and what a thread has seen is there. -/
structure Rows (s : PolicySys) : Prop where
  sane : s.Sane
  typed : s.Typed idDuty
  keyed : s.world.db.Keyed
  seen : ∀ tid ids, seenIds s tid = some ids → ∀ i ∈ ids, ∃ p ∈ s.world.db.policies, p.id = i

theorem id_answers (P : Platform) (config : EdgeConfig) (w : PolicyWorld) :
    (policyHost P config).Answers idDuty w :=
  fun _ _ => trivial

theorem rows_start (now : Instant) (db : Db) : Rows (Sys.start (PolicyWorld.initial now db)) where
  sane := sane_start _
  typed := typed_start _ _
  keyed := ⟨List.nodup_nil, List.nodup_nil⟩
  seen _ _ hx := by cases hx

theorem silent_same {l : PolicyMove} (hs : Silent (policyHost P config) idDuty s l) :
    SamePolicies s.world ((policyHost P config).step s l).world := by
  rcases hs.world with hw | ⟨d, hw⟩
  · rw [hw]
    exact SamePolicies.refl _
  · rw [hw]
    cases d <;> exact ⟨rfl, rfl, fun _ h => h⟩

/-- **Step.** A fitting step takes nothing back, and what is seen is there. -/
theorem rows_step (config : EdgeConfig) (h : Rows s) (l : PolicyMove) (hl : Fitting P s l) :
    Rows ((policyHost P config).step s l) ∧
      Onward s.world ((policyHost P config).step s l).world := by
  have hon : Onward s.world ((policyHost P config).step s l).world ∧
      ∀ tid ids, seenIds ((policyHost P config).step s l) tid = some ids → ∀ i ∈ ids,
        (∃ p ∈ s.world.db.policies, p.id = i) ∨
          ∃ p ∈ ((policyHost P config).step s l).world.db.policies, p.id = i := by
    rcases step_cases h.sane h.typed (id_answers P config s.world) l with
      hs | ⟨tid, o, c, x, x', rfl, hc⟩
    · refine ⟨(silent_same hs).onward h.keyed, ?_⟩
      intro tid ids hids i hi
      rcases hs.stage tid ids hids with hwas | ⟨_, _, rfl⟩
      · exact .inl (h.seen tid ids hwas i hi)
      · cases hi
    · rw [hc.world]
      refine ⟨call_onward h.keyed fun hlands => hl hlands c hc.pending, ?_⟩
      intro j ids hids i hi
      rcases hc.stage_after hids with ⟨_, rfl⟩ | ⟨_, hwas⟩
      · rcases seen_after hc.moves hi with hold | hnew
        · exact .inl (h.seen tid x hc.was i hold)
        · exact .inr hnew
      · exact .inl (h.seen j ids hwas i hi)
  refine ⟨⟨sane_step _ h.sane l, ?_, hon.1.keyed, ?_⟩, hon.1⟩
  · exact typed_step (policyTask_sees P config) (id_answers P config s.world) h.typed l
  · intro tid ids hids i hi
    rcases hon.2 tid ids hids i hi with ⟨p, hp, rfl⟩ | hnew
    · exact hon.1.id_stays h.keyed hp
    · exact hnew

/-- An event is about a row that is there. -/
theorem event_served (h : Rows s) {tid : Nat} {event : PolicyEvent}
    (hpending : s.pending tid = some (.recordPolicyEvent event)) :
    Served P s.world (.recordPolicyEvent event) := by
  rcases exec_cases h.typed (id_answers plainPlatform edgeConfig s.world) tid accepting with
    ⟨_, hnone⟩ | ⟨c, x, x', hc⟩
  · rw [hnone] at hpending
    cases hpending
  · obtain rfl := Option.some.inj (hc.pending.symm.trans hpending)
    have hmoves : (if event.policyId ∈ x then some x else none) = some x' := hc.moves
    split at hmoves
    next hmem => exact record_served (h.seen tid x hc.was _ hmem)
    next => cases hmoves

/-- **One step** keeps every row as it should exactly if it fits. -/
theorem rowKept_iff (h : Rows s) (l : PolicyMove) : RowKept P config s l ↔ Fitting P s l := by
  constructor
  · intro hkept
    cases l with
    | exec tid o =>
      intro hlands c hc
      cases c with
      | saveSecurityPolicy input =>
        refine fits_of_save h.keyed (hkept.served tid o rfl hlands _ hc) ?_
        rcases exec_cases h.typed (id_answers P config s.world) tid o with ⟨_, hnone⟩ | ⟨c, x, x', hcall⟩
        · rw [hnone] at hc
          cases hc
        · obtain rfl := Option.some.inj (hcall.pending.symm.trans hc)
          have hw := hcall.world.trans (perform_save (P := P) config s.world o input)
          rw [if_pos hlands] at hw
          intro org p hp
          have hrow := hkept.row org p hp
          rw [hw] at hrow
          exact hrow
      | _ => trivial
    | _ => trivial
  · intro hl
    obtain ⟨hrows, hon⟩ := rows_step config h l hl
    refine ⟨hrows.keyed.orgs, hon.row, ?_⟩
    rintro tid o rfl hlands c hc
    cases c with
    | saveSecurityPolicy input => exact (save_fits h.keyed (hl hlands _ hc)).1
    | recordPolicyEvent event => exact event_served h hc
    | _ => trivial

/-- **Run.** Every step of a run keeps each organization's one row, under its id,
and has its statements served, if and only if every write of it that takes effect
finds the organization's row under the id and the name it carries, or no row. -/
theorem rows_iff (P : Platform) (config : EdgeConfig) (now : Instant) (db : Db)
    (ls : List PolicyMove) :
    EachStep (policyHost P config).step (RowKept P config)
        (Sys.start (PolicyWorld.initial now db)) ls ↔
      EachStep (policyHost P config).step (Fitting P)
        (Sys.start (PolicyWorld.initial now db)) ls :=
  eachStep_iff (rows_start now db) (fun _ l h hl => (rows_step _ h l hl).1)
    fun _ l h => rowKept_iff h l

/-! A rename, and two first saves. -/

/-- A policy is saved; then a save under another name gets as far as its write. -/
def beforeRename : List PolicyMove :=
  .spawn (.save firstOwner (policyForm "log") 3) :: policyCalls 0 5 ++
    .spawn (.save firstOwner { policyForm "log" with name := "strict" } 4) :: policyCalls 1 2

def renameRun : List PolicyMove := beforeRename ++ [.exec 1 accepting]

/-- Two saves find no policy; both write, one after the other. -/
def beforeSecond : List PolicyMove :=
  .spawn (.save firstOwner (policyForm "log") 3) ::
    .spawn (.save firstOwner (policyForm "block") 4) :: policyCalls 0 2 ++ policyCalls 1 2 ++
    policyCalls 0 1

def firstSavesRun : List PolicyMove := beforeSecond ++ [.exec 1 accepting]

instance (P : Platform) (w : PolicyWorld) : (c : PolicyCall) → Decidable (Served P w c)
  | .saveSecurityPolicy input => by
    unfold Served
    dsimp only
    split <;> infer_instance
  | .recordPolicyEvent event => inferInstanceAs (Decidable ((w.record event).1 = .ok ()))
  | .queue _ => isTrue trivial
  | .getSecurityPolicy .. => isTrue trivial
  | .getSecurityPolicyForService _ => isTrue trivial
  | .recordAuditEvent .. => isTrue trivial
  | .openSecurityIncident .. => isTrue trivial
  | .loadPolicy _ => isTrue trivial
  | .postPolicy .. => isTrue trivial

/-- The rename is refused, and the second save takes the row from the first. -/
theorem rename_refused :
    ¬ EachStep (policyHost plainPlatform edgeConfig).step (RowKept plainPlatform edgeConfig)
        (Sys.start (PolicyWorld.initial 0 shop)) renameRun ∧
      ¬ EachStep (policyHost plainPlatform edgeConfig).step (RowKept plainPlatform edgeConfig)
        (Sys.start (PolicyWorld.initial 0 shop)) firstSavesRun := by
  constructor
  · intro h
    have hrefused : ∃ c ∈ (runFrom (policyHost plainPlatform edgeConfig).step
        (Sys.start (PolicyWorld.initial 0 shop)) beforeRename).pending 1,
          ¬ Served plainPlatform (runFrom (policyHost plainPlatform edgeConfig).step
            (Sys.start (PolicyWorld.initial 0 shop)) beforeRename).world c := by
      decide +kernel
    obtain ⟨c, hc, hnot⟩ := hrefused
    exact hnot ((EachStep.at h).served 1 accepting rfl trivial c hc)
  · intro h
    have hbefore : (runFrom (policyHost plainPlatform edgeConfig).step
        (Sys.start (PolicyWorld.initial 0 shop)) beforeSecond).world.policy 1 =
        some ⟨3, 1, "main", .high, .log, .draft, .normal, none, 1⟩ := by decide +kernel
    have hafter : (runFrom (policyHost plainPlatform edgeConfig).step
        (Sys.start (PolicyWorld.initial 0 shop)) firstSavesRun).world.policy 1 =
        some ⟨4, 1, "main", .high, .block, .draft, .normal, none, 1⟩ := by decide +kernel
    obtain ⟨q, hq, hid⟩ := (EachStep.at h).row 1 _ hbefore
    rw [firstSavesRun, runFrom_append] at hafter
    obtain rfl := Option.some.inj (hafter.symm.trans hq)
    exact absurd hid (by decide)

end Security

end CloudWai
