import CloudWai.Queue.Budget
import CloudWai.Deployment.Alone
import CloudWai.Deployment.Plane
import CloudWai.Deployment.Watchers

/-!
# A row and its job

A request for a deployment inserts the row, then enqueues the job. Between the two stand
one or two more requests of the database, so for a while the thread that has made the
row owes the queue its job (`Hand.holds`). `order_follows` is what the requests, the
webhook and the other tasks have to do with rows and jobs; `OrderInv` is what is true of
both in every state of every run: a row that is owed its job has none yet, and every job
is its row's.

About `apps/api/src/procedures/deployments.ts` and `apps/api/src/git-hook.ts`, as
`Procedures.lean` and `Hook.lean` have them.
-/

namespace CloudWai.Deployment

open Base Queue ControlPlaneStore

variable {engines : Engines} {α : Type}

/-! ## What a thread owes the queue -/

/-- What a thread holds: nothing, or a row that it still owes a job. -/
inductive Hand where
  | free
  /-- It has made the row, and its job is not enqueued yet. -/
  | holds (row : DeploymentId) (org : OrganizationId) (key : String)
  /-- It makes no more rows or jobs. -/
  | done
deriving DecidableEq

/-- It makes a row or a job. -/
def Makes : Call → Prop
  | .store (.insertDeployment _) => True
  | .queue (.insert _) => True
  | _ => False

instance (c : Call) : Decidable (Makes c) := by
  unfold Makes
  split <;> infer_instance

/-- What a request asks of the database between the row and the job. -/
def Between : Call → Prop
  | .store (.selectPreviewTarget ..) => True
  | .store (.insertPreviewTarget ..) => True
  | .store (.selectTargetOfMember ..) => True
  | _ => False

instance (c : Call) : Decidable (Between c) := by
  unfold Between
  split <;> infer_instance

/-- The job that a row is owed. -/
structure JobOf (row : DeploymentId) (org : OrganizationId) (key : String)
    (n : NewJob DeploymentJobPayload) : Prop where
  payload : n.payload.deploymentId = row
  org : n.organizationId = org
  kind : n.kind = deploymentJobKind
  key : n.idempotencyKey = key
  attempts : IsAttempts n.maxAttempts

instance {row : DeploymentId} {org : OrganizationId} {key : String}
    (n : NewJob DeploymentJobPayload) : Decidable (JobOf row org key n) :=
  decidable_of_iff (_ ∧ _ ∧ _ ∧ _ ∧ _)
    ⟨fun h => ⟨h.1, h.2.1, h.2.2.1, h.2.2.2.1, h.2.2.2.2⟩,
      fun h => ⟨h.payload, h.org, h.kind, h.key, h.attempts⟩⟩

/-- Where a free thread is after a call. -/
def Hand.afterFree : (c : Call) → Except String c.Ans → Option Hand
  | .store (.insertDeployment input), .ok row =>
    some (.holds (DeploymentRow.id row) input.organizationId input.idempotencyKey)
  | .store (.insertDeployment _), .error _ => some .done
  | c, _ => if Makes c then none else some .free

/-- And a thread that owes a job. -/
def Hand.afterHolds (row : DeploymentId) (org : OrganizationId) (key : String) :
    (c : Call) → Except String c.Ans → Option Hand
  | .queue (.insert n), _ => if JobOf row org key n then some .done else none
  | c, r =>
    if Between c then some (if threw r then .done else .holds row org key) else none

/-- What the thread holds after a call. -/
def Hand.next (h : Hand) (c : Call) (r : Except String c.Ans) : Option Hand :=
  match h with
  | .free => Hand.afterFree c r
  | .holds row org key => Hand.afterHolds row org key c r
  | .done => if Makes c then none else some .done

/-- A row first, then its job, then nothing more. -/
def orderProtocol : Protocol Call Call.Ans String Hand where
  next := Hand.next
  Possible _ _ := True

/-- It owes nothing. -/
def Hand.Empty (x : Hand) : Prop := ∀ row org key, x ≠ .holds row org key

/-! ## The requests follow it -/

/-- Calls that make nothing. -/
def Idle (c : Call) : Prop := ¬ Makes c

theorem afterFree_idle {c : Call} (h : Idle c) (r : Except String c.Ans) :
    Hand.next .free c r = some .free := by
  show Hand.afterFree c r = some .free
  unfold Hand.afterFree
  split
  next => exact (h trivial).elim
  next => exact (h trivial).elim
  next => exact if_neg h

theorem follows_free {p : PlaneProg α} (hp : p.Only Idle) :
    orderProtocol.Follows (fun _ x => x = .free) .free p :=
  Protocol.follows_of_only hp fun _ hc r _ => afterFree_idle hc r

theorem follows_done {p : PlaneProg α} (hp : p.Only Idle) :
    orderProtocol.Follows (fun _ x => x = .done) .done p :=
  Protocol.follows_of_only hp fun _ hc _ _ => if_neg hc

theorem empty_done {x : Hand} (h : x = .done) : x.Empty := by
  subst h
  exact nofun

/-- Before the row. -/
theorem follows_before {β : Type} {p : PlaneProg α} {f : α → PlaneProg β} (hp : p.Only Idle)
    (hf : ∀ a, orderProtocol.Follows (fun _ x => x.Empty) .free (f a)) :
    orderProtocol.Follows (fun _ x => x.Empty) .free (p.bind f) :=
  Protocol.follows_bind (follows_free hp) (fun a _ hx => hx ▸ hf a) fun _ _ hx => hx ▸ nofun

/-- The row is made. -/
theorem follows_create {input : DeploymentCreateInput} {f : DeploymentRow → PlaneProg α}
    (hf : ∀ row, orderProtocol.Follows (fun _ x => x.Empty)
      (.holds row.id input.organizationId input.idempotencyKey) (f row)) :
    orderProtocol.Follows (fun _ x => x.Empty) .free ((createDeployment input).bind f) := by
  intro r _
  cases r with
  | error e => exact ⟨.done, rfl, nofun⟩
  | ok row => exact ⟨_, rfl, hf row⟩

section Holding

variable {row : DeploymentId} {org : OrganizationId} {key : String}

theorem idle_queue {op : String} {c : DeploymentQueueCall} (h : Idle (.queue c)) :
    (onQueue (Queue.must op c)).Only Idle := only_queue h

/-- The job is enqueued. -/
theorem follows_enqueue {input : EnqueueInput DeploymentJobPayload}
    {f : Job DeploymentJobPayload → PlaneProg α} (hpayload : input.payload.deploymentId = row)
    (horg : input.organizationId = org) (hkind : input.kind = deploymentJobKind)
    (hkey : input.idempotencyKey = key) (hmax : input.maxAttempts = none)
    (hf : ∀ job, (f job).Only Idle) :
    orderProtocol.Follows (fun _ x => x.Empty) (.holds row org key)
      ((onQueue (SqlJobQueue.enqueue input)).bind f) := by
  unfold SqlJobQueue.enqueue
  rw [onQueue_bind, Prog.bind_assoc]
  intro r _
  refine ⟨.done, if_pos ⟨hpayload, horg, hkind, hkey, by
    rw [hmax]
    exact SqlJobQueue.isAttempts_default⟩, ?_⟩
  refine Protocol.follows_mono (fun _ _ hx => empty_done hx) (follows_done ?_)
  cases r with
  | error e => trivial
  | ok inserted =>
    refine Prog.only_bind (α := Job DeploymentJobPayload) ?_ hf
    dsimp only
    cases firstJob inserted with
    | some job => trivial
    | none =>
      simp only [SqlJobQueue.findByKey]
      rw [onQueue_bind, onQueue_bind]
      refine Prog.only_bind ?_ fun existing => ?_
      · exact Prog.only_bind (idle_queue id) fun _ => trivial
      · cases existing <;> trivial

/-- Still holding, unless something was refused. -/
def Kept (row : DeploymentId) (org : OrganizationId) (key : String) (r : Except String α)
    (x : Hand) : Prop := x = if threw r then .done else .holds row org key

theorem follows_kept {β : Type} {p : PlaneProg α} {f : α → PlaneProg β}
    (hp : orderProtocol.Follows (Kept row org key) (.holds row org key) p)
    (hf : ∀ a, orderProtocol.Follows (fun _ x => x.Empty) (.holds row org key) (f a)) :
    orderProtocol.Follows (fun _ x => x.Empty) (.holds row org key) (p.bind f) := by
  refine Protocol.follows_bind hp (fun a x hx => ?_) fun e x hx => ?_
  · obtain rfl : x = .holds row org key := hx
    exact hf a
  · exact empty_done hx

theorem kept_must {op : String} {c : StoreCall} (hc : Between (.store c)) :
    orderProtocol.Follows (Kept row org key) (.holds row org key) (must op c) := by
  intro r _
  refine ⟨_, if_pos hc, ?_⟩
  cases r with
  | error e => exact rfl
  | ok a => exact rfl

/-- Find or create. -/
theorem kept_ensurePreviewTarget (org' : OrganizationId) (project : ProjectId)
    (previewKey : String) (branch : Option String) (pullRequest : Option Nat) :
    orderProtocol.Follows (Kept row org key) (.holds row org key)
      (ensurePreviewTarget org' project previewKey branch pullRequest) := by
  refine Protocol.follows_bind (kept_must trivial) (fun found x hx => ?_) fun _ _ hx => hx
  obtain rfl : x = .holds row org key := hx
  cases found with
  | some target => exact rfl
  | none => exact kept_must trivial

theorem kept_recordPreviewTarget (org' : OrganizationId) (project : ProjectId)
    (input : RequestInput) (pullRequest : Option Nat) :
    orderProtocol.Follows (Kept row org key) (.holds row org key)
      (recordPreviewTarget org' project input pullRequest) := by
  unfold recordPreviewTarget
  split
  · exact rfl
  · exact kept_ensurePreviewTarget _ _ _ _ _

theorem kept_recordHookPreview (link : ProjectGitLink) (delivery : ParsedGitDelivery) :
    orderProtocol.Follows (Kept row org key) (.holds row org key)
      (recordHookPreview link delivery) := by
  unfold recordHookPreview
  split
  · exact rfl
  · exact kept_ensurePreviewTarget _ _ _ _ _

end Holding

theorem follows_dispatch {row : DeploymentId} {org : OrganizationId} {key : String}
    (ctx : RequestContext) (event : String) {payload : DeploymentJobPayload}
    (hpayload : payload.deploymentId = row) (horg : payload.organizationId = org)
    {f : Unit → PlaneProg α} (hf : (f ()).Only Idle) :
    orderProtocol.Follows (fun _ x => x.Empty) (.holds row org key)
      ((dispatch ctx event key payload).bind f) := by
  unfold dispatch
  rw [Prog.bind_assoc]
  refine follows_enqueue hpayload horg rfl rfl rfl fun _ => ?_
  exact Prog.only_bind (only_must id) fun _ => hf

/-! ### Before the row -/

theorem idle_authorizedProject (ctx : RequestContext) (project : ProjectId) (c : Capability) :
    (authorizedProject ctx project c).Only Idle := by
  refine Prog.only_bind (only_must id) fun found => ?_
  cases found with
  | none => trivial
  | some project =>
    refine Prog.only_bind ?_ fun _ => trivial
    unfold requireCapability
    split <;> trivial

theorem idle_replayOf (ctx : RequestContext) (project : ProjectRow) (key : String) :
    (replayOf ctx project key).Only Idle := by
  refine Prog.only_bind (only_must id) fun existing => ?_
  cases existing with
  | none => trivial
  | some existing =>
    simp only
    split <;> trivial

theorem idle_assertWithinBudget (org : OrganizationId) (metric : String) :
    (assertWithinBudget org metric).Only Idle := by
  refine Prog.only_bind (only_must id) fun refusal => ?_
  cases refusal <;> trivial

/-- **A request.** -/
theorem follows_requestDeployment (ctx : RequestContext) (input : RequestInput) :
    orderProtocol.Follows (fun _ x => x.Empty) .free (requestDeployment ctx input) := by
  refine follows_before (idle_authorizedProject ctx _ _) fun project => ?_
  simp only
  split
  · exact nofun
  refine follows_before (idle_replayOf ctx project _) fun replay => ?_
  cases replay with
  | some result => exact nofun
  | none =>
    refine follows_before (idle_assertWithinBudget _ _) fun _ => ?_
    refine follows_before (Prog.only_bind (only_must id) fun _ => trivial) fun environmentId => ?_
    refine follows_create fun row => ?_
    exact follows_kept (kept_recordPreviewTarget _ _ _ _) fun _ =>
      follows_dispatch ctx _ rfl rfl trivial

/-- **A rollback.** -/
theorem follows_rollbackDeployment (ctx : RequestContext) (project : ProjectId)
    (key commit : String) :
    orderProtocol.Follows (fun _ x => x.Empty) .free (rollbackDeployment ctx project key commit) := by
  refine follows_before (idle_authorizedProject ctx _ _) fun project => ?_
  refine follows_before (idle_replayOf ctx project _) fun replay => ?_
  cases replay with
  | some result => exact nofun
  | none =>
    refine follows_before (idle_assertWithinBudget _ _) fun _ => ?_
    refine follows_before (Prog.only_bind (only_must id) fun _ => trivial) fun environmentId => ?_
    refine follows_create fun row => ?_
    exact follows_kept (kept_must trivial) fun _ => follows_dispatch ctx _ rfl rfl trivial

/-- **A delivery of a git provider.** -/
theorem follows_deployFromDelivery (link : ProjectGitLink) (delivery : ParsedGitDelivery) :
    orderProtocol.Follows (fun _ x => x.Empty) .free (deployFromDelivery link delivery) := by
  refine follows_before (only_must id) fun found => ?_
  cases found with
  | none => exact nofun
  | some project =>
    refine follows_before (only_must id) fun refusal => ?_
    cases refusal with
    | some reason => exact follows_before (only_must id) fun _ => nofun
    | none =>
      simp only
      split
      · exact nofun
      split
      · exact nofun
      refine follows_before (only_must id) fun existing => ?_
      cases existing with
      | some existing => exact nofun
      | none =>
        simp only
        split
        · exact nofun
        refine follows_before ?_ fun environmentId => ?_
        · exact Prog.only_bind (only_must id) fun _ => trivial
        refine follows_create fun row => ?_
        refine follows_kept (kept_recordHookPreview link delivery) fun _ => ?_
        refine follows_enqueue rfl rfl rfl rfl rfl fun _ => ?_
        exact Prog.only_bind (only_must id) fun _ => trivial

/-! ### The others -/

theorem idle_of_aloof {c : Call} (h : Aloof c) : Idle c := by
  unfold Idle Makes
  split
  · exact fun _ => h
  · exact fun _ => h
  · exact id

theorem idle_of_delivering {row : DeploymentId} {c : Call} (h : Delivering row c) : Idle c := by
  unfold Idle Makes
  split
  · rcases h with h | h <;> exact fun _ => h
  · rcases h with h | h <;> exact fun _ => h
  · exact id

theorem idle_workerTick (options : WorkerOptions) : (workerTick engines options).Only Idle := by
  refine Prog.only_bind ?_ fun claimed => ?_
  · show (onQueue (SqlJobQueue.claim options.workerId options.leaseMs)).Only Idle
    unfold SqlJobQueue.claim
    rw [onQueue_bind]
    exact Prog.only_bind (only_queue id) fun _ => trivial
  · cases claimed with
    | none => trivial
    | some job =>
      refine Prog.only_bind ?_ fun _ => trivial
      exact Prog.only_mono (fun _ => idle_of_delivering) (only_delivery engines options job)

theorem follows_ignored {p : PlaneProg α}
    (h : orderProtocol.Follows (fun _ x => x.Empty) .free p) :
    orderProtocol.Follows (fun _ x => x.Empty) .free (ignored p) :=
  Protocol.follows_bind h (fun _ _ hx => hx) fun _ _ hx => hx

/-- Every task follows it. -/
def orderDuty : Duty Task Call Call.Ans String Hand where
  protocol := orderProtocol
  first _ := .free
  ends _ _ x := x.Empty

theorem order_follows (engines : Engines) (t : Task) :
    orderProtocol.Follows (fun _ x => x.Empty) .free (t.body engines) := by
  have hidle : ∀ p : PlaneProg Unit, p.Only Idle →
      orderProtocol.Follows (fun _ x => x.Empty) .free p := by
    intro p hp
    exact Protocol.follows_mono (fun _ _ hx => hx ▸ nofun) (follows_free hp)
  have hwatch : t.Watches → orderProtocol.Follows (fun _ x => x.Empty) .free (t.body engines) :=
    fun ht => hidle _ (Prog.only_mono (fun _ => idle_of_aloof) (aloof_body engines ht))
  cases t with
  | work options => exact hidle _ (Prog.only_bind (idle_workerTick options) fun _ => trivial)
  | request ctx input => exact follows_ignored (follows_requestDeployment ctx input)
  | rollback ctx project key commit =>
    exact follows_ignored (follows_rollbackDeployment ctx project key commit)
  | hook link delivery => exact follows_ignored (follows_deployFromDelivery link delivery)
  | _ => exact hwatch trivial

theorem order_answers (engines : Engines) (w : World) :
    (planeHost engines).Answers orderDuty w := fun _ _ => trivial

/-! ## Rows and jobs through a call -/

/-- What of a row neither a patch nor a promotion changes. -/
structure Fixed {β : Type} (f : DeploymentRow → β) : Prop where
  patch : ∀ (p : DeploymentStatusInput) r, f (p.set r) = f r
  promote : ∀ (r : DeploymentRow) flag, f { r with isCurrent := flag } = f r

section Fixed

variable {w : World} {o : Oracle} {d : DeploymentId} {β : Type} {f : DeploymentRow → β}

theorem Fixed.perform (hf : Fixed f) {c : Call}
    (hc : ∀ input, c ≠ .store (.insertDeployment input)) :
    ((w.perform engines o c).2.row d).map f = (w.row d).map f := by
  have htouches := touches_perform engines d w o c
  generalize (w.perform engines o c).2.row d = after at htouches
  cases htouches with
  | keep => rfl
  | patch _ hrow =>
    rw [hrow]
    exact congrArg some (hf.patch _ _)
  | promote hrow =>
    rw [hrow]
    exact congrArg some (hf.promote _ _)
  | insert => exact absurd rfl (hc _)

/-- An insert, where the database accepts it and it arrives. -/
theorem row_insert {input : DeploymentCreateInput} :
    (w.perform engines o (.store (.insertDeployment input))).2.row d =
      if o.fault.Lands ∧ w.store.accepts input = true ∧ d = w.store.deployments.nextId then
        some (input.row w.now d)
      else w.row d := by
  unfold World.row
  rw [perform_store]
  by_cases hlands : o.fault.Lands
  · by_cases haccepts : w.store.accepts input = true
    · simp only [hlands, StoreCall.run, haccepts, if_true, true_and, Table.find_insertNew]
    · simp only [hlands, StoreCall.run, haccepts, if_true]
      rfl
  · simp only [hlands, if_false, false_and]

theorem ne_nextId_of_row {b : β} (h : (w.row d).map f = some b) :
    d ≠ w.store.deployments.nextId := by
  rintro rfl
  unfold World.row at h
  rw [Table.find_nextId] at h
  cases h

/-- What is fixed of a row that is there stays. -/
theorem Fixed.stays (hf : Fixed f) {c : Call} {b : β} (h : (w.row d).map f = some b) :
    ((w.perform engines o c).2.row d).map f = some b := by
  by_cases hc : ∃ input, c = .store (.insertDeployment input)
  · obtain ⟨input, rfl⟩ := hc
    rw [row_insert, if_neg fun hnew => ne_nextId_of_row h hnew.2.2]
    exact h
  · rw [hf.perform fun input hcall => hc ⟨input, hcall⟩]
    exact h

end Fixed

/-- The organization and the key of a row: they never change. -/
def World.ident (w : World) (d : DeploymentId) : Option (OrganizationId × String) :=
  (w.row d).map fun r => (r.organizationId, r.idempotencyKey)

/-- There is a job for the row. -/
def HasJob (d : DeploymentId) (w : World) : Prop :=
  ∃ j ∈ w.jobs.rows, j.payload.deploymentId = d

instance (d : DeploymentId) (w : World) : Decidable (HasJob d w) :=
  inferInstanceAs (Decidable (∃ j ∈ w.jobs.rows, _))

section Perform

variable {w : World} {o : Oracle} {d : DeploymentId}

theorem fixed_ident : Fixed fun r => (r.organizationId, r.idempotencyKey) :=
  ⟨fun _ _ => rfl, fun _ _ => rfl⟩

theorem ident_perform {c : Call} (hc : ∀ input, c ≠ .store (.insertDeployment input)) :
    (w.perform engines o c).2.ident d = w.ident d :=
  fixed_ident.perform hc

theorem ident_insert {input : DeploymentCreateInput} :
    (w.perform engines o (.store (.insertDeployment input))).2.ident d =
      if o.fault.Lands ∧ w.store.accepts input = true ∧ d = w.store.deployments.nextId then
        some (input.organizationId, input.idempotencyKey)
      else w.ident d := by
  unfold World.ident
  rw [row_insert]
  split <;> rfl

/-- What the database says of an insert. -/
theorem insert_answer {input : DeploymentCreateInput} {row : DeploymentRow}
    (h : (w.perform engines o (.store (.insertDeployment input))).1 = .ok row) :
    o.fault = .none ∧ w.store.accepts input = true ∧ row.id = w.store.deployments.nextId := by
  obtain ⟨hfault, hrun⟩ := perform_store_ok h
  simp only [StoreCall.run] at hrun
  split at hrun
  next haccepts =>
    refine ⟨hfault, haccepts, ?_⟩
    rw [← Except.ok.inj hrun]
    rfl
  next => cases hrun

theorem perform_queue_jobs (c : DeploymentQueueCall) :
    (w.perform engines o (.queue c)).2.jobs =
      if o.fault.Lands then (c.run w.now o.locked w.jobs).2 else w.jobs := by
  simp only [World.perform, Fault.apply_snd]
  cases hf : o.fault <;> cases c <;> rfl

/-- A job of the row stays. -/
theorem hasJob_perform (c : Call) (h : HasJob d w) : HasJob d (w.perform engines o c).2 := by
  cases c with
  | engine row c => exact h
  | store c =>
    unfold HasJob
    rw [perform_store_jobs]
    exact h
  | queue c =>
    obtain ⟨j, hj, hfor⟩ := h
    unfold HasJob
    rw [perform_queue_jobs]
    split
    · have hafter := jobAfter_run w.now o.locked w.jobs j.id c
      have hfind : w.jobs.find j.id = some j := Table.find_eq_some.mpr ⟨hj, rfl⟩
      generalize hfound : (c.run w.now o.locked w.jobs).2.find j.id = found at hafter
      cases hafter with
      | touched hrow ht =>
        rw [hfind] at hrow
        cases hrow
        refine ⟨_, (Table.mem_of_find hfound).1, ?_⟩
        rw [(sameJob_touched ht).payload]
        exact hfor
      | absent hrow =>
        rw [hfind] at hrow
        cases hrow
      | inserted hnew =>
        rw [hnew, Table.find_nextId] at hfind
        cases hfind
    · exact ⟨j, hj, hfor⟩

/-- Every job after a call was there before, or was inserted. -/
theorem job_of_after {c : Call} {j' : JobRow DeploymentJobPayload}
    (h : j' ∈ (w.perform engines o c).2.jobs) :
    (∃ j ∈ w.jobs, SameJob j j') ∨ ∃ n id, c = .queue (.insert n) ∧ j' = n.row w.now id := by
  cases c with
  | engine row c => exact .inl ⟨j', h, ⟨rfl, rfl, rfl, rfl, rfl⟩⟩
  | store c =>
    rw [perform_store_jobs] at h
    exact .inl ⟨j', h, ⟨rfl, rfl, rfl, rfl, rfl⟩⟩
  | queue c =>
    rw [perform_queue_jobs] at h
    split at h
    · rcases run_touches h with ⟨j, hj, ht⟩ | ⟨n, id, rfl, _, hn⟩
      · exact .inl ⟨j, hj, sameJob_touched ht⟩
      · exact .inr ⟨n, id, rfl, hn⟩
    · exact .inl ⟨j', h, ⟨rfl, rfl, rfl, rfl, rfl⟩⟩

theorem hasJob_after {c : Call} (h : HasJob d (w.perform engines o c).2) :
    HasJob d w ∨ ∃ n, c = .queue (.insert n) ∧ n.payload.deploymentId = d := by
  obtain ⟨j', hj', hfor⟩ := h
  rcases job_of_after hj' with ⟨j, hj, hsame⟩ | ⟨n, id, rfl, rfl⟩
  · rw [hsame.payload] at hfor
    exact .inl ⟨j, hj, hfor⟩
  · exact .inr ⟨n, rfl, hfor⟩

/-- Every job is the job of its row. -/
def Homed (w : World) : Prop :=
  ∀ j ∈ w.jobs, w.ident j.payload.deploymentId = some (j.organizationId, j.idempotencyKey)

/-- No two rows of an organization have one key. -/
def Distinct (w : World) : Prop :=
  ∀ d d' p, w.ident d = some p → w.ident d' = some p → d = d'

/-- The insert of a row's job gives it one, or it had one. -/
theorem hasJob_insert {org : OrganizationId} {key : String} {n : NewJob DeploymentJobPayload}
    (hhomed : Homed w) (hdistinct : Distinct w) (hident : w.ident d = some (org, key))
    (hn : JobOf d org key n) (hlands : o.fault.Lands) :
    HasJob d (w.perform engines o (.queue (.insert n))).2 := by
  unfold HasJob
  rw [perform_queue_jobs, if_pos hlands]
  simp only [QueueCall.run, insertJob, hn.attempts, not_true_eq_false, if_false]
  split
  next hany =>
    obtain ⟨j, hj, hsame⟩ := List.any_eq_true.mp hany
    simp only [sameKey, Bool.and_eq_true, beq_iff_eq] at hsame
    refine ⟨j, hj, hdistinct _ _ (org, key) ?_ hident⟩
    rw [hhomed j hj, ← hn.org, ← hn.key, hsame.1.1, hsame.2]
  next =>
    exact ⟨_, Table.mem_insertNew.mpr (.inr rfl), hn.payload⟩

end Perform

/-! ## States of the plane -/

/-- What thread `tid` owes the queue. -/
def handOf (s : PlaneSys) (tid : Nat) : Option Hand := s.stage orderProtocol (fun _ => .free) tid

/-- It owes row `d` its job. -/
def Hand.Owes (d : DeploymentId) : Hand → Prop
  | .holds row _ _ => row = d
  | _ => False

instance Hand.decidableOwes (d : DeploymentId) (x : Hand) : Decidable (x.Owes d) := by
  unfold Hand.Owes
  split <;> infer_instance

/-- What is true of every state of every run. -/
structure OrderInv (s : PlaneSys) : Prop where
  sane : s.Sane
  typed : s.Typed orderDuty
  homed : Homed s.world
  distinct : Distinct s.world
  /-- Who owes a row its job has the row, and there is none yet. -/
  held : ∀ i row org key, handOf s i = some (.holds row org key) →
    s.world.ident row = some (org, key) ∧ ¬ HasJob row s.world
  /-- And owes it alone. -/
  lone : ∀ i j row org key org' key', handOf s i = some (.holds row org key) →
    handOf s j = some (.holds row org' key') → i = j

theorem orderInv_start (now : Instant) (projects : ProjectsTable)
    (members : OrganizationId → UserId → Bool) :
    OrderInv (PlaneSys.initial now projects members) where
  sane := sane_start _
  typed := typed_start _ _
  homed _ h := absurd h (Table.not_mem_empty _)
  distinct _ _ _ h := by cases h
  held _ _ _ _ h := by cases h
  lone _ _ _ _ _ _ _ h := by cases h

variable {s s' : PlaneSys} {tid : Nat} {o : Oracle} {c : Call} {x x' : Hand}

/-- A thread that holds a row held it before the call, or the call made it. -/
theorem holds_of_next {row : DeploymentId} {org : OrganizationId} {key : String}
    {r : Except String c.Ans} (h : Hand.next x c r = some (.holds row org key)) :
    x = .holds row org key ∧ Between c ∨
      x = .free ∧ ∃ input, c = .store (.insertDeployment input) ∧
        input.organizationId = org ∧ input.idempotencyKey = key ∧ threw r = false := by
  cases x with
  | done =>
    unfold Hand.next at h
    simp only at h
    split at h <;> cases h
  | holds row' org' key' =>
    change Hand.afterHolds row' org' key' c r = _ at h
    unfold Hand.afterHolds at h
    split at h
    · split at h <;> cases h
    · split at h
      next hbetween =>
        split at h
        · cases h
        · cases h
          exact .inl ⟨rfl, hbetween⟩
      next => cases h
  | free =>
    change Hand.afterFree c r = _ at h
    unfold Hand.afterFree at h
    split at h
    · cases h
      exact .inr ⟨rfl, _, rfl, rfl, rfl, rfl⟩
    · cases h
    · split at h <;> cases h

/-- A job is enqueued by a thread that holds its row. -/
theorem holds_of_insert {n : NewJob DeploymentJobPayload}
    {r : Except String (Call.queue (.insert n)).Ans}
    (h : Hand.next x (.queue (.insert n)) r = some x') :
    x' = .done ∧ ∃ row org key, x = .holds row org key ∧ JobOf row org key n := by
  cases x with
  | done => cases h
  | free => cases h
  | holds row org key =>
    change (if JobOf row org key n then some Hand.done else none) = _ at h
    split at h
    next hn => exact ⟨(Option.some.inj h).symm, row, org, key, rfl, hn⟩
    next => cases h

/-- A row is made by a thread that holds none. -/
theorem free_of_create {input : DeploymentCreateInput}
    {r : Except String (Call.store (.insertDeployment input)).Ans}
    (h : Hand.next x (.store (.insertDeployment input)) r = some x') : x = .free := by
  cases x with
  | done => cases h
  | free => rfl
  | holds row org key => cases h

theorem row_isSome_of_ident {w : World} {d : DeploymentId} {p : OrganizationId × String}
    (h : w.ident d = some p) : d ≠ w.store.deployments.nextId :=
  ne_nextId_of_row h

/-- An ident that is there stays. -/
theorem ident_stays {w : World} {d : DeploymentId} {p : OrganizationId × String}
    (h : w.ident d = some p) : (w.perform engines o c).2.ident d = some p :=
  fixed_ident.stays h

/-- No two rows have one key, since the table refuses the second. -/
theorem distinct_perform {w : World} (h : Distinct w) : Distinct (w.perform engines o c).2 := by
  by_cases hc : ∃ input, c = .store (.insertDeployment input)
  · obtain ⟨input, rfl⟩ := hc
    intro d d' p hd hd'
    rw [ident_insert] at hd hd'
    have hfresh : ∀ e, w.store.accepts input = true →
        w.ident e ≠ some (input.organizationId, input.idempotencyKey) := by
      intro e haccepts he
      obtain ⟨r, hr, hp⟩ := Option.map_eq_some_iff.mp he
      simp only [Store.accepts, Bool.and_eq_true, Bool.not_eq_true', List.any_eq_false] at haccepts
      refine haccepts.2 r (Table.mem_of_find hr).1 ?_
      simp only [Prod.mk.injEq] at hp
      exact ⟨beq_iff_eq.mpr hp.1, beq_iff_eq.mpr hp.2⟩
    split at hd
    next hnew =>
      split at hd'
      next hnew' => exact hnew.2.2.trans hnew'.2.2.symm
      next =>
        rw [← hd] at hd'
        exact absurd hd' (hfresh d' hnew.2.1)
    next =>
      split at hd'
      next hnew' =>
        rw [← hd'] at hd
        exact absurd hd (hfresh d hnew'.2.1)
      next => exact h d d' p hd hd'
  · have hsame := fun e => (@ident_perform engines w o e)
      fun input hcall => hc ⟨input, hcall⟩
    intro d d' p hd hd'
    rw [hsame] at hd hd'
    exact h d d' p hd hd'

theorem homed_perform {w : World} (h : Homed w)
    (hc : ∀ n, c = .queue (.insert n) →
      w.ident n.payload.deploymentId = some (n.organizationId, n.idempotencyKey)) :
    Homed (w.perform engines o c).2 := by
  intro j' hj'
  rcases job_of_after hj' with ⟨j, hj, hsame⟩ | ⟨n, id, rfl, rfl⟩
  · rw [hsame.payload, hsame.organizationId, hsame.idempotencyKey]
    exact ident_stays (h j hj)
  · exact ident_stays (hc n rfl)

/-- The plane's step, seen from the rows and their jobs. -/
theorem order_step_cases (h : OrderInv s) (l : PlaneMove) :
    Silent (planeHost engines) orderDuty s l ∨
      ∃ tid o c x x', l = .exec tid o ∧
        Called (planeHost engines) orderDuty s ((planeHost engines).step s l) tid o c x x' :=
  step_cases h.sane h.typed (order_answers engines s.world) l

theorem silent_world {l : PlaneMove} (hs : Silent (planeHost engines) orderDuty s l) :
    ((planeHost engines).step s l).world.jobs = s.world.jobs ∧
      ((planeHost engines).step s l).world.store.deployments = s.world.store.deployments := by
  rcases hs.world with hw | ⟨δ, hw⟩
  · rw [hw]
    exact ⟨rfl, rfl⟩
  · rw [hw]
    cases δ <;> exact ⟨rfl, rfl⟩

theorem ident_congr {w w' : World} (h : w'.store.deployments = w.store.deployments)
    (d : DeploymentId) : w'.ident d = w.ident d := by
  unfold World.ident World.row
  rw [h]

theorem hasJob_congr {w w' : World} (h : w'.jobs = w.jobs) (d : DeploymentId) :
    HasJob d w' ↔ HasJob d w := by
  unfold HasJob
  rw [h]

/-- A row that has just been made has no job, and nobody owes it one. -/
theorem nobody_of_new (h : OrderInv s) {d : DeploymentId}
    (hnew : d = s.world.store.deployments.nextId) :
    ¬ HasJob d s.world ∧ ∀ i x, handOf s i = some x → ¬ x.Owes d := by
  have hnone : ∀ p, s.world.ident d ≠ some p := fun p hp => row_isSome_of_ident hp hnew
  refine ⟨?_, fun i x hx howes => ?_⟩
  · rintro ⟨j, hj, hfor⟩
    exact hnone _ (hfor ▸ h.homed j hj)
  · cases x with
    | holds row org key =>
      obtain rfl : row = d := howes
      exact hnone _ (h.held i row org key hx).1
    | _ => exact howes

/-- **Step.** -/
theorem orderInv_step (h : OrderInv s) (l : PlaneMove) :
    OrderInv ((planeHost engines).step s l) := by
  have hsane := sane_step (planeHost engines) h.sane l
  have htyped := typed_step (H := planeHost engines) (Y := orderDuty) (order_follows engines)
    (order_answers engines s.world) h.typed l
  rcases (@order_step_cases engines) h l with hs | ⟨tid, o, c, x, x', rfl, hc⟩
  · obtain ⟨hjobs, hrows⟩ := silent_world hs
    have hident := ident_congr hrows
    have hhand : ∀ i row org key, handOf ((planeHost engines).step s l) i =
        some (.holds row org key) → handOf s i = some (.holds row org key) := by
      intro i row org key hi
      rcases hs.stage i _ hi with hwas | ⟨_, _, ht⟩
      · exact hwas
      · cases ht
    refine ⟨hsane, htyped, ?_, ?_, ?_, ?_⟩
    · intro j hj
      rw [hident]
      exact h.homed j (hjobs ▸ hj)
    · intro d d' p hd hd'
      rw [hident] at hd hd'
      exact h.distinct d d' p hd hd'
    · intro i row org key hi
      rw [hident, hasJob_congr hjobs]
      exact h.held i row org key (hhand i row org key hi)
    · intro i j row org key org' key' hi hj
      exact h.lone i j row org key org' key' (hhand i _ _ _ hi) (hhand j _ _ _ hj)
  · have hmoves : Hand.next x c (s.world.perform engines o c).1 = some x' := hc.moves
    have hworld : ((planeHost engines).step s (.exec tid o)).world =
        (s.world.perform engines o c).2 := hc.world
    -- who holds a row now held it before, or this call made it
    have hfrom : ∀ i row org key, handOf ((planeHost engines).step s (.exec tid o)) i =
        some (.holds row org key) →
        handOf s i = some (.holds row org key) ∧ (i = tid → Between c) ∨
          i = tid ∧ row = s.world.store.deployments.nextId ∧
            (s.world.perform engines o c).2.ident row = some (org, key) ∧
            ∃ input, c = .store (.insertDeployment input) := by
      intro i row org key hi
      rcases hc.stage_after hi with ⟨rfl, rfl⟩ | ⟨hne, hwas⟩
      · rcases holds_of_next hmoves with ⟨rfl, hbetween⟩ | ⟨rfl, input, rfl, rfl, rfl, hanswered⟩
        · exact .inl ⟨hc.was, fun _ => hbetween⟩
        · cases hr : (s.world.perform engines o (.store (.insertDeployment input))).1 with
          | error e =>
            rw [hr] at hanswered
            cases hanswered
          | ok made =>
            obtain ⟨hfault, haccepts, hid⟩ := insert_answer hr
            rw [hr] at hmoves
            have hmade : made.id = row := by
              cases hmoves
              rfl
            refine .inr ⟨rfl, hmade ▸ hid, ?_, input, rfl⟩
            rw [ident_insert, if_pos ⟨by rw [hfault]; trivial, haccepts, hmade ▸ hid⟩]
      · exact .inl ⟨hwas, fun hit => absurd hit hne⟩
    refine ⟨hsane, htyped, ?_, ?_, ?_, ?_⟩
    · rw [hworld]
      refine homed_perform h.homed fun n hn => ?_
      subst hn
      obtain ⟨_, row, org, key, rfl, hjob⟩ := holds_of_insert hmoves
      rw [hjob.payload, hjob.org, hjob.key]
      exact (h.held tid row org key hc.was).1
    · rw [hworld]
      exact distinct_perform h.distinct
    · intro i row org key hi
      rw [hworld]
      rcases hfrom i row org key hi with ⟨hwas, hbetween⟩ | ⟨rfl, hnew, hident, input, rfl⟩
      · obtain ⟨hident, hnone⟩ := h.held i row org key hwas
        refine ⟨ident_stays hident, fun hjob => ?_⟩
        rcases hasJob_after hjob with hjob | ⟨n, rfl, hn⟩
        · exact hnone hjob
        · -- the row's job is enqueued by who held the row, and that thread is done
          obtain ⟨rfl, row', org', key', rfl, hjobOf⟩ := holds_of_insert hmoves
          obtain rfl : row' = row := hjobOf.payload.symm.trans hn
          exact hbetween (h.lone i tid _ _ _ _ _ hwas hc.was)
      · refine ⟨hident, fun hjob => ?_⟩
        rcases hasJob_after hjob with hjob | ⟨n, hn, _⟩
        · exact (nobody_of_new h hnew).1 hjob
        · cases hn
    · intro i j row org key org' key' hi hj
      rcases hfrom i row org key hi with ⟨hwas, _⟩ | ⟨rfl, hnew, _⟩
      · rcases hfrom j row org' key' hj with ⟨hwas', _⟩ | ⟨rfl, hnew, _⟩
        · exact h.lone i j row org key org' key' hwas hwas'
        · exact absurd rfl ((nobody_of_new h hnew).2 i _ hwas)
      · rcases hfrom j row org' key' hj with ⟨hwas', _⟩ | ⟨rfl, _, _⟩
        · exact absurd rfl ((nobody_of_new h hnew).2 j _ hwas')
        · rfl

end CloudWai.Deployment
