import CloudWai.Base.Triple
import CloudWai.Deployment.Plane
import CloudWai.Deployment.Routine

/-!
# Job and row

When a delivery ends, the processor has told the queue what became of the job and
the applier has written what became of the deployment. The two verdicts are reached
apart: the queue's from the result's kind, its status, the attempts left and the
poll ceiling, the row's from the status alone. `accord_iff_settles` says when they
are the same verdict.

The tick here takes any program for `executeDeployment` that leaves the queue
alone, so a handler may come to whatever result or throw.

About `apps/worker/src/processor.ts` and `deployment-job.ts`, as `Processor.lean` and
`Worker.lean` have them.
-/

namespace CloudWai.Deployment

open Base Queue ControlPlaneStore

/-! ## The tick -/

/-- What stands for `executeDeployment`. -/
abbrev Execution := DeploymentJobPayload → JobContext → PlaneProg DeploymentExecutionResult

/-- One tick of a worker whose deployment handler runs `execute`. -/
def tickWith (execute : Execution) (options : WorkerOptions) : PlaneProg (Option JobOutcome) :=
  InProcessWorker.tick planePort options
    (fun kind =>
      if kind = deploymentJobKind then
        some fun payload ctx => (execute payload ctx).bind fun result => .ret (reported result)
      else none)
    deploymentApplier

/-- The worker's own tick. -/
theorem tickWith_executeDeployment (engines : Engines) (options : WorkerOptions) :
    tickWith (fun payload ctx => executeDeployment engines (executeInput payload ctx)) options =
      workerTick engines options := rfl

/-- Calls answered while nothing is lost. -/
def World.calm (engines : Engines) (o : Oracle) (w : World) (c : Call) :
    Except String c.Ans × World :=
  w.perform engines { o with fault := .none } c

/-- Requests of the queue are not among these. -/
def OffQueue : Call → Prop
  | .queue _ => False
  | _ => True

/-! ## The verdicts -/

/-- The two verdicts are one. -/
structure Accord (job : JobState) (row : EngineStatus) : Prop where
  succeeded : job = .succeeded ↔ row = .succeeded
  failed : job = .failed ↔ row.Terminal ∧ row ≠ .succeeded
  returned : job = .queued → row.InFlight

/-- What the queue makes of a result. -/
def ruling (options : WorkerOptions) (now : Instant) (job : JobRow DeploymentJobPayload)
    (result : DeploymentExecutionResult) : JobState :=
  let spent := decide (job.maxAttempts ≤ job.attempts)
  match result.status with
  | .succeeded => if result.reason = none then .succeeded else if spent then .failed else .queued
  | .pending | .running =>
    if options.pollCeilingMs ≤ now - job.createdAt then .failed else .queued
  | .degraded | .notConfigured => .failed
  | .failed => if spent then .failed else .queued

/-- **The condition**: the run failed or threw with no attempt left, or is in flight
below the ceiling, or succeeded with no reason against it, or cannot be retried. -/
def Settles (options : WorkerOptions) (now : Instant) (job : JobRow DeploymentJobPayload) :
    Except String DeploymentExecutionResult → Prop
  | .error _ => job.maxAttempts ≤ job.attempts
  | .ok result =>
    match result.status with
    | .succeeded => result.reason = none
    | .pending | .running => now - job.createdAt < options.pollCeilingMs
    | .degraded | .notConfigured => True
    | .failed => job.maxAttempts ≤ job.attempts

instance (options : WorkerOptions) (now : Instant) (job : JobRow DeploymentJobPayload)
    (outcome : Except String DeploymentExecutionResult) :
    Decidable (Settles options now job outcome) := by
  unfold Settles
  split
  · infer_instance
  · split <;> infer_instance

/-- The queue's ruling and the row's status agree exactly if the result settles the job. -/
theorem accord_ruling_iff (options : WorkerOptions) (now : Instant)
    (job : JobRow DeploymentJobPayload) (result : DeploymentExecutionResult) :
    Accord (ruling options now job result) result.status ↔ Settles options now job (.ok result) := by
  dsimp only [ruling, Settles]
  cases hstatus : result.status with
  | succeeded =>
    dsimp only
    split
    next hreason => exact iff_of_true ⟨by decide, by decide, by decide⟩ hreason
    next hreason =>
      refine iff_of_false ?_ hreason
      intro h
      have := h.succeeded.mpr rfl
      split at this <;> cases this
  | pending | running =>
    dsimp only
    split
    next hold =>
      refine iff_of_false ?_ (Nat.not_lt.mpr hold)
      intro h
      exact absurd (h.failed.mp rfl).1 (by decide)
    next hyoung => exact iff_of_true ⟨by decide, by decide, by decide⟩ (Nat.lt_of_not_le hyoung)
  | degraded | notConfigured =>
    dsimp only
    exact iff_of_true ⟨by decide, by decide, by decide⟩ trivial
  | failed =>
    dsimp only
    split
    next hspent => exact iff_of_true ⟨by decide, by decide, by decide⟩ (by simpa using hspent)
    next hleft =>
      refine iff_of_false ?_ (by simpa using hleft)
      intro h
      exact absurd (h.returned rfl) (by decide)

/-! ## The queue's requests -/

section Calm

variable {engines : Engines} {o : Oracle} {w : World}

theorem eval_complete (id : JobId) :
    (onQueue (SqlJobQueue.complete id)).eval (World.calm engines o) w =
      (.ok (), ⟨w.now, patchJob id ⟨.succeeded, none, some w.now, none, none⟩ w.jobs, w.store⟩) :=
  rfl

theorem eval_terminate (id : JobId) (reason : String) :
    (onQueue (SqlJobQueue.terminate id reason)).eval (World.calm engines o) w =
      (.ok (), ⟨w.now, patchJob id ⟨.failed, some reason, some w.now, none, none⟩ w.jobs, w.store⟩) :=
  rfl

theorem eval_defer (id : JobId) (reason : String) (ms : Nat) :
    (onQueue (SqlJobQueue.defer id reason ms)).eval (World.calm engines o) w =
      (.ok (), ⟨w.now, (deferOrchestrationJob w.now id reason (SqlJobQueue.deferSeconds ms)
        w.jobs).2, w.store⟩) := rfl

/-- What `fail` writes depends on the job as it stands. -/
theorem eval_fail {id : JobId} {job : JobRow DeploymentJobPayload} (hjob : w.jobs.find id = some job)
    (reason : String) :
    (onQueue (SqlJobQueue.fail id reason)).eval (World.calm engines o) w =
      (.ok (), ⟨w.now, patchJob id
        (if job.maxAttempts ≤ job.attempts then ⟨.failed, some reason, some w.now, none, none⟩
        else ⟨.queued, some reason, none, none, none⟩) w.jobs, w.store⟩) := by
  have hget : (onQueue (SqlJobQueue.get id)).eval (World.calm engines o) w =
      (.ok (firstJob (w.jobs.find id).toList), w) := rfl
  unfold SqlJobQueue.fail
  rw [onQueue_bind, Prog.eval_bind, hget, hjob]
  dsimp only [firstJob, Option.toList_some, List.head?_cons, Option.map_some]
  split
  · rfl
  · rfl

/-- A job after a patch by its id. -/
theorem find_patchJob {id : JobId} {p : JobPatch} {jobs : JobsTable DeploymentJobPayload}
    {job : JobRow DeploymentJobPayload} (hjob : jobs.find id = some job) :
    (patchJob id p jobs).find id = some (p.apply job) := by
  have hid : job.id = id := (Table.mem_of_find hjob).2
  unfold patchJob
  rw [Table.find_update, hjob, Option.map_some, Table.Edit.on_hit (by simpa using hid)]

/-- A running job is deferred. -/
theorem find_deferred {now : Instant} {id : JobId} {reason : String} {n : Nat}
    {jobs : JobsTable DeploymentJobPayload} {job : JobRow DeploymentJobPayload}
    (hjob : jobs.find id = some job) (hrunning : job.state = .running) :
    (deferOrchestrationJob now id reason n jobs).2.find id = some (deferred now reason n job) := by
  have hid : job.id = id := (Table.mem_of_find hjob).2
  unfold deferOrchestrationJob
  rw [Table.find_update, hjob, Option.map_some,
    Table.Edit.on_hit (by simp [runningJob, hid, hrunning])]

/-! ## The applier's -/

/-- The job and the row of a delivery, as they stand. -/
structure Stands (payload : DeploymentJobPayload) (id : JobId) (job : JobState)
    (row : EngineStatus) (w : World) : Prop where
  job : (w.jobs.find id).map (·.state) = some job
  row : ∃ r, w.row payload.deploymentId = some r ∧ r.organizationId = payload.organizationId ∧
    r.status = row

/-- Only a patch of the row moves it. -/
theorem stands_store {payload : DeploymentJobPayload} {id : JobId} {job : JobState}
    {row : EngineStatus} {c : StoreCall} (h : Stands payload id job row w)
    (hpatch : ∀ p, c ≠ .patchDeployment p) :
    Stands payload id job row (w.calm engines o (.store c)).2 := by
  obtain ⟨hjob, r, hr, horg, hstatus⟩ := h
  refine ⟨?_, ?_⟩
  · unfold World.calm
    rw [perform_store_jobs]
    exact hjob
  · have htouches := touches_perform engines payload.deploymentId w { o with fault := .none }
      (.store c)
    unfold World.calm
    generalize (w.perform engines { o with fault := .none } (.store c)).2.row
      payload.deploymentId = after at htouches ⊢
    generalize hc : Call.store c = call at htouches
    cases htouches with
    | patch =>
      cases hc
      exact absurd rfl (hpatch _)
    | promote hrow =>
      rw [hr] at hrow
      obtain rfl := Option.some.inj hrow
      exact ⟨_, rfl, horg, hstatus⟩
    | insert hnone =>
      rw [hr] at hnone
      cases hnone
    | keep => exact ⟨r, hr, horg, hstatus⟩

/-- Requests of the store other than a patch. -/
def Unpatched : Call → Prop
  | .store (.patchDeployment _) => False
  | .store _ => True
  | _ => False

theorem ends_unpatched {α : Type} {payload : DeploymentJobPayload} {id : JobId} {job : JobState}
    {row : EngineStatus} {p : PlaneProg α} (hp : p.Only Unpatched)
    (h : Stands payload id job row w) :
    p.Ends (World.calm engines o) (fun _ w' => Stands payload id job row w') w := by
  refine Prog.ends_of_only hp (fun w c hw hc => ?_) h
  cases c with
  | queue c => exact hc.elim
  | engine d c => exact hc.elim
  | store c => exact stands_store hw fun p hp => by rw [hp] at hc; exact hc

theorem unpatched_celebrate (id : DeploymentId) (org : OrganizationId) (project : ProjectId)
    (kind : DeploymentKind) (staged : Bool) :
    (celebrate id org project kind staged).Only Unpatched := by
  unfold celebrate
  refine Prog.only_bind ?_ fun _ => only_must trivial
  split
  · unfold promoteDeployment
    refine Prog.only_bind (Prog.only_bind (only_must trivial) fun _ =>
      Prog.only_bind (only_must trivial) fun moved => ?_) fun _ => trivial
    split
    · exact Prog.only_bind (only_must trivial) fun _ => trivial
    · trivial
  · trivial

/-- The patch of the delivery's row. -/
theorem ends_patch {payload : DeploymentJobPayload} {id : JobId} {job : JobState}
    {row : EngineStatus} {p : DeploymentStatusInput} (h : Stands payload id job row w)
    (hid : p.id = payload.deploymentId) (horg : p.organizationId = payload.organizationId) :
    (updateDeploymentStatus p).Ends (World.calm engines o)
      (fun _ w' => Stands payload id job p.status w') w := by
  obtain ⟨hjob, r, hr, hrowOrg, -⟩ := h
  have hrow : r.id = payload.deploymentId := (Table.mem_of_find hr).2
  refine ⟨hjob, p.set r, ?_, hrowOrg, rfl⟩
  show (w.store.patchDeployment p).deployments.find payload.deploymentId = some (p.set r)
  rw [find_patchDeployment]
  unfold World.row at hr
  rw [hr, Option.map_some, if_pos (by simp [owned, hrow, hid, hrowOrg, horg])]

/-- The status a result is written as. -/
def written : AdapterResult DeploymentExecutionResult → EngineStatus
  | .ok _ value => value.status
  | .err status _ => status

theorem reported_ok {result : DeploymentExecutionResult} (hreason : result.reason = none)
    (hstatus : result.status = .succeeded ∨ result.status.InFlight) :
    reported result = .ok result.status result := if_pos ⟨hreason, hstatus⟩

theorem reported_err {result : DeploymentExecutionResult}
    (h : ¬ (result.reason = none ∧ (result.status = .succeeded ∨ result.status.InFlight))) :
    reported result =
      .err result.status (result.reason.getD s!"Deployment ended {result.status.wire}.") := if_neg h

theorem written_reported (result : DeploymentExecutionResult) :
    written (reported result) = result.status := by
  unfold reported
  split <;> rfl

/-- **What the applier leaves**: the job as it was, and the row at the result's status. -/
theorem ends_applier {job : Job DeploymentJobPayload} {id : JobId} {st : JobState}
    {row : EngineStatus} (hkind : job.kind = deploymentJobKind)
    (h : Stands job.payload id st row w) (result : AdapterResult DeploymentExecutionResult) :
    (deploymentApplier job result).Ends (World.calm engines o)
      (fun _ w' => Stands job.payload id st (written result) w') w := by
  unfold deploymentApplier
  rw [if_neg (not_not.mpr hkind)]
  refine Prog.ends_bind (Q := fun r w' => r = .ok w.now ∧ w' = w) ⟨rfl, rfl⟩ ?_ nofun
  rintro finished _ ⟨-, rfl⟩
  cases result with
  | ok status value =>
    refine Prog.ends_bind (ends_patch h rfl rfl) (fun _ w' hw' => ?_) fun _ _ hw => hw
    split
    · exact ends_unpatched (unpatched_celebrate _ _ _ _ _) hw'
    · exact hw'
  | err status reason =>
    exact Prog.ends_bind (ends_patch h rfl rfl) (fun _ _ hw' => hw') fun _ _ hw => hw

/-- A verdict for the queue, then the applier, throw or not. -/
theorem ends_settled {job : Job DeploymentJobPayload} {id : JobId} {st : JobState}
    {row : EngineStatus} {w' : World} {verb : PlaneProg Unit}
    (hverb : verb.eval (World.calm engines o) w = (.ok (), w'))
    (hkind : job.kind = deploymentJobKind) (h : Stands job.payload id st row w')
    (outcome : JobOutcome) (result : AdapterResult DeploymentExecutionResult) :
    (verb.bind fun _ => InProcessWorker.settle deploymentApplier job outcome result).Ends
      (World.calm engines o) (fun _ w' => Stands job.payload id st (written result) w') w := by
  refine Prog.ends_bind (Q := fun r w₁ => r = .ok () ∧ w₁ = w') ?_ ?_ nofun
  · unfold Prog.Ends
    rw [hverb]
    exact ⟨rfl, rfl⟩
  · rintro _ _ ⟨-, rfl⟩
    refine Prog.ends_bind (Prog.ends_attempt
      (R := fun _ w₂ => Stands job.payload id st (written result) w₂) (ends_applier hkind h result))
      (fun _ _ hw => hw) fun _ _ hw => hw

/-- The row in question is there. -/
def Present (payload : DeploymentJobPayload) (w : World) : Prop :=
  ∃ r, w.row payload.deploymentId = some r ∧ r.organizationId = payload.organizationId

theorem stands_of_find {payload : DeploymentJobPayload} {id : JobId} {jobs : JobsTable _}
    {job : JobRow DeploymentJobPayload} {now : Instant} {store : Store}
    (hjob : jobs.find id = some job) (hrow : Present payload ⟨now, jobs, store⟩) :
    ∃ row, Stands payload id job.state row ⟨now, jobs, store⟩ := by
  obtain ⟨r, hr, horg⟩ := hrow
  exact ⟨r.status, by rw [hjob]; rfl, r, hr, horg, rfl⟩

section Settled

variable {job : JobRow DeploymentJobPayload} (hjob : w.jobs.find job.id = some job)
  (hkind : job.kind = deploymentJobKind) (hrow : Present job.payload w)

include hjob hkind hrow

theorem ends_completed (outcome : JobOutcome) (result : AdapterResult DeploymentExecutionResult) :
    ((onQueue (SqlJobQueue.complete job.id)).bind fun _ =>
      InProcessWorker.settle deploymentApplier job.toJob outcome result).Ends
      (World.calm engines o)
      (fun _ w' => Stands job.payload job.id .succeeded (written result) w') w := by
  obtain ⟨row, hstands⟩ := stands_of_find (find_patchJob hjob) hrow
  exact ends_settled (eval_complete job.id) hkind hstands outcome result

theorem ends_terminated (reason : String) (outcome : JobOutcome)
    (result : AdapterResult DeploymentExecutionResult) :
    ((onQueue (SqlJobQueue.terminate job.id reason)).bind fun _ =>
      InProcessWorker.settle deploymentApplier job.toJob outcome result).Ends
      (World.calm engines o)
      (fun _ w' => Stands job.payload job.id .failed (written result) w') w := by
  obtain ⟨row, hstands⟩ := stands_of_find (find_patchJob hjob) hrow
  exact ends_settled (eval_terminate job.id reason) hkind hstands outcome result

theorem ends_failed (reason : String) (outcome : JobOutcome)
    (result : AdapterResult DeploymentExecutionResult) :
    ((onQueue (SqlJobQueue.fail job.id reason)).bind fun _ =>
      InProcessWorker.settle deploymentApplier job.toJob outcome result).Ends
      (World.calm engines o)
      (fun _ w' => Stands job.payload job.id
        (if job.maxAttempts ≤ job.attempts then .failed else .queued) (written result) w') w := by
  obtain ⟨row, hstands⟩ := stands_of_find (find_patchJob hjob) hrow
  have hstate : ((if job.maxAttempts ≤ job.attempts then
      (⟨.failed, some reason, some w.now, none, none⟩ : JobPatch)
      else ⟨.queued, some reason, none, none, none⟩).apply job).state =
      if job.maxAttempts ≤ job.attempts then .failed else .queued := by
    split <;> rfl
  rw [hstate] at hstands
  exact ends_settled (eval_fail hjob reason) hkind hstands outcome result

theorem ends_deferred (hrunning : job.state = .running) (reason : String) (ms : Nat)
    (outcome : JobOutcome) (result : AdapterResult DeploymentExecutionResult) :
    ((onQueue (SqlJobQueue.defer job.id reason ms)).bind fun _ =>
      InProcessWorker.settle deploymentApplier job.toJob outcome result).Ends
      (World.calm engines o)
      (fun _ w' => Stands job.payload job.id .queued (written result) w') w := by
  obtain ⟨row, hstands⟩ := stands_of_find (find_deferred hjob hrunning) hrow
  exact ends_settled (eval_defer job.id reason ms) hkind hstands outcome result

/-- A result in flight: the ceiling, or another poll. -/
theorem ends_inFlight (hrunning : job.state = .running) (options : WorkerOptions) (reason : String)
    (ceiling : String) (beyond under : JobOutcome)
    (past result : AdapterResult DeploymentExecutionResult)
    (hsame : written past = written result) :
    ((onQueue SqlJobQueue.now).bind fun now =>
      if options.pollCeilingMs ≤ now - job.createdAt then
        (onQueue (SqlJobQueue.terminate job.id ceiling)).bind fun _ =>
          InProcessWorker.settle deploymentApplier job.toJob beyond past
      else
        (onQueue (SqlJobQueue.defer job.id reason options.pollBackoffMs)).bind fun _ =>
          InProcessWorker.settle deploymentApplier job.toJob under result).Ends
      (World.calm engines o)
      (fun _ w' => Stands job.payload job.id
        (if options.pollCeilingMs ≤ w.now - job.createdAt then .failed else .queued)
        (written result) w') w := by
  refine Prog.ends_bind (Q := fun r w' => r = .ok w.now ∧ w' = w) ⟨rfl, rfl⟩ ?_ nofun
  rintro now _ ⟨hnow, rfl⟩
  obtain rfl := Except.ok.inj hnow
  split
  · rw [← hsame]
    exact ends_terminated hjob hkind hrow ceiling beyond past
  · exact ends_deferred hjob hkind hrow hrunning reason options.pollBackoffMs under result

/-- **What follows a handler that returned.** -/
theorem ends_finish (hrunning : job.state = .running) (options : WorkerOptions)
    (result : DeploymentExecutionResult) :
    (InProcessWorker.finish planePort options deploymentApplier job.toJob (reported result)).Ends
      (World.calm engines o) (fun _ w' => Stands job.payload job.id
        (ruling options w.now job result) result.status w') w := by
  rw [← written_reported result]
  dsimp only [ruling]
  cases hstatus : result.status with
  | succeeded =>
    by_cases hreason : result.reason = none
    · rw [reported_ok hreason (.inl hstatus), if_pos hreason, hstatus]
      exact ends_completed hjob hkind hrow _ _
    · rw [reported_err fun h => hreason h.1, if_neg hreason, hstatus]
      simp only [decide_eq_true_eq]
      exact ends_failed hjob hkind hrow _ _ _
  | pending | running =>
    have hflight : result.status.InFlight := by
      rw [hstatus]
      decide
    by_cases hreason : result.reason = none
    · rw [reported_ok hreason (.inr hflight), hstatus]
      exact ends_inFlight hjob hkind hrow hrunning options _ _ _ _ (.err _ _) (.ok _ result) hstatus.symm
    · rw [reported_err fun h => hreason h.1, hstatus]
      exact ends_inFlight hjob hkind hrow hrunning options _ _ _ _ (.err _ _) (.err _ _) rfl
  | degraded | notConfigured =>
    rw [reported_err (by simp [hstatus, EngineStatus.InFlight]), hstatus]
    exact ends_terminated hjob hkind hrow _ _ _
  | failed =>
    rw [reported_err (by simp [hstatus, EngineStatus.InFlight]), hstatus]
    simp only [decide_eq_true_eq]
    exact ends_failed hjob hkind hrow _ _ _

end Settled

/-! ## The handler -/

/-- What stays while the handler runs: the queue, the time, and that there is a row. -/
structure Holds (payload : DeploymentJobPayload) (w w' : World) : Prop where
  jobs : w'.jobs = w.jobs
  now : w'.now = w.now
  row : Present payload w'

/-- And calls that leave the queue alone leave the job. -/
theorem holds_offQueue {payload : DeploymentJobPayload} {w' : World} {c : Call}
    (h : Holds payload w w') (hc : OffQueue c) :
    Holds payload w (World.calm engines o w' c).2 := by
  cases c with
  | queue c => exact hc.elim
  | engine d c => exact h
  | store c =>
    have hnow : (World.calm engines o w' (.store c)).2.now = w'.now := rfl
    refine ⟨(perform_store_jobs _ _ _ c).trans h.jobs, hnow.trans h.now, ?_⟩
    obtain ⟨r, hr, horg⟩ := h.row
    have htouches := touches_perform engines payload.deploymentId w' { o with fault := .none }
      (.store c)
    unfold Present World.calm
    generalize (w'.perform engines { o with fault := .none } (.store c)).2.row
      payload.deploymentId = after at htouches ⊢
    generalize Call.store c = call at htouches
    cases htouches with
    | patch hid hrow =>
      rw [hr] at hrow
      obtain rfl := Option.some.inj hrow
      exact ⟨_, rfl, horg⟩
    | promote hrow =>
      rw [hr] at hrow
      obtain rfl := Option.some.inj hrow
      exact ⟨_, rfl, horg⟩
    | insert hnone =>
      rw [hr] at hnone
      cases hnone
    | keep => exact ⟨r, hr, horg⟩

/-- The job and the row say the same. -/
def Agreed (payload : DeploymentJobPayload) (id : JobId) (w : World) : Prop :=
  ∃ job row, Stands payload id job row w ∧ Accord job row

theorem agreed_iff {payload : DeploymentJobPayload} {id : JobId} {job : JobState}
    {row : EngineStatus} (h : Stands payload id job row w) : Agreed payload id w ↔ Accord job row := by
  constructor
  · rintro ⟨job', row', h', haccord⟩
    obtain rfl := Option.some.inj (h.job.symm.trans h'.job)
    obtain ⟨r, hr, -, rfl⟩ := h.row
    obtain ⟨r', hr', -, rfl⟩ := h'.row
    obtain rfl := Option.some.inj (hr.symm.trans hr')
    exact haccord
  · exact fun haccord => ⟨job, row, h, haccord⟩

section Delivered

variable {job : JobRow DeploymentJobPayload} (hjob : w.jobs.find job.id = some job)
  (hkind : job.kind = deploymentJobKind) (hrow : Present job.payload w)
  (hrunning : job.state = .running)

include hjob hkind hrow hrunning

/-- One delivery, whatever program is run for `executeDeployment`. -/
theorem agreed_deliver {execute : Execution} (hexecute : ∀ p ctx, (execute p ctx).Only OffQueue)
    (options : WorkerOptions) :
    Agreed job.payload job.id ((InProcessWorker.deliver planePort options
      (fun kind =>
        if kind = deploymentJobKind then
          some fun payload ctx => (execute payload ctx).bind fun result => .ret (reported result)
        else none) deploymentApplier job.toJob).eval (World.calm engines o) w).2 ↔
      Settles options w.now job ((execute job.payload
        ⟨job.organizationId, job.idempotencyKey, options.defaultTimeoutMs⟩).eval
          (World.calm engines o) w).1 := by
  generalize hctx : (⟨job.organizationId, job.idempotencyKey, options.defaultTimeoutMs⟩ :
    JobContext) = ctx
  have hholds : (execute job.payload ctx).Ends (World.calm engines o)
      (fun _ w' => Holds job.payload w w') w :=
    Prog.ends_of_only (hexecute _ _) (fun _ _ h hc => holds_offQueue h hc) ⟨rfl, rfl, hrow⟩
  unfold InProcessWorker.deliver
  simp only [if_pos hkind, hctx, Prog.eval_bind, Prog.eval_attempt]
  unfold Prog.Ends at hholds
  generalize hran : (execute job.payload ctx).eval (World.calm engines o) w = ran at hholds ⊢
  obtain ⟨outcome, w'⟩ := ran
  obtain ⟨hjobs, hnow, hrow'⟩ := hholds
  have hjob' : w'.jobs.find job.id = some job := by
    rw [hjobs]
    exact hjob
  cases outcome with
  | error reason =>
    have hends := (@ends_failed engines o) hjob' hkind hrow' reason
      ⟨job.id, job.kind, .failed, false, some reason⟩ (.err .failed reason)
    refine (agreed_iff hends).trans ?_
    have hfailed := accord_ruling_iff options w'.now job
      ⟨.failed, none, none, none, none, none, none⟩
    simpa [ruling, Settles, written] using hfailed
  | ok result =>
    have hends := (@ends_finish engines o) hjob' hkind hrow' hrunning options result
    refine (agreed_iff hends).trans ?_
    rw [hnow]
    exact accord_ruling_iff options w.now job result

end Delivered

/-! ## The tick -/

/-- The job as a worker's claim leaves it. -/
def claimedBy (options : WorkerOptions) (now : Instant) (row : JobRow DeploymentJobPayload) :
    JobRow DeploymentJobPayload :=
  leased now options.workerId (SqlJobQueue.leaseSeconds options.leaseMs) row

/-- The plane after the claim of a row. -/
def World.claim (w : World) (options : WorkerOptions) (row : JobRow DeploymentJobPayload) : World :=
  ⟨w.now, w.jobs.update (fun r => r.id == row.id) ⟨claimedBy options w.now, fun _ => rfl⟩, w.store⟩

/-- An undisturbed claim takes the next job that can be claimed. -/
theorem eval_claim {options : WorkerOptions} {row : JobRow DeploymentJobPayload}
    (hworker : blank options.workerId = false) (hnext : nextClaim w.now o.locked w.jobs = some row) :
    (onQueue (SqlJobQueue.claim options.workerId options.leaseMs)).eval (World.calm engines o) w =
      (.ok (some (claimedBy options w.now row).toJob), w.claim options row) := by
  have hlease : SqlJobQueue.leaseSeconds options.leaseMs ≠ 0 := by
    unfold SqlJobQueue.leaseSeconds
    omega
  have hclaim : claimOrchestrationJob w.now o.locked options.workerId
      (SqlJobQueue.leaseSeconds options.leaseMs) w.jobs =
        (.ok [claimedBy options w.now row], (w.claim options row).jobs) := by
    unfold claimOrchestrationJob
    rw [hworker, if_neg hlease, hnext]
    rfl
  have hperform : World.calm engines o w
      (.queue (.claim options.workerId (SqlJobQueue.leaseSeconds options.leaseMs))) =
        (.ok [claimedBy options w.now row], w.claim options row) := by
    show ((claimOrchestrationJob _ _ _ _ _).1.mapError _,
      (⟨w.now, (claimOrchestrationJob _ _ _ _ _).2, w.store⟩ : World)) = _
    rw [hclaim]
    rfl
  unfold SqlJobQueue.claim onQueue Queue.must
  simp only [Prog.bind, Prog.embed, Prog.eval]
  rw [hperform]
  rfl

theorem find_of_nextClaim {now : Instant} {locked : JobId → Bool}
    {jobs : JobsTable DeploymentJobPayload} {row : JobRow DeploymentJobPayload}
    (h : nextClaim now locked jobs = some row) : jobs.find row.id = some row :=
  Table.find_eq_some.mpr ⟨(List.mem_filter.mp (List.argmin_mem h)).1, rfl⟩

/-- **Job and row agree** after a tick exactly if what the handler came to settles. -/
theorem agreed_iff_settles (engines : Engines) (o : Oracle) (w : World) (execute : Execution)
    (options : WorkerOptions) (row : JobRow DeploymentJobPayload)
    (hexecute : ∀ payload ctx, (execute payload ctx).Only OffQueue)
    (hworker : blank options.workerId = false)
    (hnext : nextClaim w.now o.locked w.jobs = some row) (hkind : row.kind = deploymentJobKind)
    (hrow : Present row.payload w) :
    Agreed row.payload row.id ((tickWith execute options).eval (World.calm engines o) w).2 ↔
      Settles options w.now (claimedBy options w.now row)
        ((execute row.payload
          ⟨row.organizationId, row.idempotencyKey, options.defaultTimeoutMs⟩).eval
            (World.calm engines o) (w.claim options row)).1 := by
  have hjob : (w.claim options row).jobs.find row.id = some (claimedBy options w.now row) := by
    unfold World.claim
    rw [Table.find_update, find_of_nextClaim hnext, Option.map_some, Table.Edit.on_hit (by simp)]
  have hdelivered := (@agreed_deliver engines o (w.claim options row) (claimedBy options w.now row)) hjob hkind hrow rfl hexecute options
  refine Iff.trans (iff_of_eq ?_) hdelivered
  unfold tickWith InProcessWorker.tick
  rw [Prog.eval_bind]
  have hclaim := (@eval_claim engines) hworker hnext
  unfold onQueue at hclaim
  rw [show (SqlJobQueue.claim options.workerId options.leaseMs).embed planePort.queue
    planePort.back = (SqlJobQueue.claim options.workerId options.leaseMs).embed Call.queue
      fun _ a => a from rfl, hclaim]
  dsimp only
  rw [Prog.eval_bind]
  split <;> rename_i heval <;> rw [heval] <;> rfl

end Calm

/-! ## The executor leaves the queue alone -/

theorem offQueue_executeDeployment (engines : Engines) (input : ExecuteDeploymentInput) :
    (executeDeployment engines input).Only OffQueue := by
  refine Prog.only_mono (fun c h => ?_) (executing_executeDeployment engines)
  cases c with
  | queue c => exact h.elim (fun h => h) fun h => h
  | store c => trivial
  | engine row c => trivial

/-! ## Ticks -/

/-- A deployment has been requested, and its job is queued. -/
def queuedPlane : World :=
  (runFrom (planeHost ⟨none, false⟩).step
    (Sys.start (World.initial 0 oneProject fun _ _ => true)) requested).world

/-- That job. -/
def queuedJob : JobRow DeploymentJobPayload := (queuedPlane.jobs.find 0).get (by decide)

theorem present_queuedJob : Present queuedJob.payload queuedPlane := by
  have hrow : ((queuedPlane.row queuedJob.payload.deploymentId).map (·.organizationId)) =
      some queuedJob.payload.organizationId := by decide
  obtain ⟨r, hr, horg⟩ := Option.map_eq_some_iff.mp hrow
  exact ⟨r, hr, horg⟩

/-- Its build succeeds at once. -/
theorem agreed_built : Agreed queuedJob.payload queuedJob.id
    ((tickWith (fun payload ctx => executeDeployment ⟨none, false⟩ (executeInput payload ctx))
      aWorker).eval (World.calm ⟨none, false⟩ built.oracle) queuedPlane).2 :=
  (agreed_iff_settles ⟨none, false⟩ built.oracle queuedPlane _ aWorker queuedJob
    (fun _ _ => offQueue_executeDeployment _ _) (by decide) (by decide) (by decide)
    present_queuedJob).mpr (by decide)

/-- An engine that takes no build. -/
def down : Script := { building with deployed := .err .failed "connection refused" }

/-- Its build is refused: the row says `failed`, and the job is queued again. -/
theorem failed_row_queued_job : ¬ ∀ (engines : Engines) (o : Oracle) (w : World)
    (options : WorkerOptions) (row : JobRow DeploymentJobPayload),
    blank options.workerId = false → nextClaim w.now o.locked w.jobs = some row →
    row.kind = deploymentJobKind → Present row.payload w →
    Agreed row.payload row.id ((workerTick engines options).eval (World.calm engines o) w).2 := by
  intro h
  obtain ⟨job, row, ⟨hjob, r, hr, -, hrow⟩, haccord⟩ :=
    h ⟨none, false⟩ down.oracle queuedPlane aWorker queuedJob (by decide) (by decide) (by decide)
      present_queuedJob
  have hqueued : job = .queued := by
    refine Option.some.inj (hjob.symm.trans ?_)
    decide
  have hfailed : row = .failed := by
    have hstatus := congrArg (Option.map fun r : DeploymentRow => r.status) hr
    rw [← hrow]
    refine Option.some.inj (hstatus.symm.trans ?_)
    decide
  have hflight := haccord.returned hqueued
  rw [hfailed] at hflight
  revert hflight
  decide

end CloudWai.Deployment
