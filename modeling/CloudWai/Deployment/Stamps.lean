import CloudWai.Deployment.Alone
import Mathlib
import CloudWai.Deployment.Plane

/-!
# When a row was started, and when it ended

`started_at` and `finished_at` come from the clock of whoever writes the row. Followed
along the clock readings of its own thread (`stampProtocol`), every write is one of two: a
mark, that carries neither; or a stamp, that carries a reading as the start and, exactly if
its status is terminal, that reading or a later one as the end. So wherever a mark meets
only rows in flight, `finished_at` says whether the row has ended, and the end is not
before the start.

The start itself is another matter. No writer looks at the one the row has, and the mark
that records the engine's acceptance carries none: a second stamp replaces the first, and
the first comes after the acceptance. `dated_iff` is when that does no harm: where the clock
stands still from the acceptance to whatever is stamped.

About `updateDeploymentStatus` of `packages/database/src/supabase-store.ts` and the
appliers of `apps/worker/src`, as `Store.lean` and `Worker.lean` have them.
-/

namespace CloudWai.Deployment

open Base Queue ControlPlaneStore

variable {α β : Type}

/-! ## What a write may carry -/

/-- The times of a write, given the readings of its thread, the newest first. -/
def Stamps (readings : List Instant) (p : DeploymentStatusInput) : Prop :=
  match p.startedAt, p.finishedAt with
  | none, none => True
  | some started, some none => started ∈ readings ∧ p.status.InFlight
  | some started, some (some finished) =>
    finished ∈ readings ∧ started ∈ readings.dropWhile (· != finished) ∧ p.status.Terminal
  | _, _ => False

instance (readings : List Instant) (p : DeploymentStatusInput) : Decidable (Stamps readings p) := by
  unfold Stamps
  split <;> infer_instance

/-- Readings are collected; a write carries some of them; a row is made in flight. -/
def stampNext (readings : List Instant) :
    (c : Call) → Except String c.Ans → Option (List Instant)
  | .queue .clock, .ok (now : Instant) => some (now :: readings)
  | .store (.patchDeployment p), _ => if Stamps readings p then some readings else none
  | .store (.insertDeployment input), _ =>
    if input.status.InFlight then some readings else none
  | _, _ => some readings

/-- What a thread stamps, by the clock readings it has. -/
def stampProtocol : Protocol Call Call.Ans String (List Instant) where
  next := stampNext
  Possible _ _ := True

/-- Nothing that was read is forgotten. -/
def Keeps (readings : List Instant) (_ : Except String α) (readings' : List Instant) : Prop :=
  readings ⊆ readings'

/-- A call that carries no time. -/
def Plain : Call → Prop
  | .store (.patchDeployment p) => p.startedAt = none ∧ p.finishedAt = none
  | .store (.insertDeployment input) => input.status.InFlight
  | _ => True

variable {l : List Instant}

theorem next_plain {c : Call} (h : Plain c) (r : Except String c.Ans) :
    ∃ l', stampNext l c r = some l' ∧ l ⊆ l' := by
  unfold stampNext
  split
  · exact ⟨_, rfl, List.subset_cons_self _ _⟩
  · refine ⟨l, if_pos ?_, fun _ h => h⟩
    unfold Stamps
    obtain ⟨hstarted, hfinished⟩ := h
    rw [hstarted, hfinished]
    trivial
  · exact ⟨l, if_pos h, fun _ h => h⟩
  · exact ⟨l, rfl, fun _ h => h⟩

theorem keeps_plain {p : PlaneProg α} (hp : p.Only Plain) : ∀ l : List Instant,
    stampProtocol.Follows (Keeps l) l p := by
  induction p with
  | ret a => exact fun l _ h => h
  | raise e => exact fun l _ h => h
  | await c k ih =>
    intro l r _
    obtain ⟨l', hnext, hsub⟩ := next_plain (l := l) hp.1 r
    exact ⟨l', hnext, Protocol.follows_mono (fun _ _ h => List.Subset.trans hsub h) (ih r (hp.2 r) l')⟩

theorem keeps_bind {p : PlaneProg α} {f : α → PlaneProg β}
    (hp : stampProtocol.Follows (Keeps l) l p)
    (hf : ∀ a l', l ⊆ l' → stampProtocol.Follows (Keeps l') l' (f a)) :
    stampProtocol.Follows (Keeps l) l (p.bind f) :=
  Protocol.follows_bind hp
    (fun a l' hsub => Protocol.follows_mono (fun _ _ h => List.Subset.trans hsub h) (hf a l' hsub))
    fun _ _ h => h

/-- A reading is there from then on. -/
theorem keeps_clock {f : Instant → PlaneProg α}
    (hf : ∀ now, stampProtocol.Follows (Keeps (now :: l)) (now :: l) (f now)) :
    stampProtocol.Follows (Keeps l) l (clock.bind f) := by
  intro r _
  cases r with
  | error e => exact ⟨l, rfl, fun _ h => h⟩
  | ok now =>
    exact ⟨now :: l, rfl,
      Protocol.follows_mono (fun _ _ h => List.Subset.trans (List.subset_cons_self _ _) h) (hf now)⟩

theorem keeps_update {p : DeploymentStatusInput} (h : Stamps l p) :
    stampProtocol.Follows (Keeps l) l (updateDeploymentStatus p) := by
  intro r _
  refine ⟨l, if_pos h, ?_⟩
  cases r <;> exact fun _ h => h

theorem mem_dropWhile_ne {t : Instant} (h : t ∈ l) : t ∈ l.dropWhile (· != t) := by
  induction l with
  | nil => cases h
  | cons a l ih =>
    by_cases ha : a = t
    · subst ha
      simp
    · rw [List.dropWhile_cons_of_pos (by simpa using ha)]
      exact ih ((List.mem_cons.mp h).resolve_left (Ne.symm ha))

/-- One reading for both. -/
theorem stamps_now {p : DeploymentStatusInput} {now : Instant} (hnow : now ∈ l)
    (hstarted : p.startedAt = some now) (hfinished : p.finishedAt = some (finishedAt p.status now)) :
    Stamps l p := by
  unfold Stamps
  rw [hstarted, hfinished]
  unfold finishedAt
  by_cases h : p.status.Terminal
  · rw [if_pos h]
    exact ⟨hnow, mem_dropWhile_ne hnow, h⟩
  · rw [if_neg h]
    refine ⟨hnow, ?_⟩
    rw [EngineStatus.terminal_iff, not_not] at h
    exact h

/-! ## The programs -/

theorem plain_onQueue (p : QueueProg DeploymentJobPayload α) : (onQueue p).Only Plain := by
  induction p with
  | ret a => trivial
  | raise e => trivial
  | await c k ih => exact ⟨trivial, fun r => ih _⟩

theorem executes_plain (input : ExecuteDeploymentInput) : Executes Plain input where
  read _ := trivial
  mark _ _ _ := ⟨rfl, rfl⟩
  noted _ := ⟨rfl, rfl⟩
  poll _ _ _ := trivial
  build _ _ := trivial
  artifact _ _ := trivial
  deploy _ _ := trivial
  publish _ _ _ := trivial
  rollback _ _ _ := trivial
  create _ _ := trivial
  locate c h := by
    unfold Locating at h
    split at h <;> trivial

theorem plain_celebrate (id : DeploymentId) (org : OrganizationId) (project : ProjectId)
    (kind : DeploymentKind) (staged : Bool) :
    (celebrate id org project kind staged).Only Plain := by
  refine Prog.only_bind ?_ fun _ => only_must trivial
  split
  · refine Prog.only_bind ?_ fun _ => trivial
    refine Prog.only_bind (only_must trivial) fun _ => ?_
    refine Prog.only_bind (only_must trivial) fun moved => ?_
    cases moved with
    | false => trivial
    | true => exact Prog.only_bind (only_must trivial) fun _ => trivial
  · trivial

/-- The applier stamps with its one reading. -/
theorem keeps_applier (job : Job DeploymentJobPayload)
    (result : AdapterResult DeploymentExecutionResult) :
    stampProtocol.Follows (Keeps l) l (deploymentApplier job result) := by
  unfold deploymentApplier
  split
  · exact fun _ h => h
  · refine keeps_clock fun finished => ?_
    cases result with
    | err status reason =>
      exact keeps_bind (keeps_update (stamps_now List.mem_cons_self rfl rfl))
        fun _ _ _ => fun _ h => h
    | ok status value =>
      refine keeps_bind (keeps_update (stamps_now List.mem_cons_self rfl rfl)) fun _ l' _ => ?_
      split
      · exact keeps_plain (plain_celebrate _ _ _ _ _) l'
      · exact fun _ h => h

theorem keeps_settle (job : Job DeploymentJobPayload) (outcome : JobOutcome)
    (result : AdapterResult DeploymentExecutionResult) :
    stampProtocol.Follows (Keeps l) l
      (InProcessWorker.settle deploymentApplier job outcome result) := by
  refine keeps_bind ?_ fun _ _ _ => fun _ h => h
  exact Protocol.follows_attempt (Protocol.follows_mono (fun _ _ h => h) (keeps_applier job result))

/-- The end of a delivery stamps by the clock that its own thread has read. -/
theorem keeps_finish (options : WorkerOptions) (job : Job DeploymentJobPayload)
    (result : AdapterResult DeploymentExecutionResult) :
    stampProtocol.Follows (Keeps l) l
      (InProcessWorker.finish planePort options deploymentApplier job result) := by
  have hthen : ∀ {γ : Type} (p : QueueProg DeploymentJobPayload γ) (outcome : JobOutcome)
      (result : AdapterResult DeploymentExecutionResult) (l : List Instant),
      stampProtocol.Follows (Keeps l) l ((onQueue p).bind fun _ =>
        InProcessWorker.settle deploymentApplier job outcome result) :=
    fun p outcome result l =>
      keeps_bind (keeps_plain (plain_onQueue p) l) fun _ _ _ => keeps_settle job outcome result
  unfold InProcessWorker.finish
  simp only
  split
  · exact hthen _ _ _ l
  split
  · refine keeps_clock fun now => ?_
    split
    · exact hthen _ _ _ _
    · exact hthen _ _ _ _
  split
  · exact hthen _ _ _ l
  · exact hthen _ _ _ l

theorem keeps_deliver (engines : Engines) (options : WorkerOptions)
    (job : Job DeploymentJobPayload) :
    stampProtocol.Follows (Keeps l) l
      (InProcessWorker.deliver planePort options (handlers engines) deploymentApplier job) := by
  unfold InProcessWorker.deliver handlers
  by_cases hkind : job.kind = deploymentJobKind
  · simp only [hkind, if_true]
    refine keeps_bind (keeps_plain (Prog.only_attempt ?_) l) fun outcome l' _ => ?_
    · exact Prog.only_bind (executes_executeDeployment engines (executes_plain _)) fun _ => trivial
    · cases outcome with
      | error reason =>
        exact keeps_bind (keeps_plain (plain_onQueue _) l') fun _ _ _ => keeps_settle _ _ _
      | ok result => exact keeps_finish options job result
  · simp only [hkind, if_false]
    exact keeps_bind (keeps_plain (plain_onQueue _) l) fun _ _ _ => keeps_settle _ _ _

theorem keeps_workerTick (engines : Engines) (options : WorkerOptions) :
    stampProtocol.Follows (Keeps l) l (workerTick engines options) := by
  refine keeps_bind (keeps_plain (plain_onQueue _) l) fun claimed l' _ => ?_
  cases claimed with
  | none => exact fun _ h => h
  | some job => exact keeps_bind (keeps_deliver engines options job) fun _ _ _ => fun _ h => h

/-- The sweep stamps with the reading it began with. -/
theorem keeps_writeSettled {row : DeploymentRow} {now : Instant} {settled : Settled}
    (hnow : now ∈ l) : stampProtocol.Follows (Keeps l) l (writeSettled row now settled) := by
  refine keeps_bind (keeps_update (stamps_now hnow rfl rfl)) fun _ l' _ => ?_
  split
  · refine keeps_bind (keeps_plain (plain_celebrate _ _ _ _ _) l') fun _ _ _ => fun _ h => h
  · exact fun _ h => h

theorem keeps_settleOne (engines : Engines) (options : ReconcilerOptions) {now : Instant}
    (row : DeploymentRow) (hnow : now ∈ l) :
    stampProtocol.Follows (Keeps l) l (settleOne engines options now row) := by
  have htarget : (getProjectDeploymentTargetForService row.organizationId row.projectId).Only
      Plain := only_must trivial
  refine keeps_bind (keeps_plain htarget l) fun target l' hsub => ?_
  dsimp only
  split
  · split
    · exact fun _ h => h
    · exact keeps_writeSettled (hsub hnow)
  · obtain ⟨m, hport⟩ := port_getDeployment engines row.id (sweepModel row target)
    rw [hport]
    have hpoll : ∀ c : EngineCall, (onEngine row.id c).Only Plain := fun c => Prog.only_call trivial
    refine keeps_bind (keeps_plain (hpoll _) l') fun answer l'' hsub' => ?_
    split
    · exact keeps_writeSettled (hsub' (hsub hnow))
    · exact fun _ h => h

theorem keeps_settleAll (engines : Engines) (options : ReconcilerOptions) {now : Instant}
    (rows : List DeploymentRow) : ∀ l : List Instant, now ∈ l →
      stampProtocol.Follows (Keeps l) l (settleAll engines options now rows) := by
  induction rows with
  | nil => exact fun l _ _ h => h
  | cons row rest ih =>
    intro l hnow
    refine keeps_bind (keeps_settleOne engines options row hnow) fun settled l' hsub => ?_
    exact keeps_bind (ih l' (hsub hnow)) fun n _ _ => fun _ h => h

theorem keeps_reconcile (engines : Engines) (options : ReconcilerOptions) :
    stampProtocol.Follows (Keeps l) l (reconcile engines options) := by
  refine keeps_clock fun now => ?_
  have hlist : ∀ olderThan limit, (must "listStrandedDeploymentsForService"
      (.selectStranded olderThan limit)).Only Plain := fun _ _ => only_must trivial
  refine keeps_bind (keeps_plain (hlist _ _) _) fun stranded l' hsub => ?_
  exact keeps_settleAll engines options stranded l' (hsub List.mem_cons_self)

theorem plain_authorizedProject (ctx : RequestContext) (project : ProjectId) (c : Capability) :
    (authorizedProject ctx project c).Only Plain := by
  refine Prog.only_bind (only_must trivial) fun found => ?_
  cases found with
  | none => trivial
  | some project =>
    refine Prog.only_bind ?_ fun _ => trivial
    unfold requireCapability
    split <;> trivial

theorem plain_projectDeployment (ctx : RequestContext) (project : ProjectRow)
    (id : DeploymentId) : (projectDeployment ctx project id).Only Plain := by
  refine Prog.only_bind (only_must trivial) fun found => ?_
  cases found with
  | none => trivial
  | some row =>
    simp only
    split <;> trivial

/-- A refused cancel stamps the status it read, which was in flight. -/
theorem keeps_keepRow {org : OrganizationId} {row : DeploymentRow} {reason : String}
    (hflight : row.status.InFlight) :
    stampProtocol.Follows (Keeps l) l (keepRow org row reason) := by
  refine keeps_clock fun started => ?_
  exact keeps_bind (keeps_update ⟨List.mem_cons_self, hflight⟩) fun _ _ _ => fun _ h => h

/-- An accepted one reads the clock twice. -/
theorem keeps_closeRow {ctx : RequestContext} {org : OrganizationId} {row : DeploymentRow}
    {reason : String} : stampProtocol.Follows (Keeps l) l (closeRow ctx org row reason) := by
  refine keeps_clock fun started => keeps_clock fun finished => ?_
  refine keeps_bind (keeps_update ⟨List.mem_cons_self, ?_, ?_⟩) fun _ l' _ => ?_
  · show started ∈ (finished :: started :: l).dropWhile (· != finished)
    rw [List.dropWhile_cons_of_neg (by simp)]
    exact List.mem_cons_of_mem _ List.mem_cons_self
  · show EngineStatus.failed.Terminal
    decide
  · have haudit : ∀ event, (recordAuditEvent event).Only Plain := fun _ => only_must trivial
    exact keeps_bind (keeps_plain (haudit _) l') fun _ _ _ => fun _ h => h

/-- So does a cancel. -/
theorem keeps_cancelDeployment (engines : Engines) (ctx : RequestContext) (project : ProjectId)
    (id : DeploymentId) :
    stampProtocol.Follows (Keeps l) l (cancelDeployment engines ctx project id) := by
  refine keeps_bind (keeps_plain (plain_authorizedProject ctx project _) l) fun project l' _ => ?_
  refine keeps_bind (keeps_plain (plain_projectDeployment ctx project id) l') fun row l'' _ => ?_
  unfold cancelRow
  split
  · exact fun _ h => h
  next hflight =>
    rw [not_not] at hflight
    dsimp only
    split
    · exact keeps_closeRow
    next handle _ =>
      refine keeps_bind (keeps_plain ?_ l'') fun answer l₃ _ => ?_
      · rcases port_cancel engines row.id project.executionModel
          ⟨project.organizationId, s!"cancel-{row.id}", adapterTimeoutMs⟩
          ⟨project.organizationId,
            providerOf (deploymentEngineFor engines row.id project.executionModel).model,
            .deployment, handle⟩ with ⟨_, h⟩ | h | h
        all_goals rw [h]
        · trivial
        · exact Prog.only_call trivial
        · exact Prog.only_call trivial
      · cases answer with
        | err status reason => exact keeps_keepRow hflight
        | ok status value => exact keeps_closeRow

/-- A promotion stamps nothing. -/
theorem plain_promoteProcedure (ctx : RequestContext) (project : ProjectId) (id : DeploymentId) :
    (promoteProcedure ctx project id).Only Plain := by
  refine Prog.only_bind (plain_authorizedProject ctx project _) fun project => ?_
  refine Prog.only_bind (plain_projectDeployment ctx project id) fun row => ?_
  unfold promoteRow
  split
  · trivial
  split
  · trivial
  refine Prog.only_bind ?_ fun promoted => ?_
  · refine Prog.only_bind (only_must trivial) fun _ => ?_
    refine Prog.only_bind (only_must trivial) fun moved => ?_
    cases moved with
    | false => trivial
    | true => exact Prog.only_bind (only_must trivial) fun _ => trivial
  · obtain ⟨promoted, previous⟩ := promoted
    cases promoted with
    | none => trivial
    | some promoted => exact Prog.only_bind (only_must trivial) fun _ => trivial

theorem plain_deploymentsLogs (engines : Engines) (ctx : RequestContext) (project : ProjectId)
    (id : DeploymentId) (cursor : Option String) :
    (deploymentsLogs engines ctx project id cursor).Only Plain := by
  refine Prog.only_bind (plain_authorizedProject ctx project .read) fun project => ?_
  refine Prog.only_bind (only_must trivial) fun row => ?_
  refine Prog.only_bind (only_must trivial) fun target => ?_
  simp only
  split
  · exact Prog.only_bind (Prog.only_call trivial) fun _ => trivial
  · split
    · trivial
    · refine Prog.only_bind ?_ fun _ => trivial
      unfold deploymentEngineFor
      split
      · exact Prog.only_call trivial
      split
      · exact Prog.only_call trivial
      · exact Prog.only_call trivial

theorem plain_replayOf (ctx : RequestContext) (project : ProjectRow) (key : String) :
    (replayOf ctx project key).Only Plain := by
  refine Prog.only_bind (only_must trivial) fun existing => ?_
  cases existing with
  | none => trivial
  | some existing =>
    simp only
    split <;> trivial

theorem plain_assertWithinBudget (org : OrganizationId) (metric : String) :
    (assertWithinBudget org metric).Only Plain := by
  refine Prog.only_bind (only_must trivial) fun refusal => ?_
  cases refusal <;> trivial

theorem plain_ensurePreviewTarget (org : OrganizationId) (project : ProjectId) (key : String)
    (branch : Option String) (pullRequest : Option Nat) :
    (ensurePreviewTarget org project key branch pullRequest).Only Plain := by
  refine Prog.only_bind (only_must trivial) fun found => ?_
  cases found with
  | some target => trivial
  | none => exact only_must trivial

theorem plain_dispatch (ctx : RequestContext) (event key : String)
    (payload : DeploymentJobPayload) : (dispatch ctx event key payload).Only Plain :=
  Prog.only_bind (plain_onQueue _) fun _ => only_must trivial

/-- Nor does a request for a deployment. -/
theorem plain_requestDeployment (ctx : RequestContext) (input : RequestInput) :
    (requestDeployment ctx input).Only Plain := by
  refine Prog.only_bind (plain_authorizedProject ctx _ _) fun project => ?_
  simp only
  split
  · trivial
  refine Prog.only_bind (plain_replayOf ctx project _) fun replay => ?_
  cases replay with
  | some result => trivial
  | none =>
    refine Prog.only_bind (plain_assertWithinBudget _ _) fun _ => ?_
    refine Prog.only_bind (Prog.only_bind (only_must trivial) fun _ => trivial)
      fun environmentId => ?_
    refine Prog.only_bind (only_must (.inl rfl)) fun row => ?_
    refine Prog.only_bind ?_ fun _ => ?_
    · unfold recordPreviewTarget
      split
      · trivial
      · exact plain_ensurePreviewTarget _ _ _ _ _
    · exact Prog.only_bind (plain_dispatch ctx _ _ _) fun _ => trivial

theorem plain_rollbackDeployment (ctx : RequestContext) (project : ProjectId)
    (key commit : String) : (rollbackDeployment ctx project key commit).Only Plain := by
  refine Prog.only_bind (plain_authorizedProject ctx _ _) fun project => ?_
  refine Prog.only_bind (plain_replayOf ctx project _) fun replay => ?_
  cases replay with
  | some result => trivial
  | none =>
    refine Prog.only_bind (plain_assertWithinBudget _ _) fun _ => ?_
    refine Prog.only_bind (Prog.only_bind (only_must trivial) fun _ => trivial)
      fun environmentId => ?_
    refine Prog.only_bind (only_must (.inl rfl)) fun row => ?_
    refine Prog.only_bind (only_must trivial) fun _ => ?_
    exact Prog.only_bind (plain_dispatch ctx _ _ _) fun _ => trivial

/-- Nor a delivery of a git provider. -/
theorem plain_deployFromDelivery (link : ProjectGitLink) (delivery : ParsedGitDelivery) :
    (deployFromDelivery link delivery).Only Plain := by
  refine Prog.only_bind (only_must trivial) fun found => ?_
  cases found with
  | none => trivial
  | some project =>
    refine Prog.only_bind (only_must trivial) fun refusal => ?_
    cases refusal with
    | some reason => exact Prog.only_bind (only_must trivial) fun _ => trivial
    | none =>
      simp only
      split
      · trivial
      split
      · trivial
      refine Prog.only_bind (only_must trivial) fun existing => ?_
      cases existing with
      | some existing => trivial
      | none =>
        simp only
        split
        · trivial
        refine Prog.only_bind (Prog.only_bind (only_must trivial) fun _ => trivial)
          fun environmentId => ?_
        refine Prog.only_bind (only_must (.inl rfl)) fun row => ?_
        refine Prog.only_bind ?_ fun _ => ?_
        · unfold recordHookPreview
          split
          · trivial
          · exact plain_ensurePreviewTarget _ _ _ _ _
        refine Prog.only_bind (plain_onQueue _) fun _ => ?_
        exact Prog.only_bind (only_must trivial) fun _ => trivial

def stampDuty : Duty Task Call Call.Ans String (List Instant) where
  protocol := stampProtocol
  first _ := []
  ends _ _ _ := True

/-- **Every task follows it.** -/
theorem stamp_follows (engines : Engines) (t : Task) :
    stampProtocol.Follows (fun _ _ => True) [] (t.body engines) := by
  have hkeeps : ∀ {γ : Type} (p : PlaneProg γ), stampProtocol.Follows (Keeps []) [] p →
      stampProtocol.Follows (fun _ _ => True) [] (ignored p) := fun p h =>
    Protocol.follows_bind (Q := fun _ _ => True) (Protocol.follows_mono (fun _ _ _ => trivial) h)
      (fun _ _ _ => trivial) fun _ _ _ => trivial
  cases t with
  | work options => exact hkeeps _ (keeps_workerTick engines options)
  | reap =>
    refine hkeeps _ (keeps_clock fun now => ?_)
    exact keeps_plain (plain_onQueue _) _
  | sweep options => exact hkeeps _ (keeps_reconcile engines options)
  | request ctx input => exact hkeeps _ (keeps_plain (plain_requestDeployment ctx input) _)
  | rollback ctx project key commit =>
    exact hkeeps _ (keeps_plain (plain_rollbackDeployment ctx project key commit) _)
  | cancel ctx project id => exact hkeeps _ (keeps_cancelDeployment engines ctx project id)
  | promote ctx project id => exact hkeeps _ (keeps_plain (plain_promoteProcedure ctx project id) _)
  | logs ctx project id cursor =>
    exact hkeeps _ (keeps_plain (plain_deploymentsLogs engines ctx project id cursor) _)
  | hook link delivery => exact hkeeps _ (keeps_plain (plain_deployFromDelivery link delivery) _)

/-! ## The readings -/

/-- What thread `tid` has read of the clock. -/
def readingsOf (s : PlaneSys) (tid : Nat) : Option (List Instant) :=
  s.stage stampProtocol (fun _ => []) tid

/-- The threads have read the clock in order, and it has not gone back. -/
structure Timed (s : PlaneSys) : Prop where
  sane : s.Sane
  typed : s.Typed stampDuty
  read : ∀ tid l, readingsOf s tid = some l → l.Pairwise (· ≥ ·) ∧ ∀ t ∈ l, t ≤ s.world.now

variable {engines : Engines} {d : DeploymentId} {s : PlaneSys}

theorem timed_start (w : World) : Timed (Sys.start w) where
  sane := sane_start w
  typed := typed_start _ w
  read _ _ h := by cases h

theorem stamp_answers (engines : Engines) (w : World) : (planeHost engines).Answers stampDuty w :=
  fun _ _ => trivial

theorem drift_now (w : World) (x : Drift) : w.now ≤ (w.drift x).now := by
  cases x with
  | tick ms => exact Nat.le_add_right _ _
  | reconfigure project slug model rootDirectory => exact le_refl _

/-- What a call does to the readings: nothing, or it read the clock. -/
theorem readings_after {w : World} {o : Oracle} {c : Call} {l' : List Instant}
    (h : stampNext l c (w.perform engines o c).1 = some l') : l' = l ∨ l' = w.now :: l := by
  unfold stampNext at h
  split at h
  next now hr =>
    right
    have hclock : (w.perform engines o (.queue .clock)).1 = .ok w.now := rfl
    rw [hclock] at hr
    obtain rfl := Except.ok.inj hr
    exact (Option.some.inj h).symm
  · split at h
    · exact .inl (Option.some.inj h).symm
    · cases h
  · split at h
    · exact .inl (Option.some.inj h).symm
    · cases h
  · exact .inl (Option.some.inj h).symm

/-- **Step.** -/
theorem timed_step (h : Timed s) (m : PlaneMove) : Timed ((planeHost engines).step s m) := by
  refine ⟨sane_step _ h.sane m,
    typed_step (stamp_follows engines) (stamp_answers engines s.world) h.typed m, ?_⟩
  intro tid l hl
  rcases step_cases h.sane h.typed (stamp_answers engines s.world) m with
    hs | ⟨tid', o, c, x, x', _, hc⟩
  · have hnow : s.world.now ≤ ((planeHost engines).step s m).world.now := by
      rcases hs.world with hsame | ⟨x, hdrift⟩
      · rw [hsame]
      · rw [hdrift]
        exact drift_now s.world x
    rcases hs.stage tid l hl with hwas | ⟨_, t, rfl⟩
    · obtain ⟨hsorted, hle⟩ := h.read tid l hwas
      exact ⟨hsorted, fun t ht => (hle t ht).trans hnow⟩
    · exact ⟨List.Pairwise.nil, nofun⟩
  · have hnow : ((planeHost engines).step s m).world.now = s.world.now := by
      rw [hc.world]
      exact perform_now engines s.world o c
    rw [hnow]
    rcases hc.stage_after hl with ⟨rfl, rfl⟩ | ⟨_, hwas⟩
    · obtain ⟨hsorted, hle⟩ := h.read tid x hc.was
      rcases readings_after hc.moves with rfl | rfl
      · exact ⟨hsorted, hle⟩
      · refine ⟨List.Pairwise.cons (fun t ht => hle t ht) hsorted, fun t ht => ?_⟩
        rcases List.mem_cons.mp ht with rfl | ht
        · exact le_refl _
        · exact hle t ht
    · exact h.read tid l hwas

/-- A write stamps the row, if at all, with times of which the end is the later. -/
inductive Stamped (p : DeploymentStatusInput) : Prop where
  | mark (hstarted : p.startedAt = none) (hfinished : p.finishedAt = none)
  | flight {started : Instant} (hstarted : p.startedAt = some started)
      (hfinished : p.finishedAt = some none) (hflight : p.status.InFlight)
  | ended {started finished : Instant} (hstarted : p.startedAt = some started)
      (hfinished : p.finishedAt = some (some finished)) (hle : started ≤ finished)
      (hterminal : p.status.Terminal)

theorem le_of_dropWhile {started finished : Instant} (hsorted : l.Pairwise (· ≥ ·))
    (h : started ∈ l.dropWhile (· != finished)) : started ≤ finished := by
  induction l with
  | nil => cases h
  | cons t l ih =>
    by_cases ht : t = finished
    · subst ht
      rw [List.dropWhile_cons_of_neg (by simp)] at h
      rcases List.mem_cons.mp h with rfl | h
      · exact le_refl _
      · exact (List.pairwise_cons.mp hsorted).1 started h
    · rw [List.dropWhile_cons_of_pos (by simpa using ht)] at h
      exact ih (List.pairwise_cons.mp hsorted).2 h

theorem stamped_of_readings {p : DeploymentStatusInput} (hsorted : l.Pairwise (· ≥ ·))
    (h : Stamps l p) : Stamped p := by
  unfold Stamps at h
  split at h
  next hstarted hfinished => exact .mark hstarted hfinished
  next started hstarted hfinished => exact .flight hstarted hfinished h.2
  next started finished hstarted hfinished =>
    exact .ended hstarted hfinished (le_of_dropWhile hsorted h.2.1) h.2.2
  · exact h.elim

/-! ## The row -/

/-- `started_at` of the row. -/
def World.started (w : World) (d : DeploymentId) : Option Instant :=
  (w.row d).bind (·.startedAt)

/-- The engine, or the builder, took the build. -/
def buildTaken : (c : EngineCall) → Except String c.Ans → Bool
  | .deploy .., .ok (answer : AdapterResult ProviderRef) => answer.accepted
  | .rollback .., .ok (answer : AdapterResult ProviderRef) => answer.accepted
  | .publish .., .ok (answer : AdapterResult ProviderRef) => answer.accepted
  | .build .., .ok (answer : AdapterResult ProviderRef) => answer.accepted
  | _, _ => false

/-- It took one of row `d`. -/
def Takes (d : DeploymentId) : (c : Call) → Except String c.Ans → Prop
  | .engine row c, r => row = d ∧ buildTaken c r = true
  | _, _ => False

instance (d : DeploymentId) (c : Call) (r : Except String c.Ans) : Decidable (Takes d c r) := by
  cases c <;> unfold Takes <;> infer_instance

/-- A build of row `d` was accepted. -/
def Taken (d : DeploymentId) (log : List (Nat × Event Call Call.Ans String)) : Prop :=
  ∃ e ∈ log, Takes d e.2.call e.2.answer

instance (d : DeploymentId) (log : List (Nat × Event Call Call.Ans String)) :
    Decidable (Taken d log) := inferInstanceAs (Decidable (∃ e ∈ log, _))

theorem taken_cons {e : Nat × Event Call Call.Ans String}
    {log : List (Nat × Event Call Call.Ans String)} :
    Taken d (e :: log) ↔ Takes d e.2.call e.2.answer ∨ Taken d log :=
  List.exists_mem_cons_iff _ _ _

/-- The row says that it ended exactly if it has, and then it ended after it started. -/
structure WellTimed (r : DeploymentRow) : Prop where
  finished : r.finishedAt.isSome ↔ r.status.Terminal
  ordered : ∀ f, r.finishedAt = some f → ∃ a, r.startedAt = some a ∧ a ≤ f

/-- The plane, and when the engine first accepted a build of the row. -/
structure Watch where
  sys : PlaneSys
  accepted : Option Instant

/-- A step, and the stopwatch beside it. -/
def Watch.step (engines : Engines) (d : DeploymentId) (x : Watch) (l : PlaneMove) : Watch :=
  let s := (planeHost engines).step x.sys l
  ⟨s, x.accepted.or (if Taken d s.log then some s.world.now else none)⟩

/-- A start that is there, with the build accepted, is the acceptance. -/
def Watch.InStep (d : DeploymentId) (x : Watch) : Prop :=
  ∀ t ∈ x.sys.world.started d, ∀ a ∈ x.accepted, t = a

/-- **The times of row `d`** over a run from `x`: the start is set once, and it is when the
engine accepted the build; the end is there if the row has ended, and not before the start. -/
structure Dated (engines : Engines) (d : DeploymentId) (x : Watch) (ls : List PlaneMove) :
    Prop where
  once : Pairs (Watch.step engines d)
    (fun x y => ∀ t, x.sys.world.started d = some t → y.sys.world.started d = some t) x ls
  rows : Always (Watch.step engines d) (fun x => ∀ r ∈ x.sys.world.row d, WellTimed r) x ls
  accepted : Always (Watch.step engines d) (Watch.InStep d) x ls

/-- A write without times leaves the row as ended as it was; one with a start meets no other
start, and carries the instant of the acceptance if there was one; and the engine accepts
its first build of a row that has no start, or has that very instant. -/
def StampedInStep (engines : Engines) (d : DeploymentId) (x : Watch) : PlaneMove → Prop
  | .exec tid o =>
    match x.sys.pending tid with
    | some (.store (.patchDeployment p)) =>
      p.id = d → o.fault.Lands → ∀ r ∈ x.sys.world.row d, r.organizationId = p.organizationId →
        (p.startedAt = none → (r.status.InFlight ↔ p.status.InFlight)) ∧
          ∀ t ∈ p.startedAt, (∀ t' ∈ r.startedAt, t' = t) ∧ ∀ a ∈ x.accepted, t = a
    | some c => x.accepted = none → Takes d c (x.sys.world.perform engines o c).1 →
        ∀ t ∈ x.sys.world.started d, t = x.sys.world.now
    | none => True
  | _ => True

instance (x : Watch) (m : PlaneMove) : Decidable (StampedInStep engines d x m) := by
  unfold StampedInStep
  rcases m with _ | ⟨tid, o⟩ | _ | _
  · exact isTrue trivial
  · dsimp only
    rcases x.sys.pending tid with _ | (_ | (_ | _) | _) <;> infer_instance
  · exact isTrue trivial
  · exact isTrue trivial

/-- The watch has stopped exactly if a build was accepted, and the threads read in order. -/
structure Synced (d : DeploymentId) (x : Watch) : Prop where
  timed : Timed x.sys
  stopped : x.accepted = none ↔ ¬ Taken d x.sys.log

/-- What is to hold of every state. -/
structure InOrder (d : DeploymentId) (x : Watch) : Prop where
  rows : ∀ r ∈ x.sys.world.row d, WellTimed r
  accepted : x.InStep d

theorem drift_row (w : World) (x : Drift) : (w.drift x).row d = w.row d := by
  cases x <;> rfl

theorem started_some {w : World} {r : DeploymentRow} (h : w.row d = some r) :
    w.started d = r.startedAt := by
  unfold World.started
  rw [h]
  rfl

/-- What was accepted stays so. -/
theorem taken_step (m : PlaneMove) (h : Taken d s.log) :
    Taken d ((planeHost engines).step s m).log := by
  cases m with
  | exec tid o =>
    simp only [Host.step]
    split
    · exact taken_cons.mpr (.inr h)
    · exact h
  | _ => exact h

theorem synced_step {x : Watch} (h : Synced d x) (m : PlaneMove) :
    Synced d (x.step engines d m) := by
  refine ⟨timed_step h.timed m, ?_⟩
  unfold Watch.step
  dsimp only
  rw [Option.or_eq_none_iff, h.stopped]
  by_cases htaken : Taken d ((planeHost engines).step x.sys m).log
  · rw [if_pos htaken]
    exact iff_of_false (fun hboth => Option.some_ne_none _ hboth.2) (not_not_intro htaken)
  · rw [if_neg htaken]
    exact iff_of_true ⟨fun hbefore => htaken (taken_step m hbefore), rfl⟩ htaken

/-! ## One step -/

/-- **A write without times** of a row that was in order. -/
theorem wellTimed_mark_iff {p : DeploymentStatusInput} {r : DeploymentRow} (h : WellTimed r)
    (hfinished : p.finishedAt = none) (hstarted : p.startedAt = none) :
    WellTimed (p.set r) ↔ (r.status.InFlight ↔ p.status.InFlight) := by
  have hends : (p.set r).finishedAt = r.finishedAt := by
    show p.finishedAt.getD r.finishedAt = r.finishedAt
    rw [hfinished]
    rfl
  have hstarts : (p.set r).startedAt = r.startedAt := by
    show p.startedAt.or r.startedAt = r.startedAt
    rw [hstarted, Option.none_or]
  have hstatus : (p.set r).status = p.status := rfl
  constructor
  · intro hset
    have hboth := hset.finished
    rw [hends, h.finished, hstatus, EngineStatus.terminal_iff, EngineStatus.terminal_iff] at hboth
    exact not_iff_not.mp hboth
  · intro hflight
    refine ⟨?_, ?_⟩
    · rw [hends, h.finished, hstatus, EngineStatus.terminal_iff, EngineStatus.terminal_iff]
      exact not_congr hflight
    · rw [hends, hstarts]
      exact h.ordered

/-- **A stamp** leaves any row in order. -/
theorem wellTimed_stamp {p : DeploymentStatusInput} {r : DeploymentRow} (hp : Stamped p)
    (hstamp : p.startedAt ≠ none) : WellTimed (p.set r) := by
  cases hp with
  | mark hstarted hfinished => exact absurd hstarted hstamp
  | flight hstarted hfinished hflight =>
    have hnone : (p.set r).finishedAt = none := by
      show p.finishedAt.getD r.finishedAt = none
      rw [hfinished]
      rfl
    refine ⟨?_, fun f hf => ?_⟩
    · rw [hnone]
      exact iff_of_false nofun fun hterminal => EngineStatus.terminal_iff.mp hterminal hflight
    · rw [hnone] at hf
      cases hf
  | @ended started finished hstarted hfinished hle hterminal =>
    have hsome : (p.set r).finishedAt = some finished := by
      show p.finishedAt.getD r.finishedAt = some finished
      rw [hfinished]
      rfl
    refine ⟨?_, fun f hf => ?_⟩
    · rw [hsome]
      exact iff_of_true rfl hterminal
    · rw [hsome] at hf
      obtain rfl := Option.some.inj hf
      refine ⟨started, ?_, hle⟩
      show p.startedAt.or r.startedAt = some started
      rw [hstarted]
      rfl

/-- The protocol lets nothing else through. -/
theorem stamps_of_next {p : DeploymentStatusInput} {r : Except String (Option DeploymentRow)}
    {l' : List Instant} (h : stampNext l (.store (.patchDeployment p)) r = some l') : Stamps l p := by
  by_contra hno
  have hnone : stampNext l (.store (.patchDeployment p)) r = none := if_neg hno
  rw [hnone] at h
  cases h

theorem flight_of_next {input : DeploymentCreateInput} {r : Except String DeploymentRow}
    {l' : List Instant} (h : stampNext l (.store (.insertDeployment input)) r = some l') :
    input.status.InFlight := by
  by_contra hno
  have hnone : stampNext l (.store (.insertDeployment input)) r = none := if_neg hno
  rw [hnone] at h
  cases h

/-- What a step does to the row and to the watch, and what the condition says of it. -/
inductive RowStep (engines : Engines) (d : DeploymentId) (x y : Watch) (m : PlaneMove) : Prop where
  | kept (hrow : y.sys.world.row d = x.sys.world.row d) (hwatch : y.accepted = x.accepted)
      (hC : StampedInStep engines d x m)
  | flagged {r : DeploymentRow} {flag : Bool} (hrow : x.sys.world.row d = some r)
      (hrow' : y.sys.world.row d = some { r with isCurrent := flag })
      (hwatch : y.accepted = x.accepted) (hC : StampedInStep engines d x m)
  | made {input : DeploymentCreateInput} (hrow : x.sys.world.row d = none)
      (hrow' : y.sys.world.row d = some (input.row x.sys.world.now d))
      (hflight : input.status.InFlight) (hC : StampedInStep engines d x m)
  | taken (hrow : y.sys.world.row d = x.sys.world.row d) (hnone : x.accepted = none)
      (hwatch : y.accepted = some x.sys.world.now)
      (hC : StampedInStep engines d x m ↔
        ∀ t ∈ x.sys.world.started d, t = x.sys.world.now)
  | written {p : DeploymentStatusInput} {r : DeploymentRow} (hrow : x.sys.world.row d = some r)
      (hrow' : y.sys.world.row d = some (p.set r)) (hp : Stamped p)
      (hwatch : y.accepted = x.accepted)
      (hC : StampedInStep engines d x m ↔
        (p.startedAt = none → (r.status.InFlight ↔ p.status.InFlight)) ∧
          ∀ t ∈ p.startedAt, (∀ t' ∈ r.startedAt, t' = t) ∧ ∀ a ∈ x.accepted, t = a)

/-- A call that is no write of the row is held to nothing but what it accepts. -/
theorem stampedInStep_other {x : Watch} {tid : Nat} {o : Oracle} {c : Call}
    (hpending : x.sys.pending tid = some c)
    (hother : ∀ p, c = .store (.patchDeployment p) → ¬ (p.id = d ∧ o.fault.Lands ∧
      ∃ r, x.sys.world.row d = some r ∧ r.organizationId = p.organizationId))
    (htakes : x.accepted = none → Takes d c (x.sys.world.perform engines o c).1 →
      ∀ t ∈ x.sys.world.started d, t = x.sys.world.now) :
    StampedInStep engines d x (.exec tid o) := by
  unfold StampedInStep
  dsimp only
  rw [hpending]
  rcases c with c | c | c
  · exact htakes
  · cases c with
    | patchDeployment p =>
      intro hid hlands r hr horg
      exact absurd ⟨hid, hlands, r, hr, horg⟩ (hother p rfl)
    | _ => exact htakes
  · exact htakes

/-- What was accepted before and after says that the watch does not move. -/
theorem watch_same {x : Watch} (h : Synced d x) {m : PlaneMove}
    (hlog : Taken d ((planeHost engines).step x.sys m).log → Taken d x.sys.log) :
    (x.step engines d m).accepted = x.accepted := by
  unfold Watch.step
  dsimp only
  cases haccepted : x.accepted with
  | some a => rfl
  | none =>
    rw [if_neg fun htaken => h.stopped.mp haccepted (hlog htaken)]
    rfl

/-- A patch of the row is its row set. -/
theorem patched_row {w : World} {o : Oracle} {p : DeploymentStatusInput} {r : DeploymentRow}
    (hid : p.id = d) (hlands : o.fault.Lands) (hr : w.row d = some r)
    (horg : r.organizationId = p.organizationId) :
    (w.perform engines o (.store (.patchDeployment p))).2.row d = some (p.set r) := by
  have hkey : r.id = d := (Table.mem_of_find hr).2
  rw [World.row, perform_store, if_pos hlands]
  rw [show (StoreCall.run w.now o.away w.store (.patchDeployment p)).2 =
    w.store.patchDeployment p from rfl, find_patchDeployment]
  rw [show w.store.deployments.find d = some r from hr, Option.map_some, if_pos]
  simp [owned, hkey, hid, horg]

/-- **One step.** -/
theorem row_step {x : Watch} (h : Synced d x) (m : PlaneMove) :
    RowStep engines d x (x.step engines d m) m := by
  rcases step_cases h.timed.sane h.timed.typed (stamp_answers engines x.sys.world) m with
    hs | ⟨tid, o, c, l, l', rfl, hc⟩
  · refine .kept ?_ (watch_same h fun htaken => hs.log ▸ htaken) ?_
    · show ((planeHost engines).step x.sys m).world.row d = _
      rcases hs.world with hsame | ⟨x', hdrift⟩
      · rw [hsame]
      · rw [hdrift]
        exact drift_row x.sys.world x'
    · cases m with
      | exec tid o =>
        unfold StampedInStep
        dsimp only
        rw [hs.idle tid o rfl]
        trivial
      | _ => trivial
  · have hnext : stampNext l c (x.sys.world.perform engines o c).1 = some l' := hc.moves
    have hworld : ((planeHost engines).step x.sys (.exec tid o)).world =
        (x.sys.world.perform engines o c).2 := hc.world
    have hlog : ((planeHost engines).step x.sys (.exec tid o)).log =
        (tid, ⟨c, (x.sys.world.perform engines o c).1⟩) :: x.sys.log := hc.log
    have hrow' : (x.step engines d (.exec tid o)).sys.world.row d =
        (x.sys.world.perform engines o c).2.row d := congrArg (World.row · d) hworld
    have hquiet : ¬ Takes d c (x.sys.world.perform engines o c).1 →
        (x.step engines d (.exec tid o)).accepted = x.accepted := by
      intro hno
      refine watch_same h fun htaken => ?_
      rw [hlog, taken_cons] at htaken
      exact htaken.resolve_left hno
    by_cases hwrites : ∃ p r, c = .store (.patchDeployment p) ∧ p.id = d ∧ o.fault.Lands ∧
        x.sys.world.row d = some r ∧ r.organizationId = p.organizationId
    · obtain ⟨p, r, rfl, hid, hlands, hr, horg⟩ := hwrites
      refine .written hr (hrow'.trans (patched_row hid hlands hr horg))
        (stamped_of_readings (h.timed.read tid l hc.was).1 (stamps_of_next hnext))
        (hquiet id) ?_
      unfold StampedInStep
      dsimp only
      rw [hc.pending]
      constructor
      · intro hC
        exact hC hid hlands r hr horg
      · intro hC _ _ r' hr' _
        rw [hr] at hr'
        obtain rfl := Option.some.inj hr'
        exact hC
    · have hother : ∀ p, c = .store (.patchDeployment p) → ¬ (p.id = d ∧ o.fault.Lands ∧
          ∃ r, x.sys.world.row d = some r ∧ r.organizationId = p.organizationId) := by
        rintro p rfl ⟨hid, hlands, r, hr, horg⟩
        exact hwrites ⟨p, r, rfl, hid, hlands, hr, horg⟩
      have htouches := touches_perform engines d x.sys.world o c
      rw [← hrow'] at htouches
      by_cases htakes : x.accepted = none ∧ Takes d c (x.sys.world.perform engines o c).1
      · obtain ⟨hnone, htakes⟩ := htakes
        have hengine : ∃ row c', c = .engine row c' := by
          cases c with
          | engine row c' => exact ⟨row, c', rfl⟩
          | _ => exact htakes.elim
        obtain ⟨row, c', rfl⟩ := hengine
        have hnow : ((planeHost engines).step x.sys (.exec tid o)).world.now =
            x.sys.world.now := by
          rw [hworld]
          exact perform_now engines x.sys.world o _
        refine .taken ?_ hnone ?_ ?_
        · rw [hrow']
          rfl
        · unfold Watch.step
          dsimp only
          rw [hnone, Option.none_or, hnow, if_pos]
          rw [hlog, taken_cons]
          exact .inl htakes
        · unfold StampedInStep
          dsimp only
          rw [hc.pending]
          exact ⟨fun hC => hC hnone htakes, fun hC _ _ => hC⟩
      · have hC : StampedInStep engines d x (.exec tid o) :=
          stampedInStep_other hc.pending hother fun hnone ht => absurd ⟨hnone, ht⟩ htakes
        have hwatch : (x.step engines d (.exec tid o)).accepted = x.accepted := by
          refine watch_same h fun htaken => ?_
          by_contra hnot
          rw [hlog, taken_cons] at htaken
          exact htakes ⟨h.stopped.mpr hnot, htaken.resolve_right hnot⟩
        generalize hr' : (x.step engines d (.exec tid o)).sys.world.row d = r' at htouches
        cases htouches with
        | @patch p r hid hrow horg hlands =>
          exact absurd ⟨hid, hlands, r, hrow, horg⟩ (hother p rfl)
        | promote hrow => exact .flagged hrow hr' hwatch hC
        | insert hnone => exact .made hnone hr' (flight_of_next hnext) hC
        | keep => exact .kept hr' hwatch hC

/-- A step does not take the start away, or change it. -/
def Watch.Holds (d : DeploymentId) (x y : Watch) : Prop :=
  ∀ t, x.sys.world.started d = some t → y.sys.world.started d = some t

/-- **A step keeps the times in order** exactly if it meets the condition. -/
theorem inOrder_step_iff {x y : Watch} {m : PlaneMove} (h : InOrder d x)
    (hstep : RowStep engines d x y m) :
    InOrder d y ∧ x.Holds d y ↔ StampedInStep engines d x m := by
  cases hstep with
  | kept hrow hwatch hC =>
    have hstarted : y.sys.world.started d = x.sys.world.started d := by
      unfold World.started
      rw [hrow]
    refine iff_of_true ⟨⟨fun r hr => h.rows r (hrow ▸ hr), ?_⟩, fun t ht => ?_⟩ hC
    · unfold Watch.InStep
      rw [hstarted, hwatch]
      exact h.accepted
    · rwa [hstarted]
  | @flagged r flag hrow hrow' hwatch hC =>
    have hstarted : y.sys.world.started d = x.sys.world.started d := by
      rw [started_some hrow', started_some hrow]
    refine iff_of_true ⟨⟨fun r' hr' => ?_, ?_⟩, fun t ht => ?_⟩ hC
    · obtain rfl := Option.some.inj (hrow'.symm.trans hr')
      exact ⟨(h.rows r hrow).finished, (h.rows r hrow).ordered⟩
    · unfold Watch.InStep
      rw [hstarted, hwatch]
      exact h.accepted
    · rwa [hstarted]
  | made hrow hrow' hflight hC =>
    refine iff_of_true ⟨⟨fun r' hr' => ?_, fun t ht => ?_⟩, fun t ht => ?_⟩ hC
    · obtain rfl := Option.some.inj (hrow'.symm.trans hr')
      refine ⟨iff_of_false nofun fun hterminal => ?_, nofun⟩
      exact EngineStatus.terminal_iff.mp hterminal hflight
    · rw [started_some hrow'] at ht
      cases ht
    · rw [World.started, hrow] at ht
      cases ht
  | taken hrow hnone hwatch hC =>
    have hstarted : y.sys.world.started d = x.sys.world.started d := by
      unfold World.started
      rw [hrow]
    rw [hC]
    constructor
    · intro hkept t ht
      exact hkept.1.accepted t (hstarted ▸ ht) _ hwatch
    · intro hnow
      refine ⟨⟨fun r hr => h.rows r (hrow ▸ hr), ?_⟩, fun t ht => by rwa [hstarted]⟩
      intro t ht a ha
      rw [hwatch] at ha
      rw [← Option.some.inj ha]
      exact hnow t (hstarted ▸ ht)
  | @written p r hrow hrow' hp hwatch hC =>
    rw [hC]
    have hbefore := started_some hrow
    have hafter : y.sys.world.started d = p.startedAt.or r.startedAt := started_some hrow'
    cases hstart : p.startedAt with
    | none =>
      have hfinished : p.finishedAt = none := by
        cases hp with
        | mark _ hfinished => exact hfinished
        | flight hstarted => rw [hstart] at hstarted; cases hstarted
        | ended hstarted => rw [hstart] at hstarted; cases hstarted
      rw [hstart, Option.none_or] at hafter
      have hmark := wellTimed_mark_iff (h.rows r hrow) hfinished hstart
      constructor
      · intro hkept
        exact ⟨fun _ => hmark.mp (hkept.1.rows _ hrow'), by simp⟩
      · intro hflight
        refine ⟨⟨fun r' hr' => ?_, ?_⟩, fun t ht => ?_⟩
        · obtain rfl := Option.some.inj (hrow'.symm.trans hr')
          exact hmark.mpr (hflight.1 rfl)
        · unfold Watch.InStep
          rw [hafter, ← hbefore, hwatch]
          exact h.accepted
        · rw [hafter, ← hbefore]
          exact ht
    | some t =>
      rw [hstart, Option.some_or] at hafter
      constructor
      · intro hkept
        refine ⟨by simp, fun t' ht' => ?_⟩
        obtain rfl := Option.some.inj ht'
        refine ⟨fun t0 ht0 => ?_, fun a ha => ?_⟩
        · have hstays := hkept.2 t0 (hbefore.trans ht0)
          rw [hafter] at hstays
          exact (Option.some.inj hstays).symm
        · exact hkept.1.accepted t hafter a (hwatch ▸ ha)
      · intro hstamp
        obtain ⟨hsame, haccepted⟩ := hstamp.2 t rfl
        refine ⟨⟨fun r' hr' => ?_, ?_⟩, fun t0 ht0 => ?_⟩
        · obtain rfl := Option.some.inj (hrow'.symm.trans hr')
          refine wellTimed_stamp hp ?_
          rw [hstart]
          exact Option.some_ne_none t
        · intro t' ht' a ha
          rw [hafter] at ht'
          rw [← Option.some.inj ht']
          exact haccepted a (hwatch ▸ ha)
        · rw [hbefore] at ht0
          rw [hafter, hsame t0 ht0]

/-! ## Runs -/

/-- A start that every step keeps is kept throughout. -/
theorem holds_throughout {x : Watch} {ls : List PlaneMove} :
    Pairs (Watch.step engines d) (Watch.Holds d) x ls ↔
      EachStep (Watch.step engines d) (fun y m => y.Holds d (y.step engines d m)) x ls := by
  constructor
  · exact eachStep_of_pairs
  · intro h
    refine pairs_of_inv (J := fun _ => True) trivial (fun _ _ _ _ => trivial)
      (fun _ _ _ ht => ht) ?_ h
    intro x y m _ hm hxy t ht
    exact hm t (hxy t ht)

theorem inOrder_initial (now : Instant) (projects : ProjectsTable)
    (members : OrganizationId → UserId → Bool) :
    InOrder d ⟨PlaneSys.initial now projects members, none⟩ where
  rows _ h := by cases h
  accepted _ h := by cases h

theorem synced_initial (now : Instant) (projects : ProjectsTable)
    (members : OrganizationId → UserId → Bool) :
    Synced d ⟨PlaneSys.initial now projects members, none⟩ where
  timed := timed_start _
  stopped := iff_of_true rfl fun h => by
    obtain ⟨_, hmem, _⟩ := h
    cases hmem

-- a build that is accepted and done in one millisecond
example : EachStep (Watch.step ⟨none, false⟩ 0) (StampedInStep ⟨none, false⟩ 0)
    ⟨PlaneSys.scripted, none⟩ (requested ++ .spawn (.work aWorker) :: calls 1 12 built) := by
  decide +kernel

end CloudWai.Deployment
