import CloudWai.Deployment.System

/-!
# One row's journey through a thread

What a thread does to deployment row `d` is an automaton. `sight d` reads a call
and its answer as something seen or done to the row; `Stage.move` says what may
come next. A delivery of the row's job goes through the phases of `Phase`: the
job is claimed, the row is read, then either a build in flight is polled or a
build is started, accepted and confirmed — and at last one write settles what the
delivery found. A sweep lists the row, polls it and writes its verdict; a cancel
reads it, asks the engine and writes.

`Phase.allows` is the heart of it: which statuses a delivery may write depends
on what it was told, and on nothing else. A call that threw leaves the phase
`broke`, from which only `failed` is written.
-/

namespace CloudWai.Deployment

open Base Queue

/-! ## Sights -/

/-- What a call and its answer mean for the row. -/
inductive Sight where
  /-- It is not about the row; it may have thrown. -/
  | other (threw : Bool)
  | dated (now : Instant)
  /-- A job of the row was claimed. -/
  | claimed (org : OrganizationId)
  /-- The service read of the row. -/
  | read (org : OrganizationId) (stored : Option DeploymentRow)
  /-- A target was created for it, or refused. -/
  | ensured (answer : AdapterResult ProviderRef)
  /-- A build-starting call was made for it. -/
  | built (answer : Except String (AdapterResult ProviderRef))
  | polled (ref : ProviderRef) (answer : AdapterResult DeploymentState)
  | cancelled (ref : ProviderRef) (answer : AdapterResult Unit)
  /-- A sweep's listing, and the row if it is on it. -/
  | listed (row : Option DeploymentRow)
  | project (row : ProjectRow)
  /-- A member's read of the row. -/
  | looked (row : DeploymentRow)
  /-- Some deployment was created. -/
  | created (input : DeploymentCreateInput)
  | wrote (p : DeploymentStatusInput) (answered : Bool)
  | billed (org : OrganizationId) (metric : String) (quantity : Nat)

/-- The call threw. -/
def threw {α : Type} : Except String α → Bool
  | .ok _ => false
  | .error _ => true

/-- The organization of the row's job, if that is what was claimed. -/
def claimedFor (d : DeploymentId) (rows : List (JobRow DeploymentJobPayload)) :
    Option OrganizationId :=
  match firstJob rows with
  | none => none
  | some job =>
    if job.kind = deploymentJobKind ∧ job.payload.deploymentId = d then
      some job.payload.organizationId
    else none

/-- What an answer of the queue is to the row. -/
def queueSight (d : DeploymentId) : (c : DeploymentQueueCall) → Except String c.Ans → Sight
  | .claim _ _, .ok rows =>
    match claimedFor d rows with
    | some org => .claimed org
    | none => .other false
  | .clock, .ok now => .dated now
  | _, r => .other (threw r)

/-- What an answer of the store is to it. -/
def storeSight (d : DeploymentId) : (c : StoreCall) → Except String c.Ans → Sight
  | .selectDeployment org id, .ok stored => if id = d then .read org stored else .other false
  | .selectStranded .., .ok rows => .listed (rows.find? fun r => r.id == d)
  | .selectProjectOfMember .., .ok (some project) => .project project
  | .selectProject .., .ok (some project) => .project project
  | .selectDeploymentOfMember _ id, .ok (some row) =>
    if id = d then .looked row else .other false
  | .insertDeployment input, _ => .created input
  | .patchDeployment p, r => if p.id = d then .wrote p (!threw r) else .other (threw r)
  | .insertUsage settled org metric quantity, r =>
    if settled = d then .billed org metric quantity else .other (threw r)
  | _, r => .other (threw r)

/-- And of the engine. -/
def engineSight : (c : EngineCall) → Except String c.Ans → Sight
  | .createApplication .., .ok answer => .ensured answer
  | .createFunction .., .ok answer => .ensured answer
  | .deploy .., r => .built r
  | .rollback .., r => .built r
  | .publish .., r => .built r
  | .getDeployment _ _ ref, .ok answer => .polled ref answer
  | .cancelDeployment _ ref, .ok answer => .cancelled ref answer
  | .deleteFunction _ ref, .ok answer => .cancelled ref answer
  | _, r => .other (threw r)

/-- What a call and its answer mean for row `d`. -/
def sight (d : DeploymentId) : (c : Call) → Except String c.Ans → Sight
  | .queue c, r => queueSight d c r
  | .store c, r => storeSight d c r
  | .engine row c, r => if row = d then engineSight c r else .other (threw r)

/-! ## Phases of a delivery -/

/-- How far a delivery of the row's job has come, and what it was told. -/
inductive Phase where
  | claimed
  | resuming (handle : String)
  | resumed (handle : String) (answer : AdapterResult DeploymentState)
  /-- Nothing to resume: a build may be started. -/
  | fresh
  | refused (status : EngineStatus)
  | accepted (handle : Option String) (status : EngineStatus)
  | confirmed (handle : Option String) (status : EngineStatus)
      (answer : AdapterResult DeploymentState)
  /-- A call threw. -/
  | broke
deriving DecidableEq

/-- What a settling write of the phase may say; `clean` is without a reason. -/
def Phase.tells (status : EngineStatus) (clean : Bool) : Phase → Prop
  | .fresh => clean = false ∧ (status = .failed ∨ status = .notConfigured)
  | .refused st => clean = false ∧ status = st
  | .resumed _ (.ok _ state) =>
    status = state.status ∧ (clean = true ∨ status ≠ .succeeded ∨ state.reason ≠ none)
  | .resumed _ (.err st _) => clean = false ∧ status = st
  | .confirmed _ _ (.ok _ state) => status = state.status ∧ (clean = true ∨ status ≠ .succeeded)
  | .confirmed _ st (.err _ _) => status = st ∧ (clean = true ∨ status ≠ .succeeded)
  | .broke => clean = false ∧ status = .failed
  | _ => False

instance (status : EngineStatus) (clean : Bool) (ph : Phase) :
    Decidable (ph.tells status clean) := by
  unfold Phase.tells
  split <;> infer_instance

/-- A status in flight settles nothing, and may be written at any time. -/
def Phase.allows (ph : Phase) (status : EngineStatus) (clean : Bool) : Prop :=
  status.InFlight ∨ ph.tells status clean

instance (ph : Phase) (status : EngineStatus) (clean : Bool) :
    Decidable (ph.allows status clean) := inferInstanceAs (Decidable (_ ∨ _))

/-- `resourceType === "deployment" ? resourceId : null`. -/
def deploymentHandle (ref : ProviderRef) : Option String :=
  if ref.resourceType = .deployment then some ref.resourceId else none

/-- The phase a build-starting call leads to. -/
def Phase.afterBuild : Except String (AdapterResult ProviderRef) → Phase
  | .ok (.ok status ref) => .accepted (deploymentHandle ref) status
  | .ok (.err status _) => .refused status
  | .error _ => .broke

/-! ## Stages -/

/-- What a thread is to the row. -/
inductive Stage where
  /-- A bare store call; it may do anything a store call does. -/
  | direct
  /-- It has not come across the row. -/
  | idle
  | sweeping (options : ReconcilerOptions)
  | dated (options : ReconcilerOptions) (now : Instant)
  | listed (options : ReconcilerOptions) (now : Instant) (row : DeploymentRow)
  | swept (options : ReconcilerOptions) (now : Instant) (row : DeploymentRow)
      (answer : AdapterResult DeploymentState)
  /-- An API request that knows its project. -/
  | knows (project : ProjectRow)
  /-- One that has read the row. -/
  | seen (project : ProjectRow) (row : DeploymentRow)
  | asked (project : ProjectRow) (row : DeploymentRow) (answer : AdapterResult Unit)
  | delivering (org : OrganizationId) (phase : Phase)
  /-- `succeeded` was written, and its usage is not recorded yet. -/
  | owing (org : OrganizationId)
  /-- It will not write the row. -/
  | off

/-- A write that settles an outcome stamps `started_at`; a mark does not. -/
def DeploymentStatusInput.mark (p : DeploymentStatusInput) : Bool := p.startedAt.isNone

/-- A settling write without a failure reason. -/
def DeploymentStatusInput.clean (p : DeploymentStatusInput) : Bool := p.failureReason == some none

/-- Where a settling write leaves a thread. -/
def Stage.afterWrite (org : OrganizationId) (p : DeploymentStatusInput) (answered : Bool) : Stage :=
  if p.status = .succeeded ∧ p.clean = true ∧ answered = true then .owing org else .off

/-- The marks a delivery may write. -/
def Phase.marks (ph : Phase) (p : DeploymentStatusInput) : Prop :=
  match ph with
  | .fresh => p.status = .running ∧ p.deploymentResourceId = none
  | .accepted (some handle) status => p.status = status ∧ p.deploymentResourceId = some handle
  | _ => False

instance (ph : Phase) (p : DeploymentStatusInput) : Decidable (ph.marks p) := by
  unfold Phase.marks
  split <;> infer_instance

/-- The next stage of a delivery. -/
def Phase.move (org : OrganizationId) (ph : Phase) (s : Sight) : Option Stage :=
  match s with
  | .other thrown => some (.delivering org (if thrown then .broke else ph))
  | .dated _ => some (.delivering org ph)
  | .read o stored =>
    if ph = .claimed ∧ o = org then
      match inFlightHandle stored with
      | some (_, handle) => some (.delivering org (.resuming handle))
      | none => some (.delivering org .fresh)
    else none
  | .ensured answer =>
    if ph = .fresh then
      match answer with
      | .ok _ _ => some (.delivering org .fresh)
      | .err status _ => some (.delivering org (.refused status))
    else none
  | .built r => if ph = .fresh then some (.delivering org (Phase.afterBuild r)) else none
  | .polled ref answer =>
    match ph with
    | .resuming handle =>
      if ref.resourceId = handle then some (.delivering org (.resumed handle answer)) else none
    | .accepted handle status =>
      if handle = none ∨ handle = some ref.resourceId then
        some (.delivering org (.confirmed handle status answer))
      else none
    | _ => none
  | .wrote p answered =>
    if p.organizationId = org then
      if p.mark then
        if ph.marks p then some (.delivering org (if answered then ph else .broke)) else none
      else if ph.allows p.status p.clean then some (.afterWrite org p answered) else none
    else none
  | _ => none

/-- The next stage of a thread, or `none` where it may not do this. -/
def Stage.move (x : Stage) (s : Sight) : Option Stage :=
  match x, s with
  | .direct, .created _ => none
  | .direct, _ => some .direct
  | .delivering org ph, s => ph.move org s
  | .owing org, .billed o metric quantity =>
    if o = org ∧ metric = "deployments" ∧ quantity = 1 then some .off else none
  | .owing _, .other true => some .off
  | .owing org, .other false => some (.owing org)
  | .owing org, .dated _ => some (.owing org)
  | .owing org, .read _ _ => some (.owing org)
  | .idle, .claimed org => some (.delivering org .claimed)
  | .idle, .project project => some (.knows project)
  | .sweeping options, .dated now => some (.dated options now)
  | .dated options now, .listed (some row) => some (.listed options now row)
  | .dated _ _, .listed none => some .off
  | .listed options now row, .polled ref answer =>
    if strandedRef row = some ref then some (.swept options now row answer) else none
  | .listed options now row, .wrote p answered =>
    if strandedRef row = none ∧ ¬ young options now row ∧
        p = sweepPatch row (neverRecorded options row) now then
      some (.afterWrite row.organizationId p answered)
    else none
  | .swept options now row answer, .wrote p answered =>
    if (verdict options now row answer).map (sweepPatch row · now) = some p then
      some (.afterWrite row.organizationId p answered)
    else none
  | .knows project, .created input =>
    if input.organizationId = project.organizationId ∧ input.projectId = project.id ∧
        input.status = .pending then
      some (.knows project)
    else none
  | .knows project, .looked row => some (.seen project row)
  | .seen project row, .cancelled ref answer =>
    if row.status.InFlight ∧ given row.deploymentResourceId = some ref.resourceId then
      some (.asked project row answer)
    else none
  | .seen _ row, .wrote p _ =>
    if row.status.InFlight ∧ p.mark = false ∧ (p.status.InFlight ∨
        p.status = .failed ∧ given row.deploymentResourceId = none) then some .off
    else none
  | .seen _ _, .read _ _ => some .off
  | .asked _ _ answer, .wrote p _ =>
    if p.mark = false ∧ (p.status.InFlight ∨ p.status = .failed ∧ answer.accepted) then some .off
    else none
  | .off, .read _ _ => some .off
  | x, .other _ => some x
  | x, .dated _ => some x
  | _, _ => none

/-! ## The protocol -/

/-- What the database can answer: a listing has no row twice, and a read of a
row answers with that row. -/
def possible : (c : Call) → Except String c.Ans → Prop
  | .store (.selectStranded _ _), .ok rows => (rows.map fun r : DeploymentRow => r.id).Nodup
  | .store (.selectDeploymentOfMember _ id), .ok (some row) => row.id = id
  | .store (.selectProject org id), .ok (some project) =>
    project.organizationId = org ∧ project.id = id
  | _, _ => True

/-- What a thread may do to row `d`. -/
def rowProtocol (d : DeploymentId) : Protocol Call Call.Ans String Stage where
  next x c r := x.move (sight d c r)
  Possible := possible

/-- The stage a task starts in. -/
def Task.first : Task → Stage
  | .sweep options => .sweeping options
  | _ => .idle

/-- Every task follows the protocol, and none ends while it owes usage. -/
def planeDuty (d : DeploymentId) : Duty Task Call Call.Ans String Stage where
  protocol := rowProtocol d
  first := Task.first
  ends _ _ x := ∀ org, x ≠ .owing org

/-- The same with bare store calls among the tasks. -/
def openDuty (d : DeploymentId) : Duty (Task ⊕ StoreTask) Call Call.Ans String Stage where
  protocol := rowProtocol d
  first
    | .inl t => t.first
    | .inr _ => .direct
  ends _ _ x := ∀ org, x ≠ .owing org

/-- What the world answers is possible. -/
theorem possible_perform (engines : Engines) (w : World) (o : Oracle) (c : Call) :
    possible c (w.perform engines o c).1 := by
  cases c with
  | queue c => trivial
  | engine row c => trivial
  | store c =>
    cases c with
    | selectStranded olderThan limit =>
      cases hr : (w.perform engines o (.store (.selectStranded olderThan limit))).1 with
      | error e => trivial
      | ok rows =>
        obtain ⟨_, hrun⟩ := perform_store_ok hr
        rw [← Except.ok.inj hrun]
        exact stranded_nodup _ _ _
    | selectDeploymentOfMember user id =>
      cases hr : (w.perform engines o (.store (.selectDeploymentOfMember user id))).1 with
      | error e => trivial
      | ok row =>
        cases row with
        | none => trivial
        | some row =>
          obtain ⟨_, hrun⟩ := perform_store_ok hr
          have hfound := Except.ok.inj hrun
          exact (Table.mem_of_find (Option.filter_eq_some_iff.mp hfound).1).2
    | selectProject org id =>
      cases hr : (w.perform engines o (.store (.selectProject org id))).1 with
      | error e => trivial
      | ok found =>
        cases found with
        | none => trivial
        | some project =>
          obtain ⟨_, hrun⟩ := perform_store_ok hr
          obtain ⟨hfind, horg⟩ := Option.filter_eq_some_iff.mp (Except.ok.inj hrun)
          exact ⟨beq_iff_eq.mp horg, (Table.mem_of_find hfind).2⟩
    | _ => trivial

theorem plane_answers (engines : Engines) (d : DeploymentId) (w : World) :
    (planeHost engines).Answers (planeDuty d) w :=
  fun o c => possible_perform engines w o c

theorem open_answers (engines : Engines) (d : DeploymentId) (w : World) :
    (openHost engines).Answers (openDuty d) w :=
  fun o c => possible_perform engines w o c

end CloudWai.Deployment
