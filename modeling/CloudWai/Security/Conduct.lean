import CloudWai.Security.Policy

/-!
# What a thread knows of the policy when it writes it

Seen from the policy, every program here is at one of a few stages: it has read
the row and will write a draft over it, it has read it and will have it compiled,
the edge has accepted what was compiled and it will write the row back as active.
`policyProtocol` is the automaton of these stages. It forces what a write
carries: a draft one version above the row that was read, or the row last read
under the version the edge is taken to have acknowledged.

Nothing in it says that the row is still the one that was read.

The programs are those of `apps/api/src/procedures/security.ts` and
`apps/worker/src/policy-job.ts`, as `Policy.lean` has them.
-/

namespace CloudWai

namespace Security

open Base Queue

/-! ## Stages -/

/-- How far a program is: what it has read and what it still may write. -/
inductive PolicyStage where
  /-- A worker without a job. -/
  | idle
  /-- Nothing read, or nothing to follow; a save or another program. -/
  | start (saves : Bool)
  /-- A save has read the row it will replace. -/
  | saving (org : OrganizationId) (read : Option SecurityPolicy)
  /-- A distribution has read the row. -/
  | holds (p : SecurityPolicy)
  | loaded (p : SecurityPolicy) (input : CompileInput)
  /-- The edge has the artifact; `p` will be written back under `version`. -/
  | accepted (p : SecurityPolicy) (input : CompileInput) (version : Nat)
  | over
deriving DecidableEq, Repr

/-- A draft that replaces what was read. -/
def IsDraft (org : OrganizationId) (read : Option SecurityPolicy) (input : PolicySave) : Prop :=
  input.organizationId = org ∧ input.state = .draft ∧
    match read with
    | none => True
    | some r => input.id = r.id ∧ input.version = r.version + 1

instance (org : OrganizationId) (read : Option SecurityPolicy) (input : PolicySave) :
    Decidable (IsDraft org read input) := by
  unfold IsDraft
  cases read <;> infer_instance

/-- The version written when the edge answered with `echo`. -/
def acknowledged (p : SecurityPolicy) (input : CompileInput) (echo : Option Nat) : Nat :=
  if p.version < echo.getD (compileEdge input).version then echo.getD (compileEdge input).version
  else p.version

/-- A program other than a save has read the policy. -/
def PolicyStage.afterRead : Except String (Option SecurityPolicy) → PolicyStage
  | .ok (some p) => .holds p
  | _ => .start false

/-- A claim is made by an idle worker and may give it a job; an insert leaves the
attempts at their default. -/
def PolicyStage.afterQueue (x : PolicyStage) :
    (c : QueueCall PolicyJobPayload) → Except String c.Ans → Option PolicyStage
  | .insert n, _ => if n.maxAttempts = SqlJobQueue.defaultMaxAttempts then some x else none
  | .claim .., r =>
    if x = .idle then
      match r with
      | .ok (_ :: _) => some (.start false)
      | _ => some .idle
    else none
  | _, _ => some x

/-- The stage after a call and its answer. -/
def PolicyStage.next : PolicyStage → (c : PolicyCall) → Except String c.Ans → Option PolicyStage
  | x, .queue c, r => x.afterQueue c r
  | x, .recordPolicyEvent _, _ => some x
  | x, .recordAuditEvent .., _ => some x
  | x, .openSecurityIncident .., _ => some x
  | .start true, .getSecurityPolicy _ org, .ok read => some (.saving org read)
  | .start true, .getSecurityPolicy .., .error _ => some .over
  | .start false, .getSecurityPolicy .., r => some (.afterRead r)
  | .start false, .getSecurityPolicyForService _, r => some (.afterRead r)
  | .holds _, .getSecurityPolicyForService _, r => some (.afterRead r)
  | .loaded _ _, .getSecurityPolicyForService _, r => some (.afterRead r)
  | .accepted p input version, .getSecurityPolicyForService org, r =>
    if org = p.organizationId then
      match r with
      | .ok (some q) => some (.accepted q input version)
      | _ => some .over
    else none
  | .saving org read, .saveSecurityPolicy input, _ =>
    if IsDraft org read input then some .over else none
  | .accepted p _ version, .saveSecurityPolicy input, _ =>
    if input = activation p version input.createdBy then some .over else none
  | .holds p, .loadPolicy org, r =>
    if org = p.organizationId then
      match r with
      | .ok (some input) => some (.loaded p input)
      | _ => some (.start false)
    else none
  | .loaded p input, .postPolicy org sent, r =>
    if org = p.organizationId ∧ sent = input then
      match r with
      | .ok (.ok _ echo) => some (.accepted p input (acknowledged p input echo))
      | _ => some (.start false)
    else none
  | _, _, _ => none

/-- A request of the queue leaves a stage as it is, or gives a worker a job. -/
theorem afterQueue_cases {c : QueueCall PolicyJobPayload} {r : Except String c.Ans}
    {x x' : PolicyStage} (h : x.afterQueue c r = some x') : x' = x ∨ x' = .start false := by
  unfold PolicyStage.afterQueue at h
  split at h
  · split at h
    · exact .inl (Option.some.inj h).symm
    · cases h
  · split at h
    next hidle =>
      split at h
      · exact .inr (Option.some.inj h).symm
      · exact .inl (hidle ▸ (Option.some.inj h).symm)
    next => cases h
  · exact .inl (Option.some.inj h).symm

/-- A read of an organization's policy answers with one of its rows. -/
def PossiblePolicy : (c : PolicyCall) → Except String c.Ans → Prop
  | .getSecurityPolicy _ org, .ok (some p) => p.organizationId = org
  | .getSecurityPolicyForService org, .ok (some p) => p.organizationId = org
  | .postPolicy .., .ok (.ok status _) => status = .succeeded
  | .postPolicy .., .error _ => False
  | _, _ => True

/-- What a program may do next, by what it has read. -/
def policyProtocol : Protocol PolicyCall PolicyCall.Ans String PolicyStage where
  next := PolicyStage.next
  Possible := PossiblePolicy

/-- Where it begins. -/
def PolicyTask.first : PolicyTask → PolicyStage
  | .save .. => .start true
  | .distribute .. => .start false
  | .work _ => .idle
  | .reap => .idle

def policyDuty : Duty PolicyTask PolicyCall PolicyCall.Ans String PolicyStage where
  protocol := policyProtocol
  first := PolicyTask.first
  ends _ _ _ := True

theorem Db.getSecurityPolicyForService_org {db : Db} {org : OrganizationId} {p : SecurityPolicy}
    (h : db.getSecurityPolicyForService org = some p) : p ∈ db.policies ∧ p.organizationId = org := by
  have hmem := List.mem_of_mem_head? h
  rw [List.mem_insertionSort, List.mem_filter] at hmem
  exact ⟨hmem.1, by simpa using hmem.2⟩

theorem Db.getSecurityPolicy_org {db : Db} {user : UserId} {org : OrganizationId}
    {p : SecurityPolicy} (h : db.getSecurityPolicy user org = some p) :
    db.getSecurityPolicyForService org = some p := by
  unfold Db.getSecurityPolicy at h
  split at h
  · exact h
  · cases h

/-- The world answers as the protocol expects. -/
theorem policy_answers (P : Platform) (config : EdgeConfig) (w : PolicyWorld) :
    (policyHost P config).Answers policyDuty w := by
  intro o c
  show PossiblePolicy c (w.perform P config o c).1
  cases c with
  | getSecurityPolicy user org =>
    cases hr : (w.perform P config o (.getSecurityPolicy user org)).1 with
    | error e => trivial
    | ok found =>
      cases found with
      | none => trivial
      | some p =>
        have hread := (Fault.apply_ok hr).2
        exact (Db.getSecurityPolicyForService_org
          (Db.getSecurityPolicy_org (Except.ok.inj hread))).2
  | getSecurityPolicyForService org =>
    cases hr : (w.perform P config o (.getSecurityPolicyForService org)).1 with
    | error e => trivial
    | ok found =>
      cases found with
      | none => trivial
      | some p =>
        have hread := (Fault.apply_ok hr).2
        exact (Db.getSecurityPolicyForService_org (Except.ok.inj hread)).2
  | postPolicy org input =>
    show PossiblePolicy (.postPolicy org input) (.ok o.edge.result)
    cases o.edge <;> trivial
  | _ => trivial

/-! ## The programs keep to it -/

/-- Where a program is that only reads and records from here on. -/
def Plain : PolicyStage → Prop
  | .start saves => saves = false
  | .holds _ => True
  | .loaded .. => True
  | _ => False

theorem plain_afterRead (r : Except String (Option SecurityPolicy)) :
    Plain (.afterRead r) := by
  unfold PolicyStage.afterRead
  split <;> trivial

/-- A request of the queue that leaves every stage alone. -/
def QueueAside : QueueCall PolicyJobPayload → Prop
  | .insert n => n.maxAttempts = SqlJobQueue.defaultMaxAttempts
  | .claim .. => False
  | _ => True

/-- A call that leaves every stage alone. -/
def Aside : PolicyCall → Prop
  | .queue c => QueueAside c
  | .recordPolicyEvent _ => True
  | .recordAuditEvent .. => True
  | .openSecurityIncident .. => True
  | _ => False

section Follows

variable {x : PolicyStage} {α β : Type}

private theorem next_aside {c : PolicyCall} (h : Aside c) (r : Except String c.Ans) :
    x.next c r = some x := by
  cases c with
  | queue c =>
    have hqueue : x.afterQueue c r = some x := by
      cases c with
      | insert n => exact if_pos h
      | claim worker leaseSeconds => exact h.elim
      | _ => rfl
    cases x <;> exact hqueue
  | recordPolicyEvent event => cases x <;> rfl
  | recordAuditEvent event org actor policy version => cases x <;> rfl
  | openSecurityIncident org severity summary => cases x <;> rfl
  | _ => exact h.elim

/-- A program that only queues and records stays where it is. -/
private theorem follows_aside {p : PolicyProg α} (h : p.Only Aside) :
    policyProtocol.Follows (fun _ y => y = x) x p :=
  Protocol.follows_of_only h fun _ hc r _ => next_aside hc r

private theorem only_onStore {op : String} {c : PolicyCall} {S : PolicyCall → Prop} (h : S c) :
    (onStore op c).Only S := by
  refine ⟨h, fun r => ?_⟩
  cases r <;> trivial

private theorem only_must {op : String} {c : QueueCall PolicyJobPayload} (h : QueueAside c) :
    (must op c).Only QueueAside := by
  refine ⟨h, fun r => ?_⟩
  cases r <;> trivial

private theorem only_now : (SqlJobQueue.now (P := PolicyJobPayload)).Only QueueAside :=
  Prog.only_call trivial

private theorem only_patch {id : JobId} {p : JobPatch} :
    (SqlJobQueue.patch (P := PolicyJobPayload) id p).Only QueueAside :=
  Prog.only_bind (only_must trivial) fun _ => trivial

private theorem only_complete {id : JobId} :
    (SqlJobQueue.complete (P := PolicyJobPayload) id).Only QueueAside :=
  Prog.only_bind only_now fun _ => only_patch

private theorem only_terminate {id : JobId} {reason : String} :
    (SqlJobQueue.terminate (P := PolicyJobPayload) id reason).Only QueueAside :=
  Prog.only_bind only_now fun _ => only_patch

private theorem only_defer {id : JobId} {reason : String} {ms : Nat} :
    (SqlJobQueue.defer (P := PolicyJobPayload) id reason ms).Only QueueAside :=
  Prog.only_bind (only_must trivial) fun _ => trivial

private theorem only_fail {id : JobId} {reason : String} :
    (SqlJobQueue.fail (P := PolicyJobPayload) id reason).Only QueueAside := by
  refine Prog.only_bind (Prog.only_bind (only_must trivial) fun _ => trivial) fun current => ?_
  split
  · trivial
  split
  · exact Prog.only_bind only_now fun _ => only_patch
  · exact only_patch

private theorem only_enqueue (policy : SecurityPolicy) (actor : UserId) :
    (SqlJobQueue.enqueue (distributionJob policy actor)).Only QueueAside := by
  refine Prog.only_bind (only_must rfl) fun inserted => ?_
  split
  · trivial
  · refine Prog.only_bind (Prog.only_bind (only_must trivial) fun _ => trivial) fun existing => ?_
    split <;> trivial

private theorem only_queue {p : QueueProg PolicyJobPayload α} (h : p.Only QueueAside) :
    (onPolicyQueue p).Only Aside :=
  Prog.only_embed h

private theorem only_recordRejection (p : SecurityPolicy) (actor : UserId) (status : EngineStatus)
    (reason : String) : (recordRejection p actor status reason).Only Aside :=
  Prog.only_bind (only_onStore trivial) fun _ =>
    Prog.only_bind (only_onStore trivial) fun _ => only_onStore trivial

/-- One call, then the rest from wherever its answers lead. -/
private theorem follows_onStore {op : String} {c : PolicyCall} {k : c.Ans → PolicyProg α}
    {Q : Except String α → PolicyStage → Prop}
    (hok : ∀ a, PossiblePolicy c (.ok a) →
      ∃ y, x.next c (.ok a) = some y ∧ policyProtocol.Follows Q y (k a))
    (herr : ∀ e, ∃ y, x.next c (.error e) = some y ∧ ∀ e', Q (.error e') y) :
    policyProtocol.Follows Q x ((onStore op c).bind k) := by
  intro r hr
  cases r with
  | ok a => exact hok a hr
  | error e =>
    obtain ⟨y, hy, hq⟩ := herr e
    exact ⟨y, hy, hq _⟩

/-- A program that stays where it is, then the rest from there. -/
private theorem follows_then {p : PolicyProg α} {k : α → PolicyProg β}
    {Q : Except String β → PolicyStage → Prop} (hp : p.Only Aside)
    (hk : ∀ a, policyProtocol.Follows Q x (k a)) (herr : ∀ e, Q (.error e) x) :
    policyProtocol.Follows Q x (p.bind k) := by
  refine Protocol.follows_bind (follows_aside (x := x) hp) ?_ ?_
  · rintro a y rfl
    exact hk a
  · rintro e y rfl
    exact herr e

/-- A program that stays where it is ends as anything that holds there. -/
private theorem follows_only {p : PolicyProg α} {Q : Except String α → PolicyStage → Prop}
    (hp : p.Only Aside) (hq : ∀ r, Q r x) : policyProtocol.Follows Q x p := by
  refine Protocol.follows_mono ?_ (follows_aside (x := x) hp)
  rintro r y rfl
  exact hq r

private theorem follows_throw {code message : String} {Q : Except String α → PolicyStage → Prop}
    (hq : ∀ e, Q (.error e) x) : policyProtocol.Follows Q x (apiError code message) :=
  hq _

private abbrev Anyhow {α : Type} : Except String α → PolicyStage → Prop := fun _ _ => True

private theorem only_authorize (ctx : RequestContext) (org : OrganizationId) :
    (authorize ctx org).Only Aside := by
  unfold authorize
  split <;> trivial

private theorem draftOf_isDraft (ctx : RequestContext) (org : OrganizationId) (name : String)
    (riskLevel : RiskLevel) (action : EnforcementAction) (mode : RouteProtectionMode)
    (expiresAt : Option Expiry) (newId : Nat) (read : Option SecurityPolicy) :
    IsDraft org read (draftOf ctx org name riskLevel action mode expiresAt newId read) := by
  cases read with
  | none => exact ⟨rfl, rfl, trivial⟩
  | some p => exact ⟨rfl, rfl, rfl, rfl⟩

/-- A save. -/
private theorem follows_save (P : Platform) (ctx : RequestContext) (input : SavePolicyInput)
    (newId : Nat) :
    policyProtocol.Follows Anyhow (.start true) (saveSecurityPolicy P ctx input newId) := by
  unfold saveSecurityPolicy
  -- what is checked is of no concern, and must not be computed
  generalize input.checked = form
  generalize validatePolicy = validate
  generalize protectionWindow P = window
  refine follows_then (only_authorize ..) (fun _ => ?_) fun _ => trivial
  rcases form with reason | ⟨name, riskLevel, action⟩
  · exact follows_throw fun _ => trivial
  refine follows_onStore (fun read _ => ⟨.saving _ read, rfl, ?_⟩)
    fun _ => ⟨.over, rfl, fun _ => trivial⟩
  refine follows_then (only_queue only_now) (fun now => ?_) fun _ => trivial
  rcases window now input read with reason | ⟨mode, expiresAt⟩
  · exact follows_throw fun _ => trivial
  have hdraft := draftOf_isDraft ctx input.organizationId name riskLevel action mode expiresAt
    newId read
  dsimp only
  split
  · exact follows_throw fun _ => trivial
  refine follows_onStore (fun saved _ => ⟨.over, if_pos hdraft, ?_⟩)
    fun _ => ⟨.over, if_pos hdraft, fun _ => trivial⟩
  refine follows_only ?_ fun _ => trivial
  exact Prog.only_bind (only_onStore trivial) fun _ =>
    Prog.only_bind (only_onStore trivial) fun _ => trivial

/-- What a distribution ends its call of the edge with. -/
private abbrev Sent (p : SecurityPolicy) : Except String (AdapterResult Nat) → PolicyStage → Prop
  | .ok (.ok status version), y => status = .succeeded ∧
      ∃ input, y = .accepted p input (if p.version < version then version else p.version)
  | _, y => Plain y

/-- Loading, compiling and posting. -/
private theorem follows_send (config : EdgeConfig) (p : SecurityPolicy) :
    policyProtocol.Follows (Sent p) (.holds p) (sendPolicy config p) := by
  unfold sendPolicy
  generalize hasCredentials config = credentials
  generalize staleVersion = stale
  refine follows_onStore (fun loaded _ => ?_) fun _ => ⟨.start false, if_pos rfl, fun _ => rfl⟩
  rcases loaded with _ | input
  · exact ⟨.start false, if_pos rfl, rfl⟩
  refine ⟨.loaded p input, if_pos rfl, ?_⟩
  dsimp only
  split
  · trivial
  intro r hr
  rcases r with e | response
  · exact hr.elim
  rcases response with ⟨status, echo⟩ | ⟨status, reason⟩
  · exact ⟨.accepted p input (acknowledged p input echo), if_pos ⟨rfl, rfl⟩, rfl, input, rfl⟩
  · refine ⟨.start false, if_pos ⟨rfl, rfl⟩, ?_⟩
    dsimp only [Prog.bind]
    split <;> rfl

private theorem follows_activate (p : SecurityPolicy) (input : CompileInput) (version : Nat)
    (actor : UserId) :
    policyProtocol.Follows Anyhow (.accepted p input version) (activate p version actor) := by
  have hnext : PolicyStage.next (.accepted p input version)
      (.saveSecurityPolicy (activation p version actor)) = fun _ => some .over := by
    funext r
    exact if_pos rfl
  refine follows_onStore (fun active _ => ⟨.over, congrFun hnext _, ?_⟩)
    fun _ => ⟨.over, congrFun hnext _, fun _ => trivial⟩
  refine follows_only ?_ fun _ => trivial
  exact Prog.only_bind (only_onStore trivial) fun _ =>
    Prog.only_bind (only_onStore trivial) fun _ => trivial

/-- A distribution, on the request path or queued. -/
private theorem follows_distribute (config : EdgeConfig) (durable : Bool) (ctx : RequestContext)
    (org : OrganizationId) :
    policyProtocol.Follows Anyhow (.start false) (distributeSecurityPolicy config durable ctx org) := by
  unfold distributeSecurityPolicy
  generalize validatePolicy = validate
  refine follows_then (only_authorize ..) (fun _ => ?_) fun _ => trivial
  refine follows_onStore (fun stored _ => ⟨.afterRead (.ok stored), rfl, ?_⟩)
    fun _ => ⟨.start false, rfl, fun _ => trivial⟩
  rcases stored with _ | p
  · exact follows_throw fun _ => trivial
  dsimp only
  split
  · exact follows_throw fun _ => trivial
  · exact follows_throw fun _ => trivial
  split
  · refine follows_only ?_ fun _ => trivial
    exact Prog.only_bind (only_queue (only_enqueue p ctx.userId)) fun _ =>
      Prog.only_bind (only_onStore trivial) fun _ => trivial
  · refine Protocol.follows_bind (follows_send config p) ?_ fun _ _ _ => trivial
    intro applied y hy
    rcases applied with ⟨status, version⟩ | ⟨status, reason⟩
    · obtain ⟨_, input, rfl⟩ := hy
      exact Protocol.follows_bind (follows_activate p input _ ctx.userId) (fun _ _ _ => trivial)
        fun _ _ _ => trivial
    · refine follows_only ?_ fun _ => trivial
      exact Prog.only_bind (only_recordRejection ..) fun _ => trivial

/-- What a handler leaves to the applier. -/
private abbrev Handled (payload : PolicyJobPayload) :
    Except String (AdapterResult PolicyExecutionResult) → PolicyStage → Prop
  | .ok (.ok status value), y => status = .succeeded ∧
      ∃ p input, p.organizationId = payload.organizationId ∧ y = .accepted p input value.version
  | _, y => Plain y

/-- The handler of a distribution job. -/
private theorem follows_handler (config : EdgeConfig) (payload : PolicyJobPayload)
    (job : JobContext) :
    policyProtocol.Follows (Handled payload) (.start false) (policyJobHandler config payload job) := by
  unfold policyJobHandler
  generalize validatePolicy = validate
  refine follows_onStore (fun stored hposs => ⟨.afterRead (.ok stored), rfl, ?_⟩)
    fun _ => ⟨.start false, rfl, fun _ => rfl⟩
  split
  next => exact plain_afterRead _
  next p hp =>
    obtain rfl : stored = some p := (Option.filter_eq_some_iff.mp hp).1
    split
    · trivial
    · trivial
    refine Protocol.follows_bind (follows_send config p) ?_ fun _ _ h => h
    intro applied y hy
    rcases applied with ⟨status, version⟩ | ⟨status, reason⟩
    · obtain ⟨hstatus, input, rfl⟩ := hy
      exact ⟨hstatus, p, input, hposs, rfl⟩
    · exact hy

/-- The applier of a result that the handler left at the stage `y`. -/
private theorem follows_applier (job : Job PolicyJobPayload)
    (result : AdapterResult PolicyExecutionResult) {y : PolicyStage}
    (hy : Handled job.payload (.ok result) y) :
    policyProtocol.Follows Anyhow y (policyApplier job result) := by
  unfold policyApplier
  split
  · trivial
  rcases result with ⟨status, value⟩ | ⟨status, reason⟩
  · obtain ⟨_, p, input, horg, rfl⟩ := hy
    intro r hr
    rcases r with e | stored
    · exact ⟨.over, if_pos horg.symm, trivial⟩
    rcases stored with _ | q
    · exact ⟨.over, if_pos horg.symm, trivial⟩
    refine ⟨.accepted q input value.version, if_pos horg.symm, ?_⟩
    dsimp only [Prog.bind]
    split
    · trivial
    next q' hq =>
      obtain rfl : q = q' := Option.some.inj (Option.filter_eq_some_iff.mp hq).1
      exact Protocol.follows_bind (follows_activate q input _ job.payload.actorId)
        (fun _ _ _ => trivial) fun _ _ _ => trivial
  · have hread : ∀ r, y.next (.getSecurityPolicyForService job.payload.organizationId) r =
        some (.afterRead r) := by
      intro r
      cases y with
      | start saves =>
        obtain rfl : saves = false := hy
        rfl
      | holds p => rfl
      | loaded p input => rfl
      | _ => exact hy.elim
    refine follows_onStore (fun stored _ => ⟨.afterRead (.ok stored), hread _, ?_⟩)
      fun _ => ⟨.start false, hread _, fun _ => trivial⟩
    refine follows_only ?_ fun _ => trivial
    split
    · trivial
    · exact only_recordRejection ..

private theorem follows_settle {job : Job PolicyJobPayload} {outcome : JobOutcome}
    {result : AdapterResult PolicyExecutionResult} {y : PolicyStage}
    (hy : Handled job.payload (.ok result) y) :
    policyProtocol.Follows Anyhow y (InProcessWorker.settle policyApplier job outcome result) :=
  Protocol.follows_bind (Protocol.follows_attempt (R := Anyhow) (follows_applier job result hy))
    (fun _ _ _ => trivial) fun _ _ _ => trivial

private theorem follows_finish (options : WorkerOptions) {job : Job PolicyJobPayload}
    {result : AdapterResult PolicyExecutionResult} {y : PolicyStage}
    (hy : Handled job.payload (.ok result) y) :
    policyProtocol.Follows Anyhow y
      (InProcessWorker.finish policyPort options policyApplier job result) := by
  rcases result with ⟨status, value⟩ | ⟨status, reason⟩
  · obtain ⟨rfl, hp⟩ := hy
    exact follows_then (only_queue only_complete) (fun _ => follows_settle ⟨rfl, hp⟩) fun _ => trivial
  · unfold InProcessWorker.finish
    dsimp only
    split
    · refine follows_then (only_queue only_now) (fun now => ?_) fun _ => trivial
      split
      · exact follows_then (only_queue only_terminate) (fun _ => follows_settle hy) fun _ => trivial
      · exact follows_then (only_queue only_defer) (fun _ => follows_settle hy) fun _ => trivial
    split
    · exact follows_then (only_queue only_terminate) (fun _ => follows_settle hy) fun _ => trivial
    · exact follows_then (only_queue only_fail) (fun _ => follows_settle hy) fun _ => trivial

/-- And its delivery. -/
private theorem follows_deliver (config : EdgeConfig) (options : WorkerOptions)
    (job : Job PolicyJobPayload) :
    policyProtocol.Follows Anyhow (.start false)
      (InProcessWorker.deliver policyPort options (policyHandlers config) policyApplier job) := by
  unfold InProcessWorker.deliver policyHandlers
  split
  next =>
    exact follows_then (only_queue only_terminate) (fun _ => follows_settle rfl) fun _ => trivial
  next handler hkind =>
    obtain rfl : policyJobHandler config = handler := by
      split at hkind
      · exact Option.some.inj hkind
      · cases hkind
    refine Protocol.follows_bind (Protocol.follows_attempt (R := fun r y =>
      match r with
      | .ok r => Handled job.payload r y
      | .error _ => True) (follows_handler config job.payload _)) ?_ fun _ _ _ => trivial
    intro r y hy
    rcases r with reason | result
    · exact follows_then (only_queue only_fail) (fun _ => follows_settle hy) fun _ => trivial
    · exact follows_finish options hy

/-- A claim gives an idle worker a job, or leaves it idle. -/
private theorem follows_claim (options : WorkerOptions) :
    policyProtocol.Follows (fun r y => ∀ job, r = .ok (some job) → y = .start false) .idle
      (onPolicyQueue (SqlJobQueue.claim options.workerId options.leaseMs)) := by
  intro r _
  rcases r with e | rows
  · exact ⟨.idle, rfl, fun _ h => by cases h⟩
  rcases rows with _ | ⟨row, rows⟩
  · exact ⟨.idle, rfl, fun _ h => by cases h⟩
  · exact ⟨.start false, rfl, fun _ _ => rfl⟩

/-- **Every program follows the protocol.** -/
theorem policyTask_follows (P : Platform) (config : EdgeConfig) (t : PolicyTask) :
    policyDuty.protocol.Follows (policyDuty.ends t) (policyDuty.first t)
      ((policyHost P config).body t) := by
  show policyProtocol.Follows Anyhow t.first (t.body P config)
  cases t with
  | save ctx input newId =>
    exact Protocol.follows_bind (follows_save P ctx input newId) (fun _ _ _ => trivial)
      fun _ _ _ => trivial
  | distribute durable ctx org =>
    exact Protocol.follows_bind (follows_distribute config durable ctx org) (fun _ _ _ => trivial)
      fun _ _ _ => trivial
  | work options =>
    refine Protocol.follows_bind (Q := Anyhow) ?_ (fun _ _ _ => trivial) fun _ _ _ => trivial
    refine Protocol.follows_bind (follows_claim options) ?_ fun _ _ _ => trivial
    intro claimed y hy
    rcases claimed with _ | job
    · trivial
    · obtain rfl : y = .start false := hy job rfl
      exact Protocol.follows_bind (follows_deliver config options job) (fun _ _ _ => trivial)
        fun _ _ _ => trivial
  | reap =>
    refine follows_only ?_ fun _ => trivial
    exact Prog.only_bind (only_queue only_now) fun _ =>
      Prog.only_bind (only_queue (only_must trivial)) fun _ => trivial

end Follows

end Security

end CloudWai
