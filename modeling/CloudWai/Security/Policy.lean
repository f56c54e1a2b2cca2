import CloudWai.Queue.Processor
import CloudWai.Queue.Workers
import CloudWai.Security.Loaders

/-!
# Saving the policy and distributing it

`saveSecurityPolicy` and `distributeSecurityPolicy` of the API, the worker's
handler and applier of a distribution job, and the statements on
`security_policies` they share. Every one of them reads the stored policy, awaits
other things, and writes the whole row back: the upsert on `(organization_id,
name)` has no condition on the version it replaces.

The world carries two ghosts nobody reads: the rows customers' saves wrote, and
the inputs whose compiled artifacts the edge accepted.

Mirrors `apps/api/src/procedures/security.ts` and `apps/worker/src/policy-job.ts`. The
incident that is opened for a rejected distribution has its table in `Sessions`.
-/

namespace CloudWai

namespace Security

open Base Queue

/-! ## The table -/

/-- An expiry on its way to the database: a customer's text, or a stored instant
handed back. -/
inductive Expiry where
  | text (s : String)
  | instant (t : Int)
deriving DecidableEq, Repr

/-- `new Date(…).getTime()`; `none` is `NaN`. -/
def Expiry.getTime (P : Platform) : Expiry → Option Int
  | .text s => P.dateParse s
  | .instant t => some t

/-- What the column comes to hold, if the database accepts it. -/
def Expiry.column (P : Platform) : Option Expiry → Option (Option Int)
  | none => some none
  | some (.text s) => P.column (some s)
  | some (.instant t) => some (some t)

/-- `SecurityPolicyInput` -/
structure PolicySave where
  id : Nat
  organizationId : OrganizationId
  name : String
  riskLevel : RiskLevel
  action : EnforcementAction
  state : PolicyState
  protectionMode : RouteProtectionMode
  protectionExpiresAt : Option Expiry
  version : Nat
  createdBy : UserId
deriving DecidableEq, Repr

/-- The row that a save makes. -/
def PolicySave.row (input : PolicySave) (expiresAt : Option Int) : SecurityPolicy where
  id := input.id
  organizationId := input.organizationId
  name := input.name
  riskLevel := input.riskLevel
  action := input.action
  state := input.state
  protectionMode := input.protectionMode
  protectionExpiresAt := expiresAt
  version := input.version

/-- `SecurityPolicyEventInput` -/
structure PolicyEvent where
  organizationId : OrganizationId
  policyId : Nat
  fromState : Option PolicyState
  toState : PolicyState
  version : Nat
  actorId : UserId
  detail : String
deriving DecidableEq, Repr

/-- The upsert's conflict target. -/
def SecurityPolicy.sameName (row p : SecurityPolicy) : Bool :=
  p.organizationId == row.organizationId && p.name == row.name

/-- `on_conflict=organization_id,name`, `merge-duplicates` -/
def Db.putPolicy (db : Db) (row : SecurityPolicy) : Db :=
  { db with policies :=
      if db.policies.any row.sameName then
        db.policies.map fun p => if row.sameName p then row else p
      else db.policies ++ [row] }

/-- The keys of the table: another row may not have the id, and an id that events
refer to may not be given away. The checks on name and version pass for every row
that is written. -/
def Db.acceptsPolicy (db : Db) (events : List PolicyEvent) (row : SecurityPolicy) : Bool :=
  db.policies.all fun p =>
    if row.sameName p then p.id == row.id || events.all (·.policyId != p.id) else p.id != row.id

/-- `getSecurityPolicy`: the same query, for a member. -/
def Db.getSecurityPolicy (db : Db) (user : UserId) (org : OrganizationId) : Option SecurityPolicy :=
  if db.isMember user org then db.getSecurityPolicyForService org else none

/-! ## The world and its calls -/

/-- `PolicyJobPayload` -/
structure PolicyJobPayload where
  organizationId : OrganizationId
  policyId : Nat
  version : Nat
  actorId : UserId
deriving DecidableEq, Repr

/-- `POLICY_JOB_KIND` -/
def policyJobKind : String := "policy.distribute.execute"

/-- The jobs, the policies and what was recorded about them. -/
structure PolicyWorld where
  now : Instant
  jobs : JobsTable PolicyJobPayload
  db : Db
  events : List PolicyEvent
  /-- Ghost: what the saves wrote, newest first. -/
  saved : List SecurityPolicy
  /-- Ghost: what the edge accepted, newest first. -/
  accepted : List (OrganizationId × CompileInput)

/-- No policies, no jobs, no events. -/
def PolicyWorld.initial (now : Instant) (db : Db) : PolicyWorld :=
  ⟨now, Table.empty, { db with policies := [] }, [], [], []⟩

/-- What the programs ask of the database and the edge. -/
inductive PolicyCall where
  | queue (c : QueueCall PolicyJobPayload)
  | getSecurityPolicy (user : UserId) (org : OrganizationId)
  | getSecurityPolicyForService (org : OrganizationId)
  | saveSecurityPolicy (input : PolicySave)
  | recordPolicyEvent (event : PolicyEvent)
  | recordAuditEvent (event : String) (org : OrganizationId) (actor : UserId) (policy version : Nat)
  | openSecurityIncident (org : OrganizationId) (severity summary : String)
  /-- The loaders, over the rows as they stand. -/
  | loadPolicy (org : OrganizationId)
  /-- `POST /edge/v1/policies` with the input compiled. -/
  | postPolicy (org : OrganizationId) (input : CompileInput)

def PolicyCall.Ans : PolicyCall → Type
  | .queue c => c.Ans
  | .getSecurityPolicy .. => Option SecurityPolicy
  | .getSecurityPolicyForService _ => Option SecurityPolicy
  | .saveSecurityPolicy _ => SecurityPolicy
  | .recordPolicyEvent _ => Unit
  | .recordAuditEvent .. => Unit
  | .openSecurityIncident .. => Unit
  | .loadPolicy _ => Option CompileInput
  | .postPolicy .. => AdapterResult (Option Nat)

/-- The edge's part in a distribution. -/
inductive EdgeReply where
  | accepted (version : Option Nat)
  | refused (status : EngineStatus) (reason : String)
  /-- It accepted, and the answer did not arrive. -/
  | lost (status : EngineStatus) (reason : String)
deriving DecidableEq, Repr

/-- What the caller learns of it. -/
def EdgeReply.result : EdgeReply → AdapterResult (Option Nat)
  | .accepted version => .ok .succeeded version
  | .refused status reason => .err status reason
  | .lost status reason => .err status reason

/-- The edge has the policy, whether or not the caller learns of it. -/
def EdgeReply.took : EdgeReply → Bool
  | .refused .. => false
  | _ => true

/-- What the outside settles about one call; a load is made with the memo of
whatever process makes it. -/
structure PolicyOracle where
  fault : Fault
  locked : JobId → Bool
  cache : ProtectionCache
  edge : EdgeReply

/-- The upsert, with the ghost of the customers' saves. -/
def PolicyWorld.save (P : Platform) (w : PolicyWorld) (input : PolicySave) :
    Except String SecurityPolicy × PolicyWorld :=
  match Expiry.column P input.protectionExpiresAt with
  | none => (.error "POST /security_policies returned 400.", w)
  | some expiresAt =>
    let row := input.row expiresAt
    if w.db.acceptsPolicy w.events row then
      (.ok row,
        { w with
          db := w.db.putPolicy row
          saved := if row.state = .draft then row :: w.saved else w.saved })
    else (.error "POST /security_policies returned 409.", w)

/-- An event refers to a policy that is there. -/
def PolicyWorld.record (w : PolicyWorld) (event : PolicyEvent) : Except String Unit × PolicyWorld :=
  if w.db.policies.any (·.id == event.policyId) then
    (.ok (), { w with events := event :: w.events })
  else (.error "POST /security_policy_events returned 409.", w)

/-- One awaited call. -/
def PolicyWorld.perform (P : Platform) (config : EdgeConfig) (w : PolicyWorld) (o : PolicyOracle) :
    (c : PolicyCall) → Except String c.Ans × PolicyWorld
  | .queue c =>
    let a := c.run w.now o.locked w.jobs
    (if c.remote then o.fault else .none).apply w (a.1, { w with jobs := a.2 })
  | .getSecurityPolicy user org => o.fault.apply w (.ok (w.db.getSecurityPolicy user org), w)
  | .getSecurityPolicyForService org =>
    o.fault.apply w (.ok (w.db.getSecurityPolicyForService org), w)
  | .saveSecurityPolicy input => o.fault.apply w (w.save P input)
  | .recordPolicyEvent event => o.fault.apply w (w.record event)
  | .recordAuditEvent .. => o.fault.apply w (.ok (), w)
  | .openSecurityIncident .. => o.fault.apply w (.ok (), w)
  | .loadPolicy org =>
    o.fault.apply w (.ok (loadPolicy config w.db w.now o.cache org).1, w)
  | .postPolicy org input =>
    (.ok o.edge.result,
      if o.edge.took then { w with accepted := (org, input) :: w.accepted } else w)

/-- What changes without a call of these programs: time, and the other tables the
edge is compiled from. -/
inductive PolicyDrift where
  | tick (ms : Nat)
  | edit (other : Db)

/-- What happens without a thread: time passes, other tables are edited. -/
def PolicyWorld.drift (w : PolicyWorld) : PolicyDrift → PolicyWorld
  | .tick ms => { w with now := w.now + ms }
  | .edit other => { w with db := { other with policies := w.db.policies } }

/-! ## Awaiting -/

/-- A program of the security plane. -/
abbrev PolicyProg (α : Type) := Prog PolicyCall PolicyCall.Ans String α

/-- `throw new ApiError(code, message)` -/
def apiError {α : Type} (code message : String) : PolicyProg α := .raise s!"{code}: {message}"

/-- A call that fails is reported under the operation's name. -/
def onStore (operation : String) (c : PolicyCall) : PolicyProg c.Ans :=
  .await c fun
    | .ok a => .ret a
    | .error reason => .raise (unavailable operation reason)

def policyPort : Port PolicyJobPayload PolicyCall PolicyCall.Ans := ⟨.queue, fun _ a => a⟩

def onPolicyQueue {α : Type} (p : QueueProg PolicyJobPayload α) : PolicyProg α :=
  p.embed policyPort.queue policyPort.back

def getSecurityPolicy (user : UserId) (org : OrganizationId) : PolicyProg (Option SecurityPolicy) :=
  onStore "getSecurityPolicy" (.getSecurityPolicy user org)

def getSecurityPolicyForService (org : OrganizationId) : PolicyProg (Option SecurityPolicy) :=
  onStore "getSecurityPolicyForService" (.getSecurityPolicyForService org)

def recordPolicyEvent (event : PolicyEvent) : PolicyProg Unit :=
  onStore "recordPolicyEvent" (.recordPolicyEvent event)

def recordAuditEvent (event : String) (p : SecurityPolicy) (actor : UserId) (version : Nat) :
    PolicyProg Unit :=
  onStore "recordAuditEvent" (.recordAuditEvent event p.organizationId actor p.id version)

/-- `requireCapability(ctx, organizationId, "security:update")` -/
def authorize (ctx : RequestContext) (org : OrganizationId) : PolicyProg Unit :=
  match requireCapability ctx org .securityUpdate with
  | .ok _ => .ret ()
  | .error (.api code message) => apiError code message
  | .error (.unavailable operation reason) => .raise (unavailable operation reason)

/-! ## `packages/security` -/

/-- The names of a risk level. -/
def RiskLevel.parse : String → Option RiskLevel
  | "low" => some .low
  | "medium" => some .medium
  | "high" => some .high
  | "critical" => some .critical
  | _ => none

def EnforcementAction.parse : String → Option EnforcementAction
  | "allow" => some .allow
  | "log" => some .log
  | "challenge" => some .challenge
  | "block" => some .block
  | "quarantine" => some .quarantine
  | _ => none

/-- `validatePolicy`: the reason it refuses with. Levels and actions are known
ones by their type here. -/
def validatePolicy (name : String) (version : Nat) : Option String :=
  if Grammar.jsLength (Grammar.trim name) = 0 then some "A policy must have a name."
  else if 120 < Grammar.jsLength name then some "A policy name is at most 120 characters."
  else if version < 1 then some "A policy version must be a positive integer."
  else none

/-- A policy at one version. -/
structure PolicyVersion where
  policyId : Nat
  version : Nat
deriving DecidableEq, Repr

/-- `mayDistribute`: the reason it refuses with. -/
def mayDistribute (candidate : PolicyVersion) (active : Option PolicyVersion) : Option String :=
  match active with
  | none => none
  | some active =>
    if candidate.policyId ≠ active.policyId then
      some "The candidate policy is not the active policy."
    else if candidate.version < active.version then
      some (s!"Version {candidate.version} is older than the active version {active.version}. " ++
        "Policy never rolls backwards.")
    else none

/-- The check both callers make: the active version is the policy's own. -/
def SecurityPolicy.refusal (p : SecurityPolicy) : Option String :=
  mayDistribute ⟨p.id, p.version⟩ (if p.state = .active then some ⟨p.id, p.version⟩ else none)

/-! ## `saveSecurityPolicy` -/

/-- `SavePolicyInput`; of the expiry, `undefined`, `null` and a text differ. -/
structure SavePolicyInput where
  organizationId : OrganizationId
  name : String
  riskLevel : String
  action : String
  protectionMode : Option RouteProtectionMode
  protectionExpiresAt : Option (Option String)
deriving DecidableEq, Repr

/-- `MAX_PROTECTION_WINDOW_MS` -/
def maxProtectionWindowMs : Int := 24 * 60 * 60 * 1000

/-- The posture a save stores: the stored one where the customer gave none. -/
def protectionWindow (P : Platform) (now : Instant) (input : SavePolicyInput)
    (existing : Option SecurityPolicy) : Except String (RouteProtectionMode × Option Expiry) :=
  let mode := input.protectionMode.getD ((existing.map (·.protectionMode)).getD .normal)
  let expiresAt := match input.protectionExpiresAt with
    | some given => given.map Expiry.text
    | none => (existing.bind (·.protectionExpiresAt)).map Expiry.instant
  if mode = .normal then .ok (mode, none)
  else
    match expiresAt with
    | none => .ok (mode, none)
    | some e =>
      match e.getTime P with
      | none => .error "The protection window is not a valid timestamp."
      | some t =>
        if t - now > maxProtectionWindowMs then .error "Attack mode lasts at most 24 hours."
        else .ok (mode, some e)

/-- The draft a save writes over what it read. -/
def draftOf (ctx : RequestContext) (org : OrganizationId) (name : String) (riskLevel : RiskLevel)
    (action : EnforcementAction) (mode : RouteProtectionMode) (expiresAt : Option Expiry)
    (newId : Nat) (existing : Option SecurityPolicy) : PolicySave where
  id := (existing.map (·.id)).getD newId
  organizationId := org
  name := name
  riskLevel := riskLevel
  action := action
  state := .draft
  protectionMode := mode
  protectionExpiresAt := expiresAt
  version := match existing with
    | some p => p.version + 1
    | none => 1
  createdBy := ctx.userId

def RouteProtectionMode.wire : RouteProtectionMode → String
  | .normal => "normal"
  | .attack => "attack"

/-- The customer's own fields, checked. -/
def SavePolicyInput.checked (input : SavePolicyInput) :
    Except String (String × RiskLevel × EnforcementAction) :=
  let name := Grammar.trim input.name
  if Grammar.jsLength name < 1 ∨ 120 < Grammar.jsLength name then
    .error "A policy name must be 1-120 characters."
  else
    match RiskLevel.parse input.riskLevel, EnforcementAction.parse input.action with
    | none, _ => .error "Unknown risk level."
    | some _, none => .error "Unknown enforcement action."
    | some riskLevel, some action => .ok (name, riskLevel, action)

/-- The procedure: the row is read, and replaced by a draft made of it and of the input. -/
def saveSecurityPolicy (P : Platform) (ctx : RequestContext) (input : SavePolicyInput)
    (newId : Nat) : PolicyProg SecurityPolicy :=
  (authorize ctx input.organizationId).bind fun _ =>
  match input.checked with
  | .error reason => apiError "invalid_input" reason
  | .ok (name, riskLevel, action) =>
    (getSecurityPolicy ctx.userId input.organizationId).bind fun existing =>
    (onPolicyQueue SqlJobQueue.now).bind fun now =>
    match protectionWindow P now input existing with
    | .error reason => apiError "invalid_input" reason
    | .ok (mode, expiresAt) =>
      let draft := draftOf ctx input.organizationId name riskLevel action mode expiresAt newId existing
      match validatePolicy draft.name draft.version with
      | some reason => apiError "invalid_input" reason
      | none =>
        (onStore "saveSecurityPolicy" (.saveSecurityPolicy draft)).bind fun saved =>
        (recordPolicyEvent
          { organizationId := input.organizationId
            policyId := saved.id
            fromState := existing.map (·.state)
            toState := .draft
            version := saved.version
            actorId := ctx.userId
            detail := s!"Policy saved as a draft ({mode.wire} protection)." }).bind fun _ =>
        (recordAuditEvent "policy.saved" saved ctx.userId saved.version).bind fun _ =>
        .ret saved

/-! ## Distribution -/

/-- `staleVersion` -/
def staleVersion (reason : String) : Bool :=
  (Pattern.seq .rest (.seq (.alt (.lit "version") (.alt (.lit "stale") (.lit "409"))) .rest)).test
    reason

/-- The client never throws. -/
def postPolicy (org : OrganizationId) (input : CompileInput) :
    PolicyProg (AdapterResult (Option Nat)) :=
  Prog.call (PolicyCall.postPolicy org input)

/-- The adapter's `applyPolicy`: what is compiled is what the loaders find now. -/
def sendPolicy (config : EdgeConfig) (policy : SecurityPolicy) : PolicyProg (AdapterResult Nat) :=
  (onStore "loadPolicy" (.loadPolicy policy.organizationId)).bind fun loaded =>
  match loaded with
  | none => .ret (.err .failed s!"No policy is known for {policy.id}.")
  | some input =>
    if !hasCredentials config policy.organizationId then
      .ret (.err .notConfigured (s!"The security edge is not configured for organization " ++
        s!"{policy.organizationId}. Provision edge credentials for this organization."))
    else
      (postPolicy policy.organizationId input).bind fun response =>
      match response with
      | .err status reason =>
        if staleVersion reason then .ret (.err .failed "The edge is holding a newer policy version.")
        else .ret (.err status reason)
      | .ok _ version => .ret (.ok .succeeded (version.getD (compileEdge input).version))

/-- The policy as it is written back once the edge has it. -/
def activation (policy : SecurityPolicy) (version : Nat) (actor : UserId) : PolicySave where
  id := policy.id
  organizationId := policy.organizationId
  name := policy.name
  riskLevel := policy.riskLevel
  action := policy.action
  state := .active
  protectionMode := policy.protectionMode
  protectionExpiresAt := policy.protectionExpiresAt.map Expiry.instant
  version := version
  createdBy := actor

/-- What both record of a refusal. -/
def recordRejection (policy : SecurityPolicy) (actor : UserId) (status : EngineStatus)
    (reason : String) : PolicyProg Unit :=
  (recordPolicyEvent
    { organizationId := policy.organizationId
      policyId := policy.id
      fromState := some policy.state
      toState := .rejected
      version := policy.version
      actorId := actor
      detail := reason }).bind fun _ =>
  (recordAuditEvent "policy.rejected" policy actor policy.version).bind fun _ =>
  onStore "openSecurityIncidentForService" (.openSecurityIncident policy.organizationId
    (if status = .notConfigured then "medium" else "high")
    s!"Policy v{policy.version} was not applied: {reason}")

/-- What both do once the edge has the policy. -/
def activate (policy : SecurityPolicy) (version : Nat) (actor : UserId) :
    PolicyProg SecurityPolicy :=
  (onStore "saveSecurityPolicy" (.saveSecurityPolicy (activation policy version actor))).bind
    fun active =>
  (recordPolicyEvent
    { organizationId := policy.organizationId
      policyId := policy.id
      fromState := some policy.state
      toState := .active
      version := active.version
      actorId := actor
      detail := "Policy distributed and accepted by the edge." }).bind fun _ =>
  (recordAuditEvent "policy.distributed" policy actor active.version).bind fun _ =>
  .ret active

/-- `DistributePolicyResult` -/
structure DistributePolicyResult where
  policy : SecurityPolicy
  distributed : Bool
  engineReason : Option String
deriving DecidableEq, Repr

/-- The job of a distribution. -/
def distributionJob (policy : SecurityPolicy) (actor : UserId) : EnqueueInput PolicyJobPayload where
  organizationId := policy.organizationId
  kind := policyJobKind
  payload := ⟨policy.organizationId, policy.id, policy.version, actor⟩
  idempotencyKey := s!"distribute-{policy.id}-v{policy.version}"
  maxAttempts := none

/-- The procedure: by a job, or at once where there is no queue. -/
def distributeSecurityPolicy (config : EdgeConfig) (durable : Bool) (ctx : RequestContext)
    (org : OrganizationId) : PolicyProg DistributePolicyResult :=
  (authorize ctx org).bind fun _ =>
  (getSecurityPolicy ctx.userId org).bind fun stored =>
  match stored with
  | none => apiError "not_found" "No security policy has been saved yet."
  | some policy =>
    match validatePolicy policy.name policy.version, policy.refusal with
    | some reason, _ => apiError "invalid_input" reason
    | none, some reason => apiError "conflict" reason
    | none, none =>
      if durable then
        (onPolicyQueue (SqlJobQueue.enqueue (distributionJob policy ctx.userId))).bind fun _ =>
        (recordAuditEvent "policy.distribution_enqueued" policy ctx.userId policy.version).bind
          fun _ =>
        .ret ⟨policy, false, none⟩
      else
        (sendPolicy config policy).bind fun applied =>
        match applied with
        | .err status reason =>
          (recordRejection policy ctx.userId status reason).bind fun _ =>
          .ret ⟨policy, false, some reason⟩
        | .ok _ version =>
          -- never below what was sent
          (activate policy (if policy.version < version then version else policy.version)
            ctx.userId).bind fun active =>
          .ret ⟨active, true, none⟩

/-! ## The worker's half -/

/-- `PolicyExecutionResult` -/
structure PolicyExecutionResult where
  status : EngineStatus
  state : PolicyState
  version : Nat
  distributed : Bool
  reason : Option String
deriving DecidableEq, Repr

/-- `buildPolicyJobHandler` -/
def policyJobHandler (config : EdgeConfig) :
    InProcessWorker.Handler PolicyJobPayload PolicyExecutionResult PolicyCall PolicyCall.Ans :=
  fun input _ =>
  (getSecurityPolicyForService input.organizationId).bind fun stored =>
  match stored.filter (·.id == input.policyId) with
  | none => .ret (.err .failed "The policy this job names no longer exists.")
  | some policy =>
    match validatePolicy policy.name policy.version, policy.refusal with
    | some reason, _ => .ret (.err .failed reason)
    | none, some reason => .ret (.err .degraded reason)
    | none, none =>
      (sendPolicy config policy).bind fun applied =>
      match applied with
      | .err status reason => .ret (.err status reason)
      | .ok status version =>
        .ret (.ok status
          { status := status
            state := .active
            version := if policy.version < version then version else policy.version
            distributed := true
            reason := none })

/-- `buildPolicyApplier` -/
def policyApplier :
    InProcessWorker.Applier PolicyJobPayload PolicyExecutionResult PolicyCall PolicyCall.Ans :=
  fun job result =>
  if job.kind ≠ policyJobKind then .ret ()
  else
    (getSecurityPolicyForService job.payload.organizationId).bind fun stored =>
    match stored.filter (·.id == job.payload.policyId) with
    | none => .ret ()
    | some policy =>
      match result with
      | .err status reason => recordRejection policy job.payload.actorId status reason
      | .ok _ value => (activate policy value.version job.payload.actorId).bind fun _ => .ret ()

/-- The worker's handlers. -/
def policyHandlers (config : EdgeConfig) (kind : String) : Option
    (InProcessWorker.Handler PolicyJobPayload PolicyExecutionResult PolicyCall PolicyCall.Ans) :=
  if kind = policyJobKind then some (policyJobHandler config) else none

/-- One tick of a worker that carries distributions. -/
def policyTick (config : EdgeConfig) (options : WorkerOptions) : PolicyProg (Option JobOutcome) :=
  InProcessWorker.tick policyPort options (policyHandlers config) policyApplier

/-! ## Everybody at once -/

/-- What is called from outside, and runs as a thread. -/
inductive PolicyTask where
  | save (ctx : RequestContext) (input : SavePolicyInput) (newId : Nat)
  | distribute (durable : Bool) (ctx : RequestContext) (org : OrganizationId)
  | work (options : WorkerOptions)
  | reap

/-- The program of a task. -/
def PolicyTask.body (P : Platform) (config : EdgeConfig) : PolicyTask → PolicyProg Unit
  | .save ctx input newId => (saveSecurityPolicy P ctx input newId).bind fun _ => .ret ()
  | .distribute durable ctx org =>
    (distributeSecurityPolicy config durable ctx org).bind fun _ => .ret ()
  | .work options => (policyTick config options).bind fun _ => .ret ()
  | .reap =>
    (onPolicyQueue SqlJobQueue.now).bind fun now =>
    (onPolicyQueue (SqlJobQueue.reapExpired now)).bind fun _ => .ret ()

/-- Members, API processes and workers over one database and one edge. -/
def policyHost (P : Platform) (config : EdgeConfig) :
    Host PolicyWorld PolicyOracle PolicyDrift PolicyTask PolicyCall PolicyCall.Ans String where
  perform := PolicyWorld.perform P config
  drift := PolicyWorld.drift
  body := PolicyTask.body P config

/-- A world with the threads that run in it. -/
abbrev PolicySys := Sys PolicyWorld PolicyTask PolicyCall PolicyCall.Ans String

abbrev PolicyMove := Move PolicyTask PolicyOracle PolicyDrift

/-! ## Scripts -/

/-- Nothing is lost, and the edge accepts everything. -/
def accepting : PolicyOracle := ⟨.none, fun _ => false, Memo.empty, .accepted none⟩

def policyForm (action : String) : SavePolicyInput := ⟨1, "main", "high", action, none, none⟩

/-- `n` calls of thread `tid`. -/
def policyCalls (tid n : Nat) : List PolicyMove := List.replicate n (.exec tid accepting)

end Security

end CloudWai
