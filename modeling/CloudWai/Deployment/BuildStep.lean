import CloudWai.Base.Polling
import CloudWai.Data.Engine
import CloudWai.Deployment.Executor

/-!
# The build step, down to the builder's answers

`runBuildStep` starts a build and asks for its artifact until there is one. It is
written against `BuildEngine`, and the worker's and the procedures' copy of it in
`Executor` is this one with the engine's calls for its methods (`runBuildStep_plane`).
Here it is run with the engine that is configured, `createRailpackBuildEngine`, so what
answers is not the adapter but the builder: a `World` settles what becomes of each
request, and a run leaves the log of what was asked and answered.

A deploy should end on what the builder says: on the artifact it reports for the build
this call started, or on a refusal, on a build that finished with nothing to publish, or
when there was no poll left. `Honest` is that, for one run. The step goes by the status
the adapter makes of an answer, which says `failed` of a request that was never answered
in time as well, and looks at the job's own status only when it comes without an
artifact; `honest_iff` is exactly when that makes no difference.

Mirrors `packages/adapters/src/build-run.ts`, `build-railpack.ts` and `redactUrl` of
`http.ts`. Left out of an answer are the resolved commit and the framework, and of a
request the environment.
-/

namespace CloudWai.BuildStep

open Base Deployment Grammar
open Data (HttpAnswer encodeURIComponent)

/-! ## The step -/

section Step

variable {Call : Type} {Ans : Call → Type}

/-- The methods of `BuildEngine` that the step calls. -/
structure BuildEngine (Call : Type) (Ans : Call → Type) where
  build : AdapterContext → BuildRequest → Prog Call Ans String (AdapterResult ProviderRef)
  getArtifact : AdapterContext → ProviderRef → Prog Call Ans String (AdapterResult BuildArtifact)

/-- `BuildStepDeps` -/
structure BuildStepDeps (Call : Type) (Ans : Call → Type) where
  engine : BuildEngine Call Ans
  pollIntervalMs : Option Nat
  maxPolls : Option Nat
  sleep : Nat → Prog Call Ans String Unit
  onBuildStarted : ProviderRef → Prog Call Ans String Unit

namespace BuildStepDeps

variable (deps : BuildStepDeps Call Ans)

/-- Two seconds, unless it is set. -/
def interval : Nat := deps.pollIntervalMs.getD 2000

/-- So many polls, unless it is set. -/
def budget : Nat := deps.maxPolls.getD 150

/-- The reason when the polls are used up. -/
def spent : String :=
  s!"The build did not produce an artifact within {deps.budget} polls of {deps.interval}ms."

end BuildStepDeps

/-- What is made of an artifact that there is. -/
def publishable (buildRef : ProviderRef) (artifact : BuildArtifact) : BuildStepResult :=
  match toServerlessArtifact artifact with
  | some code => .ok (code, buildRef)
  | none => .error ("The build finished but produced no artifact a serverless engine " ++
      "can publish (no image and no function bundle).")

/-- The polling loop, `left` polls before it gives up. -/
def pollArtifact (deps : BuildStepDeps Call Ans) (ctx : AdapterContext) (buildRef : ProviderRef) :
    Nat → Prog Call Ans String BuildStepResult
  | 0 => .ret (.error deps.spent)
  | left + 1 => (deps.engine.getArtifact ctx buildRef).bind fun
    | .ok _ artifact => .ret (publishable buildRef artifact)
    | .err status reason =>
      if status = .degraded then
        (deps.sleep deps.interval).bind fun _ => pollArtifact deps ctx buildRef left
      else .ret (.error reason)

/-- The build step: a start, and then polls until the build is over or the budget is spent. -/
def runBuildStep (deps : BuildStepDeps Call Ans) (org : OrganizationId) (input : BuildStepInput) :
    Prog Call Ans String BuildStepResult :=
  match given input.repository with
  | none => .ret (.error "This project has no git repository, so there is nothing to build.")
  | some repository =>
    let ctx : AdapterContext := ⟨org, input.idempotencyKey, input.timeoutMs⟩
    (deps.engine.build ctx
      ⟨repository, given input.branch, given input.rootDirectory, given input.buildPack⟩).bind fun
    | .err _ reason => .ret (.error reason)
    | .ok _ buildRef =>
      (deps.onBuildStarted buildRef).bind fun _ => pollArtifact deps ctx buildRef deps.budget

end Step

/-! ## The plane's copy -/

section Plane

variable (row : DeploymentId) (onBuildStarted : ProviderRef → PlaneProg Unit)

/-- The engine behind the plane's calls; nobody is told of the plane's waits. -/
def plane : BuildStepDeps Deployment.Call Deployment.Call.Ans where
  engine :=
    { build := fun ctx request => onEngine row (.build ctx request)
      getArtifact := fun ctx ref => onEngine row (.getArtifact ctx ref) }
  pollIntervalMs := none
  maxPolls := none
  sleep _ := .ret ()
  onBuildStarted := onBuildStarted

/-- The worker's loop is this one over the engine's own calls. -/
theorem pollArtifact_plane (ctx : AdapterContext) (buildRef : ProviderRef) (left : Nat) :
    pollArtifact (plane row onBuildStarted) ctx buildRef left =
      Deployment.pollArtifact row ctx buildRef left := by
  induction left with
  | zero => rfl
  | succ left ih =>
    show Prog.bind _ _ = Prog.bind _ _
    congr 1
    funext result
    cases result with
    | ok status artifact =>
      show Prog.ret (publishable buildRef artifact) = _
      unfold publishable
      dsimp only
      cases toServerlessArtifact artifact with
      | none => rfl
      | some code => rfl
    | err status reason =>
      dsimp only
      split
      · exact ih
      · rfl

/-- **The plane's build step is this one.** -/
theorem runBuildStep_plane (org : OrganizationId) (input : BuildStepInput) :
    runBuildStep (plane row onBuildStarted) org input =
      Deployment.runBuildStep row org onBuildStarted input := by
  unfold runBuildStep Deployment.runBuildStep
  cases given input.repository with
  | none => rfl
  | some repository =>
    dsimp only
    show Prog.bind _ _ = Prog.bind _ _
    congr 1
    funext result
    cases result with
    | err status reason => rfl
    | ok status buildRef =>
      dsimp only
      show Prog.bind _ _ = Prog.bind _ _
      congr 1
      funext _
      exact pollArtifact_plane row onBuildStarted _ buildRef maxPolls

end Plane

/-! ## The builder's adapter -/

/-- `BuildJobResponse["artifact"]`, as far as the step looks at it. -/
structure ArtifactResponse where
  image : Option String
  staticPrefix : Option String
  functions : Option (List (String × String))
  edgeFunctions : Option (List (String × String))
deriving DecidableEq

/-- `BuildJobResponse` -/
structure BuildJobResponse where
  id : Option String
  status : Option String
  artifact : Option ArtifactResponse
deriving DecidableEq

/-- `BuildCredentials` -/
structure BuildCredentials where
  baseUrl : String
  token : String
deriving DecidableEq

/-- The methods that the adapter uses. -/
inductive Method where
  | get | post
deriving DecidableEq

/-- `EngineRequest`; a body is the build asked for and its idempotency key. -/
structure EngineRequest where
  method : Method
  url : String
  token : String
  body : Option (BuildRequest × String)
  timeoutMs : Nat
deriving DecidableEq

/-- What became of a request to the builder; a body may be empty, or no JSON. -/
abbrev Answer := HttpAnswer (Option BuildJobResponse)

/-- What the step awaits. -/
inductive BuildCall where
  | fetch (request : EngineRequest)
  /-- `deps.onBuildStarted` -/
  | started (buildRef : ProviderRef)
  | sleep (ms : Nat)

def BuildCall.Ans : BuildCall → Type
  | .fetch _ => Answer
  | .started _ => Unit
  | .sleep _ => Unit

/-- A program of the build step. -/
abbrev BuildProg (α : Type) := Prog BuildCall BuildCall.Ans String α

/-- Keeps query strings out of what is reported. -/
def redactUrl (url : String) : String :=
  let shown := String.ofList (url.toList.takeWhile (· != '?'))
  if url.toList.contains '?' then s!"{shown}?[redacted]" else url

def Method.wire : Method → String
  | .get => "GET"
  | .post => "POST"

/-- What `request` reports of an answer. -/
def EngineRequest.result (request : EngineRequest) (answer : Answer) :
    AdapterResult (Option BuildJobResponse) :=
  answer.result s!"{request.method.wire} {redactUrl request.url}" request.timeoutMs

/-- `request` -/
def send (request : EngineRequest) : BuildProg (AdapterResult (Option BuildJobResponse)) :=
  (Prog.call (BuildCall.fetch request)).bind fun answer => .ret (request.result answer)

/-- `hasAnyOutput` -/
def ArtifactResponse.hasAnyOutput (payload : ArtifactResponse) : Bool :=
  payload.image.isSome || payload.staticPrefix.isSome || payload.functions.isSome ||
    payload.edgeFunctions.isSome

/-- `toArtifact`; the builder does not say in which bucket its output is. -/
def toArtifact (payload : Option ArtifactResponse) : Option BuildArtifact :=
  match payload with
  | none => none
  | some payload =>
    if payload.hasAnyOutput then some ⟨payload.image, none, payload.functions.getD []⟩ else none

/-- `job.status === "queued" || job.status === "running"` -/
def BuildJobResponse.running (job : BuildJobResponse) : Bool :=
  job.status == some "queued" || job.status == some "running"

/-- What reading a field of an absent body throws. -/
def noBody : String := "Cannot read properties of undefined"

/-- `createRailpackBuildEngine`, by its credentials. -/
structure Railpack where
  credentials : OrganizationId → Option BuildCredentials

namespace Railpack

variable (railpack : Railpack)

/-- The refusal without an endpoint. -/
def notConfigured (org : OrganizationId) : String :=
  s!"No build engine is configured for organization {org}. " ++
    "Provision a builder endpoint and token for this organization."

/-- `credentialsFor` -/
def credentialsFor (org : OrganizationId) : Option BuildCredentials :=
  (railpack.credentials org).filter fun creds => creds.baseUrl != "" && creds.token != ""

/-- `${baseUrl}/builds`, of an address that may end in a slash. -/
def buildsUrl (creds : BuildCredentials) : String :=
  match creds.baseUrl.toList.reverse with
  | '/' :: rest => s!"{String.ofList rest.reverse}/builds"
  | _ => s!"{creds.baseUrl}/builds"

def refFor (org : OrganizationId) (id : String) : ProviderRef := ⟨org, "railpack", .build, id⟩

/-- `POST /builds` -/
def start (creds : BuildCredentials) (ctx : AdapterContext) (request : BuildRequest) :
    EngineRequest :=
  ⟨.post, buildsUrl creds, creds.token, some (request, ctx.idempotencyKey), ctx.timeoutMs⟩

/-- `GET /builds/:id` -/
def ask (creds : BuildCredentials) (ctx : AdapterContext) (id : String) : EngineRequest :=
  ⟨.get, s!"{buildsUrl creds}/{encodeURIComponent id}", creds.token, none, ctx.timeoutMs⟩

/-- The second half of `build`. -/
def accepted (org : OrganizationId) :
    AdapterResult (Option BuildJobResponse) → Except String (AdapterResult ProviderRef)
  | .err status reason => .ok (.err status reason)
  | .ok _ none => .error noBody
  | .ok _ (some job) =>
    match given job.id with
    | none => .ok (.err .failed "The builder accepted the build but returned no build id.")
    | some id => .ok (.ok .succeeded (refFor org id))

/-- The second half of `getArtifact`. -/
def artifactOf :
    AdapterResult (Option BuildJobResponse) → Except String (AdapterResult BuildArtifact)
  | .err status reason => .ok (.err status reason)
  | .ok _ none => .error noBody
  | .ok _ (some job) =>
    match toArtifact job.artifact with
    | some artifact => .ok (.ok .succeeded artifact)
    | none =>
      if job.running then
        .ok (.err .degraded "The build is still running, so it has no artifact yet.")
      else .ok (.err .failed "The build finished without producing an artifact.")

/-- A result, or what was thrown. -/
def settle {α : Type} : Except String α → BuildProg α
  | .ok a => .ret a
  | .error e => .raise e

/-- `POST /builds` -/
def build (ctx : AdapterContext) (request : BuildRequest) :
    BuildProg (AdapterResult ProviderRef) :=
  if trim request.repository = "" then .ret (.err .failed "A git source needs a repository URL.")
  else
    match railpack.credentialsFor ctx.organizationId with
    | none => .ret (.err .notConfigured (notConfigured ctx.organizationId))
    | some creds => (send (start creds ctx request)).bind fun response =>
      settle (accepted ctx.organizationId response)

/-- `GET /builds/:id` -/
def getArtifact (ctx : AdapterContext) (ref : ProviderRef) :
    BuildProg (AdapterResult BuildArtifact) :=
  match railpack.credentialsFor ctx.organizationId with
  | none => .ret (.err .notConfigured (notConfigured ctx.organizationId))
  | some creds => (send (ask creds ctx ref.resourceId)).bind fun response =>
    settle (artifactOf response)

/-- The step's dependencies, with the builder behind them. -/
def deps (pollIntervalMs maxPolls : Option Nat) : BuildStepDeps BuildCall BuildCall.Ans where
  engine := ⟨railpack.build, railpack.getArtifact⟩
  pollIntervalMs := pollIntervalMs
  maxPolls := maxPolls
  sleep ms := Prog.call (BuildCall.sleep ms)
  onBuildStarted buildRef := Prog.call (BuildCall.started buildRef)

@[simp] theorem deps_build (pollIntervalMs maxPolls : Option Nat) :
    (railpack.deps pollIntervalMs maxPolls).engine.build = railpack.build := by
  simp only [deps]

@[simp] theorem deps_getArtifact (pollIntervalMs maxPolls : Option Nat) :
    (railpack.deps pollIntervalMs maxPolls).engine.getArtifact = railpack.getArtifact := by
  simp only [deps]

end Railpack

/-! ## A run -/

/-- What becomes of the `n`-th request, and of telling the caller of a build. -/
structure World where
  answers : Nat → Answer
  onBuildStarted : ProviderRef → Except String Unit

/-- What was asked and what became of it. -/
abbrev Log := List (EngineRequest × Answer)

/-- Every call is answered by the world, and is noted. -/
def World.perform (world : World) (log : Log) : (c : BuildCall) → Except String c.Ans × Log
  | .fetch request => (.ok (world.answers log.length), log ++ [(request, world.answers log.length)])
  | .started buildRef => (world.onBuildStarted buildRef, log)
  | .sleep _ => (.ok (), log)

/-- The step's outcome, an exception or a result, and its log. -/
def run (railpack : Railpack) (pollIntervalMs maxPolls : Option Nat) (org : OrganizationId)
    (input : BuildStepInput) (world : World) : Except String BuildStepResult × Log :=
  (runBuildStep (railpack.deps pollIntervalMs maxPolls) org input).eval world.perform []

/-! ## What the builder says -/

/-- The job that a good answer reports. -/
def reported : Answer → Option BuildJobResponse
  | .replied code body _ => if 200 ≤ code ∧ code < 300 then body else none
  | _ => none

/-- The build that an answer to a start names. -/
def named (answer : Answer) : Option String := (reported answer).bind fun job => given job.id

/-- The builder said something. -/
def Answered : Answer → Prop
  | .replied .. => True
  | _ => False

/-- An answer that no later one would change: neither good nor one of an engine that
is unwell. -/
def Declines : Answer → Prop
  | .replied code _ _ => ¬ (200 ≤ code ∧ code < 300) ∧ ¬ (500 ≤ code ∨ code = 429)
  | _ => False

/-- The engine is unwell, or out of reach. -/
def Unwell : Answer → Prop
  | .replied code _ _ => 500 ≤ code ∨ code = 429
  | .unreachable _ => True
  | .timedOut => False

/-- A timeout, a 5xx, a 429 or a connection that failed. -/
def Transient (answer : Answer) : Prop := answer = .timedOut ∨ Unwell answer

/-- The image of a job, when it has one. -/
def BuildJobResponse.usable (job : BuildJobResponse) : Option String :=
  job.artifact.bind fun payload => given payload.image

/-- The build is over, and there is nothing to publish. -/
def FinishedEmpty (answer : Answer) : Prop :=
  ∃ job ∈ reported answer, job.running = false ∧ job.usable = none

instance (answer : Answer) : Decidable (Answered answer) := by
  unfold Answered
  split <;> infer_instance

instance (answer : Answer) : Decidable (Declines answer) := by
  unfold Declines
  split <;> infer_instance

instance (answer : Answer) : Decidable (Unwell answer) := by
  unfold Unwell
  split <;> infer_instance

instance (answer : Answer) : Decidable (FinishedEmpty answer) :=
  inferInstanceAs (Decidable (∃ job ∈ reported answer, _))

/-! ## What a deploy may go by -/

/-- The polls among the requests. -/
def polls (log : Log) : Log := log.filter fun x => x.1.method = .get

/-- A poll of the build that was started in this log. -/
def OfBuild (log : Log) (polled : EngineRequest × Answer) : Prop :=
  ∃ started ∈ log, started.1.method = .post ∧ ∃ id ∈ named started.2,
    polled.1.url = s!"{started.1.url}/{encodeURIComponent id}"

instance (log : Log) (polled : EngineRequest × Answer) : Decidable (OfBuild log polled) :=
  inferInstanceAs (Decidable (∃ started ∈ log, _ ∧ ∃ id ∈ named started.2, _))

/-- The builder answered the start without naming a build, or turned a poll of it away. -/
def Refused (log : Log) : Prop :=
  (∃ x ∈ log, x.1.method = .post ∧ Answered x.2 ∧ named x.2 = none) ∨
    ∃ x ∈ polls log, OfBuild log x ∧ Declines x.2

/-- The builder said that the build is over and left nothing. -/
def Finished (log : Log) : Prop := ∃ x ∈ polls log, OfBuild log x ∧ FinishedEmpty x.2

/-- There is a build, and no poll is left for it. -/
def Spent (budget : Nat) (log : Log) : Prop :=
  (∃ x ∈ log, x.1.method = .post ∧ (named x.2).isSome) ∧ (polls log).length = budget

instance (log : Log) : Decidable (Refused log) :=
  inferInstanceAs (Decidable ((∃ x ∈ log, _) ∨ ∃ x ∈ polls log, _))

instance (log : Log) : Decidable (Finished log) := inferInstanceAs (Decidable (∃ x ∈ polls log, _))

instance (budget : Nat) (log : Log) : Decidable (Spent budget log) :=
  inferInstanceAs (Decidable (_ ∧ _))

/-- The outcome is what the builder said. A run that asked nothing has no word of the
builder to go by. -/
structure Honest (budget : Nat) (out : Except String BuildStepResult × Log) : Prop where
  bounded : (polls out.2).length ≤ budget
  artifact : ∀ code buildRef, out.1 = .ok (.ok (code, buildRef)) →
    ∃ started ∈ out.2, started.1.method = .post ∧ named started.2 = some buildRef.resourceId ∧
      ∃ polled ∈ polls out.2,
        polled.1.url = s!"{started.1.url}/{encodeURIComponent buildRef.resourceId}" ∧
        ∃ job ∈ reported polled.2, ∃ image, job.usable = some image ∧ image ≠ "" ∧
          code = .image image
  failure : ∀ reason, out.1 = .ok (.error reason) →
    out.2 = [] ∨ Refused out.2 ∨ Finished out.2 ∨ Spent budget out.2
  patient : ∀ reason, out.1 = .ok (.error reason) →
    ∀ polled ∈ (polls out.2).getLast?, Transient polled.2 → Spent budget out.2

/-! ## When it is what the builder said -/

/-- The step gets as far as a request. -/
def Asked (railpack : Railpack) (org : OrganizationId) (input : BuildStepInput) : Prop :=
  (∃ repository ∈ given input.repository, trim repository ≠ "") ∧
    (railpack.credentialsFor org).isSome

/-- An answer to a poll that leaves everything open. -/
def Waits (answer : Answer) : Prop :=
  Unwell answer ∨ ∃ job ∈ reported answer, job.running ∧ toArtifact job.artifact = none

/-- An answer that the step takes for what it is: it came in time, and a job that is
still running has no output yet, or has an image already. -/
def Plain (answer : Answer) : Prop :=
  answer ≠ .timedOut ∧
    ∀ job ∈ reported answer, job.running → job.usable = none → toArtifact job.artifact = none

/-- The start is answered; and as long as the polls leave everything open, the next one,
unless it is the last there is, is plain. -/
def Clear (railpack : Railpack) (budget : Nat) (org : OrganizationId) (input : BuildStepInput)
    (world : World) : Prop :=
  Asked railpack org input → Answered (world.answers 0) ∧
    ∀ id, named (world.answers 0) = some id →
      world.onBuildStarted (Railpack.refFor org id) = .ok () →
      ∀ k, k + 1 < budget → (∀ j < k, Waits (world.answers (1 + j))) →
        Plain (world.answers (1 + k))

/-! ## The adapter on one answer -/

section Adapter

variable (world : World) (log : Log)

theorem send_eval (request : EngineRequest) :
    (send request).eval world.perform log =
      (.ok (request.result (world.answers log.length)),
        log ++ [(request, world.answers log.length)]) := by
  unfold send
  rw [Prog.eval_bind, Prog.eval_call]
  rfl

theorem settle_eval {α : Type} (r : Except String α) :
    (Railpack.settle r).eval world.perform log = (r, log) := by
  cases r with
  | ok a => rfl
  | error e => rfl

variable {railpack : Railpack} {ctx : AdapterContext} {creds : BuildCredentials}

theorem build_eval (hcreds : railpack.credentialsFor ctx.organizationId = some creds)
    {request : BuildRequest} (hrepository : trim request.repository ≠ "") :
    (railpack.build ctx request).eval world.perform log =
      (Railpack.accepted ctx.organizationId
          ((Railpack.start creds ctx request).result (world.answers log.length)),
        log ++ [(Railpack.start creds ctx request, world.answers log.length)]) := by
  unfold Railpack.build
  rw [if_neg hrepository, hcreds]
  dsimp only
  rw [Prog.eval_bind, send_eval]
  exact settle_eval world _ _

/-- Without a repository or credentials nothing is asked. -/
theorem build_unasked {request : BuildRequest}
    (h : trim request.repository = "" ∨ railpack.credentialsFor ctx.organizationId = none) :
    ∃ status reason,
      (railpack.build ctx request).eval world.perform log = (.ok (.err status reason), log) := by
  unfold Railpack.build
  by_cases htrim : trim request.repository = ""
  · rw [if_pos htrim]
    exact ⟨_, _, rfl⟩
  · rw [if_neg htrim, h.resolve_left htrim]
    exact ⟨_, _, rfl⟩

theorem getArtifact_eval (hcreds : railpack.credentialsFor ctx.organizationId = some creds)
    (ref : ProviderRef) :
    (railpack.getArtifact ctx ref).eval world.perform log =
      (Railpack.artifactOf
          ((Railpack.ask creds ctx ref.resourceId).result (world.answers log.length)),
        log ++ [(Railpack.ask creds ctx ref.resourceId, world.answers log.length)]) := by
  unfold Railpack.getArtifact
  rw [hcreds]
  dsimp only
  rw [Prog.eval_bind, send_eval]
  exact settle_eval world _ _

end Adapter

/-- What the step reads in the answer to a poll; nothing, when it asks again. -/
def reading (request : EngineRequest) (buildRef : ProviderRef) (answer : Answer) :
    Option (Except String BuildStepResult) :=
  match Railpack.artifactOf (request.result answer) with
  | .error e => some (.error e)
  | .ok (.ok _ artifact) => some (.ok (publishable buildRef artifact))
  | .ok (.err status reason) => if status = .degraded then none else some (.ok (.error reason))

/-- **The loop.** It ends on what the first answer says that says anything, and its log
is of the answers up to that one. -/
theorem pollArtifact_eval {railpack : Railpack} {ctx : AdapterContext} {creds : BuildCredentials}
    (hcreds : railpack.credentialsFor ctx.organizationId = some creds)
    (pollIntervalMs maxPolls : Option Nat) (buildRef : ProviderRef) (world : World) (left : Nat)
    (log : Log) :
    let deps := railpack.deps pollIntervalMs maxPolls
    let request := Railpack.ask creds ctx buildRef.resourceId
    let outcome := poll (reading request buildRef) world.answers log.length left
    (pollArtifact deps ctx buildRef left).eval world.perform log =
      (outcome.2.getD (.ok (.error deps.spent)),
        log ++ (List.range' log.length outcome.1).map fun k => (request, world.answers k)) := by
  intro deps request outcome
  -- on the polls that are left; the log grows by one answer a poll
  induction left generalizing log with
  | zero =>
    show (_, log) = (_, log ++ [])
    rw [List.append_nil]
    rfl
  | succ left ih =>
    have hlength : (log ++ [(request, world.answers log.length)]).length = log.length + 1 := by
      rw [List.length_append]
      rfl
    have hget : (railpack.getArtifact ctx buildRef).eval world.perform log =
        (Railpack.artifactOf (request.result (world.answers log.length)),
          log ++ [(request, world.answers log.length)]) :=
      getArtifact_eval world log hcreds buildRef
    -- an answer that says something ends the loop, whichever it is
    have hfinal : ∀ r, reading request buildRef (world.answers log.length) = some r →
        (r, log ++ [(request, world.answers log.length)]) =
          (outcome.2.getD (.ok (.error deps.spent)),
            log ++ (List.range' log.length outcome.1).map fun k => (request, world.answers k)) := by
      intro r hr
      show _ = ((poll _ _ _ (left + 1)).2.getD _, _ ++ (List.range' _ (poll _ _ _ (left + 1)).1).map _)
      rw [poll_final hr]
      rfl
    unfold pollArtifact
    rw [Prog.eval_bind, Railpack.deps_getArtifact, hget]
    cases hread : Railpack.artifactOf (request.result (world.answers log.length)) with
    | error e => exact hfinal _ (by rw [reading, hread])
    | ok response =>
      cases response with
      | ok status artifact => exact hfinal _ (by rw [reading, hread])
      | err status reason =>
        -- degraded is the one error that is asked again after
        by_cases hstatus : status = .degraded
        · have hagain : reading request buildRef (world.answers log.length) = none := by
            rw [reading, hread]
            exact if_pos hstatus
          dsimp only
          rw [if_pos hstatus, Prog.eval_bind]
          show (pollArtifact deps ctx buildRef left).eval world.perform
            (log ++ [(request, world.answers log.length)]) = _
          rw [ih, hlength]
          show _ = ((poll _ _ _ (left + 1)).2.getD _,
            _ ++ (List.range' _ (poll _ _ _ (left + 1)).1).map _)
          rw [poll_again hagain, List.append_assoc]
          rfl
        · dsimp only
          rw [if_neg hstatus]
          refine hfinal _ ?_
          rw [reading, hread]
          exact if_neg hstatus

/-! ## What the step reads -/

theorem reported_good {answer : Answer} {job : BuildJobResponse} (h : reported answer = some job) :
    ∃ code body message, answer = .replied code body message ∧ 200 ≤ code ∧ code < 300 := by
  cases answer with
  | timedOut => cases h
  | unreachable message => cases h
  | replied code body message =>
    by_cases hgood : 200 ≤ code ∧ code < 300
    · exact ⟨code, body, message, rfl, hgood⟩
    · exact absurd h (by simp [reported, hgood])

theorem answered_of_reported {answer : Answer} {job : BuildJobResponse}
    (h : reported answer = some job) : Answered answer := by
  obtain ⟨code, body, message, rfl, -⟩ := reported_good h
  trivial

theorem not_declines_of_reported {answer : Answer} {job : BuildJobResponse}
    (h : reported answer = some job) : ¬ Declines answer := by
  obtain ⟨code, body, message, rfl, hgood⟩ := reported_good h
  exact fun hdeclines => hdeclines.1 hgood

theorem not_good {code : Nat} (h : 500 ≤ code ∨ code = 429) : ¬ (200 ≤ code ∧ code < 300) := by
  omega

theorem reported_unwell {answer : Answer} (h : Unwell answer) : reported answer = none := by
  cases answer with
  | timedOut => rfl
  | unreachable message => rfl
  | replied code body message => exact if_neg (not_good h)

theorem not_declines_of_unwell {answer : Answer} (h : Unwell answer) : ¬ Declines answer := by
  cases answer with
  | timedOut => exact id
  | unreachable message => exact id
  | replied code body message => exact fun hdeclines => hdeclines.2 h

/-- An answer that leaves everything open does not turn the poll away. -/
theorem not_declines_of_waits {answer : Answer} (h : Waits answer) : ¬ Declines answer := by
  rcases h with hunwell | ⟨job, hjob, -⟩
  · exact not_declines_of_unwell hunwell
  · exact not_declines_of_reported hjob

/-- Nor does it report the end of the build. -/
theorem not_finished_of_waits {answer : Answer} (h : Waits answer) : ¬ FinishedEmpty answer := by
  intro hfinished
  obtain ⟨job, hjob, hover, -⟩ := hfinished
  rcases h with hunwell | ⟨job', hjob', hrunning, -⟩
  · rw [reported_unwell hunwell] at hjob
    cases hjob
  · obtain rfl := Option.some.inj (hjob.symm.trans hjob')
    exact absurd hrunning (by rw [hover]; decide)

theorem unwell_of_waits {answer : Answer} (h : Waits answer) (hjob : reported answer = none) :
    Unwell answer := by
  rcases h with hunwell | ⟨job, hjob', -⟩
  · exact hunwell
  · rw [hjob] at hjob'
    cases hjob'

/-- What `request` makes of an answer, by what the builder says in it. -/
theorem result_cases (request : EngineRequest) (answer : Answer) :
    (∃ job, reported answer = some job ∧ request.result answer = .ok .succeeded (some job)) ∨
    (reported answer = none ∧ ¬ Unwell answer ∧ Answered answer ∧
      request.result answer = .ok .succeeded none) ∨
    (reported answer = none ∧ ¬ Unwell answer ∧ (Declines answer ∨ answer = .timedOut) ∧
      ∃ reason, request.result answer = .err .failed reason) ∨
    (reported answer = none ∧ Unwell answer ∧
      ∃ reason, request.result answer = .err .degraded reason) := by
  unfold EngineRequest.result
  cases answer with
  | timedOut => exact .inr (.inr (.inl ⟨rfl, id, .inr rfl, _, rfl⟩))
  | unreachable message => exact .inr (.inr (.inr ⟨rfl, trivial, _, rfl⟩))
  | replied code body message =>
    unfold HttpAnswer.result reported
    dsimp only
    by_cases hgood : 200 ≤ code ∧ code < 300
    · rw [if_pos hgood, if_pos hgood]
      cases body with
      | none => exact .inr (.inl ⟨rfl, fun hunwell => not_good hunwell hgood, trivial, rfl⟩)
      | some job => exact .inl ⟨job, rfl, rfl⟩
    · rw [if_neg hgood, if_neg hgood]
      unfold Runtime.classify
      by_cases hunwell : 500 ≤ code ∨ code = 429
      · rw [if_pos hunwell]
        exact .inr (.inr (.inr ⟨rfl, hunwell, _, rfl⟩))
      · rw [if_neg hunwell]
        exact .inr (.inr (.inl ⟨rfl, hunwell, .inl ⟨hgood, hunwell⟩, _, rfl⟩))

/-- A start comes back with the build the builder names, or the run is over. -/
theorem accepted_cases (org : OrganizationId) (request : EngineRequest) (answer : Answer) :
    (∃ id, named answer = some id ∧ Answered answer ∧
      Railpack.accepted org (request.result answer) =
        .ok (.ok .succeeded (Railpack.refFor org id))) ∨
    (named answer = none ∧ Answered answer ∧
      Railpack.accepted org (request.result answer) = .error noBody) ∨
    (named answer = none ∧ ∃ status reason,
      Railpack.accepted org (request.result answer) = .ok (.err status reason)) := by
  have hnamed : reported answer = none → named answer = none := by
    intro h
    rw [named, h]
    rfl
  rcases result_cases request answer with ⟨job, hjob, hresult⟩ | ⟨hjob, -, hans, hresult⟩ |
    ⟨hjob, -, -, reason, hresult⟩ | ⟨hjob, -, reason, hresult⟩
  · have hans : Answered answer := answered_of_reported hjob
    rw [hresult]
    unfold named Railpack.accepted
    rw [hjob]
    dsimp only [Option.bind_some]
    cases given job.id with
    | none => exact .inr (.inr ⟨rfl, _, _, rfl⟩)
    | some id => exact .inl ⟨id, rfl, hans, rfl⟩
  · rw [hresult]
    exact .inr (.inl ⟨hnamed hjob, hans, rfl⟩)
  · rw [hresult]
    exact .inr (.inr ⟨hnamed hjob, _, _, rfl⟩)
  · rw [hresult]
    exact .inr (.inr ⟨hnamed hjob, _, _, rfl⟩)

section Reading

variable {request : EngineRequest} {buildRef : ProviderRef} {answer : Answer}

/-- An artifact of the builder has an image to publish, or nothing. -/
theorem publishable_toArtifact (buildRef : ProviderRef) {job : BuildJobResponse}
    {artifact : BuildArtifact} (h : toArtifact job.artifact = some artifact) :
    (∃ image, job.usable = some image ∧ publishable buildRef artifact = .ok (.image image, buildRef)) ∨
      (job.usable = none ∧ ∃ reason, publishable buildRef artifact = .error reason) := by
  unfold toArtifact at h
  unfold BuildJobResponse.usable publishable toServerlessArtifact
  cases hpayload : job.artifact with
  | none =>
    rw [hpayload] at h
    exact absurd h (by simp)
  | some payload =>
    rw [hpayload] at h
    dsimp only at h
    split at h
    next =>
      obtain rfl := Option.some.inj h
      dsimp only [Option.bind_some]
      cases given payload.image with
      | some image => exact .inl ⟨image, rfl, rfl⟩
      | none =>
        have hbucket : given none = none := rfl
        rw [hbucket]
        refine .inr ⟨rfl, ?_⟩
        cases payload.functions.getD [] with
        | nil => exact ⟨_, rfl⟩
        | cons f fs => exact ⟨_, rfl⟩
    next => exact absurd h (by simp)

theorem usable_none {job : BuildJobResponse} (h : toArtifact job.artifact = none) :
    job.usable = none := by
  unfold toArtifact at h
  unfold BuildJobResponse.usable
  cases hpayload : job.artifact with
  | none => rfl
  | some payload =>
    rw [hpayload] at h
    dsimp only at h
    split at h
    next => exact absurd h (by simp)
    next houtput =>
      have himage : payload.image = none := by
        cases himage : payload.image with
        | none => rfl
        | some image => exact absurd (by simp [ArtifactResponse.hasAnyOutput, himage]) houtput
      rw [Option.bind_some, himage]
      rfl

theorem usable_ne {job : BuildJobResponse} {image : String} (h : job.usable = some image) :
    image ≠ "" := by
  unfold BuildJobResponse.usable at h
  obtain ⟨payload, -, hgiven⟩ := Option.bind_eq_some_iff.mp h
  unfold given at hgiven
  split at hgiven
  next htruthy =>
    intro hempty
    rw [hgiven, hempty] at htruthy
    exact absurd htruthy (by decide)
  next => cases hgiven

/-- The reading of a good answer. -/
theorem reading_job {job : BuildJobResponse}
    (h : request.result answer = .ok .succeeded (some job)) :
    reading request buildRef answer =
      match toArtifact job.artifact with
      | some artifact => some (.ok (publishable buildRef artifact))
      | none =>
        if job.running then none
        else some (.ok (.error "The build finished without producing an artifact.")) := by
  unfold reading
  rw [h]
  unfold Railpack.artifactOf
  dsimp only
  cases toArtifact job.artifact with
  | some artifact => rfl
  | none => by_cases hrunning : job.running <;> simp [hrunning]

/-- The step asks again after the answers that leave everything open. -/
theorem reading_none_iff : reading request buildRef answer = none ↔ Waits answer := by
  -- the builder reported a job, or the adapter made an error of the answer
  rcases result_cases request answer with ⟨job, hjob, hresult⟩ | ⟨hjob, hunwell, -, hresult⟩ |
    ⟨hjob, hunwell, -, reason, hresult⟩ | ⟨-, hunwell, reason, hresult⟩
  · rw [reading_job hresult]
    constructor
    · intro h
      cases hartifact : toArtifact job.artifact with
      | some artifact =>
        rw [hartifact] at h
        cases h
      | none =>
        rw [hartifact] at h
        -- no artifact: what is left open is a job that is still running
        by_cases hrunning : job.running
        · exact .inr ⟨job, hjob, hrunning, hartifact⟩
        · dsimp only at h
          rw [if_neg hrunning] at h
          cases h
    · intro h
      rcases h with hunwell | ⟨job', hjob', hrunning, hartifact⟩
      · rw [reported_unwell hunwell] at hjob
        cases hjob
      · obtain rfl := Option.some.inj (hjob.symm.trans hjob')
        rw [hartifact]
        exact if_pos hrunning
  · unfold reading
    rw [hresult]
    exact ⟨fun h => (nomatch h), fun h => absurd (unwell_of_waits h hjob) hunwell⟩
  · unfold reading
    rw [hresult]
    exact ⟨fun h => (nomatch h), fun h => absurd (unwell_of_waits h hjob) hunwell⟩
  · unfold reading
    rw [hresult]
    exact ⟨fun _ => .inl hunwell, fun _ => rfl⟩

/-- A failure is the only reading of an answer that is not plain. -/
theorem plain_of_reading (request : EngineRequest) (buildRef : ProviderRef)
    (h : ∀ reason, reading request buildRef answer ≠ some (.ok (.error reason))) :
    Plain answer := by
  rcases result_cases request answer with ⟨job, hjob, hresult⟩ | ⟨hjob, -, hans, -⟩ |
    ⟨-, -, -, reason, hresult⟩ | ⟨hjob, hunwell, -⟩
  · refine ⟨fun htimeout => ?_, fun job' hjob' _ husable => ?_⟩
    · rw [htimeout] at hjob
      cases hjob
    · obtain rfl := Option.some.inj (hjob.symm.trans hjob')
      cases hartifact : toArtifact job.artifact with
      | none => rfl
      | some artifact =>
        -- an artifact without an image is refused, which would be a failure
        rcases publishable_toArtifact buildRef hartifact with
          ⟨image, himage, -⟩ | ⟨-, reason, hreason⟩
        · rw [husable] at himage
          cases himage
        · refine absurd ?_ (h reason)
          rw [reading_job hresult, hartifact]
          dsimp only
          rw [hreason]
  · refine ⟨fun htimeout => ?_, fun job hjob' => ?_⟩
    · rw [htimeout] at hans
      exact hans.elim
    · rw [hjob] at hjob'
      cases hjob'
  · refine absurd ?_ (h reason)
    unfold reading
    rw [hresult]
    rfl
  · refine ⟨fun htimeout => ?_, fun job hjob' => ?_⟩
    · rw [htimeout] at hunwell
      exact hunwell.elim
    · rw [hjob] at hjob'
      cases hjob'

/-- What the step publishes is the image the answer reports. -/
theorem reading_code {code : ServerlessArtifact} {ref : ProviderRef}
    (h : reading request buildRef answer = some (.ok (.ok (code, ref)))) :
    ref = buildRef ∧ ∃ job ∈ reported answer, ∃ image, job.usable = some image ∧ image ≠ "" ∧
      code = .image image := by
  rcases result_cases request answer with ⟨job, hjob, hresult⟩ | ⟨-, -, -, hresult⟩ |
    ⟨-, -, -, reason, hresult⟩ | ⟨-, -, reason, hresult⟩
  · rw [reading_job hresult] at h
    cases hartifact : toArtifact job.artifact with
    | none =>
      rw [hartifact] at h
      dsimp only at h
      split at h <;> cases h
    | some artifact =>
      rw [hartifact] at h
      have hpublished : publishable buildRef artifact = .ok (code, ref) := by
        injection h with h
        injection h
      rcases publishable_toArtifact buildRef hartifact with
        ⟨image, husable, himage⟩ | ⟨-, reason, hreason⟩
      · rw [himage] at hpublished
        cases hpublished
        exact ⟨rfl, job, hjob, image, husable, usable_ne husable, rfl⟩
      · rw [hreason] at hpublished
        cases hpublished
  · unfold reading at h
    rw [hresult] at h
    cases h
  · unfold reading at h
    rw [hresult] at h
    cases h
  · unfold reading at h
    rw [hresult] at h
    cases h

/-- A failure is the builder's own word exactly when the answer was plain. -/
theorem reading_failure {reason : String}
    (h : reading request buildRef answer = some (.ok (.error reason))) :
    (Plain answer ↔ Declines answer ∨ FinishedEmpty answer) ∧ ¬ Unwell answer := by
  -- the four ways an answer can be read
  rcases result_cases request answer with ⟨job, hjob, hresult⟩ | ⟨-, -, -, hresult⟩ |
    ⟨hjob, hunwell, hwhy, why, hresult⟩ | ⟨-, -, why, hresult⟩
  -- a reported job fails only without an image
  · have husable : job.usable = none ∧ (job.running → toArtifact job.artifact ≠ none) := by
      rw [reading_job hresult] at h
      cases hartifact : toArtifact job.artifact with
      | none =>
        rw [hartifact] at h
        refine ⟨usable_none hartifact, fun hrunning => ?_⟩
        dsimp only at h
        rw [if_pos hrunning] at h
        cases h
      | some artifact =>
        rw [hartifact] at h
        refine ⟨?_, fun _ => Option.some_ne_none artifact⟩
        rcases publishable_toArtifact buildRef hartifact with
          ⟨image, -, himage⟩ | ⟨hnone, -⟩
        · dsimp only at h
          rw [himage] at h
          cases h
        · exact hnone
    -- a report is an answer of success, so it is neither a refusal nor unwell
    obtain ⟨code, body, message, rfl, hgood⟩ := reported_good hjob
    refine ⟨⟨fun hplain => .inr ⟨job, hjob, ?_, husable.1⟩, fun hsaid => ⟨by simp, ?_⟩⟩, ?_⟩
    · cases hrunning : job.running with
      | false => rfl
      | true => exact absurd (hplain.2 job hjob hrunning husable.1) (husable.2 hrunning)
    · intro job' hjob' hrunning _
      obtain rfl := Option.some.inj (hjob.symm.trans hjob')
      rcases hsaid with hdeclines | ⟨job', hjob', hover, -⟩
      · exact absurd hgood hdeclines.1
      · obtain rfl := Option.some.inj (hjob.symm.trans hjob')
        exact absurd hrunning (by rw [hover]; decide)
    · show ¬ (500 ≤ code ∨ code = 429)
      omega
  · unfold reading at h
    rw [hresult] at h
    cases h
  · have hempty : ¬ FinishedEmpty answer := by
      intro hfinished
      obtain ⟨job, hjob', -⟩ := hfinished
      rw [hjob] at hjob'
      cases hjob'
    -- a refusal is the builder's word, and a timeout is nobody's
    rcases hwhy with hdeclines | rfl
    · refine ⟨⟨fun _ => .inl hdeclines, fun _ => ⟨fun htimeout => ?_, fun job hjob' => ?_⟩⟩, hunwell⟩
      · rw [htimeout] at hdeclines
        exact hdeclines
      · rw [hjob] at hjob'
        cases hjob'
    · refine ⟨⟨fun hplain => absurd rfl hplain.1, fun hsaid => ?_⟩, hunwell⟩
      rcases hsaid with hdeclines | hfinished
      · exact hdeclines.elim
      · exact absurd hfinished hempty
  · unfold reading at h
    rw [hresult] at h
    cases h

end Reading

/-! ## The run -/

/-- The log of a start and of the `n` polls after it. -/
def heard (start request : EngineRequest) (answers : Nat → Answer) (n : Nat) : Log :=
  (start, answers 0) :: (List.range' 1 n).map fun k => (request, answers k)

section Run

variable {railpack : Railpack} {org : OrganizationId} {input : BuildStepInput}
  (pollIntervalMs maxPolls : Option Nat) (world : World)

theorem run_unasked (h : ¬ Asked railpack org input) :
    ∃ reason, run railpack pollIntervalMs maxPolls org input world = (.ok (.error reason), []) := by
  unfold run runBuildStep
  cases hrepository : given input.repository with
  | none => exact ⟨_, rfl⟩
  | some repository =>
    let ctx : AdapterContext := ⟨org, input.idempotencyKey, input.timeoutMs⟩
    let request : BuildRequest :=
      ⟨repository, given input.branch, given input.rootDirectory, given input.buildPack⟩
    have hunasked : trim request.repository = "" ∨ railpack.credentialsFor ctx.organizationId = none := by
      by_cases htrim : trim repository = ""
      · exact .inl htrim
      · exact .inr (Option.not_isSome_iff_eq_none.mp fun hcreds =>
          h ⟨⟨repository, hrepository, htrim⟩, hcreds⟩)
    obtain ⟨status, reason, hbuild⟩ := build_unasked world [] hunasked
    dsimp only
    rw [Prog.eval_bind, Railpack.deps_build, hbuild]
    exact ⟨reason, rfl⟩

/-- What is asked of the builder and what came of it, once the start was answered so. -/
def goesOn (world : World) (creds : BuildCredentials) (ctx : AdapterContext)
    (start : EngineRequest) (budget : Nat) (spent : String) :
    Except String (AdapterResult ProviderRef) → Except String BuildStepResult × Log
  | .error e => (.error e, [(start, world.answers 0)])
  | .ok (.err _ reason) => (.ok (.error reason), [(start, world.answers 0)])
  | .ok (.ok _ buildRef) =>
    match world.onBuildStarted buildRef with
    | .error e => (.error e, [(start, world.answers 0)])
    | .ok _ =>
      let request := Railpack.ask creds ctx buildRef.resourceId
      let outcome := poll (reading request buildRef) world.answers 1 budget
      (outcome.2.getD (.ok (.error spent)), heard start request world.answers outcome.1)

/-- A run that is asked for begins with the start of a build. -/
theorem run_asked (h : Asked railpack org input) :
    ∃ creds ctx request, ctx.organizationId = org ∧
      run railpack pollIntervalMs maxPolls org input world =
        goesOn world creds ctx (Railpack.start creds ctx request) (maxPolls.getD 150)
          (railpack.deps pollIntervalMs maxPolls).spent
          (Railpack.accepted org ((Railpack.start creds ctx request).result (world.answers 0))) := by
  obtain ⟨⟨repository, hrepository, htrim⟩, hconfigured⟩ := h
  obtain ⟨creds, hcreds⟩ := Option.isSome_iff_exists.mp hconfigured
  let ctx : AdapterContext := ⟨org, input.idempotencyKey, input.timeoutMs⟩
  let request : BuildRequest :=
    ⟨repository, given input.branch, given input.rootDirectory, given input.buildPack⟩
  refine ⟨creds, ctx, request, rfl, ?_⟩
  have hbuild : (railpack.build ctx request).eval world.perform [] =
      (Railpack.accepted org ((Railpack.start creds ctx request).result (world.answers 0)),
        [(Railpack.start creds ctx request, world.answers 0)]) :=
    build_eval world [] hcreds htrim
  unfold run runBuildStep
  -- a repository and credentials are there, so the build is asked for
  rw [show given input.repository = some repository from hrepository]
  dsimp only
  rw [Prog.eval_bind, Railpack.deps_build, hbuild]
  cases Railpack.accepted org ((Railpack.start creds ctx request).result (world.answers 0)) with
  | error e => rfl
  | ok response =>
    cases response with
    | err status reason => rfl
    | ok status buildRef =>
      dsimp only
      rw [Prog.eval_bind]
      -- the caller is told of the build before the first poll
      have hstarted : ((railpack.deps pollIntervalMs maxPolls).onBuildStarted buildRef).eval
          world.perform [(Railpack.start creds ctx request, world.answers 0)] =
            (world.onBuildStarted buildRef, [(Railpack.start creds ctx request, world.answers 0)]) :=
        Prog.eval_call _ _ _
      rw [hstarted]
      unfold goesOn
      dsimp only
      cases world.onBuildStarted buildRef with
      | error e => rfl
      | ok _ => exact pollArtifact_eval hcreds pollIntervalMs maxPolls buildRef world _ _

end Run

/-! ## Honest runs -/

section Honesty

variable {start request : EngineRequest} {answers : Nat → Answer} {budget : Nat}

theorem polls_start {answer : Answer} (hpost : start.method = .post) :
    polls [(start, answer)] = [] := by
  unfold polls
  rw [List.filter_cons_of_neg (by simp [hpost])]
  rfl

/-- An exception says nothing about the build. -/
theorem honest_thrown {e : String} {log : Log} (h : (polls log).length ≤ budget) :
    Honest budget (.error e, log) :=
  ⟨h, fun _ _ h => (nomatch h), fun _ h => (nomatch h), fun _ h => (nomatch h)⟩

/-- A failed start is the builder's refusal when the builder answered. -/
theorem honest_start {answer : Answer} {reason : String} (hpost : start.method = .post)
    (hnamed : named answer = none) :
    Honest budget (.ok (.error reason), [(start, answer)]) ↔ Answered answer := by
  have hpolls : polls [(start, answer)] = [] := polls_start hpost
  constructor
  · intro h
    rcases h.failure reason rfl with hempty | (⟨x, hx, -, hans, -⟩ | ⟨x, hx, -⟩) | ⟨x, hx, -⟩ |
      ⟨⟨x, hx, -, hid⟩, -⟩
    · cases hempty
    · obtain rfl := List.mem_singleton.mp hx
      exact hans
    · rw [hpolls] at hx
      exact absurd hx List.not_mem_nil
    · rw [hpolls] at hx
      exact absurd hx List.not_mem_nil
    · obtain rfl := List.mem_singleton.mp hx
      rw [hnamed] at hid
      cases hid
  · intro hans
    refine ⟨?_, fun _ _ h => (nomatch h), fun _ _ => .inr (.inl (.inl ?_)), fun _ _ x hx => ?_⟩
    · rw [hpolls]
      exact Nat.zero_le budget
    · exact ⟨_, List.mem_singleton_self _, hpost, hans, hnamed⟩
    · rw [hpolls] at hx
      cases hx

section Polled

variable {buildRef : ProviderRef} {spent : String}

theorem polls_heard (answers : Nat → Answer) (hpost : start.method = .post) (hget : request.method = .get) (n : Nat) :
    polls (heard start request answers n) =
      (List.range' 1 n).map fun k => (request, answers k) := by
  unfold polls heard
  rw [List.filter_cons_of_neg (by simp [hpost]), List.filter_eq_self]
  intro x hx
  obtain ⟨k, -, rfl⟩ := List.mem_map.mp hx
  exact decide_eq_true hget

theorem length_polls_heard (answers : Nat → Answer) (hpost : start.method = .post) (hget : request.method = .get)
    (n : Nat) : (polls (heard start request answers n)).length = n := by
  rw [polls_heard answers hpost hget, List.length_map, List.length_range']

theorem last_poll (hpost : start.method = .post) (hget : request.method = .get) (k : Nat) :
    (polls (heard start request answers (k + 1))).getLast? = some (request, answers (1 + k)) := by
  rw [polls_heard answers hpost hget, List.range'_1_concat, List.map_append]
  exact List.getLast?_concat

/-- Every poll of the log is of the build that the start named. -/
theorem ofBuild_heard (hpost : start.method = .post)
    (hurl : request.url = s!"{start.url}/{encodeURIComponent buildRef.resourceId}")
    (hnamed : named (answers 0) = some buildRef.resourceId) (n : Nat) (answer : Answer) :
    OfBuild (heard start request answers n) (request, answer) :=
  ⟨_, List.mem_cons_self, hpost, _, hnamed, hurl⟩

/-- Only the answer the loop ended on can be other than plain. -/
theorem clear_iff_decided {k : Nat} {r : Except String BuildStepResult}
    (hdecides : reading request buildRef (answers (1 + k)) = some r)
    (hwaits : ∀ j < k, reading request buildRef (answers (1 + j)) = none) :
    (∀ m, m + 1 < budget → (∀ j < m, Waits (answers (1 + j))) → Plain (answers (1 + m))) ↔
      (k + 1 < budget → Plain (answers (1 + k))) := by
  constructor
  · intro h hk
    exact h k hk fun j hj => reading_none_iff.mp (hwaits j hj)
  · intro h m hm hopen
    rcases Nat.lt_trichotomy m k with hlt | rfl | hgt
    · refine plain_of_reading request buildRef fun reason => ?_
      rw [hwaits m hlt]
      exact fun h => (nomatch h)
    · exact h hm
    · have hnone : reading request buildRef (answers (1 + k)) = none :=
        reading_none_iff.mpr (hopen k hgt)
      rw [hnone] at hdecides
      cases hdecides

/-- A failure before the last poll is the builder's word exactly when it was read from a
plain answer. -/
theorem honest_failed {k : Nat} {reason : String} (hpost : start.method = .post)
    (hget : request.method = .get)
    (hurl : request.url = s!"{start.url}/{encodeURIComponent buildRef.resourceId}")
    (hnamed : named (answers 0) = some buildRef.resourceId) (hearly : k + 1 < budget)
    (hdecides : reading request buildRef (answers (1 + k)) = some (.ok (.error reason)))
    (hwaits : ∀ j < k, reading request buildRef (answers (1 + j)) = none) :
    Honest budget (.ok (.error reason), heard start request answers (k + 1)) ↔
      Plain (answers (1 + k)) := by
  obtain ⟨hplain, hwell⟩ := reading_failure hdecides
  have hpolls := polls_heard answers hpost hget (k + 1)
  have hlength := length_polls_heard answers hpost hget (k + 1)
  -- what any poll of the log was answered
  have hheard : ∀ x ∈ polls (heard start request answers (k + 1)),
      x.2 = answers (1 + k) ∨ Waits x.2 := by
    intro x hx
    rw [hpolls] at hx
    obtain ⟨m, hm, rfl⟩ := List.mem_map.mp hx
    obtain ⟨hlow, hhigh⟩ := List.mem_range'_1.mp hm
    by_cases hlast : m = 1 + k
    · exact .inl (congrArg answers hlast)
    · have hj := reading_none_iff.mp (hwaits (m - 1) (by omega))
      rw [show 1 + (m - 1) = m by omega] at hj
      exact .inr hj
  constructor
  · intro h
    rcases h.failure reason rfl with hempty | (⟨x, hx, hmethod, -, hnone⟩ | ⟨x, hx, -, hdeclines⟩) |
      ⟨x, hx, -, hfinished⟩ | ⟨-, hcount⟩
    · cases hempty
    · rcases List.mem_cons.mp hx with rfl | hx
      · rw [hnamed] at hnone
        cases hnone
      · obtain ⟨m, -, rfl⟩ := List.mem_map.mp hx
        rw [hget] at hmethod
        cases hmethod
    · rcases hheard x hx with hlast | hopen
      · rw [hlast] at hdeclines
        exact hplain.mpr (.inl hdeclines)
      · exact absurd hdeclines (not_declines_of_waits hopen)
    · rcases hheard x hx with hlast | hopen
      · rw [hlast] at hfinished
        exact hplain.mpr (.inr hfinished)
      · exact absurd hfinished (not_finished_of_waits hopen)
    · rw [hlength] at hcount
      omega
  · intro hanswer
    have hmem : (request, answers (1 + k)) ∈ polls (heard start request answers (k + 1)) :=
      List.mem_of_getLast? (last_poll hpost hget k)
    have hbuild := ofBuild_heard hpost hurl hnamed (k + 1) (answers (1 + k))
    refine ⟨?_, fun _ _ h => (nomatch h), fun _ _ => ?_, fun _ _ x hx htransient => ?_⟩
    · show (polls (heard start request answers (k + 1))).length ≤ budget
      omega
    · rcases hplain.mp hanswer with hdeclines | hfinished
      · exact .inr (.inl (.inr ⟨_, hmem, hbuild, hdeclines⟩))
      · exact .inr (.inr (.inl ⟨_, hmem, hbuild, hfinished⟩))
    · have hx : x = (request, answers (1 + k)) :=
        (Option.some.inj ((last_poll hpost hget k).symm.trans hx)).symm
      rw [hx] at htransient
      rcases htransient with htimeout | hunwell
      · exact absurd htimeout hanswer.1
      · exact absurd hunwell hwell

/-- **The polls of a run.** A build was started; then the run is honest exactly when no
answer that is not plain ends it early. -/
theorem honest_polled (buildRef : ProviderRef) (hpost : start.method = .post) (hget : request.method = .get)
    (hurl : request.url = s!"{start.url}/{encodeURIComponent buildRef.resourceId}")
    (hnamed : named (answers 0) = some buildRef.resourceId) :
    let outcome := poll (reading request buildRef) answers 1 budget
    Honest budget (outcome.2.getD (.ok (.error spent)), heard start request answers outcome.1) ↔
      ∀ k, k + 1 < budget → (∀ j < k, Waits (answers (1 + j))) → Plain (answers (1 + k)) := by
  intro outcome
  have hbound : outcome.1 ≤ budget := poll_le 1 budget
  have hlength : ∀ n, (polls (heard start request answers n)).length = n :=
    length_polls_heard answers hpost hget
  -- with no poll left, a failure needs no other word
  have hspent : ∀ reason, Honest budget (.ok (.error reason), heard start request answers budget) := by
    intro reason
    have hspent : Spent budget (heard start request answers budget) :=
      ⟨⟨_, List.mem_cons_self, hpost, by rw [hnamed]; rfl⟩, hlength budget⟩
    exact ⟨Nat.le_of_eq (hlength budget), fun _ _ h => (nomatch h),
      fun _ _ => .inr (.inr (.inr hspent)), fun _ _ _ _ _ => hspent⟩
  cases hverdict : outcome.2 with
  | none =>
    obtain ⟨hasked, hwaits⟩ := poll_spent hverdict
    have hasked : outcome.1 = budget := hasked
    rw [hasked]
    refine ⟨fun _ k hk _ => ?_, fun _ => hspent spent⟩
    refine plain_of_reading request buildRef fun reason => ?_
    rw [hwaits k (by omega)]
    exact fun h => (nomatch h)
  | some r =>
    obtain ⟨k, hk, hasked, hdecides, hwaits⟩ := poll_decided hverdict
    have hasked : outcome.1 = k + 1 := hasked
    have hcount : (polls (heard start request answers (k + 1))).length ≤ budget := by
      rw [hlength]
      omega
    have hplain : (∀ reason, r ≠ .ok (.error reason)) → Plain (answers (1 + k)) := by
      intro hr
      refine plain_of_reading request buildRef fun reason => ?_
      rw [hdecides]
      exact fun h => hr reason (Option.some.inj h)
    rw [hasked, Option.getD_some, clear_iff_decided hdecides hwaits]
    cases r with
    | error e => exact ⟨fun _ _ => hplain fun _ h => (nomatch h), fun _ => honest_thrown hcount⟩
    | ok result =>
      cases result with
      | ok published =>
        obtain ⟨code, ref⟩ := published
        obtain ⟨rfl, job, hjob, image, husable, hne, rfl⟩ := reading_code hdecides
        refine ⟨fun _ _ => hplain fun _ h => (nomatch h), fun _ =>
          ⟨hcount, fun code ref' hcode => ?_, fun _ h => (nomatch h), fun _ h => (nomatch h)⟩⟩
        cases hcode
        exact ⟨_, List.mem_cons_self, hpost, hnamed, (request, answers (1 + k)),
          List.mem_of_getLast? (last_poll hpost hget k), hurl, job, hjob, image, husable, hne, rfl⟩
      | error reason =>
        by_cases hearly : k + 1 < budget
        · rw [honest_failed hpost hget hurl hnamed hearly hdecides hwaits]
          exact ⟨fun h _ => h, fun h => h hearly⟩
        · have hlast : k + 1 = budget := by omega
          rw [hlast]
          exact ⟨fun _ h => absurd h (Nat.lt_irrefl budget), fun _ => hspent reason⟩

end Polled

end Honesty

/-- **The law.** The step goes by what the builder says exactly when the start is answered
and no poll that is not plain ends the wait before the last. -/
theorem honest_iff (railpack : Railpack) (pollIntervalMs maxPolls : Option Nat)
    (org : OrganizationId) (input : BuildStepInput) (world : World) :
    Honest (maxPolls.getD 150) (run railpack pollIntervalMs maxPolls org input world) ↔
      Clear railpack (maxPolls.getD 150) org input world := by
  by_cases hasked : Asked railpack org input
  · obtain ⟨creds, ctx, request, horg, hrun⟩ := run_asked pollIntervalMs maxPolls world hasked
    have hpost : (Railpack.start creds ctx request).method = .post := rfl
    have hclear : Clear railpack (maxPolls.getD 150) org input world ↔
        Answered (world.answers 0) ∧ ∀ id, named (world.answers 0) = some id →
          world.onBuildStarted (Railpack.refFor org id) = .ok () →
          ∀ k, k + 1 < maxPolls.getD 150 → (∀ j < k, Waits (world.answers (1 + j))) →
            Plain (world.answers (1 + k)) :=
      ⟨fun h => h hasked, fun h _ => h⟩
    rw [hrun, hclear]
    rcases accepted_cases org (Railpack.start creds ctx request) (world.answers 0) with
      ⟨id, hnamed, hans, haccepted⟩ | ⟨hnamed, hans, haccepted⟩ |
      ⟨hnamed, status, reason, haccepted⟩
    -- the start named a build
    · rw [haccepted]
      unfold goesOn
      dsimp only
      cases hstarted : world.onBuildStarted (Railpack.refFor org id) with
      -- whoever is to note the build throws, and there are no polls
      | error e =>
        refine ⟨fun _ => ⟨hans, fun id' hnamed' hok => ?_⟩, fun _ => honest_thrown ?_⟩
        · obtain rfl := Option.some.inj (hnamed.symm.trans hnamed')
          rw [hstarted] at hok
          cases hok
        · rw [polls_start hpost]
          exact Nat.zero_le _
      | ok u =>
        refine (honest_polled (Railpack.refFor org id) hpost rfl rfl hnamed).trans
          ⟨fun h => ⟨hans, fun _ _ _ => h⟩, fun h => h.2 id hnamed hstarted⟩
    -- the start was answered, but without a name for a build
    · rw [haccepted]
      refine ⟨fun _ => ⟨hans, fun id hnamed' => ?_⟩, fun _ => honest_thrown ?_⟩
      · rw [hnamed] at hnamed'
        cases hnamed'
      · rw [polls_start hpost]
        exact Nat.zero_le _
    -- the start was refused, or nobody answered it
    · rw [haccepted]
      refine (honest_start hpost hnamed).trans ⟨fun h => ⟨h, fun id hnamed' => ?_⟩, fun h => h.1⟩
      rw [hnamed] at hnamed'
      cases hnamed'
  · obtain ⟨reason, hrun⟩ := run_unasked pollIntervalMs maxPolls world hasked
    rw [hrun]
    refine ⟨fun _ h => absurd h hasked, fun _ => ⟨Nat.zero_le _, fun _ _ h => (nomatch h),
      fun _ _ => .inl rfl, fun _ _ x hx => ?_⟩⟩
    cases hx

/-! ## A poll that is late -/

/-- The builder takes the build, and one answer to a poll is late. -/
def late : World where
  answers
    | 0 => .replied 201 (some ⟨some "b1", some "queued", none⟩) ""
    | 1 => .timedOut
    | _ => .replied 200 (some ⟨some "b1", some "succeeded",
        some ⟨some "registry.test/app:abc", none, none, none⟩⟩) ""
  onBuildStarted _ := .ok ()

theorem late_poll_fails : ¬ Honest 150 (run ⟨fun _ => some ⟨"https://builder.test", "t"⟩⟩ none none 1
    ⟨"k1", 100, some "https://github.com/x/y", some "main", none, none⟩ late) := by
  intro h
  have hout : (run ⟨fun _ => some ⟨"https://builder.test", "t"⟩⟩ none none 1
      ⟨"k1", 100, some "https://github.com/x/y", some "main", none, none⟩ late).1 =
        .ok (.error "GET https://builder.test/builds/b1 timed out after 100ms.") := by
    decide +kernel
  rcases h.failure _ hout with hempty | hrefused | hfinished | hspent
  · revert hempty
    decide +kernel
  · revert hrefused
    decide +kernel
  · revert hfinished
    decide +kernel
  · revert hspent
    decide +kernel

end CloudWai.BuildStep
