import CloudWai.Runtime.Server

/-!
# The self-hosted hosting adapter

`selfhosted.ts` over `http.ts`: each method is one request to the runtime, and
what the runtime answers becomes an `AdapterResult`. A request can be lost on the
way, or its answer can be; either is an error to the caller, and only the runtime
knows which it was.

`createApplication` passes on the whole source it is given. `deploy` and
`rollback` name the application and nothing else: neither the revision to build
nor the revision to return to is in the request.

Both files are in `packages/adapters/src`.
-/

namespace CloudWai.Runtime

open Base Grammar Deployment

/-- What becomes of one request and its answer. -/
inductive Wire where
  | answered
  | unreachable (message : String)
  | timedOut (arrived : Bool)
deriving DecidableEq

/-- Whether the runtime gets to see the request. -/
def Wire.arrives : Wire → Bool
  | .answered => true
  | .unreachable _ => false
  | .timedOut arrived => arrived

/-- One installation: how its runtime is configured, where each organization
reaches it if it has credentials, and whether the API and the worker hold the key
that values are encrypted with. -/
structure Setup where
  config : Config
  credentials : OrganizationId → Option String
  cipher : Bool
  envVars : Bool

/-- What the outside settles about one operation: the fate of each request, by
method and path, what was drawn at random, what docker and the router say, which
stored values do not decrypt, whether the edge refuses, which hostnames the policy
it is sent names, and whether a budget is spent. -/
structure Outside where
  wire : String → String → Wire
  appId : String
  attempt : String
  handle : String → Handle
  docker : Docker
  port : Nat
  running : Bool
  refusal : String → Option String
  unreadable : String → Bool
  edgeRefusal : Option String
  policy : String → Bool
  hardCap : Option String

/-! ## `http.ts` -/

/-- `extractMessage` -/
def detail (message : String) : String :=
  if message != "" && jsLength message < 300 then s!": {message}" else "."

/-- `defaultClassify` of an error code. -/
def classify (code : Nat) : EngineStatus :=
  if 500 ≤ code ∨ code = 429 then .degraded else .failed

/-- `request` -/
def request {β : Type} (wire : Wire) (method url : String) (timeoutMs : Nat)
    (route : State → Reply β × State) (s : State) : AdapterResult β × State :=
  match wire with
  | .unreachable message => (.err .degraded s!"{method} {url} unreachable: {message}", s)
  | .timedOut arrived =>
    (.err .failed s!"{method} {url} timed out after {timeoutMs}ms.",
      if arrived then (route s).2 else s)
  | .answered =>
    match route s with
    | (.accept _ body, s') => (.ok .succeeded body, s')
    | (.refuse code message, s') =>
      (.err (classify code) s!"{method} {url} returned {code}{detail message}", s')

/-- The refusal without an endpoint. -/
def notConfigured (org : OrganizationId) : String :=
  s!"The self-hosted runtime is not configured for organization {org}. " ++
    "Register a runtime endpoint and token for this organization, or use a configured engine."

/-- `credentialsFor`, then `call`. -/
def call {β : Type} (setup : Setup) (o : Outside) (ctx : AdapterContext) (method path : String)
    (route : State → Reply β × State) (s : State) : AdapterResult β × State :=
  match setup.credentials ctx.organizationId with
  | none => (.err .notConfigured (notConfigured ctx.organizationId), s)
  | some baseUrl =>
    request (o.wire method path) method s!"{baseUrl}{path}" ctx.timeoutMs route s

/-! ## The adapter -/

/-- `opRef` -/
def opRef (ctx : AdapterContext) (id : String) (resourceType : ResourceType) : ProviderRef :=
  ⟨ctx.organizationId, "selfhosted", resourceType, id⟩

/-- `mapStatus` -/
def mapStatus : Status → EngineStatus
  | .succeeded => .succeeded
  | .running => .running
  | .pending => .pending
  | .degraded => .degraded
  | .failed => .failed

namespace SelfHosted

variable (setup : Setup) (o : Outside) (ctx : AdapterContext)

/-- Without a repository the runtime is not asked. -/
def createApplication (input : CreateApplicationInput) (s : State) :
    AdapterResult ProviderRef × State :=
  if (setup.credentials ctx.organizationId).isSome && !truthy input.gitRepository &&
      !truthy input.gitBranch then
    (.err .failed "The self-hosted runtime needs a git repository to create an application.", s)
  else
    let a := call setup o ctx "POST" "/apps" (State.createApp o.appId
      { name := input.name
        gitRepository := given input.gitRepository
        gitBranch := given input.gitBranch
        buildPack := given input.buildPack
        rootDirectory := given input.rootDirectory }) s
    (a.1.report .succeeded fun id => opRef ctx id .application, a.2)

/-- `row` is not part of the request: it marks the run that the request starts. -/
def deploy (row : DeploymentId) (applicationRef : ProviderRef) (s : State) :
    AdapterResult ProviderRef × State :=
  let id := applicationRef.resourceId
  let a := call setup o ctx "POST" s!"/apps/{id}/deploy" (State.deploy o.attempt row id) s
  (a.1.report .running fun attempt => opRef ctx attempt .deployment, a.2)

/-- An attempt is asked about itself, an application about its latest one. -/
def getDeployment (ref : ProviderRef) (s : State) : AdapterResult DeploymentState × State :=
  let a := match ref.resourceType with
    | .deployment =>
      call setup o ctx "GET" s!"/deployments/{ref.resourceId}" (State.getAttempt ref.resourceId) s
    | _ => call setup o ctx "GET" s!"/apps/{ref.resourceId}" (State.getApp o.running ref.resourceId) s
  (a.1.report .succeeded fun body => ⟨mapStatus body.status, body.url, body.engineReason⟩, a.2)

/-- Likewise. -/
def cancelDeployment (ref : ProviderRef) (s : State) : AdapterResult Unit × State :=
  match ref.resourceType with
  | .deployment =>
    call setup o ctx "POST" s!"/deployments/{ref.resourceId}/cancel"
      (State.cancelAttempt ref.resourceId) s
  | _ =>
    call setup o ctx "POST" s!"/apps/{ref.resourceId}/cancel" (State.cancelApp ref.resourceId) s

/-- The commit of `RollbackInput` goes nowhere. -/
def rollback (applicationRef : ProviderRef) (_commit : String) (s : State) :
    AdapterResult ProviderRef × State :=
  let id := applicationRef.resourceId
  let a := call setup o ctx "POST" s!"/apps/{id}/rollback" (State.rollback o.docker o.port id) s
  match a.1 with
  | .ok _ _ => (.ok .running (opRef ctx id .application), a.2)
  | .err status reason =>
    if includes reason " 409" then
      (.err .notConfigured "The runtime has no previous image for this application to roll back to.",
        a.2)
    else (.err status reason, a.2)

/-- `GET /apps/:id/env` -/
def listEnvVars (ref : ProviderRef) (s : State) : AdapterResult (List EnvVarState) × State :=
  call setup o ctx "GET" s!"/apps/{ref.resourceId}/env" (State.listEnv ref.resourceId) s

/-- `POST /apps/:id/env` -/
def createEnvVar (applicationRef : ProviderRef) (entry : EnvBody) (s : State) :
    AdapterResult EnvVarState × State :=
  call setup o ctx "POST" s!"/apps/{applicationRef.resourceId}/env"
    (State.createEnv (o.handle entry.key) entry applicationRef.resourceId) s

/-- `PATCH /apps/:id/env/:key` -/
def updateEnvVar (applicationRef : ProviderRef) (entry : EnvBody) (s : State) :
    AdapterResult EnvVarState × State :=
  call setup o ctx "PATCH" s!"/apps/{applicationRef.resourceId}/env/{entry.key}"
    (State.updateEnv (o.handle entry.key) entry applicationRef.resourceId) s

/-- The variable is named by its handle. -/
def deleteEnvVar (applicationRef : ProviderRef) (engineRef : String) (s : State) :
    AdapterResult Unit × State :=
  call setup o ctx "DELETE" s!"/apps/{applicationRef.resourceId}/env/{engineRef}"
    (State.deleteEnv engineRef applicationRef.resourceId) s

/-- The answer says why the routes are not published, if they are not. -/
def setDomains (applicationRef : ProviderRef) (hostnames : List String) (s : State) :
    AdapterResult (Option String) × State :=
  call setup o ctx "PUT" s!"/apps/{applicationRef.resourceId}/domains"
    (State.setDomains setup.config o.refusal hostnames applicationRef.resourceId) s

end SelfHosted

end CloudWai.Runtime
