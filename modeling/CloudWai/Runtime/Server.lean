import CloudWai.Grammar
import CloudWai.Base.Table
import CloudWai.Deployment.Procedures

/-!
# The self-hosted runtime

`runtime-server.mjs`: the applications of one installation, each with its
source, its variables, its hostnames and the two images it can run, and one
function on them for each route. A deploy is answered before it is carried out:
the route starts a background run, and the run ends later, by `finish`.

What the runtime asks of others is settled outside and handed to these functions:
which random identifier was drawn, what `docker run` did, what `git` found at
the remote and how `nixpacks` exited, what the router said. The build plane is
here too (`runBuild`), since nothing but the runtime drives it.

Only what the adapter sends is modelled: an application is created without an
image, a port or domains of its own, so it is always built from git. Logs and
their streams are left out.
-/

namespace CloudWai.Runtime

open Base Grammar Deployment

/-! ## Checks -/

/-- `isOptionLike` -/
def isOptionLike (value : String) : Bool := value.toList.head? == some '-'

/-- `/\s/` -/
def spaced (value : String) : Bool := value.toList.any jsSpace

/-- `isEnvKey` -/
def isEnvKey (key : String) : Bool := envName.test key

/-- `isGitRepository` -/
def isGitRepository (url : String) : Bool :=
  url != "" && !isOptionLike url && !spaced url && gitRemote.test url

/-- `isGitRef` of a ref that was given. -/
def isGitRef (ref : String) : Bool :=
  ref != "" && !isOptionLike ref && !spaced ref && !includes ref ".." &&
    !ref.toList.contains (Char.ofNat 0)

/-- `isHostname` -/
def isHostname (host : String) : Bool :=
  0 < jsLength host && jsLength host ≤ 253 && hostnamePattern.test host

/-! ## The build plane -/

/-- A remote repository as `git` finds it: where its default branch and its other
branches point, and what `git checkout` can resolve in a clone of depth one. -/
structure Remote where
  tip : String
  branches : List (String × String)
  resolves : List String
deriving DecidableEq

/-- What `nixpacks build` was run on: the repository, the commit in the work
tree, the directory of it, and the pack that was named. -/
structure Build where
  repository : String
  revision : String
  rootDirectory : Option String
  buildPack : Option String
deriving DecidableEq

/-- An image, with the build it came out of: docker knows only the tag. -/
structure Image where
  tag : String
  build : Build
deriving DecidableEq

/-- The body of `POST /builds`, as far as it says what is built. -/
structure BuildPayload where
  repository : String
  gitRef : Option String
  buildPack : Option String
deriving DecidableEq

/-- How one job of the build plane goes: the clone, `nixpacks`, and the tag. -/
structure BuildWork where
  remote : Option Remote
  nixpacks : Bool
  tag : String
deriving DecidableEq

/-- The clone and the checkout of `runBuild`: what `nixpacks` is started on. A
clone of depth one has the tip of the default branch and nothing else, so that is
what is in the work tree, whatever name the checkout resolved. -/
def prepared (payload : BuildPayload) (work : BuildWork) : Option Build :=
  match work.remote with
  | none => none
  | some remote =>
    if (given payload.gitRef).all remote.resolves.contains then
      some
        { repository := payload.repository
          revision := remote.tip
          -- `nixpacks build` is given the clone itself
          rootDirectory := none
          buildPack := given payload.buildPack }
    else none

/-- `runBuild`: the image of a job that succeeds. -/
def runBuild (payload : BuildPayload) (work : BuildWork) : Option Image :=
  match prepared payload work with
  | none => none
  | some build => if work.nixpacks then some ⟨work.tag, build⟩ else none

/-! ## Applications -/

/-- `RuntimeApp.status` -/
inductive Status where
  | pending | running | succeeded | degraded | failed
deriving DecidableEq, Repr

/-- Eight hexadecimal digits, the handle of a variable. -/
structure Handle where
  text : String
  hex : uuidHead.test text = true

instance : DecidableEq Handle := fun a b =>
  if h : a.text = b.text then isTrue (by cases a; cases b; cases h; rfl)
  else isFalse fun he => h (congrArg Handle.text he)

/-- An entry of `env`, with its entry of `envRefs`. -/
structure Variable where
  key : String
  value : String
  ref : Handle
deriving DecidableEq

abbrev Variables := Table fun v : Variable => v.key

/-- The record of one deploy attempt. -/
structure Attempt where
  id : String
  status : Status
  url : Option String
  engineReason : Option String
deriving DecidableEq

/-- What docker runs under the application's name: the image, the customer's
variables it was started with, and which start it was. -/
structure Container where
  image : Image
  env : List (String × String)
  start : Nat
deriving DecidableEq

/-- An application. `container` is docker's, not the field of that name: the
latter is the one name all its containers have, set whenever a status of
`succeeded` is. -/
structure App where
  id : String
  name : String
  gitRepository : Option String
  gitBranch : Option String
  buildPack : Option String
  rootDirectory : Option String
  domains : List String
  defaultHostname : Option String
  env : Variables
  hostPort : Option Nat
  container : Option Container
  currentImage : Option Image
  previousImage : Option Image
  status : Status
  engineReason : Option String
  routeError : Option String
  url : Option String
  attempts : List Attempt

abbrev Apps := Table fun a : App => a.id

/-- A deploy under way, with the deployment row it was asked for: the runtime is
not told the row. -/
structure Run where
  app : String
  attempt : String
  row : DeploymentId
deriving DecidableEq

/-- The runtime, and how often it had docker start a container. -/
structure State where
  apps : Apps
  runs : List Run
  starts : Nat

/-- No applications. -/
def State.initial : State := ⟨Table.empty, [], 0⟩

/-- How the installation is configured. -/
structure Config where
  routerConfigured : Bool
  defaultDomainSuffix : String
  publicScheme : String
  publicHost : String

/-! ## Addresses -/

/-- `appUrl` -/
def appUrl (config : Config) (app : App) : Option String :=
  match app.defaultHostname with
  | some host => some s!"{config.publicScheme}://{host}"
  | none => app.hostPort.map fun port => s!"http://{config.publicHost}:{port}"

/-- `isDnsLabel` -/
def isDnsLabel (label : String) : Bool := dnsLabel.test label

/-- `defaultLabel` -/
def defaultLabel (app : App) : String :=
  let fromName := slugOf 40 app.name
  if isDnsLabel fromName then fromName
  else s!"app-{String.ofList ((app.id.toList.filter lowerNum).take 12)}"

/-- `ensureDefaultHostname` -/
def ensureDefaultHostname (config : Config) (app : App) : App :=
  if app.defaultHostname.isSome || config.defaultDomainSuffix == "" then app
  else
    let host := s!"{defaultLabel app}.{config.defaultDomainSuffix}"
    if isHostname host then { app with defaultHostname := some host } else app

/-- The customer's part of `routableHosts`. -/
def customerHosts (app : App) : List String := app.domains.filter isHostname

/-- `routableHosts` -/
def routableHosts (app : App) : List String :=
  match app.defaultHostname with
  | some host =>
    if isHostname host && !(customerHosts app).contains host then customerHosts app ++ [host]
    else customerHosts app
  | none => customerHosts app

/-- `publishAppRoutes`: why the routes are not all published, if they are not.
`refusal` is what the router says to a host it does not take. -/
def publishAppRoutes (config : Config) (refusal : String → Option String) (app : App) :
    Option String :=
  if !config.routerConfigured then some "no router is configured (ROUTER_URL)"
  else if app.hostPort.isNone then some "the app has no host port yet"
  else
    match (routableHosts app).filterMap fun host => (refusal host).map fun r => s!"{host}: {r}" with
    | [] => none
    | failures => some ("; ".intercalate failures)

/-! ## Containers -/

/-- What `docker run` and the look at the container after it came to. -/
inductive Docker where
  | refused (output : String)
  | started (running : Bool)
deriving DecidableEq

/-- The variables of the customer's that `docker run` is given; `PORT` is the
platform's own. -/
def containerEnv (app : App) : List (String × String) :=
  (app.env.rows.filter fun v => isEnvKey v.key).map fun v => (v.key, v.value)

/-- `runContainer`: whatever ran under the application's name is removed first.
An error is the reason; a success says whether the container is running. -/
def runContainer (start : Nat) (docker : Docker) (port : Nat) (app : App) (image : Image) :
    Except String Bool × App :=
  let bound := { app with hostPort := some (app.hostPort.getD port), container := none }
  match docker with
  | .refused output =>
    let text := (trim output).toList
    (.error s!"container did not start: {String.ofList (text.drop (text.length - 400))}", bound)
  | .started running =>
    (.ok running, { bound with container := some ⟨image, containerEnv app, start⟩ })

/-! ## Deploying -/

/-- What the outside does about one background run. -/
structure Outcome where
  /-- The job, if the build plane took it, or the reason it is told. -/
  build : Except String BuildWork
  /-- Why the runtime stopped waiting for the job, if it did. -/
  lost : Option String
  docker : Docker
  port : Nat
  refusal : String → Option String

/-- The source of `runDeploy`; neither the root directory nor the pack is part
of it. -/
def source (app : App) : Option BuildPayload :=
  (given app.gitRepository).map fun repository =>
    { repository := repository, gitRef := given app.gitBranch, buildPack := none }

/-- `buildSource` -/
def buildSource (payload : BuildPayload) (outcome : Outcome) : Except String Image :=
  match outcome.build with
  | .error reason => .error reason
  | .ok work =>
    match outcome.lost with
    | some reason => .error reason
    | none =>
      match runBuild payload work with
      | none => .error "build failed"
      | some image => .ok image

/-- A run that failed. -/
def App.fail (app : App) (reason : String) : App :=
  { app with status := .failed, engineReason := some reason }

/-- `runDeploy`, for the `start`-th container. -/
def runDeploy (config : Config) (start : Nat) (outcome : Outcome) (app : App) : App :=
  match source app with
  | none => app.fail "app has neither a git repository nor an image"
  | some payload =>
    if !isGitRepository payload.repository then app.fail "app has an invalid git repository"
    else
      match buildSource payload outcome with
      | .error reason => app.fail reason
      | .ok image =>
        match runContainer start outcome.docker outcome.port app image with
        | (.error reason, app') => app'.fail reason
        | (.ok false, app') => app'.fail "container started but is not running"
        | (.ok true, app') =>
          let named := ensureDefaultHostname config
            { app' with
              currentImage := some image
              previousImage := app.currentImage.or app.previousImage
              status := .succeeded }
          { named with
            url := appUrl config named
            routeError := publishAppRoutes config outcome.refusal named }

/-- `app.attempts[id] = …` -/
def recordAttempt (attempt : Attempt) (attempts : List Attempt) : List Attempt :=
  if attempts.any (·.id == attempt.id) then
    attempts.map fun a => if a.id == attempt.id then attempt else a
  else attempts ++ [attempt]

/-- The last fifty attempts. -/
def keepRecent (attempts : List Attempt) : List Attempt := attempts.drop (attempts.length - 50)

/-- The end of `deploy`: the run is carried out and its attempt is recorded. -/
def settle (config : Config) (start : Nat) (outcome : Outcome) (run : Run) (app : App) : App :=
  let done := runDeploy config start outcome app
  { done with
    attempts := keepRecent
      (recordAttempt ⟨run.attempt, done.status, done.url, done.engineReason⟩ done.attempts) }

theorem runContainer_id (start : Nat) (docker : Docker) (port : Nat) (app : App) (image : Image) :
    (runContainer start docker port app image).2.id = app.id := by
  unfold runContainer
  split <;> rfl

theorem ensureDefaultHostname_id (config : Config) (app : App) :
    (ensureDefaultHostname config app).id = app.id := by
  simp only [ensureDefaultHostname]
  split
  · rfl
  · split <;> rfl

theorem runDeploy_id (config : Config) (start : Nat) (outcome : Outcome) (app : App) :
    (runDeploy config start outcome app).id = app.id := by
  unfold runDeploy
  split
  · rfl
  split
  · rfl
  split
  · rfl
  next image _ =>
    have hid := runContainer_id start outcome.docker outcome.port app image
    split
    next h => rwa [h] at hid
    next h => rwa [h] at hid
    next h =>
      rw [h] at hid
      exact (ensureDefaultHostname_id ..).trans hid

/-- A background run ends. -/
def State.finish (config : Config) (outcome : Outcome) (attempt : String) (s : State) : State :=
  match s.runs.find? (·.attempt == attempt) with
  | none => s
  | some run =>
    { apps := s.apps.update (·.id == run.app)
        ⟨settle config s.starts outcome run, runDeploy_id config s.starts outcome⟩
      runs := s.runs.filter (·.attempt != attempt)
      starts := s.starts + 1 }

/-! ## Routes -/

/-- An HTTP answer: a 2xx with its body, or an error code with its `message`. -/
inductive Reply (β : Type) where
  | accept (code : Nat) (body : β)
  | refuse (code : Nat) (message : String)
deriving DecidableEq

/-- The application a path names, or a 404. -/
def State.route {β : Type} (id : String) (f : App → Reply β × State) (s : State) :
    Reply β × State :=
  match s.apps.find id with
  | none => (.refuse 404 "Application not found.", s)
  | some app => f app

/-- `state.apps[app.id] = app` -/
def State.put (s : State) (app : App) : State := { s with apps := s.apps.put app }

/-- `POST /apps` -/
structure CreateAppBody where
  name : String
  gitRepository : Option String
  gitBranch : Option String
  buildPack : Option String
  rootDirectory : Option String
deriving DecidableEq

/-- The application as it is created. -/
def CreateAppBody.app (body : CreateAppBody) (id : String) : App where
  id := id
  name := body.name
  gitRepository := body.gitRepository
  gitBranch := body.gitBranch
  buildPack := body.buildPack
  rootDirectory := body.rootDirectory
  domains := []
  defaultHostname := none
  env := Table.empty
  hostPort := none
  container := none
  currentImage := none
  previousImage := none
  status := .pending
  engineReason := none
  routeError := none
  url := none
  attempts := []

/-- `ROUTES.createApp`. A random identifier is one that no application has: a
draw that is taken is answered like a failure of the runtime. -/
def State.createApp (id : String) (body : CreateAppBody) (s : State) : Reply String × State :=
  if body.name == "" then (.refuse 400 "name is required", s)
  else if truthy body.gitRepository && !body.gitRepository.all isGitRepository then
    (.refuse 400 "gitRepository must be a git URL.", s)
  else if !body.gitBranch.all isGitRef then (.refuse 400 "gitBranch is not a valid ref.", s)
  else if id == "" || (s.apps.find id).isSome then (.refuse 500 "", s)
  else (.accept 201 id, s.put (body.app id))

/-- What a status route answers. -/
structure StatusBody where
  status : Status
  url : Option String
  engineReason : Option String
deriving DecidableEq

/-- `ROUTES.getApp`; `running` is what docker says of the container. -/
def State.getApp (running : Bool) (id : String) : State → Reply StatusBody × State :=
  fun s => s.route id fun app =>
    let seen :=
      if app.status = .succeeded ∧ running = false then
        { app with status := .degraded, engineReason := some "container is not running" }
      else app
    (.accept 200 ⟨seen.status, seen.url, seen.engineReason⟩, s.put seen)

/-- `ROUTES.deploy`: the attempt is registered, and the run goes on by itself. -/
def State.deploy (attempt : String) (row : DeploymentId) (id : String) :
    State → Reply String × State :=
  fun s => s.route id fun app =>
    let started :=
      { app with
        status := .running
        engineReason := none
        attempts := recordAttempt ⟨attempt, .running, none, none⟩ app.attempts }
    (.accept 202 attempt, { s.put started with runs := s.runs ++ [⟨id, attempt, row⟩] })

/-- `findAttempt` -/
def State.findAttempt (attempt : String) (s : State) : Option (App × Attempt) :=
  s.apps.rows.findSome? fun app =>
    (app.attempts.find? (·.id == attempt)).map fun found => (app, found)

/-- `GET /deployments/:id` -/
def State.getAttempt (attempt : String) (s : State) : Reply StatusBody × State :=
  match s.findAttempt attempt with
  | none => (.refuse 404 "Deployment attempt not found.", s)
  | some (_, found) => (.accept 200 ⟨found.status, found.url, found.engineReason⟩, s)

/-- `ROUTES.cancel` -/
def App.cancel (app : App) : App :=
  { app with status := .pending, engineReason := some "cancelled" }

/-- `POST /apps/:id/cancel` -/
def State.cancelApp (id : String) : State → Reply Unit × State :=
  fun s => s.route id fun app => (.accept 200 (), s.put app.cancel)

/-- `POST /deployments/:id/cancel`. That the run stops waiting for its build is
an `Outcome` of the run. -/
def State.cancelAttempt (attempt : String) (s : State) : Reply Unit × State :=
  match s.findAttempt attempt with
  | none => (.refuse 404 "Deployment attempt not found.", s)
  | some (app, _) => (.accept 200 (), s.put app.cancel)

/-- `ROUTES.rollback`; the request has no body. -/
def State.rollback (docker : Docker) (port : Nat) (id : String) : State → Reply Unit × State :=
  fun s => s.route id fun app =>
    match app.previousImage with
    | none => (.refuse 409 "no previous image to roll back to", s)
    | some target =>
      let next (app : App) : State := { s.put app with starts := s.starts + 1 }
      match runContainer s.starts docker port app target with
      | (.error reason, app') => (.refuse 500 reason, next app')
      | (.ok false, app') => (.refuse 500 "rollback container did not run", next app')
      | (.ok true, app') =>
        (.accept 202 (), next
          { app' with
            previousImage := app.currentImage
            currentImage := some target
            status := .succeeded })

/-- `ROUTES.setDomains`: what was dropped is withdrawn from the router and the
rest published again; the answer is why that did not work. -/
def State.setDomains (config : Config) (refusal : String → Option String) (domains : List String)
    (id : String) : State → Reply (Option String) × State :=
  fun s => s.route id fun app =>
    let named := ensureDefaultHostname config { app with domains := domains.filter isHostname }
    let routeError := publishAppRoutes config refusal named
    (.accept 200 routeError, s.put { named with routeError := routeError })

/-- `EnvVarState` -/
structure EnvVarState where
  key : String
  value : String
  isBuildTime : Bool
  engineRef : String
deriving DecidableEq

/-- `mask` -/
def mask (value : String) : String := if value == "" then "" else "********"

/-- `ROUTES.listEnv` -/
def State.listEnv (id : String) : State → Reply (List EnvVarState) × State :=
  fun s => s.route id fun app =>
    (.accept 200 (app.env.rows.map fun v => ⟨v.key, mask v.value, false, v.ref.text⟩), s)

/-- The body of the two writing routes. -/
structure EnvBody where
  key : String
  value : String
  isBuildTime : Bool
deriving DecidableEq

/-- `app.env[key] = value`, under the handle the key has or a new one. -/
def setVariable (fresh : Handle) (body : EnvBody) (env : Variables) : Variables :=
  env.put ⟨body.key, body.value, ((env.find body.key).map (·.ref)).getD fresh⟩

/-- `ROUTES.createEnv` and `ROUTES.updateEnv`, which differ in the code. -/
def State.writeEnv (code : Nat) (fresh : Handle) (body : EnvBody) (id : String) :
    State → Reply EnvVarState × State :=
  fun s => s.route id fun app =>
    if body.key == "" then (.refuse 400 "key is required", s)
    else if !isEnvKey body.key then (.refuse 400 "key must match [A-Za-z_][A-Za-z0-9_]*.", s)
    else
      let env := setVariable fresh body app.env
      (.accept code ⟨body.key, mask body.value, body.isBuildTime,
          (((env.find body.key).map (·.ref)).getD fresh).text⟩,
        s.put { app with env := env })

/-- `POST /apps/:id/env` -/
def State.createEnv (fresh : Handle) (body : EnvBody) (id : String) :
    State → Reply EnvVarState × State := State.writeEnv 201 fresh body id

/-- `PATCH /apps/:id/env/:key` -/
def State.updateEnv (fresh : Handle) (body : EnvBody) (id : String) :
    State → Reply EnvVarState × State := State.writeEnv 200 fresh body id

/-- `ROUTES.deleteEnv`: the path segment is looked up as a key. -/
def State.deleteEnv (key : String) (id : String) : State → Reply Unit × State :=
  fun s => s.route id fun app =>
    (.accept 200 (), s.put { app with env := app.env.delete (·.key == key) })

end CloudWai.Runtime
