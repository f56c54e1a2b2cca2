import CloudWai.Base.Interleave
import CloudWai.Runtime.Routing

/-!
# The runtime and its router

`runtime-server.mjs` tells the router where the hostnames of its applications lead: it puts
a route for each after a deploy and after a change of domains, and takes the routes of an
application away with it. The router knows a route by its hostname, and not whose it is.

`Front` is the two together, and the routes of the runtime that touch hostnames are programs
over it that wait at each request to the router: an operation lists its hostnames once, and
then makes one request after the other, while other operations go on. It holds its application
as an object, so one that was destroyed meanwhile is still there for it; `Front.gone` says
which are not in the runtime's table any more.

A call of a program is what the runtime does between two waits, or a request as the router
carries it out. The build, the container and what is waited for in between are one call, since
no hostname is touched before its end. A request that its sender gave up on after thirty
seconds can still be carried out later (`Front.late`). The state file is left out.
-/

namespace CloudWai.Runtime

open Base Grammar Deployment

/-! ## State -/

/-- A request to the router: the `PUT` of a route, or a `DELETE`. `sender` is the application
it is made for, which the router is not told. -/
structure Front.Request where
  sender : String
  host : String
  route : Option Router.Route

/-- The runtime and the router, and the requests between them that are late. -/
structure Front where
  runtime : State
  gone : List String
  router : Router.State
  late : List Front.Request

/-- An installation without applications. -/
def Front.initial (router : Router.State) : Front := ⟨State.initial, [], router, []⟩

/-- `state.apps[id]` -/
def Front.app (f : Front) (id : String) : Option App :=
  if f.gone.contains id then none else f.runtime.apps.find id

/-- The object of an application is changed, in the table or not. -/
def Front.edit (f : Front) (id : String) (change : App → App) : Front :=
  match f.runtime.apps.find id with
  | none => f
  | some app => { f with runtime := f.runtime.put (change app) }

/-- The router carries a request out. -/
def Front.carry (r : Front.Request) (f : Front) : Front :=
  { f with
    router := match r.route with
      | some route => f.router.publish r.host route
      | none => f.router.withdraw r.host }

/-- A request that nobody waits for any more is carried out. -/
def Front.overtake (f : Front) (k : Nat) : Front :=
  match f.late[k]? with
  | none => f
  | some r => { f.carry r with late := f.late.eraseIdx k }

/-! ## What is done to an application -/

/-- `ROUTES.createApp` with `domains` in its body. -/
def State.createAppWith (id : String) (body : CreateAppBody) (domains : List String) (s : State) :
    Reply String × State :=
  match s.createApp id body with
  | (.accept code id, _) =>
    (.accept code id, s.put { body.app id with domains := domains.filter isHostname })
  | refused => refused

/-- `runDeploy` up to its routes. -/
def placed (config : Config) (start : Nat) (outcome : Outcome) (app : App) : App :=
  { runDeploy config start outcome app with routeError := app.routeError }

/-- The end of `deploy`; a run that failed leaves the `routeError` that was there. -/
def concluded (attempt : String) (routeError : Option (Option String)) (app : App) : App :=
  { app with
    routeError := routeError.getD app.routeError
    attempts := keepRecent
      (recordAttempt ⟨attempt, app.status, app.url, app.engineReason⟩ app.attempts) }

/-- What `setDomains` makes of its application. -/
def renamed (config : Config) (domains : List String) (app : App) : App :=
  ensureDefaultHostname config { app with domains := domains.filter isHostname }

/-- And which hostnames it withdraws. -/
def dropped (config : Config) (domains : List String) (app : App) : List String :=
  if config.routerConfigured then
    (customerHosts app).eraseDups.filter fun host => !(domains.filter isHostname).contains host
  else []

/-- What `publishAppRoutes` begins with: the reason why nothing is published, or the port and
the hostnames. -/
abbrev Publication := Except String (Nat × List String)

/-- The port and the hosts that are published, or why nothing is. -/
def publication (config : Config) (app : App) : Publication :=
  if !config.routerConfigured then .error "no router is configured (ROUTER_URL)"
  else
    match app.hostPort with
    | none => .error "the app has no host port yet"
    | some port => .ok (port, routableHosts app)

/-! ## Calls -/

/-- What a program of the runtime does between two awaits. -/
inductive Front.Call where
  | lookup (id : String)
  | createApp (id : String) (body : CreateAppBody) (domains : List String)
  | register (id : String) (attempt : String) (row : DeploymentId)
  | place (id : String)
  | conclude (id : String) (attempt : String) (routeError : Option (Option String))
  | rename (id : String) (domains : List String)
  | publishable (id : String)
  | report (id : String) (routeError : Option String)
  | rollback (id : String)
  | removeContainer (id : String)
  | withdrawable (id : String)
  | forget (id : String)
  | send (r : Front.Request)

abbrev Front.Ans : Front.Call → Type
  | .lookup _ => Bool
  | .place _ => Option Publication
  | .rename .. => List String × Publication
  | .publishable _ => Publication
  | .withdrawable _ => List String
  | .send _ => Option String
  | _ => Unit

/-- What becomes of a request while its sender waits. -/
inductive Passage where
  | carried | late | lost
deriving DecidableEq

/-- A request is carried out, is late, or is lost. -/
def Front.pass (f : Front) (r : Front.Request) : Passage → Front
  | .carried => f.carry r
  | .late => { f with late := f.late ++ [r] }
  | .lost => f

/-- What the outside settles: how a run's build and container go, or a rollback's container,
and what becomes of a request and is answered to it. -/
structure Front.Luck where
  outcome : Outcome
  docker : Docker
  port : Nat
  passage : Passage
  reason : Option String

/-- What `setDomains` withdraws, and what it publishes. -/
def Front.renaming (config : Config) (f : Front) (id : String) (domains : List String) :
    List String × Publication :=
  match f.runtime.apps.find id with
  | none => ([], .error "")
  | some app => (dropped config domains app, publication config (renamed config domains app))

/-- What a call does. No identifier is drawn twice. -/
def Front.perform (config : Config) (f : Front) (o : Luck) : (c : Call) → Ans c × Front
  | .lookup id => ((f.app id).isSome, f)
  | .createApp id body domains =>
    ((), if f.gone.contains id then f
      else { f with runtime := (f.runtime.createAppWith id body domains).2 })
  | .register id attempt row => ((), { f with runtime := (f.runtime.deploy attempt row id).2 })
  | .place id =>
    let done := f.edit id (placed config f.runtime.starts o.outcome)
    (((f.runtime.apps.find id).map (placed config f.runtime.starts o.outcome)).bind fun app =>
        if app.status = .succeeded then some (publication config app) else none,
      { done with runtime := { done.runtime with starts := f.runtime.starts + 1 } })
  | .conclude id attempt routeError =>
    let done := f.edit id (concluded attempt routeError)
    ((), { done with
      runtime := { done.runtime with runs := f.runtime.runs.filter (·.attempt != attempt) } })
  | .rename id domains => (f.renaming config id domains, f.edit id (renamed config domains))
  | .publishable id =>
    (((f.runtime.apps.find id).map (publication config)).getD (.error ""), f)
  | .report id routeError => ((), f.edit id fun app => { app with routeError := routeError })
  | .rollback id => ((), { f with runtime := (f.runtime.rollback o.docker o.port id).2 })
  | .removeContainer id => ((), f.edit id fun app => { app with container := none })
  | .withdrawable id =>
    (if config.routerConfigured then ((f.runtime.apps.find id).map routableHosts).getD [] else [],
      f)
  | .forget id => ((), { f with gone := id :: f.gone })
  | .send r => (o.reason, f.pass r o.passage)

/-! ## Programs -/

/-- A program of the runtime. -/
abbrev FrontProg (α : Type) := Prog Front.Call Front.Ans Empty α

/-- The `PUT`s of `publishAppRoutes`; the answer is what went wrong with them. -/
def putAll (id : String) (port : Nat) : List String → FrontProg (List String)
  | [] => .ret []
  | host :: hosts =>
    (Prog.call (Front.Call.send ⟨id, host, some (routeOn port)⟩)).bind fun reason =>
    (putAll id port hosts).bind fun failures =>
    .ret ((reason.map fun r => s!"{host}: {r}").toList ++ failures)

/-- `publishAppRoutes`, after the hostnames are listed. -/
def publishFrom (id : String) : Publication → FrontProg (Option String)
  | .error reason => .ret (some reason)
  | .ok (port, hosts) =>
    (putAll id port hosts).bind fun failures =>
    .ret (if failures = [] then none else some ("; ".intercalate failures))

/-- The `DELETE`s of `withdrawAppRoutes` and of `setDomains`. -/
def deleteAll (id : String) : List String → FrontProg Unit
  | [] => .ret ()
  | host :: hosts =>
    (Prog.call (Front.Call.send ⟨id, host, none⟩)).bind fun _ => deleteAll id hosts

/-- `deploy`, to the end of its run. -/
def deployProgram (id : String) (attempt : String) (row : DeploymentId) : FrontProg Unit :=
  (Prog.call (Front.Call.register id attempt row)).bind fun _ =>
  (Prog.call (Front.Call.place id)).bind fun
  | none => Prog.call (Front.Call.conclude id attempt none)
  | some publication =>
    (publishFrom id publication).bind fun routeError =>
    Prog.call (Front.Call.conclude id attempt (some routeError))

/-- `ROUTES.setDomains`. Where nothing is dropped, there is no wait before the hostnames are
listed. -/
def setDomainsProgram (id : String) (domains : List String) : FrontProg Unit :=
  (Prog.call (Front.Call.rename id domains)).bind fun (removed, publication) =>
  if removed = [] then
    (publishFrom id publication).bind fun routeError =>
    Prog.call (Front.Call.report id routeError)
  else
    (deleteAll id removed).bind fun _ =>
    (Prog.call (Front.Call.publishable id)).bind fun publication =>
    (publishFrom id publication).bind fun routeError =>
    Prog.call (Front.Call.report id routeError)

/-- `ROUTES.destroy` -/
def destroyProgram (id : String) : FrontProg Unit :=
  (Prog.call (Front.Call.removeContainer id)).bind fun _ =>
  (Prog.call (Front.Call.withdrawable id)).bind fun hosts =>
  (deleteAll id hosts).bind fun _ =>
  Prog.call (Front.Call.forget id)

/-- A request for an application that is not there is answered 404; one that is there may be
destroyed before the body has arrived. -/
def whenFound (id : String) (p : FrontProg Unit) : FrontProg Unit :=
  (Prog.call (Front.Call.lookup id)).bind fun found => if found then p else .ret ()

/-- The five operations. -/
inductive Front.Task where
  | createApp (id : String) (body : CreateAppBody) (domains : List String)
  | deploy (id : String) (attempt : String) (row : DeploymentId)
  | setDomains (id : String) (domains : List String)
  | rollback (id : String)
  | destroy (id : String)

/-- The program of an operation. -/
def Front.Task.body : Front.Task → FrontProg Unit
  | .createApp id body domains => Prog.call (Front.Call.createApp id body domains)
  | .deploy id attempt row => whenFound id (deployProgram id attempt row)
  | .setDomains id domains => whenFound id (setDomainsProgram id domains)
  | .rollback id => whenFound id (Prog.call (Front.Call.rollback id))
  | .destroy id => whenFound id (destroyProgram id)

/-! ## The system -/

/-- The runtime and its router, with the operations under way. -/
def front (config : Config) : Host Front Front.Luck Nat Front.Task Front.Call Front.Ans Empty where
  perform f o c := (.ok (f.perform config o c).1, (f.perform config o c).2)
  drift := Front.overtake
  body := Front.Task.body

/-- The runtime and the router with the operations under way. -/
abbrev FrontSys := Sys Front Front.Task Front.Call Front.Ans Empty

abbrev FrontMove := Move Front.Task Front.Luck Nat

/-- The requests that a program makes before it asks the runtime for anything again. -/
def owed : FrontProg Unit → List Front.Request
  | .await (.send r) k => r :: owed (k (.ok none))
  | _ => []

/-- The requests that operations under way have still to make, and those on their way. -/
def FrontSys.outstanding (s : FrontSys) : List Front.Request :=
  s.world.late ++ (List.range s.born).flatMap fun tid =>
    ((s.live tid).map fun th => owed th.rest).getD []

end CloudWai.Runtime
