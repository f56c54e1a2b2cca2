import CloudWai.Base.Http
import CloudWai.Base.Machine
import CloudWai.Base.Url
import CloudWai.Deployment.Hook

/-!
# The router

`infra/deployment/router-server.mjs`: three servers over one table of routes. The HTTP
server answers challenges and redirects, the HTTPS server forwards a request to the
upstream its `Host` has a route to, and the admin server publishes routes and withdraws
them.

A handler is a function into `Except Thrown`: what it throws, and what rejects an
`async` one, nobody catches, so an error is the end of the process. What the disk and
an upstream do is part of the request. Where a handler leaves the last word to Node,
which parses a URL, sends a head or makes a text of a value, it asks `Node`.

Certificates are left out; publishing a route leaves those it has.
-/

namespace CloudWai.Router

open Base Grammar Deployment

/-- A request target or a URL, as the parser takes it. -/
abbrev Text := List Char

/-- What the process runs on. -/
structure Node where
  url : Url.Library
  http : Http.Library
  /-- How many arrays, one in the other, `String` finds its way through. -/
  depth : Nat
  /-- How long a text can get. -/
  length : Nat

/-! ## State -/

/-- A route: where to, and whether a certificate is obtained. -/
structure Route where
  upstream : Text
  auto : Bool
deriving DecidableEq

/-- `state` -/
structure State where
  routes : List (String × Route) := []
  defaultUpstream : Text
deriving DecidableEq

/-- `state.routes[host]` -/
def State.route (s : State) (host : String) : Option Route :=
  (s.routes.find? fun r => r.1 == host).map (·.2)

/-- `delete state.routes[host]` -/
def State.withdraw (s : State) (host : String) : State :=
  { s with routes := s.routes.filter fun r => r.1 != host }

/-- `state.routes[host] = route` -/
def State.publish (s : State) (host : String) (route : Route) : State :=
  { s with routes := (s.withdraw host).routes ++ [(host, route)] }

/-! ## Checks -/

/-- `hostOf` -/
def hostOf (host : Option String) : String :=
  lowerCase (String.ofList ((host.getD "").toList.takeWhile (· != ':')))

/-- `isHostname` -/
def isHostname (host : String) : Bool :=
  0 < jsLength host && jsLength host ≤ 253 && hostnamePattern.test host

/-- `isLoopbackUpstream`, of a string. -/
def isLoopbackUpstream (lib : Url.Library) (url : Text) : Bool :=
  match Url.parse lib url with
  | some (.web u) =>
    u.host = "127.0.0.1".toList || u.host = "localhost".toList || u.host = "[::1]".toList
  | _ => false

/-! ## Handlers -/

/-- What a handler throws. -/
inductive Thrown where
  /-- `new URL`: `ERR_INVALID_URL`. -/
  | invalidUrl
  /-- `http.request`: `ERR_INVALID_PROTOCOL`. -/
  | invalidProtocol
  /-- `http.request`, and what is piped into it: `ERR_HTTP_TRAILER_INVALID`, for one. -/
  | notSent
  /-- `writeHead`: `ERR_HTTP_INVALID_STATUS_CODE`. -/
  | invalidStatus
  /-- `writeHead`: `ERR_HTTP_TRAILER_INVALID` or `ERR_INVALID_CHAR`, for two. -/
  | invalidHead
  /-- `decodeURIComponent` -/
  | uriError
  /-- `String`, of an object whose `toString` is no function, or of too many arrays. -/
  | noText
  /-- `data += chunk`: a text that is too long. -/
  | tooLong
  /-- `writeFile` -/
  | notWritten
deriving DecidableEq

/-- `new URL(req.url, "http://" + host)` -/
def requestUrl (lib : Url.Library) (target : Text) (host : Option String) :
    Except Thrown Url.Parsed :=
  match Url.parseWith lib target ("http://".toList ++ (host.getD "localhost").toList) with
  | some url => .ok url
  | none => .error .invalidUrl

/-- `url.pathname` -/
def pathnameOf : Url.Parsed → Text
  | .web u => Url.pathname u.path
  | .other u => u.pathname

/-- `url.search` -/
def searchOf : Url.Parsed → Text
  | .web u => Url.search u.query
  | .other u => u.search

/-- What a handler writes. -/
inductive Answer where
  | reply (code : Nat) (body : String)
  | redirect (location : Text)
deriving DecidableEq

def challengePath : Text := "/.well-known/acme-challenge/".toList

/-- The HTTP server. -/
def onHttp (lib : Url.Library) (challenges : Text → Option String) (target : Text)
    (host : Option String) : Except Thrown Answer :=
  (requestUrl lib target host).bind fun url =>
  if challengePath.isPrefixOf (pathnameOf url) then
    match challenges ((pathnameOf url).drop challengePath.length) with
    | some value => if value = "" then .ok (.reply 404 "No such challenge") else .ok (.reply 200 value)
    | none => .ok (.reply 404 "No such challenge")
  else
    .ok (.redirect ("https://".toList ++ (hostOf host).toList ++ pathnameOf url ++ searchOf url))

/-! ### HTTPS -/

/-- `upstreamFor`; an empty upstream is none. -/
def State.upstreamFor (s : State) (host : String) : Option Text :=
  match ((s.route host).map (·.upstream)).filter (· != []) with
  | some upstream => some upstream
  | none => if s.defaultUpstream = [] then none else some s.defaultUpstream

/-- What `http.request` is given. -/
structure Outgoing where
  scheme : Url.WebScheme
  hostname : Text
  port : Option Nat
  path : Text
deriving DecidableEq

/-- What becomes of a request: the upstream is no URL, or it is sent on. -/
inductive Proxied where
  | badUpstream
  | sent (out : Outgoing)
deriving DecidableEq

/-- `proxy`, up to the answer of the upstream. -/
def proxy (lib : Url.Library) (target upstream : Text) : Except Thrown Proxied :=
  match Url.parseWith lib target upstream with
  | none => .ok .badUpstream
  | some url =>
    match Url.parse lib upstream with
    | none => .error .invalidUrl
    | some _ =>
      match url with
      | .web u =>
        if u.scheme = .http then .ok (.sent ⟨u.scheme, u.host, u.port, u.request⟩)
        else .error .invalidProtocol
      | .other _ => .error .invalidProtocol

/-- `URL.host` -/
def hostPortOf : Url.Parsed → String
  | .web u =>
    match u.port with
    | none => String.ofList u.host
    | some port => s!"{String.ofList u.host}:{port}"
  | .other u => String.ofList u.host

/-- The headers that are sent on. -/
def forwardedHeaders (lib : Url.Library) (upstream : Text) (headers : Http.Headers) :
    Http.Headers :=
  headers.without ["host", "x-forwarded-proto"] ++
    [("host", ((Url.parse lib upstream).map hostPortOf).getD ""), ("x-forwarded-proto", "https")]

/-- The request that is sent on. -/
def forwardedRequest (lib : Url.Library) (upstream : Text) (req : Http.Request) (out : Outgoing) :
    Http.Request :=
  { req with target := out.path, headers := forwardedHeaders lib upstream req.headers }

/-- The answer, with the head of the upstream's, if it gave one. -/
def relay (http : Http.Library) (req : Http.Request) : Option Http.Head → Except Thrown Answer
  | none => .ok (.reply 502 "Upstream unavailable")
  | some head =>
    if head.status < 100 ∨ 999 < head.status then .error .invalidStatus
    else if http.heads req head then .ok (.reply head.status "")
    else .error .invalidHead

/-- The HTTPS server. -/
def onHttps (node : Node) (s : State) (req : Http.Request) (host : Option String)
    (head : Option Http.Head) : Except Thrown Answer :=
  match s.upstreamFor (hostOf host) with
  | none => .ok (.reply 404 s!"No route for {hostOf host}")
  | some upstream =>
    (proxy node.url req.target upstream).bind fun
    | .badUpstream => .ok (.reply 502 "Bad upstream")
    | .sent out =>
      if node.http.sends (forwardedRequest node.url upstream req out) then
        relay node.http req head
      else .error .notSent

/-! ### The admin server -/

mutual

/-- `String(value)`; `none` is a throw. The number is how many arrays deep it can go. -/
def jsString : Json → Nat → Option String
  | .null, _ => some "null"
  | .bool b, _ => some (if b then "true" else "false")
  | .number n, _ => some (toString n)
  | .string s, _ => some s
  | .array _, 0 => none
  | .array items, depth + 1 => (jsItems items depth).map (",".intercalate ·)
  | .object fields, _ =>
    if fields.any (·.1 == "toString") then none else some "[object Object]"

/-- The items of an array, as `join` has them. -/
def jsItems : List Json → Nat → Option (List String)
  | [], _ => some []
  | item :: items, depth =>
    let text := match item with
      | .null => some ""
      | item => jsString item depth
    text.bind fun first => (jsItems items depth).map (first :: ·)

end

/-- `String(value ?? "")` -/
def hostText (depth : Nat) : Option Json → Option String
  | none | some .null => some ""
  | some value => jsString value depth

/-- A request to the admin server. `body` is what `readBody` comes to and `length` how
long its text is, `authorized` whether it has the token, and `written` whether the state
can be written. -/
structure AdminRequest where
  method : String
  target : Text
  host : Option String
  authorized : Bool
  body : Option Json
  length : Nat := 0
  written : Bool

def routesPath : Text := "/routes".toList

/-- `/^\/routes\/(.+)$/` -/
def routeOf (path : Text) : Option Text :=
  if (routesPath ++ ['/']).isPrefixOf path then
    let host := path.drop 8
    if host = [] then none else some host
  else none

/-- `saveState` -/
def saveState (written : Bool) : Except Thrown Unit :=
  if written then .ok () else .error .notWritten

/-- `PUT /routes` -/
def putRoute (node : Node) (s : State) (body : Json) (written : Bool) :
    Except Thrown Answer × State :=
  match hostText node.depth (body.field "host") with
  | none => (.error .noText, s)
  | some text =>
    let host := lowerCase text
    if !isHostname host then (.ok (.reply 400 "host must be a DNS name."), s)
    else
      match body.field "upstream" with
      | some (.string upstream) =>
        if isLoopbackUpstream node.url upstream.toList then
          let auto := match body.field "tls" with
            | some (.string tls) => tls == "auto"
            | _ => false
          ((saveState written).map fun _ => .reply 202 host,
            s.publish host ⟨upstream.toList, auto⟩)
        else (.ok (.reply 400 "upstream must be a loopback http(s) URL."), s)
      | _ => (.ok (.reply 400 "upstream must be a loopback http(s) URL."), s)

/-- `DELETE /routes/:host` -/
def deleteRoute (s : State) (encoded : Text) (written : Bool) : Except Thrown Answer × State :=
  match Url.decodeURIComponent encoded with
  | none => (.error .uriError, s)
  | some text =>
    let host := lowerCase (String.ofList text)
    ((saveState written).map fun _ => .reply 200 host, s.withdraw host)

/-- The admin server. -/
def onAdmin (node : Node) (s : State) (req : AdminRequest) : Except Thrown Answer × State :=
  match requestUrl node.url req.target req.host with
  | .error e => (.error e, s)
  | .ok url =>
    let path := pathnameOf url
    if path = "/healthz".toList then (.ok (.reply 200 "ok"), s)
    else if !req.authorized then (.ok (.reply 401 "Unauthenticated."), s)
    else if req.method = "GET" ∧ path = routesPath then (.ok (.reply 200 "routes"), s)
    else if req.method = "PUT" ∧ path = routesPath then
      if node.length < req.length then (.error .tooLong, s)
      else
        match req.body with
        | none | some .null => (.ok (.reply 400 "Invalid JSON body."), s)
        | some body => putRoute node s body req.written
    else if req.method = "DELETE" then
      match routeOf path with
      | some host => deleteRoute s host req.written
      | none => (.ok (.reply 404 "Not found."), s)
    else (.ok (.reply 404 "Not found."), s)

end CloudWai.Router
