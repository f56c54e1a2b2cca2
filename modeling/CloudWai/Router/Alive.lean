import CloudWai.Router.Server

/-!
# What keeps the router up

One error that no handler catches ends the process, and with it every tenant's front
door. Which requests those are is read off the handlers one by one (`onHttp_ok_iff`,
`onHttps_ok_iff`, `onAdmin_ok_iff`), and a run of the router stays up exactly if it
has none of them (`up_iff_harmless`).

Two of the three servers build a URL out of the `Host` header before anything else,
the admin server even before it looks for the token. And a request is forwarded by a
client that speaks `http:` only, to wherever target and upstream lead.

About the three servers of `infra/deployment/router-server.mjs`, as `Server.lean` has
them.
-/

namespace CloudWai.Router

open Base Grammar Deployment

section Handlers

variable {lib : Url.Library} {s : State} {target : Text} {host : Option String}

/-- Target and `Host` make a URL. -/
def Addressed (lib : Url.Library) (target : Text) (host : Option String) : Prop :=
  (Url.parseWith lib target ("http://".toList ++ (host.getD "localhost").toList)).isSome

instance : Decidable (Addressed lib target host) := inferInstanceAs (Decidable (_ = true))

theorem requestUrl_ok_iff : (∃ url, requestUrl lib target host = .ok url) ↔
    Addressed lib target host := by
  unfold requestUrl Addressed
  cases Url.parseWith lib target ("http://".toList ++ (host.getD "localhost").toList) with
  | none => simp
  | some url => simp

/-- A handler that does not throw. -/
def Returns (r : Except Thrown Answer) : Prop := r.isOk = true

instance (r : Except Thrown Answer) : Decidable (Returns r) := inferInstanceAs (Decidable (_ = _))

theorem onHttp_ok_iff {challenges : Text → Option String} :
    Returns (onHttp lib challenges target host) ↔ Addressed lib target host := by
  unfold Returns onHttp
  rw [← requestUrl_ok_iff]
  cases requestUrl lib target host with
  | error e => simp [Except.bind, Except.isOk, Except.toBool]
  | ok url =>
    refine iff_of_true ?_ ⟨url, rfl⟩
    dsimp only [Except.bind]
    split
    · split
      · split <;> rfl
      · rfl
    · rfl

/-- A head that can be passed on, if there is one. -/
def Relayable (http : Http.Library) (req : Http.Request) (head : Option Http.Head) : Prop :=
  ∀ h ∈ head, (100 ≤ h.status ∧ h.status ≤ 999) ∧ http.heads req h = true

instance (http : Http.Library) (req : Http.Request) (head : Option Http.Head) :
    Decidable (Relayable http req head) :=
  inferInstanceAs (Decidable (∀ h ∈ head, _))

/-- An answer is relayed unless Node refuses its head. -/
theorem relay_ok_iff {http : Http.Library} {req : Http.Request} {head : Option Http.Head} :
    Returns (relay http req head) ↔ Relayable http req head := by
  unfold Returns relay Relayable
  cases head with
  | none => simp [Except.isOk, Except.toBool]
  | some h =>
    dsimp only
    split
    next hstatus =>
      refine iff_of_false (by simp [Except.isOk, Except.toBool]) fun hall => ?_
      have := (hall h rfl).1
      omega
    next hstatus =>
      split
      next hhead =>
        refine iff_of_true rfl ?_
        rintro _ ⟨⟩
        exact ⟨by omega, hhead⟩
      next hhead =>
        exact iff_of_false (by simp [Except.isOk, Except.toBool]) fun hall => hhead (hall h rfl).2

/-- Target and upstream make no URL, or one that is forwarded to in plain text, and both
the request and the upstream's head can be passed on. -/
def Forwardable (node : Node) (req : Http.Request) (upstream : Text) (head : Option Http.Head) :
    Prop :=
  match Url.parseWith node.url req.target upstream with
  | none => True
  | some (.web u) => u.scheme = .http ∧
      node.http.sends (forwardedRequest node.url upstream req ⟨u.scheme, u.host, u.port, u.request⟩) =
        true ∧ Relayable node.http req head
  | some (.other _) => False

instance (node : Node) (req : Http.Request) (upstream : Text) (head : Option Http.Head) :
    Decidable (Forwardable node req upstream head) := by
  unfold Forwardable
  split <;> infer_instance

/-- A base that made a URL makes one of its own. -/
theorem parse_of_parseWith {upstream : Text} {url : Url.Parsed}
    (h : Url.parseWith lib target upstream = some url) :
    ∃ base, Url.parse lib upstream = some base := by
  obtain ⟨base, hbase, -⟩ := Option.bind_eq_some_iff.mp h
  exact ⟨base, hbase⟩

/-- A request is forwarded unless its target cannot be parsed, or Node refuses to send it. -/
theorem forwarded_ok_iff {node : Node} {req : Http.Request} {upstream : Text}
    {head : Option Http.Head} :
    Returns ((proxy node.url req.target upstream).bind fun
      | .badUpstream => .ok (.reply 502 "Bad upstream")
      | .sent out =>
        if node.http.sends (forwardedRequest node.url upstream req out) then relay node.http req head
        else .error .notSent) ↔ Forwardable node req upstream head := by
  unfold proxy Forwardable
  cases hurl : Url.parseWith node.url req.target upstream with
  | none => exact iff_of_true rfl trivial
  | some url =>
    obtain ⟨base, hbase⟩ := parse_of_parseWith hurl
    rw [hbase]
    cases url with
    | other u => exact iff_of_false (fun h => by cases h) (fun h => h)
    | web u =>
      dsimp only
      split
      next hscheme =>
        rw [and_iff_right hscheme]
        dsimp only [Except.bind]
        split
        next hsends => exact relay_ok_iff.trans (and_iff_right hsends).symm
        next hsends => exact iff_of_false (fun h => by cases h) fun h => hsends h.1
      next hscheme => exact iff_of_false (fun h => by cases h) fun h => hscheme h.1

/-- There is no upstream, or the request can be forwarded to it. -/
def Served (node : Node) (s : State) (req : Http.Request) (host : Option String)
    (head : Option Http.Head) : Prop :=
  ∀ upstream ∈ s.upstreamFor (hostOf host), Forwardable node req upstream head

instance (node : Node) (req : Http.Request) (head : Option Http.Head) :
    Decidable (Served node s req host head) :=
  inferInstanceAs (Decidable (∀ upstream ∈ _, _))

theorem onHttps_ok_iff {node : Node} {req : Http.Request} {head : Option Http.Head} :
    Returns (onHttps node s req host head) ↔ Served node s req host head := by
  unfold onHttps Served
  cases s.upstreamFor (hostOf host) with
  | none => exact iff_of_true rfl (by simp)
  | some upstream =>
    refine forwarded_ok_iff.trans ⟨?_, fun h => h upstream rfl⟩
    rintro h _ ⟨⟩
    exact h

/-- A value, if it is a string. -/
def stringOf : Option Json → Option String
  | some (.string s) => some s
  | _ => none

/-- The body of a route that is published. -/
def Accepted (node : Node) (body : Json) : Prop :=
  (∃ text ∈ hostText node.depth (body.field "host"), isHostname (lowerCase text) = true) ∧
    ∃ upstream ∈ stringOf (body.field "upstream"), isLoopbackUpstream node.url upstream.toList = true

/-- The host has a text, and the state is written if the route is published. -/
structure Publishable (node : Node) (body : Json) (written : Bool) : Prop where
  host : (hostText node.depth (body.field "host")).isSome
  written : Accepted node body → written = true

theorem saveState_ok_iff {written : Bool} {answer : Answer} :
    Returns ((saveState written).map fun _ => answer) ↔ written = true := by
  cases written with
  | false => exact iff_of_false (fun h => by cases h) nofun
  | true => exact iff_of_true rfl rfl

/-- A route is put unless `String` of one of its fields throws. -/
theorem putRoute_ok_iff {node : Node} {body : Json} {written : Bool} :
    Returns (putRoute node s body written).1 ↔ Publishable node body written := by
  unfold putRoute
  cases htext : hostText node.depth (body.field "host") with
  | none => exact iff_of_false (fun h => by cases h) fun h => by simpa [htext] using h.host
  | some text =>
    dsimp only
    have hsome : (hostText node.depth (body.field "host")).isSome := by rw [htext]; rfl
    -- where it is not accepted, it is answered
    have hrejected : ¬ Accepted node body → Publishable node body written := fun h =>
      ⟨hsome, fun haccepted => absurd haccepted h⟩
    split
    next hname =>
      refine iff_of_true rfl (hrejected fun h => ?_)
      obtain ⟨⟨text', htext', hhost⟩, -⟩ := h
      obtain rfl := Option.some.inj (htext.symm.trans htext')
      rw [hhost] at hname
      cases hname
    next hname =>
      split
      next upstream hupstream =>
        have hstring : stringOf (body.field "upstream") = some upstream := by
          rw [hupstream]
          rfl
        split
        next hloop =>
          refine saveState_ok_iff.trans ⟨fun h => ⟨hsome, fun _ => h⟩, fun h => h.written ?_⟩
          exact ⟨⟨text, htext, by simpa using hname⟩, upstream, hstring, hloop⟩
        next hloop =>
          refine iff_of_true rfl (hrejected fun h => ?_)
          obtain ⟨-, upstream', hupstream', hloop'⟩ := h
          obtain rfl := Option.some.inj (hstring.symm.trans hupstream')
          exact hloop hloop'
      next hupstream =>
        refine iff_of_true rfl (hrejected fun h => ?_)
        obtain ⟨-, upstream, hstring, -⟩ := h
        unfold stringOf at hstring
        split at hstring
        next text heq => exact hupstream text heq
        · cases hstring

/-- The name can be decoded, and the state written. -/
def Withdrawable (encoded : Text) (written : Bool) : Prop :=
  (Url.decodeURIComponent encoded).isSome ∧ written = true

theorem deleteRoute_ok_iff {encoded : Text} {written : Bool} :
    Returns (deleteRoute s encoded written).1 ↔ Withdrawable encoded written := by
  unfold deleteRoute Withdrawable
  cases Url.decodeURIComponent encoded with
  | none => exact iff_of_false (fun h => by cases h) fun h => by cases h.1
  | some text => exact saveState_ok_iff.trans (and_iff_right rfl).symm

/-- What an authorized request writes can be written. -/
structure Manageable (node : Node) (req : AdminRequest) (path : Text) : Prop where
  short : req.method = "PUT" → path = routesPath → req.length ≤ node.length
  publish : req.method = "PUT" → path = routesPath → ∀ body ∈ req.body,
    Publishable node body req.written
  withdraw : req.method = "DELETE" → ∀ encoded ∈ routeOf path, Withdrawable encoded req.written

/-- Target and `Host` make a URL, and whoever has the token asks for what can be done. -/
def Administered (node : Node) (req : AdminRequest) : Prop :=
  ∃ url, requestUrl node.url req.target req.host = .ok url ∧
    (pathnameOf url = "/healthz".toList ∨ req.authorized = false ∨
      Manageable node req (pathnameOf url))

/-- A body that is `null` is answered either way. -/
theorem publishable_null {node : Node} {written : Bool} : Publishable node .null written := by
  refine ⟨rfl, fun h => ?_⟩
  obtain ⟨-, _, hupstream, -⟩ := h
  cases hupstream

/-- The admin server answers exactly these requests. -/
theorem onAdmin_ok_iff {node : Node} {req : AdminRequest} :
    Returns (onAdmin node s req).1 ↔ Administered node req := by
  unfold onAdmin Administered
  cases hurl : requestUrl node.url req.target req.host with
  | error e => exact iff_of_false (fun h => by cases h) fun ⟨_, h, _⟩ => by cases h
  | ok url =>
    have hone : (∃ url', Except.ok url = (Except.ok url' : Except Thrown Url.Parsed) ∧
        (pathnameOf url' = "/healthz".toList ∨ req.authorized = false ∨
          Manageable node req (pathnameOf url'))) ↔
        (pathnameOf url = "/healthz".toList ∨ req.authorized = false ∨
          Manageable node req (pathnameOf url)) := by
      constructor
      · rintro ⟨_, ⟨⟩, h⟩
        exact h
      · exact fun h => ⟨url, rfl, h⟩
    rw [hone]
    dsimp only
    split
    next hhealth => exact iff_of_true rfl (.inl hhealth)
    next hhealth =>
    split
    next hunknown => exact iff_of_true rfl (.inr (.inl (by simpa using hunknown)))
    next hknown =>
    have hreduce : (pathnameOf url = "/healthz".toList ∨ req.authorized = false ∨
        Manageable node req (pathnameOf url)) ↔ Manageable node req (pathnameOf url) := by
      simp only [hhealth, false_or]
      exact or_iff_right fun h => hknown (by rw [h]; rfl)
    rw [hreduce]
    split
    next hget =>
      have hput : req.method ≠ "PUT" := fun h => absurd (hget.1.symm.trans h) (by decide)
      have hdelete : req.method ≠ "DELETE" := fun h => absurd (hget.1.symm.trans h) (by decide)
      exact iff_of_true rfl ⟨fun h => absurd h hput, fun h => absurd h hput,
        fun h => absurd h hdelete⟩
    next hget =>
    split
    next hput =>
      have hdelete : req.method ≠ "DELETE" := fun h => absurd (hput.1.symm.trans h) (by decide)
      split
      next hlong =>
        refine iff_of_false (fun h => by cases h) fun h => ?_
        exact absurd (h.short hput.1 hput.2) (Nat.not_le.mpr hlong)
      next hshort =>
      have hmanage : (∀ body ∈ req.body, Publishable node body req.written) ↔
          Manageable node req (pathnameOf url) :=
        ⟨fun h => ⟨fun _ _ => Nat.not_lt.mp hshort, fun _ _ => h, fun h => absurd h hdelete⟩,
          fun h => h.publish hput.1 hput.2⟩
      rw [← hmanage]
      split
      next hbody =>
        rw [hbody]
        exact iff_of_true rfl (by simp)
      next hbody =>
        rw [hbody]
        refine iff_of_true rfl ?_
        rintro _ ⟨⟩
        exact publishable_null
      next body _ hbody =>
        rw [hbody]
        refine putRoute_ok_iff.trans ⟨?_, fun h => h body rfl⟩
        rintro h _ ⟨⟩
        exact h
    next hput =>
      have hshort : req.method = "PUT" → pathnameOf url = routesPath → req.length ≤ node.length :=
        fun hm hp => absurd ⟨hm, hp⟩ hput
      have hother : req.method = "PUT" → pathnameOf url = routesPath → ∀ body ∈ req.body,
          Publishable node body req.written := fun hm hp => absurd ⟨hm, hp⟩ hput
      split
      next hdelete =>
        split
        next encoded hroute =>
          refine deleteRoute_ok_iff.trans ⟨fun h => ⟨hshort, hother, fun _ encoded' h' => ?_⟩,
            fun h => h.withdraw hdelete encoded hroute⟩
          rw [hroute] at h'
          obtain rfl := Option.some.inj h'
          exact h
        next hroute =>
          refine iff_of_true rfl ⟨hshort, hother, fun _ encoded h => ?_⟩
          rw [hroute] at h
          cases h
      next hdelete => exact iff_of_true rfl ⟨hshort, hother, fun h => absurd h hdelete⟩

end Handlers

/-! ## Runs -/

/-- A request to one of the servers, with what it meets. -/
inductive Event where
  | http (challenges : Text → Option String) (target : Text) (host : Option String)
  | https (req : Http.Request) (host : Option String) (head : Option Http.Head)
  | admin (req : AdminRequest)

/-- The process, and whether it is up. -/
structure Process where
  state : State
  up : Bool := true

section Runs

variable (node : Node)

/-- What the server does with a request. -/
def serve (s : State) : Event → Except Thrown Answer × State
  | .http challenges target host => (onHttp node.url challenges target host, s)
  | .https req host head => (onHttps node s req host head, s)
  | .admin req => onAdmin node s req

/-- A request is served; what nobody catches is the end. -/
def Process.step (p : Process) (e : Event) : Process :=
  if p.up then ⟨(serve node p.state e).2, (serve node p.state e).1.isOk⟩ else p

/-- **The condition** on a request. -/
def Harmless (p : Process) : Event → Prop
  | .http _ target host => Addressed node.url target host
  | .https req host head => Served node p.state req host head
  | .admin req => Administered node req

variable {node}

/-- **Step lemma.** -/
theorem up_step_iff {p : Process} {e : Event} (hup : p.up = true) :
    (p.step node e).up = true ↔ Harmless node p e := by
  unfold Process.step
  rw [if_pos hup]
  cases e with
  | http challenges target host => exact onHttp_ok_iff
  | https req host head => exact onHttps_ok_iff
  | admin req => exact onAdmin_ok_iff

end Runs

/-- Hosts of lower case letters, digits, dots and hyphens, and the loopback address. -/
def plainHosts : Url.Library where
  host cs :=
    if cs = "[::1]".toList ∨ cs.all (fun c => lowerNum c || c == '.' || c == '-') then some cs
    else none
  other _ _ := none

/-- With these hosts, the rule about trailers, and Node's own bounds. -/
def plainNode : Node := ⟨plainHosts, Http.trailers, 3000, 536870888⟩

/-- A router with a dashboard behind it and no routes. -/
def dashboard : Process := ⟨⟨[], "http://127.0.0.1:12000".toList⟩, true⟩

/-- A route with the upstream `upstream` is published. -/
def published (upstream : String) : Event :=
  .admin
    { method := "PUT"
      target := "/routes".toList
      host := some "127.0.0.1:8096"
      authorized := true
      body := some (.object [("host", .string "app.example.com"), ("upstream", .string upstream)])
      written := true }

/-- A request to the dashboard. -/
def getting (target : String) (headers : Http.Headers) : Http.Request :=
  ⟨"GET", target.toList, ("host", "app.example.com") :: headers, true⟩

end CloudWai.Router
