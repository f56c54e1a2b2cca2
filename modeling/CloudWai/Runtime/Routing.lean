import CloudWai.Router.Server
import CloudWai.Runtime.Server

/-!
# What the runtime asks of the router

`publishAppRoutes` and `withdrawAppRoutes` of `runtime-server.mjs` send the admin server of
`router-server.mjs` a `PUT` or a `DELETE` for each hostname. What such a request does to the
routes is `State.publish` or `State.withdraw` of the router, since a hostname is in lower case
and its own encoding (`putRoute_publish`, `deleteRoute_withdraw`).
-/

namespace CloudWai.Router

variable {s : State} {host name : String} {route : Route}

/-! ## One route -/

theorem route_withdraw : (s.withdraw name).route host = if host = name then none else s.route host := by
  unfold State.route State.withdraw
  rw [List.find?_filter]
  split
  next h =>
    subst h
    rw [List.find?_eq_none.mpr]
    · rfl
    · intro r _
      simp only [bne_iff_ne, beq_iff_eq, decide_eq_true_eq, not_and]
      exact fun hne heq => hne heq
  next h =>
    congr 2
    funext r
    by_cases hr : r.1 = host
    · simp [hr, h]
    · simp [hr]

theorem route_publish : (s.publish name route).route host =
    if host = name then some route else s.route host := by
  have hold : (s.withdraw name).route host = if host = name then none else s.route host :=
    route_withdraw
  unfold State.publish
  unfold State.route at hold ⊢
  rw [List.find?_append, Option.map_or, hold]
  split
  next h => simp [h]
  next h =>
    have hne : (name == host) = false := beq_eq_false_iff_ne.mpr fun heq => h heq.symm
    simp [hne]

/-! ## Several routes -/

/-- The hosts of a list, those whose request is carried out. -/
def State.publishAll (carried : String → Bool) (route : Route) (hosts : List String) (s : State) :
    State :=
  hosts.foldl (fun s host => if carried host then s.publish host route else s) s

end CloudWai.Router

namespace CloudWai.Runtime

open Base Grammar Deployment

/-! ## Requests to the router -/

/-- Which of an operation's requests the router carries out. -/
structure Carried where
  put : String → Bool
  delete : String → Bool

/-- The route that is put for an application. -/
def routeOn (port : Nat) : Router.Route := ⟨s!"http://127.0.0.1:{port}".toList, true⟩

/-- The body of a `PUT`. -/
def putBody (host : String) (port : Nat) : Json :=
  .object [("host", .string host), ("upstream", .string s!"http://127.0.0.1:{port}"),
    ("tls", .string "auto")]

/-- `[a-z0-9.-]` -/
def hostChar (c : Char) : Bool := lowerNum c || c == '-' || c == '.'

theorem hostChar_low {c : Char} (h : hostChar c = true) :
    c.toNat < 65 ∨ 97 ≤ c.toNat ∧ c.toNat ≤ 122 := by
  have hle : ∀ {a b : Char}, a ≤ b → a.toNat ≤ b.toNat := fun h => h
  simp only [hostChar, lowerNum, lower, digit, Bool.or_eq_true, Bool.and_eq_true,
    decide_eq_true_eq, beq_iff_eq] at h
  rcases h with ((⟨hlow, hhigh⟩ | ⟨-, hhigh⟩) | rfl) | rfl
  · exact .inr ⟨hle hlow, hle hhigh⟩
  · have := hle hhigh
    simp at this
    omega
  · decide
  · decide

theorem hostname_chars {host : String} (h : isHostname host = true) :
    ∀ c ∈ host.toList, hostChar c = true := by
  have hnum : ∀ c, lowerNum c = true → hostChar c = true := by
    intro c hc
    unfold hostChar
    rw [hc]
    rfl
  have hhyphen : ∀ c, (lowerNum c || c == '-') = true → hostChar c = true := by
    intro c hc
    unfold hostChar
    rw [hc]
    rfl
  have hlabel : Pattern.Within hostChar (.seq (.one lowerNum)
      (.opt (.seq (.star (.one fun c => lowerNum c || c == '-')) (.one lowerNum)))) :=
    ⟨hnum, trivial, hhyphen, hnum⟩
  unfold isHostname at h
  rw [Bool.and_eq_true] at h
  exact Pattern.within_of_test h.2 ⟨hlabel, Pattern.within_plus ⟨Pattern.within_ch rfl, hlabel⟩⟩

/-- A hostname is in lower case. -/
theorem lowerCase_hostname {host : String} (h : isHostname host = true) : lowerCase host = host := by
  refine lowerCase_self fun c hc => lowerChar_self ?_
  have := hostChar_low (hostname_chars h c hc)
  omega

/-- The admin server publishes the route it is sent for a hostname, if it reads the
upstream as one on this host. -/
theorem putRoute_publish {node : Router.Node} {router : Router.State} {host : String} {port : Nat}
    {written : Bool} (h : isHostname host = true)
    (hloop : Router.isLoopbackUpstream node.url (routeOn port).upstream = true) :
    (Router.putRoute node router (putBody host port) written).2 =
      router.publish host (routeOn port) := by
  have hlower := lowerCase_hostname h
  have hname : Router.isHostname host = true := h
  have hhost : Router.hostText node.depth ((putBody host port).field "host") = some host := rfl
  have hupstream : (putBody host port).field "upstream" =
      some (.string s!"http://127.0.0.1:{port}") := rfl
  have htls : (putBody host port).field "tls" = some (.string "auto") := rfl
  unfold Router.putRoute
  rw [hhost, hupstream, htls]
  dsimp only
  rw [hlower, hname, if_neg (by decide)]
  exact congrArg Prod.snd (if_pos hloop)

/-- And withdraws the one whose hostname it is sent. -/
theorem deleteRoute_withdraw {router : Router.State} {host : String} {written : Bool}
    (h : isHostname host = true) :
    (Router.deleteRoute router host.toList written).2 = router.withdraw host := by
  have hplain : '%' ∉ host.toList := fun hmem =>
    absurd (hostname_chars h _ hmem) (by decide)
  unfold Router.deleteRoute
  rw [Url.decodeURIComponent_plain hplain]
  dsimp only
  rw [String.ofList_toList, lowerCase_hostname h]

/-- The requests of `publishAppRoutes`. -/
def putRoutes (config : Config) (wire : Carried) (app : App) (router : Router.State) : Router.State :=
  match app.hostPort with
  | some port =>
    if config.routerConfigured then router.publishAll wire.put (routeOn port) (routableHosts app)
    else router
  | none => router

end CloudWai.Runtime
