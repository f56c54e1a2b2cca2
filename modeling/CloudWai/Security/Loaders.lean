import CloudWai.Base.Memo
import CloudWai.Security.Store

/-!
# The loaders behind the edge adapter

`packages/database/src/edge-loaders.ts` and `protection.ts`: what a route and a
policy are compiled from. A process, the API and the worker each, builds the
loaders once and keeps them, and with them `protectionCache`, the memo of
postures by project; so the loaders are functions from the memo they find to the
memo they leave.

`publishRoute` and `applyPolicy` of the adapter follow, up to the request that
carries the compiled artifact.
-/

namespace CloudWai

namespace Security

open Base

/-! ## Postures -/

/-- The first instant of the year 10000, in milliseconds. The database answers it
and every later one with a year of five digits. -/
def fiveDigitYears : Int := 253402300800000

/-- Whether a timed setting is still on. The column's text is read by `new Date`:
a year of five digits is not a date to it, and `NaN` is after nothing. -/
def unexpired (expiresAt : Option Int) (now : Int) : Bool :=
  match expiresAt with
  | none => true
  | some t => decide (t < fiveDigitYears) && decide (now < t)

/-- `protectionIsActive` -/
def protectionIsActive (policy : SecurityPolicy) (now : Int) : Bool :=
  policy.protectionMode == .attack && unexpired policy.protectionExpiresAt now

/-- A posture counts until it expires. -/
def deploymentProtectionIsActive (p : DeploymentProtection) (now : Int) : Bool :=
  p.mode != .none && unexpired p.protectionExpiresAt now

/-- What is compiled of a row: nothing, if it is not active. -/
def compiledProtectionFor (protection : Option DeploymentProtection) (passwordHash : Option String)
    (now : Int) : CompiledProtection :=
  match protection with
  | none => .open
  | some p =>
    if !deploymentProtectionIsActive p now then .open
    else if p.mode = .ip then ⟨.ip, none, none, some p.allowedCidrs⟩
    else if !truthy passwordHash then .open
    else ⟨.password, some (p.basicUser.getD ""), passwordHash, none⟩

/-- What a project's stored row comes to at this moment. -/
def storedPosture (db : Db) (now : Int) (org : OrganizationId) (project : Option ProjectId) :
    CompiledProtection :=
  match project with
  | none => .open
  | some p =>
    compiledProtectionFor (db.getDeploymentProtectionForService org p)
      (db.getDeploymentProtectionPasswordHash org p) now

/-- `protectionForProject` on a project the cache does not know. The digest is
read for a password posture only; an open posture is `undefined`. -/
def readPosture (db : Db) (now : Int) (org : OrganizationId) (project : ProjectId) :
    Option CompiledProtection :=
  let protection := db.getDeploymentProtectionForService org project
  let hash := if protection.any (·.mode == .password) then
      db.getDeploymentProtectionPasswordHash org project
    else none
  let compiled := compiledProtectionFor protection hash now
  if compiled.mode = .none then none else some compiled

/-- `protectionCache` -/
abbrev ProtectionCache := Memo ProjectId CompiledProtection

/-- The memo is asked first, and keeps what is read. -/
def protectionForProject (db : Db) (now : Int) (org : OrganizationId) (cache : ProtectionCache) :
    Option ProjectId → Option CompiledProtection × ProtectionCache
  | none => (none, cache)
  | some project => cache.ask (readPosture db now org) project

/-! ## Loaders -/

/-- `SecurityEdgeEnvConfig` -/
structure EdgeConfig where
  edgeUrl : String
  origin : String
  tokens : OrganizationId → Option String
  botAllowList : List VerifiedBot

/-- `DEFAULT_PATH_PREFIX` -/
def defaultPathPrefix : String := "/"

/-- `routeFor`, with the posture. -/
def routeFor (config : EdgeConfig) (host : String) (org : OrganizationId)
    (protection : Option CompiledProtection) : EdgeRoute :=
  ⟨host, config.origin, defaultPathPrefix, org, protection⟩

/-- The route of a hostname, with the protection of its project. -/
def loadRoute (config : EdgeConfig) (db : Db) (now : Int) (cache : ProtectionCache)
    (org : OrganizationId) (hostname : String) : Option EdgeRoute × ProtectionCache :=
  match db.findDomainByHostnameForService org hostname with
  | none => (none, cache)
  | some domain =>
    if !domain.verified then (none, cache)
    else
      let (protection, cache) := protectionForProject db now org cache domain.projectId
      (some (routeFor config domain.hostname org protection), cache)

/-- The routes of all verified hosts, one posture at a time. -/
def mappedRoutes (config : EdgeConfig) (db : Db) (now : Int) (org : OrganizationId) :
    ProtectionCache → List Domain → List EdgeRoute × ProtectionCache
  | cache, [] => ([], cache)
  | cache, domain :: domains =>
    let (protection, cache) := protectionForProject db now org cache domain.projectId
    let (rest, cache) := mappedRoutes config db now org cache domains
    (routeFor config domain.hostname org protection :: rest, cache)

/-- A limit's rule: only a header-keyed one keeps its header name. -/
def RateLimit.rule (limit : RateLimit) : RateLimitRule where
  id := limit.id
  key := limit.key
  headerName := if limit.key = .header && truthy limit.headerName then limit.headerName else none
  limit := limit.limit
  windowSeconds := limit.windowSeconds

/-- The input of a policy around the routes it covers. -/
def compileInput (config : EdgeConfig) (db : Db) (now : Int) (policy : SecurityPolicy)
    (org : OrganizationId) (primary : EdgeRoute) (rest : List EdgeRoute) : CompileInput where
  route := primary
  routes := rest
  policy := some ⟨policy.riskLevel, policy.action, policy.version⟩
  protection := some (if protectionIsActive policy now then .attack else .normal)
  botAllowList := config.botAllowList
  denyList := (db.listSecurityRulesForService org).map fun r => ⟨r.kind, r.value⟩
  trustedSources := (db.listTrustedSourcesForService org).map fun s => ⟨s.kind, s.value⟩
  rateLimits := (db.listRateLimitsForService org).map RateLimit.rule

/-- The policy with all the routes of its organization. -/
def loadPolicy (config : EdgeConfig) (db : Db) (now : Int) (cache : ProtectionCache)
    (org : OrganizationId) : Option CompileInput × ProtectionCache :=
  match db.getSecurityPolicyForService org with
  | none => (none, cache)
  | some policy =>
    match mappedRoutes config db now org cache (db.listRoutableDomainsForService org) with
    | ([], cache) => (none, cache)
    | (primary :: rest, cache) => (some (compileInput config db now policy org primary rest), cache)

/-! ## The adapter's two publications -/

/-- What the adapter comes to: a refusal, or the request it makes. -/
inductive Publication where
  | refused (status : EngineStatus) (reason : String)
  | post (path : String) (body : CompiledEdge)

/-- `credentialsFor` -/
def hasCredentials (config : EdgeConfig) (org : OrganizationId) : Bool :=
  Grammar.trim config.edgeUrl != "" &&
    (config.tokens org).any fun token => Grammar.trim token != ""

/-- The refusal without credentials. -/
def noCredentials (org : OrganizationId) : Publication :=
  .refused .notConfigured
    s!"The security edge is not configured for organization {org}. Provision edge credentials for this organization."

/-- The policy's input, re-made around the host that is published. -/
def inputForRoute (route : EdgeRoute) : Option CompileInput → CompileInput
  | none => .bare route
  | some policy =>
    { policy with
      route
      routes := (policy.route :: policy.routes).filter fun one => one.host != route.host }

/-- The policy is compiled with this host in front. -/
def publishRoute (config : EdgeConfig) (db : Db) (now : Int) (cache : ProtectionCache)
    (org : OrganizationId) (hostname : String) : Publication × ProtectionCache :=
  match loadRoute config db now cache org hostname with
  | (none, cache) => (.refused .failed s!"No route is known for {hostname}.", cache)
  | (some route, cache) =>
    match validateEdgeRoute route with
    | .refused reason => (.refused .failed reason, cache)
    | .ok =>
      if !hasCredentials config org then (noCredentials org, cache)
      else
        let (policy, cache) := loadPolicy config db now cache org
        (.post "/edge/v1/routes" (compileEdge (inputForRoute route policy)), cache)

/-- The policy is compiled as it is loaded. -/
def applyPolicy (config : EdgeConfig) (db : Db) (now : Int) (cache : ProtectionCache)
    (org : OrganizationId) (policyId : Nat) : Publication × ProtectionCache :=
  match loadPolicy config db now cache org with
  | (none, cache) => (.refused .failed s!"No policy is known for {policyId}.", cache)
  | (some policy, cache) =>
    if !hasCredentials config org then (noCredentials org, cache)
    else (.post "/edge/v1/policies" (compileEdge policy), cache)

/-! ## What the loaders answer -/

/-- The posture a route is given: the cache's answer where it has one. -/
def shownPosture (db : Db) (now : Int) (org : OrganizationId) (cache : ProtectionCache) :
    Option ProjectId → Option CompiledProtection
  | none => none
  | some project => cache.view (readPosture db now org) project

variable {config : EdgeConfig} {db : Db} {now : Int} {org : OrganizationId}
  {cache : ProtectionCache} {project : Option ProjectId}

/-- A compiled posture of mode `none` is the open one. -/
theorem compiledProtectionFor_open {p : Option DeploymentProtection} {hash : Option String}
    (h : (compiledProtectionFor p hash now).mode = .none) :
    compiledProtectionFor p hash now = .open := by
  unfold compiledProtectionFor at h ⊢
  cases p with
  | none => rfl
  | some p =>
    dsimp only at h ⊢
    split at h
    next hoff => rw [if_pos hoff]
    next hon =>
      split at h
      next => cases h
      next hmode =>
        split at h
        next hhash => rw [if_neg hon, if_neg hmode, if_pos hhash]
        next => cases h

/-- Only a password posture looks at the digest. -/
theorem compiledProtectionFor_hash {p : Option DeploymentProtection} (hash : Option String)
    (h : ¬ p.any (·.mode == .password) = true) :
    compiledProtectionFor p none now = compiledProtectionFor p hash now := by
  cases p with
  | none => rfl
  | some p =>
    unfold compiledProtectionFor
    cases hmode : p.mode with
    | none => simp [deploymentProtectionIsActive, hmode]
    | ip => simp [hmode]
    | password =>
      have : p.mode = .password := hmode
      exact absurd (by simp [this]) h

/-- Reading a posture is compiling the stored row. -/
theorem readPosture_getD (project : ProjectId) :
    (readPosture db now org project).getD .open = storedPosture db now org (some project) := by
  have hcompiled : compiledProtectionFor (db.getDeploymentProtectionForService org project)
      (if (db.getDeploymentProtectionForService org project).any (·.mode == .password) then
        db.getDeploymentProtectionPasswordHash org project else none) now =
      storedPosture db now org (some project) := by
    split
    next => rfl
    next hmode => exact compiledProtectionFor_hash _ hmode
  unfold readPosture
  simp only [hcompiled]
  split
  next hnone => exact (compiledProtectionFor_open hnone).symm
  next => rfl

theorem protectionForProject_fst :
    (protectionForProject db now org cache project).1 = shownPosture db now org cache project := by
  cases project with
  | none => rfl
  | some project => exact Memo.ask_fst

/-- Loading one posture changes no other. -/
theorem shownPosture_after (project' : Option ProjectId) :
    shownPosture db now org (protectionForProject db now org cache project').2 project =
      shownPosture db now org cache project := by
  cases project' with
  | none => rfl
  | some project' =>
    cases project with
    | none => rfl
    | some project => exact Memo.view_ask

/-- The route of a domain as the loaders give it. -/
def shownRoute (config : EdgeConfig) (db : Db) (now : Int) (org : OrganizationId)
    (cache : ProtectionCache) (domain : Domain) : EdgeRoute :=
  routeFor config domain.hostname org (shownPosture db now org cache domain.projectId)

theorem mappedRoutes_fst {domains : List Domain} :
    (mappedRoutes config db now org cache domains).1 =
      domains.map (shownRoute config db now org cache) := by
  induction domains generalizing cache with
  | nil => rfl
  | cons domain domains ih =>
    show routeFor config domain.hostname org (protectionForProject db now org cache _).1 ::
      (mappedRoutes config db now org (protectionForProject db now org cache _).2 domains).1 = _
    have hsame : shownRoute config db now org
        (protectionForProject db now org cache domain.projectId).2 =
        shownRoute config db now org cache := by
      funext d
      unfold shownRoute
      rw [shownPosture_after]
    rw [protectionForProject_fst, ih, hsame]
    rfl

theorem loadRoute_fst (hostname : String) : (loadRoute config db now cache org hostname).1 =
    ((db.findDomainByHostnameForService org hostname).filter (·.verified)).map
      (shownRoute config db now org cache) := by
  unfold loadRoute
  cases db.findDomainByHostnameForService org hostname with
  | none => rfl
  | some domain =>
    cases hv : domain.verified with
    | false => simp [hv]
    | true =>
      simp only [hv, Bool.not_true, Option.filter_some]
      exact congrArg (fun p => some (routeFor config domain.hostname org p))
        protectionForProject_fst

/-- Loading a route changes no posture. -/
theorem shownPosture_loadRoute (hostname : String) :
    shownPosture db now org (loadRoute config db now cache org hostname).2 =
      shownPosture db now org cache := by
  funext project
  unfold loadRoute
  cases db.findDomainByHostnameForService org hostname with
  | none => rfl
  | some domain =>
    cases hv : domain.verified with
    | false => simp [hv]
    | true =>
      simp only [hv, Bool.not_true]
      exact shownPosture_after domain.projectId

/-- The policy's input around the routes of all verified hosts. -/
theorem loadPolicy_fst : (loadPolicy config db now cache org).1 =
    (db.getSecurityPolicyForService org).bind fun policy =>
      match (db.listRoutableDomainsForService org).map (shownRoute config db now org cache) with
      | [] => none
      | primary :: rest => some (compileInput config db now policy org primary rest) := by
  unfold loadPolicy
  cases db.getSecurityPolicyForService org with
  | none => rfl
  | some policy =>
    rw [← mappedRoutes_fst, Option.bind_some]
    cases mappedRoutes config db now org cache (db.listRoutableDomainsForService org) with
    | mk routes cache' => cases routes <;> rfl

end Security

end CloudWai
