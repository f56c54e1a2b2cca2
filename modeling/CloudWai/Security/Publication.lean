import CloudWai.Security.Loaders

/-!
# Publishing a host and applying the policy

The edge learns an organization's policy in two ways (`publishRoute` and
`applyPolicy` of `packages/adapters/src/security-edge.ts`): the worker's
`applyPolicy` compiles it around the first verified host, the API's
`publishRoute` around the host that is being published, with the others behind
it. The directives depend on the primary route only through its path prefix,
which is the same for every route the loaders make; so the two artifacts carry
the same rules. Hostnames are unique in an organization, so moving the published
host to the front and filtering it out of the rest is a permutation, and a host's
fragment does not depend on which host is primary.

What they need not share is the postures. The API and the worker are two
processes, each with loaders of its own (`domains.ts`, `policy-job.ts`), and the
loaders keep every posture they have read for as long as their process runs. The
two artifacts agree exactly where the two memos show the same posture for every
verified host (`publications_agree_iff`); where they do not, publishing one host
puts another host's posture back to what it was when the API first read it.
-/

namespace CloudWai

namespace Security

open Base

/-- The fragment an artifact has for a host. -/
def CompiledEdge.fragmentOf (artifact : CompiledEdge) (host : String) : Option EnvoyRouteFragment :=
  artifact.envoyRoutes.find? fun r => decide (r.host = host)

/-- What must not depend on how the edge was told. -/
structure CompiledEdge.Agrees (a b : CompiledEdge) : Prop where
  directives : a.corazaDirectives = b.corazaDirectives
  ladder : a.ladder = b.ladder
  rateLimits : a.rateLimits = b.rateLimits
  version : a.version = b.version
  fragments : ∀ host, a.fragmentOf host = b.fragmentOf host

/-- What two processes show for every verified host, each from its own memo. -/
def ShownAlike (db : Db) (now : Int) (org : OrganizationId) (cache cache' : ProtectionCache) : Prop :=
  ∀ domain ∈ db.listRoutableDomainsForService org,
    protectionInput (shownPosture db now org cache domain.projectId) =
      protectionInput (shownPosture db now org cache' domain.projectId)

instance {db : Db} {now : Int} {org : OrganizationId} {cache cache' : ProtectionCache} :
    Decidable (ShownAlike db now org cache cache') :=
  inferInstanceAs (Decidable (∀ domain ∈ db.listRoutableDomainsForService org, _))

/-! ## Route lists -/

/-- Distinct hosts: nothing is dropped. -/
theorem firstOfHost_of_nodup {seen : List String} {routes : List EdgeRoute}
    (hn : (routes.map (·.host)).Nodup) (hseen : ∀ r ∈ routes, r.host ∉ seen) :
    firstOfHost seen routes = routes := by
  induction routes generalizing seen with
  | nil => rfl
  | cons one routes ih =>
    rw [List.map_cons, List.nodup_cons] at hn
    rw [firstOfHost, if_neg (hseen one (List.mem_cons_self ..)), ih hn.2]
    intro r hr hmem
    rcases List.mem_cons.mp hmem with heq | hmem
    · exact hn.1 (heq ▸ List.mem_map_of_mem hr)
    · exact hseen r (List.mem_cons_of_mem _ hr) hmem

/-- A route moved to the front of a list with distinct hosts. -/
theorem perm_front {route : EdgeRoute} {routes : List EdgeRoute}
    (hn : (routes.map (·.host)).Nodup) (hmem : route ∈ routes) :
    (route :: routes.filter fun one => one.host != route.host).Perm routes := by
  induction routes with
  | nil => exact absurd hmem List.not_mem_nil
  | cons one routes ih =>
    rw [List.map_cons, List.nodup_cons] at hn
    rcases List.mem_cons.mp hmem with rfl | hmem
    · have hkeep : (routes.filter fun one => one.host != route.host) = routes := by
        rw [List.filter_eq_self]
        intro r hr
        have hne : r.host ≠ route.host := fun he => hn.1 (he ▸ List.mem_map_of_mem hr)
        simpa using hne
      rw [List.filter_cons_of_neg (by simp), hkeep]
    · have hne : one.host ≠ route.host := fun he => hn.1 (he ▸ List.mem_map_of_mem hmem)
      rw [List.filter_cons_of_pos (by simpa using hne)]
      exact (List.Perm.swap one route _).trans ((ih hn.2 hmem).cons one)

/-! ## Two inputs around the same fragments -/

section Compile

variable {input input' : CompileInput}

/-- The same policy around the same fragments, another of them primary. -/
structure SameAround (input input' : CompileInput) : Prop where
  rest : { input with route := input'.route, routes := input'.routes } = input'
  pathPrefix : input.route.pathPrefix = input'.route.pathPrefix
  nodup : ((input.route :: input.routes).map (·.host)).Nodup
  perm : ((input.route :: input.routes).map (fragment input)).Perm
    ((input'.route :: input'.routes).map (fragment input'))

theorem SameAround.rules (h : SameAround input input') : compileRules input = compileRules input' := by
  rw [← h.rest]
  unfold compileRules preamble
  rw [h.pathPrefix]

theorem fragment_hosts (routes : List EdgeRoute) :
    (routes.map (fragment input)).map (·.host) = routes.map (·.host) := by
  rw [List.map_map]
  rfl

theorem SameAround.nodup' (h : SameAround input input') :
    ((input'.route :: input'.routes).map (·.host)).Nodup := by
  have hhosts := h.perm.map (·.host)
  rw [fragment_hosts, fragment_hosts] at hhosts
  exact hhosts.nodup_iff.mp h.nodup

/-- The fragments are the same up to their order. -/
theorem SameAround.routes (h : SameAround input input') :
    (compileEdge input).envoyRoutes.Perm (compileEdge input').envoyRoutes := by
  show ((firstOfHost [] (input.route :: input.routes)).map _).Perm
    ((firstOfHost [] (input'.route :: input'.routes)).map _)
  rw [firstOfHost_of_nodup h.nodup (by simp), firstOfHost_of_nodup h.nodup' (by simp)]
  exact h.perm

theorem compileEdge_hosts (input : CompileInput) :
    (compileEdge input).envoyRoutes.map (·.host) =
      (firstOfHost [] (input.route :: input.routes)).map (·.host) := by
  exact fragment_hosts _

theorem compileEdge_hosts_nodup (hn : ((input.route :: input.routes).map (·.host)).Nodup) :
    ((compileEdge input).envoyRoutes.map (·.host)).Nodup := by
  rw [compileEdge_hosts, firstOfHost_of_nodup hn (by simp)]
  exact hn

/-- Every route's host has its fragment. -/
theorem fragmentOf_mem (hn : ((input.route :: input.routes).map (·.host)).Nodup) {route : EdgeRoute}
    (hmem : route ∈ input.route :: input.routes) :
    (compileEdge input).fragmentOf route.host = some (fragment input route) := by
  let t : Table fun r : EnvoyRouteFragment => r.host := ⟨_, compileEdge_hosts_nodup hn⟩
  refine Table.find_eq_some (t := t).mpr ⟨?_, rfl⟩
  show fragment input route ∈
    (firstOfHost [] (input.route :: input.routes)).map (fragment input)
  rw [firstOfHost_of_nodup hn (by simp)]
  exact List.mem_map_of_mem hmem

/-- Inputs that differ in which host comes first are compiled to the same rules. -/
theorem SameAround.agrees (h : SameAround input input') :
    (compileEdge input).Agrees (compileEdge input') := by
  have hany : ((compileEdge input).envoyRoutes.any fun r => r.protection.mode != .none) =
      (compileEdge input').envoyRoutes.any fun r => r.protection.mode != .none := by
    rw [Bool.eq_iff_iff, List.any_eq_true, List.any_eq_true]
    simp only [h.routes.mem_iff]
  have hn := compileEdge_hosts_nodup h.nodup
  refine ⟨?_, ?_, ?_, ?_, ?_⟩
  · show (compileRules input).blocks.flatten = (compileRules input').blocks.flatten
    rw [h.rules]
  · show (if (compileEdge input).envoyRoutes.any _ then _ else _) =
      if (compileEdge input').envoyRoutes.any _ then _ else _
    rw [hany, h.rules]
  · show (compileRules input).rateLimits = (compileRules input').rateLimits
    rw [h.rules]
  · show (input.policy.map (·.version)).getD 1 = (input'.policy.map (·.version)).getD 1
    rw [← h.rest]
  · intro host
    -- a list with distinct hosts is a table keyed by host
    let t : Table fun r : EnvoyRouteFragment => r.host := ⟨_, hn⟩
    let t' : Table fun r : EnvoyRouteFragment => r.host :=
      ⟨_, (h.routes.map _).nodup_iff.mp hn⟩
    exact @Table.find_congr _ _ _ _ t t' (fun _ => h.routes.mem_iff) host

end Compile

/-! ## The two publications -/

variable {config : EdgeConfig} {db : Db} {now : Int} {cache cache' : ProtectionCache}
  {org : OrganizationId} {hostname : String}

/-- The routes the loaders show, one a verified host. -/
theorem shownRoutes_nodup :
    (((db.listRoutableDomainsForService org).map (shownRoute config db now org cache)).map
      (·.host)).Nodup := by
  rw [List.map_map]
  exact db.listRoutable_nodup org

/-- A verified host's route is one of the policy's. -/
theorem loadRoute_mem {route : EdgeRoute}
    (h : (loadRoute config db now cache org hostname).1 = some route) :
    route ∈ (db.listRoutableDomainsForService org).map (shownRoute config db now org cache) := by
  rw [loadRoute_fst, Option.map_eq_some_iff] at h
  obtain ⟨domain, hd, rfl⟩ := h
  obtain ⟨hfind, hv⟩ := Option.filter_eq_some_iff.mp hd
  obtain ⟨hmem, hkey⟩ := Table.mem_of_find hfind
  rw [Prod.mk.injEq] at hkey
  exact List.mem_map_of_mem (Db.mem_listRoutable.mpr ⟨hmem, hkey.1, hv⟩)

theorem shownRoute_pathPrefix {route : EdgeRoute}
    (h : route ∈ (db.listRoutableDomainsForService org).map (shownRoute config db now org cache)) :
    route.pathPrefix = defaultPathPrefix := by
  obtain ⟨_, _, rfl⟩ := List.mem_map.mp h
  rfl

/-- The policy's input is around the routes of all verified hosts. -/
theorem loadPolicy_routes {policy : CompileInput}
    (h : (loadPolicy config db now cache org).1 = some policy) :
    ∃ row, db.getSecurityPolicyForService org = some row ∧
      policy = compileInput config db now row org policy.route policy.routes ∧
      policy.route :: policy.routes =
        (db.listRoutableDomainsForService org).map (shownRoute config db now org cache) := by
  rw [loadPolicy_fst, Option.bind_eq_some_iff] at h
  obtain ⟨row, hrow, hpolicy⟩ := h
  split at hpolicy
  next => cases hpolicy
  next primary rest hroutes =>
    cases hpolicy
    exact ⟨row, hrow, rfl, hroutes.symm⟩

/-- A policy compiled from a memo gives every verified host the posture the memo shows. -/
theorem loadPolicy_fragment {policy : CompileInput} {domain : Domain}
    (h : (loadPolicy config db now cache org).1 = some policy)
    (hdomain : domain ∈ db.listRoutableDomainsForService org) :
    (compileEdge policy).fragmentOf domain.hostname =
      some (fragment policy (shownRoute config db now org cache domain)) := by
  obtain ⟨_, _, _, hroutes⟩ := loadPolicy_routes h
  have hn := @shownRoutes_nodup config db now cache org
  have hmem := List.mem_map_of_mem (f := shownRoute config db now org cache) hdomain
  rw [← hroutes] at hn hmem
  exact fragmentOf_mem hn hmem

/-- Re-making the policy's input around a published host. -/
theorem inputForRoute_sameAround {route : EdgeRoute} {policy : CompileInput}
    (hroute : (loadRoute config db now cache org hostname).1 = some route)
    (hpolicy : (loadPolicy config db now cache org).1 = some policy) :
    SameAround (inputForRoute route (some policy)) policy := by
  obtain ⟨_, _, _, hroutes⟩ := loadPolicy_routes hpolicy
  have hmem := loadRoute_mem hroute
  have hn := @shownRoutes_nodup config db now cache org
  have hpre := @shownRoute_pathPrefix config db now cache org
  rw [← hroutes] at hmem hn hpre
  have hperm := perm_front hn hmem
  refine ⟨rfl, ?_, ?_, hperm.map _⟩
  · show route.pathPrefix = policy.route.pathPrefix
    rw [hpre hmem, hpre (List.mem_cons_self ..)]
  · exact (hperm.map _).nodup_iff.mpr hn

/-- Two memos that show the same postures compile to the same fragments. -/
theorem loadPolicy_sameAround {policy policy' : CompileInput}
    (hpolicy : (loadPolicy config db now cache org).1 = some policy)
    (hpolicy' : (loadPolicy config db now cache' org).1 = some policy')
    (halike : ShownAlike db now org cache cache') : SameAround policy policy' := by
  obtain ⟨row, hrow, hp, hroutes⟩ := loadPolicy_routes hpolicy
  obtain ⟨row', hrow', hp', hroutes'⟩ := loadPolicy_routes hpolicy'
  obtain rfl : row = row' := Option.some.inj (hrow.symm.trans hrow')
  have hn := @shownRoutes_nodup config db now cache org
  have hpre := @shownRoute_pathPrefix config db now cache org
  have hpre' := @shownRoute_pathPrefix config db now cache' org
  rw [← hroutes] at hn hpre
  rw [← hroutes'] at hpre'
  have hfragment : fragment policy = fragment policy' := by
    rw [hp, hp']
    rfl
  refine ⟨by rw [hp, hp']; rfl, ?_, hn, ?_⟩
  · rw [hpre (List.mem_cons_self ..), hpre' (List.mem_cons_self ..)]
  · rw [hroutes, hroutes', hfragment, List.map_map, List.map_map]
    refine List.Perm.of_eq (List.map_congr_left ?_)
    intro domain hdomain
    show { fragment policy' (routeFor config domain.hostname org none) with
        protection := protectionInput (shownPosture db now org cache domain.projectId) } = _
    rw [halike domain hdomain]
    rfl

theorem CompiledEdge.Agrees.trans {a b c : CompiledEdge} (hab : a.Agrees b) (hbc : b.Agrees c) :
    a.Agrees c where
  directives := hab.directives.trans hbc.directives
  ladder := hab.ladder.trans hbc.ladder
  rateLimits := hab.rateLimits.trans hbc.rateLimits
  version := hab.version.trans hbc.version
  fragments host := (hab.fragments host).trans (hbc.fragments host)

/-- What `applyPolicy` sends is the policy its process loads. -/
theorem applyPolicy_post {policyId : Nat} {path : String} {b : CompiledEdge}
    (h : (applyPolicy config db now cache org policyId).1 = .post path b) :
    ∃ policy, (loadPolicy config db now cache org).1 = some policy ∧ b = compileEdge policy := by
  unfold applyPolicy at h
  split at h
  next => cases h
  next policy _ hload =>
    split at h
    next => cases h
    next =>
      cases h
      exact ⟨policy, by rw [hload], rfl⟩

/-- What `publishRoute` sends is the policy its process loads, around the host. -/
theorem publishRoute_post {policy : CompileInput} {path : String} {a : CompiledEdge}
    (hload : (loadPolicy config db now cache org).1 = some policy)
    (h : (publishRoute config db now cache org hostname).1 = .post path a) :
    ∃ route, (loadRoute config db now cache org hostname).1 = some route ∧
      a = compileEdge (inputForRoute route (some policy)) := by
  unfold publishRoute at h
  split at h
  next => cases h
  next route cache' hr =>
    -- the route is read first, and reading it changes no posture
    have hcache : (loadPolicy config db now cache' org).1 = some policy := by
      have hshown := @shownPosture_loadRoute config db now org cache hostname
      rw [hr] at hshown
      have hsame : shownRoute config db now org cache' = shownRoute config db now org cache := by
        funext d
        unfold shownRoute
        rw [hshown]
      rw [← hload, loadPolicy_fst, loadPolicy_fst, hsame]
    split at h
    next => cases h
    next =>
      split at h
      next => cases h
      next =>
        simp only [hcache] at h
        cases h
        exact ⟨route, by rw [hr], rfl⟩

def edgeConfig : EdgeConfig :=
  ⟨"https://edge.internal:9443", "10.0.0.8", fun _ => some "token", []⟩

def shopDomains : Table fun d : Domain => (d.organizationId, d.hostname) :=
  ⟨[⟨1, 1, some 5, "shop.example.com", true, some 10⟩, ⟨2, 1, none, "www.example.com", true, some 20⟩],
    by decide⟩

def shopPolicy : SecurityPolicy := ⟨3, 1, "main", .high, .block, .draft, .attack, none, 4⟩

/-- One protected project behind one of two verified hosts. -/
def shop : Db where
  memberships := [⟨1, 7, .owner⟩]
  projects := ⟨[⟨5, 1⟩], by decide⟩
  domains := shopDomains
  protections := ⟨[⟨⟨⟨9, 1, 5, .ip, none, ["192.0.2.0/24"], none, 1, 7⟩, none⟩, by decide⟩], by decide⟩
  policies := [shopPolicy]
  rules := [⟨1, .userAgent, "curl"⟩]
  trustedSources := [⟨1, .ip, "192.0.2.7"⟩]
  rateLimits := []

def shopRoute (cidr : String) : EdgeRoute :=
  routeFor edgeConfig "shop.example.com" 1 (some ⟨.ip, none, none, some [cidr]⟩)

def wwwRoute : EdgeRoute := routeFor edgeConfig "www.example.com" 1 none

/-- The policy as compiled while the shop shows this allow-list. -/
def shopInput (db : Db) (cidr : String) : CompileInput :=
  compileInput edgeConfig db 0 shopPolicy 1 (shopRoute cidr) [wwwRoute]

/-- The allow-list is narrowed to one address. -/
def narrowed : Db :=
  { shop with protections :=
    ⟨[⟨⟨⟨9, 1, 5, .ip, none, ["203.0.113.9/32"], none, 1, 7⟩, none⟩, by decide⟩], by decide⟩ }

/-- The API's memo, from a publication before the save. -/
def publishedBefore : ProtectionCache :=
  (publishRoute edgeConfig shop 0 Memo.empty 1 "www.example.com").2

end Security

end CloudWai
