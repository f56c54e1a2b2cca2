import CloudWai.Runtime.Estate

/-!
# Domains

`addDomain`, `verifyDomain` and `removeDomain` of the API. A hostname is stored
as verified or not by what the verifier answers. Two engines are told of it: the
edge gets a route on a positive answer and loses it on removal, and the runtime
gets the list of an application's hostnames, which replaces the one it had. That
list is computed in two ways: `verifyDomain` sends the hostname it verified,
`removeDomain` the verified hostnames that remain.

Mirrors `apps/api/src/procedures/domains.ts`. What a verification says of the provider is
left out.
-/

namespace CloudWai.Runtime

open Base Grammar Deployment

/-- `ADAPTER_TIMEOUT_MS` -/
def domainTimeoutMs : Nat := 20000

/-- `normaliseHostname` -/
def normaliseHostname (value : String) : Except Failure String :=
  let lowered := (lowerCase (trim value)).toList
  let hostname := String.ofList (if lowered.getLast? == some '.' then lowered.dropLast else lowered)
  if hostnamePattern.test hostname then .ok hostname
  else .error (.api "invalid_input" "Hostname is not a valid DNS name.")

/-- `hosting.setDomains` for the project's application, if it has one. -/
def routeHostnames (setup : Setup) (o : Outside) (org : OrganizationId) (project : ProjectId)
    (idempotencyKey : String) (hostnames : List String) (w : Estate) :
    Option (AdapterResult (Option String)) × Estate :=
  let target := w.targetForService org project
  match target.bind fun t => given t.providerResourceId with
  | none => (none, w)
  | some resource =>
    let a := SelfHosted.setDomains setup o ⟨org, idempotencyKey, domainTimeoutMs⟩
      ⟨org, (target.bind (·.provider)).getD "selfhosted", .application, resource⟩ hostnames w.runtime
    (some a.1, { w with runtime := a.2 })

/-! ## `addDomain` -/

/-- What a caller adds. -/
structure AddDomainInput where
  organizationId : OrganizationId
  projectId : Option ProjectId
  hostname : String

/-- The refusal of a hostname that somebody has. -/
def domainTaken : Failure := .api "conflict" "That hostname is already registered."

/-- The project a domain is added to is one of the organization's. -/
def projectOf (ctx : CloudWai.RequestContext) (input : AddDomainInput) (w : Estate) :
    Except Failure Unit :=
  match input.projectId with
  | none => .ok ()
  | some id =>
    match (w.getProject ctx.userId id).filter fun p => p.organizationId == input.organizationId with
    | none => .error (.api "not_found" "Project not found.")
    | some _ => .ok ()

/-- The hostname to add, once the request is let through. -/
def addTarget (ctx : CloudWai.RequestContext) (input : AddDomainInput) (w : Estate) :
    Except Failure String :=
  (CloudWai.requireCapability ctx input.organizationId .domainCreate).bind fun _ =>
  (normaliseHostname input.hostname).bind fun hostname =>
  (projectOf ctx input w).bind fun _ =>
  if (w.listDomains ctx.userId input.organizationId).any (·.hostname == hostname) then
    .error domainTaken
  else .ok hostname

/-- `token` is the challenge that was drawn. -/
def addDomain (token : String) (ctx : CloudWai.RequestContext) (input : AddDomainInput)
    (w : Estate) : Result String :=
  match addTarget ctx input w with
  | .error failure => (.error failure, w)
  | .ok hostname =>
    match w.createDomain input.organizationId input.projectId hostname token with
    | none => (.error (.unavailable "createDomain" "POST /domains returned 409."), w)
    | some w => (.ok token, w)

/-! ## `verifyDomain` -/

/-- What the verifier answers: nothing, with its reason, or whether it found the
challenge. -/
abbrev VerifierAnswer := AdapterResult Bool

/-- The domain a request is about, if the caller may see it there. -/
def domainFor (ctx : CloudWai.RequestContext) (c : Capability) (org : OrganizationId) (id : Nat)
    (w : Estate) : Except Failure DomainRow :=
  (CloudWai.requireCapability ctx org c).bind fun _ =>
  match (w.getDomain ctx.userId id).filter fun d => d.organizationId == org with
  | none => .error (.api "not_found" "Domain not found.")
  | some domain => .ok domain

/-- What `verifyDomain` finds out before it writes: the domain and the answer. -/
def verification (ctx : CloudWai.RequestContext) (org : OrganizationId) (id : Nat)
    (answer : VerifierAnswer) (w : Estate) : Except Failure (DomainRow × Bool) :=
  (domainFor ctx .domainVerify org id w).bind fun domain =>
  if !truthy domain.verificationToken then
    .error (.api "conflict"
      "This domain has no verification challenge; remove and re-add it to get one.")
  else
    match answer with
    | .err status reason =>
      .error (.api (if status = .notConfigured then "engine_unavailable" else "conflict")
        s!"The domain verifier could not confirm this hostname: {reason}")
    | .ok _ verified => .ok (domain, verified)

/-- What the caller is told of a verification. -/
structure VerifyDomainResult where
  verified : Bool
  /-- `edge`, and why it does not serve the hostname. -/
  edge : Option (Option String)
  /-- `hostingRoute`, likewise. -/
  hostingRoute : Option (Option String)
deriving DecidableEq

/-- `published ? null : reason` of a hosting answer. -/
def routeReason : AdapterResult (Option String) → Option String
  | .ok _ routeError => routeError
  | .err _ reason => some reason

/-- A verified hostname is published to the edge. -/
def publishVerified (o : Outside) (domain : DomainRow) (w : Estate) : Option String × Estate :=
  match o.edgeRefusal with
  | some reason => (some reason, w)
  | none => (none, w.publishRoute o.policy domain.organizationId domain.hostname)

/-- And the project's application gets it for its only hostname. -/
def routeVerified (setup : Setup) (o : Outside) (domain : DomainRow) (w : Estate) :
    Option (AdapterResult (Option String)) × Estate :=
  match domain.projectId with
  | none => (none, w)
  | some project =>
    routeHostnames setup o domain.organizationId project s!"set-domains-{domain.id}"
      [domain.hostname] w

/-- The procedure: the row first, then the edge and the runtime. -/
def verifyDomain (setup : Setup) (o : Outside) (ctx : CloudWai.RequestContext)
    (org : OrganizationId) (id : Nat) (answer : VerifierAnswer) (w : Estate) :
    Result VerifyDomainResult :=
  match verification ctx org id answer w with
  | .error failure => (.error failure, w)
  | .ok (domain, false) =>
    (.ok ⟨false, none, none⟩, w.setDomainVerification domain.organizationId domain.id false)
  | .ok (domain, true) =>
    let w := w.setDomainVerification domain.organizationId domain.id true
    let edge := publishVerified o domain w
    let routed := routeVerified setup o domain edge.2
    (.ok ⟨true, some edge.1, routed.1.map routeReason⟩, routed.2)

/-! ## `removeDomain` -/

/-- The route is withdrawn from the edge. -/
def withdraw (o : Outside) (org : OrganizationId) (hostname : String) (w : Estate) : Estate :=
  match o.edgeRefusal with
  | some _ => w
  | none => w.removeRoute org hostname

/-- The project's application keeps the verified hostnames that remain. -/
def routeRemaining (setup : Setup) (o : Outside) (user : UserId) (domain : DomainRow)
    (w : Estate) : Estate :=
  match domain.projectId with
  | none => w
  | some project =>
    let remaining := (w.listDomains user domain.organizationId).filter fun d =>
      d.projectId == some project && d.verified && d.id != domain.id
    (routeHostnames setup o domain.organizationId project s!"withdraw-domains-{domain.id}"
      (remaining.map (·.hostname)) w).2

/-- The procedure: likewise. -/
def removeDomain (setup : Setup) (o : Outside) (ctx : CloudWai.RequestContext)
    (org : OrganizationId) (id : Nat) (w : Estate) : Result Unit :=
  match domainFor ctx .domainDelete org id w with
  | .error failure => (.error failure, w)
  | .ok domain =>
    match w.deleteDomain ctx.userId org id with
    | (false, w) => (.error (.api "not_found" "Domain not found."), w)
    | (true, w) =>
      (.ok (), routeRemaining setup o ctx.userId domain (withdraw o org domain.hostname w))

end CloudWai.Runtime
