import CloudWai.Contracts
import CloudWai.Grammar
import CloudWai.Base.Seclang

/-!
# The edge compiler

`packages/adapters/src/security-edge.ts`, up to its calls over the network:
the validators that decide what may become engine syntax, and `compileEdge`,
which turns an organization's policy into Coraza directives, one Envoy route
fragment per host, the rate-limit descriptors and the reviewable ladder.

The compiler is a fold that pushes one *rung* after another: a number, a stage,
and the directives that make it up. `Draft` is what has been pushed so far. The
source pushes the directives of a rung together; they are kept together here as
a block, and `corazaDirectives` is the blocks one after the other.
-/

namespace CloudWai

namespace Security

open Base.Seclang

/-! ## The vocabulary of `packages/security` -/

/-- `RiskLevel` of the contracts. -/
inductive RiskLevel where
  | low | medium | high | critical
deriving DecidableEq, Repr

/-- `EnforcementAction` of the contracts. -/
inductive EnforcementAction where
  | allow | log | challenge | block | quarantine
deriving DecidableEq, Repr

/-- `CORAZA_SEVERITY` -/
def corazaSeverity : RiskLevel → String
  | .low => "notice"
  | .medium => "warning"
  | .high => "error"
  | .critical => "critical"

/-- `CORAZA_ACTION` -/
def corazaAction : EnforcementAction → Action
  | .allow => .pass
  | .log => .pass
  | .challenge => .deny
  | .block => .deny
  | .quarantine => .deny

/-- `{ ok: true } | { ok: false, reason }` -/
inductive Validated where
  | ok
  | refused (reason : String)
deriving DecidableEq, Repr

/-! ## What is compiled, and what may be -/

/-- A bot that is let through if its name resolves back to it. -/
structure VerifiedBot where
  name : String
  userAgent : String
  confirmSuffix : String
deriving DecidableEq, Repr

/-- A name, a user agent and a suffix, each of its grammar. -/
def validateVerifiedBot (bot : VerifiedBot) : Validated :=
  if !Grammar.botName.test bot.name then .refused "A bot name is 1-40 [a-z0-9-]."
  else if !Grammar.uaValue.test bot.userAgent then
    .refused "A bot user-agent is 1-120 plain characters."
  else if !Grammar.hostPattern.test bot.confirmSuffix then
    .refused "A confirm suffix must be a DNS name."
  else .ok

/-- `VERIFIED_BOTS` -/
def verifiedBots : List VerifiedBot := [
  ⟨"googlebot", "Googlebot", "googlebot.com"⟩,
  ⟨"google-other", "Google", "google.com"⟩,
  ⟨"bingbot", "bingbot", "search.msn.com"⟩,
  ⟨"duckduckbot", "DuckDuckBot", "duckduckgo.com"⟩,
  ⟨"yandexbot", "YandexBot", "yandex.ru"⟩,
  ⟨"baiduspider", "Baiduspider", "baidu.com"⟩,
  ⟨"applebot", "Applebot", "applebot.apple.com"⟩,
  ⟨"uptimerobot", "UptimeRobot", "uptimerobot.com"⟩,
  ⟨"pingdom", "Pingdom", "pingdom.com"⟩]

/-- What a deny rule looks at. -/
inductive DenyRuleKind where
  | ip | cidr | asn | userAgent
deriving DecidableEq, Repr

def DenyRuleKind.wire : DenyRuleKind → String
  | .ip => "ip"
  | .cidr => "cidr"
  | .asn => "asn"
  | .userAgent => "user-agent"

/-- A row of the deny list. -/
structure DenyRule where
  kind : DenyRuleKind
  value : String
deriving DecidableEq, Repr

/-- Each kind has its own grammar. -/
def validateDenyRule (rule : DenyRule) : Validated :=
  match rule.kind with
  | .ip => if !Grammar.ipv4.test rule.value then .refused "Not an IPv4 address." else .ok
  | .cidr => if !Grammar.cidr.test rule.value then .refused "Not an IPv4 CIDR block." else .ok
  | .asn => if !Grammar.asn.test rule.value then .refused "An ASN is written AS<number>." else .ok
  | .userAgent =>
    if !Grammar.uaValue.test rule.value then
      .refused "A user-agent value is 1-120 plain characters."
    else .ok

/-- An address, or a block of them. -/
inductive TrustedSourceKind where
  | ip | cidr
deriving DecidableEq, Repr

/-- Whoever comes from there is let through. -/
structure TrustedSource where
  kind : TrustedSourceKind
  value : String
deriving DecidableEq, Repr

/-- An address or a block. -/
def validateTrustedSource (source : TrustedSource) : Validated :=
  match source.kind with
  | .ip => if !Grammar.ipv4.test source.value then .refused "Not an IPv4 address." else .ok
  | .cidr => if !Grammar.cidr.test source.value then .refused "Not an IPv4 CIDR block." else .ok

/-- What requests are counted by. -/
inductive RateLimitKey where
  | ip | header | global
deriving DecidableEq, Repr

def RateLimitKey.wire : RateLimitKey → String
  | .ip => "ip"
  | .header => "header"
  | .global => "global"

/-- So many requests in a window. -/
structure RateLimitRule where
  id : Nat
  key : RateLimitKey
  headerName : Option String
  limit : Int
  windowSeconds : Int
deriving DecidableEq, Repr

/-- The bounds of a limit, and a header's name where it is counted by one. -/
def validateRateLimitRule (rule : RateLimitRule) : Validated :=
  if rule.limit < 1 || rule.limit > 1000000 then
    .refused "A rate limit is an integer between 1 and 1000000."
  else if rule.windowSeconds < 1 || rule.windowSeconds > 86400 then
    .refused "A rate-limit window is 1 to 86400 seconds."
  else if rule.key = .header then
    if !truthy rule.headerName || !Grammar.headerName.test (rule.headerName.getD "") then
      .refused "A header-keyed limit needs a plain header name."
    else .ok
  else if rule.headerName.isSome then .refused "Only a header-keyed limit may name a header."
  else .ok

/-- The descriptor that the edge counts by. -/
structure CompiledRateLimit where
  descriptor : String
  limit : Int
  windowSeconds : Int
deriving DecidableEq, Repr

/-- How a deployment is protected. -/
inductive ProtectionMode where
  | none | password | ip
deriving DecidableEq, Repr

/-- A deployment-protection posture as it stands on a route. -/
structure CompiledProtection where
  mode : ProtectionMode
  basicUser : Option String
  basicPasswordSha256 : Option String
  allowedCidrs : Option (List String)
deriving DecidableEq, Repr

/-- `{ mode: "none" }` -/
def CompiledProtection.open : CompiledProtection := ⟨.none, none, none, none⟩

/-- `protection.allowedCidrs ?? []` -/
def CompiledProtection.cidrs (p : CompiledProtection) : List String := p.allowedCidrs.getD []

/-- A posture has what its mode needs, and nothing that it does not. -/
def validateProtection (p : CompiledProtection) : Validated :=
  match p.mode with
  | .none =>
    if truthy p.basicUser || truthy p.basicPasswordSha256 then
      .refused "An open posture may not carry credentials."
    else if p.cidrs.length > 0 then .refused "An open posture may not carry an allow-list."
    else .ok
  | .password =>
    if !truthy p.basicUser || !Grammar.basicUser.test (p.basicUser.getD "") then
      .refused "A password posture needs a plain basic-auth user."
    else if !truthy p.basicPasswordSha256 ||
        !Grammar.sha256Hex.test (p.basicPasswordSha256.getD "") then
      .refused "A password posture needs a SHA-256 password digest."
    else if p.cidrs.length > 0 then .refused "A password posture may not also carry an allow-list."
    else .ok
  | .ip =>
    if p.cidrs.length = 0 then .refused "An IP posture needs at least one address."
    else
      match p.cidrs.findSome? fun value =>
        match validateTrustedSource ⟨.cidr, value⟩ with
        | .ok => Option.none
        | .refused reason => some reason with
      | some reason => .refused reason
      | none =>
        if truthy p.basicUser || truthy p.basicPasswordSha256 then
          .refused "An IP posture may not also carry credentials."
        else .ok

/-- The compiler's last line: what does not validate is open. -/
def protectionInput : Option CompiledProtection → CompiledProtection
  | none => .open
  | some p => if validateProtection p = .ok then p else .open

/-- A hostname with the origin behind it. -/
structure EdgeRoute where
  host : String
  origin : String
  pathPrefix : String
  organizationId : OrganizationId
  protection : Option CompiledProtection
deriving DecidableEq, Repr

/-- A public origin is refused. -/
def validateEdgeRoute (route : EdgeRoute) : Validated :=
  if !Grammar.hostPattern.test route.host then .refused "Host is not a valid DNS name."
  else if !Grammar.pathPattern.test route.pathPrefix then .refused "Path prefix is not valid."
  else if !Grammar.privateHost.test route.origin then
    .refused "Origin must be a private address; a public origin would be reachable directly."
  else .ok

/-- `normal` inspects, `attack` also challenges browsers. -/
inductive RouteProtectionMode where
  | normal | attack
deriving DecidableEq, Repr

/-- What the compiler reads of a policy. -/
structure PolicyInput where
  riskLevel : RiskLevel
  action : EnforcementAction
  version : Nat
deriving DecidableEq, Repr

/-- All that the compiler reads. -/
structure CompileInput where
  route : EdgeRoute
  routes : List EdgeRoute
  policy : Option PolicyInput
  protection : Option RouteProtectionMode
  botAllowList : List VerifiedBot
  denyList : List DenyRule
  trustedSources : List TrustedSource
  rateLimits : List RateLimitRule
deriving DecidableEq, Repr

/-- `compileEdge({ route })` -/
def CompileInput.bare (route : EdgeRoute) : CompileInput :=
  ⟨route, [], none, none, [], [], [], []⟩

/-! ## The ladder -/

/-- `DECISION_STAGES` -/
inductive DecisionStage where
  | protect | allowVerifiedBot | allowInternal | allowTrustedIp | blockDenyList
  | ratelimit | challenge | waf | log | pass
deriving DecidableEq, Repr

/-- A rung: what is decided there, and by which directive. -/
structure LadderStep where
  id : Nat
  stage : DecisionStage
  action : EnforcementAction
  directive : String
deriving DecidableEq, Repr

/-- What has been pushed so far. -/
structure Draft where
  ladder : List LadderStep
  blocks : List (List Directive)
  rateLimits : List CompiledRateLimit
  nextId : Nat

/-- A rule's reviewable form: its directives, one a line. -/
def renderBlock (block : List Directive) : String :=
  "\n".intercalate (block.map Directive.render)

/-- Push a rung under the next number. -/
def Draft.rung (d : Draft) (stage : DecisionStage) (action : EnforcementAction)
    (block : Nat → List Directive) : Draft :=
  { d with
    ladder := d.ladder ++ [⟨d.nextId, stage, action, renderBlock (block d.nextId)⟩]
    blocks := d.blocks ++ [block d.nextId]
    nextId := d.nextId + 1 }

/-- `INTERNAL_REQUEST_HEADER` -/
def internalRequestHeader : String := "x-cloud-wai-internal"

/-- `INTERNAL_MARKER_VARIABLE` -/
def internalMarkerVariable : String := "cloud_wai_internal"

/-- `BOT_CONFIRM_VARIABLE` -/
def botConfirmVariable : String := "cloud_wai_bot_confirm"

/-- `BOT_MARKER_VARIABLE` -/
def botMarkerVariable : String := "cloud_wai_bot"

/-- The marker of a trusted source; the source has no constant for it. -/
def trustedMarkerVariable : String := "cloud_wai_trusted"

/-- What the edge resolved the source address to. -/
def asnVariable : String := "CLOUD_WAI_ASN"

/-- What a deny rule matches. -/
def denyOperator (rule : DenyRule) : Target × Operator :=
  match rule.kind with
  | .ip => (.remoteAddr, .ipMatch rule.value)
  | .cidr => (.remoteAddr, .ipMatch rule.value)
  | .asn => (.tx asnVariable, .streq rule.value)
  | .userAgent => (.requestHeader "User-Agent", .contains rule.value)

/-- The suffix, at the end of a name. -/
def botConfirmPattern (suffix : String) : String :=
  "(^|\\.)" ++ suffix.replace "." "\\." ++ "$"

/-- The starter tests the claim, the member what the edge confirmed; the member
sets the marker. -/
def verifiedBotDirectives (bot : VerifiedBot) (id : Nat) : List Directive := [
  .rule (.requestHeader "User-Agent") false (.contains bot.userAgent)
    [.id id, .phase 1, .pass, .nolog, .chain, .msg ("cloud-wai verified bot: " ++ bot.name)],
  .rule (.tx botConfirmVariable) false (.rx (botConfirmPattern bot.confirmSuffix))
    [.transformNone, .setvar botMarkerVariable (toString id)]]

/-- Requests of the platform's own are marked. -/
def internalDirectives (id : Nat) : List Directive := [
  .rule (.requestHeader internalRequestHeader) false (.streq "1")
    [.id id, .phase 1, .pass, .nolog, .setvar internalMarkerVariable "1"]]

/-- Requests from a trusted source are marked. -/
def trustedDirectives (source : TrustedSource) (id : Nat) : List Directive := [
  .rule .remoteAddr false (.ipMatch source.value)
    [.id id, .phase 1, .pass, .nolog, .setvar trustedMarkerVariable "1"]]

/-- The deny chain: the rule's own condition, then one member for each marker
that is meant to exempt a request. -/
def denyDirectives (rule : DenyRule) (id : Nat) : List Directive := [
  .rule (denyOperator rule).1 false (denyOperator rule).2
    [.id id, .phase 1, .deny, .status 403, .log, .msg ("cloud-wai deny list: " ++ rule.kind.wire),
      .chain],
  .rule (.tx trustedMarkerVariable) true (.streq "1") [.transformNone, .chain],
  .rule (.tx internalMarkerVariable) true (.streq "1") [.transformNone, .chain],
  .rule (.tx botMarkerVariable) true (.rx "^\\d+$") [.transformNone]]

example : renderBlock (denyDirectives ⟨.asn, "AS64500"⟩ 21) =
    "SecRule TX:CLOUD_WAI_ASN \"@streq AS64500\" \"id:21,phase:1,deny,status:403,log,msg:'cloud-wai deny list: asn',chain\"\n" ++
    "SecRule TX:cloud_wai_trusted \"!@streq 1\" \"t:none,chain\"\n" ++
    "SecRule TX:cloud_wai_internal \"!@streq 1\" \"t:none,chain\"\n" ++
    "SecRule TX:cloud_wai_bot \"!@rx ^\\d+$\" \"t:none\"" := by
  decide +kernel

/-- What the edge counts by. -/
def rateLimitDescriptor (rule : RateLimitRule) : String :=
  match rule.key with
  | .ip => "remote_address"
  | .header => "header:" ++ rule.headerName.getD ""
  | .global => "route_global"

/-- The limit is set as a variable; the edge does the counting. -/
def rateLimitDirectives (rule : RateLimitRule) (id : Nat) : List Directive := [
  .action [.id id, .phase 1, .pass, .nolog,
    .setvar "cloud_wai_rate_limit" (toString rule.limit ++ "/" ++ toString rule.windowSeconds ++ "s"),
    .setvar "cloud_wai_rate_key" rule.key.wire]]

/-- Browsers are to be challenged. -/
def challengeDirectives (id : Nat) : List Directive := [
  .action [.id id, .phase 1, .pass, .nolog, .setvar "cloud_wai_challenge_browsers" "1"]]

/-- The higher the risk, the lower the threshold. -/
def thresholdDirective (policy : PolicyInput) (id : Nat) : Directive :=
  let threshold := if policy.riskLevel = .critical then 1 else if policy.riskLevel = .high then 3 else 5
  .action [.id id, .phase 1, .pass, .nolog,
    .setvar "inbound_anomaly_score_threshold" (toString (threshold : Nat))]

/-- A request whose score has reached the threshold. -/
def wafDirectives (policy : PolicyInput) (id : Nat) : List Directive := [
  .rule (.tx "BLOCKING_INBOUND_ANOMALY_SCORE") false (.geVar "inbound_anomaly_score_threshold")
    [.id id, .phase 2, .severity (corazaSeverity policy.riskLevel), corazaAction policy.action,
      .status 403, .log]]

/-- A bot that is not valid is left out. -/
def botRung (d : Draft) (bot : VerifiedBot) : Draft :=
  if validateVerifiedBot bot = .ok then d.rung .allowVerifiedBot .allow (verifiedBotDirectives bot)
  else d

/-- This rung is always there. -/
def internalRung (d : Draft) : Draft := d.rung .allowInternal .allow internalDirectives

/-- A source that is not valid is left out. -/
def trustedRung (d : Draft) (source : TrustedSource) : Draft :=
  if validateTrustedSource source = .ok then d.rung .allowTrustedIp .allow (trustedDirectives source)
  else d

/-- A rule that is not valid is left out. -/
def denyRung (d : Draft) (rule : DenyRule) : Draft :=
  if validateDenyRule rule = .ok then d.rung .blockDenyList .block (denyDirectives rule) else d

/-- A limit adds a rung and a descriptor. -/
def rateLimitRung (d : Draft) (rule : RateLimitRule) : Draft :=
  if validateRateLimitRule rule = .ok then
    let d' := d.rung .ratelimit .log (rateLimitDirectives rule)
    { d' with
      rateLimits := d'.rateLimits ++ [⟨rateLimitDescriptor rule, rule.limit, rule.windowSeconds⟩] }
  else d

/-- Only in attack mode. -/
def challengeRung (d : Draft) (attackMode : Bool) : Draft :=
  if attackMode then d.rung .challenge .challenge challengeDirectives else d

/-- The threshold takes a number of its own but is no step of the ladder. -/
def wafRung (d : Draft) : Option PolicyInput → Draft
  | none => d
  | some policy =>
    let d' : Draft :=
      { d with blocks := d.blocks ++ [[thresholdDirective policy d.nextId]], nextId := d.nextId + 1 }
    d'.rung .waf policy.action (wafDirectives policy)

/-- The engine switch and the rule that starts inspection. -/
def preamble (route : EdgeRoute) : List (List Directive) := [
  [.ruleEngineOn],
  [.rule .requestUri false (.beginsWith route.pathPrefix)
    [.id 1, .phase 1, .pass, .nolog, .engineOn]]]

/-- Everything up to the route fragments. -/
def compileRules (input : CompileInput) : Draft :=
  let d0 : Draft := ⟨[], preamble input.route, [], 10⟩
  let d1 := (verifiedBots ++ input.botAllowList).foldl botRung d0
  let d2 := internalRung d1
  let d3 := input.trustedSources.foldl trustedRung d2
  let d4 := input.denyList.foldl denyRung d3
  let d5 := input.rateLimits.foldl rateLimitRung d4
  let d6 := challengeRung d5 (input.protection = some .attack)
  wafRung d6 input.policy

/-! ## Route fragments -/

/-- What the edge is told about one host. -/
structure EnvoyRouteFragment where
  host : String
  pathPrefix : String
  cluster : String
  privateOrigin : String
  wafEnabled : Bool
  challengeBrowsers : Bool
  skipChallengeAddresses : List String
  skipChallengeForVerifiedBots : Bool
  protection : CompiledProtection
deriving DecidableEq, Repr

/-- The fragment of one host. -/
def fragment (input : CompileInput) (one : EdgeRoute) : EnvoyRouteFragment where
  host := one.host
  pathPrefix := one.pathPrefix
  cluster := "origin-" ++ one.host.replace "." "-"
  privateOrigin := one.origin
  wafEnabled := input.policy.isSome
  challengeBrowsers := input.protection = some .attack
  skipChallengeAddresses :=
    (input.trustedSources.filter fun source => validateTrustedSource source = .ok).map (·.value)
  skipChallengeForVerifiedBots := input.protection = some .attack
  protection := protectionInput one.protection

/-- One route per host, the first that names it. -/
def firstOfHost : List String → List EdgeRoute → List EdgeRoute
  | _, [] => []
  | seen, one :: routes =>
    if one.host ∈ seen then firstOfHost seen routes
    else one :: firstOfHost (one.host :: seen) routes

/-- What is posted to the edge. -/
structure CompiledEdge where
  corazaDirectives : List Directive
  envoyConfig : EnvoyRouteFragment
  envoyRoutes : List EnvoyRouteFragment
  ladder : List LadderStep
  rateLimits : List CompiledRateLimit
  protection : CompiledProtection
  version : Nat
deriving DecidableEq, Repr

/-- The step that names the per-route decision; it has no directive of its own. -/
def protectStep (id : Nat) : LadderStep :=
  ⟨id, .protect, .challenge,
    "// Deployment protection is enforced by Envoy per route; see the route fragment's `protection`."⟩

/-- The rules, and one fragment for each host. -/
def compileEdge (input : CompileInput) : CompiledEdge :=
  let draft := compileRules input
  let envoyRoutes := (firstOfHost [] (input.route :: input.routes)).map (fragment input)
  let protectedAny := envoyRoutes.any fun r => r.protection.mode != .none
  { corazaDirectives := draft.blocks.flatten
    envoyConfig := fragment input input.route
    envoyRoutes
    ladder := if protectedAny then draft.ladder ++ [protectStep draft.nextId] else draft.ladder
    rateLimits := draft.rateLimits
    protection := (fragment input input.route).protection
    version := (input.policy.map (·.version)).getD 1 }

end Security

end CloudWai
