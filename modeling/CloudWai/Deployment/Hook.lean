import CloudWai.Grammar
import CloudWai.Deployment.Procedures

/-!
# The git webhook receiver

`parseGitDelivery` and `deployFromDelivery`: what a verified delivery of a git provider
is read as, and the deployment it asks for. The signature is checked before any of this
and is not modelled; the body is the value `JSON.parse` makes of it, or nothing.

A delivery is given the key a request would bring: the link, the branch or the pull
request, and the commit as far as the body names one.

Mirrors `apps/api/src/git-hook.ts`, with `cloneUrlFor` of
`apps/api/src/procedures/git-links.ts`. Fields of a payload that the classification does
not read are left out.
-/

namespace CloudWai.Deployment

open Base Grammar Pattern Queue ControlPlaneStore

/-! ## Bodies -/

/-- What `JSON.parse` returns; the numbers read here are whole. -/
inductive Json where
  | null
  | bool (b : Bool)
  | number (n : Int)
  | string (s : String)
  | array (items : List Json)
  | object (fields : List (String × Json))

/-- `asRecord(value)?.[name]`; the last field of a name counts. -/
def Json.field (name : String) : Json → Option Json
  | .object fields => (fields.reverse.find? fun f => f.1 == name).map (·.2)
  | _ => none

/-- A field of what may be a record. -/
def fieldOf (value : Option Json) (name : String) : Option Json := value.bind (Json.field name)

/-- `stringAt` -/
def stringAt : Option Json → Option String
  | some (.string s) => if s = "" then none else some s
  | _ => none

/-- `typeof value === "number"` -/
def numberAt : Option Json → Option Int
  | some (.number n) => some n
  | _ => none

/-- `Array.isArray(value) ? value[0] : undefined` -/
def firstOf : Option Json → Option Json
  | some (.array items) => items.head?
  | _ => none

/-- `ParsedGitDelivery` -/
structure ParsedGitDelivery where
  branch : Option String
  commit : Option String
  pullRequest : Option Nat
  event : String
  isPullRequest : Bool
deriving DecidableEq

/-- `/^[0-9a-f]{7,40}$/i` -/
def commitPattern : Pattern := between 7 40 (one fun c => hexDigit c || ('A' ≤ c && c ≤ 'F'))

/-- `/^0+$/` -/
def zeros : Pattern := plus (ch '0')

/-- A commit that a push may name. -/
def isCommit (after : String) : Bool := commitPattern.test after && !zeros.test after

/-- How the `ref` of a branch begins. -/
def headsPrefix : String := "refs/heads/"

/-- `ref.slice("refs/heads/".length)`, of a branch. -/
def branchOfRef (ref : String) : Option String :=
  if headsPrefix.toList.isPrefixOf ref.toList then
    some (String.ofList (ref.toList.drop headsPrefix.length))
  else none

/-- The fields of a pull request, in the three families of shape. -/
def parsePullRequest (root : Json) : ParsedGitDelivery :=
  let pr := root.field "pull_request"
  let mr := root.field "object_attributes"
  let bb := root.field "pullrequest"
  let number := [fieldOf pr "number", fieldOf mr "iid", fieldOf bb "id"].findSome? numberAt
  { branch := (stringAt (fieldOf (fieldOf pr "head") "ref")).or
      ((stringAt (fieldOf mr "source_branch")).or
        (stringAt (fieldOf (fieldOf (fieldOf bb "source") "branch") "name")))
    commit := (stringAt (fieldOf (fieldOf pr "head") "sha")).or
      ((stringAt (fieldOf (fieldOf mr "last_commit") "id")).or
        (stringAt (fieldOf (fieldOf (fieldOf bb "source") "commit") "hash")))
    pullRequest := (number.filter (0 < ·)).map Int.toNat
    event := "pull_request"
    isPullRequest := true }

/-- The fields of a push: `ref` and `after`, or the first change and no commit. -/
def parsePush (root : Json) (event : String) : ParsedGitDelivery where
  branch := ((stringAt (root.field "ref")).bind branchOfRef).or
    (stringAt (fieldOf (fieldOf (firstOf (fieldOf (root.field "push") "changes")) "new") "name"))
  commit := (stringAt (root.field "after")).filter isCommit
  pullRequest := none
  event := if event = "unknown" then "push" else event
  isPullRequest := false

/-- `parseGitDelivery` -/
def parseGitDelivery (eventHeader : Option String) (body : Option Json) : ParsedGitDelivery :=
  match body with
  | some (.object fields) =>
    let root := Json.object fields
    let objectKind := stringAt (root.field "object_kind")
    let event := lowerCase ((eventHeader.or objectKind).getD "unknown")
    if includes event "pull_request" || includes event "pullrequest" ||
        objectKind == some "merge_request" || (root.field "pull_request").isSome ||
        (root.field "pullrequest").isSome then
      parsePullRequest root
    else parsePush root event
  | _ => ⟨none, none, none, "unknown", false⟩

/-! ## Links -/

/-- `GIT_PROVIDERS` -/
inductive GitProvider where
  | github | gitlab | bitbucket | generic
deriving DecidableEq, Repr

/-- `cloneUrlFor` -/
def cloneUrlFor (provider : GitProvider) (repository : String) : Option String :=
  match provider with
  | .github => some s!"https://github.com/{repository}.git"
  | .gitlab => some s!"https://gitlab.com/{repository}.git"
  | .bitbucket => some s!"https://bitbucket.org/{repository}.git"
  | .generic => none

/-- `ProjectGitLink`, as far as a delivery reads it. -/
structure ProjectGitLink where
  id : String
  organizationId : OrganizationId
  projectId : ProjectId
  provider : GitProvider
  repository : String
  productionBranch : String
  previewsEnabled : Bool
  createdBy : UserId

/-! ## Deploying what a delivery asks for -/

namespace ControlPlaneStore

def getProjectForService (org : OrganizationId) (project : ProjectId) :
    PlaneProg (Option ProjectRow) :=
  must "getProjectForService" (.selectProject org project)

def findDeploymentByIdempotencyKeyForService (org : OrganizationId) (key : String) :
    PlaneProg (Option DeploymentRow) :=
  must "findDeploymentByIdempotencyKeyForService" (.selectDeploymentByKeyForService org key)

def listEnvironmentsForService (org : OrganizationId) (project : ProjectId) :
    PlaneProg (List (EnvironmentId × EnvironmentKind)) :=
  must "listEnvironmentsForService" (.selectEnvironmentsForService org project)

end ControlPlaneStore

/-- `environmentIdForHook` -/
def environmentIdForHook (org : OrganizationId) (project : ProjectId) (kind : DeploymentKind) :
    PlaneProg (Option EnvironmentId) :=
  (listEnvironmentsForService org project).bind fun environments =>
  let wanted : EnvironmentKind := match kind with
    | .production => .production
    | .preview => .preview
  .ret ((environments.find? fun e => e.2 == wanted).map (·.1))

/-- `GitHookOutcome` -/
structure GitHookOutcome where
  status : Nat
  ok : Bool
  reason : Option String
deriving DecidableEq, Repr

/-- A delivery that is taken note of and builds nothing. -/
def noted (reason : String) : GitHookOutcome := ⟨202, true, some reason⟩

/-- A pull request, or a push to any branch but the production branch, is a preview. -/
def ParsedGitDelivery.kind (delivery : ParsedGitDelivery) (link : ProjectGitLink) :
    DeploymentKind :=
  if delivery.pullRequest.isSome ∨ delivery.branch ≠ some link.productionBranch then .preview
  else .production

/-- The key a delivery is replayed by. -/
def ParsedGitDelivery.idempotencyKey (delivery : ParsedGitDelivery) (link : ProjectGitLink) :
    String :=
  let target := match delivery.pullRequest with
    | some n => s!"pr-{n}"
    | none =>
      let branch := delivery.branch.getD "null"
      s!"branch-{branch}"
  let commit := delivery.commit.getD "latest"
  s!"webhook:{link.id}:{target}:{commit}"

/-- Only a preview has one. -/
def ParsedGitDelivery.previewKey (delivery : ParsedGitDelivery) (link : ProjectGitLink) :
    Option String :=
  match delivery.kind link with
  | .production => none
  | .preview => some (previewKeyFor delivery.pullRequest delivery.branch delivery.commit)

/-- The row a delivery asks for. -/
def hookRow (link : ProjectGitLink) (delivery : ParsedGitDelivery) (project : ProjectRow)
    (gitRepository : String) (environmentId : Option EnvironmentId) : DeploymentCreateInput where
  organizationId := link.organizationId
  projectId := link.projectId
  idempotencyKey := delivery.idempotencyKey link
  requestedBy := link.createdBy
  status := .pending
  provider := "coolify"
  providerResourceId := none
  url := none
  failureReason := none
  kind := delivery.kind link
  environmentId := environmentId
  staged := false
  gitBranch := delivery.branch
  gitCommit := delivery.commit
  pullRequest := delivery.pullRequest
  previewKey := delivery.previewKey link
  gitRepository := some gitRepository
  buildPack := none
  rootDirectory := project.rootDirectory

/-- The job of that row. -/
def hookJob (link : ProjectGitLink) (delivery : ParsedGitDelivery) (project : ProjectRow)
    (gitRepository : String) (environmentId : Option EnvironmentId) (row : DeploymentId) :
    DeploymentJobPayload where
  deploymentId := row
  organizationId := link.organizationId
  projectId := link.projectId
  action := .create
  projectSlug := project.slug
  gitRepository := some gitRepository
  gitBranch := delivery.branch
  buildPack := none
  rootDirectory := project.rootDirectory
  commit := delivery.commit
  kind := delivery.kind link
  staged := false
  environmentId := environmentId
  previewKey := delivery.previewKey link

/-- A preview's target is recorded before the worker runs. -/
def recordHookPreview (link : ProjectGitLink) (delivery : ParsedGitDelivery) : PlaneProg Unit :=
  match delivery.previewKey link with
  | none => .ret ()
  | some key => ensurePreviewTarget link.organizationId link.projectId key delivery.branch
      delivery.pullRequest

/-- The event a delivery's deployment is recorded under. -/
def triggered : DeploymentKind → String
  | .preview => "deployment.preview.triggered"
  | .production => "deployment.triggered"

/-- `deployFromDelivery`, once the delivery is known to be new and to have a source. -/
def deployNew (link : ProjectGitLink) (delivery : ParsedGitDelivery) (project : ProjectRow)
    (gitRepository : String) : PlaneProg GitHookOutcome :=
  (environmentIdForHook link.organizationId link.projectId (delivery.kind link)).bind
    fun environmentId =>
  (createDeployment (hookRow link delivery project gitRepository environmentId)).bind fun row =>
  (recordHookPreview link delivery).bind fun _ =>
  (onQueue (SqlJobQueue.enqueue
    ⟨link.organizationId, deploymentJobKind,
      hookJob link delivery project gitRepository environmentId row.id,
      delivery.idempotencyKey link, none⟩)).bind fun _ =>
  (recordAuditEvent
    ⟨link.organizationId, none, triggered (delivery.kind link), row.id⟩).bind fun _ =>
  .ret ⟨202, true, none⟩

/-- `deployFromDelivery` -/
def deployFromDelivery (link : ProjectGitLink) (delivery : ParsedGitDelivery) :
    PlaneProg GitHookOutcome :=
  (getProjectForService link.organizationId link.projectId).bind fun
  | none => .ret (noted "project_not_found")
  | some project =>
    (must "getBudgetForService" (.hardCapRefusal link.organizationId "deployments")).bind
      fun (refusal : Option String) =>
    match refusal with
    | some _ =>
      (recordAuditEvent
        ⟨link.organizationId, none, "deployment.cap_refused", link.projectId⟩).bind fun _ =>
      .ret (noted "budget_exceeded")
    | none =>
      if delivery.branch = none ∧ delivery.pullRequest = none then
        .ret (noted "not_a_deployable_event")
      else if delivery.kind link = .preview ∧ link.previewsEnabled = false then
        .ret (noted "previews_disabled")
      else
        (findDeploymentByIdempotencyKeyForService link.organizationId
          (delivery.idempotencyKey link)).bind fun
        | some _ => .ret ⟨200, true, some "replayed"⟩
        | none =>
          match cloneUrlFor link.provider link.repository with
          | none => .ret (noted "repository_url_unknown")
          | some gitRepository => deployNew link delivery project gitRepository

end CloudWai.Deployment
