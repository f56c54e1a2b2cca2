import CloudWai.Grammar
import CloudWai.Deployment.Accord
import CloudWai.Deployment.Direct

/-!
# The first serverless deployment

Both deploy paths create the application before they build: that is the order the
container engine wants, which builds for itself. The Lambda adapter creates a
function only from a built artifact, and the port passes it none, because there is
none yet. So a serverless project without an application never gets to the build, let
alone to the deploy (`no_first_deploy`), however willing the builder and AWS are.

Mirrors `packages/adapters/src/serverless.ts` down to its requests. Their signature is
left out; `Signing` has it.
-/

namespace CloudWai.Deployment

open Base Queue ControlPlaneStore

/-! ## The Lambda adapter -/

/-- The credentials of an organization for the serverless engine. -/
structure LambdaCredentials where
  accessKeyId : String
  secretAccessKey : String
  region : String
  executionRoleArn : Option String
deriving DecidableEq

/-- What is sent to AWS, signed. -/
inductive LambdaRequest where
  | createFunction (region name packageType : String) (runtime handler : Option String)
      (role : String) (memory timeout : Option Nat)
      (environment : Option (List (String × String))) (code : ServerlessArtifact)
  | updateFunctionCode (region name : String) (code : ServerlessArtifact) (publish : Bool)
deriving DecidableEq

/-- `LambdaAdapterOptions`, and what AWS answers. -/
structure LambdaAdapter where
  credentials : OrganizationId → Option LambdaCredentials
  aws : LambdaRequest → AdapterResult Unit

/-- `CreateFunctionInput` -/
structure CreateFunctionInput where
  name : String
  artifact : Option ServerlessArtifact := none
  roleArn : Option String := none
  runtime : Option String := none
  handler : Option String := none
  memoryMb : Option Nat := none
  timeoutSeconds : Option Nat := none
  environment : Option (List (String × String)) := none

/-- The reason a deploy without an artifact is refused with. -/
def artifactNeeded : String :=
  "A serverless deploy needs a built artifact (an S3 object or a container image); " ++
    "Lambda does not build from a git repository."

/-- `validateArtifact`: the artifact, or what is wrong with it. -/
def validateArtifact : Option ServerlessArtifact → Except String ServerlessArtifact
  | none => .error artifactNeeded
  | some (.s3 bucket key) =>
    if Grammar.trim bucket = "" ∨ Grammar.trim key = "" then
      .error "An S3 artifact needs both a bucket and a key."
    else .ok (.s3 bucket key)
  | some (.image uri) =>
    if Grammar.ecrImage.test uri then .ok (.image uri)
    else .error "An image artifact must be an ECR image URI."

namespace LambdaAdapter

/-- `credentialsFor` -/
def credentialsFor (lambda : LambdaAdapter) (org : OrganizationId) : Option LambdaCredentials :=
  (lambda.credentials org).filter fun c =>
    c.accessKeyId != "" && c.secretAccessKey != "" && c.region != ""

/-- The refusal without credentials. -/
def notConfigured {α : Type} (org : OrganizationId) : AdapterResult α :=
  .err .notConfigured (s!"Serverless execution is not configured for organization {org}. " ++
    "Provision AWS access keys (and a region) for this organization.")

/-- `opRef` -/
def opRef (ctx : AdapterContext) (name : String) : ProviderRef :=
  ⟨ctx.organizationId, "lambda", .function, name⟩

/-- The package an artifact is deployed as. -/
def packageType : ServerlessArtifact → String
  | .image _ => "Image"
  | .s3 .. => "Zip"

/-- `createFunction` -/
def createFunction (lambda : LambdaAdapter) (ctx : AdapterContext) (input : CreateFunctionInput) :
    AdapterResult ProviderRef :=
  match lambda.credentialsFor ctx.organizationId with
  | none => notConfigured ctx.organizationId
  | some creds =>
    match validateArtifact input.artifact with
    | .error reason => .err .failed reason
    | .ok code =>
      match given (input.roleArn.or creds.executionRoleArn) with
      | none => .err .notConfigured ("Creating a serverless function needs an IAM execution role " ++
          "ARN, and this organization's AWS credentials do not name one.")
      | some role =>
        let zip := packageType code == "Zip"
        (lambda.aws (.createFunction creds.region input.name (packageType code)
          (if zip then input.runtime else none) (if zip then input.handler else none) role
          (input.memoryMb.filter (0 < ·)) (input.timeoutSeconds.filter (0 < ·)) input.environment
          code)).report .succeeded fun _ => opRef ctx input.name

/-- `deploy`, as the port calls it. -/
def deploy (lambda : LambdaAdapter) (ctx : AdapterContext) (functionRef : ProviderRef)
    (artifact : Option ServerlessArtifact) : AdapterResult ProviderRef :=
  match lambda.credentialsFor ctx.organizationId with
  | none => notConfigured ctx.organizationId
  | some creds =>
    match validateArtifact artifact with
    | .error reason => .err .failed reason
    | .ok code =>
      (lambda.aws (.updateFunctionCode creds.region functionRef.resourceId code true)).report
        .succeeded fun _ => opRef ctx functionRef.resourceId

/-- The organization has credentials and an execution role. -/
def Configured (lambda : LambdaAdapter) (org : OrganizationId) : Prop :=
  ∃ creds, lambda.credentialsFor org = some creds ∧ (given creds.executionRoleArn).isSome

/-- What the engines answer: the adapter for the serverless one, the others as they like. -/
def answer (lambda : LambdaAdapter) (free : (c : EngineCall) → Except String c.Ans) :
    (c : EngineCall) → Except String c.Ans
  | .createFunction ctx name => .ok (lambda.createFunction ctx { name := name })
  | .publish ctx ref artifact => .ok (lambda.deploy ctx ref artifact)
  | c => free c

theorem createFunction_bare {lambda : LambdaAdapter} {ctx : AdapterContext}
    (h : lambda.Configured ctx.organizationId) (name : String) :
    lambda.createFunction ctx { name := name } = .err .failed artifactNeeded := by
  obtain ⟨creds, hcreds, -⟩ := h
  unfold createFunction
  rw [hcreds]
  rfl

end LambdaAdapter

/-! ## Runs, recorded -/

section Recorded

variable (lambda : LambdaAdapter) (envVars : Bool) (o : Oracle)

/-- A plane and the calls made on it, newest first. -/
abbrev Recorded := World × List Call

/-- Everything is answered, the serverless engine by the adapter, and kept. -/
def record (x : Recorded) (c : Call) : Except String c.Ans × Recorded :=
  let a := x.1.calm ⟨none, envVars⟩ { o with engine := lambda.answer o.engine } c
  (a.1, a.2, c :: x.2)

/-- `engine.deploy` with a built artifact. -/
def Publishes : Call → Prop
  | .engine _ (.publish _ _ (some _)) => True
  | _ => False

instance (c : Call) : Decidable (Publishes c) := by
  unfold Publishes
  split <;> infer_instance

/-- The run gets to a deploy of a built artifact. -/
def Reaches {α : Type} (p : PlaneProg α) (w : World) : Prop :=
  ∃ c ∈ (p.eval (record lambda envVars o) (w, [])).2.2, Publishes c

/-- A serverless project without an application. -/
def FirstDeploy (w : World) (org : OrganizationId) (project : ProjectId) : Prop :=
  ∃ p, w.store.projects.find project = some p ∧ p.organizationId = org ∧
    p.executionModel = .serverless ∧ given p.providerResourceId = none

/-- Nothing has been deployed, and the projects are what they were. -/
structure Undeployed (w : World) (x : Recorded) : Prop where
  log : ∀ c ∈ x.2, ¬ Publishes c
  projects : x.1.store.projects = w.store.projects

variable {lambda envVars o} {w : World} {α β : Type}

theorem undeployed_start : Undeployed w (w, []) := ⟨fun _ h => absurd h List.not_mem_nil, rfl⟩

/-- Requests that read, or write deployments and preview targets. -/
def Preparing : Call → Prop
  | .store (.patchProjectProvider _ _ _ _) => False
  | .store (.promote _ _ _) => False
  | .store _ => True
  | .queue _ => True
  | .engine _ (.getDeployment _ _ _) => True
  | .engine _ _ => False

/-- A call that prepares a deploy is none. -/
theorem undeployed_record {x : Recorded} {c : Call} (h : Undeployed w x) (hc : Preparing c) :
    Undeployed w (record lambda envVars o x c).2 := by
  obtain ⟨hlog, hprojects⟩ := h
  refine ⟨fun c' hc' => ?_, ?_⟩
  · rcases List.mem_cons.mp hc' with rfl | hold
    · cases c' with
      | queue c => exact fun h => h
      | store c => exact fun h => h
      | engine row c => cases c <;> first | exact hc.elim | exact fun h => h
    · exact hlog c' hold
  · rw [← hprojects]
    show (World.perform ⟨none, envVars⟩ x.1 _ c).2.store.projects = x.1.store.projects
    cases c with
    | queue c => rw [perform_queue_store]
    | engine row c => rfl
    | store c =>
      rw [perform_store]
      split
      · cases c with
        | patchProjectProvider org project provider resource => exact hc.elim
        | promote org project id => exact hc.elim
        | insertPreviewTarget org project key branch pullRequest =>
          simp only [StoreCall.run]
          split <;> rfl
        | insertDeployment input =>
          simp only [StoreCall.run]
          split <;> rfl
        | _ => rfl
      · rfl

theorem ends_preparing {p : PlaneProg α} {x : Recorded} (hp : p.Only Preparing)
    (h : Undeployed w x) :
    p.Ends (record lambda envVars o) (fun _ x' => Undeployed w x') x :=
  Prog.ends_of_only hp (fun _ _ h hc => undeployed_record h hc) h

/-- A request that the database answers without a change. -/
theorem ends_read {op : String} {c : StoreCall} {a : c.Ans} {f : c.Ans → PlaneProg β}
    {Q : Except String β → Recorded → Prop} {x : Recorded}
    (hrun : c.run x.1.now o.away x.1.store = (.ok a, x.1.store)) (h : Undeployed w x)
    (hf : ∀ x', Undeployed w x' → x'.1 = x.1 → (f a).Ends (record lambda envVars o) Q x') :
    ((must op c).bind f).Ends (record lambda envVars o) Q x := by
  have hanswer : record lambda envVars o x (.store c) = (.ok a, x.1, .store c :: x.2) := by
    show ((c.run x.1.now o.away x.1.store).1,
      { x.1 with store := (c.run x.1.now o.away x.1.store).2 }, _) = _
    rw [hrun]
    rfl
  refine Prog.ends_await ?_
  rw [hanswer]
  refine hf _ ⟨fun c' hc' => ?_, h.projects⟩ rfl
  rcases List.mem_cons.mp hc' with rfl | hold
  · exact fun h => h
  · exact h.log c' hold

/-- Creating the function fails, for want of an artifact. -/
theorem ends_ensureTarget {row : DeploymentId} {ctx : AdapterContext} {input : TargetInput}
    {f : AdapterResult ProviderRef → PlaneProg β} {Q : Except String β → Recorded → Prop}
    {x : Recorded} (hlambda : lambda.Configured ctx.organizationId) (h : Undeployed w x)
    (hf : ∀ x', Undeployed w x' →
      (f (.err .failed artifactNeeded)).Ends (record lambda envVars o) Q x') :
    (((deploymentEngineFor ⟨none, envVars⟩ row .serverless).ensureTarget ctx input).bind f).Ends
      (record lambda envVars o) Q x := by
  have hanswer : record lambda envVars o x (.engine row (.createFunction ctx input.name)) =
      (.ok (.err .failed artifactNeeded), x.1,
        .engine row (.createFunction ctx input.name) :: x.2) := by
    show ((.ok (lambda.createFunction ctx { name := input.name }) : Except String _), _) = _
    rw [LambdaAdapter.createFunction_bare hlambda]
    rfl
  refine Prog.ends_await ?_
  rw [hanswer]
  refine hf _ ⟨fun c' hc' => ?_, h.projects⟩
  rcases List.mem_cons.mp hc' with rfl | hold
  · exact fun h => h
  · exact h.log c' hold

/-! ## The worker's path -/

/-- The run ends before the build. -/
theorem ends_executeDeployment {input : ExecuteDeploymentInput}
    (hlambda : lambda.Configured input.organizationId) (hkind : input.kind = .production)
    (haction : input.action = .create)
    (hfirst : FirstDeploy w input.organizationId input.projectId) :
    (executeDeployment ⟨none, envVars⟩ input).Ends (record lambda envVars o)
      (fun r x => Undeployed w x ∧
        (inFlightHandle (w.store.deployment input.organizationId input.deploymentId) = none →
          r = .ok (.refused .failed none artifactNeeded))) (w, []) := by
  obtain ⟨p, hp, horg, hmodel, hresource⟩ := hfirst
  have hproject : w.store.project input.organizationId input.projectId = some p :=
    Option.filter_eq_some_iff.mpr ⟨hp, by simpa using horg⟩
  have hpreview : input.preview = none := by
    unfold ExecuteDeploymentInput.preview
    rw [hkind]
  have happ : applicationRef input.organizationId p.provider p.providerResourceId = none := by
    unfold applicationRef
    rw [hresource]
    rfl
  unfold executeDeployment getProjectDeploymentTargetForService
  refine ends_read (c := .selectTarget _ _) (a := some p.target)
    (congrArg (fun q => (Except.ok (Option.map ProjectRow.target q), w.store)) hproject)
    undeployed_start fun x hx hsame => ?_
  unfold resolveApplication
  rw [hpreview]
  simp only [Prog.bind, Option.map_some, Option.getD_some, Option.bind_some, ProjectRow.target,
    hmodel, happ]
  refine Prog.ends_bind (Q := fun r x => Undeployed w x ∧
    (inFlightHandle (w.store.deployment input.organizationId input.deploymentId) = none →
      r = .ok none)) ?_ ?_ ?_
  · unfold resumeRunningDeployment getDeploymentForService
    refine ends_read (c := .selectDeployment _ _) rfl hx fun x' hx' _ => ?_
    rw [hsame]
    cases hin : inFlightHandle (w.store.deployment input.organizationId input.deploymentId) with
    | none => exact ⟨hx', fun _ => rfl⟩
    | some running =>
      -- the run it has is asked how it does, and that is all
      refine Prog.ends_mono (fun r _ h => ⟨h, fun h' => by cases h'⟩) (ends_preparing ?_ hx')
      refine ⟨trivial, fun answer => ?_⟩
      cases answer with
      | error e => trivial
      | ok result => cases result <;> trivial
  · intro resumed x' h
    obtain ⟨hx', hr⟩ := h
    cases resumed with
    | none =>
      dsimp only
      rw [haction]
      unfold create ensureApplication
      refine Prog.ends_bind (Q := fun r x => Undeployed w x ∧
        r = .ok (.error (.refused .failed none artifactNeeded))) ?_ ?_ ?_
      · exact ends_ensureTarget hlambda hx' fun x'' hx'' => ⟨hx'', rfl⟩
      · intro r x'' h
        obtain rfl := Except.ok.inj h.2
        exact ⟨h.1, fun _ => rfl⟩
      · intro e x'' h
        cases h.2
    | some resumed => exact ⟨hx', fun hnew => by cases hr hnew⟩
  · intro e x' h
    exact ⟨h.1, fun hnew => by cases h.2 hnew⟩

/-! ## The API's path -/

/-- The guard finds the project, and deploys nothing. -/
theorem ends_authorizedProject {ctx : RequestContext} {project : ProjectId} {c : Capability}
    {x : Recorded} (h : Undeployed w x) :
    (authorizedProject ctx project c).Ends (record lambda envVars o)
      (fun r x' => Undeployed w x' ∧ ∀ p, r = .ok p → w.store.projects.find project = some p) x := by
  unfold authorizedProject getProject
  refine ends_read (c := .selectProjectOfMember _ _) rfl h fun x' hx' _ => ?_
  cases hseen : x.1.store.seenBy ctx.userId (·.organizationId) (x.1.store.projects.find project) with
  | none => exact ⟨hx', nofun⟩
  | some p =>
    have hfind : w.store.projects.find project = some p := by
      rw [← h.projects]
      exact (Option.filter_eq_some_iff.mp hseen).1
    dsimp only
    unfold requireCapability
    split
    · refine ⟨hx', ?_⟩
      rintro _ hr
      obtain rfl := Except.ok.inj hr
      exact hfind
    · exact ⟨hx', nofun⟩

/-- What the engines are asked for, and what it comes to. -/
theorem ends_requestEngine {ctx : RequestContext} {project : ProjectRow} {input : RequestInput}
    {rootDirectory : Option String} {row : DeploymentRow} {x : Recorded}
    (hlambda : lambda.Configured project.organizationId) (hkind : input.kind = .production)
    (hfind : w.store.projects.find project.id = some project)
    (hmodel : project.executionModel = .serverless)
    (hresource : given project.providerResourceId = none) (h : Undeployed w x) :
    (requestEngine ⟨none, envVars⟩ ctx project input rootDirectory row).Ends
      (record lambda envVars o)
      (fun r x' => Undeployed w x' ∧
        r = .ok ⟨.failed, none, some artifactNeeded, none, none, none⟩) x := by
  have hpreview : input.previewKey = none := by
    unfold RequestInput.previewKey
    rw [hkind]
  have happ : applicationRef project.organizationId project.provider project.providerResourceId =
      none := by
    unfold applicationRef
    rw [hresource]
    rfl
  unfold requestEngine
  refine Prog.ends_bind (Q := fun r x => Undeployed w x ∧ r = .ok (.serverless, none)) ?_ ?_ ?_
  · unfold directTarget
    rw [hpreview]
    refine ends_read (c := .selectTargetOfMember _ _) rfl h fun x' hx' _ => ?_
    refine ⟨hx', ?_⟩
    rw [h.projects, hfind]
    -- seen or not, the project is serverless and has no application
    unfold Store.seenBy
    cases hmember : x.1.store.members project.organizationId ctx.userId with
    | false => simp [Option.filter, hmember, hmodel]
    | true => simp [Option.filter, hmember, hmodel, ProjectRow.target, happ]
  · rintro _ x' ⟨hx', hr⟩
    obtain rfl := Except.ok.inj hr
    dsimp only
    refine Prog.ends_bind (Q := fun r x => Undeployed w x ∧
      r = .ok (.error ⟨.failed, none, some artifactNeeded, none, none, none⟩)) ?_ ?_ ?_
    · unfold ensureDirect
      exact ends_ensureTarget hlambda hx' fun x'' hx'' => ⟨hx'', rfl⟩
    · rintro _ x'' ⟨hx'', hr⟩
      obtain rfl := Except.ok.inj hr
      exact ⟨hx'', rfl⟩
    · rintro _ _ ⟨-, hr⟩
      cases hr
  · rintro _ _ ⟨-, hr⟩
    cases hr

/-- A request that is refused, or replayed, or fails for want of an artifact. -/
def Fruitless (r : Except String DeploymentRequestResult) : Prop :=
  ∀ result, r = .ok result → result.replayed = true ∨ result.engineReason = some artifactNeeded

theorem fruitless_error {e : String} : Fruitless (.error e) := by
  intro result h
  cases h

/-- The row is written as failed, for want of an artifact. -/
theorem ends_concludeRequest {ctx : RequestContext} {project : ProjectRow} {input : RequestInput}
    {row : DeploymentRow} {result : DirectResult} {x : Recorded} (hstatus : result.status = .failed)
    (hreason : result.engineReason = some artifactNeeded) (h : Undeployed w x) :
    (concludeRequest ctx project input row result).Ends (record lambda envVars o)
      (fun r x' => Undeployed w x' ∧ Fruitless r) x := by
  unfold concludeRequest
  refine Prog.ends_bind (Q := fun _ x => Undeployed w x) ?_ ?_ ?_
  · refine ends_preparing ?_ h
    unfold persistTransition clock updateDeploymentStatus
    exact Prog.only_bind (only_clock trivial) fun _ =>
      Prog.only_bind (only_must trivial) fun _ => trivial
  · intro deployment x' hx'
    rw [if_neg (by rw [hstatus]; exact fun h => nomatch h.1)]
    dsimp only [Prog.bind]
    refine Prog.ends_bind (Q := fun _ x => Undeployed w x) ?_ ?_ ?_
    · exact ends_preparing (only_must trivial) hx'
    · rintro _ x'' hx''
      refine ⟨hx'', ?_⟩
      rintro _ hr
      obtain rfl := Except.ok.inj hr
      exact .inr hreason
    · exact fun _ _ h => ⟨h, fruitless_error⟩
  · exact fun _ _ h => ⟨h, fruitless_error⟩

/-- Nothing of the request but its last part goes to the engines. -/
theorem ends_requestDirectly {ctx : RequestContext} {input : RequestInput}
    {org : OrganizationId} (hlambda : lambda.Configured org) (hkind : input.kind = .production)
    (hfirst : FirstDeploy w org input.projectId) :
    (requestDirectly ⟨none, envVars⟩ ctx input).Ends (record lambda envVars o)
      (fun r x => Undeployed w x ∧ Fruitless r) (w, []) := by
  obtain ⟨p, hp, rfl, hmodel, hresource⟩ := hfirst
  have hpreview : input.previewKey = none := by
    unfold RequestInput.previewKey
    rw [hkind]
  have hid : p.id = input.projectId := (Table.find_eq_some.mp hp).2
  have hread : ∀ {op : String} {c : StoreCall}, Preparing (.store c) →
      (must op c).Only Preparing := fun h => only_must h
  unfold requestDirectly
  refine Prog.ends_bind (ends_authorizedProject undeployed_start) ?_ ?_
  · rintro project x ⟨hx, hfound⟩
    obtain rfl : project = p := Option.some.inj ((hfound project rfl).symm.trans hp)
    dsimp only
    rw [if_neg (by rw [hkind]; exact fun h => nomatch h.2)]
    refine Prog.ends_bind (Q := fun r x => Undeployed w x ∧
      ∀ result, r = .ok (some result) → result.replayed = true) ?_ ?_ ?_
    · unfold replayOf
      refine ends_read (c := .selectDeploymentByKey _ _ _) rfl hx fun x' hx' _ => ?_
      split
      · exact ⟨hx', fun _ hr => by cases hr⟩
      · split
        · refine ⟨hx', ?_⟩
          rintro _ hr
          obtain rfl := Option.some.inj (Except.ok.inj hr)
          rfl
        · exact ⟨hx', fun _ hr => by cases hr⟩
    · rintro (_ | result) x' ⟨hx', hreplayed⟩
      · refine Prog.ends_bind (Q := fun _ x => Undeployed w x) ?_ ?_ ?_
        · refine ends_preparing ?_ hx'
          unfold assertWithinBudget
          exact Prog.only_bind (hread trivial) fun refusal => by cases refusal <;> exact trivial
        · rintro _ x₁ hx₁
          refine Prog.ends_bind (Q := fun _ x => Undeployed w x) ?_ ?_ ?_
          · exact ends_preparing (Prog.only_bind (hread trivial) fun _ => trivial) hx₁
          · rintro environmentId x₂ hx₂
            refine Prog.ends_bind (Q := fun _ x => Undeployed w x) ?_ ?_ ?_
            · exact ends_preparing (hread trivial) hx₂
            · rintro row x₃ hx₃
              unfold recordPreviewTarget
              rw [hpreview]
              dsimp only [Prog.bind]
              refine Prog.ends_bind (ends_requestEngine hlambda hkind (hid ▸ hp) hmodel hresource
                hx₃) ?_ ?_
              · rintro _ x₄ ⟨hx₄, hr⟩
                obtain rfl := Except.ok.inj hr
                exact ends_concludeRequest rfl rfl hx₄
              · exact fun _ _ h => ⟨h.1, fruitless_error⟩
            · exact fun _ _ h => ⟨h, fruitless_error⟩
          · exact fun _ _ h => ⟨h, fruitless_error⟩
        · exact fun _ _ h => ⟨h, fruitless_error⟩
      · refine ⟨hx', ?_⟩
        rintro _ hr
        obtain rfl := Except.ok.inj hr
        exact .inl (hreplayed result rfl)
    · exact fun _ _ h => ⟨h.1, fruitless_error⟩
  · exact fun _ _ h => ⟨h.1, fruitless_error⟩

end Recorded

/-! ## No first deployment -/

/-- What a first deployment comes to: neither path gets to the deploy, and both give
the missing artifact as the reason. -/
structure Stillborn (lambda : LambdaAdapter) (envVars : Bool) (o : Oracle) (w : World)
    (org : OrganizationId) (project : ProjectId) : Prop where
  durable : ∀ input : ExecuteDeploymentInput, input.organizationId = org →
    input.projectId = project → input.kind = .production → input.action = .create →
    ¬ Reaches lambda envVars o (executeDeployment ⟨none, envVars⟩ input) w ∧
      (inFlightHandle (w.store.deployment org input.deploymentId) = none →
        ((executeDeployment ⟨none, envVars⟩ input).eval (record lambda envVars o) (w, [])).1 =
          .ok (.refused .failed none artifactNeeded))
  direct : ∀ (ctx : RequestContext) (input : RequestInput), input.projectId = project →
    input.kind = .production →
    ¬ Reaches lambda envVars o (requestDirectly ⟨none, envVars⟩ ctx input) w ∧
      Fruitless ((requestDirectly ⟨none, envVars⟩ ctx input).eval (record lambda envVars o)
        (w, [])).1

/-- **No first serverless deployment gets to the deploy**, whatever the adapter's
credentials, AWS and the builder answer. -/
theorem no_first_deploy (lambda : LambdaAdapter) (envVars : Bool) (o : Oracle) (w : World)
    (org : OrganizationId) (project : ProjectId) (hlambda : lambda.Configured org)
    (hfirst : FirstDeploy w org project) : Stillborn lambda envVars o w org project where
  durable input horg hproject hkind haction := by
    subst horg hproject
    have h := (@ends_executeDeployment _ envVars o) hlambda hkind haction hfirst
    exact ⟨fun ⟨c, hc, hpub⟩ => h.1.log c hc hpub, h.2⟩
  direct ctx input hproject hkind := by
    subst hproject
    have h := (@ends_requestDirectly _ envVars o _ ctx) hlambda hkind hfirst
    exact ⟨fun ⟨c, hc, hpub⟩ => h.1.log c hc hpub, h.2⟩

/-- A database with one serverless project in it. -/
def oneFunction : ProjectsTable :=
  Table.empty.insertNew
    ⟨fun id =>
      { id := id
        organizationId := 1
        slug := "api"
        executionModel := .serverless
        rootDirectory := none
        provider := none
        providerResourceId := none
        productionDeploymentId := none }, fun _ => rfl⟩

/-- Keys and a role for everybody, and an AWS that takes whatever it is sent. -/
def willing : LambdaAdapter :=
  ⟨fun _ => some ⟨"AKIA", "secret", "eu-central-1", some "arn:aws:iam::1:role/run"⟩,
    fun _ => .ok .succeeded ()⟩

/-- A builder that takes every build and has its artifact at once. -/
def zipped : (c : EngineCall) → Except String c.Ans
  | .build ctx _ => .ok (.ok .running ⟨ctx.organizationId, "builder", .build, "build"⟩)
  | .getArtifact _ _ => .ok (.ok .succeeded ⟨none, some "artifacts", [("api", "api.zip")]⟩)
  | c => building.answer c

theorem no_first_deploy_willing :
    Stillborn willing false { building.oracle with engine := zipped }
      (World.initial 0 oneFunction fun _ _ => true) 1 0 :=
  no_first_deploy willing false _ _ 1 0 ⟨_, rfl, rfl⟩ ⟨_, rfl, rfl, rfl, rfl⟩

/-- The worker's input for it. -/
def firstInput : ExecuteDeploymentInput where
  organizationId := 1
  projectId := 0
  projectSlug := "api"
  deploymentId := 0
  idempotencyKey := "key"
  action := .create
  gitRepository := some "https://example.com/api.git"
  gitBranch := some "main"
  buildPack := none
  rootDirectory := none
  commit := none
  timeoutMs := 1000
  kind := .production
  previewKey := none
  environmentId := none

instance {α : Type} (lambda : LambdaAdapter) (envVars : Bool) (o : Oracle) (p : PlaneProg α)
    (w : World) : Decidable (Reaches lambda envVars o p w) := by
  unfold Reaches
  infer_instance

/-- The function is not created, and nothing is built. -/
theorem first_deploy_unreached :
    willing.Configured 1 ∧
      ¬ Reaches willing false { building.oracle with engine := zipped }
        (executeDeployment ⟨none, false⟩ firstInput)
        (World.initial 0 oneFunction fun _ _ => true) ∧
      ¬ Reaches willing false { building.oracle with engine := zipped }
        (requestDirectly ⟨none, false⟩ owner production)
        (World.initial 0 oneFunction fun _ _ => true) :=
  ⟨⟨_, rfl, rfl⟩, by decide, by decide⟩

end CloudWai.Deployment
