import CloudWai.Runtime.Estate

/-!
# Environment variables

`setEnvVar` and `removeEnvVar` of the API, and the worker's `sync`, which pushes
what is stored onto an application before a build.

The API stores a variable for an environment and pushes it onto the project's
production application (`applicationRefFor` asks for nothing but the project).
It deletes by the handle that the engine gave for the last write. The worker
pushes the variables of one environment onto the application of its deploy, and
deletes nothing.

Mirrors `apps/api/src/procedures/env-vars.ts` and `apps/worker/src/env-sync.ts`. A
ciphertext is the plain text, with a flag for what cannot be read.
-/

namespace CloudWai.Runtime

open Base Grammar Deployment

/-! ## Inputs -/

/-- `ADAPTER_TIMEOUT_MS` -/
def envVarTimeoutMs : Nat := 30000

/-- `MAX_VALUE_BYTES` -/
def maxValueBytes : Nat := 65536

/-- `normaliseKey` -/
def normaliseKey (value : String) : Except Failure String :=
  let key := upperCase (trim value)
  if keyPattern.test key then .ok key
  else .error (.api "invalid_input" ("A variable name must start with a letter and contain only " ++
    "letters, digits and underscores (max 128)."))

/-- `checkValue` -/
def checkValue (value : String) : Except Failure String :=
  if maxValueBytes < value.utf8ByteSize then
    .error (.api "invalid_input" "A variable value may not exceed 64 KiB.")
  else .ok value

/-- `resolveEnvironment` -/
def resolveEnvironment (w : Estate) (project : ProjectRow) (id : Option EnvironmentId) :
    Except Failure ProjectEnvironment :=
  match w.listEnvironments project.id with
  | [] => .error (.api "engine_unavailable"
      "This project has no environments yet, so a variable cannot be scoped to one.")
  | first :: rest =>
    match id with
    | none => .ok (((first :: rest).find? (·.isDefault)).getD first)
    | some id =>
      match (first :: rest).find? (·.id == id) with
      | some found => .ok found
      | none => .error (.api "not_found" "That environment does not belong to this project.")

/-- The caller's project, and leave to change it. -/
def updatableProject (ctx : CloudWai.RequestContext) (project : ProjectId) (w : Estate) :
    Except Failure ProjectRow :=
  match w.getProject ctx.userId project with
  | none => .error (.api "not_found" "Project not found.")
  | some project => (CloudWai.requireCapability ctx project.organizationId .projectUpdate).bind
      fun _ => .ok project

/-- What a caller sets. -/
structure SetEnvVarInput where
  projectId : ProjectId
  key : String
  value : String
  isBuildTime : Option Bool
  environmentId : Option EnvironmentId

/-- What a caller removes. -/
structure RemoveEnvVarInput where
  projectId : ProjectId
  key : String
  environmentId : Option EnvironmentId

/-- The variable a request is about, once it is let through. -/
structure EnvVarTarget where
  project : ProjectRow
  key : String
  environment : ProjectEnvironment

def EnvVarTarget.index (t : EnvVarTarget) : EnvVarKey := ⟨t.project.id, t.environment.id, t.key⟩

/-- What `setEnvVar` checks before it stores anything. -/
def setTarget (setup : Setup) (ctx : CloudWai.RequestContext) (input : SetEnvVarInput)
    (w : Estate) : Except Failure EnvVarTarget :=
  (updatableProject ctx input.projectId w).bind fun project =>
  if !setup.cipher then .error (.api "engine_unavailable" ("Set CLOUD_WAI_SECRET_ENCRYPTION_KEY " ++
    "to store environment variables for this project."))
  else
    (normaliseKey input.key).bind fun key =>
    (checkValue input.value).bind fun _ =>
    (resolveEnvironment w project input.environmentId).bind fun environment =>
    .ok ⟨project, key, environment⟩

/-- What `removeEnvVar` checks first. -/
def removeTarget (ctx : CloudWai.RequestContext) (input : RemoveEnvVarInput) (w : Estate) :
    Except Failure EnvVarTarget :=
  (updatableProject ctx input.projectId w).bind fun project =>
  (normaliseKey input.key).bind fun key =>
  (resolveEnvironment w project input.environmentId).bind fun environment =>
  .ok ⟨project, key, environment⟩

/-- `applicationRefFor`: the project's production application. -/
def applicationRefFor (user : UserId) (project : ProjectRow) (w : Estate) : Option ProviderRef :=
  (w.target user project.id).bind fun target =>
    applicationRef project.organizationId target.provider target.providerResourceId

/-! ## `setEnvVar` -/

/-- What the caller is told of it. -/
structure SetEnvVarOutcome where
  /-- `applied === "engine"` -/
  applied : Bool
  redeployRequired : Bool
  engineReason : Option String
deriving DecidableEq

/-- The procedure: the row first, then the engine. -/
def setEnvVar (setup : Setup) (o : Outside) (ctx : CloudWai.RequestContext)
    (input : SetEnvVarInput) (w : Estate) : Result SetEnvVarOutcome :=
  match setTarget setup ctx input w with
  | .error failure => (.error failure, w)
  | .ok t =>
    let org := t.project.organizationId
    let isBuildTime := input.isBuildTime.getD true
    let w := w.saveEnvVar org t.index input.value isBuildTime
    match applicationRefFor ctx.userId t.project w with
    | none => (.ok ⟨false, isBuildTime, some ("This project has no application on the hosting " ++
        "engine yet, so the variable is stored but not yet applied.")⟩, w)
    | some ref =>
      let a := SelfHosted.createEnvVar setup o
        ⟨org, s!"env-{t.project.id}-{t.environment.id}-{t.key}", envVarTimeoutMs⟩ ref
        ⟨t.key, input.value, isBuildTime⟩ w.runtime
      let w := { w with runtime := a.2 }
      match a.1 with
      | .ok _ state => (.ok ⟨true, isBuildTime, none⟩, w.setEnvVarEngineRef org t.index state.engineRef ref)
      | .err _ reason => (.ok ⟨false, isBuildTime, some reason⟩, w)

/-! ## `removeEnvVar` -/

/-- What the caller is told of a removal. -/
structure RemoveEnvVarOutcome where
  removed : Bool
  engineReason : Option String
deriving DecidableEq

/-- The engine's copy, by the handle of the last write. -/
def removeFromEngine (setup : Setup) (o : Outside) (ctx : CloudWai.RequestContext)
    (t : EnvVarTarget) (existing : EnvVarRow) (w : Estate) : AdapterResult Unit × Estate :=
  match applicationRefFor ctx.userId t.project w with
  | none => (.ok .succeeded (), w)
  | some ref =>
    match given existing.engineRef with
    | none => (.ok .succeeded (), w)
    | some engineRef =>
      let a := SelfHosted.deleteEnvVar setup o
        ⟨t.project.organizationId, s!"env-del-{t.project.id}-{t.environment.id}-{t.key}",
          envVarTimeoutMs⟩ ref engineRef w.runtime
      (a.1, { w with runtime := a.2 })

/-- The procedure: the engine first, if it has the variable, then the row. -/
def removeEnvVar (setup : Setup) (o : Outside) (ctx : CloudWai.RequestContext)
    (input : RemoveEnvVarInput) (w : Estate) : Result RemoveEnvVarOutcome :=
  match removeTarget ctx input w with
  | .error failure => (.error failure, w)
  | .ok t =>
    match w.getEnvVar ctx.userId t.index with
    | none => (.ok ⟨false, none⟩, w)
    | some existing =>
      match removeFromEngine setup o ctx t existing w with
      | (.err _ reason, w) => (.ok ⟨false, some reason⟩, w)
      | (.ok _ _, w) =>
        let deleted := w.deleteEnvVar ctx.userId t.project.organizationId t.index
        (.ok ⟨deleted.1, none⟩, deleted.2)

/-! ## The worker's reconciliation -/

/-- One stored variable is written over the engine's, or created there. -/
def pushVariable (setup : Setup) (o : Outside) (ctx : AdapterContext) (application : ProviderRef)
    (existing : List EnvVarState) (w : Estate) (v : EnvVarRow) : Estate :=
  if o.unreadable v.key then w
  else
    let entry : EnvBody := ⟨v.key, v.value, v.isBuildTime⟩
    let a :=
      if existing.any (·.key == v.key) then
        SelfHosted.updateEnvVar setup o ctx application entry w.runtime
      else SelfHosted.createEnvVar setup o ctx application entry w.runtime
    let w := { w with runtime := a.2 }
    match a.1 with
    | .ok _ state => w.setEnvVarEngineRef ctx.organizationId v.index state.engineRef application
    | .err _ _ => w

/-- `sync` -/
def syncEnvVars (setup : Setup) (o : Outside) (ctx : AdapterContext) (application : ProviderRef)
    (project : ProjectId) (environment : EnvironmentId) (w : Estate) : Estate :=
  let stored := w.listEnvVarsForService ctx.organizationId project environment
  if stored.isEmpty then w
  else
    let a := SelfHosted.listEnvVars setup o ctx application w.runtime
    let w := { w with runtime := a.2 }
    match a.1 with
    | .err _ _ => w
    | .ok _ existing => stored.foldl (pushVariable setup o ctx application existing) w

end CloudWai.Runtime
