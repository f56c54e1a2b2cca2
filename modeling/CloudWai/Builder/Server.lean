import CloudWai.Base.Machine

/-!
# The builder

`builder-server.mjs`: a build is accepted, queues for one of the slots, and is run.
`runBuild` is an asynchronous function, and what it does between two of its awaits
happens at once. So a build is a `Stage`, the await it is at, and `resume` is the
code from there to the next one; the events of the server are a request or the end of
some build's await, in any order.

A slot is not freed while a build waits for it: `releaseSlot` takes it back and hands
it over in one go. It is called from two places, and the way into `runBuild`'s `try`
is a third one past which there is no calling it: a workspace that cannot be made
rejects the promise that nobody holds, which ends the process.
-/

namespace CloudWai.Builder

/-- The configuration. `planFramework` is what `JSON.parse` and the fields that are
looked at make of a plan. -/
structure Options where
  maxConcurrentBuilds : Nat
  imagePrefix : String
  maxLogLines : Nat
  planFramework : String → Option String
  positive : 0 < maxConcurrentBuilds

/-- `payload.source`; a source of another kind may not name one. -/
inductive Source where
  | git (repository : String) (gitRef : Option String)
  | image (uri : String)
  | other (kind : Option String)
deriving DecidableEq

/-- The `kind` that the payload names, if it names one. -/
def Source.kind : Source → Option String
  | .git .. => some "git"
  | .image _ => some "image"
  | .other kind => kind

/-- `payload.source?.kind ?? "unknown"` -/
def Source.known (source : Source) : String := source.kind.getD "unknown"

/-- The body of `POST /builds`. -/
structure Payload where
  source : Source
  buildCommand : Option String
  buildPack : Option String
  environment : List (String × String)
deriving DecidableEq

/-- What `run` runs, in the build's workspace. -/
inductive Command where
  | clone (repository : String)
  | checkout (gitRef : String)
  | build (name : String) (buildCommand buildPack : Option String)
      (environment : List (String × String))
  | plan
deriving DecidableEq

/-- The await a build is at. -/
inductive Stage where
  /-- `await flushState()`, after the build was recorded. -/
  | flushing
  /-- In `waiting`. -/
  | waiting
  /-- The slot is the build's own. -/
  | granted
  /-- `mkdtemp` -/
  | making
  | running (c : Command)
  /-- `rm`, in the `finally`. -/
  | clearing
  /-- The slot is given back. -/
  | over
  /-- The promise of `runBuild` is rejected. -/
  | stranded
deriving DecidableEq

/-- A job's `status`. -/
inductive Status where
  | queued | running | succeeded | failed
deriving DecidableEq

/-- The build is over. -/
def Status.Ended (s : Status) : Prop := s = .succeeded ∨ s = .failed

instance (s : Status) : Decidable s.Ended := inferInstanceAs (Decidable (_ ∨ _))

/-- What a build has made. -/
structure Artifact where
  image : String
  framework : Option String
deriving DecidableEq

/-- A job, and the call of `runBuild` for it. `acquired` and `released` count the
slots it got and gave back. -/
structure Build where
  id : String
  payload : Payload
  status : Status := .queued
  artifact : Option Artifact := none
  lines : List String := []
  logTruncated : Bool := false
  cancelled : Bool := false
  finishedAt : Option Nat := none
  stage : Stage := .flushing
  acquired : Nat := 0
  released : Nat := 0
deriving DecidableEq

/-- How an await ends. -/
inductive Settled where
  /-- With the command's exit code, what it printed, and the lines of it. -/
  | done (code : Nat) (out : String) (lines : List String)
  | threw (error : String)
deriving DecidableEq

namespace Build

/-- `log` -/
def log (o : Options) (b : Build) (line : String) : Build :=
  if o.maxLogLines ≤ b.lines.length then
    if b.logTruncated then b
    else { b with
      logTruncated := true
      lines := b.lines ++ [s!"[cloud-wai] log truncated at {o.maxLogLines} lines"] }
  else { b with lines := b.lines ++ [line] }

/-- The image's name. -/
def tag (o : Options) (b : Build) : String := s!"{o.imagePrefix}-{b.id.take 12}"

/-- Out of the `try`, with a status: on to the `finally`. -/
def finish (now : Nat) (b : Build) (status : Status) : Build :=
  { b with status := status, finishedAt := some now, stage := .clearing }

/-- A failure that the log has a line for. -/
def fail (o : Options) (now : Nat) (b : Build) (line : String) : Build :=
  (b.log o line).finish now .failed

/-- Nixpacks is started. -/
def startBuild (o : Options) (b : Build) : Build :=
  { b.log o s!"building with nixpacks -> {b.tag o}" with
    stage := .running (.build (b.tag o) (b.payload.buildCommand.filter (· != ""))
      (b.payload.buildPack.filter (· != "")) (b.payload.environment.filter (·.1 != ""))) }

/-- The workspace is there. -/
def enter (o : Options) (now : Nat) (b : Build) : Build :=
  match b.payload.source with
  | .git repository _ =>
    { b.log o s!"cloning {repository}" with stage := .running (.clone repository) }
  | .image uri =>
    ({ b with artifact := some ⟨uri, none⟩ }.log o
      s!"image source {uri}: nothing to build").finish now .succeeded
  | .other kind =>
    -- the template prints `undefined`, where the line before it said `unknown`
    let printed := kind.getD "undefined"
    b.fail o now s!"unsupported source kind: {printed}"

/-- A command has ended. -/
def after (o : Options) (now : Nat) (b : Build) (code : Nat) (out : String) : Command → Build
  | .clone _ =>
    if code ≠ 0 then b.fail o now s!"clone failed with exit code {code}"
    else match b.payload.source with
      | .git _ (some gitRef) =>
        if gitRef = "" then b.startBuild o else { b with stage := .running (.checkout gitRef) }
      | _ => b.startBuild o
  | .checkout gitRef =>
    if code ≠ 0 then b.fail o now s!"checkout of {gitRef} failed with exit code {code}"
    else b.startBuild o
  | .build .. =>
    if b.cancelled then b.fail o now "build cancelled"
    else if code ≠ 0 then b.fail o now s!"nixpacks exited with code {code}"
    else { b with stage := .running .plan }
  | .plan =>
    ({ b with artifact := some ⟨b.tag o, if code = 0 then o.planFramework out else none⟩ }.log o
      s!"build succeeded: {b.tag o}").finish now .succeeded

/-- `runBuild`, from the await it is at to the next. -/
def resume (o : Options) (now : Nat) (b : Build) (r : Settled) : Build :=
  match b.stage with
  | .granted =>
    if b.cancelled then
      { b.log o "build cancelled before it started" with
        status := .failed, finishedAt := some now, stage := .over }
    else { b with status := .running, stage := .making }
  | .making =>
    match r with
    | .done .. => b.enter o now
    -- outside the `try`
    | .threw _ => { b with stage := .stranded }
  | .running c =>
    match r with
    | .done code out lines =>
      -- the plan's output is not logged
      (if c = .plan then b else lines.foldl (log o) b).after o now code out c
    | .threw error => b.fail o now s!"build failed: {error}"
  | .clearing => { b with stage := .over }
  | .flushing | .waiting | .over | .stranded => b

end Build

/-- The process. `handed` lists the builds that were handed a slot out of the queue. -/
structure Server where
  builds : List Build := []
  running : Int := 0
  waiting : List Nat := []
  handed : List Nat := []
  down : Bool := false
deriving DecidableEq

/-- What happens to the builder. -/
inductive Event where
  /-- `POST /builds`, under a new key. -/
  | submit (id : String) (payload : Payload)
  /-- `POST /builds/:id/cancel` -/
  | cancel (n : Nat)
  /-- An await of build `n` ends. -/
  | settle (n : Nat) (r : Settled) (now : Nat)
deriving DecidableEq

namespace Server

/-- Build `n` is the owner of one more slot. -/
def grant (s : Server) (n : Nat) : Server :=
  { s with
    running := s.running + 1
    builds := s.builds.modify n fun b => { b with stage := .granted, acquired := b.acquired + 1 } }

/-- `acquireSlot` -/
def acquireSlot (o : Options) (s : Server) (n : Nat) : Server :=
  if s.running < o.maxConcurrentBuilds then s.grant n
  else
    { s with
      waiting := s.waiting ++ [n]
      builds := s.builds.modify n fun b => { b with stage := .waiting } }

/-- `releaseSlot`, by build `n`. -/
def releaseSlot (s : Server) (n : Nat) : Server :=
  let s : Server :=
    { s with
      running := s.running - 1
      builds := s.builds.modify n fun b => { b with released := b.released + 1 } }
  match s.waiting with
  | [] => s
  | next :: rest => { s with waiting := rest, handed := s.handed ++ [next] }.grant next

/-- An await of build `n`, which is `b`, ends. -/
def settle (o : Options) (s : Server) (n : Nat) (b : Build) (r : Settled) (now : Nat) : Server :=
  let put (b' : Build) : Server := { s with builds := s.builds.set n b' }
  match b.stage with
  | .waiting | .over | .stranded => s
  | .flushing =>
    (put (b.log o s!"accepted build for {b.payload.source.known} source")).acquireSlot o n
  | .granted | .making | .running _ | .clearing =>
    let b' := b.resume o now r
    match b'.stage with
    | .over => (put b').releaseSlot n
    -- a rejection that nobody handles
    | .stranded => { put b' with down := true }
    | _ => put b'

/-- One event; a server that is down does nothing. -/
def step (o : Options) (s : Server) (e : Event) : Server :=
  if s.down then s
  else match e with
    | .submit id payload => { s with builds := s.builds ++ [{ id := id, payload := payload }] }
    | .cancel n => { s with builds := s.builds.modify n fun b => { b with cancelled := true } }
    | .settle n r now =>
      match s.builds[n]? with
      | none => s
      | some b => s.settle o n b r now

end Server

end CloudWai.Builder
