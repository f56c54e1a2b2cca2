import CloudWai.Base.Machine
import CloudWai.Runtime.Server

/-!
# Deploys that overlap

`Server.lean` carries a deploy out in one go. Here one application is taken apart at
the awaits: a run of `deploy` is at a `Stage`, the await it is at, and `resume` is the
code from there to the next one. Requests come in between, and other runs go on.

All runs of an application share one object. The attempt that a line of the log
belongs to, the number a build is asked for under, and what is recorded of an attempt
in the end, are read off that object when they are needed, and not kept by the run.

Attempts are numbered as they come, and so are the jobs of the build plane, which
answers a key that it knows with the job it has. `Run` has, besides its stage, what
became of the run itself: `verdict`, `lines`, `job`, `started` and `cancelled` are
never read by the code.

Mirrors `deploy`, `rollback` and the cancel routes of
`infra/deployment/runtime-server.mjs`. The log stream over server-sent events is left out.
-/

namespace CloudWai.Runtime.Attempts

open Base Grammar Deployment

/-! ## Data -/

/-- `isImageRef` -/
def isImageRef (image : String) : Bool :=
  image != "" && !isOptionLike image && !spaced image &&
    (Pattern.seq (.one alnum) (.star (.one (alnumOr ['.', '_', '/', ':', '@', '-'])))).test image

/-- What is deployed, and what the runtime is configured with. -/
structure Setup where
  gitRepository : Option String
  image : Option String
  builderConfigured : Bool

/-- Where an attempt's image comes from. -/
inductive Source where
  | git
  | image (uri : String)
deriving DecidableEq

/-- The first lines of `runDeploy`. -/
def Setup.source (o : Setup) : Except String Source :=
  match given o.gitRepository, given o.image with
  | some repository, _ =>
    if isGitRepository repository then .ok .git else .error "app has an invalid git repository"
  | none, some uri =>
    if isImageRef uri then .ok (.image uri) else .error "app has an invalid image reference"
  | none, none => .error "app has neither a git repository nor an image"

/-- How a run ended: `app.status` and `app.engineReason`, as the run sets them. -/
structure Verdict where
  status : Status
  engineReason : Option String
deriving DecidableEq

/-- `app.attempts[id]` -/
structure Record where
  verdict : Verdict
  url : Option String
deriving DecidableEq

/-- The container that has the application's name, and the attempt that started it; a
rollback is none. -/
structure Serving where
  image : String
  attempt : Option Nat
deriving DecidableEq

/-- The application's object. `cancelled` is what `cancelledAttempts` has of it. -/
structure App where
  status : Status := .pending
  engineReason : Option String := none
  url : Option String := none
  deployCount : Nat := 0
  deployAttemptId : Option Nat := none
  attempts : List (Nat × Record) := []
  attemptLogs : Nat → List String := fun _ => []
  cancelled : List Nat := []
  container : Option Serving := none
  currentImage : Option String := none
  previousImage : Option String := none

/-- The await a run is at. -/
inductive Stage where
  /-- `await saveState()`, with the attempt registered. -/
  | saving
  /-- `POST /builds`, under this key. -/
  | posting (key : Nat) (watched : Option Nat)
  | sleeping (job : Nat) (watched : Option Nat)
  /-- `GET /builds/:id/logs` -/
  | tailing (job : Nat) (watched : Option Nat)
  /-- `GET /builds/:id` -/
  | polling (job : Nat) (watched : Option Nat)
  /-- `docker rm` -/
  | removing (image : String) (previous : Option String)
  /-- `docker run` -/
  | starting (image : String) (previous : Option String)
  | settling (image : String) (previous : Option String)
  /-- `docker inspect` -/
  | inspecting (image : String) (previous : Option String)
  | publishing (image : String)
  /-- `await runDeploy(app)` -/
  | returned
  /-- `await saveState()`, with the attempt recorded. -/
  | recorded
  | over
  /-- The first `saveState` failed. -/
  | lost
deriving DecidableEq

/-- A run of `deploy`. -/
structure Run where
  stage : Stage := .saving
  verdict : Option Verdict := none
  lines : List String := []
  job : Option Nat := none
  started : Bool := false
  cancelled : Bool := false
deriving DecidableEq

/-- The await a rollback is at. -/
inductive RollbackStage where
  | removing | starting | settling | inspecting | saving | over
deriving DecidableEq

/-- A rollback on its way. -/
structure Rollback where
  target : String
  stage : RollbackStage := .removing
deriving DecidableEq

/-- A job of the build plane: its key, and the run that it was made for. -/
structure Job where
  key : Nat
  maker : Nat
deriving DecidableEq

/-- An application with all that goes on about it. -/
structure System where
  app : App := {}
  runs : List Run := []
  rollbacks : List Rollback := []
  jobs : List Job := []

/-- What `GET /builds/:id` answers. -/
inductive Report where
  | unavailable
  /-- 404 -/
  | unknown
  | pending
  | succeeded (image : Option String) (logs : List String)
  | failed (logs : List String)
deriving DecidableEq

/-- How an await ends. `late` says that the deadline has passed then. -/
inductive Answer where
  | done
  | threw (error : String)
  | posted (refusal : Option String) (late : Bool)
  | tail (lines : List String)
  | job (report : Report) (late : Bool)
  | ran (failure : Option String)
  /-- With the hostname and the address the application has then. -/
  | inspected (running : Bool) (hostname url : Option String)
  | published (hostname reason : Option String)
deriving DecidableEq

/-- `result.running` -/
def Answer.running : Answer → Bool
  | .inspected running _ _ => running
  | _ => false

/-! ## Runs -/

/-- So many lines are kept of an attempt's log. -/
def logLimit : Nat := 2000

/-- A line is pushed onto a buffer, and what is too much goes. -/
def push (buffer : List String) (line : String) : List String :=
  (buffer ++ [line]).drop (buffer.length + 1 - logLimit)

/-- `log`, as far as the attempts go. -/
def App.log (line : String) (a : App) : App :=
  { a with
    attemptLogs := match a.deployAttemptId with
      | some id => Function.update a.attemptLogs id (push (a.attemptLogs id) line)
      | none => a.attemptLogs }

/-- A line of the run's own. -/
def log (line : String) : App × Run → App × Run
  | (a, r) => (a.log line, { r with lines := r.lines ++ [line] })

/-- Several lines, one by one. -/
def logAll (lines : List String) (t : App × Run) : App × Run :=
  lines.foldl (fun t line => log line t) t

/-- `runDeploy` sets the status. -/
def conclude (v : Verdict) : App × Run → App × Run
  | (a, r) => ({ a with status := v.status, engineReason := v.engineReason },
      { r with verdict := some v })

/-- And returns. -/
def fail (reason : String) (t : App × Run) : App × Run :=
  let (a, r) := conclude ⟨.failed, some reason⟩ t
  (a, { r with stage := .returned })

/-- The head of `buildSource`'s loop. -/
def await (job : Nat) (watched : Option Nat) (late : Bool) (t : App × Run) : App × Run :=
  if late then fail "build timed out" t
  else if watched.any t.1.cancelled.contains then fail "cancelled" t
  else (t.1, { t.2 with stage := .sleeping job watched })

/-- `runDeploy`, from the build on. -/
def replace (image : String) (t : App × Run) : App × Run :=
  (t.1, { t.2 with stage := .removing image t.1.currentImage })

/-- `runDeploy`, up to its first await. -/
def begin (o : Setup) (t : App × Run) : App × Run :=
  match o.source with
  | .error reason => fail reason t
  | .ok source =>
    if t.1.deployAttemptId.any t.1.cancelled.contains then fail "cancelled" t
    else
      match source with
      | .image uri => replace uri t
      | .git =>
        if o.builderConfigured then
          (t.1, { t.2 with stage := .posting t.1.deployCount t.1.deployAttemptId })
        else fail "no build plane is configured (BUILDER_URL)" t

/-- `app.attempts[id] = record` -/
def putRecord (id : Nat) (record : Record) (attempts : List (Nat × Record)) : List (Nat × Record) :=
  if attempts.any (·.1 == id) then attempts.map fun a => if a.1 == id then (id, record) else a
  else attempts ++ [(id, record)]

/-- The `finally` of `deploy`: the attempt is recorded, and all but fifty are dropped. -/
def record (n : Nat) : App × Run → App × Run
  | (a, r) =>
    let attempts := putRecord n ⟨⟨a.status, a.engineReason⟩, a.url⟩ a.attempts
    let stale := (attempts.take (attempts.length - 50)).map (·.1)
    ({ a with
        attempts := attempts.drop (attempts.length - 50)
        attemptLogs := fun id => if stale.contains id then [] else a.attemptLogs id
        cancelled := a.cancelled.filter fun id => !stale.contains id },
      { r with stage := .recorded })

/-- An error is caught, and recorded at once. -/
def crash (n : Nat) (error : String) (t : App × Run) : App × Run :=
  record n (conclude ⟨.failed, some error⟩ t)

/-- `GET /builds/:id` has answered. -/
def polled (job : Nat) (watched : Option Nat) (late : Bool) (t : App × Run) :
    Report → App × Run
  | .unavailable | .pending => await job watched late t
  | .unknown => fail "the build plane lost this build (it may have restarted)" t
  | .succeeded none _ => fail "build reported success with no image" t
  | .succeeded (some image) logs => replace image (logAll logs t)
  | .failed logs => fail "build failed" (logAll logs t)

/-- The container runs. -/
def succeed (image : String) (previous url : Option String) : App × Run → App × Run
  | (a, r) =>
    ({ a with
        currentImage := some image
        previousImage := previous.or a.previousImage
        status := .succeeded
        url := url },
      { r with verdict := some ⟨.succeeded, none⟩, stage := .publishing image })

/-- The last lines of `runDeploy`. -/
def announce (image : String) (hostname reason : Option String) (t : App × Run) : App × Run :=
  let url := t.1.url.getD "null"
  let lines := s!"deployed {image} on {url}" ::
    ((hostname.map fun host => s!"default hostname {host}").toList ++
      (reason.map fun reason => s!"[runtime] route not published: {reason}").toList)
  let (a, r) := logAll lines t
  (a, { r with stage := .returned })

/-- Run `n`, from the await it is at to the next; `jobs` is what the build plane has. An
answer that the await cannot have is none. -/
def resume (o : Setup) (jobs : List Job) (n : Nat) (t : App × Run) (answer : Answer) : App × Run :=
  match t.2.stage, answer with
  | .saving, .done => begin o t
  -- outside the `try`: `deploy` rejects
  | .saving, .threw error =>
    ({ t.1 with status := .failed, engineReason := some error }, { t.2 with stage := .lost })
  | .posting _ _, .posted (some reason) _ => fail s!"build plane refused the job: {reason}" t
  | .posting key watched, .posted none late =>
    let job := jobs.findIdx (·.key == key)
    await job watched late
      (log s!"build job {job} accepted" (t.1, { t.2 with job := some job }))
  | .sleeping job watched, .done => (t.1, { t.2 with stage := .tailing job watched })
  | .tailing job watched, .tail lines =>
    let (a, r) := logAll lines t
    (a, { r with stage := .polling job watched })
  | .polling job watched, .job report late => polled job watched late t report
  | .removing image previous, .done =>
    ({ t.1 with container := none }, { t.2 with stage := .starting image previous })
  | .starting _ _, .ran (some output) => fail s!"container did not start: {output}" t
  | .starting image previous, .ran none =>
    ({ t.1 with container := some ⟨image, some n⟩ },
      { t.2 with stage := .settling image previous, started := true })
  | .settling image previous, .done => (t.1, { t.2 with stage := .inspecting image previous })
  | .inspecting _ _, .inspected false _ _ => fail "container started but is not running" t
  | .inspecting image previous, .inspected true _ url => succeed image previous url t
  | .publishing image, .published hostname reason => announce image hostname reason t
  | .removing .., .threw error | .starting .., .threw error | .inspecting .., .threw error =>
    crash n error t
  | .returned, .done => record n t
  | .recorded, .done => (t.1, { t.2 with stage := .over })
  | .recorded, .threw error =>
    ({ t.1 with status := .failed, engineReason := some error }, { t.2 with stage := .over })
  | _, _ => t

/-- The build plane, when run `n` gets this answer: it makes a job for a new key. -/
def build (jobs : List Job) (n : Nat) (r : Run) (answer : Answer) : List Job :=
  match r.stage, answer with
  | .posting key _, .posted none _ =>
    if jobs.any (·.key == key) then jobs else jobs ++ [⟨key, n⟩]
  | _, _ => jobs

/-! ## Requests -/

/-- What happens to the runtime. -/
inductive Event where
  | deploy
  | cancelApp
  | cancelAttempt (n : Nat)
  | rollback
  | resume (n : Nat) (answer : Answer)
  | resumeRollback (k : Nat) (answer : Answer)
deriving DecidableEq

/-- It is not recorded yet. -/
def Stage.Live (g : Stage) : Prop := g ≠ .recorded ∧ g ≠ .over ∧ g ≠ .lost

instance (g : Stage) : Decidable g.Live := inferInstanceAs (Decidable (_ ∧ _))

/-- `POST /apps/:id/deploy` -/
def System.deploy (s : System) : System :=
  { s with
    app := { s.app with
      deployAttemptId := some s.runs.length
      deployCount := s.app.deployCount + 1
      status := .running
      engineReason := none
      attempts := putRecord s.runs.length ⟨⟨.running, none⟩, none⟩ s.app.attempts }
    runs := s.runs ++ [{}] }

/-- `POST /apps/:id/cancel`. It is accepted for whatever runs. -/
def System.cancelApp (s : System) : System :=
  { s with
    app := { s.app with status := .pending, engineReason := some "cancelled" }
    runs := s.runs.map fun r => if r.stage.Live then { r with cancelled := true } else r }

/-- `POST /deployments/:id/cancel` -/
def System.cancelAttempt (s : System) (n : Nat) : System :=
  if s.app.attempts.any (·.1 == n) then
    { s with
      app := { s.app with
        status := .pending
        engineReason := some "cancelled"
        cancelled := n :: s.app.cancelled }
      runs := s.runs.modify n fun r => if r.stage.Live then { r with cancelled := true } else r }
  else s

/-- `POST /apps/:id/rollback`, up to its first await. -/
def System.rollback (s : System) : System :=
  match s.app.previousImage with
  | none => s
  | some target => { s with rollbacks := s.rollbacks ++ [{ target := target }] }

/-- A rollback goes on. -/
def System.resumeRollback (s : System) (k : Nat) (b : Rollback) (answer : Answer) : System :=
  let go (a : App) (stage : RollbackStage) : System :=
    { s with app := a, rollbacks := s.rollbacks.set k { b with stage := stage } }
  match b.stage, answer with
  | .removing, .done => go { s.app with container := none } .starting
  | .starting, .ran none => go { s.app with container := some ⟨b.target, none⟩ } .settling
  | .settling, .done => go s.app .inspecting
  | .inspecting, .inspected true _ _ =>
    go (({ s.app with
        previousImage := s.app.currentImage
        currentImage := some b.target
        status := .succeeded } : App).log s!"rolled back to {b.target}") .saving
  | .saving, .done => go s.app .over
  -- it is answered with a 500
  | .starting, .ran (some _) | .inspecting, .inspected false _ _ => go s.app .over
  | _, _ => s

/-- An await of run `n`, which is `r`, ends. -/
def System.resume (o : Setup) (s : System) (n : Nat) (r : Run) (answer : Answer) : System :=
  let jobs := build s.jobs n r answer
  let t := Attempts.resume o jobs n (s.app, r) answer
  { s with app := t.1, runs := s.runs.set n t.2, jobs := jobs }

/-- One event. -/
def System.step (o : Setup) (s : System) : Event → System
  | .deploy => s.deploy
  | .cancelApp => s.cancelApp
  | .cancelAttempt n => s.cancelAttempt n
  | .rollback => s.rollback
  | .resume n answer =>
    match s.runs[n]? with
    | none => s
    | some r => s.resume o n r answer
  | .resumeRollback k answer =>
    match s.rollbacks[k]? with
    | none => s
    | some b => s.resumeRollback k b answer

end CloudWai.Runtime.Attempts
