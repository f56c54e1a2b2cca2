import CloudWai.Base.Prog
import CloudWai.Base.Table
import CloudWai.Contracts
import Mathlib.Algebra.Order.Ring.Rat

/-!
# The SQL job queue

`orchestration_jobs` and the functions of migrations 0001, 0003, 0008 and 0028
as pure functions on the table, and over them `SqlJobQueue` (`sql-queue.ts`) as the
programs of database requests its methods are. The database runs one request at a time; what
a method does between two requests is in its program, so `fail` — a `GET`, then
a `PATCH` decided by what the `GET` answered — is two awaits.

The payload type is a parameter: the queue never looks inside a payload. Time is
one clock for the database and its clients. `for update skip locked` is kept: a
claim does not see the rows that another transaction holds at that moment, so
which of the claimable rows it gets is not determined by the table alone.

A request is read before it is run: a text with a NUL in it is not, nor is a number of
more than four bytes. `QueueCall.run` is for the requests that can be read, and
`QueueCall.answer` for any.
-/

namespace CloudWai.Queue

open Base

variable {P : Type}

/-! ## Rows -/

/-- `Job`: a queue row as `toJob` hands it to callers. -/
structure Job (P : Type) where
  id : JobId
  organizationId : OrganizationId
  kind : String
  payload : P
  idempotencyKey : String
  state : JobState
  attempts : Nat
  maxAttempts : Nat
  createdAt : Instant
  startedAt : Option Instant
  finishedAt : Option Instant
  lastError : Option String
  leaseExpiresAt : Option Instant
  deferredUntil : Option Instant
deriving DecidableEq

/-- A row of `orchestration_jobs`; `toJob` drops `worker_id`. -/
structure JobRow (P : Type) extends Job P where
  workerId : Option String
deriving DecidableEq

/-- `orchestration_jobs`. -/
abbrev JobsTable (P : Type) := Table fun r : JobRow P => r.id

/-- A `set` clause on it. -/
abbrev JobEdit (P : Type) := Table.Edit fun r : JobRow P => r.id

/-- `EnqueueInput`. A caller may ask for any number of attempts. -/
structure EnqueueInput (P : Type) where
  organizationId : OrganizationId
  kind : String
  payload : P
  idempotencyKey : String
  maxAttempts : Option ℚ

/-- The idempotency constraint of migration 0003. -/
def sameKey (org : OrganizationId) (kind key : String) (r : JobRow P) : Bool :=
  r.organizationId == org && r.kind == kind && r.idempotencyKey == key

/-! ## `claim_orchestration_job` -/

/-- `length(btrim(p_worker_id)) = 0`. -/
def blank (worker : String) : Bool := worker.toList.all (· == ' ')

/-- The claim's where clause. -/
def claimable (now : Instant) (r : JobRow P) : Bool :=
  r.state == .queued && decide (r.attempts < r.maxAttempts) &&
    match r.deferredUntil with
    | none => true
    | some t => decide (t ≤ now)

/-- The claim's set clause. -/
def leased (now : Instant) (worker : String) (leaseSeconds : Nat) (r : JobRow P) : JobRow P :=
  { r with
    state := .running
    attempts := r.attempts + 1
    startedAt := some now
    workerId := some worker
    leaseExpiresAt := some (now + leaseSeconds * 1000)
    deferredUntil := none }

/-- `order by created_at for update skip locked limit 1`. -/
def nextClaim (now : Instant) (locked : JobId → Bool) (jobs : JobsTable P) : Option (JobRow P) :=
  (jobs.rows.filter fun r => claimable now r && !locked r.id).argmin (·.createdAt)

/-- `claim_orchestration_job`. -/
def claimOrchestrationJob (now : Instant) (locked : JobId → Bool) (worker : String)
    (leaseSeconds : Nat) (jobs : JobsTable P) : Except String (List (JobRow P)) × JobsTable P :=
  if blank worker then (.error "a worker id is required to claim a job", jobs)
  else if leaseSeconds = 0 then (.error "a positive lease is required to claim a job", jobs)
  else
    match nextClaim now locked jobs with
    | none => (.ok [], jobs)
    | some r =>
      (.ok [leased now worker leaseSeconds r],
        jobs.update (fun r' => r'.id == r.id) ⟨leased now worker leaseSeconds, fun _ => rfl⟩)

/-! ## `defer_orchestration_job` -/

/-- The deferral's set clause: the attempt is handed back. -/
def deferred (now : Instant) (reason : String) (deferSeconds : Nat) (r : JobRow P) : JobRow P :=
  { r with
    state := .queued
    attempts := r.attempts - 1
    startedAt := none
    workerId := none
    leaseExpiresAt := none
    finishedAt := none
    lastError := some reason
    deferredUntil := if 0 < deferSeconds then some (now + deferSeconds * 1000) else none }

/-- `where id = p_job_id and state = 'running'`. -/
def runningJob (id : JobId) (r : JobRow P) : Bool := r.id == id && r.state == .running

/-- `defer_orchestration_job`. -/
def deferOrchestrationJob (now : Instant) (id : JobId) (reason : String) (deferSeconds : Nat)
    (jobs : JobsTable P) : Bool × JobsTable P :=
  (jobs.rows.any (runningJob id),
    jobs.update (runningJob id) ⟨deferred now reason deferSeconds, fun _ => rfl⟩)

/-! ## `reap_expired_jobs` -/

/-- The reaper's where clause. -/
def lapsed (now : Instant) (r : JobRow P) : Bool :=
  r.state == .running &&
    match r.leaseExpiresAt with
    | none => false
    | some t => decide (t ≤ now)

/-- The reaper's set clause. -/
def reaped (now : Instant) (r : JobRow P) : JobRow P :=
  if r.maxAttempts ≤ r.attempts then
    { r with
      state := .failed
      lastError := some "lease expired and no attempts remain"
      finishedAt := some now
      workerId := none
      leaseExpiresAt := none }
  else
    { r with
      state := .queued
      lastError := some "lease expired"
      workerId := none
      leaseExpiresAt := none }

theorem reaped_id (now : Instant) (r : JobRow P) : (reaped now r).id = r.id := by
  unfold reaped
  split <;> rfl

/-- `reap_expired_jobs`. -/
def reapExpiredJobs (now : Instant) (jobs : JobsTable P) : Nat × JobsTable P :=
  (jobs.rows.countP (lapsed now), jobs.update (lapsed now) ⟨reaped now, reaped_id now⟩)

/-! ## Inserting and patching through REST -/

/-- The greatest `integer`. -/
def maxInteger : Nat := 2147483647

/-- `max_attempts integer check (max_attempts > 0)`: the numbers the column takes. -/
def IsAttempts (q : ℚ) : Prop := q.den = 1 ∧ 0 < q.num ∧ q.num ≤ maxInteger

instance (q : ℚ) : Decidable (IsAttempts q) :=
  inferInstanceAs (Decidable (q.den = 1 ∧ 0 < q.num ∧ q.num ≤ maxInteger))

theorem IsAttempts.pos {q : ℚ} (h : IsAttempts q) : 0 < q.num.toNat :=
  Int.lt_toNat.mpr h.2.1

/-- What is stored is what was asked for. -/
theorem IsAttempts.cast {q : ℚ} (h : IsAttempts q) : (q.num.toNat : ℚ) = q := by
  have hnum : ((q.num.toNat : Int) : ℚ) = (q.num : ℚ) := by rw [Int.toNat_of_nonneg h.2.1.le]
  rw [← Int.cast_natCast, hnum]
  exact Rat.den_eq_one_iff q |>.mp h.1

/-- The columns an enqueue supplies. -/
structure NewJob (P : Type) where
  organizationId : OrganizationId
  kind : String
  payload : P
  idempotencyKey : String
  maxAttempts : ℚ

/-- The row an insert makes, the other columns at their defaults. -/
def NewJob.row (now : Instant) (n : NewJob P) (id : JobId) : JobRow P where
  id := id
  organizationId := n.organizationId
  kind := n.kind
  payload := n.payload
  idempotencyKey := n.idempotencyKey
  state := .queued
  attempts := 0
  maxAttempts := n.maxAttempts.num.toNat
  createdAt := now
  startedAt := none
  finishedAt := none
  lastError := none
  leaseExpiresAt := none
  deferredUntil := none
  workerId := none

/-- `POST … on_conflict … resolution=ignore-duplicates`: the column's type and its check
first, then the unique index; a duplicate inserts nothing. -/
def insertJob (now : Instant) (n : NewJob P) (jobs : JobsTable P) :
    Except String (List (JobRow P)) × JobsTable P :=
  if ¬ IsAttempts n.maxAttempts then (.error "POST /orchestration_jobs returned 400.", jobs)
  else if jobs.rows.any (sameKey n.organizationId n.kind n.idempotencyKey) then (.ok [], jobs)
  else (.ok [n.row now jobs.nextId], jobs.insertNew ⟨n.row now, fun _ => rfl⟩)

/-- The columns `complete`, `fail` and `terminate` write, all five every time. -/
structure JobPatch where
  state : JobState
  lastError : Option String
  finishedAt : Option Instant
  leaseExpiresAt : Option Instant
  deferredUntil : Option Instant
deriving DecidableEq

/-- The columns that a PATCH sets. -/
def JobPatch.apply (p : JobPatch) (r : JobRow P) : JobRow P :=
  { r with
    state := p.state
    lastError := p.lastError
    finishedAt := p.finishedAt
    leaseExpiresAt := p.leaseExpiresAt
    deferredUntil := p.deferredUntil }

/-- `PATCH /orchestration_jobs?id=eq.…`: no condition but the id. -/
def patchJob (id : JobId) (p : JobPatch) (jobs : JobsTable P) : JobsTable P :=
  jobs.update (fun r => r.id == id) ⟨p.apply, fun _ => rfl⟩

/-! ## Requests -/

/-- What `SqlJobQueue` awaits: requests, and the clock it stamps patches with. -/
inductive QueueCall (P : Type) where
  | insert (n : NewJob P)
  | selectByKey (org : OrganizationId) (kind key : String)
  | select (id : JobId)
  | patch (id : JobId) (p : JobPatch)
  | claim (worker : String) (leaseSeconds : Nat)
  | defer (id : JobId) (reason : String) (deferSeconds : Nat)
  | reap (now : Instant)
  | clock

/-- What each is answered with. -/
def QueueCall.Ans : QueueCall P → Type
  | .insert _ => List (JobRow P)
  | .selectByKey .. => List (JobRow P)
  | .select _ => List (JobRow P)
  | .patch .. => List (JobRow P)
  | .claim .. => List (JobRow P)
  | .defer .. => Bool
  | .reap _ => Nat
  | .clock => Instant

/-- One request against the table. -/
def QueueCall.run (now : Instant) (locked : JobId → Bool) (jobs : JobsTable P) :
    (c : QueueCall P) → Except String c.Ans × JobsTable P
  | .insert n => insertJob now n jobs
  | .selectByKey org kind key => (.ok ((jobs.rows.filter (sameKey org kind key)).take 1), jobs)
  | .select id => (.ok (jobs.find id).toList, jobs)
  | .patch id p => (.ok ((patchJob id p jobs).find id).toList, patchJob id p jobs)
  | .claim worker leaseSeconds =>
    let a := claimOrchestrationJob now locked worker leaseSeconds jobs
    -- the client reports an exception the function raised by its HTTP status
    (a.1.mapError fun _ => "POST /rpc/claim_orchestration_job returned 400.", a.2)
  | .defer id reason deferSeconds =>
    let a := deferOrchestrationJob now id reason deferSeconds jobs
    (.ok a.1, a.2)
  | .reap t =>
    let a := reapExpiredJobs t jobs
    (.ok a.1, a.2)
  | .clock => (.ok now, jobs)

/-- What the database can read. A text with a NUL or a lone surrogate is none to it. -/
structure Reader (P : Type) where
  text : String → Bool
  payload : P → Bool

/-- The request can be read: its texts, and its numbers are of four bytes. -/
def QueueCall.readable (rd : Reader P) : QueueCall P → Bool
  | .insert n => rd.text n.kind && rd.text n.idempotencyKey && rd.payload n.payload
  | .selectByKey _ kind key => rd.text kind && rd.text key
  | .patch _ p => p.lastError.all rd.text
  | .claim worker leaseSeconds => rd.text worker && decide (leaseSeconds ≤ maxInteger)
  | .defer _ reason deferSeconds => rd.text reason && decide (deferSeconds ≤ maxInteger)
  | .select _ | .reap _ | .clock => true

/-- One request against a database that has to read it. -/
def QueueCall.answer (rd : Reader P) (now : Instant) (locked : JobId → Bool) (jobs : JobsTable P)
    (c : QueueCall P) : Except String c.Ans × JobsTable P :=
  if c.readable rd then c.run now locked jobs else (.error "the request returned 400.", jobs)

/-! ## `SqlJobQueue` -/

/-- A program over the jobs table. -/
abbrev QueueProg (P α : Type) := Prog (QueueCall P) QueueCall.Ans String α

/-- The message of a `ControlPlaneUnavailableError`. -/
def unavailable (operation reason : String) : String :=
  s!"Control-plane database {operation} failed: {reason}"

/-- `must`: a refused request throws. -/
def must (operation : String) (c : QueueCall P) : QueueProg P c.Ans :=
  .await c fun
    | .ok a => .ret a
    | .error reason => .raise (unavailable operation reason)

/-- `rows[0] ? toJob(rows[0]) : null`. -/
def firstJob (rows : List (JobRow P)) : Option (Job P) := rows.head?.map (·.toJob)

namespace SqlJobQueue

/-- How often a job is tried, unless it says. -/
def defaultMaxAttempts : ℚ := 3

theorem isAttempts_default : IsAttempts defaultMaxAttempts := by decide

/-- The job of a key. -/
def findByKey (org : OrganizationId) (kind key : String) : QueueProg P (Option (Job P)) :=
  (must "findByKey" (.selectByKey org kind key)).bind fun rows => .ret (firstJob rows)

def enqueue (input : EnqueueInput P) : QueueProg P (Job P) :=
  (must "enqueue" (.insert
    { organizationId := input.organizationId
      kind := input.kind
      payload := input.payload
      idempotencyKey := input.idempotencyKey
      maxAttempts := input.maxAttempts.getD defaultMaxAttempts })).bind fun inserted =>
  match firstJob inserted with
  | some job => .ret job
  | none =>
    (findByKey input.organizationId input.kind input.idempotencyKey).bind fun existing =>
    match existing with
    | some job => .ret job
    | none =>
      .raise (unavailable "enqueue"
        "no row returned and no existing job found for the idempotency key")

/-- `Math.max(1, Math.ceil(leaseMs / 1000))`. -/
def leaseSeconds (leaseMs : Nat) : Nat := max 1 ((leaseMs + 999) / 1000)

/-- The lease is asked for in whole seconds. -/
def claim (worker : String) (leaseMs : Nat) : QueueProg P (Option (Job P)) :=
  (must "claim" (.claim worker (leaseSeconds leaseMs))).bind fun rows => .ret (firstJob rows)

/-- The job of an id. -/
def get (jobId : JobId) : QueueProg P (Option (Job P)) :=
  (must "get" (.select jobId)).bind fun rows => .ret (firstJob rows)

/-- A PATCH by id alone. -/
def patch (jobId : JobId) (p : JobPatch) : QueueProg P Unit :=
  (must "update" (.patch jobId p)).bind fun _ => .ret ()

/-- `new Date()`. -/
def now : QueueProg P Instant := Prog.call QueueCall.clock

/-- The row is written whatever its state. -/
def complete (jobId : JobId) : QueueProg P Unit :=
  now.bind fun t =>
  patch jobId
    { state := .succeeded
      lastError := none
      finishedAt := some t
      leaseExpiresAt := none
      deferredUntil := none }

/-- The row is read, and written by what was read. -/
def fail (jobId : JobId) (reason : String) : QueueProg P Unit :=
  (get jobId).bind fun current =>
  match current with
  | none => .ret ()
  | some current =>
    if current.maxAttempts ≤ current.attempts then
      now.bind fun t =>
      patch jobId
        { state := .failed
          lastError := some reason
          finishedAt := some t
          leaseExpiresAt := none
          deferredUntil := none }
    else
      patch jobId
        { state := .queued
          lastError := some reason
          finishedAt := none
          leaseExpiresAt := none
          deferredUntil := none }

/-- The row is written whatever its state. -/
def terminate (jobId : JobId) (reason : String) : QueueProg P Unit :=
  now.bind fun t =>
  patch jobId
    { state := .failed
      lastError := some reason
      finishedAt := some t
      leaseExpiresAt := none
      deferredUntil := none }

/-- `deferMs > 0 ? Math.ceil(deferMs / 1000) : 0`. -/
def deferSeconds (deferMs : Nat) : Nat := (deferMs + 999) / 1000

/-- The function looks at the state itself. -/
def defer (jobId : JobId) (reason : String) (deferMs : Nat) : QueueProg P Unit :=
  (must "defer" (.defer jobId reason (deferSeconds deferMs))).bind fun _ => .ret ()

/-- How many leases were over. -/
def reapExpired (t : Instant) : QueueProg P Nat := must "reapExpired" (.reap t)

end SqlJobQueue

end CloudWai.Queue
