import CloudWai.Queue.Sql

/-!
# The in-memory job queue

`InMemoryJobQueue` of `queue.ts`: the queue the tests run. Its two maps hold the same mutable
objects, so they are one list of jobs in insertion order — `byId` finds a job by
its id, `byKey` by the idempotency key it was stored under, which is the three
parts joined with `::`. Every method runs to its end without awaiting anything.
The clock is passed to the methods that read it.
-/

namespace CloudWai.Queue

variable {P : Type}

/-- `StoredJob`: a job with whatever number of attempts its caller asked for. -/
structure StoredJob (P : Type) where
  id : JobId
  organizationId : OrganizationId
  kind : String
  payload : P
  idempotencyKey : String
  state : JobState
  attempts : Nat
  maxAttempts : ℚ
  createdAt : Instant
  startedAt : Option Instant
  finishedAt : Option Instant
  lastError : Option String
  leaseExpiresAt : Option Instant
  deferredUntil : Option Instant
deriving DecidableEq

/-- The stored jobs in insertion order, and the counter their ids come from. -/
structure MemQueue (P : Type) where
  jobs : List (StoredJob P)
  counter : Nat

namespace InMemoryJobQueue

/-- `keyOf`. -/
def keyOf (org : OrganizationId) (kind key : String) : String :=
  toString org ++ "::" ++ kind ++ "::" ++ key

/-- The job has this key. -/
def Keyed (k : String) (j : StoredJob P) : Bool := keyOf j.organizationId j.kind j.idempotencyKey == k

/-- `byId.get`. -/
def get (q : MemQueue P) (jobId : JobId) : Option (StoredJob P) := q.jobs.find? fun j => j.id == jobId

/-- Assign to the fields of the job `byId` finds; nothing if there is none. -/
def alter (q : MemQueue P) (jobId : JobId) (f : StoredJob P → StoredJob P) : MemQueue P :=
  { q with jobs := q.jobs.map fun j => if j.id == jobId then f j else j }

/-- The job that an enqueue makes. -/
def newJob (now : Instant) (input : EnqueueInput P) (id : JobId) : StoredJob P where
  id := id
  organizationId := input.organizationId
  kind := input.kind
  payload := input.payload
  idempotencyKey := input.idempotencyKey
  state := .queued
  attempts := 0
  maxAttempts := input.maxAttempts.getD 3
  createdAt := now
  startedAt := none
  finishedAt := none
  lastError := none
  leaseExpiresAt := none
  deferredUntil := none

/-- A job of the same key is answered as it is. -/
def enqueue (now : Instant) (input : EnqueueInput P) (q : MemQueue P) : StoredJob P × MemQueue P :=
  match q.jobs.find? (Keyed (keyOf input.organizationId input.kind input.idempotencyKey)) with
  | some existing => (existing, q)
  | none =>
    let job := newJob now input (q.counter + 1)
    (job, ⟨q.jobs ++ [job], q.counter + 1⟩)

/-- The tests `claim`'s loop skips a job by. -/
def takes (now : Instant) (j : StoredJob P) : Bool :=
  j.state == .queued && decide (j.attempts < j.maxAttempts) &&
    match j.deferredUntil with
    | none => true
    | some t => decide (t ≤ now)

/-- A claim counts as an attempt. -/
def claimed (now : Instant) (leaseMs : Nat) (j : StoredJob P) : StoredJob P :=
  { j with
    state := .running
    attempts := j.attempts + 1
    startedAt := some now
    leaseExpiresAt := some (now + leaseMs)
    deferredUntil := none }

/-- The worker id is not recorded. -/
def claim (now : Instant) (_worker : String) (leaseMs : Nat) (q : MemQueue P) :
    Option (StoredJob P) × MemQueue P :=
  match q.jobs.find? (takes now) with
  | none => (none, q)
  | some j => (some (claimed now leaseMs j), alter q j.id (claimed now leaseMs))

/-- The job is done; a deferral it had stays. -/
def completed (now : Instant) (j : StoredJob P) : StoredJob P :=
  { j with
    state := .succeeded
    finishedAt := some now
    leaseExpiresAt := none
    lastError := none }

/-- Whatever state the job is in. -/
def complete (now : Instant) (jobId : JobId) (q : MemQueue P) : MemQueue P :=
  alter q jobId (completed now)

/-- The job waits again, unless its attempts are spent. -/
def failed (now : Instant) (reason : String) (j : StoredJob P) : StoredJob P :=
  if j.maxAttempts ≤ j.attempts then
    { j with
      lastError := some reason
      leaseExpiresAt := none
      state := .failed
      finishedAt := some now }
  else
    { j with
      lastError := some reason
      leaseExpiresAt := none
      state := .queued }

/-- Whatever state the job is in. -/
def fail (now : Instant) (jobId : JobId) (reason : String) (q : MemQueue P) : MemQueue P :=
  alter q jobId (failed now reason)

/-- The job has failed for good. -/
def terminated (now : Instant) (reason : String) (j : StoredJob P) : StoredJob P :=
  { j with
    state := .failed
    lastError := some reason
    finishedAt := some now
    leaseExpiresAt := none }

/-- Whatever state the job is in. -/
def terminate (now : Instant) (jobId : JobId) (reason : String) (q : MemQueue P) : MemQueue P :=
  alter q jobId (terminated now reason)

/-- The job waits again, and the attempt does not count. -/
def deferred (now : Instant) (reason : String) (deferMs : Nat) (j : StoredJob P) : StoredJob P :=
  { j with
    state := .queued
    lastError := some reason
    startedAt := none
    leaseExpiresAt := none
    attempts := j.attempts - 1
    deferredUntil := if 0 < deferMs then some (now + deferMs) else none }

/-- No test of the job's state. -/
def defer (now : Instant) (jobId : JobId) (reason : String) (deferMs : Nat) (q : MemQueue P) :
    MemQueue P :=
  alter q jobId (deferred now reason deferMs)

/-- The lease is over. -/
def lapsed (now : Instant) (j : StoredJob P) : Bool :=
  j.state == .running &&
    match j.leaseExpiresAt with
    | none => false
    | some t => decide (t ≤ now)

/-- As if the attempt had failed. -/
def reaped (now : Instant) (j : StoredJob P) : StoredJob P :=
  if j.maxAttempts ≤ j.attempts then
    { j with
      state := .failed
      finishedAt := some now
      lastError := some "lease expired and no attempts remain"
      leaseExpiresAt := none }
  else
    { j with
      state := .queued
      lastError := some "lease expired"
      leaseExpiresAt := none }

/-- How many leases were over. -/
def reapExpired (now : Instant) (q : MemQueue P) : Nat × MemQueue P :=
  (q.jobs.countP (lapsed now),
    { q with jobs := q.jobs.map fun j => if lapsed now j then reaped now j else j })

end InMemoryJobQueue

end CloudWai.Queue
