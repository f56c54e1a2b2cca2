import CloudWai.Queue.Sql

/-!
# The in-process worker

`InProcessWorker.tick`: claim a job, run its handler, tell the queue what became
of it, then mirror the outcome onto the customer-facing row. The handlers and
the applier are parameters, and so are the calls they await: a `Port` says how
the queue's requests sit among those calls.

A throwing handler is caught and failed; a throwing applier is caught and
logged. A queue request that throws is caught by nobody in here — it ends the
tick, and with it the applier's turn.

Mirrors `apps/worker/src/processor.ts`; tracing and metrics are left out.
-/

namespace CloudWai.Queue

open Base

/-- The queue's requests among other calls. -/
structure Port (P : Type) (Call : Type) (Ans : Call → Type) where
  queue : QueueCall P → Call
  back : ∀ c, Ans (queue c) → c.Ans

/-- `JobContext`. -/
structure JobContext where
  organizationId : OrganizationId
  idempotencyKey : String
  timeoutMs : Nat
deriving DecidableEq

/-- `JobOutcome`. -/
structure JobOutcome where
  jobId : JobId
  kind : String
  status : EngineStatus
  applied : Bool
  reason : Option String
deriving DecidableEq

/-- `WorkerOptions`, at their defaults. -/
structure WorkerOptions where
  workerId : String
  leaseMs : Nat := 60000
  defaultTimeoutMs : Nat := 30000
  pollBackoffMs : Nat := 10000
  pollCeilingMs : Nat := 60 * 60000

/-- The reason a job past its ceiling is terminated with. -/
def ceilingReason (status : EngineStatus) (ceilingMs : Nat) : String :=
  s!"The engine still reports this build {status.wire} after " ++
    s!"{(ceilingMs + 30000) / 60000} minutes; it is not being worked on."

/-- Why a job of an unknown kind is terminated. -/
def noHandler (kind : String) : String := s!"No handler registered for kind '{kind}'."

namespace InProcessWorker

variable {P R Call : Type} {Ans : Call → Type}

/-- `JobHandler`. -/
abbrev Handler (P R Call : Type) (Ans : Call → Type) :=
  P → JobContext → Prog Call Ans String (AdapterResult R)

/-- `apply`: write the outcome onto the row the job was about. -/
abbrev Applier (P R Call : Type) (Ans : Call → Type) :=
  Job P → AdapterResult R → Prog Call Ans String Unit

/-- `settle`: an applier that throws is logged, and the outcome stands. -/
def settle (apply : Applier P R Call Ans) (job : Job P) (outcome : JobOutcome)
    (result : AdapterResult R) : Prog Call Ans String JobOutcome :=
  (apply job result).attempt.bind fun _ => .ret outcome

/-- What follows a handler that returned. -/
def finish (port : Port P Call Ans) (options : WorkerOptions) (apply : Applier P R Call Ans)
    (job : Job P) (result : AdapterResult R) : Prog Call Ans String JobOutcome :=
  let queued {α : Type} (p : QueueProg P α) : Prog Call Ans String α := p.embed port.queue port.back
  let reason := match result with
    | .ok status _ => s!"Adapter returned {status.wire}."
    | .err _ reason => reason
  match result with
  | .ok .succeeded _ =>
    (queued (SqlJobQueue.complete job.id)).bind fun _ =>
    settle apply job ⟨job.id, job.kind, .succeeded, true, none⟩ result
  | _ =>
    if result.status.InFlight then
      (queued SqlJobQueue.now).bind fun now =>
      -- deferral spends no attempt, so polling is bounded by the clock
      if options.pollCeilingMs ≤ now - job.createdAt then
        let reason := ceilingReason result.status options.pollCeilingMs
        (queued (SqlJobQueue.terminate job.id reason)).bind fun _ =>
        settle apply job ⟨job.id, job.kind, result.status, false, some reason⟩
          (.err result.status reason)
      else
        (queued (SqlJobQueue.defer job.id reason options.pollBackoffMs)).bind fun _ =>
        settle apply job ⟨job.id, job.kind, result.status, false, none⟩ result
    else if result.status = .notConfigured ∨ result.status = .degraded then
      (queued (SqlJobQueue.terminate job.id reason)).bind fun _ =>
      settle apply job ⟨job.id, job.kind, result.status, false, some reason⟩ result
    else
      (queued (SqlJobQueue.fail job.id reason)).bind fun _ =>
      settle apply job ⟨job.id, job.kind, result.status, false, some reason⟩ result

/-- What follows a claim that got a job. -/
def deliver (port : Port P Call Ans) (options : WorkerOptions)
    (handlers : String → Option (Handler P R Call Ans)) (apply : Applier P R Call Ans)
    (job : Job P) : Prog Call Ans String JobOutcome :=
  let queued {α : Type} (p : QueueProg P α) : Prog Call Ans String α := p.embed port.queue port.back
  match handlers job.kind with
  | none =>
    (queued (SqlJobQueue.terminate job.id (noHandler job.kind))).bind fun _ =>
    settle apply job ⟨job.id, job.kind, .notConfigured, false, some (noHandler job.kind)⟩
      (.err .notConfigured (noHandler job.kind))
  | some handler =>
    (handler job.payload
      ⟨job.organizationId, job.idempotencyKey, options.defaultTimeoutMs⟩).attempt.bind fun
    | .error reason =>
      (queued (SqlJobQueue.fail job.id reason)).bind fun _ =>
      settle apply job ⟨job.id, job.kind, .failed, false, some reason⟩ (.err .failed reason)
    | .ok result => finish port options apply job result

/-- `tick`: at most one job, and none when the queue is empty. -/
def tick (port : Port P Call Ans) (options : WorkerOptions)
    (handlers : String → Option (Handler P R Call Ans)) (apply : Applier P R Call Ans) :
    Prog Call Ans String (Option JobOutcome) :=
  ((SqlJobQueue.claim options.workerId options.leaseMs).embed port.queue port.back).bind fun
  | none => .ret none
  | some job => (deliver port options handlers apply job).bind fun outcome => .ret (some outcome)

end InProcessWorker

end CloudWai.Queue
