import CloudWai.Base.Interleave
import CloudWai.Queue.Sql

/-!
# Workers on the SQL queue

Any number of workers calling `SqlJobQueue` at the same time: every method call
is a thread, and its requests land one at a time, in any order with everybody
else's. A request can be lost before it reaches the database, or its answer can
be lost after it took effect; either way the caller sees an exception. Processes
die and time passes.

The world carries one ghost: `dropped`, the pairs of a worker and a job whose
lease on it the reaper took away and who has not claimed it again since. No
request reads it.

`queueDuty` is what every method keeps to: it writes no job but its own, and a
`PATCH` always takes the job out of `running` and clears its lease and deferral.

The methods are those of `packages/database/src/sql-queue.ts`, as `Sql.lean` has them.
-/

namespace CloudWai.Queue

open Base

variable {P : Type}

/-! ## The world the requests reach -/

/-- What can happen to a request on its way. -/
inductive Fault where
  | none
  /-- It never reached the database. -/
  | before (reason : String)
  /-- It took effect, and the answer was lost. -/
  | after (reason : String)

/-- Did the request take effect? -/
def Fault.Lands : Fault → Prop
  | .before _ => False
  | _ => True

instance (f : Fault) : Decidable f.Lands := by
  cases f <;> unfold Fault.Lands <;> infer_instance

/-- Did its answer arrive? -/
def Fault.Clear : Fault → Prop
  | .none => True
  | _ => False

instance (f : Fault) : Decidable f.Clear := by
  cases f <;> unfold Fault.Clear <;> infer_instance

theorem Fault.clear_iff {f : Fault} : f.Clear ↔ f = .none := by
  cases f <;> simp [Fault.Clear]

theorem Fault.Clear.lands {f : Fault} (h : f.Clear) : f.Lands := by
  rw [clear_iff.mp h]
  trivial

/-- A request's effect `a` on state `w`, as its caller sees it under a fault. -/
def Fault.apply {W A : Type} (f : Fault) (w : W) (a : Except String A × W) :
    Except String A × W :=
  match f with
  | .none => a
  | .before reason => (.error reason, w)
  | .after reason => (.error reason, a.2)

/-- A request that landed left the state it computed, any other the state before. -/
theorem Fault.apply_snd {W A : Type} (f : Fault) (w : W) (a : Except String A × W) :
    (f.apply w a).2 = if f.Lands then a.2 else w := by
  cases f <;> rfl

/-- An answer that arrived is the one computed, and nothing went wrong. -/
theorem Fault.apply_ok {W A : Type} {f : Fault} {w : W} {a : Except String A × W} {x : A}
    (h : (f.apply w a).1 = .ok x) : f = .none ∧ a.1 = .ok x := by
  cases f with
  | none => exact ⟨rfl, h⟩
  | before reason => cases h
  | after reason => cases h

/-- What the outside settles about one request: its fault, and which rows other
transactions hold locked while it runs. -/
structure QueueOracle where
  fault : Fault
  locked : JobId → Bool

/-- The jobs table and its clock. -/
structure QueueWorld (P : Type) where
  now : Instant
  jobs : JobsTable P
  /-- Ghost: whose lease on which job was reaped and not claimed anew. -/
  dropped : List (String × JobId)

/-- No jobs, and nobody has lost a lease. -/
def QueueWorld.initial (now : Instant) : QueueWorld P := ⟨now, Table.empty, []⟩

/-- The leases a reap takes. -/
def taken (t : Instant) (jobs : JobsTable P) : List (String × JobId) :=
  (jobs.rows.filter (lapsed t)).filterMap fun r => r.workerId.map (·, r.id)

/-- How a request moves the ghost. -/
def QueueWorld.track (w : QueueWorld P) (locked : JobId → Bool) :
    QueueCall P → List (String × JobId)
  | .reap t => taken t w.jobs ++ w.dropped
  | .claim worker _ =>
    match nextClaim w.now locked w.jobs with
    | some r => w.dropped.filter (· != (worker, r.id))
    | none => w.dropped
  | _ => w.dropped

/-- Reading the local clock is not a request. -/
def QueueCall.remote : QueueCall P → Bool
  | .clock => false
  | _ => true

/-- One awaited call. -/
def QueueWorld.perform (w : QueueWorld P) (o : QueueOracle) (c : QueueCall P) :
    Except String c.Ans × QueueWorld P :=
  let a := c.run w.now o.locked w.jobs
  (if c.remote then o.fault else .none).apply w
    (a.1, { w with jobs := a.2, dropped := w.track o.locked c })

/-! ## The method calls -/

/-- A call of a `JobQueue` method. The worker that makes a settling call is not
an argument of the method; it is kept to say whose call it is. -/
inductive QueueTask (P : Type) where
  | enqueue (input : EnqueueInput P)
  | claim (worker : String) (leaseMs : Nat)
  | complete (worker : String) (job : JobId)
  | fail (worker : String) (job : JobId) (reason : String)
  | terminate (worker : String) (job : JobId) (reason : String)
  | defer (worker : String) (job : JobId) (reason : String) (deferMs : Nat)
  | reapExpired (t : Option Instant)
  | get (job : JobId)

/-- Whose settling call of which job this is. -/
def QueueTask.settles : QueueTask P → Option (String × JobId)
  | .complete worker job => some (worker, job)
  | .fail worker job _ => some (worker, job)
  | .terminate worker job _ => some (worker, job)
  | .defer worker job _ _ => some (worker, job)
  | _ => none

/-- The program of a call. -/
def QueueTask.body : QueueTask P → QueueProg P Unit
  | .enqueue input => (SqlJobQueue.enqueue input).bind fun _ => .ret ()
  | .claim worker leaseMs => (SqlJobQueue.claim worker leaseMs).bind fun _ => .ret ()
  | .complete _ job => SqlJobQueue.complete job
  | .fail _ job reason => SqlJobQueue.fail job reason
  | .terminate _ job reason => SqlJobQueue.terminate job reason
  | .defer _ job reason deferMs => SqlJobQueue.defer job reason deferMs
  | .reapExpired (some t) => (SqlJobQueue.reapExpired t).bind fun _ => .ret ()
  | .reapExpired none =>
    SqlJobQueue.now.bind fun t => (SqlJobQueue.reapExpired t).bind fun _ => .ret ()
  | .get job => (SqlJobQueue.get job).bind fun _ => .ret ()

/-- The queue with everybody on it; time drifts by milliseconds. -/
def queueHost (P : Type) :
    Host (QueueWorld P) QueueOracle Nat (QueueTask P) (QueueCall P) QueueCall.Ans String where
  perform := QueueWorld.perform
  drift w ms := { w with now := w.now + ms }
  body := QueueTask.body

/-- A jobs table with the calls that run over it. -/
abbrev QueueSys (P : Type) :=
  Sys (QueueWorld P) (QueueTask P) (QueueCall P) QueueCall.Ans String

abbrev QueueMove (P : Type) := Move (QueueTask P) QueueOracle Nat

/-! ## What every method keeps to -/

/-- The shape of every patch the queue writes: out of `running`, no lease, no
deferral, and an end unless the job waits again. -/
structure JobPatch.Settles (p : JobPatch) : Prop where
  state : p.state ≠ .running
  lease : p.leaseExpiresAt = none
  deferral : p.deferredUntil = none
  finish : p.finishedAt = none ↔ p.state = .queued

instance (p : JobPatch) : Decidable p.Settles :=
  decidable_of_iff (p.state ≠ .running ∧ p.leaseExpiresAt = none ∧ p.deferredUntil = none ∧
      (p.finishedAt = none ↔ p.state = .queued))
    ⟨fun h => ⟨h.1, h.2.1, h.2.2.1, h.2.2.2⟩,
      fun h => ⟨h.state, h.lease, h.deferral, h.finish⟩⟩

/-- A method working on job `own` may write that job, and only as `Settles`
says; only a method working on no job in particular writes the others. -/
def Keeps (own : Option JobId) : QueueCall P → Prop
  | .patch id p => own = some id ∧ p.Settles
  | .defer id _ _ => own = some id
  | .insert _ => own = none
  | .claim _ _ => own = none
  | .reap _ => own = none
  | _ => True

instance (own : Option JobId) (c : QueueCall P) : Decidable (Keeps own c) := by
  cases c <;> unfold Keeps <;> infer_instance

/-- The protocol with one stage per method call: the job it may write. -/
def queueProtocol (P : Type) : Protocol (QueueCall P) QueueCall.Ans String (Option JobId) where
  next own c _ := if Keeps own c then some own else none
  Possible _ _ := True

/-- A call that settles a job is about that one. -/
def queueDuty (P : Type) : Duty (QueueTask P) (QueueCall P) QueueCall.Ans String (Option JobId) where
  protocol := queueProtocol P
  first t := t.settles.map Prod.snd
  ends _ _ _ := True

/-- The stage of a method call never moves. -/
private abbrev Stays {α : Type} (own : Option JobId) : Except String α → Option JobId → Prop :=
  fun _ x => x = own

private theorem next_of_keeps {own : Option JobId} {c : QueueCall P} {r : Except String c.Ans}
    (h : Keeps own c) : (queueProtocol P).next own c r = some own :=
  if_pos h

private theorem follows_must {own : Option JobId} {op : String} {c : QueueCall P}
    (h : Keeps own c) : (queueProtocol P).Follows (Stays own) own (must op c) := by
  intro r _
  refine ⟨own, next_of_keeps h, ?_⟩
  cases r <;> rfl

private theorem follows_now {own : Option JobId} :
    (queueProtocol P).Follows (Stays own) own SqlJobQueue.now :=
  Protocol.follows_call fun _ _ => ⟨own, next_of_keeps trivial, rfl⟩

private theorem follows_then {α β : Type} {own : Option JobId} {p : QueueProg P α}
    {f : α → QueueProg P β} (hp : (queueProtocol P).Follows (Stays own) own p)
    (hf : ∀ a, (queueProtocol P).Follows (Stays own) own (f a)) :
    (queueProtocol P).Follows (Stays own) own (p.bind f) := by
  refine Protocol.follows_bind hp ?_ (fun _ _ h => h)
  intro a x hx
  rw [hx]
  exact hf a

private theorem follows_patch {id : JobId} {p : JobPatch} (h : p.Settles) :
    (queueProtocol P).Follows (Stays (some id)) (some id) (SqlJobQueue.patch id p) :=
  follows_then (follows_must ⟨rfl, h⟩) fun _ => rfl

private theorem follows_get {own : Option JobId} {id : JobId} :
    (queueProtocol P).Follows (Stays own) own (SqlJobQueue.get id) :=
  follows_then (follows_must trivial) fun _ => rfl

private theorem follows_enqueue {input : EnqueueInput P} :
    (queueProtocol P).Follows (Stays none) none (SqlJobQueue.enqueue input) := by
  refine follows_then (follows_must rfl) fun inserted => ?_
  split
  · rfl
  · refine follows_then (follows_then (follows_must trivial) fun _ => rfl) fun existing => ?_
    split <;> rfl

private theorem follows_complete {id : JobId} :
    (queueProtocol P).Follows (Stays (some id)) (some id) (SqlJobQueue.complete id) :=
  follows_then follows_now fun _ => follows_patch ⟨by simp, rfl, rfl, by simp⟩

private theorem follows_terminate {id : JobId} {reason : String} :
    (queueProtocol P).Follows (Stays (some id)) (some id) (SqlJobQueue.terminate id reason) :=
  follows_then follows_now fun _ => follows_patch ⟨by simp, rfl, rfl, by simp⟩

private theorem follows_fail {id : JobId} {reason : String} :
    (queueProtocol P).Follows (Stays (some id)) (some id) (SqlJobQueue.fail id reason) := by
  refine follows_then follows_get fun current => ?_
  split
  · rfl
  split
  · exact follows_then follows_now fun _ => follows_patch ⟨by simp, rfl, rfl, by simp⟩
  · exact follows_patch ⟨by simp, rfl, rfl, by simp⟩

/-- **Every method keeps to its own job.** -/
theorem queueTask_follows (t : QueueTask P) :
    (queueProtocol P).Follows ((queueDuty P).ends t) ((queueDuty P).first t) t.body := by
  refine Protocol.follows_mono (Q := Stays (t.settles.map Prod.snd)) (fun _ _ _ => trivial) ?_
  cases t with
  | enqueue input => exact follows_then follows_enqueue fun _ => rfl
  | claim worker leaseMs =>
    exact follows_then (follows_then (follows_must rfl) fun _ => rfl) fun _ => rfl
  | complete worker job => exact follows_complete
  | fail worker job reason => exact follows_fail
  | terminate worker job reason => exact follows_terminate
  | defer worker job reason deferMs => exact follows_then (follows_must rfl) fun _ => rfl
  | reapExpired t =>
    cases t with
    | some t => exact follows_then (follows_must rfl) fun _ => rfl
    | none => exact follows_then follows_now fun _ => follows_then (follows_must rfl) fun _ => rfl
  | get job => exact follows_then follows_get fun _ => rfl

theorem queue_answers (w : QueueWorld P) : (queueHost P).Answers (queueDuty P) w :=
  fun _ _ => trivial

/-- Every state of a run is typed, so any call a live method makes is one it may make. -/
theorem queue_typed_step {s : QueueSys P} (h : s.Typed (queueDuty P)) (l : QueueMove P) :
    ((queueHost P).step s l).Typed (queueDuty P) :=
  typed_step queueTask_follows (queue_answers s.world) h l

/-- What the protocol's move says: the stage stays, and the call was allowed. -/
theorem queue_next {own x' : Option JobId} {c : QueueCall P} {r : Except String c.Ans}
    (h : (queueProtocol P).next own c r = some x') : Keeps own c := by
  simp only [queueProtocol] at h
  split at h
  next hk => exact hk
  next => exact absurd h (by simp)

/-- A thread's stage is the job its task settles, for as long as it lives. -/
theorem queue_stage {s : QueueSys P} {tid : Nat} {th : Thread (QueueTask P) (QueueCall P)
    QueueCall.Ans String} {x : Option JobId} (hth : s.live tid = some th)
    (hx : s.stage (queueProtocol P) (queueDuty P).first tid = some x) :
    x = th.task.settles.map Prod.snd := by
  rw [Sys.stage, hth, Option.bind_some] at hx
  generalize th.past = past at hx
  induction past generalizing x with
  | nil => exact (Option.some.inj hx).symm
  | cons e past ih =>
    obtain ⟨y, hy, hnext⟩ := Option.bind_eq_some_iff.mp hx
    simp only [queueProtocol] at hnext
    split at hnext
    · rw [← Option.some.inj hnext]
      exact ih hy
    · exact absurd hnext (by simp)

end CloudWai.Queue
