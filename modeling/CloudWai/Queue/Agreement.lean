import CloudWai.Base.Machine
import CloudWai.Base.Pairing
import CloudWai.Queue.Memory
import Mathlib.Data.Nat.Cast.Order.Ring

/-!
# The two queues side by side

The tests run `InMemoryJobQueue`, production runs `SqlJobQueue`. Here the same
operations are applied to both, one after the other and undisturbed, and what
callers see is compared: the job each call returns, the count of each reap, and
every job's state, attempts, last error, lease and deferral.

An operation names a job by its place in the order of enqueueing, so the two
queues' own ids — `job-1`, `job-2`, … and the database's — never meet. Leases
and deferrals are whole seconds, and an enqueue first moves the clock on, so
enqueues happen at strictly increasing times.

`Paired` is the simulation relation: the same jobs in the same order, equal up
to id and the two timestamps nobody compares. `Alike` is the condition under
which one operation keeps the queues together, and `queues_agree_iff` says that
a list of operations keeps them together exactly if each of them meets it.

About `packages/adapters/src/queue.ts` and `packages/database/src/sql-queue.ts`, as
`Memory.lean` and `Sql.lean` have them.
-/

namespace CloudWai.Queue

open Base

variable {P : Type} {rd : Reader P}

/-! ## Operations and answers -/

/-- One call on either queue, or a wait. -/
inductive QueueOp (P : Type) where
  | wait (ms : Nat)
  | enqueue (later : Nat) (input : EnqueueInput P)
  | claim (worker : String) (leaseSeconds : Nat)
  | complete (job : Nat)
  | fail (job : Nat) (reason : String)
  | terminate (job : Nat) (reason : String)
  | defer (job : Nat) (reason : String) (deferSeconds : Nat)
  | reapExpired (t : Option Instant)
  | get (job : Nat)

/-- The time at which the operation happens, from the time before it. -/
def QueueOp.clock (now : Instant) : QueueOp P → Instant
  | .wait ms => now + ms
  | .enqueue later _ => now + later + 1
  | _ => now

/-- What a call returns, a job as its place and its comparable fields. -/
inductive QueueAnswer (P : Type) where
  | nothing
  | job (found : Option (Nat × StoredJob P))
  | count (n : Nat)

/-- A row as an object like those of the other queue. -/
def Job.stored (j : Job P) : StoredJob P :=
  { id := j.id
    organizationId := j.organizationId
    kind := j.kind
    payload := j.payload
    idempotencyKey := j.idempotencyKey
    state := j.state
    attempts := j.attempts
    maxAttempts := j.maxAttempts
    createdAt := j.createdAt
    startedAt := j.startedAt
    finishedAt := j.finishedAt
    lastError := j.lastError
    leaseExpiresAt := j.leaseExpiresAt
    deferredUntil := j.deferredUntil }

/-- A job without its id and without the times at which it started and finished. -/
def StoredJob.shown (j : StoredJob P) : StoredJob P :=
  { j with id := 0, startedAt := none, finishedAt := none }

/-- The five fields that are compared for every job after every operation. -/
def StoredJob.status (j : StoredJob P) :
    JobState × Nat × Option String × Option Instant × Option Instant :=
  (j.state, j.attempts, j.lastError, j.leaseExpiresAt, j.deferredUntil)

/-- `job-1` is the first job enqueued. -/
def memShown (j : StoredJob P) : Nat × StoredJob P := (j.id - 1, j.shown)

/-- What is compared of a row. -/
def sqlShown (j : Job P) : Nat × StoredJob P := (j.id, j.stored.shown)

/-- An operation on the in-memory queue. -/
def memRun (now : Instant) (q : MemQueue P) : QueueOp P → QueueAnswer P × MemQueue P
  | .wait _ => (.nothing, q)
  | .enqueue _ input =>
    let a := InMemoryJobQueue.enqueue now input q
    (.job (some (memShown a.1)), a.2)
  | .claim worker leaseSeconds =>
    let a := InMemoryJobQueue.claim now worker (leaseSeconds * 1000) q
    (.job (a.1.map memShown), a.2)
  | .complete job => (.nothing, InMemoryJobQueue.complete now (job + 1) q)
  | .fail job reason => (.nothing, InMemoryJobQueue.fail now (job + 1) reason q)
  | .terminate job reason => (.nothing, InMemoryJobQueue.terminate now (job + 1) reason q)
  | .defer job reason deferSeconds =>
    (.nothing, InMemoryJobQueue.defer now (job + 1) reason (deferSeconds * 1000) q)
  | .reapExpired t =>
    let a := InMemoryJobQueue.reapExpired (t.getD now) q
    (.count a.1, a.2)
  | .get job => (.job ((InMemoryJobQueue.get q (job + 1)).map memShown), q)

/-- The same call as a program of requests. -/
def sqlCall : QueueOp P → QueueProg P (QueueAnswer P)
  | .wait _ => .ret .nothing
  | .enqueue _ input => (SqlJobQueue.enqueue input).bind fun j => .ret (.job (some (sqlShown j)))
  | .claim worker leaseSeconds =>
    (SqlJobQueue.claim worker (leaseSeconds * 1000)).bind fun j => .ret (.job (j.map sqlShown))
  | .complete job => (SqlJobQueue.complete job).bind fun _ => .ret .nothing
  | .fail job reason => (SqlJobQueue.fail job reason).bind fun _ => .ret .nothing
  | .terminate job reason => (SqlJobQueue.terminate job reason).bind fun _ => .ret .nothing
  | .defer job reason deferSeconds =>
    (SqlJobQueue.defer job reason (deferSeconds * 1000)).bind fun _ => .ret .nothing
  | .reapExpired (some t) => (SqlJobQueue.reapExpired t).bind fun n => .ret (.count n)
  | .reapExpired none =>
    SqlJobQueue.now.bind fun t => (SqlJobQueue.reapExpired t).bind fun n => .ret (.count n)
  | .get job => (SqlJobQueue.get job).bind fun j => .ret (.job (j.map sqlShown))

/-- No other transaction holds a lock. -/
def undisturbed (rd : Reader P) (now : Instant) (jobs : JobsTable P) (c : QueueCall P) :
    Except String c.Ans × JobsTable P :=
  c.answer rd now (fun _ => false) jobs

/-- The same on the database, whose requests all arrive. -/
def sqlRun (rd : Reader P) (now : Instant) (jobs : JobsTable P) (op : QueueOp P) :
    Except String (QueueAnswer P) × JobsTable P :=
  (sqlCall op).eval (undisturbed rd now) jobs

/-! ## Both at once -/

/-- The two queues, side by side under one clock. -/
structure TwoQueues (P : Type) where
  now : Instant
  mem : MemQueue P
  sql : JobsTable P

/-- No jobs. -/
def TwoQueues.initial (now : Instant) : TwoQueues P := ⟨now, ⟨[], 0⟩, Table.empty⟩

/-- The same operation on both. -/
def TwoQueues.step (rd : Reader P) (s : TwoQueues P) (op : QueueOp P) : TwoQueues P where
  now := op.clock s.now
  mem := (memRun (op.clock s.now) s.mem op).2
  sql := (sqlRun rd (op.clock s.now) s.sql op).2

/-- Nobody can tell the queues apart by this operation: it returns the same from
both, and leaves every job alike in both. -/
def Agrees (rd : Reader P) (s : TwoQueues P) (op : QueueOp P) : Prop :=
  (sqlRun rd (op.clock s.now) s.sql op).1 = .ok (memRun (op.clock s.now) s.mem op).1 ∧
    (s.step rd op).mem.jobs.map StoredJob.status =
      (s.step rd op).sql.rows.map fun r => r.toJob.stored.status

/-- No job under this place, or one without a deferral. -/
def Undeferred (s : TwoQueues P) (job : Nat) : Prop :=
  ∀ j, InMemoryJobQueue.get s.mem (job + 1) = some j → j.deferredUntil = none

/-- What keeps the queues together, operation by operation. -/
def Alike (rd : Reader P) (s : TwoQueues P) : QueueOp P → Prop
  | .enqueue _ input =>
    -- what the columns take, and a joined key that means what its parts mean
    (rd.text input.kind = true ∧ rd.text input.idempotencyKey = true ∧
      rd.payload input.payload = true) ∧
    IsAttempts (input.maxAttempts.getD 3) ∧
      ∀ j, s.mem.jobs.find? (InMemoryJobQueue.Keyed
          (InMemoryJobQueue.keyOf input.organizationId input.kind input.idempotencyKey)) = some j →
        j.organizationId = input.organizationId ∧ j.kind = input.kind ∧
          j.idempotencyKey = input.idempotencyKey
  | .claim worker leaseSeconds =>
    (rd.text worker = true ∧ leaseSeconds ≤ maxInteger) ∧ blank worker = false ∧
      (leaseSeconds = 0 → s.mem.jobs.find? (InMemoryJobQueue.takes s.now) = none)
  | .complete job => Undeferred s job
  | .fail job reason =>
    -- an unknown job is not written to
    (InMemoryJobQueue.get s.mem (job + 1) ≠ none → rd.text reason = true) ∧ Undeferred s job
  | .terminate job reason => rd.text reason = true ∧ Undeferred s job
  | .defer job reason deferSeconds =>
    (rd.text reason = true ∧ deferSeconds ≤ maxInteger) ∧
      ∀ j, InMemoryJobQueue.get s.mem (job + 1) = some j →
        j.state = .running ∨
          (InMemoryJobQueue.deferred s.now reason (deferSeconds * 1000) j).status = j.status
  | _ => True

/-! ## The simulation relation -/

/-- One job in both queues. -/
def Same (j : StoredJob P) (r : JobRow P) : Prop :=
  ∃ started finished,
    j = { r.toJob.stored with id := r.id + 1, startedAt := started, finishedAt := finished }

/-- The simulation: the same jobs in the same order, and the next id is the same. -/
structure Paired (s : TwoQueues P) : Prop where
  same : List.Forall₂ Same s.mem.jobs s.sql.rows
  ids : s.mem.counter = s.sql.nextId
  order : s.sql.rows.Pairwise fun a b => a.createdAt < b.createdAt
  aged : ∀ r ∈ s.sql.rows, r.createdAt ≤ s.now

theorem paired_initial (now : Instant) : Paired (TwoQueues.initial now : TwoQueues P) where
  same := .nil
  ids := rfl
  order := .nil
  aged _ h := absurd h List.not_mem_nil

theorem Same.status {j : StoredJob P} {r : JobRow P} (h : Same j r) : j.status = r.toJob.stored.status := by
  obtain ⟨_, _, rfl⟩ := h
  rfl

theorem Same.shown {j : StoredJob P} {r : JobRow P} (h : Same j r) :
    memShown j = sqlShown r.toJob := by
  obtain ⟨_, _, rfl⟩ := h
  rfl

theorem Same.id_beq {j : StoredJob P} {r : JobRow P} (h : Same j r) (job : Nat) :
    (j.id == job + 1) = (r.id == job) := by
  obtain ⟨_, _, rfl⟩ := h
  simp

theorem Same.takes {j : StoredJob P} {r : JobRow P} (h : Same j r) (now : Instant) :
    InMemoryJobQueue.takes now j = claimable now r := by
  obtain ⟨_, _, rfl⟩ := h
  have hleft : decide ((r.attempts : ℚ) < (r.maxAttempts : ℚ)) = decide (r.attempts < r.maxAttempts) :=
    decide_eq_decide.mpr Nat.cast_lt
  unfold InMemoryJobQueue.takes claimable
  rw [← hleft]
  rfl

theorem Same.lapsed {j : StoredJob P} {r : JobRow P} (h : Same j r) (now : Instant) :
    InMemoryJobQueue.lapsed now j = lapsed now r := by
  obtain ⟨_, _, rfl⟩ := h
  rfl

/-- The same status everywhere follows from the relation. -/
theorem Paired.statuses {s : TwoQueues P} (h : Paired s) :
    s.mem.jobs.map StoredJob.status = s.sql.rows.map fun r => r.toJob.stored.status :=
  forall₂_map_eq h.same fun _ _ => Same.status

/-- Both queues find the same job under a place, or neither does. -/
theorem Paired.find {s : TwoQueues P} (h : Paired s) (job : Nat) :
    (InMemoryJobQueue.get s.mem (job + 1) = none ∧ s.sql.find job = none) ∨
      ∃ j r, InMemoryJobQueue.get s.mem (job + 1) = some j ∧ s.sql.find job = some r ∧ Same j r :=
  forall₂_find? h.same fun _ r hjr => by
    rw [hjr.id_beq job]
    rfl

/-! ## Edits of one job -/

/-- Changing every job in one queue and updating every row in the other keeps
them paired if each job stays the same job. -/
theorem paired_update {s : TwoQueues P} (h : Paired s) {F : StoredJob P → StoredJob P} {p : JobRow P → Bool}
    {e : JobEdit P} (hcreated : ∀ r, (e.run r).createdAt = r.createdAt)
    (hsame : ∀ j r, r ∈ s.sql → Same j r → Same (F j) (e.on p r)) :
    Paired ⟨s.now, { s.mem with jobs := s.mem.jobs.map F }, s.sql.update p e⟩ := by
  have hon : ∀ r, (e.on p r).createdAt = r.createdAt := by
    intro r
    unfold Table.Edit.on
    split
    · exact hcreated r
    · rfl
  refine ⟨forall₂_map h.same fun j r _ hr hjr => hsame j r hr hjr, ?_, ?_, ?_⟩
  · rw [Table.nextId_update]
    exact h.ids
  · change (s.sql.rows.map (e.on p)).Pairwise _
    rw [List.pairwise_map]
    simpa only [hon] using h.order
  · intro r hr
    obtain ⟨r', hr', rfl⟩ := List.mem_map.mp hr
    rw [hon]
    exact h.aged r' hr'

/-- The same for the job in place `job` alone. -/
theorem paired_edit {s : TwoQueues P} (h : Paired s) {job : Nat} {F : StoredJob P → StoredJob P}
    {p : JobRow P → Bool} {e : JobEdit P} (hmiss : ∀ r, r.id ≠ job → p r = false)
    (hcreated : ∀ r, (e.run r).createdAt = r.createdAt)
    (hsame : ∀ j r, s.sql.find job = some r → Same j r → Same (F j) (e.on p r)) :
    Paired ⟨s.now, InMemoryJobQueue.alter s.mem (job + 1) F, s.sql.update p e⟩ := by
  refine paired_update h hcreated ?_
  intro j r hr hjr
  have hid := hjr.id_beq job
  cases hjob : r.id == job with
  | true =>
    rw [hjob] at hid
    rw [if_pos hid]
    exact hsame j r (Table.find_eq_some.mpr ⟨hr, beq_iff_eq.mp hjob⟩) hjr
  | false =>
    rw [hjob] at hid
    rw [if_neg (by simp [hid]), Table.Edit.on_miss (hmiss r (by simpa using hjob))]
    exact hjr

/-- If an edit of one job leaves every status alike, it does so for that job. -/
theorem edit_status {s : TwoQueues P} (h : Paired s) {job : Nat} {F : StoredJob P → StoredJob P}
    {p : JobRow P → Bool} {e : JobEdit P}
    (heq : (InMemoryJobQueue.alter s.mem (job + 1) F).jobs.map StoredJob.status =
      (s.sql.update p e).rows.map fun r => r.toJob.stored.status) {j : StoredJob P}
    (hj : InMemoryJobQueue.get s.mem (job + 1) = some j) :
    ∃ r, s.sql.find job = some r ∧ Same j r ∧ (F j).status = (e.on p r).toJob.stored.status := by
  simp only [InMemoryJobQueue.alter, Table.update, List.map_map] at heq
  obtain ⟨r, hr, hjr, hst⟩ := forall₂_find?_of_map_eq h.same
    (fun _ r hjr => hjr.id_beq job) heq hj
  have hid : (j.id == job + 1) = true := by
    have hfound := List.find?_some hj
    simpa using hfound
  simp only [Function.comp, hid, if_true] at hst
  exact ⟨r, hr, hjr, hst⟩

/-! ## The SQL calls, run undisturbed -/

section Calls

variable {α : Type} {now : Instant} {jobs jobs' : JobsTable P} {c : QueueCall P}
variable {operation : String}

theorem undisturbed_run (h : c.readable rd = true) :
    undisturbed rd now jobs c = c.run now (fun _ => false) jobs := if_pos h

theorem undisturbed_refused (h : c.readable rd = false) :
    undisturbed rd now jobs c = (.error "the request returned 400.", jobs) := by
  unfold undisturbed QueueCall.answer
  rw [h]
  rfl

theorem eval_must {a : c.Ans} (h : undisturbed rd now jobs c = (.ok a, jobs')) :
    (must operation c).eval (undisturbed rd now) jobs = (.ok a, jobs') := by
  simp only [must, Prog.eval, h]

theorem eval_must_refused {e : String} (h : undisturbed rd now jobs c = (.error e, jobs')) :
    (must operation c).eval (undisturbed rd now) jobs = (.error (unavailable operation e), jobs') := by
  simp only [must, Prog.eval, h]

theorem eval_now :
    (SqlJobQueue.now : QueueProg P Instant).eval (undisturbed rd now) jobs = (.ok now, jobs) := rfl

theorem readable_patch {id : JobId} {p : JobPatch} :
    (QueueCall.patch id p : QueueCall P).readable rd = p.lastError.all rd.text := rfl

theorem eval_patch {id : JobId} {p : JobPatch} (h : p.lastError.all rd.text = true) :
    (SqlJobQueue.patch id p).eval (undisturbed rd now) jobs = (.ok (), patchJob id p jobs) := by
  unfold SqlJobQueue.patch
  rw [Prog.eval_bind, eval_must (undisturbed_run (readable_patch.trans h))]
  rfl

theorem eval_patch_refused {id : JobId} {p : JobPatch} (h : p.lastError.all rd.text = false) :
    (SqlJobQueue.patch id p).eval (undisturbed rd now) jobs =
      (.error (unavailable "update" "the request returned 400."), jobs) := by
  unfold SqlJobQueue.patch
  rw [Prog.eval_bind, eval_must_refused (undisturbed_refused (readable_patch.trans h))]

theorem eval_get {id : JobId} :
    (SqlJobQueue.get id).eval (undisturbed rd now) jobs =
      (.ok ((jobs.find id).map (·.toJob)), jobs) := by
  unfold SqlJobQueue.get
  rw [Prog.eval_bind, eval_must (undisturbed_run rfl)]
  cases jobs.find id <;> rfl

end Calls

theorem sql_complete (now : Instant) (jobs : JobsTable P) (job : Nat) :
    sqlRun rd now jobs (.complete job) =
      (.ok .nothing, patchJob job ⟨.succeeded, none, some now, none, none⟩ jobs) := rfl

theorem sql_terminate (now : Instant) (jobs : JobsTable P) (job : Nat) {reason : String}
    (h : rd.text reason = true) :
    sqlRun rd now jobs (.terminate job reason) =
      (.ok .nothing, patchJob job ⟨.failed, some reason, some now, none, none⟩ jobs) := by
  have hpatch : (JobPatch.mk .failed (some reason) (some now) none none).lastError.all rd.text =
      true := h
  simp only [sqlRun, sqlCall, SqlJobQueue.terminate, Prog.eval_bind, eval_now]
  rw [eval_patch hpatch]
  rfl

theorem sql_terminate_refused (now : Instant) (jobs : JobsTable P) (job : Nat) {reason : String}
    (h : rd.text reason = false) : ∃ e, (sqlRun rd now jobs (.terminate job reason)).1 = .error e := by
  have hpatch : (JobPatch.mk .failed (some reason) (some now) none none).lastError.all rd.text =
      false := h
  simp only [sqlRun, sqlCall, SqlJobQueue.terminate, Prog.eval_bind, eval_now]
  rw [eval_patch_refused hpatch]
  exact ⟨_, rfl⟩

/-- The patch `fail` sends after reading row `r`. -/
def failPatch (now : Instant) (reason : String) (r : JobRow P) : JobPatch :=
  if r.maxAttempts ≤ r.attempts then ⟨.failed, some reason, some now, none, none⟩
  else ⟨.queued, some reason, none, none, none⟩

theorem failPatch_lastError (now : Instant) (reason : String) (r : JobRow P) :
    (failPatch now reason r).lastError = some reason := by
  unfold failPatch
  split <;> rfl

theorem sql_fail_none {now : Instant} {jobs : JobsTable P} {job : Nat} {reason : String}
    (h : jobs.find job = none) : sqlRun rd now jobs (.fail job reason) = (.ok .nothing, jobs) := by
  simp only [sqlRun, sqlCall, SqlJobQueue.fail, Prog.eval_bind, eval_get, h]
  rfl

/-- What `fail` does once it has read the row. -/
theorem eval_fail {now : Instant} {jobs : JobsTable P} {job : Nat} {reason : String} {r : JobRow P}
    (h : jobs.find job = some r) :
    (SqlJobQueue.fail job reason).eval (undisturbed rd now) jobs =
      (SqlJobQueue.patch job (failPatch now reason r)).eval (undisturbed rd now) jobs := by
  simp only [SqlJobQueue.fail, Prog.eval_bind, eval_get, h, Option.map_some, failPatch]
  split
  · rw [Prog.eval_bind, eval_now]
  · rfl

theorem sql_fail_some {now : Instant} {jobs : JobsTable P} {job : Nat} {reason : String}
    {r : JobRow P} (h : jobs.find job = some r) (hreason : rd.text reason = true) :
    sqlRun rd now jobs (.fail job reason) =
      (.ok .nothing, patchJob job (failPatch now reason r) jobs) := by
  simp only [sqlRun, sqlCall, Prog.eval_bind, eval_fail h]
  rw [eval_patch (by rw [failPatch_lastError]; exact hreason)]
  rfl

theorem sql_fail_refused {now : Instant} {jobs : JobsTable P} {job : Nat} {reason : String}
    {r : JobRow P} (h : jobs.find job = some r) (hreason : rd.text reason = false) :
    ∃ e, (sqlRun rd now jobs (.fail job reason)).1 = .error e := by
  simp only [sqlRun, sqlCall, Prog.eval_bind, eval_fail h]
  rw [eval_patch_refused (by rw [failPatch_lastError]; exact hreason)]
  exact ⟨_, rfl⟩

theorem defer_readable_iff {id : JobId} {reason : String} {n : Nat} :
    (QueueCall.defer id reason (SqlJobQueue.deferSeconds (n * 1000)) : QueueCall P).readable rd =
      true ↔ rd.text reason = true ∧ n ≤ maxInteger := by
  have hn : SqlJobQueue.deferSeconds (n * 1000) = n := by
    unfold SqlJobQueue.deferSeconds
    omega
  rw [QueueCall.readable, Bool.and_eq_true, decide_eq_true_iff, hn]

theorem sql_defer (now : Instant) (jobs : JobsTable P) (job : Nat) {reason : String} {n : Nat}
    (h : rd.text reason = true ∧ n ≤ maxInteger) :
    sqlRun rd now jobs (.defer job reason n) =
      (.ok .nothing, jobs.update (runningJob job) ⟨deferred now reason n, fun _ => rfl⟩) := by
  have hn : SqlJobQueue.deferSeconds (n * 1000) = n := by
    unfold SqlJobQueue.deferSeconds
    omega
  simp only [sqlRun, sqlCall, SqlJobQueue.defer, Prog.eval_bind,
    eval_must (undisturbed_run (defer_readable_iff.mpr h))]
  change (_, jobs.update _ ⟨deferred now reason (SqlJobQueue.deferSeconds (n * 1000)), _⟩) = _
  simp only [hn]

theorem sql_defer_refused (now : Instant) (jobs : JobsTable P) (job : Nat) {reason : String} {n : Nat}
    (h : ¬ (rd.text reason = true ∧ n ≤ maxInteger)) :
    ∃ e, (sqlRun rd now jobs (.defer job reason n)).1 = .error e := by
  have hunread : (QueueCall.defer job reason (SqlJobQueue.deferSeconds (n * 1000)) :
      QueueCall P).readable rd = false :=
    Bool.eq_false_iff.mpr fun hread => h (defer_readable_iff.mp hread)
  simp only [sqlRun, sqlCall, SqlJobQueue.defer, Prog.eval_bind,
    eval_must_refused (undisturbed_refused hunread)]
  exact ⟨_, rfl⟩

theorem sql_reap (now : Instant) (jobs : JobsTable P) (t : Option Instant) :
    sqlRun rd now jobs (.reapExpired t) =
      (.ok (.count (jobs.rows.countP (lapsed (t.getD now)))),
        jobs.update (lapsed (t.getD now)) ⟨reaped (t.getD now), reaped_id (t.getD now)⟩) := by
  cases t <;> rfl

theorem sql_get (now : Instant) (jobs : JobsTable P) (job : Nat) :
    sqlRun rd now jobs (.get job) =
      (.ok (.job ((jobs.find job).map fun r => sqlShown r.toJob)), jobs) := by
  simp only [sqlRun, sqlCall, Prog.eval_bind, eval_get, Prog.eval_ret, Option.map_map]
  rfl

/-- Rows are in order of creation, so the oldest claimable one is the first. -/
theorem nextClaim_eq_find? {now : Instant} {jobs : JobsTable P}
    (h : jobs.rows.Pairwise fun a b => a.createdAt < b.createdAt) :
    nextClaim now (fun _ => false) jobs = jobs.rows.find? (claimable now) := by
  unfold nextClaim
  simp only [Bool.not_false, Bool.and_true]
  rw [argmin_of_pairwise (h.filter _), List.head?_filter]

theorem leaseSeconds_mul (n : Nat) : SqlJobQueue.leaseSeconds (n * 1000) = max 1 n := by
  unfold SqlJobQueue.leaseSeconds
  omega

theorem claim_readable_iff {worker : String} {n : Nat} :
    (QueueCall.claim worker (max 1 n) : QueueCall P).readable rd = true ↔
      rd.text worker = true ∧ n ≤ maxInteger := by
  have hle : max 1 n ≤ maxInteger ↔ n ≤ maxInteger := by
    unfold maxInteger
    omega
  rw [QueueCall.readable, Bool.and_eq_true, decide_eq_true_iff, hle]

/-- A claim of the database takes the first job that can be claimed. -/
theorem sql_claim (now : Instant) {jobs : JobsTable P}
    (h : jobs.rows.Pairwise fun a b => a.createdAt < b.createdAt) {worker : String} {n : Nat}
    (hread : rd.text worker = true ∧ n ≤ maxInteger) (hw : blank worker = false) :
    sqlRun rd now jobs (.claim worker n) =
      match jobs.rows.find? (claimable now) with
      | none => (.ok (.job none), jobs)
      | some r =>
        (.ok (.job (some (sqlShown (leased now worker (max 1 n) r).toJob))),
          jobs.update (fun r' => r'.id == r.id) ⟨leased now worker (max 1 n), fun _ => rfl⟩) := by
  have hpos : max 1 n ≠ 0 := by omega
  have hrun := @undisturbed_run P rd now jobs _ (claim_readable_iff.mpr hread)
  simp only [QueueCall.run, claimOrchestrationJob, hw, hpos, Bool.false_eq_true, if_false,
    nextClaim_eq_find? h] at hrun
  rw [← leaseSeconds_mul n] at hrun
  simp only [sqlRun, sqlCall, SqlJobQueue.claim, Prog.eval_bind]
  rw [← leaseSeconds_mul n]
  cases hfind : jobs.rows.find? (claimable now) with
  | none =>
    rw [hfind] at hrun
    rw [eval_must hrun]
    rfl
  | some r =>
    rw [hfind] at hrun
    rw [eval_must hrun]
    rfl

/-- The database refuses what it cannot read, and a blank worker id. -/
theorem sql_claim_refused (now : Instant) (jobs : JobsTable P) {worker : String} {n : Nat}
    (h : ¬ ((rd.text worker = true ∧ n ≤ maxInteger) ∧ blank worker = false)) :
    ∃ e, (sqlRun rd now jobs (.claim worker n)).1 = .error e := by
  have hrefused : ∃ e, undisturbed rd now jobs (.claim worker (max 1 n)) = (.error e, jobs) := by
    cases hread : (QueueCall.claim worker (max 1 n) : QueueCall P).readable rd with
    | false => exact ⟨_, undisturbed_refused hread⟩
    | true =>
      have hw : blank worker = true := by simpa [claim_readable_iff.mp hread] using h
      refine ⟨"POST /rpc/claim_orchestration_job returned 400.", (undisturbed_run hread).trans ?_⟩
      simp only [QueueCall.run, claimOrchestrationJob, hw, if_true]
      rfl
  obtain ⟨e, he⟩ := hrefused
  rw [← leaseSeconds_mul n] at he
  simp only [sqlRun, sqlCall, SqlJobQueue.claim, Prog.eval_bind, eval_must_refused he]
  exact ⟨_, rfl⟩

/-- The columns an enqueue sends. -/
def newJobOf (input : EnqueueInput P) : NewJob P where
  organizationId := input.organizationId
  kind := input.kind
  payload := input.payload
  idempotencyKey := input.idempotencyKey
  maxAttempts := input.maxAttempts.getD SqlJobQueue.defaultMaxAttempts

/-- The columns take what an enqueue sends. -/
structure Stored (rd : Reader P) (input : EnqueueInput P) : Prop where
  texts : rd.text input.kind = true ∧ rd.text input.idempotencyKey = true ∧
    rd.payload input.payload = true
  attempts : IsAttempts (input.maxAttempts.getD SqlJobQueue.defaultMaxAttempts)

theorem sql_enqueue_refused {now : Instant} {jobs : JobsTable P} {input : EnqueueInput P}
    (h : ¬ Stored rd input) (later : Nat) :
    ∃ e, (sqlRun rd now jobs (.enqueue later input)).1 = .error e := by
  have hrefused : ∃ e, undisturbed rd now jobs (.insert (newJobOf input)) = (.error e, jobs) := by
    cases hread : (QueueCall.insert (newJobOf input)).readable rd with
    | false => exact ⟨_, undisturbed_refused hread⟩
    | true =>
      have htexts := hread
      simp only [QueueCall.readable, Bool.and_eq_true, and_assoc] at htexts
      have hattempts : ¬ IsAttempts (newJobOf input).maxAttempts := fun ha => h ⟨htexts, ha⟩
      exact ⟨_, (undisturbed_run hread).trans (if_pos hattempts)⟩
  obtain ⟨e, he⟩ := hrefused
  unfold newJobOf at he
  simp only [sqlRun, sqlCall, SqlJobQueue.enqueue, Prog.eval_bind, eval_must_refused he]
  exact ⟨_, rfl⟩

/-- An enqueue finds the job of its key, or makes it. -/
theorem sql_enqueue (now : Instant) (jobs : JobsTable P) {input : EnqueueInput P}
    (h : Stored rd input) (later : Nat) :
    sqlRun rd now jobs (.enqueue later input) =
      match jobs.rows.find?
          (sameKey input.organizationId input.kind input.idempotencyKey) with
      | some r => (.ok (.job (some (sqlShown r.toJob))), jobs)
      | none =>
        (.ok (.job (some (sqlShown ((newJobOf input).row now jobs.nextId).toJob))),
          jobs.insertNew ⟨(newJobOf input).row now, fun _ => rfl⟩) := by
  obtain ⟨⟨hkind, hidem, hpayload⟩, hattempts⟩ := h
  have hread : (QueueCall.insert (newJobOf input)).readable rd = true := by
    simp [QueueCall.readable, newJobOf, hkind, hidem, hpayload]
  have hinsert : undisturbed rd now jobs (.insert (newJobOf input)) =
      insertJob now (newJobOf input) jobs := undisturbed_run hread
  unfold insertJob at hinsert
  rw [if_neg (not_not.mpr (show IsAttempts (newJobOf input).maxAttempts from hattempts))] at hinsert
  cases hf : jobs.rows.find? (sameKey input.organizationId input.kind input.idempotencyKey) with
  | some r =>
    have hany : jobs.rows.any (sameKey input.organizationId input.kind input.idempotencyKey) :=
      List.any_eq_true.mpr ⟨r, List.mem_of_find?_eq_some hf, List.find?_some hf⟩
    have hhead : ((jobs.rows.filter (sameKey input.organizationId input.kind
        input.idempotencyKey)).take 1).head? = some r := by
      rw [List.head?_take, if_neg (by omega), List.head?_filter, hf]
    have hselect : undisturbed rd now jobs
        (.selectByKey input.organizationId input.kind input.idempotencyKey) =
        (.ok ((jobs.rows.filter (sameKey input.organizationId input.kind
          input.idempotencyKey)).take 1), jobs) :=
      undisturbed_run (by simp [QueueCall.readable, hkind, hidem])
    have hexisting : undisturbed rd now jobs (.insert (newJobOf input)) = (.ok [], jobs) :=
      hinsert.trans (if_pos hany)
    unfold newJobOf at hexisting
    simp only [sqlRun, sqlCall, SqlJobQueue.enqueue, SqlJobQueue.findByKey, Prog.eval_bind,
      eval_must hexisting, eval_must hselect, Prog.eval_ret, firstJob, List.head?_nil,
      Option.map_none, hhead, Option.map_some]
  | none =>
    have hany : jobs.rows.any (sameKey input.organizationId input.kind input.idempotencyKey) =
        false := by
      rw [List.any_eq_false]
      exact List.find?_eq_none.mp hf
    have hnew : undisturbed rd now jobs (.insert (newJobOf input)) =
        (.ok [(newJobOf input).row now jobs.nextId],
          jobs.insertNew ⟨(newJobOf input).row now, fun _ => rfl⟩) :=
      hinsert.trans (if_neg (by rw [Bool.not_eq_true]; exact hany))
    unfold newJobOf at hnew
    simp only [sqlRun, sqlCall, SqlJobQueue.enqueue, Prog.eval_bind, eval_must hnew, firstJob,
      List.head?_cons, Option.map_some, Prog.eval_ret]
    rfl

/-! ## One operation on both -/

theorem alter_absent {q : MemQueue P} {id : JobId} {F : StoredJob P → StoredJob P}
    (h : InMemoryJobQueue.get q id = none) : InMemoryJobQueue.alter q id F = q := by
  have hmap : q.jobs.map (fun j => if j.id == id then F j else j) = q.jobs.map fun j => j := by
    refine List.map_congr_left fun j hj => ?_
    exact if_neg (List.find?_eq_none.mp h j hj)
  unfold InMemoryJobQueue.alter
  rw [hmap, List.map_id']

/-- `complete`, `fail` and `terminate` end a job the same way in both queues up
to its deferral, which the database clears and the in-memory queue keeps. -/
theorem settle_alike {s : TwoQueues P} (h : Paired s) (job : Nat) (F : StoredJob P → StoredJob P)
    {p : JobPatch} (hsame : ∀ j r, s.sql.find job = some r → Same j r → r.deferredUntil = none →
      Same (F j) (p.apply r))
    (hkeeps : ∀ j, (F j).deferredUntil = j.deferredUntil) (hclears : p.deferredUntil = none) :
    ((InMemoryJobQueue.alter s.mem (job + 1) F).jobs.map StoredJob.status =
        (patchJob job p s.sql).rows.map (fun r => r.toJob.stored.status) ↔
      ∀ j, InMemoryJobQueue.get s.mem (job + 1) = some j → j.deferredUntil = none) ∧
    ((∀ j, InMemoryJobQueue.get s.mem (job + 1) = some j → j.deferredUntil = none) →
      Paired ⟨s.now, InMemoryJobQueue.alter s.mem (job + 1) F, patchJob job p s.sql⟩) := by
  have hpaired : (∀ j, InMemoryJobQueue.get s.mem (job + 1) = some j → j.deferredUntil = none) →
      Paired ⟨s.now, InMemoryJobQueue.alter s.mem (job + 1) F, patchJob job p s.sql⟩ := by
    intro hnone
    refine paired_edit h (fun r hr => by simpa using hr) (fun _ => rfl) ?_
    intro j r hr hjr
    have hid : (r.id == job) = true := beq_iff_eq.mpr (Table.mem_of_find hr).2
    rw [Table.Edit.on_hit (p := fun r : JobRow P => r.id == job) hid]
    refine hsame j r hr hjr ?_
    rcases h.find job with ⟨_, habsent⟩ | ⟨j', r', hj', hr', hjr'⟩
    · rw [habsent] at hr
      exact absurd hr (by simp)
    · rw [hr] at hr'
      obtain rfl := Option.some.inj hr'
      have hdef := hnone j' hj'
      obtain ⟨_, _, rfl⟩ := hjr'
      exact hdef
  refine ⟨⟨?_, fun hnone => (hpaired hnone).statuses⟩, hpaired⟩
  intro heq j hj
  obtain ⟨r, hr, _, hst⟩ := edit_status h heq hj
  have hid : (r.id == job) = true := beq_iff_eq.mpr (Table.mem_of_find hr).2
  rw [Table.Edit.on_hit (p := fun r : JobRow P => r.id == job) hid] at hst
  have hdef : (F j).deferredUntil = p.deferredUntil := congrArg (·.2.2.2.2) hst
  rw [hkeeps, hclears] at hdef
  exact hdef

/-- Where the database refuses, the in-memory queue does not. -/
theorem faithful_of_refused {s : TwoQueues P} {op : QueueOp P}
    (hsql : ∃ e, (sqlRun rd (op.clock s.now) s.sql op).1 = .error e) (hno : ¬ Alike rd s op) :
    (Agrees rd s op ↔ Alike rd s op) ∧ (Alike rd s op → Paired (s.step rd op)) := by
  obtain ⟨e, he⟩ := hsql
  refine ⟨iff_of_false ?_ hno, fun ha => absurd ha hno⟩
  rintro ⟨hans, _⟩
  rw [he] at hans
  cases hans

/-- What an operation does to the pair, given what it does to each queue. -/
theorem agrees_iff_of {s : TwoQueues P} (op : QueueOp P) (t : Instant) {a : QueueAnswer P}
    {jobs : JobsTable P} (hclock : op.clock s.now = t) (hsql : sqlRun rd t s.sql op = (.ok a, jobs)) :
    (Agrees rd s op ↔ a = (memRun t s.mem op).1 ∧
      (memRun t s.mem op).2.jobs.map StoredJob.status = jobs.rows.map fun r => r.toJob.stored.status) ∧
    s.step rd op = ⟨t, (memRun t s.mem op).2, jobs⟩ := by
  refine ⟨?_, ?_⟩
  · simp only [Agrees, TwoQueues.step, hclock, hsql, Except.ok.injEq]
  · simp only [TwoQueues.step, hclock, hsql]

/-- The statement proved of every operation. -/
def Faithful (rd : Reader P) (s : TwoQueues P) (op : QueueOp P) : Prop :=
  (Agrees rd s op ↔ Alike rd s op) ∧ (Alike rd s op → Paired (s.step rd op))

theorem faithful_complete {s : TwoQueues P} (h : Paired s) (job : Nat) :
    Faithful rd s (.complete job) := by
  obtain ⟨hiff, hstep⟩ := agrees_iff_of (.complete job) s.now rfl (sql_complete s.now s.sql job)
  have hsettle := settle_alike h job (InMemoryJobQueue.completed s.now)
    (p := ⟨.succeeded, none, some s.now, none, none⟩) (by
      rintro _ r _ ⟨started, finished, rfl⟩ hnone
      exact ⟨started, some s.now, by
        simp [InMemoryJobQueue.completed, JobPatch.apply, Job.stored, hnone]⟩) (fun _ => rfl) rfl
  refine ⟨hiff.trans ((and_iff_right rfl).trans hsettle.1), ?_⟩
  intro ha
  rw [hstep]
  exact hsettle.2 ha

theorem faithful_terminate {s : TwoQueues P} (h : Paired s) (job : Nat) (reason : String) :
    Faithful rd s (.terminate job reason) := by
  cases hreason : rd.text reason with
  | false =>
    refine faithful_of_refused (sql_terminate_refused s.now s.sql job hreason) fun ha => ?_
    exact absurd (hreason.symm.trans ha.1) (by simp)
  | true =>
  obtain ⟨hiff, hstep⟩ :=
    agrees_iff_of (.terminate job reason) s.now rfl (sql_terminate s.now s.sql job hreason)
  have hsettle := settle_alike h job (InMemoryJobQueue.terminated s.now reason)
    (p := ⟨.failed, some reason, some s.now, none, none⟩) (by
      rintro _ r _ ⟨started, finished, rfl⟩ hnone
      exact ⟨started, some s.now, by
        simp [InMemoryJobQueue.terminated, JobPatch.apply, Job.stored, hnone]⟩) (fun _ => rfl) rfl
  refine ⟨(hiff.trans ((and_iff_right rfl).trans hsettle.1)).trans (and_iff_right hreason).symm, ?_⟩
  intro ha
  rw [hstep]
  exact hsettle.2 ha.2

/-- `fail` requeues or ends the same job in both, with the same reason. -/
theorem faithful_fail {s : TwoQueues P} (h : Paired s) (job : Nat) (reason : String) :
    Faithful rd s (.fail job reason) := by
  rcases h.find job with ⟨hmem, hsql⟩ | ⟨j₀, r₀, hmem, hsql, _⟩
  · -- an unknown job: neither queue does anything
    obtain ⟨hiff, hstep⟩ := agrees_iff_of (.fail job reason) s.now rfl (sql_fail_none hsql)
    have hq : (memRun s.now s.mem (.fail job reason)).2 = s.mem := alter_absent hmem
    rw [hq] at hiff hstep
    refine ⟨hiff.trans (iff_of_true ⟨rfl, h.statuses⟩ ⟨fun hsome => absurd hmem hsome, ?_⟩), ?_⟩
    · intro j hj
      rw [hmem] at hj
      exact absurd hj (by simp)
    · intro _
      rw [hstep]
      exact h
  · have hsome : InMemoryJobQueue.get s.mem (job + 1) ≠ none := by
      rw [hmem]
      simp
    cases hreason : rd.text reason with
    | false =>
      refine faithful_of_refused (sql_fail_refused hsql hreason) fun ha => ?_
      exact absurd (hreason.symm.trans (ha.1 hsome)) (by simp)
    | true =>
    obtain ⟨hiff, hstep⟩ := agrees_iff_of (.fail job reason) s.now rfl (sql_fail_some hsql hreason)
    have hsettle := settle_alike h job (InMemoryJobQueue.failed s.now reason)
      (p := failPatch s.now reason r₀) (by
        rintro _ r hr ⟨started, finished, rfl⟩ hnone
        rw [hsql] at hr
        obtain rfl := Option.some.inj hr
        by_cases hspent : r₀.maxAttempts ≤ r₀.attempts
        · exact ⟨started, some s.now, by
            simp [InMemoryJobQueue.failed, failPatch, JobPatch.apply, Job.stored, hspent, hnone]⟩
        · exact ⟨started, finished, by
            simp [InMemoryJobQueue.failed, failPatch, JobPatch.apply, Job.stored, hspent, hnone]⟩)
      (by
        intro j
        unfold InMemoryJobQueue.failed
        split <;> rfl)
      (by
        unfold failPatch
        split <;> rfl)
    refine ⟨(hiff.trans ((and_iff_right rfl).trans hsettle.1)).trans
      (and_iff_right fun _ => hreason).symm, ?_⟩
    intro ha
    rw [hstep]
    exact hsettle.2 ha.2

/-- Two versions of a running job are deferred alike. -/
private theorem same_deferred {now : Instant} {reason : String} {n : Nat} {j : StoredJob P} {r : JobRow P}
    (h : Same j r) :
    Same (InMemoryJobQueue.deferred now reason (n * 1000) j) (deferred now reason n r) := by
  obtain ⟨started, finished, rfl⟩ := h
  refine ⟨none, finished, ?_⟩
  by_cases hn : 0 < n
  · simp [InMemoryJobQueue.deferred, deferred, Job.stored, hn]
  · simp [InMemoryJobQueue.deferred, deferred, Job.stored, hn]

/-- A deferral that shows nowhere changes at most when the job started. -/
private theorem deferred_of_status {now : Instant} {reason : String} {ms : Nat} {j : StoredJob P}
    (h : (InMemoryJobQueue.deferred now reason ms j).status = j.status) :
    InMemoryJobQueue.deferred now reason ms j = { j with startedAt := none } := by
  obtain ⟨⟩ := j
  simp only [StoredJob.status, InMemoryJobQueue.deferred, Prod.mk.injEq] at h
  obtain ⟨hst, hatt, herr, hlease, hdef⟩ := h
  subst hst herr hlease hdef
  simp only [InMemoryJobQueue.deferred, hatt]

/-- `defer`, where whole seconds are asked for. -/
theorem faithful_defer {s : TwoQueues P} (h : Paired s) (job : Nat) (reason : String) (n : Nat) :
    Faithful rd s (.defer job reason n) := by
  by_cases hread : rd.text reason = true ∧ n ≤ maxInteger
  case neg =>
    exact faithful_of_refused (sql_defer_refused s.now s.sql job hread) fun ha => hread ha.1
  obtain ⟨hiff, hstep⟩ :=
    agrees_iff_of (.defer job reason n) s.now rfl (sql_defer s.now s.sql job hread)
  have hpaired : Alike rd s (.defer job reason n) → Paired (s.step rd (.defer job reason n)) := by
    intro ha
    rw [hstep]
    refine paired_edit h (fun r hr => by simp [runningJob, hr]) (fun _ => rfl) ?_
    intro j r hr hjr
    have hid : r.id = job := (Table.mem_of_find hr).2
    by_cases hrun : r.state = .running
    · rw [Table.Edit.on_hit (by simp [runningJob, hid, hrun])]
      exact same_deferred hjr
    · -- the database leaves the row alone, so the in-memory deferral must not show
      rw [Table.Edit.on_miss (by simp [runningJob, hrun])]
      rcases h.find job with ⟨_, habsent⟩ | ⟨j', r', hj', hr', hjr'⟩
      · rw [habsent] at hr
        exact absurd hr (by simp)
      · rw [hr] at hr'
        obtain rfl := Option.some.inj hr'
        have hor := ha.2 j' hj'
        obtain ⟨_, _, rfl⟩ := hjr'
        obtain ⟨started, finished, rfl⟩ := hjr
        rcases hor with hst | hst
        · exact absurd hst hrun
        · exact ⟨none, finished, deferred_of_status hst⟩
  refine ⟨hiff.trans ⟨?_, fun ha => ⟨rfl, ?_⟩⟩, hpaired⟩
  · rintro ⟨_, heq⟩
    refine ⟨hread, fun j hj => ?_⟩
    obtain ⟨r, hr, hjr, hst⟩ := edit_status h heq hj
    have hid : r.id = job := (Table.mem_of_find hr).2
    by_cases hrun : r.state = .running
    · left
      obtain ⟨_, _, rfl⟩ := hjr
      exact hrun
    · right
      rw [Table.Edit.on_miss (by simp [runningJob, hrun])] at hst
      rw [hst, hjr.status]
  · have hst := (hpaired ha).statuses
    rw [hstep] at hst
    exact hst

/-- A reap finds the same leases lapsed. -/
theorem faithful_reap {s : TwoQueues P} (h : Paired s) (t : Option Instant) :
    Faithful rd s (.reapExpired t) := by
  obtain ⟨hiff, hstep⟩ := agrees_iff_of (.reapExpired t) s.now rfl (sql_reap s.now s.sql t)
  have hpaired : Paired (s.step rd (.reapExpired t)) := by
    rw [hstep]
    refine paired_update h ?_ ?_
    · intro r
      change (reaped (t.getD s.now) r).createdAt = r.createdAt
      unfold reaped
      split <;> rfl
    · intro j r _ hjr
      rw [hjr.lapsed]
      cases hl : lapsed (t.getD s.now) r with
      | false =>
        rw [if_neg (by simp), Table.Edit.on_miss hl]
        exact hjr
      | true =>
        rw [if_pos rfl, Table.Edit.on_hit hl]
        obtain ⟨started, finished, rfl⟩ := hjr
        by_cases hspent : r.maxAttempts ≤ r.attempts
        · exact ⟨started, some (t.getD s.now), by
            simp [InMemoryJobQueue.reaped, reaped, Job.stored, hspent]⟩
        · exact ⟨started, finished, by simp [InMemoryJobQueue.reaped, reaped, Job.stored, hspent]⟩
  refine ⟨hiff.trans (iff_of_true ⟨?_, ?_⟩ trivial), fun _ => hpaired⟩
  · exact congrArg QueueAnswer.count
      (forall₂_countP h.same fun j r hjr => hjr.lapsed (t.getD s.now)).symm
  · have hst := hpaired.statuses
    rw [hstep] at hst
    exact hst

theorem faithful_get {s : TwoQueues P} (h : Paired s) (job : Nat) : Faithful rd s (.get job) := by
  obtain ⟨hiff, hstep⟩ := agrees_iff_of (.get job) s.now rfl (sql_get s.now s.sql job)
  refine ⟨hiff.trans (iff_of_true ⟨?_, h.statuses⟩ trivial), fun _ => ?_⟩
  · change QueueAnswer.job _ = QueueAnswer.job _
    rcases h.find job with ⟨hj, hr⟩ | ⟨j, r, hj, hr, hjr⟩
    · rw [hj, hr]
      rfl
    · rw [hj, hr, Option.map_some, Option.map_some, hjr.shown]
  · rw [hstep]
    exact h

theorem faithful_wait {s : TwoQueues P} (h : Paired s) (ms : Nat) : Faithful rd s (.wait ms) := by
  refine ⟨iff_of_true ⟨rfl, h.statuses⟩ trivial, fun _ => ?_⟩
  exact ⟨h.same, h.ids, h.order, fun r hr => Nat.le_trans (h.aged r hr) (Nat.le_add_right _ _)⟩

/-- A claim takes the same job. -/
theorem faithful_claim {s : TwoQueues P} (h : Paired s) (worker : String) (n : Nat) :
    Faithful rd s (.claim worker n) := by
  by_cases hread : (rd.text worker = true ∧ n ≤ maxInteger) ∧ blank worker = false
  case neg =>
    -- the in-memory queue does not look at the worker id
    exact faithful_of_refused (sql_claim_refused s.now s.sql hread) fun ha => hread ⟨ha.1, ha.2.1⟩
  case pos =>
    have hw := hread.2
    have hsql := sql_claim s.now h.order hread.1 hw
    rcases forall₂_find? h.same fun j r hjr => hjr.takes s.now with
      ⟨hj, hr⟩ | ⟨j, r, hj, hr, hjr⟩
    · rw [hr] at hsql
      obtain ⟨hiff, hstep⟩ := agrees_iff_of (.claim worker n) s.now rfl hsql
      have hq : memRun s.now s.mem (.claim worker n) = (.job none, s.mem) := by
        simp only [memRun, InMemoryJobQueue.claim, hj, Option.map_none]
      rw [hq] at hiff hstep
      refine ⟨hiff.trans (iff_of_true ⟨rfl, h.statuses⟩ ⟨hread.1, hw, fun _ => hj⟩), fun _ => ?_⟩
      rw [hstep]
      exact h
    · rw [hr] at hsql
      obtain ⟨hiff, hstep⟩ := agrees_iff_of (.claim worker n) s.now rfl hsql
      have hmem : memRun s.now s.mem (.claim worker n) =
          (.job (some (memShown (InMemoryJobQueue.claimed s.now (n * 1000) j))),
            InMemoryJobQueue.alter s.mem (r.id + 1)
              (InMemoryJobQueue.claimed s.now (n * 1000))) := by
        have hid : j.id = r.id + 1 := by
          obtain ⟨_, _, rfl⟩ := hjr
          rfl
        simp only [memRun, InMemoryJobQueue.claim, hj, Option.map_some, hid]
      rw [hmem] at hiff hstep
      cases n with
      | zero =>
        -- the database leases for at least a second
        have hno : ¬ Alike rd s (.claim worker 0) := by
          rintro ⟨_, _, hnone⟩
          rw [hnone rfl] at hj
          exact absurd hj (by simp)
        refine ⟨iff_of_false ?_ hno, fun ha => absurd ha hno⟩
        intro hagrees
        have hjob := Option.some.inj (QueueAnswer.job.inj (hiff.mp hagrees).1)
        have hlease := congrArg (fun x : Nat × StoredJob P => x.2.leaseExpiresAt) hjob
        have htime : s.now + 1 * 1000 = s.now + 0 * 1000 := Option.some.inj hlease
        exact absurd (Nat.add_left_cancel htime) (by decide)
      | succ m =>
        have hmax : max 1 (m + 1) = m + 1 := by omega
        rw [hmax] at hiff hstep
        have hsame : ∀ j', Same j' r → Same (InMemoryJobQueue.claimed s.now ((m + 1) * 1000) j')
            (leased s.now worker (m + 1) r) := by
          rintro _ ⟨_, finished, rfl⟩
          exact ⟨some s.now, finished, rfl⟩
        have hpaired : Paired (s.step rd (.claim worker (m + 1))) := by
          rw [hstep]
          refine paired_edit h (fun r' hr' => by simpa using hr') (fun _ => rfl) ?_
          intro j' r' hr' hjr'
          have hfound : s.sql.find r.id = some r :=
            Table.find_eq_some.mpr ⟨List.mem_of_find?_eq_some hr, rfl⟩
          rw [hfound] at hr'
          obtain rfl := Option.some.inj hr'
          rw [Table.Edit.on_hit (p := fun r' : JobRow P => r'.id == r.id) (beq_iff_eq.mpr rfl)]
          exact hsame j' hjr'
        refine ⟨hiff.trans (iff_of_true ⟨?_, ?_⟩ ⟨hread.1, hw, fun h0 => absurd h0 (by simp)⟩),
          fun _ => hpaired⟩
        · rw [(hsame j hjr).shown]
        · have hst := hpaired.statuses
          rw [hstep] at hst
          exact hst

/-- A row of the in-memory queue under the same three parts has the same joined key. -/
private theorem keyed_of_sameKey {input : EnqueueInput P} {j : StoredJob P} {r : JobRow P}
    (hjr : Same j r)
    (h : sameKey input.organizationId input.kind input.idempotencyKey r = true) :
    InMemoryJobQueue.Keyed
      (InMemoryJobQueue.keyOf input.organizationId input.kind input.idempotencyKey) j = true := by
  obtain ⟨_, _, rfl⟩ := hjr
  simp only [sameKey, Bool.and_eq_true, beq_iff_eq] at h
  obtain ⟨⟨horg, hkind⟩, hkey⟩ := h
  simp [InMemoryJobQueue.Keyed, Job.stored, horg, hkind, hkey]

/-- What both queues make of the same input. -/
private theorem same_newJob {now : Instant} {input : EnqueueInput P} {counter id : Nat}
    (hid : counter = id) (hstored : Stored rd input) :
    Same (InMemoryJobQueue.newJob now input (counter + 1)) ((newJobOf input).row now id) := by
  refine ⟨none, none, ?_⟩
  have hattempts : ((input.maxAttempts.getD SqlJobQueue.defaultMaxAttempts).num.toNat : ℚ) =
      input.maxAttempts.getD 3 := hstored.attempts.cast
  simp only [InMemoryJobQueue.newJob, Job.stored, NewJob.row, newJobOf, hid, hattempts]

/-- An enqueue of a new key appends the same job to both queues. -/
private theorem paired_insert {s : TwoQueues P} (h : Paired s) {t : Instant} (ht : s.now < t)
    {input : EnqueueInput P} (hstored : Stored rd input) :
    Paired ⟨t, ⟨s.mem.jobs ++ [InMemoryJobQueue.newJob t input (s.mem.counter + 1)],
      s.mem.counter + 1⟩, s.sql.insertNew ⟨(newJobOf input).row t, fun _ => rfl⟩⟩ := by
  refine ⟨List.rel_append h.same (.cons (same_newJob h.ids hstored) .nil), ?_, ?_, ?_⟩
  · rw [Table.nextId_insertNew, h.ids]
  · change (s.sql.rows ++ [_]).Pairwise _
    rw [List.pairwise_append]
    refine ⟨h.order, List.pairwise_singleton _ _, ?_⟩
    intro r hr r' hr'
    rw [List.mem_singleton.mp hr']
    exact Nat.lt_of_le_of_lt (h.aged r hr) ht
  · intro r hr
    rcases List.mem_append.mp hr with hr | hr
    · exact Nat.le_trans (h.aged r hr) (Nat.le_of_lt ht)
    · rw [List.mem_singleton.mp hr]
      exact Nat.le_refl t

/-- An enqueue makes the same job, where the database takes what it is given. -/
theorem faithful_enqueue {s : TwoQueues P} (h : Paired s) (later : Nat) (input : EnqueueInput P) :
    Faithful rd s (.enqueue later input) := by
  by_cases hstored : Stored rd input
  case neg =>
    exact faithful_of_refused (sql_enqueue_refused hstored later)
      fun ha => hstored ⟨ha.1, ha.2.1⟩
  have hsql := sql_enqueue (s.now + later + 1) s.sql hstored later
  have hlt : s.now < s.now + later + 1 := Nat.lt_succ_of_le (Nat.le_add_right _ _)
  cases hj : s.mem.jobs.find? (InMemoryJobQueue.Keyed
      (InMemoryJobQueue.keyOf input.organizationId input.kind input.idempotencyKey)) with
  | none =>
    -- a new key: both queues insert
    have hnew : s.sql.rows.find? (sameKey input.organizationId input.kind input.idempotencyKey) =
        none := by
      rw [List.find?_eq_none] at hj ⊢
      intro r hr hkey
      obtain ⟨j, hjmem, hjr⟩ := forall₂_mem_right h.same hr
      exact hj j hjmem (keyed_of_sameKey hjr hkey)
    rw [hnew] at hsql
    obtain ⟨hiff, hstep⟩ := agrees_iff_of (.enqueue later input) (s.now + later + 1) rfl hsql
    have hq : memRun (s.now + later + 1) s.mem (.enqueue later input) =
        (.job (some (memShown
            (InMemoryJobQueue.newJob (s.now + later + 1) input (s.mem.counter + 1)))),
          ⟨s.mem.jobs ++ [InMemoryJobQueue.newJob (s.now + later + 1) input (s.mem.counter + 1)],
            s.mem.counter + 1⟩) := by
      simp only [memRun, InMemoryJobQueue.enqueue, hj]
    rw [hq] at hiff hstep
    have hpaired := paired_insert h hlt hstored
    refine ⟨hiff.trans (iff_of_true ⟨?_, hpaired.statuses⟩ ⟨hstored.texts, hstored.attempts, ?_⟩),
      fun _ => ?_⟩
    · rw [(same_newJob h.ids hstored).shown]
    · intro j hfound
      rw [hj] at hfound
      exact absurd hfound (by simp)
    · rw [hstep]
      exact hpaired
  | some j =>
    have hq : memRun (s.now + later + 1) s.mem (.enqueue later input) =
        (.job (some (memShown j)), s.mem) := by
      simp only [memRun, InMemoryJobQueue.enqueue, hj]
    by_cases hparts : j.organizationId = input.organizationId ∧ j.kind = input.kind ∧
        j.idempotencyKey = input.idempotencyKey
    · -- the job found under the joined key is the one the index finds
      obtain ⟨r, hr, hjr⟩ := forall₂_find?_of_imp h.same
        (fun _ _ hjr hkey => keyed_of_sameKey hjr hkey) hj (by
          rintro r ⟨_, _, rfl⟩
          simp only [sameKey, Bool.and_eq_true, beq_iff_eq]
          exact ⟨⟨hparts.1, hparts.2.1⟩, hparts.2.2⟩)
      rw [hr] at hsql
      obtain ⟨hiff, hstep⟩ := agrees_iff_of (.enqueue later input) (s.now + later + 1) rfl hsql
      rw [hq] at hiff hstep
      refine ⟨hiff.trans (iff_of_true ⟨?_, h.statuses⟩ ⟨hstored.texts, hstored.attempts, ?_⟩),
        fun _ => ?_⟩
      · rw [hjr.shown]
      · intro j' hj'
        obtain rfl := Option.some.inj (hj.symm.trans hj')
        exact hparts
      · rw [hstep]
        exact ⟨h.same, h.ids, h.order, fun r hr => Nat.le_trans (h.aged r hr) (Nat.le_of_lt hlt)⟩
    · -- the in-memory queue answers with a job of another key
      have hno : ¬ Alike rd s (.enqueue later input) := fun ha => hparts (ha.2.2 j hj)
      refine ⟨iff_of_false ?_ hno, fun ha => absurd ha hno⟩
      intro hagrees
      have hans := hagrees.1
      change (sqlRun rd (s.now + later + 1) s.sql _).1 =
        .ok (memRun (s.now + later + 1) s.mem _).1 at hans
      rw [hq, hsql] at hans
      refine hparts ?_
      cases hr : s.sql.rows.find? (sameKey input.organizationId input.kind
          input.idempotencyKey) with
      | some r =>
        rw [hr] at hans
        have hjob := congrArg Prod.snd (Option.some.inj (QueueAnswer.job.inj (Except.ok.inj hans)))
        have hkey := List.find?_some hr
        simp only [sameKey, Bool.and_eq_true, beq_iff_eq] at hkey
        obtain ⟨⟨horg, hkind⟩, hidem⟩ := hkey
        exact ⟨(congrArg (·.organizationId) hjob).symm.trans horg,
          (congrArg (·.kind) hjob).symm.trans hkind,
          (congrArg (·.idempotencyKey) hjob).symm.trans hidem⟩
      | none =>
        rw [hr] at hans
        have hjob := congrArg Prod.snd (Option.some.inj (QueueAnswer.job.inj (Except.ok.inj hans)))
        exact ⟨(congrArg (·.organizationId) hjob).symm, (congrArg (·.kind) hjob).symm,
          (congrArg (·.idempotencyKey) hjob).symm⟩

/-- **One operation** keeps the queues together exactly under its condition. -/
theorem faithful {s : TwoQueues P} (h : Paired s) (op : QueueOp P) : Faithful rd s op := by
  cases op with
  | wait ms => exact faithful_wait h ms
  | enqueue later input => exact faithful_enqueue h later input
  | claim worker n => exact faithful_claim h worker n
  | complete job => exact faithful_complete h job
  | fail job reason => exact faithful_fail h job reason
  | terminate job reason => exact faithful_terminate h job reason
  | defer job reason n => exact faithful_defer h job reason n
  | reapExpired t => exact faithful_reap h t
  | get job => exact faithful_get h job

/-- Texts without a NUL can be read. -/
def plainReader : Reader Unit := ⟨fun text => text.toList.all (· != '\x00'), fun _ => true⟩

/-- A job is enqueued, claimed and completed; nobody runs it any more. -/
def finishedOps : List (QueueOp Unit) :=
  [ .enqueue 0 ⟨1, "deployments.execute", (), "key", none⟩,
    .claim "a" 60,
    .complete 0 ]

-- half an attempt is refused by the database, and so is a NUL
example : [("x", 1 / 2), ("\x00", 3)].map (fun (kind, attempts) =>
    (sqlRun plainReader 0 Table.empty (.enqueue 0 ⟨1, kind, (), "key", some attempts⟩)).1.isOk) =
      [false, false] := by
  decide +kernel

end CloudWai.Queue
