import CloudWai.Queue.Budget

/-!
# Calls of a worker that lost its lease

A lease is what makes a claim exclusive: once the reaper has taken it back, the
job may be anybody's. Nothing tells the old holder. Its calls keep coming, and
each write path of `sql-queue.ts` carries its own guard — `defer_orchestration_job`
asks that the job is `running`, the `PATCH` of `complete`, `fail` and `terminate`
asks for the id and nothing else, and none of them asks who holds the lease.

`LeavesRow` is the property one would want of a move: a call of a worker that
dropped its lease on a job leaves the job's row as it was. `Harmless` says where
the job has to stand for that: nowhere for a call that ends it, waiting for a
worker for a `fail` that puts it back, not held for a deferral.
`stale_calls_spared` is that this is enough, and that nothing else is, but for
two calls that end a job in the same way in one millisecond.
-/

namespace CloudWai.Queue

open Base

variable {P : Type}

/-- Thread `tid` is a settling call of job `job` by a worker whose lease on it
was reaped, and who has not claimed it since. -/
def StaleOn (s : QueueSys P) (tid : Nat) (job : JobId) : Prop :=
  ∃ th worker, s.live tid = some th ∧ th.task.settles = some (worker, job) ∧
    (worker, job) ∈ s.world.dropped

/-- A stale call's next request leaves the row of its job unchanged. -/
def LeavesRow (s : QueueSys P) : QueueMove P → Prop
  | .exec tid o => ∀ job, StaleOn s tid job →
      ((queueHost P).step s (.exec tid o)).world.jobs.find job = s.world.jobs.find job
  | _ => True

/-- The row already holds everything the patch writes. -/
structure JobPatch.Repeats (p : JobPatch) (r : JobRow P) : Prop where
  state : r.state = p.state
  lastError : r.lastError = p.lastError
  finishedAt : r.finishedAt = p.finishedAt
  lease : r.leaseExpiresAt = p.leaseExpiresAt
  deferral : r.deferredUntil = p.deferredUntil

/-- The row a request cannot change: a deferral one that is not running, a patch
one that already holds what it writes. -/
def MeetsDone (r : JobRow P) : QueueCall P → Prop
  | .defer _ _ _ => r.state ≠ .running
  | .patch _ p => p.Repeats r
  | _ => True

/-- The job waits: nobody holds it, it is not put off, and this was its last error. -/
structure JobRow.Waits (r : JobRow P) (reason : Option String) : Prop where
  state : r.state = .queued
  lease : r.leaseExpiresAt = none
  deferral : r.deferredUntil = none
  finishedAt : r.finishedAt = none
  lastError : r.lastError = reason

/-- Where a request of a stale call leaves a job alone: a deferral, where nobody
runs it; a patch that ends it, nowhere; one that puts it back, where it waits
with that reason already. -/
def Spares (r : JobRow P) : QueueCall P → Prop
  | .defer _ _ _ => r.state ≠ .running
  | .patch _ p => p.state = .queued ∧ r.Waits p.lastError
  | _ => True

/-- If a stale call's request takes effect, it meets a job it leaves alone. -/
def Harmless (s : QueueSys P) : QueueMove P → Prop
  | .exec tid o => ∀ job, StaleOn s tid job → o.fault.Lands →
      ∀ c r, s.pending tid = some c → s.world.jobs.find job = some r → Spares r c
  | _ => True

/-- The same millisecond: a stale call ends a job that is ended already, at the
very instant it stamps. -/
def Coincides (s : QueueSys P) : QueueMove P → Prop
  | .exec tid _ => ∃ job id p r, StaleOn s tid job ∧ s.pending tid = some (.patch id p) ∧
      s.world.jobs.find job = some r ∧ p.finishedAt.isSome = true ∧ r.finishedAt = p.finishedAt
  | _ => False

theorem repeats_iff {p : JobPatch} {r : JobRow P} : p.apply r = r ↔ p.Repeats r := by
  constructor
  · intro h
    exact ⟨congrArg (·.state) h.symm, congrArg (·.lastError) h.symm,
      congrArg (·.finishedAt) h.symm, congrArg (·.leaseExpiresAt) h.symm,
      congrArg (·.deferredUntil) h.symm⟩
  · rintro ⟨h1, h2, h3, h4, h5⟩
    obtain ⟨⟨⟩, _⟩ := r
    simp only at h1 h2 h3 h4 h5
    subst h1 h2 h3 h4 h5
    rfl

theorem meetsDone_of_spares {own : Option JobId} {r : JobRow P} {c : QueueCall P}
    (hk : Keeps own c) (h : Spares r c) : MeetsDone r c := by
  cases c with
  | patch id p =>
    obtain ⟨hqueued, hwaits⟩ := h
    have hopen : p.finishedAt = none := hk.2.finish.mpr hqueued
    exact ⟨hwaits.state.trans hqueued.symm, hwaits.lastError, hwaits.finishedAt.trans hopen.symm,
      hwaits.lease.trans hk.2.lease.symm, hwaits.deferral.trans hk.2.deferral.symm⟩
  | _ => exact h

/-- A patch that repeats what the row holds puts a waiting job back, or it ends
one at the instant it ended at. -/
theorem spares_of_meetsDone {own : Option JobId} {r : JobRow P} {c : QueueCall P}
    (hk : Keeps own c) (h : MeetsDone r c) : Spares r c ∨
      ∃ id p, c = .patch id p ∧ p.finishedAt.isSome = true ∧ r.finishedAt = p.finishedAt := by
  cases c with
  | patch id p =>
    have hp := hk.2
    by_cases hqueued : p.state = .queued
    · have hopen : p.finishedAt = none := hp.finish.mpr hqueued
      exact .inl ⟨hqueued, h.state.trans hqueued, h.lease.trans hp.lease,
        h.deferral.trans hp.deferral, h.finishedAt.trans hopen, h.lastError⟩
    · refine .inr ⟨id, p, rfl, ?_, h.finishedAt⟩
      rw [Option.isSome_iff_ne_none]
      exact fun hnone => hqueued (hp.finish.mp hnone)
  | _ => exact .inl h

/-- **One request of a call that settles `job`** leaves the row alone exactly
if it meets a row it cannot change. -/
theorem run_leaves_iff {now : Instant} {locked : JobId → Bool} {jobs : JobsTable P}
    {c : QueueCall P} {job : JobId} (hk : Keeps (some job) c) :
    (c.run now locked jobs).2.find job = jobs.find job ↔
      ∀ r, jobs.find job = some r → MeetsDone r c := by
  cases c with
  | patch id p =>
    obtain rfl := Option.some.inj hk.1
    change (jobs.update _ _).find job = _ ↔ _
    rw [Table.find_update]
    cases hj : jobs.find job with
    | none => simp
    | some r =>
      have hid : r.id = job := (Table.mem_of_find hj).2
      rw [Option.map_some, Table.Edit.on_hit (p := fun r : JobRow P => r.id == job)
        (beq_iff_eq.mpr hid)]
      constructor
      · intro h r' hr'
        rw [← Option.some.inj hr']
        exact repeats_iff.mp (Option.some.inj h)
      · intro h
        exact congrArg some (repeats_iff.mpr (h r rfl))
  | defer id reason n =>
    obtain rfl := Option.some.inj hk
    change (jobs.update _ _).find job = _ ↔ _
    rw [Table.find_update]
    cases hj : jobs.find job with
    | none => simp
    | some r =>
      have hid : r.id = job := (Table.mem_of_find hj).2
      rw [Option.map_some, Option.some_inj]
      constructor
      · intro h r' hr' hrun
        rw [← Option.some.inj hr'] at hrun
        rw [Table.Edit.on_hit (by simp [runningJob, hid, hrun])] at h
        have hq : (deferred now reason n r).state = r.state := congrArg (·.state) h
        rw [hrun] at hq
        exact absurd hq (by simp [deferred])
      · intro h
        have hne : r.state ≠ .running := h r rfl
        exact Table.Edit.on_miss (by simp [runningJob, hid, hne])
  | insert n => exact absurd hk (by simp [Keeps])
  | claim worker n => exact absurd hk (by simp [Keeps])
  | reap t => exact absurd hk (by simp [Keeps])
  | selectByKey org kind key => exact iff_of_true rfl fun _ _ => trivial
  | select id => exact iff_of_true rfl fun _ _ => trivial
  | clock => exact iff_of_true rfl fun _ _ => trivial
/-- **One move.** The row stays exactly if what lands meets a row it cannot change. -/
theorem leavesRow_iff {s : QueueSys P} (hT : s.Typed (queueDuty P)) (tid : Nat) (o : QueueOracle) :
    LeavesRow s (.exec tid o) ↔ ∀ job, StaleOn s tid job → o.fault.Lands →
      ∀ c r, s.pending tid = some c → s.world.jobs.find job = some r →
        Keeps (some job) c ∧ MeetsDone r c := by
  rcases exec_cases hT (queue_answers s.world) tid o with ⟨hsame, hidle⟩ | ⟨c, x, x', hc⟩
  · simp only [LeavesRow, hsame, hidle]
    exact iff_of_true (fun _ _ => trivial) fun _ _ _ _ _ hp => absurd hp (by simp)
  · have hjobs : ((queueHost P).step s (.exec tid o)).world.jobs =
        if o.fault.Lands then (c.run s.world.now o.locked s.world.jobs).2 else s.world.jobs := by
      rw [hc.world]
      exact perform_jobs s.world o c
    have hkeeps : ∀ job, StaleOn s tid job → Keeps (some job) c := by
      rintro job ⟨th, worker, hth, hset, _⟩
      have hx := queue_stage hth hc.was
      rw [hset] at hx
      rw [← show x = some job from hx]
      exact queue_next hc.moves
    simp only [LeavesRow, hjobs, hc.pending, Option.some.injEq]
    constructor
    · rintro h job hst hl _ r rfl hr
      have hfind := h job hst
      rw [if_pos hl] at hfind
      exact ⟨hkeeps job hst, (run_leaves_iff (hkeeps job hst)).mp hfind r hr⟩
    · intro h job hst
      split
      next hl =>
        exact (run_leaves_iff (hkeeps job hst)).mpr fun r hr => (h job hst hl c r rfl hr).2
      next => trivial

/-- What a stale call asks for is a request about its own job. -/
theorem keeps_of_stale {s : QueueSys P} (hT : s.Typed (queueDuty P)) {tid : Nat} {job : JobId}
    (hst : StaleOn s tid job) {c : QueueCall P} (hc : s.pending tid = some c) :
    Keeps (some job) c := by
  rcases exec_cases hT (queue_answers s.world) tid quietly with ⟨_, hidle⟩ | ⟨c', x, x', hcase⟩
  · rw [hidle] at hc
    exact absurd hc (by simp)
  · obtain ⟨th, worker, hth, hset, _⟩ := hst
    have hx := queue_stage hth hcase.was
    rw [hset] at hx
    rw [hcase.pending] at hc
    rw [← Option.some.inj hc, ← show x = some job from hx]
    exact queue_next hcase.moves

theorem leavesRow_of_harmless {s : QueueSys P} (hT : s.Typed (queueDuty P)) {l : QueueMove P}
    (h : Harmless s l) : LeavesRow s l := by
  cases l with
  | exec tid o =>
    rw [leavesRow_iff hT]
    intro job hst hl c r hc hr
    have hkeeps := keeps_of_stale hT hst hc
    exact ⟨hkeeps, meetsDone_of_spares hkeeps (h job hst hl c r hc hr)⟩
  | _ => trivial

theorem harmless_of_leavesRow {s : QueueSys P} (hT : s.Typed (queueDuty P)) {l : QueueMove P}
    (h : LeavesRow s l) : Harmless s l ∨ Coincides s l := by
  cases l with
  | exec tid o =>
    rw [leavesRow_iff hT] at h
    by_contra hnot
    obtain ⟨hharm, htwice⟩ := not_or.mp hnot
    refine hharm fun job hst hl c r hc hr => ?_
    obtain ⟨hkeeps, hmeets⟩ := h job hst hl c r hc hr
    rcases spares_of_meetsDone hkeeps hmeets with hspares | ⟨id, p, rfl, hends, hsame⟩
    · exact hspares
    · exact absurd ⟨job, id, p, r, hst, hc, hr, hends, hsame⟩ htwice
  | _ => exact .inl trivial

/-- **Stale calls.** From whatever state the queue is in, a run leaves the row of
every stale call's job unchanged if each of their requests that lands is a
deferral of a job nobody runs, or puts back a job that waits with that reason. A
run that leaves the rows unchanged has no other, unless a stale call ends a job
at the very instant it has ended at already. -/
theorem stale_calls_spared (w : QueueWorld P) (ls : List (QueueMove P)) :
    (EachStep (queueHost P).step Harmless (Sys.start w) ls →
      EachStep (queueHost P).step LeavesRow (Sys.start w) ls) ∧
    (EachStep (queueHost P).step LeavesRow (Sys.start w) ls →
      EachStep (queueHost P).step (fun s l => Harmless s l ∨ Coincides s l) (Sys.start w) ls) := by
  constructor
  · exact eachStep_of_inv (typed_start (queueDuty P) w) (fun _ l hT _ => queue_typed_step hT l)
      fun _ _ hT hl => leavesRow_of_harmless hT hl
  · exact eachStep_of_inv (typed_start (queueDuty P) w) (fun _ l hT _ => queue_typed_step hT l)
      fun _ _ hT hl => harmless_of_leavesRow hT hl

/-! ## A stale completion -/

/-- Worker `a` claims a job, its lease lapses and is reaped, worker `b` claims
the job; `a` finishes its work and calls `complete`, up to the `PATCH`. -/
def staleRun : List (QueueMove Unit) :=
  [ .spawn (.enqueue ⟨1, "deployments.execute", (), "key", none⟩), .exec 0 quietly,
    .spawn (.claim "a" 1000), .exec 1 quietly,
    .drift 1000,
    .spawn (.reapExpired none), .exec 2 quietly, .exec 2 quietly,
    .spawn (.claim "b" 1000), .exec 3 quietly,
    .spawn (.complete "a" 0), .exec 4 quietly ]

/-- The `PATCH` of a worker that holds nothing finishes the job under the one
that does. -/
theorem stale_complete_settles :
    ¬ ∀ ls : List (QueueMove Unit),
      EachStep (queueHost Unit).step LeavesRow (Sys.start (QueueWorld.initial 0)) ls := by
  intro h
  have hat := (h (staleRun ++ [.exec 4 quietly])).at 0 ⟨_, "a", rfl, rfl, by decide⟩
  have hstate := congrArg (Option.map fun r : JobRow Unit => r.state) hat
  exact absurd hstate (by decide)

end CloudWai.Queue
