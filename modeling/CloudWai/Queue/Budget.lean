import CloudWai.Queue.Workers

/-!
# Attempts, leases and wedged jobs

What keeps a job moving: it is finished, or somebody holds a lease on it that
the reaper can take back, or it is queued with an attempt left. `Sound` says so
of one row; it is the invariant the queue's seven operations are meant to keep
between them.

`Touched` lists everything one request can do to one row, guards included, and
`run_touches` is the only place where the SQL functions are opened. Claim,
deferral, reap and the terminal patches keep `Sound` by their own guards. The
requeueing `PATCH` of `fail` has no guard: it was decided from a row read
earlier, and it keeps `Sound` exactly if the row it lands on still has an
attempt left (`queue_sound_iff`).

About the migrations' functions and `packages/database/src/sql-queue.ts`, as `Sql.lean`
has them.
-/

namespace CloudWai.Queue

open Base

variable {P : Type}

/-! ## What one request does to one row -/

/-- Row `r` can be `r'` after call `c`. -/
inductive Touched (now : Instant) : QueueCall P → JobRow P → JobRow P → Prop where
  | kept (c : QueueCall P) (r : JobRow P) : Touched now c r r
  | claimed (worker : String) (n : Nat) (r : JobRow P) (h : claimable now r = true) :
    Touched now (.claim worker n) r (leased now worker n r)
  | deferred (reason : String) (n : Nat) (r : JobRow P) (h : r.state = .running) :
    Touched now (.defer r.id reason n) r (deferred now reason n r)
  | reaped (t : Instant) (r : JobRow P) (h : lapsed t r = true) :
    Touched now (.reap t) r (reaped t r)
  | patched (p : JobPatch) (r : JobRow P) : Touched now (.patch r.id p) r (p.apply r)

/-- A claim takes a row of the table that its where clause admits. -/
theorem nextClaim_mem {now : Instant} {locked : JobId → Bool} {jobs : JobsTable P} {r : JobRow P}
    (h : nextClaim now locked jobs = some r) : r ∈ jobs ∧ claimable now r = true := by
  have hmem := List.argmin_mem (Option.mem_def.mpr h)
  rw [List.mem_filter, Bool.and_eq_true] at hmem
  exact ⟨hmem.1, hmem.2.1⟩

/-- A claim is the touch of that name, and leaves the other rows. -/
private theorem claim_touches {now : Instant} {locked : JobId → Bool} {worker : String} {n : Nat}
    {jobs : JobsTable P} {r' : JobRow P}
    (h : r' ∈ (claimOrchestrationJob now locked worker n jobs).2) :
    ∃ r ∈ jobs, Touched now (.claim worker n) r r' := by
  unfold claimOrchestrationJob at h
  split at h
  · exact ⟨r', h, .kept _ _⟩
  split at h
  · exact ⟨r', h, .kept _ _⟩
  split at h
  · exact ⟨r', h, .kept _ _⟩
  next r hr =>
    obtain ⟨hmem, hclaim⟩ := nextClaim_mem hr
    rcases Table.mem_update.mp h with ⟨h', _⟩ | ⟨a, ha, hid, rfl⟩
    · exact ⟨r', h', .kept _ _⟩
    · -- the id is unique, so the row updated is the row selected
      have hrow : jobs.find r.id = some a := Table.find_eq_some.mpr ⟨ha, by simpa using hid⟩
      rw [Table.find_eq_some.mpr ⟨hmem, rfl⟩] at hrow
      obtain rfl := Option.some.inj hrow
      exact ⟨r, hmem, .claimed worker n r hclaim⟩

/-- **Every row after a request** is a row from before that the request touched,
or the one it inserted. -/
theorem run_touches {now : Instant} {locked : JobId → Bool} {jobs : JobsTable P}
    {c : QueueCall P} {r' : JobRow P} (h : r' ∈ (c.run now locked jobs).2) :
    (∃ r ∈ jobs, Touched now c r r') ∨
      ∃ n id, c = .insert n ∧ IsAttempts n.maxAttempts ∧ r' = n.row now id := by
  cases c with
  | insert n =>
    simp only [QueueCall.run, insertJob] at h
    split at h
    · exact .inl ⟨r', h, .kept _ _⟩
    split at h
    · exact .inl ⟨r', h, .kept _ _⟩
    next hmax _ =>
      rcases Table.mem_insertNew.mp h with hr | hr
      · exact .inl ⟨r', hr, .kept _ _⟩
      · exact .inr ⟨n, _, rfl, not_not.mp hmax, hr⟩
  | claim worker n => exact .inl (claim_touches h)
  | defer id reason n =>
    left
    rcases Table.mem_update.mp h with ⟨h', _⟩ | ⟨r, hr, hrun, rfl⟩
    · exact ⟨r', h', .kept _ _⟩
    · simp only [runningJob, Bool.and_eq_true, beq_iff_eq] at hrun
      obtain ⟨rfl, hrun⟩ := hrun
      exact ⟨r, hr, .deferred reason n r hrun⟩
  | reap t =>
    left
    rcases Table.mem_update.mp h with ⟨h', _⟩ | ⟨r, hr, hl, rfl⟩
    · exact ⟨r', h', .kept _ _⟩
    · exact ⟨r, hr, .reaped t r hl⟩
  | patch id p =>
    left
    rcases Table.mem_update.mp h with ⟨h', _⟩ | ⟨r, hr, hid, rfl⟩
    · exact ⟨r', h', .kept _ _⟩
    · obtain rfl := beq_iff_eq.mp hid
      exact ⟨r, hr, .patched p r⟩
  | selectByKey org kind key => exact .inl ⟨r', h, .kept _ _⟩
  | select id => exact .inl ⟨r', h, .kept _ _⟩
  | clock => exact .inl ⟨r', h, .kept _ _⟩

/-- How job `id` is after call `c`: what the call made of it, or new. -/
inductive JobAfter (now : Instant) (jobs : JobsTable P) (id : JobId) :
    QueueCall P → Option (JobRow P) → Prop where
  | touched {c : QueueCall P} {r r' : JobRow P} (hrow : jobs.find id = some r)
      (h : Touched now c r r') : JobAfter now jobs id c (some r')
  | absent {c : QueueCall P} (hrow : jobs.find id = none) : JobAfter now jobs id c none
  | inserted {n : NewJob P} (hnew : id = jobs.nextId) (hmax : IsAttempts n.maxAttempts)
      (hkey : ∀ r ∈ jobs, sameKey n.organizationId n.kind n.idempotencyKey r = false) :
      JobAfter now jobs id (.insert n) (some (n.row now id))

theorem jobAfter_same (now : Instant) (jobs : JobsTable P) (id : JobId) (c : QueueCall P) :
    JobAfter now jobs id c (jobs.find id) := by
  cases hrow : jobs.find id with
  | none => exact .absent hrow
  | some r => exact .touched hrow (.kept c r)

/-- An update is what it does to the row it finds. -/
theorem jobAfter_update {now : Instant} {jobs : JobsTable P} {id : JobId} {c : QueueCall P}
    {p : JobRow P → Bool} {f : JobEdit P}
    (h : ∀ r, jobs.find id = some r → p r = true → Touched now c r (f.run r)) :
    JobAfter now jobs id c ((jobs.update p f).find id) := by
  rw [Table.find_update]
  cases hrow : jobs.find id with
  | none => exact .absent hrow
  | some r =>
    cases hp : p r with
    | true =>
      rw [Option.map_some, Table.Edit.on_hit hp]
      exact .touched hrow (h r hrow hp)
    | false =>
      rw [Option.map_some, Table.Edit.on_miss hp]
      exact .touched hrow (.kept c r)

/-- **One job after a request.** -/
theorem jobAfter_run (now : Instant) (locked : JobId → Bool) (jobs : JobsTable P) (id : JobId)
    (c : QueueCall P) : JobAfter now jobs id c ((c.run now locked jobs).2.find id) := by
  cases c with
  | insert n =>
    simp only [QueueCall.run, insertJob]
    split
    · exact jobAfter_same now jobs id _
    split
    · exact jobAfter_same now jobs id _
    next hmax hany =>
      rw [Table.find_insertNew]
      split
      next hid =>
        subst hid
        refine .inserted rfl ((not_not.mp hmax)) fun r hr => ?_
        have hkey := List.any_eq_false.mp (Bool.eq_false_iff.mpr hany) r hr
        exact Bool.eq_false_iff.mpr hkey
      next => exact jobAfter_same now jobs id _
  | claim worker n =>
    simp only [QueueCall.run, claimOrchestrationJob]
    split
    · exact jobAfter_same now jobs id _
    split
    · exact jobAfter_same now jobs id _
    split
    · exact jobAfter_same now jobs id _
    next r hr =>
      refine jobAfter_update fun r' hr' hid => ?_
      obtain ⟨hmem, hclaim⟩ := nextClaim_mem hr
      obtain rfl : r' = r := by
        -- ids are unique
        have hrow : jobs.find r.id = some r' := Table.find_eq_some.mpr
          ⟨(Table.mem_of_find hr').1, beq_iff_eq.mp hid⟩
        rw [Table.find_eq_some.mpr ⟨hmem, rfl⟩] at hrow
        exact (Option.some.inj hrow).symm
      exact .claimed worker n r' hclaim
  | defer id' reason n =>
    refine jobAfter_update fun r _ hp => ?_
    simp only [runningJob, Bool.and_eq_true, beq_iff_eq] at hp
    obtain ⟨rfl, hrun⟩ := hp
    exact .deferred reason n r hrun
  | reap t => exact jobAfter_update fun r _ hp => .reaped t r hp
  | patch id' p =>
    refine jobAfter_update fun r _ hp => ?_
    obtain rfl := beq_iff_eq.mp hp
    exact .patched p r
  | selectByKey org kind key => exact jobAfter_same now jobs id _
  | select id' => exact jobAfter_same now jobs id _
  | clock => exact jobAfter_same now jobs id _

/-- What a request never writes of a row. -/
structure SameJob (r r' : JobRow P) : Prop where
  id : r'.id = r.id
  organizationId : r'.organizationId = r.organizationId
  kind : r'.kind = r.kind
  payload : r'.payload = r.payload
  idempotencyKey : r'.idempotencyKey = r.idempotencyKey

theorem sameJob_touched {now : Instant} {c : QueueCall P} {r r' : JobRow P}
    (h : Touched now c r r') : SameJob r r' := by
  cases h with
  | reaped t r h =>
    unfold reaped
    split <;> exact ⟨rfl, rfl, rfl, rfl, rfl⟩
  | _ => exact ⟨rfl, rfl, rfl, rfl, rfl⟩

/-- A claim that got a job took a claimable one, and answers with it as it left it. -/
theorem claim_answer {now : Instant} {locked : JobId → Bool} {jobs : JobsTable P} {worker : String}
    {n : Nat} {rows : List (JobRow P)} {job : Job P}
    (h : (QueueCall.run now locked jobs (.claim worker n)).1 = .ok rows)
    (hjob : firstJob rows = some job) :
    ∃ r ∈ jobs, claimable now r = true ∧ job = (leased now worker n r).toJob ∧
      (QueueCall.run now locked jobs (.claim worker n)).2.find r.id =
        some (leased now worker n r) := by
  simp only [QueueCall.run, claimOrchestrationJob] at h ⊢
  split at h
  · cases h
  next hblank =>
  rw [if_neg hblank]
  split at h
  · cases h
  next hlease =>
  rw [if_neg hlease]
  split at h
  · cases h
    cases hjob
  next r hr =>
    cases h
    cases hjob
    obtain ⟨hmem, hclaim⟩ := nextClaim_mem hr
    refine ⟨r, hmem, hclaim, rfl, ?_⟩
    rw [Table.find_update, Table.find_eq_some.mpr ⟨hmem, rfl⟩]
    exact congrArg some (Table.Edit.on_hit (beq_self_eq_true r.id))

theorem touched_maxAttempts {now : Instant} {c : QueueCall P} {r r' : JobRow P}
    (h : Touched now c r r') : r'.maxAttempts = r.maxAttempts := by
  cases h with
  | reaped t r h =>
    unfold reaped
    split <;> rfl
  | _ => rfl

/-- A request that did not take effect left the table alone. -/
theorem perform_jobs (w : QueueWorld P) (o : QueueOracle) (c : QueueCall P) :
    (w.perform o c).2.jobs = if o.fault.Lands then (c.run w.now o.locked w.jobs).2 else w.jobs := by
  unfold QueueWorld.perform
  cases hf : o.fault with
  | before reason => cases c <;> rfl
  | none => cases c <;> rfl
  | after reason => cases c <;> rfl

theorem perform_now (w : QueueWorld P) (o : QueueOracle) (c : QueueCall P) :
    (w.perform o c).2.now = w.now := by
  unfold QueueWorld.perform
  cases c.remote <;> cases o.fault <;> rfl

/-! ## Sound rows -/

/-- Nobody will ever move this job again, and it is not finished. -/
def Wedged (now : Instant) (r : JobRow P) : Prop :=
  ¬ r.state.Terminal ∧ (∀ t, now ≤ t → claimable t r = false) ∧ ∀ t, lapsed t r = false

/-- Finished, or held under a lease, or waiting with an attempt left. -/
def Moving (r : JobRow P) : Prop :=
  r.state.Terminal ∨ r.state = .running ∧ r.leaseExpiresAt ≠ none ∨
    r.state = .queued ∧ r.attempts < r.maxAttempts

instance (r : JobRow P) : Decidable (Moving r) := inferInstanceAs (Decidable (_ ∨ _))

/-- What every job satisfies in a healthy queue. -/
structure Sound (now : Instant) (r : JobRow P) : Prop where
  budget : r.attempts ≤ r.maxAttempts
  moving : Moving r
  unwedged : ¬ Wedged now r

/-- A moving row is not wedged: a lease can lapse, a deferral can pass. -/
theorem not_wedged_of_moving {now : Instant} {r : JobRow P} (h : Moving r) : ¬ Wedged now r := by
  rintro ⟨hterm, hclaim, hlapse⟩
  rcases h with h | ⟨hrun, hlease⟩ | ⟨hq, hatt⟩
  · exact hterm h
  · cases hl : r.leaseExpiresAt with
    | none => exact hlease hl
    | some t =>
      have := hlapse t
      simp [lapsed, hrun, hl] at this
  · cases hd : r.deferredUntil with
    | none =>
      have := hclaim now (Nat.le_refl _)
      simp [claimable, hq, hd, hatt] at this
    | some t =>
      have := hclaim (max now t) (Nat.le_max_left _ _)
      simp [claimable, hq, hd, hatt] at this

theorem sound_iff {now : Instant} {r : JobRow P} :
    Sound now r ↔ r.attempts ≤ r.maxAttempts ∧ Moving r :=
  ⟨fun h => ⟨h.budget, h.moving⟩, fun h => ⟨h.1, h.2, not_wedged_of_moving h.2⟩⟩

/-- The patch keeps row `r` in its budget: it finishes the job, or an attempt is left. -/
def JobPatch.Affordable (p : JobPatch) (r : JobRow P) : Prop :=
  p.state = .queued → r.attempts < r.maxAttempts

/-- **One request, one row.** A sound row stays sound under everything but a
patch it cannot afford. -/
theorem sound_touched {now now' : Instant} {c : QueueCall P} {r r' : JobRow P}
    (h : Touched now c r r') (hmax : 0 < r.maxAttempts) (hs : Sound now' r)
    (hp : ∀ p, c = .patch r.id p → p.state ≠ .running ∧ p.Affordable r) : Sound now' r' := by
  rw [sound_iff] at hs ⊢
  obtain ⟨hbudget, hmoving⟩ := hs
  cases h with
  | kept => exact ⟨hbudget, hmoving⟩
  | claimed worker n r h =>
    simp only [claimable, Bool.and_eq_true, decide_eq_true_eq] at h
    exact ⟨h.1.2, .inr (.inl ⟨rfl, by simp [leased]⟩)⟩
  | deferred reason n r h =>
    refine ⟨Nat.le_trans (Nat.sub_le _ _) hbudget, .inr (.inr ⟨rfl, ?_⟩)⟩
    change r.attempts - 1 < r.maxAttempts
    omega
  | reaped t r h =>
    unfold reaped
    split
    next => exact ⟨hbudget, .inl (.inr rfl)⟩
    next hlt => exact ⟨hbudget, .inr (.inr ⟨rfl, Nat.lt_of_not_le hlt⟩)⟩
  | patched p r =>
    obtain ⟨hne, hafford⟩ := hp p rfl
    refine ⟨hbudget, ?_⟩
    cases hst : p.state with
    | succeeded => exact .inl (.inl hst)
    | failed => exact .inl (.inr hst)
    | running => exact absurd hst hne
    | queued => exact .inr (.inr ⟨hst, hafford hst⟩)

/-- Conversely, a requeueing patch that lands on a spent row wedges it. -/
theorem affordable_of_sound {now : Instant} {p : JobPatch} {r : JobRow P}
    (h : Sound now (p.apply r)) : p.Affordable r := by
  intro hq
  rcases h.moving with hterm | ⟨hrun, _⟩ | ⟨_, hatt⟩
  · rcases hterm with hs | hs
    all_goals
      change p.state = _ at hs
      rw [hq] at hs
      exact absurd hs (by simp)
  · change p.state = _ at hrun
    rw [hq] at hrun
    exact absurd hrun (by simp)
  · exact hatt

/-! ## Runs -/

/-- All jobs are sound. -/
def AllSound (s : QueueSys P) : Prop := ∀ r ∈ s.world.jobs, Sound s.world.now r

/-- If the move is a requeueing `PATCH` that takes effect, the row it lands on
has an attempt left. -/
def RequeuesInBudget (s : QueueSys P) : QueueMove P → Prop
  | .exec tid o => ∀ id p, s.pending tid = some (.patch id p) → p.state = .queued →
      o.fault.Lands → ∀ r ∈ s.world.jobs, r.id = id → r.attempts < r.maxAttempts
  | _ => True

/-- What holds of every run without further conditions. -/
structure QueueInv (s : QueueSys P) : Prop where
  typed : s.Typed (queueDuty P)
  positive : ∀ r ∈ s.world.jobs, 0 < r.maxAttempts

theorem queueInv_start (now : Instant) :
    QueueInv (Sys.start (QueueWorld.initial now) : QueueSys P) where
  typed := typed_start _ _
  positive r h := absurd h (Table.not_mem_empty r)

private theorem perform_positive {w : QueueWorld P} (h : ∀ r ∈ w.jobs, 0 < r.maxAttempts)
    (o : QueueOracle) (c : QueueCall P) : ∀ r ∈ (w.perform o c).2.jobs, 0 < r.maxAttempts := by
  intro r' hr'
  rw [perform_jobs] at hr'
  split at hr'
  · rcases run_touches hr' with ⟨r, hr, ht⟩ | ⟨n, id, _, hpos, rfl⟩
    · rw [touched_maxAttempts ht]
      exact h r hr
    · exact hpos.pos
  · exact h r' hr'

theorem queueInv_step {s : QueueSys P} (h : QueueInv s) (l : QueueMove P) :
    QueueInv ((queueHost P).step s l) := by
  refine ⟨queue_typed_step h.typed l, ?_⟩
  cases l with
  | exec tid o =>
    rcases exec_cases h.typed (queue_answers s.world) tid o with ⟨hs, _⟩ | ⟨c, x, x', hc⟩
    · rw [hs]
      exact h.positive
    · rw [hc.world]
      exact perform_positive h.positive o c
  | _ => exact h.positive

/-- A request keeps all jobs sound exactly if it is no unaffordable patch. -/
private theorem perform_sound_iff {w : QueueWorld P} (hpos : ∀ r ∈ w.jobs, 0 < r.maxAttempts)
    (hs : ∀ r ∈ w.jobs, Sound w.now r) (o : QueueOracle) (c : QueueCall P)
    (hshape : ∀ id p, c = .patch id p → p.state ≠ .running) :
    (∀ r ∈ (w.perform o c).2.jobs, Sound (w.perform o c).2.now r) ↔
      ∀ id p, c = .patch id p → p.state = .queued → o.fault.Lands →
        ∀ r ∈ w.jobs, r.id = id → r.attempts < r.maxAttempts := by
  rw [perform_now, perform_jobs]
  split
  next hlands =>
    constructor
    · intro hafter id p hc hq _ r hr hid
      subst hc
      have hrow : p.apply r ∈ patchJob id p w.jobs :=
        Table.mem_update.mpr (.inr ⟨r, hr, beq_iff_eq.mpr hid, rfl⟩)
      exact affordable_of_sound (hafter _ hrow) hq
    · intro hcond r' hr'
      rcases run_touches hr' with ⟨r, hr, ht⟩ | ⟨n, id, _, hpos', rfl⟩
      · refine sound_touched ht (hpos r hr) (hs r hr) ?_
        intro p hc
        exact ⟨hshape _ p hc, fun hq => hcond r.id p hc hq hlands r hr rfl⟩
      · exact sound_iff.mpr ⟨Nat.zero_le _, .inr (.inr ⟨rfl, hpos'.pos⟩)⟩
  next hlost => exact iff_of_true hs fun _ _ _ _ hl => absurd hl hlost

/-- **One move.** From sound jobs a move leads to sound jobs exactly if it
requeues within the budget. -/
theorem allSound_step_iff {s : QueueSys P} (h : QueueInv s) (hs : AllSound s) (l : QueueMove P) :
    AllSound ((queueHost P).step s l) ↔ RequeuesInBudget s l := by
  cases l with
  | spawn t => exact iff_of_true hs trivial
  | crash tid => exact iff_of_true hs trivial
  | drift ms =>
    refine iff_of_true ?_ trivial
    intro r hr
    exact sound_iff.mpr (sound_iff.mp (hs r hr))
  | exec tid o =>
    rcases exec_cases h.typed (queue_answers s.world) tid o with ⟨hsame, hidle⟩ | ⟨c, x, x', hc⟩
    · rw [hsame]
      refine iff_of_true hs ?_
      intro id p hp
      rw [hidle] at hp
      exact absurd hp (by simp)
    · unfold AllSound
      rw [hc.world]
      have hiff := perform_sound_iff h.positive hs o c ?_
      · refine hiff.trans ⟨?_, ?_⟩
        · intro hcond id p hp
          rw [hc.pending] at hp
          exact hcond id p (Option.some.inj hp)
        · intro hcond id p hp
          exact hcond id p (by rw [hc.pending, hp])
      · intro id p hp
        subst hp
        exact (queue_next hc.moves).2.state

/-- **The queue's invariant, exactly.** In a run from an empty queue every job
is within its attempts and either finished, held under a lease or claimable, in
every state, if and only if no requeueing `PATCH` lands on a row whose attempts
are spent. -/
theorem queue_sound_iff (now : Instant) (ls : List (QueueMove P)) :
    Always (queueHost P).step AllSound (Sys.start (QueueWorld.initial now)) ls ↔
      EachStep (queueHost P).step RequeuesInBudget (Sys.start (QueueWorld.initial now)) ls :=
  always_iff_eachStep (queueInv_start now) (fun _ l h => queueInv_step h l)
    (fun r h => absurd h (Table.not_mem_empty r)) (fun _ l h hs => allSound_step_iff h hs l)

/-! ## A wedged job -/

/-- Nothing goes wrong with a request, and no row is locked. -/
def quietly : QueueOracle := ⟨.none, fun _ => false⟩

/-- A job of two attempts. Worker `a` claims it and its lease lapses; `a` then
reports a failure and reads one attempt spent. Before its `PATCH` lands, worker
`b` claims the requeued job, spending the second attempt. -/
def wedgingRun : List (QueueMove Unit) :=
  [ .spawn (.enqueue ⟨1, "deployments.execute", (), "key", some 2⟩), .exec 0 quietly,
    .spawn (.claim "a" 1000), .exec 1 quietly,
    .drift 1000,
    .spawn (.reapExpired none), .exec 2 quietly, .exec 2 quietly,
    .spawn (.fail "a" 0 "engine timeout"), .exec 3 quietly,
    .spawn (.claim "b" 1000), .exec 4 quietly,
    .exec 3 quietly ]

/-- The requeueing `PATCH` leaves the job queued with its attempts spent: no
claim will take it, no lease can lapse. -/
theorem requeue_can_wedge :
    ¬ ∀ ls : List (QueueMove Unit),
      Always (queueHost Unit).step AllSound (Sys.start (QueueWorld.initial 0)) ls := by
  intro h
  have hlast : AllSound ((queueHost Unit).run (Sys.start (QueueWorld.initial 0)) wedgingRun) :=
    always_iff_prefixes.mp (h wedgingRun) wedgingRun [] (by simp)
  have hstuck : ∃ r ∈ ((queueHost Unit).run (Sys.start (QueueWorld.initial 0)) wedgingRun
      ).world.jobs.rows, ¬ Moving r := by decide
  obtain ⟨r, hr, hm⟩ := hstuck
  exact hm (hlast r hr).moving

end CloudWai.Queue
