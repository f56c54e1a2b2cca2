import CloudWai.Queue.Memory
import CloudWai.Security.Conduct
import CloudWai.Security.Protection

/-!
# Requests of a distribution, and the jobs that follow them

A durable distribution is an enqueue, and its idempotency key is made of the
policy's id and version. A job's payload says nothing of the deny list, the
trusted sources, the limits or the postures: the worker compiles whatever the
tables hold when it gets to it. That is right as long as there will be a worker
to get to it — but only a save of the policy moves the version, so a request
made after any other change has the key of the last one, and both queues answer
a key they know with the job that has it, in whatever state it is.

`BecomesClaimable` is what a request needs: a job some worker will be handed
once its deferral has passed. What a delivery posts to the edge was loaded after that
delivery claimed its job (`PostsLoaded`), so such a job brings the edge what was stored
at the request or later. `distributions_followed_iff` says when each request of a run
gets one, and when a request to the in-memory queue does.

About `apps/api/src/procedures/security.ts` and `apps/worker/src/policy-job.ts`, as
`Policy.lean` has them.
-/

namespace CloudWai

namespace Security

open Base Queue

variable {P : Platform} {config : EdgeConfig} {s : PolicySys}

/-! ## Jobs that will be claimed -/

section Claimable

variable {Q : Type} {now : Instant}

/-- From some moment on, a claim can take the row. -/
def BecomesClaimable (r : JobRow Q) : Prop := ∃ t, ∀ t', t ≤ t' → claimable t' r = true

/-- The row waits, and has attempts left. -/
def Waiting (r : JobRow Q) : Prop := r.state = .queued ∧ r.attempts < r.maxAttempts

instance (r : JobRow Q) : Decidable (Waiting r) := inferInstanceAs (Decidable (_ ∧ _))

theorem becomesClaimable_iff {r : JobRow Q} : BecomesClaimable r ↔ Waiting r := by
  constructor
  · rintro ⟨t, ht⟩
    have h := ht t (Nat.le_refl t)
    unfold claimable at h
    simp only [Bool.and_eq_true, beq_iff_eq, decide_eq_true_eq] at h
    exact h.1
  · rintro ⟨hstate, hattempts⟩
    refine ⟨r.deferredUntil.getD 0, fun t' ht' => ?_⟩
    unfold claimable
    simp only [hstate, hattempts, beq_self_eq_true, decide_true, Bool.true_and]
    cases hd : r.deferredUntil with
    | none => rfl
    | some t =>
      rw [hd, Option.getD_some] at ht'
      simpa using ht'

/-- A job of this key that some worker will be handed. -/
def Followed (n : NewJob Q) (jobs : JobsTable Q) : Prop :=
  ∃ r ∈ jobs, sameKey n.organizationId n.kind n.idempotencyKey r = true ∧ BecomesClaimable r

/-- Where a job has the key already, one that has it still waits. -/
def Unspent (n : NewJob Q) (jobs : JobsTable Q) : Prop :=
  jobs.rows.any (sameKey n.organizationId n.kind n.idempotencyKey) = true →
    ∃ r ∈ jobs.rows, sameKey n.organizationId n.kind n.idempotencyKey r = true ∧ Waiting r

instance (n : NewJob Q) (jobs : JobsTable Q) : Decidable (Unspent n jobs) :=
  inferInstanceAs (Decidable (_ → ∃ r ∈ jobs.rows, _))

/-- **One insert.** -/
theorem insert_followed_iff {n : NewJob Q} {jobs : JobsTable Q} (hn : IsAttempts n.maxAttempts) :
    Followed n (insertJob now n jobs).2 ↔ Unspent n jobs := by
  unfold insertJob Unspent
  rw [if_neg (not_not.mpr hn)]
  split
  next hany =>
    constructor
    · rintro ⟨r, hr, hkey, hclaim⟩ _
      exact ⟨r, hr, hkey, becomesClaimable_iff.mp hclaim⟩
    · intro h
      obtain ⟨r, hr, hkey, hwaits⟩ := h hany
      exact ⟨r, hr, hkey, becomesClaimable_iff.mpr hwaits⟩
  next hnone =>
    refine iff_of_true ?_ fun hany => absurd hany hnone
    refine ⟨n.row now jobs.nextId, Table.mem_insertNew.mpr (.inr rfl), ?_, ?_⟩
    · simp [sameKey, NewJob.row]
    · exact becomesClaimable_iff.mpr ⟨rfl, hn.pos⟩

end Claimable

/-! ## Requests of a run -/

/-- The insert that the step makes, if it takes effect. -/
def requested (s : PolicySys) : PolicyMove → Option (NewJob PolicyJobPayload)
  | .exec tid o =>
    match s.pending tid with
    | some (.queue (.insert n)) => if o.fault.Lands then some n else none
    | _ => none
  | _ => none

/-- Whatever the step requests is followed by a job. -/
def RequestFollowed (P : Platform) (config : EdgeConfig) (s : PolicySys) (l : PolicyMove) : Prop :=
  ∀ n ∈ requested s l, Followed n ((policyHost P config).step s l).world.jobs

/-- Whatever the step requests has a key that no job has used up. -/
def KeyUnspent (s : PolicySys) (l : PolicyMove) : Prop :=
  ∀ n ∈ requested s l, Unspent n s.world.jobs

instance (s : PolicySys) (l : PolicyMove) : Decidable (KeyUnspent s l) :=
  inferInstanceAs (Decidable (∀ n ∈ requested s l, Unspent n s.world.jobs))

/-- Every insert leaves the attempts at their default. -/
theorem attempts_of_next {n : NewJob PolicyJobPayload}
    {r : Except String (PolicyCall.Ans (.queue (.insert n)))} {x x' : PolicyStage}
    (h : x.next (.queue (.insert n)) r = some x') :
    n.maxAttempts = SqlJobQueue.defaultMaxAttempts := by
  have hqueue : x.afterQueue (.insert n) r = some x' := by cases x <;> exact h
  unfold PolicyStage.afterQueue at hqueue
  dsimp only at hqueue
  split at hqueue
  next hn => exact hn
  next => cases hqueue

/-- **Step.** -/
theorem requestFollowed_iff (hS : s.Sane) (hT : s.Typed policyDuty) (l : PolicyMove) :
    RequestFollowed P config s l ↔ KeyUnspent s l := by
  have hnone : requested s l = none → (RequestFollowed P config s l ↔ KeyUnspent s l) := by
    intro h
    unfold RequestFollowed KeyUnspent
    rw [h]
    exact iff_of_true (by simp) (by simp)
  rcases step_cases hS hT (policy_answers P config s.world) l with
    hs | ⟨tid, o, c, x, x', rfl, hc⟩
  · refine hnone ?_
    cases l with
    | exec tid o =>
      unfold requested
      dsimp only
      rw [hs.idle tid o rfl]
    | _ => rfl
  · have hreq : requested s (.exec tid o) =
        match some c with
        | some (.queue (.insert n)) => if o.fault.Lands then some n else none
        | _ => none := by
      unfold requested
      dsimp only
      rw [hc.pending]
    cases c with
    | queue c =>
      cases c with
      | insert n =>
        dsimp only at hreq
        split at hreq
        next hl =>
          have hjobs : ((policyHost P config).step s (.exec tid o)).world.jobs =
              (insertJob s.world.now n s.world.jobs).2 := by
            rw [hc.world]
            show ((o.fault.apply s.world _).2).jobs = _
            rw [Fault.apply_snd, if_pos hl]
            rfl
          unfold RequestFollowed KeyUnspent
          rw [hreq, hjobs]
          simp only [Option.mem_def, Option.some.injEq, forall_eq']
          have hmove : x.next (.queue (.insert n))
              (s.world.perform P config o (.queue (.insert n))).1 = some x' := hc.moves
          have hn := attempts_of_next hmove
          exact insert_followed_iff (hn ▸ SqlJobQueue.isAttempts_default)
        next => exact hnone hreq
      | _ => exact hnone hreq
    | _ => exact hnone hreq

/-- **Run.** -/
theorem requests_followed_iff (P : Platform) (config : EdgeConfig) (w : PolicyWorld)
    (ls : List PolicyMove) :
    EachStep (policyHost P config).step (RequestFollowed P config) (Sys.start w) ls ↔
      EachStep (policyHost P config).step KeyUnspent (Sys.start w) ls := by
  refine eachStep_iff (J := fun s => s.Sane ∧ s.Typed policyDuty)
    ⟨sane_start w, typed_start _ w⟩ ?_ fun s l hs => requestFollowed_iff hs.1 hs.2 l
  intro s l hs _
  exact ⟨sane_step _ hs.1 l,
    typed_step (policyTask_follows P config) (policy_answers P config s.world) hs.2 l⟩

/-! ## The in-memory queue -/

section Memory

variable {Q : Type} {now : Instant} {q : MemQueue Q}

/-- The same of a job of the in-memory queue. -/
def MemBecomesClaimable (j : StoredJob Q) : Prop :=
  ∃ t, ∀ t', t ≤ t' → InMemoryJobQueue.takes t' j = true

theorem memBecomesClaimable_iff {j : StoredJob Q} :
    MemBecomesClaimable j ↔ j.state = .queued ∧ j.attempts < j.maxAttempts := by
  unfold MemBecomesClaimable InMemoryJobQueue.takes
  constructor
  · rintro ⟨t, ht⟩
    have hnow := ht t (Nat.le_refl t)
    simp only [Bool.and_eq_true, beq_iff_eq, decide_eq_true_iff] at hnow
    exact hnow.1
  · rintro ⟨hstate, hleft⟩
    refine ⟨j.deferredUntil.getD 0, fun t' ht' => ?_⟩
    simp only [hstate, beq_self_eq_true, hleft, decide_true, Bool.true_and]
    cases hdef : j.deferredUntil with
    | none => rfl
    | some t =>
      rw [hdef] at ht'
      simpa using ht'

/-- The key of an input, as the queue's map has it. -/
def memKey (input : EnqueueInput Q) : String :=
  InMemoryJobQueue.keyOf input.organizationId input.kind input.idempotencyKey

/-- `enqueue` leaves a job under the key that will be claimed exactly if there
was none, or the one there was still waits. -/
theorem mem_followed_iff {input : EnqueueInput Q} (hmax : input.maxAttempts = none) :
    MemBecomesClaimable (InMemoryJobQueue.enqueue now input q).1 ↔
      ∀ j, q.jobs.find? (InMemoryJobQueue.Keyed (memKey input)) = some j →
        j.state = .queued ∧ j.attempts < j.maxAttempts := by
  rw [memBecomesClaimable_iff]
  unfold InMemoryJobQueue.enqueue
  show _ ↔ ∀ j, q.jobs.find? (InMemoryJobQueue.Keyed (InMemoryJobQueue.keyOf input.organizationId
    input.kind input.idempotencyKey)) = some j → _
  split
  next existing hfind =>
    rw [hfind]
    simp
  next hfind =>
    rw [hfind]
    refine iff_of_true ⟨rfl, ?_⟩ (by simp)
    show ((0 : Nat) : ℚ) < input.maxAttempts.getD 3
    rw [hmax]
    decide

end Memory

/-! ## What a delivery posts -/

/-- A worker that is not idle has claimed a job. -/
theorem claimed_before {past : List (Event PolicyCall PolicyCall.Ans String)} {x : PolicyStage}
    (h : stageAfter policyProtocol .idle past = some x) (hx : x ≠ .idle) :
    ∃ later earlier worker seconds row rows,
      past = later ++ ⟨.queue (.claim worker seconds), .ok (row :: rows)⟩ :: earlier := by
  induction past generalizing x with
  | nil => exact absurd (Option.some.inj h).symm hx
  | cons e past ih =>
    obtain ⟨y, hy, hmove⟩ := Option.bind_eq_some_iff.mp h
    by_cases hidle : y = .idle
    · subst hidle
      obtain ⟨c, r⟩ := e
      cases c with
      | queue c =>
        have hqueue : PolicyStage.afterQueue .idle c r = some x := hmove
        cases c with
        | claim worker seconds =>
          rcases r with e | rows
          · exact absurd (Option.some.inj hqueue).symm hx
          rcases rows with _ | ⟨row, rows⟩
          · exact absurd (Option.some.inj hqueue).symm hx
          · exact ⟨[], past, worker, seconds, row, rows, rfl⟩
        | insert n =>
          unfold PolicyStage.afterQueue at hqueue
          dsimp only at hqueue
          split at hqueue
          · exact absurd (Option.some.inj hqueue).symm hx
          · cases hqueue
        | _ => exact absurd (Option.some.inj hqueue).symm hx
      | recordPolicyEvent event => exact absurd (Option.some.inj hmove).symm hx
      | recordAuditEvent event org actor policy version =>
        exact absurd (Option.some.inj hmove).symm hx
      | openSecurityIncident org severity summary => exact absurd (Option.some.inj hmove).symm hx
      | _ => cases hmove
    · obtain ⟨later, earlier, worker, seconds, row, rows, rfl⟩ := ih hy hidle
      exact ⟨e :: later, earlier, worker, seconds, row, rows, rfl⟩

/-- A stage with something loaded comes from that load, or was there already. -/
theorem loaded_of_next {e : Event PolicyCall PolicyCall.Ans String} {y : PolicyStage}
    {p : SecurityPolicy} {input : CompileInput}
    (h : y.next e.call e.answer = some (.loaded p input)) :
    y = .loaded p input ∨
      y = .holds p ∧ e = ⟨.loadPolicy p.organizationId, .ok (some input)⟩ := by
  have hread : ∀ r : Except String (Option SecurityPolicy),
      PolicyStage.afterRead r ≠ .loaded p input := by
    intro r hr
    unfold PolicyStage.afterRead at hr
    split at hr <;> cases hr
  obtain ⟨c, r⟩ := e
  cases c with
  | queue c =>
    have hqueue : y.afterQueue c r = some (.loaded p input) := by cases y <;> exact h
    rcases afterQueue_cases hqueue with hsame | hstart
    · exact .inl hsame.symm
    · cases hstart
  | recordPolicyEvent event => exact .inl (Option.some.inj (by cases y <;> exact h))
  | recordAuditEvent event org actor policy version =>
    exact .inl (Option.some.inj (by cases y <;> exact h))
  | openSecurityIncident org severity summary =>
    exact .inl (Option.some.inj (by cases y <;> exact h))
  | getSecurityPolicy user org =>
    cases y with
    | start saves =>
      cases saves with
      | false => exact absurd (Option.some.inj h) (hread r)
      | true => rcases r with e | read <;> cases h
    | _ => cases h
  | getSecurityPolicyForService org =>
    cases y with
    | start saves =>
      cases saves with
      | false => exact absurd (Option.some.inj h) (hread r)
      | true => cases h
    | holds q => exact absurd (Option.some.inj h) (hread r)
    | loaded q sent => exact absurd (Option.some.inj h) (hread r)
    | accepted q sent version =>
      simp only [PolicyStage.next] at h
      split at h
      · split at h <;> cases h
      · cases h
    | _ => cases h
  | saveSecurityPolicy input =>
    cases y with
    | saving org read =>
      simp only [PolicyStage.next] at h
      split at h <;> cases h
    | accepted q sent version =>
      simp only [PolicyStage.next] at h
      split at h <;> cases h
    | start saves => cases saves <;> cases h
    | _ => cases h
  | loadPolicy org =>
    cases y with
    | holds q =>
      simp only [PolicyStage.next] at h
      split at h
      next horg =>
        split at h
        next sent =>
          cases h
          rw [horg]
          exact .inr ⟨rfl, rfl⟩
        next => cases h
      next => cases h
    | start saves => cases saves <;> cases h
    | _ => cases h
  | postPolicy org sent =>
    cases y with
    | loaded q loaded =>
      simp only [PolicyStage.next] at h
      split at h
      · split at h <;> cases h
      · cases h
    | start saves => cases saves <;> cases h
    | _ => cases h

/-- What is held ready for the edge was loaded for the policy then held. -/
theorem loaded_before {past : List (Event PolicyCall PolicyCall.Ans String)}
    {p : SecurityPolicy} {input : CompileInput}
    (h : stageAfter policyProtocol .idle past = some (.loaded p input)) :
    ∃ later earlier, past = later ++ ⟨.loadPolicy p.organizationId, .ok (some input)⟩ :: earlier ∧
      stageAfter policyProtocol .idle earlier = some (.holds p) := by
  induction past with
  | nil => cases h
  | cons e past ih =>
    obtain ⟨y, hy, hmove⟩ := Option.bind_eq_some_iff.mp h
    rcases loaded_of_next hmove with rfl | ⟨rfl, rfl⟩
    · obtain ⟨later, earlier, rfl, hstage⟩ := ih hy
      exact ⟨e :: later, earlier, rfl, hstage⟩
    · exact ⟨[], past, rfl, hy⟩

/-- A post is made of what is held ready. -/
theorem loaded_of_post {org : OrganizationId} {input : CompileInput}
    {r : Except String (AdapterResult (Option Nat))} {x x' : PolicyStage}
    (h : x.next (.postPolicy org input) r = some x') : ∃ p, x = .loaded p input := by
  cases x with
  | loaded p loaded =>
    simp only [PolicyStage.next] at h
    split at h
    next hargs => exact ⟨p, by rw [hargs.2]⟩
    next => cases h
  | start saves => cases saves <;> cases h
  | _ => cases h

/-- A worker's tick that posts to the edge has loaded what it posts after it claimed its job:
of its calls, newest first, the load comes before the claim. -/
def PostsLoaded (s : PolicySys) (l : PolicyMove) : Prop :=
  ∀ tid o options past org input k, l = .exec tid o →
    s.live tid = some ⟨.work options, past, .await (.postPolicy org input) k⟩ →
      ∃ later between earlier load worker seconds row rows,
        past = later ++ ⟨.loadPolicy load, .ok (some input)⟩ ::
          (between ++ ⟨.queue (.claim worker seconds), .ok (row :: rows)⟩ :: earlier)

theorem posted_after_claim (hT : s.Typed policyDuty) (l : PolicyMove) : PostsLoaded s l := by
  intro tid o options past org input k _ hlive
  obtain ⟨x, hx, hfollows⟩ := hT tid _ hlive
  obtain ⟨x', hx', _⟩ := hfollows (.ok (.err .failed "")) trivial
  obtain ⟨p, rfl⟩ := loaded_of_post hx'
  obtain ⟨later, before, rfl, hholds⟩ := loaded_before hx
  obtain ⟨between, earlier, worker, seconds, row, rows, rfl⟩ := claimed_before hholds (by simp)
  exact ⟨later, between, earlier, p.organizationId, worker, seconds, row, rows, rfl⟩

theorem posts_loaded (P : Platform) (config : EdgeConfig) (w : PolicyWorld) (ls : List PolicyMove) :
    EachStep (policyHost P config).step PostsLoaded (Sys.start w) ls :=
  inv_eachStep (typed_start _ w)
    (fun s l hT => typed_step (policyTask_follows P config) (policy_answers P config s.world) hT l)
    fun _ l hT => posted_after_claim hT l

/-- **When distributions are followed.** In a run on the SQL queue each request is
followed by a job that becomes claimable exactly if none meets a key whose jobs
are all claimed or finished, and whoever claims one asks the edge to apply what was
loaded afterwards; and so it is with one request to the in-memory queue. -/
theorem distributions_followed_iff (P : Platform) (config : EdgeConfig) :
    (∀ w ls, (EachStep (policyHost P config).step (RequestFollowed P config) (Sys.start w) ls ↔
        EachStep (policyHost P config).step KeyUnspent (Sys.start w) ls) ∧
      EachStep (policyHost P config).step PostsLoaded (Sys.start w) ls) ∧
    ∀ now policy actor (q : MemQueue PolicyJobPayload),
      MemBecomesClaimable (InMemoryJobQueue.enqueue now (distributionJob policy actor) q).1 ↔
        ∀ j, q.jobs.find? (InMemoryJobQueue.Keyed (memKey (distributionJob policy actor))) = some j →
          j.state = .queued ∧ j.attempts < j.maxAttempts :=
  ⟨fun w ls => ⟨requests_followed_iff P config w ls, posts_loaded P config w ls⟩,
    fun _ _ _ _ => mem_followed_iff rfl⟩

/-- The shop's policy is saved, distributed by a job, a rule is added to the deny
list, and the distribution is requested again. -/
def ruleAdded : List PolicyMove :=
  .spawn (.save firstOwner (policyForm "block") 3) :: policyCalls 0 5 ++
    .spawn (.distribute true firstOwner 1) :: policyCalls 1 3 ++
    .spawn (.work { workerId := "worker" }) :: policyCalls 2 10 ++
    .drift (.edit { shop with rules := shop.rules ++ [⟨1, .ip, "198.51.100.7"⟩] }) ::
    .spawn (.distribute true firstOwner 1) :: policyCalls 3 2

/-- The second request is answered with the job that succeeded. -/
theorem second_request_lost :
    ¬ EachStep (policyHost plainPlatform edgeConfig).step (RequestFollowed plainPlatform edgeConfig)
      (Sys.start (PolicyWorld.initial 0 shop)) ruleAdded :=
  fun h => absurd ((requests_followed_iff plainPlatform edgeConfig _ _).mp h) (by decide +kernel)

end Security

end CloudWai
