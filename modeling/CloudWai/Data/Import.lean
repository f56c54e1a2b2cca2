import CloudWai.Data.Plane

/-!
# At most one import for a restore

The import overwrites the customer's database, and nothing remembers that it was
asked for: a delivery of the restore's job learns nothing of an earlier one but
what the job's row says. An import that times out is a `failed` result, the queue
takes the job back while attempts are left, and the next delivery asks again; the
same after a crash, when the lease lapses and the job is reaped.

`imports_at_most_once` is the law under the condition that decides it: the job goes
back to the queue only while no import was asked for and no other delivery is about
to ask. Then a job that is waiting has never been imported for (`ImportInv.waiting`),
so whoever claims it is the first.

About `apps/worker/src/restore-job.ts`, as `Jobs.lean` has it, over
`packages/adapters/src/postgres.ts`.
-/

namespace CloudWai.Data

open Base Queue

variable {d : DatabaseAdapter} {x : Record} {s : DataSys}

/-- A request to overwrite a database, made for the record. -/
def overwrites (x : Record) : Call → Bool
  | .engine row (.imports _ _ _) => row == x
  | _ => false

/-- How many there were. -/
def imports (x : Record) (s : DataSys) : Nat := s.log.countP fun e => overwrites x e.2.call

/-- A delivery of the record's job that has not asked the engine yet. -/
def Stage.Loaded : Stage → Prop
  | .loaded _ _ => True
  | _ => False

instance (y : Stage) : Decidable y.Loaded := by
  rcases y with _ | _ <;> first | exact isTrue trivial | exact isFalse id

/-- The request puts the record's job back in the queue. -/
def requeues (x : Record) (w : World) : DataQueueCall → Bool
  | .patch id p => p.state == .queued && (w.jobs.find id).any fun r => decide (JobFor x r)
  | .defer id _ _ => w.jobs.rows.any fun r => decide (JobFor x r) && runningJob id r
  | .reap t => w.jobs.rows.any fun r =>
      decide (JobFor x r) && lapsed t r && decide (r.attempts < r.maxAttempts)
  | _ => false

/-- The engine was not asked for the record, and no other thread is about to ask. -/
def Unasked (x : Record) (s : DataSys) (tid : Nat) : Prop :=
  imports x s = 0 ∧ ∀ i < s.born, i ≠ tid → ∀ y ∈ stageOf x s i, ¬ y.Loaded

instance (tid : Nat) : Decidable (Unasked x s tid) := inferInstanceAs (Decidable (_ ∧ _))

/-- The record's job goes back to the queue only while the engine was not asked. -/
def RequeueGuard (x : Record) (s : DataSys) : DataMove → Prop
  | .exec tid o =>
    match s.pending tid with
    | some (.queue c) => o.fault.Lands → requeues x s.world c = true → Unasked x s tid
    | _ => True
  | _ => True

instance (l : DataMove) : Decidable (RequeueGuard x s l) := by
  unfold RequeueGuard
  split
  · split <;> infer_instance
  · infer_instance

/-! ## The invariant -/

/-- One delivery at most may ask, and only while none has; a waiting job is one
nobody has asked for. -/
structure ImportInv (x : Record) (s : DataSys) : Prop where
  sound : Sound x s
  most : imports x s ≤ 1
  unasked : ∀ i y, stageOf x s i = some y → y.Loaded → imports x s = 0
  alone : ∀ i j y z, stageOf x s i = some y → y.Loaded → stageOf x s j = some z → z.Loaded → i = j
  waiting : (∀ r ∈ s.world.jobs, JobFor x r → r.state = .queued) →
    imports x s = 0 ∧ ∀ i y, stageOf x s i = some y → ¬ y.Loaded

theorem importInv_initial (now : Instant) (resources : ResourcesTable)
    (members : OrganizationId → UserId → Bool) :
    ImportInv x (DataSys.initial now resources members) where
  sound := sound_initial now resources members
  most := Nat.zero_le 1
  unasked _ _ h := by cases h
  alone _ _ _ _ h := by cases h
  waiting _ := ⟨rfl, fun _ _ h => by cases h⟩

/-- A job of the record that is queued was queued before the request, or the
request put it back. -/
theorem queued_before {w : World} {o : Oracle} {c : DataQueueCall} {r : JobRow DataJobPayload}
    (hr : r ∈ w.jobs) (hfor : JobFor x r)
    (hafter : ∀ r ∈ (w.perform o (.queue c)).2.jobs, JobFor x r → r.state = .queued) :
    r.state = .queued ∨ o.fault.Lands ∧ requeues x w c = true := by
  have hfind : w.jobs.find r.id = some r := Table.find_eq_some.mpr ⟨hr, rfl⟩
  by_cases hlands : o.fault.Lands
  · rw [perform_jobs, if_pos hlands] at hafter
    have hjob := jobAfter_run w.now o.locked w.jobs r.id c
    generalize hfound : (c.run w.now o.locked w.jobs).2.find r.id = found at hjob
    cases hjob with
    | absent hrow =>
      rw [hfind] at hrow
      cases hrow
    | inserted hnew =>
      rw [hnew, Table.find_nextId] at hfind
      cases hfind
    | @touched c r₀ r' hrow h =>
      rw [hfind] at hrow
      cases hrow
      have hqueued := hafter r' (Table.mem_of_find hfound).1
        ((jobFor_same (sameJob_touched h)).mpr hfor)
      cases h with
      | kept => exact .inl hqueued
      | claimed => cases hqueued
      | deferred reason n r hrun =>
        refine .inr ⟨hlands, List.any_eq_true.mpr ⟨r, hr, ?_⟩⟩
        simp [hfor, runningJob, hrun]
      | reaped t r hlapsed =>
        refine .inr ⟨hlands, List.any_eq_true.mpr ⟨r, hr, ?_⟩⟩
        have hleft : r.attempts < r.maxAttempts := by
          by_contra hge
          rw [reaped, if_pos (by omega)] at hqueued
          cases hqueued
        simp [hfor, hlapsed, hleft]
      | patched p r =>
        refine .inr ⟨hlands, ?_⟩
        have hp : p.state = .queued := hqueued
        simp [requeues, hp, hfind, hfor]
  · left
    refine hafter r ?_ hfor
    rw [perform_jobs, if_neg hlands]
    exact hr

theorem imports_of_called {tid : Nat} {o : Oracle} {c : Call} {y y' : Stage} {s' : DataSys}
    (hc : Called (dataHost d) (dataDuty x) s s' tid o c y y') :
    imports x s' = imports x s + if overwrites x c then 1 else 0 := by
  unfold imports
  rw [hc.log, List.countP_cons]

/-- Only a delivery about to ask asks, and it is done with that. -/
theorem asked_of_overwrites {w : World} {o : Oracle} {c : Call} {y y' : Stage}
    (h : Effect x w o y c y') (hover : overwrites x c = true) : y.Loaded ∧ ¬ y'.Loaded := by
  cases h with
  | asked hy =>
    subst hy
    exact ⟨trivial, id⟩
  | @still c hno =>
    cases c with
    | engine row c => cases c with
      | imports org database file => exact absurd (beq_iff_eq.mp hover) hno
      | _ => cases hover
    | _ => cases hover
  | _ => cases hover

/-- A delivery about to ask was so before, or has just claimed the job. -/
theorem loaded_of_effect {w : World} {o : Oracle} {c : Call} {y y' : Stage}
    (h : Effect x w o y c y') (hloaded : y'.Loaded) :
    y' = y ∨ (∃ r ∈ w.jobs, JobFor x r ∧ r.state = .queued) ∧
      ∃ r ∈ (w.perform o c).2.jobs, JobFor x r ∧ r.state ≠ .queued := by
  cases h with
  | @claimed worker n r hy hr hclaim hfor hafter =>
    simp only [claimable, Bool.and_eq_true, beq_iff_eq] at hclaim
    exact .inr ⟨⟨r, (Table.mem_of_find hr).1, hfor, hclaim.1.1⟩, leased w.now worker n r,
      (Table.mem_of_find hafter).1, hfor, fun h => by cases h⟩
  | aside => exact .inl rfl
  | still => exact .inl rfl
  | _ => exact hloaded.elim

/-- A thread that puts the record's job back is not about to ask. -/
theorem unloaded_of_requeues {w : World} {o : Oracle} {c : DataQueueCall} {y y' : Stage}
    (h : Effect x w o y (.queue c) y') (hre : requeues x w c = true) : ¬ y'.Loaded := by
  cases h with
  | still hno => cases c <;> first | exact hno.elim | cases hre
  | aside hy hc =>
    subst hy
    exact id
  | claimed => cases hre
  | _ => exact id

/-- Where the record's job is seen queued, nobody has asked or is about to. -/
theorem ImportInv.of_queued (h : ImportInv x s) {r : JobRow DataJobPayload}
    (hr : r ∈ s.world.jobs) (hfor : JobFor x r) (hqueued : r.state = .queued) :
    imports x s = 0 ∧ ∀ i y, stageOf x s i = some y → ¬ y.Loaded := by
  refine h.waiting fun r' hr' hfor' => ?_
  rw [h.sound.single hr hr' hfor hfor']
  exact hqueued

/-- The delivery that asks is the only one that might have, and none has. -/
theorem importInv_asked (h : ImportInv x s) {tid : Nat} {o : Oracle} {c : Call} {y y' : Stage}
    {s' : DataSys} (hsound : Sound x s')
    (hc : Called (dataHost d) (dataDuty x) s s' tid o c y y') (heff : Effect x s.world o y c y')
    (hover : overwrites x c = true) : ImportInv x s' := by
  obtain ⟨hy, hy'⟩ := asked_of_overwrites heff hover
  have hcount := imports_of_called hc
  have hzero := h.unasked tid y hc.was hy
  rw [if_pos hover, hzero] at hcount
  have hnone : ∀ i z, stageOf x s' i = some z → ¬ z.Loaded := by
    intro i z hz hloaded
    rcases hc.stage_after hz with ⟨_, rfl⟩ | ⟨hi, hwas⟩
    · exact hy' hloaded
    · exact hi (h.alone i tid z y hwas hloaded hc.was hy)
  have hjobs : s'.world.jobs = s.world.jobs := by
    rw [hc.world]
    cases c with
    | engine row c => rfl
    | _ => cases hover
  refine ⟨hsound, by omega, fun i z hz hloaded => absurd hloaded (hnone i z hz),
    fun i _ z _ hz hloaded => absurd hloaded (hnone i z hz), fun hqueued => ?_⟩
  rw [hjobs] at hqueued
  exact absurd hy ((h.waiting hqueued).2 tid y hc.was)

/-- Any other call leaves the count, and a delivery that may ask has been one, or
claimed a job that was waiting. -/
theorem importInv_still (h : ImportInv x s) {tid : Nat} {o : Oracle} {c : Call} {y y' : Stage}
    {s' : DataSys} (hsound : Sound x s')
    (hc : Called (dataHost d) (dataDuty x) s s' tid o c y y') (heff : Effect x s.world o y c y')
    (hover : overwrites x c = false) (hguard : RequeueGuard x s (.exec tid o)) :
    ImportInv x s' := by
  have hcount := imports_of_called hc
  rw [hover] at hcount
  simp only [Bool.false_eq_true, if_false, Nat.add_zero] at hcount
  -- a thread that may ask now could before, or nobody else can
  have hfrom : ∀ i z, stageOf x s' i = some z → z.Loaded → stageOf x s i = some z ∨
      i = tid ∧ imports x s = 0 ∧ ∀ j w, stageOf x s j = some w → ¬ w.Loaded := by
    intro i z hz hloaded
    rcases hc.stage_after hz with ⟨rfl, rfl⟩ | ⟨_, hwas⟩
    · rcases loaded_of_effect heff hloaded with rfl | ⟨⟨r, hr, hfor, hqueued⟩, _⟩
      · exact .inl hc.was
      · exact .inr ⟨rfl, h.of_queued hr hfor hqueued⟩
    · exact .inl hwas
  refine ⟨hsound, hcount ▸ h.most, ?_, ?_, ?_⟩
  · intro i z hz hloaded
    rw [hcount]
    rcases hfrom i z hz hloaded with hwas | ⟨_, hzero, _⟩
    · exact h.unasked i z hwas hloaded
    · exact hzero
  · intro i j z w hz hzl hw hwl
    rcases hfrom i z hz hzl with hzwas | ⟨rfl, _, hnone⟩
    · rcases hfrom j w hw hwl with hwwas | ⟨_, _, hnone⟩
      · exact h.alone i j z w hzwas hzl hwwas hwl
      · exact absurd hzl (hnone i z hzwas)
    · rcases hfrom j w hw hwl with hwwas | ⟨rfl, _, _⟩
      · exact absurd hwl (hnone j w hwwas)
      · rfl
  · intro hqueued
    rw [hcount]
    rw [hc.world] at hqueued
    have hstill : (∀ j w, stageOf x s j = some w → ¬ w.Loaded) →
        ∀ i z, stageOf x s' i = some z → ¬ z.Loaded := by
      intro hnone i z hz hloaded
      rcases hc.stage_after hz with ⟨rfl, rfl⟩ | ⟨_, hwas⟩
      · rcases loaded_of_effect heff hloaded with rfl | ⟨_, r, hr, hfor, hno⟩
        · exact hnone _ _ hc.was hloaded
        · exact hno (hqueued r hr hfor)
      · exact hnone i z hwas hloaded
    by_cases hall : ∀ r ∈ s.world.jobs, JobFor x r → r.state = .queued
    · obtain ⟨hzero, hnone⟩ := h.waiting hall
      exact ⟨hzero, hstill hnone⟩
    · push Not at hall
      obtain ⟨r, hr, hfor, hno⟩ := hall
      cases c with
      | engine row c => exact absurd (hqueued r hr hfor) hno
      | store c =>
        refine absurd (hqueued r ?_ hfor) hno
        show r ∈ (s.world.perform o (.store c)).2.jobs
        rw [perform_store_jobs]
        exact hr
      | queue c =>
        rcases queued_before hr hfor hqueued with hyes | ⟨hlands, hre⟩
        · exact absurd hyes hno
        simp only [RequeueGuard, hc.pending] at hguard
        obtain ⟨hzero, hothers⟩ := hguard hlands hre
        refine ⟨hzero, fun i z hz hloaded => ?_⟩
        rcases hc.stage_after hz with ⟨rfl, rfl⟩ | ⟨hi, hwas⟩
        · exact unloaded_of_requeues heff hre hloaded
        · exact hothers i (lt_born_of_stage h.sound hwas) hi z hwas hloaded

/-- **Step.** -/
theorem importInv_step (h : ImportInv x s) {l : DataMove} (hguard : RequeueGuard x s l) :
    ImportInv x ((dataHost d).step s l) := by
  have hsound := sound_step (d := d) h.sound l
  rcases data_step_cases (d := d) h.sound l with hs | ⟨tid, o, c, y, y', hl, hc, heff⟩
  · -- nothing is called, and a new task has claimed nothing
    have hcount : imports x ((dataHost d).step s l) = imports x s := by
      unfold imports
      rw [hs.log]
    have hjobs : ((dataHost d).step s l).world.jobs = s.world.jobs := by
      rcases hs.world with hw | ⟨dr, hw⟩
      · rw [hw]
      · rw [hw]
        cases dr <;> rfl
    have hstage : ∀ i z, stageOf x ((dataHost d).step s l) i = some z → z.Loaded →
        stageOf x s i = some z := by
      intro i z hz hloaded
      rcases hs.stage i z hz with hwas | ⟨_, t, rfl⟩
      · exact hwas
      · exact hloaded.elim
    refine ⟨hsound, hcount ▸ h.most, ?_, ?_, ?_⟩
    · intro i z hz hloaded
      rw [hcount]
      exact h.unasked i z (hstage i z hz hloaded) hloaded
    · intro i j z w hz hzl hw hwl
      exact h.alone i j z w (hstage i z hz hzl) hzl (hstage j w hw hwl) hwl
    · intro hqueued
      rw [hjobs] at hqueued
      rw [hcount]
      obtain ⟨hzero, hnone⟩ := h.waiting hqueued
      exact ⟨hzero, fun i z hz hloaded => hnone i z (hstage i z hz hloaded) hloaded⟩
  · subst hl
    cases hover : overwrites x c with
    | true => exact importInv_asked h hsound hc heff hover
    | false => exact importInv_still h hsound hc heff hover hguard

/-- **At most one import**, in every run in which the restore's job goes back to the
queue only while none was asked for. -/
theorem imports_at_most_once (d : DatabaseAdapter) (restore : Nat) (now : Instant)
    (resources : ResourcesTable) (members : OrganizationId → UserId → Bool) (ls : List DataMove)
    (h : EachStep (dataHost d).step (RequeueGuard ⟨.restore, restore⟩)
      (DataSys.initial now resources members) ls) :
    Always (dataHost d).step (fun s => imports ⟨.restore, restore⟩ s ≤ 1)
      (DataSys.initial now resources members) ls :=
  always_of_inv (importInv_initial now resources members) (fun _ _ hs hg => importInv_step hs hg)
    (fun _ hs => hs.most) h

/-- A restore that works. -/
def restoredRun : List DataMove := restoreRequested ++ .spawn (.work aWorker) :: calls 3 12 fine

theorem imports_at_most_once_restored :
    EachStep (dataHost anEngine).step (RequeueGuard ⟨.restore, 0⟩) DataSys.scripted restoredRun ∧
      Always (dataHost anEngine).step (fun s => imports ⟨.restore, 0⟩ s ≤ 1) DataSys.scripted
        restoredRun :=
  have h : EachStep (dataHost anEngine).step (RequeueGuard ⟨.restore, 0⟩) DataSys.scripted
      restoredRun := by decide
  ⟨h, imports_at_most_once _ 0 _ _ _ _ h⟩

/-! ## A second import -/

/-- The engine takes the import and answers too late, so the queue takes the job
back; the next delivery asks again. -/
def importedTwiceRun : List DataMove :=
  restoreRequested ++ .spawn (.work aWorker) :: calls 3 12 slow ++
    .spawn (.work aWorker) :: calls 4 5 fine

theorem timeout_imports_twice :
    ¬ Always (dataHost anEngine).step (fun s => imports ⟨.restore, 0⟩ s ≤ 1) DataSys.scripted
      importedTwiceRun := by
  intro h
  have hlast := always_iff_prefixes.mp h importedTwiceRun [] (by rw [List.append_nil])
  revert hlast
  decide

end CloudWai.Data
