import CloudWai.Base.Words
import CloudWai.Data.Plane

/-!
# Pending rows that nobody will settle

A backup or restore starts `pending` and is settled by the applier of its job's last
delivery. Between the row's insert and the applier's write stand five requests, and
each can be lost: then the row stays pending with no job, or with a job that is
finished. Deployments have a sweep for such rows; nothing looks at these again.

`never_stranded_iff` says exactly when this does not happen. The threads that still
have something to do about the record (`Stage.Attends`), and its job while that is
not finished, are what keeps a pending row from being stranded; the guard is that no
step takes the last of them away.

About `backupDataResource` and `restoreDataResource` in `apps/api/src/procedures/data.ts`
and the two jobs of `apps/worker/src`, as `Procedures.lean` and `Jobs.lean` have them.
-/

namespace CloudWai.Data

open Base Queue

variable {d : DatabaseAdapter} {x : Record} {s s' : DataSys} {w : World}

/-- The row says that the record is still to be worked on. -/
def PendingRow (x : Record) (w : World) : Prop := ∃ r ∈ w.row x, r.status = .pending

instance : Decidable (PendingRow x w) := inferInstanceAs (Decidable (∃ r ∈ w.row x, _))

/-- Its job is queued or running. -/
def OpenJob (x : Record) (w : World) : Prop :=
  ∃ r ∈ w.jobs.rows, JobFor x r ∧ ¬ r.state.Terminal

instance : Decidable (OpenJob x w) := inferInstanceAs (Decidable (∃ r ∈ w.jobs.rows, _))

/-- With nobody working on it, a pending row has a job that is not finished. -/
def Cared (x : Record) (s : DataSys) : Prop :=
  PendingRow x s.world → (∀ i < s.born, ∀ y ∈ stageOf x s i, ¬ y.Attends) → OpenJob x s.world

instance : Decidable (Cared x s) := inferInstanceAs (Decidable (_ → _ → _))

/-! ## The condition -/

/-- No thread but `tid` is working on the record. -/
def NoOther (x : Record) (s : DataSys) (tid : Nat) : Prop :=
  ∀ i < s.born, i ≠ tid → ∀ y ∈ stageOf x s i, ¬ y.Attends

instance (tid : Nat) : Decidable (NoOther x s tid) := inferInstanceAs (Decidable (∀ i < s.born, _))

/-- A pending row that nobody else is working on. -/
def Unwatched (x : Record) (s : DataSys) (tid : Nat) : Prop :=
  PendingRow x s.world ∧ NoOther x s tid

instance (tid : Nat) : Decidable (Unwatched x s tid) := inferInstanceAs (Decidable (_ ∧ _))

/-- And whose job is finished or missing: it depends on `tid` alone. -/
def Sole (x : Record) (s : DataSys) (tid : Nat) : Prop :=
  Unwatched x s tid ∧ ¬ OpenJob x s.world

instance (tid : Nat) : Decidable (Sole x s tid) := inferInstanceAs (Decidable (_ ∧ _))

/-- A reap at `t` ends the record's job: its lease lapsed with its last attempt. -/
def Exhausts (x : Record) (w : World) (t : Instant) : Prop :=
  ∃ r ∈ w.jobs.rows, JobFor x r ∧ lapsed t r = true ∧ r.maxAttempts ≤ r.attempts

instance (t : Instant) : Decidable (Exhausts x w t) := inferInstanceAs (Decidable (∃ r ∈ _, _))

/-- A call does not take the last hand off a pending row. -/
def CallGuard (x : Record) (s : DataSys) (tid : Nat) (o : Oracle) : Call → Prop
  -- an insert of the row that lands is answered, or nobody knows of the row
  | .store (.insertRow kind input) =>
    (⟨kind, (s.world.store.table kind).nextId⟩ : Record) = x → input.status = .pending →
      o.fault.Lands → o.fault.Clear
  -- the insert of the job lands
  | .queue (.insert n) =>
    jobRecord n.kind n.payload = some x → o.fault.Lands ∨ ¬ Sole x s tid
  -- the read before the settling write is answered
  | .queue (.select _) => o.fault.Clear ∨ ¬ Sole x s tid
  -- and so is that write, if it finishes the job
  | .queue (.patch job p) =>
    (¬ o.fault.Lands → ¬ Sole x s tid) ∧
      (o.fault.Lands → ¬ o.fault.Clear → p.state.Terminal →
        (∃ r ∈ s.world.jobs.find job, JobFor x r) → ¬ Unwatched x s tid)
  | .queue (.reap t) => o.fault.Lands → Exhausts x s.world t → ¬ Unwatched x s tid
  -- the applier's write lands
  | .store (.patchRow kind p) =>
    (⟨kind, p.id⟩ : Record) = x → o.fault.Lands ∨ ¬ Sole x s tid
  | _ => True

instance (tid : Nat) (o : Oracle) (c : Call) : Decidable (CallGuard x s tid o c) := by
  unfold CallGuard
  split <;> infer_instance

/-- Nor does a crash. -/
def CareGuard (x : Record) (s : DataSys) : DataMove → Prop
  | .exec tid o => ∀ c, s.pending tid = some c → CallGuard x s tid o c
  | .crash tid => ¬ Sole x s tid
  | _ => True

instance (l : DataMove) : Decidable (CareGuard x s l) := by
  rcases l with _ | ⟨tid, o⟩ | tid | _
  · exact isTrue trivial
  · exact inferInstanceAs (Decidable (∀ c ∈ s.pending tid, CallGuard x s tid o c))
  · exact inferInstanceAs (Decidable (¬ Sole x s tid))
  · exact isTrue trivial

/-! ## Jobs and rows through a request -/

/-- A request that did not land changes nothing. -/
theorem same_of_not_lands {o : Oracle} {c : Call} (h : ¬ o.fault.Lands) :
    ((w.perform o c).2.jobs = w.jobs) ∧ (w.perform o c).2.row x = w.row x := by
  cases c with
  | engine row c => exact ⟨rfl, rfl⟩
  | queue c =>
    refine ⟨by rw [perform_jobs, if_neg h], ?_⟩
    rw [World.row, perform_queue_store]
    rfl
  | store c =>
    refine ⟨perform_store_jobs w o c, ?_⟩
    rw [World.row, perform_store, if_neg h]
    rfl

theorem openJob_congr {w' : World} (h : w'.jobs = w.jobs) : OpenJob x w' ↔ OpenJob x w := by
  unfold OpenJob
  rw [h]

theorem pendingRow_congr {w' : World} (h : w'.row x = w.row x) :
    PendingRow x w' ↔ PendingRow x w := by
  unfold PendingRow
  rw [h]

/-- Each job of the record, before and after a queue request. -/
theorem job_forward {o : Oracle} {c : DataQueueCall} {r : JobRow DataJobPayload}
    (hr : r ∈ w.jobs) : ∃ r' ∈ (w.perform o (.queue c)).2.jobs, Touched w.now c r r' := by
  have hafter := job_perform w o c r.id
  have hfind : w.jobs.find r.id = some r := Table.find_eq_some.mpr ⟨hr, rfl⟩
  generalize hfound : (w.perform o (.queue c)).2.jobs.find r.id = found at hafter
  cases hafter with
  | absent hrow =>
    rw [hfind] at hrow
    cases hrow
  | inserted hnew =>
    rw [hnew, Table.find_nextId] at hfind
    cases hfind
  | @touched c r₀ r' hrow h =>
    rw [hfind] at hrow
    cases hrow
    exact ⟨r', (Table.mem_of_find hfound).1, h⟩

/-- Only a patch and a reap finish a job. -/
def Finishes : DataQueueCall → Prop
  | .patch _ _ => True
  | .reap _ => True
  | _ => False

theorem openJob_perform {o : Oracle} {c : DataQueueCall} (hc : ¬ Finishes c) (h : OpenJob x w) :
    OpenJob x (w.perform o (.queue c)).2 := by
  obtain ⟨r, hr, hfor, hopen⟩ := h
  obtain ⟨r', hr', ht⟩ := job_forward (o := o) (c := c) hr
  refine ⟨r', hr', (jobFor_same (sameJob_touched ht)).mpr hfor, ?_⟩
  cases ht with
  | kept => exact hopen
  | claimed => exact nofun
  | deferred => exact nofun
  | reaped => exact absurd trivial hc
  | patched => exact absurd trivial hc

/-! ## Before the job -/

/-- A request that has its row is alone with it: no job yet, and no other request. -/
structure CareInv (x : Record) (s : DataSys) : Prop where
  sound : Sound x s
  lone : ∀ i j org org', stageOf x s i = some (.filed org) →
    stageOf x s j = some (.filed org') → i = j
  jobless : ∀ i org, stageOf x s i = some (.filed org) → ∀ r ∈ s.world.jobs, ¬ JobFor x r

theorem careInv_initial (now : Instant) (resources : ResourcesTable)
    (members : OrganizationId → UserId → Bool) :
    CareInv x (DataSys.initial now resources members) where
  sound := sound_initial now resources members
  lone _ _ _ _ h := by cases h
  jobless _ _ h := by cases h

/-- A request gets its row by inserting it, and it was not there before. -/
theorem filed_of_effect {o : Oracle} {c : Call} {y : Stage} {org : OrganizationId}
    (h : Effect x w o y c (.filed org)) :
    y = .filed org ∨ w.row x = none ∧ ∃ c', c = .store c' := by
  generalize hy' : Stage.filed org = y' at h
  cases h with
  | filed hy hfault hnew =>
    refine .inr ⟨?_, _, rfl⟩
    rw [World.row, Store.row, hnew]
    exact Table.find_nextId
  | aside => exact .inl rfl
  | still => exact .inl rfl
  | _ => cases hy'

/-- A row that is not there has no job, and nobody works on it. -/
theorem nobody_of_no_row (h : Sound x s) (hrow : s.world.row x = none) :
    (∀ r ∈ s.world.jobs, ¬ JobFor x r) ∧
      ∀ i y, stageOf x s i = some y → ¬ y.Attends := by
  have hno : ∀ org, ¬ RowIn x s.world org := by
    rintro org ⟨r, hr, _⟩
    rw [hrow] at hr
    cases hr
  refine ⟨fun r hr hfor => hno _ (h.homed r hr hfor), fun i y hy hattends => ?_⟩
  have hseat := h.seated i y hy
  cases y with
  | filed org => exact hno _ hseat
  | loaded org job => exact hno _ hseat.2
  | spent org job => exact hno _ hseat.2
  | owing org => exact hno _ hseat
  | _ => exact hattends

/-- A job of the record is new only if the request that has its row enqueued it. -/
theorem jobFor_after {o : Oracle} {c : Call} {y y' : Stage} (h : Effect x w o y c y')
    {r : JobRow DataJobPayload} (hr : r ∈ (w.perform o c).2.jobs) (hfor : JobFor x r) :
    (∃ r ∈ w.jobs, JobFor x r) ∨ (∃ org, y = .filed org) ∧ y' = .off := by
  cases c with
  | engine row c => exact .inl ⟨r, hr, hfor⟩
  | store c =>
    rw [perform_store_jobs] at hr
    exact .inl ⟨r, hr, hfor⟩
  | queue c =>
    rcases job_of_after hr with ⟨r₀, hr₀, _, hsame⟩ | ⟨n, rfl, rfl, _⟩
    · exact .inl ⟨r₀, hr₀, (jobFor_same hsame).mp hfor⟩
    · cases h with
      | dispatched hy _ _ => exact .inr ⟨⟨_, hy⟩, rfl⟩
      | enqueued _ hnot _ => exact absurd hfor hnot
      | aside _ hc =>
        rcases hc with ⟨p, hc⟩ | ⟨reason, m, hc⟩
        · cases hc
        · cases hc
      | still hno => exact hno.elim

/-- **Step.** -/
theorem careInv_step (h : CareInv x s) (l : DataMove) : CareInv x ((dataHost d).step s l) := by
  have hsound := sound_step (d := d) h.sound l
  rcases data_step_cases (d := d) h.sound l with hs | ⟨tid, o, c, y, y', _, hc, heff⟩
  · have hstage : ∀ i org, stageOf x ((dataHost d).step s l) i = some (.filed org) →
        stageOf x s i = some (.filed org) := by
      intro i org hi
      rcases hs.stage i _ hi with hwas | ⟨_, t, ht⟩
      · exact hwas
      · cases ht
    refine ⟨hsound, fun i j org org' hi hj => ?_, fun i org hi r hr => ?_⟩
    · exact h.lone i j org org' (hstage i org hi) (hstage j org' hj)
    · refine h.jobless i org (hstage i org hi) r ?_
      rcases hs.world with hw | ⟨dr, hw⟩
      · exact hw ▸ hr
      · rw [hw] at hr
        cases dr <;> exact hr
  · -- a thread has its row since this call, or had it
    have hfrom : ∀ i org, stageOf x ((dataHost d).step s l) i = some (.filed org) →
        stageOf x s i = some (.filed org) ∨
          i = tid ∧ s.world.row x = none ∧ ∃ c', c = .store c' := by
      intro i org hi
      rcases hc.stage_after hi with ⟨rfl, rfl⟩ | ⟨_, hwas⟩
      · rcases filed_of_effect heff with rfl | hnone
        · exact .inl hc.was
        · exact .inr ⟨rfl, hnone⟩
      · exact .inl hwas
    refine ⟨hsound, fun i j org org' hi hj => ?_, fun i org hi r hr hfor => ?_⟩
    · rcases hfrom i org hi with hi | ⟨rfl, hnone, _⟩
      · rcases hfrom j org' hj with hj | ⟨_, hnone, _⟩
        · exact h.lone i j org org' hi hj
        · exact absurd trivial ((nobody_of_no_row h.sound hnone).2 i _ hi)
      · rcases hfrom j org' hj with hj | ⟨rfl, _, _⟩
        · exact absurd trivial ((nobody_of_no_row h.sound hnone).2 j _ hj)
        · rfl
    · rw [hc.world] at hr
      rcases jobFor_after heff hr hfor with ⟨r₀, hr₀, hfor₀⟩ | ⟨⟨org', rfl⟩, rfl⟩
      · rcases hfrom i org hi with hi | ⟨_, hnone, _⟩
        · exact h.jobless i org hi r₀ hr₀ hfor₀
        · exact (nobody_of_no_row h.sound hnone).1 r₀ hr₀ hfor₀
      · -- the thread that enqueued the job had the row alone, and has done with it
        rcases hc.stage_after hi with ⟨_, hoff⟩ | ⟨hne, hwas⟩
        · cases hoff
        · exact hne (h.lone i tid org org' hwas hc.was)

/-! ## One step -/

/-- A thread at a stage is numbered, so what is said of all threads is said of it. -/
theorem cared_before (h : Sound x s) {tid : Nat} {y : Stage} (hy : stageOf x s tid = some y) :
    Cared x s ↔ (PendingRow x s.world → NoOther x s tid → ¬ y.Attends → OpenJob x s.world) := by
  constructor
  · intro hcared hp hother hno
    refine hcared hp fun i hi z hz => ?_
    by_cases hit : i = tid
    · subst hit
      rw [hy] at hz
      cases hz
      exact hno
    · exact hother i hi hit z hz
  · intro hcared hp hnone
    exact hcared hp (fun i hi _ z hz => hnone i hi z hz) (hnone tid (lt_born_of_stage h hy) y hy)

/-- After a call, the others are where they were, and the caller works on the record
if its new stage says so. -/
theorem cared_after (h : Sound x s) {tid : Nat} {o : Oracle} {c : Call} {y y' : Stage}
    (hc : Called (dataHost d) (dataDuty x) s s' tid o c y y') :
    Cared x s' ↔ (PendingRow x s'.world → NoOther x s tid → ¬ y'.Attends → OpenJob x s'.world) := by
  have hlt : tid < s.born := lt_born_of_stage h hc.was
  constructor
  · intro hcared hp hother hno
    refine hcared hp fun i hi z hz => ?_
    rcases hc.stage_after hz with ⟨_, rfl⟩ | ⟨hne, hwas⟩
    · exact hno
    · exact hother i (hc.born ▸ hi) hne z hwas
  · intro hcared hp hnone
    refine hcared hp (fun i hi hne z hz => ?_) ?_
    · exact hnone i (hc.born ▸ hi) z ((hc.others_stage hne).trans hz)
    · rcases hc.now with hnow | ⟨_, t, r, hends⟩
      · exact hnone tid (hc.born ▸ hlt) y' hnow
      · exact hends

/-- What a call that changes nothing of the record comes to: its thread must not be
the last to care, if it cares no more. -/
theorem iff_sole {tid : Nat} {w' : World} {y' : Stage} (hp : PendingRow x w' ↔ PendingRow x s.world)
    (hj : OpenJob x w' ↔ OpenJob x s.world) (hy' : ¬ y'.Attends) :
    (PendingRow x w' → NoOther x s tid → ¬ y'.Attends → OpenJob x w') ↔ ¬ Sole x s tid := by
  rw [hp, hj]
  constructor
  · rintro h ⟨⟨hpending, hother⟩, hclosed⟩
    exact hclosed (h hpending hother hy')
  · intro h hpending hother _
    by_contra hclosed
    exact h ⟨⟨hpending, hother⟩, hclosed⟩

/-- And where it finishes the record's job. -/
theorem iff_unwatched {tid : Nat} {w' : World} {y' : Stage}
    (hp : PendingRow x w' ↔ PendingRow x s.world) (hj : ¬ OpenJob x w') (hy' : ¬ y'.Attends) :
    (PendingRow x w' → NoOther x s tid → ¬ y'.Attends → OpenJob x w') ↔ ¬ Unwatched x s tid := by
  rw [hp]
  constructor
  · rintro h ⟨hpending, hother⟩
    exact hj (h hpending hother hy')
  · intro h hpending hother _
    exact absurd ⟨hpending, hother⟩ h

/-- A thread that does not care is never the last to. -/
theorem not_sole (h : Sound x s) {tid : Nat} {y : Stage} (hy : stageOf x s tid = some y)
    (hno : ¬ y.Attends) (hcared : Cared x s) : ¬ Sole x s tid := by
  rintro ⟨⟨hpending, hother⟩, hclosed⟩
  exact hclosed ((cared_before h hy).mp hcared hpending hother hno)

theorem keyOf_injective {kind : String} {a b : Nat} (h : keyOf kind a = keyOf kind b) : a = b := by
  have hcancel : ∀ pre : String, pre ++ toString a = pre ++ toString b → a = b :=
    fun pre hpre => repr_injective ((String.append_right_inj pre).mp hpre)
  unfold keyOf at h
  split at h
  · exact hcancel _ h
  · exact hcancel _ h

/-- A job under the key of the record's is the record's. -/
theorem jobFor_of_sameKey (h : Keyed s.world.jobs) {n : NewJob DataJobPayload}
    {r : JobRow DataJobPayload} (hr : r ∈ s.world.jobs)
    (hfor : jobRecord n.kind n.payload = some x) (hdisp : Dispatched n)
    (hkey : sameKey n.organizationId n.kind n.idempotencyKey r = true) : JobFor x r := by
  simp only [sameKey, Bool.and_eq_true, beq_iff_eq] at hkey
  obtain ⟨⟨_, hkind⟩, hkey⟩ := hkey
  rw [h.key r hr, hdisp.key, hkind] at hkey
  have hid := keyOf_injective hkey
  unfold JobFor
  rw [← hfor, hkind]
  unfold jobRecord
  rw [hid]

/-- The job that a request enqueues for its row gets into the queue if the request
lands. -/
theorem openJob_dispatched (h : CareInv x s) {tid : Nat} {o : Oracle} {n : NewJob DataJobPayload}
    (hstage : stageOf x s tid = some (.filed n.payload.organizationId))
    (hfor : jobRecord n.kind n.payload = some x) (hdisp : Dispatched n) (hlands : o.fault.Lands) :
    OpenJob x (s.world.perform o (.queue (.insert n))).2 := by
  have hfree : s.world.jobs.rows.any (sameKey n.organizationId n.kind n.idempotencyKey) = false := by
    rw [List.any_eq_false]
    intro r hr hkey
    exact h.jobless tid _ hstage r hr (jobFor_of_sameKey h.sound.keyed hr hfor hdisp hkey)
  refine ⟨n.row s.world.now s.world.jobs.nextId, ?_, hfor, nofun⟩
  rw [perform_jobs, if_pos hlands]
  simp only [QueueCall.run, insertJob, hdisp.attempts, hfree, not_true_eq_false, if_false, Bool.false_eq_true]
  exact Table.mem_insertNew.mpr (.inr rfl)

/-- A patch of the record's job that lands leaves it as it says. -/
theorem openJob_patch (h : Sound x s) {o : Oracle} {job : JobId} {p : JobPatch}
    (hlands : o.fault.Lands) {r : JobRow DataJobPayload} (hr : s.world.jobs.find job = some r)
    (hfor : JobFor x r) :
    OpenJob x (s.world.perform o (.queue (.patch job p))).2 ↔ ¬ p.state.Terminal := by
  obtain ⟨hmem, hid⟩ := Table.mem_of_find hr
  unfold OpenJob
  rw [perform_jobs, if_pos hlands]
  constructor
  · rintro ⟨r', hr', hfor', hopen⟩
    rcases Table.mem_update.mp hr' with ⟨hr', hmiss⟩ | ⟨a, ha, _, rfl⟩
    · rw [h.single hmem hr' hfor hfor', beq_eq_false_iff_ne] at hmiss
      exact absurd hid hmiss
    · exact hopen
  · intro hopen
    exact ⟨p.apply r, Table.mem_update.mpr (.inr ⟨r, hmem, beq_iff_eq.mpr hid, rfl⟩), hfor, hopen⟩

theorem running_of_lapsed {t : Instant} {r : JobRow DataJobPayload} (h : lapsed t r = true) :
    r.state = .running := by
  simp only [lapsed, Bool.and_eq_true, beq_iff_eq] at h
  exact h.1

/-- A reap leaves the record's job open unless it ends it. -/
theorem openJob_reap (h : Sound x s) {o : Oracle} {t : Instant} (hlands : o.fault.Lands) :
    OpenJob x (s.world.perform o (.queue (.reap t))).2 ↔
      OpenJob x s.world ∧ ¬ Exhausts x s.world t := by
  have hrows : OpenJob x (s.world.perform o (.queue (.reap t))).2 ↔
      ∃ r ∈ s.world.jobs.update (lapsed t) ⟨reaped t, reaped_id t⟩,
        JobFor x r ∧ ¬ r.state.Terminal := by
    unfold OpenJob
    rw [perform_jobs, if_pos hlands]
    exact Iff.rfl
  rw [hrows]
  constructor
  · rintro ⟨r', hr', hfor', hopen⟩
    rcases Table.mem_update.mp hr' with ⟨hr', hmiss⟩ | ⟨a, ha, hlapsed, rfl⟩
    · refine ⟨⟨r', hr', hfor', hopen⟩, ?_⟩
      rintro ⟨r, hr, hfor, hlapsed, _⟩
      rw [h.single hr' hr hfor' hfor, hmiss] at hlapsed
      cases hlapsed
    · have hfor : JobFor x a := (jobFor_same (sameJob_touched (@Touched.reaped _ t t a hlapsed))).mp hfor'
      refine ⟨⟨a, ha, hfor, ?_⟩, ?_⟩
      · rw [running_of_lapsed hlapsed]
        exact nofun
      · rintro ⟨r, hr, hforr, _, hspent⟩
        rw [h.single ha hr hfor hforr] at hspent
        refine hopen ?_
        show (reaped t a).state.Terminal
        rw [reaped, if_pos hspent]
        exact .inr rfl
  · rintro ⟨⟨r, hr, hfor, hopen⟩, hno⟩
    by_cases hlapsed : lapsed t r = true
    · have hleft : ¬ r.maxAttempts ≤ r.attempts := fun hspent => hno ⟨r, hr, hfor, hlapsed, hspent⟩
      refine ⟨reaped t r, Table.mem_update.mpr (.inr ⟨r, hr, hlapsed, rfl⟩), ?_, ?_⟩
      · exact (jobFor_same (sameJob_touched (@Touched.reaped _ t t r hlapsed))).mpr hfor
      · rw [reaped, if_neg hleft]
        exact nofun
    · exact ⟨r, Table.mem_update.mpr (.inl ⟨hr, Bool.eq_false_iff.mpr hlapsed⟩), hfor, hopen⟩

theorem pendingRow_queue {o : Oracle} {c : DataQueueCall} :
    PendingRow x (w.perform o (.queue c)).2 ↔ PendingRow x w := by
  refine pendingRow_congr ?_
  rw [World.row, perform_queue_store]
  rfl

/-- The new row of the record is as pending as it was inserted. -/
theorem pendingRow_insert {o : Oracle} {input : DataRowInput} (hlands : o.fault.Lands)
    (hnew : x.id = (w.store.table x.kind).nextId) :
    PendingRow x (w.perform o (.store (.insertRow x.kind input))).2 ↔ input.status = .pending := by
  unfold PendingRow
  rw [row_inserted hlands hnew]
  simp [DataRowInput.row]

/-- A call that is not about the record leaves the row as it was, or inserted it and
was not answered. -/
theorem row_unheard {o : Oracle} {y : Stage} {c : StoreCall} (h : Unheard x w o y (.store c)) :
    (w.perform o (.store c)).2.row x = w.row x ∨
      ∃ input, c = .insertRow x.kind input ∧ x.id = (w.store.table x.kind).nextId ∧
        o.fault.Lands ∧ ¬ o.fault.Clear := by
  have hafter := row_perform (x := x) w o c
  generalize (w.perform o (.store c)).2.row x = row at hafter
  cases hafter with
  | kept => exact .inl rfl
  | @inserted input hnew hrow hlands =>
    exact .inr ⟨input, rfl, hnew, hlands, fun hclear => h rfl hnew (Fault.clear_iff.mp hclear)⟩
  | patched hid => exact absurd (congrArg (Record.mk x.kind) hid) h

/-- The applier's write settles the row if it lands. -/
theorem settled_row {o : Oracle} {p : DataStatusInput} (hlands : o.fault.Lands) (hid : p.id = x.id)
    (hrow : RowIn x w p.organizationId) (hst : p.status ≠ .pending) :
    ¬ PendingRow x (w.perform o (.store (.patchRow x.kind p))).2 := by
  obtain ⟨r, hr, horg⟩ := hrow
  have hfind : (w.perform o (.store (.patchRow x.kind p))).2.row x = some (p.set r) := by
    have hrid : r.id = x.id := (Table.mem_of_find hr).2
    rw [World.row, perform_store, if_pos hlands]
    simp only [StoreCall.run, Store.patchRow, row_withTable, if_true, Table.find_update]
    rw [show (w.store.table x.kind).find x.id = some r from hr, Option.map_some]
    refine congrArg some (Table.Edit.on_hit ?_)
    simp only [Store.owned, Bool.and_eq_true, beq_iff_eq]
    exact ⟨hrid.trans hid.symm, horg⟩
  rintro ⟨r', hr', hpending⟩
  rw [hfind] at hr'
  cases hr'
  exact hst hpending

theorem rowIn_of_owing {org : OrganizationId} {job : JobId} {y : Stage}
    (hy : y = .owing org ∨ Holds org job y) (hseat : Seated x w y) : RowIn x w org := by
  rcases hy with rfl | rfl | rfl
  · exact hseat
  · exact hseat.2
  · exact hseat.2

/-- A patch of another job leaves the record's alone. -/
theorem openJob_patch_other {o : Oracle} {job : JobId} {p : JobPatch} {r : JobRow DataJobPayload}
    (hr : w.jobs.find job = some r) (hnot : ¬ JobFor x r) (h : OpenJob x w) :
    OpenJob x (w.perform o (.queue (.patch job p))).2 := by
  obtain ⟨r', hr', hfor, hopen⟩ := h
  refine ⟨r', ?_, hfor, hopen⟩
  rw [perform_jobs]
  split
  · refine Table.mem_update.mpr (.inl ⟨hr', beq_eq_false_iff_ne.mpr fun hid => hnot ?_⟩)
    rw [← hid, Table.find_eq_some.mpr ⟨hr', rfl⟩] at hr
    cases hr
    exact hfor
  · exact hr'

/-- The row is inserted and nobody is told. -/
theorem cared_lost (h : Sound x s) {tid : Nat} {y : Stage} {o : Oracle} {input : DataRowInput}
    (hy : stageOf x s tid = some y) (hnew : x.id = (s.world.store.table x.kind).nextId)
    (hlands : o.fault.Lands) :
    (PendingRow x (s.world.perform o (.store (.insertRow x.kind input))).2 → NoOther x s tid →
      ¬ y.Attends → OpenJob x (s.world.perform o (.store (.insertRow x.kind input))).2) ↔
      input.status ≠ .pending := by
  have hnone : s.world.row x = none := by
    rw [World.row, Store.row, hnew]
    exact Table.find_nextId
  obtain ⟨hjobless, hidle⟩ := nobody_of_no_row h hnone
  rw [pendingRow_insert hlands hnew]
  constructor
  · intro hcared hpending
    obtain ⟨r, hr, hfor, _⟩ := hcared hpending (fun i _ _ z hz => hidle i z hz) (hidle tid y hy)
    change r ∈ (s.world.perform o (.store (.insertRow x.kind input))).2.jobs at hr
    rw [perform_store_jobs] at hr
    exact hjobless r hr hfor
  · intro hne hpending
    exact absurd hpending hne

/-- The record is cared for after a call of this thread, which is then at this stage. -/
def CaredAfter (x : Record) (s : DataSys) (tid : Nat) (o : Oracle) (c : Call) (y' : Stage) : Prop :=
  PendingRow x (s.world.perform o c).2 → NoOther x s tid → ¬ y'.Attends →
    OpenJob x (s.world.perform o c).2

section Calls

variable {tid : Nat} {o : Oracle} {c : Call} {y y' : Stage} {org : OrganizationId}
  {job : JobId}

/-- The caller goes on caring. -/
theorem caredAfter_stays (hy' : y'.Attends) (hguard : CallGuard x s tid o c) :
    CaredAfter x s tid o c y' ↔ CallGuard x s tid o c :=
  iff_of_true (fun _ _ hno => absurd hy' hno) hguard

/-- The caller never did, and the job stays open. -/
theorem caredAfter_passes
    (hbefore : PendingRow x s.world → NoOther x s tid → ¬ y.Attends → OpenJob x s.world)
    (hy : y' = y ∨ ¬ y.Attends)
    (hrow : PendingRow x (s.world.perform o c).2 → PendingRow x s.world)
    (hjob : OpenJob x s.world → OpenJob x (s.world.perform o c).2)
    (hguard : CallGuard x s tid o c) : CaredAfter x s tid o c y' ↔ CallGuard x s tid o c := by
  refine iff_of_true (fun hp hother hno => hjob (hbefore (hrow hp) hother ?_)) hguard
  rcases hy with rfl | hy
  · exact hno
  · exact hy

/-- The request enqueues the job of its row: a lost enqueue takes the last hand off it. -/
theorem cared_dispatched (h : CareInv x s) {n : NewJob DataJobPayload}
    (hwas : stageOf x s tid = some (.filed n.payload.organizationId))
    (hfor : jobRecord n.kind n.payload = some x) (hdisp : Dispatched n) :
    CaredAfter x s tid o (.queue (.insert n)) .off ↔ CallGuard x s tid o (.queue (.insert n)) := by
  by_cases hlands : o.fault.Lands
  · exact iff_of_true (fun _ _ _ => openJob_dispatched h hwas hfor hdisp hlands)
      fun _ => .inl hlands
  · obtain ⟨hjobs, hrow⟩ := same_of_not_lands (x := x) (w := s.world) (c := .queue (.insert n)) hlands
    unfold CaredAfter
    rw [iff_sole (pendingRow_congr hrow) (openJob_congr hjobs) id]
    simp only [CallGuard, hfor, hlands, false_or, true_imp_iff]

/-- A reap ends the record's job if that has no attempt left. -/
theorem cared_reaped (h : Sound x s)
    (hbefore : PendingRow x s.world → NoOther x s tid → ¬ Stage.idle.Attends → OpenJob x s.world)
    (t : Instant) :
    CaredAfter x s tid o (.queue (.reap t)) .idle ↔ CallGuard x s tid o (.queue (.reap t)) := by
  by_cases hlands : o.fault.Lands
  · unfold CaredAfter
    rw [openJob_reap h hlands, pendingRow_queue]
    constructor
    · rintro hl _ hspent ⟨hp, hother⟩
      exact (hl hp hother id).2 hspent
    · intro hguard hp hother hno
      exact ⟨hbefore hp hother hno, fun hspent => hguard hlands hspent ⟨hp, hother⟩⟩
  · obtain ⟨hjobs, hrow⟩ := same_of_not_lands (x := x) (w := s.world) (c := .queue (.reap t)) hlands
    exact caredAfter_passes hbefore (.inl rfl) (pendingRow_congr hrow).mp (openJob_congr hjobs).mpr
      fun hyes => absurd hyes hlands

/-- A worker that cannot read its job back leaves the record. -/
theorem cared_unread (hfault : o.fault ≠ .none) (id : JobId) :
    CaredAfter x s tid o (.queue (.select id)) .off ↔ CallGuard x s tid o (.queue (.select id)) := by
  have hnot : ¬ o.fault.Clear := fun hclear => hfault (Fault.clear_iff.mp hclear)
  have hjobs : (s.world.perform o (.queue (.select id))).2.jobs = s.world.jobs := by
    rw [perform_jobs]
    split <;> rfl
  unfold CaredAfter
  rw [@iff_sole _ _ _ _ .off pendingRow_queue (openJob_congr hjobs) (fun h => h)]
  simp only [CallGuard, hnot, false_or]

/-- A settling write that is not answered: it may have landed, and then the job is over
while the row is not. -/
theorem cared_unsure (h : Sound x s) {p : JobPatch} (hjob : JobIn x s.world org job)
    (hfault : o.fault ≠ .none) :
    CaredAfter x s tid o (.queue (.patch job p)) .off ↔
      CallGuard x s tid o (.queue (.patch job p)) := by
  have hnot : ¬ o.fault.Clear := fun hclear => hfault (Fault.clear_iff.mp hclear)
  unfold CaredAfter
  by_cases hlands : o.fault.Lands
  · obtain ⟨r, hr, hfor, _⟩ := hjob
    have hopen := openJob_patch h (p := p) hlands hr hfor
    by_cases hterm : p.state.Terminal
    · rw [@iff_unwatched _ _ _ _ .off pendingRow_queue (fun ho => hopen.mp ho hterm) (fun h => h)]
      simp only [CallGuard, hlands, hnot, hterm, not_true_eq_false, false_imp_iff, true_and,
        not_false_eq_true, true_imp_iff]
      exact ⟨fun hno _ => hno, fun hno => hno ⟨r, hr, hfor⟩⟩
    · exact iff_of_true (fun _ _ _ => hopen.mpr hterm)
        ⟨fun hno => absurd hlands hno, fun _ _ hyes => absurd hyes hterm⟩
  · obtain ⟨hjobs, hrow⟩ := same_of_not_lands (x := x) (w := s.world)
      (c := .queue (.patch job p)) hlands
    rw [@iff_sole _ _ _ _ .off (pendingRow_congr hrow) (openJob_congr hjobs) (fun h => h)]
    simp only [CallGuard, hlands, not_false_eq_true, true_imp_iff, false_imp_iff, and_true]

/-- The applier's write of the row. -/
theorem cared_wrote {p : DataStatusInput} (hrow : RowIn x s.world p.organizationId)
    (hid : p.id = x.id) (hst : p.status ≠ .pending) :
    CaredAfter x s tid o (.store (.patchRow x.kind p)) .off ↔
      CallGuard x s tid o (.store (.patchRow x.kind p)) := by
  by_cases hlands : o.fault.Lands
  · exact iff_of_true (fun hp => absurd hp (settled_row hlands hid hrow hst)) fun _ => .inl hlands
  · obtain ⟨hjobs, hsame⟩ := same_of_not_lands (x := x) (w := s.world)
      (c := .store (.patchRow x.kind p)) hlands
    unfold CaredAfter
    rw [@iff_sole _ _ _ _ .off (pendingRow_congr hsame) (openJob_congr hjobs) (fun h => h)]
    simp only [CallGuard, hid, hlands, false_or, true_imp_iff]

/-- A delivery of another job settles it, or puts it off. -/
theorem cared_aside
    (hbefore : PendingRow x s.world → NoOther x s tid → ¬ (Stage.elsewhere job).Attends →
      OpenJob x s.world)
    (hlast : ¬ Sole x s tid) {c : DataQueueCall}
    (hother : ∃ r, s.world.jobs.find job = some r ∧ ¬ JobFor x r)
    (hcall : (∃ p, c = .patch job p) ∨ ∃ reason n, c = .defer job reason n) :
    CaredAfter x s tid o (.queue c) (.elsewhere job) ↔ CallGuard x s tid o (.queue c) := by
  obtain ⟨r, hr, hnot⟩ := hother
  rcases hcall with ⟨p, rfl⟩ | ⟨reason, n, rfl⟩
  · refine caredAfter_passes hbefore (.inl rfl) pendingRow_queue.mp (openJob_patch_other hr hnot)
      ⟨fun _ => hlast, fun _ _ _ hfor => ?_⟩
    obtain ⟨r', hr', hfor⟩ := hfor
    rw [Option.mem_def, hr] at hr'
    cases hr'
    exact absurd hfor hnot
  · exact caredAfter_passes hbefore (.inl rfl) pendingRow_queue.mp (openJob_perform id) trivial

/-- A write to the store that the thread hears nothing of, or that is of another record. -/
theorem cared_store (h : Sound x s)
    (hbefore : PendingRow x s.world → NoOther x s tid → ¬ y.Attends → OpenJob x s.world)
    (hwas : stageOf x s tid = some y) {c : StoreCall} (hno : Unheard x s.world o y (.store c)) :
    CaredAfter x s tid o (.store c) y ↔ CallGuard x s tid o (.store c) := by
  rcases row_unheard hno with hrow | ⟨input, rfl, hnew, hlands, hlost⟩
  · refine caredAfter_passes hbefore (.inl rfl) (pendingRow_congr hrow).mp
      (openJob_congr (perform_store_jobs _ _ _)).mpr ?_
    cases c with
    | insertRow kind input =>
      rintro rfl _ hlands
      -- then the row would be there
      have hsome := @row_inserted ⟨kind, (s.world.store.table kind).nextId⟩ s.world _ input hlands rfl
      have hnone : s.world.row ⟨kind, (s.world.store.table kind).nextId⟩ = none :=
        Table.find_nextId
      rw [hnone] at hrow
      rw [show (s.world.perform o (.store (.insertRow kind input))).2.row
        ⟨kind, (s.world.store.table kind).nextId⟩ = none from hrow] at hsome
      cases hsome
    | patchRow kind p => exact fun hx => absurd hx hno
    | _ => trivial
  · unfold CaredAfter
    rw [cared_lost h hwas hnew hlands]
    have hx : (⟨x.kind, (s.world.store.table x.kind).nextId⟩ : Record) = x := by rw [← hnew]
    simp only [CallGuard, hx, hlands, hlost, true_imp_iff]

/-- A call that is not about the record, or is not heard of. -/
theorem cared_still (h : Sound x s) (hcared : Cared x s)
    (hbefore : PendingRow x s.world → NoOther x s tid → ¬ y.Attends → OpenJob x s.world)
    (hwas : stageOf x s tid = some y) (hno : Unheard x s.world o y c) :
    CaredAfter x s tid o c y ↔ CallGuard x s tid o c := by
  cases c with
  | engine row c => exact caredAfter_passes hbefore (.inl rfl) id id trivial
  | store c => exact cared_store h hbefore hwas hno
  | queue c =>
    cases c with
    | select id =>
      refine caredAfter_passes hbefore (.inl rfl) pendingRow_queue.mp (openJob_perform fun h => h) ?_
      rcases hno with hfault | hno
      · exact .inl (Fault.clear_iff.mpr hfault)
      · exact .inr (not_sole h hwas hno hcared)
    | claim worker n =>
      exact caredAfter_passes hbefore (.inl rfl) pendingRow_queue.mp (openJob_perform id) trivial
    | selectByKey org kind key =>
      exact caredAfter_passes hbefore (.inl rfl) pendingRow_queue.mp (openJob_perform id) trivial
    | clock =>
      exact caredAfter_passes hbefore (.inl rfl) pendingRow_queue.mp (openJob_perform id) trivial
    | _ => exact hno.elim

/-- **One call**: a pending row is still cared for exactly if the call is guarded. -/
theorem cared_call (h : CareInv x s) (hcared : Cared x s)
    (hc : Called (dataHost d) (dataDuty x) s s' tid o c y y')
    (heff : Effect x s.world o y c y') : Cared x s' ↔ CallGuard x s tid o c := by
  have hbefore := (cared_before h.sound hc.was).mp hcared
  rw [cared_after h.sound hc, hc.world]
  show CaredAfter x s tid o c y' ↔ _
  cases heff with
  | claimed => exact caredAfter_stays trivial trivial
  | taken hy =>
    subst hy
    exact caredAfter_passes hbefore (.inr id) pendingRow_queue.mp (openJob_perform id) trivial
  | filed hy hfault =>
    exact caredAfter_stays trivial fun _ _ _ => by rw [hfault]; trivial
  | dispatched hy hfor hdisp =>
    subst hy
    exact cared_dispatched h hc.was hfor hdisp
  | enqueued hy hnot =>
    subst hy
    exact caredAfter_passes hbefore (.inl rfl) pendingRow_queue.mp (openJob_perform id)
      fun hfor => absurd hfor hnot
  | @reaped t hy =>
    subst hy
    exact cared_reaped h.sound hbefore t
  | asked => exact caredAfter_stays trivial trivial
  | @unread org job id hy hfault => exact cared_unread hfault id
  | settled hy hp hfault =>
    refine caredAfter_stays trivial ⟨fun hno => ?_, fun _ hno => ?_⟩
    · rw [hfault] at hno
      exact absurd trivial hno
    · rw [hfault] at hno
      exact absurd trivial hno
  | unsure hy hp hfault =>
    have hseat := h.sound.seated tid y hc.was
    rcases hy with rfl | rfl
    · exact cared_unsure h.sound hseat.1 hfault
    · exact cared_unsure h.sound hseat.1 hfault
  | wrote hy hid horg hst =>
    subst horg
    exact cared_wrote (rowIn_of_owing hy (h.sound.seated tid y hc.was)) hid hst
  | aside hy hcall =>
    subst hy
    exact cared_aside hbefore (not_sole h.sound hc.was id hcared) (h.sound.seated tid _ hc.was) hcall
  | still hno => exact cared_still h.sound hcared hbefore hc.was hno

end Calls

/-- A step that is no call and no crash takes nobody off the record. -/
theorem cared_silent {l : DataMove} (hs : Silent (dataHost d) (dataDuty x) s l)
    (hl : ∀ tid, l ≠ .crash tid) (hborn : s.born ≤ ((dataHost d).step s l).born) (hcared : Cared x s) : Cared x ((dataHost d).step s l) := by
  have hworld : ((dataHost d).step s l).world.jobs = s.world.jobs ∧
      ((dataHost d).step s l).world.row x = s.world.row x := by
    rcases hs.world with hw | ⟨dr, hw⟩
    · rw [hw]
      exact ⟨rfl, rfl⟩
    · rw [hw]
      refine ⟨?_, row_drift s.world dr⟩
      cases dr <;> rfl
  intro hp hnone
  rw [openJob_congr hworld.1]
  refine hcared ((pendingRow_congr hworld.2).mp hp) fun i hi y hy => ?_
  rcases hs.stays i y hy with hstays | hcrash
  · exact hnone i (by omega) y hstays
  · exact absurd hcrash (hl i)

/-- A crash takes off whoever it takes. -/
theorem cared_crash (tid : Nat) :
    Cared x ((dataHost d).step s (.crash tid)) ↔ ¬ Sole x s tid := by
  obtain ⟨hgone, hothers⟩ := crash_stage (H := dataHost d) (dataDuty x) s tid
  have hstage : ∀ i, i ≠ tid → stageOf x ((dataHost d).step s (.crash tid)) i = stageOf x s i := by
    intro i hi
    simp only [stageOf, Sys.stage, hothers i hi]
  constructor
  · rintro hcared ⟨⟨hp, hother⟩, hclosed⟩
    refine hclosed (hcared hp fun i hi y hy => ?_)
    by_cases hit : i = tid
    · rw [hit] at hy
      rw [show stageOf x ((dataHost d).step s (.crash tid)) tid = none from hgone] at hy
      cases hy
    · rw [hstage i hit] at hy
      exact hother i hi hit y hy
  · intro hsole hp hnone
    by_contra hclosed
    refine hsole ⟨⟨hp, fun i hi hit y hy => ?_⟩, hclosed⟩
    refine hnone i hi y ?_
    rw [hstage i hit]
    exact hy

/-- **Step.** -/
theorem cared_step (h : CareInv x s) (hcared : Cared x s) (l : DataMove) :
    Cared x ((dataHost d).step s l) ↔ CareGuard x s l := by
  rcases data_step_cases (d := d) h.sound l with hs | ⟨tid, o, c, y, y', rfl, hc, heff⟩
  · cases l with
    | spawn t =>
      exact iff_of_true (cared_silent hs (fun _ h => by cases h) (Nat.le_succ _) hcared) trivial
    | drift dr =>
      exact iff_of_true (cared_silent hs (fun _ h => by cases h) (Nat.le_refl _) hcared) trivial
    | crash tid => exact cared_crash tid
    | exec tid o =>
      have hidle := hs.idle tid o rfl
      have hborn : s.born ≤ ((dataHost d).step s (.exec tid o)).born := by
        simp only [Host.step]
        split <;> exact Nat.le_refl _
      refine iff_of_true (cared_silent hs (fun _ h => by cases h) hborn hcared)
        fun c hpending => ?_
      rw [hidle] at hpending
      cases hpending
  · rw [cared_call h hcared hc heff]
    constructor
    · intro hguard c' hpending
      rw [show s.pending tid = some c from hc.pending] at hpending
      cases hpending
      exact hguard
    · intro hguard
      exact hguard c hc.pending

/-- **No pending row is stranded**, in exactly the runs in which no step takes the
last hand off it. -/
theorem never_stranded_iff (d : DatabaseAdapter) (x : Record) (now : Instant)
    (resources : ResourcesTable) (members : OrganizationId → UserId → Bool) (ls : List DataMove) :
    Always (dataHost d).step (Cared x) (DataSys.initial now resources members) ls ↔
      EachStep (dataHost d).step (CareGuard x) (DataSys.initial now resources members) ls := by
  refine always_iff_eachStep (careInv_initial now resources members)
    (fun s l hs => careInv_step hs l) ?_ (fun s l hs hcared => cared_step hs hcared l)
  rintro ⟨r, hr, _⟩
  have hnone : (World.initial now resources members).row x = none := by
    obtain ⟨kind, id⟩ := x
    cases kind <;> rfl
  rw [show (DataSys.initial now resources members).world.row x = none from hnone] at hr
  cases hr

/-! ## Stranded rows -/

/-- The worker's process dies between the job's last write and the row's first. -/
def diedSettlingRun : List DataMove :=
  .spawn (.backup owner 1 0) :: calls 0 5 fine ++ .spawn (.work aWorker) :: calls 1 5 fine ++
    [.crash 1]

theorem crash_strands :
    ¬ Always (dataHost anEngine).step (Cared ⟨.backup, 0⟩) DataSys.scripted diedSettlingRun := by
  intro h
  have hlast := always_iff_prefixes.mp h diedSettlingRun [] (by rw [List.append_nil])
  revert hlast
  decide

/-- The database does not answer the enqueue, and the row has no job. -/
example : ¬ Cared ⟨.backup, 0⟩ (runFrom (dataHost anEngine).step DataSys.scripted
    (.spawn (.backup owner 1 0) :: calls 0 3 fine ++ calls 0 1 severed)) := by decide

end CloudWai.Data
