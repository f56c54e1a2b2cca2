import CloudWai.Queue.Budget
import CloudWai.Data.Conformance

/-!
# States of the data plane

What is true of every state of every run, whatever is lost and whoever dies. Rows
and jobs are never deleted and keep what they were made with, so what a thread once
saw of the record is still so (`Seated`): its row is in the table under the
organization it knows, the job it holds is the record's. A record has one job at
most, since its jobs would share one idempotency key.

`effect_cases` takes a call apart once for all: what it can be to the record, and
how it moves its thread.
-/

namespace CloudWai.Data

open Base Queue

variable {d : DatabaseAdapter} {x : Record} {s : DataSys}

/-! ## The world's answers -/

/-- The row of the record. -/
def World.row (w : World) (x : Record) : Option DataRow := w.store.row x

theorem perform_queue_store (w : World) (o : Oracle) (c : DataQueueCall) :
    (w.perform o (.queue c)).2.store = w.store := by
  simp only [World.perform, Fault.apply_snd, apply_ite World.store, ite_self]

/-- A queue request that landed did what it says; reading the clock does nothing. -/
theorem perform_jobs (w : World) (o : Oracle) (c : DataQueueCall) :
    (w.perform o (.queue c)).2.jobs =
      if o.fault.Lands then (c.run w.now o.locked w.jobs).2 else w.jobs := by
  simp only [World.perform, Fault.apply_snd]
  cases hf : o.fault <;> cases c <;> rfl

theorem perform_store_jobs (w : World) (o : Oracle) (c : StoreCall) :
    (w.perform o (.store c)).2.jobs = w.jobs := by
  simp only [World.perform, Fault.apply_snd]
  split <;> rfl

theorem perform_store (w : World) (o : Oracle) (c : StoreCall) :
    (w.perform o (.store c)).2.store =
      if o.fault.Lands then (c.run o.refusal w.store).2 else w.store := by
  simp only [World.perform, Fault.apply_snd]
  split <;> rfl

/-- An answered store request took effect. -/
theorem perform_store_ok {w : World} {o : Oracle} {c : StoreCall} {a : c.Ans}
    (h : (w.perform o (.store c)).1 = .ok a) :
    o.fault = .none ∧ (c.run o.refusal w.store).1 = .ok a := by
  have happly : (o.fault.apply w ((c.run o.refusal w.store).1,
      { w with store := (c.run o.refusal w.store).2 })).1 = .ok a := h
  have hok := Fault.apply_ok happly
  exact hok

/-- What became of a queue request that is one. -/
theorem perform_queue_fst (w : World) (o : Oracle) {c : DataQueueCall} (hremote : c.remote = true) :
    (w.perform o (.queue c)).1 = (o.fault.apply w ((c.run w.now o.locked w.jobs).1,
      { w with jobs := (c.run w.now o.locked w.jobs).2 })).1 := by
  simp only [World.perform, hremote, if_true]
  rfl

theorem perform_queue_ok {w : World} {o : Oracle} {c : DataQueueCall} {a : c.Ans}
    (hremote : c.remote = true) (h : (w.perform o (.queue c)).1 = .ok a) :
    o.fault = .none ∧ (c.run w.now o.locked w.jobs).1 = .ok a := by
  rw [perform_queue_fst w o hremote] at h
  have hok := Fault.apply_ok h
  exact hok

/-- One that the table itself does not refuse is answered if nothing went wrong. -/
theorem answered_iff {w : World} {o : Oracle} {c : DataQueueCall} (hremote : c.remote = true)
    (hok : ∃ a, (c.run w.now o.locked w.jobs).1 = .ok a) :
    answered (w.perform o (.queue c)).1 = true ↔ o.fault = .none := by
  obtain ⟨a, ha⟩ := hok
  rw [perform_queue_fst w o hremote]
  cases o.fault with
  | none => simp [Fault.apply, ha, answered]
  | before reason => simp [Fault.apply, answered]
  | after reason => simp [Fault.apply, answered]

/-- How job `id` is after a call. -/
theorem job_perform (w : World) (o : Oracle) (c : DataQueueCall) (id : JobId) :
    JobAfter w.now w.jobs id c ((w.perform o (.queue c)).2.jobs.find id) := by
  rw [perform_jobs]
  split
  · exact jobAfter_run _ _ _ _ _
  · exact jobAfter_same _ _ _ _

/-! ## Rows -/

theorem row_withTable (s : Store) (kind : RecordKind) (t : DataTable) (x : Record) :
    (s.withTable kind t).row x = if x.kind = kind then t.find x.id else s.row x := by
  unfold Store.row
  rw [Store.table_withTable]
  split <;> rfl

/-- How the record's row is after a store call. -/
inductive RowAfter (x : Record) (w : World) (o : Oracle) : StoreCall → Option DataRow → Prop where
  | kept {c : StoreCall} : RowAfter x w o c (w.row x)
  | inserted {input : DataRowInput} (hnew : x.id = (w.store.table x.kind).nextId)
      (hrow : w.row x = none) (hlands : o.fault.Lands) :
      RowAfter x w o (.insertRow x.kind input) (some (input.row x.id))
  | patched {p : DataStatusInput} {r : DataRow} (hid : p.id = x.id) (hrow : w.row x = some r)
      (horg : r.organizationId = p.organizationId) (hlands : o.fault.Lands) :
      RowAfter x w o (.patchRow x.kind p) (some (p.set r))

theorem rowAfter_same {w : World} {o : Oracle} {c : StoreCall} {row : Option DataRow}
    (h : row = w.row x) : RowAfter x w o c row := h ▸ .kept

/-- **The record's row after a store call.** -/
theorem row_perform (w : World) (o : Oracle) (c : StoreCall) :
    RowAfter x w o c ((w.perform o (.store c)).2.row x) := by
  rw [World.row, perform_store]
  split
  next hlands =>
    cases c with
    | insertRow kind input =>
      simp only [StoreCall.run, row_withTable, Table.find_insertNew]
      split
      -- the insert is into the record's own table
      next hkind =>
        subst hkind
        split
        next hid =>
          have hnone : w.row x = none := by
            rw [World.row, Store.row, hid]
            exact Table.find_nextId
          exact .inserted hid hnone hlands
        next => exact .kept
      next => exact .kept
    -- a patch meets the row of its id, if the organization is the row's
    | patchRow kind p =>
      simp only [StoreCall.run, Store.patchRow, row_withTable, Table.find_update]
      split
      next hkind =>
        subst hkind
        cases hrow : (w.store.table x.kind).find x.id with
        | none => exact rowAfter_same hrow.symm
        | some r =>
          have hid : r.id = x.id := (Table.mem_of_find hrow).2
          rw [Option.map_some]
          cases howned : Store.owned p.organizationId p.id r with
          | true =>
            rw [Table.Edit.on_hit howned]
            simp only [Store.owned, Bool.and_eq_true, beq_iff_eq] at howned
            exact .patched (howned.1.symm.trans hid) hrow howned.2 hlands
          | false =>
            rw [Table.Edit.on_miss howned]
            exact rowAfter_same hrow.symm
      next => exact .kept
    | _ => exact .kept
  next => exact .kept

/-! ## Nothing goes away -/

/-- Jobs and the record's row stay, with what they were made with. -/
structure Extends (x : Record) (w w' : World) : Prop where
  job : ∀ id r, w.jobs.find id = some r → ∃ r', w'.jobs.find id = some r' ∧ SameJob r r'
  row : ∀ r, w.row x = some r → ∃ r', w'.row x = some r' ∧ r'.organizationId = r.organizationId

theorem extends_refl (w : World) : Extends x w w where
  job _ r h := ⟨r, h, ⟨rfl, rfl, rfl, rfl, rfl⟩⟩
  row r h := ⟨r, h, rfl⟩

/-- No call takes a row or a job away. -/
theorem extends_perform (w : World) (o : Oracle) (c : Call) :
    Extends x w (w.perform o c).2 := by
  cases c with
  | engine row c => exact extends_refl w
  | queue c =>
    refine ⟨fun id r hr => ?_, fun r hr => ?_⟩
    -- a job that is there is touched at most
    · have hafter := job_perform w o c id
      generalize (w.perform o (.queue c)).2.jobs.find id = found at hafter
      cases hafter with
      | touched hrow h =>
        rw [hr] at hrow
        cases hrow
        exact ⟨_, rfl, sameJob_touched h⟩
      | absent hrow =>
        rw [hr] at hrow
        cases hrow
      | inserted hnew =>
        rw [hnew, Table.find_nextId] at hr
        cases hr
    · refine ⟨r, ?_, rfl⟩
      rw [World.row, perform_queue_store]
      exact hr
  | store c =>
    refine ⟨fun id r hr => ?_, fun r hr => ?_⟩
    · refine ⟨r, ?_, ⟨rfl, rfl, rfl, rfl, rfl⟩⟩
      rw [perform_store_jobs]
      exact hr
    -- and a row is patched at most: its place is taken
    · have hafter := row_perform (x := x) w o c
      generalize (w.perform o (.store c)).2.row x = found at hafter
      cases hafter with
      | kept => exact ⟨r, hr, rfl⟩
      | inserted hnew hrow =>
        rw [hr] at hrow
        cases hrow
      | patched hid hrow horg =>
        rw [hr] at hrow
        cases hrow
        exact ⟨_, rfl, rfl⟩

theorem row_drift (w : World) (d : Drift) : (w.drift d).row x = w.row x := by
  obtain ⟨kind, id⟩ := x
  cases d <;> cases kind <;> rfl

theorem extends_drift (w : World) (d : Drift) : Extends x w (w.drift d) where
  job _ r h := by
    refine ⟨r, ?_, ⟨rfl, rfl, rfl, rfl, rfl⟩⟩
    cases d <;> exact h
  row r h := ⟨r, (row_drift w d).trans h, rfl⟩

/-! ## What a thread knows -/

/-- The record's row is in the table, in that organization. -/
def RowIn (x : Record) (w : World) (org : OrganizationId) : Prop :=
  ∃ r, w.row x = some r ∧ r.organizationId = org

/-- Job `job` is the record's, in that organization. -/
def JobIn (x : Record) (w : World) (org : OrganizationId) (job : JobId) : Prop :=
  ∃ r, w.jobs.find job = some r ∧ JobFor x r ∧ r.payload.organizationId = org

/-- What a thread knows at its stage is so. -/
def Seated (x : Record) (w : World) : Stage → Prop
  | .filed org => RowIn x w org
  | .elsewhere job => ∃ r, w.jobs.find job = some r ∧ ¬ JobFor x r
  | .loaded org job => JobIn x w org job ∧ RowIn x w org
  | .spent org job => JobIn x w org job ∧ RowIn x w org
  | .owing org => RowIn x w org
  | _ => True

theorem jobFor_same {r r' : JobRow DataJobPayload} (h : SameJob r r') :
    JobFor x r' ↔ JobFor x r := by
  unfold JobFor
  rw [h.kind, h.payload]

theorem rowIn_extends {w w' : World} (h : Extends x w w') {org : OrganizationId}
    (hrow : RowIn x w org) : RowIn x w' org := by
  obtain ⟨r, hr, rfl⟩ := hrow
  obtain ⟨r', hr', horg⟩ := h.row r hr
  exact ⟨r', hr', horg⟩

theorem jobIn_extends {w w' : World} (h : Extends x w w') {org : OrganizationId} {job : JobId}
    (hjob : JobIn x w org job) : JobIn x w' org job := by
  obtain ⟨r, hr, hfor, rfl⟩ := hjob
  obtain ⟨r', hr', hsame⟩ := h.job job r hr
  exact ⟨r', hr', (jobFor_same hsame).mpr hfor, by rw [hsame.payload]⟩

theorem seated_extends {w w' : World} (h : Extends x w w') {y : Stage} (hy : Seated x w y) :
    Seated x w' y := by
  cases y with
  | idle => trivial
  | off => trivial
  | filed org => exact rowIn_extends h hy
  | owing org => exact rowIn_extends h hy
  | loaded org job => exact ⟨jobIn_extends h hy.1, rowIn_extends h hy.2⟩
  | spent org job => exact ⟨jobIn_extends h hy.1, rowIn_extends h hy.2⟩
  | elsewhere job =>
    obtain ⟨r, hr, hnot⟩ := hy
    obtain ⟨r', hr', hsame⟩ := h.job job r hr
    exact ⟨r', hr', fun hfor => hnot ((jobFor_same hsame).mp hfor)⟩

/-! ## What a call is to the record -/

/-- A call that tells its thread nothing of the record and is about it in no way its
stage would know. -/
def Unheard (x : Record) (w : World) (o : Oracle) (y : Stage) : Call → Prop
  | .queue (.insert _) => False
  | .queue (.select _) => o.fault = .none ∨ ¬ y.Attends
  | .queue (.patch _ _) => False
  | .queue (.defer _ _ _) => False
  | .queue (.reap _) => False
  | .store (.insertRow kind _) =>
    kind = x.kind → x.id = (w.store.table x.kind).nextId → o.fault ≠ .none
  | .store (.patchRow kind p) => (⟨kind, p.id⟩ : Record) ≠ x
  | .engine row (.imports _ _ _) => row ≠ x
  | _ => True

/-- What a call by a thread at stage `y` is to the record, and the stage after it. -/
inductive Effect (x : Record) (w : World) (o : Oracle) (y : Stage) : Call → Stage → Prop where
  /-- The record's job is claimed. -/
  | claimed {worker : String} {n : Nat} {r : JobRow DataJobPayload} (hy : y = .idle)
      (hr : w.jobs.find r.id = some r) (hclaim : claimable w.now r = true) (hfor : JobFor x r)
      (hafter : (w.perform o (.queue (.claim worker n))).2.jobs.find r.id =
        some (leased w.now worker n r)) :
      Effect x w o y (.queue (.claim worker n)) (.loaded r.payload.organizationId r.id)
  /-- Another job is. -/
  | taken {worker : String} {n : Nat} {r : JobRow DataJobPayload} (hy : y = .idle)
      (hr : w.jobs.find r.id = some r) (hnot : ¬ JobFor x r) :
      Effect x w o y (.queue (.claim worker n)) (.elsewhere r.id)
  | filed {input : DataRowInput} (hy : y = .idle) (hfault : o.fault = .none)
      (hnew : x.id = (w.store.table x.kind).nextId) :
      Effect x w o y (.store (.insertRow x.kind input)) (.filed input.organizationId)
  | dispatched {n : NewJob DataJobPayload} (hy : y = .filed n.payload.organizationId)
      (hfor : jobRecord n.kind n.payload = some x) (hdisp : Dispatched n) :
      Effect x w o y (.queue (.insert n)) .off
  /-- A job of another record is enqueued. -/
  | enqueued {n : NewJob DataJobPayload} (hy : y = .idle)
      (hnot : jobRecord n.kind n.payload ≠ some x) (hdisp : Dispatched n) :
      Effect x w o y (.queue (.insert n)) .idle
  | reaped {t : Instant} (hy : y = .idle) : Effect x w o y (.queue (.reap t)) .idle
  | asked {org org' : OrganizationId} {job : JobId} {database file : String}
      (hy : y = .loaded org job) :
      Effect x w o y (.engine x (.imports org' database file)) (.spent org job)
  | unread {org : OrganizationId} {job id : JobId} (hy : Holds org job y)
      (hfault : o.fault ≠ .none) : Effect x w o y (.queue (.select id)) .off
  | settled {org : OrganizationId} {job : JobId} {p : JobPatch} (hy : Holds org job y)
      (hp : p.Settles) (hfault : o.fault = .none) :
      Effect x w o y (.queue (.patch job p)) (.owing org)
  /-- It is settled, for all the worker knows. -/
  | unsure {org : OrganizationId} {job : JobId} {p : JobPatch} (hy : Holds org job y)
      (hp : p.Settles) (hfault : o.fault ≠ .none) : Effect x w o y (.queue (.patch job p)) .off
  | wrote {org : OrganizationId} {job : JobId} {p : DataStatusInput}
      (hy : y = .owing org ∨ Holds org job y) (hid : p.id = x.id) (horg : p.organizationId = org)
      (hst : p.status ≠ .pending) : Effect x w o y (.store (.patchRow x.kind p)) .off
  /-- A delivery of another job settles it. -/
  | aside {job : JobId} {c : DataQueueCall} (hy : y = .elsewhere job)
      (hc : (∃ p, c = .patch job p) ∨ ∃ reason n, c = .defer job reason n) :
      Effect x w o y (.queue c) y
  | still {c : Call} (h : Unheard x w o y c) : Effect x w o y c y

/-! ## Moves, read backwards -/

section Move

variable {y y' : Stage} {org : OrganizationId} {job : JobId} {p : JobPatch}
  {n : NewJob DataJobPayload}

theorem claimed_of_move (h : y.move (.claimed org job) = some y') :
    y = .idle ∧ y' = .loaded org job := by
  cases y <;> cases h
  exact ⟨rfl, rfl⟩

theorem taken_of_move (h : y.move (.taken job) = some y') : y = .idle ∧ y' = .elsewhere job := by
  cases y <;> cases h
  exact ⟨rfl, rfl⟩

theorem filed_of_move (h : y.move (.filed org) = some y') : y = .idle ∧ y' = .filed org := by
  cases y <;> cases h
  exact ⟨rfl, rfl⟩

theorem reaped_of_move (h : y.move .reaped = some y') : y = .idle ∧ y' = .idle := by
  cases y <;> cases h
  exact ⟨rfl, rfl⟩

theorem enqueued_of_move (h : y.move (.enqueued n) = some y') :
    y = .idle ∧ y' = .idle ∧ Dispatched n := by
  cases y with
  | idle =>
    obtain ⟨hdisp, hz⟩ := Option.ite_none_right_eq_some.mp h
    exact ⟨rfl, (Option.some.inj hz).symm, hdisp⟩
  | _ => cases h

theorem dispatched_of_move (h : y.move (.dispatched n) = some y') :
    y = .filed n.payload.organizationId ∧ y' = .off ∧ Dispatched n := by
  cases y with
  | filed org =>
    obtain ⟨⟨hdisp, rfl⟩, hz⟩ := Option.ite_none_right_eq_some.mp h
    exact ⟨rfl, (Option.some.inj hz).symm, hdisp⟩
  | _ => cases h

theorem asked_of_move (h : y.move .asked = some y') :
    ∃ org job, y = .loaded org job ∧ y' = .spent org job := by
  cases y <;> cases h
  exact ⟨_, _, rfl, rfl⟩

theorem unread_of_move (h : y.move .unread = some y') :
    (∃ org job, Holds org job y ∧ y' = .off) ∨ ¬ y.Attends ∧ y' = y := by
  cases y with
  | loaded org job => exact .inl ⟨org, job, .inl rfl, (Option.some.inj h).symm⟩
  | spent org job => exact .inl ⟨org, job, .inr rfl, (Option.some.inj h).symm⟩
  | elsewhere job => exact .inr ⟨id, (Option.some.inj h).symm⟩
  | _ => cases h

theorem settled_of_move {answered : Bool} (h : y.move (.settled job p answered) = some y') :
    (∃ org, Holds org job y ∧ p.Settles ∧ y' = if answered then .owing org else .off) ∨
      y = .elsewhere job ∧ y' = y := by
  cases y with
  | loaded org job' =>
    obtain ⟨⟨rfl, hp⟩, hz⟩ := Option.ite_none_right_eq_some.mp h
    exact .inl ⟨org, .inl rfl, hp, (Option.some.inj hz).symm⟩
  | spent org job' =>
    obtain ⟨⟨rfl, hp⟩, hz⟩ := Option.ite_none_right_eq_some.mp h
    exact .inl ⟨org, .inr rfl, hp, (Option.some.inj hz).symm⟩
  | elsewhere job' =>
    obtain ⟨rfl, hz⟩ := Option.ite_none_right_eq_some.mp h
    exact .inr ⟨rfl, (Option.some.inj hz).symm⟩
  | _ => cases h

theorem deferred_of_move (h : y.move (.deferred job) = some y') : y = .elsewhere job ∧ y' = y := by
  cases y with
  | elsewhere job' =>
    obtain ⟨rfl, hz⟩ := Option.ite_none_right_eq_some.mp h
    exact ⟨rfl, (Option.some.inj hz).symm⟩
  | _ => cases h

theorem wrote_of_move {p : DataStatusInput} (h : y.move (.wrote p) = some y') :
    ∃ org job, (y = .owing org ∨ Holds org job y) ∧ p.organizationId = org ∧
      p.status ≠ .pending ∧ y' = .off := by
  cases y with
  | loaded org job =>
    obtain ⟨⟨horg, hst⟩, hz⟩ := Option.ite_none_right_eq_some.mp h
    exact ⟨org, job, .inr (.inl rfl), horg, hst, (Option.some.inj hz).symm⟩
  | spent org job =>
    obtain ⟨⟨horg, hst⟩, hz⟩ := Option.ite_none_right_eq_some.mp h
    exact ⟨org, job, .inr (.inr rfl), horg, hst, (Option.some.inj hz).symm⟩
  | owing org =>
    obtain ⟨⟨horg, hst⟩, hz⟩ := Option.ite_none_right_eq_some.mp h
    exact ⟨org, 0, .inl rfl, horg, hst, (Option.some.inj hz).symm⟩
  | _ => cases h

end Move

theorem still_of_move {w : World} {o : Oracle} {c : Call} {y y' : Stage} (h : y.move .other = some y')
    (hc : Unheard x w o y c) : Effect x w o y c y' := by
  rw [move_other] at h
  cases h
  exact .still hc

/-- What a request to the queue is to the record. -/
theorem effect_queue {w : World} {o : Oracle} {c : DataQueueCall} {y y' : Stage}
    (h : y.move (sight x (.queue c) (w.perform o (.queue c)).1) = some y') :
    Effect x w o y (.queue c) y' := by
  cases c with
  | claim worker n =>
    cases hr : (w.perform o (.queue (.claim worker n))).1 with
    | error e =>
      rw [hr] at h
      exact still_of_move h trivial
    | ok rows =>
      -- the claim was answered, so it took effect, and the row it took is the one answered
      rw [hr] at h
      replace h := (congrArg y.move (sight_claim (x := x) (w := worker) (n := n) rows)).symm.trans h
      cases hfirst : firstJob rows with
      | none =>
        rw [hfirst] at h
        exact still_of_move h trivial
      | some job =>
        obtain ⟨hfault, hrun⟩ := perform_queue_ok rfl hr
        obtain ⟨r, hmem, hclaim, rfl, hafter⟩ := claim_answer hrun hfirst
        have hfind : w.jobs.find r.id = some r := Table.find_eq_some.mpr ⟨hmem, rfl⟩
        rw [hfirst] at h
        simp only at h
        split at h
        -- a job of the record, or somebody else's
        next hfor =>
          obtain ⟨hy, rfl⟩ := claimed_of_move h
          refine Effect.claimed (r := r) hy hfind hclaim hfor ?_
          rw [perform_jobs, hfault, if_pos (show Fault.none.Lands from trivial)]
          exact hafter
        next hnot =>
          obtain ⟨hy, rfl⟩ := taken_of_move h
          exact Effect.taken (r := r) hy hfind hnot
  | insert n =>
    have hs : sight x (.queue (.insert n)) (w.perform o (.queue (.insert n))).1 =
      if jobRecord n.kind n.payload = some x then .dispatched n else .enqueued n := rfl
    rw [hs] at h
    split at h
    next hfor =>
      obtain ⟨hy, rfl, hdisp⟩ := dispatched_of_move h
      exact .dispatched hy hfor hdisp
    next hnot =>
      obtain ⟨hy, rfl, hdisp⟩ := enqueued_of_move h
      exact .enqueued hy hnot hdisp
  -- a read-back that is not answered is all that is seen of it
  | select id =>
    have hanswer := answered_iff (w := w) (o := o) (c := .select id) rfl ⟨_, rfl⟩
    cases hr : (w.perform o (.queue (.select id))).1 with
    | ok rows =>
      rw [hr] at h hanswer
      exact still_of_move h (.inl (hanswer.mp rfl))
    | error e =>
      rw [hr] at h hanswer
      rcases unread_of_move h with ⟨org, job, hy, rfl⟩ | ⟨hno, rfl⟩
      · refine .unread hy fun hfault => ?_
        exact absurd (hanswer.mpr hfault) (by simp [answered])
      · exact .still (.inr hno)
  | patch id p =>
    have hanswer := answered_iff (w := w) (o := o) (c := .patch id p) rfl ⟨_, rfl⟩
    have hs : sight x (.queue (.patch id p)) (w.perform o (.queue (.patch id p))).1 =
      .settled id p (answered (w.perform o (.queue (.patch id p))).1) := rfl
    rw [hs] at h
    -- the thread settles its own job, or another one
    rcases settled_of_move h with ⟨org, hy, hp, rfl⟩ | ⟨hy, rfl⟩
    · split
      next hyes => exact .settled hy hp (hanswer.mp hyes)
      next hno => exact .unsure hy hp fun hfault => hno (hanswer.mpr hfault)
    · exact .aside hy (.inl ⟨p, rfl⟩)
  | defer id reason n =>
    obtain ⟨hy, rfl⟩ := deferred_of_move h
    exact .aside hy (.inr ⟨reason, n, rfl⟩)
  | selectByKey org kind key => exact still_of_move h trivial
  | reap t =>
    obtain ⟨hy, rfl⟩ := reaped_of_move h
    exact .reaped hy
  | clock => exact still_of_move h trivial

/-- **Every call** is one of these to the record. -/
theorem effect_cases {w : World} {o : Oracle} {c : Call} {y y' : Stage}
    (h : y.move (sight x c (w.perform o c).1) = some y') : Effect x w o y c y' := by
  cases c with
  | queue c => exact effect_queue h
  | engine row c =>
    -- a request to the engine is seen by the record it is made for
    by_cases hrow : row = x
    · subst hrow
      have hs : sight row (.engine row c) (w.perform o (.engine row c)).1 = engineSight c := if_pos rfl
      rw [hs] at h
      cases c with
      | imports org database file =>
        obtain ⟨org', job, hy, rfl⟩ := asked_of_move h
        exact .asked hy
      | executions org database backup => exact still_of_move h trivial
      | backups org database => exact still_of_move h trivial
    · have hs : sight x (.engine row c) (w.perform o (.engine row c)).1 = .other := if_neg hrow
      rw [hs] at h
      refine still_of_move h ?_
      cases c <;> first | exact hrow | trivial
  | store c =>
    cases c with
    | insertRow kind input =>
      cases hr : (w.perform o (.store (.insertRow kind input))).1 with
      -- an insert that is not answered is not seen, whether it landed or not
      | error e =>
        rw [hr] at h
        refine still_of_move h fun _ _ hfault => ?_
        have hok : (w.perform o (.store (.insertRow kind input))).1 =
            .ok (input.row (w.store.table kind).nextId) := by
          simp only [World.perform, hfault]
          rfl
        rw [hr] at hok
        cases hok
      | ok row =>
        obtain ⟨hfault, hrun⟩ := perform_store_ok hr
        obtain rfl : input.row (w.store.table kind).nextId = row := Except.ok.inj hrun
        rw [hr] at h
        -- the new row is the record's, or another's
        have hs : sight x (.store (.insertRow kind input))
            (.ok (input.row (w.store.table kind).nextId)) =
            if (⟨kind, (w.store.table kind).nextId⟩ : Record) = x then .filed input.organizationId
            else .other := rfl
        rw [hs] at h
        split at h
        next hx =>
          subst hx
          obtain ⟨hy, rfl⟩ := filed_of_move h
          exact .filed hy hfault rfl
        next hx =>
          refine still_of_move h fun hkind hid _ => hx ?_
          subst hkind
          rw [← hid]
    | patchRow kind p =>
      -- a patch of the record's row, or of another's
      by_cases hx : (⟨kind, p.id⟩ : Record) = x
      · subst hx
        have hs : sight ⟨kind, p.id⟩ (.store (.patchRow kind p))
          (w.perform o (.store (.patchRow kind p))).1 = .wrote p := if_pos rfl
        rw [hs] at h
        obtain ⟨org, job, hy, horg, hst, rfl⟩ := wrote_of_move h
        exact Effect.wrote (x := ⟨kind, p.id⟩) hy rfl horg hst
      · have hs : sight x (.store (.patchRow kind p))
          (w.perform o (.store (.patchRow kind p))).1 = .other := if_neg hx
        rw [hs] at h
        exact still_of_move h hx
    | _ => exact still_of_move h trivial

/-! ## The invariant of every run -/

/-- The stage of thread `tid` on the record. -/
def stageOf (x : Record) (s : DataSys) (tid : Nat) : Option Stage :=
  s.stage (recordProtocol x) (fun _ => .idle) tid

/-- The data plane before anything was asked of it. -/
def DataSys.initial (now : Instant) (resources : ResourcesTable)
    (members : OrganizationId → UserId → Bool) : DataSys :=
  Sys.start (World.initial now resources members)

/-- The plane of the scripts. -/
def DataSys.scripted : DataSys := DataSys.initial 0 oneResource fun _ _ => true

/-- What the jobs table is like. -/
structure Keyed (jobs : JobsTable DataJobPayload) : Prop where
  org : ∀ r ∈ jobs, r.organizationId = r.payload.organizationId
  key : ∀ r ∈ jobs, r.idempotencyKey = keyOf r.kind r.payload.recordId
  /-- The idempotency constraint. -/
  single : ∀ r ∈ jobs, ∀ r' ∈ jobs,
    sameKey r.organizationId r.kind r.idempotencyKey r' = true → r' = r

/-- What holds of every state of every run. -/
structure Sound (x : Record) (s : DataSys) : Prop where
  sane : s.Sane
  typed : s.Typed (dataDuty x)
  keyed : Keyed s.world.jobs
  homed : ∀ r ∈ s.world.jobs, JobFor x r → RowIn x s.world r.payload.organizationId
  seated : ∀ i y, stageOf x s i = some y → Seated x s.world y

theorem sound_initial (now : Instant) (resources : ResourcesTable)
    (members : OrganizationId → UserId → Bool) :
    Sound x (DataSys.initial now resources members) where
  sane := sane_start _
  typed := typed_start _ _
  keyed := ⟨fun _ h => absurd h (Table.not_mem_empty _), fun _ h => absurd h (Table.not_mem_empty _),
    fun _ h => absurd h (Table.not_mem_empty _)⟩
  homed _ h := absurd h (Table.not_mem_empty _)
  seated _ _ h := by cases h

/-- Every row of the table after a request was there before, or was inserted. -/
theorem job_of_after {w : World} {o : Oracle} {c : DataQueueCall} {r' : JobRow DataJobPayload}
    (h : r' ∈ (w.perform o (.queue c)).2.jobs) :
    (∃ r ∈ w.jobs, r.id = r'.id ∧ SameJob r r') ∨
      ∃ n, c = .insert n ∧ r' = n.row w.now w.jobs.nextId ∧
        ∀ r ∈ w.jobs, sameKey n.organizationId n.kind n.idempotencyKey r = false := by
  have hafter := job_perform w o c r'.id
  have hfind : (w.perform o (.queue c)).2.jobs.find r'.id = some r' :=
    Table.find_eq_some.mpr ⟨h, rfl⟩
  rw [hfind] at hafter
  generalize hid : r'.id = id at hafter
  generalize hfound : some r' = found at hafter
  cases hafter with
  | @touched c r r'' hrow htouched =>
    cases hfound
    have hsame := sameJob_touched htouched
    exact .inl ⟨r, (Table.mem_of_find hrow).1, hsame.id.symm.trans hid, hsame⟩
  | absent => cases hfound
  | @inserted n hnew hmax hkey =>
    subst hnew
    exact .inr ⟨n, rfl, Option.some.inj hfound, hkey⟩

theorem sameKey_same {r r' a a' : JobRow DataJobPayload} (h : SameJob r r') (ha : SameJob a a') :
    sameKey r'.organizationId r'.kind r'.idempotencyKey a' =
      sameKey r.organizationId r.kind r.idempotencyKey a := by
  simp only [sameKey, h.organizationId, h.kind, h.idempotencyKey, ha.organizationId, ha.kind,
    ha.idempotencyKey]

theorem sameKey_symm {r r' : JobRow DataJobPayload}
    (h : sameKey r.organizationId r.kind r.idempotencyKey r' = true) :
    sameKey r'.organizationId r'.kind r'.idempotencyKey r = true := by
  simp only [sameKey, Bool.and_eq_true, beq_iff_eq] at h ⊢
  exact ⟨⟨h.1.1.symm, h.1.2.symm⟩, h.2.symm⟩

/-- A request keeps the table so, if what it enqueues is a procedure's job. -/
theorem keyed_perform {w : World} {o : Oracle} {c : DataQueueCall} (h : Keyed w.jobs)
    (hc : ∀ n, c = .insert n → Dispatched n) : Keyed (w.perform o (.queue c)).2.jobs := by
  refine ⟨fun r' hr' => ?_, fun r' hr' => ?_, fun r' hr' a' ha' hkey => ?_⟩
  -- a row after the request was there before, or is the new one
  · rcases job_of_after hr' with ⟨r, hr, _, hsame⟩ | ⟨n, hn, rfl, _⟩
    · rw [hsame.organizationId, hsame.payload]
      exact h.org r hr
    · exact (hc n hn).org
  · rcases job_of_after hr' with ⟨r, hr, _, hsame⟩ | ⟨n, hn, rfl, _⟩
    · rw [hsame.idempotencyKey, hsame.kind, hsame.payload]
      exact h.key r hr
    · exact (hc n hn).key
  -- for a key that a row has there is no insert
  · have hold : ∀ {b b' : JobRow DataJobPayload} {n : NewJob DataJobPayload}, SameJob b b' →
        sameKey n.organizationId n.kind n.idempotencyKey b = false →
        sameKey n.organizationId n.kind n.idempotencyKey b' = true → False := by
      intro b b' n hsame hno hyes
      simp only [sameKey, hsame.organizationId, hsame.kind, hsame.idempotencyKey] at hno hyes
      rw [hno] at hyes
      cases hyes
    rcases job_of_after hr' with ⟨r, hr, hid, hsame⟩ | ⟨n, hn, rfl, hfree⟩
    · rcases job_of_after ha' with ⟨a, ha, hida, hsamea⟩ | ⟨n, hn, rfl, hfree⟩
      · -- both were there before, and are one row
        rw [sameKey_same hsame hsamea] at hkey
        obtain rfl := h.single r hr a ha hkey
        have hfind := Table.find_eq_some.mpr ⟨hr', rfl⟩
        rw [← hid, hida, Table.find_eq_some.mpr ⟨ha', rfl⟩] at hfind
        exact Option.some.inj hfind
      · exact (hold hsame (hfree r hr) (sameKey_symm hkey)).elim
    · rcases job_of_after ha' with ⟨a, ha, hida, hsamea⟩ | ⟨n', hn', rfl, _⟩
      · exact (hold hsamea (hfree a ha) hkey).elim
      · rw [hn] at hn'
        cases hn'
        rfl

/-! ## Steps -/

theorem data_typed (d : DatabaseAdapter) (h : s.Typed (dataDuty x)) (l : DataMove) :
    ((dataHost d).step s l).Typed (dataDuty x) :=
  typed_step (data_follows d x) (data_answers d x s.world) h l

/-- **A step**, seen from the record: silent, or a call with its effect. -/
theorem data_step_cases (h : Sound x s) (l : DataMove) :
    Silent (dataHost d) (dataDuty x) s l ∨
      ∃ tid o c y y', l = .exec tid o ∧
        Called (dataHost d) (dataDuty x) s ((dataHost d).step s l) tid o c y y' ∧
        Effect x s.world o y c y' := by
  rcases step_cases h.sane h.typed (data_answers d x s.world) l with hs | ⟨tid, o, c, y, y', hl, hc⟩
  · exact .inl hs
  · exact .inr ⟨tid, o, c, y, y', hl, hc, effect_cases hc.moves⟩

theorem extends_step (h : Sound x s) (l : DataMove) :
    Extends x s.world ((dataHost d).step s l).world := by
  rcases data_step_cases (d := d) h l with hs | ⟨tid, o, c, y, y', _, hc, _⟩
  · rcases hs.world with hw | ⟨dr, hw⟩
    · rw [hw]
      exact extends_refl _
    · rw [hw]
      exact extends_drift _ dr
  · rw [hc.world]
    exact extends_perform _ o c

/-- The insert of the record's row. -/
theorem row_inserted {w : World} {o : Oracle} {input : DataRowInput} (hlands : o.fault.Lands)
    (hnew : x.id = (w.store.table x.kind).nextId) :
    (w.perform o (.store (.insertRow x.kind input))).2.row x = some (input.row x.id) := by
  rw [World.row, perform_store, if_pos hlands]
  simp only [StoreCall.run, row_withTable, Table.find_insertNew, hnew, if_true]

/-- What a call leaves its thread knowing. -/
theorem seated_effect {w : World} {o : Oracle} {c : Call} {y y' : Stage}
    (h : Effect x w o y c y') (hseat : Seated x w y)
    (hhomed : ∀ r ∈ w.jobs, JobFor x r → RowIn x w r.payload.organizationId) :
    Seated x (w.perform o c).2 y' := by
  have hext := extends_perform (x := x) w o c
  cases h with
  | @claimed worker n r hy hr hclaim hfor hafter =>
    refine ⟨jobIn_extends hext ⟨r, hr, hfor, rfl⟩, rowIn_extends hext ?_⟩
    exact hhomed r (Table.mem_of_find hr).1 hfor
  | @taken worker n r hy hr hnot =>
    obtain ⟨r', hr', hsame⟩ := hext.job r.id r hr
    exact ⟨r', hr', fun hfor => hnot ((jobFor_same hsame).mp hfor)⟩
  | @filed input hy hfault hnew =>
    exact ⟨_, row_inserted (by rw [hfault]; trivial) hnew, rfl⟩
  | dispatched => trivial
  | enqueued => trivial
  | reaped => trivial
  | asked hy =>
    subst hy
    exact seated_extends hext (y := .spent _ _) hseat
  | unread => trivial
  | settled hy hp hfault =>
    rcases hy with rfl | rfl
    · exact rowIn_extends hext hseat.2
    · exact rowIn_extends hext hseat.2
  | unsure => trivial
  | wrote => trivial
  | aside => exact seated_extends hext hseat
  | still => exact seated_extends hext hseat

theorem dispatched_effect {w : World} {o : Oracle} {y y' : Stage} {n : NewJob DataJobPayload}
    (h : Effect x w o y (.queue (.insert n)) y') : Dispatched n := by
  cases h with
  | dispatched _ _ hdisp => exact hdisp
  | enqueued _ _ hdisp => exact hdisp
  | aside _ hc =>
    rcases hc with ⟨p, hc⟩ | ⟨reason, m, hc⟩
    · cases hc
    · cases hc
  | still hno => exact hno.elim

theorem keyed_step {w : World} {o : Oracle} {c : Call} {y y' : Stage}
    (h : Effect x w o y c y') (hk : Keyed w.jobs) : Keyed (w.perform o c).2.jobs := by
  cases c with
  | engine row c => exact hk
  | store c =>
    rw [perform_store_jobs]
    exact hk
  | queue c =>
    refine keyed_perform hk fun n hn => ?_
    subst hn
    exact dispatched_effect h

/-- A job for the record has the organization of its row. -/
theorem homed_step {w : World} {o : Oracle} {c : Call} {y y' : Stage} (h : Effect x w o y c y')
    (hseat : Seated x w y) (hh : ∀ r ∈ w.jobs, JobFor x r → RowIn x w r.payload.organizationId) :
    ∀ r ∈ (w.perform o c).2.jobs, JobFor x r → RowIn x (w.perform o c).2 r.payload.organizationId := by
  intro r hr hfor
  have hext := extends_perform (x := x) w o c
  cases c with
  | engine row c => exact rowIn_extends hext (hh r hr hfor)
  | store c =>
    rw [perform_store_jobs] at hr
    exact rowIn_extends hext (hh r hr hfor)
  | queue c =>
    refine rowIn_extends hext ?_
    rcases job_of_after hr with ⟨r₀, hr₀, _, hsame⟩ | ⟨n, rfl, rfl, _⟩
    · rw [hsame.payload]
      exact hh r₀ hr₀ ((jobFor_same hsame).mp hfor)
    · -- the record's job is enqueued by whoever inserted its row
      cases h with
      | dispatched hy _ _ =>
        subst hy
        exact hseat
      | enqueued _ hnot _ => exact absurd hfor hnot
      | aside _ hc =>
        rcases hc with ⟨p, hc⟩ | ⟨reason, m, hc⟩
        · cases hc
        · cases hc
      | still hno => exact hno.elim

/-- **Step.** -/
theorem sound_step (h : Sound x s) (l : DataMove) : Sound x ((dataHost d).step s l) := by
  have hext := extends_step (d := d) h l
  refine ⟨sane_step _ h.sane l, data_typed d h.typed l, ?_, ?_, ?_⟩
  all_goals
    rcases data_step_cases (d := d) h l with hs | ⟨tid, o, c, y, y', _, hc, heff⟩
  · rcases hs.world with hw | ⟨dr, hw⟩
    · exact hw ▸ h.keyed
    · rw [hw]
      cases dr <;> exact h.keyed
  · rw [hc.world]
    exact keyed_step heff h.keyed
  · intro r hr hfor
    refine rowIn_extends hext (h.homed r ?_ hfor)
    rcases hs.world with hw | ⟨dr, hw⟩
    · exact hw ▸ hr
    · rw [hw] at hr
      cases dr <;> exact hr
  · rw [hc.world]
    exact homed_step heff (h.seated tid y hc.was) h.homed
  · intro i y hi
    rcases hs.stage i y hi with hwas | ⟨_, t, rfl⟩
    · exact seated_extends hext (h.seated i y hwas)
    · trivial
  · intro i z hi
    rcases hc.stage_after hi with ⟨rfl, rfl⟩ | ⟨_, hwas⟩
    · rw [hc.world]
      exact seated_effect heff (h.seated _ y hc.was) h.homed
    · exact seated_extends hext (h.seated i z hwas)

/-- The kind of a record's job. -/
def RecordKind.jobKind : RecordKind → String
  | .backup => backupJobKind
  | .restore => restoreJobKind

/-- A job is for a record if its kind is the record's and its payload names it. -/
theorem jobFor_iff {r : JobRow DataJobPayload} :
    JobFor x r ↔ r.kind = x.kind.jobKind ∧ r.payload.recordId = x.id := by
  obtain ⟨kind, id⟩ := x
  unfold JobFor
  constructor
  · intro h
    by_cases hb : r.kind = backupJobKind
    · rw [hb, jobRecord_backup] at h
      cases h
      exact ⟨hb, rfl⟩
    by_cases hr : r.kind = restoreJobKind
    · rw [hr, jobRecord_restore] at h
      cases h
      exact ⟨hr, rfl⟩
    · rw [jobRecord, if_neg hb, if_neg hr] at h
      cases h
  · rintro ⟨hkind, rfl⟩
    cases kind with
    | backup => rw [hkind]; exact jobRecord_backup
    | restore => rw [hkind]; exact jobRecord_restore

/-- **The record has one job at most.** -/
theorem Sound.single (h : Sound x s) {r r' : JobRow DataJobPayload} (hr : r ∈ s.world.jobs)
    (hr' : r' ∈ s.world.jobs) (hfor : JobFor x r) (hfor' : JobFor x r') : r' = r := by
  obtain ⟨row, hrow, horg⟩ := h.homed r hr hfor
  obtain ⟨row', hrow', horg'⟩ := h.homed r' hr' hfor'
  obtain ⟨hkind, hid⟩ := jobFor_iff.mp hfor
  obtain ⟨hkind', hid'⟩ := jobFor_iff.mp hfor'
  rw [hrow] at hrow'
  cases hrow'
  refine h.keyed.single r hr r' hr' ?_
  simp only [sameKey, Bool.and_eq_true, beq_iff_eq]
  refine ⟨⟨?_, hkind'.trans hkind.symm⟩, ?_⟩
  · rw [h.keyed.org r hr, h.keyed.org r' hr', ← horg, ← horg']
  · rw [h.keyed.key r hr, h.keyed.key r' hr', hkind, hkind', hid, hid']

/-- Every live thread was numbered. -/
theorem lt_born_of_stage (h : Sound x s) {i : Nat} {y : Stage} (hy : stageOf x s i = some y) :
    i < s.born := by
  by_contra hge
  rw [stageOf, stage_of_live_none (h.sane.fresh i (by omega)).1] at hy
  cases hy

end CloudWai.Data
