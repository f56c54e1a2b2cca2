import CloudWai.Data.System

/-!
# One record's journey through a thread

What a thread does to a backup or restore `x`, as an automaton. A request files its
row and then enqueues its job; a delivery of the job asks the engine, settles the
job and then writes the row. The stages say what a thread still has to do: one that
is `filed` owes the row its job, one that is `owing` owes it the outcome. It ends
only when it has nothing left to do, or was refused on the way.

Only a delivery that holds the record's job writes that job, and only a delivery
that has not asked the engine yet can ask it.
-/

namespace CloudWai.Data

open Base Queue

/-! ## Jobs of records -/

/-- The record a job is for. -/
def jobRecord (kind : String) (payload : DataJobPayload) : Option Record :=
  if kind = backupJobKind then some ⟨.backup, payload.recordId⟩
  else if kind = restoreJobKind then some ⟨.restore, payload.recordId⟩
  else none

/-- The idempotency key of a job. -/
def keyOf (kind : String) (id : Nat) : String :=
  if kind = backupJobKind then s!"backup-{id}" else s!"restore-{id}"

/-- A job as the procedures enqueue it. -/
structure Dispatched (n : NewJob DataJobPayload) : Prop where
  org : n.organizationId = n.payload.organizationId
  key : n.idempotencyKey = keyOf n.kind n.payload.recordId
  attempts : IsAttempts n.maxAttempts

instance (n : NewJob DataJobPayload) : Decidable (Dispatched n) :=
  decidable_of_iff (_ ∧ _ ∧ _) ⟨fun h => ⟨h.1, h.2.1, h.2.2⟩, fun h => ⟨h.org, h.key, h.attempts⟩⟩

/-- A row of the queue that is for the record. -/
def JobFor (x : Record) (r : JobRow DataJobPayload) : Prop := jobRecord r.kind r.payload = some x

instance (x : Record) (r : JobRow DataJobPayload) : Decidable (JobFor x r) :=
  inferInstanceAs (Decidable (_ = _))

/-! ## Sights -/

/-- What a call and its answer mean for the record. -/
inductive Sight where
  | other
  /-- Its job was claimed. -/
  | claimed (org : OrganizationId) (job : JobId)
  /-- Another one was. -/
  | taken (job : JobId)
  /-- Its row was inserted. -/
  | filed (org : OrganizationId)
  /-- Its job was enqueued, for all the caller knows. -/
  | dispatched (n : NewJob DataJobPayload)
  | enqueued (n : NewJob DataJobPayload)
  /-- The engine was asked to overwrite the database. -/
  | asked
  /-- Lapsed leases were taken back. -/
  | reaped
  /-- The read before a settling write failed. -/
  | unread
  | settled (job : JobId) (p : JobPatch) (answered : Bool)
  | deferred (job : JobId)
  | wrote (p : DataStatusInput)

def answered {α : Type} : Except String α → Bool
  | .ok _ => true
  | .error _ => false

/-- What an answer of the queue is to the record. -/
def queueSight (x : Record) : (c : DataQueueCall) → Except String c.Ans → Sight
  | .claim _ _, .ok rows =>
    match firstJob rows with
    | none => .other
    | some job =>
      if jobRecord job.kind job.payload = some x then .claimed job.payload.organizationId job.id
      else .taken job.id
  | .insert n, _ => if jobRecord n.kind n.payload = some x then .dispatched n else .enqueued n
  | .reap _, _ => .reaped
  | .select _, .error _ => .unread
  | .patch job p, r => .settled job p (answered r)
  | .defer job _ _, _ => .deferred job
  | _, _ => .other

/-- What an answer of the store is to it. -/
def storeSight (x : Record) : (c : StoreCall) → Except String c.Ans → Sight
  | .insertRow kind input, .ok row =>
    if (⟨kind, row.id⟩ : Record) = x then .filed input.organizationId else .other
  | .patchRow kind p, _ => if (⟨kind, p.id⟩ : Record) = x then .wrote p else .other
  | _, _ => .other

/-- And of the engine: an import is asked for. -/
def engineSight : EngineCall → Sight
  | .imports .. => .asked
  | _ => .other

/-- What a call and its answer mean for `x`. -/
def sight (x : Record) : (c : Call) → Except String c.Ans → Sight
  | .queue c, r => queueSight x c r
  | .store c, r => storeSight x c r
  | .engine row c, _ => if row = x then engineSight c else .other

/-! ## Stages -/

/-- What a thread is to the record. -/
inductive Stage where
  /-- It has not come across the record. -/
  | idle
  /-- A request that has its row and not its job. -/
  | filed (org : OrganizationId)
  /-- A delivery of another job. -/
  | elsewhere (job : JobId)
  /-- A delivery of its job, before the engine is asked to overwrite. -/
  | loaded (org : OrganizationId) (job : JobId)
  /-- And after. -/
  | spent (org : OrganizationId) (job : JobId)
  /-- The job was settled, and the row is to be written. -/
  | owing (org : OrganizationId)
  | off
deriving DecidableEq

/-- The next stage, or `none` where a thread may not do this. -/
def Stage.move : Stage → Sight → Option Stage
  | x, .other => some x
  | .idle, .claimed org job => some (.loaded org job)
  | .idle, .taken job => some (.elsewhere job)
  | .idle, .filed org => some (.filed org)
  | .idle, .reaped => some .idle
  | .idle, .enqueued n => if Dispatched n then some .idle else none
  | .filed org, .dispatched n =>
    if Dispatched n ∧ n.payload.organizationId = org then some .off else none
  | .loaded _ _, .unread => some .off
  | .spent _ _, .unread => some .off
  | .elsewhere job, .unread => some (.elsewhere job)
  | .elsewhere job, .settled id _ _ => if id = job then some (.elsewhere job) else none
  | .elsewhere job, .deferred id => if id = job then some (.elsewhere job) else none
  | .loaded org job, .asked => some (.spent org job)
  | .loaded org job, .settled id p answered =>
    if id = job ∧ p.Settles then some (if answered then .owing org else .off) else none
  | .spent org job, .settled id p answered =>
    if id = job ∧ p.Settles then some (if answered then .owing org else .off) else none
  | .loaded org _, .wrote p =>
    if p.organizationId = org ∧ p.status ≠ .pending then some .off else none
  | .spent org _, .wrote p =>
    if p.organizationId = org ∧ p.status ≠ .pending then some .off else none
  | .owing org, .wrote p =>
    if p.organizationId = org ∧ p.status ≠ .pending then some .off else none
  | _, _ => none

/-- A thread that still has something to do about the record. -/
def Stage.Attends : Stage → Prop
  | .filed _ => True
  | .loaded _ _ => True
  | .spent _ _ => True
  | .owing _ => True
  | _ => False

instance (y : Stage) : Decidable y.Attends := by
  unfold Stage.Attends
  split <;> infer_instance

/-- The local clock never fails. -/
def possible : (c : Call) → Except String c.Ans → Prop
  | .queue .clock, r => answered r = true
  | _, _ => True

/-- What a thread may do with a record, by what it has seen of it. -/
def recordProtocol (x : Record) : Protocol Call Call.Ans String Stage where
  next y c r := y.move (sight x c r)
  Possible := possible

/-- No task ends while it has something to do about the record. -/
def dataDuty (x : Record) : Duty Task Call Call.Ans String Stage where
  protocol := recordProtocol x
  first _ := .idle
  ends _ _ y := ¬ y.Attends

theorem data_answers (d : DatabaseAdapter) (x : Record) (w : World) :
    (dataHost d).Answers (dataDuty x) w := by
  intro o c
  cases c with
  | queue c => cases c <;> trivial
  | store c => trivial
  | engine row c => trivial

end CloudWai.Data
