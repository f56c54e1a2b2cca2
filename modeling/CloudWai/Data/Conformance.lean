import CloudWai.Data.Journey

/-!
# Every task follows the journey

Calls that are not about the record leave any stage alone, and a delivery of
another job writes that job besides. A delivery of the record's own job is taken
from the bottom up: the adapter asks the engine to overwrite at most once, the
handler ends with a terminal status in hand or throws, the queue's methods settle
the job and no other, and the applier writes the row, whatever became of its
audit.
-/

namespace CloudWai.Data

open Base Queue ControlPlaneStore

variable {x : Record} {α β : Type} {P : Call → Prop}

/-! ## Single requests -/

theorem only_must {op : String} {c : StoreCall} (h : P (.store c)) : (must op c).Only P := by
  refine ⟨h, fun r => ?_⟩
  cases r <;> trivial

theorem only_clock (h : P (.queue .clock)) : clock.Only P := by
  refine ⟨h, fun r => ?_⟩
  cases r <;> trivial

theorem only_queue {op : String} {c : DataQueueCall} (h : P (.queue c)) :
    (onQueue (Queue.must op c)).Only P := by
  refine ⟨h, fun r => ?_⟩
  cases r <;> trivial

theorem onQueue_bind {p : QueueProg DataJobPayload α} {f : α → QueueProg DataJobPayload β} :
    onQueue (p.bind f) = (onQueue p).bind fun a => onQueue (f a) := Prog.embed_bind _ _ _ _

/-! ## Calls that are not about the record -/

/-- A call that shows the record nothing and does nothing to it or its job. -/
def Away (x : Record) : Call → Prop
  | .queue (.claim _ _) => False
  | .queue (.insert _) => False
  | .queue (.select _) => False
  | .queue (.reap _) => False
  | .queue (.patch _ _) => False
  | .queue (.defer _ _ _) => False
  | .queue _ => True
  | .store (.insertRow _ _) => False
  | .store (.patchRow kind p) => (⟨kind, p.id⟩ : Record) ≠ x
  | .store _ => True
  | .engine row (.imports _ _ _) => row ≠ x
  | .engine _ _ => True

/-- And one that reads or writes `job`, of another record. -/
def Aside (x : Record) (job : JobId) : Call → Prop
  | .queue (.select _) => True
  | .queue (.patch id _) => id = job
  | .queue (.defer id _ _) => id = job
  | c => Away x c

theorem sight_away {c : Call} (h : Away x c) (r : Except String c.Ans) : sight x c r = .other := by
  cases c with
  | queue c => cases c <;> first | exact h.elim | rfl
  | store c =>
    cases c with
    | insertRow kind input => exact h.elim
    | patchRow kind p => exact if_neg h
    | _ => cases r <;> rfl
  | engine row c =>
    by_cases hrow : row = x
    · cases c with
      | imports org database file => exact absurd hrow h
      | _ => exact if_pos hrow
    · exact if_neg hrow

theorem move_other (y : Stage) : y.move .other = some y := by
  cases y <;> rfl

theorem move_away {c : Call} (h : Away x c) (y : Stage) (r : Except String c.Ans) :
    (recordProtocol x).next y c r = some y := by
  show y.move (sight x c r) = some y
  rw [sight_away h]
  exact move_other y

theorem follows_away {y : Stage} {p : DataProg α} (hp : p.Only (Away x)) :
    (recordProtocol x).Follows (fun _ y' => y' = y) y p :=
  Protocol.follows_of_only hp fun _ hc r _ => move_away hc y r

/-- A call aside is away, or it reads or writes the job. -/
theorem aside_cases {job : JobId} {c : Call} (h : Aside x job c) :
    Away x c ∨ (∃ id, c = .queue (.select id)) ∨ (∃ p, c = .queue (.patch job p)) ∨
      ∃ reason n, c = .queue (.defer job reason n) := by
  cases c with
  | queue c =>
    cases c with
    | select id => exact .inr (.inl ⟨id, rfl⟩)
    | patch id p =>
      obtain rfl : id = job := h
      exact .inr (.inr (.inl ⟨p, rfl⟩))
    | defer id reason n =>
      obtain rfl : id = job := h
      exact .inr (.inr (.inr ⟨reason, n, rfl⟩))
    | _ => exact .inl h
  | _ => exact .inl h

theorem follows_aside {job : JobId} {p : DataProg α} (hp : p.Only (Aside x job)) :
    (recordProtocol x).Follows (fun _ y => y = .elsewhere job) (.elsewhere job) p := by
  refine Protocol.follows_of_only hp fun c hc r _ => ?_
  rcases aside_cases hc with h | ⟨id, rfl⟩ | ⟨p, rfl⟩ | ⟨reason, n, rfl⟩
  · exact move_away h _ r
  · cases r <;> rfl
  · exact if_pos rfl
  · exact if_pos rfl

theorem aside_of_away {job : JobId} {c : Call} (h : Away x c) : Aside x job c := by
  cases c with
  | queue c => cases c <;> first | exact h | exact h.elim
  | _ => exact h

theorem only_aside {job : JobId} {p : DataProg α} (h : p.Only (Away x)) : p.Only (Aside x job) :=
  Prog.only_mono (fun _ => aside_of_away) h

/-! ## Reports to the queue about another job -/

section Queue

variable {job : JobId}

theorem only_patchJob (p : JobPatch) : (onQueue (SqlJobQueue.patch job p)).Only (Aside x job) := by
  unfold SqlJobQueue.patch
  rw [onQueue_bind]
  exact Prog.only_bind (only_queue rfl) fun _ => trivial

theorem only_complete : (onQueue (SqlJobQueue.complete job)).Only (Aside x job) := by
  unfold SqlJobQueue.complete
  rw [onQueue_bind]
  exact Prog.only_bind (only_clock trivial) fun _ => only_patchJob _

theorem only_terminate (reason : String) :
    (onQueue (SqlJobQueue.terminate job reason)).Only (Aside x job) := by
  unfold SqlJobQueue.terminate
  rw [onQueue_bind]
  exact Prog.only_bind (only_clock trivial) fun _ => only_patchJob _

theorem only_defer (reason : String) (ms : Nat) :
    (onQueue (SqlJobQueue.defer job reason ms)).Only (Aside x job) := by
  unfold SqlJobQueue.defer
  rw [onQueue_bind]
  exact Prog.only_bind (only_queue rfl) fun _ => trivial

theorem only_fail (reason : String) :
    (onQueue (SqlJobQueue.fail job reason)).Only (Aside x job) := by
  unfold SqlJobQueue.fail SqlJobQueue.get
  rw [onQueue_bind, onQueue_bind]
  refine Prog.only_bind (Prog.only_bind (only_queue trivial) fun _ => trivial) fun current => ?_
  cases current with
  | none => trivial
  | some current =>
    simp only
    split
    · rw [onQueue_bind]
      exact Prog.only_bind (only_clock trivial) fun _ => only_patchJob _
    · exact only_patchJob _

end Queue

/-! ## A delivery of another job -/

theorem only_call_engine (d : DatabaseAdapter) {row : Record} {ctx : AdapterContext}
    {c : EngineCall} {method path : String} (h : P (.engine row c)) :
    (d.call row ctx c method path).Only P := by
  unfold DatabaseAdapter.call
  split
  · trivial
  · refine ⟨h, fun r => ?_⟩
    cases r <;> trivial

theorem only_backup (d : DatabaseAdapter) {row : Record} {ctx : AdapterContext}
    {ref : ProviderRef} : (d.backup row ctx ref).Only (Away x) := by
  unfold DatabaseAdapter.backup
  refine Prog.only_bind (only_call_engine d trivial) fun answer => ?_
  cases answer with
  | err status reason => trivial
  | ok status uuid =>
    simp only
    split <;> trivial

theorem only_restore (d : DatabaseAdapter) {row : Record} {ctx : AdapterContext}
    {backup target : ProviderRef} (hrow : row ≠ x) :
    (d.restore row ctx backup target).Only (Away x) := by
  unfold DatabaseAdapter.restore
  split
  · trivial
  split
  · trivial
  refine Prog.only_bind (only_call_engine d trivial) fun answer => ?_
  cases answer with
  | err status reason => trivial
  | ok status executions =>
    simp only
    split
    · trivial
    · refine Prog.only_bind (only_call_engine d hrow) fun answer => ?_
      cases answer <;> trivial

theorem only_backupJobHandler (d : DatabaseAdapter) (input : DataJobPayload) (ctx : JobContext) :
    (backupJobHandler d input ctx).Only (Away x) := by
  unfold backupJobHandler
  refine Prog.only_bind (only_must trivial) fun found => ?_
  split
  · trivial
  split
  · trivial
  split
  · trivial
  exact Prog.only_bind (only_backup d) fun _ => trivial

theorem only_restoreJobHandler (d : DatabaseAdapter) {input : DataJobPayload} (ctx : JobContext)
    (hrow : (⟨.restore, input.recordId⟩ : Record) ≠ x) :
    (restoreJobHandler d input ctx).Only (Away x) := by
  unfold restoreJobHandler
  refine Prog.only_bind (only_must trivial) fun found => ?_
  split
  · trivial
  split
  · trivial
  split
  · trivial
  refine Prog.only_bind (only_must trivial) fun backup => ?_
  split
  · trivial
  · exact Prog.only_bind (only_restore d hrow) fun _ => trivial

theorem only_outcomeApplier {kind : String} {update : DataStatusInput → DataProg (Option DataRow)}
    {record : Nat → Record} {event : EngineStatus → String}
    {celebrate : OrganizationId → DataProg Unit} {job : Job DataJobPayload}
    {result : AdapterResult DataExecutionResult}
    (hupdate : job.kind = kind → ∀ p : DataStatusInput, p.id = job.payload.recordId →
      (update p).Only (Away x))
    (hcelebrate : ∀ org, (celebrate org).Only (Away x)) :
    (outcomeApplier kind update record event celebrate job result).Only (Away x) := by
  unfold outcomeApplier
  split
  · trivial
  next hkind =>
    refine Prog.only_bind (only_clock trivial) fun finished => ?_
    refine Prog.only_bind (hupdate (not_not.mp hkind) _ rfl) fun _ => ?_
    refine Prog.only_bind (only_must trivial) fun _ => ?_
    split
    · exact hcelebrate _
    · trivial

theorem jobRecord_backup {payload : DataJobPayload} :
    jobRecord backupJobKind payload = some ⟨.backup, payload.recordId⟩ := if_pos rfl

theorem jobRecord_restore {payload : DataJobPayload} :
    jobRecord restoreJobKind payload = some ⟨.restore, payload.recordId⟩ :=
  (if_neg (by decide)).trans (if_pos rfl)

theorem only_dataApplier {job : Job DataJobPayload} {result : AdapterResult DataExecutionResult}
    (hother : jobRecord job.kind job.payload ≠ some x) :
    (dataApplier job result).Only (Away x) := by
  unfold dataApplier
  refine Prog.only_bind (only_outcomeApplier ?_ fun _ => only_must trivial) fun _ =>
    only_outcomeApplier ?_ fun _ => trivial
  · intro hkind p hid
    rw [hkind, jobRecord_backup] at hother
    exact only_must fun h => hother (congrArg some (hid ▸ h))
  · intro hkind p hid
    rw [hkind, jobRecord_restore] at hother
    exact only_must fun h => hother (congrArg some (hid ▸ h))

theorem only_settle {job : Job DataJobPayload} {outcome : JobOutcome}
    {result : AdapterResult DataExecutionResult}
    (hother : jobRecord job.kind job.payload ≠ some x) :
    (InProcessWorker.settle dataApplier job outcome result).Only (Aside x job.id) :=
  Prog.only_bind (Prog.only_attempt (only_aside (only_dataApplier hother))) fun _ => trivial

theorem only_finish {options : WorkerOptions} {job : Job DataJobPayload}
    {result : AdapterResult DataExecutionResult}
    (hother : jobRecord job.kind job.payload ≠ some x) :
    (InProcessWorker.finish dataPort options dataApplier job result).Only (Aside x job.id) := by
  unfold InProcessWorker.finish
  simp only
  split
  · exact Prog.only_bind only_complete fun _ => only_settle hother
  split
  · refine Prog.only_bind (only_clock trivial) fun now => ?_
    split
    · exact Prog.only_bind (only_terminate _) fun _ => only_settle hother
    · exact Prog.only_bind (only_defer _ _) fun _ => only_settle hother
  split
  · exact Prog.only_bind (only_terminate _) fun _ => only_settle hother
  · exact Prog.only_bind (only_fail _) fun _ => only_settle hother

/-- **A delivery of another job** writes that job, and nothing of the record. -/
theorem only_deliver (d : DatabaseAdapter) (options : WorkerOptions) {job : Job DataJobPayload}
    (hother : jobRecord job.kind job.payload ≠ some x) :
    (InProcessWorker.deliver dataPort options (handlers d) dataApplier job).Only
      (Aside x job.id) := by
  have handled : ∀ handler, handlers d job.kind = some handler →
      (∀ ctx, (handler job.payload ctx).Only (Away x)) →
      (InProcessWorker.deliver dataPort options (handlers d) dataApplier job).Only
        (Aside x job.id) := by
    intro handler hsome h
    unfold InProcessWorker.deliver
    simp only [hsome]
    refine Prog.only_bind (Prog.only_attempt (only_aside (h _))) fun outcome => ?_
    cases outcome with
    | error reason => exact Prog.only_bind (only_fail reason) fun _ => only_settle hother
    | ok result => exact only_finish hother
  by_cases hb : job.kind = backupJobKind
  · exact handled _ (if_pos hb) fun _ => only_backupJobHandler d _ _
  by_cases hr : job.kind = restoreJobKind
  · refine handled _ ((if_neg hb).trans (if_pos hr)) fun _ => only_restoreJobHandler d _ fun h => ?_
    rw [hr, jobRecord_restore, h] at hother
    exact hother rfl
  · have hnone : handlers d job.kind = none := (if_neg hb).trans (if_neg hr)
    unfold InProcessWorker.deliver
    simp only [hnone]
    exact Prog.only_bind (only_terminate _) fun _ => only_settle hother

/-! ## A delivery of the record's job -/

section Own

variable {org : OrganizationId} {job : JobId} {y : Stage}

/-- A delivery of the record's job, whether or not it has asked the engine. -/
def Holds (org : OrganizationId) (job : JobId) (y : Stage) : Prop :=
  y = .loaded org job ∨ y = .spent org job

/-- A result with nothing in flight, under one status. -/
structure Concluded (result : AdapterResult DataExecutionResult) : Prop where
  terminal : result.status.Terminal
  agrees : ∀ status value, result = .ok status value → value.status = status

theorem concluded_err {status : EngineStatus} {reason : String} (h : status.Terminal) :
    Concluded (.err status reason) := ⟨h, fun _ _ he => by cases he⟩

theorem concluded_reported {handle : α → String} {result : AdapterResult α}
    (h : result.status.Terminal) : Concluded (reported handle result) := by
  cases result with
  | err status reason => exact concluded_err h
  | ok status value =>
    refine ⟨h, fun status' value' he => ?_⟩
    obtain ⟨rfl, rfl⟩ := AdapterResult.ok.inj he
    rfl

theorem outcomePatch_status {payload : DataJobPayload}
    {result : AdapterResult DataExecutionResult} {t : Instant} (h : Concluded result) :
    (outcomePatch payload result t).status = result.status := by
  cases result with
  | err status reason => rfl
  | ok status value => exact h.agrees status value rfl

/-- A request to the engine is answered, and the answer is terminal. -/
theorem terminal_result {β : Type} (what : String) (timeoutMs : Nat) (a : HttpAnswer β) :
    (a.result what timeoutMs).status.Terminal := by
  rcases result_status what timeoutMs a with ⟨body, h⟩ | ⟨status, reason, h, hst⟩
  · rw [h]
    exact EngineStatus.succeeded_terminal
  · rw [h]
    exact hst

/-- One request, and where it takes the thread. -/
theorem follows_call_engine (d : DatabaseAdapter) {row : Record} {ctx : AdapterContext}
    {c : EngineCall} {method path : String} {y' : Stage}
    (hmove : y.move (if row = x then engineSight c else .other) = some y') :
    (recordProtocol x).Follows (fun r z => (z = y ∨ z = y') ∧
      ∀ a, r = .ok a → a.status.Terminal) y (d.call row ctx c method path) := by
  unfold DatabaseAdapter.call
  split
  · exact ⟨.inl rfl, fun a ha => by cases ha; exact ⟨nofun, nofun⟩⟩
  · intro r _
    refine ⟨y', hmove, ?_⟩
    cases r with
    | ok answer => exact ⟨.inr rfl, fun a ha => by cases ha; exact terminal_result _ _ answer⟩
    | error e => exact ⟨.inr rfl, fun a ha => by cases ha⟩

/-- What an adapter method leaves: the delivery still holds the job, and what it
returned is terminal. -/
abbrev Answers (org : OrganizationId) (job : JobId) (r : Except String (AdapterResult α))
    (y : Stage) : Prop :=
  Holds org job y ∧ ∀ a, r = .ok a → a.status.Terminal

theorem answers_ret {a : AdapterResult α} (hy : Holds org job y) (ha : a.status.Terminal) :
    (recordProtocol x).Follows (Answers org job) y (.ret a) :=
  ⟨hy, fun _ h => by cases h; exact ha⟩

theorem follows_backup (d : DatabaseAdapter) {row : Record} {ctx : AdapterContext}
    {ref : ProviderRef} :
    (recordProtocol x).Follows (Answers org job) (.loaded org job) (d.backup row ctx ref) := by
  unfold DatabaseAdapter.backup
  refine Protocol.follows_bind (@follows_call_engine _ _ d _ _ _ _ _ (.loaded org job) ?_) ?_ ?_
  · split <;> rfl
  · rintro answer z ⟨hz, hterminal⟩
    obtain rfl : z = .loaded org job := or_self_iff.mp hz
    cases answer with
    | err status reason => exact answers_ret (.inl rfl) (hterminal _ rfl)
    | ok status uuid =>
      simp only
      split <;> exact answers_ret (.inl rfl) ⟨nofun, nofun⟩
  · rintro e z ⟨hz, _⟩
    exact ⟨.inl (or_self_iff.mp hz), fun _ h => by cases h⟩

/-- **The restore** asks the engine to overwrite once, at the end. -/
theorem follows_restore (d : DatabaseAdapter) {row : Record} {ctx : AdapterContext}
    {backup target : ProviderRef} :
    (recordProtocol x).Follows (Answers org job) (.loaded org job)
      (d.restore row ctx backup target) := by
  unfold DatabaseAdapter.restore
  split
  · exact answers_ret (.inl rfl) ⟨nofun, nofun⟩
  split
  · exact answers_ret (.inl rfl) ⟨nofun, nofun⟩
  refine Protocol.follows_bind (@follows_call_engine _ _ d _ _ _ _ _ (.loaded org job) ?_) ?_ ?_
  · split <;> rfl
  · rintro answer z ⟨hz, hterminal⟩
    obtain rfl : z = .loaded org job := or_self_iff.mp hz
    cases answer with
    | err status reason => exact answers_ret (.inl rfl) (hterminal _ rfl)
    | ok status executions =>
      simp only
      split
      · exact answers_ret (.inl rfl) ⟨nofun, nofun⟩
      · refine Protocol.follows_bind
          (@follows_call_engine _ _ d _ _ _ _ _
            (if row = x then .spent org job else .loaded org job) ?_) ?_ ?_
        · split <;> rfl
        · rintro answer z ⟨hz, hterminal⟩
          have hholds : Holds org job z := by
            rcases hz with rfl | rfl
            · exact .inl rfl
            · split
              · exact .inr rfl
              · exact .inl rfl
          cases answer with
          | err status reason => exact answers_ret hholds (hterminal _ rfl)
          | ok status u => exact answers_ret hholds ⟨nofun, nofun⟩
        · rintro e z ⟨hz, _⟩
          refine ⟨?_, fun _ h => by cases h⟩
          rcases hz with rfl | rfl
          · exact .inl rfl
          · split
            · exact .inr rfl
            · exact .inl rfl
  · rintro e z ⟨hz, _⟩
    exact ⟨.inl (or_self_iff.mp hz), fun _ h => by cases h⟩

/-- What a handler leaves. -/
abbrev Hands (org : OrganizationId) (job : JobId)
    (r : Except String (AdapterResult DataExecutionResult)) (y : Stage) : Prop :=
  Holds org job y ∧ ∀ a, r = .ok a → Concluded a

theorem hands_err {status : EngineStatus} {reason : String} (h : status.Terminal) :
    (recordProtocol x).Follows (Hands org job) (.loaded org job) (.ret (.err status reason)) :=
  ⟨.inl rfl, fun _ he => by cases he; exact concluded_err h⟩

/-- It reports what the adapter answered. -/
theorem hands_reported {p : DataProg (AdapterResult α)} {handle : α → String}
    (hp : (recordProtocol x).Follows (Answers org job) y p) :
    (recordProtocol x).Follows (Hands org job) y
      (p.bind fun a => .ret (reported handle a)) := by
  refine Protocol.follows_bind hp ?_ ?_
  · rintro a z ⟨hz, hterminal⟩
    exact ⟨hz, fun _ he => by cases he; exact concluded_reported (hterminal a rfl)⟩
  · rintro e z ⟨hz, _⟩
    exact ⟨hz, fun _ he => by cases he⟩

/-- A read on the way, which may throw. -/
theorem hands_read {c : StoreCall} {op : String} (hc : Away x (.store c))
    {f : c.Ans → DataProg (AdapterResult DataExecutionResult)}
    (hf : ∀ a, (recordProtocol x).Follows (Hands org job) (.loaded org job) (f a)) :
    (recordProtocol x).Follows (Hands org job) (.loaded org job) ((must op c).bind f) := by
  refine Protocol.follows_bind (follows_away (only_must hc)) ?_ ?_
  · rintro a z rfl
    exact hf a
  · rintro e z rfl
    exact ⟨.inl rfl, fun _ he => by cases he⟩

theorem follows_backupJobHandler (d : DatabaseAdapter) (input : DataJobPayload) (ctx : JobContext) :
    (recordProtocol x).Follows (Hands org job) (.loaded org job) (backupJobHandler d input ctx) := by
  unfold backupJobHandler
  refine hands_read (by trivial) fun found => ?_
  split
  · exact hands_err (by decide)
  split
  · exact hands_err (by decide)
  split
  · exact hands_err (by decide)
  · exact hands_reported (follows_backup d)

theorem follows_restoreJobHandler (d : DatabaseAdapter) (input : DataJobPayload)
    (ctx : JobContext) :
    (recordProtocol x).Follows (Hands org job) (.loaded org job)
      (restoreJobHandler d input ctx) := by
  unfold restoreJobHandler
  refine hands_read (by trivial) fun found => ?_
  split
  · exact hands_err (by decide)
  split
  · exact hands_err (by decide)
  split
  · exact hands_err (by decide)
  refine hands_read (by trivial) fun backup => ?_
  split
  · exact hands_err (by decide)
  · exact hands_reported (follows_restore d)

/-- What a report to the queue leaves: the row is owed its outcome, or there was no
job to settle; nothing is left to do if it threw. -/
def Settled (org : OrganizationId) (job : JobId) : Except String α → Stage → Prop
  | .ok _, y => y = .owing org ∨ Holds org job y
  | .error _, y => y = .off

theorem move_settled (hy : Holds org job y) {p : JobPatch} (hp : p.Settles) (answered : Bool) :
    y.move (.settled job p answered) = some (if answered then .owing org else .off) := by
  rcases hy with rfl | rfl
  all_goals exact if_pos ⟨rfl, hp⟩

theorem follows_patchJob (hy : Holds org job y) {p : JobPatch} (hp : p.Settles) :
    (recordProtocol x).Follows (Settled org job) y (onQueue (SqlJobQueue.patch job p)) := by
  intro r _
  refine ⟨if answered r then .owing org else .off, move_settled hy hp _, ?_⟩
  cases r with
  | ok rows => exact .inl rfl
  | error e => rfl

/-- The clock answers. -/
theorem follows_clock :
    (recordProtocol x).Follows (fun r z => z = y ∧ answered r = true) y clock := by
  intro r hr
  refine ⟨y, move_other y, ?_⟩
  cases r with
  | ok t => exact ⟨rfl, rfl⟩
  | error e => cases hr

theorem settled_clock {f : Instant → DataProg α}
    (hf : ∀ t, (recordProtocol x).Follows (Settled org job) y (f t)) :
    (recordProtocol x).Follows (Settled org job) y (clock.bind f) := by
  refine Protocol.follows_bind follows_clock ?_ ?_
  · rintro t z ⟨rfl, _⟩
    exact hf t
  · rintro e z ⟨_, hok⟩
    cases hok

theorem follows_complete (hy : Holds org job y) :
    (recordProtocol x).Follows (Settled org job) y (onQueue (SqlJobQueue.complete job)) := by
  unfold SqlJobQueue.complete
  rw [onQueue_bind]
  exact settled_clock fun _ => follows_patchJob hy ⟨by simp, rfl, rfl, by simp⟩

theorem follows_terminate (hy : Holds org job y) (reason : String) :
    (recordProtocol x).Follows (Settled org job) y (onQueue (SqlJobQueue.terminate job reason)) := by
  unfold SqlJobQueue.terminate
  rw [onQueue_bind]
  exact settled_clock fun _ => follows_patchJob hy ⟨by simp, rfl, rfl, by simp⟩

/-- A report of a failure settles the job, or the answer is lost. -/
theorem follows_fail (hy : Holds org job y) (reason : String) :
    (recordProtocol x).Follows (Settled org job) y (onQueue (SqlJobQueue.fail job reason)) := by
  unfold SqlJobQueue.fail SqlJobQueue.get
  rw [onQueue_bind, onQueue_bind]
  have hget : (recordProtocol x).Follows (fun r z => z = if answered r then y else .off) y
      ((onQueue (Queue.must "get" (.select job))).bind fun rows => onQueue (.ret (firstJob rows))) := by
    intro r _
    refine ⟨if answered r then y else .off, ?_, ?_⟩
    · cases r with
      | ok rows => exact move_other y
      | error e =>
        rcases hy with rfl | rfl
        all_goals rfl
    · cases r <;> rfl
  refine Protocol.follows_bind hget ?_ ?_
  · rintro current z rfl
    cases current with
    | none => exact .inr hy
    | some current =>
      simp only
      split
      · rw [onQueue_bind]
        exact settled_clock fun _ => follows_patchJob hy ⟨by simp, rfl, rfl, by simp⟩
      · exact follows_patchJob hy ⟨by simp, rfl, rfl, by simp⟩
  · rintro e z rfl
    rfl

/-- The row may be written by a delivery that holds its job or owes it the outcome. -/
theorem move_wrote (hy : y = .owing org ∨ Holds org job y) {p : DataStatusInput}
    (horg : p.organizationId = org) (hst : p.status ≠ .pending) :
    y.move (.wrote p) = some .off := by
  rcases hy with rfl | rfl | rfl
  all_goals exact if_pos ⟨horg, hst⟩

variable {j : Job DataJobPayload} {result : AdapterResult DataExecutionResult}

/-- **The applier of the record's kind** writes the row, and is done with it even if
its audit is refused. -/
theorem follows_outcomeApplier {kind : String} {rk : RecordKind} {op : String}
    {event : EngineStatus → String} {celebrate : OrganizationId → DataProg Unit}
    (hy : y = .owing org ∨ Holds org job y) (hkind : j.kind = kind)
    (hx : (⟨rk, j.payload.recordId⟩ : Record) = x) (horg : j.payload.organizationId = org)
    (hresult : Concluded result) (hcelebrate : ∀ org, (celebrate org).Only (Away x)) :
    (recordProtocol x).Follows (fun _ z => z = .off) y
      (outcomeApplier kind (fun p => must op (.patchRow rk p)) (⟨rk, ·⟩) event celebrate j
        result) := by
  unfold outcomeApplier
  rw [if_neg (not_not.mpr hkind)]
  refine Protocol.follows_bind follows_clock ?_ ?_
  · rintro finished z ⟨rfl, _⟩
    refine Protocol.follows_bind (Q := fun _ z => z = .off) ?_ ?_ (fun _ _ h => h)
    · intro r _
      refine ⟨.off, ?_, ?_⟩
      · have hs : sight x (.store (.patchRow rk (outcomePatch j.payload result finished))) r =
            .wrote (outcomePatch j.payload result finished) := if_pos hx
        refine (congrArg (Stage.move z) hs).trans (move_wrote hy horg ?_)
        rw [outcomePatch_status hresult]
        exact hresult.terminal.1
      · cases r <;> rfl
    · rintro _ z rfl
      refine follows_away (Prog.only_bind (only_must trivial) fun _ => ?_)
      split
      · exact hcelebrate _
      · trivial
  · rintro e z ⟨_, hok⟩
    cases hok

/-- The applier settles the row by what the handler concluded. -/
theorem follows_dataApplier (hy : y = .owing org ∨ Holds org job y)
    (hx : jobRecord j.kind j.payload = some x) (horg : j.payload.organizationId = org)
    (hresult : Concluded result) :
    (recordProtocol x).Follows (fun _ z => z = .off) y (dataApplier j result) := by
  unfold dataApplier
  by_cases hb : j.kind = backupJobKind
  · rw [hb, jobRecord_backup] at hx
    have hbackup : (recordProtocol x).Follows (fun _ z => z = .off) y (backupApplier j result) :=
      follows_outcomeApplier hy hb (Option.some.inj hx) horg hresult fun _ => only_must trivial
    refine Protocol.follows_bind hbackup ?_ (fun _ _ h => h)
    rintro _ z rfl
    have hnot : restoreApplier j result = .ret () :=
      if_pos (hb ▸ (by decide : backupJobKind ≠ restoreJobKind))
    rw [hnot]
    rfl
  · have hnot : backupApplier j result = .ret () := if_pos hb
    rw [hnot]
    have hr : j.kind = restoreJobKind := by
      by_contra hr
      rw [jobRecord, if_neg hb, if_neg hr] at hx
      cases hx
    rw [hr, jobRecord_restore] at hx
    show (recordProtocol x).Follows _ y (restoreApplier j result)
    exact follows_outcomeApplier hy hr (Option.some.inj hx) horg hresult fun _ => trivial

/-- A report to the queue, and the applier after it. -/
theorem follows_settle {p : DataProg Unit} {outcome : JobOutcome}
    (hp : (recordProtocol x).Follows (Settled org job) y p)
    (hx : jobRecord j.kind j.payload = some x) (horg : j.payload.organizationId = org)
    (hresult : Concluded result) :
    (recordProtocol x).Follows (fun _ z => ¬ z.Attends) y
      (p.bind fun _ => InProcessWorker.settle dataApplier j outcome result) := by
  refine Protocol.follows_bind hp ?_ ?_
  · intro _ z hz
    refine Protocol.follows_bind (Q := fun _ z => z = .off)
      (Protocol.follows_attempt (follows_dataApplier hz hx horg hresult)) ?_ ?_
    · rintro _ z rfl
      exact id
    · rintro _ z rfl
      exact id
  · rintro e z rfl
    exact id

theorem follows_finish {options : WorkerOptions} (hy : Holds org j.id y)
    (hx : jobRecord j.kind j.payload = some x) (horg : j.payload.organizationId = org)
    (hresult : Concluded result) :
    (recordProtocol x).Follows (fun _ z => ¬ z.Attends) y
      (InProcessWorker.finish dataPort options dataApplier j result) := by
  unfold InProcessWorker.finish
  simp only
  split
  · exact follows_settle (follows_complete hy) hx horg hresult
  split
  next hflight => exact absurd hflight (EngineStatus.terminal_iff.mp hresult.terminal)
  split
  · exact follows_settle (follows_terminate hy _) hx horg hresult
  · exact follows_settle (follows_fail hy _) hx horg hresult

/-- **A delivery of the record's job.** -/
theorem follows_deliver (d : DatabaseAdapter) (options : WorkerOptions)
    (hx : jobRecord j.kind j.payload = some x) (horg : j.payload.organizationId = org) :
    (recordProtocol x).Follows (fun _ z => ¬ z.Attends) (.loaded org j.id)
      (InProcessWorker.deliver dataPort options (handlers d) dataApplier j) := by
  have handled : ∀ handler, handlers d j.kind = some handler →
      (∀ ctx, (recordProtocol x).Follows (Hands org j.id) (.loaded org j.id)
        (handler j.payload ctx)) →
      (recordProtocol x).Follows (fun _ z => ¬ z.Attends) (.loaded org j.id)
        (InProcessWorker.deliver dataPort options (handlers d) dataApplier j) := by
    intro handler hsome h
    unfold InProcessWorker.deliver
    simp only [hsome]
    refine Protocol.follows_bind (Q := fun r z => match r with
      | .ok s => Hands org j.id s z
      | .error _ => False) (Protocol.follows_attempt (h _)) ?_ (fun _ _ h => h.elim)
    rintro outcome z ⟨hz, ha⟩
    cases outcome with
    | error reason => exact follows_settle (follows_fail hz _) hx horg (concluded_err (by decide))
    | ok result => exact follows_finish hz hx horg (ha _ rfl)
  by_cases hb : j.kind = backupJobKind
  · exact handled _ (if_pos hb) fun _ => follows_backupJobHandler d _ _
  by_cases hr : j.kind = restoreJobKind
  · exact handled _ ((if_neg hb).trans (if_pos hr)) fun _ => follows_restoreJobHandler d _ _
  · rw [jobRecord, if_neg hb, if_neg hr] at hx
    cases hx

end Own

/-! ## The tasks -/

/-- A program that ends with nothing left to do about the record. -/
abbrev Leaves (x : Record) (y : Stage) (p : DataProg α) : Prop :=
  (recordProtocol x).Follows (fun _ z => ¬ z.Attends) y p

theorem leaves_away {y : Stage} (hy : ¬ y.Attends) {p : DataProg α} (hp : p.Only (Away x)) :
    Leaves x y p :=
  Protocol.follows_mono (fun _ _ hz => hz ▸ hy) (follows_away hp)

theorem leaves_ignored {y : Stage} {p : DataProg α} (h : Leaves x y p) : Leaves x y (ignored p) :=
  Protocol.follows_bind h (fun _ _ hz => hz) (fun _ _ hz => hz)

/-- Go on after calls that are not about the record. -/
theorem leaves_bind {y : Stage} (hy : ¬ y.Attends) {p : DataProg α} {f : α → DataProg β}
    (hp : p.Only (Away x)) (hf : ∀ a, Leaves x y (f a)) : Leaves x y (p.bind f) := by
  refine Protocol.follows_bind (follows_away hp) ?_ ?_
  · rintro a z rfl
    exact hf a
  · rintro e z rfl
    exact hy

/-- The stage a claim leaves: a delivery of the record's job, of another, or none. -/
def Claimed (x : Record) : Except String (Option (Job DataJobPayload)) → Stage → Prop
  | .ok (some job), y =>
    if jobRecord job.kind job.payload = some x then y = .loaded job.payload.organizationId job.id
    else y = .elsewhere job.id
  | _, y => y = .idle

theorem sight_claim {w : String} {n : Nat} (rows : List (JobRow DataJobPayload)) :
    sight x (.queue (.claim w n)) (.ok rows) =
      match firstJob rows with
      | none => .other
      | some job =>
        if jobRecord job.kind job.payload = some x then .claimed job.payload.organizationId job.id
        else .taken job.id := rfl

/-- A claim is of the record's job, of another one, or of none. -/
theorem follows_claim (worker : String) (leaseMs : Nat) :
    (recordProtocol x).Follows (Claimed x) .idle (onQueue (SqlJobQueue.claim worker leaseMs)) := by
  unfold SqlJobQueue.claim
  rw [onQueue_bind]
  intro r _
  cases r with
  | error e => exact ⟨.idle, rfl, rfl⟩
  | ok rows =>
    cases hfirst : firstJob rows with
    | none =>
      refine ⟨.idle, ?_, ?_⟩
      · have hs := sight_claim (x := x) (w := worker) (n := SqlJobQueue.leaseSeconds leaseMs) rows
        rw [hfirst] at hs
        exact congrArg (Stage.move .idle) hs
      · show Claimed x (.ok (firstJob rows)) .idle
        rw [hfirst]
        rfl
    | some job =>
      refine ⟨if jobRecord job.kind job.payload = some x then
        .loaded job.payload.organizationId job.id else .elsewhere job.id, ?_, ?_⟩
      · have hs := sight_claim (x := x) (w := worker) (n := SqlJobQueue.leaseSeconds leaseMs) rows
        rw [hfirst] at hs
        refine (congrArg (Stage.move .idle) hs).trans ?_
        simp only
        split <;> rfl
      · show Claimed x (.ok (firstJob rows)) _
        rw [hfirst]
        simp only [Claimed]
        split <;> rfl

/-- **A tick of a worker.** -/
theorem leaves_workerTick (d : DatabaseAdapter) (options : WorkerOptions) :
    Leaves x .idle (workerTick d options) := by
  refine Protocol.follows_bind (follows_claim options.workerId options.leaseMs) ?_ ?_
  · intro claimed z hz
    cases claimed with
    | none =>
      obtain rfl : z = .idle := hz
      exact id
    | some job =>
      simp only [Claimed] at hz
      split at hz
      next hx =>
        subst hz
        exact Protocol.follows_bind (Q := fun _ z => ¬ Stage.Attends z) (follows_deliver d options hx rfl)
          (fun _ _ h => h) (fun _ _ h => h)
      next hx =>
        subst hz
        refine Protocol.follows_bind (Q := fun _ z => ¬ Stage.Attends z) ?_ (fun _ _ h => h) (fun _ _ h => h)
        refine Protocol.follows_mono ?_ (follows_aside (only_deliver d options hx))
        rintro r z rfl
        exact id
  · intro e z hz
    obtain rfl : z = .idle := hz
    exact id

/-! ## Requests -/

theorem only_checked {a : Except Failure α} : (checked a).Only P := by
  cases a <;> trivial

theorem only_authorizedResource (ctx : RequestContext) (org : OrganizationId) (id : DataResourceId)
    (c : Capability) : (authorizedResource ctx org id c).Only (Away x) := by
  unfold authorizedResource
  refine Prog.only_bind only_checked fun _ => Prog.only_bind (only_must trivial) fun found => ?_
  split <;> trivial

theorem only_assertWithinBudget (org : OrganizationId) (metric : String) :
    (assertWithinBudget org metric).Only (Away x) := by
  unfold assertWithinBudget
  refine Prog.only_bind (only_must trivial) fun refusal => ?_
  split <;> trivial

theorem only_restorableBackup (resource : DataResource) (backup : Option DataRow) :
    (restorableBackup resource backup).Only P := by
  unfold restorableBackup
  split
  · trivial
  · split <;> trivial

/-- The insert of a row: the record's, or another. -/
theorem follows_insertRow {op : String} (kind : RecordKind) (input : DataRowInput) :
    (recordProtocol x).Follows (fun r y => match r with
      | .ok row => y = if (⟨kind, row.id⟩ : Record) = x then .filed input.organizationId else .idle
      | .error _ => y = .idle) .idle (must op (.insertRow kind input)) := by
  intro r _
  cases r with
  | error e => exact ⟨.idle, rfl, rfl⟩
  | ok row =>
    refine ⟨if (⟨kind, row.id⟩ : Record) = x then .filed input.organizationId else .idle, ?_, rfl⟩
    show Stage.move .idle (if (⟨kind, row.id⟩ : Record) = x then .filed input.organizationId
      else .other) = _
    split <;> rfl

/-- The job a request enqueues for its row. -/
def jobOf (kind : String) (payload : DataJobPayload) : NewJob DataJobPayload where
  organizationId := payload.organizationId
  kind := kind
  payload := payload
  idempotencyKey := keyOf kind payload.recordId
  maxAttempts := SqlJobQueue.defaultMaxAttempts

theorem dispatched_jobOf (kind : String) (payload : DataJobPayload) :
    Dispatched (jobOf kind payload) := ⟨rfl, rfl, SqlJobQueue.isAttempts_default⟩

/-- A request that has its row enqueues its job; one for another row does so too. -/
theorem move_insert {kind : String} {payload : DataJobPayload} {row : Record}
    (hrow : jobRecord kind payload = some row) (r : Except String (List (JobRow DataJobPayload))) :
    (recordProtocol x).next (if row = x then .filed payload.organizationId else .idle)
      (.queue (.insert (jobOf kind payload))) r = some (if row = x then .off else .idle) := by
  have hs : sight x (.queue (.insert (jobOf kind payload))) r =
      if row = x then .dispatched (jobOf kind payload) else .enqueued (jobOf kind payload) := by
    show (if jobRecord kind payload = some x then _ else _) = _
    rw [hrow]
    simp only [Option.some.injEq]
  refine (congrArg (Stage.move _) hs).trans ?_
  split
  · exact if_pos ⟨dispatched_jobOf kind payload, rfl⟩
  · exact if_pos (dispatched_jobOf kind payload)

/-- **The dispatch** of a row's job, by the request that inserted the row. -/
theorem leaves_dispatch (ctx : RequestContext) {kind key : String} (event : String) {row : Record}
    {payload : DataJobPayload} (hrow : jobRecord kind payload = some row)
    (hkey : key = keyOf kind payload.recordId) :
    Leaves x (if row = x then .filed payload.organizationId else .idle)
      (dispatch ctx kind event key row payload) := by
  subst hkey
  have hoff : ¬ (if row = x then Stage.off else .idle).Attends := by
    split <;> exact id
  refine Protocol.follows_bind (Q := fun _ z => ¬ Stage.Attends z) ?_ ?_ (fun _ _ h => h)
  · have hinsert : (recordProtocol x).Follows (fun _ z => z = if row = x then .off else .idle)
        (if row = x then .filed payload.organizationId else .idle)
        (onQueue (Queue.must "enqueue" (.insert (jobOf kind payload)))) := by
      intro r _
      refine ⟨_, move_insert hrow r, ?_⟩
      cases r <;> rfl
    unfold SqlJobQueue.enqueue
    rw [onQueue_bind]
    refine Protocol.follows_bind hinsert ?_ ?_
    · rintro rows z rfl
      refine leaves_away hoff ?_
      split
      · trivial
      · unfold SqlJobQueue.findByKey
        rw [onQueue_bind, onQueue_bind]
        refine Prog.only_bind (Prog.only_bind (only_queue trivial) fun _ => trivial) fun found => ?_
        cases found <;> trivial
    · rintro e z rfl
      exact hoff
  · intro _ z hz
    exact leaves_away hz (only_must trivial)

/-- Insert the row, then dispatch its job. -/
theorem leaves_file {op : String} (ctx : RequestContext) {rk : RecordKind} {kind event : String}
    {input : DataRowInput} {payload : DataRow → DataJobPayload} {key : DataRow → String}
    (hrow : ∀ row, jobRecord kind (payload row) = some ⟨rk, row.id⟩)
    (hkey : ∀ row, key row = keyOf kind (payload row).recordId)
    (horg : ∀ row, (payload row).organizationId = input.organizationId) :
    Leaves x .idle ((must op (.insertRow rk input)).bind fun row =>
      (dispatch ctx kind event (key row) ⟨rk, row.id⟩ (payload row)).bind fun _ => .ret row) := by
  refine Protocol.follows_bind (follows_insertRow rk input) ?_ ?_
  · rintro row z rfl
    have h := leaves_dispatch (x := x) ctx event (hrow row) (hkey row)
    rw [horg row] at h
    exact Protocol.follows_bind h (fun _ _ hz => hz) (fun _ _ hz => hz)
  · rintro e z rfl
    exact id

theorem leaves_backupDataResource (ctx : RequestContext) (org : OrganizationId)
    (resource : DataResourceId) : Leaves x .idle (backupDataResource ctx org resource) := by
  unfold backupDataResource
  refine leaves_bind (y := .idle) id (only_authorizedResource ctx org resource _) fun resource => ?_
  split
  · exact id
  split
  · exact id
  refine leaves_bind (y := .idle) id (only_assertWithinBudget _ _) fun _ => ?_
  exact leaves_file ctx (fun _ => jobRecord_backup) (fun _ => rfl) (fun _ => rfl)

theorem leaves_restoreDataResource (ctx : RequestContext) (input : RestoreDataInput) :
    Leaves x .idle (restoreDataResource ctx input) := by
  unfold restoreDataResource
  refine leaves_bind (y := .idle) id (only_authorizedResource ctx _ _ _) fun resource => ?_
  split
  · exact id
  split
  · exact id
  split
  · exact id
  refine leaves_bind (y := .idle) id (only_must trivial) fun found => ?_
  refine leaves_bind (y := .idle) id (only_restorableBackup resource found) fun backup => ?_
  exact leaves_file ctx (fun _ => jobRecord_restore) (fun _ => rfl) (fun _ => rfl)

/-- **Every task follows the journey.** -/
theorem data_follows (d : DatabaseAdapter) (x : Record) (t : Task) :
    (recordProtocol x).Follows ((dataDuty x).ends t) ((dataDuty x).first t) (t.body d) := by
  cases t with
  | work options => exact leaves_ignored (leaves_workerTick d options)
  | reap =>
    refine leaves_ignored (leaves_bind (y := .idle) id (only_clock trivial) fun now => ?_)
    intro r _
    refine ⟨.idle, rfl, ?_⟩
    cases r <;> exact fun h => h
  | backup ctx org resource => exact leaves_ignored (leaves_backupDataResource ctx org resource)
  | restore ctx input => exact leaves_ignored (leaves_restoreDataResource ctx input)

end CloudWai.Data
