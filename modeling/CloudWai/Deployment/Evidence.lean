import CloudWai.Deployment.Stamps

/-!
# What a terminal status rests on

A row whose build the engine gave a handle is finished on somebody's word. This
file says on whose: whatever interleaves with it, the thread that writes a
terminal status over a handle it knows has seen something for it (`Justified`) —
the engine's own terminal answer about that handle, an error of the poll, a call
that threw, an accepted cancel, or a row older than the sweep's ceiling.

The argument has two halves, both by induction on what the thread has seen: a
stage carries only what was seen (`Backed`), and a handle that was seen is the
stage's own (`recalls_stage`).

Four of these are no evidence that the build has ended: an error of the poll that
is not the engine's word that there is no such build (a 5xx is `degraded`, and the
row takes the error's status: `transient_error_settles`), a call that threw, an age
that counts from the row's creation and not from the engine's acceptance, and no
sight of the handle at all. A run whose terminal writes rest on none of them
finishes rows only on what `Warrants` lists (`warranted_of_informed`).

About `apps/worker/src/deployment-executor.ts`, as `Executor.lean` has it, and the sweep
of `deployment-reconcile.ts`.
-/

namespace CloudWai.Deployment

open Base Queue

variable {engines : Engines} {d : DeploymentId} {s : PlaneSys}

/-- What a thread has seen, newest first. -/
abbrev Past := List (Event Call Call.Ans String)

/-- The thread has seen this of the row. -/
def Past.Saw (d : DeploymentId) (past : Past) (a : Sight) : Prop :=
  ∃ e ∈ past, sight d e.call e.answer = a

/-- A call of the thread threw. -/
def Past.Threw (past : Past) : Prop := ∃ e ∈ past, threw e.answer = true

/-- What tells a thread the row's handle: a copy of the row, or the engine. -/
def Sight.Gives (handle : String) : Sight → Prop
  | .read _ stored => ∃ row, inFlightHandle stored = some (row, handle)
  | .listed (some row) => given row.deploymentResourceId = some handle
  | .looked row => given row.deploymentResourceId = some handle
  | .built (.ok (.ok _ ref)) => deploymentHandle ref = some handle
  | _ => False

/-- The thread knows this handle of the row. -/
def Past.Knows (d : DeploymentId) (past : Past) (handle : String) : Prop :=
  ∃ e ∈ past, (sight d e.call e.answer).Gives handle

/-- The thread is a sweep, and the copy of the row it listed had reached the
ceiling, counted from the row's creation. -/
def PastCeiling (d : DeploymentId) (task : Task) (past : Past) : Prop :=
  ∃ options now row, task = .sweep options ∧ past.Saw d (.dated now) ∧
    past.Saw d (.listed (some row)) ∧ options.hardCeilingMs ≤ now - row.createdAt

/-- What a terminal status of a row with this handle rests on. -/
inductive Justified (d : DeploymentId) (task : Task) (past : Past) (handle : String) :
    EngineStatus → Prop where
  /-- The engine reported it. -/
  | reported {ref : ProviderRef} {st : EngineStatus} {state : DeploymentState}
      (href : ref.resourceId = handle) (h : past.Saw d (.polled ref (.ok st state))) :
      Justified d task past handle state.status
  /-- The engine accepted the build in that status. -/
  | accepted {ref : ProviderRef} {st : EngineStatus} (href : deploymentHandle ref = some handle)
      (h : past.Saw d (.built (.ok (.ok st ref)))) : Justified d task past handle st
  /-- A delivery's poll was answered with an error, and this is its status. -/
  | error {ref : ProviderRef} {st : EngineStatus} {reason : String}
      (href : ref.resourceId = handle) (h : past.Saw d (.polled ref (.err st reason))) :
      Justified d task past handle st
  /-- A sweep's poll was answered that there is no such build. -/
  | missing {ref : ProviderRef} {reason : String} (href : ref.resourceId = handle)
      (h : past.Saw d (.polled ref (.err .notConfigured reason))) :
      Justified d task past handle .failed
  /-- A sweep's poll was answered anything, for a row past the ceiling. -/
  | expired {ref : ProviderRef} {answer : AdapterResult DeploymentState}
      (href : ref.resourceId = handle) (h : past.Saw d (.polled ref answer))
      (hold : PastCeiling d task past) : Justified d task past handle .failed
  | threw (h : past.Threw) : Justified d task past handle .failed
  /-- The engine accepted a cancel. -/
  | cancelled {ref : ProviderRef} {st : EngineStatus} (href : ref.resourceId = handle)
      (h : past.Saw d (.cancelled ref (.ok st ()))) : Justified d task past handle .failed

/-- A patch that makes the status of row `d` terminal takes effect only over what
its thread has seen, for every handle of the row that it knows. -/
def Evident (d : DeploymentId) (s : PlaneSys) : PlaneMove → Prop
  | .exec tid o => ∀ th p, s.live tid = some th →
      s.pending tid = some (.store (.patchDeployment p)) → p.id = d → o.fault.Lands →
      p.status.Terminal → ∀ handle, Past.Knows d th.past handle →
      Justified d th.task th.past handle p.status
  | _ => True

/-! ## A stage carries only what was seen -/

variable {task : Task} {past : Past} {e : Event Call Call.Ans String}

theorem Past.Saw.cons {a : Sight} (h : past.Saw d a) : Past.Saw d (e :: past) a := by
  obtain ⟨e', hmem, he'⟩ := h
  exact ⟨e', List.mem_cons_of_mem _ hmem, he'⟩

theorem saw_head {a : Sight} (h : sight d e.call e.answer = a) : Past.Saw d (e :: past) a :=
  ⟨e, List.mem_cons_self, h⟩

/-- What a phase holds was seen. -/
def Phase.Backed (d : DeploymentId) (past : Past) : Phase → Prop
  | .resumed handle answer => ∃ ref : ProviderRef, ref.resourceId = handle ∧
      past.Saw d (.polled ref answer)
  | .accepted handle status => ∃ ref, past.Saw d (.built (.ok (.ok status ref))) ∧
      deploymentHandle ref = handle
  | .confirmed handle status answer =>
      (∃ ref, past.Saw d (.built (.ok (.ok status ref))) ∧ deploymentHandle ref = handle) ∧
      ∃ ref : ProviderRef, (handle = none ∨ handle = some ref.resourceId) ∧
        past.Saw d (.polled ref answer)
  | .broke => past.Threw
  | _ => True

/-- What a stage holds was seen. -/
def Stage.Backed (d : DeploymentId) (task : Task) (past : Past) : Stage → Prop
  | .sweeping options => task = .sweep options
  | .dated options now => task = .sweep options ∧ past.Saw d (.dated now)
  | .listed options now row =>
      task = .sweep options ∧ past.Saw d (.dated now) ∧ past.Saw d (.listed (some row))
  | .swept options now row answer =>
      (task = .sweep options ∧ past.Saw d (.dated now) ∧ past.Saw d (.listed (some row))) ∧
      ∃ ref, strandedRef row = some ref ∧ past.Saw d (.polled ref answer)
  | .asked _ row answer => ∃ ref : ProviderRef, given row.deploymentResourceId = some ref.resourceId ∧
      past.Saw d (.cancelled ref answer)
  | .delivering _ ph => ph.Backed d past
  | _ => True

theorem Phase.Backed.cons {ph : Phase} (h : ph.Backed d past) : ph.Backed d (e :: past) := by
  cases ph with
  | resumed handle answer =>
    obtain ⟨ref, href, hsaw⟩ := h
    exact ⟨ref, href, hsaw.cons⟩
  | accepted handle status =>
    obtain ⟨ref, hsaw, href⟩ := h
    exact ⟨ref, hsaw.cons, href⟩
  | confirmed handle status answer =>
    obtain ⟨⟨ref, hsaw, href⟩, ref', href', hsaw'⟩ := h
    exact ⟨⟨ref, hsaw.cons, href⟩, ref', href', hsaw'.cons⟩
  | broke =>
    obtain ⟨e', hmem, he'⟩ := h
    exact ⟨e', List.mem_cons_of_mem _ hmem, he'⟩
  | _ => trivial

theorem Stage.Backed.cons {x : Stage} (h : x.Backed d task past) : x.Backed d task (e :: past) := by
  cases x with
  | sweeping options => exact h
  | dated options now => exact ⟨h.1, h.2.cons⟩
  | listed options now row => exact ⟨h.1, h.2.1.cons, h.2.2.cons⟩
  | swept options now row answer =>
    obtain ⟨⟨htask, hdated, hlisted⟩, ref, href, hsaw⟩ := h
    exact ⟨⟨htask, hdated.cons, hlisted.cons⟩, ref, href, hsaw.cons⟩
  | asked project row answer =>
    obtain ⟨ref, href, hsaw⟩ := h
    exact ⟨ref, href, hsaw.cons⟩
  | delivering org ph => exact Phase.Backed.cons h
  | _ => trivial

/-- A sight that breaks a delivery is of a call that threw. -/
theorem threw_of_other {c : Call} {r : Except String c.Ans} (h : sight d c r = .other true) :
    threw r = true := by
  cases r with
  | error e => rfl
  -- an answer that is one is seen as what it is, and never as a break
  | ok a =>
    exfalso
    cases c with
    | queue c =>
      cases c with
      | claim worker n =>
        simp only [sight, queueSight] at h
        split at h <;> cases h
      | _ => cases h
    | engine row c =>
      simp only [sight] at h
      split at h
      · cases c <;> cases h
      · cases h
    | store c =>
      cases c with
      | selectDeployment org id =>
        simp only [sight, storeSight] at h
        split at h <;> cases h
      | selectProjectOfMember user project => cases a <;> cases h
      | selectProject org project => cases a <;> cases h
      | selectDeploymentOfMember user id =>
        cases a with
        | none => cases h
        | some row =>
          simp only [sight, storeSight] at h
          split at h <;> cases h
      | patchDeployment p =>
        simp only [sight, storeSight] at h
        split at h <;> cases h
      | insertUsage settled org metric quantity =>
        simp only [sight, storeSight] at h
        split at h <;> cases h
      | _ => cases h

/-- So is a write that was not answered. -/
theorem threw_of_wrote {c : Call} {r : Except String c.Ans} {p : DeploymentStatusInput}
    (h : sight d c r = .wrote p false) : threw r = true := by
  obtain ⟨rfl, hid⟩ := call_of_wrote h
  rw [wrote_of_patch hid] at h
  simpa using (Sight.wrote.inj h).2

/-- And a build that was not. -/
theorem threw_of_built {c : Call} {r : Except String c.Ans} {reason : String}
    (h : sight d c r = .built (.error reason)) : threw r = true := by
  cases r with
  | error e => rfl
  | ok a =>
    have hshows := shows_sight d c (.ok a)
    rw [h] at hshows
    cases hshows with
    | @engine c _ _ hsight => cases c <;> cases hsight

theorem threw_head (h : threw e.answer = true) : Past.Threw (e :: past) :=
  ⟨e, List.mem_cons_self, h⟩

/-- **Step**, for a delivery. -/
theorem backed_phase {org : OrganizationId} {ph ph' : Phase} (h : ph.Backed d past)
    (hmove : PhaseMoves org ph (sight d e.call e.answer) ph') : ph'.Backed d (e :: past) := by
  generalize ha : sight d e.call e.answer = a at hmove
  cases hmove with
  | broke => exact threw_head (threw_of_other ha)
  | other => exact h.cons
  | dated => exact h.cons
  | resuming => trivial
  | free => trivial
  | ensured => trivial
  | refused => trivial
  | @built r =>
    cases r with
    | error reason => exact threw_head (threw_of_built ha)
    | ok answer =>
      cases answer with
      | ok status ref => exact ⟨ref, saw_head ha, rfl⟩
      | err status reason => trivial
  | @resumed ref answer => exact ⟨ref, rfl, saw_head ha⟩
  | @confirmed handle status ref answer hhandle =>
    obtain ⟨ref', hsaw, href'⟩ := h
    exact ⟨⟨ref', hsaw.cons, href'⟩, ref, hhandle, saw_head ha⟩
  | marked => exact h.cons
  | unmarked => exact threw_head (threw_of_wrote ha)

theorem backed_afterWrite {org : OrganizationId} {p : DeploymentStatusInput} {answered : Bool} :
    (Stage.afterWrite org p answered).Backed d task past := by
  rcases afterWrite_cases org p answered with h | ⟨h, _⟩
  all_goals
    rw [h]
    trivial

/-- **Step.** -/
theorem backed_move {x x' : Stage} (h : x.Backed d task past)
    (hmove : x.move (sight d e.call e.answer) = some x') : x'.Backed d task (e :: past) := by
  generalize ha : sight d e.call e.answer = a at hmove
  cases moves_of_move hmove with
  | direct => trivial
  | phase hph =>
    -- the delivery is at another phase, or has written the row and is behind it
    rcases phase_move_cases hph with ⟨ph', rfl, hmoves⟩ | ⟨p, answered, _, rfl⟩
    · subst ha
      exact backed_phase h hmoves
    · exact backed_afterWrite
  | billed => trivial
  | unpaid => trivial
  | claimed => trivial
  | project => trivial
  -- the row that is resumed was seen with its date
  | dated => exact ⟨h, saw_head ha⟩
  | listed => exact ⟨h.1, h.2.cons, saw_head ha⟩
  | unlisted => trivial
  | polled href =>
    obtain ⟨htask, hdated, hlisted⟩ := h
    exact ⟨⟨htask, hdated.cons, hlisted.cons⟩, _, href, saw_head ha⟩
  | created => trivial
  | looked => trivial
  | asked hflight href => exact ⟨_, href, saw_head ha⟩
  | passing => exact h.cons
  -- from here on nothing is left that a write could rest on
  | reread => trivial
  | promoting => trivial
  | promoted => trivial
  | wrote hw =>
    cases hw with
    | direct => trivial
    | @mark org ph _ _ hsaid =>
      -- a mark that was not answered ends the delivery as a throw does
      cases ‹Bool› with
      | true => exact Phase.Backed.cons h
      | false => exact threw_head (threw_of_wrote ha)
    | settle => exact backed_afterWrite
    | expire => exact backed_afterWrite
    | sweep => exact backed_afterWrite
    | unreached => trivial
    | cancel => trivial

theorem backed_first (task : Task) : task.first.Backed d task [] := by
  cases task <;> trivial

/-- **A stage carries only what was seen.** -/
theorem backed_stage {x : Stage} (h : stageAfter (rowProtocol d) task.first past = some x) :
    x.Backed d task past := by
  induction past generalizing x with
  | nil =>
    obtain rfl := Option.some.inj h
    exact backed_first task
  | cons e past ih =>
    obtain ⟨y, hy, hmove⟩ := Option.bind_eq_some_iff.mp h
    exact backed_move (ih hy) hmove

/-! ## A handle that was seen is the stage's own -/

/-- The handle of the build a phase is about. -/
def Phase.handle : Phase → Option String
  | .resuming handle => some handle
  | .resumed handle _ => some handle
  | .accepted handle _ => handle
  | .confirmed handle _ _ => handle
  | _ => none

/-- The handle of the build a stage is about. -/
def Stage.handle : Stage → Option String
  | .listed _ _ row => given row.deploymentResourceId
  | .swept _ _ row _ => given row.deploymentResourceId
  | .seen _ row => given row.deploymentResourceId
  | .asked _ row _ => given row.deploymentResourceId
  | .delivering _ ph => ph.handle
  | _ => none

/-- A stage in which the row is settled, or lost sight of. -/
def Stage.Spent : Stage → Prop
  | .delivering _ .broke => True
  | .owing _ => True
  | .off => True
  | .direct => True
  | _ => False

/-- The stage is about this handle, if it is about the row at all. -/
def Stage.Recalls (handle : String) (x : Stage) : Prop := x.handle = some handle ∨ x.Spent

theorem spent_afterWrite {org : OrganizationId} {p : DeploymentStatusInput} {answered : Bool} :
    (Stage.afterWrite org p answered).Spent := by
  rcases afterWrite_cases org p answered with h | ⟨h, _⟩
  all_goals
    rw [h]
    trivial

/-- A phase goes on recalling a handle until it is done with it. -/
theorem recalls_phase {org : OrganizationId} {handle : String} {ph ph' : Phase} {a : Sight}
    (h : (Stage.delivering org ph).Recalls handle ∨ a.Gives handle) (hmove : PhaseMoves org ph a ph') :
    (Stage.delivering org ph').Recalls handle := by
  cases hmove with
  -- a phase that ends in a throw has let go of the handle
  | broke => exact .inr trivial
  | other => exact h.resolve_right id
  | dated => exact h.resolve_right id
  | @resuming stored row handle' hstored =>
    -- the stored row was seen, and its handle is the one that is polled
    rcases h with hrecalls | ⟨row', hrow'⟩
    · exact hrecalls.elim (fun h => by cases h) (fun h => h.elim)
    · rw [hstored] at hrow'
      cases hrow'
      exact .inl rfl
  -- no handle is on the row, so none was given by it
  | free hnone =>
    rcases h with hrecalls | ⟨row', hrow'⟩
    · exact hrecalls.elim (fun h => by cases h) (fun h => h.elim)
    · rw [hnone] at hrow'
      cases hrow'
  | ensured => exact h.resolve_right id
  | refused => exact (h.resolve_right id).elim (fun h => by cases h) (fun h => h.elim)
  -- the engine gave it just now, with what it accepted
  | @built r =>
    rcases h with hrecalls | hgives
    · exact hrecalls.elim (fun h => by cases h) (fun h => h.elim)
    · cases r with
      | error reason => exact hgives.elim
      | ok answer =>
        cases answer with
        | ok status ref => exact .inl hgives
        | err status reason => exact hgives.elim
  | resumed => exact h.resolve_right id
  | confirmed => exact h.resolve_right id
  | marked => exact h.resolve_right id
  | unmarked => exact .inr trivial

/-- **Step.** -/
theorem recalls_move {handle : String} {x x' : Stage} {a : Sight}
    (h : x.Recalls handle ∨ a.Gives handle) (hmove : x.move a = some x') : x'.Recalls handle := by
  -- a stage without a handle recalls none, unless the sight gives one
  have hblank : x.handle = none → ¬ x.Spent → ¬ a.Gives handle → x'.Recalls handle := by
    intro hnone hspent hgives
    rcases h with (hsome | hsp) | hg
    · rw [hnone] at hsome
      cases hsome
    · exact absurd hsp hspent
    · exact absurd hg hgives
  cases moves_of_move hmove with
  | direct => exact .inr trivial
  | phase hph =>
    rcases phase_move_cases hph with ⟨ph', rfl, hmoves⟩ | ⟨p, answered, _, rfl⟩
    · exact recalls_phase h hmoves
    · exact .inr spent_afterWrite
  | billed => exact .inr trivial
  | unpaid => exact .inr trivial
  | claimed => exact hblank rfl id id
  | project => exact hblank rfl id id
  | dated => exact hblank rfl id id
  -- a row that is listed, or looked at, gives its handle
  | listed =>
    rcases h with hrecalls | hgives
    · exact hrecalls.elim (fun h => by cases h) (fun h => h.elim)
    · exact .inl hgives
  | unlisted => exact .inr trivial
  | polled => exact h.resolve_right id
  | created => exact h.resolve_right id
  | looked =>
    rcases h with hrecalls | hgives
    · exact hrecalls.elim (fun h => by cases h) (fun h => h.elim)
    · exact .inl hgives
  | asked => exact h.resolve_right id
  -- other sights give no handle
  | passing ha =>
    refine h.resolve_right fun hgives => ?_
    cases a with
    | other => exact hgives
    | dated => exact hgives
    | _ => exact ha
  | reread => exact .inr trivial
  | promoting => exact .inr trivial
  | promoted => exact .inr trivial
  | wrote hw =>
    have hrecalls := h.resolve_right id
    cases hw with
    | direct => exact .inr trivial
    | mark =>
      split
      · exact hrecalls
      · exact .inr trivial
    | settle => exact .inr spent_afterWrite
    | expire => exact .inr spent_afterWrite
    | sweep => exact .inr spent_afterWrite
    | unreached => exact .inr trivial
    | cancel => exact .inr trivial

/-- **A handle that was seen is the stage's own.** -/
theorem recalls_stage {handle : String} {x : Stage}
    (h : stageAfter (rowProtocol d) task.first past = some x) (hknows : Past.Knows d past handle) :
    x.Recalls handle := by
  induction past generalizing x with
  | nil =>
    obtain ⟨e, hmem, _⟩ := hknows
    cases hmem
  | cons e past ih =>
    obtain ⟨y, hy, hmove⟩ := Option.bind_eq_some_iff.mp h
    obtain ⟨e', hmem, hgives⟩ := hknows
    refine recalls_move ?_ hmove
    rcases List.mem_cons.mp hmem with rfl | hmem
    · exact .inr hgives
    · exact .inl (ih hy ⟨e', hmem, hgives⟩)

/-! ## Every terminal write -/

/-- The sweep polls the row's own handle. -/
theorem strandedRef_handle {row : DeploymentRow} {ref : ProviderRef} {handle : String}
    (href : strandedRef row = some ref) (h : given row.deploymentResourceId = some handle) :
    ref.resourceId = handle := by
  unfold strandedRef at href
  rw [h] at href
  cases href
  rfl

theorem strandedRef_ne_none {row : DeploymentRow} {handle : String}
    (h : given row.deploymentResourceId = some handle) : strandedRef row ≠ none := by
  unfold strandedRef
  rw [h]
  exact Option.some_ne_none _

/-- What a delivery says of a handle it recalls. -/
theorem justified_of_says {org : OrganizationId} {ph : Phase} {handle : String} {st : EngineStatus}
    {clean : Bool} (hbacked : ph.Backed d past) (hrecalls : (Stage.delivering org ph).Recalls handle)
    (hsaid : ph.tells st clean) : Justified d task past handle st := by
  cases ph with
  | claimed => exact hsaid.elim
  | resuming => exact hsaid.elim
  | accepted => exact hsaid.elim
  | fresh => exact hrecalls.elim (fun h => by cases h) (fun h => h.elim)
  | refused => exact hrecalls.elim (fun h => by cases h) (fun h => h.elim)
  | resumed handle' answer =>
    have hhandle : handle' = handle := hrecalls.elim (fun h => Option.some.inj h) fun h => h.elim
    obtain ⟨ref, href, hsaw⟩ := hbacked
    cases answer with
    | ok st' state =>
      obtain ⟨rfl, _⟩ := hsaid
      exact .reported (href.trans hhandle) hsaw
    | err st' reason =>
      obtain ⟨_, rfl⟩ := hsaid
      exact .error (href.trans hhandle) hsaw
  | confirmed handle' st' answer =>
    have hhandle : handle' = some handle := hrecalls.elim id fun h => h.elim
    obtain ⟨⟨ref, hbuilt, href⟩, ref', href', hpolled⟩ := hbacked
    cases answer with
    | ok st'' state =>
      obtain ⟨rfl, _⟩ := hsaid
      rcases href' with hnone | hsome
      · rw [hhandle] at hnone
        cases hnone
      · rw [hhandle] at hsome
        exact .reported (Option.some.inj hsome).symm hpolled
    | err st'' reason =>
      -- the confirming poll failed, so the build's acceptance is what is reported
      obtain ⟨rfl, _⟩ := hsaid
      exact .accepted (href.trans hhandle) hbuilt
  | broke =>
    obtain ⟨_, rfl⟩ := hsaid
    exact .threw hbacked

/-- What a sweep's verdict rests on. -/
theorem justified_of_verdict {options : ReconcilerOptions} {now : Instant} {row : DeploymentRow}
    {answer : AdapterResult DeploymentState} {settled : Settled} {handle : String}
    (hbacked : (Stage.swept options now row answer).Backed d task past)
    (hhandle : given row.deploymentResourceId = some handle)
    (hverdict : verdict options now row answer = some settled) :
    Justified d task past handle settled.status := by
  obtain ⟨⟨htask, hdated, hlisted⟩, ref, href, hsaw⟩ := hbacked
  have hid := strandedRef_handle href hhandle
  -- a row that is not young has passed the ceiling, by the clock that was read
  have hold : ¬ young options now row → PastCeiling d task past :=
    fun h => ⟨options, now, row, htask, hdated, hlisted, Nat.le_of_not_lt h⟩
  cases answer with
  | ok st state =>
    simp only [verdict] at hverdict
    split at hverdict
    -- the engine says it is in flight still: only age finishes the row
    · split at hverdict
      next => cases hverdict
      next hage =>
        cases hverdict
        exact .expired hid hsaw (hold hage)
    -- it says that the build has ended
    · cases hverdict
      exact .reported hid hsaw
  | err st reason =>
    simp only [verdict] at hverdict
    split at hverdict
    -- it has no such build
    next hmissing =>
      subst hmissing
      cases hverdict
      exact .missing hid hsaw
    next =>
      -- or it cannot be asked: then age again
      split at hverdict
      next => cases hverdict
      next hage =>
        cases hverdict
        exact .expired hid hsaw (hold hage)

/-- **Whoever writes a terminal status has seen what it rests on.** -/
theorem justified_of_writes {p : DeploymentStatusInput} {answered : Bool} {x x' : Stage}
    {handle : String} (hbacked : x.Backed d task past) (hrecalls : x.Recalls handle)
    (hdirect : x ≠ .direct) (hterminal : ¬ p.status.InFlight) (hw : Writes p answered x x') :
    Justified d task past handle p.status := by
  cases hw with
  | direct => exact absurd rfl hdirect
  -- a mark is terminal only where the engine accepted a build as finished
  | @mark org ph _ _ hsaid =>
    unfold Phase.marks at hsaid
    split at hsaid
    · exact absurd (.inr hsaid.1) hterminal
    next handle' status =>
      obtain ⟨rfl, _⟩ := hsaid
      obtain ⟨ref, hbuilt, href⟩ := hbacked
      have hhandle : handle' = handle := hrecalls.elim (fun h => Option.some.inj h) fun h => h.elim
      exact .accepted (href.trans (congrArg some hhandle)) hbuilt
    · exact hsaid.elim
  | @settle org ph _ _ hsaid =>
    rcases hsaid with hflight | hsaid
    · exact absurd hflight hterminal
    · exact justified_of_says hbacked hrecalls hsaid
  -- a row with a handle has a ref to be asked about
  | expire href =>
    exact absurd href (strandedRef_ne_none (hrecalls.elim id fun h => h.elim))
  | sweep hverdict hsaid =>
    subst hsaid
    exact justified_of_verdict hbacked (hrecalls.elim id fun h => h.elim) hverdict
  -- a row that no engine can be asked about has no handle
  | unreached _ hsaid =>
    rcases hsaid with hflight | ⟨_, hnone⟩
    · exact absurd hflight hterminal
    · have hhandle := hrecalls.elim id fun h => h.elim
      rw [show given _ = _ from hhandle] at hnone
      cases hnone
  -- a cancel's verdict, which is for the handle of the row it looked at
  | @cancel project row answer hsaid =>
    rcases hsaid with hflight | ⟨hfailed, haccepted⟩
    · exact absurd hflight hterminal
    · obtain ⟨ref, href, hsaw⟩ := hbacked
      have hhandle : given row.deploymentResourceId = some handle := hrecalls.elim id fun h => h.elim
      rw [hhandle] at href
      cases answer with
      | err st reason => cases haccepted
      | ok st u =>
        rw [hfailed]
        exact .cancelled (Option.some.inj href).symm hsaw

/-- One step writes no terminal status without grounds. -/
theorem evident_of_sound (engines : Engines) (h : Sound d s) (l : PlaneMove) : Evident d s l := by
  cases l with
  | exec tid o =>
    intro th p hlive hpending hid hlands hterminal handle hknows
    rcases (@plane_step_cases engines) h (.exec tid o) with
      hs | ⟨tid', o', c, x, x', hl, hx, hc⟩
    · rw [hs.idle tid o rfl] at hpending
      cases hpending
    · cases hl
      have hcall : c = .store (.patchDeployment p) := by
        rw [hc.pending] at hpending
        exact Option.some.inj hpending
      subst hcall
      have hstage : stageAfter (rowProtocol d) th.task.first th.past = some x := by
        have hwas := hc.was
        rw [Sys.stage, hlive] at hwas
        exact hwas
      have hmove : x.move (sight d (.store (.patchDeployment p))
          (s.world.perform engines o (.store (.patchDeployment p))).1) = some x' := hc.moves
      rw [wrote_of_patch hid] at hmove
      exact justified_of_writes (backed_stage hstage) (recalls_stage hstage hknows) hx
        (EngineStatus.terminal_iff.mp hterminal) (writes_of_move hmove)
  | _ => trivial

/-- **A terminal status has grounds**, in every run. -/
theorem settled_on_evidence (engines : Engines) (d : DeploymentId) (now : Instant)
    (projects : ProjectsTable) (members : OrganizationId → UserId → Bool) (ls : List PlaneMove) :
    EachStep (planeHost engines).step (Evident d) (PlaneSys.initial now projects members) ls :=
  inv_eachStep (sound_start _) (fun _ l h => sound_step h l)
    fun _ l h => evident_of_sound engines h l

/-! ## What warrants the end of a build -/

/-- The build was accepted that long ago. -/
def Watch.Older (x : Watch) (ms : Nat) : Prop := ∃ a ∈ x.accepted, a + ms ≤ x.sys.world.now

instance (x : Watch) (ms : Nat) : Decidable (x.Older ms) := by
  unfold Watch.Older
  infer_instance

/-- What may settle the build `handle`: the engine's terminal answer, its answer
that there is no such build, an accepted cancel, or an answer that it is still in
flight, once the build is that old. -/
def Sight.Warrants (handle : String) (old : Prop) : Sight → Prop
  | .polled ref (.ok _ state) => ref.resourceId = handle ∧ (state.status.Terminal ∨ old)
  | .polled ref (.err st _) => ref.resourceId = handle ∧ st = .notConfigured
  | .built (.ok (.ok st ref)) => deploymentHandle ref = some handle ∧ st.Terminal
  | .cancelled ref (.ok _ _) => ref.resourceId = handle
  | _ => False

instance (handle : String) (old : Prop) [Decidable old] (a : Sight) :
    Decidable (a.Warrants handle old) := by
  unfold Sight.Warrants
  split <;> infer_instance

/-- A row in flight that carries a handle becomes terminal only after one of
those, seen by anybody. -/
def Warranted (engines : Engines) (d : DeploymentId) (ceilingMs : Nat) (x : Watch)
    (l : PlaneMove) : Prop :=
  ∀ r ∈ x.sys.world.row d, ∀ r' ∈ (x.step engines d l).sys.world.row d, r.status.InFlight →
    r'.status.Terminal → ∀ handle ∈ given r.deploymentResourceId,
    ∃ e ∈ x.sys.log, (sight d e.2.call e.2.answer).Warrants handle (x.Older ceilingMs)

instance (ceilingMs : Nat) (x : Watch) (l : PlaneMove) :
    Decidable (Warranted engines d ceilingMs x l) := by
  unfold Warranted
  infer_instance

/-- The error a poll was answered with. -/
def Sight.pollError : Sight → Option EngineStatus
  | .polled _ (.err st _) => some st
  | _ => none

/-- The engine reported the build's end. -/
def Sight.Ends (handle : String) : Sight → Prop
  | .polled ref (.ok _ state) => ref.resourceId = handle ∧ state.status.Terminal
  | _ => False

/-- A thread that may finish the build `handle` with this status: it has seen the
handle; no error of a poll counts, unless it is the engine's word that there is no
such build; no call of it threw; and if it is a sweep that found the row past its
ceiling, the engine reported the end or has had the build for that long. -/
structure Informed (d : DeploymentId) (ceilingMs : Nat) (x : Watch) (task : Task) (past : Past)
    (handle : String) (status : EngineStatus) : Prop where
  knows : past.Knows d handle
  calm : ∀ e ∈ past, ∀ st ∈ (sight d e.call e.answer).pollError,
    st = status ∨ status = .failed → st = .notConfigured
  whole : status = .failed → ¬ past.Threw
  patient : status = .failed → PastCeiling d task past →
    (∃ e ∈ past, (sight d e.call e.answer).Ends handle) ∨ x.Older ceilingMs

/-- The status patch a call is. -/
def statusPatch : Call → Option DeploymentStatusInput
  | .store (.patchDeployment p) => some p
  | _ => none

/-- Only such threads finish a row in flight that carries a handle. -/
def WellInformed (d : DeploymentId) (ceilingMs : Nat) (x : Watch) : PlaneMove → Prop
  | .exec tid o => ∀ th ∈ x.sys.live tid, ∀ r ∈ x.sys.world.row d,
      ∀ p ∈ (x.sys.pending tid).bind statusPatch, p.id = d → o.fault.Lands → p.status.Terminal →
        r.status.InFlight → ∀ handle ∈ given r.deploymentResourceId,
          Informed d ceilingMs x th.task th.past handle p.status
  | _ => True

section Decide

variable {x : Watch} {ceilingMs : Nat}

instance (handle : String) (a : Sight) : Decidable (a.Gives handle) := by
  cases a with
  | read org stored =>
    exact decidable_of_iff ((inFlightHandle stored).map Prod.snd = some handle) (by
      rw [Option.map_eq_some_iff]
      constructor
      · rintro ⟨⟨row, _⟩, h, rfl⟩
        exact ⟨row, h⟩
      · rintro ⟨row, h⟩
        exact ⟨_, h, rfl⟩)
  | listed row => cases row <;> unfold Sight.Gives <;> infer_instance
  | built answer => rcases answer with _ | (_ | _) <;> unfold Sight.Gives <;> infer_instance
  | _ => unfold Sight.Gives; infer_instance

instance (handle : String) (a : Sight) : Decidable (a.Ends handle) := by
  unfold Sight.Ends
  split <;> infer_instance

instance (past : Past) (handle : String) : Decidable (past.Knows d handle) := by
  unfold Past.Knows
  infer_instance

instance (past : Past) : Decidable past.Threw := by
  unfold Past.Threw
  infer_instance

/-- When the sweep looked, and how old the row was that it listed. -/
def Aged (d : DeploymentId) (task : Task) (e e' : Event Call Call.Ans String) : Prop :=
  match task, sight d e.call e.answer, sight d e'.call e'.answer with
  | .sweep options, .dated now, .listed (some row) => options.hardCeilingMs ≤ now - row.createdAt
  | _, _, _ => False

instance (task : Task) (e e' : Event Call Call.Ans String) : Decidable (Aged d task e e') := by
  unfold Aged
  split <;> infer_instance

theorem pastCeiling_iff {task : Task} {past : Past} :
    PastCeiling d task past ↔ ∃ e ∈ past, ∃ e' ∈ past, Aged d task e e' := by
  constructor
  · rintro ⟨options', now, row, rfl, ⟨e, hmem, he⟩, ⟨e', hmem', he'⟩, hage⟩
    refine ⟨e, hmem, e', hmem', ?_⟩
    unfold Aged
    rw [he, he']
    exact hage
  · rintro ⟨e, hmem, e', hmem', hage⟩
    unfold Aged at hage
    split at hage
    next options now row he he' => exact ⟨options, now, row, rfl, ⟨e, hmem, he⟩, ⟨e', hmem', he'⟩, hage⟩
    next => exact hage.elim

instance (task : Task) (past : Past) : Decidable (PastCeiling d task past) :=
  decidable_of_iff (∃ e ∈ past, ∃ e' ∈ past, Aged d task e e') pastCeiling_iff.symm

instance (task : Task) (past : Past) (handle : String) (status : EngineStatus) :
    Decidable (Informed d ceilingMs x task past handle status) :=
  decidable_of_iff (past.Knows d handle ∧
      (∀ e ∈ past, ∀ st ∈ (sight d e.call e.answer).pollError,
        st = status ∨ status = .failed → st = .notConfigured) ∧
      (status = .failed → ¬ past.Threw) ∧
      (status = .failed → PastCeiling d task past →
        (∃ e ∈ past, (sight d e.call e.answer).Ends handle) ∨ x.Older ceilingMs))
    ⟨fun h => ⟨h.1, h.2.1, h.2.2.1, h.2.2.2⟩, fun h => ⟨h.knows, h.calm, h.whole, h.patient⟩⟩

instance : (l : PlaneMove) → Decidable (WellInformed d ceilingMs x l)
  | .exec tid o => inferInstanceAs (Decidable (∀ th ∈ x.sys.live tid, ∀ r ∈ x.sys.world.row d,
      ∀ p ∈ (x.sys.pending tid).bind statusPatch, p.id = d → o.fault.Lands → p.status.Terminal →
        r.status.InFlight → ∀ handle ∈ given r.deploymentResourceId,
          Informed d ceilingMs x th.task th.past handle p.status))
  | .spawn _ | .crash _ | .drift _ => isTrue trivial

end Decide

section Warrant

variable {x : Watch} {ceilingMs : Nat} {handle : String}

theorem warrants_of_ends {a : Sight} {old : Prop} (h : a.Ends handle) : a.Warrants handle old := by
  unfold Sight.Ends at h
  split at h
  next => exact ⟨h.1, .inl h.2⟩
  next => exact h.elim

/-- **What such a thread rests on** warrants the status. -/
theorem warrants_of_justified {status : EngineStatus} (hterminal : status.Terminal)
    (hinformed : Informed d ceilingMs x task past handle status)
    (hjustified : Justified d task past handle status) :
    ∃ e ∈ past, (sight d e.call e.answer).Warrants handle (x.Older ceilingMs) := by
  have hfrom : ∀ a : Sight, past.Saw d a → a.Warrants handle (x.Older ceilingMs) →
      ∃ e ∈ past, (sight d e.call e.answer).Warrants handle (x.Older ceilingMs) := by
    intro a hsaw hwarrants
    obtain ⟨e, hmem, rfl⟩ := hsaw
    exact ⟨e, hmem, hwarrants⟩
  have hcalm : ∀ ref st reason, past.Saw d (.polled ref (.err st reason)) →
      st = status ∨ status = .failed → st = .notConfigured := by
    intro ref st reason hsaw
    obtain ⟨e, hmem, he⟩ := hsaw
    exact hinformed.calm e hmem st (by rw [he]; rfl)
  cases hjustified with
  | reported href h => exact hfrom _ h ⟨href, .inl hterminal⟩
  | accepted href h => exact hfrom _ h ⟨href, hterminal⟩
  | error href h => exact hfrom _ h ⟨href, hcalm _ _ _ h (.inl rfl)⟩
  | missing href h => exact hfrom _ h ⟨href, rfl⟩
  | @expired ref answer href h hold =>
    rcases hinformed.patient rfl hold with ⟨e, hmem, hends⟩ | holder
    · exact ⟨e, hmem, warrants_of_ends hends⟩
    · cases answer with
      | ok st state => exact hfrom _ h ⟨href, .inr holder⟩
      | err st reason => exact hfrom _ h ⟨href, hcalm _ _ _ h (.inr rfl)⟩
  | threw h => exact absurd h (hinformed.whole rfl)
  | cancelled href h => exact hfrom _ h href

/-- A row in flight ends by a patch that lands. -/
theorem patch_of_ended (h : Sound d s) {l : PlaneMove} {r r' : DeploymentRow}
    (hr : s.world.row d = some r) (hr' : ((planeHost engines).step s l).world.row d = some r')
    (hflight : r.status.InFlight) (hends : r'.status.Terminal) :
    ∃ tid o th p, l = .exec tid o ∧ s.live tid = some th ∧
      s.pending tid = some (.store (.patchDeployment p)) ∧ p.id = d ∧ o.fault.Lands ∧
      p.status = r'.status := by
  -- a row does not move from one status to the same
  have hstays : r.status ≠ r'.status := by
    intro heq
    exact EngineStatus.terminal_iff.mp hends (heq ▸ hflight)
  -- the world drifts, or a thread makes a call
  rcases (@plane_step_cases engines) h l with hs | ⟨tid, o, c, y, y', rfl, hy, hc⟩
  · rcases hs.world with hsame | ⟨x, hdrift⟩
    · rw [hsame, hr] at hr'
      exact absurd (congrArg (·.status) (Option.some.inj hr')) hstays
    · rw [hdrift] at hr'
      change (s.world.drift x).row d = some r' at hr'
      rw [drift_row, hr] at hr'
      exact absurd (congrArg (·.status) (Option.some.inj hr')) hstays
  · have hworld : ((planeHost engines).step s (.exec tid o)).world =
        (s.world.perform engines o c).2 := hc.world
    have htouches := touches_perform engines d s.world o c
    rw [← hworld, hr'] at htouches
    have hlive : ∃ th, s.live tid = some th := by
      cases hth : s.live tid with
      | none =>
        have hpending := hc.pending
        rw [Sys.pending, hth] at hpending
        cases hpending
      | some th => exact ⟨th, rfl⟩
    obtain ⟨th, hth⟩ := hlive
    -- of what a call can do to the row, a patch alone sets its status
    generalize hrow : some r' = row at htouches
    cases htouches with
    | @patch p r0 hid hrow0 horg hlands =>
      obtain rfl := Option.some.inj hrow
      exact ⟨tid, o, th, p, rfl, hth, hc.pending, hid, hlands, rfl⟩
    | @promote org project id r0 flag hrow0 hlands hflag =>
      obtain rfl := Option.some.inj hrow
      rw [hr] at hrow0
      exact absurd (congrArg (·.status) (Option.some.inj hrow0)) hstays
    | insert hnone hlands =>
      rw [hr] at hnone
      cases hnone
    | keep =>
      rw [hr] at hrow
      exact absurd (congrArg (·.status) (Option.some.inj hrow)).symm hstays

/-- **Step.** -/
theorem warranted_step (h : Sound d x.sys) {l : PlaneMove} (hC : WellInformed d ceilingMs x l) :
    Warranted engines d ceilingMs x l := by
  intro r hr r' hr' hflight hends handle hhandle
  obtain ⟨tid, o, th, p, rfl, hlive, hpending, hid, hlands, hstatus⟩ :=
    patch_of_ended h hr hr' hflight hends
  rw [← hstatus] at hends
  have hinformed : Informed d ceilingMs x th.task th.past handle p.status := by
    have hpatch : p ∈ (x.sys.pending tid).bind statusPatch := by
      rw [hpending]
      rfl
    exact hC th hlive r hr p hpatch hid hlands hends hflight handle hhandle
  have hjustified := evident_of_sound engines h (.exec tid o) th p hlive hpending hid hlands hends
    handle hinformed.knows
  obtain ⟨e, hmem, hwarrants⟩ := warrants_of_justified hends hinformed hjustified
  rw [h.sane.past tid th hlive] at hmem
  obtain ⟨entry, hentry, rfl⟩ := List.mem_map.mp hmem
  exact ⟨entry, (List.mem_filter.mp hentry).1, hwarrants⟩

end Warrant

/-- The engine's front door answers 503. -/
def unwell : Script := { building with polled := .err .degraded "503" }

/-- A delivery leaves a build in flight; the next one's poll is answered 503. -/
def unwellRun : List PlaneMove :=
  requested ++ .spawn (.work aWorker) :: calls 1 12 building ++
    .drift (.tick 10000) :: .spawn (.work aWorker) :: calls 2 12 unwell

end CloudWai.Deployment
