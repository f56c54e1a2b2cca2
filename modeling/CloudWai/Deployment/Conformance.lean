import CloudWai.Deployment.Delivery

/-!
# The code follows the protocol

The tasks of the worker and the API, checked against the automaton of `Journey`.
`plane_typed` and `open_typed` are what the results about whole runs need to know
of the programs: in every state of every run, each live thread is at a stage of
the automaton and follows it from there.
-/

namespace CloudWai.Deployment

open Base Queue ControlPlaneStore

variable {d : DeploymentId} {α β : Type}

/-! ## The worker's tick -/

theorem paid_ignored {x : Stage} {p : PlaneProg α} (h : (rowProtocol d).Follows Paid x p) :
    (rowProtocol d).Follows Paid x (ignored p) :=
  Protocol.follows_bind h (fun _ _ hx => hx) (fun _ _ hx => hx)

/-- A calm stage owes nothing. -/
theorem paid_calm {x : Stage} (hx : x.Calm) {p : PlaneProg α} (hp : p.Only (Quiet d)) :
    (rowProtocol d).Follows Paid x p := by
  refine Protocol.follows_mono ?_ (follows_calm hx hp)
  intro _ x' hx' org howing
  rw [hx'] at howing
  rw [howing] at hx
  exact hx.elim

/-- A claim starts the row's delivery if the job it gets is the row's. -/
theorem follows_claim (worker : String) (leaseMs : Nat) :
    (rowProtocol d).Follows (fun r x => match r with
      | .ok (some job) =>
        if job.kind = deploymentJobKind ∧ job.payload.deploymentId = d then
          x = .delivering job.payload.organizationId .claimed
        else x = .idle
      | _ => x = .idle) .idle (onQueue (SqlJobQueue.claim worker leaseMs)) := by
  intro r _
  cases r with
  | error e => exact ⟨.idle, rfl, rfl⟩
  | ok rows =>
    change ∃ x', Stage.move .idle
      (queueSight d (.claim worker (SqlJobQueue.leaseSeconds leaseMs)) (.ok rows)) = some x' ∧ _
    unfold queueSight claimedFor
    dsimp only
    show ∃ x', _ ∧ Protocol.Follows _ _ x' (Prog.ret (firstJob rows))
    cases firstJob rows with
    | none => exact ⟨.idle, rfl, rfl⟩
    | some job =>
      simp only [Protocol.Follows]
      by_cases hd : job.kind = deploymentJobKind ∧ job.payload.deploymentId = d
      · simp [hd, Stage.move]
      · simp [hd, Stage.move]

/-- **A tick** is a delivery of the row's job, or nothing to the row. -/
theorem paid_tick (engines : Engines) (options : WorkerOptions) :
    (rowProtocol d).Follows Paid .idle (workerTick engines options) := by
  refine Protocol.follows_bind (follows_claim options.workerId options.leaseMs) ?_ ?_
  · intro claimed x hx
    cases claimed with
    | none =>
      obtain rfl := hx
      exact fun _ h => Stage.noConfusion h
    | some job =>
      simp only at hx
      split at hx
      next hd =>
        subst hx
        exact Protocol.follows_bind (Q := Paid) (paid_deliver engines options hd.1 hd.2 rfl)
          (fun _ _ h => h) (fun _ _ h => h)
      next hd =>
        subst hx
        refine Protocol.follows_bind (Q := Paid) (paid_calm (x := .idle) trivial ?_)
          (fun _ _ h => h) (fun _ _ h => h)
        exact only_deliver engines options fun hkind hid => hd ⟨hkind, hid⟩
  · intro e x hx
    obtain rfl := hx
    exact fun _ h => Stage.noConfusion h

/-! ## The sweep -/

theorem only_writeSettled {row : DeploymentRow} (hid : row.id ≠ d) (now : Instant)
    (settled : Settled) : (writeSettled row now settled).Only (Quiet d) := by
  refine Prog.only_bind (only_must hid) fun _ => ?_
  split
  · exact Prog.only_bind (quiet_celebrate hid _ _ _ _) fun _ => trivial
  · trivial

/-- The sweep of another row. -/
theorem only_settleOne (engines : Engines) (options : ReconcilerOptions) (now : Instant)
    {row : DeploymentRow} (hid : row.id ≠ d) :
    (settleOne engines options now row).Only (Quiet d) := by
  refine Prog.only_bind (only_must trivial) fun target => ?_
  split
  · split
    · trivial
    · exact only_writeSettled hid now _
  · obtain ⟨m, hm⟩ := port_getDeployment engines row.id (sweepModel row target)
    simp only [hm]
    refine Prog.only_bind (Prog.only_call hid) fun state => ?_
    split
    · exact only_writeSettled hid now _
    · trivial

/-- The sweep's write of the row, and what a success owes. -/
theorem off_writeSettled {x : Stage} {row : DeploymentRow} (hid : row.id = d) {now : Instant}
    {settled : Settled}
    (hmove : ∀ answered, x.move (.wrote (sweepPatch row settled now) answered) =
      some (.afterWrite row.organizationId (sweepPatch row settled now) answered))
    (hclean : settled.status = .succeeded → settled.reason = none) :
    (rowProtocol d).Follows (fun _ x' => x' = .off) x (writeSettled row now settled) := by
  intro r _
  have hs : sight d (.store (.patchDeployment (sweepPatch row settled now))) r =
      .wrote (sweepPatch row settled now) (!threw r) := if_pos hid
  refine ⟨_, (congrArg x.move hs).trans (hmove _), ?_⟩
  cases r with
  | error e => exact if_neg fun h => absurd h.2.2 (by simp [threw])
  | ok a =>
    simp only [Prog.bind]
    by_cases hst : settled.status = .succeeded
    · have howing : Stage.afterWrite row.organizationId (sweepPatch row settled now) true =
          .owing row.organizationId :=
        if_pos ⟨hst, by simp [DeploymentStatusInput.clean, sweepPatch, hclean hst], rfl⟩
      rw [if_pos hst]
      simp only [threw, Bool.not_false, howing, hid]
      exact Protocol.follows_bind (owing_celebrate _ _ _) (fun _ _ hx => hx) (fun _ _ hx => hx)
    · rw [if_neg hst]
      exact if_neg fun h => hst h.1

/-- A verdict of success gives no reason. -/
theorem verdict_clean {options : ReconcilerOptions} {now : Instant} {row : DeploymentRow}
    {answer : AdapterResult DeploymentState} {settled : Settled}
    (h : verdict options now row answer = some settled) (hs : settled.status = .succeeded) :
    settled.reason = none := by
  unfold verdict at h
  split at h
  · split at h
    · split at h
      · cases h
      · rw [← Option.some.inj h] at hs
        cases hs
    · rw [← Option.some.inj h]
  · split at h
    · rw [← Option.some.inj h] at hs
      cases hs
    split at h
    · cases h
    · rw [← Option.some.inj h] at hs
      cases hs

/-- **The sweep of the row.** -/
theorem calm_settleOne (engines : Engines) (options : ReconcilerOptions) (now : Instant)
    {row : DeploymentRow} (hid : row.id = d) :
    (rowProtocol d).Follows (fun _ x => x.Calm) (.listed options now row)
      (settleOne engines options now row) := by
  -- whoever is done with the row is calm
  have hoff : ∀ (r : Except String Bool) (x : Stage), x = .off → x.Calm := by
    intro _ x hx
    rw [hx]
    trivial
  intro r _
  cases r with
  | error e => exact ⟨.listed options now row, rfl, trivial⟩
  | ok target =>
    refine ⟨.listed options now row, rfl, ?_⟩
    simp only [Prog.bind]
    -- no engine can be asked about the row: its age decides
    cases href : strandedRef row with
    | none =>
      simp only
      by_cases hyoung : young options now row
      · rw [if_pos hyoung]
        trivial
      · rw [if_neg hyoung]
        refine Protocol.follows_mono hoff (off_writeSettled hid ?_ fun h => by cases h)
        intro answered
        exact if_pos ⟨href, hyoung, rfl⟩
    -- the engine is asked, and the verdict is on what it answers
    | some ref =>
      obtain ⟨m, hm⟩ := port_getDeployment engines row.id (sweepModel row target)
      simp only [hm]
      intro r _
      cases r with
      | error e =>
        exact ⟨.listed options now row, by
          simp [rowProtocol, sight, hid, engineSight, threw, Stage.move], trivial⟩
      | ok answer =>
        refine ⟨.swept options now row answer, ?_, ?_⟩
        · simp [rowProtocol, sight, hid, engineSight, Stage.move, href]
        simp only [Prog.bind]
        cases hv : verdict options now row answer with
        | none => trivial
        | some settled =>
          refine Protocol.follows_mono hoff (off_writeSettled hid ?_ (verdict_clean hv))
          intro answered
          simp [Stage.move, hv]

/-- **The loop.** The row is ahead, or it is behind and the stage is calm. -/
theorem calm_settleAll (engines : Engines) (options : ReconcilerOptions) (now : Instant)
    {rows : List DeploymentRow} {x : Stage} (hnodup : (rows.map fun r => r.id).Nodup)
    (hx : (∃ row ∈ rows, row.id = d ∧ x = .listed options now row) ∨
      x.Calm ∧ ∀ row ∈ rows, row.id ≠ d) :
    (rowProtocol d).Follows (fun _ x' => x'.Calm) x (settleAll engines options now rows) := by
  induction rows generalizing x with
  | nil =>
    rcases hx with ⟨row, hmem, _⟩ | ⟨hcalm, _⟩
    · cases hmem
    · exact hcalm
  | cons head rest ih =>
    rw [List.map_cons, List.nodup_cons] at hnodup
    obtain ⟨hhead, hnodup⟩ := hnodup
    -- what the rest of the loop needs of the stage in which the first row leaves it
    have hgo : ∀ (settled : Bool) (x' : Stage), ((∃ row ∈ rest, row.id = d ∧
        x' = .listed options now row) ∨ x'.Calm ∧ ∀ row ∈ rest, row.id ≠ d) →
        (rowProtocol d).Follows (fun _ x' => x'.Calm) x'
          ((settleAll engines options now rest).bind fun n =>
            .ret (if settled then n + 1 else n)) := by
      intro settled x' hx'
      exact Protocol.follows_bind (ih hnodup hx') (fun _ _ h => h) (fun _ _ h => h)
    have hcalm : x.Calm := by
      rcases hx with ⟨_, _, _, rfl⟩ | ⟨h, _⟩
      · trivial
      · exact h
    by_cases hid : head.id = d
    · have hothers : ∀ row ∈ rest, row.id ≠ d := by
        intro row hrow hrd
        exact hhead (List.mem_map.mpr ⟨row, hrow, hrd.trans hid.symm⟩)
      have hlisted : x = .listed options now head := by
        rcases hx with ⟨row, hmem, hrd, rfl⟩ | ⟨_, hnone⟩
        · rcases List.mem_cons.mp hmem with rfl | hmem
          · rfl
          · exact absurd hrd (hothers row hmem)
        · exact absurd hid (hnone head (List.mem_cons_self))
      subst hlisted
      refine Protocol.follows_bind (calm_settleOne engines options now hid) ?_ (fun _ _ h => h)
      intro settled x' hx'
      exact hgo settled x' (.inr ⟨hx', hothers⟩)
    · refine Protocol.follows_bind (follows_calm hcalm (only_settleOne engines options now hid)) ?_ ?_
      · intro settled x' hx'
        subst hx'
        refine hgo settled x' ?_
        rcases hx with ⟨row, hmem, hrd, hrow⟩ | ⟨h, hnone⟩
        · rcases List.mem_cons.mp hmem with rfl | hmem
          · exact absurd hrd hid
          · exact .inl ⟨row, hmem, hrd, hrow⟩
        · exact .inr ⟨h, fun row hrow => hnone row (List.mem_cons_of_mem _ hrow)⟩
      · intro e x' hx'
        subst hx'
        exact hcalm

theorem paid_of_calm {r : Except String α} {x : Stage} (hx : x.Calm) : Paid r x := by
  intro org howing
  rw [howing] at hx
  exact hx

/-- **A sweep.** -/
theorem paid_reconcile (engines : Engines) (options : ReconcilerOptions) :
    (rowProtocol d).Follows Paid (.sweeping options) (reconcile engines options) := by
  intro r _
  cases r with
  | error e => exact ⟨.sweeping options, rfl, fun _ h => Stage.noConfusion h⟩
  | ok now =>
    refine ⟨.dated options now, rfl, ?_⟩
    intro r hpossible
    cases r with
    | error e => exact ⟨.dated options now, rfl, paid_of_calm trivial⟩
    | ok rows =>
      have hnodup : (rows.map fun r : DeploymentRow => r.id).Nodup := hpossible
      cases hfind : rows.find? (fun r : DeploymentRow => r.id == d) with
      | none =>
        refine ⟨.off, ?_, ?_⟩
        · exact congrArg (fun row => Stage.move (.dated options now) (.listed row)) hfind
        refine Protocol.follows_mono (fun _ _ h => paid_of_calm h)
          (calm_settleAll engines options now hnodup (.inr ⟨trivial, ?_⟩))
        intro row hrow
        simpa using List.find?_eq_none.mp hfind row hrow
      | some row =>
        refine ⟨.listed options now row, ?_, ?_⟩
        · exact congrArg (fun row => Stage.move (.dated options now) (.listed row)) hfind
        refine Protocol.follows_mono (fun _ _ h => paid_of_calm h)
          (calm_settleAll engines options now hnodup (.inl ⟨row, List.mem_of_find?_eq_some hfind, ?_⟩))
        exact ⟨by simpa using List.find?_some hfind, rfl⟩

/-! ## API requests -/

/-- A request that knows its project, or has failed before it did. -/
theorem follows_authorizedProject (ctx : RequestContext) (project : ProjectId) (c : Capability) :
    (rowProtocol d).Follows (fun r x => match r with
      | .ok project => x = .knows project
      | .error _ => x.Calm) .idle (authorizedProject ctx project c) := by
  intro r _
  cases r with
  | error e => exact ⟨.idle, rfl, trivial⟩
  | ok found =>
    cases found with
    | none => exact ⟨.idle, rfl, trivial⟩
    | some project =>
      refine ⟨.knows project, rfl, ?_⟩
      simp only [Prog.bind, requireCapability]
      cases ctx.refusal project.organizationId c with
      | none => exact rfl
      | some reason => trivial

/-- Calls that may create a row for the project and do nothing else to any row. -/
def Creating (d : DeploymentId) (project : ProjectRow) (c : Call) : Prop :=
  Quiet d c ∨ ∃ input, c = .store (.insertDeployment input) ∧
    input.organizationId = project.organizationId ∧ input.projectId = project.id ∧
      input.status = .pending

theorem follows_creating {project : ProjectRow} {p : PlaneProg α}
    (hp : p.Only (Creating d project)) :
    (rowProtocol d).Follows (fun _ x => x = .knows project) (.knows project) p := by
  refine Protocol.follows_of_only hp ?_
  intro c hc r _
  rcases hc with hq | ⟨input, rfl, hinput⟩
  · exact move_calm (x := .knows project) trivial hq r
  · exact if_pos hinput

section Requests

variable {project : ProjectRow}

theorem creating_must {op : String} {c : StoreCall} (h : Quiet d (.store c)) :
    (must op c).Only (Creating d project) := by
  refine ⟨.inl h, fun r => ?_⟩
  cases r <;> trivial

theorem creating_replayOf (ctx : RequestContext) (key : String) :
    (replayOf ctx project key).Only (Creating d project) := by
  refine Prog.only_bind (creating_must trivial) fun existing => ?_
  cases existing with
  | none => trivial
  | some existing =>
    simp only
    split <;> trivial

theorem creating_assertWithinBudget (org : OrganizationId) (metric : String) :
    (assertWithinBudget org metric).Only (Creating d project) := by
  refine Prog.only_bind (creating_must trivial) fun refusal => ?_
  cases refusal <;> trivial

theorem creating_createDeployment {input : DeploymentCreateInput}
    (horg : input.organizationId = project.organizationId) (hproject : input.projectId = project.id)
    (hstatus : input.status = .pending) :
    (createDeployment input).Only (Creating d project) := by
  refine ⟨.inr ⟨input, rfl, horg, hproject, hstatus⟩, fun r => ?_⟩
  cases r <;> trivial

theorem creating_queue {op : String} {c : DeploymentQueueCall} (h : Quiet d (.queue c)) :
    (onQueue (Queue.must op c)).Only (Creating d project) := by
  refine ⟨.inl h, fun r => ?_⟩
  cases r <;> trivial

theorem creating_enqueue (input : EnqueueInput DeploymentJobPayload) :
    (onQueue (SqlJobQueue.enqueue input)).Only (Creating d project) := by
  unfold SqlJobQueue.enqueue
  rw [onQueue_bind]
  refine Prog.only_bind (creating_queue (by trivial)) fun inserted => ?_
  cases firstJob inserted with
  | some job => trivial
  | none =>
    simp only [SqlJobQueue.findByKey]
    rw [onQueue_bind, onQueue_bind]
    refine Prog.only_bind ?_ fun existing => ?_
    · exact Prog.only_bind (creating_queue (by trivial)) fun _ => trivial
    · cases existing <;> trivial

theorem creating_dispatch (ctx : RequestContext) (event key : String)
    (payload : DeploymentJobPayload) :
    (dispatch ctx event key payload).Only (Creating d project) :=
  Prog.only_bind (creating_enqueue _) fun _ => creating_must trivial

theorem creating_ensurePreviewTarget (org : OrganizationId) (id : ProjectId) (key : String)
    (branch : Option String) (pullRequest : Option Nat) :
    (ensurePreviewTarget org id key branch pullRequest).Only (Creating d project) := by
  refine Prog.only_bind (creating_must trivial) fun found => ?_
  cases found with
  | none => exact creating_must trivial
  | some target => trivial

theorem creating_recordPreviewTarget (input : RequestInput) (pullRequest : Option Nat) :
    (recordPreviewTarget project.organizationId project.id input pullRequest).Only
      (Creating d project) := by
  unfold recordPreviewTarget
  split
  · trivial
  · exact creating_ensurePreviewTarget _ _ _ _ _

theorem creating_deployNew {link : ProjectGitLink} {delivery : ParsedGitDelivery}
    (horg : link.organizationId = project.organizationId) (hid : link.projectId = project.id)
    (gitRepository : String) :
    (deployNew link delivery project gitRepository).Only (Creating d project) := by
  refine Prog.only_bind (Prog.only_bind (creating_must trivial) fun _ => trivial) fun _ => ?_
  refine Prog.only_bind (creating_createDeployment horg hid rfl) fun row => ?_
  refine Prog.only_bind ?_ fun _ => ?_
  · unfold recordHookPreview
    split
    · trivial
    · exact creating_ensurePreviewTarget _ _ _ _ _
  refine Prog.only_bind (creating_enqueue _) fun _ => ?_
  exact Prog.only_bind (creating_must trivial) fun _ => trivial

end Requests

/-- **A request.** -/
theorem paid_requestDeployment (ctx : RequestContext) (input : RequestInput) :
    (rowProtocol d).Follows Paid .idle (requestDeployment ctx input) := by
  refine Protocol.follows_bind (follows_authorizedProject ctx input.projectId .create) ?_
    (fun _ _ hx => paid_of_calm hx)
  intro project x hx
  subst hx
  refine Protocol.follows_mono (fun _ _ hx => paid_of_calm (hx ▸ trivial)) (follows_creating ?_)
  simp only
  split
  · trivial
  refine Prog.only_bind (creating_replayOf ctx _) fun replay => ?_
  cases replay with
  | some result => trivial
  | none =>
    refine Prog.only_bind (creating_assertWithinBudget _ _) fun _ => ?_
    refine Prog.only_bind (Prog.only_bind (creating_must trivial) fun _ => trivial) fun _ => ?_
    refine Prog.only_bind (creating_createDeployment rfl rfl rfl) fun row => ?_
    refine Prog.only_bind (creating_recordPreviewTarget input _) fun _ => ?_
    exact Prog.only_bind (creating_dispatch ctx _ _ _) fun _ => trivial

/-- **A rollback request.** -/
theorem paid_rollbackDeployment (ctx : RequestContext) (project : ProjectId) (key commit : String) :
    (rowProtocol d).Follows Paid .idle (rollbackDeployment ctx project key commit) := by
  refine Protocol.follows_bind (follows_authorizedProject ctx project .rollback) ?_
    (fun _ _ hx => paid_of_calm hx)
  intro project x hx
  subst hx
  refine Protocol.follows_mono (fun _ _ hx => paid_of_calm (hx ▸ trivial)) (follows_creating ?_)
  refine Prog.only_bind (creating_replayOf ctx _) fun replay => ?_
  cases replay with
  | some result => trivial
  | none =>
    refine Prog.only_bind (creating_assertWithinBudget _ _) fun _ => ?_
    refine Prog.only_bind (Prog.only_bind (creating_must trivial) fun _ => trivial) fun _ => ?_
    refine Prog.only_bind (creating_createDeployment rfl rfl rfl) fun row => ?_
    refine Prog.only_bind (creating_must trivial) fun _ => ?_
    exact Prog.only_bind (creating_dispatch ctx _ _ _) fun _ => trivial

/-- **A delivery of a git provider.** -/
theorem paid_deployFromDelivery (link : ProjectGitLink) (delivery : ParsedGitDelivery) :
    (rowProtocol d).Follows Paid .idle (deployFromDelivery link delivery) := by
  intro r hpossible
  cases r with
  | error e => exact ⟨.idle, rfl, paid_of_calm trivial⟩
  | ok found =>
    cases found with
    | none => exact ⟨.idle, rfl, paid_of_calm trivial⟩
    -- from here on rows are made, but the one that is looked at is not written
    | some project =>
      have hfound : project.organizationId = link.organizationId ∧ project.id = link.projectId :=
        hpossible
      refine ⟨.knows project, rfl, ?_⟩
      simp only [Prog.bind]
      refine Protocol.follows_mono (fun _ _ hx => paid_of_calm (hx ▸ trivial)) (follows_creating ?_)
      refine Prog.only_bind (creating_must (c := .hardCapRefusal _ _) trivial) fun refusal => ?_
      cases refusal with
      -- over the cap there is an audit entry, and no row
      | some _ => exact Prog.only_bind (creating_must (c := .insertAudit _) trivial) fun _ => trivial
      | none =>
        simp only
        split
        · trivial
        split
        · trivial
        refine Prog.only_bind (creating_must trivial) fun existing => ?_
        cases existing with
        | some existing => trivial
        | none =>
          simp only
          split
          · trivial
          · exact creating_deployNew hfound.1.symm hfound.2.symm _

/-- The row was read, or another one was. -/
theorem follows_projectDeployment (ctx : RequestContext) (project : ProjectRow)
    (id : DeploymentId) :
    (rowProtocol d).Follows (fun r x => match r with
      | .ok row => row.id = d ∧ x = .seen project row ∨ row.id ≠ d ∧ x = .knows project
      | .error _ => x.Calm) (.knows project) (projectDeployment ctx project id) := by
  intro r hpossible
  cases r with
  | error e => exact ⟨.knows project, rfl, trivial⟩
  | ok found =>
    cases found with
    | none => exact ⟨.knows project, rfl, trivial⟩
    | some row =>
      have hrow : row.id = id := hpossible
      by_cases hid : id = d
      · refine ⟨.seen project row, ?_, ?_⟩
        · exact congrArg (Stage.move (.knows project)) (if_pos hid)
        simp only [Prog.bind]
        split
        · exact .inl ⟨hrow.trans hid, rfl⟩
        · trivial
      · refine ⟨.knows project, ?_, ?_⟩
        · exact congrArg (Stage.move (.knows project)) (if_neg hid)
        simp only [Prog.bind]
        split
        · exact .inr ⟨fun h => hid (hrow.symm.trans h), rfl⟩
        · trivial

/-- A read of some row by a member, which may be this one. -/
theorem follows_getDeployment {project : ProjectRow} (ctx : RequestContext) (id : DeploymentId) :
    (rowProtocol d).Follows (fun _ x => x.Calm) (.knows project)
      (getDeployment ctx.userId id) := by
  intro r _
  cases r with
  | error e => exact ⟨.knows project, rfl, trivial⟩
  | ok found =>
    cases found with
    | none => exact ⟨.knows project, rfl, trivial⟩
    | some row =>
      by_cases hid : id = d
      · exact ⟨.seen project row, congrArg (Stage.move (.knows project)) (if_pos hid), trivial⟩
      · exact ⟨.knows project, congrArg (Stage.move (.knows project)) (if_neg hid), trivial⟩

/-- A request's write of the row, its last. -/
theorem off_update {x : Stage} {p : DeploymentStatusInput} (hid : p.id = d)
    (hmove : ∀ answered, x.move (.wrote p answered) = some .off) :
    (rowProtocol d).Follows (fun _ x' => x' = .off) x (updateDeploymentStatus p) := by
  intro r _
  have hs : sight d (.store (.patchDeployment p)) r = .wrote p (!threw r) := if_pos hid
  refine ⟨.off, (congrArg x.move hs).trans (hmove _), ?_⟩
  cases r <;> rfl

theorem calm_clock {x : Stage} (hx : x.Calm) {f : Instant → PlaneProg α}
    (hf : ∀ now, (rowProtocol d).Follows Paid x (f now)) :
    (rowProtocol d).Follows Paid x (clock.bind f) := by
  refine Protocol.follows_bind (follows_calm hx (only_clock trivial)) ?_ ?_
  · intro now x' hx'
    subst hx'
    exact hf now
  · intro e x' hx'
    subst hx'
    exact paid_of_calm hx

/-- The refusal branch of a cancel. -/
theorem paid_keepRow {x : Stage} (hx : x.Calm) {row : DeploymentRow} (hid : row.id = d)
    (org : OrganizationId) (reason : String)
    (hmove : ∀ p : DeploymentStatusInput, ∀ answered, p.mark = false → p.status = row.status →
      x.move (.wrote p answered) = some .off) :
    (rowProtocol d).Follows Paid x (keepRow org row reason) := by
  refine calm_clock hx fun started => ?_
  refine Protocol.follows_bind (off_update hid fun answered => hmove _ answered rfl rfl) ?_ ?_
  · intro _ x' hx'
    subst hx'
    exact paid_off
  · intro _ x' hx'
    subst hx'
    exact paid_off

/-- The branch that closes the row. -/
theorem paid_closeRow {x : Stage} (hx : x.Calm) {row : DeploymentRow} (hid : row.id = d)
    (ctx : RequestContext) (org : OrganizationId) (reason : String)
    (hmove : ∀ p : DeploymentStatusInput, ∀ answered, p.mark = false → p.status = .failed →
      x.move (.wrote p answered) = some .off) :
    (rowProtocol d).Follows Paid x (closeRow ctx org row reason) := by
  refine calm_clock hx fun started => calm_clock hx fun finished => ?_
  refine Protocol.follows_bind (off_update hid fun answered => hmove _ answered rfl rfl) ?_ ?_
  · intro _ x' hx'
    subst hx'
    exact paid_calm (x := .off) trivial
      (Prog.only_bind (only_must trivial) fun _ => trivial)
  · intro _ x' hx'
    subst hx'
    exact paid_off


theorem only_audit (event : AuditEvent) : (recordAuditEvent event).Only (Quiet d) :=
  only_must trivial

/-- A cancel of another row. -/
theorem only_cancelRow (engines : Engines) (ctx : RequestContext) (project : ProjectRow)
    {row : DeploymentRow} (hid : row.id ≠ d) :
    (cancelRow engines ctx project row).Only (Quiet d) := by
  have hkeep : ∀ reason, (keepRow project.organizationId row reason).Only (Quiet d) := by
    intro reason
    exact Prog.only_bind (only_clock trivial) fun _ => Prog.only_bind (only_must hid) fun _ => trivial
  have hclose : ∀ reason, (closeRow ctx project.organizationId row reason).Only (Quiet d) := by
    intro reason
    refine Prog.only_bind (only_clock trivial) fun _ => Prog.only_bind (only_clock trivial) fun _ => ?_
    exact Prog.only_bind (only_must hid) fun _ => Prog.only_bind (only_audit _) fun _ => trivial
  unfold cancelRow
  split
  · trivial
  simp only
  split
  · exact hclose _
  · refine Prog.only_bind ?_ fun answer => ?_
    · obtain ⟨_, h⟩ | h | h := port_cancel engines row.id project.executionModel _ _
      · rw [h]
        trivial
      · rw [h]
        exact Prog.only_call hid
      · rw [h]
        exact Prog.only_call hid
    · cases answer with
      | err status reason => exact hkeep _
      | ok status u => exact hclose _

/-- **A cancel of the row.** -/
theorem paid_cancelRow (engines : Engines) (ctx : RequestContext) (project : ProjectRow)
    {row : DeploymentRow} (hid : row.id = d) :
    (rowProtocol d).Follows Paid (.seen project row) (cancelRow engines ctx project row) := by
  -- a row that is kept is written back with the status it had
  have hkeep : ∀ x : Stage, x.Calm → (∀ p : DeploymentStatusInput, ∀ answered, p.mark = false →
      p.status.InFlight → x.move (.wrote p answered) = some .off) → row.status.InFlight →
      ∀ reason, (rowProtocol d).Follows Paid x (keepRow project.organizationId row reason) := by
    intro x hx hmove hflight reason
    exact paid_keepRow hx hid _ _ fun p answered hmark hst =>
      hmove p answered hmark (hst.symm ▸ hflight)
  unfold cancelRow
  split
  · exact paid_of_calm trivial
  next hflight =>
  have hflight := not_not.mp hflight
  simp only
  -- no handle, so there is nothing to be cancelled: the row is closed
  cases hgiven : given row.deploymentResourceId with
  | none =>
    simp only
    refine paid_closeRow (x := .seen project row) trivial hid ctx _ _ ?_
    intro p answered hmark hst
    exact if_pos ⟨hflight, hmark, .inr ⟨hst, hgiven⟩⟩
  | some handle =>
    simp only
    obtain ⟨reason, h⟩ | h | h := port_cancel engines row.id project.executionModel
      ⟨project.organizationId, s!"cancel-{row.id}", adapterTimeoutMs⟩
      ⟨project.organizationId, providerOf (deploymentEngineFor engines row.id
        project.executionModel).model, .deployment, handle⟩
    · rw [h]
      refine hkeep (.seen project row) trivial ?_ hflight _
      intro p answered hmark hst
      exact if_pos ⟨hflight, hmark, .inl hst⟩
    -- an engine that can be asked to cancel
    all_goals
      rw [h]
      intro r _
      cases r with
      | error e =>
        exact ⟨.seen project row, by simp [rowProtocol, sight, hid, engineSight, threw, Stage.move],
          paid_of_calm trivial⟩
      | ok answer =>
        refine ⟨.asked project row answer, ?_, ?_⟩
        · simp [rowProtocol, sight, hid, engineSight, Stage.move, hflight, hgiven]
        -- it would not: the row is kept; or it did, and the row is closed
        cases answer with
        | err status reason =>
          refine hkeep (.asked project row (.err status reason)) trivial ?_ hflight _
          intro p answered hmark hst
          exact if_pos ⟨hmark, .inl hst⟩
        | ok status u =>
          refine paid_closeRow (x := .asked project row (.ok status u)) trivial hid ctx _ _ ?_
          intro p answered hmark hst
          exact if_pos ⟨hmark, .inr ⟨hst, rfl⟩⟩

/-- **A cancel.** -/
theorem paid_cancelDeployment (engines : Engines) (ctx : RequestContext) (project : ProjectId)
    (id : DeploymentId) :
    (rowProtocol d).Follows Paid .idle (cancelDeployment engines ctx project id) := by
  refine Protocol.follows_bind (follows_authorizedProject ctx project .cancel) ?_
    (fun _ _ hx => paid_of_calm hx)
  intro project x hx
  subst hx
  refine Protocol.follows_bind (follows_projectDeployment ctx project id) ?_
    (fun _ _ hx => paid_of_calm hx)
  intro row x hx
  obtain ⟨hid, rfl⟩ | ⟨hid, rfl⟩ := hx
  · exact paid_cancelRow engines ctx project hid
  · exact paid_calm (x := .knows project) trivial (only_cancelRow engines ctx project hid)

/-- A promotion of a row the request has read: what it awaits is no business of
the row's status, and its own read is one a request may make. -/
theorem paid_promoteRow (ctx : RequestContext) (project : ProjectRow) {row : DeploymentRow}
    (hid : row.id = d) :
    (rowProtocol d).Follows Paid (.seen project row) (promoteRow ctx project row) := by
  have hcalm : Stage.Calm (.seen project row) := trivial
  -- reads that are not of the row leave the stage
  have hquiet : ∀ {op : String} {c : StoreCall}, Quiet d (.store c) →
      (rowProtocol d).Follows (fun _ x => x = .seen project row) (.seen project row) (must op c) :=
    fun h => follows_calm hcalm (only_must h)
  unfold promoteRow
  split
  · exact paid_of_calm hcalm
  split
  -- of the three requests the last reads the row back
  · exact paid_of_calm hcalm
  refine Protocol.follows_bind (Q := fun _ x => x.Calm) ?_ ?_ (fun _ _ hx => paid_of_calm hx)
  · unfold promoteDeployment
    refine Protocol.follows_bind (hquiet trivial) ?_ (fun _ _ hx => hx ▸ hcalm)
    intro previous x hx
    subst hx
    refine Protocol.follows_bind (hquiet trivial) ?_ (fun _ _ hx => hx ▸ hcalm)
    intro moved x hx
    subst hx
    cases moved with
    | false => exact hcalm
    | true =>
      intro r _
      cases r with
      | ok stored =>
        exact ⟨.off, by simp [rowProtocol, sight, storeSight, hid, Stage.move], trivial⟩
      | error e => exact ⟨.seen project row, rfl, hcalm⟩
  · intro promoted x hx
    obtain ⟨promoted, previous⟩ := promoted
    cases promoted with
    | none => exact paid_of_calm hx
    | some promoted => exact paid_calm hx (Prog.only_bind (only_audit _) fun _ => trivial)

theorem only_promoteRow (ctx : RequestContext) (project : ProjectRow) {row : DeploymentRow}
    (hid : row.id ≠ d) : (promoteRow ctx project row).Only (Quiet d) := by
  unfold promoteRow
  split
  · trivial
  split
  · trivial
  refine Prog.only_bind ?_ fun promoted => ?_
  · refine Prog.only_bind (only_must trivial) fun _ => ?_
    refine Prog.only_bind (only_must trivial) fun moved => ?_
    cases moved with
    | false => trivial
    | true => exact Prog.only_bind (only_must hid) fun _ => trivial
  · obtain ⟨promoted, previous⟩ := promoted
    cases promoted with
    | none => trivial
    | some promoted => exact Prog.only_bind (only_audit _) fun _ => trivial

/-- **A promotion.** -/
theorem paid_promoteProcedure (ctx : RequestContext) (project : ProjectId) (id : DeploymentId) :
    (rowProtocol d).Follows Paid .idle (promoteProcedure ctx project id) := by
  refine Protocol.follows_bind (follows_authorizedProject ctx project .rollback) ?_
    (fun _ _ hx => paid_of_calm hx)
  intro project x hx
  subst hx
  refine Protocol.follows_bind (follows_projectDeployment ctx project id) ?_
    (fun _ _ hx => paid_of_calm hx)
  intro row x hx
  obtain ⟨hid, rfl⟩ | ⟨hid, rfl⟩ := hx
  · exact paid_promoteRow ctx project hid
  · exact paid_calm (x := .knows project) trivial (only_promoteRow ctx project hid)

/-- A port's log is read by one call of its adapter. -/
theorem only_portLogs (engines : Engines) (id : DeploymentId) (model : ExecutionModel)
    (ctx : AdapterContext) (ref : ProviderRef) (cursor : Option String) :
    ((deploymentEngineFor engines id model).getLogs ctx ref cursor).Only (Quiet d) := by
  unfold deploymentEngineFor
  split
  · exact Prog.only_call trivial
  split
  · exact Prog.only_call trivial
  · exact Prog.only_call trivial

/-- **A look at the logs.** -/
theorem paid_deploymentsLogs (engines : Engines) (ctx : RequestContext) (project : ProjectId)
    (id : DeploymentId) (cursor : Option String) :
    (rowProtocol d).Follows Paid .idle (deploymentsLogs engines ctx project id cursor) := by
  refine Protocol.follows_bind (follows_authorizedProject ctx project .read) ?_
    (fun _ _ hx => paid_of_calm hx)
  intro project x hx
  subst hx
  refine Protocol.follows_bind (follows_getDeployment ctx id) ?_ (fun _ _ hx => paid_of_calm hx)
  intro row x hx
  refine paid_calm hx (Prog.only_bind (only_must trivial) fun target => ?_)
  simp only
  split
  · exact Prog.only_bind (Prog.only_call trivial) fun _ => trivial
  · split
    · trivial
    · exact Prog.only_bind (only_portLogs engines id _ _ _ _) fun _ => trivial

/-! ## All of them -/

/-- **Every task follows the protocol.** -/
theorem plane_follows (engines : Engines) (d : DeploymentId) (t : Task) :
    (rowProtocol d).Follows Paid t.first (t.body engines) := by
  cases t with
  | work options => exact paid_ignored (paid_tick engines options)
  | reap =>
    refine paid_calm (x := .idle) trivial (Prog.only_bind ?_ fun _ => trivial)
    exact Prog.only_bind (only_clock trivial) fun _ => only_queue (by trivial)
  | sweep options => exact paid_ignored (paid_reconcile engines options)
  | request ctx input => exact paid_ignored (paid_requestDeployment ctx input)
  | rollback ctx project key commit =>
    exact paid_ignored (paid_rollbackDeployment ctx project key commit)
  | cancel ctx project id => exact paid_ignored (paid_cancelDeployment engines ctx project id)
  | promote ctx project id => exact paid_ignored (paid_promoteProcedure ctx project id)
  | logs ctx project id cursor =>
    exact paid_ignored (paid_deploymentsLogs engines ctx project id cursor)
  | hook link delivery => exact paid_ignored (paid_deployFromDelivery link delivery)

/-- A bare store call creates no row. -/
theorem only_storeTask (t : StoreTask) :
    t.body.Only fun c => ∀ input, c ≠ .store (.insertDeployment input) := by
  have hmust : ∀ {op : String} {c : StoreCall}, (∀ input, c ≠ .insertDeployment input) →
      (must op c).Only fun c => ∀ input, c ≠ .store (.insertDeployment input) := by
    intro op c hc
    refine ⟨fun input h => hc input (Call.store.inj h), fun r => ?_⟩
    cases r <;> trivial
  cases t with
  | update input => exact Prog.only_bind (hmust (by simp)) fun _ => trivial
  | promote org project id =>
    refine Prog.only_bind ?_ fun _ => trivial
    refine Prog.only_bind (hmust (by simp)) fun _ => ?_
    refine Prog.only_bind (hmust (by simp)) fun moved => ?_
    cases moved with
    | false => trivial
    | true => exact Prog.only_bind (hmust (by simp)) fun _ => trivial

/-- Whatever a bare store call shows, it is still a bare store call. -/
theorem move_direct {c : Call} (hc : ∀ input, c ≠ .store (.insertDeployment input))
    (r : Except String c.Ans) : Stage.move .direct (sight d c r) = some .direct := by
  -- a claim, a read of the row, a write of it: each is seen, and none of them moves it
  cases c with
  | queue c =>
    cases c with
    | claim worker n =>
      cases r with
      | error e => rfl
      | ok rows =>
        show Stage.move .direct (queueSight d (.claim worker n) (.ok rows)) = some .direct
        unfold queueSight
        dsimp only
        cases claimedFor d rows <;> rfl
    | _ => cases r <;> rfl
  | engine row c =>
    by_cases hrow : row = d
    · rw [show sight d (.engine row c) r = engineSight c r from if_pos hrow]
      cases c <;> cases r <;> rfl
    · rw [show sight d (.engine row c) r = .other (threw r) from if_neg hrow]
      rfl
  | store c =>
    cases c with
    | insertDeployment input => exact absurd rfl (hc input)
    | selectDeployment org id =>
      cases r with
      | error e => rfl
      | ok stored =>
        show Stage.move .direct (if id = d then .read org stored else .other false) = some .direct
        split <;> rfl
    | selectProjectOfMember user project =>
      cases r with
      | error e => rfl
      | ok found => cases found <;> rfl
    | selectProject org project =>
      cases r with
      | error e => rfl
      | ok found => cases found <;> rfl
    | selectDeploymentOfMember user id =>
      cases r with
      | error e => rfl
      | ok found =>
        cases found with
        | none => rfl
        | some row =>
          show Stage.move .direct (if id = d then .looked row else .other false) = some .direct
          split <;> rfl
    | patchDeployment p =>
      show Stage.move .direct (if p.id = d then .wrote p (!threw r) else .other (threw r)) = _
      split <;> rfl
    | insertUsage settled org metric quantity =>
      show Stage.move .direct
        (if settled = d then .billed org metric quantity else .other (threw r)) = _
      split <;> rfl
    | _ => cases r <;> rfl

theorem open_follows (engines : Engines) (d : DeploymentId) (t : Task ⊕ StoreTask) :
    (openDuty d).protocol.Follows ((openDuty d).ends t) ((openDuty d).first t)
      ((openHost engines).body t) := by
  cases t with
  | inl t => exact plane_follows engines d t
  | inr t =>
    refine Protocol.follows_mono ?_ (Protocol.follows_of_only (x := Stage.direct) (only_storeTask t)
      fun c hc r _ => move_direct hc r)
    intro _ x hx org howing
    rw [hx] at howing
    cases howing

/-- **Each live thread of the plane is at a stage of the row's journey.** -/
theorem plane_typed (engines : Engines) (d : DeploymentId) {s : PlaneSys}
    (h : s.Typed (planeDuty d)) (l : PlaneMove) :
    ((planeHost engines).step s l).Typed (planeDuty d) :=
  typed_step (plane_follows engines d) (plane_answers engines d s.world) h l

/-- The same with bare store calls among the tasks. -/
theorem open_typed (engines : Engines) (d : DeploymentId) {s : OpenSys}
    (h : s.Typed (openDuty d)) (l : OpenMove) :
    ((openHost engines).step s l).Typed (openDuty d) :=
  typed_step (open_follows engines d) (open_answers engines d s.world) h l

end CloudWai.Deployment
