import CloudWai.Deployment.Bystanders

/-!
# A delivery follows the protocol

A delivery of the row's own job, checked against the phases of `Journey` from
the bottom up: each function of the executor `Delivers` from one phase to the
next, the handler ends in a phase that agrees with what it reports, and the
applier writes what that phase allows.
-/

namespace CloudWai.Deployment

open Base Queue ControlPlaneStore

variable {d : DeploymentId} {org : OrganizationId} {ph : Phase} {α β : Type}

/-- A program that returns in a phase satisfying `Q`, or throws and is broken. -/
def Lands (org : OrganizationId) (Q : α → Phase → Prop) : Except String α → Stage → Prop
  | .ok a, x => ∃ ph, x = .delivering org ph ∧ Q a ph
  | .error _, x => x = .delivering org .broke

/-- `p`, started in phase `ph` of a delivery, does only what the protocol allows
and ends as `Q` says. -/
abbrev Delivers (d : DeploymentId) (org : OrganizationId) (ph : Phase) (Q : α → Phase → Prop)
    (p : PlaneProg α) : Prop :=
  (rowProtocol d).Follows (Lands org Q) (.delivering org ph) p

variable {Q : α → Phase → Prop} {R : β → Phase → Prop}

theorem delivers_ret {a : α} (h : Q a ph) : Delivers d org ph Q (.ret a) := ⟨ph, rfl, h⟩

theorem delivers_bind {p : PlaneProg α} {f : α → PlaneProg β} (hp : Delivers d org ph Q p)
    (hf : ∀ a ph', Q a ph' → Delivers d org ph' R (f a)) : Delivers d org ph R (p.bind f) := by
  refine Protocol.follows_bind hp ?_ (fun _ _ h => h)
  intro a x hx
  obtain ⟨ph', rfl, hq⟩ := hx
  exact hf a ph' hq

/-- One call: where its answer leads, and that throwing breaks the delivery. -/
theorem delivers_call {c : Call} {Q : c.Ans → Phase → Prop}
    (hok : ∀ a, ∃ ph', ph.move org (sight d c (.ok a)) = some (.delivering org ph') ∧ Q a ph')
    (herr : ∀ e, ph.move org (sight d c (.error e)) = some (.delivering org .broke)) :
    Delivers d org ph Q (Prog.call c) := by
  refine Protocol.follows_call fun r _ => ?_
  cases r with
  | ok a =>
    obtain ⟨ph', hmove, hq⟩ := hok a
    exact ⟨_, hmove, ph', rfl, hq⟩
  | error e => exact ⟨_, herr e, rfl⟩

/-- The same for a store request, whose refusal is thrown under another text. -/
theorem delivers_must {op : String} {c : StoreCall} {Q : c.Ans → Phase → Prop}
    (hok : ∀ a, ∃ ph', ph.move org (storeSight d c (.ok a)) = some (.delivering org ph') ∧ Q a ph')
    (herr : ∀ e, ph.move org (storeSight d c (.error e)) = some (.delivering org .broke)) :
    Delivers d org ph Q (must op c) := by
  intro r _
  cases r with
  | ok a =>
    obtain ⟨ph', hmove, hq⟩ := hok a
    exact ⟨_, hmove, ph', rfl, hq⟩
  | error e => exact ⟨_, herr e, rfl⟩

/-- A quiet call leaves the phase alone, or throws and breaks it. -/
theorem move_quiet_ok {c : Call} (h : Quiet d c) (a : c.Ans) :
    ph.move org (sight d c (.ok a)) = some (.delivering org ph) := by
  rcases sight_quiet h (.ok a) with hs | ⟨now, _, hs⟩
  · rw [hs]
    rfl
  · rw [hs]
    rfl

theorem move_quiet_error {c : Call} (h : Quiet d c) (e : String) :
    ph.move org (sight d c (.error e)) = some (.delivering org .broke) := by
  rcases sight_quiet h (.error e) with hs | ⟨now, hok, hs⟩
  · rw [hs]
    rfl
  · cases hok

theorem delivers_quiet {c : Call} (h : Quiet d c) :
    Delivers d org ph (fun _ ph' => ph' = ph) (Prog.call c) :=
  delivers_call (fun a => ⟨ph, move_quiet_ok h a, rfl⟩) (move_quiet_error h)

theorem delivers_quiet_must {op : String} {c : StoreCall} (h : Quiet d (.store c)) :
    Delivers d org ph (fun _ ph' => ph' = ph) (must op c) :=
  delivers_must (fun a => ⟨ph, move_quiet_ok h a, rfl⟩) (move_quiet_error h)

/-! ## The executor -/

/-- The phase agrees with what the handler reports: it allows what the applier
will write of it. -/
def Phase.hands (ph : Phase) : AdapterResult DeploymentExecutionResult → Prop
  | .ok status value => value.status = status ∧ ph.allows status true
  | .err status _ => ph.allows status false

theorem hands_err {status : EngineStatus} {reason : String} (h : ph.allows status false) :
    ph.hands (.err status reason) := h

theorem hands_broke (reason : String) : Phase.broke.hands (.err .failed reason) :=
  .inr ⟨rfl, rfl⟩

/-- The phase agrees with a result that the handler is going to report. -/
abbrev Handed (result : DeploymentExecutionResult) (ph : Phase) : Prop := ph.hands (reported result)

theorem handed_refused {status : EngineStatus} {application : Option String} {reason : String}
    (h : ph.allows status false) : Handed (.refused status application reason) ph := by
  simpa [Handed, reported, DeploymentExecutionResult.refused, Phase.hands] using h

/-- A result is reported clean exactly if it succeeded or is in flight without a reason. -/
theorem hands_reported {result : DeploymentExecutionResult}
    (hclean : result.reason = none → result.status = .succeeded ∨ result.status.InFlight →
      ph.allows result.status true)
    (herr : (result.status = .succeeded → result.reason ≠ none) → ph.allows result.status false) :
    Handed result ph := by
  unfold Handed reported
  split
  next h => exact ⟨rfl, hclean h.1 h.2⟩
  next h =>
    refine herr ?_
    intro hs hr
    exact h ⟨hr, .inl hs⟩

/-- What a build-starting call of a port leads to; a port without the operation
makes no call. -/
def Acted : AdapterResult ProviderRef → Phase → Prop
  | .ok status ref, ph => ph = .accepted (deploymentHandle ref) status
  | .err status _, ph => ph.allows status false

theorem acted_afterBuild (answer : AdapterResult ProviderRef) :
    Acted answer (Phase.afterBuild (.ok answer)) := by
  cases answer with
  | ok status ref => rfl
  | err status reason => exact .inr ⟨rfl, rfl⟩

/-- A build-starting call is allowed to a fresh delivery, once. -/
theorem move_built {id : DeploymentId} {c : EngineCall} {r : Except String c.Ans}
    {r' : Except String (AdapterResult ProviderRef)} (hid : id = d) (h : engineSight c r = .built r') :
    Phase.fresh.move org (sight d (.engine id c) r) =
      some (.delivering org (Phase.afterBuild r')) := by
  have hs : sight d (.engine id c) r = .built r' := (if_pos hid).trans h
  rw [hs]
  rfl

theorem move_built_error {id : DeploymentId} {c : EngineCall} {e : String} (hid : id = d)
    (h : engineSight c (.error e) = .built (.error e)) :
    Phase.fresh.move org (sight d (.engine id c) (.error e)) = some (.delivering org .broke) :=
  move_built hid h

theorem acted_missing (reason : String) : Acted (.err .notConfigured reason) .fresh :=
  .inr ⟨rfl, .inr rfl⟩

section Input

variable {input : ExecuteDeploymentInput}

theorem delivers_resolveApplication (target : Option ProjectDeploymentTarget) :
    Delivers d org ph (fun _ ph' => ph' = ph) (resolveApplication input target) := by
  unfold resolveApplication
  split
  · refine delivers_bind (delivers_quiet_must trivial) fun _ ph' hph => ?_
    exact delivers_ret hph
  · exact delivers_ret rfl

theorem delivers_rememberApplication (application : ProviderRef) :
    Delivers d org ph (fun _ ph' => ph' = ph) (rememberApplication input application) := by
  unfold rememberApplication
  split
  · exact delivers_bind (delivers_quiet_must trivial) fun _ _ hph => delivers_ret hph
  · exact delivers_bind (delivers_quiet_must trivial) fun _ _ hph => delivers_ret hph

theorem delivers_syncEnvironment (engines : Engines) (model : ExecutionModel)
    (application : ProviderRef) :
    Delivers d org ph (fun _ ph' => ph' = ph)
      (syncEnvironment engines model input application) := by
  unfold syncEnvironment
  cases engines.envVars with
  | false => exact delivers_ret rfl
  | true =>
    cases model with
    | serverless => exact delivers_ret rfl
    | container =>
      cases input.environmentId with
      | none => exact delivers_ret rfl
      | some environment => exact delivers_quiet trivial

/-- Waiting for the artifact leaves the delivery where it is. -/
theorem delivers_pollArtifact (row : DeploymentId) (ctx : AdapterContext) (buildRef : ProviderRef)
    (left : Nat) :
    Delivers d org ph (fun _ ph' => ph' = ph) (pollArtifact row ctx buildRef left) := by
  induction left with
  | zero => exact delivers_ret rfl
  | succ left ih =>
    refine delivers_bind (delivers_quiet trivial) fun answer ph' hph => ?_
    subst hph
    cases answer with
    | ok status artifact =>
      simp only
      split
      · exact delivers_ret rfl
      · exact delivers_ret rfl
    | err status reason =>
      simp only
      split
      · exact ih
      · exact delivers_ret rfl

variable (hid : input.deploymentId = d) (horg : input.organizationId = org)
include hid horg

/-- **The resume test**: polled, or free to build. -/
theorem delivers_resume (engines : Engines) (model : ExecutionModel)
    (application : Option ProviderRef) :
    Delivers d org .claimed
      (fun resumed ph' => match resumed with
        | none => ph' = .fresh
        | some result => Handed result ph')
      (resumeRunningDeployment (deploymentEngineFor engines input.deploymentId model) input
        application) := by
  unfold resumeRunningDeployment
  -- the row is read: either a build is in flight, or the delivery is free
  refine delivers_bind (Q := fun stored ph' =>
    ph' = (inFlightHandle stored).elim .fresh fun found => .resuming found.2)
    (delivers_must ?_ fun _ => rfl) ?_
  · intro stored
    simp only [storeSight, hid, horg, if_true, Phase.move, and_self]
    cases inFlightHandle stored with
    | none => exact ⟨_, rfl, rfl⟩
    | some found => exact ⟨_, rfl, rfl⟩
  intro stored ph' hph
  cases hin : inFlightHandle stored with
  | none =>
    rw [hin] at hph
    exact delivers_ret hph
  -- a build in flight is asked about
  | some found =>
    obtain ⟨row, handle⟩ := found
    rw [hin] at hph
    obtain rfl : ph' = .resuming handle := hph
    obtain ⟨m, hm⟩ := port_getDeployment engines input.deploymentId model
    simp only [hm]
    refine delivers_bind (Q := fun answer ph' => ph' = .resumed handle answer)
      (delivers_call ?_ fun _ => ?_) ?_
    · intro answer
      exact ⟨_, by simp [sight, engineSight, hid, Phase.move], rfl⟩
    · simp [sight, engineSight, hid, Phase.move, threw]
    intro answer ph' hph
    subst hph
    -- the delivery hands on what it was answered
    cases answer with
    | err status reason =>
      exact delivers_ret (hands_reported (fun hr => absurd hr (by simp))
        fun _ => .inr ⟨rfl, rfl⟩)
    | ok status state =>
      refine delivers_ret (hands_reported (fun _ _ => .inr ⟨rfl, .inl rfl⟩) fun h => ?_)
      refine .inr ⟨rfl, .inr ?_⟩
      by_cases hs : state.status = .succeeded
      · exact .inr (h hs)
      · exact .inl hs

omit horg in
/-- A target that was refused is the end of it. -/
theorem delivers_ensureTarget (engines : Engines) (model : ExecutionModel) (ctx : AdapterContext)
    (target : TargetInput) :
    Delivers d org .fresh
      (fun answer ph' => match answer with
        | .ok _ _ => ph' = .fresh
        | .err status _ => ph' = .refused status)
      ((deploymentEngineFor engines input.deploymentId model).ensureTarget ctx target) := by
  unfold deploymentEngineFor
  split
  · refine delivers_call (fun answer => ?_) fun _ => ?_
    · cases answer <;> exact ⟨_, by simp [sight, engineSight, hid, Phase.move], rfl⟩
    · simp [sight, engineSight, hid, Phase.move, threw]
  split
  all_goals
    refine delivers_call (fun answer => ?_) fun _ => ?_
    · cases answer <;> exact ⟨_, by simp [sight, engineSight, hid, Phase.move], rfl⟩
    · simp [sight, engineSight, hid, Phase.move, threw]

omit horg in
/-- Making the application leaves it free to build, or refuses. -/
theorem delivers_ensureApplication (engines : Engines) (model : ExecutionModel)
    (rootDirectory : Option String) (application : Option ProviderRef) :
    Delivers d org .fresh
      (fun ensured ph' => match ensured with
        | .ok _ => ph' = .fresh
        | .error result => Handed result ph')
      (ensureApplication (deploymentEngineFor engines input.deploymentId model) input
        rootDirectory application) := by
  cases application with
  | some application => exact delivers_ret rfl
  | none =>
    refine delivers_bind (delivers_ensureTarget hid engines model _ _) fun answer ph' hph => ?_
    cases answer with
    | err status reason =>
      simp only at hph
      subst hph
      exact delivers_ret (handed_refused (.inr ⟨rfl, rfl⟩))
    | ok status application =>
      refine delivers_bind (delivers_rememberApplication application) fun _ ph'' hph' => ?_
      exact delivers_ret (hph'.trans hph)

/-- The builder's mark leaves the delivery free to build. -/
theorem delivers_markBuild (ref : ProviderRef) :
    Delivers d org .fresh (fun _ ph' => ph' = .fresh)
      (updateDeploymentStatus
        (markDeploymentBuildHandle input.organizationId input.deploymentId ref)) := by
  refine delivers_must (fun _ => ⟨.fresh, ?_, rfl⟩) fun _ => ?_
  all_goals
    simp [storeSight, markDeploymentBuildHandle, Phase.move, Phase.marks,
      DeploymentStatusInput.mark, hid, horg, threw]

/-- And so does the build. -/
theorem delivers_buildArtifact (model : ExecutionModel) (rootDirectory : Option String) :
    Delivers d org .fresh (fun _ ph' => ph' = .fresh)
      (buildArtifact model input rootDirectory) := by
  unfold buildArtifact
  split
  · exact delivers_ret rfl
  · refine delivers_bind (Q := fun _ ph' => ph' = .fresh) ?_ fun built ph' hph => ?_
    · unfold runBuildStep
      split
      · exact delivers_ret rfl
      · refine delivers_bind (delivers_quiet trivial) fun started ph' hph => ?_
        subst hph
        cases started with
        | err status reason => exact delivers_ret rfl
        | ok status buildRef =>
          refine delivers_bind (Q := fun _ ph' => ph' = .fresh) ?_ fun _ ph' hph => ?_
          · refine delivers_bind (delivers_markBuild hid horg buildRef) fun _ ph' hph => ?_
            exact delivers_ret hph
          · subst hph
            exact delivers_pollArtifact _ _ _ _
    · subst hph
      cases built with
      | error reason => exact delivers_ret rfl
      | ok pair => exact delivers_ret rfl

omit horg in
theorem delivers_deploy (engines : Engines) (model : ExecutionModel) (ctx : AdapterContext)
    (ref : ProviderRef) (artifact : Option ServerlessArtifact) :
    Delivers d org .fresh Acted
      ((deploymentEngineFor engines input.deploymentId model).deploy ctx ref artifact) := by
  unfold deploymentEngineFor
  split
  · exact delivers_call (fun answer => ⟨_, move_built hid rfl, acted_afterBuild answer⟩)
      fun _ => move_built_error hid rfl
  split
  · cases artifact with
    | none => exact delivers_ret (acted_missing _)
    | some artifact =>
      exact delivers_call (fun answer => ⟨_, move_built hid rfl, acted_afterBuild answer⟩)
        fun _ => move_built_error hid rfl
  · exact delivers_call (fun answer => ⟨_, move_built hid rfl, acted_afterBuild answer⟩)
      fun _ => move_built_error hid rfl

omit horg in
theorem delivers_portRollback (engines : Engines) (model : ExecutionModel) (ctx : AdapterContext)
    (ref : ProviderRef) (commit : Option String) :
    Delivers d org .fresh Acted
      ((deploymentEngineFor engines input.deploymentId model).rollback ctx ref commit) := by
  unfold deploymentEngineFor
  split
  · simp only [containerDeploymentEngine]
    split
    · exact delivers_call (fun answer => ⟨_, move_built hid rfl, acted_afterBuild answer⟩)
        fun _ => move_built_error hid rfl
    · exact delivers_ret (acted_missing _)
  split
  · exact delivers_ret (acted_missing _)
  · exact delivers_call (fun answer => ⟨_, move_built hid rfl, acted_afterBuild answer⟩)
      fun _ => move_built_error hid rfl

/-- The mark of an accepted build keeps the phase. -/
theorem delivers_markInFlight (ref : ProviderRef) (status : EngineStatus)
    (resolvedId : Option String) :
    Delivers d org (.accepted (deploymentHandle ref) status)
      (fun _ ph' => ph' = .accepted (deploymentHandle ref) status)
      (if (deploymentHandle ref).isSome then
        (updateDeploymentStatus (markDeploymentInFlight input status resolvedId
          (deploymentHandle ref))).bind fun _ => .ret ()
      else .ret ()) := by
  cases hh : deploymentHandle ref with
  | none => exact delivers_ret rfl
  | some handle =>
    refine delivers_bind (Q := fun _ ph' => ph' = .accepted (some handle) status) ?_
      fun _ ph' hph => delivers_ret hph
    refine delivers_must (fun _ => ⟨.accepted (some handle) status, ?_, rfl⟩) fun _ => ?_
    all_goals
      simp [storeSight, markDeploymentInFlight, Phase.move, Phase.marks,
        DeploymentStatusInput.mark, hid, horg, threw]

/-- **Reading the state back**: the engine's answer, or what it said on accepting. -/
theorem delivers_confirm (engines : Engines) (model : ExecutionModel)
    {action : AdapterResult ProviderRef} (hacted : Acted action ph)
    (providerResourceId : Option String) (buildRef : Option ProviderRef) :
    Delivers d org ph Handed
      (confirm (deploymentEngineFor engines input.deploymentId model) input action
        providerResourceId buildRef) := by
  cases action with
  | err status reason =>
    -- refused: the result is the refusal
    exact delivers_ret (hands_reported (fun hr => absurd hr (by simp)) fun _ => hacted)
  | ok accepted ref =>
    obtain rfl : ph = .accepted (deploymentHandle ref) accepted := hacted
    -- the acceptance is marked on the row before the state is read
    refine delivers_bind (delivers_markInFlight hid horg ref accepted _) fun _ ph' hph => ?_
    subst hph
    obtain ⟨m, hm⟩ := port_getDeployment engines input.deploymentId model
    simp only [hm]
    refine delivers_bind (Q := fun answer ph' =>
      ph' = .confirmed (deploymentHandle ref) accepted answer) (delivers_call ?_ fun _ => ?_) ?_
    -- the ref that is asked about is the one that was accepted
    · intro answer
      refine ⟨_, ?_, rfl⟩
      simp only [sight, engineSight, hid, if_true, Phase.move]
      refine if_pos ?_
      unfold deploymentHandle
      split
      · exact .inr rfl
      · exact .inl rfl
    · simp [sight, engineSight, hid, Phase.move, threw]
    intro answer ph' hph
    subst hph
    cases answer with
    | err status reason =>
      refine delivers_ret (hands_reported (fun _ _ => .inr ⟨rfl, .inl rfl⟩) fun h => ?_)
      exact .inr ⟨rfl, .inr fun hs => h hs rfl⟩
    -- what was read back, or what was accepted if there is no answer
    | ok status state =>
      refine delivers_ret (hands_reported (fun _ _ => .inr ⟨rfl, .inl rfl⟩) fun h => ?_)
      refine .inr ⟨rfl, .inr fun hs => h hs ?_⟩
      simp only at hs
      simp only [confirmedReason, hs]

theorem delivers_rollback (engines : Engines) (model : ExecutionModel)
    (application : Option ProviderRef) :
    Delivers d org .fresh Handed
      (rollback (deploymentEngineFor engines input.deploymentId model) input application) := by
  unfold rollback
  split
  · refine delivers_bind (delivers_portRollback hid engines model _ _ _) fun action ph' hacted => ?_
    exact delivers_confirm hid horg engines model hacted _ _
  · exact delivers_ret (handed_refused (.inr ⟨rfl, .inr rfl⟩))

/-- So a fresh delivery hands on what the engine made of the build it asked for. -/
theorem delivers_create (engines : Engines) (model : ExecutionModel)
    (rootDirectory : Option String) (application : Option ProviderRef) :
    Delivers d org .fresh Handed
      (create engines (deploymentEngineFor engines input.deploymentId model) input rootDirectory
        application) := by
  refine delivers_bind (delivers_ensureApplication hid engines model _ _) fun ensured ph' hph => ?_
  cases ensured with
  | error result => exact delivers_ret hph
  | ok application =>
    simp only at hph
    subst hph
    refine delivers_bind (delivers_syncEnvironment engines _ application) fun _ ph' hph => ?_
    subst hph
    refine delivers_bind (delivers_buildArtifact hid horg _ _) fun built ph' hph => ?_
    subst hph
    cases built with
    | error reason => exact delivers_ret (handed_refused (.inr ⟨rfl, .inl rfl⟩))
    | ok pair =>
      refine delivers_bind (delivers_deploy hid engines model _ _ _) fun deployed ph' hacted => ?_
      exact delivers_confirm hid horg engines model hacted _ _

/-- **The handler**: from the claim to what it reports. -/
theorem delivers_executeDeployment (engines : Engines) :
    Delivers d org .claimed Handed (executeDeployment engines input) := by
  refine delivers_bind (delivers_quiet_must trivial) fun target ph' hph => ?_
  subst hph
  refine delivers_bind (delivers_resolveApplication target) fun resolved ph' hph => ?_
  subst hph
  refine delivers_bind (delivers_resume hid horg engines _ _) fun resumed ph' hph => ?_
  cases resumed with
  | some result => exact delivers_ret hph
  | none =>
    simp only at hph
    subst hph
    simp only
    split
    · exact delivers_rollback hid horg engines _ _
    · exact delivers_create hid horg engines _ _ _

end Input

/-! ## The job: queue, handler, applier -/

/-- A queue request of a delivery. -/
theorem delivers_queue {c : DeploymentQueueCall} (h : Quiet d (.queue c)) (op : String) :
    Delivers d org ph (fun _ ph' => ph' = ph) (onQueue (Queue.must op c)) := by
  intro r _
  cases r with
  | ok a => exact ⟨_, move_quiet_ok h a, ph, rfl, rfl⟩
  | error e => exact ⟨_, move_quiet_error h e, rfl⟩

theorem delivers_clock : Delivers d org ph (fun _ ph' => ph' = ph) clock := by
  intro r _
  cases r with
  | ok now => exact ⟨_, rfl, ph, rfl, rfl⟩
  | error e => exact ⟨_, rfl, rfl⟩

theorem delivers_patchJob (id : JobId) (p : JobPatch) :
    Delivers d org ph (fun _ ph' => ph' = ph) (onQueue (SqlJobQueue.patch id p)) := by
  unfold SqlJobQueue.patch
  rw [onQueue_bind]
  exact delivers_bind (delivers_queue (by trivial) _) fun _ _ hph => delivers_ret hph

theorem delivers_complete (id : JobId) :
    Delivers d org ph (fun _ ph' => ph' = ph) (onQueue (SqlJobQueue.complete id)) := by
  unfold SqlJobQueue.complete
  rw [onQueue_bind]
  refine delivers_bind delivers_clock fun _ ph' hph => ?_
  subst hph
  exact delivers_patchJob _ _

theorem delivers_terminate (id : JobId) (reason : String) :
    Delivers d org ph (fun _ ph' => ph' = ph) (onQueue (SqlJobQueue.terminate id reason)) := by
  unfold SqlJobQueue.terminate
  rw [onQueue_bind]
  refine delivers_bind delivers_clock fun _ ph' hph => ?_
  subst hph
  exact delivers_patchJob _ _

theorem delivers_defer (id : JobId) (reason : String) (ms : Nat) :
    Delivers d org ph (fun _ ph' => ph' = ph) (onQueue (SqlJobQueue.defer id reason ms)) := by
  unfold SqlJobQueue.defer
  rw [onQueue_bind]
  exact delivers_bind (delivers_queue (by trivial) _) fun _ _ hph => delivers_ret hph

theorem delivers_getJob (id : JobId) :
    Delivers d org ph (fun _ ph' => ph' = ph) (onQueue (SqlJobQueue.get id)) := by
  unfold SqlJobQueue.get
  rw [onQueue_bind]
  exact delivers_bind (delivers_queue (by trivial) _) fun _ _ hph => delivers_ret hph

theorem delivers_fail (id : JobId) (reason : String) :
    Delivers d org ph (fun _ ph' => ph' = ph) (onQueue (SqlJobQueue.fail id reason)) := by
  unfold SqlJobQueue.fail
  rw [onQueue_bind]
  refine delivers_bind (delivers_getJob id) fun current ph' hph => ?_
  subst hph
  cases current with
  | none => exact delivers_ret rfl
  | some current =>
    simp only
    split
    · rw [onQueue_bind]
      refine delivers_bind delivers_clock fun _ ph' hph => ?_
      subst hph
      exact delivers_patchJob _ _
    · exact delivers_patchJob _ _

/-- Nothing is owed when a program ends. -/
def Paid : Except String α → Stage → Prop := fun _ x => ∀ org, x ≠ .owing org

theorem paid_off {r : Except String α} : Paid r .off := fun _ h => Stage.noConfusion h

theorem paid_delivering {r : Except String α} : Paid r (.delivering org ph) :=
  fun _ h => Stage.noConfusion h

/-- A call while usage is owed: it is answered, or it throws and the rest is off. -/
theorem owing_must {op : String} {c : StoreCall} (hq : ∀ a,
      Stage.move (.owing org) (storeSight d c (.ok a)) = some (.owing org))
    (he : ∀ e, Stage.move (.owing org) (storeSight d c (.error e)) = some .off) :
    (rowProtocol d).Follows (fun r x => match r with
      | .ok _ => x = .owing org
      | .error _ => x = .off) (.owing org) (must op c) := by
  intro r _
  cases r with
  | ok a => exact ⟨_, hq a, rfl⟩
  | error e => exact ⟨_, he e, rfl⟩

/-- Whatever is promoted on the way, the usage of an owed success is recorded. -/
theorem owing_celebrate (project : ProjectId) (kind : DeploymentKind) (staged : Bool) :
    (rowProtocol d).Follows (fun _ x => x = .off) (.owing org)
      (celebrate d org project kind staged) := by
  unfold celebrate
  -- a promotion moves nothing of the row's status, whatever becomes of it
  refine Protocol.follows_bind (Q := fun r x => match r with
    | .ok _ => x = .owing org
    | .error _ => x = .off) ?_ ?_ (fun _ _ hx => hx)
  · split
    · refine Protocol.follows_bind (Q := fun r x => match r with
        | .ok _ => x = .owing org
        | .error _ => x = .off) ?_ (fun _ _ h => h) (fun _ _ h => h)
      unfold promoteDeployment
      refine Protocol.follows_bind (owing_must (fun _ => rfl) fun _ => rfl) ?_ (fun _ _ h => h)
      intro previous x hx
      subst hx
      refine Protocol.follows_bind (owing_must (fun _ => rfl) fun _ => rfl) ?_ (fun _ _ h => h)
      intro moved x hx
      subst hx
      cases moved with
      | false => rfl
      | true =>
        refine Protocol.follows_bind (owing_must ?_ fun _ => rfl) ?_ (fun _ _ h => h)
        · intro row
          simp [storeSight, Stage.move]
        · intro row x hx
          exact hx
    · rfl
  -- then the record: after it nothing is owed
  · intro _ x hx
    subst hx
    intro r _
    cases r with
    | ok a => exact ⟨.off, by simp [rowProtocol, sight, storeSight, Stage.move], rfl⟩
    | error e => exact ⟨.off, by simp [rowProtocol, sight, storeSight, Stage.move], rfl⟩

/-- Go on from a delivery, which is all paid for if it throws. -/
theorem paid_bind {Q : α → Phase → Prop} {p : PlaneProg α} {f : α → PlaneProg β}
    (hp : Delivers d org ph Q p)
    (hf : ∀ a ph', Q a ph' → (rowProtocol d).Follows Paid (.delivering org ph') (f a)) :
    (rowProtocol d).Follows Paid (.delivering org ph) (p.bind f) := by
  refine Protocol.follows_bind hp ?_ ?_
  · intro a x hx
    obtain ⟨ph', rfl, hq⟩ := hx
    exact hf a ph' hq
  · intro e x hx
    obtain rfl := hx
    exact paid_delivering

/-- A settling write that the phase allows. -/
theorem settle_write {p : DeploymentStatusInput} (hid : p.id = d) (horg : p.organizationId = org)
    (hmark : p.mark = false) (hallows : ph.allows p.status p.clean) :
    (rowProtocol d).Follows (fun r x => match r with
      | .ok _ => x = .afterWrite org p true
      | .error _ => x = .off) (.delivering org ph) (updateDeploymentStatus p) := by
  have hmove : ∀ answered, ph.move org (.wrote p answered) =
      some (.afterWrite org p answered) := by
    intro answered
    simp [Phase.move, horg, hmark, hallows]
  intro r _
  have hs : sight d (.store (.patchDeployment p)) r = .wrote p (!threw r) := if_pos hid
  cases r with
  | ok a => exact ⟨_, (congrArg (Phase.move org ph) hs).trans (hmove true), rfl⟩
  | error e =>
    have hoff : Stage.afterWrite org p false = .off := if_neg fun h => absurd h.2.2 (by simp)
    exact ⟨.off, (congrArg (Phase.move org ph) hs).trans
      ((hmove false).trans (congrArg some hoff)), rfl⟩

/-- **The applier** writes what the phase allows, and settles what that owes. -/
theorem paid_applier {job : Job DeploymentJobPayload} (hid : job.payload.deploymentId = d)
    (horg : job.payload.organizationId = org) {result : AdapterResult DeploymentExecutionResult}
    (h : ph.hands result) :
    (rowProtocol d).Follows Paid (.delivering org ph) (deploymentApplier job result) := by
  unfold deploymentApplier
  -- a result that is not the applier's leaves the row
  split
  · exact paid_delivering
  refine paid_bind delivers_clock fun finished ph' hph => ?_
  subst hph
  cases result with
  | ok status value =>
    obtain ⟨hst, hallows⟩ := h
    rw [← hst] at hallows
    refine Protocol.follows_bind (settle_write hid horg rfl hallows) ?_ ?_
    · intro _ x hx
      subst hx
      -- a success is owed its usage, and that is recorded
      by_cases hs : value.status = .succeeded
      · rw [if_pos hs]
        have howing : Stage.afterWrite org (okPatch job.payload value finished) true =
            .owing org := if_pos ⟨hs, rfl, rfl⟩
        simp only [howing, hid, horg]
        refine Protocol.follows_mono ?_ (owing_celebrate _ _ _)
        intro _ x hx
        subst hx
        exact paid_off
      -- anything else owes nothing
      · rw [if_neg hs]
        have hoff : Stage.afterWrite org (okPatch job.payload value finished) true = .off :=
          if_neg fun h => hs h.1
        simp only [hoff]
        exact paid_off
    · intro e x hx
      obtain rfl := hx
      exact paid_off
  -- an error's patch has a reason, so nothing is owed
  | err status reason =>
    refine Protocol.follows_bind (settle_write hid horg rfl h) ?_ ?_
    · intro _ x hx
      subst hx
      have hoff : Stage.afterWrite org (errPatch job.payload status reason finished) true = .off :=
        if_neg fun h => absurd h.2.1 (by simp [errPatch, DeploymentStatusInput.clean])
      simp only [hoff]
      exact paid_off
    · intro e x hx
      obtain rfl := hx
      exact paid_off

/-- The applier's exceptions are swallowed. -/
theorem paid_settle {job : Job DeploymentJobPayload} (hid : job.payload.deploymentId = d)
    (horg : job.payload.organizationId = org) {result : AdapterResult DeploymentExecutionResult}
    (h : ph.hands result) (outcome : JobOutcome) :
    (rowProtocol d).Follows Paid (.delivering org ph)
      (InProcessWorker.settle deploymentApplier job outcome result) := by
  refine Protocol.follows_bind (Q := Paid) ?_ (fun _ _ hx => hx) (fun _ _ hx => hx)
  exact Protocol.follows_attempt (Protocol.follows_mono (fun _ _ hx => hx)
    (paid_applier hid horg h))

/-- **The processor** after a handler that returned. -/
theorem paid_finish {job : Job DeploymentJobPayload} (hid : job.payload.deploymentId = d)
    (horg : job.payload.organizationId = org) (options : WorkerOptions)
    {result : AdapterResult DeploymentExecutionResult} (h : ph.hands result) :
    (rowProtocol d).Follows Paid (.delivering org ph)
      (InProcessWorker.finish planePort options deploymentApplier job result) := by
  unfold InProcessWorker.finish
  simp only
  split
  · refine paid_bind (delivers_complete _) fun _ ph' hph => ?_
    subst hph
    exact paid_settle hid horg h _
  split
  next hflight =>
    refine paid_bind delivers_clock fun now ph' hph => ?_
    subst hph
    split
    · refine paid_bind (delivers_terminate _ _) fun _ ph' hph => ?_
      subst hph
      exact paid_settle hid horg (hands_err (.inl hflight)) _
    · refine paid_bind (delivers_defer _ _ _) fun _ ph' hph => ?_
      subst hph
      exact paid_settle hid horg h _
  split
  · refine paid_bind (delivers_terminate _ _) fun _ ph' hph => ?_
    subst hph
    exact paid_settle hid horg h _
  · refine paid_bind (delivers_fail _ _) fun _ ph' hph => ?_
    subst hph
    exact paid_settle hid horg h _

/-- **A delivery of the row's job.** -/
theorem paid_deliver (engines : Engines) (options : WorkerOptions)
    {job : Job DeploymentJobPayload} (hkind : job.kind = deploymentJobKind)
    (hid : job.payload.deploymentId = d) (horg : job.payload.organizationId = org) :
    (rowProtocol d).Follows Paid (.delivering org .claimed)
      (InProcessWorker.deliver planePort options (handlers engines) deploymentApplier job) := by
  unfold InProcessWorker.deliver handlers
  simp only [hkind, if_true]
  refine Protocol.follows_bind (Q := fun
      (r : Except String (Except String (AdapterResult DeploymentExecutionResult))) x => match r with
    | .ok (.ok result) => ∃ ph, x = .delivering org ph ∧ ph.hands result
    | .ok (.error _) => x = .delivering org .broke
    -- a handler that throws is a break
    | .error _ => Paid r x) (Protocol.follows_attempt ?_) ?_ ?_
  · refine Protocol.follows_mono ?_ (delivers_bind (R := fun result ph => ph.hands result)
      (@delivers_executeDeployment _ _ (executeInput job.payload _) hid horg engines)
      fun result ph' h => delivers_ret h)
    intro r x hx
    cases r with
    | ok result => exact hx
    | error e => exact hx
  · intro outcome x hx
    cases outcome with
    | ok result =>
      obtain ⟨ph', rfl, h⟩ := hx
      exact paid_finish hid horg options h
    | error reason =>
      obtain rfl := hx
      refine paid_bind (delivers_fail _ _) fun _ ph' hph => ?_
      subst hph
      exact paid_settle hid horg (hands_broke reason) _
  · intro e x hx
    exact hx

end CloudWai.Deployment
