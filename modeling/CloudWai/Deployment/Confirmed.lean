import CloudWai.Base.Triple
import CloudWai.Deployment.Routine

/-!
# What a success rests on

`executeDeployment` ends in `confirm`, which reads the deployment back: the answer to the
action that started it would be a guess. But the guess is what `confirm` falls back on. If
the engine cannot be asked, the status of the action's own answer is reported, and the
serverless engine's is `succeeded` as soon as it has taken the code.

A run is listened to (`Heard`): the handles that were stored, the refs the engine issued,
what it answered when it was asked about them, and the refusals. `ends_execute` says how
the status of the result follows from that, whatever the engines and the store do, and
`success_read_iff` when a success was read.

About `executeDeployment` of `apps/worker/src/deployment-executor.ts`, as `Executor.lean`
has it.
-/

namespace CloudWai.Deployment

open Base Queue ControlPlaneStore

/-! ## Listening to a run -/

/-- What was heard of the engine in one run, the last first. -/
structure Heard where
  /-- the handles of earlier builds, by the row they are stored in -/
  handles : List (DeploymentId × String)
  /-- the refs the actions were answered with, and the status that came with them -/
  issued : List (EngineStatus × ProviderRef)
  /-- the read-backs -/
  reads : List (ProviderRef × AdapterResult DeploymentState)
  /-- the statuses with which a target or an action was refused -/
  refusals : List EngineStatus

/-- Nothing has been heard yet. -/
def Heard.nothing : Heard := ⟨[], [], [], []⟩

/-- An action's answer. -/
def Heard.act (x : Heard) : AdapterResult ProviderRef → Heard
  | .ok status ref => { x with issued := (status, ref) :: x.issued }
  | .err status _ => { x with refusals := status :: x.refusals }

/-- A target's answer. -/
def Heard.target (x : Heard) : AdapterResult ProviderRef → Heard
  | .ok _ _ => x
  | .err status _ => { x with refusals := status :: x.refusals }

def Heard.stored (x : Heard) (id : DeploymentId) (row : Option DeploymentRow) : Heard :=
  match row.bind (·.deploymentResourceId) with
  | none => x
  | some handle => { x with handles := (id, handle) :: x.handles }

def Heard.engine (x : Heard) : (c : EngineCall) → c.Ans → Heard
  | .createApplication .., answer => x.target answer
  | .createFunction .., answer => x.target answer
  | .deploy .., answer => x.act answer
  | .publish .., answer => x.act answer
  | .rollback .., answer => x.act answer
  | .getDeployment _ _ ref, answer => { x with reads := (ref, answer) :: x.reads }
  | _, _ => x

/-- One call and its answer; a call that throws tells nothing. -/
def Heard.note (x : Heard) (c : Call) (r : Except String c.Ans) : Heard :=
  match r with
  | .error _ => x
  | .ok answer =>
    match c, answer with
    | .store (.selectDeployment _ id), row => x.stored id row
    | .engine _ c, answer => x.engine c answer
    | _, _ => x

section Environment

-- the store, the queue and the engines, whatever they do and whoever else uses them
variable {W : Type} (perform : W → (c : Call) → Except String c.Ans × W)

/-- A run that is listened to. -/
def listening (x : W × Heard) (c : Call) : Except String c.Ans × (W × Heard) :=
  let a := perform x.1 c
  (a.1, a.2, x.2.note c a.1)

variable {perform} {α β : Type} {x : W × Heard} {input : ExecuteDeploymentInput}

/-- A call that tells nothing of the engine's state. -/
def Mute : Call → Prop
  | .store (.selectDeployment ..) => False
  | .store _ => True
  | .queue _ => True
  | .engine _ (.syncEnvVars ..) => True
  | .engine _ (.build ..) => True
  | .engine _ (.getArtifact ..) => True
  | .engine _ _ => False

theorem note_mute {c : Call} (h : Mute c) (y : Heard) (r : Except String c.Ans) :
    y.note c r = y := by
  cases r with
  | error e => rfl
  | ok a =>
    cases c with
    | queue c => rfl
    | store c => cases c <;> first | exact absurd h id | rfl
    | engine row c => cases c <;> first | exact absurd h id | rfl

theorem ends_mute {p : PlaneProg α} (hp : p.Only Mute) :
    p.Ends (listening perform) (fun _ x' => x'.2 = x.2) x :=
  Prog.ends_of_only hp (fun _ _ hsame hc => (note_mute hc _ _).trans hsame) rfl

theorem ends_onEngine {row : DeploymentId} {c : EngineCall} {Q : Except String c.Ans → Heard → Prop}
    (hok : ∀ a, Q (.ok a) (x.2.engine c a)) (herr : ∀ e, Q (.error e) x.2) :
    (onEngine row c).Ends (listening perform) (fun r x' => Q r x'.2) x := by
  have heval : (onEngine row c).eval (listening perform) x =
      listening perform x (.engine row c) := Prog.eval_call _ _ _
  unfold Prog.Ends
  rw [heval]
  show Q (perform x.1 (.engine row c)).1 (x.2.note (.engine row c) (perform x.1 (.engine row c)).1)
  cases (perform x.1 (.engine row c)).1 with
  | error e => exact herr e
  | ok a => exact hok a

/-! ## How a result follows from what was heard -/

/-- Nothing was issued, read or refused. -/
structure Heard.Quiet (y : Heard) : Prop where
  issued : y.issued = []
  reads : y.reads = []
  refusals : y.refusals = []

/-- The ref is one that the engine issued for this deployment, in this run or before. -/
def Heard.Issued (y : Heard) (input : ExecuteDeploymentInput) (ref : ProviderRef) : Prop :=
  (∃ issue ∈ y.issued, issue.2 = ref) ∨
    ref.resourceType = .deployment ∧ (input.deploymentId, ref.resourceId) ∈ y.handles

/-- How a run ended, by what was heard. -/
inductive Relayed (input : ExecuteDeploymentInput) :
    Except String DeploymentExecutionResult → Heard → Prop
  /-- it threw before anything was read -/
  | threw {e : String} {y : Heard} : y.reads = [] → y.refusals = [] → Relayed input (.error e) y
  /-- the executor itself refused or the build failed -/
  | early {result : DeploymentExecutionResult} {y : Heard} : y.reads = [] → y.refusals = [] →
      result.status ≠ .succeeded → Relayed input (.ok result) y
  /-- a target or an action was refused -/
  | refused {result : DeploymentExecutionResult} {y : Heard} : y.reads = [] →
      y.refusals = [result.status] → Relayed input (.ok result) y
  /-- the engine was asked about a ref of its own, and answered -/
  | read {result : DeploymentExecutionResult} {y : Heard} (ref : ProviderRef)
      (status : EngineStatus) (state : DeploymentState) : y.reads = [(ref, .ok status state)] →
      y.refusals = [] → y.Issued input ref → result.status = state.status →
      Relayed input (.ok result) y
  /-- it was asked after an action, and could not answer -/
  | unread {result : DeploymentExecutionResult} {y : Heard} (ref : ProviderRef)
      (status : EngineStatus) (reason : String) : y.reads = [(ref, .err status reason)] →
      y.refusals = [] → y.issued = [(result.status, ref)] → Relayed input (.ok result) y
  /-- it was asked about an earlier build, and could not answer -/
  | unpolled {result : DeploymentExecutionResult} {y : Heard} (ref : ProviderRef)
      (reason : String) : y.reads = [(ref, .err result.status reason)] → y.refusals = [] →
      y.issued = [] → Relayed input (.ok result) y

/-- An action was answered: by the engine, or by its port, which is never content. -/
def Answered (action : AdapterResult ProviderRef) (y : Heard) : Prop :=
  y.reads = [] ∧
    match action with
    | .ok status ref => y.issued = [(status, ref)] ∧ y.refusals = []
    | .err status _ => y.refusals = [status] ∨ y.refusals = [] ∧ status ≠ .succeeded

theorem acted_act {y : Heard} (h : y.Quiet) (action : AdapterResult ProviderRef) :
    Answered action (y.act action) := by
  cases action with
  | ok status ref => exact ⟨h.reads, by rw [Heard.act, h.issued], h.refusals⟩
  | err status reason => exact ⟨h.reads, .inl (by rw [Heard.act, h.refusals])⟩

/-- What a port's action leaves. -/
def ActionEnds (r : Except String (AdapterResult ProviderRef)) (y : Heard) : Prop :=
  match r with
  | .error _ => y.Quiet
  | .ok action => Answered action y

theorem ends_deploy {engines : Engines} {row : DeploymentId} {model : ExecutionModel}
    {ctx : AdapterContext} {ref : ProviderRef} {artifact : Option ServerlessArtifact}
    (h : x.2.Quiet) :
    ((deploymentEngineFor engines row model).deploy ctx ref artifact).Ends (listening perform)
      (fun r x' => ActionEnds r x'.2) x := by
  unfold deploymentEngineFor
  split
  · exact ends_onEngine (c := .deploy ctx ref) (Q := ActionEnds) (fun a => acted_act h a) fun _ => h
  split
  · cases artifact with
    | none => exact Prog.ends_ret ⟨h.reads, .inr ⟨h.refusals, by decide⟩⟩
    | some artifact => exact ends_onEngine (c := .publish ctx ref (some artifact)) (Q := ActionEnds) (fun a => acted_act h a) fun _ => h
  · exact ends_onEngine (c := .publish ctx ref artifact) (Q := ActionEnds) (fun a => acted_act h a) fun _ => h

theorem ends_rollback_port {engines : Engines} {row : DeploymentId} {model : ExecutionModel}
    {ctx : AdapterContext} {ref : ProviderRef} {commit : Option String} (h : x.2.Quiet) :
    ((deploymentEngineFor engines row model).rollback ctx ref commit).Ends (listening perform)
      (fun r x' => ActionEnds r x'.2) x := by
  unfold deploymentEngineFor
  split
  · simp only [containerDeploymentEngine]
    split
    · exact ends_onEngine (c := .rollback ctx ref _) (Q := ActionEnds) (fun a => acted_act h a) fun _ => h
    · exact Prog.ends_ret ⟨h.reads, .inr ⟨h.refusals, by decide⟩⟩
  split
  · exact Prog.ends_ret ⟨h.reads, .inr ⟨h.refusals, by decide⟩⟩
  · exact ends_onEngine (c := .publish ctx ref none) (Q := ActionEnds) (fun a => acted_act h a) fun _ => h

/-- What asking about a ref leaves. -/
def Polled (ref : ProviderRef) (y : Heard) (r : Except String (AdapterResult DeploymentState))
    (y' : Heard) : Prop :=
  match r with
  | .error _ => y' = y
  | .ok answer => y' = { y with reads := [(ref, answer)] }

theorem ends_asked {row : DeploymentId} {model : ExecutionModel} {ctx : AdapterContext}
    (ref : ProviderRef) (h : x.2.reads = []) :
    (onEngine row (.getDeployment model ctx ref)).Ends (listening perform)
      (fun r x' => Polled ref x.2 r x'.2) x := by
  refine ends_onEngine (c := .getDeployment model ctx ref) (Q := Polled ref x.2) (fun a => ?_) fun e => rfl
  show x.2.engine (.getDeployment model ctx ref) a = _
  rw [Heard.engine, h]

/-- **The read-back**: its answer counts, and without one the action's does. -/
theorem ends_confirm {engines : Engines} {row : DeploymentId} {model : ExecutionModel}
    {action : AdapterResult ProviderRef} {application : Option String}
    {buildRef : Option ProviderRef} (h : Answered action x.2) :
    (confirm (deploymentEngineFor engines row model) input action application buildRef).Ends
      (listening perform) (fun r x' => Relayed input r x'.2) x := by
  obtain ⟨m, hport⟩ := port_getDeployment engines row model
  cases action with
  -- the action was refused: nothing is read back
  | err status reason =>
    obtain ⟨hreads, hrefusals | ⟨hrefusals, hstatus⟩⟩ := h
    · exact Prog.ends_ret (.refused hreads hrefusals)
    · exact Prog.ends_ret (.early hreads hrefusals hstatus)
  | ok accepted ref =>
    obtain ⟨hreads, hissued, hrefusals⟩ := h
    -- what is noted on the way says nothing of the engine
    unfold confirm
    refine Prog.ends_bind (Q := fun _ x' => x'.2 = x.2) (ends_mute ?_) ?_ ?_
    · split
      · exact Prog.only_bind (only_must trivial) fun _ => trivial
      · trivial
    · intro _ x' hsame
      rw [hport]
      refine Prog.ends_bind (ends_asked ref (hsame ▸ hreads)) ?_ ?_
      · intro a x'' hx
        dsimp only [Polled] at hx
        rw [hsame] at hx
        -- what the engine answers is what is reported
        cases a with
        | ok status state =>
          refine Prog.ends_ret ?_
          rw [hx]
          exact .read ref status state rfl hrefusals
            (.inl ⟨_, hissued ▸ List.mem_singleton_self _, rfl⟩) rfl
        -- and without an answer the action's own is
        | err status reason =>
          refine Prog.ends_ret ?_
          rw [hx]
          exact .unread ref status reason rfl hrefusals hissued
      · intro e x'' hx
        dsimp only [Polled] at hx
        rw [hx, hsame]
        exact .threw hreads hrefusals
    · intro e x' hsame
      rw [hsame]
      exact .threw hreads hrefusals

/-! ## The three ways -/

theorem ends_rollback {engines : Engines} {row : DeploymentId} {model : ExecutionModel}
    {application : Option ProviderRef} (h : x.2.Quiet) :
    (rollback (deploymentEngineFor engines row model) input application).Ends (listening perform)
      (fun r x' => Relayed input r x'.2) x := by
  unfold rollback
  split
  · refine Prog.ends_bind (ends_rollback_port h) (fun action x' hacted => ends_confirm hacted) ?_
    intro e x' hquiet
    exact .threw hquiet.reads hquiet.refusals
  · exact Prog.ends_ret (.early h.reads h.refusals (by
      show EngineStatus.notConfigured ≠ .succeeded
      decide))

/-- What making sure of the application leaves. -/
def Ensured (r : Except String (Except DeploymentExecutionResult ProviderRef)) (y : Heard) : Prop :=
  match r with
  | .ok (.error result) => y.reads = [] ∧ y.refusals = [result.status]
  | _ => y.Quiet

/-- What a target's answer leaves. -/
def TargetEnds (y : Heard) (r : Except String (AdapterResult ProviderRef)) (y' : Heard) : Prop :=
  match r with
  | .ok answer => y' = y.target answer
  | .error _ => y' = y

/-- Until there is an application nothing is asked about a deployment. -/
theorem ends_ensureApplication {engines : Engines} {row : DeploymentId} {model : ExecutionModel}
    {rootDirectory : Option String} {application : Option ProviderRef} (h : x.2.Quiet) :
    (ensureApplication (deploymentEngineFor engines row model) input rootDirectory
      application).Ends (listening perform) (fun r x' => Ensured r x'.2) x := by
  unfold ensureApplication
  cases application with
  -- there is an application already
  | some application => exact Prog.ends_ret h
  | none =>
    have hport : ∀ ctx target, ((deploymentEngineFor engines row model).ensureTarget ctx
        target).Ends (listening perform) (fun r x' => TargetEnds x.2 r x'.2) x := by
      intro ctx target
      unfold deploymentEngineFor
      split
      · exact ends_onEngine (c := .createApplication ctx _) (Q := TargetEnds x.2) (fun _ => rfl) fun _ => rfl
      split
      · exact ends_onEngine (c := .createFunction ctx _) (Q := TargetEnds x.2) (fun _ => rfl) fun _ => rfl
      · exact ends_onEngine (c := .createFunction ctx _) (Q := TargetEnds x.2) (fun _ => rfl) fun _ => rfl
    -- the new one's ref is stored, which is not listened to
    refine Prog.ends_bind (hport _ _) ?_ ?_
    · intro answer x' hx
      cases answer with
      | err status reason =>
        refine Prog.ends_ret ?_
        dsimp only [TargetEnds] at hx
        rw [hx]
        exact ⟨h.reads, by rw [Heard.target, h.refusals]; rfl⟩
      | ok status application =>
        have hremember : (rememberApplication input application).Only Mute := by
          unfold rememberApplication
          split
          · exact Prog.only_bind (only_must trivial) fun _ => trivial
          · exact Prog.only_bind (only_must trivial) fun _ => trivial
        have hquiet : x'.2.Quiet := hx ▸ h
        refine Prog.ends_bind (ends_mute hremember) ?_ ?_
        · intro _ x'' hsame
          exact Prog.ends_ret (hsame ▸ hquiet)
        · intro e x'' hsame
          exact hsame ▸ hquiet
    · intro e x' hx
      dsimp only [TargetEnds] at hx
      rw [hx]
      exact h

theorem mute_pollArtifact {row : DeploymentId} {ctx : AdapterContext} {buildRef : ProviderRef}
    (left : Nat) : (pollArtifact row ctx buildRef left).Only Mute := by
  induction left with
  | zero => trivial
  | succ left ih =>
    refine Prog.only_bind (Prog.only_call trivial) fun answer => ?_
    cases answer with
    | ok status artifact =>
      dsimp only
      split <;> trivial
    | err status reason =>
      dsimp only
      split
      · exact ih
      · trivial

/-- The environment and the build tell nothing of a deployment. -/
theorem mute_buildArtifact {model : ExecutionModel} {rootDirectory : Option String} :
    (buildArtifact model input rootDirectory).Only Mute := by
  unfold buildArtifact
  cases model with
  | container => trivial
  | serverless =>
    refine Prog.only_bind ?_ fun built => ?_
    · unfold runBuildStep
      split
      · trivial
      · refine Prog.only_bind (Prog.only_call trivial) fun answer => ?_
        cases answer with
        | err status reason => trivial
        | ok status ref =>
          refine Prog.only_bind ?_ fun _ => mute_pollArtifact _
          exact Prog.only_bind (only_must trivial) fun _ => trivial
    · cases built <;> trivial

theorem mute_syncEnvironment {engines : Engines} {model : ExecutionModel}
    {application : ProviderRef} :
    (syncEnvironment engines model input application).Only Mute := by
  unfold syncEnvironment
  cases engines.envVars <;> cases model <;> cases input.environmentId <;>
    first | trivial | exact Prog.only_call trivial

/-- A fresh start: a result is what the read-back relays, or a refusal, or comes before any. -/
theorem ends_create {engines : Engines} {row : DeploymentId} {model : ExecutionModel}
    {rootDirectory : Option String} {application : Option ProviderRef} (h : x.2.Quiet) :
    (create engines (deploymentEngineFor engines row model) input rootDirectory application).Ends
      (listening perform) (fun r x' => Relayed input r x'.2) x := by
  unfold create
  refine Prog.ends_bind (ends_ensureApplication h) ?_ ?_
  · intro ensured x₁ h₁
    cases ensured with
    | error refused => exact Prog.ends_ret (.refused h₁.1 h₁.2)
    | ok application =>
      -- up to the action nothing is heard that counts
      have hquiet : ∀ {y : Heard}, y = x₁.2 → y.Quiet := fun hsame => hsame ▸ h₁
      have hthrew : ∀ {e : String} {y : Heard}, y = x₁.2 → Relayed input (.error e) y := by
        intro e y hsame
        exact .threw (hquiet hsame).reads (hquiet hsame).refusals
      refine Prog.ends_bind (ends_mute mute_syncEnvironment) ?_ fun e x' hsame => hthrew hsame
      intro _ x₂ h₂
      refine Prog.ends_bind (ends_mute mute_buildArtifact) ?_
        fun e x' hsame => hthrew (hsame.trans h₂)
      intro built x₃ h₃
      have h₃ : x₃.2.Quiet := hquiet (h₃.trans h₂)
      cases built with
      | error reason =>
        exact Prog.ends_ret (.early h₃.reads h₃.refusals (by
          show EngineStatus.failed ≠ .succeeded
          decide))
      | ok built =>
        refine Prog.ends_bind (ends_deploy h₃) (fun action x' hacted => ends_confirm hacted) ?_
        intro e x' hquiet
        exact .threw hquiet.reads hquiet.refusals
  · intro e x' hquiet
    exact .threw hquiet.reads hquiet.refusals

/-- A build in flight is asked about; otherwise the handle, if there is one, is noted. -/
theorem ends_resume {engines : Engines} {row : DeploymentId} {model : ExecutionModel}
    {application : Option ProviderRef} (h : x.2.Quiet) :
    (resumeRunningDeployment (deploymentEngineFor engines row model) input application).Ends
      (listening perform) (fun r x' =>
        match r with
        | .error e => Relayed input (.error e) x'.2
        | .ok (some result) => Relayed input (.ok result) x'.2
        | .ok none => x'.2.Quiet) x := by
  obtain ⟨m, hport⟩ := port_getDeployment engines row model
  unfold resumeRunningDeployment getDeploymentForService
  refine Prog.ends_bind (Q := fun r x' =>
    match r with
    | .error _ => x'.2 = x.2
    | .ok stored => x'.2 = x.2.stored input.deploymentId stored) ?_ ?_ ?_
  · refine Prog.ends_await ?_
    -- the row that was read is noted with its handle, if it has one
    have hnote : ∀ c, listening perform x c =
        ((perform x.1 c).1, (perform x.1 c).2, x.2.note c (perform x.1 c).1) := fun _ => rfl
    rw [hnote]
    cases (perform x.1 (.store (.selectDeployment input.organizationId
      input.deploymentId))).1 with
    | error e => exact Prog.ends_raise rfl
    | ok stored => exact Prog.ends_ret rfl
  · intro stored x₁ h₁
    dsimp only at h₁
    have hquiet : x₁.2.Quiet := by
      rw [h₁]
      unfold Heard.stored
      split
      · exact h
      · exact ⟨h.issued, h.reads, h.refusals⟩
    -- no build is in flight
    cases hflight : inFlightHandle stored with
    | none => exact Prog.ends_ret hquiet
    | some found =>
      obtain ⟨stored', handle⟩ := found
      -- the handle that is polled is one that was stored
      have hhandle : (input.deploymentId, handle) ∈ x₁.2.handles := by
        unfold inFlightHandle at hflight
        split at hflight
        · cases hflight
        next row' =>
          split at hflight
          · cases hflight
          next handle' hresource =>
            split at hflight
            · obtain ⟨rfl, rfl⟩ := Prod.mk.inj (Option.some.inj hflight)
              rw [h₁, Heard.stored, Option.bind_some, hresource]
              exact List.mem_cons_self
            · cases hflight
      dsimp only
      rw [hport]
      refine Prog.ends_bind (ends_asked _ hquiet.reads) ?_ ?_
      · intro a x' hx
        cases a with
        | ok status state =>
          refine Prog.ends_ret ?_
          dsimp only [Polled] at hx ⊢
          rw [hx]
          exact .read _ status state rfl hquiet.refusals (.inr ⟨rfl, hhandle⟩) rfl
        | err status reason =>
          refine Prog.ends_ret ?_
          dsimp only [Polled] at hx ⊢
          rw [hx]
          exact .unpolled _ reason rfl hquiet.refusals hquiet.issued
      · intro e x' hx
        dsimp only [Polled] at hx ⊢
        rw [hx]
        exact .threw hquiet.reads hquiet.refusals
  · intro e x₁ h₁
    dsimp only at h₁ ⊢
    rw [h₁]
    exact .threw h.reads h.refusals

/-- **How the result follows**, whatever is answered. -/
theorem ends_execute {engines : Engines} (w : W) :
    (executeDeployment engines input).Ends (listening perform) (fun r x' => Relayed input r x'.2)
      (w, .nothing) := by
  have hstart : Heard.nothing.Quiet := ⟨rfl, rfl, rfl⟩
  have hthrew : ∀ {e : String} {y : Heard}, y = .nothing → Relayed input (.error e) y := by
    rintro e _ rfl
    exact .threw rfl rfl
  unfold executeDeployment
  refine Prog.ends_bind (ends_mute (only_must trivial)) ?_ fun e x' hsame => hthrew hsame
  intro target x₁ h₁
  have happlication : (resolveApplication input target).Only Mute := by
    unfold resolveApplication
    split
    · exact Prog.only_bind (only_must trivial) fun _ => trivial
    · trivial
  refine Prog.ends_bind (ends_mute happlication) ?_ fun e x' hsame => hthrew (hsame.trans h₁)
  rintro ⟨model, application⟩ x₂ h₂
  have hquiet : x₂.2.Quiet := (h₂.trans h₁) ▸ hstart
  refine Prog.ends_bind (ends_resume hquiet) ?_ fun e x' htold => htold
  intro resumed x₃ h₃
  cases resumed with
  | some result => exact Prog.ends_ret h₃
  | none =>
    dsimp only at h₃ ⊢
    cases input.action with
    | rollback => exact ends_rollback h₃
    | create => exact ends_create h₃

variable (perform) in
/-- One run of the executor: how it ended, and what was heard during it. -/
def execution (engines : Engines) (input : ExecuteDeploymentInput) (w : W) :
    Except String DeploymentExecutionResult × Heard :=
  let run := (executeDeployment engines input).eval (listening perform) (w, .nothing)
  (run.1, run.2.2)

/-- The run reports a success. -/
def Succeeds (r : Except String DeploymentExecutionResult) : Prop :=
  ∃ result, r = .ok result ∧ result.status = .succeeded

/-- During the run the engine answered, asked about a ref of its own, that it has succeeded. -/
def Heard.Confirms (y : Heard) (input : ExecuteDeploymentInput) : Prop :=
  ∃ ref status state, (ref, .ok status state) ∈ y.reads ∧ state.status = .succeeded ∧
    y.Issued input ref

/-- A refusal says `succeeded`; or the read-back is refused, and the action was answered
with `succeeded`, or there was none and the refusal itself says so. -/
def Heard.Blind (y : Heard) : Prop :=
  .succeeded ∈ y.refusals ∨
    ∃ ref status reason, (ref, .err status reason) ∈ y.reads ∧
      (.succeeded ∈ y.issued.map (·.1) ∨ y.issued = [] ∧ status = .succeeded)

/-- **A success was read from the engine, exactly if the run was not blind.** -/
theorem success_read_iff {W : Type} (perform : W → (c : Call) → Except String c.Ans × W)
    (engines : Engines) (input : ExecuteDeploymentInput) (w : W) :
    (Succeeds (execution perform engines input w).1 →
        (execution perform engines input w).2.Confirms input) ↔
      ¬ (execution perform engines input w).2.Blind := by
  have htold : Relayed input (execution perform engines input w).1
      (execution perform engines input w).2 := ends_execute w
  generalize (execution perform engines input w).1 = r at htold ⊢
  generalize (execution perform engines input w).2 = y at htold ⊢
  -- a run that read nothing confirms nothing
  have hunread : y.reads = [] → ¬ y.Confirms input := by
    rintro hreads ⟨ref, status, state, hread, _⟩
    rw [hreads] at hread
    cases hread
  have hquiet : y.reads = [] → y.refusals = [] → ¬ y.Blind := by
    rintro hreads hrefusals (h | ⟨ref, status, reason, hread, _⟩)
    · rw [hrefusals] at h
      cases h
    · rw [hreads] at hread
      cases hread
  -- one case for each way in which a run can end
  cases htold with
  | threw hreads hrefusals =>
    refine ⟨fun _ => hquiet hreads hrefusals, ?_⟩
    rintro _ ⟨_, hthrew, _⟩
    cases hthrew
  | early hreads hrefusals hstatus =>
    refine ⟨fun _ => hquiet hreads hrefusals, ?_⟩
    rintro _ ⟨_, hok, hsucceeded⟩
    cases hok
    exact absurd hsucceeded hstatus
  -- the engine refused, and the refusal is passed on
  | @refused result _ hreads hrefusals =>
    constructor
    · rintro h (hsaid | ⟨_, _, _, hread, _⟩)
      · rw [hrefusals, List.mem_singleton] at hsaid
        exact hunread hreads (h ⟨_, rfl, hsaid.symm⟩)
      · rw [hreads] at hread
        cases hread
    · rintro hblind ⟨_, hok, hsucceeded⟩
      cases hok
      refine absurd (.inl ?_) hblind
      rw [hrefusals, hsucceeded]
      exact List.mem_singleton_self _
  -- the state was read: what is reported is what was read
  | read ref status state hreads hrefusals hissued hstatus =>
    constructor
    · rintro _ (hsaid | ⟨_, _, _, hread, _⟩)
      · rw [hrefusals] at hsaid
        cases hsaid
      · rw [hreads, List.mem_singleton] at hread
        cases hread
    · rintro _ ⟨_, hok, hsucceeded⟩
      cases hok
      refine ⟨ref, status, state, ?_, hstatus.symm.trans hsucceeded, hissued⟩
      rw [hreads]
      exact List.mem_singleton_self _
  -- the read-back failed, and what is reported is what the action said
  | unread ref status reason hreads hrefusals hissued =>
    have hnot : ¬ y.Confirms input := by
      rintro ⟨_, _, _, hread, _⟩
      rw [hreads, List.mem_singleton] at hread
      cases hread
    constructor
    · rintro h (hsaid | ⟨_, _, _, _, hsaid | ⟨hnone, _⟩⟩)
      · rw [hrefusals] at hsaid
        cases hsaid
      · rw [hissued, List.map_singleton, List.mem_singleton] at hsaid
        exact hnot (h ⟨_, rfl, hsaid.symm⟩)
      · rw [hissued] at hnone
        cases hnone
    · rintro hblind ⟨_, hok, hsucceeded⟩
      cases hok
      refine absurd (.inr ⟨ref, status, reason, ?_, .inl ?_⟩) hblind
      · rw [hreads]
        exact List.mem_singleton_self _
      · rw [hissued, hsucceeded]
        exact List.mem_singleton_self _
  -- the poll failed, and what is reported is what the row said
  | unpolled ref reason hreads hrefusals hissued =>
    have hnot : ¬ y.Confirms input := by
      rintro ⟨_, _, _, hread, _⟩
      rw [hreads, List.mem_singleton] at hread
      cases hread
    constructor
    · rintro h (hsaid | ⟨_, _, _, hread, hsaid | ⟨_, hsaid⟩⟩)
      · rw [hrefusals] at hsaid
        cases hsaid
      · rw [hissued] at hsaid
        cases hsaid
      · rw [hreads, List.mem_singleton] at hread
        cases hread
        exact hnot (h ⟨_, rfl, hsaid⟩)
    · rintro hblind ⟨_, hok, hsucceeded⟩
      cases hok
      refine absurd (.inr ⟨ref, _, reason, ?_, .inr ⟨hissued, hsucceeded⟩⟩) hblind
      rw [hreads]
      exact List.mem_singleton_self _

end Environment

/-- A serverless project with a function; the builder builds, Lambda takes the code and
then cannot be asked. -/
def lambdaUnreadable (_ : Unit) : (c : Call) → Except String c.Ans × Unit
  | .store (.selectTarget ..) => (.ok (some ⟨some "lambda", some "site", .serverless, none⟩), ())
  | .store (.selectDeployment ..) => (.ok none, ())
  | .store (.patchDeployment _) => (.ok none, ())
  | .engine _ (.build ..) => (.ok (.ok .running ⟨1, "builder", .deployment, "build-1"⟩), ())
  | .engine _ (.getArtifact ..) => (.ok (.ok .succeeded ⟨some "image", none, []⟩), ())
  | .engine _ (.publish ..) => (.ok (.ok .succeeded ⟨1, "lambda", .function, "site"⟩), ())
  | .engine _ (.getDeployment ..) => (.ok (.err .degraded "AWS did not answer."), ())
  | _ => (.error "", ())

def siteInput : ExecuteDeploymentInput :=
  ⟨1, 1, "site", 1, "key", .create, some "https://github.com/acme/site.git", some "main", none,
    none, none, 600000, .production, none, none⟩

/-- The success that is reported then was not read from anybody. -/
theorem unread_success :
    ¬ (Succeeds (execution lambdaUnreadable ⟨none, false⟩ siteInput ()).1 →
      (execution lambdaUnreadable ⟨none, false⟩ siteInput ()).2.Confirms siteInput) := by
  intro h
  have hstatus : ((execution lambdaUnreadable ⟨none, false⟩ siteInput ()).1.map
      (·.status)).toOption = some .succeeded := by
    decide +kernel
  have hreads : ((execution lambdaUnreadable ⟨none, false⟩ siteInput ()).2.reads.all fun read =>
      !read.2.accepted) = true := by
    decide +kernel
  have hsucceeds : Succeeds (execution lambdaUnreadable ⟨none, false⟩ siteInput ()).1 := by
    cases hrun : (execution lambdaUnreadable ⟨none, false⟩ siteInput ()).1 with
    | error e =>
      rw [hrun] at hstatus
      cases hstatus
    | ok result =>
      rw [hrun] at hstatus
      exact ⟨result, rfl, Option.some.inj hstatus⟩
  obtain ⟨ref, status, state, hread, _⟩ := h hsucceeds
  cases List.all_eq_true.mp hreads _ hread

end CloudWai.Deployment
