import CloudWai.Runtime.Effects

/-!
# Which image a rollback returns to

A rollback is asked for a commit: `DeploymentJobPayload.commit` is "the git revision a
rollback returns to", and the executor has it in its hands. The adapter's request is about
the application and nothing else, and the runtime goes to `previousImage`, whatever that was
built from. `previousImage` is the image before the last good deploy, or, after a rollback,
the one that was rolled back from.

`ReturnsTo` is what a rollback to a commit should be: if it succeeds, the container serves
that commit, and if no image of that commit is kept, it is refused and the runtime stays as
it is. It is that exactly if it does not get to a previous image, or the previous image is of
the commit, or the current one is and the rollback comes to grief (`Returns`).

About `apps/worker/src/deployment-executor.ts`, `packages/adapters/src/selfhosted.ts` and
`infra/deployment/runtime-server.mjs`, run as one chain.
-/

namespace CloudWai.Runtime

open Base Deployment

variable {setup : Setup} {o : Outside} {w : Estate}

/-! ## The property -/

/-- The executor's rollback by the container engine, run to its end. -/
def Estate.rollBack (setup : Setup) (o : Outside) (input : ExecuteDeploymentInput)
    (application : Option ProviderRef) (w : Estate) :
    Except String DeploymentExecutionResult × Estate :=
  w.carryOut setup o
    (Deployment.rollback (containerDeploymentEngine input.deploymentId) input application)

/-- The image is of the commit. -/
def Image.builtFrom (commit : String) (image : Image) : Bool := image.build.revision == commit

/-- The application's container serves the commit. -/
def State.serves (id commit : String) (s : State) : Bool :=
  (s.apps.find id).any fun a => a.container.any fun c => c.image.builtFrom commit

/-- One of the two images the application keeps is of the commit. -/
def App.retains (commit : String) (a : App) : Bool :=
  a.currentImage.any (·.builtFrom commit) || a.previousImage.any (·.builtFrom commit)

/-- The runtime has an image of the commit. -/
def State.retains (id commit : String) (s : State) : Bool :=
  (s.apps.find id).any (·.retains commit)

/-- A rollback that is recorded as a success. -/
def Succeeds (r : Except String DeploymentExecutionResult) : Prop :=
  match r with
  | .ok result => result.status = .succeeded
  | .error _ => False

instance (r : Except String DeploymentExecutionResult) : Decidable (Succeeds r) :=
  match r with
  | .ok result => inferInstanceAs (Decidable (result.status = .succeeded))
  | .error _ => isFalse id

/-- A rollback that succeeds serves the image of that commit; without one it changes nothing. -/
structure ReturnsTo (setup : Setup) (o : Outside) (input : ExecuteDeploymentInput)
    (ref : ProviderRef) (commit : String) (w : Estate) : Prop where
  serves : Succeeds (w.rollBack setup o input (some ref)).1 →
    (w.rollBack setup o input (some ref)).2.runtime.serves ref.resourceId commit = true
  refused : w.runtime.retains ref.resourceId commit = false →
    ¬ Succeeds (w.rollBack setup o input (some ref)).1 ∧
      (w.rollBack setup o input (some ref)).2.runtime = w.runtime

/-! ## The condition -/

def rollbackPath (id : String) : String := s!"/apps/{id}/rollback"

def appPath (id : String) : String := s!"/apps/{id}"

/-- Both requests are answered, and docker starts what it is told to and says it runs. -/
structure GoesWell (o : Outside) (id : String) : Prop where
  asked : o.wire "POST" (rollbackPath id) = .answered
  started : o.docker = .started true
  readBack : o.wire "GET" (appPath id) = .answered
  running : o.running = true

/-- **The condition.** -/
def Returns (setup : Setup) (o : Outside) (input : ExecuteDeploymentInput) (ref : ProviderRef)
    (commit : String) (w : Estate) : Prop :=
  setup.reaches o input.organizationId "POST" (rollbackPath ref.resourceId) = true →
    ∀ a ∈ w.runtime.apps.find ref.resourceId, ∀ previous ∈ a.previousImage,
      previous.builtFrom commit = true ∨
        a.currentImage.any (·.builtFrom commit) = true ∧ ¬ GoesWell o ref.resourceId

/-! ## One request -/

section Request

variable {β : Type} {method path : String}

theorem classify_ne (code : Nat) : classify code ≠ .succeeded := by
  unfold classify
  split <;> decide

/-- What does not get to the runtime is answered with an error. -/
theorem call_away (ctx : AdapterContext) (route : State → Reply β × State) (s : State)
    (h : setup.reaches o ctx.organizationId method path = false) :
    ∃ status reason, call setup o ctx method path route s = (.err status reason, s) ∧
      status ≠ .succeeded := by
  unfold Setup.reaches at h
  unfold call
  cases hcreds : setup.credentials ctx.organizationId with
  | none => exact ⟨_, _, rfl, by decide⟩
  | some baseUrl =>
    rw [hcreds] at h
    dsimp only
    unfold request
    cases hwire : o.wire method path with
    | answered =>
      rw [hwire] at h
      cases h
    | unreachable message => exact ⟨_, _, rfl, by decide⟩
    | timedOut arrived =>
      rw [hwire] at h
      cases arrived with
      | true => cases h
      | false => exact ⟨_, _, rfl, by decide⟩

/-- What does get there is carried out, and the caller is told of it if it was accepted and
the answer came back. -/
theorem call_there (ctx : AdapterContext) (route : State → Reply β × State) (s : State)
    (h : setup.reaches o ctx.organizationId method path = true) :
    (call setup o ctx method path route s).2 = (route s).2 ∧
      ((∃ code body, (route s).1 = .accept code body ∧ o.wire method path = .answered ∧
          (call setup o ctx method path route s).1 = .ok .succeeded body) ∨
        ((∀ code body, (route s).1 ≠ .accept code body) ∨ o.wire method path ≠ .answered) ∧
          ∃ status reason, (call setup o ctx method path route s).1 = .err status reason ∧
            status ≠ .succeeded) := by
  unfold Setup.reaches at h
  unfold call
  cases hcreds : setup.credentials ctx.organizationId with
  | none =>
    rw [hcreds] at h
    cases h
  | some baseUrl =>
    rw [hcreds] at h
    dsimp only
    unfold request
    cases hwire : o.wire method path with
    | unreachable message =>
      rw [hwire] at h
      cases h
    | timedOut arrived =>
      rw [hwire] at h
      cases arrived with
      | false => cases h
      | true => exact ⟨rfl, .inr ⟨.inr nofun, _, _, rfl, by decide⟩⟩
    | answered =>
      dsimp only
      cases hroute : route s with
      | mk reply s' =>
        cases reply with
        | accept code body => exact ⟨rfl, .inl ⟨code, body, rfl, rfl, rfl⟩⟩
        | refuse code message =>
          exact ⟨rfl, .inr ⟨.inl (fun _ _ h => by cases h), _, _, rfl, classify_ne code⟩⟩

end Request

/-! ## The runtime's rollback -/

section Rollback

variable {s : State} {id : String}

/-- Nothing to return to. -/
theorem rollback_none (docker : Docker) (port : Nat)
    (h : ∀ a ∈ s.apps.find id, a.previousImage = none) :
    (State.rollback docker port id s).2 = s ∧
      ∀ code body, (State.rollback docker port id s).1 ≠ .accept code body := by
  unfold State.rollback State.route
  cases ha : s.apps.find id with
  | none => exact ⟨rfl, fun _ _ => nofun⟩
  | some a =>
    dsimp only
    rw [h a ha]
    exact ⟨rfl, fun _ _ => nofun⟩

/-- The previous image is started, whatever came of it. -/
theorem rollback_some (docker : Docker) (port : Nat) {a : App} {previous : Image}
    (ha : s.apps.find id = some a) (hprevious : a.previousImage = some previous) :
    (State.rollback docker port id s).2.starts = s.starts + 1 ∧
      (docker = .started true → ∃ a', (State.rollback docker port id s).1 = .accept 202 () ∧
        (State.rollback docker port id s).2.apps.find id = some a' ∧
        a'.container.map (·.image) = some previous ∧ a'.status = .succeeded) ∧
      (docker ≠ .started true → ∀ code body,
        (State.rollback docker port id s).1 ≠ .accept code body) := by
  unfold State.rollback State.route
  rw [ha]
  dsimp only
  rw [hprevious]
  dsimp only
  cases docker with
  | refused output => exact ⟨rfl, nofun, fun _ _ _ => nofun⟩
  | started running =>
    cases running with
    | false => exact ⟨rfl, nofun, fun _ _ _ => nofun⟩
    | true =>
      refine ⟨rfl, fun _ => ?_, fun h => absurd rfl h⟩
      unfold runContainer
      exact ⟨_, rfl, (Table.find_put _ _ _).trans (if_pos (app_id ha).symm), rfl, rfl⟩

/-- What is read back of an application, and that reading leaves its container alone. -/
theorem getApp_spec (running : Bool) {a : App} (ha : s.apps.find id = some a) :
    ∃ body a', State.getApp running id s = (.accept 200 body, s.put a') ∧ a'.id = a.id ∧
      a'.container = a.container ∧
      (a.status = .succeeded → (body.status = .succeeded ↔ running = true)) := by
  unfold State.getApp State.route
  rw [ha]
  dsimp only
  by_cases hseen : a.status = .succeeded ∧ running = false
  · rw [if_pos hseen]
    refine ⟨_, _, rfl, rfl, rfl, fun _ => ?_⟩
    simp [hseen.2]
  · rw [if_neg hseen]
    refine ⟨_, _, rfl, rfl, rfl, fun hsucceeded => ?_⟩
    have hrunning : running = true := by
      cases running with
      | true => rfl
      | false => exact absurd ⟨hsucceeded, rfl⟩ hseen
    exact iff_of_true hsucceeded hrunning

end Rollback

/-! ## The executor's rollback -/

variable {input : ExecuteDeploymentInput} {ref : ProviderRef} {commit : String}

theorem given_some {x : Option String} {y : String} (h : given x = some y) :
    given (some y) = some y := by
  unfold given at h ⊢
  split at h
  next htruthy =>
    rw [← h, if_pos htruthy]
  next => cases h

/-- The first of its calls. -/
theorem rollBack_eval (hcommit : given input.commit = some commit) (w : Estate) :
    w.rollBack setup o input (some ref) =
      (confirm (containerDeploymentEngine input.deploymentId) input
        (SelfHosted.rollback setup o input.ctx ref commit w.runtime).1 none none).eval
          (Estate.perform setup o)
          { w with runtime := (SelfHosted.rollback setup o input.ctx ref commit w.runtime).2 } := by
  unfold Estate.rollBack Estate.carryOut Deployment.rollback
  rw [hcommit]
  dsimp only [containerDeploymentEngine]
  rw [given_some hcommit]
  rfl

theorem rollBack_refused (hcommit : given input.commit = some commit) {status : EngineStatus}
    {reason : String} {s : State} (hstatus : status ≠ .succeeded)
    (h : SelfHosted.rollback setup o input.ctx ref commit w.runtime = (.err status reason, s)) :
    ¬ Succeeds (w.rollBack setup o input (some ref)).1 ∧
      (w.rollBack setup o input (some ref)).2.runtime = s := by
  rw [rollBack_eval hcommit, h]
  exact ⟨hstatus, rfl⟩

/-- The engine is asked, and if it consents, asked how things are. -/
theorem rollBack_accepted (hcommit : given input.commit = some commit) {accepted : EngineStatus}
    {ref' : ProviderRef} {s : State} (hstatus : accepted ≠ .succeeded)
    (happlication : ref'.resourceType = .application)
    (h : SelfHosted.rollback setup o input.ctx ref commit w.runtime = (.ok accepted ref', s)) :
    (w.rollBack setup o input (some ref)).2.runtime =
        (SelfHosted.getDeployment setup o input.ctx ref' s).2 ∧
      (Succeeds (w.rollBack setup o input (some ref)).1 ↔
        ∃ status state, (SelfHosted.getDeployment setup o input.ctx ref' s).1 = .ok status state ∧
          state.status = .succeeded) := by
  rw [rollBack_eval hcommit, h]
  unfold confirm
  simp only [happlication, containerDeploymentEngine, onEngine, reduceCtorEq, if_false,
    Option.isSome_none, Bool.false_eq_true, Prog.bind, Prog.call, Prog.eval, Estate.perform,
    Estate.engine, Estate.onRuntime]
  cases hgot : SelfHosted.getDeployment setup o input.ctx ref' s with
  | mk answer s' =>
    cases answer with
    | ok status state =>
      refine ⟨rfl, fun hsucceeded => ⟨status, state, rfl, hsucceeded⟩, ?_⟩
      rintro ⟨_, _, heq, hsucceeded⟩
      cases heq
      exact hsucceeded
    | err status reason =>
      refine ⟨rfl, fun hsucceeded => absurd hsucceeded hstatus, ?_⟩
      rintro ⟨_, _, heq, _⟩
      cases heq

/-! ## What a rollback comes to -/

section Adapter

variable {ctx : AdapterContext} {s s' : State}

theorem adapter_rollback_err (commit : String) {status : EngineStatus} {reason : String}
    (hstatus : status ≠ .succeeded)
    (h : call setup o ctx "POST" (rollbackPath ref.resourceId)
      (State.rollback o.docker o.port ref.resourceId) s = (.err status reason, s')) :
    ∃ status reason, SelfHosted.rollback setup o ctx ref commit s = (.err status reason, s') ∧
      status ≠ .succeeded := by
  unfold rollbackPath at h
  unfold SelfHosted.rollback
  dsimp only
  rw [h]
  dsimp only
  split
  · exact ⟨_, _, rfl, by decide⟩
  · exact ⟨_, _, rfl, hstatus⟩

theorem adapter_rollback_ok (commit : String) {status : EngineStatus}
    (h : call setup o ctx "POST" (rollbackPath ref.resourceId)
      (State.rollback o.docker o.port ref.resourceId) s = (.ok status (), s')) :
    SelfHosted.rollback setup o ctx ref commit s =
      (.ok .running (opRef ctx ref.resourceId .application), s') := by
  unfold rollbackPath at h
  unfold SelfHosted.rollback
  dsimp only
  rw [h]

end Adapter

/-- An application that succeeded, as it is read back. -/
theorem readBack_spec {ctx : AdapterContext} {s : State} {id : String} {a : App}
    (hcreds : (setup.credentials ctx.organizationId).isSome = true)
    (ha : s.apps.find id = some a) (hstatus : a.status = .succeeded) :
    let r := SelfHosted.getDeployment setup o ctx (opRef ctx id .application) s
    r.2.starts = s.starts ∧
      (∃ a', r.2.apps.find id = some a' ∧ a'.container = a.container) ∧
      ((∃ status state, r.1 = .ok status state ∧ state.status = .succeeded) ↔
        o.wire "GET" (appPath id) = .answered ∧ o.running = true) := by
  intro r
  have hr : r = ((call setup o ctx "GET" (appPath id) (State.getApp o.running id) s).1.report
      .succeeded (fun body => ⟨mapStatus body.status, body.url, body.engineReason⟩),
      (call setup o ctx "GET" (appPath id) (State.getApp o.running id) s).2) := rfl
  rw [hr]
  obtain ⟨body, a', hgot, hid, hcontainer, hseen⟩ := getApp_spec o.running ha
  cases hreached : setup.reaches o ctx.organizationId "GET" (appPath id) with
  | false =>
    obtain ⟨status, reason, hcall, _⟩ := call_away ctx (State.getApp o.running id) s hreached
    rw [hcall]
    refine ⟨rfl, ⟨a, ha, rfl⟩, ?_, ?_⟩
    · rintro ⟨_, _, heq, _⟩
      cases heq
    · intro hwell
      unfold Setup.reaches at hreached
      rw [hcreds, hwell.1] at hreached
      cases hreached
  | true =>
    obtain ⟨hafter, hanswer⟩ := call_there ctx (State.getApp o.running id) s hreached
    rw [hgot] at hafter hanswer
    rw [hafter]
    refine ⟨rfl, ⟨a', ?_, hcontainer⟩, ?_⟩
    · exact (Table.find_put _ _ _).trans (if_pos ((app_id ha).symm.trans hid.symm))
    · rcases hanswer with ⟨_, _, haccept, hwire, hcall⟩ | ⟨hno, status, reason, hcall, _⟩
      · cases haccept
        rw [hcall]
        constructor
        · rintro ⟨_, _, heq, hsucceeded⟩
          cases heq
          refine ⟨hwire, (hseen hstatus).mp ?_⟩
          revert hsucceeded
          show mapStatus body.status = .succeeded → _
          cases body.status <;> intro hmapped <;> first | rfl | cases hmapped
        · intro hwell
          refine ⟨_, _, rfl, ?_⟩
          show mapStatus body.status = .succeeded
          rw [(hseen hstatus).mpr hwell.2]
          rfl
      · rw [hcall]
        constructor
        · rintro ⟨_, _, heq, _⟩
          cases heq
        · intro hwell
          rcases hno with hrefused | hwire
          · exact absurd rfl (hrefused 200 body)
          · exact absurd hwell.1 hwire

/-- There is an image to return to, and the request gets there. -/
structure Returning (setup : Setup) (o : Outside) (input : ExecuteDeploymentInput)
    (ref : ProviderRef) (w : Estate) (a : App) (previous : Image) : Prop where
  reached : setup.reaches o input.organizationId "POST" (rollbackPath ref.resourceId) = true
  app : w.runtime.apps.find ref.resourceId = some a
  image : a.previousImage = some previous

/-- Where there is none, the rollback is refused and nothing was done. -/
theorem rollBack_untouched (hcommit : given input.commit = some commit)
    (h : ∀ a previous, ¬ Returning setup o input ref w a previous) :
    ¬ Succeeds (w.rollBack setup o input (some ref)).1 ∧
      (w.rollBack setup o input (some ref)).2.runtime = w.runtime := by
  have hcall : ∃ status reason, call setup o input.ctx "POST" (rollbackPath ref.resourceId)
      (State.rollback o.docker o.port ref.resourceId) w.runtime =
        (.err status reason, w.runtime) ∧ status ≠ .succeeded := by
    cases hreached : setup.reaches o input.organizationId "POST" (rollbackPath ref.resourceId) with
    | false => exact call_away _ _ _ hreached
    | true =>
      have hnone : ∀ a ∈ w.runtime.apps.find ref.resourceId, a.previousImage = none := by
        intro a ha
        cases hprevious : a.previousImage with
        | none => rfl
        | some previous => exact absurd ⟨hreached, ha, hprevious⟩ (h a previous)
      obtain ⟨hstate, hrefused⟩ := rollback_none o.docker o.port hnone
      obtain ⟨hafter, ⟨_, _, haccept, _⟩ | ⟨_, status, reason, herr, hstatus⟩⟩ :=
        call_there input.ctx (State.rollback o.docker o.port ref.resourceId) w.runtime hreached
      · exact absurd haccept (hrefused _ _)
      · exact ⟨status, reason, Prod.ext herr (hafter.trans hstate), hstatus⟩
  obtain ⟨status, reason, hcall, hstatus⟩ := hcall
  obtain ⟨status, reason, hrollback, hstatus⟩ := adapter_rollback_err commit hstatus hcall
  exact rollBack_refused hcommit hstatus hrollback

/-- Where there is one, docker is told to start it, and the rollback succeeds if all goes
well, with that image in the container. -/
theorem rollBack_returning (hcommit : given input.commit = some commit) {a : App}
    {previous : Image} (h : Returning setup o input ref w a previous) :
    (w.rollBack setup o input (some ref)).2.runtime ≠ w.runtime ∧
      (Succeeds (w.rollBack setup o input (some ref)).1 ↔ GoesWell o ref.resourceId) ∧
      (GoesWell o ref.resourceId → ∃ a',
        (w.rollBack setup o input (some ref)).2.runtime.apps.find ref.resourceId = some a' ∧
          a'.container.map (·.image) = some previous) := by
  obtain ⟨hstarts, hgood, hbad⟩ := rollback_some o.docker o.port h.app h.image
  have hcreds : (setup.credentials input.ctx.organizationId).isSome = true := by
    have hreached := h.reached
    unfold Setup.reaches at hreached
    exact (Bool.and_eq_true_iff.mp hreached).1
  obtain ⟨hafter, ⟨_, _, haccept, hwire, hok⟩ | ⟨hno, status, reason, herr, hstatus⟩⟩ :=
    call_there input.ctx (State.rollback o.docker o.port ref.resourceId) w.runtime h.reached
  · -- the runtime consents
    have hdocker : o.docker = .started true := by
      by_contra hdocker
      exact hbad hdocker _ _ haccept
    obtain ⟨a', _, ha', himage, hsucceeded⟩ := hgood hdocker
    have hrollback := adapter_rollback_ok commit (Prod.ext hok hafter)
    obtain ⟨hruntime, hsucceeds⟩ := rollBack_accepted hcommit (by decide) rfl hrollback
    obtain ⟨hcount, ⟨b, hb, hcontainer⟩, hread⟩ :=
      readBack_spec hcreds ha' hsucceeded
    rw [hruntime]
    refine ⟨fun heq => ?_, ?_, fun _ => ⟨b, hb, hcontainer ▸ himage⟩⟩
    · have hsame := congrArg State.starts heq
      rw [hcount, hstarts] at hsame
      exact absurd hsame (Nat.succ_ne_self _)
    · rw [hsucceeds, hread]
      constructor
      · intro hwell
        exact ⟨hwire, hdocker, hwell.1, hwell.2⟩
      · intro hwell
        exact ⟨hwell.readBack, hwell.running⟩
  · -- the caller is told of an error, whatever was done
    obtain ⟨status, reason, hrollback, hstatus⟩ :=
      adapter_rollback_err commit hstatus (Prod.ext herr hafter)
    obtain ⟨hfails, hruntime⟩ := rollBack_refused hcommit hstatus hrollback
    have hill : ¬ GoesWell o ref.resourceId := by
      intro hwell
      rcases hno with hrefused | hwire
      · obtain ⟨_, haccept, _⟩ := hgood hwell.started
        exact hrefused _ _ haccept
      · exact hwire hwell.asked
    rw [hruntime]
    refine ⟨fun heq => ?_, iff_of_false hfails hill, fun hwell => absurd hwell hill⟩
    have hsame := congrArg State.starts heq
    rw [hstarts] at hsame
    exact absurd hsame (Nat.succ_ne_self _)

/-- **One rollback**, exactly. -/
theorem returnsTo_iff (hcommit : given input.commit = some commit) :
    ReturnsTo setup o input ref commit w ↔ Returns setup o input ref commit w := by
  constructor
  · intro h hreached a ha previous hprevious
    obtain ⟨hchanged, hsucceeds, hserved⟩ :=
      rollBack_returning hcommit (Returning.mk hreached ha hprevious)
    by_cases hbuilt : previous.builtFrom commit = true
    · exact .inl hbuilt
    refine .inr ⟨?_, fun hwell => ?_⟩
    · -- an image of the commit is kept, or it would have been refused
      by_contra hcurrent
      refine hchanged (h.refused ?_).2
      unfold State.retains
      rw [ha]
      show a.retains commit = false
      unfold App.retains
      rw [hprevious, Bool.or_eq_false_iff]
      exact ⟨Bool.eq_false_of_not_eq_true hcurrent, Bool.eq_false_of_not_eq_true hbuilt⟩
    · obtain ⟨a', ha', himage⟩ := hserved hwell
      have hserves := h.serves (hsucceeds.mpr hwell)
      unfold State.serves at hserves
      rw [ha'] at hserves
      obtain ⟨c, hc, himage⟩ := Option.map_eq_some_iff.mp himage
      rw [Option.any_some, hc, Option.any_some, himage] at hserves
      exact hbuilt hserves
  · intro h
    by_cases hreturning : ∃ a previous, Returning setup o input ref w a previous
    · obtain ⟨a, previous, hreturning⟩ := hreturning
      obtain ⟨hchanged, hsucceeds, hserved⟩ := rollBack_returning hcommit hreturning
      have hcase := h hreturning.reached a hreturning.app previous hreturning.image
      refine ⟨fun hsucceeded => ?_, fun hnone => ?_⟩
      · rcases hcase with hbuilt | ⟨_, hill⟩
        · obtain ⟨a', ha', himage⟩ := hserved (hsucceeds.mp hsucceeded)
          obtain ⟨c, hc, himage⟩ := Option.map_eq_some_iff.mp himage
          unfold State.serves
          rw [ha', Option.any_some, hc, Option.any_some, himage]
          exact hbuilt
        · exact absurd (hsucceeds.mp hsucceeded) hill
      · exfalso
        unfold State.retains at hnone
        rw [hreturning.app] at hnone
        have hnone : (a.currentImage.any (·.builtFrom commit) ||
          a.previousImage.any (·.builtFrom commit)) = false := hnone
        rw [hreturning.image, Bool.or_eq_false_iff, Option.any_some] at hnone
        rcases hcase with hbuilt | ⟨hcurrent, _⟩
        · rw [hbuilt] at hnone
          cases hnone.2
        · rw [hcurrent] at hnone
          cases hnone.1
    · have hno : ∀ a previous, ¬ Returning setup o input ref w a previous :=
        fun a previous h => hreturning ⟨a, previous, h⟩
      obtain ⟨hfails, hsame⟩ := rollBack_untouched hcommit hno
      exact ⟨fun hsucceeded => absurd hsucceeded hfails, fun _ => ⟨hfails, hsame⟩⟩

/-! ## Whole runs -/

/-- An operation of the installation, or a rollback of an application by the executor. -/
inductive Turn where
  | move (m : Move)
  | rollback (input : ExecuteDeploymentInput) (application : Option ProviderRef)
      (outside : Outside)

/-- A move of the system, or a rollback at the engine. -/
def turn (setup : Setup) (w : Estate) : Turn → Estate
  | .move m => step setup w m
  | .rollback input application o => (w.rollBack setup o input application).2

/-- **A rollback to a commit goes to that commit.** -/
def GoesBack (setup : Setup) (w : Estate) : Turn → Prop
  | .move _ => True
  | .rollback input application o => ∀ ref ∈ application, ∀ commit ∈ given input.commit,
      ReturnsTo setup o input ref commit w

/-- **The condition**, of each rollback. -/
def HasCommit (setup : Setup) (w : Estate) : Turn → Prop
  | .move _ => True
  | .rollback input application o => ∀ ref ∈ application, ∀ commit ∈ given input.commit,
      Returns setup o input ref commit w

/-- **Rollbacks go to the commits that were asked for, exactly where these are the previous
images' or nothing comes of the rollback.** -/
theorem rollbacks_return_iff (setup : Setup) (w : Estate) (ts : List Turn) :
    EachStep (turn setup) (GoesBack setup) w ts ↔ EachStep (turn setup) (HasCommit setup) w ts := by
  refine eachStep_iff (J := fun _ => True) trivial (fun _ _ _ _ => trivial) fun w t _ => ?_
  cases t with
  | move m => exact Iff.rfl
  | rollback input application o =>
    exact forall₂_congr fun ref _ => forall₂_congr fun commit hcommit => returnsTo_iff hcommit

/-- The site at a commit is built and runs. -/
def builtAt (commit : String) : Outcome :=
  ⟨.ok ⟨some ⟨commit, [("main", commit)], ["main"]⟩, true, commit⟩, none, .started true, 18100,
    fun _ => none⟩

/-- One deploy, from the request to the end of its run. -/
def deployOf (job : JobId) (attempt commit : String) : List Turn :=
  [.move ⟨.request owner { production with idempotencyKey := attempt }, calm⟩,
    .move ⟨.deliver aWorker job, { calm with attempt := attempt }⟩,
    .move ⟨.finish attempt (builtAt commit), calm⟩]

/-- What the executor is given for a rollback of the site. -/
def backTo (commit : String) : ExecuteDeploymentInput where
  organizationId := 1
  projectId := 0
  projectSlug := "site"
  deploymentId := 3
  idempotencyKey := "rollback"
  action := .rollback
  gitRepository := none
  gitBranch := none
  buildPack := none
  rootDirectory := none
  commit := some commit
  timeoutMs := 120000
  kind := .production
  previewKey := none
  environmentId := none

def theSite : ProviderRef := ⟨1, "selfhosted", .application, "app"⟩

theorem rolled_back_elsewhere : ¬ ∀ (setup : Setup) (w : Estate) (ts : List Turn),
    EachStep (turn setup) (GoesBack setup) w ts := by
  intro h
  have hrun := h installation Estate.scripted
    (deployOf 0 "a" "c0" ++ deployOf 1 "b" "c1" ++ deployOf 2 "c" "c2" ++
      [.rollback (backTo "c0") (some theSite) calm])
  have hback := (EachStep.at hrun) theSite rfl "c0" rfl
  have hserves := hback.serves
  revert hserves
  decide +kernel

end CloudWai.Runtime
