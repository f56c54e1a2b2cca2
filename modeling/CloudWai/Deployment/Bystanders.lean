import CloudWai.Deployment.Moves
import CloudWai.Deployment.Routine

/-!
# Calls that are not about the row

Most of what a thread does is not about deployment row `d`: the queue's own
requests, another row's delivery, a project's settings. Such a call is `Quiet`:
it is answered or it throws, and neither shows the row anything or does anything
to it. A program of quiet calls leaves a stage that is `Calm` as it was.
-/

namespace CloudWai.Deployment

open Base Queue ControlPlaneStore

variable {d : DeploymentId} {α : Type}

/-! ## Calls that are not about the row -/

/-- A call that shows the row nothing and does nothing to it. -/
def Quiet (d : DeploymentId) : Call → Prop
  | .queue (.claim _ _) => False
  | .queue _ => True
  | .store (.selectDeployment _ id) => id ≠ d
  | .store (.selectStranded _ _) => False
  | .store (.selectProjectOfMember _ _) => False
  | .store (.selectProject _ _) => False
  | .store (.selectDeploymentOfMember _ id) => id ≠ d
  | .store (.insertDeployment _) => False
  | .store (.patchDeployment p) => p.id ≠ d
  | .store (.insertUsage settled _ _ _) => settled ≠ d
  | .store _ => True
  | .engine _ (.build _ _) => True
  | .engine _ (.getArtifact _ _) => True
  | .engine _ (.syncEnvVars _ _ _ _) => True
  | .engine _ (.getLogs _ _ _ _) => True
  | .engine _ (.getBuildLogs _ _ _) => True
  | .engine row _ => row ≠ d

/-- Nothing but the time is learnt from it. -/
theorem sight_quiet {c : Call} (h : Quiet d c) (r : Except String c.Ans) :
    sight d c r = .other (threw r) ∨ ∃ now, r.toOption.isSome ∧ sight d c r = .dated now := by
  cases c with
  | queue c =>
    cases c with
    | claim worker n => exact h.elim
    | clock =>
      cases r with
      | ok now => exact .inr ⟨now, rfl, rfl⟩
      | error e => exact .inl rfl
    | _ => cases r <;> exact .inl rfl
  | engine row c =>
    left
    by_cases hrow : row = d
    · cases c with
      | build ctx request => cases r <;> exact (if_pos hrow).trans rfl
      | getArtifact ctx ref => cases r <;> exact (if_pos hrow).trans rfl
      | syncEnvVars ctx ref project environment => cases r <;> exact (if_pos hrow).trans rfl
      | getLogs model ctx ref cursor => cases r <;> exact (if_pos hrow).trans rfl
      | getBuildLogs ctx ref cursor => cases r <;> exact (if_pos hrow).trans rfl
      | _ => exact absurd hrow h
    · exact if_neg hrow
  | store c =>
    left
    cases c with
    | selectStranded olderThan limit => exact h.elim
    | selectProjectOfMember user project => exact h.elim
    | selectProject org project => exact h.elim
    | insertDeployment input => exact h.elim
    | selectDeployment org id => cases r <;> simp [sight, storeSight, show id ≠ d from h, threw]
    | selectDeploymentOfMember user id =>
      cases r with
      | error e => rfl
      | ok row => cases row <;> simp [sight, storeSight, show id ≠ d from h, threw]
    | patchDeployment p => cases r <;> simp [sight, storeSight, show p.id ≠ d from h, threw]
    | insertUsage settled org metric n =>
      cases r <;> simp [sight, storeSight, show settled ≠ d from h, threw]
    | _ => cases r <;> rfl

/-- A stage that quiet calls leave alone, thrown or not. -/
def Stage.Calm : Stage → Prop
  | .sweeping _ => False
  | .delivering _ _ => False
  | .owing _ => False
  | _ => True

theorem move_calm {x : Stage} (hx : x.Calm) {c : Call} (h : Quiet d c) (r : Except String c.Ans) :
    x.move (sight d c r) = some x := by
  rcases sight_quiet h r with hs | ⟨now, _, hs⟩
  all_goals
    rw [hs]
    cases x with
    | delivering org ph => exact hx.elim
    | owing org => exact hx.elim
    | sweeping options => exact hx.elim
    | _ => rfl

/-- A quiet program leaves a calm stage as it was. -/
theorem follows_calm {x : Stage} (hx : x.Calm) {p : PlaneProg α} (hp : p.Only (Quiet d)) :
    (rowProtocol d).Follows (fun _ x' => x' = x) x p :=
  Protocol.follows_of_only hp fun _ hc r _ => move_calm hx hc r

/-! ## Programs that are not about the row -/

theorem quiet_of_routine {id : DeploymentId} (hid : id ≠ d) {c : Call} (h : Routine id c) :
    Quiet d c := by
  have hne : ∀ {i : DeploymentId}, i = id → i ≠ d := fun hi he => hid (hi.symm.trans he)
  cases c with
  | queue c => cases c <;> trivial
  | store c => cases c <;> first | trivial | exact h.elim | exact hne h
  | engine row c => cases c <;> first | trivial | exact hne h

/-- Nothing a delivery does is about another row. -/
theorem quiet_of_delivering {id : DeploymentId} (hid : id ≠ d) {c : Call}
    (h : Delivering id c) : Quiet d c := by
  rcases h with h | h
  · exact quiet_of_routine hid h
  · cases c with
    | queue c => exact h.elim
    | store c => cases c <;> trivial
    | engine row c =>
      cases c <;> first | exact h.elim | exact fun he => hid (h.symm.trans he) | trivial

theorem quiet_celebrate {id : DeploymentId} (hid : id ≠ d) (o : OrganizationId)
    (project : ProjectId) (kind : DeploymentKind) (staged : Bool) :
    (celebrate id o project kind staged).Only (Quiet d) :=
  Prog.only_mono (fun _ h => quiet_of_delivering hid (.inl h)) (only_celebrate _ _ _ _ _)

/-- A delivery of another row's job, or of a job of another kind. -/
theorem only_deliver (engines : Engines) (options : WorkerOptions)
    {job : Job DeploymentJobPayload}
    (hother : job.kind = deploymentJobKind → job.payload.deploymentId ≠ d) :
    (InProcessWorker.deliver planePort options (handlers engines) deploymentApplier job).Only
      (Quiet d) := by
  by_cases hkind : job.kind = deploymentJobKind
  · exact Prog.only_mono (fun _ h => quiet_of_delivering (hother hkind) h)
      (only_delivery engines options job)
  · -- no handler takes it, and the applier looks away
    unfold InProcessWorker.deliver handlers
    simp only [hkind, if_false]
    have hterminate := @only_terminate (d + 1) job.id (noHandler job.kind)
    refine Prog.only_bind (Prog.only_mono (fun _ h => ?_) hterminate) fun _ => ?_
    · exact quiet_of_delivering (Nat.succ_ne_self d) (.inl h)
    · refine Prog.only_bind (Prog.only_attempt ?_) fun _ => trivial
      unfold deploymentApplier
      rw [if_pos hkind]
      trivial

end CloudWai.Deployment
