import CloudWai.Deployment.Routine
import CloudWai.Deployment.System

/-!
# Tasks that start nothing

A reap, a sweep, a cancel, a promotion and a look at the logs only read, settle and
end what is there (`Aloof`): they make no row, no job, no preview target and no
application, and they start no build. Whatever a result says about who makes such a
thing, it need only look at the workers, the requests and the webhook.
-/

namespace CloudWai.Deployment

open Base Queue ControlPlaneStore

/-- It makes nothing and starts nothing. -/
def Aloof : Call → Prop
  | .queue (.insert _) => False
  | .queue (.claim _ _) => False
  | .queue _ => True
  | .store (.insertDeployment _) => False
  | .store (.insertPreviewTarget ..) => False
  | .store (.patchProjectProvider ..) => False
  | .store (.patchPreviewTarget ..) => False
  | .store _ => True
  | .engine _ (.getDeployment ..) => True
  | .engine _ (.cancelDeployment ..) => True
  | .engine _ (.deleteFunction ..) => True
  | .engine _ (.getLogs ..) => True
  | .engine _ (.getBuildLogs ..) => True
  | .engine _ _ => False

/-- The tasks that are. -/
def Task.Watches : Task → Prop
  | .reap | .sweep _ | .cancel .. | .promote .. | .logs .. => True
  | .work _ | .request .. | .rollback .. | .hook .. => False

variable (engines : Engines)

theorem aloof_celebrate (id : DeploymentId) (org : OrganizationId) (project : ProjectId)
    (kind : DeploymentKind) (staged : Bool) :
    (celebrate id org project kind staged).Only Aloof := by
  refine Prog.only_bind ?_ fun _ => only_must trivial
  split
  · refine Prog.only_bind ?_ fun _ => trivial
    refine Prog.only_bind (only_must trivial) fun _ => ?_
    refine Prog.only_bind (only_must trivial) fun moved => ?_
    cases moved with
    | false => trivial
    | true => exact Prog.only_bind (only_must trivial) fun _ => trivial
  · trivial

theorem aloof_writeSettled (row : DeploymentRow) (now : Instant) (settled : Settled) :
    (writeSettled row now settled).Only Aloof := by
  refine Prog.only_bind (only_must trivial) fun _ => ?_
  split
  · exact Prog.only_bind (aloof_celebrate _ _ _ _ _) fun _ => trivial
  · trivial

theorem aloof_settleOne (options : ReconcilerOptions) (now : Instant) (row : DeploymentRow) :
    (settleOne engines options now row).Only Aloof := by
  refine Prog.only_bind (only_must trivial) fun target => ?_
  split
  · split
    · trivial
    · exact aloof_writeSettled _ _ _
  · obtain ⟨m, hm⟩ := port_getDeployment engines row.id (sweepModel row target)
    simp only [hm]
    refine Prog.only_bind (Prog.only_call trivial) fun state => ?_
    split
    · exact aloof_writeSettled _ _ _
    · trivial

theorem aloof_settleAll (options : ReconcilerOptions) (now : Instant) (rows : List DeploymentRow) :
    (settleAll engines options now rows).Only Aloof := by
  induction rows with
  | nil => trivial
  | cons row rest ih =>
    exact Prog.only_bind (aloof_settleOne engines options now row) fun _ =>
      Prog.only_bind ih fun _ => trivial

theorem aloof_reconcile (options : ReconcilerOptions) :
    (reconcile engines options).Only Aloof :=
  Prog.only_bind (only_clock trivial) fun _ =>
    Prog.only_bind (only_must trivial) fun _ => aloof_settleAll engines options _ _

theorem aloof_authorizedProject (ctx : RequestContext) (project : ProjectId) (c : Capability) :
    (authorizedProject ctx project c).Only Aloof := by
  refine Prog.only_bind (only_must trivial) fun found => ?_
  cases found with
  | none => trivial
  | some project =>
    refine Prog.only_bind ?_ fun _ => trivial
    unfold requireCapability
    split <;> trivial

theorem aloof_projectDeployment (ctx : RequestContext) (project : ProjectRow) (id : DeploymentId) :
    (projectDeployment ctx project id).Only Aloof := by
  refine Prog.only_bind (only_must trivial) fun found => ?_
  cases found with
  | none => trivial
  | some row =>
    simp only
    split <;> trivial

/-- A cancel makes nothing and starts nothing. -/
theorem aloof_cancelRow (ctx : RequestContext) (project : ProjectRow) (row : DeploymentRow) :
    (cancelRow engines ctx project row).Only Aloof := by
  have hclose : ∀ reason, (closeRow ctx project.organizationId row reason).Only Aloof := by
    intro reason
    refine Prog.only_bind (only_clock trivial) fun _ => ?_
    refine Prog.only_bind (only_clock trivial) fun _ => ?_
    refine Prog.only_bind (only_must trivial) fun _ => ?_
    exact Prog.only_bind (only_must trivial) fun _ => trivial
  unfold cancelRow
  split
  · trivial
  simp only
  split
  · exact hclose _
  · have hcancel : ∀ ctx ref, ((deploymentEngineFor engines row.id project.executionModel).cancel
        ctx ref).Only Aloof := by
      intro ctx ref
      rcases port_cancel engines row.id project.executionModel ctx ref with ⟨_, h⟩ | h | h
      all_goals rw [h]
      · trivial
      · exact Prog.only_call trivial
      · exact Prog.only_call trivial
    refine Prog.only_bind (hcancel _ _) fun answer => ?_
    cases answer with
    | err status reason =>
      refine Prog.only_bind (only_clock trivial) fun _ => ?_
      exact Prog.only_bind (only_must trivial) fun _ => trivial
    | ok status value => exact hclose _

theorem aloof_promoteRow (ctx : RequestContext) (project : ProjectRow) (row : DeploymentRow) :
    (promoteRow ctx project row).Only Aloof := by
  unfold promoteRow
  split
  · trivial
  split
  · trivial
  refine Prog.only_bind ?_ fun promoted => ?_
  · refine Prog.only_bind (only_must trivial) fun _ => ?_
    refine Prog.only_bind (only_must trivial) fun moved => ?_
    cases moved with
    | false => trivial
    | true => exact Prog.only_bind (only_must trivial) fun _ => trivial
  · obtain ⟨promoted, previous⟩ := promoted
    cases promoted with
    | none => trivial
    | some promoted => exact Prog.only_bind (only_must trivial) fun _ => trivial

theorem aloof_deploymentsLogs (ctx : RequestContext) (project : ProjectId) (id : DeploymentId)
    (cursor : Option String) : (deploymentsLogs engines ctx project id cursor).Only Aloof := by
  refine Prog.only_bind (aloof_authorizedProject ctx project .read) fun project => ?_
  refine Prog.only_bind (only_must trivial) fun row => ?_
  refine Prog.only_bind (only_must trivial) fun target => ?_
  simp only
  split
  · exact Prog.only_bind (Prog.only_call trivial) fun _ => trivial
  · split
    · trivial
    · refine Prog.only_bind ?_ fun _ => trivial
      unfold deploymentEngineFor
      split
      · exact Prog.only_call trivial
      split
      · exact Prog.only_call trivial
      · exact Prog.only_call trivial

/-- **A task that watches** makes no other calls. -/
theorem aloof_body {t : Task} (h : t.Watches) : (t.body engines).Only Aloof := by
  cases t with
  | reap =>
    refine Prog.only_bind ?_ fun _ => trivial
    exact Prog.only_bind (only_clock trivial) fun _ => only_queue trivial
  | sweep options => exact Prog.only_bind (aloof_reconcile engines options) fun _ => trivial
  | cancel ctx project id =>
    refine Prog.only_bind ?_ fun _ => trivial
    refine Prog.only_bind (aloof_authorizedProject ctx project .cancel) fun project => ?_
    refine Prog.only_bind (aloof_projectDeployment ctx project id) fun row => ?_
    exact aloof_cancelRow engines ctx project row
  | promote ctx project id =>
    refine Prog.only_bind ?_ fun _ => trivial
    refine Prog.only_bind (aloof_authorizedProject ctx project .rollback) fun project => ?_
    refine Prog.only_bind (aloof_projectDeployment ctx project id) fun row => ?_
    exact aloof_promoteRow ctx project row
  | logs ctx project id cursor =>
    exact Prog.only_bind (aloof_deploymentsLogs engines ctx project id cursor) fun _ => trivial
  | _ => exact h.elim

end CloudWai.Deployment
