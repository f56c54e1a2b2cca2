import CloudWai.Base.Triple
import CloudWai.Deployment.Routine
import CloudWai.Runtime.Steady
import CloudWai.Runtime.System

/-!
# Which calls matter

Nearly every call of the deployment code is quiet: it leaves alone which
application belongs to which project and to which preview, the variables and the
domains, what the edge serves, and of the runtime what `Steady` says. The others
are few: an application is created, it is written into its row, the variables are
pushed.
-/

namespace CloudWai.Runtime

open Base Queue Deployment

variable {setup : Setup} {o : Outside} {w w' w'' : Estate}

/-! ## Who has which application -/

/-- A project's organization and its application, if it has one. -/
def seat (s : Store) (p : ProjectId) : Option (OrganizationId × Option String) :=
  (s.projects.find p).map fun r => (r.organizationId, given r.providerResourceId)

/-- The application of a preview target. -/
def previewSeat (s : Store) (t : Nat) : Option String :=
  (s.previewTargets.find t).bind fun r => given r.providerResourceId

/-- The project's production application. -/
def Estate.appOf (w : Estate) (p : ProjectId) : Option String := (seat w.store p).bind (·.2)

theorem appOf_of_seat {w w' : Estate} (h : seat w'.store = seat w.store) : w'.appOf = w.appOf := by
  unfold Estate.appOf
  rw [h]

/-- `p` is `project` of the organization. -/
theorem project_eq_some {s : Store} {org : OrganizationId} {project : ProjectId} {r : ProjectRow} :
    s.project org project = some r ↔ s.projects.find project = some r ∧ r.organizationId = org := by
  unfold Store.project
  simp only [Option.filter_eq_some_iff, beq_iff_eq]

/-! ## Quiet changes -/

/-- Applications, variables and domains are as they were, but that containers may start anew. -/
structure Quiet (w w' : Estate) : Prop where
  runtime : Steady w.runtime w'.runtime
  seat : seat w'.store = seat w.store
  previewSeat : previewSeat w'.store = previewSeat w.store
  members : w'.store.members = w.store.members
  environments : w'.environments = w.environments
  vars : w'.vars = w.vars
  domains : w'.domains = w.domains
  edge : w'.edge = w.edge
  saved : w'.saved = w.saved
  removed : w'.removed = w.removed

theorem Quiet.refl (w : Estate) : Quiet w w := ⟨.refl _, rfl, rfl, rfl, rfl, rfl, rfl, rfl, rfl, rfl⟩

theorem Quiet.trans (h : Quiet w w') (h' : Quiet w' w'') : Quiet w w'' where
  runtime := h.runtime.trans h'.runtime
  seat := h'.seat.trans h.seat
  previewSeat := h'.previewSeat.trans h.previewSeat
  members := h'.members.trans h.members
  environments := h'.environments.trans h.environments
  vars := h'.vars.trans h.vars
  domains := h'.domains.trans h.domains
  edge := h'.edge.trans h.edge
  saved := h'.saved.trans h.saved
  removed := h'.removed.trans h.removed

/-- Nobody gains or loses an application. -/
theorem Quiet.appOf (h : Quiet w w') : w'.appOf = w.appOf := appOf_of_seat h.seat

/-- A change of the runtime alone. -/
theorem quiet_of_runtime {s : State} (h : Steady w.runtime s) : Quiet w { w with runtime := s } :=
  ⟨h, rfl, rfl, rfl, rfl, rfl, rfl, rfl, rfl, rfl⟩

/-! ## Quiet calls -/

/-- The calls that are not. -/
def quiet : Deployment.Call → Bool
  | .store (.patchProjectProvider ..) => false
  | .store (.patchPreviewTarget ..) => false
  | .engine _ (.createApplication ..) => false
  | .engine _ (.syncEnvVars ..) => false
  | _ => true

/-- An update that keeps the columns a seat is read from. -/
theorem seat_update {s s' : Store} {p : ProjectRow → Bool} {f : Table.Edit fun r : ProjectRow => r.id}
    (hs : s'.projects = s.projects.update p f)
    (hf : ∀ r, (f.run r).organizationId = r.organizationId ∧
      (f.run r).providerResourceId = r.providerResourceId) : seat s' = seat s := by
  funext id
  unfold seat
  rw [hs, Table.find_update, Option.map_map]
  congr 1
  funext r
  simp only [Function.comp_apply, Table.Edit.on]
  split
  · rw [(hf r).1, (hf r).2]
  · rfl

theorem previewSeat_insert {s s' : Store} {d : Table.Draft fun t : PreviewTargetRow => t.id}
    (hs : s'.previewTargets = s.previewTargets.insertNew d)
    (hd : ∀ n, (d.row n).providerResourceId = none) : previewSeat s' = previewSeat s := by
  funext t
  unfold previewSeat
  rw [hs, Table.find_insertNew]
  split
  next ht =>
    rw [ht, Table.find_nextId]
    show given (d.row _).providerResourceId = none
    rw [hd]
    rfl
  next => rfl

/-- What a quiet store request leaves alone. -/
theorem store_quiet (now : Instant) (away : Elsewhere) (s : Store) (c : StoreCall)
    (hc : quiet (.store c) = true) :
    seat (c.run now away s).2 = seat s ∧ previewSeat (c.run now away s).2 = previewSeat s ∧
      (c.run now away s).2.members = s.members := by
  cases c with
  | patchProjectProvider => cases hc
  | patchPreviewTarget => cases hc
  | insertPreviewTarget org project key branch pullRequest =>
    simp only [StoreCall.run]
    split
    · exact ⟨rfl, rfl, rfl⟩
    · exact ⟨rfl, previewSeat_insert rfl fun _ => rfl, rfl⟩
  | insertDeployment input =>
    simp only [StoreCall.run]
    split <;> exact ⟨rfl, rfl, rfl⟩
  | promote org project id =>
    simp only [StoreCall.run, Store.promoteDeployment]
    split
    · split
      · exact ⟨seat_update rfl fun _ => ⟨rfl, rfl⟩, rfl, rfl⟩
      · exact ⟨rfl, rfl, rfl⟩
    · exact ⟨rfl, rfl, rfl⟩
  | _ => exact ⟨rfl, rfl, rfl⟩

/-- A quiet call leaves the runtime and its tables. -/
theorem perform_quiet (w : Estate) (c : Deployment.Call) (hc : quiet c = true) :
    Quiet w (w.perform setup o c).2 := by
  cases c with
  | queue c => exact ⟨.refl _, rfl, rfl, rfl, rfl, rfl, rfl, rfl, rfl, rfl⟩
  | store c =>
    obtain ⟨hseat, hpreview, hmembers⟩ := store_quiet w.plane.now (w.away o c) w.store c hc
    exact ⟨.refl _, hseat, hpreview, hmembers, rfl, rfl, rfl, rfl, rfl, rfl⟩
  | engine row c =>
    cases c with
    | createApplication => cases hc
    | syncEnvVars => cases hc
    | deploy ctx ref => exact quiet_of_runtime (adapter_deploy_steady row ref)
    | rollback ctx ref commit => exact quiet_of_runtime (adapter_rollback_steady ref commit)
    | cancelDeployment ctx ref => exact quiet_of_runtime (adapter_cancel_steady ref)
    | getDeployment model ctx ref =>
      cases model with
      | container => exact quiet_of_runtime (adapter_getDeployment_steady ref)
      | serverless => exact .refl w
    | _ => exact .refl w

/-- The routine calls of a delivery are among them. -/
theorem quiet_of_routine {id : DeploymentId} {c : Deployment.Call} (h : Routine id c) : quiet c = true := by
  cases c with
  | queue c => rfl
  | store c => cases c <;> first | rfl | exact h.elim
  | engine row c => cases c <;> first | rfl | exact h.elim

/-- A program of quiet calls. -/
theorem ends_quiet {α : Type} {p : PlaneProg α} (hp : p.Only fun c => quiet c = true) (w : Estate) :
    p.Ends (Estate.perform setup o) (fun _ w' => Quiet w w') w :=
  Prog.ends_of_only hp (fun _ c hw hc => hw.trans (perform_quiet _ c hc)) (.refl w)

theorem ends_routine {α : Type} {id : DeploymentId} {p : PlaneProg α} (hp : p.Only (Routine id))
    (w : Estate) : p.Ends (Estate.perform setup o) (fun _ w' => Quiet w w') w :=
  ends_quiet (Prog.only_mono (fun _ => quiet_of_routine) hp) w

end CloudWai.Runtime
