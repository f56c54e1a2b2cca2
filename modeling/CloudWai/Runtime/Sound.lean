import CloudWai.Runtime.Effects

/-!
# What always holds of an installation

Applications have one owner and exist (`Seated`), and jobs push the variables of
the right environment (`Lawful`). Every operation keeps both, whatever the outside
does, and the installations that start with nothing deployed have them.

The first section reads `step` operation by operation, through the theorems of
`Placing`, `Requests` and `Effects`; a property of installations is carried
through a run by those readings and nothing else.
-/

namespace CloudWai.Runtime

open Base Queue Deployment

variable {setup : Setup} {w w' : Estate} {o : Outside} {K : Estate → Prop}

/-- Applications are seated, and jobs are for the right environment. -/
structure Sound (w : Estate) : Prop where
  seated : Seated w
  lawful : Lawful w

/-! ## The history is only kept -/

/-- The same but for the history. -/
structure SamePresent (w w' : Estate) : Prop where
  plane : w'.plane = w.plane
  environments : w'.environments = w.environments
  vars : w'.vars = w.vars
  domains : w'.domains = w.domains
  edge : w'.edge = w.edge
  runtime : w'.runtime = w.runtime

theorem noteSave_same (setup : Setup) (ctx : CloudWai.RequestContext) (input : SetEnvVarInput)
    (before after : Estate) : SamePresent after (Estate.noteSave setup ctx input before after) := by
  unfold Estate.noteSave
  split
  · exact ⟨rfl, rfl, rfl, rfl, rfl, rfl⟩
  · split <;> exact ⟨rfl, rfl, rfl, rfl, rfl, rfl⟩

theorem noteRemoval_same (ctx : CloudWai.RequestContext) (input : RemoveEnvVarInput)
    (before : Estate) (r : Result RemoveEnvVarOutcome) :
    SamePresent r.2 (Estate.noteRemoval ctx input before r) := by
  unfold Estate.noteRemoval
  split
  · split <;> exact ⟨rfl, rfl, rfl, rfl, rfl, rfl⟩
  · exact ⟨rfl, rfl, rfl, rfl, rfl, rfl⟩

theorem seated_same (h : Seated w) (hs : SamePresent w w') : Seated w' := by
  have hstore : w'.store = w.store := congrArg World.store hs.plane
  refine seated_of h (appOf_of_seat (congrArg seat hstore)) (congrArg previewSeat hstore) fun i hi => ?_
  rw [hs.runtime]
  exact hi

theorem sound_same (h : Sound w) (hs : SamePresent w w') : Sound w' :=
  ⟨seated_same h.seated hs, lawful_of_plane h.lawful hs.plane hs.environments⟩

/-! ## One operation -/

theorem step_request (h : Lawful w) (ctx : Deployment.RequestContext) (input : RequestInput) :
    Requested w (step setup w ⟨.request ctx input, o⟩) := ends_requestDeployment ctx input h

theorem step_rollback (h : Lawful w) (ctx : Deployment.RequestContext) (project : ProjectId)
    (key commit : String) :
    Requested w (step setup w ⟨.rollback ctx project key commit, o⟩) :=
  ends_rollbackDeployment ctx project key commit h

theorem step_finish (attempt : String) (outcome : Outcome) :
    Quiet w (step setup w ⟨.finish attempt outcome, o⟩) :=
  quiet_of_runtime (finish_steady setup.config outcome attempt w.runtime)

theorem step_deliver (options : WorkerOptions) (id : JobId) (hw : Seated w) (hk : K w)
    (hK : ∀ job, w.plane.jobs.find id = some job →
      ∀ ctx, Keeps setup o (executeInput job.payload ctx) K) :
    Seated (step setup w ⟨.deliver options id, o⟩) ∧ K (step setup w ⟨.deliver options id, o⟩) := by
  simp only [step]
  split
  · exact ⟨hw, hk⟩
  next job hjob => exact keeps_delivery (hK job hjob) hw hk

theorem step_deliver_lawful (options : WorkerOptions) (id : JobId) (h : Lawful w) :
    Lawful (step setup w ⟨.deliver options id, o⟩) := by
  simp only [step]
  split
  · exact h
  · exact lawful_delivery h

/-- What a request to set a variable leaves, the history aside. -/
theorem setEnvVar_sound (h : Sound w) (ctx : CloudWai.RequestContext) (input : SetEnvVarInput) :
    Sound (setEnvVar setup o ctx input w).2 := by
  cases htarget : setTarget setup ctx input w with
  | error e =>
    rw [setEnvVar_refused htarget]
    exact h
  | ok t =>
    have hsaved : ∀ org index value build, Sound (w.saveEnvVar org index value build) :=
      fun _ _ _ _ => ⟨seated_of h.seated rfl rfl fun _ hi => hi, lawful_of_plane h.lawful rfl rfl⟩
    rcases setEnvVar_effect (o := o) htarget with hstate | ⟨id, _, hwrites, _⟩
    · rw [hstate]
      exact hsaved _ _ _ _
    · have h₁ := hsaved t.project.organizationId t.index input.value (input.isBuildTime.getD true)
      exact ⟨seated_writes h₁.seated hwrites,
        lawful_of_plane h₁.lawful hwrites.plane hwrites.environments⟩

theorem removeEnvVar_plane (ctx : CloudWai.RequestContext) (input : RemoveEnvVarInput)
    (w : Estate) : (removeEnvVar setup o ctx input w).2.plane = w.plane := by
  obtain ⟨s, _, ⟨hstate, _⟩ | ⟨t, _, _, hstate, _⟩⟩ :=
    @removeEnvVar_effect setup o ctx input w
  · rw [hstate]
  · rw [hstate]
    rfl

theorem sound_sideways (h : Sound w) (hs : Sideways w w') : Sound w' :=
  ⟨seated_tame h.seated (tame_of_sideways hs), lawful_of_plane h.lawful hs.plane hs.environments⟩

/-- **Soundness is kept.** -/
theorem sound_step (h : Sound w) (m : Move) : Sound (step setup w m) := by
  obtain ⟨op, o⟩ := m
  cases op with
  | request ctx input =>
    have hr := @step_request setup _ o h.lawful ctx input
    exact ⟨seated_quiet h.seated hr.1, hr.2⟩
  | rollback ctx project key commit =>
    have hr := @step_rollback setup _ o h.lawful ctx project key commit
    exact ⟨seated_quiet h.seated hr.1, hr.2⟩
  | deliver options id =>
    refine ⟨?_, step_deliver_lawful options id h.lawful⟩
    exact (step_deliver (K := fun _ => True) options id h.seated trivial fun _ _ _ =>
      ⟨fun _ _ _ _ _ => trivial, fun _ _ _ _ _ _ _ => trivial,
        fun _ _ _ _ _ _ _ => trivial⟩).1
  | finish attempt outcome =>
    exact ⟨seated_quiet h.seated (step_finish attempt outcome),
      lawful_of_plane h.lawful rfl rfl⟩
  | setEnvVar ctx input =>
    exact sound_same (setEnvVar_sound h ctx input) (noteSave_same setup ctx input w _)
  | removeEnvVar ctx input =>
    have htame := @removeEnvVar_tame setup o ctx input w
    refine sound_same ⟨seated_tame h.seated htame, ?_⟩ (noteRemoval_same ctx input w _)
    exact lawful_of_plane h.lawful (removeEnvVar_plane ctx input w) htame.environments
  | addDomain token ctx input => exact sound_sideways h (addDomain_sideways token ctx input w)
  | verifyDomain ctx org id answer =>
    exact sound_sideways h (verifyDomain_sideways ctx org id answer w)
  | removeDomain ctx org id => exact sound_sideways h (removeDomain_sideways ctx org id w)

/-! ## The beginning -/

theorem appOf_initial (now : Instant) (projects : ProjectsTable)
    (members : OrganizationId → UserId → Bool) (environments : ProjectId → ProjectEnvironments)
    (p : ProjectId) : (Estate.initial now projects members environments).appOf p = none := by
  unfold Estate.appOf seat
  show Option.bind (((Store.initial _ members).projects.find p).map _) _ = none
  unfold Store.initial
  simp only [Table.find_update, Option.map_map]
  cases projects.find p with
  | none => rfl
  | some r => rfl

theorem sound_initial (now : Instant) (projects : ProjectsTable)
    (members : OrganizationId → UserId → Bool) (environments : ProjectId → ProjectEnvironments) :
    Sound (Estate.initial now projects members environments) := by
  have happ := appOf_initial now projects members environments
  refine ⟨⟨?_, ?_, ?_, ?_⟩, fun job hjob => by cases hjob⟩
  · intro p id hp
    rw [happ] at hp
    cases hp
  · intro p q id hp
    rw [happ] at hp
    cases hp
  · intro t id ht
    cases ht
  · intro p t id hp
    rw [happ] at hp
    cases hp

end CloudWai.Runtime
