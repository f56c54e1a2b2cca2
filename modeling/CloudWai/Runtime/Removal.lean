import CloudWai.Runtime.Sound

/-!
# Removed variables

`removeEnvVar` deletes by the handle of the last write, and the runtime looks that
handle up as a name. Names start with an upper-case letter and handles are lower
case hexadecimal digits, so nothing is ever deleted, and the answer is a success
all the same: the row goes, the variable stays on the application, and the next
container is given it.

`Clear` is what holds as long as every removal finds nothing to delete there: no
row, no application and no container that was started since has a removed
variable. A container is young (`young`): nothing started yet has a number that a
removal noted now would have.

About `removeEnvVar` in `apps/api/src/procedures/env-vars.ts` and the environment routes
of `infra/deployment/runtime-server.mjs`.
-/

namespace CloudWai.Runtime

open Base Queue Deployment

variable {setup : Setup} {o : Outside} {w w' : Estate}

/-- The project's application carries the variable. -/
def Carries (w : Estate) (project : ProjectId) (key : String) : Prop :=
  ∃ id ∈ w.appOf project, ∃ a ∈ w.runtime.apps.find id, (a.value key).isSome

instance {project : ProjectId} {key : String} : Decidable (Carries w project key) :=
  inferInstanceAs (Decidable (∃ id ∈ w.appOf project, ∃ a ∈ w.runtime.apps.find id, _))

/-- The application no longer has the variable, and no container that was started
since the removal was given it. -/
def Gone (w : Estate) (r : Removal) : Prop :=
  ∀ id ∈ w.appOf r.projectId, ∀ a ∈ w.runtime.apps.find id,
    a.value r.key = none ∧
      ∀ c ∈ a.container, r.starts ≤ c.start → ∀ v ∈ c.env, v.1 ≠ r.key

instance (r : Removal) : Decidable (Gone w r) :=
  inferInstanceAs (Decidable (∀ id ∈ w.appOf r.projectId, ∀ a ∈ w.runtime.apps.find id, _ ∧ _))

/-- Every Production variable that was removed, and not set again, is gone. -/
def RemovalsHold (w : Estate) : Prop := ∀ r ∈ w.removed, Gone w r

instance : Decidable (RemovalsHold w) := inferInstanceAs (Decidable (∀ r ∈ w.removed, Gone w r))

/-- A removal from Production finds the application without the variable already. -/
def FoundGone (w : Estate) (t : EnvVarTarget) : Prop :=
  t.environment.kind = .production → (w.vars.find t.index).isSome →
    ¬ Carries w t.project.id t.key

/-- A removed variable is not put back for another environment: the push does not
reach the runtime, or there is no application yet. -/
def NotPutBack (setup : Setup) (o : Outside) (w : Estate) (t : EnvVarTarget) : Prop :=
  t.environment.kind ≠ .production →
    (∃ r ∈ w.removed, r.projectId = t.project.id ∧ r.key = t.key) →
    ∀ id ∈ w.appOf t.project.id,
      setup.reaches o t.project.organizationId "POST" (envPath id) = false

instance (t : EnvVarTarget) : Decidable (FoundGone w t) := inferInstanceAs (Decidable (_ → _ → _))

instance (t : EnvVarTarget) : Decidable (NotPutBack setup o w t) :=
  inferInstanceAs (Decidable (_ → _ → _))

/-- The condition of one move. -/
def NothingToDelete (setup : Setup) (w : Estate) (m : Move) : Prop :=
  match m.op with
  | .removeEnvVar ctx input => Admitted (removeTarget ctx input w) (FoundGone w)
  | .setEnvVar ctx input => Admitted (setTarget setup ctx input w) (NotPutBack setup m.outside w)
  | _ => True

instance (m : Move) : Decidable (NothingToDelete setup w m) :=
  match m with
  | ⟨.removeEnvVar ctx input, _⟩ =>
    inferInstanceAs (Decidable (Admitted (removeTarget ctx input w) (FoundGone w)))
  | ⟨.setEnvVar ctx input, o⟩ =>
    inferInstanceAs (Decidable (Admitted (setTarget setup ctx input w) (NotPutBack setup o w)))
  | ⟨.request .., _⟩ => isTrue trivial
  | ⟨.rollback .., _⟩ => isTrue trivial
  | ⟨.deliver .., _⟩ => isTrue trivial
  | ⟨.finish .., _⟩ => isTrue trivial
  | ⟨.addDomain .., _⟩ => isTrue trivial
  | ⟨.verifyDomain .., _⟩ => isTrue trivial
  | ⟨.removeDomain .., _⟩ => isTrue trivial

/-! ## The invariant -/

/-- Removals hold, and what was removed is not stored either. -/
structure Clear (w : Estate) : Prop where
  gone : RemovalsHold w
  unstored : ∀ r ∈ w.removed, ∀ e, w.production r.projectId e →
    w.vars.find ⟨r.projectId, e, r.key⟩ = none
  young : ∀ id a c, w.runtime.apps.find id = some a → a.container = some c →
    c.start < w.runtime.starts

/-- What adds nothing keeps `Clear`. -/
theorem clear_tame (h : Clear w) (ht : Tame w w') : Clear w' := by
  refine ⟨?_, ?_, ?_⟩
  · intro r hr id hid a' ha'
    rw [ht.removed] at hr
    rw [ht.appOf] at hid
    obtain ⟨a, ha, hless⟩ := ht.runtime.some_find ha'
    obtain ⟨hvalue, hcontainer⟩ := h.gone r hr id hid a ha
    obtain ⟨hnone, hfresh⟩ := hless.none hvalue
    refine ⟨hnone, fun c hc hstart => ?_⟩
    rcases hfresh c hc with hold | hwithout
    · exact hcontainer c hold hstart
    · exact hwithout
  · intro r hr e he
    rw [ht.removed] at hr
    cases hrow : w'.vars.find ⟨r.projectId, e, r.key⟩ with
    | none => rfl
    | some row =>
      have hold := ht.vars _ row hrow
      rw [h.unstored r hr e ((production_congr ht.environments).mp he)] at hold
      cases hold
  · intro id a' c ha' hc
    obtain ⟨a, ha, hless⟩ := ht.runtime.some_find ha'
    have hstarts := ht.runtime.starts
    rcases hless.container c hc with hold | ⟨_, _, hlt⟩
    · have := h.young id a c ha hold
      omega
    · exact hlt

/-- A new application has nothing of it. -/
theorem clear_founded {input : ExecuteDeploymentInput} {id : String} (h : Clear w)
    (hf : Founded input w w' id) : Clear w' := by
  obtain ⟨blank, hblank, henv, _, hcontainer⟩ := hf.blank
  refine ⟨?_, ?_, ?_⟩
  · intro r hr i hi a ha
    rw [hf.removed] at hr
    by_cases hnew : i = id
    · subst hnew
      obtain rfl : blank = a := Option.some.inj (hblank.symm.trans ha)
      refine ⟨?_, fun c hc => ?_⟩
      · unfold App.value
        rw [henv]
        rfl
      · rw [hcontainer] at hc
        cases hc
    · rw [hf.others i hnew] at ha
      rcases hf.appOf r.projectId with hold | ⟨_, _, _, hi'⟩
      · exact h.gone r hr i (hold ▸ hi) a ha
      · exact absurd (Option.some.inj (hi'.symm.trans hi)).symm hnew
  · intro r hr e he
    rw [hf.removed] at hr
    rw [hf.vars]
    exact h.unstored r hr e ((production_congr hf.environments).mp he)
  · intro i a c ha hc
    rw [hf.starts]
    by_cases hnew : i = id
    · subst hnew
      obtain rfl : blank = a := Option.some.inj (hblank.symm.trans ha)
      rw [hcontainer] at hc
      cases hc
    · rw [hf.others i hnew] at ha
      exact h.young i a c ha hc

/-- A write is harmless if it writes nothing that was removed. -/
theorem clear_writes {P : String → String → Prop} {id : String} (h : Clear w)
    (hwrites : Writes P id w w')
    (hP : ∀ r ∈ w.removed, w.appOf r.projectId = some id → ∀ x, ¬ P r.key x) : Clear w' := by
  refine ⟨?_, ?_, ?_⟩
  · intro r hr i hi a' ha'
    rw [hwrites.removed] at hr
    rw [hwrites.appOf] at hi
    obtain ⟨a, ha, _, hcontainer, hvalue⟩ := hwrites.runtime.some_find ha'
    obtain ⟨hnone, hsince⟩ := h.gone r hr i hi a ha
    refine ⟨?_, fun c hc => hsince c (hcontainer ▸ hc)⟩
    cases hx : a'.value r.key with
    | none => rfl
    | some x =>
      rcases hvalue r.key x hx with hold | ⟨rfl, hnew⟩
      · rw [hnone] at hold
        cases hold
      · exact absurd hnew (hP r hr hi x)
  · intro r hr e he
    rw [hwrites.removed] at hr
    have hnone := h.unstored r hr e ((production_congr hwrites.environments).mp he)
    have hrel := hwrites.vars ⟨r.projectId, e, r.key⟩
    rw [hnone] at hrel
    generalize w'.vars.find _ = x at hrel ⊢
    cases hrel
    rfl
  · intro i a' c ha' hc
    rw [hwrites.runtime.starts]
    obtain ⟨a, ha, _, hcontainer, _⟩ := hwrites.runtime.some_find ha'
    exact h.young i a c ha (hcontainer ▸ hc)

/-! ## Each operation -/

/-- A delivery keeps it: what the worker pushes is stored. -/
theorem clear_deliver {payload : DeploymentJobPayload} (hproper : Proper w payload)
    (ctx : JobContext) :
    Keeps setup o (executeInput payload ctx) fun w' =>
      Clear w' ∧ w'.environments = w.environments where
  quiet w₁ w₂ _ h hq := ⟨clear_tame h.1 (tame_of_quiet hq), hq.environments.trans h.2⟩
  founded _ w₁ w₂ id _ h hf := ⟨clear_founded h.1 hf, hf.environments.trans h.2⟩
  synced w₁ ref environment _ h henvironment howned := by
    have hwrites := @syncEnvVars_stored setup o ((executeInput payload ctx).ctx) ref payload.projectId environment w₁
    refine ⟨clear_writes h.1 hwrites ?_, hwrites.environments.trans h.2⟩
    rintro r hr happ x ⟨row, hrow, _⟩
    obtain ⟨hproject, hproduction⟩ := production_of_owned hproper howned henvironment happ
    have hnone := h.1.unstored r hr environment ((production_congr h.2).mpr hproduction)
    rw [hproject, hrow] at hnone
    cases hnone

/-- A row is stored; what it stands for is not among the removed variables kept. -/
theorem clear_saved (h : Clear w) {t : EnvVarTarget} (org : OrganizationId) (value : String)
    (build : Bool) {saved : List (ProjectId × String × String)} {removed : List Removal}
    (hkept : ∀ r ∈ removed, r ∈ w.removed)
    (hother : ∀ r ∈ removed, ∀ e, w.production r.projectId e → t.index ≠ ⟨r.projectId, e, r.key⟩) :
    Clear { w.saveEnvVar org t.index value build with saved := saved, removed := removed } := by
  refine ⟨fun r hr => h.gone r (hkept r hr), fun r hr e he => ?_, h.young⟩
  show (w.vars.put _).find _ = none
  rw [Table.find_put]
  split
  next hindex => exact absurd hindex.symm (hother r hr e he)
  next => exact h.unstored r (hkept r hr) e he

/-- **Setting a variable**, for Production or out of reach of what was removed. -/
theorem clear_setEnvVar (hw : Sound w) (h : Clear w) (ctx : CloudWai.RequestContext)
    (input : SetEnvVarInput) (hguard : NothingToDelete setup w ⟨.setEnvVar ctx input, o⟩) :
    Clear (step setup w ⟨.setEnvVar ctx input, o⟩) := by
  simp only [NothingToDelete] at hguard
  simp only [step, Estate.noteSave]
  cases htarget : setTarget setup ctx input w with
  | error e =>
    rw [setEnvVar_refused htarget]
    exact h
  | ok t =>
    rw [htarget] at hguard
    have hgood := setTarget_good htarget
    have heffect := setEnvVar_effect (o := o) htarget
    generalize (setEnvVar setup o ctx input w).2 = w' at heffect ⊢
    simp only
    split
    next hkind =>
      -- it is set again, and no longer counts as removed
      have hdropped : ∀ r ∈ w.removed.filter fun r =>
          !(r.projectId == t.project.id && r.key == t.key),
          r ∈ w.removed ∧ ¬ (r.projectId = t.project.id ∧ r.key = t.key) := by
        intro r hr
        obtain ⟨hmem, hp⟩ := List.mem_filter.mp hr
        refine ⟨hmem, fun hsame => ?_⟩
        simp [hsame.1, hsame.2] at hp
      have hsaved := @clear_saved _ h t t.project.organizationId input.value
        (input.isBuildTime.getD true) ((t.project.id, t.key, input.value) :: w.saved) _
        (fun r hr => (hdropped r hr).1) (by
          intro r hr e _ hindex
          have hproject := congrArg EnvVarKey.projectId hindex
          have hkey := congrArg EnvVarKey.key hindex
          exact (hdropped r hr).2 ⟨hproject.symm, hkey.symm⟩)
      rcases heffect with rfl | ⟨id, happ, hwrites, _⟩
      · exact hsaved
      · refine @clear_writes _ _ _ id hsaved ⟨hwrites.runtime, hwrites.vars, hwrites.plane,
          hwrites.environments, hwrites.domains, hwrites.edge, rfl, rfl⟩ ?_
        intro r hr happ' x hkey
        exact (hdropped r hr).2 ⟨hw.seated.apart _ _ id happ' happ, hkey.1⟩
    next hkind =>
      have hsaved := @clear_saved _ h t t.project.organizationId input.value
        (input.isBuildTime.getD true) w.saved w.removed
        (fun r hr => hr) (by
          intro r _ e he hindex
          have hproject := congrArg EnvVarKey.projectId hindex
          have henvironment := congrArg EnvVarKey.environmentId hindex
          simp only [EnvVarTarget.index] at hproject henvironment
          rw [← hproject, ← henvironment] at he
          exact not_production hgood.environment hkind he)
      rcases heffect with rfl | ⟨id, happ, hwrites, hunreached⟩
      · exact hsaved
      by_cases hremoved : ∃ r ∈ w.removed, r.projectId = t.project.id ∧ r.key = t.key
      · have hsame := hunreached (hguard hkind hremoved id happ)
        refine @clear_writes _ _ (fun _ _ => False) id hsaved ?_ fun _ _ _ _ hno => hno
        refine ⟨?_, hwrites.vars, hwrites.plane, hwrites.environments, hwrites.domains,
          hwrites.edge, hwrites.saved, hwrites.removed⟩
        rw [hsame]
        exact .refl _
      · refine clear_writes hsaved hwrites ?_
        intro r hr happ' x hkey
        exact hremoved ⟨r, hr, hw.seated.apart _ _ id happ' happ, hkey.1⟩

/-- **Removing a variable** that is not on the application any more. -/
theorem clear_removeEnvVar (h : Clear w) (ctx : CloudWai.RequestContext)
    (input : RemoveEnvVarInput) (hguard : NothingToDelete setup w ⟨.removeEnvVar ctx input, o⟩) :
    Clear (step setup w ⟨.removeEnvVar ctx input, o⟩) := by
  simp only [NothingToDelete] at hguard
  have htame := @removeEnvVar_tame setup o ctx input w
  have hclear := clear_tame h htame
  simp only [step, Estate.noteRemoval]
  split
  next reason t hremoved htarget =>
    split
    next hkind =>
      have hgood := removeTarget_good htarget
      obtain ⟨s, _, ⟨_, hnot⟩ | ⟨t', htarget', hrow, _, hnone⟩⟩ :=
        @removeEnvVar_effect setup o ctx input w
      · exact absurd hremoved (hnot reason)
      obtain rfl : t' = t := Except.ok.inj (htarget'.symm.trans htarget)
      rw [htarget] at hguard
      have hfree := hguard hkind hrow
      generalize (removeEnvVar setup o ctx input w).2 = w' at htame hclear hnone ⊢
      refine ⟨?_, ?_, hclear.young⟩
      · intro r hr id hid a' ha'
        rcases List.mem_cons.mp hr with rfl | hold
        · obtain ⟨a, ha, hless⟩ := htame.runtime.some_find ha'
          have hvalue : a.value t'.key = none := by
            cases hx : a.value t'.key with
            | none => rfl
            | some x => exact absurd ⟨id, htame.appOf ▸ hid, a, ha, hx ▸ rfl⟩ hfree
          obtain ⟨hnone', hfresh⟩ := hless.none hvalue
          refine ⟨hnone', fun c hc hstart => ?_⟩
          rcases hfresh c hc with hbefore | hwithout
          · exact absurd hstart (Nat.not_le.mpr (h.young id a c ha hbefore))
          · exact hwithout
        · exact hclear.gone r (htame.removed ▸ hold) id hid a' ha'
      · intro r hr e he
        rcases List.mem_cons.mp hr with rfl | hold
        · have he' := (production_congr htame.environments).mp he
          have hid := production_unique hgood.environment hkind he'
          rw [← hid]
          exact hnone reason hremoved
        · exact hclear.unstored r (htame.removed ▸ hold) e he
    next => exact hclear
  next => exact hclear

/-- **Step.** -/
theorem clear_step (hw : Sound w) (h : Clear w) (m : Move) (hguard : NothingToDelete setup w m) :
    Clear (step setup w m) := by
  obtain ⟨op, o⟩ := m
  cases op with
  | request ctx input => exact clear_tame h (tame_of_quiet (step_request hw.lawful ctx input).1)
  | rollback ctx project key commit =>
    exact clear_tame h (tame_of_quiet (step_rollback hw.lawful ctx project key commit).1)
  | deliver options id =>
    refine (step_deliver (K := fun w' => Clear w' ∧ w'.environments = w.environments) options id
      hw.seated ⟨h, rfl⟩ fun job hjob ctx => ?_).2.1
    exact clear_deliver (hw.lawful job (Table.mem_of_find hjob).1) ctx
  | finish attempt outcome => exact clear_tame h (tame_of_quiet (step_finish attempt outcome))
  | setEnvVar ctx input => exact clear_setEnvVar hw h ctx input hguard
  | removeEnvVar ctx input => exact clear_removeEnvVar h ctx input hguard
  | addDomain token ctx input =>
    exact clear_tame h (tame_of_sideways (addDomain_sideways token ctx input w))
  | verifyDomain ctx org id answer =>
    exact clear_tame h (tame_of_sideways (verifyDomain_sideways ctx org id answer w))
  | removeDomain ctx org id =>
    exact clear_tame h (tame_of_sideways (removeDomain_sideways ctx org id w))

/-! ## Runs -/

/-- **Removed variables stay away** in every run in which a removal never has
anything to delete. -/
theorem removed_variables_stay_gone (setup : Setup) (now : Instant) (projects : ProjectsTable)
    (members : OrganizationId → UserId → Bool) (environments : ProjectId → ProjectEnvironments)
    (moves : List Move)
    (h : EachStep (step setup) (NothingToDelete setup)
      (Estate.initial now projects members environments) moves) :
    Always (step setup) RemovalsHold (Estate.initial now projects members environments) moves := by
  refine always_of_inv (J := fun w => Sound w ∧ Clear w) ⟨sound_initial _ _ _ _, ?_⟩ ?_ ?_ h
  · refine ⟨?_, ?_, ?_⟩
    · intro r hr
      cases hr
    · intro r hr
      cases hr
    · intro id a c ha
      cases ha
  · intro w m hw hguard
    exact ⟨sound_step hw.1 m, clear_step hw.1 hw.2 m hguard⟩
  · exact fun w hw => hw.2.gone

/-- A variable that never was on the application, removed before a container starts. -/
def neverPushed : List Move := deployed ++
  [⟨.setEnvVar theOwner ⟨0, "key_a", "v", none, none⟩, cutOff⟩,
    ⟨.removeEnvVar theOwner ⟨0, "KEY_A", none⟩, cutOff⟩,
    ⟨.finish "run" started, calm⟩]

theorem removed_variables_stay_gone_unpushed :
    (runFrom (step installation) Estate.scripted neverPushed).removed = [⟨0, "KEY_A", 0⟩] ∧
      Always (step installation) RemovalsHold Estate.scripted neverPushed :=
  ⟨by decide, removed_variables_stay_gone installation 0 oneProject (fun _ _ => true)
    (fun _ => twoEnvironments) neverPushed (by decide)⟩

/-- A variable is set and removed, the removal is answered with `removed = true`,
and the next container is given it. -/
theorem removed_variable_stays :
    ¬ ∀ (setup : Setup) (now : Instant) (projects : ProjectsTable)
      (members : OrganizationId → UserId → Bool) (environments : ProjectId → ProjectEnvironments)
      (moves : List Move),
      Always (step setup) RemovalsHold (Estate.initial now projects members environments) moves := by
  intro h
  have hrun := h installation 0 oneProject (fun _ _ => true) (fun _ => twoEnvironments)
    (deployed ++ [⟨.setEnvVar theOwner ⟨0, "key_a", "v", none, none⟩, calm⟩,
      ⟨.removeEnvVar theOwner ⟨0, "KEY_A", none⟩, calm⟩, ⟨.finish "run" started, calm⟩])
  exact absurd (always_iff_prefixes.mp hrun _ [] (List.append_nil _).symm) (by decide)

end CloudWai.Runtime
