import CloudWai.Runtime.Sound

/-!
# Production and the other environments

A variable is stored for an environment and pushed onto the project's production
application whichever it is: `applicationRefFor` asks for nothing but the project.
The worker's push is right (`Proper`), so a run keeps Production apart as long as
no request sets another environment's variable on a project that has an
application already (`NotPushed`).

`Apart` ties what production applications carry, and what is stored for
Production, to what was ever saved for it. A removal takes nothing away from
anybody: it deletes by handle, and a handle is not a name (`not_uuidHead_of_key`).

About `apps/api/src/procedures/env-vars.ts` and `apps/worker/src/env-sync.ts`, as
`Variables.lean` has them.
-/

namespace CloudWai.Runtime

open Base Queue Deployment Grammar

variable {setup : Setup} {o : Outside} {w w' : Estate}

/-! ## The property -/

/-- What the project's application carries was saved for Production. -/
def OnlyProduction (w : Estate) (project : ProjectId) : Prop :=
  ∀ id ∈ w.appOf project, ∀ a ∈ w.runtime.apps.find id, ∀ v ∈ a.env.rows,
    (project, v.key, v.value) ∈ w.saved

instance (project : ProjectId) : Decidable (OnlyProduction w project) :=
  inferInstanceAs (Decidable (∀ id ∈ w.appOf project, ∀ a ∈ w.runtime.apps.find id, _))

/-- The same of every project. -/
def Confined (w : Estate) : Prop := ∀ project, OnlyProduction w project

/-- Every project's application carries what it carried. -/
def SameVariables (w w' : Estate) : Prop :=
  ∀ project, ∀ id ∈ w.appOf project, ∀ a ∈ w.runtime.apps.find id,
    w'.appOf project = some id ∧
      ∃ a' ∈ w'.runtime.apps.find id, ∀ key, a'.value key = a.value key

/-- A request about another environment leaves production applications alone. -/
def LeavesProduction (setup : Setup) (w : Estate) (m : Move) : Prop :=
  match m.op with
  | .setEnvVar ctx input => Admitted (setTarget setup ctx input w) fun t =>
      t.environment.kind ≠ .production → SameVariables w (step setup w m)
  | .removeEnvVar ctx input => Admitted (removeTarget ctx input w) fun t =>
      t.environment.kind ≠ .production → SameVariables w (step setup w m)
  | _ => True

/-! ## The condition -/

/-- A variable for another environment is not pushed: there is no application yet,
or the push does not reach the runtime, or the application has just that value. -/
def StaysAway (setup : Setup) (o : Outside) (value : String) (w : Estate) (t : EnvVarTarget) :
    Prop :=
  t.environment.kind ≠ .production → ∀ id ∈ w.appOf t.project.id,
    setup.reaches o t.project.organizationId "POST" (envPath id) = false ∨
      ∃ a ∈ w.runtime.apps.find id, a.value t.key = some value

instance (value : String) (t : EnvVarTarget) : Decidable (StaysAway setup o value w t) :=
  inferInstanceAs (Decidable (_ → ∀ id ∈ w.appOf t.project.id, _ ∨ ∃ a ∈ w.runtime.apps.find id, _))

/-- The condition of one move. -/
def NotPushed (setup : Setup) (w : Estate) (m : Move) : Prop :=
  match m.op with
  | .setEnvVar ctx input =>
    Admitted (setTarget setup ctx input w) (StaysAway setup m.outside input.value w)
  | _ => True

instance (m : Move) : Decidable (NotPushed setup w m) :=
  match m with
  | ⟨.setEnvVar ctx input, o⟩ =>
    inferInstanceAs (Decidable (Admitted (setTarget setup ctx input w)
      (StaysAway setup o input.value w)))
  | ⟨.request .., _⟩ => isTrue trivial
  | ⟨.rollback .., _⟩ => isTrue trivial
  | ⟨.deliver .., _⟩ => isTrue trivial
  | ⟨.finish .., _⟩ => isTrue trivial
  | ⟨.removeEnvVar .., _⟩ => isTrue trivial
  | ⟨.addDomain .., _⟩ => isTrue trivial
  | ⟨.verifyDomain .., _⟩ => isTrue trivial
  | ⟨.removeDomain .., _⟩ => isTrue trivial

/-! ## The invariant -/

theorem value_iff {a : App} {k x : String} :
    a.value k = some x ↔ ∃ v ∈ a.env.rows, v.key = k ∧ v.value = x := by
  unfold App.value
  constructor
  · intro h
    obtain ⟨v, hv, rfl⟩ := Option.map_eq_some_iff.mp h
    obtain ⟨hmem, hkey⟩ := Table.mem_of_find hv
    exact ⟨v, hmem, hkey, rfl⟩
  · rintro ⟨v, hv, rfl, rfl⟩
    rw [Table.find_eq_some.mpr ⟨hv, rfl⟩]
    rfl

/-- What production carries was saved for production. -/
structure Apart (w : Estate) : Prop where
  carried : ∀ p id a k x, w.appOf p = some id → w.runtime.apps.find id = some a →
    a.value k = some x → (p, k, x) ∈ w.saved
  stored : ∀ i row, w.vars.find i = some row → w.production i.projectId i.environmentId →
    (i.projectId, i.key, row.value) ∈ w.saved
  named : ∀ id a k x, w.runtime.apps.find id = some a → a.value k = some x →
    keyPattern.test k = true
  keyed : ∀ i row, w.vars.find i = some row → keyPattern.test i.key = true
  hex : ∀ i row ref, w.vars.find i = some row → row.engineRef = some ref →
    uuidHead.test ref = true

theorem confined_of_apart (h : Apart w) : Confined w := by
  intro p id hid a ha v hv
  exact h.carried p id a v.key v.value hid ha (value_iff.mpr ⟨v, hv, rfl, rfl⟩)

theorem apart_tame (h : Apart w) (ht : Tame w w') : Apart w' := by
  refine ⟨?_, ?_, ?_, ?_, ?_⟩
  · intro p id a' k x hid ha' hx
    obtain ⟨a, ha, hless⟩ := ht.runtime.some_find ha'
    rw [ht.saved]
    exact h.carried p id a k x (ht.appOf ▸ hid) ha (hless.value k x hx)
  · intro i row hrow hproduction
    rw [ht.saved]
    exact h.stored i row (ht.vars i row hrow) ((production_congr ht.environments).mp hproduction)
  · intro id a' k x ha' hx
    obtain ⟨a, ha, hless⟩ := ht.runtime.some_find ha'
    exact h.named id a k x ha (hless.value k x hx)
  · exact fun i row hrow => h.keyed i row (ht.vars i row hrow)
  · exact fun i row ref hrow => h.hex i row ref (ht.vars i row hrow)

/-- A new application carries nothing yet. -/
theorem apart_founded {input : ExecuteDeploymentInput} {id : String} (h : Apart w)
    (hf : Founded input w w' id) : Apart w' := by
  obtain ⟨blank, hblank, henv, _, _⟩ := hf.blank
  have hempty : ∀ k, blank.value k = none := by
    intro k
    unfold App.value
    rw [henv]
    rfl
  -- whoever carries something is not the new one
  have hbefore : ∀ {i a k x}, w'.runtime.apps.find i = some a → a.value k = some x →
      i ≠ id ∧ w.runtime.apps.find i = some a := by
    intro i a k x ha hx
    by_cases hnew : i = id
    · subst hnew
      obtain rfl : blank = a := Option.some.inj (hblank.symm.trans ha)
      rw [hempty] at hx
      cases hx
    · exact ⟨hnew, hf.others i hnew ▸ ha⟩
  refine ⟨?_, ?_, ?_, ?_, ?_⟩
  · intro p i a k x hi ha hx
    obtain ⟨hnew, hold⟩ := hbefore ha hx
    rw [hf.saved]
    rcases hf.appOf p with hsame | ⟨_, _, _, hp⟩
    · exact h.carried p i a k x (hsame ▸ hi) hold hx
    · exact absurd (Option.some.inj (hi.symm.trans hp)) hnew
  · intro i row hrow hproduction
    rw [hf.saved]
    rw [hf.vars] at hrow
    exact h.stored i row hrow ((production_congr hf.environments).mp hproduction)
  · intro i a k x ha hx
    exact h.named i a k x (hbefore ha hx).2 hx
  · rw [hf.vars]
    exact h.keyed
  · rw [hf.vars]
    exact h.hex

/-- A write is right if what it writes on a production application was saved. -/
theorem apart_writes {P : String → String → Prop} {id : String} (h : Apart w)
    (hwrites : Writes P id w w') (hkey : ∀ k x, P k x → keyPattern.test k = true)
    (hP : ∀ p, w.appOf p = some id → ∀ k x, P k x → (p, k, x) ∈ w.saved) : Apart w' := by
  -- a row after the writes is one of before, with a handle noted at most
  have hnoted : ∀ {i row'}, w'.vars.find i = some row' →
      ∃ row, w.vars.find i = some row ∧ row.Noted row' := by
    intro i row' hrow'
    have hrel := hwrites.vars i
    rw [hrow'] at hrel
    generalize w.vars.find i = r at hrel ⊢
    cases hrel with
    | some hn => exact ⟨_, rfl, hn⟩
  refine ⟨?_, ?_, ?_, ?_, ?_⟩
  -- what an application carries now it carried before, or was just written on it
  · intro p i a' k x hi ha' hx
    obtain ⟨a, ha, _, _, hvalue⟩ := hwrites.runtime.some_find ha'
    rw [hwrites.saved]
    rw [hwrites.appOf] at hi
    rcases hvalue k x hx with hold | ⟨rfl, hnew⟩
    · exact h.carried p i a k x hi ha hold
    · exact hP p hi k x hnew
  · intro i row' hrow' hproduction
    obtain ⟨row, hrow, hn⟩ := hnoted hrow'
    rw [hwrites.saved, hn.value]
    exact h.stored i row hrow ((production_congr hwrites.environments).mp hproduction)
  · intro i a' k x ha' hx
    obtain ⟨a, ha, _, _, hvalue⟩ := hwrites.runtime.some_find ha'
    rcases hvalue k x hx with hold | ⟨_, hnew⟩
    · exact h.named i a k x ha hold
    · exact hkey k x hnew
  · intro i row' hrow'
    obtain ⟨row, hrow, _⟩ := hnoted hrow'
    exact h.keyed i row hrow
  -- a handle noted now is a handle like any
  · intro i row' ref hrow' href
    obtain ⟨row, hrow, hn⟩ := hnoted hrow'
    rcases hn.engineRef with hsame | ⟨handle, hnew⟩
    · exact h.hex i row ref hrow (hsame ▸ href)
    · rw [hnew] at href
      cases href
      exact handle.hex

/-! ## Each operation -/

/-- A delivery keeps it: what the worker pushes onto a production application is
what is stored for Production. -/
theorem apart_deliver {payload : DeploymentJobPayload} (hproper : Proper w payload)
    (ctx : JobContext) :
    Keeps setup o (executeInput payload ctx) fun w' =>
      Apart w' ∧ w'.environments = w.environments where
  quiet w₁ w₂ _ h hq := ⟨apart_tame h.1 (tame_of_quiet hq), hq.environments.trans h.2⟩
  founded _ w₁ w₂ id _ h hf := ⟨apart_founded h.1 hf, hf.environments.trans h.2⟩
  synced w₁ ref environment _ h henvironment howned := by
    have hwrites := @syncEnvVars_stored setup o ((executeInput payload ctx).ctx) ref payload.projectId environment w₁
    refine ⟨apart_writes h.1 hwrites ?_ ?_, hwrites.environments.trans h.2⟩
    · rintro k x ⟨row, hrow, _⟩
      exact h.1.keyed _ row hrow
    · rintro p happ k x ⟨row, hrow, rfl⟩
      obtain ⟨rfl, hproduction⟩ := production_of_owned hproper howned henvironment happ
      exact h.1.stored _ row hrow ((production_congr h.2).mpr hproduction)

/-- A variable is stored. -/
theorem apart_saved (h : Apart w) {t : EnvVarTarget} (hgood : t.Good w) (org : OrganizationId)
    (value : String) (build : Bool) {saved : List (ProjectId × String × String)}
    {removed : List Removal} (hkept : ∀ v ∈ w.saved, v ∈ saved)
    (hnew : t.environment.kind = .production → (t.project.id, t.key, value) ∈ saved) :
    Apart { w.saveEnvVar org t.index value build with saved := saved, removed := removed } := by
  -- the rows are those of before and the one that is stored, with the handle it had
  have hrows : ∀ {i row}, (w.saveEnvVar org t.index value build).vars.find i = some row →
      (i = t.index ∧ row.value = value ∧
        row.engineRef = (w.vars.find i).bind (·.engineRef)) ∨ w.vars.find i = some row := by
    intro i row hrow
    rw [Estate.saveEnvVar, Table.find_put] at hrow
    split at hrow
    next hi =>
      cases hrow
      exact .inl ⟨hi, rfl, congrArg (fun r => Option.bind (w.vars.find r) _) hi.symm⟩
    next => exact .inr hrow
  refine ⟨?_, ?_, h.named, ?_, ?_⟩
  · exact fun p id a k x hid ha hx => hkept _ (h.carried p id a k x hid ha hx)
  -- a row of Production is what was just saved for it, or an old one
  · intro i row hrow hproduction
    rcases hrows hrow with ⟨rfl, rfl, _⟩ | hold
    · refine hnew ?_
      by_contra hkind
      exact not_production hgood.environment hkind hproduction
    · exact hkept _ (h.stored i row hold hproduction)
  · intro i row hrow
    rcases hrows hrow with ⟨rfl, _, _⟩ | hold
    · exact hgood.key
    · exact h.keyed i row hold
  · intro i row ref hrow href
    rcases hrows hrow with ⟨_, _, hsame⟩ | hold
    · rw [href] at hsame
      obtain ⟨before, hbefore, hre⟩ := Option.bind_eq_some_iff.mp hsame.symm
      exact h.hex i before ref hbefore hre
    · exact h.hex i row ref hold href

/-- **Setting a variable**, if another environment's stays away. -/
theorem apart_setEnvVar (hw : Sound w) (h : Apart w) (ctx : CloudWai.RequestContext)
    (input : SetEnvVarInput) (hguard : NotPushed setup w ⟨.setEnvVar ctx input, o⟩) :
    Apart (step setup w ⟨.setEnvVar ctx input, o⟩) := by
  simp only [NotPushed] at hguard
  simp only [step, Estate.noteSave]
  -- a request that is refused changes nothing
  cases htarget : setTarget setup ctx input w with
  | error e =>
    rw [setEnvVar_refused htarget]
    exact h
  | ok t =>
    rw [htarget] at hguard
    have hgood := setTarget_good htarget
    have heffect := setEnvVar_effect (o := o) htarget
    generalize (setEnvVar setup o ctx input w).2 = w' at heffect ⊢
    simp only
    have hsaved : ∀ {saved : List (ProjectId × String × String)} {removed : List Removal},
        (∀ v ∈ w.saved, v ∈ saved) →
        (t.environment.kind = .production → (t.project.id, t.key, input.value) ∈ saved) →
        Apart { w.saveEnvVar t.project.organizationId t.index input.value
          (input.isBuildTime.getD true) with saved := saved, removed := removed } :=
      fun hkept hnew => apart_saved h hgood _ _ _ hkept hnew
    split
    -- Production's own variable: noted as saved, and then pushed
    next hkind =>
      have hstored := @hsaved ((t.project.id, t.key, input.value) :: w.saved)
        (w.removed.filter fun r => !(r.projectId == t.project.id && r.key == t.key))
        (fun v hv => List.mem_cons_of_mem _ hv) fun _ => List.mem_cons_self
      rcases heffect with rfl | ⟨id, happ, hwrites, _⟩
      · exact hstored
      · refine @apart_writes _ _ _ id hstored ⟨hwrites.runtime, hwrites.vars, hwrites.plane,
          hwrites.environments, hwrites.domains, hwrites.edge, rfl, rfl⟩ ?_ ?_
        · rintro k x ⟨rfl, _⟩
          exact hgood.key
        · rintro p happ' k x ⟨rfl, rfl⟩
          -- an application is one project's, so nobody else's is written on
          rw [hw.seated.apart p _ id happ' happ]
          exact List.mem_cons_self
    -- another environment's: kept away, or the value is Production's own as well
    next hkind =>
      have hstored := @hsaved w.saved w.removed (fun v hv => hv)
        fun hproduction => absurd hproduction hkind
      rcases heffect with rfl | ⟨id, happ, hwrites, hunreached⟩
      · exact hstored
      rcases hguard hkind id happ with haway | ⟨a, ha, hvalue⟩
      -- the request never got there
      · refine @apart_writes _ _ (fun _ _ => False) id hstored ?_
          (fun _ _ hno => hno.elim) fun _ _ _ _ hno => hno.elim
        refine ⟨?_, hwrites.vars, hwrites.plane, hwrites.environments, hwrites.domains,
          hwrites.edge, hwrites.saved, hwrites.removed⟩
        rw [hunreached haway]
        exact .refl _
      -- or it wrote what was there already
      · refine apart_writes hstored hwrites ?_ ?_
        · rintro k x ⟨rfl, _⟩
          exact hgood.key
        · rintro p happ' k x ⟨rfl, rfl⟩
          exact h.carried p id a _ _ happ' ha hvalue

/-- **Step.** -/
theorem apart_step (hw : Sound w) (h : Apart w) (m : Move) (hguard : NotPushed setup w m) :
    Apart (step setup w m) := by
  obtain ⟨op, o⟩ := m
  cases op with
  | request ctx input => exact apart_tame h (tame_of_quiet (step_request hw.lawful ctx input).1)
  | rollback ctx project key commit =>
    exact apart_tame h (tame_of_quiet (step_rollback hw.lawful ctx project key commit).1)
  | deliver options id =>
    refine (step_deliver (K := fun w' => Apart w' ∧ w'.environments = w.environments) options id
      hw.seated ⟨h, rfl⟩ fun job hjob ctx => ?_).2.1
    exact apart_deliver (hw.lawful job (Table.mem_of_find hjob).1) ctx
  | finish attempt outcome => exact apart_tame h (tame_of_quiet (step_finish attempt outcome))
  | setEnvVar ctx input => exact apart_setEnvVar hw h ctx input hguard
  | removeEnvVar ctx input =>
    have happart := apart_tame h (@removeEnvVar_tame setup o ctx input w)
    simp only [step, Estate.noteRemoval]
    split
    · split
      · exact ⟨happart.carried, happart.stored, happart.named, happart.keyed, happart.hex⟩
      · exact happart
    · exact happart
  | addDomain token ctx input =>
    exact apart_tame h (tame_of_sideways (addDomain_sideways token ctx input w))
  | verifyDomain ctx org id answer =>
    exact apart_tame h (tame_of_sideways (verifyDomain_sideways ctx org id answer w))
  | removeDomain ctx org id =>
    exact apart_tame h (tame_of_sideways (removeDomain_sideways ctx org id w))

/-! ## Requests about another environment -/

theorem sameVariables_of_runtime (happOf : w'.appOf = w.appOf)
    (hruntime : ∀ id a, w.runtime.apps.find id = some a →
      ∃ a', w'.runtime.apps.find id = some a' ∧ ∀ key, a'.value key = a.value key) :
    SameVariables w w' := by
  intro p id hid a ha
  rw [happOf]
  exact ⟨hid, hruntime id a ha⟩

/-- A request about another environment writes what is there already, or nothing. -/
theorem leaves_setEnvVar (ctx : CloudWai.RequestContext) (input : SetEnvVarInput)
    (hguard : NotPushed setup w ⟨.setEnvVar ctx input, o⟩) :
    LeavesProduction setup w ⟨.setEnvVar ctx input, o⟩ := by
  simp only [NotPushed] at hguard
  simp only [LeavesProduction, step, Estate.noteSave]
  cases htarget : setTarget setup ctx input w with
  | error e => trivial
  | ok t =>
    rw [htarget] at hguard
    intro hkind
    have heffect := setEnvVar_effect (o := o) htarget
    generalize (setEnvVar setup o ctx input w).2 = w' at heffect ⊢
    simp only [hkind, if_false]
    -- nobody is written to, or the application of the project is
    rcases heffect with rfl | ⟨id, happ, hwrites, hunreached⟩
    · exact sameVariables_of_runtime rfl fun i a ha => ⟨a, ha, fun _ => rfl⟩
    refine sameVariables_of_runtime hwrites.appOf fun i a ha => ?_
    rcases hguard hkind id happ with haway | ⟨a₀, ha₀, hvalue⟩
    · rw [hunreached haway]
      exact ⟨a, ha, fun _ => rfl⟩
    -- the application that is written on has the value already
    by_cases hi : i = id
    · subst hi
      obtain rfl : a₀ = a := Option.some.inj (ha₀.symm.trans ha)
      have hrel : Option.Rel (App.Written _) (w.runtime.apps.find i) (w'.runtime.apps.find i) :=
        hwrites.runtime.app
      rw [ha] at hrel
      generalize w'.runtime.apps.find i = x at hrel ⊢
      cases hrel with
      | some hwritten =>
        refine ⟨_, rfl, fun key => ?_⟩
        refine Option.ext fun x => ⟨fun hx => ?_, fun hx => ?_⟩
        · rcases hwritten.value key x hx with hold | ⟨rfl, rfl⟩
          · exact hold
          · exact hvalue
        · obtain ⟨y, hy⟩ := Option.isSome_iff_exists.mp (hwritten.kept key (hx ▸ rfl))
          rcases hwritten.value key y hy with hold | ⟨rfl, rfl⟩
          · rw [hy, ← hold, hx]
          · rw [hy, ← hvalue, hx]
    · exact ⟨a, (hwrites.runtime.others i hi).trans ha, fun _ => rfl⟩

/-- Nothing is noted about another environment. -/
theorem noteRemoval_other {ctx : CloudWai.RequestContext} {input : RemoveEnvVarInput}
    {t : EnvVarTarget} (h : removeTarget ctx input w = .ok t)
    (hkind : t.environment.kind ≠ .production) (r : Result RemoveEnvVarOutcome) :
    Estate.noteRemoval ctx input w r = r.2 := by
  unfold Estate.noteRemoval
  rw [h]
  split
  next heq =>
    cases heq
    exact if_neg hkind
  next => rfl

/-- Nothing is removed from an application: no handle is the name of a variable. -/
theorem leaves_removeEnvVar (h : Apart w) (ctx : CloudWai.RequestContext)
    (input : RemoveEnvVarInput) :
    LeavesProduction setup w ⟨.removeEnvVar ctx input, o⟩ := by
  simp only [LeavesProduction, step]
  cases htarget : removeTarget ctx input w with
  | error e => trivial
  | ok t =>
    intro hkind
    rw [noteRemoval_other htarget hkind]
    obtain ⟨s, hdrops, hstate⟩ := @removeEnvVar_effect setup o ctx input w
    have hruntime : ∀ id a, w.runtime.apps.find id = some a →
        ∃ a', s.apps.find id = some a' ∧ ∀ key, a'.value key = a.value key := by
      intro id a ha
      have hrel := hdrops.apps id
      rw [ha] at hrel
      generalize s.apps.find id = x at hrel ⊢
      cases hrel with
      | some hdrop =>
        refine ⟨_, rfl, fun key => ?_⟩
        rcases hdrop.value key with hsame | ⟨⟨i, row, hrow, hgiven⟩, hnone⟩
        · exact hsame
        cases hx : a.value key with
        | none => exact hnone
        -- the handle would have to be a name, and no name is hexadecimal
        | some x =>
          have href : row.engineRef = some key := by
            unfold given at hgiven
            split at hgiven
            · exact hgiven
            · cases hgiven
          have hhex := h.hex i row key hrow href
          rw [not_uuidHead_of_key (h.named id a key x ha hx)] at hhex
          cases hhex
    rcases hstate with ⟨hstate, _⟩ | ⟨t', _, _, hstate, _⟩
    · rw [hstate]
      exact sameVariables_of_runtime rfl hruntime
    · rw [hstate]
      exact sameVariables_of_runtime rfl hruntime

/-! ## Runs -/

/-- **Production is kept apart** in every run in which no other environment's
variable gets to a production application: what those carry was saved for
Production, and requests about other environments leave it alone. -/
theorem production_kept_apart (setup : Setup) (now : Instant) (projects : ProjectsTable)
    (members : OrganizationId → UserId → Bool) (environments : ProjectId → ProjectEnvironments)
    (moves : List Move)
    (h : EachStep (step setup) (NotPushed setup)
      (Estate.initial now projects members environments) moves) :
    Always (step setup) Confined (Estate.initial now projects members environments) moves ∧
      EachStep (step setup) (LeavesProduction setup)
        (Estate.initial now projects members environments) moves := by
  -- in the beginning there is nothing to be kept apart
  have h0 : Sound (Estate.initial now projects members environments) ∧
      Apart (Estate.initial now projects members environments) := by
    refine ⟨sound_initial _ _ _ _, ?_, ?_, ?_, ?_, ?_⟩
    · intro p id a k x hid ha
      cases ha
    · intro i row hrow
      cases hrow
    · intro id a k x ha
      cases ha
    · intro i row hrow
      cases hrow
    · intro i row ref hrow
      cases hrow
  -- one step keeps both, so every run does
  have hstep : ∀ w m, Sound w ∧ Apart w → NotPushed setup w m →
      Sound (step setup w m) ∧ Apart (step setup w m) :=
    fun w m hw hguard => ⟨sound_step hw.1 m, apart_step hw.1 hw.2 m hguard⟩
  refine ⟨always_of_inv h0 hstep (fun w hw => confined_of_apart hw.2) h,
    eachStep_of_inv h0 hstep ?_ h⟩
  rintro w ⟨op, o⟩ hw hguard
  cases op with
  | setEnvVar ctx input => exact leaves_setEnvVar ctx input hguard
  | removeEnvVar ctx input => exact leaves_removeEnvVar hw.2 ctx input
  | _ => trivial

/-- A variable for each environment, the one for Preview before there is an
application, and a deploy that pushes Production's. -/
def previewFirst : List Move :=
  [⟨.setEnvVar theOwner ⟨0, "key_a", "preview", none, some 1⟩, calm⟩,
    ⟨.setEnvVar theOwner ⟨0, "key_a", "live", none, some 0⟩, calm⟩] ++ deployed

theorem production_kept_apart_previewFirst :
    Always (step installation) Confined Estate.scripted previewFirst ∧
      EachStep (step installation) (LeavesProduction installation) Estate.scripted previewFirst :=
  production_kept_apart installation 0 oneProject (fun _ _ => true) (fun _ => twoEnvironments)
    previewFirst (by decide)

/-- A variable set for Preview reaches the production application. -/
theorem preview_reaches_production :
    ¬ ∀ (setup : Setup) (now : Instant) (projects : ProjectsTable)
      (members : OrganizationId → UserId → Bool) (environments : ProjectId → ProjectEnvironments)
      (moves : List Move),
      Always (step setup) Confined (Estate.initial now projects members environments) moves ∧
        EachStep (step setup) (LeavesProduction setup)
          (Estate.initial now projects members environments) moves := by
  intro h
  have hrun := (h installation 0 oneProject (fun _ _ => true) (fun _ => twoEnvironments)
    (deployed ++ [⟨.setEnvVar theOwner ⟨0, "key_a", "preview", none, some 1⟩, calm⟩])).1
  have hlast := always_iff_prefixes.mp hrun _ [] (List.append_nil _).symm
  exact absurd (hlast 0) (by decide)

end CloudWai.Runtime
