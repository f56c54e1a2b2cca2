import CloudWai.Runtime.Steady
import CloudWai.Runtime.Variables

/-!
# What writing variables changes

Two writers push variables onto an application: `setEnvVar` one, the worker's
sync all that are stored for an environment. Both go through the same route, and
both note the handle they are given in the row they wrote. `Writes P id` is what
either leaves: application `id` carries what it carried, and besides it only
variables of which `P` holds; the stored values are untouched; and a handle is
eight hexadecimal digits.
-/

namespace CloudWai.Runtime

open Base Deployment

variable {setup : Setup} {o : Outside} {P : String → String → Prop} {id : String}

/-- What the application carries under a name. -/
def App.value (a : App) (key : String) : Option String := (a.env.find key).map (·.value)

/-! ## The runtime -/

/-- Variables are written that `P` allows, and none is lost. -/
structure App.Written (P : String → String → Prop) (a a' : App) : Prop where
  domains : a'.domains = a.domains
  container : a'.container = a.container
  value : ∀ k x, a'.value k = some x → a.value k = some x ∨ P k x
  kept : ∀ k, (a.value k).isSome → (a'.value k).isSome

/-- The same of one application; the others are as they were. -/
structure State.Writes (P : String → String → Prop) (id : String) (s s' : State) : Prop where
  starts : s'.starts = s.starts
  others : ∀ i, i ≠ id → s'.apps.find i = s.apps.find i
  app : Option.Rel (App.Written P) (s.apps.find id) (s'.apps.find id)

theorem App.Written.refl (a : App) : App.Written P a a :=
  ⟨rfl, rfl, fun _ _ h => .inl h, fun _ h => h⟩

theorem App.Written.trans {a b c : App} (h : App.Written P a b) (h' : App.Written P b c) :
    App.Written P a c := by
  refine ⟨h'.domains.trans h.domains, h'.container.trans h.container, fun k x hx => ?_,
    fun k hk => h'.kept k (h.kept k hk)⟩
  rcases h'.value k x hx with hb | hp
  · exact h.value k x hb
  · exact .inr hp

theorem State.Writes.refl (s : State) : s.Writes P id s := by
  refine ⟨rfl, fun _ _ => rfl, ?_⟩
  cases s.apps.find id with
  | none => exact .none
  | some a => exact .some (.refl a)

theorem State.Writes.trans {s s' s'' : State} (h : s.Writes P id s') (h' : s'.Writes P id s'') :
    s.Writes P id s'' := by
  refine ⟨h'.starts.trans h.starts, fun i hi => (h'.others i hi).trans (h.others i hi), ?_⟩
  have hrel := h.app
  have hrel' := h'.app
  revert hrel hrel'
  cases s.apps.find id <;> cases s'.apps.find id <;> cases s''.apps.find id <;>
    intro hrel hrel' <;> cases hrel <;> cases hrel'
  · exact .none
  · next hw hw' => exact .some (hw.trans hw')

theorem State.Writes.some_find {s s' : State} (h : s.Writes P id s') {i : String} {a' : App}
    (ha' : s'.apps.find i = some a') :
    ∃ a, s.apps.find i = some a ∧ a'.domains = a.domains ∧ a'.container = a.container ∧
      ∀ k x, a'.value k = some x → a.value k = some x ∨ i = id ∧ P k x := by
  by_cases hi : i = id
  · subst hi
    have hrel := h.app
    rw [ha'] at hrel
    generalize s.apps.find i = x at hrel ⊢
    cases hrel with
    | some hwritten =>
      refine ⟨_, rfl, hwritten.domains, hwritten.container, fun k x hx => ?_⟩
      rcases hwritten.value k x hx with hold | hnew
      · exact .inl hold
      · exact .inr ⟨rfl, hnew⟩
  · rw [h.others i hi] at ha'
    exact ⟨a', ha', rfl, rfl, fun _ _ hx => .inl hx⟩

theorem value_setVariable (a : App) (fresh : Handle) (body : EnvBody) (k : String) :
    App.value { a with env := setVariable fresh body a.env } k =
      if k = body.key then some body.value else a.value k := by
  unfold App.value setVariable
  simp only [Table.find_put]
  split <;> rfl

/-- A write, as far as it is accepted: the value is there, and its handle is told. -/
theorem writeEnv_cases (code : Nat) (fresh : Handle) (body : EnvBody) (s : State) :
    (∃ c message, State.writeEnv code fresh body id s = (.refuse c message, s)) ∨
      ∃ a a' state, ∃ h : Handle, s.apps.find id = some a ∧
        State.writeEnv code fresh body id s = (.accept code state, s.put a') ∧
        state.engineRef = h.text ∧ a'.id = a.id ∧ a'.domains = a.domains ∧
        a'.container = a.container ∧
        ∀ k, a'.value k = if k = body.key then some body.value else a.value k := by
  unfold State.writeEnv State.route
  cases ha : s.apps.find id with
  | none => exact .inl ⟨_, _, rfl⟩
  | some a =>
    simp only
    split
    · exact .inl ⟨_, _, rfl⟩
    split
    · exact .inl ⟨_, _, rfl⟩
    · exact .inr ⟨a, _, _, _, rfl, rfl, rfl, rfl, rfl, rfl, value_setVariable a fresh body⟩

/-- The runtime writes the one name. -/
theorem writeEnv_writes {body : EnvBody} (hP : P body.key body.value) (code : Nat)
    (fresh : Handle) (s : State) : s.Writes P id (State.writeEnv code fresh body id s).2 := by
  rcases @writeEnv_cases id code fresh body s with
    ⟨_, _, hr⟩ | ⟨a, a', _, _, ha, hr, _, hid, hdomains, hcontainer, hvalue⟩
  · rw [hr]
    exact .refl s
  · rw [hr]
    have hkey : a'.id = id := hid.trans (app_id ha)
    refine ⟨rfl, fun i hi => ?_, ?_⟩
    · exact (Table.find_put _ _ _).trans (if_neg fun h => hi (h.trans hkey))
    · show Option.Rel _ _ ((s.apps.put a').find id)
      rw [ha, Table.find_put, if_pos hkey.symm]
      refine .some ⟨hdomains, hcontainer, fun k x hx => ?_, fun k hk => ?_⟩
      · rw [hvalue] at hx
        split at hx
        next hk =>
          cases hx
          exact .inr (hk ▸ hP)
        next => exact .inl hx
      · rw [hvalue]
        split
        · rfl
        · exact hk

/-- A request that changes nothing, or what its route does. -/
theorem call_writes {β : Type} {ctx : AdapterContext} (method path : String)
    {route : State → Reply β × State} {s : State} (h : s.Writes P id (route s).2) :
    s.Writes P id (call setup o ctx method path route s).2 := by
  rcases (@call_state setup o ctx) method path route s with hs | hs
  · rw [hs]
    exact .refl s
  · rw [hs]
    exact h

/-- The handle in the answer is one the runtime drew. -/
theorem engineRef_of_call {ctx : AdapterContext} {method path : String} {code : Nat}
    {fresh : Handle} {body : EnvBody} {s : State} {status : EngineStatus} {state : EnvVarState}
    (h : (call setup o ctx method path (State.writeEnv code fresh body id) s).1 = .ok status state) :
    ∃ ref : Handle, state.engineRef = ref.text := by
  obtain ⟨c, hroute⟩ := call_ok h
  rcases @writeEnv_cases id code fresh body s with
    ⟨_, _, hr⟩ | ⟨_, _, _, ref, _, hr, href, _⟩
  · rw [hr] at hroute
    cases hroute
  · rw [hr] at hroute
    cases (Prod.mk.inj hroute).1
    exact ⟨ref, href⟩

/-! ## The tables -/

/-- A row before and after its handle was noted. -/
structure EnvVarRow.Noted (r r' : EnvVarRow) : Prop where
  organizationId : r'.organizationId = r.organizationId
  value : r'.value = r.value
  engineRef : r'.engineRef = r.engineRef ∨ ∃ h : Handle, r'.engineRef = some h.text

theorem EnvVarRow.Noted.refl (r : EnvVarRow) : r.Noted r := ⟨rfl, rfl, .inl rfl⟩

theorem EnvVarRow.Noted.trans {r r' r'' : EnvVarRow} (h : r.Noted r') (h' : r'.Noted r'') :
    r.Noted r'' := by
  refine ⟨h'.organizationId.trans h.organizationId, h'.value.trans h.value, ?_⟩
  rcases h'.engineRef with hold | hnew
  · rw [hold]
    exact h.engineRef
  · exact .inr hnew

/-- And of the whole estate. -/
structure Writes (P : String → String → Prop) (id : String) (w w' : Estate) : Prop where
  runtime : w.runtime.Writes P id w'.runtime
  vars : ∀ i, Option.Rel EnvVarRow.Noted (w.vars.find i) (w'.vars.find i)
  plane : w'.plane = w.plane
  environments : w'.environments = w.environments
  domains : w'.domains = w.domains
  edge : w'.edge = w.edge
  saved : w'.saved = w.saved
  removed : w'.removed = w.removed

variable {w w' w'' : Estate}

theorem noted_refl (r : Option EnvVarRow) : Option.Rel EnvVarRow.Noted r r := by
  cases r with
  | none => exact .none
  | some r => exact .some (.refl r)

theorem writes_of_runtime {s : State} (h : w.runtime.Writes P id s) :
    Writes P id w { w with runtime := s } :=
  ⟨h, fun _ => noted_refl _, rfl, rfl, rfl, rfl, rfl, rfl⟩

theorem Writes.refl (w : Estate) : Writes P id w w := writes_of_runtime (.refl _)

theorem Writes.trans (h : Writes P id w w') (h' : Writes P id w' w'') : Writes P id w w'' where
  runtime := h.runtime.trans h'.runtime
  vars i := by
    have hrel := h.vars i
    have hrel' := h'.vars i
    revert hrel hrel'
    cases w.vars.find i <;> cases w'.vars.find i <;> cases w''.vars.find i <;>
      intro hrel hrel' <;> cases hrel <;> cases hrel'
    · exact .none
    · next hn hn' => exact .some (hn.trans hn')
  plane := h'.plane.trans h.plane
  environments := h'.environments.trans h.environments
  domains := h'.domains.trans h.domains
  edge := h'.edge.trans h.edge
  saved := h'.saved.trans h.saved
  removed := h'.removed.trans h.removed

theorem writes_setEngineRef (w : Estate) (org : OrganizationId) (index : EnvVarKey) (h : Handle)
    (application : ProviderRef) :
    Writes P id w (w.setEnvVarEngineRef org index h.text application) := by
  refine ⟨.refl _, fun i => ?_, rfl, rfl, rfl, rfl, rfl, rfl⟩
  unfold Estate.setEnvVarEngineRef
  rw [Table.find_update]
  cases w.vars.find i with
  | none => exact .none
  | some r =>
    refine .some ?_
    unfold Table.Edit.on
    split
    · exact ⟨rfl, rfl, .inr ⟨h, rfl⟩⟩
    · exact .refl r

/-! ## The worker's reconciliation -/

variable {ctx : AdapterContext} {application : ProviderRef}

/-- A push writes a variable under its own name. -/
theorem pushVariable_writes {v : EnvVarRow} (hP : P v.key v.value) (existing : List EnvVarState)
    (w : Estate) :
    Writes P application.resourceId w (pushVariable setup o ctx application existing w v) := by
  unfold pushVariable
  split
  · exact .refl w
  simp only
  generalize hput : (if existing.any (·.key == v.key) then _ else _) = a
  -- both methods come down to the same route
  have hroute : w.runtime.Writes P application.resourceId a.2 ∧
      ∀ status state, a.1 = .ok status state → ∃ h : Handle, state.engineRef = h.text := by
    rw [← hput]
    split
    · exact ⟨call_writes "PATCH" _ (writeEnv_writes hP 200 _ _), fun _ _ h => engineRef_of_call h⟩
    · exact ⟨call_writes "POST" _ (writeEnv_writes hP 201 _ _), fun _ _ h => engineRef_of_call h⟩
  have hruntime := writes_of_runtime hroute.1
  cases hanswer : a.1 with
  | err status reason => exact hruntime
  | ok status state =>
    obtain ⟨ref, href⟩ := hroute.2 status state hanswer
    simp only [href]
    exact hruntime.trans (writes_setEngineRef _ _ _ ref _)

/-- And all that the worker pushes are stored for the environment. -/
theorem syncEnvVars_writes {project : ProjectId} {environment : EnvironmentId}
    (hP : ∀ v ∈ w.vars, v.organizationId = ctx.organizationId → v.projectId = project →
      v.environmentId = environment → P v.key v.value) :
    Writes P application.resourceId w
      (syncEnvVars setup o ctx application project environment w) := by
  simp only [syncEnvVars]
  split
  · exact .refl w
  rw [adapter_listEnvVars_state]
  split
  · exact .refl w
  next existing _ =>
    refine List.foldlRecOn (motive := Writes P application.resourceId w) _ _ (.refl w) ?_
    intro w' hw' v hv
    refine hw'.trans (pushVariable_writes ?_ existing w')
    have hmem : v ∈ w.vars.rows ∧ _ :=
      List.mem_filter.mp ((List.mem_insertionSort _).mp hv)
    obtain ⟨hrow, hpred⟩ := hmem
    simp only [Bool.and_eq_true, beq_iff_eq] at hpred
    exact hP v hrow hpred.1.1 hpred.1.2 hpred.2

/-- **Only what is stored for the environment is pushed.** -/
theorem syncEnvVars_stored (project : ProjectId) (environment : EnvironmentId) (w : Estate) :
    Writes (fun k x => ∃ row, w.vars.find ⟨project, environment, k⟩ = some row ∧ row.value = x)
      application.resourceId w (syncEnvVars setup o ctx application project environment w) := by
  refine syncEnvVars_writes fun v hv _ hproject henvironment => ⟨v, ?_, rfl⟩
  refine Table.find_eq_some.mpr ⟨hv, ?_⟩
  unfold EnvVarRow.index
  rw [hproject, henvironment]

end CloudWai.Runtime
