import CloudWai.Deployment.Conformance
import CloudWai.Deployment.Moves

/-!
# States of the plane

What is true of every state of every run: the bookkeeping is in order and each
thread is at a stage of the row's journey. `plane_step_cases` takes a step apart
once for all; the results about runs start from it.
-/

namespace CloudWai.Deployment

open Base Queue

variable {engines : Engines} {d : DeploymentId} {s : PlaneSys}

/-- The stage of thread `tid` on row `d`. -/
def stageOf (d : DeploymentId) (s : PlaneSys) (tid : Nat) : Option Stage :=
  s.stage (rowProtocol d) Task.first tid

/-- The plane before anything was deployed. -/
def PlaneSys.initial (now : Instant) (projects : ProjectsTable)
    (members : OrganizationId → UserId → Bool) : PlaneSys :=
  Sys.start (World.initial now projects members)

/-- The plane of the scripts. -/
def PlaneSys.scripted : PlaneSys := PlaneSys.initial 0 oneProject fun _ _ => true

/-- What the programs make of the threads. -/
structure Sound (d : DeploymentId) (s : PlaneSys) : Prop where
  sane : s.Sane
  typed : s.Typed (planeDuty d)
  /-- Bare store calls are no tasks of the plane. -/
  indirect : ∀ i, stageOf d s i ≠ some .direct

theorem sound_start (w : World) : Sound d (Sys.start w) where
  sane := sane_start w
  typed := typed_start _ w
  indirect _ h := by cases h

theorem sound_step (h : Sound d s) (l : PlaneMove) : Sound d ((planeHost engines).step s l) := by
  refine ⟨sane_step _ h.sane l, plane_typed engines d h.typed l, fun i hi => ?_⟩
  rcases step_cases h.sane h.typed (plane_answers engines d s.world) l with hs | ⟨_, _, _, x, x', _, hc⟩
  · rcases hs.stage i _ hi with hwas | ⟨_, t, ht⟩
    · exact h.indirect i hwas
    · cases t <;> cases ht
  · rcases hc.stage_after hi with ⟨rfl, hx'⟩ | ⟨_, hwas⟩
    · refine h.indirect i ?_
      rw [← direct_of_move (hx' ▸ hc.moves)]
      exact hc.was
    · exact h.indirect i hwas

/-- **A step of the plane**, seen from row `d`: silent, or a call that moves the
caller's stage. -/
theorem plane_step_cases (h : Sound d s) (l : PlaneMove) :
    Silent (planeHost engines) (planeDuty d) s l ∨
      ∃ tid o c x x', l = .exec tid o ∧ x ≠ .direct ∧
        Called (planeHost engines) (planeDuty d) s ((planeHost engines).step s l) tid o c x x' := by
  rcases step_cases h.sane h.typed (plane_answers engines d s.world) l with hs | ⟨tid, o, c, x, x', hl, hc⟩
  · exact .inl hs
  · refine .inr ⟨tid, o, c, x, x', hl, ?_, hc⟩
    intro hx
    exact h.indirect tid (hx ▸ hc.was)

/-- Every live thread was numbered. -/
theorem lt_born_of_stage (h : Sound d s) {i : Nat} {x : Stage} (hx : stageOf d s i = some x) :
    i < s.born := by
  by_contra hge
  rw [stageOf, stage_of_live_none (h.sane.fresh i (by omega)).1] at hx
  cases hx

/-! ## What a sight says about its call -/

/-- What an adapter's answer can show. -/
def Sight.FromEngine : Sight → Prop
  | .other _ => True
  | .ensured _ => True
  | .built _ => True
  | .polled _ _ => True
  | .cancelled _ _ => True
  | _ => False

theorem engineSight_from (c : EngineCall) (r : Except String c.Ans) :
    (engineSight c r).FromEngine := by
  cases c <;> cases r <;> trivial

/-- The calls that show the row something. -/
inductive Shows (d : DeploymentId) : (c : Call) → Except String c.Ans → Sight → Prop where
  | claimed {worker : String} {n : Nat} {rows : List (JobRow DeploymentJobPayload)}
      {org : OrganizationId} (h : claimedFor d rows = some org) :
      Shows d (.queue (.claim worker n)) (.ok rows) (.claimed org)
  | dated {now : Instant} : Shows d (.queue .clock) (.ok now) (.dated now)
  | read {org : OrganizationId} {stored : Option DeploymentRow} :
      Shows d (.store (.selectDeployment org d)) (.ok stored) (.read org stored)
  | listed {olderThan : Instant} {limit : Nat} {rows : List DeploymentRow} :
      Shows d (.store (.selectStranded olderThan limit)) (.ok rows)
        (.listed (rows.find? fun r => r.id == d))
  | project {user : UserId} {id : ProjectId} {project : ProjectRow} :
      Shows d (.store (.selectProjectOfMember user id)) (.ok (some project)) (.project project)
  | projectForService {org : OrganizationId} {id : ProjectId} {project : ProjectRow} :
      Shows d (.store (.selectProject org id)) (.ok (some project)) (.project project)
  | looked {user : UserId} {row : DeploymentRow} :
      Shows d (.store (.selectDeploymentOfMember user d)) (.ok (some row)) (.looked row)
  | created {input : DeploymentCreateInput} {r : Except String DeploymentRow} :
      Shows d (.store (.insertDeployment input)) r (.created input)
  | wrote {p : DeploymentStatusInput} {r : Except String (Option DeploymentRow)} (h : p.id = d) :
      Shows d (.store (.patchDeployment p)) r (.wrote p (!threw r))
  | billed {org : OrganizationId} {metric : String} {quantity : Nat} {r : Except String Unit} :
      Shows d (.store (.insertUsage d org metric quantity)) r (.billed org metric quantity)
  | engine {c : EngineCall} {r : Except String c.Ans} {a : Sight} (h : engineSight c r = a)
      (ha : a.FromEngine) : Shows d (.engine d c) r a
  | other {c : Call} {r : Except String c.Ans} {thrown : Bool} : Shows d c r (.other thrown)

/-- A sight shows what the call did and what was answered. -/
theorem shows_sight (d : DeploymentId) (c : Call) (r : Except String c.Ans) :
    Shows d c r (sight d c r) := by
  cases c with
  | queue c =>
    cases c with
    | claim worker n =>
      cases r with
      | error e => exact .other
      | ok rows =>
        show Shows d _ _ (queueSight d (.claim worker n) (.ok rows))
        unfold queueSight
        dsimp only
        split
        next hclaim => exact .claimed hclaim
        next => exact .other
    | clock =>
      cases r with
      | error e => exact .other
      | ok now => exact .dated
    | _ => cases r <;> exact .other
  | engine row c =>
    by_cases hrow : row = d
    · subst hrow
      rw [show sight row (.engine row c) r = engineSight c r from if_pos rfl]
      exact .engine rfl (engineSight_from c r)
    · rw [show sight d (.engine row c) r = .other (threw r) from if_neg hrow]
      exact .other
  | store c =>
    cases c with
    | selectDeployment org id =>
      cases r with
      | error e => exact .other
      | ok stored =>
        show Shows d _ _ (if id = d then .read org stored else .other false)
        split
        next hid => exact hid ▸ .read
        next => exact .other
    | selectStranded olderThan limit =>
      cases r with
      | error e => exact .other
      | ok rows => exact .listed
    | selectProjectOfMember user id =>
      cases r with
      | error e => exact .other
      | ok found =>
        cases found with
        | none => exact .other
        | some project => exact .project
    | selectProject org id =>
      cases r with
      | error e => exact .other
      | ok found =>
        cases found with
        | none => exact .other
        | some project => exact .projectForService
    | selectDeploymentOfMember user id =>
      cases r with
      | error e => exact .other
      | ok found =>
        cases found with
        | none => exact .other
        | some row =>
          show Shows d _ _ (if id = d then .looked row else .other false)
          split
          next hid => exact hid ▸ .looked
          next => exact .other
    | insertDeployment input => exact .created
    | patchDeployment p =>
      show Shows d _ _ (if p.id = d then .wrote p (!threw r) else .other (threw r))
      split
      next hid => exact .wrote hid
      next => exact .other
    | insertUsage settled org metric quantity =>
      show Shows d _ _ (if settled = d then .billed org metric quantity else .other (threw r))
      split
      next hid => exact hid ▸ .billed
      next => exact .other
    | _ => cases r <;> exact .other

/-- The service read answers with the row as it is. -/
theorem stored_of_read {w : World} {o : Oracle} {c : Call} {org : OrganizationId}
    {stored : Option DeploymentRow}
    (h : sight d c (w.perform engines o c).1 = .read org stored) :
    c = .store (.selectDeployment org d) ∧ w.store.deployment org d = stored := by
  generalize hr : (w.perform engines o c).1 = r at h
  have hshows := shows_sight d c r
  rw [h] at hshows
  cases hshows with
  | engine _ ha => exact ha.elim
  | read => exact ⟨rfl, Except.ok.inj (perform_store_ok hr).2⟩

theorem call_of_wrote {c : Call} {r : Except String c.Ans} {p : DeploymentStatusInput}
    {answered : Bool} (h : sight d c r = .wrote p answered) :
    c = .store (.patchDeployment p) ∧ p.id = d := by
  have hshows := shows_sight d c r
  rw [h] at hshows
  cases hshows with
  | engine _ ha => exact ha.elim
  | wrote hid => exact ⟨rfl, hid⟩

theorem wrote_of_patch {p : DeploymentStatusInput} (hid : p.id = d)
    (r : Except String (Call.store (.patchDeployment p)).Ans) :
    sight d (.store (.patchDeployment p)) r = .wrote p (!threw r) := if_pos hid

/-- The sweep's listing shows the row as it is, in flight. -/
theorem row_of_listed {w : World} {o : Oracle} {c : Call} {row : DeploymentRow}
    (h : sight d c (w.perform engines o c).1 = .listed (some row)) :
    w.store.deployments.find d = some row ∧ row.status.InFlight ∧
      ∃ olderThan limit, c = .store (.selectStranded olderThan limit) := by
  generalize hr : (w.perform engines o c).1 = r at h
  have hshows := shows_sight d c r
  rw [h] at hshows
  generalize ha : Sight.listed (some row) = a at hshows
  cases hshows with
  | engine _ hfrom =>
    subst ha
    exact hfrom.elim
  | @listed olderThan limit rows =>
    have hrows : w.store.stranded olderThan limit = rows :=
      Except.ok.inj (perform_store_ok hr).2
    have hfind := (Sight.listed.inj ha).symm
    have hmem := List.mem_of_find?_eq_some hfind
    have hid : row.id = d := by simpa using List.find?_some hfind
    rw [← hrows] at hmem
    obtain ⟨hrow, hflight⟩ := mem_stranded hmem
    exact ⟨Table.find_eq_some.mpr ⟨hrow, hid⟩, hflight, olderThan, limit, rfl⟩
  | _ => cases ha

/-- A member's read shows the row as it is. -/
theorem row_of_looked {w : World} {o : Oracle} {c : Call} {row : DeploymentRow}
    (h : sight d c (w.perform engines o c).1 = .looked row) :
    w.store.deployments.find d = some row ∧ ∃ user, c = .store (.selectDeploymentOfMember user d) := by
  generalize hr : (w.perform engines o c).1 = r at h
  have hshows := shows_sight d c r
  rw [h] at hshows
  cases hshows with
  | engine _ ha => exact ha.elim
  | looked =>
    have hseen := Except.ok.inj (perform_store_ok hr).2
    exact ⟨(Option.filter_eq_some_iff.mp hseen).1, _, rfl⟩

/-! ## What a call does to a row -/

def World.row (w : World) (d : DeploymentId) : Option DeploymentRow := w.store.deployments.find d

/-- How row `d` is after a call. -/
inductive Touches (d : DeploymentId) (w : World) (o : Oracle) : Call → Option DeploymentRow → Prop
    where
  | patch {p : DeploymentStatusInput} {r : DeploymentRow} (hid : p.id = d)
      (hrow : w.row d = some r) (horg : r.organizationId = p.organizationId)
      (hlands : o.fault.Lands) : Touches d w o (.store (.patchDeployment p)) (some (p.set r))
  | promote {org : OrganizationId} {project : ProjectId} {id : DeploymentId} {r : DeploymentRow}
      {flag : Bool} (hrow : w.row d = some r) (hlands : o.fault.Lands)
      (hflag : flag = true → r.isCurrent = true ∨ id = d ∧ promotable org project id r = true) :
      Touches d w o (.store (.promote org project id)) (some { r with isCurrent := flag })
  | insert {input : DeploymentCreateInput} (hnone : w.row d = none) (hlands : o.fault.Lands) :
      Touches d w o (.store (.insertDeployment input)) (some (input.row w.now d))
  | keep {c : Call} : Touches d w o c (w.row d)

theorem find_movedFlags (t : DeploymentsTable) (org : OrganizationId) (project : ProjectId)
    (id d : DeploymentId) :
    (movedFlags org project id t).find d = (t.find d).map fun r =>
      { r with isCurrent :=
          (r.id == id && r.projectId == project && r.organizationId == org) ||
            (!liveIn org project r && r.isCurrent) } := by
  simp only [movedFlags, Table.find_update, Option.map_map]
  congr 1
  funext r
  by_cases hlive : liveIn org project r = true
  · by_cases hnew : (r.id == id && r.projectId == project && r.organizationId == org) = true
    · simp [Table.Edit.on, hlive, hnew]
    · simp [Table.Edit.on, hlive, hnew]
  · by_cases hnew : (r.id == id && r.projectId == project && r.organizationId == org) = true
    · simp [Table.Edit.on, hlive, hnew]
    · simp [Table.Edit.on, hlive, hnew]

/-- A patch of the row, if its organization is the row's. -/
theorem find_patchDeployment (s : Store) (p : DeploymentStatusInput) (d : DeploymentId) :
    (s.patchDeployment p).deployments.find d =
      (s.deployments.find d).map fun r => if owned p.organizationId p.id r then p.set r else r :=
  Table.find_update _ _ _ _

theorem touches_of_same {w : World} {o : Oracle} {c : Call} {row : Option DeploymentRow}
    (h : w.row d = row) : Touches d w o c row := by
  rw [← h]
  exact .keep

/-- The row a promotion's check found. -/
theorem find_of_any {t : DeploymentsTable} {org : OrganizationId} {project : ProjectId}
    {id : DeploymentId} (hany : t.rows.any (promotable org project id) = true) :
    ∃ r, t.find id = some r ∧ promotable org project id r = true := by
  obtain ⟨r, hmem, hr⟩ := List.any_eq_true.mp hany
  have hkey : r.id = id := by
    simp only [promotable, Bool.and_eq_true, beq_iff_eq] at hr
    exact hr.1.1.1.1
  exact ⟨r, Table.find_eq_some.mpr ⟨hmem, hkey⟩, hr⟩

theorem status_of_promotable {org : OrganizationId} {project : ProjectId} {id : DeploymentId}
    {r : DeploymentRow} (h : promotable org project id r = true) : r.status = .succeeded := by
  simp only [promotable, Bool.and_eq_true, beq_iff_eq] at h
  exact h.2

/-- It is the row the promotion's update names. -/
theorem promotable_of_any {t : DeploymentsTable} {org : OrganizationId} {project : ProjectId}
    {id : DeploymentId} {r : DeploymentRow} (hany : t.rows.any (promotable org project id) = true)
    (hrow : t.find id = some r) : promotable org project id r = true := by
  obtain ⟨r', hfind, hr'⟩ := find_of_any hany
  rw [hrow] at hfind
  rw [Option.some.inj hfind]
  exact hr'

/-- **The effect of one call on a row.** -/
theorem touches_perform (engines : Engines) (d : DeploymentId) (w : World) (o : Oracle) (c : Call) :
    Touches d w o c ((w.perform engines o c).2.row d) := by
  cases c with
  | engine row c => exact .keep
  | queue c =>
    rw [World.row, perform_queue_store]
    exact .keep
  | store c =>
    rw [World.row, perform_store]
    split
    next hlands =>
      cases c with
      | patchDeployment p =>
        rw [show (StoreCall.run w.now o.away w.store (.patchDeployment p)).2 =
          w.store.patchDeployment p from rfl, find_patchDeployment]
        cases hrow : w.store.deployments.find d with
        | none => exact touches_of_same hrow
        | some r =>
          rw [Option.map_some]
          split
          next howned =>
            simp only [owned, Bool.and_eq_true, beq_iff_eq] at howned
            have hid : r.id = d := (Table.mem_of_find hrow).2
            exact .patch (howned.1.symm.trans hid) hrow howned.2 hlands
          next => exact touches_of_same hrow
      | promote org project id =>
        simp only [StoreCall.run, Store.promoteDeployment]
        split
        next hany =>
          split
          next hone =>
            simp only [find_movedFlags]
            cases hrow : w.store.deployments.find d with
            | none => exact touches_of_same hrow
            | some r =>
              refine .promote hrow hlands ?_
              intro hflag
              simp only [Bool.or_eq_true, Bool.and_eq_true, beq_iff_eq] at hflag
              rcases hflag with ⟨⟨hnew, _⟩, _⟩ | ⟨_, hwas⟩
              · have hid : r.id = d := (Table.mem_of_find hrow).2
                have hd : id = d := hnew.symm.trans hid
                exact .inr ⟨hd, promotable_of_any hany (hd ▸ hrow)⟩
              · exact .inl hwas
          next => exact .keep
        next => exact .keep
      | insertDeployment input =>
        simp only [StoreCall.run]
        split
        next haccepts =>
          simp only [Table.find_insertNew]
          split
          next hd =>
            subst hd
            exact .insert Table.find_nextId hlands
          next => exact .keep
        next => exact .keep
      | insertPreviewTarget org project key branch pullRequest =>
        simp only [StoreCall.run]
        split <;> exact .keep
      | _ => exact .keep
    next => exact .keep

/-! ## What a call does to the pointer -/

/-- `projects.production_deployment_id`. -/
def World.pointer (w : World) (project : ProjectId) : Option DeploymentId :=
  (w.store.projects.find project).bind (·.productionDeploymentId)

/-- A change of a project's settings leaves it alone. -/
theorem pointer_update {t : ProjectsTable} {p : ProjectRow → Bool}
    {f : Table.Edit fun p : ProjectRow => p.id}
    (hf : ∀ r, (f.run r).productionDeploymentId = r.productionDeploymentId) (project : ProjectId) :
    ((t.update p f).find project).bind (·.productionDeploymentId) =
      (t.find project).bind (·.productionDeploymentId) := by
  rw [Table.find_update]
  cases t.find project with
  | none => rfl
  | some r =>
    simp only [Option.map_some, Option.bind_some, Table.Edit.on]
    split
    · exact hf r
    · rfl

/-- Only a promotion moves it, to a deployment that may be live. -/
theorem pointer_perform (engines : Engines) (w : World) (o : Oracle) (c : Call)
    (project : ProjectId) :
    (w.perform engines o c).2.pointer project = w.pointer project ∨
      ∃ org id r, c = .store (.promote org project id) ∧ w.row id = some r ∧
        promotable org project id r = true ∧
        (w.perform engines o c).2.pointer project = some id := by
  cases c with
  | engine row c => exact .inl rfl
  | queue c =>
    left
    rw [World.pointer, perform_queue_store]
    rfl
  | store c =>
    rw [World.pointer, perform_store]
    split
    next =>
      cases c with
      | patchProjectProvider org id provider resource =>
        exact .inl (pointer_update (fun _ => rfl) project)
      | promote org id d =>
        simp only [StoreCall.run, Store.promoteDeployment]
        split
        next hany =>
          split
          next =>
            simp only [Table.find_update, World.pointer]
            cases hproject : w.store.projects.find project with
            | none => exact .inl rfl
            | some r =>
              simp only [Option.map_some, Option.bind_some, Table.Edit.on]
              split
              next hhit =>
                simp only [Bool.and_eq_true, beq_iff_eq] at hhit
                have hid : project = id := (Table.mem_of_find hproject).2.symm.trans hhit.1
                subst hid
                obtain ⟨row, hrow, hr⟩ := find_of_any hany
                exact .inr ⟨org, d, row, rfl, hrow, hr, rfl⟩
              next => exact .inl rfl
          next => exact .inl rfl
        next => exact .inl rfl
      | insertPreviewTarget org id key branch pullRequest =>
        left
        simp only [StoreCall.run]
        split <;> rfl
      | insertDeployment input =>
        left
        simp only [StoreCall.run]
        split <;> rfl
      | _ => exact .inl rfl
    next => exact .inl rfl

/-! ## Silent steps -/

theorem row_of_silent {l : PlaneMove} (h : Silent (planeHost engines) (planeDuty d) s l) :
    ((planeHost engines).step s l).world.row d = s.world.row d := by
  rcases h.world with hw | ⟨δ, hw⟩
  · rw [hw]
  · rw [hw]
    cases δ <;> rfl

theorem pointer_of_silent {l : PlaneMove} (h : Silent (planeHost engines) (planeDuty d) s l)
    (project : ProjectId) :
    ((planeHost engines).step s l).world.pointer project = s.world.pointer project := by
  rcases h.world with hw | ⟨δ, hw⟩
  · rw [hw]
  · rw [hw]
    cases δ with
    | tick ms => rfl
    | reconfigure id slug model rootDirectory => exact pointer_update (fun _ => rfl) project

end CloudWai.Deployment
