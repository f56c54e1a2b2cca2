import CloudWai.Deployment.Orders

/-!
# Retries of a request that died

A retry is recognised by its idempotency key, and looked for among the rows alone. So
where the thread that made the row never came to enqueue the job, because a request of
the database was lost or refused or its process died, every retry finds the row, answers
that it is a replay, and leaves the queue as it is (`retry_jobs`).

`recovers_iff` is the exact form: in a run, a retry leaves the row with a job, in every
state in which no request still owes it one, exactly if no step makes a thread let go of
the row before its job is in the queue.

About `requestDeployment` in `apps/api/src/procedures/deployments.ts` and
`deployFromDelivery` in `apps/api/src/git-hook.ts`, as `Procedures.lean` and `Hook.lean`
have them.
-/

namespace CloudWai.Deployment

open Base Queue ControlPlaneStore

variable {engines : Engines} {d : DeploymentId} {s : PlaneSys}

/-! ## Retries -/

/-- A request of the row's project under the row's key. -/
def Task.Retries (r : DeploymentRow) : Task → Prop
  | .request _ input => input.projectId = r.projectId ∧ input.idempotencyKey = r.idempotencyKey
  | .rollback _ project key _ => project = r.projectId ∧ key = r.idempotencyKey
  | .hook link delivery => link.organizationId = r.organizationId ∧ link.projectId = r.projectId ∧
      delivery.idempotencyKey link = r.idempotencyKey
  | _ => False

/-- A live thread owes row `d` its job. -/
def Owed (d : DeploymentId) (s : PlaneSys) : Prop := ∃ i < s.born, ∃ x ∈ handOf s i, x.Owes d

instance : Decidable (Owed d s) := inferInstanceAs (Decidable (∃ i < s.born, _))

/-- Where no request is at work on the row any more, a retry of the request that made it
leaves a job for it in the queue. -/
def Recovers (engines : Engines) (d : DeploymentId) (s : PlaneSys) : Prop :=
  ∀ r ∈ s.world.row d, ¬ Owed d s → ∀ t : Task, t.Retries r → ∀ away,
    HasJob d ((t.body engines).eval (World.serve away) s.world).2

/-! ## What a retry does -/

/-- No request makes a job for a row that is already there. -/
theorem retry_jobs {t : Task} {away : Elsewhere} {w : World} (hrow : (w.row d).isSome) :
    HasJob d ((t.body engines).eval (World.serve away) w).2 ↔ HasJob d w := by
  have hends := (@Protocol.ends_of_follows _ _ _ _ _ _ (World.serve away)) (order_follows engines t)
    (I := fun x w' => (w'.row d).isSome ∧ ¬ x.Owes d ∧ (HasJob d w' ↔ HasJob d w))
    (fun _ _ => trivial) ?_ ⟨hrow, id, Iff.rfl⟩
  · obtain ⟨_, _, _, _, hjobs⟩ := hends
    exact hjobs
  · rintro x w' c x' ⟨hthere, howes, hjobs⟩ hnext
    obtain ⟨r, hr⟩ := Option.isSome_iff_exists.mp hthere
    have hident : w'.ident d = some (r.organizationId, r.idempotencyKey) := by
      rw [World.ident, hr]
      rfl
    refine ⟨?_, ?_, ?_⟩
    · have hstays := (@ident_stays ⟨none, false⟩ (undisturbed away) c) hident
      obtain ⟨r', hr', _⟩ := Option.map_eq_some_iff.mp hstays
      exact Option.isSome_iff_exists.mpr ⟨r', hr'⟩
    · intro howes'
      cases x' with
      | holds row org key =>
        obtain rfl : row = d := howes'
        rcases holds_of_next hnext with ⟨rfl, _⟩ | ⟨rfl, input, rfl, _, _, hanswered⟩
        · exact howes rfl
        · cases hans : (w'.serve away (.store (.insertDeployment input))).1 with
          | error e =>
            rw [hans] at hanswered
            cases hanswered
          | ok made =>
            rw [hans] at hnext
            have hmade : made.id = row := by
              cases hnext
              rfl
            exact row_isSome_of_ident hident (hmade ▸ (insert_answer hans).2.2)
      | _ => exact howes'
    · rw [← hjobs]
      refine ⟨fun hjob => ?_, hasJob_perform c⟩
      rcases hasJob_after hjob with hjob | ⟨n, rfl, hn⟩
      · exact hjob
      · obtain ⟨_, row, org, key, rfl, hjobOf⟩ := holds_of_insert hnext
        exact absurd (hjobOf.payload.symm.trans hn) howes

/-- So it recovers a row exactly if there is nothing to recover. -/
theorem recovers_iff_hasJob :
    Recovers engines d s ↔ ((s.world.row d).isSome → ¬ Owed d s → HasJob d s.world) := by
  constructor
  · intro h hrow howed
    obtain ⟨r, hr⟩ := Option.isSome_iff_exists.mp hrow
    have hretry := h r hr howed
      (.rollback ⟨0, fun _ _ => none⟩ r.projectId r.idempotencyKey "") ⟨rfl, rfl⟩ ⟨[], none⟩
    exact (retry_jobs hrow).mp hretry
  · intro h r hr howed t _ away
    have hrow : (s.world.row d).isSome := Option.isSome_iff_exists.mpr ⟨r, hr⟩
    exact (retry_jobs hrow).mpr (h hrow howed)

/-! ## The condition -/

/-- The thread owes the row its job. -/
def Owing (d : DeploymentId) (s : PlaneSys) (tid : Nat) : Prop := ∃ x ∈ handOf s tid, x.Owes d

instance (tid : Nat) : Decidable (Owing d s tid) := inferInstanceAs (Decidable (∃ x ∈ _, _))

/-- A call does not make its thread let go of the row. -/
def KeepsHold (d : DeploymentId) (s : PlaneSys) (tid : Nat) (o : Oracle) : Call → Prop
  -- the insert of the row is answered, if it arrives and is accepted
  | .store (.insertDeployment input) => d = s.world.store.deployments.nextId →
      s.world.store.accepts input = true → o.fault.Lands → o.fault.Clear
  -- the insert of its job arrives
  | .queue (.insert _) => Owing d s tid → o.fault.Lands
  -- what is asked in between is answered, and the preview target is new
  | .store (.insertPreviewTarget _ project key _ _) => Owing d s tid →
      o.fault.Clear ∧ ∀ t ∈ s.world.store.previewTargets.rows,
        ¬ (t.projectId = project ∧ t.previewKey = key)
  | .store _ => Owing d s tid → o.fault.Clear
  | _ => True

instance (tid : Nat) (o : Oracle) (c : Call) : Decidable (KeepsHold d s tid o c) := by
  unfold KeepsHold
  rcases c with (_ | _) | (_ | _) | _ <;> infer_instance

/-- Nor does a crash. -/
def HoldGuard (d : DeploymentId) (s : PlaneSys) : PlaneMove → Prop
  | .exec tid o => ∀ c, s.pending tid = some c → KeepsHold d s tid o c
  | .crash tid => ¬ Owing d s tid
  | _ => True

/-! ## One step -/

/-- A request is answered if it is not lost and the database does not refuse it. -/
theorem threw_store {w : World} {o : Oracle} {c : StoreCall} :
    threw (w.perform engines o (.store c)).1 = false ↔
      o.fault.Clear ∧ threw (c.run w.now o.away w.store).1 = false := by
  have happly : (w.perform engines o (.store c)).1 =
      (o.fault.apply w ((c.run w.now o.away w.store).1,
        { w with store := (c.run w.now o.away w.store).2 })).1 := rfl
  rw [happly, Fault.clear_iff]
  cases o.fault with
  | none => exact ⟨fun h => ⟨rfl, h⟩, fun h => h.2⟩
  | before reason => simp [Fault.apply, threw]
  | after reason => simp [Fault.apply, threw]

/-- Between the row and the job, a call is refused if it is lost or the preview target
is another's. -/
theorem threw_between {tid : Nat} {o : Oracle} {c : Call} (hc : Between c)
    (howing : Owing d s tid) :
    threw (s.world.perform engines o c).1 = false ↔ KeepsHold d s tid o c := by
  cases c with
  | queue c => exact hc.elim
  | engine row c => exact hc.elim
  | store c =>
    rw [threw_store]
    cases c with
    | selectPreviewTarget org project key =>
      exact ⟨fun h _ => h.1, fun h => ⟨h howing, rfl⟩⟩
    | selectTargetOfMember user project =>
      exact ⟨fun h _ => h.1, fun h => ⟨h howing, rfl⟩⟩
    | insertPreviewTarget org project key branch pullRequest =>
      have hrun : threw (StoreCall.run s.world.now o.away s.world.store
          (.insertPreviewTarget org project key branch pullRequest)).1 = false ↔
          ∀ t ∈ s.world.store.previewTargets.rows,
            ¬ (t.projectId = project ∧ t.previewKey = key) := by
        simp only [StoreCall.run]
        split
        next hany =>
          obtain ⟨t, ht, hsame⟩ := List.any_eq_true.mp hany
          simp only [Bool.and_eq_true, beq_iff_eq] at hsame
          exact iff_of_false (by simp [threw]) fun h => h t ht hsame
        next hany =>
          refine iff_of_true rfl fun t ht hsame => hany ?_
          exact List.any_eq_true.mpr ⟨t, ht, by simp [hsame]⟩
      rw [hrun]
      exact ⟨fun h _ => h, fun h => h howing⟩
    | _ => exact hc.elim

theorem lt_born_of_hand (h : OrderInv s) {i : Nat} {x : Hand} (hx : handOf s i = some x) :
    i < s.born := by
  by_contra hge
  rw [handOf, stage_of_live_none (h.sane.fresh i (by omega)).1] at hx
  cases hx

/-- Who owes a row its job is the only one to. -/
theorem owing_unique (h : OrderInv s) {i j : Nat} {x y : Hand} (hx : handOf s i = some x)
    (hy : handOf s j = some y) (hxd : x.Owes d) (hyd : y.Owes d) : i = j := by
  cases x with
  | holds row org key =>
    cases y with
    | holds row' org' key' =>
      obtain rfl : row = d := hxd
      obtain rfl : row' = row := hyd
      exact h.lone i j _ _ _ _ _ hx hy
    | _ => exact hyd.elim
  | _ => exact hxd.elim

/-- A row that is owed its job is there, and has none. -/
theorem owing_held (h : OrderInv s) {tid : Nat} (howing : Owing d s tid) :
    (s.world.row d).isSome ∧ ¬ HasJob d s.world := by
  obtain ⟨x, hx, howes⟩ := howing
  cases x with
  | holds row org key =>
    obtain rfl : row = d := howes
    obtain ⟨hident, hnone⟩ := h.held tid row org key hx
    obtain ⟨r, hr, _⟩ := Option.map_eq_some_iff.mp hident
    exact ⟨Option.isSome_iff_exists.mpr ⟨r, hr⟩, hnone⟩
  | _ => exact howes.elim

/-- A crash takes the row's thread, or leaves all as it is. -/
theorem recovers_crash (h : OrderInv s) (hrec : Recovers engines d s) (tid : Nat) :
    Recovers engines d ((planeHost engines).step s (.crash tid)) ↔ ¬ Owing d s tid := by
  obtain ⟨hgone, hothers⟩ := crash_stage (H := planeHost engines) orderDuty s tid
  rw [recovers_iff_hasJob] at hrec ⊢
  constructor
  · intro hafter howing
    obtain ⟨hrow, hnone⟩ := owing_held h howing
    refine hnone (hafter hrow ?_)
    rintro ⟨i, _, y, hy, hyd⟩
    by_cases hit : i = tid
    · subst hit
      rw [show handOf ((planeHost engines).step s (.crash i)) i = none from hgone] at hy
      cases hy
    · rw [Option.mem_def, handOf, Sys.stage, hothers i hit] at hy
      obtain ⟨x, hx, howes⟩ := howing
      exact hit (owing_unique h hy hx hyd howes)
  · intro hnot hrow howed
    refine hrec hrow ?_
    rintro ⟨i, hi, y, hy, hyd⟩
    by_cases hit : i = tid
    · exact hnot ⟨y, hit ▸ hy, hyd⟩
    · refine howed ⟨i, hi, y, ?_, hyd⟩
      rw [Option.mem_def, handOf, Sys.stage, hothers i hit]
      exact hy

/-- A call by a thread that owes the row its job. -/
theorem recovers_owing (h : OrderInv s) {s' : PlaneSys} {tid : Nat} {o : Oracle} {c : Call}
    {x x' : Hand} (hc : Called (planeHost engines) orderDuty s s' tid o c x x')
    (howes : x.Owes d) : Recovers engines d s' ↔ KeepsHold d s tid o c := by
  have howing : Owing d s tid := ⟨x, hc.was, howes⟩
  have hmoves : Hand.next x c (s.world.perform engines o c).1 = some x' := hc.moves
  have hworld : s'.world = (s.world.perform engines o c).2 := hc.world
  obtain ⟨hrow, hnone⟩ := owing_held h howing
  have hrow' : (s'.world.row d).isSome := by
    obtain ⟨r, hr⟩ := Option.isSome_iff_exists.mp hrow
    have hident : s.world.ident d = some (r.organizationId, r.idempotencyKey) := by
      rw [World.ident, hr]
      rfl
    obtain ⟨r', hr', _⟩ := Option.map_eq_some_iff.mp ((@ident_stays engines o c) hident)
    rw [hworld]
    exact Option.isSome_iff_exists.mpr ⟨r', hr'⟩
  -- once it lets go, nobody owes the row anything
  have hnobody : ¬ x'.Owes d → ¬ Owed d s' := by
    rintro hnot ⟨i, _, y, hy, hyd⟩
    rcases hc.stage_after hy with ⟨_, rfl⟩ | ⟨hne, hwas⟩
    · exact hnot hyd
    · exact hne (owing_unique h hwas hc.was hyd howes)
  rw [recovers_iff_hasJob]
  cases x with
  | free => exact howes.elim
  | done => exact howes.elim
  | holds row org key =>
    obtain rfl : row = d := howes
    by_cases hbetween : Between c
    · have hjob : ¬ HasJob row s'.world := by
        intro hjob
        rw [hworld] at hjob
        rcases hasJob_after hjob with hjob | ⟨n, rfl, _⟩
        · exact hnone hjob
        · exact hbetween.elim
      rw [← (@threw_between engines) hbetween howing]
      have hx' : x' = if threw (s.world.perform engines o c).1 then .done
          else .holds row org key := by
        change Hand.afterHolds row org key c _ = _ at hmoves
        unfold Hand.afterHolds at hmoves
        split at hmoves
        · exact hbetween.elim
        · rw [if_pos hbetween] at hmoves
          exact (Option.some.inj hmoves).symm
      cases hthrew : threw (s.world.perform engines o c).1 with
      | true =>
        rw [hthrew] at hx'
        subst hx'
        exact iff_of_false (fun hrec => hjob (hrec hrow' (hnobody id))) (by simp)
      | false =>
        rw [hthrew] at hx'
        subst hx'
        refine iff_of_true (fun _ hno => absurd ?_ hno) rfl
        rcases hc.now with hnow | ⟨_, _, _, hends⟩
        · have hlt : tid < s'.born := hc.born ▸ lt_born_of_hand h hc.was
          exact ⟨tid, hlt, _, hnow, rfl⟩
        · exact absurd rfl (hends row org key)
    · -- so it is the insert of the job
      change Hand.afterHolds row org key c _ = _ at hmoves
      unfold Hand.afterHolds at hmoves
      split at hmoves
      next n _ _ =>
        split at hmoves
        next hn =>
          obtain rfl : x' = .done := (Option.some.inj hmoves).symm
          obtain ⟨hident, _⟩ := h.held tid row org key hc.was
          constructor
          · intro hrec _
            by_contra hlost
            refine hnone ?_
            have hjob := hrec hrow' (hnobody id)
            rw [hworld, HasJob, perform_queue_jobs, if_neg hlost] at hjob
            exact hjob
          · intro hlands _ _
            rw [hworld]
            exact hasJob_insert h.homed h.distinct hident hn (hlands howing)
        next => cases hmoves
      next =>
        rw [if_neg hbetween] at hmoves
        cases hmoves

/-- A call by another. -/
theorem recovers_other (h : OrderInv s) (hrec : Recovers engines d s) {s' : PlaneSys} {tid : Nat}
    {o : Oracle} {c : Call} {x x' : Hand}
    (hc : Called (planeHost engines) orderDuty s s' tid o c x x') (hnot : ¬ x.Owes d) :
    Recovers engines d s' ↔ KeepsHold d s tid o c := by
  have hworld : s'.world = (s.world.perform engines o c).2 := hc.world
  have howing : ¬ Owing d s tid := by
    rintro ⟨y, hy, hyd⟩
    rw [Option.mem_def, show handOf s tid = some x from hc.was] at hy
    cases hy
    exact hnot hyd
  rw [recovers_iff_hasJob] at hrec ⊢
  -- what holds of calls that do not make the row
  have hother : (s'.world.row d).isSome = (s.world.row d).isSome → KeepsHold d s tid o c →
      (((s'.world.row d).isSome → ¬ Owed d s' → HasJob d s'.world) ↔ KeepsHold d s tid o c) := by
    intro hsame hkeeps
    refine iff_of_true (fun hrow howed => ?_) hkeeps
    rw [hworld]
    refine hasJob_perform c (hrec (hsame ▸ hrow) ?_)
    rintro ⟨i, hi, y, hy, hyd⟩
    have hne : i ≠ tid := fun hit => howing (hit ▸ ⟨y, hy, hyd⟩)
    exact howed ⟨i, hc.born ▸ hi, y, (hc.others_stage hne).trans hy, hyd⟩
  have hident : ∀ w : World, (w.row d).isSome = (w.ident d).isSome := by
    intro w
    rw [World.ident, Option.isSome_map]
  by_cases hcreate : ∃ input, c = .store (.insertDeployment input)
  · obtain ⟨input, rfl⟩ := hcreate
    have hafter := (@ident_insert engines s.world o d input)
    by_cases hnew : o.fault.Lands ∧ s.world.store.accepts input = true ∧
        d = s.world.store.deployments.nextId
    · obtain ⟨hlands, haccepts, hd⟩ := hnew
      obtain ⟨hnone, hnobody⟩ := nobody_of_new h hd
      have hrow' : (s'.world.row d).isSome := by
        rw [hident, hworld, hafter, if_pos ⟨hlands, haccepts, hd⟩]
        rfl
      have hjob : ¬ HasJob d s'.world := by
        rw [hworld, HasJob, perform_store_jobs]
        exact hnone
      have hkeeps : KeepsHold d s tid o (.store (.insertDeployment input)) ↔ o.fault.Clear :=
        ⟨fun hk => hk hd haccepts hlands, fun hclear _ _ _ => hclear⟩
      rw [hkeeps]
      have hmoves : Hand.next x (.store (.insertDeployment input))
          (s.world.perform engines o (.store (.insertDeployment input))).1 = some x' := hc.moves
      obtain rfl := free_of_create hmoves
      have hthrew : threw (s.world.perform engines o (.store (.insertDeployment input))).1 =
          false ↔ o.fault.Clear := by
        rw [threw_store, and_iff_left]
        simp only [StoreCall.run, haccepts, if_true]
        rfl
      cases hr : (s.world.perform engines o (.store (.insertDeployment input))).1 with
      | ok made =>
        rw [hr] at hmoves hthrew
        -- its thread is told, and owes the row its job from now on
        refine iff_of_true (fun _ hno => absurd ?_ hno) (hthrew.mp rfl)
        obtain rfl : x' = .holds made.id input.organizationId input.idempotencyKey :=
          (Option.some.inj hmoves).symm
        rcases hc.now with hnow | ⟨_, _, _, hends⟩
        · have hlt : tid < s'.born := hc.born ▸ lt_born_of_hand h hc.was
          exact ⟨tid, hlt, _, hnow, (insert_answer hr).2.2.trans hd.symm⟩
        · exact absurd rfl (hends _ _ _)
      | error e =>
        rw [hr] at hmoves hthrew
        have hlost : ¬ o.fault.Clear := fun hclear => by cases hthrew.mpr hclear
        obtain rfl : x' = .done := (Option.some.inj hmoves).symm
        refine iff_of_false (fun hafter => hjob (hafter hrow' ?_)) hlost
        rintro ⟨i, _, y, hy, hyd⟩
        rcases hc.stage_after hy with ⟨_, rfl⟩ | ⟨_, hwas⟩
        · exact hyd
        · exact hnobody i y hwas hyd
    · rw [if_neg hnew] at hafter
      refine hother ?_ fun hd haccepts hlands => absurd ⟨hlands, haccepts, hd⟩ hnew
      rw [hident, hident, hworld, hafter]
  · have hsame := (@ident_perform engines s.world o d)
      fun input hcall => hcreate ⟨input, hcall⟩
    refine hother ?_ ?_
    · rw [hident, hident, hworld, hsame]
    · cases c with
      | engine row c => trivial
      | queue c =>
        cases c with
        | insert n => exact fun hyes => absurd hyes howing
        | _ => trivial
      | store c =>
        cases c with
        | insertDeployment input => exact absurd ⟨input, rfl⟩ hcreate
        | _ => exact fun hyes => absurd hyes howing

/-- **Step.** -/
theorem recovers_step (h : OrderInv s) (hrec : Recovers engines d s) (l : PlaneMove) :
    Recovers engines d ((planeHost engines).step s l) ↔ HoldGuard d s l := by
  rcases (@order_step_cases engines) h l with hs | ⟨tid, o, c, x, x', rfl, hc⟩
  · obtain ⟨hjobs, hrows⟩ := silent_world hs
    have hsilent : (∀ tid, l ≠ .crash tid) → s.born ≤ ((planeHost engines).step s l).born →
        Recovers engines d ((planeHost engines).step s l) := by
      intro hl hborn
      rw [recovers_iff_hasJob] at hrec ⊢
      intro hrow howed
      rw [hasJob_congr hjobs]
      rw [World.row, hrows] at hrow
      refine hrec hrow ?_
      intro howes
      obtain ⟨i, hi, y, hy, hyd⟩ := howes
      rcases hs.stays i y hy with hstays | hcrash
      · exact howed ⟨i, by omega, y, hstays, hyd⟩
      · exact hl i hcrash
    cases l with
    | spawn t => exact iff_of_true (hsilent (fun _ h => by cases h) (Nat.le_succ _)) trivial
    | drift δ => exact iff_of_true (hsilent (fun _ h => by cases h) (Nat.le_refl _)) trivial
    | crash tid => exact recovers_crash h hrec tid
    | exec tid o =>
      have hidle := hs.idle tid o rfl
      have hborn : s.born ≤ ((planeHost engines).step s (.exec tid o)).born := by
        simp only [Host.step]
        split <;> exact Nat.le_refl _
      refine iff_of_true (hsilent (fun _ h => by cases h) hborn) fun c hpending => ?_
      rw [hidle] at hpending
      cases hpending
  · have hguard : HoldGuard d s (.exec tid o) ↔ KeepsHold d s tid o c := by
      constructor
      · exact fun hg => hg c hc.pending
      · intro hk c' hpending
        rw [show s.pending tid = some c from hc.pending] at hpending
        cases hpending
        exact hk
    rw [hguard]
    by_cases howes : x.Owes d
    · exact recovers_owing h hc howes
    · exact recovers_other h hrec hc howes

/-- **A retry recovers a row** in exactly the runs in which no thread lets go of it
before its job is in the queue. -/
theorem recovers_iff (engines : Engines) (d : DeploymentId) (now : Instant)
    (projects : ProjectsTable) (members : OrganizationId → UserId → Bool) (ls : List PlaneMove) :
    Always (planeHost engines).step (Recovers engines d) (PlaneSys.initial now projects members)
        ls ↔
      EachStep (planeHost engines).step (HoldGuard d) (PlaneSys.initial now projects members)
        ls := by
  refine always_iff_eachStep (orderInv_start now projects members)
    (fun s l hs => orderInv_step hs l) ?_ (fun s l hs hrec => recovers_step hs hrec l)
  rintro r hr
  cases hr

/-! ## Requests that die -/

/-- The API's process dies between the row and the job. -/
def diedBetweenRun : List PlaneMove :=
  .spawn (.request owner production) :: calls 0 5 building ++ [.crash 0]

/-- The deployment is there, its request is gone, and no retry makes a job for it. -/
theorem crash_leaves_no_job :
    ¬ Always (planeHost ⟨none, false⟩).step (Recovers ⟨none, false⟩ 0) PlaneSys.scripted
      diedBetweenRun := by
  intro h
  have hlast := always_iff_prefixes.mp h diedBetweenRun [] (by rw [List.append_nil])
  rw [recovers_iff_hasJob] at hlast
  revert hlast
  decide

end CloudWai.Deployment
