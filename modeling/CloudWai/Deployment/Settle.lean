import CloudWai.Deployment.Plane

/-!
# A finished row stays finished

Five writers patch a row's status — the applier, the two marks, the sweep and
the cancel — and none of them says in its where-clause what the status was. Each
decides from a copy of the row, or from a job it claimed, and the copy may be
stale when the patch lands.

A thread is `Open` from the moment it has such a copy until its last write. A run
is `Orderly` if no terminal status is written over another open thread, no job is
claimed for a row that is not in flight, and no engine accepts a build as already
finished. `orderly_rows_stay` is the law for such runs; `refused_cancel_reopens`
is the cancel procedure putting a stale status back over a success.

About `updateDeploymentStatus` of `packages/database/src/supabase-store.ts` and whoever
calls it, as `Store.lean` has it.
-/

namespace CloudWai.Deployment

open Base Queue

variable {engines : Engines} {d : DeploymentId} {s : PlaneSys}

/-- A step leaves a finished row with the status it has; one that did not succeed
does not go live either. -/
def StaysFinal (engines : Engines) (d : DeploymentId) (s : PlaneSys) (l : PlaneMove) : Prop :=
  ∀ r, s.world.row d = some r → r.status.Terminal →
    ∃ r', ((planeHost engines).step s l).world.row d = some r' ∧ r'.status = r.status ∧
      (r.status ≠ .succeeded → (r'.isCurrent = true → r.isCurrent = true) ∧
        ∀ project, ((planeHost engines).step s l).world.pointer project = some d →
          s.world.pointer project = some d)

theorem StaysFinal.status {l : PlaneMove} (h : StaysFinal engines d s l) (st : EngineStatus)
    (hterminal : st.Terminal) (hrow : (s.world.row d).map (·.status) = some st) :
    (((planeHost engines).step s l).world.row d).map (·.status) = some st := by
  obtain ⟨r, hr, rfl⟩ := Option.map_eq_some_iff.mp hrow
  obtain ⟨r', hr', hst, _⟩ := h r hr hterminal
  rw [hr', Option.map_some, hst]

/-- What an orderly step asks of the thread that makes it and of what it is shown. -/
def Sight.Orderly (d : DeploymentId) (s : PlaneSys) (tid : Nat) (lands : Prop) : Sight → Prop
  | .claimed org => ∃ r ∈ s.world.store.deployment org d, r.status.InFlight
  | .built (.ok (.ok status ref)) => deploymentHandle ref = none ∨ status.InFlight
  | .wrote p _ => lands → p.status.Terminal →
      ∀ i < s.born, i ≠ tid → ∀ x ∈ stageOf d s i, ¬ x.Open
  | _ => True

/-- Jobs are claimed for rows in flight, builds are accepted as unfinished, and a
terminal status is written when no other thread is open. -/
def Orderly (engines : Engines) (d : DeploymentId) (s : PlaneSys) : PlaneMove → Prop
  | .exec tid o =>
    match s.pending tid with
    | some c => (sight d c (s.world.perform engines o c).1).Orderly d s tid o.fault.Lands
    | none => True
  | _ => True

instance (tid : Nat) (lands : Prop) [Decidable lands] (a : Sight) :
    Decidable (a.Orderly d s tid lands) := by
  unfold Sight.Orderly
  rcases a with _ | _ | _ | _ | _ | (_ | (_ | _)) | _ <;> infer_instance

instance (l : PlaneMove) : Decidable (Orderly engines d s l) := by
  unfold Orderly
  rcases l with _ | ⟨tid, o⟩ | _ | _
  · exact isTrue trivial
  · dsimp only
    rcases s.pending tid with _ | c <;> infer_instance
  · exact isTrue trivial
  · exact isTrue trivial

theorem orderly_of_called {tid : Nat} {o : Oracle} {c : Call} {x x' : Stage} {s' : PlaneSys}
    (hc : Called (planeHost engines) (planeDuty d) s s' tid o c x x')
    (h : Orderly engines d s (.exec tid o)) :
    (sight d c (s.world.perform engines o c).1).Orderly d s tid o.fault.Lands := by
  simp only [Orderly, hc.pending] at h
  exact h

/-! ## The invariant -/

/-- Whoever is open is so over a row in flight, and no build was accepted as
already finished. -/
structure SettleInv (d : DeploymentId) (s : PlaneSys) : Prop where
  sound : Sound d s
  held : ∀ i x, stageOf d s i = some x → x.Open →
    ∃ r, s.world.row d = some r ∧ r.status.InFlight
  unfinished : ∀ i org handle status,
    stageOf d s i = some (.delivering org (.accepted (some handle) status)) → status.InFlight

theorem terminal_of_not_inFlight {st : EngineStatus} (h : ¬ st.InFlight) : st.Terminal :=
  EngineStatus.terminal_iff.mpr h

/-- Who writes a terminal status is open no more. -/
theorem closed_of_writes {p : DeploymentStatusInput} {answered : Bool} {x x' : Stage}
    (h : Writes p answered x x') (hterminal : ¬ p.status.InFlight)
    (hunfinished : ∀ org handle status, x = .delivering org (.accepted (some handle) status) →
      status.InFlight) : ¬ x'.Open := by
  have hafter : ∀ org, ¬ (Stage.afterWrite org p answered).Open := by
    intro org
    rcases afterWrite_cases org p answered with h | ⟨h, _⟩
    all_goals
      rw [h]
      exact id
  cases h with
  | direct => exact id
  | @mark org ph horg hmark hsaid =>
    exfalso
    unfold Phase.marks at hsaid
    split at hsaid
    · exact hterminal (.inr hsaid.1)
    · exact hterminal (hsaid.1 ▸ hunfinished _ _ _ rfl)
    · exact hsaid
  | settle => exact hafter _
  | expire => exact hafter _
  | sweep => exact hafter _
  | unreached => exact id
  | cancel => exact id

/-- Who is open after a call had a row in flight before it. -/
theorem held_before (h : SettleInv d s) {tid : Nat} {o : Oracle} {c : Call} {x x' : Stage}
    {s' : PlaneSys} (hc : Called (planeHost engines) (planeDuty d) s s' tid o c x x')
    (horderly : Orderly engines d s (.exec tid o)) {i : Nat} {y : Stage}
    (hy : stageOf d s' i = some y) (hopen : y.Open) :
    ∃ r, s.world.row d = some r ∧ r.status.InFlight := by
  have hmove : x.move (sight d c (s.world.perform engines o c).1) = some x' := hc.moves
  have hpass := orderly_of_called hc horderly
  rcases hc.stage_after hy with ⟨_, rfl⟩ | ⟨_, hwas⟩
  · rcases opens_of_move hmove hopen with hxopen | hopens
    · exact h.held tid x hc.was hxopen
    · cases hsight : sight d c (s.world.perform engines o c).1 with
      | claimed org =>
        rw [hsight] at hpass
        obtain ⟨r, hr, hflight⟩ := hpass
        exact ⟨r, (deployment_eq_some.mp hr).1, hflight⟩
      | listed row =>
        rw [hsight] at hopens
        cases row with
        | none => exact hopens.elim
        | some row =>
          obtain ⟨hrow, hflight, _⟩ := row_of_listed hsight
          exact ⟨row, hrow, hflight⟩
      | looked row =>
        rw [hsight] at hopens
        exact ⟨row, (row_of_looked hsight).1, hopens⟩
      | _ =>
        rw [hsight] at hopens
        exact hopens.elim
  · exact h.held i y hwas hopen

/-- The row of an open thread is in flight after the call too. -/
theorem held_of_called (h : SettleInv d s) {tid : Nat} {o : Oracle} {c : Call} {x x' : Stage}
    {s' : PlaneSys} (hc : Called (planeHost engines) (planeDuty d) s s' tid o c x x')
    (horderly : Orderly engines d s (.exec tid o)) {i : Nat} {y : Stage}
    (hy : stageOf d s' i = some y) (hopen : y.Open) :
    ∃ r, s'.world.row d = some r ∧ r.status.InFlight := by
  obtain ⟨r, hrow, hflight⟩ := held_before h hc horderly hy hopen
  have hworld : s'.world = (s.world.perform engines o c).2 := hc.world
  have hpass := orderly_of_called hc horderly
  have hmove : x.move (sight d c (s.world.perform engines o c).1) = some x' := hc.moves
  have htouches := touches_perform engines d s.world o c
  rw [hworld]
  generalize hafter : (s.world.perform engines o c).2.row d = after at htouches ⊢
  cases htouches with
  | keep => exact ⟨r, hrow, hflight⟩
  | @promote org project id r' flag hrow' =>
    obtain rfl := Option.some.inj (hrow.symm.trans hrow')
    exact ⟨_, rfl, hflight⟩
  | insert hnone =>
    rw [hrow] at hnone
    cases hnone
  | @patch p r' hid hrow' horg hlands =>
    refine ⟨_, rfl, ?_⟩
    show p.status.InFlight
    by_contra hterminal
    rw [wrote_of_patch hid] at hpass hmove
    rcases hc.stage_after hy with ⟨_, rfl⟩ | ⟨hi, hwas⟩
    · refine closed_of_writes (writes_of_move hmove) hterminal ?_ hopen
      intro org handle status hx
      exact h.unfinished tid org handle status (hx ▸ hc.was)
    · exact hpass hlands (terminal_of_not_inFlight hterminal) i (lt_born_of_stage h.sound hwas) hi y
        hwas hopen

/-- **Step.** -/
theorem settleInv_step (h : SettleInv d s) {l : PlaneMove} (horderly : Orderly engines d s l) :
    SettleInv d ((planeHost engines).step s l) := by
  have hsound := (@sound_step engines) h.sound l
  rcases (@plane_step_cases engines) h.sound l with hs | ⟨tid, o, c, x, x', hl, hx, hc⟩
  · have hrow : ((planeHost engines).step s l).world.row d = s.world.row d := row_of_silent hs
    have hstage : ∀ i x, stageOf d ((planeHost engines).step s l) i = some x →
        stageOf d s i = some x ∨ ∃ t : Task, x = t.first := by
      intro i x hi
      rcases hs.stage i x hi with hwas | ⟨_, t, ht⟩
      · exact .inl hwas
      · exact .inr ⟨t, ht⟩
    refine ⟨hsound, ?_, ?_⟩
    · intro i x hi hopen
      rw [hrow]
      rcases hstage i x hi with hwas | ⟨t, rfl⟩
      · exact h.held i x hwas hopen
      · cases t <;> exact hopen.elim
    · intro i org handle status hi
      rcases hstage i _ hi with hwas | ⟨t, ht⟩
      · exact h.unfinished i org handle status hwas
      · cases t <;> cases ht
  · subst hl
    refine ⟨hsound, fun i y hy hopen => held_of_called h hc horderly hy hopen, ?_⟩
    intro i org handle status hi
    rcases hc.stage_after hi with ⟨_, hx'⟩ | ⟨_, hwas⟩
    · have hmove : x.move (sight d c (s.world.perform engines o c).1) =
          some (.delivering org (.accepted (some handle) status)) := hx' ▸ hc.moves
      rcases accepted_of_move hmove with rfl | ⟨r, hbuilt, hafter⟩
      · exact h.unfinished tid org handle status hc.was
      · have hpass := orderly_of_called hc horderly
        rw [hbuilt] at hpass
        unfold Phase.afterBuild at hafter
        split at hafter
        next st ref =>
          obtain ⟨hhandle, rfl⟩ := Phase.accepted.inj hafter
          rcases hpass with hnone | hflight
          · rw [hhandle] at hnone
            cases hnone
          · exact hflight
        all_goals cases hafter
    · exact h.unfinished i org handle status hwas

/-- **What an orderly step does to a finished row.** -/
theorem staysFinal_of_inv (h : SettleInv d s) {l : PlaneMove} (horderly : Orderly engines d s l) :
    StaysFinal engines d s l := by
  intro r hrow hterminal
  have hclosed : ∀ i x, stageOf d s i = some x → ¬ x.Open := by
    intro i x hi hopen
    obtain ⟨r', hrow', hflight⟩ := h.held i x hi hopen
    rw [hrow] at hrow'
    rw [Option.some.inj hrow'] at hterminal
    exact EngineStatus.terminal_iff.mp hterminal hflight
  rcases (@plane_step_cases engines) h.sound l with hs | ⟨tid, o, c, x, x', hl, hx, hc⟩
  · refine ⟨r, (row_of_silent hs).trans hrow, rfl, fun _ => ⟨id, fun project hp => ?_⟩⟩
    rw [pointer_of_silent hs] at hp
    exact hp
  · have hworld : ((planeHost engines).step s l).world = (s.world.perform engines o c).2 := hc.world
    have hmove : x.move (sight d c (s.world.perform engines o c).1) = some x' := hc.moves
    have htouches := touches_perform engines d s.world o c
    have hpointer : r.status ≠ .succeeded → ∀ project,
        (s.world.perform engines o c).2.pointer project = some d →
        s.world.pointer project = some d := by
      intro hr project hp
      rcases pointer_perform engines s.world o c project with hsame | ⟨_, id, r', _, hr', hprom, hid⟩
      · rw [← hsame]
        exact hp
      · rw [hid] at hp
        obtain rfl := Option.some.inj hp
        rw [hrow] at hr'
        obtain rfl := Option.some.inj hr'
        exact absurd (status_of_promotable hprom) hr
    rw [hworld]
    generalize hafter : (s.world.perform engines o c).2.row d = after at htouches ⊢
    cases htouches with
    | keep => exact ⟨r, hrow, rfl, fun hr => ⟨id, hpointer hr⟩⟩
    | @promote org project id r' flag hrow' _ hflag =>
      obtain rfl := Option.some.inj (hrow.symm.trans hrow')
      refine ⟨_, rfl, rfl, fun hr => ⟨fun hcurrent => ?_, hpointer hr⟩⟩
      rcases hflag hcurrent with hwas | ⟨_, hprom⟩
      · exact hwas
      · exact absurd (status_of_promotable hprom) hr
    | insert hnone =>
      rw [hrow] at hnone
      cases hnone
    | @patch p r' hid hrow' horg hlands =>
      exfalso
      rw [wrote_of_patch hid] at hmove
      rcases (writes_of_move hmove).isOpen with hdirect | hopen
      · exact hx hdirect
      · exact hclosed tid x hc.was hopen

theorem settleInv_start (now : Instant) (projects : ProjectsTable)
    (members : OrganizationId → UserId → Bool) :
    SettleInv d (PlaneSys.initial now projects members) where
  sound := sound_start _
  held _ _ h := by cases h
  unfinished _ _ _ _ h := by cases h

/-- **A finished row stays finished**, in every orderly run. -/
theorem orderly_rows_stay (engines : Engines) (d : DeploymentId) (now : Instant)
    (projects : ProjectsTable) (members : OrganizationId → UserId → Bool) (ls : List PlaneMove)
    (h : EachStep (planeHost engines).step (Orderly engines d)
      (PlaneSys.initial now projects members) ls) :
    EachStep (planeHost engines).step (StaysFinal engines d)
      (PlaneSys.initial now projects members) ls :=
  eachStep_of_inv (settleInv_start now projects members) (fun _ _ hs ho => settleInv_step hs ho)
    (fun _ _ hs ho => staysFinal_of_inv hs ho) h

theorem orderly_rows_stay_resumed :
    EachStep (planeHost ⟨none, false⟩).step (Orderly ⟨none, false⟩ 0) PlaneSys.scripted resumedRun ∧
      EachStep (planeHost ⟨none, false⟩).step (StaysFinal ⟨none, false⟩ 0) PlaneSys.scripted
        resumedRun :=
  have h : EachStep (planeHost ⟨none, false⟩).step (Orderly ⟨none, false⟩ 0) PlaneSys.scripted
      resumedRun := by decide
  ⟨h, orderly_rows_stay _ 0 _ _ _ _ h⟩

/-! ## A stale status over a success -/

/-- The refused cancel's write reopens the finished row. -/
theorem refused_cancel_reopens :
    ¬ EachStep (planeHost ⟨none, false⟩).step (StaysFinal ⟨none, false⟩ 0) PlaneSys.scripted
      (staleCancelRun ++ calls 2 1 refusing) := by
  intro h
  have hlast : StaysFinal ⟨none, false⟩ 0
      ((planeHost ⟨none, false⟩).run PlaneSys.scripted staleCancelRun)
      (.exec 2 refusing.oracle) := EachStep.at h
  exact absurd (hlast.status .succeeded (by decide) (by decide)) (by decide)

end CloudWai.Deployment
