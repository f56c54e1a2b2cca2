import CloudWai.Deployment.Plane

/-!
# At most one build for a row

The engine is asked to start a build by `deploy`, `rollback` or `publish`. What
is to keep a row from being built twice is the resume test: a delivery first
reads the row, and polls the build it finds in flight instead of starting one.
The test says nothing of a row that is terminal, and nothing of a build whose
handle never reached the row, so a redelivery of either starts a second build.

`builds_at_most_once` is the law under the condition that the test decides on:
whenever a delivery makes its read, the row is in flight with a handle, or no
build was started yet and no other delivery is about to start one.

About `executeDeployment` of `apps/worker/src/deployment-executor.ts`, as `Executor.lean`
has it.
-/

namespace CloudWai.Deployment

open Base Queue

variable {engines : Engines} {d : DeploymentId} {s : PlaneSys}

/-- `engine.deploy` or `engine.rollback` for the row, by whichever adapter. -/
def startsBuild (d : DeploymentId) : Call → Bool
  | .engine row (.deploy _ _) => row == d
  | .engine row (.rollback _ _ _) => row == d
  | .engine row (.publish _ _ _) => row == d
  | _ => false

/-- How many builds were started for the row. -/
def builds (d : DeploymentId) (s : PlaneSys) : Nat := s.log.countP fun e => startsBuild d e.2.call

/-- A delivery past its resume test, about to build. -/
def Stage.Fresh : Stage → Prop
  | .delivering _ .fresh => True
  | _ => False

instance (x : Stage) : Decidable x.Fresh := by
  unfold Stage.Fresh
  split <;> infer_instance

/-- The read of the resume test finds a build to resume, or it is the first. -/
def ResumesSafely (d : DeploymentId) (s : PlaneSys) (tid : Nat) (org : OrganizationId) : Prop :=
  (inFlightHandle (s.world.store.deployment org d)).isSome ∨
    builds d s = 0 ∧ ∀ i < s.born, i ≠ tid → ∀ x ∈ stageOf d s i, ¬ x.Fresh

instance (tid : Nat) (org : OrganizationId) : Decidable (ResumesSafely d s tid org) :=
  inferInstanceAs (Decidable (_ ∨ _ ∧ _))

/-- Every resume test of the row is made safely. -/
def ResumeGuard (d : DeploymentId) (s : PlaneSys) : PlaneMove → Prop
  | .exec tid _ =>
    match stageOf d s tid with
    | some (.delivering org .claimed) =>
      match s.pending tid with
      | some (.store (.selectDeployment _ id)) => id = d → ResumesSafely d s tid org
      | _ => True
    | _ => True
  | _ => True

instance (l : PlaneMove) : Decidable (ResumeGuard d s l) := by
  unfold ResumeGuard
  split
  · split
    · split <;> infer_instance
    · infer_instance
  · infer_instance

/-! ## The invariant -/

/-- One delivery at most may build, and only while none has. -/
structure BuildInv (d : DeploymentId) (s : PlaneSys) : Prop where
  sound : Sound d s
  most : builds d s ≤ 1
  unbuilt : ∀ i x, stageOf d s i = some x → x.Fresh → builds d s = 0
  alone : ∀ i j x y, stageOf d s i = some x → x.Fresh → stageOf d s j = some y → y.Fresh → i = j

theorem fresh_iff {x : Stage} : x.Fresh ↔ ∃ org, x = .delivering org .fresh := by
  constructor
  · intro h
    unfold Stage.Fresh at h
    split at h
    · exact ⟨_, rfl⟩
    · exact h.elim
  · intro h
    obtain ⟨org, rfl⟩ := h
    trivial

/-- A build-starting call shows itself. -/
theorem sight_of_startsBuild {c : Call} {r : Except String c.Ans} (h : startsBuild d c = true) :
    ∃ r', sight d c r = .built r' := by
  unfold startsBuild at h
  split at h
  case h_4 => cases h
  all_goals exact ⟨r, if_pos (beq_iff_eq.mp h)⟩

theorem builds_of_called {tid : Nat} {o : Oracle} {c : Call} {x x' : Stage} {s' : PlaneSys}
    (hc : Called (planeHost engines) (planeDuty d) s s' tid o c x x') :
    builds d s' = builds d s + if startsBuild d c then 1 else 0 := by
  unfold builds
  rw [hc.log, List.countP_cons]

/-- A delivery about to build was so before, or has just read that it may. -/
theorem fresh_of_called (h : Sound d s) {tid : Nat} {o : Oracle} {c : Call} {x x' : Stage}
    {s' : PlaneSys} (hc : Called (planeHost engines) (planeDuty d) s s' tid o c x x')
    (hguard : ResumeGuard d s (.exec tid o)) (hfresh : x'.Fresh) :
    x.Fresh ∨ builds d s = 0 ∧ ∀ i, i ≠ tid → ∀ y, stageOf d s i = some y → ¬ y.Fresh := by
  obtain ⟨org, rfl⟩ := fresh_iff.mp hfresh
  have hmove : x.move (sight d c ((planeHost engines).perform s.world o c).1) =
      some (.delivering org .fresh) := hc.moves
  rcases fresh_of_move hmove with rfl | ⟨rfl, stored, hread, hnone⟩
  · exact .inl trivial
  right
  have hwas : stageOf d s tid = some (.delivering org .claimed) := hc.was
  obtain ⟨rfl, hstored⟩ := stored_of_read hread
  simp only [ResumeGuard, hwas, hc.pending] at hguard
  rcases hguard trivial with hsome | ⟨hzero, hothers⟩
  · rw [hstored, hnone] at hsome
    cases hsome
  · refine ⟨hzero, fun i hi y hy => ?_⟩
    exact hothers i (lt_born_of_stage h hy) hi y hy

/-- **Step.** -/
theorem buildInv_step (h : BuildInv d s) {l : PlaneMove} (hguard : ResumeGuard d s l) :
    BuildInv d ((planeHost engines).step s l) := by
  have hsound := (@sound_step engines) h.sound l
  rcases (@plane_step_cases engines) h.sound l with hs | ⟨tid, o, c, x, x', hl, hx, hc⟩
  · -- nothing is called, and a task's first stage is not fresh
    have hbuilds : builds d ((planeHost engines).step s l) = builds d s := by
      unfold builds
      rw [hs.log]
    have hstage : ∀ i x, stageOf d ((planeHost engines).step s l) i = some x → x.Fresh →
        stageOf d s i = some x := by
      intro i x hi hfresh
      rcases hs.stage i x hi with hwas | ⟨_, t, rfl⟩
      · exact hwas
      · cases t <;> exact hfresh.elim
    refine ⟨hsound, hbuilds ▸ h.most, ?_, ?_⟩
    · intro i x hi hfresh
      rw [hbuilds]
      exact h.unbuilt i x (hstage i x hi hfresh) hfresh
    · intro i j x y hi hxf hj hyf
      exact h.alone i j x y (hstage i x hi hxf) hxf (hstage j y hj hyf) hyf
  · subst hl
    have hbuilds := builds_of_called hc
    cases hstarts : startsBuild d c with
    | true =>
      -- the caller was the only fresh thread, and is fresh no more
      rw [hstarts, if_pos rfl] at hbuilds
      obtain ⟨r', hsight⟩ := sight_of_startsBuild
        (r := ((planeHost engines).perform s.world o c).1) hstarts
      have hmove : x.move (.built r') = some x' := hsight ▸ hc.moves
      obtain hdirect | ⟨org, rfl, rfl⟩ := built_of_move hmove
      · exact absurd hdirect hx
      have hzero := h.unbuilt tid _ hc.was trivial
      have hnone : ∀ i y, stageOf d ((planeHost engines).step s (.exec tid o)) i = some y →
          ¬ y.Fresh := by
        intro i y hy hfresh
        rcases hc.stage_after hy with ⟨_, rfl⟩ | ⟨hi, hwas⟩
        · obtain ⟨_, hafter⟩ := fresh_iff.mp hfresh
          exact afterBuild_ne_fresh (Stage.delivering.inj hafter).2
        · exact hi (h.alone i tid _ _ hwas hfresh hc.was trivial)
      refine ⟨hsound, by omega, ?_, ?_⟩
      · intro i y hy hfresh
        exact absurd hfresh (hnone i y hy)
      · intro i j y z hy hyf _ _
        exact absurd hyf (hnone i y hy)
    | false =>
      rw [hstarts] at hbuilds
      simp only [Bool.false_eq_true, if_false, Nat.add_zero] at hbuilds
      refine ⟨hsound, hbuilds ▸ h.most, ?_, ?_⟩
      · intro i y hy hfresh
        rw [hbuilds]
        rcases hc.stage_after hy with ⟨rfl, rfl⟩ | ⟨_, hwas⟩
        · rcases fresh_of_called h.sound hc hguard hfresh with hxf | ⟨hzero, _⟩
          · exact h.unbuilt _ _ hc.was hxf
          · exact hzero
        · exact h.unbuilt i y hwas hfresh
      · -- two fresh threads are both the caller, or one was fresh beside it
        have hother : ∀ i y, i ≠ tid → stageOf d s i = some y → y.Fresh → x'.Fresh → False := by
          intro i y hi hy hyf hx'
          rcases fresh_of_called h.sound hc hguard hx' with hxf | ⟨_, hothers⟩
          · exact hi (h.alone i tid _ _ hy hyf hc.was hxf)
          · exact hothers i hi y hy hyf
        intro i j y z hy hyf hz hzf
        rcases hc.stage_after hy with ⟨rfl, rfl⟩ | ⟨hi, hyw⟩
        · rcases hc.stage_after hz with ⟨rfl, rfl⟩ | ⟨hj, hzw⟩
          · rfl
          · exact (hother j z hj hzw hzf hyf).elim
        · rcases hc.stage_after hz with ⟨rfl, rfl⟩ | ⟨hj, hzw⟩
          · exact (hother i y hi hyw hyf hzf).elim
          · exact h.alone i j y z hyw hyf hzw hzf

theorem buildInv_start (now : Instant) (projects : ProjectsTable)
    (members : OrganizationId → UserId → Bool) :
    BuildInv d (PlaneSys.initial now projects members) where
  sound := sound_start _
  most := Nat.zero_le 1
  unbuilt _ _ h := by cases h
  alone _ _ _ _ h := by cases h

/-- **At most one build**, in every run in which each resume test is made safely. -/
theorem builds_at_most_once (engines : Engines) (d : DeploymentId) (now : Instant)
    (projects : ProjectsTable) (members : OrganizationId → UserId → Bool) (ls : List PlaneMove)
    (h : EachStep (planeHost engines).step (ResumeGuard d)
      (PlaneSys.initial now projects members) ls) :
    Always (planeHost engines).step (fun s => builds d s ≤ 1)
      (PlaneSys.initial now projects members) ls :=
  always_of_inv (buildInv_start now projects members) (fun _ _ hs hg => buildInv_step hs hg)
    (fun _ hs => hs.most) h

theorem builds_at_most_once_resumed :
    EachStep (planeHost ⟨none, false⟩).step (ResumeGuard 0) PlaneSys.scripted resumedRun ∧
      Always (planeHost ⟨none, false⟩).step (fun s => builds 0 s ≤ 1) PlaneSys.scripted resumedRun :=
  have h : EachStep (planeHost ⟨none, false⟩).step (ResumeGuard 0) PlaneSys.scripted resumedRun := by
    decide
  ⟨h, builds_at_most_once _ 0 _ _ _ _ h⟩

/-! ## A second build -/

/-- The engine accepts the build and gives it a handle, and the confirming poll
says that it failed: the queue takes the job back, and the row is `failed`. -/
def twiceRun : List PlaneMove :=
  requested ++ .spawn (.work aWorker) :: calls 1 12 broken ++
    .spawn (.work aWorker) :: calls 2 4 broken

/-- The redelivery builds the finished row again. -/
theorem redelivery_builds_twice :
    ¬ Always (planeHost ⟨none, false⟩).step (fun s => builds 0 s ≤ 1)
      PlaneSys.scripted twiceRun := by
  intro h
  have hlast := always_iff_prefixes.mp h twiceRun [] (by rw [List.append_nil])
  revert hlast
  decide

end CloudWai.Deployment
