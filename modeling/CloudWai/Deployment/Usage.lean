import CloudWai.Deployment.Settle

/-!
# Usage is recorded once for a success

A row that succeeded is to have one usage record of metric `deployments`, and any
other row none. The record is a plain insert, two or three requests after the
write of `succeeded`: a worker that dies in between, or a request that throws,
leaves the success without it, and two settlers that both write `succeeded`
leave it with two.

`usage_matches` is the law for orderly runs in which a success that was written
was also answered, and nothing is lost between that write and the insert. A
thread in between `Owes` the record; in all other moments the count is exact.

About `apps/worker/src/deployment-job.ts`, as `Worker.lean` has it.
-/

namespace CloudWai.Deployment

open Base Queue

variable {engines : Engines} {d : DeploymentId} {s : PlaneSys}

/-- The usage records of the row. -/
def World.usage (w : World) (d : DeploymentId) : Nat :=
  w.store.usage.countP fun u => u.settled == d && u.metric == "deployments"

/-- `succeeded` is written and its usage is not recorded yet. -/
def Stage.Owes : Stage → Prop
  | .owing _ => True
  | _ => False

instance (x : Stage) : Decidable x.Owes := by
  unfold Stage.Owes
  split <;> infer_instance

theorem owes_iff {x : Stage} : x.Owes ↔ ∃ org, x = .owing org := by
  constructor
  · intro h
    unfold Stage.Owes at h
    split at h
    · exact ⟨_, rfl⟩
    · exact h.elim
  · intro h
    obtain ⟨org, rfl⟩ := h
    trivial

/-- The row is there and succeeded. -/
def Succeeded (d : DeploymentId) (w : World) : Prop :=
  ∃ r ∈ w.row d, r.status = .succeeded

instance (w : World) : Decidable (Succeeded d w) :=
  match h : w.row d with
  | none => isFalse fun ⟨r, hr, _⟩ => by
    rw [h] at hr
    cases hr
  | some r =>
    decidable_of_iff (r.status = .succeeded)
      ⟨fun hst => ⟨r, h, hst⟩, fun ⟨r', hr', hst⟩ => by
        rw [h] at hr'
        rw [Option.some.inj hr']
        exact hst⟩

/-- Unless a thread owes it just now, the row's usage is one if it succeeded and
zero otherwise. -/
def UsageMatches (d : DeploymentId) (s : PlaneSys) : Prop :=
  (∀ i < s.born, ∀ x ∈ stageOf d s i, ¬ x.Owes) →
    s.world.usage d = if Succeeded d s.world then 1 else 0

instance : Decidable (UsageMatches d s) := inferInstanceAs (Decidable (_ → _))

/-! ## The condition -/

/-- An engine that says `succeeded` and complains. -/
def Phase.Odd : Phase → Prop
  | .refused .succeeded => True
  | .resumed _ (.err .succeeded _) => True
  | .resumed _ (.ok _ ⟨.succeeded, _, some _⟩) => True
  | _ => False

instance (ph : Phase) : Decidable ph.Odd := by
  unfold Phase.Odd
  split <;> infer_instance

def Stage.Odd : Stage → Prop
  | .delivering _ ph => ph.Odd
  | _ => False

instance (x : Stage) : Decidable x.Odd := by
  rcases x with _ | _ <;> first | exact isFalse id | exact inferInstanceAs (Decidable (Phase.Odd _))

/-- What a call is to be for its caller: an owed insert takes effect and nothing
before it throws, a landed success is answered, and no engine complains of one. -/
def Sight.Heard (x : Stage) (lands : Prop) (a : Sight) : Prop :=
  (match a with
    | .other thrown => x.Owes → thrown = false
    | .billed _ _ _ => lands
    | .wrote p answered => lands → p.status = .succeeded → answered = true
    | _ => True) ∧ ∀ x' ∈ x.move a, ¬ x'.Odd

/-- The step is orderly, everything a success owes is heard, and no worker that
owes usage dies. -/
def Billed (engines : Engines) (d : DeploymentId) (s : PlaneSys) : PlaneMove → Prop
  | .exec tid o =>
    match stageOf d s tid, s.pending tid with
    | some x, some c => (sight d c (s.world.perform engines o c).1).Heard x o.fault.Lands
    | _, _ => True
  | .crash tid => ∀ x ∈ stageOf d s tid, ¬ x.Owes
  | _ => True

instance (x : Stage) (lands : Prop) [Decidable lands] (a : Sight) : Decidable (a.Heard x lands) := by
  unfold Sight.Heard
  rcases a with _ | _ <;> infer_instance

instance (l : PlaneMove) : Decidable (Billed engines d s l) := by
  unfold Billed
  rcases l with _ | ⟨tid, o⟩ | tid | _
  · exact isTrue trivial
  · dsimp only
    rcases stageOf d s tid with _ | x
    · exact isTrue trivial
    · rcases s.pending tid with _ | c <;> infer_instance
  · exact inferInstanceAs (Decidable (∀ x ∈ stageOf d s tid, ¬ x.Owes))
  · exact isTrue trivial

theorem heard_of_called {tid : Nat} {o : Oracle} {c : Call} {x x' : Stage} {s' : PlaneSys}
    (hc : Called (planeHost engines) (planeDuty d) s s' tid o c x x')
    (h : Billed engines d s (.exec tid o)) :
    (sight d c (s.world.perform engines o c).1).Heard x o.fault.Lands := by
  have hwas : stageOf d s tid = some x := hc.was
  simp only [Billed, hwas, hc.pending] at h
  exact h

/-! ## Who owes -/

/-- The organization a thread will bill. -/
def Stage.org : Stage → Option OrganizationId
  | .delivering org _ => some org
  | .listed _ _ row => some row.organizationId
  | .swept _ _ row _ => some row.organizationId
  | _ => none

theorem afterWrite_org {org o : OrganizationId} {p : DeploymentStatusInput} {answered : Bool} :
    (Stage.afterWrite org p answered).org ≠ some o := by
  rcases afterWrite_cases org p answered with h | ⟨h, _⟩
  all_goals
    rw [h]
    simp [Stage.org]

/-- A stage's organization is that of the job or the row it began with. -/
theorem org_of_move {x x' : Stage} {a : Sight} {org : OrganizationId} (h : x.move a = some x')
    (horg : x'.org = some org) :
    x.org = some org ∨ a = .claimed org ∨ ∃ row, a = .listed (some row) ∧ row.organizationId = org := by
  cases moves_of_move h with
  | phase hph =>
    rcases phase_move_cases hph with ⟨ph', rfl, _⟩ | ⟨p, answered, _, rfl⟩
    · exact .inl horg
    · exact absurd horg afterWrite_org
  | claimed => exact .inr (.inl (congrArg Sight.claimed (Option.some.inj horg)))
  | listed => exact .inr (.inr ⟨_, rfl, Option.some.inj horg⟩)
  | polled => exact .inl horg
  | passing => exact .inl horg
  | wrote hw =>
    cases hw with
    | mark => exact .inl horg
    | settle => exact absurd horg afterWrite_org
    | expire => exact absurd horg afterWrite_org
    | sweep => exact absurd horg afterWrite_org
    | _ => cases horg
  | _ => cases horg

/-- A delivery that is not odd writes `succeeded` without a reason. -/
theorem clean_of_allows {ph : Phase} {clean : Bool} (h : ph.allows .succeeded clean)
    (hodd : ¬ ph.Odd) : clean = true := by
  rcases h with hflight | hsaid
  · exact absurd hflight (by decide)
  cases ph with
  -- a poll that found it succeeded: without a reason, or the delivery is odd
  | resumed handle answer =>
    cases answer with
    | ok st state =>
      obtain ⟨status, url, reason⟩ := state
      obtain ⟨rfl, hclean | hne | hreason⟩ := hsaid
      · exact hclean
      · exact absurd rfl hne
      · cases reason with
        | none => exact absurd rfl hreason
        | some reason => exact absurd trivial hodd
    | err st reason =>
      obtain ⟨_, rfl⟩ := hsaid
      exact absurd trivial hodd
  -- a fresh start writes nothing but a failure
  | fresh =>
    obtain ⟨_, hst | hst⟩ := hsaid
    · cases hst
    · cases hst
  | refused st =>
    obtain ⟨_, rfl⟩ := hsaid
    exact absurd trivial hodd
  -- what was read back is without a reason, or is no success
  | confirmed handle st answer =>
    cases answer with
    | ok _ state =>
      obtain ⟨_, hclean | hne⟩ := hsaid
      · exact hclean
      · rename_i hst
        exact absurd rfl hne
    | err _ reason =>
      obtain ⟨_, hclean | hne⟩ := hsaid
      · exact hclean
      · exact absurd rfl hne
  | broke => cases hsaid.2
  | _ => exact hsaid.elim

/-- **Who writes a success owes its usage**, if the write was answered. -/
theorem owing_of_writes {p : DeploymentStatusInput} {x x' : Stage} (h : Writes p true x x')
    (hst : p.status = .succeeded) (hodd : ¬ x.Odd)
    (hunfinished : ∀ org handle status, x = .delivering org (.accepted (some handle) status) →
      status.InFlight) (hx : x ≠ .direct) :
    x.org = some p.organizationId ∧ x' = .owing p.organizationId := by
  have hafter : ∀ org, p.clean = true → Stage.afterWrite org p true = .owing org :=
    fun org hclean => if_pos ⟨hst, hclean, rfl⟩
  -- `succeeded` is not in flight
  have hnot : ¬ p.status.InFlight := by
    rw [hst]
    decide
  cases h with
  | direct => exact absurd rfl hx
  -- marks are in flight, and an acceptance is not finished, under the condition
  | @mark org ph horg hmark hsaid =>
    exfalso
    unfold Phase.marks at hsaid
    split at hsaid
    · exact hnot (.inr hsaid.1)
    · exact hnot (hsaid.1 ▸ hunfinished _ _ _ rfl)
    · exact hsaid
  -- a delivery's verdict
  | settle horg hmark hsaid =>
    subst horg
    rw [hst] at hsaid
    exact ⟨rfl, hafter _ (clean_of_allows hsaid hodd)⟩
  | expire href hold hsaid =>
    subst hsaid
    cases hst
  -- the sweep's is without a reason
  | sweep hverdict hsaid =>
    subst hsaid
    have hreason := verdict_clean hverdict hst
    exact ⟨rfl, hafter _ (by simp [DeploymentStatusInput.clean, sweepPatch, hreason])⟩
  | unreached _ hsaid =>
    rcases hsaid with hflight | ⟨hfailed, _⟩
    · exact absurd hflight hnot
    · rw [hst] at hfailed
      cases hfailed
  | cancel hsaid =>
    rcases hsaid with hflight | ⟨hfailed, _⟩
    · exact absurd hflight hnot
    · rw [hst] at hfailed
      cases hfailed

/-! ## What a call does to the usage -/

theorem usage_insert {w : World} {o : Oracle} {org : OrganizationId} {quantity : Nat}
    (hlands : o.fault.Lands) :
    (w.perform engines o (.store (.insertUsage d org "deployments" quantity))).2.usage d =
      w.usage d + 1 := by
  rw [World.usage, perform_store, if_pos hlands]
  simp [StoreCall.run, World.usage]

/-- No other call makes a record of the row's usage. -/
theorem usage_perform {w : World} {o : Oracle} {c : Call}
    (hc : ∀ org metric quantity, c ≠ .store (.insertUsage d org metric quantity)) :
    (w.perform engines o c).2.usage d = w.usage d := by
  cases c with
  | engine row c => rfl
  | queue c =>
    rw [World.usage, perform_queue_store]
    rfl
  | store c =>
    rw [World.usage, perform_store]
    split
    next =>
      cases c with
      -- a record for another row
      | insertUsage settled org metric quantity =>
        have hne : settled ≠ d := by
          intro h
          exact hc org metric quantity (h ▸ rfl)
        simp [StoreCall.run, World.usage, hne]
      | promote org project id =>
        simp only [StoreCall.run, Store.promoteDeployment]
        split
        · split <;> rfl
        · rfl
      | insertPreviewTarget org project key branch pullRequest =>
        simp only [StoreCall.run]
        split <;> rfl
      | insertDeployment input =>
        simp only [StoreCall.run]
        split <;> rfl
      | _ => rfl
    next => rfl

theorem call_of_billed {c : Call} {r : Except String c.Ans} {org : OrganizationId}
    {metric : String} {quantity : Nat} (h : sight d c r = .billed org metric quantity) :
    c = .store (.insertUsage d org metric quantity) := by
  have hshows := shows_sight d c r
  rw [h] at hshows
  cases hshows with
  | engine _ ha => exact ha.elim
  | billed => rfl

theorem sight_billed (org : OrganizationId) (metric : String) (quantity : Nat)
    (r : Except String (Call.store (.insertUsage d org metric quantity)).Ans) :
    sight d (.store (.insertUsage d org metric quantity)) r = .billed org metric quantity :=
  if_pos rfl

/-- Whose thread owes nothing records nothing. -/
theorem usage_of_called {tid : Nat} {o : Oracle} {c : Call} {x x' : Stage} {s' : PlaneSys}
    (hc : Called (planeHost engines) (planeDuty d) s s' tid o c x x') (hx : x ≠ .direct)
    (howes : ¬ x.Owes) : s'.world.usage d = s.world.usage d := by
  have hworld : s'.world = (s.world.perform engines o c).2 := hc.world
  rw [hworld]
  refine usage_perform ?_
  intro org metric quantity hcall
  subst hcall
  have hmove : x.move (.billed org metric quantity) = some x' :=
    sight_billed org metric quantity _ ▸ hc.moves
  rcases billed_of_move hmove with hdirect | ⟨howing, _⟩
  · exact hx hdirect
  · rw [howing] at howes
    exact howes trivial

/-- How a thread comes to owe. -/
theorem owes_of_move {x x' : Stage} {a : Sight} (h : x.move a = some x') (hx' : x'.Owes) :
    x.Owes ∨ ∃ p, a = .wrote p true ∧ p.status = .succeeded := by
  have hafter : ∀ {org p answered}, (Stage.afterWrite org p answered).Owes →
      a = .wrote p answered → ∃ p, a = .wrote p true ∧ p.status = .succeeded := by
    intro org p answered howes ha
    rcases afterWrite_cases org p answered with hoff | ⟨_, hst, _, rfl⟩
    · rw [hoff] at howes
      exact howes.elim
    · exact ⟨p, ha, hst⟩
  cases moves_of_move h with
  | phase hph =>
    rcases phase_move_cases hph with ⟨_, rfl, _⟩ | ⟨p, answered, ha, rfl⟩
    · exact hx'.elim
    · exact .inr (hafter hx' ha)
  | passing => exact .inl hx'
  | promoting => exact .inl hx'
  | wrote hw =>
    cases hw with
    | settle => exact .inr (hafter hx' rfl)
    | expire => exact .inr (hafter hx' rfl)
    | sweep => exact .inr (hafter hx' rfl)
    | _ => exact hx'.elim
  | _ => exact hx'.elim

/-- What becomes of a thread that owes. -/
theorem owing_move {org : OrganizationId} {a : Sight} {x' : Stage}
    (h : Stage.move (.owing org) a = some x') :
    x' = .off ∧ (a = .billed org "deployments" 1 ∨ a = .other true) ∨
      x' = .owing org ∧ ∀ o metric quantity, a ≠ .billed o metric quantity := by
  cases moves_of_move h with
  | billed => exact .inl ⟨rfl, .inl rfl⟩
  | unpaid => exact .inl ⟨rfl, .inr rfl⟩
  | passing ha =>
    refine .inr ⟨rfl, ?_⟩
    intro o metric quantity hb
    rw [hb] at ha
    exact ha
  | promoting => exact .inr ⟨rfl, fun _ _ _ hb => by cases hb⟩
  | wrote hw => cases hw

/-- A row keeps its organization. -/
theorem org_perform {w : World} {o : Oracle} {c : Call} {r : DeploymentRow}
    (hrow : w.row d = some r) :
    ∃ r', (w.perform engines o c).2.row d = some r' ∧ r'.organizationId = r.organizationId := by
  have htouches := touches_perform engines d w o c
  generalize (w.perform engines o c).2.row d = after at htouches ⊢
  cases htouches with
  | keep => exact ⟨r, hrow, rfl⟩
  | promote hrow' =>
    obtain rfl := Option.some.inj (hrow.symm.trans hrow')
    exact ⟨_, rfl, rfl⟩
  | insert hnone =>
    rw [hrow] at hnone
    cases hnone
  | patch hid hrow' =>
    obtain rfl := Option.some.inj (hrow.symm.trans hrow')
    exact ⟨_, rfl, rfl⟩

/-- How a row comes to have succeeded. -/
theorem succeeded_perform {w : World} {o : Oracle} {c : Call}
    (h : Succeeded d (w.perform engines o c).2) :
    Succeeded d w ∨ (∃ p, c = .store (.patchDeployment p) ∧ p.id = d ∧ o.fault.Lands ∧
        p.status = .succeeded) ∨
      ∃ input, c = .store (.insertDeployment input) ∧ input.status = .succeeded := by
  obtain ⟨r, hr, hst⟩ := h
  have htouches := touches_perform engines d w o c
  rw [Option.mem_def] at hr
  rw [hr] at htouches
  generalize hafter : some r = after at htouches
  cases htouches with
  | keep => exact .inl ⟨r, hafter.symm, hst⟩
  | promote hrow =>
    obtain rfl := Option.some.inj hafter
    exact .inl ⟨_, hrow, hst⟩
  | insert hnone =>
    obtain rfl := Option.some.inj hafter
    exact .inr (.inr ⟨_, rfl, hst⟩)
  | patch hid hrow horg hlands =>
    obtain rfl := Option.some.inj hafter
    exact .inr (.inl ⟨_, rfl, hid, hlands, hst⟩)

/-! ## The invariant -/

/-- One thread at most owes, it owes for a success without a record, and while
nobody owes the count is exact. -/
structure UsageInv (d : DeploymentId) (s : PlaneSys) : Prop where
  settle : SettleInv d s
  even : ∀ i x, stageOf d s i = some x → ¬ x.Odd
  own : ∀ i x org, stageOf d s i = some x → x.org = some org →
    ∃ r, s.world.row d = some r ∧ r.organizationId = org
  alone : ∀ i j x y, stageOf d s i = some x → x.Owes → stageOf d s j = some y → y.Owes → i = j
  debt : ∀ i x, stageOf d s i = some x → x.Owes → Succeeded d s.world ∧ s.world.usage d = 0
  free : (∀ i x, stageOf d s i = some x → ¬ x.Owes) →
    s.world.usage d = if Succeeded d s.world then 1 else 0

theorem succeeded_stays (h : SettleInv d s) {l : PlaneMove} (ho : Orderly engines d s l)
    (hs : Succeeded d s.world) : Succeeded d ((planeHost engines).step s l).world := by
  obtain ⟨r, hr, hst⟩ := hs
  obtain ⟨r', hr', hst', _⟩ := staysFinal_of_inv h ho r hr (by rw [hst]; decide)
  exact ⟨r', hr', hst'.trans hst⟩

section Called

variable {tid : Nat} {o : Oracle} {c : Call} {x x' : Stage} {s' : PlaneSys}

/-- The organization that a thread goes by is the row's. -/
theorem own_of_called (h : UsageInv d s)
    (hc : Called (planeHost engines) (planeDuty d) s s' tid o c x x')
    (ho : Orderly engines d s (.exec tid o)) {i : Nat} {y : Stage} {org : OrganizationId}
    (hy : stageOf d s' i = some y) (horg : y.org = some org) :
    ∃ r, s'.world.row d = some r ∧ r.organizationId = org := by
  have hmove : x.move (sight d c (s.world.perform engines o c).1) = some x' := hc.moves
  have hworld : s'.world = (s.world.perform engines o c).2 := hc.world
  have hpass := orderly_of_called hc ho
  suffices hbefore : ∃ r, s.world.row d = some r ∧ r.organizationId = org by
    obtain ⟨r, hrow, hr⟩ := hbefore
    obtain ⟨r', hrow', hr'⟩ := (@org_perform engines _ _ o c) hrow
    exact ⟨r', hworld ▸ hrow', hr'.trans hr⟩
  rcases hc.stage_after hy with ⟨_, rfl⟩ | ⟨_, hwas⟩
  · rcases org_of_move hmove horg with hx | hclaimed | ⟨row, hlisted, hrow⟩
    · exact h.own tid x org hc.was hx
    · rw [hclaimed] at hpass
      obtain ⟨r, hr, _⟩ := hpass
      exact ⟨r, deployment_eq_some.mp hr⟩
    · exact ⟨row, (row_of_listed hlisted).1, hrow⟩
  · exact h.own i y org hwas horg

/-- A thread that owes is not gone: no program ends in debt. -/
theorem owes_after (hc : Called (planeHost engines) (planeDuty d) s s' tid o c x x')
    (howes : x'.Owes) : stageOf d s' tid = some x' := by
  rcases hc.now with hnow | ⟨_, t, r, hends⟩
  · exact hnow
  · obtain ⟨org, rfl⟩ := owes_iff.mp howes
    exact absurd rfl (hends org)

/-- The record an owing thread makes. -/
theorem ledger_of_billed (h : UsageInv d s)
    (hc : Called (planeHost engines) (planeDuty d) s s' tid o c x x') (howes : x.Owes)
    (hsucc : Succeeded d s'.world) (hpaid : s'.world.usage d = s.world.usage d + 1)
    (hx' : ¬ x'.Owes) :
    (∀ i y, stageOf d s' i = some y → ¬ y.Owes) ∧
      s'.world.usage d = if Succeeded d s'.world then 1 else 0 := by
  refine ⟨fun i y hy hyowes => ?_, ?_⟩
  · rcases hc.stage_after hy with ⟨_, rfl⟩ | ⟨hi, hwas⟩
    · exact hx' hyowes
    · exact hi (h.alone i tid y x hwas hyowes hc.was howes)
  · rw [hpaid, (h.debt tid x hc.was howes).2, if_pos hsucc]

/-- An answered write of `succeeded` makes the row succeeded, and its writer the
only one that owes. -/
theorem debt_of_wrote (h : UsageInv d s)
    (hc : Called (planeHost engines) (planeDuty d) s s' tid o c x x') (hx : x ≠ .direct)
    {p : DeploymentStatusInput} (hsight : sight d c (s.world.perform engines o c).1 = .wrote p true)
    -- the row was not succeeded, and is now; and its writer owes the record
    (hst : p.status = .succeeded) :
    ¬ Succeeded d s.world ∧ Succeeded d s'.world ∧ x' = .owing p.organizationId := by
  have hmove : x.move (sight d c (s.world.perform engines o c).1) = some x' := hc.moves
  have hworld : s'.world = (s.world.perform engines o c).2 := hc.world
  rw [hsight] at hmove
  have hwrites := writes_of_move hmove
  obtain ⟨rfl, hid⟩ := call_of_wrote hsight
  -- whoever wrote is of the row's organization, so the patch met the row
  obtain ⟨horg, howing⟩ := owing_of_writes hwrites hst (h.even tid x hc.was)
    (fun org handle status hxa => h.settle.unfinished tid org handle status (hxa ▸ hc.was)) hx
  obtain ⟨r, hrow, hr⟩ := h.own tid x _ hc.was horg
  refine ⟨?_, ?_, howing⟩
  · -- the writer was open, so the row was in flight
    intro hsucc
    obtain ⟨r', hrow', hst'⟩ := hsucc
    rcases hwrites.isOpen with hdirect | hopen
    · exact hx hdirect
    · obtain ⟨r'', hrow'', hflight⟩ := h.settle.held tid x hc.was hopen
      rw [hrow''] at hrow'
      rw [Option.some.inj hrow', hst'] at hflight
      exact absurd hflight (by decide)
  · -- it was answered, so it took effect
    rw [wrote_of_patch hid] at hsight
    have hanswered := (Sight.wrote.inj hsight).2
    have hlands : o.fault.Lands := by
      cases hr : (s.world.perform engines o (.store (.patchDeployment p))).1 with
      | error e =>
        rw [hr] at hanswered
        cases hanswered
      | ok a =>
        rw [(perform_store_ok hr).1]
        trivial
    refine ⟨p.set r, ?_, hst⟩
    rw [hworld, World.row, perform_store, if_pos hlands]
    show (s.world.store.patchDeployment p).deployments.find d = some (p.set r)
    rw [find_patchDeployment, show s.world.store.deployments.find d = some r from hrow,
      Option.map_some, if_pos]
    simp only [owned, Bool.and_eq_true, beq_iff_eq]
    exact ⟨(Table.mem_of_find hrow).2.trans hid.symm, hr⟩

/-- Nobody comes to owe and nobody pays: the row succeeded before or not at all. -/
theorem succeeded_of_called (h : UsageInv d s)
    (hc : Called (planeHost engines) (planeDuty d) s s' tid o c x x') (hx : x ≠ .direct)
    (hheard : (sight d c (s.world.perform engines o c).1).Heard x o.fault.Lands)
    (hx' : ¬ x'.Owes) (hsucc : Succeeded d s'.world) : Succeeded d s.world := by
  have hworld : s'.world = (s.world.perform engines o c).2 := hc.world
  rw [hworld] at hsucc
  rcases succeeded_perform hsucc with hbefore | ⟨p, rfl, hid, hlands, hst⟩ | ⟨input, rfl, hst⟩
  · exact hbefore
  · exfalso
    have hsight := wrote_of_patch hid (s.world.perform engines o (.store (.patchDeployment p))).1
    rw [hsight] at hheard
    rw [show (!threw (s.world.perform engines o (.store (.patchDeployment p))).1) = true from
      hheard.1 hlands hst] at hsight
    have howing := (debt_of_wrote h hc hx hsight hst).2.2
    rw [howing] at hx'
    exact hx' trivial
  · exfalso
    have hmove : x.move (.created input) = some x' := hc.moves
    cases moves_of_move hmove with
    | direct => exact hx rfl
    | phase hph => cases hph
    | created _ _ hpending =>
      rw [hst] at hpending
      cases hpending
    | passing ha => exact ha

/-- **A call keeps the ledger.** -/
theorem usageInv_called (h : UsageInv d s)
    (hc : Called (planeHost engines) (planeDuty d) s s' tid o c x x') (hx : x ≠ .direct)
    (hs' : SettleInv d s') (ho : Orderly engines d s (.exec tid o))
    (hb : Billed engines d s (.exec tid o))
    (hstays : Succeeded d s.world → Succeeded d s'.world) : UsageInv d s' := by
  have hmove : x.move (sight d c (s.world.perform engines o c).1) = some x' := hc.moves
  have hheard := heard_of_called hc hb
  -- nobody is odd: nothing odd was heard
  have heven : ∀ i y, stageOf d s' i = some y → ¬ y.Odd := by
    intro i y hy
    rcases hc.stage_after hy with ⟨_, rfl⟩ | ⟨_, hwas⟩
    · exact hheard.2 y hmove
    · exact h.even i y hwas
  have hown := fun i y org => @own_of_called _ _ _ _ _ _ _ _ _ h hc ho i y org
  by_cases howes : x.Owes
  · obtain ⟨org, rfl⟩ := owes_iff.mp howes
    obtain ⟨hsucc, hzero⟩ := h.debt tid _ hc.was howes
    rcases owing_move hmove with ⟨rfl, hbilled | hthrew⟩ | ⟨rfl, hquiet⟩
    · -- the record is made
      rw [hbilled] at hheard
      obtain rfl := call_of_billed hbilled
      have hpaid : s'.world.usage d = s.world.usage d + 1 := by
        have hworld : s'.world = (s.world.perform engines o
            (.store (.insertUsage d org "deployments" 1))).2 := hc.world
        rw [hworld]
        exact usage_insert hheard.1
      obtain ⟨hnone, hcount⟩ := ledger_of_billed h hc howes (hstays hsucc) hpaid id
      refine ⟨hs', heven, hown, ?_, ?_, fun _ => hcount⟩
      · intro i j y z hy hyo _ _
        exact absurd hyo (hnone i y hy)
      · intro i y hy hyo
        exact absurd hyo (hnone i y hy)
    · rw [hthrew] at hheard
      cases hheard.1 trivial
    · -- it still owes
      have hsame : s'.world.usage d = s.world.usage d := by
        have hworld : s'.world = (s.world.perform engines o c).2 := hc.world
        rw [hworld]
        refine usage_perform ?_
        intro o' metric quantity hcall
        subst hcall
        exact hquiet o' metric quantity (sight_billed o' metric quantity _)
      have hback : ∀ i y, stageOf d s' i = some y → y.Owes →
          ∃ z, stageOf d s i = some z ∧ z.Owes := by
        intro i y hy hyo
        rcases hc.stage_after hy with ⟨rfl, rfl⟩ | ⟨_, hwas⟩
        · exact ⟨_, hc.was, trivial⟩
        · exact ⟨y, hwas, hyo⟩
      refine ⟨hs', heven, hown, ?_, ?_, ?_⟩
      · intro i j y z hy hyo hz hzo
        obtain ⟨y', hy', hyo'⟩ := hback i y hy hyo
        obtain ⟨z', hz', hzo'⟩ := hback j z hz hzo
        exact h.alone i j y' z' hy' hyo' hz' hzo'
      · intro i y hy hyo
        exact ⟨hstays hsucc, hsame.trans hzero⟩
      · intro hnone
        exact absurd trivial (hnone tid _ (owes_after hc trivial))
  · have hsame := usage_of_called hc hx howes
    by_cases howes' : x'.Owes
    · -- a success was written
      rcases owes_of_move hmove howes' with hwas | ⟨p, hsight, hst⟩
      · exact absurd hwas howes
      obtain ⟨hnot, hsucc, _⟩ := debt_of_wrote h hc hx hsight hst
      -- nobody owed anything, since the row was not succeeded yet
      have hfree : ∀ i y, stageOf d s i = some y → ¬ y.Owes :=
        fun i y hy hyo => hnot (h.debt i y hy hyo).1
      have hzero : s.world.usage d = 0 := by
        rw [h.free hfree, if_neg hnot]
      refine ⟨hs', heven, hown, ?_, ?_, ?_⟩
      · intro i j y z hy hyo hz hzo
        rcases hc.stage_after hy with ⟨rfl, _⟩ | ⟨_, hwas⟩
        · rcases hc.stage_after hz with ⟨rfl, _⟩ | ⟨_, hwas⟩
          · rfl
          · exact absurd hzo (hfree j z hwas)
        · exact absurd hyo (hfree i y hwas)
      · intro i y hy hyo
        exact ⟨hsucc, hsame.trans hzero⟩
      · intro hnone
        exact absurd howes' (hnone tid x' (owes_after hc howes'))
    · -- nothing about usage happens
      have hiff : Succeeded d s'.world ↔ Succeeded d s.world :=
        ⟨succeeded_of_called h hc hx hheard howes', hstays⟩
      have hback : ∀ i y, stageOf d s' i = some y → y.Owes → stageOf d s i = some y := by
        intro i y hy hyo
        rcases hc.stage_after hy with ⟨_, rfl⟩ | ⟨_, hwas⟩
        · exact absurd hyo howes'
        · exact hwas
      refine ⟨hs', heven, hown, ?_, ?_, ?_⟩
      · intro i j y z hy hyo hz hzo
        exact h.alone i j y z (hback i y hy hyo) hyo (hback j z hz hzo) hzo
      · intro i y hy hyo
        obtain ⟨hsucc, hzero⟩ := h.debt i y (hback i y hy hyo) hyo
        exact ⟨hstays hsucc, hsame.trans hzero⟩
      · intro hnone
        rw [hsame]
        simp only [hiff]
        refine h.free fun i y hy hyo => ?_
        -- the caller did not owe before
        by_cases hi : i = tid
        · subst hi
          rw [show stageOf d s i = some x from hc.was] at hy
          exact howes (Option.some.inj hy ▸ hyo)
        · exact hnone i y ((hc.others_stage hi).trans hy) hyo

end Called

/-- **Step.** -/
theorem usageInv_step (h : UsageInv d s) {l : PlaneMove} (ho : Orderly engines d s l)
    (hb : Billed engines d s l) : UsageInv d ((planeHost engines).step s l) := by
  have hs' := settleInv_step h.settle ho
  rcases (@plane_step_cases engines) h.settle.sound l with
    hs | ⟨tid, o, c, x, x', hl, hx, hc⟩
  -- a step without a call moves neither the row nor the ledger
  · have hrow := row_of_silent hs
    have husage : ((planeHost engines).step s l).world.usage d = s.world.usage d := by
      rcases hs.world with hw | ⟨δ, hw⟩
      · rw [hw]
      · rw [hw]
        cases δ <;> rfl
    have hsucc : Succeeded d ((planeHost engines).step s l).world ↔ Succeeded d s.world := by
      simp only [Succeeded, hrow]
    have hback : ∀ i y, stageOf d ((planeHost engines).step s l) i = some y →
        stageOf d s i = some y ∨ ∃ t : Task, y = t.first := by
      intro i y hy
      rcases hs.stage i y hy with hwas | ⟨_, t, ht⟩
      · exact .inl hwas
      · exact .inr ⟨t, ht⟩
    have howes : ∀ i y, stageOf d ((planeHost engines).step s l) i = some y → y.Owes →
        stageOf d s i = some y := by
      intro i y hy hyo
      rcases hback i y hy with hwas | ⟨t, rfl⟩
      · exact hwas
      · cases t <;> exact hyo.elim
    refine ⟨hs', ?_, ?_, ?_, ?_, ?_⟩
    · intro i y hy hodd
      rcases hback i y hy with hwas | ⟨t, rfl⟩
      · exact h.even i y hwas hodd
      · cases t <;> exact hodd.elim
    · intro i y org hy horg
      rw [hrow]
      rcases hback i y hy with hwas | ⟨t, rfl⟩
      · exact h.own i y org hwas horg
      · cases t <;> cases horg
    · intro i j y z hy hyo hz hzo
      exact h.alone i j y z (howes i y hy hyo) hyo (howes j z hz hzo) hzo
    · intro i y hy hyo
      rw [hsucc, husage]
      exact h.debt i y (howes i y hy hyo) hyo
    · intro hnone
      rw [husage]
      simp only [hsucc]
      -- a thread that died owed nothing, under the condition
      refine h.free fun i y hy hyo => ?_
      rcases hs.stays i y hy with hstays | rfl
      · exact hnone i y hstays hyo
      · exact hb y hy hyo
  · subst hl
    exact usageInv_called h hc hx hs' ho hb (succeeded_stays h.settle ho)

theorem usageInv_start (now : Instant) (projects : ProjectsTable)
    (members : OrganizationId → UserId → Bool) :
    UsageInv d (PlaneSys.initial now projects members) where
  settle := settleInv_start now projects members
  even _ _ h := by cases h
  own _ _ _ h := by cases h
  alone _ _ _ _ h := by cases h
  debt _ _ h := by cases h
  free _ := by
    rw [if_neg]
    · rfl
    · intro h
      obtain ⟨r, hr, _⟩ := h
      cases hr

/-- **A success is counted once**, in every orderly run in which it is heard. -/
theorem usage_matches (engines : Engines) (d : DeploymentId) (now : Instant)
    (projects : ProjectsTable) (members : OrganizationId → UserId → Bool) (ls : List PlaneMove)
    (h : EachStep (planeHost engines).step (fun s l => Orderly engines d s l ∧ Billed engines d s l)
      (PlaneSys.initial now projects members) ls) :
    Always (planeHost engines).step (UsageMatches d) (PlaneSys.initial now projects members) ls := by
  refine always_of_inv (usageInv_start now projects members)
    (fun _ _ hs hcond => usageInv_step hs hcond.1 hcond.2) ?_ h
  intro s hs hquiet
  exact hs.free fun i x hx => hquiet i (lt_born_of_stage hs.settle.sound hx) x hx

/-- The build that was resumed is counted. -/
theorem usage_matches_resumed :
    EachStep (planeHost ⟨none, false⟩).step
        (fun s l => Orderly ⟨none, false⟩ 0 s l ∧ Billed ⟨none, false⟩ 0 s l) PlaneSys.scripted
        resumedRun ∧
      Always (planeHost ⟨none, false⟩).step (UsageMatches 0) PlaneSys.scripted resumedRun :=
  have h : EachStep (planeHost ⟨none, false⟩).step
      (fun s l => Orderly ⟨none, false⟩ 0 s l ∧ Billed ⟨none, false⟩ 0 s l) PlaneSys.scripted
      resumedRun := by decide
  ⟨h, usage_matches _ 0 _ _ _ _ h⟩

/-! ## A success nobody counts -/

/-- The worker writes `succeeded`, and dies before it comes to the usage. -/
def uncountedRun : List PlaneMove :=
  requested ++ .spawn (.work aWorker) :: calls 1 12 building ++
    .drift (.tick 10000) :: .spawn (.work aWorker) :: calls 2 8 built ++ [.crash 2]

theorem crash_loses_usage :
    ¬ Always (planeHost ⟨none, false⟩).step (UsageMatches 0) PlaneSys.scripted uncountedRun := by
  intro h
  have hlast := always_iff_prefixes.mp h uncountedRun [] (by rw [List.append_nil])
  revert hlast
  decide

end CloudWai.Deployment
