import Mathlib.Data.List.Perm.Subperm
import CloudWai.Base.Triple
import CloudWai.Deployment.Routine
import CloudWai.Deployment.System

/-!
# Sweep after sweep

A sweep lists the oldest rows in flight, a page of them, and settles them one after the
other. A row past the ceiling is settled whatever its engine says, so a page of such rows
makes room for the next page: the rows that are as old as a given one become fewer by a
page with every sweep that does not reach it (`sweep_shrinks`), and that is the bound.

All of it rests on no call throwing. There is nothing around `settleOne` that would catch
it, so one row's refused request ends the sweep, and the rows behind it wait; they wait for
ever if the request is always refused, since the row stays at the head of the page.

About `apps/worker/src/deployment-reconcile.ts`, as `Reconcile.lean` has it.
-/

namespace CloudWai.Deployment

open Base Queue ControlPlaneStore

/-! ## Rows in flight -/

/-- Whatever is in flight in `D'` was in flight in `D`. -/
def KeepsFlight (D D' : DeploymentsTable) : Prop :=
  ∀ r' ∈ D'.rows, r'.status.InFlight → ∃ r ∈ D.rows, r.id = r'.id ∧
    r.organizationId = r'.organizationId ∧ r.createdAt = r'.createdAt ∧ r.status.InFlight

theorem KeepsFlight.refl (D : DeploymentsTable) : KeepsFlight D D :=
  fun r hr hflight => ⟨r, hr, rfl, rfl, rfl, hflight⟩

theorem KeepsFlight.trans {D D' D'' : DeploymentsTable} (h : KeepsFlight D D')
    (h' : KeepsFlight D' D'') : KeepsFlight D D'' := by
  intro r'' hr'' hflight''
  obtain ⟨r', hr', hid', horg', hcreated', hflight'⟩ := h' r'' hr'' hflight''
  obtain ⟨r, hr, hid, horg, hcreated, hflight⟩ := h r' hr' hflight'
  exact ⟨r, hr, hid.trans hid', horg.trans horg', hcreated.trans hcreated', hflight⟩

/-- A `set` clause that puts nothing in flight. -/
theorem keepsFlight_update {D : DeploymentsTable} {p : DeploymentRow → Bool}
    {f : Table.Edit fun r : DeploymentRow => r.id}
    (hf : ∀ r, (f.run r).organizationId = r.organizationId ∧ (f.run r).createdAt = r.createdAt ∧
      ((f.run r).status.InFlight → r.status.InFlight)) : KeepsFlight D (D.update p f) := by
  intro r' hr' hflight
  rcases Table.mem_update.mp hr' with ⟨hr, _⟩ | ⟨r, hr, _, rfl⟩
  · exact ⟨r', hr, rfl, rfl, rfl, hflight⟩
  · obtain ⟨horg, hcreated, hback⟩ := hf r
    exact ⟨r, hr, (f.keeps r).symm, horg.symm, hcreated.symm, hback hflight⟩

/-- No row of this id is in flight. -/
def SettledIn (id : DeploymentId) (w : World) : Prop :=
  ∀ r ∈ w.store.deployments.rows, r.id = id → ¬ r.status.InFlight

/-- The row of this id and age is in flight. -/
def InFlightIn (id : DeploymentId) (created : Instant) (w : World) : Prop :=
  ∃ r ∈ w.store.deployments.rows, r.id = id ∧ r.createdAt = created ∧ r.status.InFlight

/-- Time passes, and no row that is older than `w` is put in flight. -/
structure Passing (w w' : World) : Prop where
  now : w.now ≤ w'.now
  rows : ∀ r' ∈ w'.store.deployments.rows, r'.status.InFlight → r'.createdAt < w.now →
    ∃ r ∈ w.store.deployments.rows, r.id = r'.id ∧ r.createdAt = r'.createdAt ∧
      r.status.InFlight

/-- What a call of a sweep leaves: the time, and no more rows in flight. -/
structure Calmer (w w' : World) : Prop where
  now : w'.now = w.now
  flight : KeepsFlight w.store.deployments w'.store.deployments

theorem Calmer.refl (w : World) : Calmer w w := ⟨rfl, .refl _⟩

theorem Calmer.trans {w w' w'' : World} (h : Calmer w w') (h' : Calmer w' w'') : Calmer w w'' :=
  ⟨h'.now.trans h.now, h.flight.trans h'.flight⟩

/-- What is settled stays so. -/
theorem Calmer.settled {w w' : World} {id : DeploymentId} (h : Calmer w w')
    (hid : SettledIn id w) : SettledIn id w' := by
  intro r' hr' hsame hflight
  obtain ⟨r, hr, hr_id, _, _, hr_flight⟩ := h.flight r' hr' hflight
  exact hid r hr (hr_id.trans hsame) hr_flight

/-! ## The calls of a sweep -/

/-- A call that puts no row in flight. -/
def Calming : Call → Prop
  | .store (.patchDeployment p) => ¬ p.status.InFlight
  | .store (.insertDeployment _) => False
  | _ => True

/-- Calls of a sweep put no row into flight. -/
theorem keepsFlight_run {now : Instant} {away : Elsewhere} {s : Store} {c : StoreCall}
    (h : Calming (.store c)) : KeepsFlight s.deployments (c.run now away s).2.deployments := by
  cases c with
  | patchDeployment p =>
    refine keepsFlight_update fun r => ⟨rfl, rfl, fun hflight => ?_⟩
    exact absurd hflight h
  | insertDeployment input => exact absurd h id
  | promote org project id =>
    simp only [StoreCall.run, Store.promoteDeployment]
    split
    · split
      · refine KeepsFlight.trans ?_ (keepsFlight_update fun r => ⟨rfl, rfl, fun h => h⟩)
        exact keepsFlight_update fun r => ⟨rfl, rfl, fun h => h⟩
      · exact .refl _
    · exact .refl _
  | insertPreviewTarget org project key branch pullRequest =>
    simp only [StoreCall.run]
    split
    · exact .refl _
    · exact .refl _
  | _ => exact .refl _

theorem calmer_perform {engines : Engines} {w : World} {o : Oracle} {c : Call} (h : Calming c) :
    Calmer w (w.perform engines o c).2 := by
  refine ⟨perform_now engines w o c, ?_⟩
  cases c with
  | engine row c => exact .refl _
  | queue c =>
    rw [perform_queue_store]
    exact .refl _
  | store c =>
    rw [perform_store]
    split
    · exact keepsFlight_run h
    · exact .refl _

/-- A sweep: the world it finds, and what the outside settles call by call. -/
structure Sweep where
  found : World
  outside : Nat → Oracle

section Sweep

variable (engines : Engines) (options : ReconcilerOptions)

/-- One call; the calls of a sweep are counted. -/
def Sweep.serve (s : Sweep) (x : World × Nat) (c : Call) : Except String c.Ans × (World × Nat) :=
  let a := x.1.perform engines (s.outside x.2) c
  (a.1, a.2, x.2 + 1)

/-- The rows a sweep lists. -/
def Sweep.listed (s : Sweep) : List DeploymentRow :=
  s.found.store.stranded (s.found.now - options.staleAfterMs) (resolveListLimit options.limit)

/-- The rows that are attempted, each with its outcome, and what is left. -/
def Sweep.through (s : Sweep) (now : Instant) :
    List DeploymentRow → World × Nat → List (DeploymentRow × Except String Bool) × (World × Nat)
  | [], x => ([], x)
  | row :: rest, x =>
    let a := (settleOne engines options now row).eval (s.serve engines) x
    match a.1 with
    | .error e => ([(row, .error e)], a.2)
    | .ok settled =>
      let l := s.through now rest a.2
      ((row, .ok settled) :: l.1, l.2)

/-- The attempts of a sweep whose listing is answered, which is its second call. -/
def Sweep.log (s : Sweep) : List (DeploymentRow × Except String Bool) :=
  (s.through engines options s.found.now (s.listed options) (s.found, 2)).1

/-- The world a sweep leaves. -/
def Sweep.left (s : Sweep) : World :=
  ((reconcile engines options).eval (s.serve engines) (s.found, 0)).2.1

/-- No listed row's calls throw. -/
def Sweep.Untroubled (s : Sweep) : Prop :=
  ∀ e ∈ s.log engines options, e.2.isOk = true

instance (s : Sweep) : Decidable (s.Untroubled engines options) :=
  inferInstanceAs (Decidable (∀ e ∈ s.log engines options, e.2.isOk = true))

variable {engines options} {s : Sweep} {now : Instant} {x : World × Nat}

/-! ## One sweep -/

theorem ends_calming {α : Type} {p : PlaneProg α} {w : World} (hp : p.Only Calming)
    (h : Calmer w x.1) : p.Ends (s.serve engines) (fun _ x' => Calmer w x'.1) x :=
  Prog.ends_of_only hp (fun _ _ h hc => h.trans (calmer_perform hc)) h

/-- A verdict is terminal. -/
theorem verdict_settles {row : DeploymentRow} {answer : AdapterResult DeploymentState}
    {settled : Settled} (h : verdict options now row answer = some settled) :
    ¬ settled.status.InFlight := by
  have hfailed : ¬ EngineStatus.failed.InFlight := by decide
  unfold verdict at h
  split at h
  · split at h
    · split at h
      · cases h
      · obtain rfl := Option.some.inj h
        exact hfailed
    next hover =>
      obtain rfl := Option.some.inj h
      exact hover
  · split at h
    · obtain rfl := Option.some.inj h
      exact hfailed
    · split at h
      · cases h
      · obtain rfl := Option.some.inj h
        exact hfailed

/-- Past the ceiling there is always a verdict. -/
theorem verdict_overdue {row : DeploymentRow} (h : ¬ young options now row)
    (answer : AdapterResult DeploymentState) : verdict options now row answer ≠ none := by
  unfold verdict
  cases answer with
  | ok status state =>
    simp only [if_neg h]
    split <;> nofun
  | err status reason =>
    simp only [if_neg h]
    split <;> nofun

theorem calming_celebrate {id : DeploymentId} {org : OrganizationId} {project : ProjectId}
    {kind : DeploymentKind} {staged : Bool} :
    (celebrate id org project kind staged).Only Calming := by
  unfold celebrate recordUsage
  refine Prog.only_bind ?_ fun _ => only_must trivial
  split
  · refine Prog.only_bind ?_ fun _ => trivial
    unfold promoteDeployment
    refine Prog.only_bind (only_must trivial) fun previous => ?_
    refine Prog.only_bind (only_must trivial) fun moved => ?_
    split
    · exact Prog.only_bind (only_must trivial) fun _ => trivial
    · trivial
  · trivial

theorem calming_writeSettled {row : DeploymentRow} {settled : Settled}
    (h : ¬ settled.status.InFlight) : (writeSettled row now settled).Only Calming := by
  unfold writeSettled
  refine Prog.only_bind (only_must h) fun _ => ?_
  split
  · exact Prog.only_bind calming_celebrate fun _ => trivial
  · trivial

theorem calming_settleOne {row : DeploymentRow} :
    (settleOne engines options now row).Only Calming := by
  unfold settleOne
  refine Prog.only_bind (only_must trivial) fun target => ?_
  dsimp only
  split
  · split
    · trivial
    · exact calming_writeSettled (by
        show ¬ EngineStatus.failed.InFlight
        decide)
  · obtain ⟨m, hport⟩ := port_getDeployment engines row.id (sweepModel row target)
    rw [hport]
    refine Prog.only_bind (Prog.only_call trivial) fun answer => ?_
    split
    next settled hverdict => exact calming_writeSettled (verdict_settles hverdict)
    next => trivial

/-- A row of the listing, patched, is settled. -/
theorem settled_patched {w : World} {row : DeploymentRow} {p : DeploymentStatusInput}
    (hcalmer : Calmer s.found w) (hrow : row ∈ s.found.store.deployments.rows)
    (hid : p.id = row.id) (horg : p.organizationId = row.organizationId)
    (hstatus : ¬ p.status.InFlight) :
    SettledIn row.id { w with store := w.store.patchDeployment p } := by
  intro r' hr' hsame hflight
  rcases Table.mem_update.mp hr' with ⟨hr, hmiss⟩ | ⟨r, _, _, rfl⟩
  · obtain ⟨r, hfound, hr_id, hr_org, _, _⟩ := hcalmer.flight r' hr hflight
    have hr_find := Table.find_eq_some.mpr ⟨hfound, hr_id.trans hsame⟩
    have hrow_find := Table.find_eq_some.mpr ⟨hrow, rfl⟩
    obtain rfl : r = row := Option.some.inj (hr_find.symm.trans hrow_find)
    unfold owned at hmiss
    rw [hid, horg, hr_org, hsame] at hmiss
    simp at hmiss
  · exact hstatus hflight

/-- A verdict that was written is in the row. -/
theorem ends_writeSettled {row : DeploymentRow} {settled : Settled}
    (hcalmer : Calmer s.found x.1) (hrow : row ∈ s.found.store.deployments.rows)
    (h : ¬ settled.status.InFlight) :
    (writeSettled row now settled).Ends (s.serve engines)
      (fun r x' => r.isOk = true → SettledIn row.id x'.1) x := by
  have hrest : ∀ x' : World × Nat, SettledIn row.id x'.1 →
      ((if settled.status = .succeeded then
        (celebrate row.id row.organizationId row.projectId row.kind row.staged).bind fun _ =>
          .ret true
      else .ret true : PlaneProg Bool)).Ends (s.serve engines)
        (fun r x'' => r.isOk = true → SettledIn row.id x''.1) x' := by
    intro x' hsettled
    have honly : ((if settled.status = .succeeded then
        (celebrate row.id row.organizationId row.projectId row.kind row.staged).bind fun _ =>
          .ret true
        else .ret true : PlaneProg Bool)).Only Calming := by
      split
      · exact Prog.only_bind calming_celebrate fun _ => trivial
      · trivial
    have hcalm : Calmer x'.1 _ :=
      @ends_calming engines s x' _ _ _ honly (.refl _)
    exact fun _ => hcalm.settled hsettled
  unfold writeSettled updateDeploymentStatus
  refine Prog.ends_bind (Q := fun r x' => r.isOk = true → SettledIn row.id x'.1) ?_ ?_ ?_
  · refine Prog.ends_await ?_
    cases hanswer : (s.serve engines x (.store (.patchDeployment (sweepPatch row settled now)))).1 with
    | error e => exact Prog.ends_raise nofun
    | ok a =>
      obtain ⟨hfault, _⟩ := perform_store_ok hanswer
      refine Prog.ends_ret fun _ => ?_
      have hworld : (s.serve engines x
          (.store (.patchDeployment (sweepPatch row settled now)))).2.1 =
            { x.1 with store := x.1.store.patchDeployment (sweepPatch row settled now) } := by
        show (x.1.perform engines (s.outside x.2) _).2 = _
        simp only [World.perform, hfault]
        rfl
      rw [hworld]
      exact settled_patched hcalmer hrow rfl rfl h
  · intro a x' hsettled
    exact hrest x' (hsettled rfl)
  · intro e x' _ hok
    cases hok

/-- **A row past the ceiling is settled**, if nothing throws. -/
theorem ends_settleOne {row : DeploymentRow} (hcalmer : Calmer s.found x.1)
    (hrow : row ∈ s.found.store.deployments.rows) (hold : ¬ young options now row) :
    (settleOne engines options now row).Ends (s.serve engines)
      (fun r x' => r.isOk = true → SettledIn row.id x'.1) x := by
  unfold settleOne
  refine Prog.ends_bind (Q := fun _ x' => Calmer s.found x'.1) ?_ ?_ ?_
  · exact ends_calming (only_must trivial) hcalmer
  · intro target x₁ h₁
    dsimp only
    split
    · rw [if_neg hold]
      exact ends_writeSettled h₁ hrow (by
        show ¬ EngineStatus.failed.InFlight
        decide)
    · obtain ⟨m, hport⟩ := port_getDeployment engines row.id (sweepModel row target)
      rw [hport]
      refine Prog.ends_bind (Q := fun _ x' => Calmer s.found x'.1) ?_ ?_ ?_
      · exact ends_calming (Prog.only_call trivial) h₁
      · intro answer x₂ h₂
        split
        next settled hverdict => exact ends_writeSettled h₂ hrow (verdict_settles hverdict)
        next hverdict => exact absurd hverdict (verdict_overdue hold answer)
      · intro e x₂ _ hok
        cases hok
  · intro e x₁ _ hok
    cases hok

/-- What a sweep's loop does to the rows in flight. -/
theorem through_calmer (rows : List DeploymentRow) : ∀ x : World × Nat,
    Calmer x.1 (s.through engines options now rows x).2.1 := by
  induction rows with
  | nil => exact fun x => .refl _
  | cons row rest ih =>
    intro x
    have hone : Calmer x.1 ((settleOne engines options now row).eval (s.serve engines) x).2.1 :=
      ends_calming calming_settleOne (.refl _)
    unfold Sweep.through
    dsimp only
    split
    · exact hone
    · exact hone.trans (ih _)

/-- **The loop without a throw** attempts every row, and settles those past the ceiling. -/
theorem through_untroubled (rows : List DeploymentRow)
    (hrows : ∀ row ∈ rows, row ∈ s.found.store.deployments.rows) : ∀ x : World × Nat,
    Calmer s.found x.1 →
    (∀ e ∈ (s.through engines options now rows x).1, e.2.isOk = true) →
    (s.through engines options now rows x).1.map (·.1) = rows ∧
      ∀ row ∈ rows, ¬ young options now row →
        SettledIn row.id (s.through engines options now rows x).2.1 := by
  induction rows with
  | nil => exact fun x _ _ => ⟨rfl, fun row h => absurd h List.not_mem_nil⟩
  | cons row rest ih =>
    intro x hcalmer hok
    have hhead : ¬ young options now row →
        (((settleOne engines options now row).eval (s.serve engines) x).1.isOk = true →
          SettledIn row.id ((settleOne engines options now row).eval (s.serve engines) x).2.1) :=
      fun hold => ends_settleOne hcalmer (hrows row List.mem_cons_self) hold
    have hone : Calmer x.1 ((settleOne engines options now row).eval (s.serve engines) x).2.1 :=
      ends_calming calming_settleOne (.refl _)
    unfold Sweep.through at hok ⊢
    dsimp only at hok ⊢
    generalize (settleOne engines options now row).eval (s.serve engines) x = a at *
    obtain ⟨r, x'⟩ := a
    cases r with
    | error e => cases hok _ (List.mem_singleton_self _)
    | ok settled =>
      dsimp only at hok hhead hone ⊢
      obtain ⟨hlog, hrest⟩ := ih (fun row h => hrows row (List.mem_cons_of_mem _ h)) x'
        (hcalmer.trans hone) fun e he => hok e (List.mem_cons_of_mem _ he)
      refine ⟨by rw [List.map_cons, hlog], fun row' hrow' hold => ?_⟩
      rcases List.mem_cons.mp hrow' with rfl | hrow'
      · exact (through_calmer rest x').settled (hhead hold rfl)
      · exact hrest row' hrow' hold

/-- A sweep goes through the rows one by one, and a call that throws ends it. -/
theorem eval_settleAll (rows : List DeploymentRow) : ∀ x : World × Nat,
    ((settleAll engines options now rows).eval (s.serve engines) x).2 =
      (s.through engines options now rows x).2 := by
  induction rows with
  | nil => exact fun x => rfl
  | cons row rest ih =>
    intro x
    unfold settleAll Sweep.through
    rw [Prog.eval_bind]
    generalize (settleOne engines options now row).eval (s.serve engines) x = a
    obtain ⟨r, x'⟩ := a
    cases r with
    | error e => rfl
    | ok settled =>
      dsimp only
      rw [← ih x', Prog.eval_bind]
      generalize (settleAll engines options now rest).eval (s.serve engines) x' = b
      obtain ⟨r, x''⟩ := b
      cases r <;> rfl

/-- The listing is the second call; from there on the sweep is its loop. -/
theorem left_eq (h : (s.outside 1).fault = .none) : s.left engines options =
    (s.through engines options s.found.now (s.listed options) (s.found, 2)).2.1 := by
  have hclock : s.serve engines (s.found, 0) (.queue .clock) = (.ok s.found.now, (s.found, 1)) :=
    rfl
  have hlisting : s.serve engines (s.found, 1) (.store (.selectStranded
      (s.found.now - options.staleAfterMs) (resolveListLimit options.limit))) =
        (.ok (s.listed options), (s.found, 2)) := by
    unfold Sweep.serve World.perform
    dsimp only
    rw [h]
    rfl
  unfold Sweep.left reconcile clock SqlJobQueue.now
  rw [← eval_settleAll]
  show ((Prog.await (.queue .clock) _).eval (s.serve engines) (s.found, 0)).2.1 = _
  rw [Prog.eval, hclock]
  show ((Prog.await (.store _) _).eval (s.serve engines) (s.found, 1)).2.1 = _
  rw [Prog.eval, hlisting]
  rfl

/-! ## A page at a time -/

/-- The ids of the rows in flight that are no younger than `c`. -/
def olderIds (c : Instant) (w : World) : List DeploymentId :=
  (w.store.deployments.rows.filter fun r =>
    decide r.status.InFlight && decide (r.createdAt ≤ c)).map (·.id)

theorem mem_olderIds {c : Instant} {w : World} {id : DeploymentId} : id ∈ olderIds c w ↔
    ∃ r ∈ w.store.deployments.rows, r.id = id ∧ r.status.InFlight ∧ r.createdAt ≤ c := by
  unfold olderIds
  simp only [List.mem_map, List.mem_filter, Bool.and_eq_true, decide_eq_true_eq]
  constructor
  · rintro ⟨r, ⟨hr, hflight, hold⟩, hid⟩
    exact ⟨r, hr, hid, hflight, hold⟩
  · rintro ⟨r, hr, hid, hflight, hold⟩
    exact ⟨r, ⟨hr, hflight, hold⟩, hid⟩

theorem nodup_olderIds (c : Instant) (w : World) : (olderIds c w).Nodup :=
  w.store.deployments.nodup.sublist (List.filter_sublist.map _)

/-- A page that leaves out a row in flight is full, and its rows are no younger. -/
theorem page_full {store : Store} {olderThan : Instant} {limit : Nat} {r : DeploymentRow}
    (hr : r ∈ store.deployments.rows) (hflight : r.status.InFlight)
    (hold : r.createdAt < olderThan) (hout : r ∉ store.stranded olderThan limit) :
    (store.stranded olderThan limit).length = limit ∧
      ∀ p ∈ store.stranded olderThan limit, p.createdAt ≤ r.createdAt := by
  unfold Store.stranded at hout ⊢
  have hsorted := List.pairwise_insertionSort (fun a b : DeploymentRow => a.createdAt ≤ b.createdAt)
    (store.deployments.rows.filter fun r =>
      decide r.status.InFlight && decide (r.createdAt < olderThan))
  have hmem : r ∈ (store.deployments.rows.filter fun r =>
      decide r.status.InFlight && decide (r.createdAt < olderThan)).insertionSort
        fun a b => a.createdAt ≤ b.createdAt := by
    rw [List.mem_insertionSort, List.mem_filter, Bool.and_eq_true, decide_eq_true_eq,
      decide_eq_true_eq]
    exact ⟨hr, hflight, hold⟩
  generalize (store.deployments.rows.filter fun r =>
      decide r.status.InFlight && decide (r.createdAt < olderThan)).insertionSort
        (fun a b => a.createdAt ≤ b.createdAt) = sorted at *
  rw [← List.take_append_drop limit sorted] at hmem hsorted
  have hdrop : r ∈ sorted.drop limit := (List.mem_append.mp hmem).resolve_left hout
  have hpos := List.length_pos_of_mem hdrop
  rw [List.length_drop] at hpos
  refine ⟨?_, fun p hp => ?_⟩
  · rw [List.length_take]
    omega
  · exact (List.pairwise_append.mp hsorted).2.2 p hp r hdrop

/-- Past the stale time, and past the ceiling. -/
structure Overdue (options : ReconcilerOptions) (now created : Instant) : Prop where
  stale : created < now - options.staleAfterMs
  old : options.hardCeilingMs ≤ now - created

instance (options : ReconcilerOptions) (now created : Instant) :
    Decidable (Overdue options now created) :=
  decidable_of_iff (_ ∧ _) ⟨fun h => ⟨h.1, h.2⟩, fun h => ⟨h.1, h.2⟩⟩

theorem overdue_iff {now created : Instant} : Overdue options now created ↔
    created + options.staleAfterMs < now ∧ options.hardCeilingMs ≤ now - created :=
  ⟨fun h => ⟨Nat.lt_sub_iff_add_lt.mp h.1, h.2⟩, fun h => ⟨Nat.lt_sub_iff_add_lt.mpr h.1, h.2⟩⟩

theorem Overdue.later {now now' created : Instant} (h : Overdue options now created)
    (hnow : now ≤ now') : Overdue options now' created := by
  rw [overdue_iff] at h ⊢
  exact ⟨lt_of_lt_of_le h.1 hnow, h.2.trans (Nat.sub_le_sub_right hnow created)⟩

theorem Overdue.older {now created created' : Instant} (h : Overdue options now created)
    (hle : created' ≤ created) : Overdue options now created' := by
  rw [overdue_iff] at h ⊢
  exact ⟨(Nat.add_le_add_right hle _).trans_lt h.1, h.2.trans (Nat.sub_le_sub_left hle now)⟩

theorem Overdue.before {now created : Instant} (h : Overdue options now created) :
    created < now :=
  (Nat.le_add_right _ _).trans_lt (overdue_iff.mp h).1

theorem Overdue.not_young {now : Instant} {r : DeploymentRow}
    (h : Overdue options now r.createdAt) : ¬ young options now r :=
  Nat.not_lt.mpr h.old

theorem listed_rows {r : DeploymentRow} (h : r ∈ s.listed options) :
    r ∈ s.found.store.deployments.rows :=
  (mem_stranded h).1

theorem left_calmer (hlisting : (s.outside 1).fault = .none) :
    Calmer s.found (s.left engines options) := by
  rw [left_eq hlisting]
  exact through_calmer (s.listed options) (s.found, 2)

theorem left_settled (hlisting : (s.outside 1).fault = .none)
    (hok : s.Untroubled engines options) {r : DeploymentRow} (hr : r ∈ s.listed options)
    (hdue : Overdue options s.found.now r.createdAt) : SettledIn r.id (s.left engines options) := by
  rw [left_eq hlisting]
  exact (through_untroubled (s.listed options) (fun _ => listed_rows) (s.found, 2) (.refl _)
    hok).2 r hr hdue.not_young

/-- **A sweep that does not reach a row past the ceiling settles a page of older ones.** -/
theorem sweep_shrinks {id : DeploymentId} {c : Instant} (hlisting : (s.outside 1).fault = .none)
    (hok : s.Untroubled engines options) (hdue : Overdue options s.found.now c)
    (hleft : InFlightIn id c (s.left engines options)) :
    (olderIds c (s.left engines options)).length + resolveListLimit options.limit ≤
      (olderIds c s.found).length := by
  have hcalmer : Calmer s.found (s.left engines options) := left_calmer hlisting
  obtain ⟨r', hr', hid', hcreated', hflight'⟩ := hleft
  obtain ⟨r, hr, hid, _, hcreated, hflight⟩ := hcalmer.flight r' hr' hflight'
  obtain rfl : r.createdAt = c := hcreated.trans hcreated'
  have hout : r ∉ s.listed options := fun hin =>
    left_settled hlisting hok hin hdue r' hr' hid.symm hflight'
  obtain ⟨hfull, holder⟩ := page_full hr hflight hdue.stale hout
  -- The page and what is left of the older rows are apart, and both were among the older rows.
  have hsub : olderIds r.createdAt (s.left engines options) ++ (s.listed options).map (·.id) ⊆
      olderIds r.createdAt s.found := by
    intro x hx
    rw [mem_olderIds]
    rcases List.mem_append.mp hx with hx | hx
    · obtain ⟨q', hq', hqid', hqflight', hqold'⟩ := mem_olderIds.mp hx
      obtain ⟨q, hq, hqid, _, hqcreated, hqflight⟩ := hcalmer.flight q' hq' hqflight'
      exact ⟨q, hq, hqid.trans hqid', hqflight, hqcreated.trans_le hqold'⟩
    · obtain ⟨p, hp, rfl⟩ := List.mem_map.mp hx
      exact ⟨p, listed_rows hp, rfl, (mem_stranded hp).2, holder p hp⟩
  have hnodup : (olderIds r.createdAt (s.left engines options) ++
      (s.listed options).map (·.id)).Nodup := by
    refine List.nodup_append'.mpr ⟨nodup_olderIds _ _, stranded_nodup _ _ _, ?_⟩
    intro x hx hpage
    obtain ⟨p, hp, rfl⟩ := List.mem_map.mp hpage
    obtain ⟨q, hq, hqid, hqflight, _⟩ := mem_olderIds.mp hx
    exact left_settled hlisting hok hp (hdue.older (holder p hp)) q hq hqid hqflight
  have hlen := (List.Nodup.subperm hnodup hsub).length_le
  rw [List.length_append, List.length_map] at hlen
  have hpage : (s.listed options).length = resolveListLimit options.limit := hfull
  omega

/-! ## A run of sweeps -/

variable (engines options)

/-- One sweep after another: nothing old is put in flight in between, and the listings are
answered. -/
def Follow : World → List Sweep → Prop
  | _, [] => True
  | w, s :: rest =>
    Passing w s.found ∧ (s.outside 1).fault = .none ∧ Follow (s.left engines options) rest

/-- The world after the last sweep. -/
def afterAll : World → List Sweep → World
  | w, [] => w
  | _, s :: rest => afterAll (s.left engines options) rest

/-- The stranded rows. -/
def strandedRows (w : World) : List DeploymentRow :=
  w.store.deployments.rows.filter fun r =>
    decide r.status.InFlight && decide (r.createdAt < w.now - options.staleAfterMs)

/-- The calls for this row throw in none of the sweeps. -/
def Unthrown (sweeps : List Sweep) (id : DeploymentId) : Prop :=
  ∀ s ∈ sweeps, ∀ e ∈ s.log engines options, e.1.id = id → e.2.isOk = true

/-- Every listed row is attempted, and a row past the ceiling whose calls do not throw is
settled when there were as many sweeps as the stranded rows fill pages. -/
structure Prompt (w : World) (sweeps : List Sweep) : Prop where
  attempted : ∀ s ∈ sweeps, (s.log engines options).map (·.1) = s.listed options
  settled : ∀ r ∈ w.store.deployments.rows, r.status.InFlight →
    Overdue options w.now r.createdAt → Unthrown engines options sweeps r.id →
    (strandedRows options w).length ≤ sweeps.length * resolveListLimit options.limit →
    ¬ InFlightIn r.id r.createdAt (afterAll engines options w sweeps)

variable {engines options}

/-- A row of that age was in flight before. -/
theorem Passing.inFlight {w w' : World} {id : DeploymentId} {c : Instant} (h : Passing w w')
    (hc : c < w.now) (hid : InFlightIn id c w') : InFlightIn id c w := by
  obtain ⟨r', hr', hid', rfl, hflight⟩ := hid
  obtain ⟨r, hr, hsame, hcreated, hback⟩ := h.rows r' hr' hflight hc
  exact ⟨r, hr, hsame.trans hid', hcreated, hback⟩

theorem Passing.olderIds {w w' : World} {c : Instant} (h : Passing w w') (hc : c < w.now) :
    (olderIds c w').length ≤ (olderIds c w).length := by
  refine (List.Nodup.subperm (nodup_olderIds c w') fun id hid => ?_).length_le
  obtain ⟨r', hr', hid', hflight, hold⟩ := mem_olderIds.mp hid
  obtain ⟨r, hr, hsame, hcreated, hback⟩ := h.rows r' hr' hflight (lt_of_le_of_lt hold hc)
  exact mem_olderIds.mpr ⟨r, hr, hsame.trans hid', hback, hcreated.trans_le hold⟩

theorem Calmer.inFlight {w w' : World} {id : DeploymentId} {c : Instant} (h : Calmer w w')
    (hid : InFlightIn id c w') : InFlightIn id c w := by
  obtain ⟨r', hr', hid', rfl, hflight⟩ := hid
  obtain ⟨r, hr, hsame, _, hcreated, hback⟩ := h.flight r' hr' hflight
  exact ⟨r, hr, hsame.trans hid', hcreated, hback⟩

theorem afterAll_inFlight {id : DeploymentId} {c : Instant} (sweeps : List Sweep) :
    ∀ w : World, Follow engines options w sweeps → c < w.now →
      InFlightIn id c (afterAll engines options w sweeps) → InFlightIn id c w := by
  induction sweeps with
  | nil => exact fun w _ _ h => h
  | cons s rest ih =>
    intro w hfollow hc h
    obtain ⟨honward, hlisting, hrest⟩ := hfollow
    have hcalmer : Calmer s.found (s.left engines options) := left_calmer hlisting
    have hlater : c < (s.left engines options).now := by
      rw [hcalmer.now]
      exact hc.trans_le honward.now
    exact honward.inFlight hc (hcalmer.inFlight (ih _ hrest hlater h))

/-- **A page for every sweep** that leaves the row in flight. -/
theorem run_shrinks {id : DeploymentId} {c : Instant} (sweeps : List Sweep) :
    ∀ w : World, Follow engines options w sweeps →
      (∀ s ∈ sweeps, s.Untroubled engines options) → Overdue options w.now c →
      InFlightIn id c (afterAll engines options w sweeps) →
      (olderIds c (afterAll engines options w sweeps)).length +
        sweeps.length * resolveListLimit options.limit ≤ (olderIds c w).length := by
  induction sweeps with
  | nil =>
    intro w _ _ _ _
    simp only [afterAll, List.length_nil, Nat.zero_mul, Nat.add_zero, le_refl]
  | cons s rest ih =>
    intro w hfollow hok hdue h
    obtain ⟨honward, hlisting, hrest⟩ := hfollow
    have hcalmer : Calmer s.found (s.left engines options) := left_calmer hlisting
    have hdue_found := hdue.later honward.now
    have hdue_left : Overdue options (s.left engines options).now c := by
      rw [hcalmer.now]
      exact hdue_found
    have hstill := afterAll_inFlight rest _ hrest hdue_left.before h
    have hone := sweep_shrinks hlisting (hok s List.mem_cons_self) hdue_found hstill
    have hih := ih _ hrest (fun s' hs' => hok s' (List.mem_cons_of_mem _ hs')) hdue_left h
    have hold := honward.olderIds hdue.before
    show (olderIds c (afterAll engines options (s.left engines options) rest)).length + _ ≤ _
    rw [List.length_cons, Nat.succ_mul]
    omega

/-- The rows as old as one past the ceiling are stranded. -/
theorem olderIds_le_stranded {w : World} {c : Instant} (hdue : Overdue options w.now c) :
    (olderIds c w).length ≤ (strandedRows options w).length := by
  unfold olderIds strandedRows
  rw [List.length_map]
  refine (List.monotone_filter_right _ fun r hr => ?_).length_le
  rw [Bool.and_eq_true, decide_eq_true_eq, decide_eq_true_eq] at hr ⊢
  exact ⟨hr.1, hr.2.trans_lt hdue.stale⟩

/-- **Without a throw the sweeps keep up**: nothing listed is left out, and a row past the
ceiling is settled within the pages that the stranded rows fill. -/
theorem sweeps_keep_up {w : World} {sweeps : List Sweep} (hfollow : Follow engines options w sweeps)
    (hok : ∀ s ∈ sweeps, s.Untroubled engines options) : Prompt engines options w sweeps := by
  constructor
  case attempted =>
    intro s hs
    exact (through_untroubled (s.listed options) (fun _ => listed_rows) (s.found, 2) (.refl _)
      (hok s hs)).1
  case settled =>
    intro r hr hflight hdue _ hmany h
    have hshrinks := run_shrinks sweeps w hfollow hok hdue h
    have hstranded := olderIds_le_stranded hdue
    obtain ⟨r', hr', hid', hcreated', hflight'⟩ := h
    have hpos := List.length_pos_of_mem
      (mem_olderIds.mpr ⟨r', hr', hid', hflight', le_of_eq hcreated'⟩)
    omega

end Sweep

theorem Passing.refl (w : World) : Passing w w :=
  ⟨le_refl _, fun r hr hflight _ => ⟨r, hr, rfl, rfl, hflight⟩⟩

/-- A deployment that no engine was ever asked for. -/
def unasked (key : String) : Table.Draft fun r : DeploymentRow => r.id where
  row := DeploymentCreateInput.row 0
    { organizationId := 1
      projectId := 0
      idempotencyKey := key
      requestedBy := 7
      status := .pending
      provider := "coolify"
      providerResourceId := none
      url := none
      failureReason := none
      kind := .production
      environmentId := none
      staged := false
      gitBranch := none
      gitCommit := none
      pullRequest := none
      previewKey := none
      gitRepository := none
      buildPack := none
      rootDirectory := none }
  keyed _ := rfl

/-- Two of them, a day later. -/
def twoStranded : World :=
  let w := World.initial 86400000 oneProject fun _ _ => true
  { w with store := { w.store with
      deployments := (w.store.deployments.insertNew (unasked "a")).insertNew (unasked "b") } }

/-- Nothing throws. -/
def calmSweep : Sweep := ⟨twoStranded, fun _ => building.oracle⟩

/-- The first row's first request is lost. -/
def stuckSweep : Sweep :=
  ⟨twoStranded, fun n => if n = 2 then { building.oracle with fault := .before "timeout" } else building.oracle⟩

theorem two_rows_kept_up :
    Prompt ⟨none, false⟩ {} twoStranded [calmSweep] :=
  sweeps_keep_up ⟨.refl _, rfl, trivial⟩ fun s hs => by
    rw [List.mem_singleton.mp hs]
    decide +kernel

/-- **One row's lost request costs the rows behind it their sweep.** -/
theorem second_row_left_out :
    ¬ ∀ (engines : Engines) (options : ReconcilerOptions) (w : World) (sweeps : List Sweep),
      Follow engines options w sweeps → Prompt engines options w sweeps := by
  intro h
  have hattempted := (h ⟨none, false⟩ {} twoStranded [stuckSweep] ⟨.refl _, rfl, trivial⟩).attempted
    stuckSweep List.mem_cons_self
  revert hattempted
  decide +kernel

end CloudWai.Deployment
