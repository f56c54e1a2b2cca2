import CloudWai.Deployment.Journey

/-!
# The automaton, read backwards

`Stage.move` says where a sight leads. The results about runs need the other
direction — how a thread came to be where it is, and who can have made a write —
and take it from two inversions, `writes_of_move` and `moves_of_move`.
-/

namespace CloudWai.Deployment

open Base Queue

/-- Who writes the row, what, and what that makes of them. -/
inductive Writes (p : DeploymentStatusInput) (answered : Bool) : Stage → Stage → Prop where
  | direct : Writes p answered .direct .direct
  | mark {org : OrganizationId} {ph : Phase} (horg : p.organizationId = org)
      (hmark : p.mark = true) (hsaid : ph.marks p) :
      Writes p answered (.delivering org ph) (.delivering org (if answered then ph else .broke))
  | settle {org : OrganizationId} {ph : Phase} (horg : p.organizationId = org)
      (hmark : p.mark = false) (hsaid : ph.allows p.status p.clean) :
      Writes p answered (.delivering org ph) (.afterWrite org p answered)
  | expire {options : ReconcilerOptions} {now : Instant} {row : DeploymentRow}
      (href : strandedRef row = none) (hold : ¬ young options now row)
      (hsaid : p = sweepPatch row (neverRecorded options row) now) :
      Writes p answered (.listed options now row) (.afterWrite row.organizationId p answered)
  | sweep {options : ReconcilerOptions} {now : Instant} {row : DeploymentRow}
      {answer : AdapterResult DeploymentState} {settled : Settled}
      (hverdict : verdict options now row answer = some settled)
      (hsaid : p = sweepPatch row settled now) :
      Writes p answered (.swept options now row answer) (.afterWrite row.organizationId p answered)
  | unreached {project : ProjectRow} {row : DeploymentRow} (hflight : row.status.InFlight)
      (hsaid : p.status.InFlight ∨ p.status = .failed ∧ given row.deploymentResourceId = none) :
      Writes p answered (.seen project row) .off
  | cancel {project : ProjectRow} {row : DeploymentRow} {answer : AdapterResult Unit}
      (hsaid : p.status.InFlight ∨ p.status = .failed ∧ answer.accepted) :
      Writes p answered (.asked project row answer) .off

/-- A stage that may write says what. -/
theorem writes_of_move {x x' : Stage} {p : DeploymentStatusInput} {answered : Bool}
    (h : x.move (.wrote p answered) = some x') : Writes p answered x x' := by
  cases x with
  | direct =>
    obtain rfl := Option.some.inj h
    exact .direct
  | delivering org ph =>
    simp only [Stage.move, Phase.move] at h
    split at h
    next horg =>
      split at h
      next hmark =>
        split at h
        next hsaid =>
          obtain rfl := Option.some.inj h
          exact .mark horg hmark hsaid
        next => cases h
      next hmark =>
        split at h
        next hsaid =>
          obtain rfl := Option.some.inj h
          exact .settle horg (Bool.eq_false_iff.mpr hmark) hsaid
        next => cases h
    next => cases h
  | listed options now row =>
    simp only [Stage.move] at h
    split at h
    next hsaid =>
      obtain rfl := Option.some.inj h
      exact .expire hsaid.1 hsaid.2.1 hsaid.2.2
    next => cases h
  | swept options now row answer =>
    simp only [Stage.move] at h
    split at h
    next hsaid =>
      obtain rfl := Option.some.inj h
      obtain ⟨settled, hverdict, hp⟩ := Option.map_eq_some_iff.mp hsaid
      exact .sweep hverdict hp.symm
    next => cases h
  | seen project row =>
    simp only [Stage.move] at h
    split at h
    next hsaid =>
      obtain rfl := Option.some.inj h
      exact .unreached hsaid.1 hsaid.2.2
    next => cases h
  | asked project row answer =>
    simp only [Stage.move] at h
    split at h
    next hsaid =>
      obtain rfl := Option.some.inj h
      exact .cancel hsaid.2
    next => cases h
  | _ => cases h

/-- What changes nothing but, for a delivery, its phase. -/
def Sight.Passing : Sight → Prop
  | .other _ => True
  | .dated _ => True
  | _ => False

/-- The moves of the automaton, one constructor for each kind. -/
inductive Moves : Stage → Sight → Stage → Prop where
  | direct {a : Sight} (h : ∀ input, a ≠ .created input) : Moves .direct a .direct
  | phase {org : OrganizationId} {ph : Phase} {a : Sight} {x' : Stage}
      (h : ph.move org a = some x') : Moves (.delivering org ph) a x'
  | billed {org : OrganizationId} : Moves (.owing org) (.billed org "deployments" 1) .off
  | unpaid {org : OrganizationId} : Moves (.owing org) (.other true) .off
  | claimed {org : OrganizationId} : Moves .idle (.claimed org) (.delivering org .claimed)
  | project {project : ProjectRow} : Moves .idle (.project project) (.knows project)
  | dated {options : ReconcilerOptions} {now : Instant} :
      Moves (.sweeping options) (.dated now) (.dated options now)
  | listed {options : ReconcilerOptions} {now : Instant} {row : DeploymentRow} :
      Moves (.dated options now) (.listed (some row)) (.listed options now row)
  | unlisted {options : ReconcilerOptions} {now : Instant} :
      Moves (.dated options now) (.listed none) .off
  | polled {options : ReconcilerOptions} {now : Instant} {row : DeploymentRow}
      {ref : ProviderRef} {answer : AdapterResult DeploymentState}
      (href : strandedRef row = some ref) :
      Moves (.listed options now row) (.polled ref answer) (.swept options now row answer)
  | created {project : ProjectRow} {input : DeploymentCreateInput}
      (horg : input.organizationId = project.organizationId) (hproject : input.projectId = project.id)
      (hstatus : input.status = .pending) :
      Moves (.knows project) (.created input) (.knows project)
  | looked {project : ProjectRow} {row : DeploymentRow} :
      Moves (.knows project) (.looked row) (.seen project row)
  | asked {project : ProjectRow} {row : DeploymentRow} {ref : ProviderRef}
      {answer : AdapterResult Unit} (hflight : row.status.InFlight)
      (href : given row.deploymentResourceId = some ref.resourceId) :
      Moves (.seen project row) (.cancelled ref answer) (.asked project row answer)
  | wrote {p : DeploymentStatusInput} {answered : Bool} {x x' : Stage}
      (h : Writes p answered x x') : Moves x (.wrote p answered) x'
  | passing {x : Stage} {a : Sight} (h : a.Passing) : Moves x a x
  | reread {org : OrganizationId} {stored : Option DeploymentRow} :
      Moves .off (.read org stored) .off
  | promoting {org o : OrganizationId} {stored : Option DeploymentRow} :
      Moves (.owing org) (.read o stored) (.owing org)
  | promoted {project : ProjectRow} {row : DeploymentRow} {org : OrganizationId}
      {stored : Option DeploymentRow} : Moves (.seen project row) (.read org stored) .off

/-- **Inversion.** -/
theorem moves_of_move {x x' : Stage} {a : Sight} (h : x.move a = some x') : Moves x a x' := by
  cases x with
  | direct => cases a <;> cases h <;> exact .direct fun _ ha => by cases ha
  | delivering org ph => exact .phase h
  | owing org =>
    cases a with
    | wrote p answered => exact .wrote (writes_of_move h)
    | other thrown =>
      cases thrown with
      | false =>
        cases h
        exact .passing trivial
      | true =>
        cases h
        exact .unpaid
    | billed o metric quantity =>
      simp only [Stage.move] at h
      split at h
      next hsaid =>
        obtain ⟨rfl, rfl, rfl⟩ := hsaid
        cases h
        exact .billed
      next => cases h
    | read o stored =>
      cases h
      exact .promoting
    | _ => cases h <;> exact .passing trivial
  | idle =>
    cases a with
    | claimed org =>
      cases h
      exact .claimed
    | project project =>
      cases h
      exact .project
    | _ => cases h <;> exact .passing trivial
  | sweeping options =>
    cases a with
    | dated now =>
      cases h
      exact .dated
    | _ => cases h <;> exact .passing trivial
  | dated options now =>
    cases a with
    | listed row =>
      cases row with
      | none =>
        cases h
        exact .unlisted
      | some row =>
        cases h
        exact .listed
    | _ => cases h <;> exact .passing trivial
  | listed options now row =>
    cases a with
    | wrote p answered => exact .wrote (writes_of_move h)
    | polled ref answer =>
      simp only [Stage.move] at h
      split at h
      next href =>
        cases h
        exact .polled href
      next => cases h
    | _ => cases h <;> exact .passing trivial
  | swept options now row answer =>
    cases a with
    | wrote p answered => exact .wrote (writes_of_move h)
    | _ => cases h <;> exact .passing trivial
  | knows project =>
    cases a with
    | created input =>
      simp only [Stage.move] at h
      split at h
      next hsaid =>
        cases h
        exact .created hsaid.1 hsaid.2.1 hsaid.2.2
      next => cases h
    | looked row =>
      cases h
      exact .looked
    | _ => cases h <;> exact .passing trivial
  | seen project row =>
    cases a with
    | wrote p answered => exact .wrote (writes_of_move h)
    | cancelled ref answer =>
      simp only [Stage.move] at h
      split at h
      next hsaid =>
        cases h
        exact .asked hsaid.1 hsaid.2
      next => cases h
    | read org stored =>
      cases h
      exact .promoted
    | _ => cases h <;> exact .passing trivial
  | asked project row answer =>
    cases a with
    | wrote p answered => exact .wrote (writes_of_move h)
    | _ => cases h <;> exact .passing trivial
  | off =>
    cases a with
    | read org stored =>
      cases h
      exact .reread
    | _ => cases h <;> exact .passing trivial

/-! ## What follows -/

theorem afterWrite_cases (org : OrganizationId) (p : DeploymentStatusInput) (answered : Bool) :
    Stage.afterWrite org p answered = .off ∨
      Stage.afterWrite org p answered = .owing org ∧ p.status = .succeeded ∧ p.clean = true ∧
        answered = true := by
  unfold Stage.afterWrite
  split
  next h => exact .inr ⟨rfl, h⟩
  next => exact .inl rfl

theorem afterWrite_ne_delivering {org o : OrganizationId} {p : DeploymentStatusInput}
    {answered : Bool} {ph : Phase} : Stage.afterWrite org p answered ≠ .delivering o ph := by
  rcases afterWrite_cases org p answered with h | ⟨h, _⟩
  all_goals
    rw [h]
    exact Stage.noConfusion

theorem afterWrite_ne_direct {org : OrganizationId} {p : DeploymentStatusInput}
    {answered : Bool} : Stage.afterWrite org p answered ≠ .direct := by
  rcases afterWrite_cases org p answered with h | ⟨h, _⟩
  all_goals
    rw [h]
    exact Stage.noConfusion

/-- The moves of a delivery that goes on. -/
inductive PhaseMoves (org : OrganizationId) : Phase → Sight → Phase → Prop where
  | broke {ph : Phase} : PhaseMoves org ph (.other true) .broke
  | other {ph : Phase} : PhaseMoves org ph (.other false) ph
  | dated {ph : Phase} {now : Instant} : PhaseMoves org ph (.dated now) ph
  | resuming {stored : Option DeploymentRow} {row : DeploymentRow} {handle : String}
      (h : inFlightHandle stored = some (row, handle)) :
      PhaseMoves org .claimed (.read org stored) (.resuming handle)
  | free {stored : Option DeploymentRow} (h : inFlightHandle stored = none) :
      PhaseMoves org .claimed (.read org stored) .fresh
  | ensured {status : EngineStatus} {ref : ProviderRef} :
      PhaseMoves org .fresh (.ensured (.ok status ref)) .fresh
  | refused {status : EngineStatus} {reason : String} :
      PhaseMoves org .fresh (.ensured (.err status reason)) (.refused status)
  | built {r : Except String (AdapterResult ProviderRef)} :
      PhaseMoves org .fresh (.built r) (Phase.afterBuild r)
  | resumed {ref : ProviderRef} {answer : AdapterResult DeploymentState} :
      PhaseMoves org (.resuming ref.resourceId) (.polled ref answer)
        (.resumed ref.resourceId answer)
  | confirmed {handle : Option String} {status : EngineStatus} {ref : ProviderRef}
      {answer : AdapterResult DeploymentState} (h : handle = none ∨ handle = some ref.resourceId) :
      PhaseMoves org (.accepted handle status) (.polled ref answer) (.confirmed handle status answer)
  | marked {ph : Phase} {p : DeploymentStatusInput} (horg : p.organizationId = org)
      (hmark : p.mark = true) (hsaid : ph.marks p) : PhaseMoves org ph (.wrote p true) ph
  | unmarked {ph : Phase} {p : DeploymentStatusInput} (horg : p.organizationId = org)
      (hmark : p.mark = true) (hsaid : ph.marks p) : PhaseMoves org ph (.wrote p false) .broke

/-- A delivery goes on, or it settles the row. -/
theorem phase_move_cases {org : OrganizationId} {ph : Phase} {a : Sight} {x' : Stage}
    (h : ph.move org a = some x') :
    (∃ ph', x' = .delivering org ph' ∧ PhaseMoves org ph a ph') ∨
      ∃ p answered, a = .wrote p answered ∧ x' = .afterWrite org p answered := by
  cases a with
  | wrote p answered =>
    have hw : Writes p answered (.delivering org ph) x' := writes_of_move h
    cases hw with
    | mark horg hmark hsaid =>
      cases answered with
      | true => exact .inl ⟨ph, rfl, .marked horg hmark hsaid⟩
      | false => exact .inl ⟨.broke, rfl, .unmarked horg hmark hsaid⟩
    | settle => exact .inr ⟨p, answered, rfl, rfl⟩
  | other thrown =>
    cases thrown with
    | true => exact .inl ⟨_, (Option.some.inj h).symm, .broke⟩
    | false => exact .inl ⟨_, (Option.some.inj h).symm, .other⟩
  | dated now => exact .inl ⟨_, (Option.some.inj h).symm, .dated⟩
  | read o stored =>
    simp only [Phase.move] at h
    split at h
    next hclaimed =>
      obtain ⟨rfl, rfl⟩ := hclaimed
      split at h
      next hsome => exact .inl ⟨_, (Option.some.inj h).symm, .resuming hsome⟩
      next hnone => exact .inl ⟨_, (Option.some.inj h).symm, .free hnone⟩
    next => cases h
  | ensured answer =>
    simp only [Phase.move] at h
    split at h
    next hfresh =>
      subst hfresh
      cases answer with
      | ok status ref => exact .inl ⟨_, (Option.some.inj h).symm, .ensured⟩
      | err status reason => exact .inl ⟨_, (Option.some.inj h).symm, .refused⟩
    next => cases h
  | built r =>
    simp only [Phase.move] at h
    split at h
    next hfresh =>
      subst hfresh
      exact .inl ⟨_, (Option.some.inj h).symm, .built⟩
    next => cases h
  | polled ref answer =>
    simp only [Phase.move] at h
    split at h
    · split at h
      next hhandle =>
        subst hhandle
        exact .inl ⟨_, (Option.some.inj h).symm, .resumed⟩
      next => cases h
    · split at h
      next hhandle => exact .inl ⟨_, (Option.some.inj h).symm, .confirmed hhandle⟩
      next => cases h
    · cases h
  | _ => cases h

/-- No stage leads to a bare store call. -/
theorem direct_of_move {x : Stage} {a : Sight} (h : x.move a = some .direct) : x = .direct := by
  generalize hx' : Stage.direct = x' at h
  cases moves_of_move h with
  | direct => rfl
  | phase hph =>
    subst hx'
    rcases phase_move_cases hph with ⟨_, hph, _⟩ | ⟨p, answered, _, hafter⟩
    · cases hph
    · exact absurd hafter.symm afterWrite_ne_direct
  | passing => exact hx'.symm ▸ rfl
  | wrote hw =>
    cases hw with
    | direct => rfl
    | settle => exact absurd hx'.symm afterWrite_ne_direct
    | expire => exact absurd hx'.symm afterWrite_ne_direct
    | sweep => exact absurd hx'.symm afterWrite_ne_direct
    | _ => cases hx'
  | _ => cases hx'

/-- A delivery was one before, or its job has just been claimed. -/
theorem delivering_of_move {x : Stage} {a : Sight} {org : OrganizationId} {ph' : Phase}
    (h : x.move a = some (.delivering org ph')) :
    (∃ ph, x = .delivering org ph ∧ PhaseMoves org ph a ph') ∨
      x = .idle ∧ a = .claimed org ∧ ph' = .claimed := by
  have hdelivery : ∀ {o : OrganizationId} {ph : Phase}, x = .delivering o ph →
      ph.move o a = some (.delivering org ph') →
      ∃ ph, x = .delivering org ph ∧ PhaseMoves org ph a ph' := by
    intro o ph hx hph
    rcases phase_move_cases hph with ⟨ph'', heq, hmoves⟩ | ⟨p, answered, _, hafter⟩
    · obtain ⟨rfl, rfl⟩ := Stage.delivering.inj heq
      exact ⟨ph, hx, hmoves⟩
    · exact absurd hafter.symm afterWrite_ne_delivering
  generalize hx' : Stage.delivering org ph' = x' at h
  cases moves_of_move h with
  | phase hph =>
    subst hx'
    exact .inl (hdelivery rfl hph)
  | claimed =>
    cases hx'
    exact .inr ⟨rfl, rfl, rfl⟩
  | passing ha =>
    subst hx'
    exact .inl (hdelivery rfl h)
  | wrote hw =>
    subst hx'
    generalize hx' : Stage.delivering org ph' = x' at hw
    cases hw with
    | mark => exact .inl (hdelivery rfl h)
    | settle => exact absurd hx'.symm afterWrite_ne_delivering
    | expire => exact absurd hx'.symm afterWrite_ne_delivering
    | sweep => exact absurd hx'.symm afterWrite_ne_delivering
    | _ => cases hx'
  | _ => cases hx'

/-- A build-starting call is made by a fresh delivery. -/
theorem built_of_move {x x' : Stage} {r : Except String (AdapterResult ProviderRef)}
    (h : x.move (.built r) = some x') :
    x = .direct ∨ ∃ org, x = .delivering org .fresh ∧ x' = .delivering org (Phase.afterBuild r) := by
  cases moves_of_move h with
  | direct => exact .inl rfl
  | phase hph =>
    simp only [Phase.move] at hph
    split at hph
    next hfresh =>
      subst hfresh
      exact .inr ⟨_, rfl, (Option.some.inj hph).symm⟩
    next => cases hph
  | passing ha => exact ha.elim

/-- A build starts nothing fresh. -/
theorem afterBuild_ne_fresh {r : Except String (AdapterResult ProviderRef)} :
    Phase.afterBuild r ≠ .fresh := by
  unfold Phase.afterBuild
  split <;> exact Phase.noConfusion

/-- A delivery becomes free to build by the read that found nothing to resume. -/
theorem fresh_of_move {x : Stage} {a : Sight} {org : OrganizationId}
    (h : x.move a = some (.delivering org .fresh)) :
    x = .delivering org .fresh ∨
      x = .delivering org .claimed ∧
        ∃ stored, a = .read org stored ∧ inFlightHandle stored = none := by
  rcases delivering_of_move h with ⟨ph, rfl, hph⟩ | ⟨_, _, hclaimed⟩
  · generalize hfresh : Phase.fresh = ph' at hph
    cases hph with
    | free hnone => exact .inr ⟨rfl, _, rfl, hnone⟩
    | built => exact absurd hfresh.symm afterBuild_ne_fresh
    | _ => cases hfresh <;> exact .inl rfl
  · cases hclaimed

/-- What a delivery holds as accepted, a build-starting call was answered. -/
theorem accepted_of_move {x : Stage} {a : Sight} {org : OrganizationId} {handle : Option String}
    {status : EngineStatus} (h : x.move a = some (.delivering org (.accepted handle status))) :
    x = .delivering org (.accepted handle status) ∨
      ∃ r, a = .built r ∧ Phase.afterBuild r = .accepted handle status := by
  rcases delivering_of_move h with ⟨ph, rfl, hph⟩ | ⟨_, _, hclaimed⟩
  · generalize haccepted : Phase.accepted handle status = ph' at hph
    cases hph with
    | built => exact .inr ⟨_, rfl, haccepted.symm ▸ rfl⟩
    | _ => cases haccepted <;> exact .inl rfl
  · cases hclaimed

/-- A thread that knows a project has read it. -/
theorem knows_of_move {x : Stage} {a : Sight} {project : ProjectRow}
    (h : x.move a = some (.knows project)) : x = .knows project ∨ a = .project project := by
  have hafter : ∀ {org p answered}, Stage.knows project ≠ Stage.afterWrite org p answered := by
    intro org p answered heq
    rcases afterWrite_cases org p answered with hoff | ⟨howing, _⟩
    · rw [hoff] at heq
      cases heq
    · rw [howing] at heq
      cases heq
  generalize hx' : Stage.knows project = x' at h hafter
  cases moves_of_move h with
  | phase hph =>
    rcases phase_move_cases hph with ⟨_, rfl, _⟩ | ⟨p, answered, _, rfl⟩
    · cases hx'
    · exact absurd rfl hafter
  | project =>
    cases hx'
    exact .inr rfl
  | created =>
    cases hx'
    exact .inl rfl
  | passing => exact .inl rfl
  | wrote hw =>
    cases hw with
    | settle => exact absurd rfl hafter
    | expire => exact absurd rfl hafter
    | sweep => exact absurd rfl hafter
    | _ => cases hx'
  | _ => cases hx'

/-- Usage is recorded by a thread that owes it. -/
theorem billed_of_move {x x' : Stage} {o : OrganizationId} {metric : String} {quantity : Nat}
    (h : x.move (.billed o metric quantity) = some x') :
    x = .direct ∨ x = .owing o ∧ metric = "deployments" ∧ quantity = 1 ∧ x' = .off := by
  cases moves_of_move h with
  | direct => exact .inl rfl
  | phase hph => cases hph
  | billed => exact .inr ⟨rfl, rfl, rfl, rfl⟩
  | passing ha => exact ha.elim

/-! ## Open threads -/

/-- A thread whose next write may settle the row: it holds a copy of it, or the
row's job. -/
def Stage.Open : Stage → Prop
  | .delivering _ _ => True
  | .listed _ _ _ => True
  | .swept _ _ _ _ => True
  | .seen _ row => row.status.InFlight
  | .asked _ _ _ => True
  | _ => False

instance (x : Stage) : Decidable x.Open := by
  unfold Stage.Open
  split <;> infer_instance

/-- What opens a thread. -/
def Sight.Opens : Sight → Prop
  | .claimed _ => True
  | .listed (some _) => True
  | .looked row => row.status.InFlight
  | _ => False

theorem opens_of_move {x x' : Stage} {a : Sight} (h : x.move a = some x') (hx' : x'.Open) :
    x.Open ∨ a.Opens := by
  cases moves_of_move h with
  | direct => exact hx'.elim
  | phase hph => exact .inl trivial
  | claimed => exact .inr trivial
  | listed => exact .inr trivial
  | polled href => exact .inl trivial
  | looked => exact .inr hx'
  | asked hflight href => exact .inl hflight
  | passing ha => exact .inl hx'
  | wrote hw =>
    cases hw with
    | direct => exact hx'.elim
    | unreached hflight => exact .inl hflight
    | _ => exact .inl trivial
  | _ => exact hx'.elim

/-- Only an open thread writes the row. -/
theorem Writes.isOpen {p : DeploymentStatusInput} {answered : Bool} {x x' : Stage}
    (h : Writes p answered x x') : x = .direct ∨ x.Open := by
  cases h with
  | direct => exact .inl rfl
  | unreached hflight => exact .inr hflight
  | _ => exact .inr trivial

end CloudWai.Deployment
