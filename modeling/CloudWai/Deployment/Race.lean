import CloudWai.Deployment.Orders

/-!
# Requests that race

Two requests for one deployment, or two deliveries for one preview, each look for the
row (the preview target) and make it if it is not there. The unique keys of the database
let one of them make it. The other is not shown the row that is there: its insert is
refused, and the refusal is what its caller is answered.

The plane runs here with every task's outcome recorded. `oneOfEach_of_unraced` is the
condition under which callers get what the unique keys are for: no insert of a row or of
a preview target comes when it is there already.

About `requestDeployment` in `apps/api/src/procedures/deployments.ts` and
`deployFromDelivery` in `apps/api/src/git-hook.ts`; the unique keys are those of
migrations 0001 and 0011.
-/

namespace CloudWai.Deployment

open Base Queue ControlPlaneStore

variable {engines : Engines} {α : Type}

/-! ## The plane, with its answers -/

/-- What a task ends with. -/
inductive Outcome where
  | deployment (result : DeploymentRequestResult)
  | delivery (outcome : GitHookOutcome)
  | other

/-- A task, for what it answers. -/
def Task.outcome (engines : Engines) : Task → PlaneProg Outcome
  | .request ctx input => (requestDeployment ctx input).bind fun r => .ret (.deployment r)
  | .rollback ctx project key commit =>
    (rollbackDeployment ctx project key commit).bind fun r => .ret (.deployment r)
  | .hook link delivery => (deployFromDelivery link delivery).bind fun r => .ret (.delivery r)
  | t => (t.body engines).bind fun _ => .ret .other

/-- Who is answered, and what. -/
abbrev Reply := Task × Except String Outcome

def RaceAns : Call ⊕ Reply → Type
  | .inl c => c.Ans
  | .inr _ => Unit

/-- A call of the plane, where no request is lost, or an answer. -/
def World.respond (engines : Engines) (w : World) (o : Oracle) :
    (c : Call ⊕ Reply) → Except String (RaceAns c) × World
  | .inl c => w.perform engines { o with fault := .none } c
  | .inr _ => (.ok (), w)

/-- The answer is sent. -/
def answer (reply : Reply) : Prog (Call ⊕ Reply) RaceAns String Unit :=
  Prog.call (Sum.inr reply : Call ⊕ Reply)

/-- Run the task, and answer. -/
def Task.answered (engines : Engines) (t : Task) : Prog (Call ⊕ Reply) RaceAns String Unit :=
  ((t.outcome engines).attempt.embed Sum.inl fun _ a => a).bind fun r => answer (t, r)

/-- The control plane with its answers recorded. -/
def raceHost (engines : Engines) :
    Host World Oracle Drift Task (Call ⊕ Reply) RaceAns String where
  perform := World.respond engines
  drift := World.drift
  body := Task.answered engines

/-- A world with the callers that race in it. -/
abbrev RaceSys := Sys World Task (Call ⊕ Reply) RaceAns String

/-! ## Callers -/

/-- What a caller wants one of. -/
structure Asked where
  key : String
  previewKey : Option String
deriving DecidableEq

/-- The callers are the requests and the deliveries. -/
def Task.asks : Task → Option Asked
  | .request _ input => some ⟨input.idempotencyKey, input.previewKey⟩
  | .rollback _ _ key _ => some ⟨key, none⟩
  | .hook link delivery => some ⟨delivery.idempotencyKey link, delivery.previewKey link⟩
  | _ => none

section Callers

variable (org : OrganizationId) (project : ProjectId)
  (members : OrganizationId → UserId → Bool)

/-- It is about this project, and nothing it is checked for is against it. -/
def Task.Admitted : Task → Prop
  | .request ctx input => input.projectId = project ∧ members org ctx.userId = true ∧
      ctx.refusal org .create = none ∧ ¬ (input.staged = true ∧ input.kind = .preview)
  | .rollback ctx id _ _ => id = project ∧ members org ctx.userId = true ∧
      ctx.refusal org .rollback = none
  | .hook link delivery => link.organizationId = org ∧ link.projectId = project ∧
      ¬ (delivery.branch = none ∧ delivery.pullRequest = none) ∧
      ¬ (delivery.kind link = .preview ∧ link.previewsEnabled = false) ∧
      (cloneUrlFor link.provider link.repository).isSome
  | _ => True

instance (t : Task) : Decidable (t.Admitted org project members) := by
  unfold Task.Admitted
  split <;> infer_instance

/-! ## Where a caller stands -/

/-- How far a caller is with its row, its target and its job. -/
inductive Standing where
  /-- Not a caller. -/
  | aside
  | entering (a : Asked)
  /-- The row is there; the thread still has to make its target, its job. -/
  | holds (a : Asked) (row : DeploymentId) (target job : Bool)
  /-- It was refused. -/
  | outside
  | over
deriving DecidableEq

/-- A makes-something call, other than of a caller. -/
def Founds : Call → Prop
  | .store (.insertDeployment _) => True
  | .store (.insertPreviewTarget ..) => True
  | .queue (.insert _) => True
  | _ => False

instance (c : Call) : Decidable (Founds c) := by
  rcases c with (_ | _) | (_ | _) | _ <;> first | exact isTrue trivial | exact isFalse id

/-- On, if what was read is good. -/
def onIf (good : Bool) (x : Standing) : Option Standing := some (if good then x else .outside)

/-- The project that was read. -/
def thisProject : Except String (Option ProjectRow) → Bool
  | .ok (some p) => p.id == project && p.organizationId == org
  | _ => false

/-- The row that was looked for. -/
def Standing.afterLook (a : Asked) : Except String (Option DeploymentRow) → Standing
  | .ok none => .entering a
  | .ok (some row) => if row.projectId = project then .holds a row.id false false else .outside
  | .error _ => .outside

/-- The row that was made. -/
def Standing.afterInsert (a : Asked) : Except String DeploymentRow → Standing
  | .ok row => .holds a row.id a.previewKey.isSome true
  | .error _ => .outside

/-- Before the row is there. -/
def Standing.afterEntering (a : Asked) : (c : Call) → Except String c.Ans → Option Standing
  | .store (.selectProjectOfMember user id), r =>
    if id = project ∧ members org user = true then
      onIf (thisProject org project r) (.entering a) else none
  | .store (.selectProject o id), r =>
    if o = org ∧ id = project then onIf (thisProject org project r) (.entering a) else none
  | .store (.selectDeploymentByKey user o key), r =>
    if o = org ∧ key = a.key ∧ members org user = true then some (afterLook project a r) else none
  | .store (.selectDeploymentByKeyForService o key), r =>
    if o = org ∧ key = a.key then some (afterLook project a r) else none
  | .store (.hardCapRefusal ..), r => onIf (r matches .ok none) (.entering a)
  | .store (.selectEnvironments ..), r => onIf (!threw r) (.entering a)
  | .store (.selectEnvironmentsForService ..), r => onIf (!threw r) (.entering a)
  | .store (.insertDeployment input), r =>
    if input.organizationId = org ∧ input.idempotencyKey = a.key ∧ input.projectId = project ∧
        input.previewKey = a.previewKey then some (afterInsert a r) else none
  | _, _ => none

/-- The preview target that was looked for. -/
def Standing.afterTarget (a : Asked) (row : DeploymentId) (job : Bool) :
    Except String (Option PreviewTargetRow) → Standing
  | .ok found => .holds a row found.isNone job
  | .error _ => .outside

/-- From then on. -/
def Standing.afterHolds (a : Asked) (row : DeploymentId) (target job : Bool) :
    (c : Call) → Except String c.Ans → Option Standing
  | .store (.selectPreviewTarget o id key), r =>
    if target = true ∧ o = org ∧ id = project ∧ a.previewKey = some key then
      some (afterTarget a row job r) else none
  | .store (.insertPreviewTarget o id key _ _), r =>
    if target = true ∧ o = org ∧ id = project ∧ a.previewKey = some key then
      onIf (!threw r) (.holds a row false job) else none
  | .queue (.insert n), r =>
    if target = false ∧ job = true ∧ JobOf row org a.key n then
      onIf (r matches .ok (_ :: _)) (.holds a row false false) else none
  | .store (.selectTargetOfMember ..), r => onIf (!threw r) (.holds a row target job)
  | .store (.insertAudit _), r => onIf (!threw r) (.holds a row target job)
  | _, _ => none

/-- How far the caller is after a call; what it may not do is `none`. -/
def Standing.next (x : Standing) (c : Call) (r : Except String c.Ans) : Option Standing :=
  match x with
  | .aside => if Founds c then none else some .aside
  | .entering a => afterEntering org project members a c r
  | .holds a row target job => afterHolds org project a row target job c r
  | .outside => some .outside
  | .over => none

/-- The answer is the row. -/
def Names (row : DeploymentId) : Except String Outcome → Prop
  | .ok (.deployment result) => result.deployment.id = row
  | .ok (.delivery outcome) =>
    outcome.ok = true ∧ (outcome.reason = none ∨ outcome.reason = some "replayed")
  | _ => False

instance (row : DeploymentId) (r : Except String Outcome) : Decidable (Names row r) := by
  unfold Names
  split <;> infer_instance

/-- A caller is answered once its row has all it should. -/
def Standing.afterReply (x : Standing) (reply : Reply) : Option Standing :=
  match x with
  | .aside => if reply.1.asks = none then some .over else none
  | .holds a row false false =>
    if reply.1.asks = some a ∧ Names row reply.2 then some .over else none
  | .outside => some .outside
  | _ => none

/-- The plane's own calls. -/
def standingProtocol : Protocol Call Call.Ans String Standing where
  next := Standing.next org project members
  Possible _ _ := True

/-- Look, make what is not there, answer. -/
def raceProtocol : Protocol (Call ⊕ Reply) RaceAns String Standing where
  next
    | x, .inl c, r => x.next org project members c r
    | x, .inr reply, _ => x.afterReply reply
  Possible _ _ := True

/-- Where a task starts. -/
def Standing.first (t : Task) : Standing :=
  match t.asks with
  | none => .aside
  | some a => if t.Admitted org project members then .entering a else .outside

/-- What every task follows, whoever is let in. -/
def raceDuty : Duty Task (Call ⊕ Reply) RaceAns String Standing where
  protocol := raceProtocol org project members
  first := Standing.first org project members
  ends _ _ x := x = .over ∨ x = .outside

end Callers

/-! ## Callers follow it -/

/-- Refused, or ended as `P` says. -/
def Good (P : α → Standing → Prop) (r : Except String α) (x : Standing) : Prop :=
  x = .outside ∨ ∃ v, r = .ok v ∧ P v x

section Heads

variable (org : OrganizationId) (project : ProjectId) (members : OrganizationId → UserId → Bool)

/-- It follows the protocol, and ends as `P` says unless it was refused. -/
def Heads (P : α → Standing → Prop) (x : Standing) (p : PlaneProg α) : Prop :=
  (standingProtocol org project members).Follows (Good P) x p

variable {org project members} {a : Asked} {x : Standing} {P : α → Standing → Prop}

theorem heads_outside (p : PlaneProg α) : Heads org project members P .outside p := by
  induction p with
  | ret v => exact .inl rfl
  | raise e => exact .inl rfl
  | await c k ih => exact fun r _ => ⟨.outside, rfl, ih r⟩

theorem heads_ret {v : α} (h : P v x) : Heads org project members P x (.ret v) := .inr ⟨v, rfl, h⟩

/-- **Sequencing rule.** -/
theorem heads_bind {β : Type} {R : β → Standing → Prop} {p : PlaneProg α} {f : α → PlaneProg β}
    (hp : Heads org project members P x p)
    (hf : ∀ v y, P v y → Heads org project members R y (f v)) :
    Heads org project members R x (p.bind f) := by
  refine Protocol.follows_bind hp (fun v y hy => ?_) fun e y hy => ?_
  · rcases hy with rfl | ⟨w, hw, hP⟩
    · exact heads_outside _
    · cases hw
      exact hf v y hP
  · rcases hy with rfl | ⟨w, hw, _⟩
    · exact .inl rfl
    · cases hw

/-- A request of the database. -/
theorem heads_must {op : String} {c : StoreCall} {P : c.Ans → Standing → Prop}
    (h : ∀ r, ∃ y, x.next org project members (.store c) r = some y ∧ Good P r y) :
    Heads org project members P x (must op c) := by
  intro r _
  obtain ⟨y, hnext, hgood⟩ := h r
  refine ⟨y, hnext, ?_⟩
  cases r with
  | ok v => exact hgood
  | error reason =>
    rcases hgood with rfl | ⟨v, hv, _⟩
    · exact .inl rfl
    · cases hv

/-! ### What they ask -/

/-- The project was read, and is this one. -/
def ReadProject (org : OrganizationId) (project : ProjectId) (a : Asked)
    (found : Option ProjectRow) (y : Standing) : Prop :=
  y = .entering a ∧ ∃ p, found = some p ∧ p.id = project ∧ p.organizationId = org

theorem good_thisProject (r : Except String (Option ProjectRow)) :
    Good (ReadProject org project a) r
      (if thisProject org project r then .entering a else .outside) := by
  by_cases hthis : thisProject org project r = true
  · rw [if_pos hthis]
    unfold thisProject at hthis
    split at hthis
    next p =>
      rw [Bool.and_eq_true, beq_iff_eq, beq_iff_eq] at hthis
      exact .inr ⟨_, rfl, rfl, p, rfl, hthis⟩
    next => cases hthis
  · rw [if_neg hthis]
    exact .inl rfl

theorem heads_authorizedProject {ctx : RequestContext} {c : Capability}
    (hmember : members org ctx.userId = true) (hallowed : ctx.refusal org c = none) :
    Heads org project members
      (fun p y => y = .entering a ∧ p.id = project ∧ p.organizationId = org) (.entering a)
      (authorizedProject ctx project c) := by
  refine heads_bind (heads_must (c := .selectProjectOfMember ctx.userId project)
    (P := ReadProject org project a) fun r => ⟨_, if_pos ⟨rfl, hmember⟩, good_thisProject r⟩) ?_
  rintro found y ⟨rfl, p, rfl, rfl, rfl⟩
  simp only [requireCapability, hallowed]
  exact heads_ret ⟨rfl, rfl, rfl⟩

/-- The look for the row: it is found, or the caller goes on to make it. -/
theorem heads_replayOf {ctx : RequestContext} {p : ProjectRow} {key : String}
    (hmember : members org ctx.userId = true) (hproject : p.id = project)
    (horg : p.organizationId = org) (hkey : key = a.key) :
    Heads org project members
      (fun found y => match found with
        | none => y = .entering a
        | some result => y = .holds a result.deployment.id false false) (.entering a)
      (replayOf ctx p key) := by
  refine heads_bind (heads_must
    (c := .selectDeploymentByKey ctx.userId p.organizationId key)
    (P := fun found y => y = Standing.afterLook project a (.ok found))
    fun r => ⟨_, if_pos ⟨horg, hkey, hmember⟩, ?_⟩) ?_
  · cases r with
    | ok found => exact .inr ⟨found, rfl, rfl⟩
    | error e => exact .inl rfl
  · rintro found y rfl
    cases found with
    | none => exact heads_ret rfl
    | some row =>
      subst hproject
      have hlook : Standing.afterLook p.id a (.ok (some row)) =
          if row.projectId = p.id then .holds a row.id false false else .outside := rfl
      rw [hlook]
      by_cases hthis : row.projectId = p.id
      · simp only [hthis, if_true]
        exact heads_ret rfl
      · simp only [hthis, if_false]
        exact heads_outside _

theorem heads_budget {op metric : String} :
    Heads org project members (fun (found : Option String) y => found = none ∧ y = .entering a)
      (.entering a) (must op (.hardCapRefusal org metric)) := by
  refine heads_must fun r => ?_
  rcases r with e | found
  · exact ⟨.outside, rfl, .inl rfl⟩
  · cases found with
    | none => exact ⟨_, rfl, .inr ⟨none, rfl, rfl, rfl⟩⟩
    | some refusal => exact ⟨.outside, rfl, .inl rfl⟩

theorem heads_assertWithinBudget {metric : String} :
    Heads org project members (fun _ y => y = .entering a) (.entering a)
      (assertWithinBudget org metric) := by
  refine heads_bind heads_budget ?_
  rintro found y ⟨rfl, rfl⟩
  exact heads_ret rfl

/-- A question whose answer makes no difference. -/
theorem heads_answered {op : String} {c : StoreCall}
    (h : ∀ r, x.next org project members (.store c) r = onIf (!threw r) x) :
    Heads org project members (fun _ y => y = x) x (must op c) := by
  refine heads_must fun r => ⟨_, h r, ?_⟩
  cases r with
  | ok v => exact .inr ⟨v, rfl, rfl⟩
  | error e => exact .inl rfl

theorem heads_environmentIdFor {user : UserId} {id : ProjectId} {kind : DeploymentKind} :
    Heads org project members (fun _ y => y = .entering a) (.entering a)
      (environmentIdFor user id kind) := by
  refine heads_bind (heads_answered fun _ => rfl) ?_
  rintro found y rfl
  exact heads_ret rfl

theorem heads_createDeployment {input : DeploymentCreateInput} (horg : input.organizationId = org)
    (hkey : input.idempotencyKey = a.key) (hproject : input.projectId = project)
    (hpreview : input.previewKey = a.previewKey) :
    Heads org project members (fun row y => y = .holds a row.id a.previewKey.isSome true)
      (.entering a) (createDeployment input) := by
  refine heads_must fun r => ⟨_, if_pos ⟨horg, hkey, hproject, hpreview⟩, ?_⟩
  cases r with
  | ok row => exact .inr ⟨row, rfl, rfl⟩
  | error e => exact .inl rfl

/-! ### Once the row is there -/

variable {row : DeploymentId}

theorem heads_ensurePreviewTarget {key : String} {branch : Option String}
    {pullRequest : Option Nat} (hkey : a.previewKey = some key) :
    Heads org project members (fun _ y => y = .holds a row false true) (.holds a row true true)
      (ensurePreviewTarget org project key branch pullRequest) := by
  refine heads_bind (heads_must (P := fun found y => y = .holds a row (Option.isNone found) true)
    fun r => ⟨_, if_pos ⟨rfl, rfl, rfl, hkey⟩, ?_⟩) ?_
  · cases r with
    | ok found => exact .inr ⟨found, rfl, rfl⟩
    | error e => exact .inl rfl
  · rintro found y rfl
    cases found with
    | some target => exact heads_ret rfl
    | none =>
      refine heads_must fun r => ⟨_, if_pos ⟨rfl, rfl, rfl, hkey⟩, ?_⟩
      cases r with
      | ok v => exact .inr ⟨v, rfl, rfl⟩
      | error e => exact .inl rfl

/-- The enqueue of the row's job. -/
theorem heads_enqueue {input : EnqueueInput DeploymentJobPayload}
    (hpayload : input.payload.deploymentId = row) (horg : input.organizationId = org)
    (hkind : input.kind = deploymentJobKind) (hkey : input.idempotencyKey = a.key)
    (hmax : input.maxAttempts = none) :
    Heads org project members (fun _ y => y = .holds a row false false) (.holds a row false true)
      (onQueue (SqlJobQueue.enqueue input)) := by
  unfold SqlJobQueue.enqueue
  rw [onQueue_bind]
  have hattempts : IsAttempts (input.maxAttempts.getD SqlJobQueue.defaultMaxAttempts) := by
    rw [hmax]
    exact SqlJobQueue.isAttempts_default
  intro r _
  refine ⟨_, if_pos ⟨rfl, rfl, hpayload, horg, hkind, hkey, hattempts⟩, ?_⟩
  cases r with
  | error e => exact .inl rfl
  | ok inserted =>
    cases inserted with
    | nil => exact heads_outside _
    | cons job rest => exact heads_ret rfl

theorem heads_recorded {event : AuditEvent} {target job : Bool} :
    Heads org project members (fun _ y => y = .holds a row target job) (.holds a row target job)
      (recordAuditEvent event) := heads_answered fun _ => rfl

theorem heads_dispatch {ctx : RequestContext} {event : String} {payload : DeploymentJobPayload}
    (hpayload : payload.deploymentId = row) (horg : payload.organizationId = org) :
    Heads org project members (fun _ y => y = .holds a row false false) (.holds a row false true)
      (dispatch ctx event a.key payload) := by
  refine heads_bind (heads_enqueue hpayload horg rfl rfl rfl) ?_
  rintro job y rfl
  exact heads_recorded

/-! ### Whole requests -/

/-- The caller's row is in order, and the caller is told it. -/
def Told (a : Asked) (outcome : Outcome) (x : Standing) : Prop :=
  ∃ row, x = .holds a row false false ∧ Names row (.ok outcome)

/-- A request for a deployment. -/
theorem heads_request {ctx : RequestContext} {input : RequestInput}
    (h : (Task.request ctx input).Admitted org project members)
    (hkey : input.idempotencyKey = a.key) (hpreview : input.previewKey = a.previewKey) :
    Heads org project members (Told a) (.entering a)
      ((Task.request ctx input).outcome engines) := by
  obtain ⟨hproject, hmember, hallowed, hstaged⟩ := h
  refine heads_bind (P := fun result y => y = .holds a result.deployment.id false false) ?_ ?_
  · unfold requestDeployment
    rw [hproject]
    refine heads_bind (heads_authorizedProject hmember hallowed) ?_
    rintro p y ⟨rfl, hp, horg⟩
    simp only [if_neg hstaged]
    refine heads_bind (heads_replayOf hmember hp horg hkey) fun found y hfound => ?_
    cases found with
    | some result =>
      obtain rfl : y = .holds a result.deployment.id false false := hfound
      exact heads_ret rfl
    | none =>
      obtain rfl : y = .entering a := hfound
      rw [horg]
      refine heads_bind heads_assertWithinBudget ?_
      rintro _ y rfl
      refine heads_bind heads_environmentIdFor ?_
      rintro environmentId y rfl
      refine heads_bind (heads_createDeployment horg hkey hp hpreview) ?_
      rintro row y rfl
      refine heads_bind (P := fun _ y => y = .holds a row.id false true) ?_ ?_
      · unfold recordPreviewTarget
        rw [← hpreview]
        split
        next hnone =>
          rw [hnone]
          exact heads_ret rfl
        next key hsome =>
          rw [hsome, hp]
          exact heads_ensurePreviewTarget (hpreview.symm.trans hsome)
      · rintro _ y rfl
        rw [hkey]
        refine heads_bind (heads_dispatch rfl rfl) ?_
        rintro _ y rfl
        exact heads_ret rfl
  · rintro result y rfl
    exact heads_ret ⟨_, rfl, rfl⟩

/-- A rollback. -/
theorem heads_rollback {ctx : RequestContext} {id : ProjectId} {key commit : String}
    (h : (Task.rollback ctx id key commit).Admitted org project members)
    (hkey : key = a.key) (hpreview : a.previewKey = none) :
    Heads org project members (Told a) (.entering a)
      ((Task.rollback ctx id key commit).outcome engines) := by
  obtain ⟨hproject, hmember, hallowed⟩ := h
  refine heads_bind (P := fun result y => y = .holds a result.deployment.id false false) ?_ ?_
  · unfold rollbackDeployment
    rw [hproject]
    refine heads_bind (heads_authorizedProject hmember hallowed) ?_
    rintro p y ⟨rfl, hp, horg⟩
    refine heads_bind (heads_replayOf hmember hp horg hkey) fun found y hfound => ?_
    cases found with
    | some result =>
      obtain rfl : y = .holds a result.deployment.id false false := hfound
      exact heads_ret rfl
    | none =>
      obtain rfl : y = .entering a := hfound
      rw [horg]
      refine heads_bind heads_assertWithinBudget ?_
      rintro _ y rfl
      refine heads_bind heads_environmentIdFor ?_
      rintro environmentId y rfl
      refine heads_bind (heads_createDeployment horg hkey hp hpreview.symm) ?_
      rintro row y rfl
      rw [hpreview]
      refine heads_bind (heads_answered fun _ => rfl) ?_
      rintro _ y rfl
      rw [hkey]
      refine heads_bind (heads_dispatch rfl rfl) ?_
      rintro _ y rfl
      exact heads_ret rfl
  · rintro result y rfl
    exact heads_ret ⟨_, rfl, rfl⟩

/-- A delivery of a git provider. -/
theorem heads_hook {link : ProjectGitLink} {delivery : ParsedGitDelivery}
    (h : (Task.hook link delivery).Admitted org project members)
    (hkey : delivery.idempotencyKey link = a.key)
    (hpreview : delivery.previewKey link = a.previewKey) :
    Heads org project members (Told a) (.entering a)
      ((Task.hook link delivery).outcome engines) := by
  obtain ⟨horg, hproject, hdeployable, hpreviews, hclone⟩ := h
  obtain ⟨gitRepository, hclone⟩ := Option.isSome_iff_exists.mp hclone
  refine heads_bind (P := fun outcome y => ∃ row, y = .holds a row false false ∧
    Names row (.ok (.delivery outcome))) ?_ ?_
  · unfold deployFromDelivery
    rw [horg, hproject]
    refine heads_bind (heads_must (c := .selectProject org project)
      (P := ReadProject org project a) fun r => ⟨_, if_pos ⟨rfl, rfl⟩, good_thisProject r⟩) ?_
    rintro found y ⟨rfl, p, rfl, hp, hporg⟩
    refine heads_bind heads_budget ?_
    rintro refusal y ⟨rfl, rfl⟩
    simp only [if_neg hdeployable, if_neg hpreviews, hclone]
    refine heads_bind (heads_must
      (c := .selectDeploymentByKeyForService org (delivery.idempotencyKey link))
      (P := fun found y => y = Standing.afterLook project a (.ok found))
      fun r => ⟨_, if_pos ⟨rfl, hkey⟩, ?_⟩) ?_
    · cases r with
      | ok found => exact .inr ⟨found, rfl, rfl⟩
      | error e => exact .inl rfl
    · rintro found y rfl
      cases found with
      | some row =>
        have hlook : Standing.afterLook project a (.ok (some row)) =
            if row.projectId = project then .holds a row.id false false else .outside := rfl
        rw [hlook]
        by_cases hthis : row.projectId = project
        · rw [if_pos hthis]
          exact heads_ret ⟨_, rfl, rfl, .inr rfl⟩
        · rw [if_neg hthis]
          exact heads_outside _
      | none =>
        unfold deployNew
        rw [horg, hproject]
        refine heads_bind (P := fun _ y => y = .entering a) ?_ ?_
        · refine heads_bind (heads_answered fun _ => rfl) ?_
          rintro _ y rfl
          exact heads_ret rfl
        rintro environmentId y rfl
        refine heads_bind (heads_createDeployment horg hkey hproject hpreview) ?_
        rintro row y rfl
        refine heads_bind (P := fun _ y => y = .holds a row.id false true) ?_ ?_
        · unfold recordHookPreview
          rw [← hpreview]
          split
          next hnone =>
            rw [hnone]
            exact heads_ret rfl
          next key hsome =>
            rw [hsome, horg, hproject]
            exact heads_ensurePreviewTarget (hpreview.symm.trans hsome)
        · rintro _ y rfl
          refine heads_bind (heads_enqueue rfl rfl rfl hkey rfl) ?_
          rintro _ y rfl
          refine heads_bind heads_recorded ?_
          rintro _ y rfl
          exact heads_ret ⟨_, rfl, rfl, .inl rfl⟩
  · rintro outcome y ⟨row, rfl, hnames⟩
    exact heads_ret ⟨row, rfl, hnames⟩

end Heads

/-! ### Every task -/

theorem follows_aside {org : OrganizationId} {project : ProjectId}
    {members : OrganizationId → UserId → Bool} {p : PlaneProg α}
    (hp : p.Only fun c => ¬ Founds c) :
    (standingProtocol org project members).Follows (fun _ x => x = .aside) .aside p :=
  Protocol.follows_of_only hp fun _ hc _ _ => if_neg hc

theorem not_founds_of_aloof {c : Call} (h : Aloof c) : ¬ Founds c := by
  unfold Founds
  split
  · exact fun _ => h
  · exact fun _ => h
  · exact fun _ => h
  · exact id

theorem not_founds_of_delivering {row : DeploymentId} {c : Call} (h : Delivering row c) :
    ¬ Founds c := by
  unfold Founds
  split
  · rcases h with h | h <;> exact fun _ => h
  · rcases h with h | h <;> exact fun _ => h
  · rcases h with h | h <;> exact fun _ => h
  · exact id

/-- No other task makes a row, a target or a job. -/
theorem founds_body {t : Task} (h : t.asks = none) :
    (t.body engines).Only fun c => ¬ Founds c := by
  have hwatch : t.Watches → (t.body engines).Only fun c => ¬ Founds c :=
    fun ht => Prog.only_mono (fun _ => not_founds_of_aloof) (aloof_body engines ht)
  cases t with
  | request ctx input => cases h
  | rollback ctx project key commit => cases h
  | hook link delivery => cases h
  | work options =>
    refine Prog.only_bind (Prog.only_bind ?_ fun claimed => ?_) fun _ => trivial
    · show (onQueue (SqlJobQueue.claim options.workerId options.leaseMs)).Only _
      unfold SqlJobQueue.claim
      rw [onQueue_bind]
      exact Prog.only_bind (only_queue id) fun _ => trivial
    · cases claimed with
      | none => trivial
      | some job =>
        refine Prog.only_bind ?_ fun _ => trivial
        exact Prog.only_mono (fun _ => not_founds_of_delivering) (only_delivery engines options job)
  | _ => exact hwatch trivial

/-- What a task ends with, and where. -/
def Ended (t : Task) (r : Except String Outcome) (x : Standing) : Prop :=
  x = .outside ∨ (x = .aside ∧ t.asks = none) ∨
    ∃ a row, t.asks = some a ∧ x = .holds a row false false ∧ Names row r

/-- Every task follows the protocol. -/
theorem outcome_follows (org : OrganizationId) (project : ProjectId)
    (members : OrganizationId → UserId → Bool) (t : Task) :
    (standingProtocol org project members).Follows (Ended t)
      (Standing.first org project members t) (t.outcome engines) := by
  unfold Standing.first
  cases hasks : t.asks with
  | none =>
    have hother : t.outcome engines = (t.body engines).bind fun _ => .ret .other := by
      cases t with
      | request ctx input => cases hasks
      | rollback ctx project key commit => cases hasks
      | hook link delivery => cases hasks
      | _ => rfl
    rw [hother]
    refine Protocol.follows_bind (follows_aside (founds_body hasks)) ?_ ?_
    · exact fun _ _ hx => .inr (.inl ⟨hx, hasks⟩)
    · exact fun _ _ hx => .inr (.inl ⟨hx, hasks⟩)
  | some a =>
    have htold : ∀ r x, Good (Told a) r x → Ended t r x := by
      rintro r x (rfl | ⟨outcome, rfl, row, rfl, hnames⟩)
      · exact .inl rfl
      · exact .inr (.inr ⟨a, row, hasks, rfl, hnames⟩)
    dsimp only
    split
    next hadmitted =>
      refine Protocol.follows_mono htold ?_
      cases t with
      | request ctx input =>
        cases hasks
        exact heads_request hadmitted rfl rfl
      | rollback ctx project key commit =>
        cases hasks
        exact heads_rollback hadmitted rfl rfl
      | hook link delivery =>
        cases hasks
        exact heads_hook hadmitted rfl rfl
      | _ => cases hasks
    next => exact Protocol.follows_mono htold (heads_outside _)

/-- And reports its outcome at the end. -/
theorem race_follows (org : OrganizationId) (project : ProjectId)
    (members : OrganizationId → UserId → Bool) (t : Task) :
    (raceProtocol org project members).Follows ((raceDuty org project members).ends t)
      (Standing.first org project members t) (t.answered engines) := by
  have hattempt := Protocol.follows_attempt (R := fun r x => ∃ r', r = .ok r' ∧ Ended t r' x)
    (Protocol.follows_mono (fun r _ hr => ⟨r, rfl, hr⟩)
      (@outcome_follows engines org project members t))
  have hembedded := (@Protocol.follows_embed _ _ _ _ _ _ _ _ _ (raceProtocol org project members) Sum.inl (fun _ a => a)) (fun _ _ _ => trivial)
    (fun x c r => by cases r <;> rfl) hattempt
  refine Protocol.follows_bind hembedded ?_ ?_
  · rintro r x ⟨r', hr, hended⟩
    cases hr
    intro answered _
    have hover : ∃ y, x.afterReply (t, r) = some y ∧ (y = .over ∨ y = .outside) := by
      rcases hended with rfl | ⟨rfl, hasks⟩ | ⟨a, row, hasks, rfl, hnames⟩
      · exact ⟨_, rfl, .inr rfl⟩
      · exact ⟨_, if_pos hasks, .inl rfl⟩
      · exact ⟨_, if_pos ⟨hasks, hnames⟩, .inl rfl⟩
    obtain ⟨y, hy, hends⟩ := hover
    refine ⟨y, hy, ?_⟩
    cases answered <;> exact hends
  · rintro e x ⟨r', hr, _⟩
    cases hr

end CloudWai.Deployment
