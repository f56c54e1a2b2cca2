import CloudWai.Runtime.Sound

/-!
# Verified hostnames and the engines that serve them

A hostname is verified in the database, and two engines follow: the edge, which is
told of one hostname at a time, and the runtime, which is told a whole list.
`Agree` says that both have what the database has. Three requests break it:
`verifyDomain` sends the runtime the one hostname it verified, and the others of
the project are gone; a negative answer clears the column and tells nobody; and an
application created after a verification never hears of it.

`Hosted` adds to `Agree` what the proof needs of the table: a hostname is once in
an organization, and a project's domains are in its organization.

About `apps/api/src/procedures/domains.ts` and the two engines, as `Domains.lean` and
`Server.lean` have them.
-/

namespace CloudWai.Runtime

open Base Queue Deployment

variable {setup : Setup} {o : Outside} {w w' : Estate}

/-! ## The property -/

/-- One of the project's hostnames that are stored as verified. -/
def VerifiedFor (w : Estate) (project : ProjectId) (host : String) : Prop :=
  ∃ d ∈ w.domains.rows, d.projectId = some project ∧ d.verified = true ∧ d.hostname = host

/-- One of the organization's. -/
def VerifiedIn (w : Estate) (org : OrganizationId) (host : String) : Prop :=
  ∃ d ∈ w.domains.rows, d.organizationId = org ∧ d.verified = true ∧ d.hostname = host

instance (project : ProjectId) (host : String) : Decidable (VerifiedFor w project host) :=
  inferInstanceAs (Decidable (∃ d ∈ w.domains.rows, _))

/-- The runtime and the edge have the hostnames that are verified, and no others. -/
structure Agree (w : Estate) : Prop where
  routed : ∀ project, ∀ id ∈ w.appOf project, ∀ a ∈ w.runtime.apps.find id,
    ∀ host, host ∈ customerHosts a ↔ VerifiedFor w project host
  served : ∀ org host, (org, host) ∈ w.edge ↔ VerifiedIn w org host

/-- Every call of the operation to the runtime or to the edge succeeds. -/
def CallsSucceed (setup : Setup) (m : Move) : Prop :=
  (∀ org, (setup.credentials org).isSome) ∧ (∀ method path, m.outside.wire method path = .answered) ∧
    m.outside.edgeRefusal = none

/-! ## The condition -/

/-- A positive answer for a project with an application: it is the project's only
verified hostname, and a name the runtime routes. A negative one: it was not
verified before. -/
def Answers (w : Estate) (v : DomainRow × Bool) : Prop :=
  match v.2 with
  | true => ∀ project ∈ v.1.projectId, (w.appOf project).isSome →
      isHostname v.1.hostname = true ∧
        ∀ d ∈ w.domains.rows, d.projectId = some project → d.verified = true → d.id = v.1.id
  | false => v.1.verified = false

instance (v : DomainRow × Bool) : Decidable (Answers w v) :=
  match v with
  | (d, true) => inferInstanceAs (Decidable (∀ project ∈ d.projectId, _ → _ ∧ _))
  | (d, false) => inferInstanceAs (Decidable (d.verified = false))

/-- A deploy to production of a project without an application: nothing of it is
verified yet. -/
def FirstDeploy (w : Estate) (p : DeploymentJobPayload) : Prop :=
  p.action = .create → (p.kind = .production ∨ p.previewKey = none) → w.appOf p.projectId = none →
    ∀ d ∈ w.domains.rows, d.projectId = some p.projectId → d.verified = false

instance (p : DeploymentJobPayload) : Decidable (FirstDeploy w p) :=
  inferInstanceAs (Decidable (_ → _ → _ → _))

/-- The condition of one move. -/
def HostsFollow (w : Estate) (m : Move) : Prop :=
  match m.op with
  | .verifyDomain ctx org id answer => Admitted (verification ctx org id answer w) (Answers w)
  | .deliver _ id => ∀ job ∈ w.plane.jobs.find id, FirstDeploy w job.payload
  | _ => True

instance (m : Move) : Decidable (HostsFollow w m) :=
  match m with
  | ⟨.verifyDomain ctx org id answer, _⟩ =>
    inferInstanceAs (Decidable (Admitted (verification ctx org id answer w) (Answers w)))
  | ⟨.deliver _ id, _⟩ =>
    inferInstanceAs (Decidable (∀ job ∈ w.plane.jobs.find id, FirstDeploy w job.payload))
  | ⟨.request .., _⟩ => isTrue trivial
  | ⟨.rollback .., _⟩ => isTrue trivial
  | ⟨.finish .., _⟩ => isTrue trivial
  | ⟨.setEnvVar .., _⟩ => isTrue trivial
  | ⟨.removeEnvVar .., _⟩ => isTrue trivial
  | ⟨.addDomain .., _⟩ => isTrue trivial
  | ⟨.removeDomain .., _⟩ => isTrue trivial

/-! ## The invariant -/

/-- Organizations of projects. -/
def Estate.orgOf (w : Estate) (project : ProjectId) : Option OrganizationId :=
  (seat w.store project).map Prod.fst

/-- What is kept: the engines agree with the database, and a domain is in its project's
organization. -/
structure Hosted (w : Estate) : Prop where
  agree : Agree w
  once : ∀ d ∈ w.domains.rows, ∀ d' ∈ w.domains.rows, d.organizationId = d'.organizationId →
    d.hostname = d'.hostname → d = d'
  placed : ∀ d ∈ w.domains.rows, ∀ project, d.projectId = some project →
    w.orgOf project = some d.organizationId

/-- Nothing about hostnames changes. -/
structure SameHosts (w w' : Estate) : Prop where
  appOf : w'.appOf = w.appOf
  orgOf : w'.orgOf = w.orgOf
  domains : w'.domains = w.domains
  edge : w'.edge = w.edge
  apps : ∀ id a', w'.runtime.apps.find id = some a' →
    ∃ a, w.runtime.apps.find id = some a ∧ a'.domains = a.domains

/-- What touches no hostname keeps `Hosted`. -/
theorem hosted_same (h : Hosted w) (hs : SameHosts w w') : Hosted w' := by
  have hverified : ∀ p host, VerifiedFor w' p host ↔ VerifiedFor w p host := by
    intro p host
    unfold VerifiedFor
    rw [hs.domains]
  refine ⟨⟨?_, ?_⟩, ?_, ?_⟩
  · intro p id hid a' ha' host
    obtain ⟨a, ha, hdomains⟩ := hs.apps id a' ha'
    rw [hs.appOf] at hid
    rw [hverified, ← h.agree.routed p id hid a ha host]
    unfold customerHosts
    rw [hdomains]
  · intro org host
    unfold VerifiedIn
    rw [hs.edge, hs.domains]
    exact h.agree.served org host
  · rw [hs.domains]
    exact h.once
  · rw [hs.domains, hs.orgOf]
    exact h.placed

theorem orgOf_of_seat (h : seat w'.store = seat w.store) : w'.orgOf = w.orgOf := by
  unfold Estate.orgOf
  rw [h]

theorem sameHosts_of_quiet (h : Quiet w w') : SameHosts w w' := by
  refine ⟨h.appOf, orgOf_of_seat h.seat, h.domains, h.edge, fun id a' ha' => ?_⟩
  obtain ⟨a, ha, hlike⟩ := h.runtime.some_find ha'
  exact ⟨a, ha, hlike.domains⟩

theorem sameHosts_of_writes {P : String → String → Prop} {id : String} (h : Writes P id w w') :
    SameHosts w w' := by
  have hstore : w'.store = w.store := congrArg World.store h.plane
  refine ⟨h.appOf, orgOf_of_seat (congrArg seat hstore), h.domains, h.edge, fun i a' ha' => ?_⟩
  obtain ⟨a, ha, hdomains, _⟩ := h.runtime.some_find ha'
  exact ⟨a, ha, hdomains⟩

theorem sameHosts_of_present (h : SamePresent w w') : SameHosts w w' := by
  have hstore : w'.store = w.store := congrArg World.store h.plane
  refine ⟨appOf_of_seat (congrArg seat hstore), orgOf_of_seat (congrArg seat hstore), h.domains,
    h.edge, fun id a ha => ?_⟩
  rw [h.runtime] at ha
  exact ⟨a, ha, rfl⟩

theorem SameHosts.trans {w'' : Estate} (h : SameHosts w w') (h' : SameHosts w' w'') :
    SameHosts w w'' where
  appOf := h'.appOf.trans h.appOf
  orgOf := h'.orgOf.trans h.orgOf
  domains := h'.domains.trans h.domains
  edge := h'.edge.trans h.edge
  apps id a'' ha'' := by
    obtain ⟨a', ha', hdomains'⟩ := h'.apps id a'' ha''
    obtain ⟨a, ha, hdomains⟩ := h.apps id a' ha'
    exact ⟨a, ha, hdomains'.trans hdomains⟩

theorem sameHosts_setEnvVar (ctx : CloudWai.RequestContext) (input : SetEnvVarInput) :
    SameHosts w (setEnvVar setup o ctx input w).2 := by
  cases htarget : setTarget setup ctx input w with
  | error e =>
    rw [setEnvVar_refused htarget]
    exact ⟨rfl, rfl, rfl, rfl, fun _ a ha => ⟨a, ha, rfl⟩⟩
  | ok t =>
    have hsaved : SameHosts w (w.saveEnvVar t.project.organizationId t.index input.value
        (input.isBuildTime.getD true)) := ⟨rfl, rfl, rfl, rfl, fun _ a ha => ⟨a, ha, rfl⟩⟩
    rcases setEnvVar_effect (o := o) htarget with hstate | ⟨id, _, hwrites, _⟩
    · rw [hstate]
      exact hsaved
    · exact hsaved.trans (sameHosts_of_writes hwrites)

theorem sameHosts_removeEnvVar (ctx : CloudWai.RequestContext) (input : RemoveEnvVarInput) :
    SameHosts w (removeEnvVar setup o ctx input w).2 := by
  obtain ⟨s, hdrops, hstate⟩ := @removeEnvVar_effect setup o ctx input w
  have happs : ∀ id a', s.apps.find id = some a' →
      ∃ a, w.runtime.apps.find id = some a ∧ a'.domains = a.domains := by
    intro id a' ha'
    have hrel := hdrops.apps id
    rw [ha'] at hrel
    generalize w.runtime.apps.find id = x at hrel ⊢
    cases hrel with
    | some hdrop => exact ⟨_, rfl, hdrop.domains⟩
  rcases hstate with ⟨hstate, _⟩ | ⟨t, _, _, hstate, _⟩
  · rw [hstate]
    exact ⟨rfl, rfl, rfl, rfl, happs⟩
  · rw [hstate]
    exact ⟨rfl, rfl, rfl, rfl, happs⟩

/-! ## Deliveries -/

/-- A new application has no hostnames, and its project none that are verified. -/
theorem hosted_founded {input : ExecuteDeploymentInput} {id : String} (h : Hosted w)
    (hw : Seated w) (hf : Founded input w w' id)
    (hfirst : input.preview = none → w.appOf input.projectId = none →
      ∀ d ∈ w.domains.rows, d.projectId = some input.projectId → d.verified = false) :
    Hosted w' := by
  obtain ⟨blank, hblank, _, hnohosts, _⟩ := hf.blank
  have hverified : ∀ p host, VerifiedFor w' p host ↔ VerifiedFor w p host := by
    intro p host
    unfold VerifiedFor
    rw [hf.domains]
  refine ⟨⟨?_, ?_⟩, ?_, ?_⟩
  · intro p i hi a ha host
    rw [hverified]
    rcases hf.appOf p with hold | ⟨hpreview, rfl, hnone, hnew⟩
    · have hi : w.appOf p = some i := hold ▸ hi
      have hne : i ≠ id := by
        rintro rfl
        have hthere := hw.named p i hi
        rw [hf.fresh] at hthere
        cases hthere
      rw [hf.others i hne] at ha
      exact h.agree.routed p i hi a ha host
    · obtain rfl : id = i := Option.some.inj (hnew.symm.trans hi)
      obtain rfl : blank = a := Option.some.inj (hblank.symm.trans ha)
      unfold customerHosts
      rw [hnohosts]
      refine iff_of_false List.not_mem_nil ?_
      rintro ⟨d, hd, hproject, hyes, _⟩
      rw [hfirst hpreview hnone d hd hproject] at hyes
      cases hyes
  · intro org host
    unfold VerifiedIn
    rw [hf.edge, hf.domains]
    exact h.agree.served org host
  · rw [hf.domains]
    exact h.once
  · rw [hf.domains]
    intro d hd p hp
    exact (hf.orgs p).trans (h.placed d hd p hp)

/-- A delivery leaves the domains alone, and a project keeps its application. -/
theorem hosted_deliver {payload : DeploymentJobPayload} (hfirst : FirstDeploy w payload)
    (ctx : JobContext) :
    Keeps setup o (executeInput payload ctx) fun w' =>
      Hosted w' ∧ w'.domains = w.domains ∧
        (w'.appOf payload.projectId = none → w.appOf payload.projectId = none) where
  quiet w₁ w₂ _ h hq := by
    refine ⟨hosted_same h.1 (sameHosts_of_quiet hq), hq.domains.trans h.2.1, ?_⟩
    rw [hq.appOf]
    exact h.2.2
  founded hcreate w₁ w₂ id hw h hf := by
    refine ⟨hosted_founded h.1 hw hf ?_, hf.domains.trans h.2.1, ?_⟩
    · intro hpreview hnone
      rw [h.2.1]
      exact hfirst hcreate (kind_of_preview hpreview) (h.2.2 hnone)
    · intro hnone
      rcases hf.appOf payload.projectId with hold | ⟨_, _, _, hnew⟩
      · exact h.2.2 (hold ▸ hnone)
      · rw [hnone] at hnew
        cases hnew
  synced w₁ ref environment _ h _ _ := by
    have hwrites := @syncEnvVars_stored setup o ((executeInput payload ctx).ctx) ref payload.projectId environment w₁
    refine ⟨hosted_same h.1 (sameHosts_of_writes hwrites), hwrites.domains.trans h.2.1, ?_⟩
    exact fun hnone => h.2.2 ((congrFun hwrites.appOf _).symm.trans hnone)

/-! ## The runtime's list -/

theorem call_answered {β : Type} {ctx : AdapterContext} {method path : String}
    {route : State → Reply β × State} {s : State}
    (hcreds : (setup.credentials ctx.organizationId).isSome)
    (hwire : o.wire method path = .answered) :
    (call setup o ctx method path route s).2 = (route s).2 := by
  unfold call
  split
  next hnone =>
    rw [hnone] at hcreds
    cases hcreds
  next baseUrl _ =>
    rw [hwire]
    unfold request
    simp only
    split
    next h => rw [h]
    next h => rw [h]

/-- A project's application, as the domain procedures look it up. -/
theorem target_eq {org : OrganizationId} {project : ProjectId} (h : w.orgOf project = some org) :
    (w.targetForService org project).bind (fun t => given t.providerResourceId) =
      w.appOf project := by
  unfold Estate.orgOf at h
  unfold Estate.targetForService Estate.appOf
  unfold seat at h ⊢
  obtain ⟨pair, hpair, rfl⟩ := Option.map_eq_some_iff.mp h
  obtain ⟨r, hr, rfl⟩ := Option.map_eq_some_iff.mp hpair
  rw [project_eq_some.mpr ⟨hr, rfl⟩, hr]
  rfl

/-- **A list that arrives** replaces the one there was. -/
theorem routeHostnames_answered {org : OrganizationId} {project : ProjectId} {key : String}
    {hosts : List String} (hw : Seated w) (horg : w.orgOf project = some org)
    (hcreds : (setup.credentials org).isSome)
    (hwire : ∀ method path, o.wire method path = .answered) :
    (w.appOf project = none ∧ (routeHostnames setup o org project key hosts w).2 = w) ∨
      ∃ id s, w.appOf project = some id ∧
        (routeHostnames setup o org project key hosts w).2 = { w with runtime := s } ∧
        w.runtime.Rehosts id hosts s := by
  have htarget := target_eq horg
  simp only [routeHostnames]
  cases happ : w.appOf project with
  | none =>
    rw [happ] at htarget
    simp only [htarget]
    exact .inl ⟨trivial, trivial⟩
  | some id =>
    rw [happ] at htarget
    simp only [htarget]
    refine .inr ⟨id, _, rfl, rfl, ?_⟩
    have hthere := hw.named project id happ
    unfold SelfHosted.setDomains
    rw [call_answered hcreds (hwire _ _)]
    rcases setDomains_cases setup.config o.refusal hosts id w.runtime with ⟨hnone, _⟩ | hrehosts
    · rw [hnone] at hthere
      cases hthere
    · exact hrehosts

/-- **The whole list.** If the runtime is sent the verified hostnames of the
project, all of them names it routes, then it has them. -/
theorem routed_of_list {org : OrganizationId} {project : ProjectId} {key : String}
    {hosts : List String} (hw : Seated w) (horg : w.orgOf project = some org)
    (hcreds : (setup.credentials org).isSome)
    (hwire : ∀ method path, o.wire method path = .answered)
    (hothers : ∀ p, p ≠ project → ∀ id ∈ w.appOf p, ∀ a ∈ w.runtime.apps.find id,
      ∀ host, host ∈ customerHosts a ↔ VerifiedFor w p host)
    (hhosts : (w.appOf project).isSome →
      ∀ host, host ∈ hosts ∧ isHostname host = true ↔ VerifiedFor w project host) :
    let w' := (routeHostnames setup o org project key hosts w).2
    w'.domains = w.domains ∧ w'.edge = w.edge ∧ w'.plane = w.plane ∧
      ∀ p, ∀ id ∈ w'.appOf p, ∀ a ∈ w'.runtime.apps.find id,
        ∀ host, host ∈ customerHosts a ↔ VerifiedFor w' p host := by
  intro w'
  rcases @routeHostnames_answered _ _ _ _ _ key hosts hw horg hcreds hwire with
    ⟨hnone, hstate⟩ | ⟨id, s, happ, hstate, hrehosts⟩
  · simp only [w', hstate]
    refine ⟨trivial, trivial, trivial, fun p i hi a ha host => ?_⟩
    have hne : p ≠ project := by
      rintro rfl
      rw [hnone] at hi
      cases hi
    exact hothers p hne i hi a ha host
  · simp only [w', hstate]
    refine ⟨trivial, trivial, trivial, fun p i hi a ha host => ?_⟩
    by_cases hp : p = project
    · subst hp
      obtain rfl : id = i := Option.some.inj (happ.symm.trans hi)
      obtain ⟨_, a', _, ha', _, _, hdomains⟩ := hrehosts.app
      obtain rfl : a' = a := Option.some.inj (ha'.symm.trans ha)
      unfold customerHosts
      rw [hdomains, List.filter_filter]
      simp only [Bool.and_self, List.mem_filter]
      exact hhosts (happ ▸ rfl) host
    · have hne : i ≠ id := by
        rintro rfl
        exact hp (hw.apart p project i hi happ)
      have ha : w.runtime.apps.find i = some a := (hrehosts.others i hne).symm.trans ha
      exact hothers p hp i hi a ha host

end CloudWai.Runtime
