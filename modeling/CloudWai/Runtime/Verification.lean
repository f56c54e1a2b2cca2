import CloudWai.Runtime.Hostnames

/-!
# Domain requests

The three requests on a domain, each against `Hosted`: adding one changes nothing
that is verified, verifying one adds it to what is, removing one takes it away.
What the table then says is compared with what the edge and the runtime were told.

They are those of `apps/api/src/procedures/domains.ts`, as `Domains.lean` has them.
-/

namespace CloudWai.Runtime

open Base Queue Deployment

variable {setup : Setup} {o : Outside} {w w' : Estate}

/-! ## Which domain a request is about -/

theorem domainFor_spec {ctx : CloudWai.RequestContext} {c : Capability} {org : OrganizationId}
    {id : Nat} {domain : DomainRow} (h : domainFor ctx c org id w = .ok domain) :
    w.domains.find id = some domain ∧ domain.organizationId = org ∧
      w.store.members org ctx.userId = true := by
  unfold domainFor at h
  obtain ⟨_, _, h⟩ := ok_of_bind h
  split at h
  · cases h
  next found hfound =>
    cases h
    obtain ⟨hseen, horg⟩ := Option.filter_eq_some_iff.mp hfound
    obtain ⟨hfind, hmember⟩ := Option.filter_eq_some_iff.mp hseen
    have horg : domain.organizationId = org := by simpa using horg
    exact ⟨hfind, horg, horg ▸ hmember⟩

theorem verification_spec {ctx : CloudWai.RequestContext} {org : OrganizationId} {id : Nat}
    {answer : VerifierAnswer} {v : DomainRow × Bool} (h : verification ctx org id answer w = .ok v) :
    w.domains.find id = some v.1 ∧ v.1.organizationId = org := by
  unfold verification at h
  obtain ⟨domain, hdomain, h⟩ := ok_of_bind h
  obtain ⟨hfind, horg, _⟩ := domainFor_spec hdomain
  split at h
  · cases h
  split at h
  · cases h
  · cases h
    exact ⟨hfind, horg⟩

/-- A domain is added for a project of the organization. -/
theorem addTarget_spec {ctx : CloudWai.RequestContext} {input : AddDomainInput} {hostname : String}
    (h : addTarget ctx input w = .ok hostname) {project : ProjectId}
    (hproject : input.projectId = some project) : w.orgOf project = some input.organizationId := by
  unfold addTarget at h
  obtain ⟨_, _, h⟩ := ok_of_bind h
  obtain ⟨_, _, h⟩ := ok_of_bind h
  obtain ⟨_, hof, _⟩ := ok_of_bind h
  unfold projectOf at hof
  rw [hproject] at hof
  split at hof
  next hnone => cases hnone
  next id hid =>
    cases hid
    split at hof
    · cases hof
    next found hfound =>
      obtain ⟨hseen, horg⟩ := Option.filter_eq_some_iff.mp hfound
      have horg : found.organizationId = input.organizationId := by simpa using horg
      unfold Estate.orgOf seat
      rw [find_of_getProject hseen]
      exact congrArg some horg

/-- A row is what its id and organization say. -/
theorem named_domain {domain d : DomainRow} {id : Nat} (hfind : w.domains.find id = some domain)
    (hd : d ∈ w.domains.rows) (hnamed : (d.id == id && d.organizationId == domain.organizationId) = true) :
    d = domain := by
  simp only [Bool.and_eq_true, beq_iff_eq] at hnamed
  exact Option.some.inj ((Table.find_eq_some.mpr ⟨hd, hnamed.1⟩).symm.trans hfind)

/-! ## What the table keeps -/

/-- The row up to its answer. -/
structure SameDomain (d d' : DomainRow) : Prop where
  id : d'.id = d.id
  organizationId : d'.organizationId = d.organizationId
  projectId : d'.projectId = d.projectId
  hostname : d'.hostname = d.hostname

theorem sameDomain_refl (d : DomainRow) : SameDomain d d := ⟨rfl, rfl, rfl, rfl⟩

/-- Rows that come from rows leave hostnames where they are. -/
theorem hosted_of_rows (h : Hosted w) (horgs : w'.orgOf = w.orgOf)
    (hrows : ∀ d' ∈ w'.domains.rows, ∃ d ∈ w.domains.rows, SameDomain d d') (hagree : Agree w') :
    Hosted w' where
  agree := hagree
  once a ha b hb horg hhost := by
    obtain ⟨a₀, ha₀, hsame⟩ := hrows a ha
    obtain ⟨b₀, hb₀, hsame'⟩ := hrows b hb
    have hone : a₀ = b₀ := by
      refine h.once a₀ ha₀ b₀ hb₀ ?_ ?_
      · rw [← hsame.organizationId, ← hsame'.organizationId, horg]
      · rw [← hsame.hostname, ← hsame'.hostname, hhost]
    have hid : a.id = b.id := by rw [hsame.id, hsame'.id, hone]
    exact Option.some.inj ((Table.find_eq_some.mpr ⟨ha, rfl⟩).symm.trans
      (Table.find_eq_some.mpr ⟨hb, hid.symm⟩))
  placed d' hd' project hproject := by
    obtain ⟨d, hd, hsame⟩ := hrows d' hd'
    rw [horgs, hsame.organizationId]
    exact h.placed d hd project (hsame.projectId ▸ hproject)

/-- Only what is verified counts. -/
theorem verifiedFor_congr (h : ∀ d : DomainRow, d.verified = true →
    (d ∈ w'.domains.rows ↔ d ∈ w.domains.rows)) (project : ProjectId) (host : String) :
    VerifiedFor w' project host ↔ VerifiedFor w project host := by
  unfold VerifiedFor
  constructor
  · rintro ⟨d, hd, hp, hyes, hhost⟩
    exact ⟨d, (h d hyes).mp hd, hp, hyes, hhost⟩
  · rintro ⟨d, hd, hp, hyes, hhost⟩
    exact ⟨d, (h d hyes).mpr hd, hp, hyes, hhost⟩

theorem verifiedIn_congr (h : ∀ d : DomainRow, d.verified = true →
    (d ∈ w'.domains.rows ↔ d ∈ w.domains.rows)) (org : OrganizationId) (host : String) :
    VerifiedIn w' org host ↔ VerifiedIn w org host := by
  unfold VerifiedIn
  constructor
  · rintro ⟨d, hd, horg, hyes, hhost⟩
    exact ⟨d, (h d hyes).mp hd, horg, hyes, hhost⟩
  · rintro ⟨d, hd, horg, hyes, hhost⟩
    exact ⟨d, (h d hyes).mpr hd, horg, hyes, hhost⟩

/-! ## Adding -/

/-- A new row is not verified. -/
theorem hosted_added (h : Hosted w) {d₀ : DomainRow} (hunverified : d₀.verified = false)
    (hrows : ∀ d, d ∈ w'.domains.rows ↔ d ∈ w.domains.rows ∨ d = d₀)
    (hplane : w'.plane = w.plane) (hruntime : w'.runtime = w.runtime) (hedge : w'.edge = w.edge)
    (hfree : ∀ d ∈ w.domains.rows, d.organizationId = d₀.organizationId → d.hostname ≠ d₀.hostname)
    (hplaced : ∀ project, d₀.projectId = some project → w.orgOf project = some d₀.organizationId) :
    Hosted w' := by
  have hstore : w'.store = w.store := congrArg World.store hplane
  have horgs : w'.orgOf = w.orgOf := orgOf_of_seat (congrArg seat hstore)
  have happ : w'.appOf = w.appOf := appOf_of_seat (congrArg seat hstore)
  have hverified : ∀ d : DomainRow, d.verified = true →
      (d ∈ w'.domains.rows ↔ d ∈ w.domains.rows) := by
    intro d hyes
    rw [hrows d, or_iff_left]
    rintro rfl
    rw [hunverified] at hyes
    cases hyes
  refine ⟨⟨?_, ?_⟩, ?_, ?_⟩
  · intro p id hid a ha host
    rw [happ] at hid
    rw [hruntime] at ha
    rw [verifiedFor_congr hverified]
    exact h.agree.routed p id hid a ha host
  · intro org host
    rw [hedge, verifiedIn_congr hverified]
    exact h.agree.served org host
  · intro a ha b hb horg hhost
    rcases (hrows a).mp ha with ha | rfl <;> rcases (hrows b).mp hb with hb | rfl
    · exact h.once a ha b hb horg hhost
    · exact absurd hhost (hfree a ha horg)
    · exact absurd hhost.symm (hfree b hb horg.symm)
    · rfl
  · intro d hd project hproject
    rw [horgs]
    rcases (hrows d).mp hd with hd | rfl
    · exact h.placed d hd project hproject
    · exact hplaced project hproject

/-- A new domain is not verified, so nobody is to be told. -/
theorem hosted_addDomain (h : Hosted w) (token : String) (ctx : CloudWai.RequestContext)
    (input : AddDomainInput) : Hosted (addDomain token ctx input w).2 := by
  unfold addDomain
  split
  · exact h
  next hostname htarget =>
    unfold Estate.createDomain
    split
    · exact h
    next hcreated =>
      split at hcreated
      · cases hcreated
      next hfree =>
        cases hcreated
        refine @hosted_added _ _ h ⟨w.domains.nextId, input.organizationId, input.projectId,
          hostname, false, some token⟩ rfl (fun d => Table.mem_insertNew) rfl rfl rfl ?_ ?_
        · intro d hd horg hhost
          refine hfree (List.any_eq_true.mpr ⟨d, hd, ?_⟩)
          simp only [Bool.and_eq_true, beq_iff_eq]
          exact ⟨horg, hhost⟩
        · exact fun project hproject => addTarget_spec htarget hproject

/-! ## Verifying -/

/-- Of the rows one is written. -/
theorem mem_setVerification {domain d : DomainRow} (hfind : w.domains.find domain.id = some domain)
    (answer : Bool) :
    d ∈ (w.setDomainVerification domain.organizationId domain.id answer).domains.rows ↔
      d ∈ w.domains.rows ∧ d.id ≠ domain.id ∨ d = { domain with verified := answer } := by
  have hnamed : ∀ a ∈ w.domains.rows,
      (a.id == domain.id && a.organizationId == domain.organizationId) = true ↔ a.id = domain.id := by
    intro a ha
    constructor
    · intro h
      rw [named_domain hfind ha h]
    · intro h
      rw [Option.some.inj ((Table.find_eq_some.mpr ⟨ha, h⟩).symm.trans hfind)]
      simp only [beq_self_eq_true, Bool.and_self]
  refine Table.mem_update.trans (or_congr ?_ ?_)
  · refine and_congr_right fun hd => ?_
    rw [← Bool.not_eq_true, hnamed d hd]
  · constructor
    · rintro ⟨a, ha, hp, rfl⟩
      rw [named_domain hfind ha hp]
    · rintro rfl
      have hmem := (Table.find_eq_some.mp hfind).1
      exact ⟨domain, hmem, (hnamed domain hmem).mpr rfl, rfl⟩

/-- A negative answer for a domain that was not verified. -/
theorem setVerification_false {domain : DomainRow}
    (hfind : w.domains.find domain.id = some domain) (hno : domain.verified = false) :
    w.setDomainVerification domain.organizationId domain.id false = w := by
  have hself : w.domains.update
      (fun d => d.id == domain.id && d.organizationId == domain.organizationId)
      ⟨fun d => { d with verified := false }, fun _ => rfl⟩ = w.domains := by
    refine Table.update_self fun a ha hp => ?_
    rw [named_domain hfind ha hp]
    show { domain with verified := false } = domain
    rw [← hno]
  unfold Estate.setDomainVerification
  rw [hself]

section Positive

variable {domain : DomainRow} (hfind : w.domains.find domain.id = some domain)

include hfind

theorem verifiedFor_set (project : ProjectId) (host : String) :
    VerifiedFor (w.setDomainVerification domain.organizationId domain.id true) project host ↔
      VerifiedFor w project host ∨ domain.projectId = some project ∧ domain.hostname = host := by
  have hrows := fun d => mem_setVerification (d := d) hfind true
  constructor
  · rintro ⟨d, hd, hp, hyes, hhost⟩
    rcases (hrows d).mp hd with ⟨hold, _⟩ | rfl
    · exact .inl ⟨d, hold, hp, hyes, hhost⟩
    · exact .inr ⟨hp, hhost⟩
  · rintro (⟨d, hd, hp, hyes, hhost⟩ | ⟨hp, hhost⟩)
    · by_cases hid : d.id = domain.id
      · obtain rfl : d = domain :=
          Option.some.inj ((Table.find_eq_some.mpr ⟨hd, hid⟩).symm.trans hfind)
        exact ⟨_, (hrows _).mpr (.inr rfl), hp, rfl, hhost⟩
      · exact ⟨d, (hrows d).mpr (.inl ⟨hd, hid⟩), hp, hyes, hhost⟩
    · exact ⟨_, (hrows _).mpr (.inr rfl), hp, rfl, hhost⟩

theorem verifiedIn_set (org : OrganizationId) (host : String) :
    VerifiedIn (w.setDomainVerification domain.organizationId domain.id true) org host ↔
      VerifiedIn w org host ∨ domain.organizationId = org ∧ domain.hostname = host := by
  have hrows := fun d => mem_setVerification (d := d) hfind true
  constructor
  · rintro ⟨d, hd, horg, hyes, hhost⟩
    rcases (hrows d).mp hd with ⟨hold, _⟩ | rfl
    · exact .inl ⟨d, hold, horg, hyes, hhost⟩
    · exact .inr ⟨horg, hhost⟩
  · rintro (⟨d, hd, horg, hyes, hhost⟩ | ⟨horg, hhost⟩)
    · by_cases hid : d.id = domain.id
      · obtain rfl : d = domain :=
          Option.some.inj ((Table.find_eq_some.mpr ⟨hd, hid⟩).symm.trans hfind)
        exact ⟨_, (hrows _).mpr (.inr rfl), horg, rfl, hhost⟩
      · exact ⟨d, (hrows d).mpr (.inl ⟨hd, hid⟩), horg, hyes, hhost⟩
    · exact ⟨_, (hrows _).mpr (.inr rfl), horg, rfl, hhost⟩

end Positive

/-- What is published is verified, and what is verified stays published. -/
theorem served_publish {org : OrganizationId} {hostname : String} {policy : String → Bool}
    (hthis : VerifiedIn w org hostname)
    (hold : ∀ org' host, (org', host) ∈ w.edge → VerifiedIn w org' host)
    (hnew : ∀ org' host, VerifiedIn w org' host →
      (org', host) ∈ w.edge ∨ org' = org ∧ host = hostname) (org' : OrganizationId)
    (host : String) :
    (org', host) ∈ (w.publishRoute policy org hostname).edge ↔
      VerifiedIn (w.publishRoute policy org hostname) org' host := by
  show (org', host) ∈ (org, hostname) :: List.map (fun d : DomainRow => (org, d.hostname)) _ ++ w.edge ↔
    VerifiedIn w org' host
  simp only [List.cons_append, List.mem_cons, List.mem_append, List.mem_map, List.mem_filter,
    Bool.and_eq_true, beq_iff_eq, Prod.mk.injEq]
  constructor
  · rintro (⟨rfl, rfl⟩ | ⟨d, ⟨hd, ⟨horg, hyes⟩, _⟩, rfl, rfl⟩ | hmem)
    · exact hthis
    · exact ⟨d, hd, horg, hyes, rfl⟩
    · exact hold org' host hmem
  · intro hverified
    rcases hnew org' host hverified with hmem | hsame
    · exact .inr (.inr hmem)
    · exact .inl hsame

/-- **Verifying** adds one hostname everywhere, where the request meets the condition. -/
theorem hosted_verified (h : Hosted w) (hw : Seated w)
    (hcreds : ∀ org, (setup.credentials org).isSome)
    (hwire : ∀ method path, o.wire method path = .answered) (hedge : o.edgeRefusal = none)
    {domain : DomainRow} (hfind : w.domains.find domain.id = some domain)
    (hanswer : Answers w (domain, true)) :
    Hosted (routeVerified setup o domain (publishVerified o domain
      (w.setDomainVerification domain.organizationId domain.id true)).2).2 := by
  have hmem := (Table.find_eq_some.mp hfind).1
  have hset := fun d => mem_setVerification (d := d) hfind true
  have hfor := verifiedFor_set hfind
  have hin := verifiedIn_set hfind
  unfold publishVerified
  rw [hedge]
  simp only
  generalize hw₁ : w.setDomainVerification domain.organizationId domain.id true = w₁ at hset hfor hin ⊢
  have hplane : w₁.plane = w.plane := by rw [← hw₁]; rfl
  have hruntime : w₁.runtime = w.runtime := by rw [← hw₁]; rfl
  have hedge₁ : w₁.edge = w.edge := by rw [← hw₁]; rfl
  have hserved : ∀ org host,
      (org, host) ∈ (w₁.publishRoute o.policy domain.organizationId domain.hostname).edge ↔
        VerifiedIn w₁ org host := by
    refine served_publish ((hin _ _).mpr (.inr ⟨rfl, rfl⟩)) ?_ ?_
    · intro org host hold
      rw [hedge₁] at hold
      exact (hin org host).mpr (.inl ((h.agree.served org host).mp hold))
    · intro org host hverified
      rw [hedge₁]
      rcases (hin org host).mp hverified with hold | ⟨rfl, rfl⟩
      · exact .inl ((h.agree.served org host).mpr hold)
      · exact .inr ⟨rfl, rfl⟩
  generalize hw₂ : w₁.publishRoute o.policy domain.organizationId domain.hostname = w₂ at hserved ⊢
  have hplane₂ : w₂.plane = w.plane := by rw [← hw₂]; exact hplane
  have hruntime₂ : w₂.runtime = w.runtime := by rw [← hw₂]; exact hruntime
  have hdomains₂ : w₂.domains = w₁.domains := by rw [← hw₂]; rfl
  have hstore₂ : w₂.store = w.store := congrArg World.store hplane₂
  have happ₂ : w₂.appOf = w.appOf := appOf_of_seat (congrArg seat hstore₂)
  have horg₂ : w₂.orgOf = w.orgOf := orgOf_of_seat (congrArg seat hstore₂)
  have hfor₂ : ∀ p host, VerifiedFor w₂ p host ↔
      VerifiedFor w p host ∨ domain.projectId = some p ∧ domain.hostname = host := by
    intro p host
    rw [← hfor p host]
    unfold VerifiedFor
    rw [hdomains₂]
  have hothers : ∀ p, domain.projectId ≠ some p → ∀ id ∈ w₂.appOf p,
      ∀ a ∈ w₂.runtime.apps.find id, ∀ host, host ∈ customerHosts a ↔ VerifiedFor w₂ p host := by
    intro p hp id hid a ha host
    rw [happ₂] at hid
    rw [hruntime₂] at ha
    rw [h.agree.routed p id hid a ha host, hfor₂, or_iff_left]
    exact fun hthis => hp hthis.1
  have hrows : ∀ {w₃ : Estate}, w₃.domains = w₂.domains → ∀ d' ∈ w₃.domains.rows,
      ∃ d ∈ w.domains.rows, SameDomain d d' := by
    intro w₃ hdomains d' hd'
    rw [hdomains, hdomains₂] at hd'
    rcases (hset d').mp hd' with ⟨hold, _⟩ | rfl
    · exact ⟨d', hold, sameDomain_refl d'⟩
    · exact ⟨domain, hmem, rfl, rfl, rfl, rfl⟩
  have hserved₂ : ∀ org host, (org, host) ∈ w₂.edge ↔ VerifiedIn w₂ org host := by
    intro org host
    rw [hserved org host]
    unfold VerifiedIn
    rw [hdomains₂]
  unfold routeVerified
  split
  next hnone =>
    refine hosted_of_rows h horg₂ (hrows rfl) ⟨fun p => hothers p ?_, hserved₂⟩
    rw [hnone]
    exact fun hp => by cases hp
  next project hproject =>
    have horg : w₂.orgOf project = some domain.organizationId := by
      rw [horg₂]
      exact h.placed domain hmem project hproject
    have hhosts : (w₂.appOf project).isSome → ∀ host,
        host ∈ [domain.hostname] ∧ isHostname host = true ↔ VerifiedFor w₂ project host := by
      intro happ host
      obtain ⟨hname, honly⟩ := hanswer project hproject (happ₂ ▸ happ)
      rw [hfor₂, List.mem_singleton]
      constructor
      · rintro ⟨rfl, _⟩
        exact .inr ⟨hproject, rfl⟩
      · rintro (⟨d, hd, hp, hyes, rfl⟩ | ⟨_, rfl⟩)
        · have hid := honly d hd hp hyes
          rw [Option.some.inj ((Table.find_eq_some.mpr ⟨hd, hid⟩).symm.trans hfind)]
          exact ⟨rfl, hname⟩
        · exact ⟨rfl, hname⟩
    have hseated : Seated w₂ :=
      seated_of hw happ₂ (congrArg previewSeat hstore₂) fun i hi => by rw [hruntime₂]; exact hi
    obtain ⟨hdomains₃, hedge₃, hplane₃, hrouted₃⟩ := (@routed_of_list _ _ _ _ _ (s!"set-domains-{domain.id}")) hseated horg (hcreds _) hwire
      (fun p hp => hothers p fun hp' => hp (Option.some.inj (hp'.symm.trans hproject))) hhosts
    refine hosted_of_rows h ?_ (hrows hdomains₃) ⟨hrouted₃, ?_⟩
    · exact (orgOf_of_seat (congrArg (fun x : World => seat x.store) hplane₃)).trans horg₂
    · intro org host
      unfold VerifiedIn
      rw [hedge₃, hdomains₃]
      exact hserved₂ org host

/-- A verification that is admitted tells both engines what the database has, if they are reached. -/
theorem hosted_verifyDomain (h : Hosted w) (hw : Seated w)
    (hcreds : ∀ org, (setup.credentials org).isSome)
    (hwire : ∀ method path, o.wire method path = .answered) (hedge : o.edgeRefusal = none)
    (ctx : CloudWai.RequestContext) (org : OrganizationId) (id : Nat) (answer : VerifierAnswer)
    (hanswers : Admitted (verification ctx org id answer w) (Answers w)) :
    Hosted (verifyDomain setup o ctx org id answer w).2 := by
  unfold verifyDomain
  cases hv : verification ctx org id answer w with
  | error failure => exact h
  | ok v =>
    obtain ⟨domain, yes⟩ := v
    have hanswer : Answers w (domain, yes) := by
      rw [hv] at hanswers
      exact hanswers
    have hfind : w.domains.find domain.id = some domain := by
      obtain ⟨hfound, _⟩ := verification_spec hv
      rwa [(Table.find_eq_some.mp hfound).2]
    cases yes with
    | false =>
      show Hosted (w.setDomainVerification domain.organizationId domain.id false)
      rw [setVerification_false hfind hanswer]
      exact h
    | true => exact hosted_verified h hw hcreds hwire hedge hfind hanswer

/-! ## Removing -/

theorem mem_deleteDomain {domain d : DomainRow} {user : UserId}
    (hfind : w.domains.find domain.id = some domain)
    (hmember : w.store.members domain.organizationId user = true) :
    (w.deleteDomain user domain.organizationId domain.id).1 = true ∧
      (d ∈ (w.deleteDomain user domain.organizationId domain.id).2.domains.rows ↔
        d ∈ w.domains.rows ∧ d.id ≠ domain.id) := by
  have hmem := (Table.find_eq_some.mp hfind).1
  constructor
  · refine List.any_eq_true.mpr ⟨domain, hmem, ?_⟩
    simp only [beq_self_eq_true, Bool.true_and]
    exact hmember
  · refine Table.mem_delete.trans (and_congr_right fun hd => ?_)
    constructor
    · rintro hno hid
      rw [Option.some.inj ((Table.find_eq_some.mpr ⟨hd, hid⟩).symm.trans hfind), hmember] at hno
      simp at hno
    · intro hid
      simp [hid]

/-- **Removing** takes one hostname away everywhere. -/
theorem hosted_withdrawn (h : Hosted w) (hw : Seated w)
    (hcreds : ∀ org, (setup.credentials org).isSome)
    (hwire : ∀ method path, o.wire method path = .answered) (hedge : o.edgeRefusal = none)
    {domain : DomainRow} {user : UserId} (hfind : w.domains.find domain.id = some domain)
    (hmember : w.store.members domain.organizationId user = true) :
    Hosted (routeRemaining setup o user domain (withdraw o domain.organizationId domain.hostname
      (w.deleteDomain user domain.organizationId domain.id).2)) := by
  have hmem := (Table.find_eq_some.mp hfind).1
  have hrows := fun d => (mem_deleteDomain (d := d) hfind hmember).2
  have hother : ∀ d ∈ w.domains.rows, d.id = domain.id → d = domain := fun d hd hid =>
    Option.some.inj ((Table.find_eq_some.mpr ⟨hd, hid⟩).symm.trans hfind)
  unfold withdraw
  rw [hedge]
  simp only
  generalize hw₂ : ((w.deleteDomain user domain.organizationId domain.id).2.removeRoute
    domain.organizationId domain.hostname) = w₂
  have hrows₂ : ∀ d, d ∈ w₂.domains.rows ↔ d ∈ w.domains.rows ∧ d.id ≠ domain.id := by
    rw [← hw₂]
    exact hrows
  have hplane₂ : w₂.plane = w.plane := by rw [← hw₂]; rfl
  have hruntime₂ : w₂.runtime = w.runtime := by rw [← hw₂]; rfl
  have hedge₂ : ∀ e, e ∈ w₂.edge ↔ e ∈ w.edge ∧ e ≠ (domain.organizationId, domain.hostname) := by
    intro e
    rw [← hw₂]
    show e ∈ w.edge.filter _ ↔ _
    rw [List.mem_filter, bne_iff_ne]
  have hstore₂ : w₂.store = w.store := congrArg World.store hplane₂
  have happ₂ : w₂.appOf = w.appOf := appOf_of_seat (congrArg seat hstore₂)
  have horg₂ : w₂.orgOf = w.orgOf := orgOf_of_seat (congrArg seat hstore₂)
  have hserved₂ : ∀ org host, (org, host) ∈ w₂.edge ↔ VerifiedIn w₂ org host := by
    intro org host
    rw [hedge₂, h.agree.served org host]
    constructor
    · rintro ⟨⟨d, hd, horg, hyes, hhost⟩, hne⟩
      refine ⟨d, (hrows₂ d).mpr ⟨hd, fun hid => hne ?_⟩, horg, hyes, hhost⟩
      rw [← horg, ← hhost, hother d hd hid]
    · rintro ⟨d, hd, horg, hyes, hhost⟩
      obtain ⟨hd, hid⟩ := (hrows₂ d).mp hd
      refine ⟨⟨d, hd, horg, hyes, hhost⟩, fun he => hid ?_⟩
      obtain ⟨rfl, rfl⟩ := Prod.mk.injEq .. ▸ he
      rw [h.once d hd domain hmem horg hhost]
  have hothers : ∀ p, domain.projectId ≠ some p → ∀ id ∈ w₂.appOf p,
      ∀ a ∈ w₂.runtime.apps.find id, ∀ host, host ∈ customerHosts a ↔ VerifiedFor w₂ p host := by
    intro p hp id hid a ha host
    rw [happ₂] at hid
    rw [hruntime₂] at ha
    rw [h.agree.routed p id hid a ha host]
    constructor
    · rintro ⟨d, hd, hproject, hyes, hhost⟩
      refine ⟨d, (hrows₂ d).mpr ⟨hd, fun hid => hp ?_⟩, hproject, hyes, hhost⟩
      rw [← hproject, hother d hd hid]
    · rintro ⟨d, hd, hproject, hyes, hhost⟩
      exact ⟨d, ((hrows₂ d).mp hd).1, hproject, hyes, hhost⟩
  have hkept : ∀ {w₃ : Estate}, w₃.domains = w₂.domains → ∀ d' ∈ w₃.domains.rows,
      ∃ d ∈ w.domains.rows, SameDomain d d' := by
    intro w₃ hdomains d' hd'
    rw [hdomains] at hd'
    exact ⟨d', ((hrows₂ d').mp hd').1, sameDomain_refl d'⟩
  unfold routeRemaining
  split
  next hnone =>
    refine hosted_of_rows h horg₂ (hkept rfl) ⟨fun p => hothers p ?_, hserved₂⟩
    rw [hnone]
    exact fun hp => by cases hp
  next project hproject =>
    have horg : w₂.orgOf project = some domain.organizationId := by
      rw [horg₂]
      exact h.placed domain hmem project hproject
    have hhosts : (w₂.appOf project).isSome → ∀ host,
        host ∈ (((w₂.listDomains user domain.organizationId).filter fun d =>
          d.projectId == some project && d.verified && d.id != domain.id).map (·.hostname)) ∧
          isHostname host = true ↔ VerifiedFor w₂ project host := by
      intro happ host
      have hlisted : host ∈ (((w₂.listDomains user domain.organizationId).filter fun d =>
          d.projectId == some project && d.verified && d.id != domain.id).map (·.hostname)) ↔
          VerifiedFor w₂ project host := by
        simp only [Estate.listDomains, hstore₂, hmember, List.mem_map, List.mem_filter,
          Bool.and_true, Bool.and_eq_true, beq_iff_eq, bne_iff_ne]
        constructor
        · rintro ⟨d, ⟨⟨hd, _⟩, ⟨hp, hyes⟩, _⟩, hhost⟩
          exact ⟨d, hd, hp, hyes, hhost⟩
        · rintro ⟨d, hd, hp, hyes, hhost⟩
          obtain ⟨hold, hid⟩ := (hrows₂ d).mp hd
          have hin := (h.placed d hold project hp).symm.trans (h.placed domain hmem project hproject)
          exact ⟨d, ⟨⟨hd, Option.some.inj hin⟩, ⟨hp, hyes⟩, hid⟩, hhost⟩
      rw [hlisted, and_iff_left_iff_imp]
      rintro ⟨d, hd, hp, hyes, hhost⟩
      -- The application had this hostname already, so it is one the runtime routes.
      obtain ⟨id, hid⟩ := Option.isSome_iff_exists.mp happ
      rw [happ₂] at hid
      obtain ⟨a, ha⟩ := Option.isSome_iff_exists.mp (hw.named project id hid)
      have hhad : host ∈ customerHosts a :=
        (h.agree.routed project id hid a ha host).mpr ⟨d, ((hrows₂ d).mp hd).1, hp, hyes, hhost⟩
      exact (List.mem_filter.mp hhad).2
    have hseated : Seated w₂ :=
      seated_of hw happ₂ (congrArg previewSeat hstore₂) fun i hi => by rw [hruntime₂]; exact hi
    obtain ⟨hdomains₃, hedge₃, hplane₃, hrouted₃⟩ := (@routed_of_list _ _ _ _ _ (s!"withdraw-domains-{domain.id}")) hseated horg (hcreds _) hwire
      (fun p hp => hothers p fun hp' => hp (Option.some.inj (hp'.symm.trans hproject))) hhosts
    refine hosted_of_rows h ?_ (hkept hdomains₃) ⟨hrouted₃, ?_⟩
    · exact (orgOf_of_seat (congrArg (fun x : World => seat x.store) hplane₃)).trans horg₂
    · intro org host
      unfold VerifiedIn
      rw [hedge₃, hdomains₃]
      exact hserved₂ org host

theorem hosted_removeDomain (h : Hosted w) (hw : Seated w)
    (hcreds : ∀ org, (setup.credentials org).isSome)
    (hwire : ∀ method path, o.wire method path = .answered) (hedge : o.edgeRefusal = none)
    (ctx : CloudWai.RequestContext) (org : OrganizationId) (id : Nat) :
    Hosted (removeDomain setup o ctx org id w).2 := by
  unfold removeDomain
  cases hd : domainFor ctx .domainDelete org id w with
  | error failure => exact h
  | ok domain =>
    obtain ⟨hfound, rfl, hmember⟩ := domainFor_spec hd
    obtain rfl := (Table.find_eq_some.mp hfound).2
    obtain ⟨hdeleted, _⟩ := mem_deleteDomain (d := domain) hfound hmember
    have hwithdrawn := (@hosted_withdrawn setup) h hw hcreds hwire hedge hfound hmember
    simp only
    generalize w.deleteDomain ctx.userId domain.organizationId domain.id = x at hdeleted hwithdrawn ⊢
    obtain ⟨yes, w'⟩ := x
    cases hdeleted
    exact hwithdrawn

/-! ## Runs -/

/-- **Hostnames stay where the table has them**, by each operation whose calls
succeed and that meets the condition. -/
theorem hosted_step (h : Sound w) (hh : Hosted w) (m : Move) (hm : HostsFollow w m)
    (hcalls : CallsSucceed setup m) : Hosted (step setup w m) := by
  obtain ⟨op, o⟩ := m
  obtain ⟨hcreds, hwire, hedge⟩ := hcalls
  cases op with
  | request ctx input =>
    exact hosted_same hh (sameHosts_of_quiet (step_request h.lawful ctx input).1)
  | rollback ctx project key commit =>
    exact hosted_same hh (sameHosts_of_quiet (step_rollback h.lawful ctx project key commit).1)
  | deliver options id =>
    by_cases hjob : w.plane.jobs.find id = none
    · simp only [step, hjob]
      exact hh
    · obtain ⟨job, hjob⟩ := Option.ne_none_iff_exists'.mp hjob
      have hfirst : FirstDeploy w job.payload := hm job hjob
      refine (step_deliver options id h.seated (K := fun w' => Hosted w' ∧ w'.domains = w.domains ∧
        (w'.appOf job.payload.projectId = none → w.appOf job.payload.projectId = none))
        ⟨hh, rfl, fun hnone => hnone⟩ ?_).2.1
      intro job' hjob' ctx
      obtain rfl : job = job' := Option.some.inj (hjob.symm.trans hjob')
      exact hosted_deliver hfirst ctx
  | finish attempt outcome =>
    exact hosted_same hh (sameHosts_of_quiet (step_finish attempt outcome))
  | setEnvVar ctx input =>
    exact hosted_same hh ((sameHosts_setEnvVar ctx input).trans
      (sameHosts_of_present (noteSave_same setup ctx input w _)))
  | removeEnvVar ctx input =>
    exact hosted_same hh ((sameHosts_removeEnvVar ctx input).trans
      (sameHosts_of_present (noteRemoval_same ctx input w _)))
  | addDomain token ctx input => exact hosted_addDomain hh token ctx input
  | verifyDomain ctx org id answer =>
    exact hosted_verifyDomain hh h.seated hcreds hwire hedge ctx org id answer hm
  | removeDomain ctx org id =>
    exact hosted_removeDomain hh h.seated hcreds hwire hedge ctx org id

theorem calm_succeeds {ops : List Op} :
    ∀ m ∈ ops.map fun op => Move.mk op calm, CallsSucceed installation m := by
  refine List.forall_mem_map.mpr fun op _ => ⟨fun _ => rfl, fun _ _ => rfl, rfl⟩

/-- A deploy, and hostnames of its project. -/
def addedTo (hosts : List String) : List Op :=
  [.request owner production, .deliver aWorker 0] ++
    hosts.map fun host => .addDomain "token" theOwner ⟨1, some 0, host⟩

def verified (id : Nat) : Op := .verifyDomain theOwner 1 id (.ok .succeeded true)

/-- One hostname is verified, asked about again and removed. -/
def oneHost : List Move :=
  (addedTo ["a.example.com"] ++ [verified 0, verified 0, .removeDomain theOwner 1 0]).map
    fun op => ⟨op, calm⟩

/-- Two hostnames are verified, one after the other. -/
def twoHosts : List Move :=
  (addedTo ["a.example.com", "b.example.com"] ++ [verified 0, verified 1]).map fun op => ⟨op, calm⟩

end CloudWai.Runtime
