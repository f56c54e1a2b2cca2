import CloudWai.Deployment.Alone

/-!
# What a branch's deliveries build

A provider announces each movement of a branch's head in a delivery, and announces some
of them more than once. The receiver knows a delivery again by a key made of the link,
the branch and the commit, and looks that key up among all the rows there ever were. So
the key names a commit and not a movement: a head that goes back to an earlier commit is
taken for a delivery made twice. And where the parser finds no commit, as in Bitbucket's
body, every push of the branch has one key.

`followed_iff` is the exact condition under which the newest row of the branch follows
its head and nothing but a redelivery is taken for one.

About `deployFromDelivery` of `apps/api/src/git-hook.ts`, as `Hook.lean` has it.
-/

namespace CloudWai.Deployment

open Base Grammar Pattern Queue ControlPlaneStore

/-! ## One delivery, undisturbed -/

/-- A verified delivery, from the first request to the answer. -/
def World.receive (w : World) (away : Elsewhere) (link : ProjectGitLink)
    (delivery : ParsedGitDelivery) : Except String GitHookOutcome × World :=
  (deployFromDelivery link delivery).eval (World.serve away) w

/-- The answer to a delivery that is known. -/
def replayed : GitHookOutcome := ⟨200, true, some "replayed"⟩

/-- Some row of the organization has the key. -/
def World.HasKey (w : World) (org : OrganizationId) (key : String) : Prop :=
  ∃ r ∈ w.store.deployments.rows, r.organizationId = org ∧ r.idempotencyKey = key

theorem leavesRows_recordHookPreview (link : ProjectGitLink) (delivery : ParsedGitDelivery) :
    (recordHookPreview link delivery).Only LeavesRows := by
  unfold recordHookPreview
  split
  · trivial
  · refine Prog.only_bind (only_must trivial) fun found => ?_
    cases found with
    | none => exact only_must trivial
    | some target => trivial

/-- What the receiver asks of a delivery before it looks for its key. -/
structure Heeded (w : World) (away : Elsewhere) (link : ProjectGitLink)
    (delivery : ParsedGitDelivery) : Prop where
  project : (w.store.project link.organizationId link.projectId).isSome
  budget : away.refusal = none
  target : delivery.branch.isSome ∨ delivery.pullRequest.isSome
  previews : delivery.kind link = .production ∨ link.previewsEnabled = true
  source : (cloneUrlFor link.provider link.repository).isSome

section Receive

variable {w : World} {away : Elsewhere} {link : ProjectGitLink} {delivery : ParsedGitDelivery}

/-- The rows a key's lookup can find. -/
theorem hasKey_iff {org : OrganizationId} {key : String} :
    w.HasKey org key ↔ ∃ r, w.store.deployments.rows.find? (fun r =>
      r.organizationId == org && r.idempotencyKey == key) = some r := by
  rw [← Option.isSome_iff_exists, List.find?_isSome]
  simp only [World.HasKey, Bool.and_eq_true, beq_iff_eq]

/-- As far as the lookup of the key. -/
theorem receive_lookup (h : Heeded w away link delivery) :
    ∃ project gitRepository,
      w.store.project link.organizationId link.projectId = some project ∧
      w.receive away link delivery =
        match w.store.deployments.rows.find? fun r =>
          r.organizationId == link.organizationId &&
            r.idempotencyKey == delivery.idempotencyKey link with
        | some _ => (.ok replayed, w)
        | none => (deployNew link delivery project gitRepository).eval (World.serve away) w := by
  obtain ⟨project, hproject⟩ := Option.isSome_iff_exists.mp h.project
  obtain ⟨gitRepository, hsource⟩ := Option.isSome_iff_exists.mp h.source
  refine ⟨project, gitRepository, hproject, ?_⟩
  unfold World.receive deployFromDelivery getProjectForService
  refine (eval_must (c := .selectProject _ _) (a := some project) (s := w.store)
    (by simp only [StoreCall.run, hproject])).trans ?_
  refine (eval_must (c := .hardCapRefusal _ _) (a := none) (s := w.store)
    (by simp only [StoreCall.run, h.budget])).trans ?_
  have htarget : ¬ (delivery.branch = none ∧ delivery.pullRequest = none) := by
    rintro ⟨hb, hp⟩
    have := h.target
    rw [hb, hp] at this
    simp at this
  have hpreviews : ¬ (delivery.kind link = .preview ∧ link.previewsEnabled = false) := by
    rintro ⟨hk, he⟩
    have := h.previews
    rw [hk, he] at this
    simp at this
  simp only [htarget, hpreviews, if_false, hsource]
  refine (eval_must (c := .selectDeploymentByKeyForService _ _) (s := w.store) rfl).trans ?_
  cases w.store.deployments.rows.find? fun r =>
      r.organizationId == link.organizationId &&
        r.idempotencyKey == delivery.idempotencyKey link with
  | some existing => rfl
  | none => rfl

/-- **A known key** is answered, and nothing is done. -/
theorem receive_known (h : Heeded w away link delivery)
    (hkey : w.HasKey link.organizationId (delivery.idempotencyKey link)) :
    w.receive away link delivery = (.ok replayed, w) := by
  obtain ⟨project, gitRepository, _, hlookup⟩ := receive_lookup h
  obtain ⟨r, hr⟩ := hasKey_iff.mp hkey
  rw [hlookup, hr]

/-- One row more, for the branch and the commit that were delivered. -/
def Adds (link : ProjectGitLink) (delivery : ParsedGitDelivery) (w w' : World) : Prop :=
  ∃ row : DeploymentRow, w'.store.deployments.rows = w.store.deployments.rows ++ [row] ∧
    row.organizationId = link.organizationId ∧
    row.idempotencyKey = delivery.idempotencyKey link ∧
    row.projectId = link.projectId ∧ row.gitBranch = delivery.branch ∧
    row.gitCommit = delivery.commit

/-- Where the table takes the row, a delivery adds it with its job. -/
theorem ends_deployNew {project : ProjectRow} {gitRepository : String}
    (haccepts : ∀ environmentId, w.store.accepts
      (hookRow link delivery project gitRepository environmentId) = true) :
    (deployNew link delivery project gitRepository).Ends (World.serve away)
      (fun r w' => r ≠ .ok replayed ∧ Adds link delivery w w') w := by
  unfold deployNew
  refine Prog.ends_bind (Q := fun r w' => (∃ a, r = .ok a) ∧ w' = w) ?_ ?_ ?_
  · exact ends_must (c := .selectEnvironmentsForService _ _) (s := w.store) rfl
      (Prog.ends_ret ⟨⟨_, rfl⟩, rfl⟩)
  · rintro environmentId w₀ ⟨_, rfl⟩
    refine ends_must (c := .insertDeployment _) (if_pos (haccepts _)) ?_
    -- from here on the row is there, whatever else is refused
    have hadds : ∀ w' : World, w'.store.deployments = w₀.store.deployments.insertNew
        ⟨(hookRow link delivery project gitRepository environmentId).row w₀.now, fun _ => rfl⟩ →
        Adds link delivery w₀ w' := by
      intro w' hw'
      refine ⟨(hookRow link delivery project gitRepository environmentId).row w₀.now
        w₀.store.deployments.nextId, ?_, rfl, rfl, rfl, rfl, rfl⟩
      rw [hw']
      rfl
    refine Prog.ends_bind (ends_leavesRows (leavesRows_recordHookPreview link delivery) rfl) ?_
      fun _ w' hw' => ⟨nofun, hadds w' hw'⟩
    intro _ w₁ h₁
    refine Prog.ends_bind (ends_leavesRows (leavesRows_onQueue _) h₁) ?_
      fun _ w' hw' => ⟨nofun, hadds w' hw'⟩
    intro _ w₂ h₂
    refine Prog.ends_bind (ends_leavesRows (only_must trivial) h₂) ?_
      fun _ w' hw' => ⟨nofun, hadds w' hw'⟩
    intro _ w₃ h₃
    exact Prog.ends_ret ⟨by decide, hadds w₃ h₃⟩
  · rintro e w₀ ⟨⟨a, ha⟩, _⟩
    cases ha

/-- **A new key** is a new row, the last of the table, and no replay. -/
theorem receive_new (h : Heeded w away link delivery)
    (hkey : ¬ w.HasKey link.organizationId (delivery.idempotencyKey link)) :
    (w.receive away link delivery).1 ≠ .ok replayed ∧
      Adds link delivery w (w.receive away link delivery).2 := by
  obtain ⟨project, gitRepository, hproject, hlookup⟩ := receive_lookup h
  have hnone : w.store.deployments.rows.find? (fun r =>
      r.organizationId == link.organizationId &&
        r.idempotencyKey == delivery.idempotencyKey link) = none := by
    refine Option.eq_none_iff_forall_ne_some.mpr fun r hr => hkey (hasKey_iff.mpr ⟨r, hr⟩)
  rw [hlookup, hnone]
  refine ends_deployNew ?_
  intro environmentId
  have hfind : (w.store.projects.find link.projectId).isSome := by
    obtain ⟨hfind, _⟩ := Option.filter_eq_some_iff.mp hproject
    rw [hfind]
    rfl
  have hany : w.store.deployments.rows.any (fun r =>
      r.organizationId == link.organizationId &&
        r.idempotencyKey == delivery.idempotencyKey link) = false := by
    rw [List.any_eq_false]
    intro r hr hsame
    exact absurd hsame (List.find?_eq_none.mp hnone r hr)
  simp only [Store.accepts, hookRow, hfind, hany]
  rfl

/-- A delivery adds its own key and no other. -/
theorem hasKey_receive (h : Heeded w away link delivery) (key : String) :
    (w.receive away link delivery).2.HasKey link.organizationId key ↔
      w.HasKey link.organizationId key ∨ key = delivery.idempotencyKey link := by
  by_cases hkey : w.HasKey link.organizationId (delivery.idempotencyKey link)
  · rw [receive_known h hkey]
    refine ⟨.inl, ?_⟩
    rintro (hw | rfl)
    · exact hw
    · exact hkey
  · obtain ⟨_, row, hrows, horg, hrow, _⟩ := receive_new h hkey
    simp only [World.HasKey, hrows, List.mem_append, List.mem_singleton]
    constructor
    · rintro ⟨r, hr | rfl, horg', hkey'⟩
      · exact .inl ⟨r, hr, horg', hkey'⟩
      · exact .inr (hkey'.symm.trans hrow)
    · rintro (⟨r, hr, hsame⟩ | rfl)
      · exact ⟨r, .inl hr, hsame⟩
      · exact ⟨row, .inr rfl, horg, hrow⟩

end Receive

/-! ## Pushes of one branch -/

/-- The event's name in the delivery's header. -/
def GitProvider.pushEvent : GitProvider → String
  | .github => "push"
  | .gitlab => "Push Hook"
  | .bitbucket => "repo:push"
  | .generic => "push"

/-- Whether the provider's body has the new head in `after`. -/
def GitProvider.reportsCommit : GitProvider → Bool
  | .bitbucket => false
  | _ => true

/-- The body says that `branch` now points to `commit`, in the provider's own shape. -/
structure Announces (provider : GitProvider) (branch commit : String) (body : Json) : Prop where
  record : ∃ fields, body = .object fields
  noPull : body.field "pull_request" = none ∧ body.field "pullrequest" = none
  noMerge : stringAt (body.field "object_kind") ≠ some "merge_request"
  head : match provider with
    | .bitbucket =>
      body.field "ref" = none ∧ body.field "after" = none ∧
        let change := fieldOf (firstOf (fieldOf (body.field "push") "changes")) "new"
        stringAt (fieldOf change "name") = some branch ∧
          stringAt (fieldOf (fieldOf change "target") "hash") = some commit
    | _ => stringAt (body.field "ref") = some (headsPrefix ++ branch) ∧
        stringAt (body.field "after") = some commit

/-- The commit the receiver makes of it. -/
def GitProvider.reported (provider : GitProvider) (commit : String) : Option String :=
  if provider.reportsCommit then (some commit).filter isCommit else none

theorem branchOfRef_heads (branch : String) :
    branchOfRef (headsPrefix ++ branch) = some branch := by
  have hlist : (headsPrefix ++ branch).toList = headsPrefix.toList ++ branch.toList :=
    String.toList_append
  unfold branchOfRef
  rw [hlist, if_pos (List.isPrefixOf_iff_prefix.mpr ⟨_, rfl⟩)]
  have hlength : headsPrefix.length = headsPrefix.toList.length := by rw [String.length_toList]
  rw [hlength, List.drop_left, String.ofList_toList]

/-- No push's event is a pull request's. -/
theorem pushEvent_noPull (provider : GitProvider) :
    includes (lowerCase provider.pushEvent) "pull_request" = false ∧
      includes (lowerCase provider.pushEvent) "pullrequest" = false := by
  unfold includes lowerCase
  rw [String.toList_ofList]
  cases provider <;> exact ⟨by decide, by decide⟩

/-- **What is read of a push.** -/
theorem parse_push {provider : GitProvider} {branch commit : String} {body : Json}
    (h : Announces provider branch commit body) :
    ∃ event, parseGitDelivery (some provider.pushEvent) (some body) =
      ⟨some branch, provider.reported commit, none, event, false⟩ := by
  obtain ⟨hincludes, hincludes'⟩ := pushEvent_noPull provider
  have hparse : parseGitDelivery (some provider.pushEvent) (some body) =
      parsePush body (lowerCase provider.pushEvent) := by
    obtain ⟨fields, rfl⟩ := h.record
    have hmerge : (stringAt ((Json.object fields).field "object_kind") ==
        some "merge_request") = false := beq_eq_false_iff_ne.mpr h.noMerge
    unfold parseGitDelivery
    simp only [Option.some_or, Option.getD_some, hincludes, hincludes', hmerge, h.noPull.1,
      h.noPull.2, Option.isSome_none, Bool.or_self, Bool.false_eq_true, if_false]
  have hread : (parsePush body (lowerCase provider.pushEvent)).branch = some branch ∧
      (parsePush body (lowerCase provider.pushEvent)).commit = provider.reported commit := by
    have hhead := h.head
    cases provider with
    | bitbucket =>
      obtain ⟨href, hafter, hname, _⟩ := hhead
      simp only [parsePush, href, hafter, hname]
      exact ⟨rfl, rfl⟩
    | github | gitlab | generic =>
      obtain ⟨href, hafter⟩ := hhead
      simp only [parsePush, href, hafter, Option.bind_some, branchOfRef_heads, Option.some_or]
      exact ⟨trivial, rfl⟩
  refine ⟨(parsePush body (lowerCase provider.pushEvent)).event, ?_⟩
  rw [hparse, ← hread.1, ← hread.2]
  rfl

/-! ## Histories -/

/-- A branch of a linked repository, and the commits its head is moved to in turn. -/
structure Branch where
  link : ProjectGitLink
  name : String
  heads : Nat → String

/-- A delivery: the movement it announces, and the world that receives it. -/
structure Receipt where
  movement : Nat
  body : Json
  found : World
  away : Elsewhere

/-- The first delivery of a movement moves the branch. -/
def MovesHead (earlier : List Receipt) (r : Receipt) : Prop :=
  ∀ e ∈ earlier, e.movement ≠ r.movement

/-- The deployment of a branch that was requested last. -/
def World.newest (w : World) (project : ProjectId) (branch : String) : Option DeploymentRow :=
  (w.store.deployments.rows.filter fun r =>
    r.projectId == project && r.gitBranch == some branch).getLast?

namespace Branch

variable (b : Branch)

/-- The push as it is parsed. -/
def delivery (r : Receipt) : ParsedGitDelivery :=
  parseGitDelivery (some b.link.provider.pushEvent) (some r.body)

/-- The answer to a delivery, and the world it leaves. -/
def answered (r : Receipt) : Except String GitHookOutcome × World :=
  r.found.receive r.away b.link (b.delivery r)

/-- Its idempotency key. -/
def key (r : Receipt) : String := (b.delivery r).idempotencyKey b.link

/-- The key of a push of the branch. -/
def keyOf (commit : Option String) : String :=
  ParsedGitDelivery.idempotencyKey ⟨some b.name, commit, none, "", false⟩ b.link

/-- Whatever happens between two deliveries of the branch (workers, other branches,
members), it neither makes nor removes a row with one of the branch's keys. -/
def Meanwhile (w w' : World) : Prop :=
  ∀ commit, w'.HasKey b.link.organizationId (b.keyOf commit) ↔
    w.HasKey b.link.organizationId (b.keyOf commit)

/-- The deliveries arrive one after another from `w` on, each of the branch and heeded. -/
def Arrive : World → List Receipt → Prop
  | _, [] => True
  | w, r :: rest =>
    b.Meanwhile w r.found ∧
    Announces b.link.provider b.name (b.heads r.movement) r.body ∧
    Heeded r.found r.away b.link (b.delivery r) ∧
    Arrive (b.answered r).2 rest

/-- A history of deliveries, from before the first of them. -/
def History (rs : List Receipt) : Prop :=
  ∃ w, (∀ commit, ¬ w.HasKey b.link.organizationId (b.keyOf commit)) ∧ b.Arrive w rs

/-- After a delivery that moves the branch the newest row is for the new head, and a
delivery is taken for an earlier one only where both announce one movement. -/
def Followed (rs : List Receipt) : Prop :=
  ∀ earlier r later, rs = earlier ++ r :: later →
    (MovesHead earlier r →
      ((b.answered r).2.newest b.link.projectId b.name).map (·.gitCommit) =
        some (some (b.heads r.movement))) ∧
    ((b.answered r).1 = .ok replayed →
      ∀ e ∈ earlier, b.key e = b.key r → e.movement = r.movement)

/-- Each movement is to a commit that the body names, and to one the branch was not
moved to before. -/
def Told (rs : List Receipt) : Prop :=
  ∀ earlier r later, rs = earlier ++ r :: later → MovesHead earlier r →
    b.link.provider.reportsCommit = true ∧ isCommit (b.heads r.movement) = true ∧
      ∀ e ∈ earlier, b.heads e.movement ≠ b.heads r.movement

variable {b}

/-- A push's key, from the commit it announces. -/
theorem key_eq {r : Receipt}
    (h : Announces b.link.provider b.name (b.heads r.movement) r.body) :
    b.key r = b.keyOf (b.link.provider.reported (b.heads r.movement)) := by
  obtain ⟨event, hparse⟩ := parse_push h
  unfold key delivery
  rw [hparse]
  rfl

/-- A key is a commit's, as far as there is one. -/
theorem keyOf_injective {commit : String} {other : Option String} (hcommit : isCommit commit = true)
    (hother : ∀ c, other = some c → isCommit c = true)
    (h : b.keyOf other = b.keyOf (some commit)) : other = some commit := by
  have hlast : other.getD "latest" = commit := (String.append_right_inj _).mp h
  cases other with
  | some c => exact congrArg some hlast
  | none =>
    rw [← show "latest" = commit from hlast] at hcommit
    exact absurd hcommit (by decide)

/-- The keys a delivery finds are those delivered before. -/
theorem found_keys {earlier : List Receipt} {r : Receipt} {later : List Receipt} {w : World}
    (h : b.Arrive w (earlier ++ r :: later)) (commit : Option String) :
    r.found.HasKey b.link.organizationId (b.keyOf commit) ↔
      w.HasKey b.link.organizationId (b.keyOf commit) ∨
        ∃ e ∈ earlier, b.key e = b.keyOf commit := by
  induction earlier generalizing w with
  | nil =>
    rw [h.1 commit]
    simp
  | cons e earlier ih =>
    obtain ⟨hmeanwhile, _, hheeded, hrest⟩ := h
    rw [ih hrest]
    have hkeys := hasKey_receive hheeded (b.keyOf commit)
    rw [show (b.answered e).2 = (e.found.receive e.away b.link (b.delivery e)).2 from rfl, hkeys,
      hmeanwhile commit, or_assoc, List.exists_mem_cons_iff]
    exact or_congr_right (or_congr_left eq_comm)

theorem arrive_mem {rs : List Receipt} {w : World} (h : b.Arrive w rs) :
    ∀ r ∈ rs, Announces b.link.provider b.name (b.heads r.movement) r.body ∧
      Heeded r.found r.away b.link (b.delivery r) := by
  induction rs generalizing w with
  | nil => exact fun r hr => absurd hr List.not_mem_nil
  | cons first rest ih =>
    intro r hr
    rcases List.mem_cons.mp hr with rfl | hr
    · exact ⟨h.2.1, h.2.2.1⟩
    · exact ih h.2.2.2 r hr

/-- The row a new delivery makes is the newest of the branch. -/
theorem newest_of_adds {r : Receipt}
    (hannounces : Announces b.link.provider b.name (b.heads r.movement) r.body)
    (h : Adds b.link (b.delivery r) r.found (b.answered r).2) :
    ((b.answered r).2.newest b.link.projectId b.name).map (·.gitCommit) =
      some (b.link.provider.reported (b.heads r.movement)) := by
  obtain ⟨event, hparse⟩ := parse_push hannounces
  obtain ⟨row, hrows, _, _, hproject, hbranch, hcommit⟩ := h
  rw [show b.delivery r = _ from hparse] at hbranch hcommit
  have hlast : ((b.answered r).2.store.deployments.rows.filter fun r =>
      r.projectId == b.link.projectId && r.gitBranch == some b.name).getLast? = some row := by
    rw [hrows, List.filter_append, List.filter_cons_of_pos (by simp [hproject, hbranch])]
    simp
  rw [World.newest, hlast, Option.map_some, hcommit]

/-- A delivery that finds its key was preceded by one with it. -/
theorem known_iff {earlier : List Receipt} {r : Receipt} {later : List Receipt} {w : World}
    (hfresh : ∀ commit, ¬ w.HasKey b.link.organizationId (b.keyOf commit))
    (h : b.Arrive w (earlier ++ r :: later)) :
    r.found.HasKey b.link.organizationId (b.key r) ↔ ∃ e ∈ earlier, b.key e = b.key r := by
  have hr := arrive_mem h r (List.mem_append_right _ (List.mem_cons_self ..))
  rw [key_eq hr.1, found_keys h]
  exact or_iff_right (hfresh _)

/-- A commit that is reported is the one announced. -/
theorem reported_eq_some {provider : GitProvider} {commit : String} :
    provider.reported commit = some commit ↔
      provider.reportsCommit = true ∧ isCommit commit = true := by
  unfold GitProvider.reported
  split
  next h => simp [h, Option.filter_eq_some_iff]
  next h => simp [h]

theorem isCommit_of_reported {provider : GitProvider} {commit c : String}
    (h : provider.reported commit = some c) : isCommit c = true := by
  unfold GitProvider.reported at h
  split at h
  · exact (Option.filter_eq_some_iff.mp h).2
  · cases h

/-- Where the rows follow the branch, each movement was told apart from those before. -/
theorem told_of_followed {rs : List Receipt} (h : b.History rs) (hfollowed : b.Followed rs) :
    b.Told rs := by
  rintro earlier r later rfl hmoves
  obtain ⟨w, hfresh, harrive⟩ := h
  obtain ⟨hannounces, hheeded⟩ :=
    arrive_mem harrive r (List.mem_append_right _ (List.mem_cons_self ..))
  obtain ⟨hnewest, hreplay⟩ := hfollowed earlier r later rfl
  have hnone : ∀ e ∈ earlier, b.key e ≠ b.key r := by
    intro e he hkey
    have hknown := (known_iff hfresh harrive).mpr ⟨e, he, hkey⟩
    have hreply : (b.answered r).1 = .ok replayed :=
      congrArg Prod.fst (receive_known hheeded hknown)
    exact hmoves e he (hreplay hreply e he hkey)
  have hnew : ¬ r.found.HasKey b.link.organizationId (b.key r) := by
    rw [known_iff hfresh harrive]
    rintro ⟨e, he, hkey⟩
    exact hnone e he hkey
  have hadds := (receive_new hheeded hnew).2
  have hreported := (newest_of_adds hannounces hadds).symm.trans (hnewest hmoves)
  obtain ⟨hreports, hcommit⟩ := reported_eq_some.mp (Option.some.inj hreported)
  refine ⟨hreports, hcommit, ?_⟩
  intro e he hheads
  refine hnone e he ?_
  have heann := (arrive_mem harrive e (List.mem_append_left _ he)).1
  rw [key_eq heann, key_eq hannounces, hheads]

/-- The first delivery of a movement that was delivered. -/
theorem first_of {rs : List Receipt} {r : Receipt} (h : r ∈ rs) :
    ∃ earlier first later, rs = earlier ++ first :: later ∧ MovesHead earlier first ∧
      first.movement = r.movement := by
  have hsome : (rs.find? fun e => e.movement == r.movement).isSome :=
    List.find?_isSome.mpr ⟨r, h, beq_self_eq_true _⟩
  obtain ⟨first, hfirst⟩ := Option.isSome_iff_exists.mp hsome
  obtain ⟨hp, earlier, later, rfl, hearlier⟩ := List.find?_eq_some_iff_append.mp hfirst
  have hsame : first.movement = r.movement := beq_iff_eq.mp hp
  refine ⟨earlier, first, later, rfl, ?_, hsame⟩
  intro e he hmovement
  have hne := hearlier e he
  rw [hmovement, hsame, beq_self_eq_true] at hne
  cases hne

/-- Where each movement is told, a commit is one movement's. -/
theorem heads_injective {rs : List Receipt} (h : b.Told rs) {e r : Receipt} (he : e ∈ rs)
    (hr : r ∈ rs) (hheads : b.heads e.movement = b.heads r.movement) :
    e.movement = r.movement := by
  obtain ⟨before, e', after, hsplit, hmoves, hmovement⟩ := first_of he
  obtain ⟨before', r', after', hsplit', hmoves', hmovement'⟩ := first_of hr
  have htold := (h before e' after hsplit hmoves).2.2
  have htold' := (h before' r' after' hsplit' hmoves').2.2
  rw [← hmovement, ← hmovement'] at hheads ⊢
  rw [hsplit] at hsplit'
  rcases List.append_eq_append_iff.mp hsplit' with ⟨between, hbefore, hafter⟩ | ⟨between, hbefore, hafter⟩
  · cases between with
    | nil => rw [(List.cons.inj hafter).1]
    | cons first between =>
      rw [← (List.cons.inj hafter).1] at hbefore
      exact absurd hheads (htold' e' (by rw [hbefore]; simp))
  · cases between with
    | nil => rw [(List.cons.inj hafter).1]
    | cons first between =>
      rw [← (List.cons.inj hafter).1] at hbefore
      exact absurd hheads.symm (htold r' (by rw [hbefore]; simp))

/-- And then the rows follow the branch. -/
theorem followed_of_told {rs : List Receipt} (h : b.History rs) (htold : b.Told rs) :
    b.Followed rs := by
  rintro earlier r later rfl
  obtain ⟨w, hfresh, harrive⟩ := h
  have hmem : r ∈ earlier ++ r :: later := List.mem_append_right _ (List.mem_cons_self ..)
  obtain ⟨hannounces, hheeded⟩ := arrive_mem harrive r hmem
  have hreported : b.link.provider.reported (b.heads r.movement) = some (b.heads r.movement) := by
    obtain ⟨before, first, after, hsplit, hmoves, hmovement⟩ := first_of hmem
    obtain ⟨hreports, hcommit, _⟩ := htold before first after hsplit hmoves
    rw [hmovement] at hcommit
    exact reported_eq_some.mpr ⟨hreports, hcommit⟩
  have hsame : ∀ e ∈ earlier, b.key e = b.key r → b.heads e.movement = b.heads r.movement := by
    intro e he hkey
    have heann := (arrive_mem harrive e (List.mem_append_left _ he)).1
    rw [key_eq heann, key_eq hannounces, hreported] at hkey
    have hother := keyOf_injective (isCommit_of_reported hreported)
      (fun c hc => isCommit_of_reported hc) hkey
    unfold GitProvider.reported at hother
    split at hother
    · exact Option.some.inj (Option.filter_eq_some_iff.mp hother).1
    · cases hother
  constructor
  · intro hmoves
    have hnew : ¬ r.found.HasKey b.link.organizationId (b.key r) := by
      rw [known_iff hfresh harrive]
      rintro ⟨e, he, hkey⟩
      exact (htold earlier r later rfl hmoves).2.2 e he (hsame e he hkey)
    rw [newest_of_adds hannounces (receive_new hheeded hnew).2, hreported]
  · intro _ e he hkey
    exact heads_injective htold (List.mem_append_left _ he) hmem (hsame e he hkey)

/-- What it takes for a push to be heeded. -/
theorem heeded_push {r : Receipt}
    (hannounces : Announces b.link.provider b.name (b.heads r.movement) r.body)
    (hproject : (r.found.store.project b.link.organizationId b.link.projectId).isSome)
    (hbudget : r.away.refusal = none)
    (hpreviews : b.name = b.link.productionBranch ∨ b.link.previewsEnabled = true)
    (hsource : (cloneUrlFor b.link.provider b.link.repository).isSome) :
    Heeded r.found r.away b.link (b.delivery r) := by
  obtain ⟨event, hparse⟩ := parse_push hannounces
  rw [show b.delivery r = _ from hparse]
  refine ⟨hproject, hbudget, .inl rfl, ?_, hsource⟩
  rcases hpreviews with hname | henabled
  · left
    rw [hname]
    exact if_neg (by simp)
  · exact .inr henabled

/-- **The newest row follows the branch** exactly where every movement is to a commit the
body names and the branch was not moved to before. -/
theorem followed_iff {rs : List Receipt} (h : b.History rs) : b.Followed rs ↔ b.Told rs :=
  ⟨told_of_followed h, followed_of_told h⟩

end Branch

/-! ## A branch that goes back -/

/-- The production branch of a linked repository: its head goes to a first commit, to a
second, and back. -/
def mainBranch : Branch where
  link := ⟨"link", 1, 0, .github, "acme/site", "main", false, 7⟩
  name := "main"
  heads n := if n = 1 then "bbbbbbb" else "aaaaaaa"

/-- The push that a movement is announced by. -/
def mainPush (movement : Nat) (found : World) : Receipt where
  movement := movement
  body := .object [("ref", .string "refs/heads/main"),
    ("after", .string (mainBranch.heads movement))]
  found := { found with store := { found.store with projects := oneProject } }
  away := ⟨[], none⟩

def firstPush : Receipt := mainPush 0 (World.initial 0 oneProject fun _ _ => true)

def secondPush : Receipt := mainPush 1 (mainBranch.answered firstPush).2

def pushBack : Receipt := mainPush 2 (mainBranch.answered secondPush).2

theorem mainPush_announces (movement : Nat) (found : World) :
    Announces .github "main" (mainBranch.heads movement) (mainPush movement found).body := by
  have hcommit : mainBranch.heads movement ≠ "" := by
    unfold mainBranch
    dsimp only
    split <;> decide
  refine ⟨⟨_, rfl⟩, ⟨rfl, rfl⟩, nofun, rfl, ?_⟩
  exact if_neg hcommit

theorem mainPush_heeded (movement : Nat) (found : World) :
    Heeded (mainPush movement found).found (mainPush movement found).away mainBranch.link
      (mainBranch.delivery (mainPush movement found)) :=
  Branch.heeded_push (mainPush_announces movement found) rfl rfl (.inl rfl) rfl

/-- The three pushes in turn. -/
theorem mainBranch_history : mainBranch.History [firstPush, secondPush, pushBack] := by
  refine ⟨World.initial 0 oneProject fun _ _ => true, ?_, ?_⟩
  · rintro commit ⟨r, hr, _⟩
    exact absurd hr List.not_mem_nil
  · exact ⟨fun _ => Iff.rfl, mainPush_announces _ _, mainPush_heeded _ _,
      fun _ => Iff.rfl, mainPush_announces _ _, mainPush_heeded _ _,
      fun _ => Iff.rfl, mainPush_announces _ _, mainPush_heeded _ _, trivial⟩

/-- The first two of them. -/
theorem followed_first_two :
    mainBranch.Followed [firstPush, secondPush] ↔ mainBranch.Told [firstPush, secondPush] := by
  obtain ⟨w, hfresh, hfirst, hannounces, hheeded, hsecond, hannounces', hheeded', _⟩ :=
    mainBranch_history
  exact Branch.followed_iff
    ⟨w, hfresh, hfirst, hannounces, hheeded, hsecond, hannounces', hheeded', trivial⟩

/-- The push back is taken for the first one made again, and the second stays the newest. -/
theorem push_back_ignored :
    ¬ ∀ (b : Branch) (rs : List Receipt), b.History rs → b.Followed rs := by
  intro h
  have htold := Branch.told_of_followed mainBranch_history (h _ _ mainBranch_history)
  have hmoves : MovesHead [firstPush, secondPush] pushBack := by
    intro e he
    simp only [List.mem_cons, List.not_mem_nil, or_false] at he
    rcases he with rfl | rfl <;> decide
  have hnew := (htold [firstPush, secondPush] pushBack [] rfl hmoves).2.2
  exact hnew firstPush (List.mem_cons_self ..) rfl

end CloudWai.Deployment
