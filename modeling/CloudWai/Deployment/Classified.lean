import CloudWai.Deployment.Pushes

/-!
# What is built for production

A delivery is built for production if the receiver (`apps/api/src/git-hook.ts`) finds the
production branch's name in it and no pull request's number. Both are looked for in
optional fields of three providers, and neither the event's name nor the commit is asked
about. So four kinds of delivery that push nothing are taken for a push (`Misread`): a
pull request's without a number, another event's that names the branch, the removal of
the branch, and a change of something else that has the branch's name.

`misread_iff` says that these four are all there are, and `builds_iff` that what is
classified so is also built, in some state of the database, unless the link's provider
has no clone address.

About `parseGitDelivery` of `apps/api/src/git-hook.ts`, as `Hook.lean` has it.
-/

namespace CloudWai.Deployment

open Base Grammar Pattern Queue ControlPlaneStore

/-! ## A push, as the providers send it -/

/-- The event's name: the header's, or else the body's. -/
def eventName (header : Option String) (root : Json) : String :=
  lowerCase ((header.or (stringAt (root.field "object_kind"))).getD "unknown")

/-- GitHub's name for a push, which GitLab's body has too, and GitLab's header's. -/
def refEvents : List String := ["push", "push hook"]

/-- Bitbucket's name for a push. -/
def changeEvent : String := "repo:push"

/-- The event is a pull or merge request's, by its name or by what it carries. -/
def ofPull (header : Option String) (root : Json) : Bool :=
  let event := eventName header root
  includes event "pull_request" || includes event "pullrequest" ||
    stringAt (root.field "object_kind") == some "merge_request" ||
    (root.field "pull_request").isSome || (root.field "pullrequest").isSome

/-- The branch that `ref` is of. -/
def refBranch (root : Json) : Option String := (stringAt (root.field "ref")).bind branchOfRef

/-- What Bitbucket's first change makes of a branch or a tag. -/
def firstChange (root : Json) : Option Json :=
  fieldOf (firstOf (fieldOf (root.field "push") "changes")) "new"

/-- GitHub and GitLab: `after` is a commit, and nothing was removed. -/
def afterCommit (root : Json) : Bool :=
  (stringAt (root.field "after")).any isCommit &&
    match root.field "deleted" with
    | some (.bool true) => false
    | _ => true

/-- Bitbucket: there is no `ref`, and the first change is of a branch that is at a commit. -/
def changedBranch (root : Json) : Bool :=
  (root.field "ref").isNone && stringAt (fieldOf (firstChange root) "type") == some "branch" &&
    (stringAt (fieldOf (fieldOf (firstChange root) "target") "hash")).any isCommit

/-- GitHub and GitLab: `ref` is of the branch, which moved to a commit. -/
structure RefMoved (header : Option String) (root : Json) (branch : String) : Prop where
  named : eventName header root ∈ refEvents
  ref : refBranch root = some branch
  commit : afterCommit root = true

/-- Bitbucket: the first change moved the branch to a commit. -/
structure ChangeMoved (header : Option String) (root : Json) (branch : String) : Prop where
  named : eventName header root = changeEvent
  ref : refBranch root = none
  name : stringAt (fieldOf (firstChange root) "name") = some branch
  commit : changedBranch root = true

/-- A push that moves the head of `branch` to a commit. -/
structure PushOf (header : Option String) (root : Json) (branch : String) : Prop where
  noPull : ofPull header root = false
  moved : RefMoved header root branch ∨ ChangeMoved header root branch

/-! ## What is taken for one -/

/-- The number of a pull request: the first field of the three that holds one. -/
def pullNumber (root : Json) : Option Int :=
  [fieldOf (root.field "pull_request") "number", fieldOf (root.field "object_attributes") "iid",
    fieldOf (root.field "pullrequest") "id"].findSome? numberAt

/-- The branch a pull request is from. -/
def sourceBranch (root : Json) : Option String :=
  (stringAt (fieldOf (fieldOf (root.field "pull_request") "head") "ref")).or
    ((stringAt (fieldOf (root.field "object_attributes") "source_branch")).or
      (stringAt (fieldOf (fieldOf (fieldOf (root.field "pullrequest") "source") "branch") "name")))

/-- A pull request's event, from the branch itself, that has no positive number. -/
structure Unnumbered (header : Option String) (root : Json) (branch : String) : Prop where
  pull : ofPull header root = true
  number : (pullNumber root).filter (0 < ·) = none
  branch : sourceBranch root = some branch

/-- Another event, whose body names the branch the way a push of one of the two
shapes does. -/
structure Unrelated (header : Option String) (root : Json) (branch : String) : Prop where
  noPull : ofPull header root = false
  branch :
    eventName header root ∉ refEvents ∧ refBranch root = some branch ∨
    eventName header root ≠ changeEvent ∧ refBranch root = none ∧
      stringAt (fieldOf (firstChange root) "name") = some branch

/-- A push of the branch without a commit: what is sent when the branch is removed. -/
structure Removal (header : Option String) (root : Json) (branch : String) : Prop where
  noPull : ofPull header root = false
  named : eventName header root ∈ refEvents
  ref : refBranch root = some branch
  gone : afterCommit root = false

/-- A change of something with the branch's name that is no branch at a commit: a tag,
say, or what comes beside the `ref` of a tag. -/
structure Namesake (header : Option String) (root : Json) (branch : String) : Prop where
  noPull : ofPull header root = false
  named : eventName header root = changeEvent
  ref : refBranch root = none
  name : stringAt (fieldOf (firstChange root) "name") = some branch
  other : changedBranch root = false

/-- The four kinds of delivery that are no push and are taken for one. -/
def Misread (header : Option String) (root : Json) (branch : String) : Prop :=
  Unnumbered header root branch ∨ Unrelated header root branch ∨ Removal header root branch ∨
    Namesake header root branch

/-! ## What the receiver reads -/

/-- A body as the fields are read from it: anything but a record has none. -/
def rootOf (body : Option Json) : Json := body.getD .null

section Read

variable {header : Option String} {body : Option Json} {link : ProjectGitLink}

/-- The branch and the number that are read off a body. -/
theorem parsed_fields (header : Option String) (body : Option Json) :
    (parseGitDelivery header body).branch =
        (if ofPull header (rootOf body) then sourceBranch (rootOf body)
          else (refBranch (rootOf body)).or
            (stringAt (fieldOf (firstChange (rootOf body)) "name"))) ∧
      (parseGitDelivery header body).pullRequest =
        (if ofPull header (rootOf body) then
          ((pullNumber (rootOf body)).filter (0 < ·)).map Int.toNat
          else none) := by
  have hempty : ∀ root : Json, (∀ name, root.field name = none) →
      sourceBranch root = none ∧ pullNumber root = none ∧
        (refBranch root).or (stringAt (fieldOf (firstChange root) "name")) = none := by
    intro root h
    simp only [sourceBranch, pullNumber, refBranch, firstChange, h]
    exact ⟨rfl, rfl, rfl⟩
  have hnothing : ∀ b : Option Json, (∀ name, (rootOf b).field name = none) →
      parseGitDelivery header b = ⟨none, none, none, "unknown", false⟩ →
      (parseGitDelivery header b).branch =
          (if ofPull header (rootOf b) then sourceBranch (rootOf b)
            else (refBranch (rootOf b)).or (stringAt (fieldOf (firstChange (rootOf b)) "name"))) ∧
        (parseGitDelivery header b).pullRequest =
          (if ofPull header (rootOf b) then
            ((pullNumber (rootOf b)).filter (0 < ·)).map Int.toNat else none) := by
    intro b hfields hparse
    obtain ⟨hsource, hnumber, hpush⟩ := hempty _ hfields
    rw [hparse, hsource, hnumber, hpush]
    constructor
    · split <;> rfl
    · split <;> rfl
  cases body with
  | none => exact hnothing none (fun _ => rfl) rfl
  | some value =>
    cases value with
    | object fields =>
      show (if ofPull header (.object fields) then parsePullRequest (.object fields)
          else parsePush (.object fields) (eventName header (.object fields))).branch =
            (if ofPull header (.object fields) then _ else _) ∧
        (if ofPull header (.object fields) then parsePullRequest (.object fields)
          else parsePush (.object fields) (eventName header (.object fields))).pullRequest =
            (if ofPull header (.object fields) then _ else _)
      by_cases hpull : ofPull header (.object fields) = true
      · rw [if_pos hpull, if_pos hpull, if_pos hpull]
        exact ⟨rfl, rfl⟩
      · rw [if_neg hpull, if_neg hpull, if_neg hpull]
        exact ⟨rfl, rfl⟩
    | null | bool | number | string | array => exact hnothing _ (fun _ => rfl) rfl

/-- **What is for production**: a pull request's event without a number from the branch,
or any other that names the branch. -/
theorem production_iff : (parseGitDelivery header body).kind link = .production ↔
    if ofPull header (rootOf body) then
      (pullNumber (rootOf body)).filter (0 < ·) = none ∧
        sourceBranch (rootOf body) = some link.productionBranch
    else
      refBranch (rootOf body) = some link.productionBranch ∨
        refBranch (rootOf body) = none ∧
          stringAt (fieldOf (firstChange (rootOf body)) "name") = some link.productionBranch := by
  obtain ⟨hbranch, hnumber⟩ := parsed_fields header body
  have hkind : (parseGitDelivery header body).kind link = .production ↔
      (parseGitDelivery header body).pullRequest = none ∧
        (parseGitDelivery header body).branch = some link.productionBranch := by
    unfold ParsedGitDelivery.kind
    split
    next h =>
      refine ⟨nofun, fun ⟨hn, hb⟩ => ?_⟩
      rcases h with h | h
      · rw [hn] at h
        cases h
      · exact absurd hb h
    next h =>
      rw [not_or, not_not, Option.not_isSome_iff_eq_none] at h
      exact ⟨fun _ => h, fun _ => rfl⟩
  rw [hkind, hbranch, hnumber]
  split
  · rw [Option.map_eq_none_iff]
  · rw [Option.or_eq_some_iff]
    exact ⟨fun h => h.2, fun h => ⟨rfl, h⟩⟩

/-- **The four kinds** are what is for production and is no push. -/
theorem misread_iff : Misread header (rootOf body) link.productionBranch ↔
    (parseGitDelivery header body).kind link = .production ∧
      ¬ PushOf header (rootOf body) link.productionBranch := by
  rw [production_iff]
  constructor
  · rintro (h | h | h | h)
    · rw [if_pos h.pull]
      refine ⟨⟨h.number, h.branch⟩, fun hpush => ?_⟩
      exact absurd (h.pull.symm.trans hpush.noPull) (by decide)
    · rw [if_neg (by rw [h.noPull]; decide)]
      rcases h.branch with ⟨hnamed, href⟩ | ⟨hnamed, href, hname⟩
      · refine ⟨.inl href, fun hpush => ?_⟩
        rcases hpush.moved with hmoved | hmoved
        · exact hnamed hmoved.named
        · exact absurd (href.symm.trans hmoved.ref) (by simp)
      · refine ⟨.inr ⟨href, hname⟩, fun hpush => ?_⟩
        rcases hpush.moved with hmoved | hmoved
        · exact absurd (href.symm.trans hmoved.ref) (by simp)
        · exact hnamed hmoved.named
    · rw [if_neg (by rw [h.noPull]; decide)]
      refine ⟨.inl h.ref, fun hpush => ?_⟩
      rcases hpush.moved with hmoved | hmoved
      · exact absurd (h.gone.symm.trans hmoved.commit) (by decide)
      · exact absurd (h.ref.symm.trans hmoved.ref) (by simp)
    · rw [if_neg (by rw [h.noPull]; decide)]
      refine ⟨.inr ⟨h.ref, h.name⟩, fun hpush => ?_⟩
      rcases hpush.moved with hmoved | hmoved
      · exact absurd (h.ref.symm.trans hmoved.ref) (by simp)
      · exact absurd (h.other.symm.trans hmoved.commit) (by decide)
  · intro ⟨hread, hpush⟩
    by_cases hpull : ofPull header (rootOf body) = true
    · rw [if_pos hpull] at hread
      exact .inl ⟨hpull, hread.1, hread.2⟩
    · rw [if_neg hpull] at hread
      rw [Bool.not_eq_true] at hpull
      -- named the way of its shape, so that the shape's commit is what is missing
      rcases hread with href | ⟨href, hname⟩
      · by_cases hnamed : eventName header (rootOf body) ∈ refEvents
        · refine .inr (.inr (.inl ⟨hpull, hnamed, href, ?_⟩))
          rw [← Bool.not_eq_true]
          exact fun hcommit => hpush ⟨hpull, .inl ⟨hnamed, href, hcommit⟩⟩
        · exact .inr (.inl ⟨hpull, .inl ⟨hnamed, href⟩⟩)
      · by_cases hnamed : eventName header (rootOf body) = changeEvent
        · refine .inr (.inr (.inr ⟨hpull, hnamed, href, hname, ?_⟩))
          rw [← Bool.not_eq_true]
          exact fun hcommit => hpush ⟨hpull, .inr ⟨hnamed, href, hname, hcommit⟩⟩
        · exact .inr (.inl ⟨hpull, .inr ⟨hnamed, href, hname⟩⟩)

end Read

/-! ## What is built -/

/-- The receiver answers a delivery in some state of the database with a new deployment
for production. -/
def BuildsProduction (link : ProjectGitLink) (delivery : ParsedGitDelivery) : Prop :=
  ∃ (w : World) (away : Elsewhere) (row : DeploymentRow),
    row ∈ (w.receive away link delivery).2.store.deployments.rows ∧
      row ∉ w.store.deployments.rows ∧ row.kind = .production

/-- A call that leaves the rows alone, or adds one of the kind. -/
def Adding (kind : DeploymentKind) : Call → Prop
  | .store (.insertDeployment input) => input.kind = kind
  | .store (.patchDeployment _) => False
  | .store (.promote ..) => False
  | _ => True

theorem adding_of_leavesRows {kind : DeploymentKind} {c : Call} (h : LeavesRows c) :
    Adding kind c := by
  cases c with
  | queue c => trivial
  | engine row c => trivial
  | store c =>
    cases c with
    | insertDeployment input => exact absurd h id
    | patchDeployment p => exact absurd h id
    | promote org project row => exact absurd h id
    | _ => trivial

/-- A row that is there afterwards was there before, or is of the kind that is asked for. -/
theorem serve_adding {kind : DeploymentKind} {w : World} {away : Elsewhere} {c : Call}
    (h : Adding kind c) {row : DeploymentRow}
    (hrow : row ∈ (w.serve away c).2.store.deployments.rows) :
    row ∈ w.store.deployments.rows ∨ row.kind = kind := by
  by_cases hleaves : LeavesRows c
  · rw [serve_leavesRows hleaves] at hrow
    exact .inl hrow
  · unfold LeavesRows at hleaves
    split at hleaves
    next input =>
      change row ∈ (StoreCall.run w.now away w.store (.insertDeployment input)).2.deployments.rows
        at hrow
      simp only [StoreCall.run] at hrow
      split at hrow
      · rcases List.mem_append.mp hrow with hrow | hrow
        · exact .inl hrow
        · rw [List.mem_singleton.mp hrow]
          exact .inr h
      · exact .inl hrow
    · exact absurd h id
    · exact absurd h id
    · exact absurd trivial hleaves

section Build

variable {w : World} {away : Elsewhere} {link : ProjectGitLink} {delivery : ParsedGitDelivery}

theorem adding_deployNew (project : ProjectRow) (gitRepository : String) :
    (deployNew link delivery project gitRepository).Only (Adding (delivery.kind link)) := by
  unfold deployNew
  refine Prog.only_bind ?_ fun environmentId => ?_
  · exact Prog.only_bind (only_must trivial) fun _ => trivial
  refine Prog.only_bind (only_must rfl) fun row => ?_
  refine Prog.only_bind ?_ fun _ => ?_
  · exact Prog.only_mono (fun _ => adding_of_leavesRows) (leavesRows_recordHookPreview link delivery)
  refine Prog.only_bind ?_ fun _ => ?_
  · exact Prog.only_mono (fun _ => adding_of_leavesRows) (leavesRows_onQueue _)
  exact Prog.only_bind (only_must trivial) fun _ => trivial

/-- A delivery makes rows of its own kind. -/
theorem adding_deployFromDelivery :
    (deployFromDelivery link delivery).Only (Adding (delivery.kind link)) := by
  unfold deployFromDelivery
  refine Prog.only_bind (only_must trivial) fun found => ?_
  cases found with
  | none => trivial
  | some project =>
    refine Prog.only_bind (only_must trivial) fun refusal => ?_
    cases refusal with
    | some metric => exact Prog.only_bind (only_must trivial) fun _ => trivial
    | none =>
      dsimp only
      split
      · trivial
      · split
        · trivial
        · refine Prog.only_bind (only_must trivial) fun existing => ?_
          cases existing with
          | some row => trivial
          | none =>
            dsimp only
            split
            · trivial
            · exact adding_deployNew project _

/-- A row that a delivery adds has the delivery's kind. -/
theorem receive_kind {row : DeploymentRow}
    (hrow : row ∈ (w.receive away link delivery).2.store.deployments.rows) :
    row ∈ w.store.deployments.rows ∨ row.kind = delivery.kind link := by
  have hends : (deployFromDelivery link delivery).Ends (World.serve away)
      (fun _ w' => ∀ r ∈ w'.store.deployments.rows,
        r ∈ w.store.deployments.rows ∨ r.kind = delivery.kind link) w := by
    refine Prog.ends_of_only adding_deployFromDelivery ?_ fun r hr => .inl hr
    intro w₀ c hkept hadds r hr
    rcases serve_adding hadds hr with hr | hr
    · exact hkept r hr
    · exact .inr hr
  exact hends row hrow

/-- No row is there, and the link's project is. -/
def World.linked (link : ProjectGitLink) : World :=
  World.initial 0 (Table.empty.put ⟨link.projectId, link.organizationId, "site", .container, none,
    none, none, none⟩) fun _ _ => true

/-- A provider without a clone address builds nothing. -/
theorem receive_generic (h : cloneUrlFor link.provider link.repository = none) :
    (w.receive away link delivery).2.store.deployments = w.store.deployments := by
  have honly : (deployFromDelivery link delivery).Only LeavesRows := by
    unfold deployFromDelivery
    refine Prog.only_bind (only_must trivial) fun found => ?_
    cases found with
    | none => trivial
    | some project =>
      refine Prog.only_bind (only_must trivial) fun refusal => ?_
      cases refusal with
      | some metric => exact Prog.only_bind (only_must trivial) fun _ => trivial
      | none =>
        dsimp only
        split
        · trivial
        · split
          · trivial
          · refine Prog.only_bind (only_must trivial) fun existing => ?_
            cases existing with
            | some row => trivial
            | none =>
              rw [h]
              trivial
  exact ends_leavesRows honly rfl

/-- **What is classified for production is built**, once, unless there is nothing to clone. -/
theorem builds_iff : BuildsProduction link delivery ↔
    delivery.kind link = .production ∧ link.provider ≠ .generic := by
  constructor
  · rintro ⟨w, away, row, hrow, hnew, hkind⟩
    constructor
    · exact ((receive_kind hrow).resolve_left hnew).symm.trans hkind
    · intro hgeneric
      have hsource : cloneUrlFor link.provider link.repository = none := by rw [hgeneric]; rfl
      rw [receive_generic hsource] at hrow
      exact hnew hrow
  · intro ⟨hkind, hprovider⟩
    have hheeded : Heeded (World.linked link) ⟨[], none⟩ link delivery := by
      refine ⟨?_, rfl, ?_, .inl hkind, ?_⟩
      · have hfind : (World.linked link).store.project link.organizationId link.projectId =
            some ⟨link.projectId, link.organizationId, "site", .container, none, none, none,
              none⟩ := by
          simp only [World.linked, World.initial, Store.initial, Store.project, Table.find_update,
            Table.find_put]
          simp
          rfl
        rw [hfind]
        rfl
      · unfold ParsedGitDelivery.kind at hkind
        split at hkind
        · cases hkind
        next h =>
          rw [not_or, not_not] at h
          rw [h.2]
          exact .inl rfl
      · cases hp : link.provider with
        | generic => exact absurd hp hprovider
        | github | gitlab | bitbucket => rfl
    have hrows : (World.linked link).store.deployments.rows = [] := rfl
    have hkey : ¬ (World.linked link).HasKey link.organizationId (delivery.idempotencyKey link) := by
      rintro ⟨r, hr, _⟩
      rw [hrows] at hr
      cases hr
    obtain ⟨_, row, hadded, _⟩ := receive_new hheeded hkey
    have hrow : row ∈ ((World.linked link).receive ⟨[], none⟩ link
        delivery).2.store.deployments.rows := by
      rw [hadded]
      exact List.mem_append_right _ (List.mem_singleton_self row)
    have hnew : row ∉ (World.linked link).store.deployments.rows := by
      rw [hrows]
      exact List.not_mem_nil
    exact ⟨_, _, row, hrow, hnew, ((receive_kind hrow).resolve_left hnew).trans hkind⟩

end Build

/-- **Only a push of the production branch is built for production, exactly if the
delivery is not one of the four kinds**, or its provider builds nothing. -/
theorem production_pushed_iff (link : ProjectGitLink) (header : Option String)
    (body : Option Json) :
    (BuildsProduction link (parseGitDelivery header body) →
        PushOf header (rootOf body) link.productionBranch) ↔
      link.provider = .generic ∨ ¬ Misread header (rootOf body) link.productionBranch := by
  rw [builds_iff, misread_iff]
  constructor
  · intro h
    by_cases hprovider : link.provider = .generic
    · exact .inl hprovider
    · exact .inr fun ⟨hkind, hpush⟩ => hpush (h ⟨hkind, hprovider⟩)
  · rintro (hprovider | hread) ⟨hkind, hbuilt⟩
    · exact absurd hprovider hbuilt
    · by_contra hpush
      exact hread ⟨hkind, hpush⟩

/-- A linked repository that is built from `main`. -/
def mainLink (provider : GitProvider) : ProjectGitLink :=
  ⟨"link", 1, 1, provider, "acme/site", "main", true, 1⟩

/-- The removal of `main` on GitHub, a pull request from `main` whose number is a text,
a workflow run by hand on `main`, and Bitbucket's tag `main`: each is built for
production, and none is a push of the branch. -/
theorem misread_deliveries :
    (∀ d ∈ [("push", Json.object [("ref", .string "refs/heads/main"),
          ("after", .string "0000000000000000000000000000000000000000"), ("deleted", .bool true)]),
        ("pull_request", .object [("pull_request", .object [("number", .string "7"),
          ("head", .object [("ref", .string "main")])])]),
        ("workflow_dispatch", .object [("ref", .string "refs/heads/main"),
          ("inputs", .object [])])],
      ¬ (BuildsProduction (mainLink .github) (parseGitDelivery (some d.1) (some d.2)) →
        PushOf (some d.1) d.2 "main")) ∧
    ¬ (BuildsProduction (mainLink .bitbucket) (parseGitDelivery (some "repo:push")
        (some (.object [("push", .object [("changes", .array [.object [("new",
          .object [("type", .string "tag"), ("name", .string "main")])]])])]))) →
      PushOf (some "repo:push") (.object [("push", .object [("changes", .array [.object [("new",
          .object [("type", .string "tag"), ("name", .string "main")])]])])]) "main") := by
  have hmisread : ∀ provider header root, provider ≠ .generic →
      Misread (some header) root "main" →
      ¬ (BuildsProduction (mainLink provider) (parseGitDelivery (some header) (some root)) →
        PushOf (some header) root "main") := by
    intro provider header root hprovider hread hpush
    obtain ⟨hkind, hnot⟩ := (@misread_iff (some header) (some root) (mainLink provider)).mp hread
    exact hnot (hpush (builds_iff.mpr ⟨hkind, hprovider⟩))
  constructor
  · intro d hd
    simp only [List.mem_cons, List.not_mem_nil, or_false] at hd
    rcases hd with rfl | rfl | rfl
    · refine hmisread _ _ _ (by decide) (.inr (.inr (.inl ⟨?_, ?_, ?_, ?_⟩))) <;> decide +kernel
    · refine hmisread _ _ _ (by decide) (.inl ⟨?_, ?_, ?_⟩) <;> decide +kernel
    · refine hmisread _ _ _ (by decide) (.inr (.inl ⟨?_, .inl ⟨?_, ?_⟩⟩)) <;> decide +kernel
  · refine hmisread _ _ _ (by decide) (.inr (.inr (.inr ⟨?_, ?_, ?_, ?_, ?_⟩))) <;> decide +kernel

end CloudWai.Deployment
