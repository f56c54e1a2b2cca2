import CloudWai.Base.Interleave
import CloudWai.Base.Table
import CloudWai.Deployment.Signature
import CloudWai.Linking.Spelling
import CloudWai.Queue.Workers

/-!
# Linking a repository

`connectGitLink` and `disconnectGitLink`. A repository is looked for among the links of its
project before it is linked, and where two requests look at once, the unique index of
migration 0011 lets one of them through. Both go by the normalised text, so it is the
normalisation that decides whether a repository is linked twice.

`linked_once_iff` puts the two together: a spelling comes to the owner and the name exactly
if it masks no `.git`, and while none is masked, no project has two links for a repository.

Mirrors `apps/api/src/procedures/git-links.ts` and the store's methods. Audit metadata and
the prefix of the secret are left out.
-/

namespace CloudWai.Linking

open Base Pattern Grammar
open Deployment (GitProvider ProjectGitLink GitLinkRow SecretCipher)

/-! ## The tables -/

/-- The unique index. -/
def linkKey (row : GitLinkRow) : OrganizationId × GitProvider × String :=
  (row.link.organizationId, row.link.provider, row.link.repository)

/-- The links there are, the projects, and who is a member of what. -/
structure LinkStore where
  links : Table linkKey
  projects : List ProjectId
  members : List (UserId × OrganizationId)

section Place

-- the organization of a project, which is never changed
variable (place : ProjectId → OrganizationId)

/-- A project, as a member finds it. -/
structure FoundProject where
  id : ProjectId
  organizationId : OrganizationId
  placed : organizationId = place id

/-- What the procedures ask of the store. -/
inductive LinkCall where
  | getProject (user : UserId) (project : ProjectId)
  | listGitLinks (user : UserId) (project : ProjectId)
  | createGitLink (row : GitLinkRow)
  | deleteGitLink (user : UserId) (org : OrganizationId) (linkId : String)
  | recordAuditEvent (org : OrganizationId) (actor : UserId) (event target : String)

namespace LinkCall

abbrev Ans : LinkCall → Type
  | getProject .. => Option (FoundProject place)
  | listGitLinks .. => List ProjectGitLink
  | createGitLink _ => List ProjectGitLink
  | deleteGitLink .. => Bool
  | recordAuditEvent .. => Unit

/-- The operation an error names. -/
def op : LinkCall → String
  | getProject .. => "getProject"
  | listGitLinks .. => "listGitLinks"
  | createGitLink _ => "createGitLink"
  | deleteGitLink .. => "deleteGitLink"
  | recordAuditEvent .. => "recordAuditEvent"

/-- The constraints on a new row: its project, its id, and the unique index. -/
def admits (w : LinkStore) (row : GitLinkRow) : Bool :=
  w.projects.contains row.link.projectId && w.links.rows.all (·.link.id != row.link.id) &&
    (w.links.find (linkKey row)).isNone

/-- What the database does with a request. -/
def run (w : LinkStore) : (c : LinkCall) → Except String (c.Ans place) × LinkStore
  | getProject user project =>
    (.ok (if w.projects.contains project && w.members.contains (user, place project) then
      some ⟨project, place project, rfl⟩ else none), w)
  | listGitLinks user project =>
    (.ok ((w.links.rows.map (·.link)).filter fun link =>
      link.projectId == project && w.members.contains (user, link.organizationId)), w)
  | createGitLink row =>
    if admits w row then (.ok [row.link], { w with links := w.links.put row })
    else (.error "POST /project_git_links returned 409.", w)
  | deleteGitLink user org linkId =>
    let hit := fun row : GitLinkRow => row.link.id == linkId && row.link.organizationId == org &&
      w.members.contains (user, org)
    (.ok (w.links.rows.any hit), { w with links := w.links.delete hit })
  | recordAuditEvent .. => (.ok (), w)

end LinkCall

/-! ## The procedures -/

/-- A program over the links' store. -/
abbrev LinkProg (α : Type) := Prog LinkCall (LinkCall.Ans place) Failure α

/-- The cipher, and the writes the store does not have. -/
structure GitLinkDeps where
  cipher : Option SecretCipher
  missing : List String

/-- What a caller connects. -/
structure ConnectGitLinkInput where
  projectId : ProjectId
  provider : String
  repository : String
  productionBranch : Option String
  previewsEnabled : Option Bool
deriving DecidableEq

/-- What a request draws: the link's id, the secret, and what it is encrypted with. -/
structure Drawn where
  id : String
  secret : String
  nonce : String
deriving DecidableEq

/-- The link with its secret, which is shown this once. -/
structure ConnectedGitLink where
  link : ProjectGitLink
  webhookSecret : String

variable {place}

/-- A step that awaits nothing. -/
def settled {α : Type} : Except Failure α → LinkProg place α
  | .ok a => .ret a
  | .error failure => .raise failure

/-- `writesFor` -/
def writesFor (deps : GitLinkDeps) : Except Failure Unit :=
  if deps.missing.length > 0 then
    .error (.api "engine_unavailable"
      ("This deployment cannot record " ++ String.intercalate ", " deps.missing ++ " yet."))
  else .ok ()

/-- A letter or a digit, then such with dots, underscores, slashes and hyphens. -/
def branchPattern : Pattern := seq (one alnum) (star (one (alnumOr ['.', '_', '/', '-'])))

/-- A branch as it is stored. -/
@[irreducible] def normaliseBranch (value label : String) : Except Failure String :=
  let branch := trim value
  if branch = "" ∨ 200 < jsLength branch ∨ branchPattern.test branch = false then
    .error (.api "invalid_input" (label ++ " is not a valid git branch."))
  else .ok branch

/-- `input.provider`, if it is one of `GIT_PROVIDERS`. -/
def gitProvider (name : String) : Except Failure GitProvider :=
  match name with
  | "github" => .ok .github
  | "gitlab" => .ok .gitlab
  | "bitbucket" => .ok .bitbucket
  | "generic" => .ok .generic
  | _ => .error (.api "invalid_input" "Unknown git provider.")

/-- The cipher for the secrets, if the API was given a key. -/
def cipherOf (deps : GitLinkDeps) : Except Failure SecretCipher :=
  match deps.cipher with
  | some cipher => .ok cipher
  | none => .error (.api "engine_unavailable"
      "Set CLOUD_WAI_SECRET_ENCRYPTION_KEY to store a webhook secret for this repository.")

variable (place)

/-- The project, if the caller can see it. -/
def projectOf (user : UserId) (project : ProjectId) : LinkProg place (FoundProject place) :=
  (Prog.call (LinkCall.getProject user project)).bind fun found =>
  match found with
  | none => .raise (.api "not_found" "Project not found.")
  | some project => .ret project

/-- The procedure: the links there are looked through before the new one is inserted. -/
def connectGitLink (ctx : RequestContext) (deps : GitLinkDeps) (input : ConnectGitLinkInput)
    (drawn : Drawn) : LinkProg place ConnectedGitLink :=
  (projectOf place ctx.userId input.projectId).bind fun project =>
  (settled (requireCapability ctx project.organizationId .projectUpdate)).bind fun _ =>
  (settled (cipherOf deps)).bind fun cipher =>
  (settled (gitProvider input.provider)).bind fun provider =>
  (settled (normaliseRepository input.repository)).bind fun repository =>
  (settled (normaliseBranch (input.productionBranch.getD "main") "Production branch")).bind
    fun productionBranch =>
  (Prog.call (LinkCall.listGitLinks ctx.userId project.id)).bind fun existing =>
  if existing.any fun l => l.provider == provider && l.repository == repository then
    .raise (.api "conflict" "That repository is already linked to this project.")
  else
    (settled (writesFor deps)).bind fun _ =>
    (Prog.call (LinkCall.createGitLink (.connected cipher drawn.nonce drawn.secret
      ⟨drawn.id, project.organizationId, project.id, provider, repository, productionBranch,
        input.previewsEnabled.getD false, ctx.userId⟩))).bind fun created =>
    match created with
    | [] => .raise (.unavailable "createGitLink" "no row returned")
    | link :: _ =>
      (Prog.call (LinkCall.recordAuditEvent project.organizationId ctx.userId "git.linked"
        link.id)).bind fun _ => .ret ⟨link, drawn.secret⟩

/-- `disconnectGitLink`; `true` if a link was there. -/
def disconnectGitLink (ctx : RequestContext) (deps : GitLinkDeps) (projectId : ProjectId)
    (linkId : String) : LinkProg place Bool :=
  (projectOf place ctx.userId projectId).bind fun project =>
  (settled (requireCapability ctx project.organizationId .projectUpdate)).bind fun _ =>
  (settled (writesFor deps)).bind fun _ =>
  (Prog.call (LinkCall.deleteGitLink ctx.userId project.organizationId linkId)).bind fun removed =>
  if removed then
    (Prog.call (LinkCall.recordAuditEvent project.organizationId ctx.userId "git.unlinked"
      linkId)).bind fun _ => .ret removed
  else .ret removed

/-! ## Requests -/

/-- The requests that change links. -/
inductive LinkCommand where
  | connect (input : ConnectGitLinkInput) (drawn : Drawn)
  | disconnect (projectId : ProjectId) (linkId : String)
deriving DecidableEq

/-- A request with the caller and what the API was set up with. -/
structure LinkRequest where
  ctx : RequestContext
  deps : GitLinkDeps
  command : LinkCommand

/-- The program of a request. -/
def LinkRequest.body (t : LinkRequest) : LinkProg place Unit :=
  match t.command with
  | .connect input drawn => (connectGitLink place t.ctx t.deps input drawn).bind fun _ => .ret ()
  | .disconnect project linkId =>
    (disconnectGitLink place t.ctx t.deps project linkId).bind fun _ => .ret ()

/-- What changes besides: members come and go, and so do projects, with their links. -/
inductive LinkDrift where
  | join (user : UserId) (org : OrganizationId)
  | leave (user : UserId) (org : OrganizationId)
  | found (project : ProjectId)
  | drop (project : ProjectId)

/-- What happens without a request. -/
def LinkDrift.apply (w : LinkStore) : LinkDrift → LinkStore
  | join user org => { w with members := (user, org) :: w.members }
  | leave user org => { w with members := w.members.filter (· != (user, org)) }
  | found project => { w with projects := project :: w.projects }
  | drop project =>
    { w with
      projects := w.projects.filter (· != project)
      links := w.links.delete fun row => row.link.projectId == project }

/-- Requests, interleaved at every request to the database. -/
def linksHost : Host LinkStore Queue.Fault LinkDrift LinkRequest LinkCall (LinkCall.Ans place)
    Failure where
  perform w o c :=
    let a := o.apply w (c.run place w)
    (a.1.mapError (.unavailable c.op), a.2)
  drift := LinkDrift.apply
  body := LinkRequest.body place

/-- The store with the requests that run over it. -/
abbrev LinksSys := Sys LinkStore LinkRequest LinkCall (LinkCall.Ans place) Failure

/-! ## What is promised -/

/-- No project has two links for what one provider has under one owner and name. -/
def OneEach (w : LinkStore) : Prop :=
  ∀ row ∈ w.links.rows, ∀ row' ∈ w.links.rows, row.link.projectId = row'.link.projectId →
    row.link.provider = row'.link.provider →
    (∃ owner name, Spells owner name row.link.repository ∧
      Spells owner name row'.link.repository) → row = row'

/-- What two spellings come to is its own normal form, and the same if they are spellings of
the same owner and name. -/
structure Agree (value value' r r' : String) : Prop where
  fixed : normaliseRepository r = .ok r
  fixed' : normaliseRepository r' = .ok r'
  same : ∀ owner name, Spells owner name value → Spells owner name value' → r = r'

/-- No request connects a repository by a spelling that masks a `.git`. -/
def Unmasked (_ : LinksSys place) : Move LinkRequest Queue.Fault LinkDrift → Prop
  | .spawn ⟨_, _, .connect input _⟩ => ¬ Masked input.repository
  | _ => True

instance (s : LinksSys place) (l : Move LinkRequest Queue.Fault LinkDrift) :
    Decidable (Unmasked place s l) := by
  unfold Unmasked
  split <;> infer_instance

/-- A row whose repository is in its normal form, and that is where its project is. -/
structure Tidy (row : GitLinkRow) : Prop where
  normal : normaliseRepository row.link.repository = .ok row.link.repository
  placed : row.link.organizationId = place row.link.projectId

/-- The call creates no other row. -/
def Creates (c : LinkCall) : Prop := ∀ row, c = .createGitLink row → Tidy place row

variable {place}

/-! ## Spellings -/

section Spellings

variable {value value' r r' : String}

/-- **Two spellings agree** exactly if neither masks a `.git`. -/
theorem agree_iff_unmasked (h : normaliseRepository value = .ok r)
    (h' : normaliseRepository value' = .ok r') :
    Agree value value' r r' ↔ ¬ Masked value ∧ ¬ Masked value' := by
  have hends := ends_git_iff h
  have hends' := ends_git_iff h'
  have hagain := normalise_again (normaliseRepository_ok.mp h).1
  have hagain' := normalise_again (normaliseRepository_ok.mp h').1
  constructor
  · intro ⟨hfixed, hfixed', _⟩
    exact ⟨mt hends.mpr (hagain.mp hfixed), mt hends'.mpr (hagain'.mp hfixed')⟩
  · intro ⟨hclear, hclear'⟩
    have hbare := mt hends.mp hclear
    have hbare' := mt hends'.mp hclear'
    refine ⟨hagain.mpr hbare, hagain'.mpr hbare', ?_⟩
    intro owner name hspells hspells'
    have heq := result_of_spells h hspells hbare
    rw [← result_of_spells h' hspells' hbare'] at heq
    exact String.toList_inj.mp heq

/-- Normal forms of the same owner and name are the same. -/
theorem normal_eq (h : normaliseRepository r = .ok r) (h' : normaliseRepository r' = .ok r')
    {owner name : List Char} (hspells : Spells owner name r) (hspells' : Spells owner name r') :
    r = r' := by
  have hclear := mt (ends_git_iff h).mpr ((normalise_again (normaliseRepository_ok.mp h).1).mp h)
  have hclear' := mt (ends_git_iff h').mpr ((normalise_again (normaliseRepository_ok.mp h').1).mp h')
  exact ((agree_iff_unmasked h h').mpr ⟨hclear, hclear'⟩).same owner name hspells hspells'

end Spellings

/-! ## What a request creates -/

section Programs

variable {α β : Type}

theorem only_settled {P : LinkCall → Prop} {e : Except Failure α} {f : α → LinkProg place β}
    (h : ∀ a, e = .ok a → (f a).Only P) : ((settled e).bind f).Only P := by
  cases e with
  | error failure => trivial
  | ok a => exact h a rfl

theorem only_projectOf {user : UserId} {project : ProjectId}
    {f : FoundProject place → LinkProg place α} (h : ∀ p, (f p).Only (Creates place)) :
    ((projectOf place user project).bind f).Only (Creates place) := by
  unfold projectOf
  rw [Prog.bind_assoc]
  refine Prog.only_bind (Prog.only_call ?_) fun found => ?_
  · intro row hrow
    cases hrow
  · cases found with
    | none => trivial
    | some p => exact h p

theorem only_audit {org : OrganizationId} {actor : UserId} {event target : String} {a : α} :
    ((Prog.call (LinkCall.recordAuditEvent org actor event target)).bind fun _ =>
      (Prog.ret a : LinkProg place α)).Only (Creates place) := by
  refine Prog.only_bind (Prog.only_call ?_) fun _ => trivial
  intro row hrow
  cases hrow

/-- A spelling that masks nothing makes a tidy row. -/
theorem only_connectGitLink {ctx : RequestContext} {deps : GitLinkDeps}
    {input : ConnectGitLinkInput} {drawn : Drawn} (h : ¬ Masked input.repository) :
    (connectGitLink place ctx deps input drawn).Only (Creates place) := by
  unfold connectGitLink
  refine only_projectOf ?_
  intro project
  refine only_settled ?_
  intro _ _
  refine only_settled ?_
  intro cipher _
  refine only_settled ?_
  intro provider _
  refine only_settled ?_
  intro repository hrepository
  refine only_settled ?_
  intro branch _
  refine Prog.only_bind (Prog.only_call ?_) fun existing => ?_
  · intro row hrow
    cases hrow
  · split
    · trivial
    · apply only_settled
      intro _ _
      refine Prog.only_bind (Prog.only_call ?_) fun created => ?_
      · intro row hrow
        obtain rfl := LinkCall.createGitLink.inj hrow
        have hagain := normalise_again (normaliseRepository_ok.mp hrepository).1
        exact ⟨hagain.mpr (mt (ends_git_iff hrepository).mp h), project.placed⟩
      · cases created with
        | nil => trivial
        | cons link created => exact only_audit

theorem only_disconnectGitLink {ctx : RequestContext} {deps : GitLinkDeps} {project : ProjectId}
    {linkId : String} : (disconnectGitLink place ctx deps project linkId).Only (Creates place) := by
  unfold disconnectGitLink
  refine only_projectOf ?_
  intro p
  refine only_settled ?_
  intro _ _
  refine only_settled ?_
  intro _ _
  refine Prog.only_bind (Prog.only_call ?_) fun removed => ?_
  · intro row hrow
    cases hrow
  · split
    · exact only_audit
    · trivial

theorem only_body {s : LinksSys place} {l : Move LinkRequest Queue.Fault LinkDrift}
    (hl : Unmasked place s l) (t : LinkRequest) (ht : l = .spawn t) :
    ((linksHost place).body t).Only (Creates place) := by
  subst ht
  obtain ⟨ctx, deps, command⟩ := t
  cases command with
  | connect input drawn => exact Prog.only_bind (only_connectGitLink hl) fun _ => trivial
  | disconnect project linkId => exact Prog.only_bind only_disconnectGitLink fun _ => trivial

end Programs

/-! ## Runs -/

theorem mem_put {t : Table linkKey} {row row' : GitLinkRow} (h : row' ∈ (t.put row).rows) :
    row' = row ∨ row' ∈ t.rows := by
  have hfind := Table.find_eq_some.mpr ⟨h, rfl⟩
  rw [Table.find_put] at hfind
  split at hfind
  · exact .inl (Option.some.inj hfind).symm
  · exact .inr (Table.mem_of_find hfind).1

/-- All rows are tidy. -/
def AllTidy (place : ProjectId → OrganizationId) (w : LinkStore) : Prop :=
  ∀ row ∈ w.links.rows, Tidy place row

theorem allTidy_run {w : LinkStore} {c : LinkCall} (hc : Creates place c) (h : AllTidy place w) :
    AllTidy place (c.run place w).2 := by
  cases c with
  | getProject user project => exact h
  | listGitLinks user project => exact h
  | recordAuditEvent org actor event target => exact h
  | createGitLink row =>
    unfold LinkCall.run
    dsimp only
    split
    · intro row' hrow'
      rcases mem_put hrow' with rfl | hrow'
      · exact hc _ rfl
      · exact h row' hrow'
    · exact h
  | deleteGitLink user org linkId =>
    intro row hrow
    exact h row (Table.mem_delete.mp hrow).1

theorem allTidy_perform {w : LinkStore} {o : Queue.Fault} {c : LinkCall} (hc : Creates place c)
    (h : AllTidy place w) : AllTidy place ((linksHost place).perform w o c).2 := by
  cases o with
  | none => exact allTidy_run hc h
  | before reason => exact h
  | after reason => exact allTidy_run hc h

theorem allTidy_drift {w : LinkStore} {d : LinkDrift} (h : AllTidy place w) :
    AllTidy place ((linksHost place).drift w d) := by
  cases d with
  | join user org => exact h
  | leave user org => exact h
  | found project => exact h
  | drop project =>
    intro row hrow
    exact h row (Table.mem_delete.mp hrow).1

/-- Tidy rows of one repository are in one organization, so the index has them one. -/
theorem oneEach_of_allTidy {w : LinkStore} (h : AllTidy place w) : OneEach w := by
  intro row hrow row' hrow' hproject hprovider ⟨owner, name, hspells, hspells'⟩
  have htidy := h row hrow
  have htidy' := h row' hrow'
  have hkey : linkKey row = linkKey row' := by
    unfold linkKey
    rw [htidy.placed, htidy'.placed, hproject, hprovider,
      normal_eq htidy.normal htidy'.normal hspells hspells']
  have hfind := Table.find_eq_some.mpr ⟨hrow, hkey⟩
  rw [Table.find_eq_some.mpr ⟨hrow', rfl⟩] at hfind
  exact (Option.some.inj hfind).symm

/-- Every request creates tidy rows only, and every row is tidy. -/
structure LinksInv (s : LinksSys place) : Prop where
  only : s.Only (Creates place)
  tidy : AllTidy place s.world

/-- **Step lemma.** -/
theorem linksInv_step {s : LinksSys place} {l : Move LinkRequest Queue.Fault LinkDrift}
    (h : LinksInv s) (hl : Unmasked place s l) : LinksInv ((linksHost place).step s l) where
  only := only_step (only_body hl) h.only
  tidy := h.only.world (fun _ _ _ hc hw => allTidy_perform hc hw) (fun _ _ hw => allTidy_drift hw)
    h.tidy

/-- **A repository is linked once**: two accepted spellings agree exactly if neither masks a
`.git`, and as long as no request masks one, no project has two links for a repository. -/
theorem linked_once_iff {value value' r r' : String} (h : normaliseRepository value = .ok r)
    (h' : normaliseRepository value' = .ok r') (w : LinkStore) (hempty : w.links = Table.empty)
    (moves : List (Move LinkRequest Queue.Fault LinkDrift))
    (hmoves : EachStep (linksHost place).step (Unmasked place) (Sys.start w) moves) :
    (Agree value value' r r' ↔ ¬ Masked value ∧ ¬ Masked value') ∧
      Always (linksHost place).step (fun s => OneEach s.world) (Sys.start w) moves := by
  refine ⟨agree_iff_unmasked h h', always_of_inv ⟨only_start w, ?_⟩
    (fun _ _ hinv hl => linksInv_step hinv hl) (fun _ hinv => oneEach_of_allTidy hinv.tidy) hmoves⟩
  intro row hrow
  rw [show (Sys.start w : LinksSys place).world = w from rfl, hempty] at hrow
  cases hrow

end Place

/-! ## One site, two links -/

/-- A cipher that is none. -/
def plainCipher : SecretCipher := ⟨fun _ secret => secret, some, fun _ _ => rfl⟩

/-- A project, and a member of its organization. -/
def oneProject : LinkStore := ⟨Table.empty, [5], [(7, 1)]⟩

/-- The member connects a repository of GitHub's. -/
def connecting (repository id : String) : LinkRequest :=
  ⟨⟨7, [⟨1, 7, .member⟩], none⟩, ⟨some plainCipher, []⟩,
    .connect ⟨5, "github", repository, none, none⟩ ⟨id, "secret", "nonce"⟩⟩

theorem linked_once_site :
    (Agree "acme/site" "https://github.com/Acme/Site.git" "acme/site" "acme/site" ↔
        ¬ Masked "acme/site" ∧ ¬ Masked "https://github.com/Acme/Site.git") ∧
      Always (linksHost fun _ => 1).step (fun s => OneEach s.world) (Sys.start oneProject)
        [.spawn (connecting "acme/site" "a"), .exec 0 .none, .exec 0 .none, .exec 0 .none,
          .exec 0 .none, .spawn (connecting "https://github.com/Acme/Site.git" "b"),
          .exec 1 .none, .exec 1 .none] :=
  linked_once_iff (by decide +kernel) (by decide +kernel) oneProject rfl _ (by decide +kernel)

theorem acme_site : IsRepository "acme".toList "site".toList where
  owner_ne := by decide
  owner_chars := List.all_eq_true.mp (by decide)
  name_ne := by decide
  name_chars := List.all_eq_true.mp (by decide)
  bare := by decide

/-- With a `.git` and a slash behind it, the same site is another repository. -/
theorem linked_twice :
    (¬ ∀ value value' r r', normaliseRepository value = .ok r →
      normaliseRepository value' = .ok r' → Agree value value' r r') ∧
    ¬ ∀ (place : ProjectId → OrganizationId) (w : LinkStore)
      (moves : List (Move LinkRequest Queue.Fault LinkDrift)), w.links = Table.empty →
      Always (linksHost place).step (fun s => OneEach s.world) (Sys.start w) moves := by
  constructor
  · intro h
    have hfixed := (h "acme/site" "acme/site.git/" "acme/site" "acme/site.git" (by decide +kernel)
      (by decide +kernel)).fixed'
    revert hfixed
    decide +kernel
  · intro h
    have hlast := always_iff_prefixes.mp (h (fun _ => 1) oneProject
      [.spawn (connecting "acme/site" "a"), .exec 0 .none, .exec 0 .none, .exec 0 .none,
        .exec 0 .none, .spawn (connecting "acme/site.git/" "b"), .exec 1 .none, .exec 1 .none,
        .exec 1 .none] rfl) _ [] (List.append_nil _).symm
    have hrows : ((runFrom (linksHost fun _ => 1).step (Sys.start oneProject)
        [.spawn (connecting "acme/site" "a"), .exec 0 .none, .exec 0 .none, .exec 0 .none,
          .exec 0 .none, .spawn (connecting "acme/site.git/" "b"), .exec 1 .none, .exec 1 .none,
          .exec 1 .none]).world.links.rows.map fun row =>
            (row.link.projectId, row.link.provider, row.link.repository)) =
        [(5, .github, "acme/site"), (5, .github, "acme/site.git")] := by decide +kernel
    generalize runFrom (linksHost fun _ => 1).step (Sys.start oneProject) _ = s at hlast hrows
    obtain ⟨row, rest, hcons, hrow, hrest⟩ := List.map_eq_cons_iff.mp hrows
    obtain ⟨row', rest', hcons', hrow', _⟩ := List.map_eq_cons_iff.mp hrest
    simp only [Prod.mk.injEq] at hrow hrow'
    obtain ⟨hproject, hprovider, hrepository⟩ := hrow
    obtain ⟨hproject', hprovider', hrepository'⟩ := hrow'
    have heq : row = row' := by
      refine hlast row ?_ row' ?_ (hproject.trans hproject'.symm) (hprovider.trans hprovider'.symm)
        ⟨"acme".toList, "site".toList, ?_, ?_⟩
      · rw [hcons]
        exact List.mem_cons_self
      · rw [hcons, hcons']
        exact List.mem_cons_of_mem _ List.mem_cons_self
      · rw [hrepository]
        exact ⟨acme_site, [], [], .slashes nofun, .nil, by decide +kernel⟩
      · rw [hrepository']
        exact ⟨acme_site, [], [] ++ git, .slashes nofun, .git .nil, by decide +kernel⟩
    rw [heq, hrepository'] at hrepository
    revert hrepository
    decide

end CloudWai.Linking
