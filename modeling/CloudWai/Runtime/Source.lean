import CloudWai.Runtime.Acts

/-!
# What a deploy is built from

A row of `deployments` records the source that was asked for. What is built is another
matter: the runtime takes the repository and the branch that the application was created
with, hands on neither the root directory nor the pack, and the build plane's clone has the
tip of the default branch and nothing else. So the build is the row's if and only if these
come to the same (`SourceMatches`).

That the application's source is the one it was created with is no figure of speech: no act
of the runtime writes it again (`same_of_act`), so no sequence of deploys does
(`source_frozen`).

About `infra/deployment/runtime-server.mjs` and the build plane behind it, as
`Server.lean` has them.
-/

namespace CloudWai.Runtime

open Base Deployment

/-! ## The property -/

/-- What `nixpacks` is run on in a background run, if it comes to that, and the repository
as the clone found it. -/
def App.built (outcome : Outcome) (app : App) : Option (Remote × Build) :=
  match source app, outcome.build with
  | some payload, .ok work =>
    if isGitRepository payload.repository then
      (prepared payload work).bind fun build => work.remote.map fun remote => (remote, build)
    else none
  | _, _ => none

/-- The revision a row asks for: the commit, if one is recorded, or else the head of the
branch, or of the default branch if none is recorded. -/
def wanted (remote : Remote) (row : DeploymentRow) : Option String :=
  match given row.gitCommit, given row.gitBranch with
  | some commit, _ => some commit
  | none, some branch => (remote.branches.find? (·.1 == branch)).map (·.2)
  | none, none => some remote.tip

/-- The build is of the row's source. -/
structure BuildsRow (row : DeploymentRow) (remote : Remote) (build : Build) : Prop where
  repository : given row.gitRepository = some build.repository
  revision : wanted remote row = some build.revision
  rootDirectory : given row.rootDirectory = build.rootDirectory
  buildPack : given row.buildPack = build.buildPack

instance (row : DeploymentRow) (remote : Remote) (build : Build) :
    Decidable (BuildsRow row remote build) :=
  decidable_of_iff
    (given row.gitRepository = some build.repository ∧ wanted remote row = some build.revision ∧
      given row.rootDirectory = build.rootDirectory ∧ given row.buildPack = build.buildPack)
    ⟨fun ⟨h₁, h₂, h₃, h₄⟩ => ⟨h₁, h₂, h₃, h₄⟩, fun ⟨h₁, h₂, h₃, h₄⟩ => ⟨h₁, h₂, h₃, h₄⟩⟩

/-- The application of a background run and the row it was started for. -/
def Estate.running (w : Estate) (attempt : String) : Option (App × DeploymentRow) :=
  (w.runtime.runs.find? (·.attempt == attempt)).bind fun run =>
  (w.runtime.apps.find run.app).bind fun app =>
  (w.store.deployments.find run.row).map fun row => (app, row)

/-- The run builds its row's source, if it builds. -/
def RunBuildsRow (w : Estate) (attempt : String) (outcome : Outcome) : Prop :=
  ∀ p ∈ w.running attempt, ∀ b ∈ p.1.built outcome, BuildsRow p.2 b.1 b.2

instance (w : Estate) (attempt : String) (outcome : Outcome) :
    Decidable (RunBuildsRow w attempt outcome) :=
  inferInstanceAs (Decidable (∀ p ∈ w.running attempt, ∀ b ∈ p.1.built outcome, _))

/-- **A background run builds its row's source.** -/
def BuildsItsRow (w : Estate) (m : Move) : Prop :=
  match m.op with
  | .finish attempt outcome => RunBuildsRow w attempt outcome
  | _ => True

/-! ## The condition -/

/-- A run of the application comes to a build: the build plane took the job and found the
repository, which has what the application calls its branch. -/
structure App.ComesToBuild (app : App) (outcome : Outcome) (remote : Remote) : Prop where
  work : ∃ work, outcome.build = .ok work ∧ work.remote = some remote
  repository : ∃ url, given app.gitRepository = some url ∧ isGitRepository url = true
  branch : (given (given app.gitBranch)).all remote.resolves.contains = true

/-- **The condition.** The row names the application's repository, the revision it asks for
is the tip of the default branch, and it asks for neither a directory nor a pack. -/
structure SourceMatches (app : App) (row : DeploymentRow) (remote : Remote) : Prop where
  repository : given row.gitRepository = given app.gitRepository
  revision : wanted remote row = some remote.tip
  rootDirectory : given row.rootDirectory = none
  buildPack : given row.buildPack = none

/-- It holds of a run that comes to a build. -/
def RunMatches (w : Estate) (attempt : String) (outcome : Outcome) : Prop :=
  ∀ p ∈ w.running attempt, ∀ remote,
    p.1.ComesToBuild outcome remote → SourceMatches p.1 p.2 remote

/-- The condition of one move. -/
def Matches (w : Estate) (m : Move) : Prop :=
  match m.op with
  | .finish attempt outcome => RunMatches w attempt outcome
  | _ => True

/-! ## One run -/

/-- **What is built**, and when. -/
theorem built_eq_some {outcome : Outcome} {app : App} {remote : Remote} {build : Build} :
    app.built outcome = some (remote, build) ↔ app.ComesToBuild outcome remote ∧
      given app.gitRepository = some build.repository ∧ build.revision = remote.tip ∧
      build.rootDirectory = none ∧ build.buildPack = none := by
  constructor
  · intro h
    unfold App.built at h
    split at h
    next payload work hsource hwork =>
      obtain ⟨repository, hrepository, rfl⟩ := Option.map_eq_some_iff.mp hsource
      split at h
      next hvalid =>
        obtain ⟨built, hprepared, hremote⟩ := Option.bind_eq_some_iff.mp h
        obtain ⟨found, hfound, heq⟩ := Option.map_eq_some_iff.mp hremote
        obtain ⟨rfl, rfl⟩ := Prod.mk.inj heq
        unfold prepared at hprepared
        rw [hfound] at hprepared
        dsimp only at hprepared
        split at hprepared
        next hresolves =>
          obtain rfl := Option.some.inj hprepared
          exact ⟨⟨⟨work, hwork, hfound⟩, ⟨repository, hrepository, hvalid⟩, hresolves⟩,
            hrepository, rfl, rfl, rfl⟩
        next => cases hprepared
      next => cases h
    next => cases h
  · rintro ⟨⟨⟨work, hwork, hremote⟩, ⟨url, hurl, hvalid⟩, hbranch⟩, hrepository, htip, hroot, hpack⟩
    have hsource : source app = some ⟨url, given app.gitBranch, none⟩ := by
      unfold source
      rw [hurl]
      rfl
    obtain rfl : url = build.repository := Option.some.inj (hurl.symm.trans hrepository)
    unfold App.built prepared
    rw [hsource, hwork]
    dsimp only
    rw [if_pos hvalid, hremote]
    dsimp only
    rw [if_pos hbranch]
    obtain ⟨repository, revision, rootDirectory, buildPack⟩ := build
    dsimp only at htip hroot hpack ⊢
    rw [htip, hroot, hpack]
    rfl

theorem buildsRow_iff {outcome : Outcome} {app : App} {row : DeploymentRow} {remote : Remote}
    {build : Build} (h : app.built outcome = some (remote, build)) :
    BuildsRow row remote build ↔ SourceMatches app row remote := by
  obtain ⟨_, hrepository, hrevision, hroot, hpack⟩ := built_eq_some.mp h
  constructor
  · intro hbuilds
    exact ⟨hbuilds.repository.trans hrepository.symm, hrevision ▸ hbuilds.revision,
      hbuilds.rootDirectory.trans hroot, hbuilds.buildPack.trans hpack⟩
  · intro hmatches
    exact ⟨hmatches.repository.trans hrepository, hrevision ▸ hmatches.revision,
      hmatches.rootDirectory.trans hroot.symm, hmatches.buildPack.trans hpack.symm⟩

/-- The build there is, once it comes to one. -/
theorem built_of_comesToBuild {outcome : Outcome} {app : App} {remote : Remote}
    (h : app.ComesToBuild outcome remote) :
    ∃ build, app.built outcome = some (remote, build) := by
  obtain ⟨url, hurl, _⟩ := h.repository
  exact ⟨⟨url, remote.tip, none, none⟩, built_eq_some.mpr ⟨h, hurl, rfl, rfl, rfl⟩⟩

/-- **One run**, exactly. -/
theorem runBuildsRow_iff (w : Estate) (attempt : String) (outcome : Outcome) :
    RunBuildsRow w attempt outcome ↔ RunMatches w attempt outcome := by
  refine forall₂_congr fun p _ => ?_
  constructor
  · intro h remote hcomes
    obtain ⟨build, hbuilt⟩ := built_of_comesToBuild hcomes
    exact (buildsRow_iff hbuilt).mp (h (remote, build) hbuilt)
  · intro h b hbuilt
    have hbuilt : p.1.built outcome = some (b.1, b.2) := hbuilt
    exact (buildsRow_iff hbuilt).mpr (h b.1 (built_eq_some.mp hbuilt).1)

theorem buildsItsRow_iff (w : Estate) (m : Move) : BuildsItsRow w m ↔ Matches w m := by
  obtain ⟨op, o⟩ := m
  cases op with
  | finish attempt outcome => exact runBuildsRow_iff w attempt outcome
  | _ => exact Iff.rfl

/-! ## An application's source -/

/-- The source was not written. -/
structure App.SameSource (a a' : App) : Prop where
  gitRepository : a'.gitRepository = a.gitRepository
  gitBranch : a'.gitBranch = a.gitBranch
  buildPack : a'.buildPack = a.buildPack
  rootDirectory : a'.rootDirectory = a.rootDirectory

/-- Every application is still there, with its source. -/
def State.Keeps (s s' : State) : Prop :=
  ∀ id a, s.apps.find id = some a → ∃ a', s'.apps.find id = some a' ∧ a.SameSource a'

theorem App.SameSource.refl (a : App) : a.SameSource a := ⟨rfl, rfl, rfl, rfl⟩

theorem App.SameSource.trans {a b c : App} (h : a.SameSource b) (h' : b.SameSource c) :
    a.SameSource c :=
  ⟨h'.gitRepository.trans h.gitRepository, h'.gitBranch.trans h.gitBranch,
    h'.buildPack.trans h.buildPack, h'.rootDirectory.trans h.rootDirectory⟩

theorem State.Keeps.refl (s : State) : s.Keeps s := fun _ a ha => ⟨a, ha, .refl a⟩

theorem State.Keeps.trans {s s' s'' : State} (h : s.Keeps s') (h' : s'.Keeps s'') :
    s.Keeps s'' := by
  intro id a ha
  obtain ⟨b, hb, hab⟩ := h id a ha
  obtain ⟨c, hc, hbc⟩ := h' id b hb
  exact ⟨c, hc, hab.trans hbc⟩

/-- One application is written back. -/
theorem keeps_put {s s' : State} {id : String} {a app : App} (ha : s.apps.find id = some a)
    (happs : s'.apps = s.apps.put app) (hid : app.id = a.id) (hsame : a.SameSource app) :
    s.Keeps s' := by
  intro i b hb
  rw [happs, Table.find_put]
  split
  next hi =>
    obtain rfl : i = id := hi.trans (hid.trans (app_id ha))
    rw [ha] at hb
    obtain rfl := Option.some.inj hb
    exact ⟨app, rfl, hsame⟩
  next => exact ⟨b, hb, .refl b⟩

theorem keeps_route {β : Type} {s : State} {id : String} {f : App → Reply β × State}
    (h : ∀ app, s.apps.find id = some app → s.Keeps (f app).2) : s.Keeps (s.route id f).2 := by
  unfold State.route
  split
  · exact .refl s
  next app happ => exact h app happ

theorem ensureDefaultHostname_source (config : Config) (app : App) :
    app.SameSource (ensureDefaultHostname config app) := by
  simp only [ensureDefaultHostname]
  split
  · exact .refl app
  · split
    · exact ⟨rfl, rfl, rfl, rfl⟩
    · exact .refl app

theorem runContainer_source (start : Nat) (docker : Docker) (port : Nat) (app : App)
    (image : Image) : app.SameSource (runContainer start docker port app image).2 := by
  unfold runContainer
  split <;> exact ⟨rfl, rfl, rfl, rfl⟩

theorem fail_source (app : App) (reason : String) : app.SameSource (app.fail reason) :=
  ⟨rfl, rfl, rfl, rfl⟩

/-- A deploy takes the source as it is. -/
theorem runDeploy_source (config : Config) (start : Nat) (outcome : Outcome) (app : App) :
    app.SameSource (runDeploy config start outcome app) := by
  unfold runDeploy
  split
  · exact fail_source app _
  split
  · exact fail_source app _
  split
  · exact fail_source app _
  next image _ =>
    have hrun := runContainer_source start outcome.docker outcome.port app image
    split
    next h =>
      rw [h] at hrun
      exact hrun.trans (fail_source _ _)
    next h =>
      rw [h] at hrun
      exact hrun.trans (fail_source _ _)
    next app' h =>
      rw [h] at hrun
      have hnamed := ensureDefaultHostname_source config
        { app' with
          currentImage := some image
          previousImage := app.currentImage.or app.previousImage
          status := .succeeded }
      exact hrun.trans ⟨hnamed.gitRepository, hnamed.gitBranch, hnamed.buildPack,
        hnamed.rootDirectory⟩

/-- A new application leaves the others theirs. -/
theorem createApp_keeps (id : String) (body : CreateAppBody) (s : State) :
    s.Keeps (State.createApp id body s).2 := by
  unfold State.createApp
  split
  · exact .refl s
  split
  · exact .refl s
  split
  · exact .refl s
  split
  · exact .refl s
  next hfresh =>
    -- the identifier is one that no application has
    intro i a ha
    refine ⟨a, ?_, .refl a⟩
    show (s.apps.put (body.app id)).find i = some a
    rw [Table.find_put, if_neg ?_]
    · exact ha
    · intro hi
      have hi : i = id := hi
      rw [Bool.or_eq_true, not_or, ← hi, ha] at hfresh
      exact hfresh.2 rfl

/-- So does a rollback. -/
theorem rollback_keeps (docker : Docker) (port : Nat) (id : String) (s : State) :
    s.Keeps (State.rollback docker port id s).2 := by
  refine keeps_route fun app happ => ?_
  split
  · exact .refl s
  next target _ =>
    have hid := runContainer_id s.starts docker port app target
    have hsource := runContainer_source s.starts docker port app target
    dsimp only
    split
    next h =>
      rw [h] at hid hsource
      exact keeps_put happ rfl hid hsource
    next h =>
      rw [h] at hid hsource
      exact keeps_put happ rfl hid hsource
    next h =>
      rw [h] at hid hsource
      exact keeps_put happ rfl hid ⟨hsource.gitRepository, hsource.gitBranch, hsource.buildPack,
        hsource.rootDirectory⟩

theorem cancelAttempt_keeps (attempt : String) (s : State) :
    s.Keeps (State.cancelAttempt attempt s).2 := by
  unfold State.cancelAttempt
  split
  · exact .refl s
  next app found hfound =>
    have hmem : app ∈ s.apps := by
      unfold State.findAttempt at hfound
      obtain ⟨b, hb, hsome⟩ := List.exists_of_findSome?_eq_some hfound
      obtain ⟨x, _, hx⟩ := Option.map_eq_some_iff.mp hsome
      rw [← (Prod.mk.inj hx).1]
      exact hb
    exact keeps_put (Table.find_eq_some.mpr ⟨hmem, rfl⟩) rfl rfl ⟨rfl, rfl, rfl, rfl⟩

theorem setDomains_keeps (config : Config) (refusal : String → Option String)
    (domains : List String) (id : String) (s : State) :
    s.Keeps (State.setDomains config refusal domains id s).2 := by
  refine keeps_route fun app happ => ?_
  have hid := ensureDefaultHostname_id config { app with domains := domains.filter isHostname }
  have hsource := ensureDefaultHostname_source config
    { app with domains := domains.filter isHostname }
  exact keeps_put happ rfl hid ⟨hsource.gitRepository, hsource.gitBranch, hsource.buildPack,
    hsource.rootDirectory⟩

theorem finish_keeps (config : Config) (outcome : Outcome) (attempt : String) (s : State) :
    s.Keeps (s.finish config outcome attempt) := by
  unfold State.finish
  split
  · exact .refl s
  next run _ =>
    intro id a ha
    rw [Table.find_update, ha]
    refine ⟨_, rfl, ?_⟩
    unfold Table.Edit.on
    split
    · have hsource := runDeploy_source config s.starts outcome a
      exact ⟨hsource.gitRepository, hsource.gitBranch, hsource.buildPack, hsource.rootDirectory⟩
    · exact .refl a

/-- **No act writes a source.** -/
theorem same_of_act {config : Config} {s s' : State} (h : Act config s s') : s.Keeps s' := by
  cases h with
  | createApp id body => exact createApp_keeps id body s
  | getApp running id =>
    refine keeps_route fun app happ => ?_
    dsimp only
    split
    · exact keeps_put happ rfl rfl ⟨rfl, rfl, rfl, rfl⟩
    · exact keeps_put happ rfl rfl (.refl app)
  | deploy attempt row id =>
    exact keeps_route fun app happ => keeps_put happ rfl rfl ⟨rfl, rfl, rfl, rfl⟩
  | getAttempt attempt =>
    rw [getAttempt_state]
    exact .refl s
  | cancelApp id => exact keeps_route fun app happ => keeps_put happ rfl rfl ⟨rfl, rfl, rfl, rfl⟩
  | cancelAttempt attempt => exact cancelAttempt_keeps attempt s
  | rollback docker port id => exact rollback_keeps docker port id s
  | setDomains refusal domains id => exact setDomains_keeps config refusal domains id s
  | listEnv id =>
    rw [listEnv_state]
    exact .refl s
  | writeEnv code fresh body id =>
    refine keeps_route fun app happ => ?_
    split
    · exact .refl s
    split
    · exact .refl s
    · exact keeps_put happ rfl rfl ⟨rfl, rfl, rfl, rfl⟩
  | deleteEnv key id =>
    exact keeps_route fun app happ => keeps_put happ rfl rfl ⟨rfl, rfl, rfl, rfl⟩
  | finish outcome attempt => exact finish_keeps config outcome attempt s

/-! ## Whole runs -/

variable {setup : Setup}

/-- **An application is built from the source it was created with**, however often it is
deployed. -/
theorem source_frozen (w : Estate) (pre mid : List Move) {id : String} {a : App}
    (ha : (runFrom (step setup) w pre).runtime.apps.find id = some a) :
    ∃ a', (runFrom (step setup) w (pre ++ mid)).runtime.apps.find id = some a' ∧
      a.SameSource a' := by
  rw [runFrom_append]
  exact (run_acts _ mid).rule State.Keeps.refl State.Keeps.trans same_of_act id a ha

/-- **Every run builds its row's source, exactly where the two match.** -/
theorem source_built_iff (w : Estate) (ms : List Move) :
    EachStep (step setup) BuildsItsRow w ms ↔ EachStep (step setup) Matches w ms :=
  eachStep_iff (J := fun _ => True) trivial (fun _ _ _ _ => trivial)
    fun w m _ => buildsItsRow_iff w m

/-- A site in a directory of its repository is asked for, and the repository is built. -/
def inDirectory : RequestInput := { production with rootDirectory := some (some "apps/web") }

theorem directory_not_built : ¬ ∀ (setup : Setup) (w : Estate) (ms : List Move),
    EachStep (step setup) BuildsItsRow w ms := by
  intro h
  have hrun := h installation Estate.scripted
    [⟨.request owner inDirectory, calm⟩, ⟨.deliver aWorker 0, calm⟩, ⟨.finish "run" started, calm⟩]
  have hfinish : RunBuildsRow (runFrom (step installation) Estate.scripted
      [⟨.request owner inDirectory, calm⟩, ⟨.deliver aWorker 0, calm⟩]) "run" started :=
    hrun.2.2.1
  revert hfinish
  decide +kernel

end CloudWai.Runtime
