import CloudWai.Base.Machine
import CloudWai.Security.Protection

/-!
# A long-lived process and its memo

A deployment builds the loaders once. Their comment says that postures are
cached *per compile*; the cache is made beside the loaders, not inside a compile,
so it lives as long as the process, is shared by all organizations in it, and is
never told about a save. Only open postures are read again, because `undefined`
is not remembered.

A run is any sequence of saves, edits of the other tables, clock advances and
loads. A load answers from the memo where the memo has an answer, so every route
it compiles carries what the stored row says exactly if no memo entry it uses is
out of date (`compiles_fresh_iff`).

About the loaders of `packages/database/src/edge-loaders.ts`, as `Loaders.lean` has them.
-/

namespace CloudWai

namespace Security

open Base

/-- One process with its loaders, the database behind it, and the time. -/
structure EdgeProcess where
  db : Db
  now : Int
  cache : ProtectionCache

/-- What a load is asked for. -/
inductive Load where
  | route (organizationId : OrganizationId) (hostname : String)
  | policy (organizationId : OrganizationId)
deriving DecidableEq, Repr

/-- What happens to a process and to the rows that it reads. -/
inductive EdgeEvent where
  /-- A save by anybody, in this process or another. -/
  | save (ctx : RequestContext) (input : SaveDeploymentProtectionInput) (newId : Nat)
  /-- Domains and policies change too. -/
  | edit (domains : Table fun d : Domain => (d.organizationId, d.hostname))
      (policies : List SecurityPolicy)
  | tick (ms : Nat)
  | load (l : Load)

/-- What a load compiles, as the routes of its answer. -/
def Load.routes (l : Load) (config : EdgeConfig) (p : EdgeProcess) : List EdgeRoute :=
  match l with
  | .route org hostname => (loadRoute config p.db p.now p.cache org hostname).1.toList
  | .policy org =>
    match (loadPolicy config p.db p.now p.cache org).1 with
    | none => []
    | some compiled => compiled.route :: compiled.routes

/-- The organization that is loaded. -/
def Load.organizationId : Load → OrganizationId
  | .route org _ => org
  | .policy org => org

/-- What the load leaves in the memo. -/
def Load.cache (l : Load) (config : EdgeConfig) (p : EdgeProcess) : ProtectionCache :=
  match l with
  | .route org hostname => (loadRoute config p.db p.now p.cache org hostname).2
  | .policy org => (loadPolicy config p.db p.now p.cache org).2

/-- One event. -/
def EdgeProcess.step (P : Platform) (config : EdgeConfig) (p : EdgeProcess) : EdgeEvent → EdgeProcess
  | .save ctx input newId =>
    match saveDeploymentProtection P p.db ctx input newId with
    | .error _ => p
    | .ok (_, db) => { p with db }
  | .edit domains policies => { p with db := { p.db with domains, policies } }
  | .tick ms => { p with now := p.now + ms }
  | .load l => { p with cache := l.cache config p }

/-- The domains a load compiles routes for. -/
def Load.domains (l : Load) (db : Db) : List Domain :=
  match l with
  | .route org hostname =>
    ((db.findDomainByHostnameForService org hostname).filter (·.verified)).toList
  | .policy org =>
    if (db.getSecurityPolicyForService org).isSome then db.listRoutableDomainsForService org else []

/-- The posture a compiled route carries. -/
def EdgeRoute.posture (r : EdgeRoute) : CompiledProtection := r.protection.getD .open

/-- Every route a load compiles carries what the stored row of its domain's
project comes to at this moment. -/
def Fresh (config : EdgeConfig) (p : EdgeProcess) : EdgeEvent → Prop
  | .load l => (l.routes config p).map EdgeRoute.posture =
      (l.domains p.db).map fun d => storedPosture p.db p.now l.organizationId d.projectId
  | _ => True

instance decideFresh (config : EdgeConfig) (p : EdgeProcess) :
    (e : EdgeEvent) → Decidable (Fresh config p e)
  | .load _ => inferInstanceAs (Decidable (_ = _))
  | .save .. => isTrue trivial
  | .edit .. => isTrue trivial
  | .tick _ => isTrue trivial

/-- The memo has nothing to say about a load's projects, or what is still true. -/
def UpToDate (p : EdgeProcess) : EdgeEvent → Prop
  | .load l => ∀ d ∈ l.domains p.db, ∀ project, d.projectId = some project →
      ∀ posture, p.cache project = some posture →
        posture = storedPosture p.db p.now l.organizationId (some project)
  | _ => True

variable {P : Platform} {config : EdgeConfig} {p : EdgeProcess} {l : Load}

/-- The routes of a load are those of its domains, as the memo shows them. -/
theorem Load.routes_eq : l.routes config p =
    (l.domains p.db).map (shownRoute config p.db p.now l.organizationId p.cache) := by
  cases l with
  | route org hostname =>
    show (loadRoute config p.db p.now p.cache org hostname).1.toList = _
    rw [loadRoute_fst]
    exact Option.toList_map ..
  | policy org =>
    unfold Load.routes Load.domains
    dsimp only
    rw [loadPolicy_fst]
    cases p.db.getSecurityPolicyForService org with
    | none => rfl
    | some policy =>
      rw [Option.bind_some, Option.isSome_some, if_pos rfl]
      show _ = (p.db.listRoutableDomainsForService org).map
        (shownRoute config p.db p.now org p.cache)
      cases (p.db.listRoutableDomainsForService org).map (shownRoute config p.db p.now org p.cache) with
      | nil => rfl
      | cons primary rest => rfl

/-- One posture is right exactly if the memo's answer for it, if there is one, is. -/
theorem shownPosture_right {db : Db} {now : Int} {org : OrganizationId} {cache : ProtectionCache}
    {project : Option ProjectId} :
    (shownPosture db now org cache project).getD .open = storedPosture db now org project ↔
      ∀ k, project = some k → ∀ posture, cache k = some posture →
        posture = storedPosture db now org (some k) := by
  cases project with
  | none => exact iff_of_true rfl (by simp)
  | some k =>
    simp only [Option.some.injEq, forall_eq']
    show (cache.view (readPosture db now org) k).getD .open = _ ↔ _
    cases hk : cache k with
    | none =>
      rw [Memo.view_of_none hk, readPosture_getD]
      exact iff_of_true rfl (by simp)
    | some posture =>
      rw [Memo.view_of_some hk, Option.getD_some]
      constructor
      · intro h posture' hp
        cases hp
        exact h
      · intro h
        exact h posture rfl

/-- **Step.** A load is fresh exactly if the memo is up to date for it. -/
theorem fresh_iff_upToDate (e : EdgeEvent) : Fresh config p e ↔ UpToDate p e := by
  cases e with
  | save ctx input newId => exact Iff.rfl
  | edit domains policies => exact Iff.rfl
  | tick ms => exact Iff.rfl
  | load l =>
    show (l.routes config p).map EdgeRoute.posture = _ ↔ _
    rw [Load.routes_eq, List.map_map, List.map_inj_left]
    constructor
    · intro h d hd
      exact shownPosture_right.mp (h d hd)
    · intro h d hd
      exact shownPosture_right.mpr (h d hd)

/-- **Run.** Every load of a run compiles what is stored exactly if the memo is up
to date whenever it is used. -/
theorem compiles_fresh_iff (P : Platform) (config : EdgeConfig) (p : EdgeProcess)
    (es : List EdgeEvent) :
    EachStep (EdgeProcess.step P config) (Fresh config) p es ↔
      EachStep (EdgeProcess.step P config) UpToDate p es :=
  eachStep_iff (J := fun _ => True) trivial (fun _ _ _ _ => trivial)
    fun _ e _ => fresh_iff_upToDate e

/-- The shop's project is opened after its policy was compiled once. -/
def openedAfterCompile : List EdgeEvent :=
  [.load (.policy 1), .save firstOwner ⟨1, 5, "none", none, none, none, none⟩ 10, .load (.policy 1)]

/-- The second compile still carries the allow-list that was taken away. -/
theorem stale_posture_compiled :
    ¬ EachStep (EdgeProcess.step plainPlatform edgeConfig) (Fresh edgeConfig)
      ⟨shop, 0, Memo.empty⟩ openedAfterCompile := by
  decide +kernel

end Security

end CloudWai
