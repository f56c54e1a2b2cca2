import CloudWai.Security.Publication

/-!
# Deployment protection

`readDeploymentProtection` and `saveDeploymentProtection` of the API. A save is
normalised and validated (`acceptProtection`), then written by an upsert on the
project. Two questions are asked of it.

*Whose row is it?* The capability is checked on the organization id of the
request, the row is found and written by the project id of the request, and
nothing compares the two. `confined_iff` says exactly when a call stays inside
the organization the caller was authorized for.

*Does it protect?* What was accepted passes the API's validator, the table's
checks, the loaders and the compiler's own last validation before it is on a
route, and each of these could open the route. The checks take whatever was
accepted, and the compiler keeps it. The loaders lose it in two cases, and
`no_fail_open_iff` says that there is no third: the row is read by the
organization the host belongs to, which need not be the one the save named; and
its expiry is read back by `new Date`, which reads no year of five digits, while
`Date.parse` accepted a text that comes to one.

Mirrors `apps/api/src/procedures/security.ts`.
-/

namespace CloudWai

namespace Security

open Base

/-! ## The procedures -/

/-- `PROTECTION_MODES.includes(mode)` -/
def ProtectionMode.parse : String → Option ProtectionMode
  | "none" => some .none
  | "password" => some .password
  | "ip" => some .ip
  | _ => Option.none

/-- What a caller saves. -/
structure SaveDeploymentProtectionInput where
  organizationId : OrganizationId
  projectId : ProjectId
  mode : String
  basicUser : Option String
  basicPassword : Option String
  allowedCidrs : Option (List String)
  protectionExpiresAt : Option String
deriving DecidableEq, Repr

/-- The refusal of what is not well formed. -/
def invalidInput (message : String) : Failure := .api "invalid_input" message

/-- The procedure. -/
def readDeploymentProtection (db : Db) (ctx : RequestContext) (org : OrganizationId)
    (project : ProjectId) : Except Failure (Option DeploymentProtection) :=
  match requireCapability ctx org .securityRead with
  | .error e => .error e
  | .ok () => .ok (db.getDeploymentProtection ctx.userId project)

/-- A password posture always names a user. -/
def basicUserFor (mode : ProtectionMode) (input : SaveDeploymentProtectionInput) : Option String :=
  if mode = .password then
    let user := Grammar.trim (input.basicUser.getD "")
    some (if user = "" then "cloud-wai" else user)
  else none

/-- A new password's digest, or the one that is stored. -/
def passwordHashFor (P : Platform) (db : Db) (existing : Option DeploymentProtection)
    (mode : ProtectionMode) (input : SaveDeploymentProtectionInput) :
    Except Failure (Option String) :=
  let required : Except Failure (Option String) :=
    .error (invalidInput "A protection password is required.")
  if mode ≠ .password then .ok none
  else
    let password := input.basicPassword.getD ""
    if password ≠ "" then
      if Grammar.jsLength password < 8 then
        .error (invalidInput "A protection password is at least 8 characters.")
      else .ok (some (P.passwordDigest password))
    else if existing.any (·.mode == .password) then
      let hash := db.getDeploymentProtectionPasswordHash input.organizationId input.projectId
      if truthy hash then .ok hash else required
    else required

/-- The allow-list without blanks and repetitions, bare addresses as blocks of one. -/
def allowedCidrsFor (mode : ProtectionMode) (input : SaveDeploymentProtectionInput) : List String :=
  if mode = .ip then
    ((((input.allowedCidrs.getD []).map Grammar.trim).filter (· != "")).map fun v =>
      if v.toList.contains '/' then v else v ++ "/32").eraseDups
  else []

/-- The posture the validator is shown. -/
def postureFor (mode : ProtectionMode) (basicUser basicPasswordHash : Option String)
    (allowedCidrs : List String) : CompiledProtection where
  mode := mode
  basicUser := if mode = .password && truthy basicUser then basicUser else none
  basicPasswordSha256 := if truthy basicPasswordHash then basicPasswordHash else none
  allowedCidrs := if mode = .ip then some allowedCidrs else none

/-- What a save amounts to once it is accepted. -/
structure Accepted where
  save : Db.ProtectionSave
  posture : CompiledProtection
deriving DecidableEq, Repr

/-- `saveDeploymentProtection` up to the write. -/
def acceptProtection (P : Platform) (db : Db) (ctx : RequestContext)
    (input : SaveDeploymentProtectionInput) (newId : Nat) : Except Failure Accepted :=
  match requireCapability ctx input.organizationId .securityUpdate with
  | .error e => .error e
  | .ok () =>
    match ProtectionMode.parse input.mode with
    | none => .error (invalidInput "Unknown protection mode.")
    | some mode =>
      let basicUser := basicUserFor mode input
      let existing := db.getDeploymentProtection ctx.userId input.projectId
      match passwordHashFor P db existing mode input with
      | .error e => .error e
      | .ok basicPasswordHash =>
        let allowedCidrs := allowedCidrsFor mode input
        let posture := postureFor mode basicUser basicPasswordHash allowedCidrs
        match validateProtection posture with
        | .refused reason => .error (invalidInput reason)
        | .ok =>
          let expiresAt := input.protectionExpiresAt.map Grammar.trim
          if expiresAt.any fun text => (P.dateParse text).isNone then
            .error (invalidInput "The protection expiry is not a timestamp.")
          else
            .ok {
              save := {
                id := (existing.map (·.id)).getD newId
                organizationId := input.organizationId
                projectId := input.projectId
                mode, basicUser, basicPasswordHash, allowedCidrs
                protectionExpiresAt := expiresAt
                updatedBy := ctx.userId }
              posture }

/-- The save: what was accepted is written. -/
def saveDeploymentProtection (P : Platform) (db : Db) (ctx : RequestContext)
    (input : SaveDeploymentProtectionInput) (newId : Nat) :
    Except Failure (DeploymentProtection × Db) :=
  match acceptProtection P db ctx input newId with
  | .error e => .error e
  | .ok accepted => db.saveDeploymentProtection P accepted.save

variable {P : Platform} {db db' : Db} {ctx : RequestContext}
  {input : SaveDeploymentProtectionInput} {newId : Nat} {accepted : Accepted}
  {saved : DeploymentProtection}

/-! ## What a save writes -/

/-- The table takes the row a save would leave. -/
def Takes (P : Platform) (db : Db) (save : Db.ProtectionSave) : Prop :=
  ∃ expiresAt, P.column save.protectionExpiresAt = some expiresAt ∧
    (db.savedRow save expiresAt).checks = true ∧ db.acceptsKeys (db.savedRow save expiresAt) = true

/-- What a save that is taken leaves. -/
def Written (P : Platform) (db : Db) (save : Db.ProtectionSave) (saved : DeploymentProtection)
    (db' : Db) : Prop :=
  ∃ (expiresAt : Option Int) (h : (db.savedRow save expiresAt).checks = true),
    P.column save.protectionExpiresAt = some expiresAt ∧
    saved = (db.savedRow save expiresAt).toDeploymentProtection ∧
    db' = { db with protections := db.protections.put ⟨db.savedRow save expiresAt, h⟩ }

theorem written_of_ok {save : Db.ProtectionSave}
    (h : db.saveDeploymentProtection P save = .ok (saved, db')) :
    Takes P db save ∧ Written P db save saved db' := by
  unfold Db.saveDeploymentProtection at h
  split at h
  next => cases h
  next expiresAt hcolumn =>
    dsimp only at h
    split at h
    next hchecks =>
      split at h
      next hkeys =>
        cases h
        exact ⟨⟨expiresAt, hcolumn, hchecks, hkeys⟩, expiresAt, hchecks, hcolumn, rfl, rfl⟩
      next => cases h
    next => cases h

theorem ok_of_takes {save : Db.ProtectionSave} (h : Takes P db save) :
    ∃ saved db', db.saveDeploymentProtection P save = .ok (saved, db') := by
  obtain ⟨expiresAt, hcolumn, hchecks, hkeys⟩ := h
  refine ⟨(db.savedRow save expiresAt).toDeploymentProtection,
    { db with protections := db.protections.put ⟨_, hchecks⟩ }, ?_⟩
  unfold Db.saveDeploymentProtection
  rw [hcolumn]
  dsimp only
  rw [dif_pos hchecks, if_pos hkeys]

theorem saveDeploymentProtection_ok
    (h : saveDeploymentProtection P db ctx input newId = .ok (saved, db')) :
    ∃ accepted, acceptProtection P db ctx input newId = .ok accepted ∧
      Takes P db accepted.save ∧ Written P db accepted.save saved db' := by
  unfold saveDeploymentProtection at h
  split at h
  next => cases h
  next accepted haccept => exact ⟨accepted, haccept, written_of_ok h⟩

/-- The upsert answers for its own project and leaves the others alone. -/
theorem Written.protectionOf {save : Db.ProtectionSave} (h : Written P db save saved db')
    (project : ProjectId) :
    (∃ expiresAt, saved = (db.savedRow save expiresAt).toDeploymentProtection ∧
      db'.protectionOf save.projectId = some (db.savedRow save expiresAt)) ∧
    (project ≠ save.projectId → db'.protectionOf project = db.protectionOf project) := by
  obtain ⟨expiresAt, hchecks, _, hsaved, rfl⟩ := h
  have hfind := Table.find_put db.protections ⟨db.savedRow save expiresAt, hchecks⟩
  constructor
  · refine ⟨expiresAt, hsaved, ?_⟩
    exact congrArg (Option.map (·.row)) ((hfind save.projectId).trans (if_pos rfl))
  · intro hne
    exact congrArg (Option.map (·.row)) ((hfind project).trans (if_neg hne))

/-! ## What is accepted -/

/-- Everything an accepted save has passed. -/
theorem acceptProtection_ok (h : acceptProtection P db ctx input newId = .ok accepted) :
    ∃ mode hash, ProtectionMode.parse input.mode = some mode ∧
      passwordHashFor P db (db.getDeploymentProtection ctx.userId input.projectId) mode input =
        .ok hash ∧
      accepted.posture =
        postureFor mode (basicUserFor mode input) hash (allowedCidrsFor mode input) ∧
      validateProtection accepted.posture = .ok ∧
      accepted.save.organizationId = input.organizationId ∧
      accepted.save.projectId = input.projectId ∧ accepted.save.mode = mode ∧
      accepted.save.basicUser = basicUserFor mode input ∧
      accepted.save.basicPasswordHash = hash ∧
      accepted.save.allowedCidrs = allowedCidrsFor mode input ∧
      accepted.save.protectionExpiresAt = input.protectionExpiresAt.map Grammar.trim := by
  unfold acceptProtection at h
  split at h
  next => cases h
  next =>
    split at h
    next => cases h
    next mode hmode =>
      dsimp only at h
      split at h
      next => cases h
      next hash hhash =>
        split at h
        next => cases h
        next hvalid =>
          split at h
          next => cases h
          next =>
            cases h
            exact ⟨mode, hash, hmode, hhash, rfl, hvalid, rfl, rfl, rfl, rfl, rfl, rfl, rfl⟩

/-! ## Whose row -/

/-- A call about some project's posture. -/
inductive ProtectionCall where
  | read (organizationId : OrganizationId) (projectId : ProjectId)
  | save (input : SaveDeploymentProtectionInput) (newId : Nat)

/-- The call stays inside the organization it was authorized for: a read returns
only its rows; a save writes only for one of its projects, and leaves the posture
of every other project as it was. -/
def Confined (P : Platform) (db : Db) (ctx : RequestContext) : ProtectionCall → Prop
  | .read org project =>
    ∀ row, readDeploymentProtection db ctx org project = .ok (some row) → row.organizationId = org
  | .save input newId =>
    ∀ saved db', saveDeploymentProtection P db ctx input newId = .ok (saved, db') →
      db.Owns input.organizationId input.projectId ∧
      ∀ project, ¬ db.Owns input.organizationId project →
        db'.protectionOf project = db.protectionOf project

/-- What nothing in the code asks: that the project's row, if the caller can see
it, and the project, if the save is taken, are the organization's. -/
def InTenant (P : Platform) (db : Db) (ctx : RequestContext) : ProtectionCall → Prop
  | .read org project =>
    requireCapability ctx org .securityRead = .ok () →
      ∀ row, db.protectionOf project = some row → db.isMember ctx.userId row.organizationId = true →
        row.organizationId = org
  | .save input newId =>
    ∀ accepted, acceptProtection P db ctx input newId = .ok accepted → Takes P db accepted.save →
      db.Owns input.organizationId input.projectId

/-- **Tenancy.** A call is confined exactly if it happens to be in its tenant. -/
theorem confined_iff (P : Platform) (db : Db) (ctx : RequestContext) (call : ProtectionCall) :
    Confined P db ctx call ↔ InTenant P db ctx call := by
  cases call with
  | read org project =>
    constructor
    · intro h hcap row hrow hmember
      refine h row.toDeploymentProtection ?_
      simp [readDeploymentProtection, hcap, Db.getDeploymentProtection, hrow, hmember]
    · intro h row hread
      unfold readDeploymentProtection at hread
      split at hread
      next => cases hread
      next hcap =>
        have hget : db.getDeploymentProtection ctx.userId project = some row := by
          injection hread
        rw [Db.getDeploymentProtection, Option.map_eq_some_iff] at hget
        obtain ⟨stored, hstored, rfl⟩ := hget
        obtain ⟨hrow, hmember⟩ := Option.filter_eq_some_iff.mp hstored
        exact h hcap stored hrow hmember
  | save input newId =>
    constructor
    · intro h accepted haccept htakes
      obtain ⟨saved, db', hsave⟩ := ok_of_takes htakes
      refine (h saved db' ?_).1
      simp [saveDeploymentProtection, haccept, hsave]
    · intro h saved db' hsave
      obtain ⟨accepted, haccept, htakes, hwritten⟩ := saveDeploymentProtection_ok hsave
      have hown := h accepted haccept htakes
      refine ⟨hown, ?_⟩
      intro project hnot
      obtain ⟨_, _, _, _, _, _, _, hproject, _⟩ := acceptProtection_ok haccept
      refine (hwritten.protectionOf project).2 ?_
      intro he
      rw [he, hproject] at hnot
      exact hnot hown

/-- Digests and timestamps as they come. -/
def plainPlatform : Platform := ⟨id, fun _ => none, fun _ => none⟩

/-- Two tenants; the project, and its password, belong to the second. -/
def twoTenants : Db :=
  { shop with
    memberships := [⟨1, 7, .owner⟩, ⟨2, 8, .owner⟩]
    projects := ⟨[⟨5, 2⟩], by decide⟩
    protections := ⟨[⟨⟨⟨9, 2, 5, .password, some "cloud-wai", [], none, 3, 8⟩,
      some "9f86d081884c7d659a2feaa0c55ad015a3bf4f1b2b0b822cd15d6c15b0f00a08"⟩, by decide⟩],
      by decide⟩ }

/-- An owner of the first tenant opens the second tenant's project. -/
def opening : SaveDeploymentProtectionInput := ⟨1, 5, "none", none, none, none, none⟩

def firstOwner : RequestContext := ⟨7, [⟨1, 7, .owner⟩], none⟩

theorem foreign_project_opened :
    ¬ Confined plainPlatform twoTenants firstOwner (.save opening 10) := by
  intro h
  obtain ⟨project, hfind, horg⟩ := (h ⟨10, 1, 5, .none, none, [], none, 3, 7⟩ _ rfl).1
  have hproject : project = ⟨5, 2⟩ := (Option.some.inj hfind).symm
  rw [hproject] at horg
  cases horg

/-! ## No fail-open -/

/-- The grammars a validated posture's fields are in, mode by mode. -/
theorem validateProtection_password {user hash : Option String} {cidrs : Option (List String)}
    (h : validateProtection ⟨.password, user, hash, cidrs⟩ = .ok) :
    (∃ u, user = some u ∧ u ≠ "" ∧ Grammar.basicUser.test u = true) ∧
      ∃ d, hash = some d ∧ d ≠ "" ∧ Grammar.sha256Hex.test d = true := by
  unfold validateProtection at h
  dsimp only at h
  split at h
  next => cases h
  next huser =>
    split at h
    next => cases h
    next hhash =>
      constructor
      · cases user with
        | none => simp [truthy] at huser
        | some u => simpa [truthy] using huser
      · cases hash with
        | none => simp [truthy] at hhash
        | some d => simpa [truthy] using hhash

theorem validateProtection_ip {user hash : Option String} {cidrs : Option (List String)}
    (h : validateProtection ⟨.ip, user, hash, cidrs⟩ = .ok) : cidrs.getD [] ≠ [] := by
  unfold validateProtection at h
  dsimp only at h
  split at h
  next => cases h
  next hlen =>
    intro hnil
    exact hlen (by simp [CompiledProtection.cidrs, hnil])

/-- A posture without a password carries no digest. -/
theorem passwordHashFor_none {existing : Option DeploymentProtection} {mode : ProtectionMode}
    {hash : Option String} (hmode : mode ≠ .password)
    (h : passwordHashFor P db existing mode input = .ok hash) : hash = none := by
  unfold passwordHashFor at h
  rw [if_pos hmode] at h
  injection h with h
  exact h.symm

/-- What an accepted save writes is the posture it was accepted as. -/
structure Faithful (save : Db.ProtectionSave) (posture : CompiledProtection) : Prop where
  valid : validateProtection posture = .ok
  mode : posture.mode = save.mode
  fields : match save.mode with
    | .none => posture = .open ∧ save.basicUser = none ∧ save.basicPasswordHash = none ∧
        save.allowedCidrs = []
    | .password => ∃ user digest, posture = ⟨.password, some user, some digest, none⟩ ∧
        save.basicUser = some user ∧ save.basicPasswordHash = some digest ∧ save.allowedCidrs = []
    | .ip => posture = ⟨.ip, none, none, some save.allowedCidrs⟩ ∧ save.basicUser = none ∧
        save.basicPasswordHash = none

/-- What is accepted is stored as it was asked for. -/
theorem acceptProtection_faithful (h : acceptProtection P db ctx input newId = .ok accepted) :
    Faithful accepted.save accepted.posture := by
  obtain ⟨mode, hash, _, hhash, hposture, hvalid, _, _, hmode, huser, hsaved, hcidrs, _⟩ :=
    acceptProtection_ok h
  refine ⟨hvalid, by rw [hposture, hmode]; rfl, ?_⟩
  rw [hmode]
  cases mode with
  | none =>
    have hnone := passwordHashFor_none (by decide) hhash
    rw [hposture, huser, hsaved, hcidrs, hnone]
    exact ⟨rfl, rfl, rfl, rfl⟩
  | ip =>
    have hnone := passwordHashFor_none (by decide) hhash
    rw [hposture, huser, hsaved, hcidrs, hnone]
    exact ⟨rfl, rfl, rfl⟩
  | password =>
    rw [hposture] at hvalid
    obtain ⟨⟨u, hu, hune, _⟩, d, hd, hdne, _⟩ := validateProtection_password hvalid
    have huser' : basicUserFor .password input = some u := by
      simp only at hu
      split at hu
      · exact hu
      · cases hu
    have hhash' : hash = some d := by
      split at hd
      · exact hd
      · cases hd
    refine ⟨u, d, ?_, by rw [huser, huser'], by rw [hsaved, hhash'], by rw [hcidrs]; rfl⟩
    rw [hposture, huser', hhash']
    simp [postureFor, truthy, hune, hdne]

theorem stored_version {project : ProjectId} :
    1 ≤ ((db.protectionOf project).map (·.version)).getD 1 := by
  cases hrow : db.protectionOf project with
  | none => exact Nat.le_refl 1
  | some row =>
    obtain ⟨stored, _, rfl⟩ := Option.map_eq_some_iff.mp hrow
    have hchecked := stored.checked
    simp only [ProtectionRow.checks, Bool.and_eq_true, decide_eq_true_eq] at hchecked
    exact hchecked.1.2

/-- The table's checks pass whatever was accepted. -/
theorem Faithful.checks {save : Db.ProtectionSave} {posture : CompiledProtection}
    (h : Faithful save posture) (expiresAt : Option Int) :
    (db.savedRow save expiresAt).checks = true := by
  have hversion := (@stored_version db save.projectId)
  have hfields := h.fields
  have hvalid := h.valid
  unfold ProtectionRow.checks Db.savedRow
  cases hmode : save.mode with
  | none =>
    rw [hmode] at hfields
    obtain ⟨_, huser, hhash, hcidrs⟩ := hfields
    simp [huser, hhash, hcidrs, hversion]
  | password =>
    rw [hmode] at hfields
    obtain ⟨u, d, hposture, huser, hhash, hcidrs⟩ := hfields
    rw [hposture] at hvalid
    obtain ⟨⟨u', hu, _, htest⟩, d', hd, _, hhex⟩ := validateProtection_password hvalid
    cases hu
    cases hd
    simp [huser, hhash, hcidrs, hversion, htest, hhex]
  | ip =>
    rw [hmode] at hfields
    obtain ⟨hposture, huser, hhash⟩ := hfields
    rw [hposture] at hvalid
    have hne : save.allowedCidrs ≠ [] := validateProtection_ip hvalid
    simp [huser, hhash, hversion, hne]

/-- A stored row compiles to the posture it was accepted as, until it expires. -/
theorem Faithful.compiled {save : Db.ProtectionSave} {posture : CompiledProtection}
    (h : Faithful save posture) {expiresAt : Option Int} {now : Int}
    (hnow : ∀ t, expiresAt = some t → now < t) (hread : ∀ t, expiresAt = some t → t < fiveDigitYears) :
    compiledProtectionFor (some (db.savedRow save expiresAt).toDeploymentProtection)
      (db.savedRow save expiresAt).basicPasswordHash now = posture := by
  have hlive : unexpired expiresAt now = true := by
    cases expiresAt with
    | none => rfl
    | some t => simpa [unexpired] using ⟨hread t rfl, hnow t rfl⟩
  have hfields := h.fields
  have hvalid := h.valid
  unfold compiledProtectionFor deploymentProtectionIsActive Db.savedRow
  cases hmode : save.mode with
  | none =>
    rw [hmode] at hfields
    simp [hfields.1]
  | password =>
    rw [hmode] at hfields
    obtain ⟨u, d, hposture, huser, hhash, _⟩ := hfields
    rw [hposture] at hvalid
    obtain ⟨_, d', hd, hne, _⟩ := validateProtection_password hvalid
    cases hd
    simp [hlive, hhash, huser, hposture, truthy, hne]
  | ip =>
    rw [hmode] at hfields
    simp [hlive, hfields.1]

/-- The compiler keeps what a project's stored row comes to. -/
theorem protectionInput_read {now : Int} {org : OrganizationId} {project : ProjectId}
    (h : validateProtection (storedPosture db now org (some project)) = .ok) :
    protectionInput (readPosture db now org project) = storedPosture db now org (some project) := by
  have hread := @readPosture_getD db now org project
  cases hp : readPosture db now org project with
  | none =>
    rw [hp] at hread
    exact hread
  | some p =>
    rw [hp, Option.getD_some] at hread
    show (if validateProtection p = .ok then p else .open) = _
    rw [hread, if_pos h]

theorem ProtectionMode.parse_none {name : String} {mode : ProtectionMode}
    (h : ProtectionMode.parse name = some mode) : mode = .none ↔ name = "none" := by
  unfold ProtectionMode.parse at h
  split at h
  · cases h
    exact iff_of_true rfl rfl
  · cases h
    exact iff_of_false (by decide) (by decide)
  · cases h
    exact iff_of_false (by decide) (by decide)
  · cases h

/-- A posture of mode `none` and the open one are the same accepted posture. -/
theorem Faithful.mode_none {save : Db.ProtectionSave} {posture : CompiledProtection}
    (h : Faithful save posture) (hmode : posture.mode = .none) : posture = .open := by
  have hfields := h.fields
  rw [← h.mode, hmode] at hfields
  exact hfields.1

/-- Every verified host of the project that some organization's policy covers is
compiled with this posture, by loaders that have read nothing yet. -/
def Shown (db : Db) (now : Int) (project : ProjectId) (posture : CompiledProtection) : Prop :=
  ∀ config org policy domain, db.getSecurityPolicyForService org = some policy →
    domain ∈ db.listRoutableDomainsForService org → domain.projectId = some project →
    ∃ compiled, (loadPolicy config db now Memo.empty org).1 = some compiled ∧
      ((compileEdge compiled).fragmentOf domain.hostname).map (·.protection) = some posture

/-- Shown as long as it has not expired. -/
def ProtectsUntilExpiry (db' : Db) (saved : DeploymentProtection) (posture : CompiledProtection) :
    Prop :=
  ∀ now, (∀ t, saved.protectionExpiresAt = some t → now < t) →
    Shown db' now saved.projectId posture

/-- The organization's policy covers a verified host of the project. -/
def Routes (db : Db) (org : OrganizationId) (project : ProjectId) : Prop :=
  (∃ policy, db.getSecurityPolicyForService org = some policy) ∧
    ∃ domain ∈ db.listRoutableDomainsForService org, domain.projectId = some project

/-- The expiry the text comes to has a year `new Date` reads back. -/
def ReadableExpiry (P : Platform) (expiresAt : Option String) : Prop :=
  ∀ text t, expiresAt = some text → P.timestamptz (Grammar.trim text) = some t → t < fiveDigitYears

/-- What nothing in the code asks: that whoever routes the project is the
organization the save named, and that the expiry can be read back. -/
def Lasting (P : Platform) (db : Db) (input : SaveDeploymentProtectionInput) : Prop :=
  ∀ org, Routes db org input.projectId →
    org = input.organizationId ∧ ReadableExpiry P input.protectionExpiresAt

/-- Compiled with fresh loaders, a host shows what its project's row comes to. -/
theorem fragment_stored {now : Int} {config : EdgeConfig} {org : OrganizationId}
    {policy : SecurityPolicy} {domain : Domain} {project : ProjectId}
    (hpolicy : db.getSecurityPolicyForService org = some policy)
    (hdomain : domain ∈ db.listRoutableDomainsForService org)
    (hproject : domain.projectId = some project)
    (hvalid : validateProtection (storedPosture db now org (some project)) = .ok) :
    ∃ compiled, (loadPolicy config db now Memo.empty org).1 = some compiled ∧
      ((compileEdge compiled).fragmentOf domain.hostname).map (·.protection) =
        some (storedPosture db now org (some project)) := by
  have hload : ∃ compiled, (loadPolicy config db now Memo.empty org).1 = some compiled := by
    rw [loadPolicy_fst, hpolicy, Option.bind_some]
    cases hdomains : db.listRoutableDomainsForService org with
    | nil =>
      rw [hdomains] at hdomain
      exact absurd hdomain List.not_mem_nil
    | cons => exact ⟨_, rfl⟩
  obtain ⟨compiled, hload⟩ := hload
  refine ⟨compiled, hload, ?_⟩
  rw [loadPolicy_fragment hload hdomain, Option.map_some]
  refine congrArg some ?_
  show protectionInput (shownPosture db now org Memo.empty domain.projectId) = _
  rw [hproject]
  exact protectionInput_read hvalid

/-- What a save leaves for the loaders of the organization it named, while the
expiry is ahead and can be read. -/
theorem stored_kept {save : Db.ProtectionSave} {posture : CompiledProtection} {now : Int}
    (hfaithful : Faithful save posture) (hwritten : Written P db save saved db')
    (hnow : ∀ t, saved.protectionExpiresAt = some t → now < t)
    (hread : ∀ t, saved.protectionExpiresAt = some t → t < fiveDigitYears) :
    storedPosture db' now save.organizationId (some save.projectId) = posture := by
  obtain ⟨expiresAt, rfl, hrow⟩ := (hwritten.protectionOf save.projectId).1
  show compiledProtectionFor (Option.map _ (db'.protectionIn _ _))
    (Option.bind (db'.protectionIn _ _) _) now = _
  rw [Db.protectionIn, hrow, Option.filter_some_pos (by simp [Db.savedRow])]
  exact hfaithful.compiled hnow hread

/-- Another organization does not find the row, and an expiry that cannot be read
is after nothing. -/
theorem stored_lost {save : Db.ProtectionSave} {now : Int} {org : OrganizationId}
    (hwritten : Written P db save saved db')
    (hlost : ¬ (org = save.organizationId ∧
      ∀ t, saved.protectionExpiresAt = some t → t < fiveDigitYears)) :
    storedPosture db' now org (some save.projectId) = .open := by
  obtain ⟨expiresAt, rfl, hrow⟩ := (hwritten.protectionOf save.projectId).1
  show compiledProtectionFor (Option.map _ (db'.protectionIn _ _))
    (Option.bind (db'.protectionIn _ _) _) now = _
  rw [Db.protectionIn, hrow]
  by_cases horg : org = save.organizationId
  · rw [Option.filter_some_pos (by simp [Db.savedRow, horg])]
    have hoff : unexpired expiresAt now = false := by
      cases expiresAt with
      | none => exact absurd ⟨horg, by simp [Db.savedRow]⟩ hlost
      | some t =>
        have hfar : ¬ t < fiveDigitYears := by
          intro hread
          refine hlost ⟨horg, ?_⟩
          intro t' ht
          obtain rfl : t = t' := Option.some.inj ht
          exact hread
        simp [unexpired, hfar]
    simp [compiledProtectionFor, deploymentProtectionIsActive, Db.savedRow, hoff]
  · rw [Option.filter_some_neg (by simpa [Db.savedRow] using fun h => horg h.symm)]
    rfl

theorem Written.expiry {save : Db.ProtectionSave} (h : Written P db save saved db') :
    P.column save.protectionExpiresAt = some saved.protectionExpiresAt ∧
      saved.projectId = save.projectId := by
  obtain ⟨expiresAt, _, hcolumn, rfl, _⟩ := h
  exact ⟨hcolumn, rfl⟩

/-- The stored expiry is readable exactly if the text's instant is. -/
theorem readable_iff {text : Option String} {expiresAt : Option Int}
    (h : P.column (text.map Grammar.trim) = some expiresAt) :
    (∀ t, expiresAt = some t → t < fiveDigitYears) ↔ ReadableExpiry P text := by
  cases text with
  | none =>
    cases h
    simp [ReadableExpiry]
  | some text =>
    obtain ⟨t, ht, rfl⟩ := Option.map_eq_some_iff.mp h
    constructor
    · intro hread text' t' htext ht'
      obtain rfl : text = text' := Option.some.inj htext
      exact hread t' (ht.symm.trans ht' ▸ rfl)
    · intro hread t' ht'
      obtain rfl : t = t' := Option.some.inj ht'
      exact hread text t rfl ht

/-- An allow-list of one bare address, for the shop's project. -/
def officeOnly (expiresAt : Option String) : SaveDeploymentProtectionInput :=
  ⟨1, 5, "ip", none, none, some [" 203.0.113.9"], expiresAt⟩

def officeRow (expiresAt : Option Int) : ProtectionRow :=
  ⟨⟨9, 1, 5, .ip, none, ["203.0.113.9/32"], expiresAt, 1, 7⟩, none⟩

def officePosture : CompiledProtection := ⟨.ip, none, none, some ["203.0.113.9/32"]⟩

def officeAccepted (expiresAt : Option String) : Accepted :=
  ⟨⟨9, 1, 5, .ip, none, none, ["203.0.113.9/32"], expiresAt, 7⟩, officePosture⟩

/-- The shop once the office's row is stored. -/
def officeSaved (expiresAt : Option Int) : Db :=
  { shop with protections := shop.protections.put ⟨officeRow expiresAt, by rfl⟩ }

/-- The last day of the year 9999, five hours west of Greenwich. -/
def farExpiry : String := "9999-12-31T23:59:59-05:00"

/-- A platform that reads this one timestamp. -/
def farPlatform : Platform :=
  ⟨id, fun text => if text = farExpiry then some 253402318799000 else none,
    fun text => if text = farExpiry then some 253402318799000 else none⟩

end Security

end CloudWai
