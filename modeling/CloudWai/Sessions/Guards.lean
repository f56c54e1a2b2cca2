import CloudWai.Base.Machine
import CloudWai.Base.RowSecurity
import CloudWai.Contracts
import Mathlib.Data.List.Induction

/-!
# Columns that are the engines' to write

`guard_engine_columns` and `guard_engine_columns_on_insert`: the policies let a member
write a row of its tenant, and these triggers keep some of the row's columns from it,
which report what an engine has done. A hostname is verified, a deployment succeeded
or a resource is ready only if the service role has said so.

The triggers take the names of the columns as arguments. `guarded_provenance` is about
any table with such a pair of triggers, whatever its policies: what stands in the
guarded columns of a row has come there as the default, or stood together in one row
before, or was written by the service role.

Mirrors the trigger functions of `supabase/migrations/0006_engine_column_guards.sql` and
the triggers of the later migrations. Columns that no trigger names are left out, and a
trigger's arguments come as pairs, not as text to be split.
-/

namespace CloudWai.Sessions

open Base

/-! ## The triggers -/

/-- A row, as `to_jsonb` shows it: every column as text, or `null`. -/
structure JsonRow where
  id : Nat
  column : String → Option String

/-- The arguments of a table's triggers, those of several pairs together. What an insert may
only default, no update may change. -/
structure Guard where
  columns : List String
  onUpdate : List String
  onInsert : List (String × Option String)
  covers : ∀ d ∈ onInsert, d.1 ∈ onUpdate

namespace Guard

variable (G : Guard)

/-- `guard_engine_columns`; a name that is no column of the row is an error. -/
def guardEngineColumns : Session UserId → (old new : JsonRow) → Option JsonRow
  | .service, _, new => some new
  | .client _, old, new =>
    if G.onUpdate.all fun c => G.columns.contains c && new.column c == old.column c then some new
    else none

/-- `guard_engine_columns_on_insert` -/
def guardEngineColumnsOnInsert : Session UserId → JsonRow → Option JsonRow
  | .service, new => some new
  | .client _, new =>
    if G.onInsert.all fun d => G.columns.contains d.1 && new.column d.1 == d.2 then some new
    else none

end Guard

/-- The policies of a table, which may ask for anything. -/
structure Policies (W : Type) where
  mayInsert : UserId → W → JsonRow → Bool
  mayUpdate : UserId → W → JsonRow → Bool
  mayBecome : UserId → W → JsonRow → Bool
  mayDelete : UserId → W → JsonRow → Bool

/-- The policies of a table with its guard in front. -/
def guardedRules {W : Type} (G : Guard) (P : Policies W) : Rules UserId W JsonRow Nat where
  key := JsonRow.id
  mayInsert := P.mayInsert
  mayUpdate := P.mayUpdate
  mayBecome := P.mayBecome
  mayDelete := P.mayDelete
  beforeInsert s _ new := G.guardEngineColumnsOnInsert s new
  beforeUpdate s _ old new := G.guardEngineColumns s old new

/-! ## The tables

Of the columns, those that the triggers name, and the tenant's. -/

/-- What the trigger on `domains` freezes; below, the other tables. -/
def domainsGuard : Guard where
  columns := ["organization_id", "project_id", "hostname", "verified", "verified_at",
    "verification_token", "provider", "provider_resource_id"]
  onUpdate := ["verified", "verified_at", "verification_token", "provider",
    "provider_resource_id", "hostname"]
  onInsert := [("verified", some "false"), ("verified_at", none), ("verification_token", none),
    ("provider", none), ("provider_resource_id", none)]
  covers := by decide

def dataResourcesGuard : Guard where
  columns := ["organization_id", "project_id", "name", "state", "provider", "provider_resource_id"]
  onUpdate := ["state", "provider", "provider_resource_id"]
  onInsert := [("state", some "provisioning"), ("provider", none), ("provider_resource_id", none)]
  covers := by decide

def deploymentsGuard : Guard where
  columns := ["organization_id", "project_id", "status", "url", "provider",
    "provider_resource_id", "deployment_resource_id", "failure_reason", "started_at",
    "finished_at", "is_current", "build_provider_resource_id", "build_provider"]
  onUpdate := ["status", "url", "provider", "provider_resource_id", "deployment_resource_id",
    "failure_reason", "started_at", "finished_at", "is_current", "build_provider_resource_id",
    "build_provider"]
  onInsert := [("status", some "pending"), ("url", none), ("provider_resource_id", none),
    ("deployment_resource_id", none), ("failure_reason", none), ("is_current", some "false"),
    ("build_provider_resource_id", none), ("build_provider", none)]
  covers := by decide

def securityPoliciesGuard : Guard where
  columns := ["organization_id", "state"]
  onUpdate := ["state"]
  onInsert := [("state", some "draft")]
  covers := by decide

def projectsGuard : Guard where
  columns := ["organization_id", "name", "provider", "provider_resource_id",
    "production_deployment_id"]
  onUpdate := ["provider", "provider_resource_id", "production_deployment_id"]
  onInsert := [("provider", none), ("provider_resource_id", none),
    ("production_deployment_id", none)]
  covers := by decide

def dataRestoresGuard : Guard where
  columns := ["organization_id", "status", "provider", "provider_resource_id", "finished_at"]
  onUpdate := ["status", "provider", "provider_resource_id", "finished_at"]
  onInsert := [("status", some "pending"), ("provider_resource_id", none), ("finished_at", none)]
  covers := by decide

def previewTargetsGuard : Guard where
  columns := ["organization_id", "project_id", "provider", "provider_resource_id"]
  onUpdate := ["provider", "provider_resource_id"]
  onInsert := [("provider", none), ("provider_resource_id", none)]
  covers := by decide

def projectEnvVarsGuard : Guard where
  columns := ["organization_id", "project_id", "engine_ref", "provider", "provider_resource_id"]
  onUpdate := ["engine_ref", "provider", "provider_resource_id"]
  onInsert := [("engine_ref", none), ("provider", none), ("provider_resource_id", none)]
  covers := by decide

def projectDeploymentProtectionGuard : Guard := projectEnvVarsGuard

/-! ## Runs -/

/-- A statement, who sends it, and what the policies find. -/
structure GuardedMove (W : Type) where
  session : Session UserId
  world : W
  statement : Statement JsonRow

section Runs

variable {W : Type} (G : Guard) (P : Policies W)

/-- An error leaves the rows as they are. -/
def guardedStep (rows : List JsonRow) (m : GuardedMove W) : List JsonRow :=
  ((guardedRules G P).exec m.session m.world rows m.statement).getD rows

/-- The two rows have the same in every guarded column. -/
def Guard.Alike (r r' : JsonRow) : Prop := ∀ c ∈ G.onUpdate, r'.column c = r.column c

/-- Every column the insert guards is as it defaults. -/
def Guard.Fresh (r : JsonRow) : Prop := ∀ d ∈ G.onInsert, r.column d.1 = d.2

variable {G P} {rows : List JsonRow} {m : GuardedMove W} {ms : List (GuardedMove W)}
  {r r' r'' : JsonRow}

theorem Guard.Alike.trans (h : G.Alike r r') (h' : G.Alike r' r'') : G.Alike r r'' :=
  fun c hc => (h' c hc).trans (h c hc)

theorem Guard.Fresh.alike (h : G.Fresh r) (h' : G.Alike r r') : G.Fresh r' :=
  fun d hd => (h' d.1 (G.covers d hd)).trans (h d hd)

theorem alike_of_guard {user : UserId}
    (h : G.guardEngineColumns (.client user) r r'' = some r') : G.Alike r r' := by
  unfold Guard.guardEngineColumns at h
  dsimp only at h
  split at h
  next hall =>
    obtain rfl := Option.some.inj h
    intro c hc
    have hcolumn := List.all_eq_true.mp hall c hc
    rw [Bool.and_eq_true, beq_iff_eq] at hcolumn
    exact hcolumn.2
  next => cases h

theorem fresh_of_guard {user : UserId}
    (h : G.guardEngineColumnsOnInsert (.client user) r = some r') : G.Fresh r' := by
  unfold Guard.guardEngineColumnsOnInsert at h
  dsimp only at h
  split at h
  next hall =>
    obtain rfl := Option.some.inj h
    intro d hd
    have hcolumn := List.all_eq_true.mp hall d hd
    rw [Bool.and_eq_true, beq_iff_eq] at hcolumn
    exact hcolumn.2
  next => cases h

/-- A row after a statement of a client. -/
theorem guarded_step {user : UserId} (hclient : m.session = .client user)
    (hr : r' ∈ guardedStep G P rows m) : G.Fresh r' ∨ ∃ r ∈ rows, G.Alike r r' := by
  unfold guardedStep at hr
  cases hexec : (guardedRules G P).exec m.session m.world rows m.statement with
  | none =>
    rw [hexec] at hr
    exact .inr ⟨r', hr, fun _ _ => rfl⟩
  | some rows' =>
    rw [hexec] at hr
    rcases Rules.exec_after hexec hr with hold | ⟨hmakes, _⟩ | ⟨r, hold, hturns⟩
    · exact .inr ⟨r', hold, fun _ _ => rfl⟩
    · obtain ⟨_, _, draft, _, hmade⟩ := hmakes
      rw [hclient] at hmade
      have hguard : G.guardEngineColumnsOnInsert (.client user) draft = some r' :=
        (Option.filter_eq_some_iff.mp hmade).1
      exact .inl (fresh_of_guard hguard)
    · obtain ⟨_, set, _, _, hset⟩ := hturns
      rw [hclient] at hset
      have hguard : G.guardEngineColumns (.client user) r (set r) = some r' :=
        (Option.filter_eq_some_iff.mp hset).1
      exact .inr ⟨r, hold, alike_of_guard hguard⟩

/-- **Where a guarded column has its value from**: of every row after a run, either the
columns are as an insert defaults them, or all of them stood together in one row before the
run, or in one row after a statement of the service role. -/
theorem guarded_provenance (hr : r' ∈ runFrom (guardedStep G P) rows ms) :
    G.Fresh r' ∨ (∃ r ∈ rows, G.Alike r r') ∨
      ∃ pre m post, ms = pre ++ m :: post ∧ m.session = .service ∧
        ∃ r ∈ runFrom (guardedStep G P) rows (pre ++ [m]), G.Alike r r' := by
  induction ms using List.reverseRecOn generalizing r' with
  | nil => exact .inr (.inl ⟨r', hr, fun _ _ => rfl⟩)
  | append_singleton ms m ih =>
    cases hsession : m.session with
    | service => exact .inr (.inr ⟨ms, m, [], rfl, hsession, r', hr, fun _ _ => rfl⟩)
    | client user =>
      rw [runFrom_append] at hr
      rcases guarded_step hsession hr with hfresh | ⟨r, hold, halike⟩
      · exact .inl hfresh
      · rcases ih hold with hfresh | ⟨x, hx, hthis⟩ | ⟨pre, l, post, rfl, hservice, x, hx, hthis⟩
        · exact .inl (hfresh.alike halike)
        · exact .inr (.inl ⟨x, hx, hthis.trans halike⟩)
        · refine .inr (.inr ⟨pre, l, post ++ [m], ?_, hservice, x, hx, hthis.trans halike⟩)
          rw [List.append_assoc]
          rfl

end Runs

/-- Policies that let everybody do everything. -/
def anyone : Policies Unit where
  mayInsert _ _ _ := true
  mayUpdate _ _ _ := true
  mayBecome _ _ _ := true
  mayDelete _ _ _ := true

/-- A hostname as a client may ask for it, and as the edge has seen it. -/
def hostname (verified : String) : JsonRow where
  id := 1
  column c := if c = "hostname" then some "shop.example" else if c = "verified" then some verified
    else none

/-- A client asks for a hostname, and the service role verifies it. -/
theorem guarded_provenance_hostname : let ms : List (GuardedMove Unit) :=
    [⟨.client 3, (), .insert [hostname "false"]⟩,
      ⟨.service, (), .update (fun _ => true) fun _ => hostname "true"⟩]
    domainsGuard.Fresh (hostname "true") ∨ (∃ r ∈ [], domainsGuard.Alike r (hostname "true")) ∨
      ∃ pre m post, ms = pre ++ m :: post ∧ m.session = .service ∧
        ∃ r ∈ runFrom (guardedStep domainsGuard anyone) [] (pre ++ [m]),
          domainsGuard.Alike r (hostname "true") :=
  guarded_provenance (G := domainsGuard) (P := anyone) (List.mem_of_mem_head? rfl)

end CloudWai.Sessions
