import CloudWai.Access.Keys
import CloudWai.Base.Machine

/-!
# Chains of issued keys

`K` has a key made, which has another one made, and so on. A chain is the first
secret, the secrets obtained since, and the store they live in; an event is one
call of `createApiKey` that one of these secrets authenticates, or what may
happen between two calls: the members change their roles, and time passes. No
event revokes a key.

The invariant is that every key obtained is `Within` the first, which rules out
that it ever has a scope the first lacks. A call keeps it exactly if the scopes
asked for, as far as the owner's role grants them, are the first key's already:
the role is all that `createApiKey` looks at. `contained_iff_modest` says so of
whole chains, and `key_outgrown` is the chain of one call that starts from a key
with `apikey:create` alone and ends in a key that deletes the organization.

About `packages/auth/src/api-keys.ts` and `apps/api/src/procedures/settings.ts`, as
`Keys.lean` has them.
-/

namespace CloudWai.Access

open Base Grammar

section Chain

variable (sha256 : String → String)

/-- A first key, the keys obtained through it, and where they are stored. -/
structure Chain where
  world : KeyStore
  key : String
  issued : List String

namespace Chain

/-- Before any call. -/
def start (world : KeyStore) (key : String) : Chain := ⟨world, key, []⟩

/-- The secrets a call may be authenticated with. -/
def secrets (s : Chain) : List String := s.key :: s.issued

end Chain

/-- A call, authenticated with the secret at a place of the chain; or something
that happens between two calls. -/
inductive Event where
  | create (caller : Nat) (input : CreateApiKeyInput) (id : Nat) (token : String)
      (fault : Queue.Fault)
  | members (members : List Membership)
  | wait (ms : Nat)

/-- One event; a caller without a secret creates nothing. -/
def step (s : Chain) : Event → Chain
  | .create caller input id token fault =>
    match s.secrets[caller]? with
    | none => s
    | some presented =>
      match buildContext sha256 s.world presented with
      | .error _ => s
      | .ok ctx =>
        match createApiKey sha256 ctx input id token fault s.world with
        | (.ok result, world) => { s with world := world, issued := s.issued ++ [result.secret] }
        | (.error _, world) => { s with world := world }
  | .members members => { s with world := { s.world with members := members } }
  | .wait ms => { s with world := { s.world with now := s.world.now + ms } }

/-- The effective scopes of a key, now. -/
def scopesOf (w : KeyStore) (secret : String) : List Capability :=
  match w.lookup sha256 secret with
  | none => []
  | some row => effectiveScopes row (w.membershipsFor row.ownerId) w.now

/-- No key of the chain has a scope that the first one lacks. -/
def Contained (s : Chain) : Prop :=
  ∀ secret ∈ s.secrets, scopesOf sha256 s.world secret ⊆ scopesOf sha256 s.world s.key

/-- What a call that issues a key asks for, and the role of the owner. -/
def letThrough (s : Chain) : Event → Option (List String × OrgRole)
  | .create caller input id token fault =>
    match s.secrets[caller]? with
    | none => none
    | some presented =>
      match buildContext sha256 s.world presented with
      | .error _ => none
      | .ok ctx =>
        match mintTarget ctx input with
        | .error _ => none
        | .ok (_, role) =>
          if fault.Clear ∧ s.world.taken id (sha256 (secretPrefix ++ token)) = false then
            some (input.scopes, role)
          else none
  | _ => none

/-- **The condition**: what the owner's role grants of the scopes asked for, the
first key has. -/
def Modest (s : Chain) (e : Event) : Prop :=
  match letThrough sha256 s e with
  | none => True
  | some (requested, role) => ∀ c ∈ capabilities,
      c.wire ∈ requested → hasCapability role c = true → c ∈ scopesOf sha256 s.world s.key

/-! ## What a call does -/

/-- A key that was found still is. -/
def Kept (w w' : KeyStore) : Prop :=
  ∀ secret r, w.lookup sha256 secret = some r → w'.lookup sha256 secret = some r

/-- What a call that issues a key leaves: a row under the new secret, made out to
the caller's owner, no wider than the role allows. -/
structure Issued (s s' : Chain) (caller : ApiKeyRow) (row : ApiKeyRow) (requested : List String)
    (role : OrgRole) : Prop where
  key : s'.key = s.key
  kept : Kept sha256 s.world s'.world
  frame : s'.world.members = s.world.members ∧ s'.world.now = s.world.now
  issued : ∃ secret, s'.issued = s.issued ++ [secret] ∧ s'.world.lookup sha256 secret = some row
  active : isKeyActive caller s.world.now = true
  org : row.organizationId = caller.organizationId
  owner : row.ownerId = caller.ownerId
  granted : (membershipOf row (s.world.membershipsFor row.ownerId)).map (·.role) = some role
  scopes : row.scopes = boundedScopes requested role
  fresh : row.revokedAt = none ∧ row.createdAt = s.world.now

/-- The guard of a call that a key authenticated. -/
theorem of_mintTarget {ctx : RequestContext} {input : CreateApiKeyInput} {name : String}
    {role : OrgRole} (h : mintTarget ctx input = .ok (name, role)) :
    requireCapability ctx input.organizationId .apikeyCreate = .ok () ∧
      roleFor ctx input.organizationId = some role := by
  unfold mintTarget at h
  cases hcap : requireCapability ctx input.organizationId .apikeyCreate with
  | error failure =>
    rw [hcap] at h
    cases h
  | ok u =>
    rw [hcap] at h
    simp only [Except.bind] at h
    split at h
    · cases h
    · split at h
      · cases h
      next role' hrole =>
        simp only [Except.ok.injEq, Prod.mk.injEq] at h
        rw [← h.2]
        exact ⟨rfl, hrole⟩

/-- An insert that is let through. -/
theorem insert_free {w : KeyStore} {row : ApiKeyRow} (h : w.taken row.id row.keyHash = false) :
    w.insert row = some { w with keys := w.keys.put row } := by
  unfold KeyStore.insert
  rw [h]
  rfl

theorem insert_taken {w : KeyStore} {row : ApiKeyRow} (h : w.taken row.id row.keyHash = true) :
    w.insert row = none := by
  unfold KeyStore.insert
  rw [h]
  rfl

/-- A context that a key authenticated, as `createApiKey` uses it. -/
theorem role_of_key {w : KeyStore} {presented : String} {ctx : RequestContext}
    {org : OrganizationId} {role : OrgRole}
    (hctx : buildContext sha256 w presented = .ok ctx)
    (hcap : requireCapability ctx org .apikeyCreate = .ok ()) (hrole : roleFor ctx org = some role) :
    ∃ r, w.lookup sha256 presented = some r ∧ isKeyActive r w.now = true ∧
      org = r.organizationId ∧ ctx.userId = r.ownerId ∧
      (membershipOf r (w.membershipsFor r.ownerId)).map (·.role) = some role := by
  unfold buildContext at hctx
  split at hctx
  · obtain ⟨r, hr, -, rfl⟩ := authenticateApiKey_ok sha256 hctx
    obtain ⟨horg, hscope⟩ := (of_requireCapability hcap).2 _ rfl
    dsimp only at horg hscope
    refine ⟨r, hr, (mem_effectiveScopes.mp hscope).1, horg.symm, rfl, ?_⟩
    rw [← hrole, ← horg]
    rfl
  · cases hctx

/-- **Inversion.** An event issues a key, or the chain and its keys stay what they are. -/
theorem step_cases (s : Chain) (e : Event) :
    (letThrough sha256 s e = none ∧ (step sha256 s e).key = s.key ∧
      (step sha256 s e).issued = s.issued ∧ Kept sha256 s.world (step sha256 s e).world) ∨
    (∃ requested role presented caller row, letThrough sha256 s e = some (requested, role) ∧
      presented ∈ s.secrets ∧ s.world.lookup sha256 presented = some caller ∧
      Issued sha256 s (step sha256 s e) caller row requested role) := by
  have hrefl : Kept sha256 s.world s.world := fun _ _ h => h
  cases e with
  | members members => exact Or.inl ⟨rfl, rfl, rfl, hrefl⟩
  | wait ms => exact Or.inl ⟨rfl, rfl, rfl, hrefl⟩
  | create place input id token fault =>
    unfold step letThrough
    dsimp only
    split
    next => exact Or.inl ⟨rfl, rfl, rfl, hrefl⟩
    next presented hplace =>
      split
      next => exact Or.inl ⟨rfl, rfl, rfl, hrefl⟩
      next ctx hctx =>
        unfold createApiKey
        cases hmint : mintTarget ctx input with
        | error failure => exact Or.inl ⟨rfl, rfl, rfl, hrefl⟩
        | ok target =>
          obtain ⟨name, role⟩ := target
          obtain ⟨hcap, hrole⟩ := of_mintTarget hmint
          obtain ⟨r, hr, hactive, horg, howner, hgranted⟩ := role_of_key sha256 hctx hcap hrole
          dsimp only
          generalize hissued : issueApiKey sha256 id token input.organizationId ctx.userId name role
            input.scopes s.world.now = made
          obtain ⟨secret, row⟩ := made
          obtain ⟨rfl, hrow⟩ := Prod.mk.inj hissued
          have hid : row.id = id := by rw [← hrow]
          have hhash : row.keyHash = sha256 (secretPrefix ++ token) := by rw [← hrow]
          dsimp only
          rw [← hid, ← hhash]
          cases htaken : s.world.taken row.id row.keyHash with
          | true =>
            rw [insert_taken htaken]
            cases fault <;> exact Or.inl ⟨by simp, rfl, rfl, hrefl⟩
          | false =>
            have hinsert := insert_free htaken
            rw [hinsert]
            have hkept : Kept sha256 s.world { s.world with keys := s.world.keys.put row } :=
              fun secret r hr => lookup_insert_of_found sha256 hinsert hr
            cases fault with
            | before reason => exact Or.inl ⟨by simp [Queue.Fault.Clear], rfl, rfl, hrefl⟩
            | after reason => exact Or.inl ⟨by simp [Queue.Fault.Clear], rfl, rfl, hkept⟩
            | none =>
              refine Or.inr ⟨input.scopes, role, presented, r, row, by simp [Queue.Fault.Clear],
                List.mem_of_getElem? hplace, hr, ?_⟩
              exact {
                key := rfl
                kept := hkept
                frame := ⟨rfl, rfl⟩
                issued := ⟨_, rfl, (lookup_insert sha256 hinsert _).trans (if_pos hhash.symm)⟩
                active := hactive
                org := by rw [← hrow, horg]
                owner := by rw [← hrow, howner]
                granted := by
                  rw [← hgranted, ← hrow]
                  unfold membershipOf
                  rw [horg, howner]
                scopes := by rw [← hrow]
                fresh := by rw [← hrow]; exact ⟨rfl, rfl⟩ }

/-! ## The invariant -/

/-- Every key obtained is within the first. -/
def Nested (s : Chain) : Prop :=
  ∀ secret ∈ s.issued, ∃ k row, s.world.lookup sha256 s.key = some k ∧
    s.world.lookup sha256 secret = some row ∧ Within k row

theorem contained_of_nested {s : Chain} (h : Nested sha256 s) : Contained sha256 s := by
  intro secret hsecret
  rcases List.mem_cons.mp hsecret with rfl | hissued
  · exact List.Subset.refl _
  · obtain ⟨k, row, hk, hrow, hwithin⟩ := h secret hissued
    unfold scopesOf
    rw [hk, hrow]
    dsimp only
    rw [hwithin.owner]
    exact effectiveScopes_subset hwithin _ _

/-- The caller's row, wherever in the chain its key stands. -/
theorem within_of_nested {s : Chain} (h : Nested sha256 s) {presented : String} {caller : ApiKeyRow}
    (hmem : presented ∈ s.secrets) (hcaller : s.world.lookup sha256 presented = some caller) :
    ∃ k, s.world.lookup sha256 s.key = some k ∧ Within k caller := by
  rcases List.mem_cons.mp hmem with rfl | hissued
  · exact ⟨caller, hcaller, Within.refl caller⟩
  · obtain ⟨k, row, hk, hrow, hwithin⟩ := h presented hissued
    rw [hcaller, Option.some.injEq] at hrow
    exact ⟨k, hk, hrow ▸ hwithin⟩

section Issued

variable {sha256} {s s' : Chain} {caller row k : ApiKeyRow} {requested : List String}
  {role : OrgRole} (h : Issued sha256 s s' caller row requested role)

include h

/-- The new key has what was asked for and the role grants. -/
theorem Issued.effective {c : Capability} :
    c ∈ effectiveScopes row (s'.world.membershipsFor row.ownerId) s'.world.now ↔
      c.wire ∈ requested ∧ hasCapability role c = true := by
  obtain ⟨m, hm, hrole⟩ := Option.map_eq_some_iff.mp h.granted
  have hactive : isKeyActive row s.world.now = true := by
    simp [isKeyActive, h.fresh.1, h.fresh.2]
  unfold KeyStore.membershipsFor at hm ⊢
  rw [h.frame.1, h.frame.2, mem_effectiveScopes, h.scopes]
  simp only [boundedScopes, List.mem_filter, List.mem_eraseDups, grants, capabilityOf_wire,
    Option.any_some]
  constructor
  · rintro ⟨-, hasked, -⟩
    exact hasked
  · rintro ⟨hasked, hgrant⟩
    exact ⟨hactive, ⟨hasked, hgrant⟩, m, hm, hrole ▸ hgrant⟩

/-- The first key has what it had. -/
theorem Issued.first (hk : s.world.lookup sha256 s.key = some k) :
    scopesOf sha256 s'.world s'.key = scopesOf sha256 s.world s.key := by
  unfold scopesOf KeyStore.membershipsFor
  rw [h.key, h.kept _ _ hk, hk, h.frame.1, h.frame.2]

/-- The new key is within the first exactly if the call was modest. -/
theorem Issued.within (hk : s.world.lookup sha256 s.key = some k) (hcaller : Within k caller)
    (hmodest : ∀ c : Capability, c.wire ∈ requested → hasCapability role c = true →
      c ∈ scopesOf sha256 s.world s.key) : Within k row where
  org := h.org.trans hcaller.org
  owner := h.owner.trans hcaller.owner
  age := by
    have hactive := h.active
    simp only [isKeyActive, Bool.and_eq_true, decide_eq_true_eq] at hactive
    rw [h.fresh.2]
    exact Nat.le_trans hcaller.age hactive.2
  revoked := by
    have hactive := h.active
    simp only [isKeyActive, Bool.and_eq_true, Option.isNone_iff_eq_none] at hactive
    exact fun _ => hcaller.revoked hactive.1
  scopes := by
    intro c hc
    rw [h.scopes] at hc
    simp only [boundedScopes, List.mem_filter, List.mem_eraseDups, grants, capabilityOf_wire,
      Option.any_some] at hc
    have hfirst := hmodest c hc.1 hc.2
    unfold scopesOf at hfirst
    rw [hk] at hfirst
    exact (mem_effectiveScopes.mp hfirst).2.1

end Issued

theorem mem_capabilities (c : Capability) : c ∈ capabilities := by
  cases c <;> decide

/-- **Step lemma.** A modest event keeps the keys within the first. -/
theorem nested_step {s : Chain} {e : Event} (h : Nested sha256 s) (hmodest : Modest sha256 s e) :
    Nested sha256 (step sha256 s e) := by
  rcases step_cases sha256 s e with ⟨-, hkey, hissued, hkept⟩ |
    ⟨requested, role, presented, caller, row, hlet, hmem, hcaller, hmade⟩
  · intro secret hsecret
    rw [hissued] at hsecret
    obtain ⟨k, row, hk, hrow, hwithin⟩ := h secret hsecret
    exact ⟨k, row, hkey ▸ hkept _ _ hk, hkept _ _ hrow, hwithin⟩
  · obtain ⟨k, hk, hwithin⟩ := within_of_nested sha256 h hmem hcaller
    obtain ⟨fresh, hissued, hfresh⟩ := hmade.issued
    intro secret hsecret
    rw [hissued, List.mem_append, List.mem_singleton] at hsecret
    rcases hsecret with hold | rfl
    · obtain ⟨k, row, hk, hrow, hwithin⟩ := h secret hold
      exact ⟨k, row, hmade.key ▸ hmade.kept _ _ hk, hmade.kept _ _ hrow, hwithin⟩
    · unfold Modest at hmodest
      rw [hlet] at hmodest
      exact ⟨k, row, hmade.key ▸ hmade.kept _ _ hk, hfresh,
        hmade.within hk hwithin fun c => hmodest c (mem_capabilities c)⟩

/-- What an event leaves is contained exactly if the event was modest. -/
theorem contained_step_iff {s : Chain} {e : Event} (h : Nested sha256 s) :
    Contained sha256 (step sha256 s e) ↔ Modest sha256 s e := by
  constructor
  · intro hcontained
    rcases step_cases sha256 s e with ⟨hlet, -⟩ |
      ⟨requested, role, presented, caller, row, hlet, hmem, hcaller, hmade⟩
    · unfold Modest
      rw [hlet]
      trivial
    · obtain ⟨k, hk, -⟩ := within_of_nested sha256 h hmem hcaller
      obtain ⟨fresh, hissued, hfresh⟩ := hmade.issued
      unfold Modest
      rw [hlet]
      intro c _ hasked hgrant
      have hnew : c ∈ scopesOf sha256 (step sha256 s e).world fresh := by
        unfold scopesOf
        rw [hfresh]
        exact hmade.effective.mpr ⟨hasked, hgrant⟩
      rw [← hmade.first hk]
      refine hcontained fresh (List.mem_cons_of_mem _ ?_) hnew
      rw [hissued]
      exact List.mem_append_right _ (List.mem_singleton_self fresh)
  · intro hmodest
    exact contained_of_nested sha256 (nested_step sha256 h hmodest)

/-- No chain widens its first key exactly if every call of it asks for no more, of
what the role grants, than the first key has. -/
theorem contained_iff_modest (world : KeyStore) (key : String) (events : List Event) :
    Always (step sha256) (Contained sha256) (Chain.start world key) events ↔
      EachStep (step sha256) (Modest sha256) (Chain.start world key) events := by
  have hstart : Nested sha256 (Chain.start world key) := fun _ h => absurd h List.not_mem_nil
  rw [always_iff_after, and_iff_right (contained_of_nested sha256 hstart)]
  exact eachStep_iff hstart (fun _ _ h hm => nested_step sha256 h hm)
    fun _ _ h => contained_step_iff sha256 h

end Chain

/-! ## A key that is outgrown -/

/-- The digests of the two secrets below. -/
def sampleDigest (secret : String) : String :=
  if secret = "cw_live_AAAAAAAAAAAAAAAAAAAAAAAAAAAAAAAA" then
    "a6ad48108a5a39f2bd7f31237ca53eac1d37a0cf047a249d0b58eae7953e07d3"
  else "531ce1c4d4d9250f781d3457ff274b38278b59aabc4fde9161ca81c16c0ec9fa"

/-- An owner's key that may do nothing but create keys. -/
def narrowStore : KeyStore :=
  ⟨Table.empty.put ⟨1, 1, "ci", sampleDigest "cw_live_AAAAAAAAAAAAAAAAAAAAAAAAAAAAAAAA",
      "cw_live_AAAA", 7, ["apikey:create"], none, 0⟩,
    [⟨1, 7, .owner⟩], 10⟩

/-- It has a key made that deletes the organization. -/
theorem key_outgrown : ¬ ∀ (sha256 : String → String) (world : KeyStore) (key : String)
    (events : List Event),
    Always (step sha256) (Contained sha256) (Chain.start world key) events := by
  intro h
  have hlast := always_iff_prefixes.mp (h sampleDigest narrowStore
    "cw_live_AAAAAAAAAAAAAAAAAAAAAAAAAAAAAAAA"
    [.create 0 ⟨1, "deploys", ["org:delete"]⟩ 2 "BBBBBBBBBBBBBBBBBBBBBBBBBBBBBBBB" .none]) _ []
    (List.append_nil _).symm
  revert hlast
  unfold Contained
  decide +kernel

end CloudWai.Access
