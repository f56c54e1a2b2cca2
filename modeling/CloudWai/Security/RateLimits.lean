import CloudWai.Security.DenyList

/-!
# Whom rate limits count

Rate limits stand behind the allow rules so that a trusted source, an internal
request or a confirmed bot "has already been marked and is never counted". The
place in the list does not do that. A limit is compiled to an action without a
condition, which marks every request, and to a descriptor for Envoy's filter,
which knows nothing of the allow rules' markers. Exempt requests are counted as
soon as there is a limit (`marked_iff`).

Nor are the limits told apart. All of them set the same two variables, so that
the last one is what is left, and a descriptor is made from a limit's key alone.
`rate_limits_sound_iff` says what follows: the limits do what they are for
exactly on requests that are not exempt, or without a limit, and as long as
there is only one.

That the markers are there at the end rests on the deny list: it ends no
transaction in phase 1, and neither does anything else (`Quiet`).

About `compileEdge` of `packages/adapters/src/security-edge.ts`, as `Compile.lean` has it.
-/

namespace CloudWai

namespace Security

open Base.Seclang

/-! ## What the limits are for -/

/-- The variable that records a limit; the source has no constant for it. -/
def rateLimitVariable : String := "cloud_wai_rate_limit"

/-- The variables a block sets, by their caseless names. -/
def variablesSet (g : List Directive) : List (List Char) :=
  (g.flatMap Directive.actions).filterMap fun
    | .setvar name _ => some (caseless name)
    | _ => none

section Purpose

variable (M : Matchers) (input : CompileInput) (req : EdgeRequest)

/-- A request the allow rules let through. -/
def ExemptRequest : Prop :=
  FromTrustedSource M input req ∨ InternalRequest M req ∨ ConfirmedBot M input req

/-- A rule the compiler accepts. -/
def Enforced (rule : RateLimitRule) : Prop :=
  rule ∈ input.rateLimits ∧ validateRateLimitRule rule = .ok

/-- The rules have marked the request as one to count. -/
def Marked : Prop :=
  ((eval M req.request (compileEdge input).corazaDirectives req.tx).tx.get
    rateLimitVariable).isSome = true

/-- Envoy counts a request under a descriptor that it has. -/
def CompiledRateLimit.Counts (limit : CompiledRateLimit) : Prop :=
  limit.descriptor = "remote_address" ∨ limit.descriptor = "route_global" ∨
    ∃ name, limit.descriptor = "header:" ++ name ∧ req.request.header name ≠ []

/-- Neither the descriptor nor the marker of one is that of the other. -/
def Separate (a b : RateLimitRule) : Prop :=
  rateLimitDescriptor a ≠ rateLimitDescriptor b ∧
    ∀ n m, ∀ name ∈ variablesSet (rateLimitDirectives a n),
      name ∉ variablesSet (rateLimitDirectives b m)

/-- Exempt requests are never counted, and no two limits share a variable. -/
structure RateLimitsSound : Prop where
  exempt : ExemptRequest M input req →
    ¬ Marked M input req ∧ ∀ limit ∈ (compileEdge input).rateLimits, ¬ limit.Counts req
  separate : ∀ a b, Enforced input a → Enforced input b → a ≠ b → Separate a b

end Purpose

variable {M : Matchers} {input : CompileInput} {req : EdgeRequest}

/-! ## Nothing ends a transaction in phase 1 -/

/-- A block that cannot deny in phase 1. -/
def Quiet (g : List Directive) : Prop :=
  trustedMember ∈ g ∨
    ∀ dir, g.head? = some dir → dir.phase? ≠ some 1 ∨ Action.deny ∉ dir.actions

theorem Quiet.of_pass {dir : Directive} {ds : List Directive} (h : Action.deny ∉ dir.actions) :
    Quiet (dir :: ds) := by
  right
  intro dir' hd
  cases hd
  exact .inr h

/-- No block ends a transaction in phase 1. -/
theorem compileRules_quiet (input : CompileInput) : ∀ g ∈ (compileRules input).blocks, Quiet g := by
  refine compileRules_blocks ?_ ?_ ?_ ?_ ?_ ?_ ?_ ?_ ?_
  · intro g hg
    rcases List.mem_cons.mp hg with rfl | hg
    · exact .of_pass (by simp [Directive.actions])
    · rw [List.mem_singleton.mp hg]
      exact .of_pass (by simp [Directive.actions])
  · intro bot n
    exact .of_pass (by simp [Directive.actions])
  · intro n
    exact .of_pass (by simp [Directive.actions])
  · intro source n
    exact .of_pass (by simp [Directive.actions])
  · intro rule n
    exact .inl (by simp [denyDirectives, trustedMember])
  · intro rule _ _ n
    exact .of_pass (by simp [Directive.actions])
  · intro n
    exact .of_pass (by simp [Directive.actions])
  · intro policy n
    exact .of_pass (by simp [thresholdDirective, Directive.actions])
  · intro policy n
    -- the anomaly rule may deny, but in phase 2
    right
    intro dir hdir
    cases hdir
    left
    simp [Directive.phase?, Directive.actions]

/-- **Step.** In phase 1 nothing is denied. -/
theorem evalChain_phase_one {g : List Directive} (hg : Marks g) (hquiet : Quiet g) (r : Request)
    {t : Transaction} (h : Unmarked (fun _ => True) t) :
    Unmarked (fun _ => True) (evalChain M r 1 t g) := by
  by_cases hm : trustedMember ∈ g
  · rw [evalChain_eq_self ⟨_, hm, trustedMember_matches_nothing h r⟩]
    exact h
  · cases g with
    | nil => exact h
    | cons dir ds =>
      rw [evalChain]
      split
      · exact h
      next hfires =>
        refine ⟨marker_apply hg h.marker, ?_⟩
        intro i hi
        dsimp only at hi
        have hphase : dir.phase? = some 1 := by
          by_contra hne
          exact hfires (by simp [hne])
        have hdeny : Action.deny ∉ dir.actions := by
          rcases hquiet with hmem | hhead
          · exact absurd hmem hm
          · rcases hhead dir rfl with hne | hdeny
            · exact absurd hphase hne
            · exact hdeny
        rw [if_neg (by simpa using hdeny)] at hi
        cases hi

theorem Unmarked.undenied {t : Transaction} (h : Unmarked (fun _ => True) t) : t.deniedBy = none := by
  cases hd : t.deniedBy with
  | none => rfl
  | some i => exact absurd trivial (h.spared i hd)

/-! ## A limit marks every request -/

section Set

variable {name value : String} {as : List Action} {tx : Tx}

theorem get_set (tx : Tx) (name name' value : String) : (tx.set name' value).get name =
    if caseless name = caseless name' then some value else tx.get name :=
  rfl

/-- What is set stays set. -/
theorem isSome_foldl (h : (tx.get name).isSome = true) :
    ((as.foldl Tx.apply tx).get name).isSome = true := by
  refine foldl_apply_inv (P := fun tx => (tx.get name).isSome = true) h ?_
  intro name' value _ tx htx
  rw [get_set]
  split
  · rfl
  · exact htx

theorem isSome_of_setvar (h : Action.setvar name value ∈ as) :
    ((as.foldl Tx.apply tx).get name).isSome = true := by
  obtain ⟨before, after, rfl⟩ := List.append_of_mem h
  rw [List.foldl_append, List.foldl_cons]
  apply isSome_foldl
  show ((Tx.set _ name value).get name).isSome = true
  rw [get_set, if_pos rfl]
  rfl

theorem isSome_evalChain {r : Request} {n : Nat} {t : Transaction} {g : List Directive}
    (h : (t.tx.get name).isSome = true) : ((evalChain M r n t g).tx.get name).isSome = true := by
  cases g with
  | nil => exact h
  | cons dir ds =>
    rw [evalChain]
    split
    · exact h
    · exact isSome_foldl h

theorem isSome_foldl_evalChain {r : Request} {n : Nat} {t : Transaction}
    (gs : List (List Directive)) (h : (t.tx.get name).isSome = true) :
    ((gs.foldl (evalChain M r n) t).tx.get name).isSome = true := by
  induction gs generalizing t with
  | nil => exact h
  | cons g gs ih => exact ih (isSome_evalChain h)

end Set

/-- A block once pushed stays. -/
def Draft.Has (g : List Directive) (d : Draft) : Prop := g ∈ d.blocks

theorem Draft.Has.grows {g : List Directive} {d d' : Draft} (h : d.Has g) (hd : d.Grows d') :
    d'.Has g :=
  hd.blocks.subset h

/-- Every rule that is enforced has its block. -/
theorem block_of_enforced {rule : RateLimitRule} (h : Enforced input rule) :
    ∃ n, rateLimitDirectives rule n ∈ (compileRules input).blocks := by
  obtain ⟨before, after, hsplit⟩ := List.append_of_mem h.1
  have hlimits : ∀ d, ∃ n, (input.rateLimits.foldl rateLimitRung d).Has
      (rateLimitDirectives rule n) := by
    intro d
    rw [hsplit, List.foldl_append, List.foldl_cons]
    refine ⟨(before.foldl rateLimitRung d).nextId, ?_⟩
    refine Draft.Has.grows ?_ (.run .rateLimit after _)
    unfold rateLimitRung
    rw [if_pos h.2]
    exact List.mem_append_right _ (List.mem_singleton_self _)
  unfold compileRules
  obtain ⟨n, hn⟩ := hlimits (input.denyList.foldl denyRung (input.trustedSources.foldl trustedRung
    (internalRung ((verifiedBots ++ input.botAllowList).foldl botRung
      ⟨[], preamble input.route, [], 10⟩))))
  exact ⟨n, hn.grows (.fromLimits input _)⟩

/-- The edge sets none of the markers. -/
theorem unset_at_start (name : String)
    (h : caseless name ∉ [caseless asnVariable, caseless botConfirmVariable,
      caseless "BLOCKING_INBOUND_ANOMALY_SCORE"]) : req.tx.get name = none := by
  simp only [List.mem_cons, List.not_mem_nil, or_false, not_or] at h
  show EdgeRequest.tx req (caseless name) = none
  unfold EdgeRequest.tx
  rw [if_neg h.1, if_neg h.2.1, if_neg h.2.2]

/-- A limit that is enforced marks the request. -/
theorem marked_of_enforced {rule : RateLimitRule} (h : Enforced input rule) :
    Marked M input req := by
  obtain ⟨n, hblock⟩ := block_of_enforced h
  obtain ⟨before, after, hsplit⟩ := List.append_of_mem hblock
  have h0 : Unmarked (fun _ => True) (⟨req.tx, none⟩ : Transaction) := by
    refine ⟨?_, by simp⟩
    intro v hv
    rw [unset_at_start trustedMarkerVariable (by decide)] at hv
    cases hv
  -- what comes before the block has denied nothing
  have hbefore : Unmarked (fun _ => True) (before.foldl (evalChain M req.request 1) ⟨req.tx, none⟩) := by
    refine List.foldlRecOn _ _ h0 fun t ht g hg => ?_
    have hmem : g ∈ (compileRules input).blocks := by
      rw [hsplit]
      exact List.mem_append_left _ hg
    exact evalChain_phase_one ((compileRules_sound input).blocks g hmem).marks
      (compileRules_quiet input g hmem) req.request ht
  have hset : ((evalChain M req.request 1 (before.foldl (evalChain M req.request 1) ⟨req.tx, none⟩)
      (rateLimitDirectives rule n)).tx.get rateLimitVariable).isSome = true := by
    rw [rateLimitDirectives, evalChain, if_neg (by
      rw [hbefore.undenied]
      simp [Directive.phase?, Directive.actions, fires, Directive.matched])]
    have hmark : Action.setvar rateLimitVariable
        (toString rule.limit ++ "/" ++ toString rule.windowSeconds ++ "s") ∈
          [Action.id n, .phase 1, .pass, .nolog, .setvar "cloud_wai_rate_limit"
            (toString rule.limit ++ "/" ++ toString rule.windowSeconds ++ "s"),
            .setvar "cloud_wai_rate_key" rule.key.wire] := by
      simp [rateLimitVariable]
    exact isSome_of_setvar hmark
  unfold Marked eval evalPhase
  rw [chains_compiled, hsplit, List.foldl_append, List.foldl_append, List.foldl_cons,
    List.foldl_cons]
  -- and what comes after it takes nothing back
  exact isSome_foldl_evalChain after (isSome_evalChain (isSome_foldl_evalChain before
    (isSome_foldl_evalChain after hset)))

/-! ## Without a limit there is no mark -/

/-- A block that does not record a limit. -/
def SetsNoLimit (g : List Directive) : Prop :=
  ∀ dir ∈ g, ∀ name value, Action.setvar name value ∈ dir.actions →
    caseless name ≠ caseless rateLimitVariable

/-- Without a limit nothing sets the variables. -/
theorem blocks_set_no_limit (h : ∀ rule, ¬ Enforced input rule) :
    ∀ g ∈ (compileRules input).blocks, SetsNoLimit g := by
  -- every other block sets only variables with other names
  have hother : ∀ name ∈ [botMarkerVariable, internalMarkerVariable, trustedMarkerVariable,
      "cloud_wai_challenge_browsers", "inbound_anomaly_score_threshold"],
      caseless name ≠ caseless rateLimitVariable := by
    decide
  simp only [List.mem_cons, List.not_mem_nil, or_false, forall_eq_or_imp, forall_eq] at hother
  obtain ⟨hbot, hinternal, htrusted, hchallenge, hthreshold⟩ := hother
  refine compileRules_blocks ?_ ?_ ?_ ?_ ?_ ?_ ?_ ?_ ?_
  · intro g hg
    rcases List.mem_cons.mp hg with rfl | hg
    · simp [SetsNoLimit, Directive.actions]
    · rw [List.mem_singleton.mp hg]
      simp [SetsNoLimit, Directive.actions]
  · intro bot n
    simp [SetsNoLimit, verifiedBotDirectives, Directive.actions, hbot]
  · intro n
    simp [SetsNoLimit, internalDirectives, Directive.actions, hinternal]
  · intro source n
    simp [SetsNoLimit, trustedDirectives, Directive.actions, htrusted]
  · intro rule n
    simp [SetsNoLimit, denyDirectives, Directive.actions]
  · intro rule hrule hvalid
    exact absurd ⟨hrule, hvalid⟩ (h rule)
  · intro n
    simp [SetsNoLimit, challengeDirectives, Directive.actions, hchallenge]
  · intro policy n
    simp [SetsNoLimit, thresholdDirective, Directive.actions, hthreshold]
  · intro policy n
    cases ha : policy.action <;> simp [SetsNoLimit, wafDirectives, Directive.actions, corazaAction, ha]

/-- So nothing is marked. -/
theorem not_marked (h : ∀ rule, ¬ Enforced input rule) : ¬ Marked M input req := by
  have hstep : ∀ n, ∀ g ∈ chains (compileEdge input).corazaDirectives, ∀ t : Transaction,
      t.tx.get rateLimitVariable = none →
        (evalChain M req.request n t g).tx.get rateLimitVariable = none := by
    intro n g hg t ht
    rw [chains_compiled] at hg
    have hsets := blocks_set_no_limit h g hg
    cases g with
    | nil => exact ht
    | cons dir ds =>
      rw [evalChain]
      split
      · exact ht
      · refine foldl_apply_inv (P := fun tx => tx.get rateLimitVariable = none) ht ?_
        intro name value hset tx htx
        obtain ⟨dir', hdir, ha⟩ := List.mem_flatMap.mp hset
        rw [get_set_of_ne fun heq => hsets dir' hdir name value ha heq.symm]
        exact htx
  have h0 : req.tx.get rateLimitVariable = none := unset_at_start rateLimitVariable (by decide)
  intro hmarked
  have hnone : (eval M req.request (compileEdge input).corazaDirectives req.tx).tx.get
      rateLimitVariable = none :=
    evalPhase_inv (P := fun t => t.tx.get rateLimitVariable = none)
      (evalPhase_inv (P := fun t => t.tx.get rateLimitVariable = none) h0 (hstep 1)) (hstep 2)
  unfold Marked at hmarked
  rw [hnone] at hmarked
  cases hmarked

/-- A request is marked exactly if there is a limit, whoever it comes from. -/
theorem marked_iff : Marked M input req ↔ ∃ rule, Enforced input rule := by
  constructor
  · intro hmarked
    by_contra hnone
    exact not_marked (fun rule hrule => hnone ⟨rule, hrule⟩) hmarked
  · intro ⟨rule, hrule⟩
    exact marked_of_enforced hrule

/-- And there is no descriptor. -/
theorem rateLimits_nil (h : ∀ rule, ¬ Enforced input rule) : (compileEdge input).rateLimits = [] := by
  show (compileRules input).rateLimits = []
  refine compileRules_inv (P := fun d => d.rateLimits = []) rfl ?_ ?_ ?_ ?_ ?_ ?_ ?_
  · intro d bot _ hd
    exact hd
  · intro d hd
    exact hd
  · intro d source _ hd
    exact hd
  · intro d rule _ hd
    exact hd
  · intro d rule hrule hd
    unfold rateLimitRung
    rw [if_neg fun hvalid => h rule ⟨hrule, hvalid⟩]
    exact hd
  · intro d hd
    exact hd
  · intro d policy hd
    exact hd

/-! ## The limits -/

/-- No two limits are separate: they set the same variables. -/
theorem not_separate (a b : RateLimitRule) : ¬ Separate a b := by
  intro h
  have hset : ∀ rule, caseless rateLimitVariable ∈ variablesSet (rateLimitDirectives rule 0) := by
    intro rule
    simp [variablesSet, rateLimitDirectives, Directive.actions, rateLimitVariable]
  exact h.2 0 0 _ (hset a) (hset b)

/-- **The limits do what they are for exactly if no exempt request meets one and
there are no two of them.** -/
theorem rate_limits_sound_iff (M : Matchers) (input : CompileInput) (req : EdgeRequest) :
    RateLimitsSound M input req ↔
      (ExemptRequest M input req → ∀ rule, ¬ Enforced input rule) ∧
        ∀ a b, Enforced input a → Enforced input b → a = b := by
  constructor
  · intro h
    refine ⟨?_, ?_⟩
    · intro hexempt rule hrule
      exact (h.exempt hexempt).1 (marked_iff.mpr ⟨rule, hrule⟩)
    · intro a b ha hb
      by_contra hne
      exact not_separate a b (h.separate a b ha hb hne)
  · intro ⟨hexempt, hone⟩
    refine ⟨?_, ?_⟩
    · intro he
      refine ⟨fun hmarked => (marked_iff.mp hmarked).elim (hexempt he), ?_⟩
      intro limit hlimit
      rw [rateLimits_nil (hexempt he)] at hlimit
      exact absurd hlimit List.not_mem_nil
    · intro a b ha hb hne
      exact absurd (hone a b ha hb) hne

/-- A trusted office, and a limit on addresses. -/
def officeLimited : CompileInput :=
  { CompileInput.bare ⟨"shop.example.com", "10.0.0.8", "/", 1, none⟩ with
    trustedSources := [⟨.ip, "203.0.113.9"⟩]
    rateLimits := [⟨1, .ip, none, 60, 60⟩] }

/-- A request of that office. -/
def officeRequest : EdgeRequest := ⟨⟨"/", "203.0.113.9", []⟩, none, none, none⟩

theorem trusted_office_is_counted :
    ¬ RateLimitsSound literalMatchers officeLimited officeRequest := by
  intro h
  have htrusted : FromTrustedSource literalMatchers officeLimited officeRequest :=
    ⟨⟨.ip, "203.0.113.9"⟩, List.mem_singleton_self _, by decide +kernel, "203.0.113.9", by decide,
      by decide⟩
  exact (h.exempt (.inl htrusted)).2 ⟨"remote_address", 60, 60⟩ (by decide +kernel) (.inl rfl)

end Security

end CloudWai
