import CloudWai.Security.Compile

/-!
# What the compiled deny list does

A deny rule is compiled to a chain of four: its own condition, then a negated
test for each of the three markers — trusted source, internal request, confirmed
bot — that are meant to exempt a request. The markers are transaction variables
that only the allow rules set. Where an allow rule did not match, its marker was
never set, and a rule about a variable that was never set matches nothing, so
`TX:cloud_wai_trusted "!@streq 1"` fails for exactly the requests it was written
to let through to the denial. The chain can therefore fire for no request at
all: a trusted one fails the comparison, any other has nothing to compare.

The argument is an invariant of the compiler (`Sound`: blocks are whole chains,
the trusted marker is only ever set to `1`, every block that denies under the
number of a deny-list step carries the trusted member) and one of the evaluation
(`Unmarked`: the marker is unset or `1`, and no deny-list step has denied).

About `compileEdge` of `packages/adapters/src/security-edge.ts`, as `Compile.lean` has it.
What a directive does is the matter of `Base.Seclang`: the compiler says nothing of it.
-/

namespace CloudWai

namespace Security

open Base.Seclang

/-! ## Requests and what the deny list is for -/

/-- A request with what the edge resolved about it: the network that announces
its address, the name it forward-confirmed, and the score the core rules gave. -/
structure EdgeRequest where
  request : Request
  asn : Option String
  botConfirm : Option String
  anomalyScore : Option String

/-- The variables the edge sets before the compiled rules run. -/
def EdgeRequest.tx (req : EdgeRequest) : Tx := fun n =>
  if n = caseless asnVariable then req.asn
  else if n = caseless botConfirmVariable then req.botConfirm
  else if n = caseless "BLOCKING_INBOUND_ANOMALY_SCORE" then req.anomalyScore
  else none

section Purpose

variable (M : Matchers) (input : CompileInput) (req : EdgeRequest)

/-- Some value of the target satisfies the operator. -/
def EdgeRequest.Satisfies (t : Target) (op : Operator) : Prop :=
  ∃ v ∈ t.values req.request req.tx, op.holds M req.tx v = true

/-- The request matches a validated deny rule. -/
def MatchesDenyRule : Prop :=
  ∃ rule ∈ input.denyList, validateDenyRule rule = .ok ∧
    req.Satisfies M (denyOperator rule).1 (denyOperator rule).2

/-- The request is from a source that is trusted. -/
def FromTrustedSource : Prop :=
  ∃ source ∈ input.trustedSources, validateTrustedSource source = .ok ∧
    req.Satisfies M .remoteAddr (.ipMatch source.value)

/-- The request carries the platform's own header. -/
def InternalRequest : Prop :=
  req.Satisfies M (.requestHeader internalRequestHeader) (.streq "1")

/-- A verified bot claims its name and the edge confirmed it. -/
def ConfirmedBot : Prop :=
  ∃ bot ∈ verifiedBots ++ input.botAllowList, validateVerifiedBot bot = .ok ∧
    req.Satisfies M (.requestHeader "User-Agent") (.contains bot.userAgent) ∧
    req.Satisfies M (.tx botConfirmVariable) (.rx (botConfirmPattern bot.confirmSuffix))

/-- A request the deny list is there to deny. -/
def ShouldBeDenied : Prop :=
  MatchesDenyRule M input req ∧ ¬ FromTrustedSource M input req ∧ ¬ InternalRequest M req ∧
    ¬ ConfirmedBot M input req

/-- The rule that ends the transaction, if one does. -/
def deniedBy : Option Nat :=
  (eval M req.request (compileEdge input).corazaDirectives req.tx).deniedBy

/-- The transaction is ended by a step of the deny list. -/
def DeniedByDenyList : Prop :=
  ∃ step ∈ (compileEdge input).ladder, step.stage = .blockDenyList ∧
    deniedBy M input req = some step.id

end Purpose

/-! ## The compiler's invariant -/

/-- **Invariant rule** of the compiler: a case for each kind of rung, of what was validated. -/
theorem compileRules_inv {P : Draft → Prop} {input : CompileInput}
    (h0 : P ⟨[], preamble input.route, [], 10⟩)
    (hbot : ∀ d bot, validateVerifiedBot bot = .ok → P d →
      P (d.rung .allowVerifiedBot .allow (verifiedBotDirectives bot)))
    (hinternal : ∀ d, P d → P (internalRung d))
    (htrusted : ∀ d source, validateTrustedSource source = .ok → P d →
      P (d.rung .allowTrustedIp .allow (trustedDirectives source)))
    (hdeny : ∀ d rule, validateDenyRule rule = .ok → P d →
      P (d.rung .blockDenyList .block (denyDirectives rule)))
    (hrate : ∀ d, ∀ rule ∈ input.rateLimits, P d → P (rateLimitRung d rule))
    (hchallenge : ∀ d, P d → P (d.rung .challenge .challenge challengeDirectives))
    (hwaf : ∀ d policy, P d → P (wafRung d (some policy))) : P (compileRules input) := by
  have h1 : P ((verifiedBots ++ input.botAllowList).foldl botRung
      ⟨[], preamble input.route, [], 10⟩) := by
    refine List.foldlRecOn _ _ h0 ?_
    intro d hd bot _
    unfold botRung
    split
    next hvalid => exact hbot d bot hvalid hd
    next => exact hd
  have h3 : ∀ d, P d → P (input.trustedSources.foldl trustedRung d) := by
    intro d hd
    refine List.foldlRecOn _ _ hd ?_
    intro d hd source _
    unfold trustedRung
    split
    next hvalid => exact htrusted d source hvalid hd
    next => exact hd
  have h4 : ∀ d, P d → P (input.denyList.foldl denyRung d) := by
    intro d hd
    refine List.foldlRecOn _ _ hd ?_
    intro d hd rule _
    unfold denyRung
    split
    next hvalid => exact hdeny d rule hvalid hd
    next => exact hd
  have h5 : P (input.rateLimits.foldl rateLimitRung _) :=
    List.foldlRecOn _ _ (h4 _ (h3 _ (hinternal _ h1))) fun d hd rule hrule => hrate d rule hrule hd
  have h6 : ∀ d, P d → P (challengeRung d (input.protection = some .attack)) := by
    intro d hd
    unfold challengeRung
    split
    · exact hchallenge d hd
    · exact hd
  unfold compileRules
  cases input.policy with
  | none => exact h6 _ h5
  | some policy => exact hwaf _ policy (h6 _ h5)

/-- **Block rule.** What holds of the preamble and of every block that can be pushed holds
of every block of the compiled rules. -/
theorem compileRules_blocks {P : List Directive → Prop} {input : CompileInput}
    (hpreamble : ∀ g ∈ preamble input.route, P g)
    (hbot : ∀ bot n, P (verifiedBotDirectives bot n))
    (hinternal : ∀ n, P (internalDirectives n))
    (htrusted : ∀ source n, P (trustedDirectives source n))
    (hdeny : ∀ rule n, P (denyDirectives rule n))
    (hrate : ∀ rule ∈ input.rateLimits, validateRateLimitRule rule = .ok →
      ∀ n, P (rateLimitDirectives rule n))
    (hchallenge : ∀ n, P (challengeDirectives n))
    (hthreshold : ∀ policy n, P [thresholdDirective policy n])
    (hwaf : ∀ policy n, P (wafDirectives policy n)) :
    ∀ g ∈ (compileRules input).blocks, P g := by
  have hpush : ∀ {blocks : List (List Directive)} {g : List Directive}, (∀ g ∈ blocks, P g) →
      P g → ∀ g' ∈ blocks ++ [g], P g' := by
    intro blocks g hd hg g' hg'
    rcases List.mem_append.mp hg' with hg' | hg'
    · exact hd g' hg'
    · rw [List.mem_singleton.mp hg']
      exact hg
  refine compileRules_inv (P := fun d => ∀ g ∈ d.blocks, P g) hpreamble ?_ ?_ ?_ ?_ ?_ ?_ ?_
  · intro d bot _ hd
    exact hpush hd (hbot bot d.nextId)
  · intro d hd
    exact hpush hd (hinternal d.nextId)
  · intro d source _ hd
    exact hpush hd (htrusted source d.nextId)
  · intro d rule _ hd
    exact hpush hd (hdeny rule d.nextId)
  · intro d rule hrule hd
    unfold rateLimitRung
    split
    next hvalid => exact hpush hd (hrate rule hrule hvalid d.nextId)
    next => exact hd
  · intro d hd
    exact hpush hd (hchallenge d.nextId)
  · intro d policy hd
    exact hpush (hpush hd (hthreshold policy d.nextId)) (hwaf policy (d.nextId + 1))

/-! ## A rung only appends -/

/-- Nothing that was pushed is taken back. -/
structure Draft.Grows (d d' : Draft) : Prop where
  ladder : d.ladder <+: d'.ladder
  blocks : d.blocks <+: d'.blocks

namespace Draft.Grows

variable {d d' d'' : Draft}

theorem refl (d : Draft) : d.Grows d := ⟨List.prefix_rfl, List.prefix_rfl⟩

theorem trans (h : d.Grows d') (h' : d'.Grows d'') : d.Grows d'' :=
  ⟨h.ladder.trans h'.ladder, h.blocks.trans h'.blocks⟩

theorem rung (d : Draft) (stage : DecisionStage) (action : EnforcementAction)
    (block : Nat → List Directive) : d.Grows (d.rung stage action block) :=
  ⟨List.prefix_append _ _, List.prefix_append _ _⟩

theorem run {α : Type} {push : Draft → α → Draft} (h : ∀ (d : Draft) a, d.Grows (push d a))
    (entries : List α) (d : Draft) : d.Grows (entries.foldl push d) :=
  List.foldlRecOn entries push (refl d) fun d' hd a _ => hd.trans (h d' a)

theorem trusted (d : Draft) (source : TrustedSource) : d.Grows (trustedRung d source) := by
  unfold trustedRung
  split
  · exact .rung ..
  · exact .refl d

theorem deny (d : Draft) (rule : DenyRule) : d.Grows (denyRung d rule) := by
  unfold denyRung
  split
  · exact .rung ..
  · exact .refl d

theorem rateLimit (d : Draft) (rule : RateLimitRule) : d.Grows (rateLimitRung d rule) := by
  unfold rateLimitRung
  split
  · exact ⟨List.prefix_append _ _, List.prefix_append _ _⟩
  · exact .refl d

theorem challenge (d : Draft) (attackMode : Bool) : d.Grows (challengeRung d attackMode) := by
  unfold challengeRung
  split
  · exact .rung ..
  · exact .refl d

theorem waf (d : Draft) (policy : Option PolicyInput) : d.Grows (wafRung d policy) := by
  unfold wafRung
  cases policy with
  | none => exact .refl d
  | some policy =>
    have haside : d.Grows { d with blocks := d.blocks ++ [[thresholdDirective policy d.nextId]]
                                   nextId := d.nextId + 1 } :=
      ⟨List.prefix_rfl, List.prefix_append _ _⟩
    exact haside.trans (.rung ..)

/-- From the rate limits on. -/
theorem fromLimits (input : CompileInput) (d : Draft) : (input.rateLimits.foldl rateLimitRung d).Grows
    (wafRung (challengeRung (input.rateLimits.foldl rateLimitRung d)
      (input.protection = some .attack)) input.policy) :=
  (challenge _ _).trans (waf _ _)

/-- From the rung for internal requests on. -/
theorem fromInternal (input : CompileInput) :
    (internalRung ((verifiedBots ++ input.botAllowList).foldl botRung
      ⟨[], preamble input.route, [], 10⟩)).Grows (compileRules input) :=
  ((run trusted input.trustedSources _).trans (run deny input.denyList _)).trans
    ((run rateLimit input.rateLimits _).trans (fromLimits input _))

end Draft.Grows

/-- The member that asks for a trusted source's absence. -/
def trustedMember : Directive :=
  .rule (.tx trustedMarkerVariable) true (.streq "1") [.transformNone, .chain]

/-- An action that sets the trusted marker, if it does, to `1`. -/
def MarksOne : Action → Prop
  | .setvar name value => caseless name = caseless trustedMarkerVariable → value = "1"
  | _ => True

def Marks (g : List Directive) : Prop := ∀ dir ∈ g, ∀ a ∈ dir.actions, MarksOne a

/-- A block under number `n`: a whole chain whose starter, if it has a number,
has that one, and which denies only with the trusted member in it, unless no
step of the deny list has its number. -/
structure SoundBlock (below : Nat) (listed : Nat → Prop) (g : List Directive) : Prop where
  chain : IsChain g
  marks : Marks g
  below : ∀ dir i, g.head? = some dir → dir.id? = some i → i < below
  denies : ∀ dir, g.head? = some dir → Action.deny ∈ dir.actions →
    trustedMember ∈ g ∨ ∀ i, dir.id? = some i → ¬ listed i

/-- The numbers of the deny-list steps. -/
def Draft.Listed (d : Draft) (i : Nat) : Prop :=
  ∃ step ∈ d.ladder, step.stage = .blockDenyList ∧ step.id = i

/-- What every rung keeps: its ids are below the next one, its blocks sound. -/
structure Draft.Sound (d : Draft) : Prop where
  ids : ∀ step ∈ d.ladder, step.id < d.nextId
  blocks : ∀ g ∈ d.blocks, SoundBlock d.nextId d.Listed g

theorem Draft.Sound.not_listed {d : Draft} (h : d.Sound) {i : Nat} (hi : d.nextId ≤ i) :
    ¬ d.Listed i := by
  rintro ⟨step, hs, _, rfl⟩
  have := h.ids step hs
  omega

/-- A rung keeps the invariant if its block is sound under the rung's number. -/
theorem Draft.Sound.rung {d : Draft} (h : d.Sound) {stage : DecisionStage}
    {action : EnforcementAction} {block : Nat → List Directive}
    (hb : SoundBlock (d.nextId + 1) (d.rung stage action block).Listed (block d.nextId)) :
    (d.rung stage action block).Sound where
  ids := by
    intro step hs
    show step.id < d.nextId + 1
    rcases List.mem_append.mp hs with hs | hs
    · have := h.ids step hs
      omega
    · rw [List.mem_singleton] at hs
      rw [hs]
      show d.nextId < d.nextId + 1
      omega
  blocks := by
    intro g hg
    rcases List.mem_append.mp hg with hg | hg
    · have hold := h.blocks g hg
      refine ⟨hold.chain, hold.marks, ?_, ?_⟩
      · intro dir i hd hi
        have := hold.below dir i hd hi
        show i < d.nextId + 1
        omega
      · intro dir hd hdeny
        rcases hold.denies dir hd hdeny with hm | hn
        · exact .inl hm
        · right
          rintro i hi ⟨step, hs, hstage, hid⟩
          rcases List.mem_append.mp hs with hs | hs
          · exact hn i hi ⟨step, hs, hstage, hid⟩
          · -- the new step's number is above every older block's
            rw [List.mem_singleton] at hs
            have hlt := hold.below dir i hd hi
            have hnext : step.id = d.nextId := by rw [hs]
            omega
    · rw [List.mem_singleton] at hg
      rw [hg]
      exact hb

/-- So does a block pushed without a step. -/
theorem Draft.Sound.silent {d : Draft} (h : d.Sound) {block : List Directive}
    (hb : SoundBlock (d.nextId + 1) d.Listed block) :
    ({ d with blocks := d.blocks ++ [block], nextId := d.nextId + 1 } : Draft).Sound where
  ids := by
    intro step hs
    have := h.ids step hs
    show step.id < d.nextId + 1
    omega
  blocks := by
    intro g hg
    rcases List.mem_append.mp hg with hg | hg
    · have hold := h.blocks g hg
      refine ⟨hold.chain, hold.marks, ?_, hold.denies⟩
      intro dir i hd hi
      have := hold.below dir i hd hi
      show i < d.nextId + 1
      omega
    · rw [List.mem_singleton] at hg
      rw [hg]
      exact hb

/-- A block whose starter does not deny. -/
theorem SoundBlock.of_quiet {n : Nat} {listed : Nat → Prop} {dir : Directive}
    {ds : List Directive} (hchain : IsChain (dir :: ds)) (hmarks : Marks (dir :: ds))
    (hbelow : ∀ i, dir.id? = some i → i < n) (hquiet : Action.deny ∉ dir.actions) :
    SoundBlock n listed (dir :: ds) where
  chain := hchain
  marks := hmarks
  below := by
    intro dir' i hd hi
    cases hd
    exact hbelow i hi
  denies := by
    intro dir' hd hdeny
    cases hd
    exact absurd hdeny hquiet

/-- The other variables the compiler sets. -/
theorem not_the_marker : ∀ name ∈ [botMarkerVariable, "cloud_wai_rate_limit", "cloud_wai_rate_key", "cloud_wai_challenge_browsers",
    "inbound_anomaly_score_threshold"], caseless name ≠ caseless trustedMarkerVariable := by
  decide

/-- The number a starter was written with. -/
theorem below_succ {n : Nat} {dir : Directive} (h : dir.id? = some n) :
    ∀ i, dir.id? = some i → i < n + 1 := by
  intro i hi
  have : n = i := Option.some.inj (h.symm.trans hi)
  omega

theorem preamble_sound (route : EdgeRoute) : (⟨[], preamble route, [], 10⟩ : Draft).Sound where
  ids := by
    intro step hs
    exact absurd hs List.not_mem_nil
  blocks := by
    intro g hg
    rcases List.mem_cons.mp hg with rfl | hg
    · exact .of_quiet rfl (by simp [Marks, Directive.actions])
        (by simp [Directive.id?, Directive.actions]) (by simp [Directive.actions])
    · rw [List.mem_singleton] at hg
      rw [hg]
      refine .of_quiet rfl (by simp [Marks, Directive.actions, MarksOne]) ?_
        (by simp [Directive.actions])
      intro i hi
      have h1 : 1 = i := Option.some.inj hi
      show i < 10
      omega

/-- The deny chain denies, but carries the trusted member. -/
theorem deny_block_sound (rule : DenyRule) (n : Nat) (listed : Nat → Prop) :
    SoundBlock (n + 1) listed (denyDirectives rule n) where
  chain := ⟨rfl, rfl, rfl, rfl⟩
  marks := by simp [Marks, denyDirectives, Directive.actions, MarksOne]
  below := by
    intro dir i hd hi
    cases hd
    exact below_succ rfl i hi
  denies := by
    intro dir _ _
    left
    simp [denyDirectives, trustedMember]

/-- The anomaly rule may deny, under a number no deny-list step has. -/
theorem waf_block_sound (policy : PolicyInput) {n : Nat} {listed : Nat → Prop} (hn : ¬ listed n) :
    SoundBlock (n + 1) listed (wafDirectives policy n) where
  chain := by
    show Directive.chained _ = false
    cases policy.action <;> simp [Directive.chained, Directive.actions, corazaAction]
  marks := by
    cases ha : policy.action <;>
      simp [Marks, wafDirectives, Directive.actions, MarksOne, corazaAction, ha]
  below := by
    intro dir i hd hi
    cases hd
    exact below_succ rfl i hi
  denies := by
    intro dir hd _
    right
    intro i hi
    cases hd
    have : n = i := Option.some.inj hi
    exact this ▸ hn

/-- What is compiled is sound, rung by rung. -/
theorem compileRules_sound (input : CompileInput) : (compileRules input).Sound := by
  have hother := not_the_marker
  simp only [List.mem_cons, List.not_mem_nil, or_false, forall_eq_or_imp, forall_eq] at hother
  obtain ⟨hbot, hlimit, hkey, hchallenge, hthreshold⟩ := hother
  refine compileRules_inv (preamble_sound input.route) ?_ ?_ ?_ ?_ ?_ ?_ ?_
  · intro d bot _ hd
    refine hd.rung (.of_quiet ⟨rfl, rfl⟩ ?_ (below_succ rfl) (by simp [Directive.actions]))
    simp [Marks, Directive.actions, MarksOne, hbot]
  · intro d hd
    refine hd.rung (.of_quiet rfl ?_ (below_succ rfl) (by simp [Directive.actions]))
    simp [Marks, Directive.actions, MarksOne]
  · intro d source _ hd
    refine hd.rung (.of_quiet rfl ?_ (below_succ rfl) (by simp [Directive.actions]))
    simp [Marks, Directive.actions, MarksOne]
  · intro d rule _ hd
    exact hd.rung (deny_block_sound rule _ _)
  · intro d rule _ hd
    unfold rateLimitRung
    split
    · have hr := @Draft.Sound.rung _ hd .ratelimit .log (rateLimitDirectives rule)
        (.of_quiet rfl (by simp [Marks, Directive.actions, MarksOne, hlimit, hkey]) (below_succ rfl)
          (by simp [Directive.actions]))
      exact ⟨hr.ids, hr.blocks⟩
    · exact hd
  · intro d hd
    refine hd.rung (.of_quiet rfl ?_ (below_succ rfl) (by simp [Directive.actions]))
    simp [Marks, Directive.actions, MarksOne, hchallenge]
  · intro d policy hd
    have hset := @Draft.Sound.silent _ hd [thresholdDirective policy d.nextId]
      (.of_quiet rfl (by simp [Marks, thresholdDirective, Directive.actions, MarksOne, hthreshold])
        (below_succ rfl) (by simp [thresholdDirective, Directive.actions]))
    refine hset.rung (waf_block_sound policy ?_)
    -- no step has the number about to be used, and the step added is no deny-list one
    rintro ⟨step, hs, hstage, hid⟩
    rcases List.mem_append.mp hs with hs | hs
    · exact hset.not_listed (Nat.le_refl _) ⟨step, hs, hstage, hid⟩
    · rw [List.mem_singleton] at hs
      rw [hs] at hstage
      cases hstage

/-! ## The evaluation's invariant -/

/-- The marker is unset or `1`, and no step of the deny list has denied. -/
structure Unmarked (listed : Nat → Prop) (t : Transaction) : Prop where
  marker : ∀ v, t.tx.get trustedMarkerVariable = some v → v = "1"
  spared : ∀ i, t.deniedBy = some i → ¬ listed i

variable {M : Matchers} {input : CompileInput} {req : EdgeRequest}

/-- The trusted member matches nothing: set, the marker equals `1`; unset, there
is no value to compare. -/
theorem trustedMember_matches_nothing {listed : Nat → Prop} {t : Transaction}
    (h : Unmarked listed t) (r : Request) : trustedMember.matched M r t.tx = false := by
  cases hv : t.tx.get trustedMarkerVariable with
  | none => exact matched_unset hv _ _ _
  | some v =>
    have h1 := h.marker v hv
    simp [trustedMember, Directive.matched, Target.values, Operator.holds, hv, h1]

/-- The variables a sound block sets keep the marker's values. -/
theorem marker_apply {g : List Directive} (hg : Marks g) {tx : Tx}
    (h : ∀ v, tx.get trustedMarkerVariable = some v → v = "1") :
    ∀ v, ((g.flatMap Directive.actions).foldl Tx.apply tx).get trustedMarkerVariable = some v →
      v = "1" := by
  refine foldl_apply_inv (P := fun tx => ∀ v, tx.get trustedMarkerVariable = some v → v = "1") h ?_
  intro name value hset tx htx v hv
  obtain ⟨dir, hdir, ha⟩ := List.mem_flatMap.mp hset
  by_cases hn : caseless name = caseless trustedMarkerVariable
  · have hv1 := hg dir hdir _ ha hn
    have hget : (tx.set name value).get trustedMarkerVariable = some value := by
      show (if caseless trustedMarkerVariable = caseless name then some value else _) = _
      rw [if_pos hn.symm]
    rw [hget] at hv
    exact (Option.some.inj hv) ▸ hv1
  · rw [get_set_of_ne (fun he => hn he.symm)] at hv
    exact htx v hv

/-- **Step.** No sound block ends the transaction under a deny-list number. -/
theorem evalChain_unmarked {below : Nat} {listed : Nat → Prop} {g : List Directive}
    (hg : SoundBlock below listed g) (r : Request) (n : Nat) {t : Transaction}
    (h : Unmarked listed t) : Unmarked listed (evalChain M r n t g) := by
  by_cases hm : trustedMember ∈ g
  · rw [evalChain_eq_self ⟨_, hm, trustedMember_matches_nothing h r⟩]
    exact h
  · cases g with
    | nil => exact h
    | cons dir ds =>
      rw [evalChain]
      split
      · exact h
      · refine ⟨marker_apply hg.marks h.marker, ?_⟩
        intro i hi
        dsimp only at hi
        split at hi
        next hdeny =>
          rcases hg.denies dir rfl (List.contains_iff_mem.mp hdeny) with hmem | hn
          · exact absurd hmem hm
          · exact hn i hi
        next => cases hi

/-- The directives are read back block by block. -/
theorem chains_compiled (input : CompileInput) :
    chains (compileEdge input).corazaDirectives = (compileRules input).blocks :=
  chains_flatten fun g hg => ((compileRules_sound input).blocks g hg).chain

/-- **Run.** Neither phase ends under a deny-list number. -/
theorem eval_unmarked (M : Matchers) (input : CompileInput) (req : EdgeRequest) :
    Unmarked (compileRules input).Listed
      (eval M req.request (compileEdge input).corazaDirectives req.tx) := by
  have hstep : ∀ n, ∀ g ∈ chains (compileEdge input).corazaDirectives, ∀ t,
      Unmarked (compileRules input).Listed t →
        Unmarked (compileRules input).Listed (evalChain M req.request n t g) := by
    intro n g hg t ht
    rw [chains_compiled] at hg
    exact evalChain_unmarked ((compileRules_sound input).blocks g hg) req.request n ht
  have h0 : Unmarked (compileRules input).Listed ⟨req.tx, none⟩ := by
    refine ⟨?_, by simp⟩
    have hunset : req.tx.get trustedMarkerVariable = none := by
      have hasn : caseless trustedMarkerVariable ≠ caseless asnVariable := by decide
      have hbot : caseless trustedMarkerVariable ≠ caseless botConfirmVariable := by decide
      have hscore : caseless trustedMarkerVariable ≠ caseless "BLOCKING_INBOUND_ANOMALY_SCORE" := by
        decide
      simp [Tx.get, EdgeRequest.tx, hasn, hbot, hscore]
    simp [hunset]
  exact evalPhase_inv (evalPhase_inv h0 (hstep 1)) (hstep 2)

/-! ## The deny list -/

/-- The deny-list steps of the ladder are those of the rules. -/
theorem listed_of_ladder {step : LadderStep} (hs : step ∈ (compileEdge input).ladder)
    (hstage : step.stage = .blockDenyList) : (compileRules input).Listed step.id := by
  unfold compileEdge at hs
  dsimp only at hs
  split at hs
  · rcases List.mem_append.mp hs with hs | hs
    · exact ⟨step, hs, hstage, rfl⟩
    · rw [List.mem_singleton] at hs
      rw [hs] at hstage
      cases hstage
  · exact ⟨step, hs, hstage, rfl⟩

/-- No request is denied by the deny list. -/
theorem not_deniedByDenyList (M : Matchers) (input : CompileInput) (req : EdgeRequest) :
    ¬ DeniedByDenyList M input req := by
  rintro ⟨step, hs, hstage, hdenied⟩
  exact (eval_unmarked M input req).spared step.id hdenied (listed_of_ladder hs hstage)

/-- **The deny list does what it is for exactly on the requests it is not
supposed to deny.** -/
theorem deny_list_correct_iff (M : Matchers) (input : CompileInput) (req : EdgeRequest) :
    (DeniedByDenyList M input req ↔ ShouldBeDenied M input req) ↔ ¬ ShouldBeDenied M input req := by
  have hnever := not_deniedByDenyList M input req
  constructor
  · intro h hshould
    exact hnever (h.mpr hshould)
  · intro hnot
    exact iff_of_false hnever hnot

/-- Addresses and expressions compared as they are written. -/
def literalMatchers : Matchers := ⟨fun s v => v == s, fun s v => v == s⟩

/-- A policy whose one rule denies a client by its name. -/
def curlListed : CompileInput :=
  { CompileInput.bare ⟨"shop.example.com", "10.0.0.8", "/", 1, none⟩ with
    denyList := [⟨.userAgent, "curl"⟩] }

/-- That client, from nowhere special. -/
def curlRequest : EdgeRequest :=
  ⟨⟨"/", "203.0.113.9", [("user-agent", "curl/8.5.0")]⟩, none, none, none⟩

theorem curl_should_be_denied : ShouldBeDenied literalMatchers curlListed curlRequest := by
  refine ⟨⟨⟨.userAgent, "curl"⟩, List.mem_singleton_self _, by decide, "curl/8.5.0", by decide,
    by decide⟩, ?_, ?_, ?_⟩
  · rintro ⟨source, hs, _⟩
    exact absurd hs List.not_mem_nil
  · rintro ⟨v, hv, _⟩
    have hnone : (Target.requestHeader internalRequestHeader).values curlRequest.request
        curlRequest.tx = [] := by decide
    rw [hnone] at hv
    exact absurd hv List.not_mem_nil
  · rintro ⟨bot, _, _, _, v, hv, _⟩
    have hnone : (Target.tx botConfirmVariable).values curlRequest.request curlRequest.tx = [] := by
      decide
    rw [hnone] at hv
    exact absurd hv List.not_mem_nil

/-- The listed client gets through. -/
theorem listed_client_passes :
    ¬ (DeniedByDenyList literalMatchers curlListed curlRequest ↔
      ShouldBeDenied literalMatchers curlListed curlRequest) := by
  intro h
  exact not_deniedByDenyList _ _ _ (h.mpr curl_should_be_denied)

end Security

end CloudWai
