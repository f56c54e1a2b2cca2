import CloudWai.Base.Quoting
import CloudWai.Base.Replace
import CloudWai.Security.DenyList
import CloudWai.Security.Loaders

/-!
# The rule set is well formed

A compiled rule set is a list of lines. An engine loads it as it was meant if
numbers are not used twice, if a rule that chains is followed at once by the
member it chains to, and if each line is read back as the directive it was
written from. The first two depend on how the compiler pushes its blocks, the
third on the strings in them.

Every string but one was tested against a grammar before it is written, and no
grammar lets through what has a meaning in quotes. The one is the path prefix of
the primary route. `publishRoute` validates the route it publishes;
`applyPolicy` compiles the policy's routes as they are. `emits_wellFormed_iff`
is what remains: on the second path the rule set is well formed exactly if that
prefix is inert, on the first it always is.

About `compileEdge` of `packages/adapters/src/security-edge.ts`, as `Compile.lean` has it.
-/

namespace CloudWai

namespace Security

open Base Base.Seclang

/-! ## What a rule set must be -/

/-- A rule that carries no number stands only behind a chain. -/
def IsMember : Directive → Prop
  | .rule t negated op as => (Directive.rule t negated op as).id? = none
  | _ => False

/-- A rule that chains is followed at once by a member. -/
def ChainsClosed : List Directive → Prop
  | [] => True
  | d :: ds => (d.chained = true → ∃ m ms, ds = m :: ms ∧ IsMember m) ∧ ChainsClosed ds

/-- A rule set that is read as it was meant. -/
structure WellFormed (ds : List Directive) : Prop where
  ids : (ds.filterMap Directive.id?).Nodup
  chains : ChainsClosed ds
  texts : ∀ d ∈ ds, d.ReadsBack

/-- The two ways to the compiler, behind whatever loaders. -/
inductive EdgeCall where
  | publishRoute (route : EdgeRoute) (policy : Option CompileInput)
  | applyPolicy (policy : CompileInput)

/-- What is compiled, unless the call is refused before. -/
def EdgeCall.input : EdgeCall → Option CompileInput
  | .publishRoute route policy =>
    if validateEdgeRoute route = .ok then some (inputForRoute route policy) else none
  | .applyPolicy policy => some policy

/-- The call sends out nothing that is not well formed. -/
def EdgeCall.Sound (call : EdgeCall) : Prop :=
  ∀ input, call.input = some input → WellFormed (compileEdge input).corazaDirectives

/-- The path prefix of a policy that is applied is inert. -/
def EdgeCall.Inert : EdgeCall → Prop
  | .publishRoute _ _ => True
  | .applyPolicy policy => Seclang.Inert policy.route.pathPrefix.toList

/-! ## What the grammars let through -/

theorem plain_of_class {p : Char → Bool} (hn : p '\n' = false) (hq : p '"' = false)
    (hb : p '\\' = false) : ∀ c, p c = true → plain c = true := by
  intro c hc
  simp only [plain, Bool.and_eq_true, bne_iff_ne]
  refine ⟨⟨?_, ?_⟩, ?_⟩
  · rintro rfl
    rw [hn] at hc
    cases hc
  · rintro rfl
    rw [hq] at hc
    cases hc
  · rintro rfl
    rw [hb] at hc
    cases hc

theorem within_dnsLabel : Grammar.dnsLabel.Within plain :=
  ⟨plain_of_class rfl rfl rfl, trivial, Pattern.within_upTo (plain_of_class rfl rfl rfl),
    plain_of_class rfl rfl rfl⟩

theorem within_hostPattern : Grammar.hostPattern.Within plain :=
  ⟨within_dnsLabel, Pattern.within_plus ⟨Pattern.within_ch rfl, within_dnsLabel⟩⟩

theorem within_pathPattern : Grammar.pathPattern.Within plain :=
  ⟨Pattern.within_ch rfl, Pattern.within_upTo (plain_of_class rfl rfl rfl)⟩

theorem within_uaValue : Grammar.uaValue.Within plain :=
  Pattern.within_between (plain_of_class rfl rfl rfl)

theorem within_botName : Grammar.botName.Within plain :=
  ⟨plain_of_class rfl rfl rfl, Pattern.within_upTo (plain_of_class rfl rfl rfl)⟩

theorem within_ipv4 : Grammar.ipv4.Within plain :=
  ⟨Pattern.within_times ⟨Pattern.within_between (plain_of_class rfl rfl rfl), Pattern.within_ch rfl⟩,
    Pattern.within_between (plain_of_class rfl rfl rfl)⟩

theorem within_cidr : Grammar.cidr.Within plain :=
  ⟨within_ipv4, Pattern.within_ch rfl, Pattern.within_between (plain_of_class rfl rfl rfl)⟩

theorem within_asn : Grammar.asn.Within plain :=
  ⟨⟨Pattern.within_ch rfl, Pattern.within_ch rfl, trivial⟩,
    Pattern.within_between (plain_of_class rfl rfl rfl)⟩

section Values

variable {bot : VerifiedBot} {rule : DenyRule} {source : TrustedSource} {route : EdgeRoute}

theorem bot_plain (h : validateVerifiedBot bot = .ok) :
    (∀ c ∈ bot.name.toList, plain c = true) ∧ (∀ c ∈ bot.userAgent.toList, plain c = true) ∧
      ∀ c ∈ bot.confirmSuffix.toList, plain c = true := by
  unfold validateVerifiedBot at h
  split at h
  next => cases h
  next hname =>
    split at h
    next => cases h
    next hagent =>
      split at h
      next => cases h
      next hsuffix =>
        exact ⟨Pattern.within_of_test (by simpa using hname) within_botName,
          Pattern.within_of_test (by simpa using hagent) within_uaValue,
          Pattern.within_of_test (by simpa using hsuffix) within_hostPattern⟩

theorem source_plain (h : validateTrustedSource source = .ok) :
    ∀ c ∈ source.value.toList, plain c = true := by
  unfold validateTrustedSource at h
  split at h
  · split at h
    next => cases h
    next htest => exact Pattern.within_of_test (by simpa using htest) within_ipv4
  · split at h
    next => cases h
    next htest => exact Pattern.within_of_test (by simpa using htest) within_cidr

theorem rule_plain (h : validateDenyRule rule = .ok) : ∀ c ∈ rule.value.toList, plain c = true := by
  unfold validateDenyRule at h
  split at h
  · split at h
    next => cases h
    next htest => exact Pattern.within_of_test (by simpa using htest) within_ipv4
  · split at h
    next => cases h
    next htest => exact Pattern.within_of_test (by simpa using htest) within_cidr
  · split at h
    next => cases h
    next htest => exact Pattern.within_of_test (by simpa using htest) within_asn
  · split at h
    next => cases h
    next htest => exact Pattern.within_of_test (by simpa using htest) within_uaValue

theorem path_plain (h : validateEdgeRoute route = .ok) :
    ∀ c ∈ route.pathPrefix.toList, plain c = true := by
  unfold validateEdgeRoute at h
  split at h
  next => cases h
  next =>
    split at h
    next => cases h
    next htest => exact Pattern.within_of_test (by simpa using htest) within_pathPattern

end Values

/-! ## The blocks -/

/-- A block under number `n`. -/
structure BlockFormed (n : Nat) (g : List Directive) : Prop where
  ids : g.filterMap Directive.id? = [n]
  closed : ChainsClosed g
  texts : ∀ dir ∈ g, dir.ReadsBack

theorem readsBack_rule {t : Target} {negated : Bool} {op : Operator} {as : List Action}
    (ht : t.render.toList ≠ [] ∧ t.render.toList.all bare = true) (hop : Inert op.render.toList)
    (has : ∀ a ∈ as, a.Plain) : (Directive.rule t negated op as).ReadsBack := by
  refine (readsBack_rule_iff ht.1 (List.all_eq_true.mp ht.2)).mpr ⟨?_, inert_actions has⟩
  refine .append ?_ hop
  cases negated
  · exact .nil
  · exact inert_text (by decide)

theorem readsBack_action {as : List Action} (has : ∀ a ∈ as, a.Plain) :
    (Directive.action as).ReadsBack :=
  readsBack_action_iff.mpr (inert_actions has)

/-- An operator's name and a value that passed a grammar. -/
theorem inert_operand {name value : String} (hname : name.toList.all plain = true)
    (hvalue : ∀ c ∈ value.toList, plain c = true) : Inert (name ++ value).toList := by
  rw [String.toList_append]
  exact (inert_of_plain (List.all_eq_true.mp hname)).append (inert_of_plain hvalue)

/-- The dots of a suffix are written with a backslash, and nothing else is. -/
theorem inert_confirmPattern {suffix : String} (h : ∀ c ∈ suffix.toList, plain c = true) :
    Inert (Operator.rx (botConfirmPattern suffix)).render.toList := by
  have hdots : ∀ w : List Char, (∀ c ∈ w, plain c = true) → Inert (replaced '.' "\\." w) := by
    intro w hw
    induction w with
    | nil => exact .nil
    | cons c w ih =>
      have hrest := ih fun d hd => hw d (List.mem_cons_of_mem _ hd)
      show Inert ((if c = '.' then ['\\', '.'] else [c]) ++ replaced '.' "\\." w)
      split
      · exact .append (.escape (by decide) .nil) hrest
      · refine .append (inert_of_plain ?_) hrest
        intro d hd
        rw [List.mem_singleton.mp hd]
        exact hw c List.mem_cons_self
  have hopen : Inert "(^|\\.)".toList := by
    refine .plain ?_ ?_ ?_ (.plain ?_ ?_ ?_ (.plain ?_ ?_ ?_ (.escape ?_ (.plain ?_ ?_ ?_ .nil)))) <;>
      decide
  show Inert ("@rx " ++ ("(^|\\.)" ++ suffix.replace (String.singleton '.') "\\." ++ "$")).toList
  rw [String.toList_append, String.toList_append, String.toList_append, toList_replace]
  exact (inert_text (by decide)).append
    ((hopen.append (hdots _ h)).append (inert_text (by decide)))

/-- What messages and settings are made of. -/
theorem plain_append {u v : String} (hu : ∀ c ∈ u.toList, plain c = true)
    (hv : ∀ c ∈ v.toList, plain c = true) : ∀ c ∈ (u ++ v).toList, plain c = true := by
  intro c hc
  rw [String.toList_append, List.mem_append] at hc
  rcases hc with hc | hc
  · exact hu c hc
  · exact hv c hc

/-- The block of a verified bot. -/
theorem bot_block {bot : VerifiedBot} (h : validateVerifiedBot bot = .ok) (n : Nat) :
    BlockFormed n (verifiedBotDirectives bot n) where
  ids := rfl
  closed := by
    refine ⟨fun _ => ⟨_, _, rfl, rfl⟩, ?_, trivial⟩
    intro hc
    exact absurd hc (by simp [Directive.chained, Directive.actions])
  texts := by
    obtain ⟨hname, hagent, hsuffix⟩ := bot_plain h
    intro dir hdir
    rcases List.mem_cons.mp hdir with rfl | hdir
    · refine readsBack_rule (by decide) (inert_operand (by decide) hagent) ?_
      simp only [List.forall_mem_cons, List.not_mem_nil, Action.Plain, true_and,
        false_imp_iff, implies_true, and_true]
      exact plain_append (plain_text (by decide)) hname
    · rw [List.mem_singleton.mp hdir]
      refine readsBack_rule (by decide) (inert_confirmPattern hsuffix) ?_
      simp only [List.forall_mem_cons, List.not_mem_nil, Action.Plain, true_and,
        false_imp_iff, implies_true, and_true]
      exact ⟨plain_text (by decide), plain_repr n⟩

/-- A block of one directive. -/
theorem BlockFormed.single {n : Nat} {dir : Directive} (hid : dir.id? = some n)
    (hchain : dir.chained = false) (htext : dir.ReadsBack) : BlockFormed n [dir] where
  ids := by rw [List.filterMap_cons_some hid, List.filterMap_nil]
  closed := by
    refine ⟨?_, trivial⟩
    intro hc
    rw [hchain] at hc
    cases hc
  texts := by
    intro d hd
    rw [List.mem_singleton.mp hd]
    exact htext

theorem internal_block (n : Nat) : BlockFormed n (internalDirectives n) := by
  refine .single rfl rfl (readsBack_rule (by decide) (inert_text (by decide)) ?_)
  simp only [List.forall_mem_cons, List.not_mem_nil, Action.Plain, true_and,
        false_imp_iff, implies_true, and_true]
  exact ⟨plain_text (by decide), plain_text (by decide)⟩

theorem trusted_block {source : TrustedSource} (h : validateTrustedSource source = .ok) (n : Nat) :
    BlockFormed n (trustedDirectives source n) := by
  refine .single rfl rfl
    (readsBack_rule (by decide) (inert_operand (by decide) (source_plain h)) ?_)
  simp only [List.forall_mem_cons, List.not_mem_nil, Action.Plain, true_and,
        false_imp_iff, implies_true, and_true]
  exact ⟨plain_text (by decide), plain_text (by decide)⟩

/-- The block of a deny rule. -/
theorem deny_block {rule : DenyRule} (h : validateDenyRule rule = .ok) (n : Nat) :
    BlockFormed n (denyDirectives rule n) where
  ids := rfl
  closed := by
    refine ⟨fun _ => ⟨_, _, rfl, rfl⟩, fun _ => ⟨_, _, rfl, rfl⟩, fun _ => ⟨_, _, rfl, rfl⟩, ?_,
      trivial⟩
    intro hc
    exact absurd hc (by simp [Directive.chained, Directive.actions])
  texts := by
    have hvalue := rule_plain h
    -- the starter is written from the rule, the three members from constants
    have hstarter : (Directive.rule (denyOperator rule).1 false (denyOperator rule).2
        [.id n, .phase 1, .deny, .status 403, .log,
          .msg ("cloud-wai deny list: " ++ rule.kind.wire), .chain]).ReadsBack := by
      refine readsBack_rule ?_ ?_ ?_
      · unfold denyOperator
        cases rule.kind <;> dsimp only <;> decide
      · unfold denyOperator
        cases rule.kind <;> exact inert_operand (by decide) hvalue
      · have hkind : ∀ c ∈ rule.kind.wire.toList, plain c = true := by
          refine plain_text ?_
          cases rule.kind <;> decide
        simp only [List.forall_mem_cons, List.not_mem_nil, Action.Plain, true_and,
        false_imp_iff, implies_true, and_true]
        exact plain_append (plain_text (by decide)) hkind
    have hmembers : ∀ dir ∈ (denyDirectives ⟨.ip, ""⟩ 0).tail, dir.ReadsBack := by
      have hall : ((denyDirectives ⟨.ip, ""⟩ 0).tail.all fun dir => decide dir.ReadsBack) = true := by
        decide +kernel
      intro dir hdir
      exact of_decide_eq_true (List.all_eq_true.mp hall dir hdir)
    intro dir hdir
    rcases List.mem_cons.mp hdir with rfl | hdir
    · exact hstarter
    · exact hmembers dir hdir

theorem rateLimit_block (rule : RateLimitRule) (n : Nat) :
    BlockFormed n (rateLimitDirectives rule n) := by
  have hkey : ∀ c ∈ rule.key.wire.toList, plain c = true := by
    refine plain_text ?_
    cases rule.key <;> decide
  refine .single rfl rfl (readsBack_action ?_)
  simp only [List.forall_mem_cons, List.not_mem_nil, Action.Plain, true_and,
        false_imp_iff, implies_true, and_true]
  refine ⟨⟨plain_text (by decide), ?_⟩, plain_text (by decide), hkey⟩
  exact plain_append (plain_append (plain_append (plain_int _) (plain_text (by decide)))
    (plain_int _)) (plain_text (by decide))

theorem challenge_block (n : Nat) : BlockFormed n (challengeDirectives n) := by
  refine .single rfl rfl (readsBack_action ?_)
  simp only [List.forall_mem_cons, List.not_mem_nil, Action.Plain, true_and,
        false_imp_iff, implies_true, and_true]
  exact ⟨plain_text (by decide), plain_text (by decide)⟩

theorem threshold_block (policy : PolicyInput) (n : Nat) :
    BlockFormed n [thresholdDirective policy n] := by
  refine .single rfl rfl (readsBack_action ?_)
  simp only [List.forall_mem_cons, List.not_mem_nil, Action.Plain, true_and,
        false_imp_iff, implies_true, and_true]
  exact ⟨plain_text (by decide), plain_repr _⟩

theorem waf_block (policy : PolicyInput) (n : Nat) : BlockFormed n (wafDirectives policy n) := by
  have hseverity : ∀ c ∈ (corazaSeverity policy.riskLevel).toList, plain c = true := by
    refine plain_text ?_
    cases policy.riskLevel <;> decide
  refine .single rfl ?_ (readsBack_rule (by decide) (inert_text (by decide)) ?_)
  · cases policy.action <;> simp [Directive.chained, Directive.actions, corazaAction]
  · simp only [List.forall_mem_cons, List.not_mem_nil, Action.Plain, true_and,
        false_imp_iff, implies_true, and_true]
    refine ⟨hseverity, ?_⟩
    cases policy.action <;> trivial

/-! ## The rule set -/

/-- What has been pushed, behind the preamble of a route. -/
structure Draft.Formed (route : EdgeRoute) (d : Draft) : Prop where
  ids : (d.blocks.flatten.filterMap Directive.id?).Pairwise (· < ·)
  below : ∀ i ∈ d.blocks.flatten.filterMap Directive.id?, i < d.nextId
  closed : ChainsClosed d.blocks.flatten
  texts : ∃ pushed, d.blocks = preamble route ++ pushed ∧ ∀ dir ∈ pushed.flatten, dir.ReadsBack

theorem ChainsClosed.append {ds es : List Directive} (hd : ChainsClosed ds) (he : ChainsClosed es) :
    ChainsClosed (ds ++ es) := by
  induction ds with
  | nil => exact he
  | cons d ds ih =>
    refine ⟨?_, ih hd.2⟩
    intro hc
    obtain ⟨m, ms, rfl, hm⟩ := hd.1 hc
    exact ⟨m, ms ++ es, rfl, hm⟩

variable {route : EdgeRoute} {d : Draft}

/-- **Step.** A block under the next number. -/
theorem Draft.Formed.push (h : d.Formed route) {g : List Directive} (hg : BlockFormed d.nextId g)
    {d' : Draft} (hblocks : d'.blocks = d.blocks ++ [g]) (hnext : d'.nextId = d.nextId + 1) :
    d'.Formed route := by
  have hflat : d'.blocks.flatten = d.blocks.flatten ++ g := by
    rw [hblocks, List.flatten_append, List.flatten_singleton]
  refine ⟨?_, ?_, ?_, ?_⟩
  · rw [hflat, List.filterMap_append, hg.ids, List.pairwise_append]
    refine ⟨h.ids, List.pairwise_singleton .., ?_⟩
    intro i hi j hj
    rw [List.mem_singleton.mp hj]
    exact h.below i hi
  · intro i hi
    rw [hflat, List.filterMap_append, hg.ids, List.mem_append, List.mem_singleton] at hi
    rw [hnext]
    rcases hi with hi | rfl
    · have := h.below i hi
      omega
    · omega
  · rw [hflat]
    exact h.closed.append hg.closed
  · obtain ⟨pushed, hpushed, htexts⟩ := h.texts
    refine ⟨pushed ++ [g], by rw [hblocks, hpushed, List.append_assoc], ?_⟩
    intro dir hdir
    rw [List.flatten_append, List.flatten_singleton, List.mem_append] at hdir
    rcases hdir with hdir | hdir
    · exact htexts dir hdir
    · exact hg.texts dir hdir

/-- **Run.** Every rung pushes a block that is formed. -/
theorem compileRules_formed (input : CompileInput) :
    (compileRules input).Formed input.route := by
  refine compileRules_inv ?_ ?_ ?_ ?_ ?_ ?_ ?_ ?_
  · refine ⟨List.pairwise_singleton .., ?_, ?_, [], (List.append_nil _).symm, ?_⟩
    · intro i hi
      rw [List.mem_singleton.mp hi]
      show 1 < 10
      decide
    · refine ⟨?_, ?_, trivial⟩
      · intro hc
        exact absurd hc (by decide)
      · intro hc
        exact absurd hc (by simp [Directive.chained, Directive.actions])
    · intro dir hdir
      exact absurd hdir List.not_mem_nil
  · intro d bot hvalid hd
    exact hd.push (bot_block hvalid _) rfl rfl
  · intro d hd
    exact hd.push (internal_block _) rfl rfl
  · intro d source hvalid hd
    exact hd.push (trusted_block hvalid _) rfl rfl
  · intro d rule hvalid hd
    exact hd.push (deny_block hvalid _) rfl rfl
  · intro d rule _ hd
    unfold rateLimitRung
    split
    · exact hd.push (rateLimit_block rule _) rfl rfl
    · exact hd
  · intro d hd
    exact hd.push (challenge_block _) rfl rfl
  · intro d policy hd
    refine Draft.Formed.push (hd.push (threshold_block policy _) rfl rfl)
      (waf_block policy (d.nextId + 1)) rfl rfl

/-- The rule that starts inspection is read back if the path prefix is inert. -/
theorem start_readsBack {actions : List Action} (h : ∀ a ∈ actions, a.Plain) :
    (Directive.rule .requestUri false (.beginsWith route.pathPrefix) actions).ReadsBack ↔
      Inert route.pathPrefix.toList := by
  rw [readsBack_rule_iff (by decide) (List.all_eq_true.mp (by decide)), and_iff_left (inert_actions h)]
  have htext : operatorText false (.beginsWith route.pathPrefix) =
      "@beginsWith ".toList ++ route.pathPrefix.toList := by
    simp [operatorText, Operator.render]
  rw [htext]
  constructor
  · intro hinert
    exact inert_of_append hinert (plain_text (by decide))
  · intro hinert
    exact (inert_text (by decide)).append hinert

/-- A compiled rule set is well formed exactly if the prefix of its primary
route is inert. -/
theorem wellFormed_compiled (input : CompileInput) :
    WellFormed (compileEdge input).corazaDirectives ↔ Inert input.route.pathPrefix.toList := by
  have hformed := compileRules_formed input
  obtain ⟨pushed, hpushed, htexts⟩ := hformed.texts
  have hstart := @start_readsBack input.route [.id 1, .phase 1, .pass, .nolog, .engineOn]
    (by simp [Action.Plain])
  have hall : (compileEdge input).corazaDirectives =
      (preamble input.route).flatten ++ pushed.flatten := by
    show (compileRules input).blocks.flatten = _
    rw [hpushed, List.flatten_append]
  constructor
  · intro h
    refine hstart.mp (h.texts _ ?_)
    rw [hall]
    simp [preamble]
  · intro h
    refine ⟨hformed.ids.imp Nat.ne_of_lt, hformed.closed, ?_⟩
    intro dir hdir
    rw [hall, List.mem_append] at hdir
    rcases hdir with hdir | hdir
    · simp only [preamble, List.flatten_cons, List.flatten_nil, List.append_nil,
        List.singleton_append, List.mem_cons, List.not_mem_nil, or_false] at hdir
      rcases hdir with rfl | rfl
      · decide +kernel
      · exact hstart.mpr h
    · exact htexts dir hdir

/-- **What is sent out is well formed exactly if the prefix of an applied policy
is inert.** -/
theorem emits_wellFormed_iff (call : EdgeCall) : call.Sound ↔ call.Inert := by
  cases call with
  | publishRoute route policy =>
    refine iff_of_true ?_ trivial
    intro input hinput
    unfold EdgeCall.input at hinput
    dsimp only at hinput
    split at hinput
    next hvalid =>
      cases hinput
      have hroute : (inputForRoute route policy).route = route := by cases policy <;> rfl
      rw [wellFormed_compiled, hroute]
      exact inert_of_plain (path_plain hvalid)
    next => cases hinput
  | applyPolicy policy =>
    constructor
    · intro h
      exact (wellFormed_compiled policy).mp (h policy rfl)
    · intro h input hinput
      cases hinput
      exact (wellFormed_compiled policy).mpr h

/-- A policy whose primary route ends the operator it is written into. -/
def quotedPrefix : CompileInput :=
  CompileInput.bare ⟨"shop.example.com", "10.0.0.8", "/\" \"id:2,phase:1,allow", 1, none⟩

theorem quoted_prefix_injects : ¬ (EdgeCall.applyPolicy quotedPrefix).Sound := by
  intro h
  have htext := (h quotedPrefix rfl).texts
    (.rule .requestUri false (.beginsWith quotedPrefix.route.pathPrefix)
      [.id 1, .phase 1, .pass, .nolog, .engineOn]) (by decide +kernel)
  revert htext
  decide +kernel

end Security

end CloudWai
