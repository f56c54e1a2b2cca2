import CloudWai.Security.DenyList

/-!
# The order of the ladder

The ladder is what a reviewer reads instead of the rules, so its order is part
of what it says. `DECISION_STAGES` is the order of evaluation, and the compiler
pushes its rungs stage after stage under growing numbers: `Ordered top` is what
holds while stages up to `top` are being pushed, and a rung of a later stage
keeps it.

The one step that is not pushed in its turn is `protect`, which Envoy decides
before the rules run and which the vocabulary lists first. Whether any route is
protected is known only once the fragments are made, so its step goes to the
end, under the largest number. The ladder is in order exactly if no fragment is
protected (`ladder_ordered_iff`); numbers and directives are in order always.

`DECISION_STAGES` and the compiler are those of `packages/adapters/src/security-edge.ts`.
-/

namespace CloudWai

namespace Security

open Base.Seclang

/-! ## What the ladder is for -/

/-- `DECISION_STAGES`: the ladder's evaluation order. -/
def decisionStages : List DecisionStage := [.protect, .allowVerifiedBot, .allowInternal,
  .allowTrustedIp, .blockDenyList, .ratelimit, .challenge, .waf, .log, .pass]

/-- The place of a stage in that order. -/
def DecisionStage.rank (stage : DecisionStage) : Nat := decisionStages.idxOf stage

/-- Steps that Envoy decides have a comment where the others have a directive. -/
def LadderStep.envoyOnly (step : LadderStep) : Bool := step.stage = .protect

/-- The ladder's steps are in order, and so are their directives. -/
structure LadderOrdered (artifact : CompiledEdge) : Prop where
  stages : artifact.ladder.Pairwise fun a b => a.stage.rank ≤ b.stage.rank
  ids : artifact.ladder.Pairwise fun a b => a.id < b.id
  /-- The steps' directives are found in the rule set, chain by chain, in order. -/
  directives : ((artifact.ladder.filter fun step => !step.envoyOnly).map (·.directive)).Sublist
    ((chains artifact.corazaDirectives).map renderBlock)

/-! ## Pushing in order -/

/-- No step so far is of a stage after `top`, and all are in order. -/
structure Draft.Ordered (top : Nat) (d : Draft) : Prop where
  stages : d.ladder.Pairwise fun a b => a.stage.rank ≤ b.stage.rank
  upTo : ∀ step ∈ d.ladder, step.stage.rank ≤ top
  ids : d.ladder.Pairwise fun a b => a.id < b.id
  fresh : ∀ step ∈ d.ladder, step.id < d.nextId
  written : (d.ladder.map (·.directive)).Sublist (d.blocks.map renderBlock)

variable {d : Draft} {top : Nat}

theorem Draft.Ordered.mono (h : d.Ordered top) {top' : Nat} (hle : top ≤ top') : d.Ordered top' := by
  refine ⟨h.stages, ?_, h.ids, h.fresh, h.written⟩
  intro step hs
  have := h.upTo step hs
  omega

/-- **Step.** A rung of a stage that is not before any pushed one. -/
theorem Draft.Ordered.rung (h : d.Ordered top) {stage : DecisionStage} {rank : Nat}
    (hrank : stage.rank = rank) (hle : top ≤ rank) (action : EnforcementAction)
    (block : Nat → List Directive) : (d.rung stage action block).Ordered rank where
  stages := by
    show (d.ladder ++ _).Pairwise _
    rw [List.pairwise_append]
    refine ⟨h.stages, List.pairwise_singleton .., ?_⟩
    intro a ha b hb
    have := h.upTo a ha
    rw [List.mem_singleton.mp hb]
    show a.stage.rank ≤ stage.rank
    omega
  upTo := by
    intro step hs
    rcases List.mem_append.mp hs with hs | hs
    · have := h.upTo step hs
      omega
    · rw [List.mem_singleton.mp hs]
      exact Nat.le_of_eq hrank
  ids := by
    show (d.ladder ++ _).Pairwise _
    rw [List.pairwise_append]
    refine ⟨h.ids, List.pairwise_singleton .., ?_⟩
    intro a ha b hb
    rw [List.mem_singleton.mp hb]
    exact h.fresh a ha
  fresh := by
    intro step hs
    show step.id < d.nextId + 1
    rcases List.mem_append.mp hs with hs | hs
    · have := h.fresh step hs
      omega
    · rw [List.mem_singleton.mp hs]
      show d.nextId < d.nextId + 1
      omega
  written := by
    show ((d.ladder ++ _).map _).Sublist ((d.blocks ++ _).map _)
    rw [List.map_append, List.map_append]
    exact h.written.append (List.Sublist.refl _)

/-- A block that is no step. -/
theorem Draft.Ordered.aside (h : d.Ordered top) (block : List Directive) :
    ({ d with blocks := d.blocks ++ [block], nextId := d.nextId + 1 } : Draft).Ordered top where
  stages := h.stages
  upTo := h.upTo
  ids := h.ids
  fresh := by
    intro step hs
    have := h.fresh step hs
    show step.id < d.nextId + 1
    omega
  written := by
    show (d.ladder.map _).Sublist ((d.blocks ++ [block]).map _)
    rw [List.map_append]
    exact h.written.trans (List.sublist_append_left ..)

/-- A stage that pushes at most one rung for each entry of a list. -/
theorem Draft.Ordered.stage {α : Type} {push : Draft → α → Draft} (h : d.Ordered top) (rank : Nat)
    (hle : top ≤ rank) (hpush : ∀ d a, d.Ordered rank → (push d a).Ordered rank)
    (entries : List α) : (entries.foldl push d).Ordered rank :=
  List.foldlRecOn entries push (h.mono hle) fun d hd a _ => hpush d a hd

theorem botRung_ordered (bot : VerifiedBot) (h : d.Ordered 1) : (botRung d bot).Ordered 1 := by
  unfold botRung
  split
  · exact h.rung (by decide) (by omega) ..
  · exact h

theorem trustedRung_ordered (source : TrustedSource) (h : d.Ordered 3) :
    (trustedRung d source).Ordered 3 := by
  unfold trustedRung
  split
  · exact h.rung (by decide) (by omega) ..
  · exact h

theorem denyRung_ordered (rule : DenyRule) (h : d.Ordered 4) : (denyRung d rule).Ordered 4 := by
  unfold denyRung
  split
  · exact h.rung (by decide) (by omega) ..
  · exact h

theorem rateLimitRung_ordered (rule : RateLimitRule) (h : d.Ordered 5) :
    (rateLimitRung d rule).Ordered 5 := by
  unfold rateLimitRung
  split
  · have hr : (d.rung .ratelimit .log (rateLimitDirectives rule)).Ordered 5 :=
      h.rung (by decide) (by omega) ..
    exact ⟨hr.stages, hr.upTo, hr.ids, hr.fresh, hr.written⟩
  · exact h

theorem challengeRung_ordered {attackMode : Bool} (h : d.Ordered 5) :
    (challengeRung d attackMode).Ordered 6 := by
  unfold challengeRung
  split
  · exact h.rung (by decide) (by omega) ..
  · exact h.mono (by omega)

theorem wafRung_ordered {policy : Option PolicyInput} (h : d.Ordered 6) :
    (wafRung d policy).Ordered 7 := by
  unfold wafRung
  cases policy with
  | none => exact h.mono (by omega)
  | some policy => exact (h.aside _).rung (by decide) (by omega) ..

/-- **Run.** Stage after stage. -/
theorem compileRules_ordered (input : CompileInput) : (compileRules input).Ordered 7 := by
  have h0 : (⟨[], preamble input.route, [], 10⟩ : Draft).Ordered 0 := by
    refine ⟨.nil, ?_, .nil, ?_, List.nil_sublist _⟩
    · intro step hs
      exact absurd hs List.not_mem_nil
    · intro step hs
      exact absurd hs List.not_mem_nil
  have h1 := h0.stage 1 (by omega) (fun _ bot h => botRung_ordered bot h)
    (verifiedBots ++ input.botAllowList)
  have h2 : (internalRung _).Ordered 2 := h1.rung (by decide) (by omega) ..
  have h3 := h2.stage 3 (by omega) (fun _ source h => trustedRung_ordered source h) input.trustedSources
  have h4 := h3.stage 4 (by omega) (fun _ rule h => denyRung_ordered rule h) input.denyList
  have h5 := h4.stage 5 (by omega) (fun _ rule h => rateLimitRung_ordered rule h) input.rateLimits
  exact wafRung_ordered (challengeRung_ordered h5)

/-! ## The step that is not pushed in its turn -/

/-- The rung for internal requests has been pushed. -/
def Draft.HasInternal (d : Draft) : Prop := ∃ step ∈ d.ladder, step.stage = .allowInternal

/-- It is pushed for every input, and what follows only appends. -/
theorem compileRules_hasInternal (input : CompileInput) : (compileRules input).HasInternal := by
  have hpushed : (internalRung ((verifiedBots ++ input.botAllowList).foldl botRung
      ⟨[], preamble input.route, [], 10⟩)).HasInternal :=
    ⟨_, List.mem_append_right _ (List.mem_singleton_self _), rfl⟩
  obtain ⟨step, hs, hstage⟩ := hpushed
  exact ⟨step, (Draft.Grows.fromInternal input).ladder.subset hs, hstage⟩

/-- Some host's first route is under a posture of its own. -/
def CompileInput.Protects (input : CompileInput) : Prop :=
  ∃ one ∈ firstOfHost [] (input.route :: input.routes),
    (protectionInput one.protection).mode ≠ .none

variable {input : CompileInput}

theorem ladder_of_protects (h : input.Protects) : (compileEdge input).ladder =
    (compileRules input).ladder ++ [protectStep (compileRules input).nextId] := by
  obtain ⟨one, hone, hmode⟩ := h
  refine if_pos ?_
  rw [List.any_eq_true]
  exact ⟨_, List.mem_map_of_mem hone, by simpa [fragment] using hmode⟩

theorem ladder_of_open (h : ¬ input.Protects) :
    (compileEdge input).ladder = (compileRules input).ladder := by
  refine if_neg ?_
  rw [List.any_eq_true]
  rintro ⟨f, hf, hmode⟩
  obtain ⟨one, hone, rfl⟩ := List.mem_map.mp hf
  exact h ⟨one, hone, by simpa [fragment] using hmode⟩

/-- The pushed steps' directives are the blocks in which the engine reads them. -/
theorem directives_in_order (input : CompileInput) :
    (((compileRules input).ladder.filter fun step => !step.envoyOnly).map (·.directive)).Sublist
      ((chains (compileEdge input).corazaDirectives).map renderBlock) := by
  rw [chains_compiled]
  exact (List.filter_sublist.map _).trans (compileRules_ordered input).written

/-- The internal step stands before the one that should be first. -/
theorem not_ordered_of_protects (h : input.Protects) : ¬ LadderOrdered (compileEdge input) := by
  intro hordered
  obtain ⟨step, hs, hstage⟩ := compileRules_hasInternal input
  have hstages := hordered.stages
  rw [ladder_of_protects h, List.pairwise_append] at hstages
  have hle := hstages.2.2 step hs _ (List.mem_singleton_self _)
  have hranks : ¬ DecisionStage.allowInternal.rank ≤ DecisionStage.protect.rank := by decide
  exact hranks (hstage ▸ hle)

/-- What a protected host does not disturb: the numbers, and where the
directives stand. -/
theorem ladder_ids (input : CompileInput) :
    ((compileEdge input).ladder.Pairwise fun a b => a.id < b.id) ∧
      (((compileEdge input).ladder.filter fun step => !step.envoyOnly).map (·.directive)).Sublist
        ((chains (compileEdge input).corazaDirectives).map renderBlock) := by
  have hordered := compileRules_ordered input
  by_cases h : input.Protects
  · rw [ladder_of_protects h, List.pairwise_append, List.filter_append]
    refine ⟨⟨hordered.ids, List.pairwise_singleton .., ?_⟩, ?_⟩
    · intro a ha b hb
      rw [List.mem_singleton.mp hb]
      exact hordered.fresh a ha
    · -- the step itself has only a comment
      have hnone : ([protectStep (compileRules input).nextId].filter
          fun step => !step.envoyOnly) = [] := rfl
      rw [hnone, List.append_nil]
      exact directives_in_order input
  · rw [ladder_of_open h]
    exact ⟨hordered.ids, directives_in_order input⟩

/-- **The ladder is in order exactly if no host is protected.** -/
theorem ladder_ordered_iff (input : CompileInput) :
    LadderOrdered (compileEdge input) ↔ ¬ input.Protects := by
  obtain ⟨hids, hdirectives⟩ := ladder_ids input
  constructor
  · intro h hprotects
    exact not_ordered_of_protects hprotects h
  · intro h
    refine ⟨?_, hids, hdirectives⟩
    rw [ladder_of_open h]
    exact (compileRules_ordered input).stages

/-- A shop that only one office may open. -/
def officeShop : CompileInput :=
  CompileInput.bare ⟨"shop.example.com", "10.0.0.8", "/", 1,
    some ⟨.ip, none, none, some ["203.0.113.9/32"]⟩⟩

theorem office_shop_out_of_order : ¬ LadderOrdered (compileEdge officeShop) :=
  not_ordered_of_protects ⟨officeShop.route, by decide +kernel, by decide +kernel⟩

end Security

end CloudWai
