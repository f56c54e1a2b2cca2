import CloudWai.Base.Seclang
import Mathlib.Data.List.TakeDrop

/-!
# Directives read from their text

A rule engine sees a directive as one line: a keyword and arguments with spaces
between them, an argument bare or in double quotes. In quotes a backslash takes
the next character with it, a bare quote ends the argument, and the end of the
line ends the directive whatever is open.

`arguments` reads such a line, and a directive is what it was written as if its
rendered text is read back as its own arguments (`ReadsBack`). Whether it is
depends on what stands between the quotes only: `Inert` text neither ends the
argument nor swallows the quote that does, and `readsBack_rule_iff` and
`readsBack_action_iff` say that inert operator and action texts are all it takes.
-/

namespace Base

namespace Seclang

/-! ## Reading a line -/

/-- The body of a quoted argument, and what follows its closing quote. The first
argument says whether a backslash came before. -/
def quoted : Bool → List Char → Option (List Char × List Char)
  | _, [] => none
  | true, c :: w => if c = '\n' then none else (quoted false w).map fun (u, r) => (c :: u, r)
  | false, c :: w =>
    if c = '\n' then none
    else if c = '"' then some ([], w)
    else (quoted (c == '\\') w).map fun (u, r) => (c :: u, r)

/-- What may stand in a bare argument. -/
def bare (c : Char) : Bool := c != ' ' && c != '"' && c != '\n'

/-- The first argument of a line. -/
def argument : List Char → Option (List Char × List Char)
  | '"' :: w => quoted false w
  | w => some (w.span bare)

/-- All of them; every argument takes a unit of fuel. -/
def argumentsIn : Nat → List Char → Option (List (List Char))
  | 0, _ => none
  | n + 1, w =>
    match argument w with
    | none => none
    | some (u, []) => some [u]
    | some (u, c :: r) => if c = ' ' then (argumentsIn n r).map (u :: ·) else none

/-- The arguments of a line, the keyword first. -/
def arguments (line : String) : Option (List (List Char)) :=
  argumentsIn (line.toList.length + 1) line.toList

/-- The operator as it stands in its quotes. -/
def operatorText (negated : Bool) (op : Operator) : List Char :=
  (if negated then "!" else "").toList ++ op.render.toList

/-- The actions as they stand in theirs. -/
def actionText (as : List Action) : List Char := (",".intercalate (as.map Action.render)).toList

/-- What a directive is written as. -/
def Directive.arguments : Directive → List (List Char)
  | .ruleEngineOn => ["SecRuleEngine".toList, "On".toList]
  | .rule t negated op as =>
    ["SecRule".toList, t.render.toList, operatorText negated op, actionText as]
  | .action as => ["SecAction".toList, actionText as]

/-- The text of a directive is read as that directive and nothing else. -/
def Directive.ReadsBack (d : Directive) : Prop := Seclang.arguments d.render = some d.arguments

instance (d : Directive) : Decidable d.ReadsBack :=
  inferInstanceAs (Decidable (Seclang.arguments d.render = some d.arguments))

example : (Directive.rule .requestUri false (.beginsWith "/a") [.id 1, .pass]).ReadsBack := by
  decide +kernel

/-! ## Inert text -/

/-- Text that leaves the quotes around it in force. -/
inductive Inert : List Char → Prop
  | nil : Inert []
  | plain {c : Char} {w : List Char} (hn : c ≠ '\n') (hq : c ≠ '"') (hb : c ≠ '\\') (h : Inert w) :
      Inert (c :: w)
  | escape {c : Char} {w : List Char} (hn : c ≠ '\n') (h : Inert w) : Inert ('\\' :: c :: w)

/-- Characters without a meaning in quotes. -/
def plain (c : Char) : Bool := c != '\n' && c != '"' && c != '\\'

variable {u v w r : List Char}

theorem inert_of_plain (h : ∀ c ∈ w, plain c = true) : Inert w := by
  induction w with
  | nil => exact .nil
  | cons c w ih =>
    have hc := h c List.mem_cons_self
    simp only [plain, Bool.and_eq_true, bne_iff_ne] at hc
    exact .plain hc.1.1 hc.1.2 hc.2 (ih fun d hd => h d (List.mem_cons_of_mem _ hd))

/-- The same of a given text, which can be computed. -/
theorem plain_text (h : w.all plain = true) : ∀ c ∈ w, plain c = true := List.all_eq_true.mp h

theorem inert_text (h : w.all plain = true) : Inert w := inert_of_plain (plain_text h)

theorem Inert.append (hu : Inert u) (hv : Inert v) : Inert (u ++ v) := by
  induction hu with
  | nil => exact hv
  | plain hn hq hb _ ih => exact .plain hn hq hb ih
  | escape hn _ ih => exact .escape hn ih

/-- Plain text in front makes no difference. -/
theorem inert_of_append (h : Inert (u ++ v)) (hu : ∀ c ∈ u, plain c = true) : Inert v := by
  induction u with
  | nil => exact h
  | cons c u ih =>
    have hc := hu c List.mem_cons_self
    simp only [plain, Bool.and_eq_true, bne_iff_ne] at hc
    rw [List.cons_append] at h
    generalize hw : u ++ v = w at h
    cases h with
    | plain _ _ _ h => exact ih (hw ▸ h) fun d hd => hu d (List.mem_cons_of_mem _ hd)
    | escape => exact absurd rfl hc.2

/-- Inert text is read up to the quote that follows it. -/
theorem quoted_of_inert (h : Inert u) : quoted false (u ++ '"' :: r) = some (u, r) := by
  induction h with
  | nil => rfl
  | plain hn hq hb _ ih =>
    rw [List.cons_append, quoted, if_neg hn, if_neg hq, beq_eq_false_iff_ne.mpr hb, ih]
    rfl
  | escape hn _ ih =>
    rw [List.cons_append, List.cons_append, quoted, if_neg (by decide), if_neg (by decide),
      beq_self_eq_true, quoted, if_neg hn, ih]
    rfl

/-- What is read as the body of an argument is inert. -/
theorem inert_of_quoted (h : quoted false w = some (u, r)) : w = u ++ '"' :: r ∧ Inert u := by
  -- behind a backslash the body is one character and then inert
  suffices hall : ∀ (escaped : Bool) (w u : List Char), quoted escaped w = some (u, r) →
      w = u ++ '"' :: r ∧
        if escaped then ∃ c v, u = c :: v ∧ c ≠ '\n' ∧ Inert v else Inert u from hall false w u h
  clear h
  intro escaped w
  induction w generalizing escaped with
  | nil =>
    intro u h
    cases h
  | cons c w ih =>
    intro u h
    cases escaped with
    | true =>
      rw [quoted] at h
      split at h
      next => cases h
      next hn =>
        obtain ⟨⟨u', r'⟩, hread, hu⟩ := Option.map_eq_some_iff.mp h
        cases hu
        obtain ⟨hw, hinert⟩ := ih false u' hread
        exact ⟨by rw [hw]; rfl, c, u', rfl, hn, hinert⟩
    | false =>
      rw [quoted] at h
      split at h
      next => cases h
      next hn =>
        split at h
        next hq =>
          cases h
          exact ⟨by rw [hq]; rfl, .nil⟩
        next hq =>
          obtain ⟨⟨u', r'⟩, hread, hu⟩ := Option.map_eq_some_iff.mp h
          cases hu
          obtain ⟨hw, hinert⟩ := ih _ u' hread
          refine ⟨by rw [hw]; rfl, ?_⟩
          by_cases hb : c = '\\'
          · rw [hb, beq_self_eq_true, if_pos rfl] at hinert
            obtain ⟨d, v, rfl, hd, hv⟩ := hinert
            exact hb ▸ .escape hd hv
          · rw [beq_eq_false_iff_ne.mpr hb] at hinert
            exact .plain hn hq hb hinert

/-! ## Reading a directive back -/

/-- A bare word is an argument by itself. -/
theorem argumentsIn_bare {n : Nat} (hne : u ≠ []) (h : ∀ c ∈ u, bare c = true) :
    argumentsIn (n + 1) (u ++ ' ' :: r) = (argumentsIn n r).map (u :: ·) := by
  have hspan : (u ++ ' ' :: r).span bare = (u, ' ' :: r) := by
    rw [List.span_eq_takeWhile_dropWhile, List.takeWhile_append_of_pos h,
      List.dropWhile_append_of_pos h]
    simp [bare]
  obtain ⟨c, u', rfl⟩ := List.exists_cons_of_ne_nil hne
  have hquote : c ≠ '"' := by
    rintro rfl
    exact absurd (h '"' List.mem_cons_self) (by decide)
  have harg : argument (c :: u' ++ ' ' :: r) = some (c :: u', ' ' :: r) := by
    unfold argument
    split
    next heq =>
      cases heq
      exact absurd rfl hquote
    next => rw [hspan]
  rw [argumentsIn, harg]
  rfl

/-- A quoted argument with more behind it. -/
theorem argumentsIn_quoted {n : Nat} {us : List (List Char)} :
    argumentsIn (n + 1) ('"' :: (u ++ '"' :: ' ' :: r)) = some (u :: us) ↔
      Inert u ∧ argumentsIn n r = some us := by
  rw [argumentsIn, argument]
  constructor
  · intro h
    cases hread : quoted false (u ++ '"' :: ' ' :: r) with
    | none =>
      rw [hread] at h
      cases h
    | some found =>
      obtain ⟨u', r'⟩ := found
      obtain ⟨hw, hinert⟩ := inert_of_quoted hread
      -- whichever way the line goes on, the argument is the one that was read
      have hu : u' = u := by
        rw [hread] at h
        cases r' with
        | nil => exact (List.cons.inj (Option.some.inj h)).1
        | cons c r' =>
          dsimp only at h
          split at h
          next =>
            obtain ⟨_, _, hus⟩ := Option.map_eq_some_iff.mp h
            exact (List.cons.inj hus).1
          next => cases h
      subst hu
      refine ⟨hinert, ?_⟩
      have hr : r' = ' ' :: r := by simpa using hw.symm
      subst hr
      rw [hread] at h
      dsimp only at h
      rw [if_pos rfl] at h
      obtain ⟨us', hus, heq⟩ := Option.map_eq_some_iff.mp h
      exact (List.cons.inj heq).2 ▸ hus
  · intro ⟨hu, hr⟩
    rw [quoted_of_inert hu]
    dsimp only
    rw [if_pos rfl, hr]
    rfl

/-- The last argument of a line. -/
theorem argumentsIn_last {n : Nat} :
    argumentsIn (n + 1) ('"' :: (u ++ ['"'])) = some [u] ↔ Inert u := by
  rw [argumentsIn, argument]
  constructor
  · intro h
    cases hread : quoted false (u ++ ['"']) with
    | none =>
      rw [hread] at h
      cases h
    | some found =>
      obtain ⟨u', r'⟩ := found
      obtain ⟨hw, hinert⟩ := inert_of_quoted hread
      rw [hread] at h
      cases r' with
      | nil =>
        have hu : u' = u := (List.cons.inj (Option.some.inj h)).1
        exact hu ▸ hinert
      | cons c r' =>
        dsimp only at h
        split at h
        next =>
          obtain ⟨_, _, hus⟩ := Option.map_eq_some_iff.mp h
          have hu : u' = u := (List.cons.inj hus).1
          exact hu ▸ hinert
        next => cases h
  · intro hu
    rw [quoted_of_inert hu]

/-- **A rule is read back exactly if its operator and its actions are inert.** -/
theorem readsBack_rule_iff {t : Target} {negated : Bool} {op : Operator} {as : List Action}
    (hne : t.render.toList ≠ []) (ht : ∀ c ∈ t.render.toList, bare c = true) :
    (Directive.rule t negated op as).ReadsBack ↔
      Inert (operatorText negated op) ∧ Inert (actionText as) := by
  have htext : (Directive.rule t negated op as).render.toList =
      "SecRule".toList ++ ' ' :: (t.render.toList ++ ' ' :: ('"' :: (operatorText negated op ++
        '"' :: ' ' :: ('"' :: (actionText as ++ ['"']))))) := by
    simp [Directive.render, renderActions, operatorText, actionText]
  obtain ⟨k, hk⟩ : ∃ k, (Directive.rule t negated op as).render.toList.length + 1 = k + 4 := by
    refine ⟨(Directive.rule t negated op as).render.toList.length - 3, ?_⟩
    rw [htext]
    simp
  unfold Directive.ReadsBack arguments
  rw [hk, htext, argumentsIn_bare (by simp) (List.all_eq_true.mp (by decide)), argumentsIn_bare hne ht]
  have hcut : (Directive.rule t negated op as).arguments = "SecRule".toList :: t.render.toList ::
      [operatorText negated op, actionText as] := rfl
  rw [hcut, Option.map_map, Option.map_eq_some_iff]
  constructor
  · intro ⟨us, hus, heq⟩
    have hus' : us = [operatorText negated op, actionText as] :=
      (List.cons.inj (List.cons.inj heq).2).2
    rw [hus', argumentsIn_quoted, argumentsIn_last] at hus
    exact hus
  · intro h
    exact ⟨_, argumentsIn_quoted.mpr ⟨h.1, argumentsIn_last.mpr h.2⟩, rfl⟩

/-- An action list is read back exactly if its text is inert. -/
theorem readsBack_action_iff {as : List Action} :
    (Directive.action as).ReadsBack ↔ Inert (actionText as) := by
  have htext : (Directive.action as).render.toList =
      "SecAction".toList ++ ' ' :: ('"' :: (actionText as ++ ['"'])) := by
    simp [Directive.render, renderActions, actionText]
  obtain ⟨k, hk⟩ : ∃ k, (Directive.action as).render.toList.length + 1 = k + 2 := by
    refine ⟨(Directive.action as).render.toList.length - 1, ?_⟩
    rw [htext]
    simp
  unfold Directive.ReadsBack arguments
  rw [hk, htext, argumentsIn_bare (by simp) (List.all_eq_true.mp (by decide))]
  have hcut : (Directive.action as).arguments = "SecAction".toList :: [actionText as] := rfl
  rw [hcut, Option.map_eq_some_iff]
  constructor
  · intro ⟨us, hus, heq⟩
    rw [(List.cons.inj heq).2] at hus
    exact argumentsIn_last.mp hus
  · intro h
    exact ⟨_, argumentsIn_last.mpr h, rfl⟩

theorem inert_actionText {as : List Action} (h : ∀ a ∈ as, Inert a.render.toList) :
    Inert (actionText as) := by
  induction as with
  | nil => exact .nil
  | cons a as ih =>
    have ha := h a List.mem_cons_self
    have has := ih fun b hb => h b (List.mem_cons_of_mem _ hb)
    cases as with
    | nil =>
      rw [actionText, List.map_cons, List.map_nil, String.intercalate_singleton]
      exact ha
    | cons b as =>
      rw [actionText, List.map_cons, List.map_cons, String.intercalate_cons_cons,
        String.toList_append, String.toList_append]
      exact (ha.append (inert_text (by decide))).append has

/-! ## Inert actions -/

/-- What an action carries has no meaning in quotes. -/
def Action.Plain : Action → Prop
  | .msg s => ∀ c ∈ s.toList, plain c = true
  | .severity s => ∀ c ∈ s.toList, plain c = true
  | .setvar name value => (∀ c ∈ name.toList, plain c = true) ∧ ∀ c ∈ value.toList, plain c = true
  | _ => True

theorem plain_of_isDigit {c : Char} (h : c.isDigit = true) : plain c = true := by
  simp only [plain, Bool.and_eq_true, bne_iff_ne]
  refine ⟨⟨?_, ?_⟩, ?_⟩
  · rintro rfl
    exact absurd h (by decide)
  · rintro rfl
    exact absurd h (by decide)
  · rintro rfl
    exact absurd h (by decide)

theorem plain_repr (n : Nat) : ∀ c ∈ n.repr.toList, plain c = true := by
  intro c hc
  rw [Nat.toList_repr] at hc
  exact plain_of_isDigit (Nat.isDigit_of_mem_toDigits (by omega) (by omega) hc)

theorem plain_int (i : Int) : ∀ c ∈ (toString i).toList, plain c = true := by
  rw [Int.toString_eq_repr, Int.repr_eq_if]
  split
  · exact plain_repr _
  · intro c hc
    rw [String.toList_append, List.mem_append] at hc
    rcases hc with hc | hc
    · exact plain_text (by decide) c hc
    · exact plain_repr _ c hc

/-- A plain action is. -/
theorem inert_render {a : Action} (h : a.Plain) : Inert a.render.toList := by
  have hnum : ∀ n : Nat, Inert (toString n).toList := fun n => inert_of_plain (plain_repr n)
  cases a with
  | id n =>
    rw [Action.render, String.toList_append]
    exact (inert_text (by decide)).append (hnum n)
  | phase n =>
    rw [Action.render, String.toList_append]
    exact (inert_text (by decide)).append (hnum n)
  | status n =>
    rw [Action.render, String.toList_append]
    exact (inert_text (by decide)).append (hnum n)
  | msg s =>
    rw [Action.render, String.toList_append, String.toList_append]
    exact ((inert_text (by decide)).append (inert_of_plain h)).append
      (inert_text (by decide))
  | severity s =>
    rw [Action.render, String.toList_append]
    exact (inert_text (by decide)).append (inert_of_plain h)
  | setvar name value =>
    rw [Action.render, String.toList_append, String.toList_append, String.toList_append]
    exact (((inert_text (by decide)).append (inert_of_plain h.1)).append
      (inert_text (by decide))).append (inert_of_plain h.2)
  | _ => exact inert_text (by decide)

theorem inert_actions {as : List Action} (h : ∀ a ∈ as, a.Plain) : Inert (actionText as) :=
  inert_actionText fun a ha => inert_render (h a ha)

end Seclang

end Base
