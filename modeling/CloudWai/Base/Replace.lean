import Mathlib.Data.List.Basic

/-!
# Replacing one character

`String.replace` with a pattern of one character writes the replacement for each
occurrence and copies the rest. The library defines it by a search through the
string's positions; here it is read off the search as a fact about the list of
characters, which is how it is reasoned about.
-/

namespace Base

open String.Slice.Pattern String.Slice.Pattern.Model

section Replace

variable {s : String.Slice} {c : Char}

/-- One step of a replacement. -/
def replaceStep (s : String.Slice) (r sofar : String) : SearchStep s → String
  | .matched _ _ => sofar ++ r.toSlice
  | .rejected start stop => sofar ++ s.slice! start stop

/-- What a replacement makes of a list of characters. -/
def replaced (c : Char) (r : String) (w : List Char) : List Char :=
  w.flatMap fun d => if d = c then r.toList else [d]

/-- Between two positions without a match the character does not occur. -/
theorem not_mem_of_unmatched {p q : s.Pos} {t u v : String} (hp : p.Splits t (u ++ v))
    (hq : q.Splits (t ++ u) v)
    (h : ∀ pos, p ≤ pos → pos < q → ¬ MatchesAt (String.singleton c) pos) : c ∉ u.toList := by
  intro hmem
  obtain ⟨a, b, hab⟩ := List.append_of_mem hmem
  have hu : u = String.ofList a ++ (String.singleton c ++ String.ofList b) := by
    apply String.toList_inj.mp
    simp [hab]
  subst hu
  have hcopy : s.copy = (t ++ String.ofList a) ++ (String.singleton c ++ (String.ofList b ++ v)) := by
    rw [hp.eq_append]
    simp only [String.append_assoc]
  have hpos := String.Slice.Pos.splits_ofEqAppend hcopy
  refine h _ ((hp.le_iff_exists_eq_append hpos).mpr ⟨String.ofList a, rfl, ?_⟩)
    ((hpos.lt_iff_exists_eq_append hq).mpr ⟨String.singleton c ++ String.ofList b, ?_, ?_, ?_⟩)
    (ForwardStringSearcher.matchesAt_iff_splits.mpr ⟨_, _, hpos⟩)
  · simp only [String.append_assoc]
  · intro hempty
    have := congrArg String.toList hempty
    simp at this
  · simp only [String.append_assoc]
  · simp only [String.append_assoc]

theorem replaced_of_not_mem {r : String} {w : List Char} (h : c ∉ w) : replaced c r w = w := by
  induction w with
  | nil => rfl
  | cons d w ih =>
    rw [List.mem_cons, not_or] at h
    show (if d = c then r.toList else [d]) ++ replaced c r w = d :: w
    rw [ih h.2, if_neg (Ne.symm h.1)]
    rfl

theorem replaced_append {r : String} (v w : List Char) :
    replaced c r (v ++ w) = replaced c r v ++ replaced c r w :=
  List.flatMap_append

/-- The steps of a search from a position replace what follows it. -/
theorem replace_from {r : String} {p : s.Pos} {steps : List (SearchStep s)}
    (h : IsValidSearchFrom (String.singleton c) p steps) {t v : String} (hp : p.Splits t v)
    (sofar : String) :
    (steps.foldl (replaceStep s r) sofar).toList = sofar.toList ++ replaced c r v.toList := by
  induction h generalizing t v sofar with
  | endPos =>
    rw [hp.eq_endPos_iff.mp rfl]
    simp [replaced]
  | matched hmatch _ ih =>
    obtain ⟨t', v', hstart, hend⟩ := ForwardStringSearcher.isLongestMatchAt_iff_splits.mp hmatch
    obtain ⟨rfl, rfl⟩ := hp.eq hstart
    rw [List.foldl_cons, ih hend, String.toList_append, replaced_append]
    simp [replaceStep, replaced]
  | mismatched hlt hnone _ ih =>
    rename_i start stop _
    obtain ⟨t', v', hstart, hend⟩ := String.Slice.copy_slice_eq_iff_splits.mp
      ⟨Std.le_of_lt hlt, rfl⟩
    obtain ⟨rfl, rfl⟩ := hp.eq hstart
    have hfree := not_mem_of_unmatched hstart hend hnone
    rw [List.foldl_cons, ih hend, String.toList_append, replaced_append, replaced_of_not_mem hfree]
    simp [replaceStep, String.Slice.slice!, Std.le_of_lt hlt]

end Replace

/-- Replacing a character, character by character. -/
theorem toList_replace (s : String) (c : Char) (r : String) :
    (s.replace (String.singleton c) r).toList = replaced c r s.toList := by
  have hpat : String.singleton c ≠ "" := by simp
  have hvalid := (ForwardStringSearcher.lawfulToForwardSearcherModel hpat).isValidSearchFrom_toList
    s.toSlice
  have hfold : s.replace (String.singleton c) r =
      (ToForwardSearcher.toSearcher (String.singleton c) s.toSlice).toList.foldl
        (replaceStep s.toSlice r) "" := by
    unfold String.replace String.Slice.replace
    rw [Std.Iter.foldl_toList]
    congr 1
    funext sofar step
    cases step <;> rfl
  rw [hfold, replace_from hvalid (String.Slice.splits_startPos _)]
  simp

end Base
