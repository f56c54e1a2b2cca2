import Mathlib.Algebra.GroupWithZero.Nat
import Mathlib.Data.List.Basic

/-!
# Anchored patterns

The grammars a program checks its inputs against are regular expressions over
character classes. A `Pattern` is one, `Matches` says which words it describes,
and `test` decides it by Brzozowski derivatives: to match `c :: w` against `r`,
match `w` against what `r` leaves after a `c`. `test_iff` is their agreement,
and it is what every use of a grammar goes through.

A `test` is anchored at both ends. The constructors of derivatives prune what
cannot match, so that the derivative of a long repetition stays as small as the
repetition; `matches_cat` and `matches_either` say that nothing is lost.

What a proof usually wants from a grammar is which characters it lets through:
`Within p r` compares the classes of `r` with `p`, and `within_of_test` carries
that over to every word that passed.
-/

namespace Base

/-- Regular expressions over character classes. -/
inductive Pattern where
  | never
  | eps
  | one (p : Char → Bool)
  | seq (r s : Pattern)
  | alt (r s : Pattern)
  | star (r : Pattern)

namespace Pattern

/-- The words a pattern describes. -/
inductive Matches : Pattern → List Char → Prop
  | eps : Matches .eps []
  | one {p : Char → Bool} {c : Char} (h : p c = true) : Matches (.one p) [c]
  | seq {r s : Pattern} {u v : List Char} (hu : Matches r u) (hv : Matches s v) :
      Matches (.seq r s) (u ++ v)
  | left {r s : Pattern} {u : List Char} (h : Matches r u) : Matches (.alt r s) u
  | right {r s : Pattern} {u : List Char} (h : Matches s u) : Matches (.alt r s) u
  | stop {r : Pattern} : Matches (.star r) []
  | more {r : Pattern} {u v : List Char} (hu : Matches r u) (hv : Matches (.star r) v) :
      Matches (.star r) (u ++ v)

/-! ## What grammars are written with -/

/-- One given character. -/
def ch (c : Char) : Pattern := one fun d => d == c

/-- `r?` -/
def opt (r : Pattern) : Pattern := alt eps r

/-- `r{n}` -/
def times : Nat → Pattern → Pattern
  | 0, _ => eps
  | n + 1, r => seq r (times n r)

/-- `r{0,n}` -/
def upTo : Nat → Pattern → Pattern
  | 0, _ => eps
  | n + 1, r => opt (seq r (upTo n r))

/-- `r{m,n}` -/
def between (m n : Nat) (r : Pattern) : Pattern := seq (times m r) (upTo (n - m) r)

/-- `r+` -/
def plus (r : Pattern) : Pattern := seq r (star r)

/-- A literal string. -/
def lit (s : String) : Pattern := s.toList.foldr (fun c r => seq (ch c) r) eps

/-- `.*`, where the rest of the input does not matter. -/
def rest : Pattern := star (one fun _ => true)

/-! ## Deciding -/

/-- Whether the empty word is described. -/
def nullable : Pattern → Bool
  | never => false
  | eps => true
  | one _ => false
  | seq r s => r.nullable && s.nullable
  | alt r s => r.nullable || s.nullable
  | star _ => true

/-- `seq`, pruned. -/
def cat : Pattern → Pattern → Pattern
  | never, _ => never
  | eps, s => s
  | r, s => seq r s

/-- `alt`, pruned. -/
def either : Pattern → Pattern → Pattern
  | never, s => s
  | r, never => r
  | r, s => alt r s

/-- What is left to match after a `c`. -/
def deriv (c : Char) : Pattern → Pattern
  | never => never
  | eps => never
  | one p => if p c then eps else never
  | seq r s => if r.nullable then either (cat (r.deriv c) s) (s.deriv c) else cat (r.deriv c) s
  | alt r s => either (r.deriv c) (s.deriv c)
  | star r => cat (r.deriv c) (star r)

/-- Match a word. -/
def run : Pattern → List Char → Bool
  | r, [] => r.nullable
  | r, c :: w => (r.deriv c).run w

/-- `RegExp.prototype.test` of an anchored expression. -/
def test (r : Pattern) (s : String) : Bool := r.run s.toList

/-! ## Matching and describing agree -/

variable {r s : Pattern} {p : Char → Bool} {c : Char} {u v w : List Char}

theorem not_matches_never : ¬ Matches never w := by
  intro h
  cases h

theorem matches_eps : Matches eps w ↔ w = [] := by
  constructor
  · intro h
    cases h
    rfl
  · rintro rfl
    exact .eps

theorem matches_one : Matches (one p) w ↔ ∃ c, p c = true ∧ w = [c] := by
  constructor
  · intro h
    cases h with
    | one h => exact ⟨_, h, rfl⟩
  · rintro ⟨c, h, rfl⟩
    exact .one h

theorem matches_seq : Matches (seq r s) w ↔ ∃ u v, w = u ++ v ∧ Matches r u ∧ Matches s v := by
  constructor
  · intro h
    cases h with
    | seq hu hv => exact ⟨_, _, rfl, hu, hv⟩
  · rintro ⟨u, v, rfl, hu, hv⟩
    exact .seq hu hv

theorem matches_alt : Matches (alt r s) w ↔ Matches r w ∨ Matches s w := by
  constructor
  · intro h
    cases h with
    | left h => exact .inl h
    | right h => exact .inr h
  · rintro (h | h)
    · exact .left h
    · exact .right h

/-- A nonempty word of `r*` starts with a nonempty word of `r`. -/
theorem matches_star_cons :
    Matches (star r) (c :: w) ↔ ∃ u v, w = u ++ v ∧ Matches r (c :: u) ∧ Matches (star r) v := by
  constructor
  · intro h
    generalize hx : star r = x at h
    generalize hcw : c :: w = cw at h
    induction h with
    | eps => exact absurd hcw (by simp)
    | one => exact absurd hx (by simp)
    | seq => exact absurd hx (by simp)
    | left => exact absurd hx (by simp)
    | right => exact absurd hx (by simp)
    | stop => exact absurd hcw (by simp)
    | more hu hv _ ihv =>
      rename_i a b _
      cases hx
      cases a with
      | nil => exact ihv rfl hcw
      | cons d a =>
        rw [List.cons_append, List.cons.injEq] at hcw
        obtain ⟨rfl, rfl⟩ := hcw
        exact ⟨a, b, rfl, hu, hv⟩
  · rintro ⟨u, v, rfl, hu, hv⟩
    exact .more hu hv

theorem nullable_iff : r.nullable = true ↔ Matches r [] := by
  induction r with
  | never => simp [nullable, not_matches_never]
  | eps => simp [nullable, matches_eps]
  | one p => simp [nullable, matches_one]
  | seq r s ihr ihs =>
    rw [nullable, Bool.and_eq_true, ihr, ihs, matches_seq]
    constructor
    · rintro ⟨hr, hs⟩
      exact ⟨[], [], rfl, hr, hs⟩
    · rintro ⟨u, v, huv, hr, hs⟩
      obtain ⟨rfl, rfl⟩ := List.append_eq_nil_iff.mp huv.symm
      exact ⟨hr, hs⟩
  | alt r s ihr ihs => rw [nullable, Bool.or_eq_true, ihr, ihs, matches_alt]
  | star r _ => exact iff_of_true rfl .stop

theorem matches_cat : Matches (cat r s) w ↔ Matches (seq r s) w := by
  cases r with
  | never => simp [cat, matches_seq, not_matches_never]
  | eps => simp [cat, matches_seq, matches_eps]
  | one p => exact Iff.rfl
  | seq a b => exact Iff.rfl
  | alt a b => exact Iff.rfl
  | star a => exact Iff.rfl

theorem matches_either : Matches (either r s) w ↔ Matches (alt r s) w := by
  unfold either
  split
  · simp [matches_alt, not_matches_never]
  · simp [matches_alt, not_matches_never]
  · exact Iff.rfl

/-- A sequence splits its first character off one of its halves. -/
theorem matches_seq_cons : Matches (seq r s) (c :: w) ↔
    (∃ u v, w = u ++ v ∧ Matches r (c :: u) ∧ Matches s v) ∨
      (Matches r [] ∧ Matches s (c :: w)) := by
  rw [matches_seq]
  constructor
  · rintro ⟨u, v, huv, hr, hs⟩
    cases u with
    | nil =>
      right
      rw [List.nil_append] at huv
      exact ⟨hr, huv ▸ hs⟩
    | cons d u =>
      left
      rw [List.cons_append, List.cons.injEq] at huv
      obtain ⟨rfl, rfl⟩ := huv
      exact ⟨u, v, rfl, hr, hs⟩
  · rintro (⟨u, v, rfl, hr, hs⟩ | ⟨hr, hs⟩)
    · exact ⟨c :: u, v, rfl, hr, hs⟩
    · exact ⟨[], c :: w, rfl, hr, hs⟩

/-- The derivative has the rest of what begins with the character. -/
theorem deriv_iff : Matches (r.deriv c) w ↔ Matches r (c :: w) := by
  induction r generalizing w with
  | never => exact iff_of_false not_matches_never not_matches_never
  | eps => simp [deriv, not_matches_never, matches_eps]
  | one p =>
    rw [deriv, matches_one]
    split
    next hp =>
      rw [matches_eps]
      constructor
      · rintro rfl
        exact ⟨c, hp, rfl⟩
      · rintro ⟨d, _, hd⟩
        exact (List.cons.injEq .. ▸ hd).2
    next hp =>
      refine iff_of_false not_matches_never ?_
      rintro ⟨d, hd, hcd⟩
      rw [List.cons.injEq] at hcd
      exact hp (hcd.1 ▸ hd)
  | seq r s ihr ihs =>
    have hcat : Matches (cat (r.deriv c) s) w ↔
        ∃ u v, w = u ++ v ∧ Matches r (c :: u) ∧ Matches s v := by
      rw [matches_cat, matches_seq]
      simp only [ihr]
    rw [matches_seq_cons, ← nullable_iff, deriv]
    split
    next hn => rw [matches_either, matches_alt, hcat, ihs, and_iff_right hn]
    next hn =>
      rw [hcat]
      constructor
      · exact .inl
      · rintro (h | h)
        · exact h
        · exact absurd h.1 hn
  | alt r s ihr ihs => rw [deriv, matches_either, matches_alt, ihr, ihs, matches_alt]
  | star r ih =>
    rw [deriv, matches_cat, matches_seq, matches_star_cons]
    simp only [ih]

theorem run_iff : r.run w = true ↔ Matches r w := by
  induction w generalizing r with
  | nil => exact nullable_iff
  | cons c w ih => rw [run, ih, deriv_iff]

theorem test_iff {x : String} : r.test x = true ↔ Matches r x.toList := run_iff

/-! ## Runs of one class -/

section Runs

variable {m n : Nat}

theorem matches_ch : Matches (ch c) w ↔ w = [c] := by
  rw [ch, matches_one]
  constructor
  · intro ⟨d, hd, hw⟩
    rw [hw, beq_iff_eq.mp hd]
  · intro hw
    exact ⟨c, beq_self_eq_true c, hw⟩

/-- So many characters, each of the class. -/
theorem matches_times_one :
    Matches (times n (one p)) w ↔ w.length = n ∧ ∀ c ∈ w, p c = true := by
  induction n generalizing w with
  | zero =>
    rw [times, matches_eps, List.length_eq_zero_iff]
    constructor
    · intro h
      exact ⟨h, by simp [h]⟩
    · intro h
      exact h.1
  | succ n ih =>
    rw [times, matches_seq]
    constructor
    · intro ⟨u, v, hw, hu, hv⟩
      obtain ⟨c, hc, rfl⟩ := matches_one.mp hu
      obtain ⟨hlen, hall⟩ := ih.mp hv
      subst hw
      refine ⟨by simp [hlen], ?_⟩
      intro d hd
      rcases List.mem_cons.mp hd with rfl | hd
      · exact hc
      · exact hall d hd
    · intro ⟨hlen, hall⟩
      cases w with
      | nil => cases hlen
      | cons c w =>
        refine ⟨[c], w, rfl, .one (hall c List.mem_cons_self), ih.mpr ⟨?_, ?_⟩⟩
        · exact Nat.succ.inj hlen
        · intro d hd
          exact hall d (List.mem_cons_of_mem _ hd)

/-- Up to so many. -/
theorem matches_upTo_one :
    Matches (upTo n (one p)) w ↔ w.length ≤ n ∧ ∀ c ∈ w, p c = true := by
  induction n generalizing w with
  | zero =>
    rw [upTo, matches_eps, Nat.le_zero, List.length_eq_zero_iff]
    constructor
    · intro h
      exact ⟨h, by simp [h]⟩
    · intro h
      exact h.1
  | succ n ih =>
    rw [upTo, opt, matches_alt, matches_eps, matches_seq]
    constructor
    · intro h
      rcases h with rfl | ⟨u, v, hw, hu, hv⟩
      · exact ⟨Nat.zero_le _, by simp⟩
      · obtain ⟨c, hc, rfl⟩ := matches_one.mp hu
        obtain ⟨hlen, hall⟩ := ih.mp hv
        subst hw
        refine ⟨by simp; omega, ?_⟩
        intro d hd
        rcases List.mem_cons.mp hd with rfl | hd
        · exact hc
        · exact hall d hd
    · intro ⟨hlen, hall⟩
      cases w with
      | nil => exact .inl rfl
      | cons c w =>
        right
        refine ⟨[c], w, rfl, .one (hall c List.mem_cons_self), ih.mpr ⟨?_, ?_⟩⟩
        · exact Nat.le_of_succ_le_succ hlen
        · intro d hd
          exact hall d (List.mem_cons_of_mem _ hd)

/-- `[p]{m,n}`: between `m` and `n` characters of the class. -/
theorem matches_between_one (h : m ≤ n) :
    Matches (between m n (one p)) w ↔ m ≤ w.length ∧ w.length ≤ n ∧ ∀ c ∈ w, p c = true := by
  rw [between, matches_seq]
  constructor
  · intro ⟨u, v, hw, hu, hv⟩
    obtain ⟨hul, hua⟩ := matches_times_one.mp hu
    obtain ⟨hvl, hva⟩ := matches_upTo_one.mp hv
    subst hw
    rw [List.length_append]
    refine ⟨by omega, by omega, ?_⟩
    intro c hc
    rcases List.mem_append.mp hc with hc | hc
    · exact hua c hc
    · exact hva c hc
  · intro ⟨hml, hln, hall⟩
    refine ⟨w.take m, w.drop m, (List.take_append_drop m w).symm, matches_times_one.mpr ⟨?_, ?_⟩,
      matches_upTo_one.mpr ⟨?_, ?_⟩⟩
    · rw [List.length_take]
      omega
    · intro c hc
      exact hall c (List.mem_of_mem_take hc)
    · rw [List.length_drop]
      omega
    · intro c hc
      exact hall c (List.mem_of_mem_drop hc)

/-- `[p]*`: characters of the class. -/
theorem matches_star_one : Matches (star (one p)) w ↔ ∀ c ∈ w, p c = true := by
  induction w with
  | nil => exact iff_of_true .stop (by simp)
  | cons c w ih =>
    rw [matches_star_cons, List.forall_mem_cons, ← ih]
    constructor
    · intro ⟨u, v, hw, hu, hv⟩
      obtain ⟨d, hd, hcu⟩ := matches_one.mp hu
      rw [List.cons.injEq] at hcu
      obtain ⟨rfl, rfl⟩ := hcu
      subst hw
      exact ⟨hd, hv⟩
    · intro ⟨hc, hw⟩
      exact ⟨[], w, rfl, .one hc, hw⟩

/-- `[p]+`: the same, and at least one. -/
theorem matches_plus_one : Matches (plus (one p)) w ↔ w ≠ [] ∧ ∀ c ∈ w, p c = true := by
  rw [plus, matches_seq]
  constructor
  · intro ⟨u, v, hw, hu, hv⟩
    obtain ⟨c, hc, rfl⟩ := matches_one.mp hu
    rw [hw]
    refine ⟨by simp, ?_⟩
    intro d hd
    rcases List.mem_cons.mp hd with rfl | hd
    · exact hc
    · exact matches_star_one.mp hv d hd
  · intro ⟨hne, hall⟩
    cases w with
    | nil => exact absurd rfl hne
    | cons c w =>
      exact ⟨[c], w, rfl, .one (hall c List.mem_cons_self),
        matches_star_one.mpr fun d hd => hall d (List.mem_cons_of_mem c hd)⟩

end Runs

/-- A literal is described by itself alone. -/
theorem matches_lit {x : String} : Matches (lit x) w ↔ w = x.toList := by
  unfold lit
  induction x.toList generalizing w with
  | nil => exact matches_eps
  | cons c l ih =>
    rw [List.foldr_cons, matches_seq]
    constructor
    · intro ⟨u, v, hw, hu, hv⟩
      rw [hw, matches_ch.mp hu, ih.mp hv]
      rfl
    · intro hw
      exact ⟨[c], l, hw, matches_ch.mpr rfl, ih.mpr rfl⟩

theorem matches_rest : Matches rest w := matches_star_one.mpr fun _ _ => rfl

/-! ## Which characters get through -/

/-- Every class of the pattern lies in `p`. -/
def Within (p : Char → Bool) : Pattern → Prop
  | never => True
  | eps => True
  | one q => ∀ c, q c = true → p c = true
  | seq r s => r.Within p ∧ s.Within p
  | alt r s => r.Within p ∧ s.Within p
  | star r => r.Within p

theorem Matches.within (h : Matches r w) (hr : r.Within p) : ∀ c ∈ w, p c = true := by
  induction h with
  | eps => simp
  | one h => simpa using hr _ h
  | seq _ _ ihu ihv =>
    intro c hc
    rcases List.mem_append.mp hc with hc | hc
    · exact ihu hr.1 c hc
    · exact ihv hr.2 c hc
  | left _ ih => exact ih hr.1
  | right _ ih => exact ih hr.2
  | stop => simp
  | more _ _ ihu ihv =>
    intro c hc
    rcases List.mem_append.mp hc with hc | hc
    · exact ihu hr c hc
    · exact ihv hr c hc

theorem within_of_test {x : String} (h : r.test x = true) (hr : r.Within p) :
    ∀ c ∈ x.toList, p c = true :=
  (test_iff.mp h).within hr

section Within

variable {n m : Nat}

theorem within_ch (h : p c = true) : (ch c).Within p := by
  intro d hd
  rw [beq_iff_eq] at hd
  rw [hd]
  exact h

theorem within_times (h : r.Within p) : (times n r).Within p := by
  induction n with
  | zero => trivial
  | succ n ih => exact ⟨h, ih⟩

theorem within_upTo (h : r.Within p) : (upTo n r).Within p := by
  induction n with
  | zero => trivial
  | succ n ih => exact ⟨trivial, h, ih⟩

theorem within_between (h : r.Within p) : (between m n r).Within p :=
  ⟨within_times h, within_upTo h⟩

theorem within_plus (h : r.Within p) : (plus r).Within p := ⟨h, h⟩

end Within

/-- A word of `r s` with `r` one character wide starts with a character of `r`. -/
theorem head_of_test {x : String} (h : (seq (one p) s).test x = true) :
    ∃ c w, x.toList = c :: w ∧ p c = true := by
  obtain ⟨u, v, hx, hu, _⟩ := matches_seq.mp (test_iff.mp h)
  obtain ⟨c, hc, rfl⟩ := matches_one.mp hu
  exact ⟨c, v, hx, hc⟩

end Pattern

end Base
