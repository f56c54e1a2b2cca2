import CloudWai.Base.Pattern

/-!
# IPv4 addresses and blocks

An address is four octets, a block an address with the length of a prefix.
`Address` and `Block` carry their bounds, so a text denotes one exactly if
`Address.read` or `Block.read` answers; there is nothing to check afterwards.

Between a text and what it denotes stand the numbers it is written with: `quad`
reads four numerals of at most three digits, whatever they come to, and
`slashed` a quad with a numeral of at most two digits behind a slash. A pattern
that counts digits, `quadPattern` or `slashedPattern`, sees no more than that
(`quadPattern_iff`, `slashedPattern_iff`); the numbers' sizes are what it misses
(`address_iff`, `block_iff`).
-/

namespace Base

namespace Ipv4

open Pattern

/-- `\d` -/
def digit (c : Char) : Bool := '0' ≤ c && c ≤ '9'

/-- What a string of digits stands for. -/
def decimal (w : List Char) : Nat := w.foldl (fun n c => 10 * n + (c.toNat - '0'.toNat)) 0

/-- A numeral of at most `n` digits. -/
def numeral (n : Nat) (w : List Char) : Option Nat :=
  if 1 ≤ w.length ∧ w.length ≤ n ∧ w.all digit then some (decimal w) else none

/-- Four numerals with dots between them. -/
def quad (w : List Char) : Option (List Nat) :=
  if (w.splitOn '.').length = 4 then (w.splitOn '.').mapM (numeral 3) else none

/-- A quad and a numeral with a slash between them. -/
def slashed (w : List Char) : Option (List Nat × Nat) :=
  match w.splitOn '/' with
  | [a, n] => (quad a).bind fun q => (numeral 2 n).map fun k => (q, k)
  | _ => none

/-- Four octets. -/
structure Address where
  octets : List Nat
  four : octets.length = 4
  bounded : ∀ n ∈ octets, n ≤ 255

/-- An address with the length of its prefix. -/
structure Block where
  address : Address
  prefixLength : Nat
  bounded : prefixLength ≤ 32

/-- The address of four numbers, if they are octets. -/
def Address.ofQuad (q : List Nat) : Option Address :=
  if h : q.length = 4 ∧ ∀ n ∈ q, n ≤ 255 then some ⟨q, h.1, h.2⟩ else none

/-- The address a text denotes. -/
def Address.read (w : List Char) : Option Address := (quad w).bind Address.ofQuad

/-- The block a text denotes. -/
def Block.read (w : List Char) : Option Block :=
  (slashed w).bind fun (q, k) =>
    (Address.ofQuad q).bind fun a => if h : k ≤ 32 then some ⟨a, k, h⟩ else none

example : (Address.read "203.0.113.9".toList).map (·.octets) = some [203, 0, 113, 9] := by decide

/-! ## What a pattern sees -/

/-- `(\d{1,3}\.){3}\d{1,3}` -/
def quadPattern : Pattern :=
  seq (times 3 (seq (between 1 3 (one digit)) (ch '.'))) (between 1 3 (one digit))

/-- `(\d{1,3}\.){3}\d{1,3}/\d{1,2}` -/
def slashedPattern : Pattern := seq quadPattern (seq (ch '/') (between 1 2 (one digit)))

variable {w : List Char} {n : Nat}

theorem numeral_isSome : (numeral n w).isSome = true ↔
    1 ≤ w.length ∧ w.length ≤ n ∧ ∀ c ∈ w, digit c = true := by
  unfold numeral
  split
  next h => simpa using h
  next h => simpa using h

theorem numeral_iff_matches (h : 1 ≤ n) :
    (numeral n w).isSome = true ↔ Matches (between 1 n (one digit)) w := by
  rw [matches_between_one h, numeral_isSome]

/-- A numeral has neither dots nor slashes. -/
theorem not_mem_of_numeral (h : (numeral n w).isSome = true) {c : Char} (hc : digit c = false) :
    c ∉ w := by
  intro hmem
  have := (numeral_isSome.mp h).2.2 c hmem
  rw [hc] at this
  cases this

/-- A quad written out. -/
theorem quad_isSome : (quad w).isSome = true ↔ ∃ a b c d : List Char,
    w = a ++ '.' :: (b ++ '.' :: (c ++ '.' :: d)) ∧ (numeral 3 a).isSome = true ∧
      (numeral 3 b).isSome = true ∧ (numeral 3 c).isSome = true ∧ (numeral 3 d).isSome = true := by
  constructor
  · intro h
    unfold quad at h
    split at h
    next hlen =>
      obtain ⟨a, b, c, d, hparts⟩ := List.length_eq_four.mp hlen
      have hw : ['.'].intercalate (w.splitOn '.') = w := List.intercalate_splitOn '.'
      rw [hparts] at hw h
      refine ⟨a, b, c, d, ?_, ?_⟩
      · rw [← hw]
        simp
      · cases ha : numeral 3 a <;> cases hb : numeral 3 b <;> cases hc : numeral 3 c <;>
          cases hd : numeral 3 d <;> simp_all
    next => cases h
  · intro ⟨a, b, c, d, hw, ha, hb, hc, hd⟩
    have hparts : w.splitOn '.' = [a, b, c, d] := by
      rw [hw, List.splitOn_append_cons_self_of_not_mem (not_mem_of_numeral ha rfl),
        List.splitOn_append_cons_self_of_not_mem (not_mem_of_numeral hb rfl),
        List.splitOn_append_cons_self_of_not_mem (not_mem_of_numeral hc rfl),
        List.splitOn_eq_singleton (not_mem_of_numeral hd rfl)]
    obtain ⟨na, ha⟩ := Option.isSome_iff_exists.mp ha
    obtain ⟨nb, hb⟩ := Option.isSome_iff_exists.mp hb
    obtain ⟨nc, hc⟩ := Option.isSome_iff_exists.mp hc
    obtain ⟨nd, hd⟩ := Option.isSome_iff_exists.mp hd
    simp [quad, hparts, ha, hb, hc, hd]

/-- Digits and dots, and nothing else. -/
theorem chars_of_quad (h : (quad w).isSome = true) : ∀ c ∈ w, digit c = true ∨ c = '.' := by
  obtain ⟨a, b, c, d, hw, ha, hb, hc, hd⟩ := quad_isSome.mp h
  have hdigits : ∀ {v : List Char}, (numeral 3 v).isSome = true → ∀ x ∈ v, digit x = true :=
    fun hv => (numeral_isSome.mp hv).2.2
  intro x hx
  rw [hw] at hx
  simp only [List.mem_append, List.mem_cons] at hx
  rcases hx with hx | hx | hx | hx | hx | hx | hx
  · exact .inl (hdigits ha x hx)
  · exact .inr hx
  · exact .inl (hdigits hb x hx)
  · exact .inr hx
  · exact .inl (hdigits hc x hx)
  · exact .inr hx
  · exact .inl (hdigits hd x hx)

theorem slash_of_quad (h : (quad w).isSome = true) : '/' ∉ w := by
  intro hmem
  have := chars_of_quad h _ hmem
  revert this
  decide

/-- A block written out. -/
theorem slashed_isSome : (slashed w).isSome = true ↔ ∃ a n : List Char,
    w = a ++ '/' :: n ∧ (quad a).isSome = true ∧ (numeral 2 n).isSome = true := by
  constructor
  · intro h
    unfold slashed at h
    split at h
    next a n hparts =>
      have hw : ['/'].intercalate (w.splitOn '/') = w := List.intercalate_splitOn '/'
      rw [hparts] at hw
      refine ⟨a, n, ?_, ?_⟩
      · rw [← hw]
        simp
      · cases ha : quad a <;> cases hn : numeral 2 n <;> simp_all
    next => cases h
  · intro ⟨a, n, hw, ha, hn⟩
    have hparts : w.splitOn '/' = [a, n] := by
      rw [hw, List.splitOn_append_cons_self_of_not_mem (slash_of_quad ha),
        List.splitOn_eq_singleton (not_mem_of_numeral hn rfl)]
    obtain ⟨q, ha⟩ := Option.isSome_iff_exists.mp ha
    obtain ⟨k, hn⟩ := Option.isSome_iff_exists.mp hn
    simp [slashed, hparts, ha, hn]

/-- Digits, dots and the slash. -/
theorem chars_of_slashed (h : (slashed w).isSome = true) :
    ∀ c ∈ w, digit c = true ∨ c = '.' ∨ c = '/' := by
  obtain ⟨a, n, hw, ha, hn⟩ := slashed_isSome.mp h
  intro x hx
  rw [hw, List.mem_append, List.mem_cons] at hx
  rcases hx with hx | hx | hx
  · exact (chars_of_quad ha x hx).imp_right .inl
  · exact .inr (.inr hx)
  · exact .inl ((numeral_isSome.mp hn).2.2 x hx)

theorem slash_of_slashed (h : (slashed w).isSome = true) : '/' ∈ w := by
  obtain ⟨a, n, hw, _⟩ := slashed_isSome.mp h
  rw [hw]
  simp

/-- The pattern has exactly what can be split into four numbers of up to three digits. -/
theorem quadPattern_iff : Matches quadPattern w ↔ (quad w).isSome = true := by
  have hpart : ∀ u, Matches (seq (between 1 3 (one digit)) (ch '.')) u ↔
      ∃ a, u = a ++ ['.'] ∧ (numeral 3 a).isSome = true := by
    intro u
    simp only [matches_seq, matches_ch, numeral_iff_matches (show 1 ≤ 3 by omega)]
    constructor
    · intro h
      obtain ⟨a, v, hu, ha, hv⟩ := h
      exact ⟨a, hv ▸ hu, ha⟩
    · intro h
      obtain ⟨a, hu, ha⟩ := h
      exact ⟨a, ['.'], hu, ha, rfl⟩
  rw [quad_isSome, quadPattern, matches_seq]
  simp only [times, matches_seq, matches_eps, hpart, ← numeral_iff_matches (show 1 ≤ 3 by omega)]
  constructor
  · intro h
    obtain ⟨u, d, hw, ⟨_, _, hu, ⟨a, rfl, ha⟩, _, _, rfl, ⟨b, rfl, hb⟩, _, _, rfl, ⟨c, rfl, hc⟩,
      rfl⟩, hd⟩ := h
    refine ⟨a, b, c, d, ?_, ha, hb, hc, hd⟩
    rw [hw, hu]
    simp
  · intro h
    obtain ⟨a, b, c, d, hw, ha, hb, hc, hd⟩ := h
    refine ⟨(a ++ ['.']) ++ ((b ++ ['.']) ++ ((c ++ ['.']) ++ [])), d, ?_,
      ⟨a ++ ['.'], _, rfl, ⟨a, rfl, ha⟩, b ++ ['.'], _, rfl, ⟨b, rfl, hb⟩, c ++ ['.'], [], rfl,
        ⟨c, rfl, hc⟩, rfl⟩, hd⟩
    rw [hw]
    simp

theorem slashedPattern_iff : Matches slashedPattern w ↔ (slashed w).isSome = true := by
  rw [slashed_isSome, slashedPattern, matches_seq]
  simp only [matches_seq, matches_ch, quadPattern_iff,
    ← numeral_iff_matches (show 1 ≤ 2 by omega)]
  constructor
  · intro ⟨a, v, hw, ha, _, n, hv, rfl, hn⟩
    exact ⟨a, n, by rw [hw, hv]; rfl, ha, hn⟩
  · intro ⟨a, n, hw, ha, hn⟩
    exact ⟨a, '/' :: n, hw, ha, ['/'], n, rfl, rfl, hn⟩

/-! ## What it misses -/

theorem ofQuad_isSome {q : List Nat} :
    (Address.ofQuad q).isSome = true ↔ q.length = 4 ∧ ∀ n ∈ q, n ≤ 255 := by
  unfold Address.ofQuad
  split
  next h => exact iff_of_true rfl h
  next h => exact iff_of_false (by simp) h

theorem length_of_quad {q : List Nat} (h : quad w = some q) : q.length = 4 := by
  unfold quad at h
  split at h
  next hlen =>
    obtain ⟨a, b, c, d, hparts⟩ := List.length_eq_four.mp hlen
    rw [hparts] at h
    cases ha : numeral 3 a <;> cases hb : numeral 3 b <;> cases hc : numeral 3 c <;>
      cases hd : numeral 3 d <;> simp_all
    rw [← h]
    rfl
  next => cases h

/-- The octets are what the parts between the dots stand for. -/
theorem octets_of_read {a : Address} (h : Address.read w = some a) :
    (w.splitOn '.').mapM (numeral 3) = some a.octets := by
  obtain ⟨q, hq, ha⟩ := Option.bind_eq_some_iff.mp h
  have hoctets : a.octets = q := by
    unfold Address.ofQuad at ha
    split at ha
    · cases ha
      rfl
    · cases ha
  rw [hoctets]
  unfold quad at hq
  split at hq
  · exact hq
  · cases hq

/-- A text denotes an address if it is a quad of octets. -/
theorem address_iff : (Address.read w).isSome = true ↔
    ∃ q, quad w = some q ∧ ∀ n ∈ q, n ≤ 255 := by
  unfold Address.read
  cases hq : quad w with
  | none => simp
  | some q =>
    rw [Option.bind_some, ofQuad_isSome]
    constructor
    · intro h
      exact ⟨q, rfl, h.2⟩
    · intro ⟨q', hq', h⟩
      cases hq'
      exact ⟨length_of_quad hq, h⟩

theorem quad_of_slashed {q : List Nat} {k : Nat} (h : slashed w = some (q, k)) : q.length = 4 := by
  unfold slashed at h
  split at h
  next a n _ =>
    cases ha : quad a with
    | none => simp [ha] at h
    | some q' =>
      simp only [ha, Option.bind_some, Option.map_eq_some_iff] at h
      obtain ⟨_, _, hq⟩ := h
      cases hq
      exact length_of_quad ha
  next => cases h

/-- A block is written like one, with numbers that are not too large. -/
theorem block_iff : (Block.read w).isSome = true ↔
    ∃ q k, slashed w = some (q, k) ∧ (∀ n ∈ q, n ≤ 255) ∧ k ≤ 32 := by
  unfold Block.read
  cases hs : slashed w with
  | none => simp
  | some s =>
    obtain ⟨q, k⟩ := s
    have hlen := quad_of_slashed hs
    rw [Option.bind_some]
    dsimp only
    constructor
    · intro h
      cases ha : Address.ofQuad q with
      | none => simp [ha] at h
      | some a =>
        have hsome : (Address.ofQuad q).isSome = true := by rw [ha]; rfl
        refine ⟨q, k, rfl, (ofQuad_isSome.mp hsome).2, ?_⟩
        by_contra hk
        simp [ha, hk] at h
    · intro ⟨q', k', hs', hq, hk⟩
      cases hs'
      obtain ⟨a, ha⟩ := Option.isSome_iff_exists.mp (ofQuad_isSome.mpr ⟨hlen, hq⟩)
      simp [ha, hk]

end Ipv4

end Base
