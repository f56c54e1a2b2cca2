import Mathlib.Algebra.GroupWithZero.Nat
import Mathlib.Data.List.Basic

/-!
# UTF-8, and what is made of octets that are none

`decode` is the decoder of the Encoding Standard, octet by octet: within a character it
knows how many octets it has seen and needs, and between which bounds the next one is. An
octet that is out of bounds, and the end, puts a replacement character in place of what has
been seen, and the octet is looked at once more.

What was encoded is decoded (`decode_encode`). Nothing gets shorter by being decoded and
encoded again (`length_le_encode_decode`). And if octets are cut in two, either the parts are
decoded to the parts of the whole, or the character across the cut is decoded to a
replacement character before the cut, and at least one behind it (`decode_cut`).
-/

namespace Base.Utf8

/-- U+FFFD -/
def replacement : Char := '\uFFFD'

def encode (s : List Char) : List UInt8 := s.flatMap String.utf8EncodeChar

/-- Between characters, or within one. -/
inductive State where
  | start
  | within (seen needed lower upper code : Nat)
deriving DecidableEq

/-- The first octet of a character. -/
def first (b : Nat) : State × List Char :=
  if b ≤ 0x7F then (.start, [Char.ofNat b])
  else if 0xC2 ≤ b ∧ b ≤ 0xDF then (.within 1 1 0x80 0xBF (b - 0xC0), [])
  else if 0xE0 ≤ b ∧ b ≤ 0xEF then
    (.within 1 2 (if b = 0xE0 then 0xA0 else 0x80) (if b = 0xED then 0x9F else 0xBF) (b - 0xE0), [])
  else if 0xF0 ≤ b ∧ b ≤ 0xF4 then
    (.within 1 3 (if b = 0xF0 then 0x90 else 0x80) (if b = 0xF4 then 0x8F else 0xBF) (b - 0xF0), [])
  else (.start, [replacement])

/-- One octet. -/
def next (σ : State) (b : Nat) : State × List Char :=
  match σ with
  | .start => first b
  | .within seen needed lower upper code =>
    if lower ≤ b ∧ b ≤ upper then
      if needed = 1 then (.start, [Char.ofNat (code * 64 + (b - 0x80))])
      else (.within (seen + 1) (needed - 1) 0x80 0xBF (code * 64 + (b - 0x80)), [])
    else ((first b).1, replacement :: (first b).2)

/-- The end. -/
def flush : State → List Char
  | .start => []
  | .within .. => [replacement]

/-- The characters that a decoder still puts out, the end of the text included. -/
def run (σ : State) : List UInt8 → List Char
  | [] => flush σ
  | b :: bs => (next σ b.toNat).2 ++ run (next σ b.toNat).1 bs

/-- `TextDecoder`, which reads U+FFFD where octets are no UTF-8. -/
def decode (bs : List UInt8) : List Char := run .start bs

/-! ## Round trip -/

theorem run_ofNat {σ : State} {n : Nat} {bs : List UInt8} (h : n < 256) :
    run σ (UInt8.ofNat n :: bs) = (next σ n).2 ++ run (next σ n).1 bs := by
  have hn : (UInt8.ofNat n).toNat = n := by
    rw [UInt8.toNat_ofNat']
    exact Nat.mod_eq_of_lt h
  rw [run, hn]

section Octets

variable {b seen needed lower upper code : Nat}

theorem first_ascii (h : b ≤ 0x7F) : first b = (.start, [Char.ofNat b]) := if_pos h

theorem first_two (hl : 0xC2 ≤ b) (hu : b ≤ 0xDF) :
    first b = (.within 1 1 0x80 0xBF (b - 0xC0), []) := by
  unfold first
  rw [if_neg (by omega), if_pos ⟨hl, hu⟩]

theorem first_three (hl : 0xE0 ≤ b) (hu : b ≤ 0xEF) :
    first b = (.within 1 2 (if b = 0xE0 then 0xA0 else 0x80) (if b = 0xED then 0x9F else 0xBF)
      (b - 0xE0), []) := by
  unfold first
  rw [if_neg (by omega), if_neg (by omega), if_pos ⟨hl, hu⟩]

theorem first_four (hl : 0xF0 ≤ b) (hu : b ≤ 0xF4) :
    first b = (.within 1 3 (if b = 0xF0 then 0x90 else 0x80) (if b = 0xF4 then 0x8F else 0xBF)
      (b - 0xF0), []) := by
  unfold first
  rw [if_neg (by omega), if_neg (by omega), if_neg (by omega), if_pos ⟨hl, hu⟩]

theorem first_none (h : 0x7F < b) (h2 : ¬ (0xC2 ≤ b ∧ b ≤ 0xDF)) (h3 : ¬ (0xE0 ≤ b ∧ b ≤ 0xEF))
    (h4 : ¬ (0xF0 ≤ b ∧ b ≤ 0xF4)) : first b = (.start, [replacement]) := by
  unfold first
  rw [if_neg (by omega), if_neg h2, if_neg h3, if_neg h4]

theorem next_last (hl : lower ≤ b) (hu : b ≤ upper) :
    next (.within seen 1 lower upper code) b =
      (.start, [Char.ofNat (code * 64 + (b - 0x80))]) := by
  unfold next
  dsimp only
  rw [if_pos ⟨hl, hu⟩, if_pos rfl]

theorem next_more (hl : lower ≤ b) (hu : b ≤ upper) :
    next (.within seen (needed + 2) lower upper code) b =
      (.within (seen + 1) (needed + 1) 0x80 0xBF (code * 64 + (b - 0x80)), []) := by
  unfold next
  dsimp only
  rw [if_pos ⟨hl, hu⟩, if_neg (by omega)]
  rfl

theorem next_torn (h : ¬ (lower ≤ b ∧ b ≤ upper)) :
    next (.within seen needed lower upper code) b =
      ((first b).1, replacement :: (first b).2) := if_neg h

end Octets

/-- The octets of a character, by its code point. -/
theorem encodeChar_cases (c : Char) :
    (c.toNat ≤ 0x7F ∧ String.utf8EncodeChar c = [UInt8.ofNat c.toNat]) ∨
    (0x7F < c.toNat ∧ c.toNat ≤ 0x7FF ∧ String.utf8EncodeChar c =
      [UInt8.ofNat (c.toNat / 64 % 0x20 + 0xC0), UInt8.ofNat (c.toNat % 0x40 + 0x80)]) ∨
    (0x7FF < c.toNat ∧ c.toNat ≤ 0xFFFF ∧ String.utf8EncodeChar c =
      [UInt8.ofNat (c.toNat / 4096 % 0x10 + 0xE0), UInt8.ofNat (c.toNat / 64 % 0x40 + 0x80),
        UInt8.ofNat (c.toNat % 0x40 + 0x80)]) ∨
    (0xFFFF < c.toNat ∧ String.utf8EncodeChar c =
      [UInt8.ofNat (c.toNat / 262144 % 0x08 + 0xF0), UInt8.ofNat (c.toNat / 4096 % 0x40 + 0x80),
        UInt8.ofNat (c.toNat / 64 % 0x40 + 0x80), UInt8.ofNat (c.toNat % 0x40 + 0x80)]) := by
  unfold String.utf8EncodeChar
  rw [Char.toNat_val]
  dsimp only
  split
  next h => exact .inl ⟨h, rfl⟩
  next h =>
    split
    next h' => exact .inr (.inl ⟨by omega, h', rfl⟩)
    next h' =>
      split
      next h'' => exact .inr (.inr (.inl ⟨by omega, h'', rfl⟩))
      next h'' => exact .inr (.inr (.inr ⟨by omega, rfl⟩))

/-- A code point is that of a character. -/
theorem code_of_char (c : Char) : c.toNat < 0xD800 ∨ 0xDFFF < c.toNat ∧ c.toNat < 0x110000 := c.valid

/-- An encoded character is decoded, whatever comes behind it. -/
theorem run_encodeChar (c : Char) (bs : List UInt8) :
    run .start (String.utf8EncodeChar c ++ bs) = c :: run .start bs := by
  have hcode := code_of_char c
  have hc : ∀ n, n = c.toNat → [Char.ofNat n] ++ run .start bs = c :: run .start bs := by
    intro n hn
    rw [hn, Char.ofNat_toNat]
    rfl
  rcases encodeChar_cases c with ⟨h, henc⟩ | ⟨hl, hu, henc⟩ | ⟨hl, hu, henc⟩ | ⟨hl, henc⟩
  · rw [henc, List.singleton_append, run_ofNat (by omega)]
    show (first c.toNat).2 ++ run (first c.toNat).1 bs = _
    rw [first_ascii h]
    exact hc _ rfl
  · rw [henc, List.cons_append, run_ofNat (by omega), List.singleton_append]
    show (first _).2 ++ run (first _).1 _ = _
    rw [first_two (by omega) (by omega), run_ofNat (by omega), next_last (by omega) (by omega)]
    exact hc _ (by omega)
  · rw [henc, List.cons_append, run_ofNat (by omega)]
    show (first _).2 ++ run (first _).1 _ = _
    rw [first_three (by omega) (by omega), List.cons_append, run_ofNat (by omega),
      next_more (by split <;> omega) (by split <;> omega), List.singleton_append,
      run_ofNat (by omega), next_last (by omega) (by omega)]
    exact hc _ (by omega)
  · rw [henc, List.cons_append, run_ofNat (by omega)]
    show (first _).2 ++ run (first _).1 _ = _
    rw [first_four (by omega) (by omega), List.cons_append, run_ofNat (by omega),
      next_more (by split <;> omega) (by split <;> omega), List.cons_append,
      run_ofNat (by omega), next_more (by omega) (by omega), List.singleton_append,
      run_ofNat (by omega), next_last (by omega) (by omega)]
    exact hc _ (by omega)

/-- **Round trip.** -/
theorem decode_encode (s : List Char) : decode (encode s) = s := by
  unfold decode encode
  induction s with
  | nil => rfl
  | cons c s ih => rw [List.flatMap_cons, run_encodeChar, ih]

/-! ## Lengths -/

theorem encode_append (s t : List Char) : encode (s ++ t) = encode s ++ encode t :=
  List.flatMap_append

theorem toNat_ofNat {n : Nat} (h : n < 0xD800 ∨ 0xDFFF < n ∧ n < 0x110000) :
    (Char.ofNat n).toNat = n := by
  have hvalid : n.isValidChar := h
  unfold Char.ofNat
  rw [dif_pos hvalid]
  rfl

/-- What is left of a character makes one of its length, and none that is a line's end. -/
def Fit : State → Prop
  | .start => True
  | .within seen needed lower upper code => ∃ total, seen + needed = total ∧ (
    (total = 2 ∧ seen = 1 ∧ lower = 0x80 ∧ upper = 0xBF ∧ 2 ≤ code ∧ code ≤ 31) ∨
    (total = 3 ∧ seen = 1 ∧ code ≤ 15 ∧ lower = (if code = 0 then 0xA0 else 0x80) ∧
      upper = (if code = 13 then 0x9F else 0xBF)) ∨
    (total = 3 ∧ seen = 2 ∧ lower = 0x80 ∧ upper = 0xBF ∧ 32 ≤ code ∧
      (code < 864 ∨ 895 < code ∧ code < 1024)) ∨
    (total = 4 ∧ seen = 1 ∧ code ≤ 4 ∧ lower = (if code = 0 then 0x90 else 0x80) ∧
      upper = (if code = 4 then 0x8F else 0xBF)) ∨
    (total = 4 ∧ seen = 2 ∧ lower = 0x80 ∧ upper = 0xBF ∧ 16 ≤ code ∧ code < 272) ∨
    (total = 4 ∧ seen = 3 ∧ lower = 0x80 ∧ upper = 0xBF ∧ 1024 ≤ code ∧ code < 17408))

/-- The octets of a character that have been seen. -/
def State.held : State → Nat
  | .start => 0
  | .within seen .. => seen

section Lengths

variable {σ : State} {b n : Nat} {bs : List UInt8}

theorem length_encode_ofNat (h : n < 0xD800 ∨ 0xDFFF < n ∧ n < 0x110000) :
    (encode [Char.ofNat n]).length =
      if n ≤ 0x7F then 1 else if n ≤ 0x7FF then 2 else if n ≤ 0xFFFF then 3 else 4 := by
  have hn := toNat_ofNat h
  rw [show encode [Char.ofNat n] = String.utf8EncodeChar (Char.ofNat n) from List.append_nil _]
  rcases encodeChar_cases (Char.ofNat n) with ⟨h, henc⟩ | ⟨hl, hu, henc⟩ | ⟨hl, hu, henc⟩ | ⟨hl, henc⟩ <;>
  · rw [henc]
    rw [hn] at *
    split_ifs <;> first | rfl | omega

theorem length_encode_cons (c : Char) (s : List Char) :
    (encode (c :: s)).length = (encode [c]).length + (encode s).length := by
  rw [← List.length_append, ← encode_append]
  rfl

theorem length_replacement : (encode [replacement]).length = 3 := by decide

/-- The first octet of a character is kept, or makes at least one. -/
theorem fit_first : Fit (first b).1 ∧ 1 ≤ (encode (first b).2).length + (first b).1.held := by
  by_cases h1 : b ≤ 0x7F
  · rw [first_ascii h1, length_encode_ofNat (by omega), if_pos h1]
    exact ⟨trivial, Nat.le_refl _⟩
  by_cases h2 : 0xC2 ≤ b ∧ b ≤ 0xDF
  · rw [first_two h2.1 h2.2]
    exact ⟨⟨2, rfl, .inl (by omega)⟩, Nat.le_refl _⟩
  by_cases h3 : 0xE0 ≤ b ∧ b ≤ 0xEF
  · rw [first_three h3.1 h3.2]
    refine ⟨⟨3, rfl, .inr (.inl ⟨rfl, rfl, by omega, ?_, ?_⟩)⟩, Nat.le_refl _⟩
    · exact if_congr (by omega) rfl rfl
    · exact if_congr (by omega) rfl rfl
  by_cases h4 : 0xF0 ≤ b ∧ b ≤ 0xF4
  · rw [first_four h4.1 h4.2]
    refine ⟨⟨4, rfl, .inr (.inr (.inr (.inl ⟨rfl, rfl, by omega, ?_, ?_⟩)))⟩, Nat.le_refl _⟩
    · exact if_congr (by omega) rfl rfl
    · exact if_congr (by omega) rfl rfl
  · rw [first_none (by omega) h2 h3 h4, length_replacement]
    exact ⟨trivial, by omega⟩

/-- **Step lemma.** An octet more is kept, or makes what it is a part of. -/
theorem fit_next (h : Fit σ) : Fit (next σ b).1 ∧
    σ.held + 1 ≤ (encode (next σ b).2).length + (next σ b).1.held := by
  cases σ with
  | start => exact fit_first
  | within seen needed lower upper code =>
    obtain ⟨total, htotal, h⟩ := h
    by_cases hb : lower ≤ b ∧ b ≤ upper
    · obtain ⟨hl, hu⟩ := hb
      rcases h with ⟨rfl, rfl, rfl, rfl, h⟩ | ⟨rfl, rfl, h, rfl, rfl⟩ | ⟨rfl, rfl, rfl, rfl, h⟩ |
        ⟨rfl, rfl, h, rfl, rfl⟩ | ⟨rfl, rfl, rfl, rfl, h⟩ | ⟨rfl, rfl, rfl, rfl, h⟩
      · obtain rfl : needed = 1 := by omega
        rw [next_last hl hu, length_encode_ofNat (by omega)]
        refine ⟨trivial, ?_⟩
        rw [if_neg (by omega), if_pos (by omega)]
        exact Nat.le_refl _
      · obtain rfl : needed = 0 + 2 := by omega
        rw [next_more hl hu]
        refine ⟨⟨3, rfl, .inr (.inr (.inl ⟨rfl, rfl, rfl, rfl, ?_, ?_⟩))⟩, Nat.le_refl _⟩
        · split_ifs at hl <;> omega
        · split_ifs at hu <;> omega
      · obtain rfl : needed = 1 := by omega
        rw [next_last hl hu, length_encode_ofNat (by omega)]
        refine ⟨trivial, ?_⟩
        rw [if_neg (by omega), if_neg (by omega), if_pos (by omega)]
        exact Nat.le_refl _
      · obtain rfl : needed = 1 + 2 := by omega
        rw [next_more hl hu]
        refine ⟨⟨4, rfl, .inr (.inr (.inr (.inr (.inl ⟨rfl, rfl, rfl, rfl, ?_, ?_⟩))))⟩, Nat.le_refl _⟩
        · split_ifs at hl <;> omega
        · split_ifs at hu <;> omega
      · obtain rfl : needed = 0 + 2 := by omega
        rw [next_more hl hu]
        exact ⟨⟨4, rfl, .inr (.inr (.inr (.inr (.inr ⟨rfl, rfl, rfl, rfl, by omega, by omega⟩))))⟩,
          Nat.le_refl _⟩
      · obtain rfl : needed = 1 := by omega
        rw [next_last hl hu, length_encode_ofNat (by omega)]
        refine ⟨trivial, ?_⟩
        rw [if_neg (by omega), if_neg (by omega), if_neg (by omega)]
        exact Nat.le_refl _
    · rw [next_torn hb]
      obtain ⟨hfit, hfirst⟩ := @fit_first b
      refine ⟨hfit, ?_⟩
      have hseen : seen ≤ 3 := by omega
      show seen + 1 ≤ (encode (replacement :: (first b).2)).length + (first b).1.held
      rw [length_encode_cons, length_replacement]
      omega

theorem length_run (h : Fit σ) : bs.length + σ.held ≤ (encode (run σ bs)).length := by
  induction bs generalizing σ with
  | nil =>
    cases σ with
    | start => exact Nat.le_refl _
    | within seen needed lower upper code =>
      obtain ⟨total, htotal, h⟩ := h
      show 0 + seen ≤ (encode [replacement]).length
      rw [length_replacement]
      omega
  | cons b bs ih =>
    obtain ⟨hfit, hlength⟩ := @fit_next σ b.toNat h
    have hrest := ih hfit
    rw [run, encode_append, List.length_append, List.length_cons]
    omega

/-- **Nothing gets shorter.** -/
theorem length_le_encode_decode (bs : List UInt8) :
    bs.length ≤ (encode (decode bs)).length := @length_run .start bs trivial

end Lengths

/-! ## A cut -/

/-- Where the decoder is after some octets, and what it has made by then. -/
def after (σ : State) : List UInt8 → State
  | [] => σ
  | b :: bs => after (next σ b.toNat).1 bs

/-- The same without what is put out at the end. -/
def out (σ : State) : List UInt8 → List Char
  | [] => []
  | b :: bs => (next σ b.toNat).2 ++ out (next σ b.toNat).1 bs

section Cut

variable {σ : State} {seen needed lower upper code : Nat}

theorem run_append (a b : List UInt8) : run σ (a ++ b) = out σ a ++ run (after σ a) b := by
  induction a generalizing σ with
  | nil => rfl
  | cons x a ih => rw [List.cons_append, run, ih, out, after, List.append_assoc]

theorem run_eq (a : List UInt8) : run σ a = out σ a ++ flush (after σ a) := by
  rw [← List.append_nil a, run_append, List.append_nil]
  rfl

theorem fit_after (h : Fit σ) (a : List UInt8) : Fit (after σ a) := by
  induction a generalizing σ with
  | nil => exact h
  | cons x a ih => exact ih (fit_next h).1

/-- What a character goes on with is nothing that one begins with. -/
theorem Fit.bounds (h : Fit (.within seen needed lower upper code)) :
    0x80 ≤ lower ∧ upper ≤ 0xBF ∧ 0 < needed ∧ (needed = 1 → 2 ≤ code) := by
  obtain ⟨total, htotal, h⟩ := h
  rcases h with h | ⟨ht, hs, -, rfl, rfl⟩ | h | ⟨ht, hs, -, rfl, rfl⟩ | h | h
  · omega
  · exact ⟨by split_ifs <;> omega, by split_ifs <;> omega, by omega, by omega⟩
  · omega
  · exact ⟨by split_ifs <;> omega, by split_ifs <;> omega, by omega, by omega⟩
  · omega
  · omega

theorem ofNat_ne_newline {n : Nat} (h : 0x80 ≤ n) : Char.ofNat n ≠ '\n' := by
  intro heq
  by_cases hvalid : n < 0xD800 ∨ 0xDFFF < n ∧ n < 0x110000
  · have hn := toNat_ofNat hvalid
    rw [heq] at hn
    have : ('\n' : Char).toNat = 10 := rfl
    omega
  · have hnone : Char.ofNat n = Char.ofNat 0 := by
      have hinvalid : ¬ n.isValidChar := hvalid
      unfold Char.ofNat
      rw [dif_neg hinvalid]
      rfl
    rw [hnone] at heq
    exact absurd heq (by decide)

/-- What comes behind the first part of a character: it is no part of it, or it is torn. -/
theorem run_within (h : Fit σ) (hσ : σ ≠ .start) (bs : List UInt8) :
    run σ bs = replacement :: run .start bs ∨ ∃ c n v, c ≠ '\n' ∧ run σ bs = c :: v ∧
      run .start bs = List.replicate (n + 1) replacement ++ v := by
  induction bs generalizing σ with
  | nil =>
    cases σ with
    | start => exact absurd rfl hσ
    | within => exact .inl rfl
  | cons b bs ih =>
    cases σ with
    | start => exact absurd rfl hσ
    | within seen needed lower upper code =>
      obtain ⟨hlower, hupper, hneeded, hcode⟩ := h.bounds
      by_cases hb : lower ≤ b.toNat ∧ b.toNat ≤ upper
      · right
        have hfirst : run .start (b :: bs) = replacement :: run .start bs := by
          rw [run]
          show (first b.toNat).2 ++ run (first b.toNat).1 bs = _
          rw [first_none (by omega) (by omega) (by omega) (by omega)]
          rfl
        by_cases hlast : needed = 1
        · -- the last octet of the character
          subst hlast
          refine ⟨Char.ofNat (code * 64 + (b.toNat - 0x80)), 0, run .start bs,
            ofNat_ne_newline ?_, ?_, hfirst⟩
          · have := hcode rfl
            omega
          · rw [run, next_last hb.1 hb.2]
            rfl
        · obtain ⟨k, rfl⟩ : ∃ k, needed = k + 2 := ⟨needed - 2, by omega⟩
          have hnext := @next_more b.toNat seen k lower upper code hb.1 hb.2
          have hfit := (@fit_next _ b.toNat h).1
          rw [run, hnext, hfirst]
          rw [hnext] at hfit
          rcases ih hfit nofun with hclean | ⟨c, n, v, hc, hrun, hstart⟩
          · exact ⟨replacement, 0, run .start bs, by decide, hclean, rfl⟩
          · refine ⟨c, n + 1, v, hc, hrun, ?_⟩
            rw [hstart]
            rfl
      · left
        rw [run, next_torn hb]
        rfl

/-- **A cut** through octets: between two characters, or through one. -/
theorem decode_cut (a b : List UInt8) : decode (a ++ b) = decode a ++ decode b ∨
    ∃ u c n v, c ≠ '\n' ∧ decode (a ++ b) = u ++ c :: v ∧ decode a = u ++ [replacement] ∧
      decode b = List.replicate (n + 1) replacement ++ v := by
  unfold decode
  rw [run_append, run_eq a]
  have hfit : Fit (after .start a) := @fit_after .start trivial a
  cases hσ : after .start a with
  | start =>
    left
    rw [show flush .start = [] from rfl, List.append_nil]
  | within =>
    rw [hσ] at hfit
    rcases run_within hfit nofun b with hclean | ⟨c, n, v, hc, hrun, hstart⟩
    · left
      rw [hclean, List.append_assoc]
      rfl
    · exact .inr ⟨_, c, n, v, hc, by rw [hrun], rfl, hstart⟩

end Cut

end Base.Utf8
