import Mathlib.Data.List.Basic

/-!
# Hexadecimal, read leniently

Bytes as pairs of digits. The reader takes digits of either case and stops, without a
complaint, before the first pair that is not two digits. So many texts are read as the
same bytes, and `decode_eq_iff` says which: those that begin with the bytes' digits.
-/

namespace Base

namespace Hex

/-- What a digit of either case stands for. -/
def value (c : Char) : Option Nat :=
  let n := c.toNat
  if 48 ≤ n ∧ n ≤ 57 then some (n - 48)
  else if 97 ≤ n ∧ n ≤ 102 then some (n - 87)
  else if 65 ≤ n ∧ n ≤ 70 then some (n - 55)
  else none

def digit (n : Nat) : Char := if n < 10 then Char.ofNat (48 + n) else Char.ofNat (87 + n)

/-- Two digits for each byte. -/
def encode : List UInt8 → List Char
  | [] => []
  | b :: bytes => digit (b.toNat / 16) :: digit (b.toNat % 16) :: encode bytes

/-- What is read of a text; it ends where two digits do not follow. -/
def decode : List Char → List UInt8
  | a :: b :: rest =>
    match value a, value b with
    | some x, some y => UInt8.ofNat (16 * x + y) :: decode rest
    | _, _ => []
  | _ => []

theorem value_digit {n : Nat} (h : n < 16) : value (digit n) = some n := by
  have hall : ∀ n < 16, value (digit n) = some n := by decide
  exact hall n h

theorem value_lt {c : Char} {n : Nat} (h : value c = some n) : n < 16 := by
  unfold value at h
  dsimp only at h
  split at h
  · have := Option.some.inj h
    omega
  · split at h
    · have := Option.some.inj h
      omega
    · split at h
      · have := Option.some.inj h
        omega
      · cases h

/-- Lower case has the same digits. -/
theorem value_toLower (c : Char) : value c.toLower = value c := by
  by_cases hupper : c.val ≥ 'A'.val ∧ c.val ≤ 'Z'.val
  · have hall : ∀ n < 91, 65 ≤ n → value (Char.ofNat n).toLower = value (Char.ofNat n) := by decide
    have hc : Char.ofNat c.toNat = c := Char.ofNat_toNat c
    rw [← hc]
    have hlow : 65 ≤ c.toNat := UInt32.le_iff_toNat_le.mp hupper.1
    have hhigh : c.toNat ≤ 90 := UInt32.le_iff_toNat_le.mp hupper.2
    exact hall c.toNat (by omega) hlow
  · unfold Char.toLower
    rw [dif_neg hupper]

theorem decode_map_toLower (cs : List Char) : decode (cs.map Char.toLower) = decode cs := by
  induction cs using decode.induct with
  | case1 a b rest x y hx hy ih =>
    simp only [List.map_cons, decode, value_toLower, hx, hy, ih]
  | case2 a b rest h =>
    simp only [List.map_cons, decode, value_toLower]
  | case3 cs h =>
    match cs with
    | [] => rfl
    | [c] => rfl
    | a :: b :: rest => exact absurd rfl (h a b rest)

/-- The two digits of a byte, and no others, are read as it. -/
theorem pair_eq_iff {x y : Nat} {b : UInt8} (hx : x < 16) (hy : y < 16) :
    UInt8.ofNat (16 * x + y) = b ↔ x = b.toNat / 16 ∧ y = b.toNat % 16 := by
  have hb : b.toNat < 256 := b.toNat_lt
  constructor
  · rintro rfl
    have hlt : 16 * x + y < UInt8.size := by
      show 16 * x + y < 256
      omega
    rw [UInt8.toNat_ofNat_of_lt' hlt]
    omega
  · rintro ⟨rfl, rfl⟩
    have hsum : 16 * (b.toNat / 16) + b.toNat % 16 = b.toNat := Nat.div_add_mod b.toNat 16
    rw [hsum]
    exact UInt8.ofNat_toNat

/-- **What is read as `bytes`**: their digits, in either case, before anything that is
read as nothing. -/
theorem decode_eq_iff (bytes : List UInt8) : ∀ cs : List Char, decode cs = bytes ↔
    ∃ digits rest, cs = digits ++ rest ∧ digits.map value = (encode bytes).map value ∧
      decode rest = [] := by
  induction bytes with
  | nil =>
    intro cs
    constructor
    · intro h
      exact ⟨[], cs, rfl, rfl, h⟩
    · rintro ⟨digits, rest, rfl, hdigits, hrest⟩
      have hnil : digits = [] := List.map_eq_nil_iff.mp hdigits
      rw [hnil]
      exact hrest
  | cons byte bytes ih =>
    intro cs
    have hhigh : byte.toNat / 16 < 16 := by
      have := byte.toNat_lt
      omega
    have hlow : byte.toNat % 16 < 16 := Nat.mod_lt _ (by decide)
    constructor
    · intro h
      match cs, h with
      | a :: b :: tail, h =>
        unfold decode at h
        split at h
        next x y hx hy =>
          obtain ⟨hbyte, htail⟩ := List.cons.inj h
          obtain ⟨digits, rest, rfl, hdigits, hrest⟩ := (ih tail).mp htail
          obtain ⟨rfl, rfl⟩ := (pair_eq_iff (value_lt hx) (value_lt hy)).mp hbyte
          refine ⟨a :: b :: digits, rest, rfl, ?_, hrest⟩
          simp only [encode, List.map_cons, hx, hy, value_digit hhigh, value_digit hlow, hdigits]
        next => cases h
      | [], h => cases h
      | [c], h => cases h
    · rintro ⟨digits, rest, rfl, hdigits, hrest⟩
      simp only [encode, List.map_cons, value_digit hhigh, value_digit hlow] at hdigits
      match digits, hdigits with
      | a :: b :: digits, hdigits =>
        simp only [List.map_cons, List.cons.injEq] at hdigits
        obtain ⟨ha, hb, htail⟩ := hdigits
        have hrec : decode (digits ++ rest) = bytes := (ih _).mpr ⟨digits, rest, rfl, htail, hrest⟩
        simp only [List.cons_append, decode, ha, hb, hrec]
        exact congrArg (· :: bytes) ((pair_eq_iff hhigh hlow).mpr ⟨rfl, rfl⟩)
      | [], hdigits => cases hdigits
      | [c], hdigits => simp at hdigits

/-- What is read as nothing begins with no pair of digits. -/
theorem decode_eq_nil_iff {cs : List Char} : decode cs = [] ↔
    ∀ a b rest, cs = a :: b :: rest → value a = none ∨ value b = none := by
  constructor
  · rintro h a b rest rfl
    unfold decode at h
    split at h
    · cases h
    next hpair =>
      by_contra hdigits
      rw [not_or] at hdigits
      obtain ⟨x, hx⟩ := Option.ne_none_iff_exists'.mp hdigits.1
      obtain ⟨y, hy⟩ := Option.ne_none_iff_exists'.mp hdigits.2
      exact hpair x y hx hy
  · intro h
    unfold decode
    split
    next a b rest =>
      rcases h a b rest rfl with hnone | hnone
      · rw [hnone]
      · rw [hnone]
        split
        next hy => cases hy
        next => rfl
    next => rfl

@[simp] theorem decode_encode (bytes : List UInt8) : decode (encode bytes) = bytes :=
  (decode_eq_iff bytes _).mpr ⟨encode bytes, [], (List.append_nil _).symm, rfl, rfl⟩

end Hex

end Base
