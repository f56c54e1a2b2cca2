import Mathlib.Algebra.Order.Floor.Semiring
import Mathlib.Algebra.Order.Ring.Rat
import Mathlib.Data.Nat.Log
import Mathlib.Data.Rat.Floor
import Mathlib.Tactic.Linarith
import Mathlib.Tactic.Positivity
import Mathlib.Tactic.Ring

/-!
# Doubles that are not negative

The numbers of IEEE 754's binary64 without a sign: the finite ones, and infinity. A
double is its bits, and their order is that of the numbers. Every one is a whole number
of units of 2⁻¹⁰⁷⁴, and `units` says of how many.

A sum is the double nearest to the exact sum, of two equally near ones the one with even
bits (`round`). Infinity needs no case of its own: its bits, read like those of any other
number, give 2¹⁰²⁴, and nothing that far out comes back. What is needed of it all is that
rounding is monotone (`round_mono`), so that sums of lists are, and that it leaves small
whole numbers alone (`value_sum_nat`).
-/

namespace Base

namespace Double

/-- How often the unit has doubled. -/
def binade (n : ℕ) : ℕ := max (n / 2 ^ 52) 1 - 1

/-- The number with the bits `n`, in units of 2⁻¹⁰⁷⁴. -/
def units (n : ℕ) : ℕ := (n - binade n * 2 ^ 52) * 2 ^ binade n

/-- The bits of infinity: what is below them is finite. -/
def infinityBits : ℕ := 2047 * 2 ^ 52

end Double

/-- A double that is not negative. -/
abbrev Double : Type := { bits : ℕ // bits ≤ Double.infinityBits }

namespace Double

/-- The number that the bits stand for. -/
def value (x : Double) : ℚ := units x.val / 2 ^ 1074

/-- The last number that is not above `k` units. -/
def floorBits (k : ℕ) : ℕ := k / 2 ^ (Nat.log2 k - 52) + (Nat.log2 k - 52) * 2 ^ 52

/-- The number next to `s` units, or of two such the one with even bits. -/
def nearest (s : ℚ) : ℕ :=
  let n := floorBits ⌊s⌋₊
  if 2 * s < units n + units (n + 1) ∨ 2 * s = units n + units (n + 1) ∧ n % 2 = 0 then n else n + 1

/-- The double next to a number that is not negative. -/
def round (q : ℚ) : Double := ⟨min infinityBits (nearest (q * 2 ^ 1074)), min_le_left _ _⟩

/-- A sum is the double nearest to the exact one. -/
def add (x y : Double) : Double := round (x.value + y.value)

/-- The sum, from left to right. -/
def sum (l : List Double) : Double := l.foldl add ⟨0, Nat.zero_le _⟩

/-! ## The numbers in their order -/

theorem binade_mul_le (n : ℕ) : binade n * 2 ^ 52 ≤ n := by
  unfold binade
  omega

/-- The next double is one unit of its binade further on. -/
theorem units_succ (n : ℕ) : units (n + 1) = units n + 2 ^ binade n := by
  have hle := binade_mul_le n
  unfold units
  rcases Nat.lt_or_ge (n + 1) ((binade n + 2) * 2 ^ 52) with hlt | hge
  · have hsame : binade (n + 1) = binade n := by
      unfold binade at hlt ⊢
      omega
    rw [hsame, Nat.sub_add_comm hle, Nat.succ_mul]
  · -- the mantissa is full: the next one is half as long, of units twice as large
    have hnext : binade (n + 1) = binade n + 1 := by
      unfold binade at hge ⊢
      omega
    have hfull : n + 1 = (binade n + 2) * 2 ^ 52 := by
      unfold binade at hge ⊢
      omega
    rw [hnext, show n + 1 - (binade n + 1) * 2 ^ 52 = 2 ^ 52 by omega,
      show n - binade n * 2 ^ 52 = 2 ^ 53 - 1 by omega, Nat.sub_mul, Nat.one_mul,
      Nat.sub_add_cancel (Nat.le_mul_of_pos_left _ (by norm_num)), pow_succ]
    ring

theorem units_strictMono : StrictMono units := by
  refine strictMono_nat_of_lt_succ fun n => ?_
  rw [units_succ]
  exact Nat.lt_add_of_pos_right (by positivity)

/-- Cut down to 53 bits, a number stays in its binade. -/
theorem binade_floorBits (k : ℕ) : binade (floorBits k) = Nat.log2 k - 52 := by
  rcases Nat.lt_or_ge k (2 ^ 53) with hsmall | hlarge
  · have hlog : Nat.log2 k - 52 = 0 := by
      rcases Nat.eq_zero_or_pos k with rfl | hpos
      · rfl
      · have := (Nat.log2_lt hpos.ne').mpr hsmall
        omega
    unfold binade floorBits
    rw [hlog]
    omega
  · have hpos : k ≠ 0 := by
      rintro rfl
      exact absurd hlarge (by norm_num)
    have hlog : 53 ≤ Nat.log2 k := (Nat.le_log2 hpos).mpr hlarge
    obtain ⟨b, hb⟩ : ∃ b, Nat.log2 k = b + 52 := ⟨Nat.log2 k - 52, by omega⟩
    have hlow : 2 ^ 52 ≤ k / 2 ^ b := by
      rw [Nat.le_div_iff_mul_le (by positivity), ← pow_add, Nat.add_comm, ← hb]
      exact Nat.log2_self_le hpos
    have hhigh : k / 2 ^ b < 2 ^ 53 := by
      rw [Nat.div_lt_iff_lt_mul (by positivity), ← pow_add, show 53 + b = Nat.log2 k + 1 by omega]
      exact Nat.lt_log2_self
    unfold binade floorBits
    rw [hb, Nat.add_sub_cancel]
    omega

theorem units_floorBits (k : ℕ) :
    units (floorBits k) = k / 2 ^ (Nat.log2 k - 52) * 2 ^ (Nat.log2 k - 52) := by
  unfold units
  rw [binade_floorBits]
  unfold floorBits
  rw [Nat.add_sub_cancel]

/-- Between the numbers with the bits `floorBits k` and one more. -/
theorem floorBits_spec (k : ℕ) : units (floorBits k) ≤ k ∧ k < units (floorBits k + 1) := by
  rw [units_succ, binade_floorBits, units_floorBits]
  refine ⟨Nat.div_mul_le_self _ _, ?_⟩
  rw [← Nat.succ_mul]
  exact Nat.lt_mul_of_div_lt (Nat.lt_succ_self _) (by positivity)

theorem floorBits_eq {k n : ℕ} (hle : units n ≤ k) (hlt : k < units (n + 1)) : floorBits k = n := by
  obtain ⟨hle', hlt'⟩ := floorBits_spec k
  have h₁ := units_strictMono.lt_iff_lt.mp (hle.trans_lt hlt')
  have h₂ := units_strictMono.lt_iff_lt.mp (hle'.trans_lt hlt)
  omega

theorem floorBits_mono {k k' : ℕ} (h : k ≤ k') : floorBits k ≤ floorBits k' := by
  have hlt := units_strictMono.lt_iff_lt.mp (((floorBits_spec k).1.trans h).trans_lt (floorBits_spec k').2)
  omega

/-! ## Rounding -/

theorem nearest_mem (s : ℚ) : floorBits ⌊s⌋₊ ≤ nearest s ∧ nearest s ≤ floorBits ⌊s⌋₊ + 1 := by
  unfold nearest
  dsimp only
  split <;> omega

theorem nearest_mono {s s' : ℚ} (h : s ≤ s') : nearest s ≤ nearest s' := by
  rcases (floorBits_mono (Nat.floor_mono h)).eq_or_lt with heq | hlt
  · -- between the same two numbers
    unfold nearest
    rw [heq]
    dsimp only
    split
    next => split <;> omega
    next hup =>
      rw [if_neg]
      rintro (hdown | ⟨hmid, heven⟩)
      · exact hup (.inl (by linarith))
      · rcases h.eq_or_lt with rfl | hlt
        · exact hup (.inr ⟨hmid, heven⟩)
        · exact hup (.inl (by linarith))
  · exact ((nearest_mem s).2.trans hlt).trans (nearest_mem s').1

theorem nearest_units (n : ℕ) : nearest (units n) = n := by
  have hlt := units_strictMono n.lt_succ_self
  have hfloor : floorBits ⌊(units n : ℚ)⌋₊ = n := by
    rw [Nat.floor_natCast]
    exact floorBits_eq le_rfl hlt
  unfold nearest
  rw [hfloor]
  refine if_pos (.inl ?_)
  rw [two_mul]
  exact add_lt_add_right (Nat.cast_lt.mpr hlt) _

theorem round_mono {q q' : ℚ} (h : q ≤ q') : round q ≤ round q' :=
  Subtype.mk_le_mk.mpr (min_le_min_left _ (nearest_mono (mul_le_mul_of_nonneg_right h (by positivity))))

theorem value_mul (x : Double) : x.value * 2 ^ 1074 = units x.val := by
  unfold value
  exact div_mul_cancel₀ _ (by positivity)

theorem round_value (x : Double) : round x.value = x := by
  unfold round
  refine Subtype.ext ?_
  dsimp only
  rw [value_mul, nearest_units]
  exact min_eq_right x.property

theorem value_mono {x y : Double} (h : x ≤ y) : x.value ≤ y.value :=
  div_le_div_of_nonneg_right (Nat.cast_le.mpr (units_strictMono.monotone h)) (by positivity)

theorem value_lt_iff {x y : Double} : x.value < y.value ↔ x < y := by
  unfold value
  rw [div_lt_div_iff_of_pos_right (by positivity), Nat.cast_lt, units_strictMono.lt_iff_lt]
  rfl

/-! ## Sums -/

theorem add_mono {x x' y y' : Double} (hx : x ≤ x') (hy : y ≤ y') : add x y ≤ add x' y' :=
  round_mono (add_le_add (value_mono hx) (value_mono hy))

theorem foldl_mono {l l' : List Double} (h : List.Forall₂ (· ≤ ·) l l') {x x' : Double}
    (hx : x ≤ x') : l.foldl add x ≤ l'.foldl add x' := by
  induction h generalizing x x' with
  | nil => exact hx
  | cons hhead _ ih => exact ih (add_mono hx hhead)

/-- A sum grows with what is added, if the order stays. -/
theorem sum_mono {l l' : List Double} (h : List.Forall₂ (· ≤ ·) l l') : sum l ≤ sum l' :=
  foldl_mono h le_rfl

/-! ## Whole numbers -/

/-- A whole number of no more than 53 bits is a double. -/
theorem exists_units {m : ℕ} (h : m < 2 ^ 53) : ∃ n, units n = m * 2 ^ 1074 ∧ n ≤ infinityBits := by
  have hunits : units (floorBits (m * 2 ^ 1074)) = m * 2 ^ 1074 := by
    rw [units_floorBits]
    refine Nat.div_mul_cancel ?_
    rcases Nat.eq_zero_or_pos m with rfl | hpos
    · rw [Nat.zero_mul]
      exact dvd_zero _
    · have hlog : Nat.log2 m < 53 := (Nat.log2_lt hpos.ne').mpr h
      have hshift : Nat.log2 (m * 2 ^ 1074) = Nat.log2 m + 1074 := by
        rw [Nat.log2_eq_iff (Nat.mul_pos hpos (by positivity)).ne', pow_add, Nat.add_right_comm, pow_add]
        exact ⟨Nat.mul_le_mul_right _ (Nat.log2_self_le hpos.ne'),
          Nat.mul_lt_mul_of_pos_right Nat.lt_log2_self (by positivity)⟩
      rw [hshift]
      exact Dvd.dvd.mul_left (pow_dvd_pow 2 (by omega)) m
  refine ⟨_, hunits, ?_⟩
  rw [← units_strictMono.le_iff_le, hunits]
  have hbinade : binade infinityBits = 2046 := by decide
  have hinfinity : units infinityBits = 2 ^ 52 * 2 ^ 2046 := by
    unfold units
    rw [hbinade]
    congr 1
  have hle : ∀ a b : ℕ, 53 + a ≤ 52 + b → m * 2 ^ a ≤ 2 ^ 52 * 2 ^ b := by
    intro a b hab
    refine (Nat.mul_le_mul_right _ h.le).trans ?_
    rw [← pow_add, ← pow_add]
    exact Nat.pow_le_pow_right (by omega) hab
  rw [hinfinity]
  exact hle 1074 2046 (by omega)

theorem value_round_nat {m : ℕ} (h : m < 2 ^ 53) : (round m).value = m := by
  obtain ⟨n, hunits, hle⟩ := exists_units h
  have hvalue : value ⟨n, hle⟩ = m := by
    unfold value
    rw [hunits, Nat.cast_mul, Nat.cast_pow, Nat.cast_ofNat]
    exact mul_div_cancel_right₀ _ (by positivity)
  rw [← hvalue, round_value]

/-- Sums of whole numbers are exact as long as they have no more than 53 bits. -/
theorem value_foldl_nat (ms : List ℕ) (m : ℕ) (h : m + ms.sum < 2 ^ 53) :
    ((ms.map fun k : ℕ => round (k : ℚ)).foldl add (round m)).value = (m + ms.sum : ℕ) := by
  induction ms generalizing m with
  | nil => exact value_round_nat (by simpa using h)
  | cons k ms ih =>
    rw [List.sum_cons] at h
    have hadd : add (round m) (round k) = round ((m + k : ℕ) : ℚ) := by
      unfold add
      rw [value_round_nat (by omega), value_round_nat (by omega), Nat.cast_add]
    rw [List.map_cons, List.foldl_cons, hadd, ih (m + k) (by omega), List.sum_cons, Nat.add_assoc]

theorem value_sum_nat {ms : List ℕ} (h : ms.sum < 2 ^ 53) :
    (sum (ms.map fun k : ℕ => round (k : ℚ))).value = ms.sum := by
  have hzero : (round ((0 : ℕ) : ℚ)) = ⟨0, Nat.zero_le _⟩ := by decide +kernel
  have hsum := value_foldl_nat ms 0 (by rwa [Nat.zero_add])
  rw [hzero, Nat.zero_add] at hsum
  exact hsum

-- ten tenths are less than one
example : sum (List.replicate 10 (round (1 / 10))) < round 1 := by decide +kernel

end Double

end Base
