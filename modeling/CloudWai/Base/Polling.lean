import Mathlib.Data.List.Basic

/-!
# Asking again until the answer is final

A poll is repeated until its answer says something final or the budget is spent.
What matters of it is how many answers were heard and what the last one said:
`poll read answers i n` hears the answers from the `i`-th on, at most `n` of them, and
`read` says of an answer what it decides, if it decides anything.

Either the budget was spent on answers that all decide nothing, or the answers heard
are those that decide nothing and one that does.
-/

namespace Base

variable {α β : Type} (read : α → Option β) (answers : Nat → α)

/-- How many answers were heard, and what the last of them decided. -/
def poll : Nat → Nat → Nat × Option β
  | _, 0 => (0, none)
  | i, n + 1 =>
    match read (answers i) with
    | some b => (1, some b)
    | none => ((poll (i + 1) n).1 + 1, (poll (i + 1) n).2)

variable {read answers}

theorem poll_final {i n : Nat} {b : β} (h : read (answers i) = some b) :
    poll read answers i (n + 1) = (1, some b) := by
  rw [poll, h]

theorem poll_again {i n : Nat} (h : read (answers i) = none) :
    poll read answers i (n + 1) =
      ((poll read answers (i + 1) n).1 + 1, (poll read answers (i + 1) n).2) := by
  rw [poll, h]

theorem poll_le (i n : Nat) : (poll read answers i n).1 ≤ n := by
  induction n generalizing i with
  | zero => exact Nat.le_refl 0
  | succ n ih =>
    cases hread : read (answers i) with
    | some b =>
      rw [poll_final hread]
      show 1 ≤ n + 1
      omega
    | none =>
      rw [poll_again hread]
      exact Nat.succ_le_succ (ih (i + 1))

/-- The budget is spent on answers that decide nothing. -/
theorem poll_spent {i n : Nat} (h : (poll read answers i n).2 = none) :
    (poll read answers i n).1 = n ∧ ∀ k < n, read (answers (i + k)) = none := by
  induction n generalizing i with
  | zero => exact ⟨rfl, fun k hk => absurd hk (Nat.not_lt_zero k)⟩
  | succ n ih =>
    cases hread : read (answers i) with
    | some b =>
      rw [poll_final hread] at h
      exact absurd h (by simp)
    | none =>
      rw [poll_again hread] at h ⊢
      obtain ⟨hasked, hwaits⟩ := ih h
      refine ⟨congrArg (· + 1) hasked, fun k hk => ?_⟩
      cases k with
      | zero => exact hread
      | succ k =>
        have hk' := hwaits k (by omega)
        rwa [Nat.add_right_comm] at hk'

/-- What is decided is decided by the last answer heard, and by none before it. -/
theorem poll_decided {i n : Nat} {b : β} (h : (poll read answers i n).2 = some b) :
    ∃ k < n, (poll read answers i n).1 = k + 1 ∧ read (answers (i + k)) = some b ∧
      ∀ j < k, read (answers (i + j)) = none := by
  induction n generalizing i with
  | zero => exact absurd h (by simp [poll])
  | succ n ih =>
    cases hread : read (answers i) with
    | some b' =>
      rw [poll_final hread] at h ⊢
      refine ⟨0, by omega, rfl, hread.trans h, fun j hj => absurd hj (Nat.not_lt_zero j)⟩
    | none =>
      rw [poll_again hread] at h ⊢
      obtain ⟨k, hk, hasked, hdecides, hwaits⟩ := ih h
      refine ⟨k + 1, by omega, congrArg (· + 1) hasked, ?_, fun j hj => ?_⟩
      · rwa [Nat.add_right_comm] at hdecides
      · cases j with
        | zero => exact hread
        | succ j =>
          have hj' := hwaits j (by omega)
          rwa [Nat.add_right_comm] at hj'

end Base
