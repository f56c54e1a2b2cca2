import Mathlib.Data.List.Basic

/-!
# Reading a growing list page by page

A reader asks for what comes after its cursor, and takes the length of what there was for
its next cursor. As long as each time the list that it is answered from begins with what it
has seen, its pages are the list up to the cursor, each element once and in order
(`upTo_read`).

`push` appends to a list that keeps no more than its last elements. A reader's cursor is an
index into such a list only until the first element falls out.
-/

namespace Base

variable {α : Type}

/-- The pages read so far, and the cursor that came with the last. -/
structure Reader (α : Type) where
  pages : List α := []
  cursor : Option Nat := none
deriving DecidableEq

namespace Reader

/-- One more page, out of all there is. -/
def read (r : Reader α) (all : List α) : Reader α where
  pages := r.pages ++ all.drop (r.cursor.getD 0)
  cursor := some all.length

/-- The pages are the list up to the cursor. -/
def UpTo (r : Reader α) (l : List α) : Prop :=
  r.pages = l.take (r.cursor.getD 0) ∧ r.cursor.getD 0 ≤ l.length

variable {r : Reader α} {l l' all : List α}

theorem upTo_start : (Reader.mk [] none).UpTo l := ⟨rfl, Nat.zero_le _⟩

theorem UpTo.append (h : r.UpTo l) (suffix : List α) : r.UpTo (l ++ suffix) := by
  obtain ⟨hpages, hle⟩ := h
  refine ⟨?_, ?_⟩
  · rw [hpages, List.take_append_of_le_length hle]
  · rw [List.length_append]
    omega

theorem UpTo.length (h : r.UpTo l) : r.pages.length = r.cursor.getD 0 := by
  rw [h.1, List.length_take, Nat.min_eq_left h.2]

/-- **One more page.** What there is begins with what has been read. -/
theorem upTo_read (h : r.UpTo l) (hall : all <+: l) (hle : r.cursor.getD 0 ≤ all.length) :
    (r.read all).UpTo l := by
  obtain ⟨rest, rfl⟩ := hall
  refine ⟨?_, ?_⟩
  · show r.pages ++ all.drop (r.cursor.getD 0) = (all ++ rest).take all.length
    rw [h.1, List.take_append_of_le_length hle, List.take_append_drop, List.take_left]
  · show all.length ≤ (all ++ rest).length
    rw [List.length_append]
    omega

/-- All there is has been read. -/
theorem pages_read (h : r.UpTo l) : (r.read l).pages = l := by
  obtain ⟨hpages, -⟩ := upTo_read h List.prefix_rfl h.2
  rw [hpages]
  exact List.take_length

/-- However the list has changed, as long as it has not become shorter, there are as many
lines in the pages as in the list. -/
theorem length_read (h : r.pages.length = r.cursor.getD 0) (hle : r.cursor.getD 0 ≤ all.length) :
    (r.read all).pages.length = all.length := by
  show (r.pages ++ all.drop (r.cursor.getD 0)).length = _
  rw [List.length_append, List.length_drop, h]
  omega

end Reader

/-- Append, and keep no more than the last `max`. -/
def push (max : Nat) (l : List α) (a : α) : List α :=
  if max < (l ++ [a]).length then (l ++ [a]).drop ((l ++ [a]).length - max) else l ++ [a]

section Push

variable {max : Nat} {l : List α} {a : α}

theorem push_of_lt (h : l.length < max) : push max l a = l ++ [a] := by
  unfold push
  rw [if_neg]
  rw [List.length_append, List.length_singleton]
  omega

theorem length_push_le : (push max l a).length ≤ max := by
  unfold push
  split
  · rw [List.length_drop]
    omega
  next h => exact Nat.le_of_not_lt h

theorem le_length_push (h : l.length ≤ max) : l.length ≤ (push max l a).length := by
  unfold push
  split
  · rw [List.length_drop, List.length_append, List.length_singleton]
    omega
  · rw [List.length_append]
    omega

end Push

end Base
