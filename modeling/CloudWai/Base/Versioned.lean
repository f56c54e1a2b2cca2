import Mathlib.Order.Basic

/-!
# Registers whose contents carry a version

A register is read, and what was read is used later, when the register may hold
something else. If every write either raises the version or leaves both the
version and the face as they are, then a reader who finds the version he knows
also finds the face he knows: that is `Glimpse`, and `Glimpse.advance` keeps it.
The face is whatever of the contents the version stands for.
-/

namespace Base

/-- Contents of type `α` with their version, and the part of them a version fixes. -/
structure Versioned (α β : Type) where
  version : α → Nat
  face : α → β

namespace Versioned

variable {α β : Type} {V : Versioned α β} {n : Nat} {F : β → Prop} {old new : α}

/-- A write that does not go back: a higher version, or the same under the same face. -/
def Advance (V : Versioned α β) (old new : α) : Prop :=
  V.version old < V.version new ∨ V.version old = V.version new ∧ V.face old = V.face new

/-- What is known of a version once seen: it is not ahead of the register's, and
if it is the register's own, the face is as it was seen. -/
def Glimpse (V : Versioned α β) (n : Nat) (F : β → Prop) (now : α) : Prop :=
  n ≤ V.version now ∧ (n = V.version now → F (V.face now))

theorem advance_refl : V.Advance old old := .inr ⟨rfl, rfl⟩

theorem Advance.version_le (h : V.Advance old new) : V.version old ≤ V.version new := by
  rcases h with h | ⟨h, _⟩
  · exact Nat.le_of_lt h
  · exact Nat.le_of_eq h

/-- A reader of the register has a glimpse of it. -/
theorem glimpse_of_read (h : F (V.face old)) : V.Glimpse (V.version old) F old :=
  ⟨Nat.le_refl _, fun _ => h⟩

/-- **A glimpse lasts** through every write that does not go back. -/
theorem Glimpse.advance (h : V.Glimpse n F old) (ha : V.Advance old new) : V.Glimpse n F new := by
  refine ⟨Nat.le_trans h.1 ha.version_le, fun hn => ?_⟩
  rcases ha with hlt | ⟨hv, hf⟩
  · have := h.1
    omega
  · rw [← hf]
    exact h.2 (hn.trans hv.symm)

end Versioned

end Base
