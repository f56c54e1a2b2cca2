import Mathlib.Data.List.Pairwise
import Mathlib.Data.List.Sort

/-!
# Sorting before and after a map

A list may be sorted by one order and its elements then written in a way that is sorted by
another. Writing and sorting can be exchanged exactly if the two orders agree on the
elements there are (`map_sort_iff`).
-/

namespace Base

/-! ## By one thing, and then by another -/

section Lex

variable {α κ μ : Type} [LinearOrder κ] [LinearOrder μ] {f : α → κ} {g : α → μ} {a b c : α}

/-- In the order of `f`, and where that does not tell, of `g`. -/
def LexLe (f : α → κ) (g : α → μ) (a b : α) : Prop := f a < f b ∨ f a = f b ∧ g a ≤ g b

instance : DecidableRel (LexLe f g) := fun _ _ => inferInstanceAs (Decidable (_ ∨ _))

instance : Std.Total (LexLe f g) where
  total a b := by
    rcases lt_trichotomy (f a) (f b) with h | h | h
    · exact .inl (.inl h)
    · exact (le_total (g a) (g b)).imp (fun hg => .inr ⟨h, hg⟩) fun hg => .inr ⟨h.symm, hg⟩
    · exact .inr (.inl h)

instance : IsTrans α (LexLe f g) where
  trans a b c hab hbc := by
    rcases hab with hab | ⟨hab, hg⟩
    · left
      rcases hbc with hbc | ⟨hbc, _⟩
      · exact hab.trans hbc
      · exact hbc ▸ hab
    · rcases hbc with hbc | ⟨hbc, hg'⟩
      · exact .inl (hab ▸ hbc)
      · exact .inr ⟨hab.trans hbc, hg.trans hg'⟩

theorem LexLe.antisymm (h : LexLe f g a b) (h' : LexLe f g b a) : f a = f b ∧ g a = g b := by
  rcases h with h | ⟨hf, hg⟩
  · rcases h' with h' | ⟨hf, _⟩
    · exact absurd (h.trans h') (lt_irrefl _)
    · exact absurd (hf ▸ h) (lt_irrefl _)
  · rcases h' with h' | ⟨_, hg'⟩
    · exact absurd (hf ▸ h') (lt_irrefl _)
    · exact ⟨hf, le_antisymm hg hg'⟩

end Lex

/-! ## Before and after a map -/

variable {α β : Type} {r : α → α → Prop} {s : β → β → Prop} [DecidableRel r] [DecidableRel s]
  [Std.Total r] [IsTrans α r] [Std.Total s] [IsTrans β s] {e : α → β} {l : List α}

/-- **Sorting before a map is sorting after it** exactly if the orders agree. -/
theorem map_sort_iff (hr : ∀ x ∈ l, ∀ y ∈ l, r x y → r y x → x = y)
    (hs : ∀ x ∈ l, ∀ y ∈ l, s (e x) (e y) → s (e y) (e x) → x = y) :
    (l.insertionSort r).map e = (l.map e).insertionSort s ↔
      ∀ x ∈ l, ∀ y ∈ l, r x y → s (e x) (e y) := by
  have hrefl : ∀ b : β, s b b := fun b => (Std.Total.total b b).elim id id
  constructor
  · intro heq
    have hsorted : ((l.insertionSort r).map e).Pairwise s := by
      rw [heq]
      exact List.pairwise_insertionSort s _
    have hboth := (List.pairwise_insertionSort r l).and (List.pairwise_map.mp hsorted)
    -- of two elements the first in the sorted list is below the other by both orders
    have hagree : (l.insertionSort r).Pairwise fun x y =>
        (r x y → s (e x) (e y)) ∧ (r y x → s (e y) (e x)) := by
      refine hboth.imp_of_mem fun hx hy hxy => ⟨fun _ => hxy.2, fun hyx => ?_⟩
      rw [List.mem_insertionSort] at hx hy
      rw [hr _ hx _ hy hxy.1 hyx]
      exact hrefl _
    have hsymm : Std.Symm fun x y => (r x y → s (e x) (e y)) ∧ (r y x → s (e y) (e x)) :=
      ⟨fun _ _ h => ⟨h.2, h.1⟩⟩
    intro x hx y hy hxy
    by_cases hne : x = y
    · rw [hne]
      exact hrefl _
    · exact (hagree.forall ((List.mem_insertionSort r).mpr hx) ((List.mem_insertionSort r).mpr hy)
        hne).1 hxy
  · intro hagree
    refine List.map_insertionSort r s e l fun x hx y hy => ⟨hagree x hx y hy, fun hxy => ?_⟩
    rcases Std.Total.total (r := r) x y with h | h
    · exact h
    · rw [hs x hx y hy hxy (hagree y hy x hx h)]
      exact (Std.Total.total (r := r) y y).elim id id

end Base
