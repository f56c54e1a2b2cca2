import Mathlib.Data.List.Forall2
import Mathlib.Data.List.MinMax

/-!
# Two lists, element by element

When two implementations keep the same collection in the same order, their
states are related by `List.Forall₂`. These are the rules a simulation between
them uses: searching, counting and mapping related lists by tests and functions
that agree on related elements.
-/

namespace Base

variable {α β γ : Type} {R : α → β → Prop} {l : List α} {u : List β}

/-- Searching related lists finds related elements, or nothing in either. -/
theorem forall₂_find? {p : α → Bool} {q : β → Bool} (h : List.Forall₂ R l u)
    (hpq : ∀ a b, R a b → p a = q b) :
    (l.find? p = none ∧ u.find? q = none) ∨
      ∃ a b, l.find? p = some a ∧ u.find? q = some b ∧ R a b := by
  induction h with
  | nil => exact .inl ⟨rfl, rfl⟩
  | @cons a b l u hab _ ih =>
    cases hp : p a with
    | true =>
      refine .inr ⟨a, b, List.find?_cons_of_pos hp, List.find?_cons_of_pos ?_, hab⟩
      rw [← hpq a b hab, hp]
    | false =>
      have hq : q b = false := by rw [← hpq a b hab, hp]
      rw [List.find?_cons_of_neg (by simp [hp]), List.find?_cons_of_neg (by simp [hq])]
      exact ih

/-- A search by a test that implies the other one finds the same pair, as long as
the pair passes both. -/
theorem forall₂_find?_of_imp {p : α → Bool} {q : β → Bool} (h : List.Forall₂ R l u)
    (hqp : ∀ a b, R a b → q b = true → p a = true) {a : α} (ha : l.find? p = some a)
    (hq : ∀ b, R a b → q b = true) : ∃ b, u.find? q = some b ∧ R a b := by
  induction h with
  | nil => exact absurd ha (by simp)
  | @cons a' b' l u hab _ ih =>
    cases hp : p a' with
    | true =>
      rw [List.find?_cons_of_pos hp] at ha
      obtain rfl := Option.some.inj ha
      exact ⟨b', List.find?_cons_of_pos (hq b' hab), hab⟩
    | false =>
      have hqb : ¬ q b' = true := by
        intro hqb
        rw [hqp a' b' hab hqb] at hp
        exact absurd hp (by simp)
      rw [List.find?_cons_of_neg (by simp [hp])] at ha
      rw [List.find?_cons_of_neg hqb]
      exact ih ha

theorem forall₂_mem_right (h : List.Forall₂ R l u) {b : β} (hb : b ∈ u) : ∃ a ∈ l, R a b := by
  induction h with
  | nil => exact absurd hb List.not_mem_nil
  | @cons a b' l u hab _ ih =>
    rcases List.mem_cons.mp hb with rfl | hb
    · exact ⟨a, List.mem_cons_self, hab⟩
    · obtain ⟨a', ha', hr⟩ := ih hb
      exact ⟨a', List.mem_cons_of_mem _ ha', hr⟩

theorem forall₂_countP {p : α → Bool} {q : β → Bool} (h : List.Forall₂ R l u)
    (hpq : ∀ a b, R a b → p a = q b) : l.countP p = u.countP q := by
  induction h with
  | nil => rfl
  | @cons a b l u hab _ ih => rw [List.countP_cons, List.countP_cons, ih, hpq a b hab]

/-- Mapping related lists by functions that preserve the relation. -/
theorem forall₂_map {f : α → α} {g : β → β} (h : List.Forall₂ R l u)
    (hfg : ∀ a b, a ∈ l → b ∈ u → R a b → R (f a) (g b)) :
    List.Forall₂ R (l.map f) (u.map g) := by
  induction h with
  | nil => exact .nil
  | @cons a b l u hab _ ih =>
    refine .cons (hfg a b List.mem_cons_self List.mem_cons_self hab) (ih ?_)
    intro a' b' ha hb
    exact hfg a' b' (List.mem_cons_of_mem _ ha) (List.mem_cons_of_mem _ hb)

/-- What every related pair has in common, the lists have in common. -/
theorem forall₂_map_eq {f : α → γ} {g : β → γ} (h : List.Forall₂ R l u)
    (hfg : ∀ a b, R a b → f a = g b) : l.map f = u.map g := by
  induction h with
  | nil => rfl
  | @cons a b l u hab _ ih => rw [List.map_cons, List.map_cons, ih, hfg a b hab]

/-- Conversely, an equality of the mapped lists holds pair by pair, in
particular at the pair a search finds. -/
theorem forall₂_find?_of_map_eq {p : α → Bool} {q : β → Bool} {f : α → γ} {g : β → γ}
    (h : List.Forall₂ R l u) (hpq : ∀ a b, R a b → p a = q b) (heq : l.map f = u.map g) {a : α}
    (ha : l.find? p = some a) : ∃ b, u.find? q = some b ∧ R a b ∧ f a = g b := by
  induction h with
  | nil => exact absurd ha (by simp)
  | @cons a' b' l u hab _ ih =>
    rw [List.map_cons, List.map_cons, List.cons.injEq] at heq
    cases hp : p a' with
    | true =>
      rw [List.find?_cons_of_pos hp] at ha
      obtain rfl := Option.some.inj ha
      refine ⟨b', List.find?_cons_of_pos ?_, hab, heq.1⟩
      rw [← hpq a' b' hab, hp]
    | false =>
      have hq : q b' = false := by rw [← hpq a' b' hab, hp]
      rw [List.find?_cons_of_neg (by simp [hp])] at ha
      rw [List.find?_cons_of_neg (by simp [hq])]
      exact ih heq.2 ha

/-- The first of a list in strictly increasing order is its least. -/
theorem argmin_of_pairwise {f : α → Nat} {l : List α} (h : l.Pairwise fun a b => f a < f b) :
    l.argmin f = l.head? := by
  cases l with
  | nil => rfl
  | cons a l =>
    rw [List.argmin_cons, List.head?_cons]
    cases hm : l.argmin f with
    | none => rfl
    | some m =>
      have hlt : f a < f m := List.rel_of_pairwise_cons h (List.argmin_mem (Option.mem_def.mpr hm))
      exact if_neg (Nat.lt_asymm hlt)

end Base
