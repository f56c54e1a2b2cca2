import Mathlib.Data.List.Basic

/-!
# Words

A name is read as its words: the maximal runs of the characters a word is made of.
Joined by dashes again they begin and end as words do, which is what tells a joined
name from the same name with separators around it.
-/

namespace Base

/-- The maximal runs of characters that satisfy `p`. -/
def words (p : Char → Bool) (cs : List Char) : List (List Char) :=
  (cs.splitOnP fun c => !p c).filter fun w => !w.isEmpty

/-- The words with a dash between any two. -/
def dashJoin : List (List Char) → List Char
  | [] => []
  | [w] => w
  | w :: ws => w ++ '-' :: dashJoin ws

section Words

variable {p : Char → Bool} {c d : Char} {rest : List Char}

theorem words_cons_neg (h : p c = false) : words p (c :: rest) = words p rest := by
  unfold words
  rw [List.splitOnP_cons_eq_if_modifyHead, if_pos (by rw [h]; rfl), List.filter_cons_of_neg (by simp)]

/-- A character before one that is of no word is a word of its own. -/
theorem words_cons_last (h : p c = true) (hrest : ∀ d ∈ rest.head?, p d = false) :
    words p (c :: rest) = [c] :: words p rest := by
  cases rest with
  | nil =>
    unfold words
    rw [List.splitOnP_cons_eq_if_modifyHead, if_neg (by rw [h]; simp), List.splitOnP_nil]
    rfl
  | cons d rest =>
    rw [words_cons_neg (hrest d rfl)]
    unfold words
    rw [List.splitOnP_cons_eq_if_modifyHead, if_neg (by rw [h]; simp), List.splitOnP_cons_eq_if_modifyHead,
      if_pos (by rw [hrest d rfl]; rfl)]
    rfl

/-- A character before another of a word belongs to that word. -/
theorem words_cons_cons (h : p c = true) (hd : p d = true) :
    ∃ w ws, words p (d :: rest) = w :: ws ∧ words p (c :: d :: rest) = (c :: w) :: ws := by
  unfold words
  rw [List.splitOnP_cons_eq_if_modifyHead c, if_neg (by rw [h]; simp), List.splitOnP_cons_eq_if_modifyHead d,
    if_neg (by rw [hd]; simp)]
  cases hsplit : rest.splitOnP fun c => !p c with
  | nil => exact absurd hsplit (List.splitOnP_ne_nil _ _)
  | cons w ws => exact ⟨d :: w, _, rfl, rfl⟩

theorem words_nil : words p [] = [] := rfl

/-- No word is empty, and all of it satisfies `p`. -/
theorem of_mem_words {cs w : List Char} (hw : w ∈ words p cs) : w ≠ [] ∧ ∀ c ∈ w, p c = true := by
  induction cs generalizing w with
  | nil => cases hw
  | cons c rest ih =>
    cases hc : p c with
    | false => exact ih (words_cons_neg hc ▸ hw)
    | true =>
      by_cases hrest : ∀ d ∈ rest.head?, p d = false
      · rw [words_cons_last hc hrest] at hw
        rcases List.mem_cons.mp hw with rfl | hw
        · exact ⟨by simp, by simpa using hc⟩
        · exact ih hw
      · cases rest with
        | nil => exact absurd (fun d hd => by cases hd) hrest
        | cons d rest =>
          have hd : p d = true := by simpa using hrest
          obtain ⟨w', ws, hwas, hnow⟩ := @words_cons_cons _ _ _ rest hc hd
          rw [hnow] at hw
          rcases List.mem_cons.mp hw with rfl | hw
          · have hw' := ih (hwas ▸ List.mem_cons_self)
            exact ⟨by simp, by simpa using ⟨hc, hw'.2⟩⟩
          · exact ih (hwas ▸ List.mem_cons_of_mem _ hw)

/-- A character of no word divides the words. -/
theorem words_append {cs : List Char} (h : p c = false) :
    words p (cs ++ c :: rest) = words p cs ++ words p rest := by
  unfold words
  rw [List.splitOnP_append_cons _ _ (by rw [h]; rfl), List.filter_append]

theorem words_ne_nil (h : p c = true) : words p (c :: rest) ≠ [] := by
  by_cases hrest : ∀ d ∈ rest.head?, p d = false
  · rw [words_cons_last h hrest]
    simp
  · cases rest with
    | nil => exact absurd (fun d hd => by cases hd) hrest
    | cons d rest =>
      obtain ⟨w, ws, _, hnow⟩ := @words_cons_cons _ _ _ rest h (by simpa using hrest)
      rw [hnow]
      simp

end Words

theorem dashJoin_cons {w : List Char} {ws : List (List Char)} (h : ws ≠ []) :
    dashJoin (w :: ws) = w ++ '-' :: dashJoin ws := by
  cases ws with
  | nil => exact absurd rfl h
  | cons v ws => rfl

/-- Joined words begin and end as words do. -/
theorem dashJoin_ends {p : Char → Bool} {ws : List (List Char)} (hne : ws ≠ [])
    (h : ∀ w ∈ ws, w ≠ [] ∧ ∀ c ∈ w, p c = true) :
    (∃ c, (dashJoin ws).head? = some c ∧ p c = true) ∧
      ∃ c, (dashJoin ws).getLast? = some c ∧ p c = true := by
  induction ws with
  | nil => exact absurd rfl hne
  | cons w ws ih =>
    obtain ⟨hw, hp⟩ := h w List.mem_cons_self
    obtain ⟨c, w', rfl⟩ := List.exists_cons_of_ne_nil hw
    have hc : p c = true := hp c List.mem_cons_self
    cases ws with
    | nil =>
      refine ⟨⟨c, rfl, hc⟩, ?_⟩
      exact ⟨(c :: w').getLast hw, List.getLast?_eq_some_getLast hw, hp _ (List.getLast_mem hw)⟩
    | cons v ws =>
      obtain ⟨_, d, hd, hpd⟩ := ih (by simp) fun w hw => h w (List.mem_cons_of_mem _ hw)
      refine ⟨⟨c, rfl, hc⟩, d, ?_, hpd⟩
      rw [dashJoin_cons (by simp), List.getLast?_append, List.getLast?_cons, hd]
      rfl

/-- There are as many dashes as there are words but one. -/
theorem count_dashJoin {ws : List (List Char)} (h : ∀ w ∈ ws, '-' ∉ w) :
    (dashJoin ws).count '-' = ws.length - 1 := by
  induction ws with
  | nil => rfl
  | cons w ws ih =>
    have hw : w.count '-' = 0 := List.count_eq_zero.mpr (h w List.mem_cons_self)
    cases ws with
    | nil => exact hw
    | cons v ws =>
      rw [dashJoin_cons (by simp), List.count_append, hw, List.count_cons_self,
        ih fun w hw => h w (List.mem_cons_of_mem _ hw)]
      simp

theorem mem_dashJoin {ws : List (List Char)} {c : Char} (h : c ∈ dashJoin ws) :
    c = '-' ∨ ∃ w ∈ ws, c ∈ w := by
  induction ws with
  | nil => cases h
  | cons w ws ih =>
    cases ws with
    | nil => exact .inr ⟨w, List.mem_cons_self, h⟩
    | cons v ws =>
      rw [dashJoin_cons (by simp)] at h
      rcases List.mem_append.mp h with h | h
      · exact .inr ⟨w, List.mem_cons_self, h⟩
      · rcases List.mem_cons.mp h with h | h
        · exact .inl h
        · exact (ih h).imp_right fun ⟨w, hw, hc⟩ => ⟨w, List.mem_cons_of_mem _ hw, hc⟩

/-- Decimal numerals of different numbers differ. -/
theorem repr_injective {a b : Nat} (h : a.repr = b.repr) : a = b := by
  have hlist := congrArg String.toList h
  rw [Nat.toList_repr, Nat.toList_repr] at hlist
  rw [← Nat.ofDigitChars_ten_toDigits (n := a), hlist, Nat.ofDigitChars_ten_toDigits]

end Base
