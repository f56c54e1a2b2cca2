import CloudWai.Base.Machine
import Mathlib.Data.List.GetD

/-!
# Endless runs

What eventually happens is a matter of runs without an end: a label for every
natural number, and `path`, the states they go through. `Leads P Q` says that
wherever `P` holds, `Q` holds then or later.

Under a fairness assumption such facts come from a measure. `leads_descend` is the
rule for a single helper: nothing raises the measure, the helper's labels lower it,
and there is always another of them to come. `leads_measure` puts stages together
whose helpers differ.
-/

namespace Base

section Endless

variable {σ ℓ : Type} (step : σ → ℓ → σ)

/-- The states of an endless run. -/
def path (s : σ) (l : Nat → ℓ) : Nat → σ
  | 0 => s
  | n + 1 => step (path s l n) (l n)

/-- Wherever `P` holds, `Q` holds then or later. -/
def Leads (s : σ) (l : Nat → ℓ) (P Q : σ → Prop) : Prop :=
  ∀ n, P (path step s l n) → ∃ m, n ≤ m ∧ Q (path step s l m)

variable {step} {s : σ} {l : Nat → ℓ} {P Q R J : σ → Prop} {C : σ → ℓ → Prop}

/-- An invariant, under a condition on the steps. -/
theorem inv_path (h0 : J s) (hJ : ∀ s l, J s → C s l → J (step s l))
    (hC : ∀ n, C (path step s l n) (l n)) (n : Nat) : J (path step s l n) := by
  induction n with
  | zero => exact h0
  | succ n ih => exact hJ _ _ ih (hC n)

theorem leads_imp (h : ∀ n, P (path step s l n) → Q (path step s l n)) : Leads step s l P Q :=
  fun n hP => ⟨n, Nat.le_refl n, h n hP⟩

theorem Leads.trans (hPQ : Leads step s l P Q) (hQR : Leads step s l Q R) :
    Leads step s l P R := by
  intro n hP
  obtain ⟨m, hnm, hQ⟩ := hPQ n hP
  obtain ⟨k, hmk, hR⟩ := hQR m hQ
  exact ⟨k, Nat.le_trans hnm hmk, hR⟩

/-- **Measure rule.** -/
theorem leads_measure (μ : σ → Nat)
    (h : ∀ k, Leads step s l (fun t => P t ∧ μ t = k) fun t => Q t ∨ (P t ∧ μ t < k)) :
    Leads step s l P Q := by
  intro n hP
  induction hk : μ (path step s l n) using Nat.strongRecOn generalizing n with
  | ind k ih =>
    obtain ⟨m, hnm, hQ | ⟨hP', hlt⟩⟩ := h k n ⟨hP, hk⟩
    · exact ⟨m, hnm, hQ⟩
    · obtain ⟨m', hmm', hQ⟩ := ih _ hlt m hP' rfl
      exact ⟨m', Nat.le_trans hnm hmm', hQ⟩

/-- `Q` happened by `m`, or `P` has held since and the measure has not grown. -/
private theorem keeps_until {μ : σ → Nat}
    (hkeep : ∀ n, P (path step s l n) → Q (path step s l (n + 1)) ∨
      (P (path step s l (n + 1)) ∧ μ (path step s l (n + 1)) ≤ μ (path step s l n)))
    {n : Nat} (hP : P (path step s l n)) (d : Nat) :
    (∃ m, n ≤ m ∧ Q (path step s l m)) ∨
      (P (path step s l (n + d)) ∧ μ (path step s l (n + d)) ≤ μ (path step s l n)) := by
  induction d with
  | zero => exact .inr ⟨hP, Nat.le_refl _⟩
  | succ d ih =>
    rcases ih with h | ⟨hP', hle⟩
    · exact .inl h
    · rcases hkeep (n + d) hP' with hQ | ⟨hP'', hle'⟩
      · exact .inl ⟨n + d + 1, by omega, hQ⟩
      · exact .inr ⟨hP'', Nat.le_trans hle' hle⟩

/-- **Descent rule**, for labels `H` that keep coming while `P` holds. -/
theorem leads_descend (μ : σ → Nat) (H : ℓ → Prop)
    (hkeep : ∀ n, P (path step s l n) → Q (path step s l (n + 1)) ∨
      (P (path step s l (n + 1)) ∧ μ (path step s l (n + 1)) ≤ μ (path step s l n)))
    (hdrop : ∀ n, P (path step s l n) → H (l n) → Q (path step s l (n + 1)) ∨
      (P (path step s l (n + 1)) ∧ μ (path step s l (n + 1)) < μ (path step s l n)))
    (hserved : ∀ n, P (path step s l n) → ∃ m, n ≤ m ∧ H (l m)) : Leads step s l P Q := by
  refine leads_measure μ fun k => ?_
  rintro n ⟨hP, rfl⟩
  obtain ⟨m, hnm, hH⟩ := hserved n hP
  obtain ⟨d, rfl⟩ := Nat.exists_eq_add_of_le hnm
  rcases keeps_until hkeep hP d with ⟨m, hm, hQ⟩ | ⟨hP', hle⟩
  · exact ⟨m, hm, .inl hQ⟩
  · refine ⟨n + d + 1, by omega, ?_⟩
    rcases hdrop (n + d) hP' hH with hQ | ⟨hP'', hlt⟩
    · exact .inl hQ
    · exact .inr ⟨hP'', Nat.lt_of_lt_of_le hlt hle⟩

/-- The states of a run of finitely many labels, followed by one for ever. -/
theorem path_settled {ls : List ℓ} {idle : ℓ} (hidle : step (runFrom step s ls) idle = runFrom step s ls)
    (n : Nat) (hn : ls.length ≤ n) :
    path step s (fun k => ls.getD k idle) n = runFrom step s ls := by
  have hpre : ∀ k, k ≤ ls.length →
      path step s (fun k => ls.getD k idle) k = runFrom step s (ls.take k) := by
    intro k
    induction k with
    | zero => intro _; rfl
    | succ k ih =>
      intro hk
      show step (path step s _ k) (ls.getD k idle) = _
      rw [ih (by omega), List.take_succ_eq_append_getElem (by omega), runFrom_append,
        List.getD_eq_getElem _ _ (by omega)]
      rfl
  obtain ⟨d, rfl⟩ := Nat.exists_eq_add_of_le hn
  clear hn
  induction d with
  | zero => exact (hpre _ (Nat.le_refl _)).trans (by rw [List.take_length])
  | succ d ih =>
    show step (path step s _ (ls.length + d)) (ls.getD (ls.length + d) idle) = _
    rw [ih, List.getD_eq_default _ _ (by omega), hidle]

end Endless

end Base
