import Mathlib.Data.List.Basic

/-!
# Deterministic labelled machines

A system whose every nondeterministic choice — which thread moves, what an
engine answers, whether a request is lost — is part of the label is a function
`step : σ → ℓ → σ`, and a run is the fold of a list of labels. `Always P`
speaks about every state of a run, `EachStep C` about every step of it, both by
recursion on the labels, so that a run lemma is an induction whose step case is
one step lemma.

`always_iff_eachStep` is the exact form: when a structural invariant holds
anyway, and from a state satisfying `P` a step re-establishes `P` exactly if it
meets `C`, then `P` holds throughout a run exactly if every step meets `C`.
-/

namespace Base

section Machine

variable {σ ℓ : Type} (step : σ → ℓ → σ)

/-- The state after a list of labels. -/
def runFrom (s : σ) (ls : List ℓ) : σ := ls.foldl step s

/-- `P` holds in every state of the run, the first and the last included. -/
def Always (P : σ → Prop) : σ → List ℓ → Prop
  | s, [] => P s
  | s, l :: ls => P s ∧ Always P (step s l) ls

/-- `C` holds of every step of the run, read in the state before the step. -/
def EachStep (C : σ → ℓ → Prop) : σ → List ℓ → Prop
  | _, [] => True
  | s, l :: ls => C s l ∧ EachStep C (step s l) ls

/-- `R` holds of every two states of the run, the earlier one first. -/
def Pairs (R : σ → σ → Prop) (s : σ) (ls : List ℓ) : Prop :=
  ∀ pre mid post, ls = pre ++ (mid ++ post) →
    R (runFrom step s pre) (runFrom step s (pre ++ mid))

variable {step} {P J : σ → Prop} {C D : σ → ℓ → Prop} {s : σ} {ls : List ℓ}

@[simp] theorem runFrom_nil : runFrom step s [] = s := rfl

@[simp] theorem runFrom_cons {l : ℓ} : runFrom step s (l :: ls) = runFrom step (step s l) ls := rfl

theorem runFrom_append {ls' : List ℓ} :
    runFrom step s (ls ++ ls') = runFrom step (runFrom step s ls) ls' := List.foldl_append

/-- **Invariant rule**, under a condition on the steps. -/
theorem always_of_inv (h0 : J s) (hJ : ∀ s l, J s → C s l → J (step s l))
    (hP : ∀ s, J s → P s) (hC : EachStep step C s ls) : Always step P s ls := by
  induction ls generalizing s with
  | nil => exact hP s h0
  | cons l ls ih => exact ⟨hP s h0, ih (hJ s l h0 hC.1) hC.2⟩

/-- The same for a property of steps. -/
theorem eachStep_of_inv (h0 : J s) (hJ : ∀ s l, J s → C s l → J (step s l))
    (hD : ∀ s l, J s → C s l → D s l) (hC : EachStep step C s ls) : EachStep step D s ls := by
  induction ls generalizing s with
  | nil => trivial
  | cons l ls ih => exact ⟨hD s l h0 hC.1, ih (hJ s l h0 hC.1) hC.2⟩

/-- An unconditional invariant holds in the last state of every run. -/
theorem inv_runFrom (h0 : J s) (hJ : ∀ s l, J s → J (step s l)) : J (runFrom step s ls) := by
  induction ls generalizing s with
  | nil => exact h0
  | cons l ls ih => exact ih (hJ s l h0)

/-- So does what follows of each step from it. -/
theorem inv_eachStep (h0 : J s) (hJ : ∀ s l, J s → J (step s l)) (hD : ∀ s l, J s → D s l) :
    EachStep step D s ls := by
  induction ls generalizing s with
  | nil => trivial
  | cons l ls ih => exact ⟨hD s l h0, ih (hJ s l h0)⟩

/-- **Exact conditions.** If each step keeps `P` precisely when it meets `C`,
a run keeps `P` precisely when all its steps meet `C`. -/
theorem always_iff_eachStep (hJ0 : J s) (hJ : ∀ s l, J s → J (step s l)) (hP0 : P s)
    (hiff : ∀ s l, J s → P s → (P (step s l) ↔ C s l)) :
    Always step P s ls ↔ EachStep step C s ls := by
  induction ls generalizing s with
  | nil => exact iff_of_true hP0 trivial
  | cons l ls ih =>
    constructor
    · intro h
      have hP1 : P (step s l) := by
        cases ls with
        | nil => exact h.2
        | cons _ _ => exact h.2.1
      exact ⟨(hiff s l hJ0 hP0).mp hP1, (ih (hJ s l hJ0) hP1).mp h.2⟩
    · intro h
      have hP1 : P (step s l) := (hiff s l hJ0 hP0).mpr h.1
      exact ⟨hP0, (ih (hJ s l hJ0) hP1).mpr h.2⟩

/-- Throughout a run is at its start and after every step. -/
theorem always_iff_after : Always step P s ls ↔ P s ∧ EachStep step (fun s l => P (step s l)) s ls := by
  induction ls generalizing s with
  | nil => exact (and_iff_left trivial).symm
  | cons l ls ih =>
    constructor
    · rintro ⟨hs, hrest⟩
      exact ⟨hs, ih.mp hrest⟩
    · rintro ⟨hs, hrest⟩
      exact ⟨hs, ih.mpr hrest⟩

/-- The exact form for a property of steps: where `C` keeps the invariant under
which the property and `C` are the same, they are the same of whole runs. -/
theorem eachStep_iff (h0 : J s) (hJ : ∀ s l, J s → C s l → J (step s l))
    (hiff : ∀ s l, J s → (D s l ↔ C s l)) : EachStep step D s ls ↔ EachStep step C s ls := by
  induction ls generalizing s with
  | nil => exact Iff.rfl
  | cons l ls ih =>
    constructor
    · rintro ⟨hd, hrest⟩
      have hc := (hiff s l h0).mp hd
      exact ⟨hc, (ih (hJ s l h0 hc)).mp hrest⟩
    · rintro ⟨hc, hrest⟩
      exact ⟨(hiff s l h0).mpr hc, (ih (hJ s l h0 hc)).mpr hrest⟩

theorem eachStep_and : EachStep step (fun s l => C s l ∧ D s l) s ls ↔
    EachStep step C s ls ∧ EachStep step D s ls := by
  induction ls generalizing s with
  | nil => exact (and_iff_left trivial).symm
  | cons l ls ih => exact (and_congr_right fun _ => ih).trans and_and_and_comm

/-- `Always` is a statement about each prefix of the run. -/
theorem always_iff_prefixes :
    Always step P s ls ↔ ∀ pre post, ls = pre ++ post → P (runFrom step s pre) := by
  induction ls generalizing s with
  | nil =>
    constructor
    · intro h pre post hsplit
      obtain ⟨rfl, rfl⟩ := List.append_eq_nil_iff.mp hsplit.symm
      exact h
    · intro h
      exact h [] [] rfl
  | cons l ls ih =>
    constructor
    · rintro ⟨hs, hrest⟩ pre post hsplit
      cases pre with
      | nil => exact hs
      | cons l' pre =>
        rw [List.cons_append, List.cons.injEq] at hsplit
        obtain ⟨rfl, hsplit⟩ := hsplit
        exact ih.mp hrest pre post hsplit
    · intro h
      refine ⟨h [] (l :: ls) rfl, ih.mpr ?_⟩
      intro pre post hsplit
      exact h (l :: pre) post (by rw [hsplit, List.cons_append])

/-- A condition on the labels alone goes along with one on the steps. -/
theorem EachStep.and {L : ℓ → Prop} (h : EachStep step C s ls) (hL : ∀ l ∈ ls, L l) :
    EachStep step (fun s l => C s l ∧ L l) s ls := by
  induction ls generalizing s with
  | nil => trivial
  | cons l ls ih =>
    exact ⟨⟨h.1, hL l List.mem_cons_self⟩, ih h.2 fun l' hl' => hL l' (List.mem_cons_of_mem l hl')⟩

/-- A step condition, read at one step of the run. -/
theorem EachStep.at {pre post : List ℓ} {l : ℓ} (h : EachStep step C s (pre ++ l :: post)) :
    C (runFrom step s pre) l := by
  induction pre generalizing s with
  | nil => exact h.1
  | cons l' pre ih => exact ih h.2

/-- What stays true step by step is true after the run. -/
theorem runFrom_of_inv {mid post : List ℓ} (hJ : ∀ s l, J s → C s l → J (step s l))
    (hP : ∀ s l, J s → C s l → P s → P (step s l)) (h0 : J s) (hs : P s)
    (hC : EachStep step C s (mid ++ post)) : P (runFrom step s mid) := by
  induction mid generalizing s with
  | nil => exact hs
  | cons l mid ih => exact ih (hJ s l h0 hC.1) (hP s l h0 hC.1 hs) hC.2

/-- **Invariant rule for pairs**: a later state stays related to an earlier one. -/
theorem pairs_of_inv {R : σ → σ → Prop} (h0 : J s) (hJ : ∀ s l, J s → C s l → J (step s l))
    (hrefl : ∀ s, J s → R s s) (hR : ∀ x y l, J y → C y l → R x y → R x (step y l))
    (hC : EachStep step C s ls) : Pairs step R s ls := by
  intro pre mid post hsplit
  subst hsplit
  rw [runFrom_append]
  induction pre generalizing s with
  | nil => exact runFrom_of_inv hJ (hR s) h0 (hrefl s h0) hC
  | cons l pre ih => exact ih (hJ s l h0 hC.1) hC.2

/-- A step's two states are a pair. -/
theorem eachStep_of_pairs {R : σ → σ → Prop} (h : Pairs step R s ls) :
    EachStep step (fun s l => R s (step s l)) s ls := by
  induction ls generalizing s with
  | nil => trivial
  | cons l ls ih =>
    refine ⟨h [] [l] ls rfl, ih ?_⟩
    intro pre mid post hsplit
    exact h (l :: pre) mid post (by rw [hsplit]; rfl)

/-- A run is checked step by step. -/
def decideEachStep (step : σ → ℓ → σ) (C : σ → ℓ → Prop) [∀ s l, Decidable (C s l)] :
    (s : σ) → (ls : List ℓ) → Decidable (EachStep step C s ls)
  | _, [] => isTrue trivial
  | s, l :: ls =>
    have := decideEachStep step C (step s l) ls
    inferInstanceAs (Decidable (C s l ∧ EachStep step C (step s l) ls))

instance [∀ s l, Decidable (C s l)] : Decidable (EachStep step C s ls) := decideEachStep step C s ls

end Machine

end Base
