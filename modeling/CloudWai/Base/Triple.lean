import CloudWai.Base.Prog

/-!
# Pre- and postconditions of a program run alone

`p.Ends perform Q w` says that `p`, run from `w` with nobody else moving, ends
in an outcome and a state of which `Q` holds. It is the weakest precondition of
`eval`, with one rule for each way a program is built; a program that throws is
held to `Q` as well, so a rule for sequences has a case for the exception.

`ends_of_only` is the invariant rule: what every call of a kind keeps, a program
that makes no other calls keeps too. `ends_iff` is the way back to `eval`.
-/

namespace Base

namespace Prog

variable {Call : Type} {Ans : Call → Type} {ε α β W : Type}

/-- `Q` holds of the outcome and of the state that `p` leaves. -/
def Ends (perform : W → (c : Call) → Except ε (Ans c) × W) (Q : Except ε α → W → Prop)
    (p : Prog Call Ans ε α) (w : W) : Prop :=
  Q (p.eval perform w).1 (p.eval perform w).2

variable {perform : W → (c : Call) → Except ε (Ans c) × W} {Q R : Except ε α → W → Prop} {w : W}

theorem ends_ret {a : α} (h : Q (.ok a) w) : (ret a : Prog Call Ans ε α).Ends perform Q w := h

theorem ends_raise {e : ε} (h : Q (.error e) w) :
    (raise e : Prog Call Ans ε α).Ends perform Q w := h

theorem ends_mono (h : ∀ r w', Q r w' → R r w') {p : Prog Call Ans ε α}
    (hp : p.Ends perform Q w) : p.Ends perform R w := h _ _ hp

theorem ends_await {c : Call} {k : Except ε (Ans c) → Prog Call Ans ε α}
    (h : (k (perform w c).1).Ends perform Q (perform w c).2) :
    (await c k).Ends perform Q w := h

/-- **Sequencing rule.** -/
theorem ends_bind {R : Except ε β → W → Prop} {p : Prog Call Ans ε α}
    {f : α → Prog Call Ans ε β} (hp : p.Ends perform Q w)
    (hok : ∀ a w', Q (.ok a) w' → (f a).Ends perform R w')
    (herr : ∀ e w', Q (.error e) w' → R (.error e) w') :
    (p.bind f).Ends perform R w := by
  unfold Ends at hp ⊢
  rw [eval_bind]
  cases h : p.eval perform w with
  | mk r w' =>
    rw [h] at hp
    cases r with
    | ok a => exact hok a w' hp
    | error e => exact herr e w' hp

/-- A reified outcome. -/
theorem ends_attempt {R : Except ε (Except ε α) → W → Prop} {p : Prog Call Ans ε α}
    (hp : p.Ends perform (fun r w' => R (.ok r) w') w) : p.attempt.Ends perform R w := by
  unfold Ends
  rw [eval_attempt]
  exact hp

/-- **Invariant rule.** -/
theorem ends_of_only {S : Call → Prop} {I : W → Prop} {p : Prog Call Ans ε α} (hp : p.Only S)
    (hI : ∀ w c, I w → S c → I (perform w c).2) (hw : I w) :
    p.Ends perform (fun _ w' => I w') w := by
  induction p generalizing w with
  | ret a => exact hw
  | raise e => exact hw
  | await c k ih => exact ih _ (hp.2 _) (hI w c hw hp.1)

end Prog

/-- **Protocol rule.** What every move of a protocol keeps of its stage and the state, a
program that follows it keeps. -/
theorem Protocol.ends_of_follows {Call : Type} {Ans : Call → Type} {ε α W X : Type}
    {perform : W → (c : Call) → Except ε (Ans c) × W} {P : Protocol Call Ans ε X}
    {Q : Except ε α → X → Prop} {I : X → W → Prop} {p : Prog Call Ans ε α} {x : X} {w : W}
    (hp : P.Follows Q x p) (hpossible : ∀ w c, P.Possible c (perform w c).1)
    (hI : ∀ x w c x', I x w → P.next x c (perform w c).1 = some x' → I x' (perform w c).2)
    (hw : I x w) : p.Ends perform (fun r w' => ∃ x', Q r x' ∧ I x' w') w := by
  induction p generalizing x w with
  | ret a => exact ⟨x, hp, hw⟩
  | raise e => exact ⟨x, hp, hw⟩
  | await c k ih =>
    obtain ⟨x', hnext, hk⟩ := hp _ (hpossible w c)
    exact ih _ hk (hI x w c x' hw hnext)

end Base
