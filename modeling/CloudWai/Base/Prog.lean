import Mathlib.Data.List.Basic

/-!
# Programs that await calls, and the protocols they follow

An `async` function touches the outside world only where it awaits something:
a database request, an engine call, a clock. Between two awaits nothing else
runs. So a function is modelled by the tree of its awaits: `Prog Call Ans ε α`
is either finished (`ret`), failed with an exception (`raise`), or waiting for
the answer to one call and carrying the rest of the function as a continuation.
Every call can fail; what the function does then is in the continuation too.

`Follows δ Q x p` is the typing judgement of a protocol automaton: starting in
stage `x`, every call `p` makes is allowed by `δ` at the stage reached so far,
whatever the answers were, and `Q` holds of the result and the stage in which
`p` ends. It quantifies over every answer that `Possible` admits, so it says
nothing about the world — it is what an interleaved system may assume of one
thread while all the others move.
-/

namespace Base

/-- A computation waiting on calls: `Call` names the calls, `Ans c` is what a
successful `c` answers, `ε` is what a failing one throws. -/
inductive Prog (Call : Type) (Ans : Call → Type) (ε : Type) (α : Type) : Type where
  | ret (a : α)
  | raise (e : ε)
  | await (c : Call) (k : Except ε (Ans c) → Prog Call Ans ε α)

namespace Prog

variable {Call : Type} {Ans : Call → Type} {ε α β γ : Type}

/-- Sequencing; an exception skips the rest. -/
def bind : Prog Call Ans ε α → (α → Prog Call Ans ε β) → Prog Call Ans ε β
  | .ret a, f => f a
  | .raise e, _ => .raise e
  | .await c k, f => .await c fun r => (k r).bind f

/-- `try { p } catch (e) { h e }`. -/
def rescue : Prog Call Ans ε α → (ε → Prog Call Ans ε α) → Prog Call Ans ε α
  | .ret a, _ => .ret a
  | .raise e, h => h e
  | .await c k, h => .await c fun r => (k r).rescue h

instance : Monad (Prog Call Ans ε) where
  pure := .ret
  bind := bind

/-- `await c`: a failed call throws. -/
def call (c : Call) : Prog Call Ans ε (Ans c) :=
  .await c fun
    | .ok a => .ret a
    | .error e => .raise e

/-- `p` with its outcome reified, so that a caller can look at the exception. -/
def attempt (p : Prog Call Ans ε α) : Prog Call Ans ε (Except ε α) :=
  (p.bind fun a => .ret (.ok a)).rescue fun e => .ret (.error e)

/-- A program over a smaller set of calls, run inside a larger one. -/
def embed {Call' : Type} {Ans' : Call' → Type} (f : Call → Call')
    (back : ∀ c, Ans' (f c) → Ans c) : Prog Call Ans ε α → Prog Call' Ans' ε α
  | .ret a => .ret a
  | .raise e => .raise e
  | .await c k => .await (f c) fun r => (k (r.map (back c))).embed f back

@[simp] theorem bind_eq (p : Prog Call Ans ε α) (f : α → Prog Call Ans ε β) :
    (p >>= f) = p.bind f := rfl

@[simp] theorem pure_eq (a : α) : (Pure.pure a : Prog Call Ans ε α) = .ret a := rfl

theorem bind_assoc (p : Prog Call Ans ε α) (f : α → Prog Call Ans ε β)
    (g : β → Prog Call Ans ε γ) : (p.bind f).bind g = p.bind fun a => (f a).bind g := by
  induction p with
  | ret a => rfl
  | raise e => rfl
  | await c k ih =>
    simp only [bind]
    congr 1
    funext r
    exact ih r

theorem bind_ret (p : Prog Call Ans ε α) : p.bind ret = p := by
  induction p with
  | ret a => rfl
  | raise e => rfl
  | await c k ih =>
    simp only [bind]
    congr 1
    funext r
    exact ih r

theorem embed_bind {Call' : Type} {Ans' : Call' → Type} (f : Call → Call')
    (back : ∀ c, Ans' (f c) → Ans c) (p : Prog Call Ans ε α) (g : α → Prog Call Ans ε β) :
    (p.bind g).embed f back = (p.embed f back).bind fun a => (g a).embed f back := by
  induction p with
  | ret a => rfl
  | raise e => rfl
  | await c k ih =>
    simp only [bind, embed]
    congr 1
    funext r
    exact ih _

/-- Every call the program can come to make, whatever it is answered, is in `P`. -/
def Only (P : Call → Prop) : Prog Call Ans ε α → Prop
  | .ret _ => True
  | .raise _ => True
  | .await c k => P c ∧ ∀ r, (k r).Only P

section Only

variable {P : Call → Prop}

theorem only_call {c : Call} (h : P c) : (call c : Prog Call Ans ε (Ans c)).Only P := by
  refine ⟨h, fun r => ?_⟩
  cases r <;> trivial

theorem only_mono {P' : Call → Prop} (h : ∀ c, P c → P' c) {p : Prog Call Ans ε α}
    (hp : p.Only P) : p.Only P' := by
  induction p with
  | ret a => trivial
  | raise e => trivial
  | await c k ih => exact ⟨h c hp.1, fun r => ih r (hp.2 r)⟩

theorem only_bind {p : Prog Call Ans ε α} {f : α → Prog Call Ans ε β} (hp : p.Only P)
    (hf : ∀ a, (f a).Only P) : (p.bind f).Only P := by
  induction p with
  | ret a => exact hf a
  | raise e => trivial
  | await c k ih => exact ⟨hp.1, fun r => ih r (hp.2 r)⟩

theorem only_attempt {p : Prog Call Ans ε α} (hp : p.Only P) : p.attempt.Only P := by
  unfold attempt
  induction p with
  | ret a => trivial
  | raise e => trivial
  | await c k ih => exact ⟨hp.1, fun r => ih r (hp.2 r)⟩

theorem only_embed {Call' : Type} {Ans' : Call' → Type} {P' : Call' → Prop} {f : Call → Call'}
    {back : ∀ c, Ans' (f c) → Ans c} {p : Prog Call Ans ε α} (hp : p.Only fun c => P' (f c)) :
    (p.embed f back).Only P' := by
  induction p with
  | ret a => trivial
  | raise e => trivial
  | await c k ih => exact ⟨hp.1, fun r => ih _ (hp.2 _)⟩

end Only

/-- Run against a state that answers each call at once: no other thread moves
in between, so this is the sequential meaning of a program. -/
def eval {W : Type} (perform : W → (c : Call) → Except ε (Ans c) × W) :
    Prog Call Ans ε α → W → Except ε α × W
  | .ret a, w => (.ok a, w)
  | .raise e, w => (.error e, w)
  | .await c k, w => (k (perform w c).1).eval perform (perform w c).2

section Eval

variable {W : Type} (perform : W → (c : Call) → Except ε (Ans c) × W)

@[simp] theorem eval_ret (a : α) (w : W) :
    (Prog.ret a : Prog Call Ans ε α).eval perform w = (.ok a, w) := rfl

@[simp] theorem eval_raise (e : ε) (w : W) :
    (Prog.raise e : Prog Call Ans ε α).eval perform w = (.error e, w) := rfl

/-- A sequence runs its first half, then its second half from the state that
left, or stops at the exception. -/
theorem eval_bind (p : Prog Call Ans ε α) (f : α → Prog Call Ans ε β) (w : W) :
    (p.bind f).eval perform w =
      match p.eval perform w with
      | (.ok a, w') => (f a).eval perform w'
      | (.error e, w') => (.error e, w') := by
  induction p generalizing w with
  | ret a => rfl
  | raise e => rfl
  | await c k ih =>
    simp only [bind, eval]
    exact ih _ _

theorem eval_call (c : Call) (w : W) :
    (call c : Prog Call Ans ε (Ans c)).eval perform w = perform w c := by
  unfold call
  simp only [eval]
  cases h : perform w c with
  | mk r w' => cases r <;> rfl

theorem eval_attempt (p : Prog Call Ans ε α) (w : W) :
    p.attempt.eval perform w = (.ok (p.eval perform w).1, (p.eval perform w).2) := by
  unfold attempt
  induction p generalizing w with
  | ret a => rfl
  | raise e => rfl
  | await c k ih =>
    simp only [bind, rescue, eval]
    exact ih _ _

end Eval

end Prog

/-! ## Protocol automata -/

section Follows

variable {Call : Type} {Ans : Call → Type} {ε α β X : Type}

/-- A protocol over stages `X`: `next x c r` is the stage after call `c` was
made in stage `x` and answered `r`, or `none` where the protocol forbids the
call. `Possible c r` are the answers the world can give. -/
structure Protocol (Call : Type) (Ans : Call → Type) (ε X : Type) where
  next : X → (c : Call) → Except ε (Ans c) → Option X
  Possible : (c : Call) → Except ε (Ans c) → Prop

/-- `p` started in stage `x` makes only calls the protocol allows, and ends in
an outcome and a stage satisfying `Q`. -/
def Protocol.Follows (P : Protocol Call Ans ε X) (Q : Except ε α → X → Prop) :
    X → Prog Call Ans ε α → Prop
  | x, .ret a => Q (.ok a) x
  | x, .raise e => Q (.error e) x
  | x, .await c k =>
    ∀ r, P.Possible c r → ∃ x', P.next x c r = some x' ∧ P.Follows Q x' (k r)

namespace Protocol

variable {P : Protocol Call Ans ε X} {Q Q' : Except ε α → X → Prop}

theorem follows_mono (h : ∀ r x, Q r x → Q' r x) {p : Prog Call Ans ε α} {x : X}
    (hp : P.Follows Q x p) : P.Follows Q' x p := by
  induction p generalizing x with
  | ret a => exact h _ _ hp
  | raise e => exact h _ _ hp
  | await c k ih =>
    intro r hr
    obtain ⟨x', hx, hk⟩ := hp r hr
    exact ⟨x', hx, ih r hk⟩

/-- **Sequencing rule.** -/
theorem follows_bind {R : Except ε β → X → Prop} {p : Prog Call Ans ε α}
    {f : α → Prog Call Ans ε β} {x : X} (hp : P.Follows Q x p)
    (hok : ∀ a x', Q (.ok a) x' → P.Follows R x' (f a))
    (herr : ∀ e x', Q (.error e) x' → R (.error e) x') :
    P.Follows R x (p.bind f) := by
  induction p generalizing x with
  | ret a => exact hok a x hp
  | raise e => exact herr e x hp
  | await c k ih =>
    intro r hr
    obtain ⟨x', hx, hk⟩ := hp r hr
    exact ⟨x', hx, ih r hk⟩

/-- **Handler rule.** -/
theorem follows_rescue {R : Except ε α → X → Prop} {p : Prog Call Ans ε α}
    {h : ε → Prog Call Ans ε α} {x : X} (hp : P.Follows Q x p)
    (hok : ∀ a x', Q (.ok a) x' → R (.ok a) x')
    (herr : ∀ e x', Q (.error e) x' → P.Follows R x' (h e)) :
    P.Follows R x (p.rescue h) := by
  induction p generalizing x with
  | ret a => exact hok a x hp
  | raise e => exact herr e x hp
  | await c k ih =>
    intro r hr
    obtain ⟨x', hx, hk⟩ := hp r hr
    exact ⟨x', hx, ih r hk⟩

/-- A reified outcome: what `p` ends with is what `attempt` returns. -/
theorem follows_attempt {R : Except ε (Except ε α) → X → Prop} {p : Prog Call Ans ε α} {x : X}
    (hp : P.Follows (fun r x' => R (.ok r) x') x p) : P.Follows R x p.attempt := by
  unfold Prog.attempt
  refine follows_rescue (Q := fun r x' =>
    match r with
    | .ok s => R (.ok s) x'
    | .error e => R (.ok (.error e)) x') ?_ (fun _ _ h => h) (fun _ _ h => h)
  exact follows_bind hp (fun _ _ h => h) (fun _ _ h => h)

/-- A single awaited call. -/
theorem follows_call {c : Call} {Q : Except ε (Ans c) → X → Prop} {x : X}
    (h : ∀ r, P.Possible c r → ∃ x', P.next x c r = some x' ∧ Q r x') :
    P.Follows Q x (Prog.call c) := by
  intro r hr
  obtain ⟨x', hx, hq⟩ := h r hr
  refine ⟨x', hx, ?_⟩
  cases r with
  | ok a => exact hq
  | error e => exact hq

/-- A program run inside a larger set of calls, whose protocol treats its calls alike. -/
theorem follows_embed {Call' : Type} {Ans' : Call' → Type} {P' : Protocol Call' Ans' ε X}
    {f : Call → Call'} {back : ∀ c, Ans' (f c) → Ans c}
    (hpossible : ∀ c r, P'.Possible (f c) r → P.Possible c (r.map (back c)))
    (hnext : ∀ x c r, P'.next x (f c) r = P.next x c (r.map (back c))) {p : Prog Call Ans ε α}
    {x : X} (hp : P.Follows Q x p) : P'.Follows Q x (p.embed f back) := by
  induction p generalizing x with
  | ret a => exact hp
  | raise e => exact hp
  | await c k ih =>
    intro r hr
    obtain ⟨x', hx, hk⟩ := hp _ (hpossible c r hr)
    exact ⟨x', (hnext x c r).trans hx, ih _ hk⟩

/-- A program whose calls all leave a stage alone stays in it. -/
theorem follows_of_only {S : Call → Prop} {p : Prog Call Ans ε α} {x : X} (hp : p.Only S)
    (h : ∀ c, S c → ∀ r, P.Possible c r → P.next x c r = some x) :
    P.Follows (fun _ x' => x' = x) x p := by
  induction p with
  | ret a => rfl
  | raise e => rfl
  | await c k ih =>
    intro r hr
    exact ⟨x, h c hp.1 r hr, ih r (hp.2 r)⟩

end Protocol

end Follows

end Base
