import CloudWai.Base.Prog
import CloudWai.Base.Machine
import Mathlib.Logic.Function.Basic

/-!
# Threads interleaved at their awaits

A `Host` runs any number of programs over one shared world. A thread moves one
awaited call at a time; between two calls of one thread any other thread may
move, a thread may vanish (its process died), and the world may drift by itself
(time passes). The label of a move fixes everything the model does not decide —
which thread moves, the answer the outside gives — so the host is a
deterministic machine and a run is a list of moves.

The ghost record of a run is its `log`: who made which call and what was
answered. A thread's own part of the log is its `past`.

If every task's body follows a protocol, then in every reachable state each
live thread sits at a definite stage of that protocol and what is left of its
program follows it from there (`typed_runFrom`). Proofs about the whole system
then reason about stages, and never open a program.
-/

namespace Base

/-- One call made and the answer it got. -/
structure Event (Call : Type) (Ans : Call → Type) (ε : Type) where
  call : Call
  answer : Except ε (Ans call)

/-- A running task: what it has seen, newest first, and what is left of it. -/
structure Thread (Task Call : Type) (Ans : Call → Type) (ε : Type) where
  task : Task
  past : List (Event Call Ans ε)
  rest : Prog Call Ans ε Unit

/-- A thread with nothing left to await is gone. -/
def Thread.park {Task Call : Type} {Ans : Call → Type} {ε : Type}
    (th : Thread Task Call Ans ε) : Option (Thread Task Call Ans ε) :=
  match th.rest with
  | .await _ _ => some th
  | _ => none

/-- The world's side of the calls: `perform w o c` answers `c` in world `w`
where `o` settles what is not determined by `w`; `drift` is change from outside;
`body` is the program of each task. -/
structure Host (W O D Task Call : Type) (Ans : Call → Type) (ε : Type) where
  perform : W → O → (c : Call) → Except ε (Ans c) × W
  drift : W → D → W
  body : Task → Prog Call Ans ε Unit

/-- The shared world, the live threads by number, the next number, and the log
of all calls, newest first. -/
structure Sys (W Task Call : Type) (Ans : Call → Type) (ε : Type) where
  world : W
  live : Nat → Option (Thread Task Call Ans ε)
  born : Nat
  log : List (Nat × Event Call Ans ε)

/-- One move of the system. -/
inductive Move (Task O D : Type) where
  | spawn (t : Task)
  | exec (tid : Nat) (o : O)
  | crash (tid : Nat)
  | drift (d : D)

section Host

variable {W O D Task Call : Type} {Ans : Call → Type} {ε X : Type}

/-- The system before anything has run. -/
def Sys.start (w : W) : Sys W Task Call Ans ε := ⟨w, fun _ => none, 0, []⟩

/-- The call thread `tid` is waiting on. -/
def Sys.pending (s : Sys W Task Call Ans ε) (tid : Nat) : Option Call :=
  match s.live tid with
  | some ⟨_, _, .await c _⟩ => some c
  | _ => none

/-- One move. A crash or a step of a thread that is not there changes nothing. -/
def Host.step (H : Host W O D Task Call Ans ε) (s : Sys W Task Call Ans ε) :
    Move Task O D → Sys W Task Call Ans ε
  | .spawn t =>
    { s with
      live := Function.update s.live s.born (Thread.park ⟨t, [], H.body t⟩)
      born := s.born + 1 }
  | .exec tid o =>
    match s.live tid with
    | some ⟨t, past, .await c k⟩ =>
      let a := H.perform s.world o c
      { s with
        world := a.2
        live := Function.update s.live tid (Thread.park ⟨t, ⟨c, a.1⟩ :: past, k a.1⟩)
        log := (tid, ⟨c, a.1⟩) :: s.log }
    | _ => s
  | .crash tid => { s with live := Function.update s.live tid none }
  | .drift d => { s with world := H.drift s.world d }

/-- The state after a list of moves. -/
def Host.run (H : Host W O D Task Call Ans ε) (s : Sys W Task Call Ans ε)
    (ls : List (Move Task O D)) : Sys W Task Call Ans ε :=
  runFrom H.step s ls

/-- What thread `tid` did, newest first. -/
def eventsOf (tid : Nat) (log : List (Nat × Event Call Ans ε)) : List (Event Call Ans ε) :=
  (log.filter fun e => e.1 == tid).map Prod.snd

@[simp] theorem eventsOf_cons_self (tid : Nat) (e : Event Call Ans ε)
    (log : List (Nat × Event Call Ans ε)) :
    eventsOf tid ((tid, e) :: log) = e :: eventsOf tid log := by
  simp [eventsOf]

@[simp] theorem eventsOf_cons_ne {i tid : Nat} (h : i ≠ tid) (e : Event Call Ans ε)
    (log : List (Nat × Event Call Ans ε)) :
    eventsOf tid ((i, e) :: log) = eventsOf tid log := by
  simp [eventsOf, h]

theorem park_eq_some {th th' : Thread Task Call Ans ε} (h : th.park = some th') :
    th' = th ∧ ∃ c k, th.rest = .await c k := by
  unfold Thread.park at h
  split at h
  next c k hr => exact ⟨(Option.some.inj h).symm, c, k, hr⟩
  next => exact absurd h (by simp)

/-- A thread that was not parked has ended, one way or the other. -/
theorem park_eq_none {th : Thread Task Call Ans ε} (h : th.park = none) :
    th.rest = .ret () ∨ ∃ e, th.rest = .raise e := by
  unfold Thread.park at h
  split at h
  next => exact absurd h (by simp)
  next hr =>
    cases hrest : th.rest with
    | ret a => exact .inl rfl
    | raise e => exact .inr ⟨e, rfl⟩
    | await c k => exact absurd hrest (hr c k)

/-- **Every live thread** was there before, is new, or is what the call it made left of it. -/
theorem live_step {H : Host W O D Task Call Ans ε} {s : Sys W Task Call Ans ε}
    {l : Move Task O D} {tid : Nat} {th : Thread Task Call Ans ε}
    (h : (H.step s l).live tid = some th) :
    s.live tid = some th ∨ (∃ t, l = .spawn t ∧ th = ⟨t, [], H.body t⟩) ∨
      ∃ o c k t past, l = .exec tid o ∧ s.live tid = some ⟨t, past, .await c k⟩ ∧
        th = ⟨t, ⟨c, (H.perform s.world o c).1⟩ :: past, k (H.perform s.world o c).1⟩ := by
  cases l with
  | spawn t =>
    simp only [Host.step] at h
    by_cases hi : tid = s.born
    · rw [hi, Function.update_self] at h
      exact .inr (.inl ⟨t, rfl, (park_eq_some h).1⟩)
    · rw [Function.update_of_ne hi] at h
      exact .inl h
  | exec i o =>
    simp only [Host.step] at h
    split at h
    next t past c k hlive =>
      simp only at h
      by_cases hi : tid = i
      · subst hi
        rw [Function.update_self] at h
        exact .inr (.inr ⟨o, c, k, t, past, rfl, hlive, (park_eq_some h).1⟩)
      · rw [Function.update_of_ne hi] at h
        exact .inl h
    next => exact .inl h
  | crash i =>
    simp only [Host.step] at h
    by_cases hi : tid = i
    · rw [hi, Function.update_self] at h
      cases h
    · rw [Function.update_of_ne hi] at h
      exact .inl h
  | drift d => exact .inl h

/-! ## Bookkeeping that holds of every run -/

/-- Numbers are given out once, a live thread is waiting, and it has seen
exactly its own part of the log. -/
structure Sys.Sane (s : Sys W Task Call Ans ε) : Prop where
  fresh : ∀ tid, s.born ≤ tid → s.live tid = none ∧ eventsOf tid s.log = []
  past : ∀ tid th, s.live tid = some th → th.past = eventsOf tid s.log
  waits : ∀ tid th, s.live tid = some th → ∃ c k, th.rest = .await c k

theorem sane_start (w : W) : (Sys.start w : Sys W Task Call Ans ε).Sane where
  fresh _ _ := ⟨rfl, rfl⟩
  past _ _ h := absurd h (by simp [Sys.start])
  waits _ _ h := absurd h (by simp [Sys.start])

/-- Every step keeps the numbers of the threads in order. -/
theorem sane_step (H : Host W O D Task Call Ans ε) {s : Sys W Task Call Ans ε} (h : s.Sane)
    (l : Move Task O D) : (H.step s l).Sane := by
  cases l with
  | spawn t =>
    refine ⟨?_, ?_, ?_⟩
    · intro tid htid
      have hne : tid ≠ s.born := by
        simp only [Host.step] at htid
        omega
      simp only [Host.step, Function.update_of_ne hne] at htid ⊢
      exact h.fresh tid (by omega)
    · intro tid th hth
      simp only [Host.step] at hth ⊢
      by_cases htid : tid = s.born
      · rw [htid, Function.update_self] at hth
        obtain ⟨rfl, _⟩ := park_eq_some hth
        rw [htid, (h.fresh s.born (Nat.le_refl _)).2]
      · rw [Function.update_of_ne htid] at hth
        exact h.past tid th hth
    · intro tid th hth
      simp only [Host.step] at hth
      by_cases htid : tid = s.born
      · rw [htid, Function.update_self] at hth
        obtain ⟨rfl, hw⟩ := park_eq_some hth
        exact hw
      · rw [Function.update_of_ne htid] at hth
        exact h.waits tid th hth
  | exec tid o =>
    simp only [Host.step]
    split
    next t past c k hlive =>
      have hlt : tid < s.born := by
        by_contra hge
        rw [(h.fresh tid (by omega)).1] at hlive
        exact absurd hlive (by simp)
      refine ⟨?_, ?_, ?_⟩
      · intro i hi
        have hne : i ≠ tid := by
          simp only at hi
          omega
        simp only [Function.update_of_ne hne, eventsOf_cons_ne hne.symm]
        exact h.fresh i hi
      · intro i th hth
        simp only at hth ⊢
        by_cases hi : i = tid
        · rw [hi, Function.update_self] at hth
          obtain ⟨rfl, _⟩ := park_eq_some hth
          rw [hi, eventsOf_cons_self, ← h.past tid _ hlive]
        · rw [Function.update_of_ne hi] at hth
          rw [eventsOf_cons_ne (Ne.symm hi)]
          exact h.past i th hth
      · intro i th hth
        simp only at hth
        by_cases hi : i = tid
        · rw [hi, Function.update_self] at hth
          obtain ⟨rfl, hw⟩ := park_eq_some hth
          exact hw
        · rw [Function.update_of_ne hi] at hth
          exact h.waits i th hth
    next => exact h
  | crash tid =>
    refine ⟨?_, ?_, ?_⟩
    · intro i hi
      refine ⟨?_, (h.fresh i hi).2⟩
      simp only [Host.step]
      by_cases hit : i = tid
      · rw [hit, Function.update_self]
      · rw [Function.update_of_ne hit]
        exact (h.fresh i hi).1
    all_goals
      intro i th hth
      simp only [Host.step] at hth
      by_cases hit : i = tid
      · rw [hit, Function.update_self] at hth
        exact absurd hth (by simp)
      · rw [Function.update_of_ne hit] at hth
        first
        | exact h.past i th hth
        | exact h.waits i th hth
  | drift d => exact ⟨h.fresh, h.past, h.waits⟩

/-! ## Threads that make only some calls -/

/-- No live thread can come to make another call. -/
def Sys.Only (P : Call → Prop) (s : Sys W Task Call Ans ε) : Prop :=
  ∀ tid th, s.live tid = some th → th.rest.Only P

section Only

variable {P : Call → Prop} {J : W → Prop} {H : Host W O D Task Call Ans ε}
  {s : Sys W Task Call Ans ε} {l : Move Task O D}

theorem only_start (w : W) : (Sys.start w : Sys W Task Call Ans ε).Only P :=
  fun _ _ h => absurd h (by simp [Sys.start])

theorem only_step (hspawn : ∀ t, l = .spawn t → (H.body t).Only P) (h : s.Only P) :
    (H.step s l).Only P := by
  intro tid th hth
  rcases live_step hth with hold | ⟨t, hl, rfl⟩ | ⟨o, c, k, t, past, -, hold, rfl⟩
  · exact h tid th hold
  · exact hspawn t hl
  · exact (h tid _ hold).2 _

/-- What those calls and the outside keep of the world, a move keeps. -/
theorem Sys.Only.world (h : s.Only P) (hcall : ∀ w o c, P c → J w → J (H.perform w o c).2)
    (hdrift : ∀ w d, J w → J (H.drift w d)) (hJ : J s.world) : J (H.step s l).world := by
  cases l with
  | spawn t => exact hJ
  | exec tid o =>
    simp only [Host.step]
    split
    next t past c k hlive => exact hcall _ _ _ (h tid _ hlive).1 hJ
    next => exact hJ
  | crash tid => exact hJ
  | drift d => exact hdrift _ _ hJ

end Only

/-! ## Threads that follow a protocol -/

/-- The stage a list of events (newest first) leads to from `x`. -/
def stageAfter (P : Protocol Call Ans ε X) (x : X) : List (Event Call Ans ε) → Option X
  | [] => some x
  | e :: past => (stageAfter P x past).bind fun y => P.next y e.call e.answer

/-- The stage of thread `tid`, tasks starting at `x0`. -/
def Sys.stage (P : Protocol Call Ans ε X) (x0 : Task → X) (s : Sys W Task Call Ans ε)
    (tid : Nat) : Option X :=
  (s.live tid).bind fun th => stageAfter P (x0 th.task) th.past

/-- What a protocol demands of a task: its body follows it from the task's first
stage, and ends as `Q` says. -/
structure Duty (Task Call : Type) (Ans : Call → Type) (ε X : Type) where
  protocol : Protocol Call Ans ε X
  first : Task → X
  ends : Task → Except ε Unit → X → Prop

/-- Every live thread is at a stage of the protocol and follows it from there. -/
def Sys.Typed (Y : Duty Task Call Ans ε X) (s : Sys W Task Call Ans ε) : Prop :=
  ∀ tid th, s.live tid = some th →
    ∃ x, stageAfter Y.protocol (Y.first th.task) th.past = some x ∧
      Y.protocol.Follows (Y.ends th.task) x th.rest

/-- The move `l` is answered within what the protocol calls possible. -/
def Host.Answers (H : Host W O D Task Call Ans ε) (Y : Duty Task Call Ans ε X) (w : W) : Prop :=
  ∀ o c, Y.protocol.Possible c (H.perform w o c).1

theorem typed_start (Y : Duty Task Call Ans ε X) (w : W) :
    (Sys.start w : Sys W Task Call Ans ε).Typed Y :=
  fun _ _ h => absurd h (by simp [Sys.start])

/-- A call made by a typed thread is one its protocol allows, whatever the
answer, and leaves the thread typed at the next stage. -/
theorem typed_call {Y : Duty Task Call Ans ε X} {s : Sys W Task Call Ans ε} (hT : s.Typed Y)
    {tid : Nat} {t : Task} {past : List (Event Call Ans ε)} {c : Call}
    {k : Except ε (Ans c) → Prog Call Ans ε Unit}
    (hlive : s.live tid = some ⟨t, past, .await c k⟩) {r : Except ε (Ans c)}
    (hr : Y.protocol.Possible c r) :
    ∃ x x', s.stage Y.protocol Y.first tid = some x ∧ Y.protocol.next x c r = some x' ∧
      stageAfter Y.protocol (Y.first t) (⟨c, r⟩ :: past) = some x' ∧
      Y.protocol.Follows (Y.ends t) x' (k r) := by
  obtain ⟨x, hx, hf⟩ := hT tid _ hlive
  obtain ⟨x', hx', hk⟩ := hf r hr
  refine ⟨x, x', ?_, hx', ?_, hk⟩
  · rw [Sys.stage, hlive]
    exact hx
  · rw [stageAfter, hx]
    exact hx'

theorem typed_step {H : Host W O D Task Call Ans ε} {Y : Duty Task Call Ans ε X}
    (hbody : ∀ t, Y.protocol.Follows (Y.ends t) (Y.first t) (H.body t))
    {s : Sys W Task Call Ans ε} (hans : H.Answers Y s.world) (hT : s.Typed Y)
    (l : Move Task O D) : (H.step s l).Typed Y := by
  intro tid th hth
  rcases live_step hth with hold | ⟨t, -, rfl⟩ | ⟨o, c, k, t, past, -, hold, rfl⟩
  · exact hT tid th hold
  · exact ⟨Y.first t, rfl, hbody t⟩
  · obtain ⟨_, x', _, _, hx', hk⟩ := typed_call hT hold (hans o c)
    exact ⟨x', hx', hk⟩

/-! ## One move, seen as a move of the stages -/

/-- What a call of thread `tid` does to the system: the world answers `c`, the
log records it, and the thread's stage moves as the protocol says — or the
thread ended there, as its duty says it may. -/
structure Called (H : Host W O D Task Call Ans ε) (Y : Duty Task Call Ans ε X)
    (s s' : Sys W Task Call Ans ε) (tid : Nat) (o : O) (c : Call) (x x' : X) : Prop where
  was : s.stage Y.protocol Y.first tid = some x
  pending : s.pending tid = some c
  moves : Y.protocol.next x c (H.perform s.world o c).1 = some x'
  world : s'.world = (H.perform s.world o c).2
  log : s'.log = (tid, ⟨c, (H.perform s.world o c).1⟩) :: s.log
  born : s'.born = s.born
  others : ∀ i, i ≠ tid → s'.live i = s.live i
  now : s'.stage Y.protocol Y.first tid = some x' ∨
    s'.live tid = none ∧ ∃ t r, Y.ends t r x'

theorem Called.others_stage {H : Host W O D Task Call Ans ε} {Y : Duty Task Call Ans ε X}
    {s s' : Sys W Task Call Ans ε} {tid : Nat} {o : O} {c : Call} {x x' : X}
    (h : Called H Y s s' tid o c x x') {i : Nat} (hi : i ≠ tid) :
    s'.stage Y.protocol Y.first i = s.stage Y.protocol Y.first i := by
  rw [Sys.stage, Sys.stage, h.others i hi]

/-- The stage of a thread that is not there is no stage. -/
theorem stage_of_live_none {P : Protocol Call Ans ε X} {x0 : Task → X}
    {s : Sys W Task Call Ans ε} {tid : Nat} (h : s.live tid = none) : s.stage P x0 tid = none := by
  rw [Sys.stage, h]
  rfl

/-- **What a step of a thread is**: nothing, or the call it waits at and the move that goes
with it. -/
theorem exec_cases {H : Host W O D Task Call Ans ε} {Y : Duty Task Call Ans ε X}
    {s : Sys W Task Call Ans ε} (hT : s.Typed Y) (hans : H.Answers Y s.world)
    (tid : Nat) (o : O) :
    (H.step s (.exec tid o) = s ∧ s.pending tid = none) ∨
      ∃ c x x', Called H Y s (H.step s (.exec tid o)) tid o c x x' := by
  simp only [Host.step]
  split
  next t past c k hlive =>
    right
    obtain ⟨x, x', hx, hnext, hx', hk⟩ := typed_call hT hlive (hans o c)
    refine ⟨c, x, x', hx, ?_, hnext, rfl, rfl, rfl, ?_, ?_⟩
    · rw [Sys.pending, hlive]
    · intro j hj
      exact Function.update_of_ne hj _ _
    · cases hpark : Thread.park (⟨t, ⟨c, (H.perform s.world o c).1⟩ :: past,
          k (H.perform s.world o c).1⟩ : Thread Task Call Ans ε) with
      | some th' =>
        left
        obtain ⟨rfl, _⟩ := park_eq_some hpark
        simp only [Sys.stage, Function.update_self]
        exact hx'
      | none =>
        right
        refine ⟨Function.update_self _ _ _, t, ?_⟩
        rcases park_eq_none hpark with hend | ⟨e, hend⟩
        all_goals
          simp only at hend
          rw [hend] at hk
          exact ⟨_, hk⟩
  next hno =>
    refine .inl ⟨rfl, ?_⟩
    unfold Sys.pending
    split
    next t past c k hlive => exact absurd hlive (hno t past c k)
    next => rfl

/-- A new thread is at its task's first stage, or already done. -/
theorem spawn_stage {H : Host W O D Task Call Ans ε} (Y : Duty Task Call Ans ε X)
    (s : Sys W Task Call Ans ε) (t : Task) :
    (∀ i, i ≠ s.born → (H.step s (.spawn t)).live i = s.live i) ∧
      ∀ x, (H.step s (.spawn t)).stage Y.protocol Y.first s.born = some x → x = Y.first t := by
  refine ⟨fun i hi => Function.update_of_ne hi _ _, fun x hx => ?_⟩
  simp only [Sys.stage, Host.step, Function.update_self] at hx
  cases hpark : Thread.park (⟨t, [], H.body t⟩ : Thread Task Call Ans ε) with
  | none =>
    rw [hpark] at hx
    exact absurd hx (by simp)
  | some th =>
    rw [hpark] at hx
    obtain ⟨rfl, _⟩ := park_eq_some hpark
    exact (Option.some.inj hx).symm

theorem crash_stage {H : Host W O D Task Call Ans ε} (Y : Duty Task Call Ans ε X)
    (s : Sys W Task Call Ans ε) (tid : Nat) :
    (H.step s (.crash tid)).stage Y.protocol Y.first tid = none ∧
      ∀ i, i ≠ tid → (H.step s (.crash tid)).live i = s.live i :=
  ⟨stage_of_live_none (Function.update_self _ _ _), fun _ hi => Function.update_of_ne hi _ _⟩

/-- A step that is no call: nothing is logged, the world drifts or stays, and a
thread is at a stage it was not at before only if it is new, or gone only if it
crashed. -/
structure Silent (H : Host W O D Task Call Ans ε) (Y : Duty Task Call Ans ε X)
    (s : Sys W Task Call Ans ε) (l : Move Task O D) : Prop where
  world : (H.step s l).world = s.world ∨ ∃ d, (H.step s l).world = H.drift s.world d
  log : (H.step s l).log = s.log
  stage : ∀ i x, (H.step s l).stage Y.protocol Y.first i = some x →
    s.stage Y.protocol Y.first i = some x ∨
      s.stage Y.protocol Y.first i = none ∧ ∃ t, x = Y.first t
  stays : ∀ i x, s.stage Y.protocol Y.first i = some x →
    (H.step s l).stage Y.protocol Y.first i = some x ∨ l = .crash i
  idle : ∀ tid o, l = .exec tid o → s.pending tid = none

/-- **Every step** is silent or a call. -/
theorem step_cases {H : Host W O D Task Call Ans ε} {Y : Duty Task Call Ans ε X}
    {s : Sys W Task Call Ans ε} (hS : s.Sane) (hT : s.Typed Y) (hans : H.Answers Y s.world)
    (l : Move Task O D) :
    Silent H Y s l ∨
      ∃ tid o c x x', l = .exec tid o ∧ Called H Y s (H.step s l) tid o c x x' := by
  cases l with
  | spawn t =>
    obtain ⟨hothers, hfirst⟩ := spawn_stage (H := H) Y s t
    have hnone : s.stage Y.protocol Y.first s.born = none :=
      stage_of_live_none (hS.fresh _ (Nat.le_refl _)).1
    refine .inl ⟨.inl rfl, rfl, fun i x hx => ?_, fun i x hx => ?_, fun _ _ hl => by cases hl⟩
    · by_cases hi : i = s.born
      · subst hi
        exact .inr ⟨hnone, t, hfirst x hx⟩
      · rw [Sys.stage, hothers i hi] at hx
        exact .inl hx
    · by_cases hi : i = s.born
      · rw [hi, hnone] at hx
        cases hx
      · left
        rw [Sys.stage, hothers i hi]
        exact hx
  | exec tid o =>
    rcases exec_cases hT hans tid o with ⟨hsame, hidle⟩ | ⟨c, x, x', hc⟩
    · refine .inl ⟨.inl (by rw [hsame]), by rw [hsame], ?_, ?_, ?_⟩
      · intro i x hx
        rw [hsame] at hx
        exact .inl hx
      · intro i x hx
        rw [hsame]
        exact .inl hx
      · intro tid' o' hl
        cases hl
        exact hidle
    · exact .inr ⟨tid, o, c, x, x', rfl, hc⟩
  | crash tid =>
    obtain ⟨hgone, hothers⟩ := crash_stage (H := H) Y s tid
    refine .inl ⟨.inl rfl, rfl, fun i x hx => ?_, fun i x hx => ?_, fun _ _ hl => by cases hl⟩
    · by_cases hi : i = tid
      · rw [hi, hgone] at hx
        cases hx
      · rw [Sys.stage, hothers i hi] at hx
        exact .inl hx
    · by_cases hi : i = tid
      · exact .inr (hi ▸ rfl)
      · left
        rw [Sys.stage, hothers i hi]
        exact hx
  | drift d =>
    exact .inl ⟨.inr ⟨d, rfl⟩, rfl, fun _ _ hx => .inl hx, fun _ _ hx => .inl hx,
      fun _ _ hl => by cases hl⟩

/-- After a call, its thread is at the next stage or gone, and the others are
where they were. -/
theorem Called.stage_after {H : Host W O D Task Call Ans ε} {Y : Duty Task Call Ans ε X}
    {s s' : Sys W Task Call Ans ε} {tid : Nat} {o : O} {c : Call} {x x' : X}
    (h : Called H Y s s' tid o c x x') {i : Nat} {y : X}
    (hy : s'.stage Y.protocol Y.first i = some y) :
    i = tid ∧ y = x' ∨ i ≠ tid ∧ s.stage Y.protocol Y.first i = some y := by
  by_cases hi : i = tid
  · subst hi
    rcases h.now with hnow | ⟨hgone, _⟩
    · rw [hnow] at hy
      exact .inl ⟨rfl, (Option.some.inj hy).symm⟩
    · rw [stage_of_live_none hgone] at hy
      cases hy
  · rw [h.others_stage hi] at hy
    exact .inr ⟨hi, hy⟩

end Host

end Base
