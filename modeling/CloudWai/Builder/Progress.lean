import CloudWai.Base.Endless
import CloudWai.Builder.Slots

/-!
# Every build ends

A build that has a slot gets nearer to giving it back each time one of its awaits
ends; a build that waits gets nearer to the head of the queue each time a slot is
given back, and while it waits there is a build that has one. So if every await ends,
which is to say that every command does, every build that is accepted ends
(`slots_in_order`).

About `runBuild` of `infra/deployment/builder-server.mjs`, as `Server.lean` has it.
-/

namespace CloudWai.Builder

open Base

section Effects

variable {o : Options} {s : Server} {i n : Nat} {b : Build} {e : Event}

/-- Build `i` is at an await of kind `P`. -/
def Server.At (s : Server) (i : Nat) (P : Stage → Prop) : Prop :=
  ∃ b, s.builds[i]? = some b ∧ P b.stage

theorem Orderly.waiting_iff (h : Orderly o s) : i ∈ s.waiting ↔ s.At i (· = .waiting) := h.queued i

theorem grant_get : (s.grant n).builds[i]? =
    (fun b => if n = i then { b with stage := .granted, acquired := b.acquired + 1 } else b) <$>
      s.builds[i]? := List.getElem?_modify _ _ _ _

/-- Granting a slot to others leaves a build where it is. -/
theorem grant_other (h : n ≠ i) : (s.grant n).builds[i]? = s.builds[i]? :=
  List.getElem?_modify_ne _ _ h

theorem acquireSlot_other (h : n ≠ i) : (s.acquireSlot o n).builds[i]? = s.builds[i]? := by
  unfold Server.acquireSlot
  split
  · exact grant_other h
  · exact List.getElem?_modify_ne _ _ h

theorem grant_self (hb : s.builds[n]? = some b) : (s.grant n).At n (· = .granted) := by
  refine ⟨{ b with stage := .granted, acquired := b.acquired + 1 }, ?_, rfl⟩
  rw [grant_get, hb]
  simp

/-- A build that asks for a slot has it, or joins the queue. -/
theorem acquireSlot_self (hb : s.builds[n]? = some b) :
    (s.acquireSlot o n).At n (· = .granted) ∨ (s.acquireSlot o n).At n (· = .waiting) := by
  unfold Server.acquireSlot
  split
  · exact .inl (grant_self hb)
  · refine .inr ⟨{ b with stage := .waiting }, ?_, rfl⟩
    simp [hb]

/-- The queue, after a slot was asked for. -/
theorem acquireSlot_waiting : (s.acquireSlot o n).waiting = s.waiting ∨
    (s.acquireSlot o n).waiting = s.waiting ++ [n] := by
  unfold Server.acquireSlot
  split
  · exact .inl rfl
  · exact .inr rfl

/-- The head of the queue gets the slot. -/
theorem releaseSlot_waiting : (s.releaseSlot n).waiting = s.waiting.tail := by
  unfold Server.releaseSlot
  dsimp only
  cases s.waiting <;> rfl

theorem releaseSlot_other (hn : n ≠ i) (hi : i ∉ s.waiting.head?) :
    (s.releaseSlot n).builds[i]? = s.builds[i]? := by
  unfold Server.releaseSlot
  dsimp only
  cases hwaiting : s.waiting with
  | nil => exact List.getElem?_modify_ne _ _ hn
  | cons next rest =>
    have hnext : next ≠ i := fun h => hi (by rw [hwaiting, h]; rfl)
    exact (grant_other hnext).trans (List.getElem?_modify_ne _ _ hn)

theorem releaseSlot_self (hb : s.builds[n]? = some b) (hn : n ∉ s.waiting) :
    (s.releaseSlot n).builds[n]? = some { b with released := b.released + 1 } := by
  unfold Server.releaseSlot
  dsimp only
  cases hwaiting : s.waiting with
  | nil => simp [hb]
  | cons next rest =>
    have hnext : next ≠ n := fun h => hn (by rw [hwaiting, h]; exact List.mem_cons_self)
    refine (grant_other hnext).trans ?_
    simp [hb]

theorem releaseSlot_head (hi : i ∈ s.waiting.head?) (hb : s.builds[i]? = some b) (hn : n ≠ i) :
    (s.releaseSlot n).At i (· = .granted) := by
  unfold Server.releaseSlot
  dsimp only
  cases hwaiting : s.waiting with
  | nil =>
    rw [hwaiting] at hi
    cases hi
  | cons next rest =>
    rw [hwaiting] at hi
    obtain rfl : next = i := Option.some.inj hi
    refine grant_self (b := b) ?_
    exact (List.getElem?_modify_ne _ _ hn).trans hb

/-! ## What an event does to one build -/

/-- The event is the end of one of build `i`'s awaits. -/
def Event.Serves (i : Nat) : Event → Prop
  | .settle n _ _ => n = i
  | _ => False

instance (i : Nat) (e : Event) : Decidable (e.Serves i) := by
  rcases e with ⟨_, _⟩ | _ | ⟨n, _, _⟩
  · exact isFalse id
  · exact isFalse id
  · exact inferInstanceAs (Decidable (n = i))

/-- Build `n`, that has its slot, comes to its next await. -/
theorem settle_active {r : Settled} {now : Nat} (h : Orderly o s) (hb : s.builds[n]? = some b)
    (hactive : b.stage.Active) (hsmooth : Smooth o s n b r) :
    ∃ b', (b'.stage.Active ∧ b'.stage.left < b.stage.left ∧
        s.settle o n b r now = { s with builds := s.builds.set n b' }) ∨
      (b'.stage = .over ∧
        s.settle o n b r now = Server.releaseSlot { s with builds := s.builds.set n b' } n) := by
  have hsane := h.sane b (List.mem_of_getElem? hb)
  obtain ⟨-, hstage, -⟩ := @further_resume o now _ r hactive hsane
  refine ⟨b.resume o now r, ?_⟩
  rw [settle_of_active hactive]
  rcases hstage with ⟨hnext, hleft⟩ | hover | ⟨-, hmaking, error, rfl⟩
  · left
    refine ⟨hnext, hleft, ?_⟩
    split
    next hs =>
      rw [hs] at hnext
      exact hnext.elim
    next hs =>
      rw [hs] at hnext
      exact hnext.elim
    · rfl
  · right
    refine ⟨hover, ?_⟩
    rw [hover]
  · unfold Smooth at hsmooth
    rw [hmaking] at hsmooth
    exact hsmooth.elim

/-- The end of an await of another build leaves a build where it is, unless that was
the queue. -/
theorem settle_other {r : Settled} {now : Nat} (h : Orderly o s) {c : Build}
    (hc : s.builds[n]? = some c) (hsmooth : Smooth o s n c r) (hn : n ≠ i) (hi : i ∉ s.waiting) :
    (s.settle o n c r now).builds[i]? = s.builds[i]? := by
  by_cases hactive : c.stage.Active
  · obtain ⟨c', ⟨-, -, hsettle⟩ | ⟨-, hsettle⟩⟩ := @settle_active _ _ _ _ _ now h hc hactive hsmooth
    · rw [hsettle]
      exact List.getElem?_set_ne hn
    · rw [hsettle]
      exact (releaseSlot_other (s := { s with builds := s.builds.set n c' }) hn
        fun hhead => hi (List.mem_of_mem_head? hhead)).trans (List.getElem?_set_ne hn)
  · unfold Server.settle
    cases hs : c.stage with
    | flushing => exact (acquireSlot_other hn).trans (List.getElem?_set_ne hn)
    | waiting | «over» | stranded => rfl
    | granted | making | running c | clearing =>
      rw [hs] at hactive
      exact absurd trivial hactive

/-- A build that is not at `waiting` is not in the queue. -/
theorem not_waiting (h : Orderly o s) (hb : s.builds[i]? = some b) (hout : b.stage ≠ .waiting) :
    i ∉ s.waiting := by
  intro hmem
  obtain ⟨c, hc, hwaiting⟩ := (h.queued i).mp hmem
  obtain rfl := Option.some.inj (hb.symm.trans hc)
  exact hout hwaiting

theorem Stage.Active.not_waiting {g : Stage} (h : g.Active) : g ≠ .waiting := fun hg => by
  rw [hg] at h
  exact h

/-- A build stays at its stage unless the event is its own or the queue's. -/
theorem at_step_other {P : Stage → Prop} (h : Orderly o s) (hin : InOrder o s e) (hi : s.At i P)
    (hP : ∀ g, P g → g ≠ .waiting) (he : ¬ e.Serves i) : (s.step o e).At i P := by
  obtain ⟨b, hb, hstage⟩ := hi
  have hout : i ∉ s.waiting := not_waiting h hb (hP _ hstage)
  unfold Server.step
  rw [if_neg (by rw [h.up]; exact Bool.false_ne_true)]
  cases e with
  | submit id payload =>
    obtain ⟨hlt, -⟩ := List.getElem?_eq_some_iff.mp hb
    exact ⟨b, (List.getElem?_append_left hlt).trans hb, hstage⟩
  | cancel n =>
    by_cases hn : n = i
    · exact ⟨{ b with cancelled := true }, by simp [hn, hb], hstage⟩
    · exact ⟨b, (List.getElem?_modify_ne _ _ hn).trans hb, hstage⟩
  | settle n r now =>
    dsimp only
    split
    · exact ⟨b, hb, hstage⟩
    next c hc => exact ⟨b, (settle_other h hc (hin c hc) he hout).trans hb, hstage⟩

/-! ## What an event does to the queue -/

/-- A slot that is given back moves the queue. -/
theorem waiting_release {b' : Build} (h : Orderly o s) (hi : i ∈ s.waiting) (hn : n ≠ i) :
    let s' := Server.releaseSlot { s with builds := s.builds.set n b' } n
    s'.At i Stage.Active ∨ (i ∈ s'.waiting ∧ s'.waiting.idxOf i < s.waiting.idxOf i) := by
  dsimp only
  obtain ⟨b, hb, -⟩ := (h.queued i).mp hi
  rw [releaseSlot_waiting]
  dsimp only
  by_cases hhead : i ∈ s.waiting.head?
  · left
    obtain ⟨c, hc, hgranted⟩ := releaseSlot_head (s := { s with builds := s.builds.set n b' })
      hhead ((List.getElem?_set_ne hn).trans hb) hn
    exact ⟨c, hc, by rw [hgranted]; trivial⟩
  · right
    cases hwaiting : s.waiting with
    | nil =>
      rw [hwaiting] at hi
      cases hi
    | cons next rest =>
      rw [hwaiting] at hi hhead
      have hnext : next ≠ i := fun h => hhead (by rw [h]; rfl)
      have hrest : i ∈ rest := (List.mem_cons.mp hi).resolve_left hnext.symm
      simp [hrest, List.idxOf_cons_ne _ hnext]

/-- A build in the queue stays in its place, moves up, or gets its slot. -/
theorem waiting_step (h : Orderly o s) (hin : InOrder o s e) (hi : i ∈ s.waiting) :
    (s.step o e).At i Stage.Active ∨
      (i ∈ (s.step o e).waiting ∧ (s.step o e).waiting.idxOf i ≤ s.waiting.idxOf i) := by
  have hsame : i ∈ s.waiting ∧ s.waiting.idxOf i ≤ s.waiting.idxOf i := ⟨hi, Nat.le_refl _⟩
  obtain ⟨b, hb, hstage⟩ := (h.queued i).mp hi
  unfold Server.step
  rw [if_neg (by rw [h.up]; exact Bool.false_ne_true)]
  cases e with
  | submit id payload => exact .inr hsame
  | cancel n => exact .inr hsame
  | settle n r now =>
    dsimp only
    split
    · exact .inr hsame
    next c hc =>
      by_cases hactive : c.stage.Active
      · have hn : n ≠ i := by
          rintro rfl
          obtain rfl := Option.some.inj (hb.symm.trans hc)
          rw [hstage] at hactive
          exact hactive
        obtain ⟨c', ⟨-, -, hsettle⟩ | ⟨-, hsettle⟩⟩ :=
          @settle_active _ _ _ _ _ now h hc hactive (hin c hc)
        · rw [hsettle]
          exact .inr hsame
        · rw [hsettle]
          rcases @waiting_release _ _ _ _ c' h hi hn with hgot | ⟨hmem, hlt⟩
          · exact .inl hgot
          · exact .inr ⟨hmem, Nat.le_of_lt hlt⟩
      · right
        unfold Server.settle
        cases hs : c.stage with
        | flushing =>
          dsimp only
          generalize hput : ({ s with builds := s.builds.set n (c.log o _) } : Server) = t
          have hwaiting : t.waiting = s.waiting := by rw [← hput]
          rcases acquireSlot_waiting (o := o) (s := t) (n := n) with hw | hw
          · rw [hw, hwaiting]
            exact hsame
          · rw [hw, hwaiting, List.idxOf_append_of_mem hi]
            exact ⟨List.mem_append_left _ hi, Nat.le_refl _⟩
        | waiting | «over» | stranded => exact hsame
        | granted | making | running c | clearing =>
          rw [hs] at hactive
          exact absurd trivial hactive

theorem step_settle {r : Settled} {now : Nat} (h : Orderly o s) (hb : s.builds[n]? = some b) :
    s.step o (.settle n r now) = s.settle o n b r now := by
  unfold Server.step
  rw [if_neg (by rw [h.up]; exact Bool.false_ne_true)]
  dsimp only
  rw [hb]

/-- While a build waits, another has its slot. -/
theorem exists_active (h : Orderly o s) (hwaiting : s.waiting ≠ []) :
    ∃ a, s.At a Stage.Active := by
  have hpos : 0 < s.holders := by
    have := h.busy hwaiting
    have := h.counted
    have := o.positive
    omega
  obtain ⟨b, hmem, hholds⟩ := List.countP_pos_iff.mp hpos
  obtain ⟨a, ha⟩ := List.mem_iff_getElem?.mp hmem
  have hsane := h.sane b hmem
  have haccount := hsane.holds_iff.mp (of_decide_eq_true hholds)
  refine ⟨a, b, ha, ?_⟩
  cases hstage : b.stage with
  | granted | making | running c | clearing => trivial
  | flushing | waiting | «over» =>
    rw [hstage] at haccount
    exact absurd haccount (by decide)
  | stranded => exact absurd hstage hsane.awaited

end Effects

/-! ## What eventually happens -/

/-- The states of the server, from its start. -/
abbrev states (o : Options) (l : Nat → Event) : Nat → Server := path (Server.step o) {} l

/-- Every await a build is at ends: the state is written, the command exits, the
workspace is removed. -/
def EachAwaitEnds (o : Options) (l : Nat → Event) : Prop :=
  ∀ n i, (states o l n).At i (fun g => g = .flushing ∨ g.Active) → ∃ m, n ≤ m ∧ (l m).Serves i

section Liveness

variable {o : Options} {l : Nat → Event} {i : Nat}
variable (hin : ∀ n, InOrder o (states o l n) (l n))

include hin

theorem orderly_states (n : Nat) : Orderly o (states o l n) :=
  inv_path orderly_start (fun _ _ h hin => orderly_step h hin) hin n

/-- How far build `i` is from giving its slot back. -/
private def leftOf (i : Nat) (s : Server) : Nat := ((s.builds[i]?).map (·.stage.left)).getD 0

omit hin in
private theorem leftOf_of_get {s : Server} {b : Build} (hb : s.builds[i]? = some b) :
    leftOf i s = b.stage.left := by
  unfold leftOf
  rw [hb]
  rfl

/-- Another's event leaves an active build where it is. -/
private theorem active_kept {n : Nat} (hactive : (states o l n).At i Stage.Active)
    (he : ¬ (l n).Serves i) :
    (states o l (n + 1)).At i Stage.Active ∧
      leftOf i (states o l (n + 1)) = leftOf i (states o l n) := by
  obtain ⟨b, hb, hstage⟩ := hactive
  obtain ⟨b', hb', hsame, hstage'⟩ := at_step_other
    (P := fun g => g.left = b.stage.left ∧ g.Active) (orderly_states hin n) (hin n)
    ⟨b, hb, rfl, hstage⟩ (fun g hg h => by rw [h] at hg; exact hg.2) he
  exact ⟨⟨b', hb', hstage'⟩, (leftOf_of_get hb').trans (hsame.trans (leftOf_of_get hb).symm)⟩

/-- Its own brings it nearer to the end, and the end moves the queue. -/
private theorem active_served {n : Nat} (hactive : (states o l n).At i Stage.Active)
    (he : (l n).Serves i) :
    ((states o l (n + 1)).At i Stage.Active ∧
        leftOf i (states o l (n + 1)) < leftOf i (states o l n)) ∨
      (states o l (n + 1)).At i (· = .over) ∧
        ∃ b', states o l (n + 1) = Server.releaseSlot
          { states o l n with builds := (states o l n).builds.set i b' } i := by
  have h := orderly_states hin n
  have hsmooth := hin n
  obtain ⟨b, hb, hstage⟩ := hactive
  show ((Server.step o (states o l n) (l n)).At i _ ∧ leftOf i (Server.step o (states o l n) (l n)) < _)
    ∨ (Server.step o (states o l n) (l n)).At i _ ∧ ∃ b', Server.step o (states o l n) (l n) = _
  cases hl : l n with
  | submit id payload =>
    rw [hl] at he
    exact he.elim
  | cancel m =>
    rw [hl] at he
    exact he.elim
  | settle m r now =>
    rw [hl] at he hsmooth
    obtain rfl : m = i := he
    rw [step_settle h hb]
    obtain ⟨hlt, -⟩ := List.getElem?_eq_some_iff.mp hb
    obtain ⟨b', ⟨hactive', hless, hsettle⟩ | ⟨hover, hsettle⟩⟩ :=
      @settle_active _ _ _ _ _ now h hb hstage (hsmooth b hb)
    · left
      rw [hsettle]
      have hb' : ((states o l n).builds.set m b')[m]? = some b' := List.getElem?_set_self hlt
      refine ⟨⟨b', hb', hactive'⟩, ?_⟩
      rw [leftOf_of_get hb, leftOf_of_get (b := b') hb']
      exact hless
    · right
      rw [hsettle]
      have hout : m ∉ (states o l n).waiting := not_waiting h hb hstage.not_waiting
      exact ⟨⟨_, releaseSlot_self (b := b') (List.getElem?_set_self hlt) hout, hover⟩, b', rfl⟩

/-- A build that asks for a slot gets it or joins the queue. -/
theorem leads_asked (hends : EachAwaitEnds o l) :
    Leads (Server.step o) {} l (fun s => s.At i (· = .flushing))
      (fun s => i ∈ s.waiting ∨ s.At i Stage.Active) := by
  have hserved : ∀ n, (states o l n).At i (· = .flushing) → (l n).Serves i →
      i ∈ (states o l (n + 1)).waiting ∨ (states o l (n + 1)).At i Stage.Active := by
    rintro n ⟨b, hb, hstage⟩ he
    have h := orderly_states hin n
    have h' := orderly_states hin (n + 1)
    rw [h'.waiting_iff]
    show (Server.step o (states o l n) (l n)).At i _ ∨ (Server.step o (states o l n) (l n)).At i _
    cases hl : l n with
    | submit id payload =>
      rw [hl] at he
      exact he.elim
    | cancel m =>
      rw [hl] at he
      exact he.elim
    | settle m r now =>
      rw [hl] at he
      obtain rfl : m = i := he
      rw [step_settle h hb]
      obtain ⟨hlt, -⟩ := List.getElem?_eq_some_iff.mp hb
      unfold Server.settle
      rw [hstage]
      dsimp only
      rcases acquireSlot_self (o := o) (n := m)
        (s := { states o l n with builds := (states o l n).builds.set m (b.log o
          s!"accepted build for {b.payload.source.known} source") })
        (List.getElem?_set_self hlt) with ⟨c, hc, hgranted⟩ | hwaiting
      · exact .inr ⟨c, hc, by rw [hgranted]; trivial⟩
      · exact .inl hwaiting
  refine leads_descend (fun _ => 0) (Event.Serves i) (fun n hP => ?_)
    (fun n hP he => .inl (hserved n hP he)) fun n hP => hends n i ?_
  · by_cases he : (l n).Serves i
    · exact .inl (hserved n hP he)
    · refine .inr ⟨at_step_other (orderly_states hin n) (hin n) hP ?_ he, Nat.le_refl _⟩
      rintro _ rfl
      exact nofun
  · obtain ⟨b, hb, hstage⟩ := hP
    exact ⟨b, hb, .inl hstage⟩

/-- A build that has its slot gives it back. -/
theorem leads_over (hends : EachAwaitEnds o l) :
    Leads (Server.step o) {} l (fun s => s.At i Stage.Active) (fun s => s.At i (· = .over)) := by
  have hdrop : ∀ n, (states o l n).At i Stage.Active → (l n).Serves i →
      (states o l (n + 1)).At i (· = .over) ∨ ((states o l (n + 1)).At i Stage.Active ∧
        leftOf i (states o l (n + 1)) < leftOf i (states o l n)) := fun n hactive he =>
    (active_served hin hactive he).elim .inr fun h => .inl h.1
  refine leads_descend (leftOf i) (Event.Serves i) (fun n hP => ?_) hdrop fun n hP => hends n i ?_
  · by_cases he : (l n).Serves i
    · rcases hdrop n hP he with hover | ⟨hactive, hlt⟩
      · exact .inl hover
      · exact .inr ⟨hactive, Nat.le_of_lt hlt⟩
    · obtain ⟨hactive, heq⟩ := active_kept hin hP he
      exact .inr ⟨hactive, Nat.le_of_eq heq⟩
  · obtain ⟨b, hb, hstage⟩ := hP
    exact ⟨b, hb, .inr hstage⟩

/-- A build that waits gets its slot. -/
theorem leads_active (hends : EachAwaitEnds o l) :
    Leads (Server.step o) {} l (fun s => i ∈ s.waiting) (fun s => s.At i Stage.Active) := by
  refine leads_measure (fun s => s.waiting.idxOf i) fun k => ?_
  rintro n ⟨hmem, hk⟩
  obtain ⟨a, ha⟩ := exists_active (orderly_states hin n) (List.ne_nil_of_mem hmem)
  -- until `a` gives its slot back, or the queue moves before
  let P (s : Server) : Prop := (i ∈ s.waiting ∧ s.waiting.idxOf i = k) ∧ s.At a Stage.Active
  let Q (s : Server) : Prop := s.At i Stage.Active ∨ (i ∈ s.waiting ∧ s.waiting.idxOf i < k)
  have hdrop : ∀ n, P (states o l n) → (l n).Serves a →
      Q (states o l (n + 1)) ∨ (P (states o l (n + 1)) ∧
        leftOf a (states o l (n + 1)) < leftOf a (states o l n)) := by
    rintro n ⟨⟨hmem, hk⟩, hactive⟩ he
    rcases waiting_step (orderly_states hin n) (hin n) hmem with hgot | ⟨hmem', hle⟩
    · exact .inl (.inl hgot)
    · rcases active_served hin hactive he with ⟨hactive', hlt⟩ | ⟨-, b', hrelease⟩
      · rcases Nat.lt_or_ge ((states o l (n + 1)).waiting.idxOf i) k with hless | hge
        · exact .inl (.inr ⟨hmem', hless⟩)
        · exact .inr ⟨⟨⟨hmem', Nat.le_antisymm (hk ▸ hle) hge⟩, hactive'⟩, hlt⟩
      · left
        have hne : a ≠ i := by
          rintro rfl
          obtain ⟨b, hb, hstage⟩ := hactive
          exact not_waiting (orderly_states hin n) hb hstage.not_waiting hmem
        show Q (states o l (n + 1))
        rw [hrelease]
        rcases @waiting_release _ _ _ _ b' (orderly_states hin n) hmem hne with hgot | ⟨hmem'', hlt⟩
        · exact .inl hgot
        · exact .inr ⟨hmem'', hk ▸ hlt⟩
  refine leads_descend (P := P) (Q := Q) (leftOf a) (Event.Serves a) (fun n hP => ?_) hdrop ?_ n
    ⟨⟨hmem, hk⟩, ha⟩
  · by_cases he : (l n).Serves a
    · rcases hdrop n hP he with hQ | ⟨hP', hlt⟩
      · exact .inl hQ
      · exact .inr ⟨hP', Nat.le_of_lt hlt⟩
    · obtain ⟨hactive, heq⟩ := active_kept hin hP.2 he
      rcases waiting_step (orderly_states hin n) (hin n) hP.1.1 with hgot | ⟨hmem', hle⟩
      · exact .inl (.inl hgot)
      · rcases Nat.lt_or_ge ((states o l (n + 1)).waiting.idxOf i) k with hless | hge
        · exact .inl (.inr ⟨hmem', hless⟩)
        · exact .inr ⟨⟨⟨hmem', Nat.le_antisymm (hP.1.2 ▸ hle) hge⟩, hactive⟩, Nat.le_of_eq heq⟩
  · rintro n ⟨-, b, hb, hstage⟩
    exact hends n a ⟨b, hb, .inr hstage⟩

/-- **Every accepted build ends.** -/
theorem leads_ended (hends : EachAwaitEnds o l) :
    Leads (Server.step o) {} l (fun s => i < s.builds.length)
      (fun s => ∃ b, s.builds[i]? = some b ∧ b.stage = .over ∧ b.status.Ended) := by
  have hover := (leads_over (i := i) hin hends).trans
    (R := fun s => ∃ b, s.builds[i]? = some b ∧ b.stage = .over ∧ b.status.Ended)
    (leads_imp fun n ⟨b, hb, hstage⟩ =>
      ⟨b, hb, hstage, ((orderly_states hin n).sane b (List.mem_of_getElem? hb)).ended (.inr hstage)⟩)
  have hactive := (leads_active (i := i) hin hends).trans hover
  intro n hlt
  have hsane := (orderly_states hin n).sane _ (List.getElem_mem hlt)
  have hb := List.getElem?_eq_getElem hlt
  cases hstage : (path (Server.step o) {} l n).builds[i].stage with
  | flushing =>
    obtain ⟨m, hnm, hwaiting | hgot⟩ := leads_asked hin hends n ⟨_, hb, hstage⟩
    · obtain ⟨k, hmk, hended⟩ := hactive m hwaiting
      exact ⟨k, Nat.le_trans hnm hmk, hended⟩
    · obtain ⟨k, hmk, hended⟩ := hover m hgot
      exact ⟨k, Nat.le_trans hnm hmk, hended⟩
  | waiting => exact hactive n (((orderly_states hin n).queued i).mpr ⟨_, hb, hstage⟩)
  | granted | making | running c | clearing => exact hover n ⟨_, hb, by rw [hstage]; trivial⟩
  | «over» => exact ⟨n, Nat.le_refl n, _, hb, hstage, hsane.ended (.inr hstage)⟩
  | stranded => exact absurd hstage hsane.awaited

end Liveness

/-- **The slots are in order in every state of every run that meets the condition, and
in every endless one whose awaits end, every accepted build ends.** -/
theorem slots_in_order (o : Options) :
    (∀ es, EachStep (Server.step o) (InOrder o) {} es →
      Always (Server.step o) (Orderly o) {} es) ∧
    (∀ l, (∀ n, InOrder o (states o l n) (l n)) → EachAwaitEnds o l →
      ∀ n i, i < (states o l n).builds.length → ∃ m, n ≤ m ∧
        ∃ b, (states o l m).builds[i]? = some b ∧ b.stage = .over ∧ b.status.Ended) :=
  ⟨fun _ hes => always_of_inv orderly_start (fun _ _ h hin => orderly_step h hin) (fun _ h => h) hes,
    fun _ hin hends _ _ hlt => leads_ended hin hends _ hlt⟩

/-! ## Two builds and one slot -/

def oneSlot : Options := ⟨1, "cloudwai", 5000, fun _ => some "node", by decide⟩

def fromGit : Payload := ⟨.git "https://example.com/site.git" (some "main"), none, none, []⟩

/-- An await ends well. -/
def ends (n : Nat) : Event := .settle n (.done 0 "" []) 0

/-- Two builds are accepted; the second waits, and is cancelled meanwhile. -/
def twoBuilds : List Event :=
  [.submit "a" fromGit, .submit "b" fromGit, ends 0, ends 1, ends 0, .cancel 1] ++
    List.replicate 6 (ends 0) ++ [ends 1]

/-- Nothing has a build number nine. -/
def twoBuildsThen : Nat → Event := fun n => twoBuilds.getD n (.cancel 9)

/-- Builds that are at no await at the end are at none for ever. -/
theorem eachAwaitEnds_of_settled {o : Options} {es : List Event} {idle : Event}
    (hidle : (runFrom (Server.step o) {} es).step o idle = runFrom (Server.step o) {} es)
    (hend : ∀ b ∈ (runFrom (Server.step o) {} es).builds, ¬ (b.stage = .flushing ∨ b.stage.Active))
    (hbefore : ∀ n < es.length, ∀ i < (states o (fun k => es.getD k idle) n).builds.length,
      ∀ b ∈ (states o (fun k => es.getD k idle) n).builds[i]?,
        (b.stage = .flushing ∨ b.stage.Active) →
          ∃ m < es.length, n ≤ m ∧ (es.getD m idle).Serves i) :
    EachAwaitEnds o fun k => es.getD k idle := by
  rintro n i ⟨b, hb, hstage⟩
  by_cases hn : n < es.length
  · obtain ⟨hlt, -⟩ := List.getElem?_eq_some_iff.mp hb
    obtain ⟨m, -, hnm, hserves⟩ := hbefore n hn i hlt b hb hstage
    exact ⟨m, hnm, hserves⟩
  · rw [states, path_settled hidle n (Nat.le_of_not_lt hn)] at hb
    exact absurd hstage (hend b (List.mem_of_getElem? hb))

theorem inOrder_twoBuilds (n : Nat) :
    InOrder oneSlot (states oneSlot twoBuildsThen n) (twoBuildsThen n) := by
  by_cases hn : n < twoBuilds.length
  · have h : ∀ n < twoBuilds.length,
        InOrder oneSlot (states oneSlot twoBuildsThen n) (twoBuildsThen n) := by decide +kernel
    exact h n hn
  · unfold twoBuildsThen
    rw [List.getD_eq_default _ _ (Nat.le_of_not_lt hn)]
    trivial

theorem awaitsEnd_twoBuilds : EachAwaitEnds oneSlot twoBuildsThen :=
  eachAwaitEnds_of_settled (by decide +kernel) (by decide +kernel) (by decide +kernel)

theorem slots_in_order_twoBuilds :
    Always (Server.step oneSlot) (Orderly oneSlot) {} twoBuilds ∧
      ∀ n i, i < (states oneSlot twoBuildsThen n).builds.length → ∃ m, n ≤ m ∧
        ∃ b, (states oneSlot twoBuildsThen m).builds[i]? = some b ∧ b.stage = .over ∧
          b.status.Ended :=
  ⟨(slots_in_order oneSlot).1 twoBuilds (by decide +kernel),
    (slots_in_order oneSlot).2 twoBuildsThen inOrder_twoBuilds awaitsEnd_twoBuilds⟩

/-- No workspace for the only build. -/
def noSpace : List Event :=
  [.submit "a" fromGit, ends 0, ends 0, .settle 0 (.threw "ENOSPC: no space left on device") 0]

/-- While a build runs, the state of the third is written before that of the second. -/
def overtaken : List Event :=
  [.submit "a" fromGit, ends 0, .submit "b" fromGit, .submit "c" fromGit, ends 2, ends 1] ++
    List.replicate 6 (ends 0)

/-- A build without a workspace keeps its slot and never ends; and a build that
overtook another on the way to the queue starts before it. -/
theorem unmade_and_overtaken :
    (¬ ∀ (o : Options) (l : Nat → Event), EachAwaitEnds o l →
      ∀ n i, i < (states o l n).builds.length → ∃ m, n ≤ m ∧
        ∃ b, (states o l m).builds[i]? = some b ∧ b.stage = .over ∧ b.status.Ended) ∧
    ¬ ∀ (o : Options) (es : List Event),
      Always (Server.step o) (fun s => (s.handed ++ s.waiting).Pairwise (· < ·)) {} es := by
  constructor
  · intro h
    have hends : EachAwaitEnds oneSlot fun k => noSpace.getD k (.cancel 9) :=
      eachAwaitEnds_of_settled (by decide +kernel) (by decide +kernel) (by decide +kernel)
    obtain ⟨m, hm, b, hb, hover, -⟩ := h oneSlot _ hends 4 0 (by decide +kernel)
    rw [states, (@path_settled _ _ _ _ noSpace) (by decide +kernel) m hm] at hb
    have hstage : (runFrom (Server.step oneSlot) {} noSpace).builds[0]?.map (·.stage) =
        some .stranded := by decide +kernel
    rw [hb, Option.map_some, hover] at hstage
    cases hstage
  · intro h
    have hlast := always_iff_prefixes.mp (h oneSlot overtaken) _ [] (List.append_nil _).symm
    revert hlast
    decide +kernel

end CloudWai.Builder
