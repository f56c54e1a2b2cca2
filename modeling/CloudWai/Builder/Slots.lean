import CloudWai.Builder.Server
import Mathlib.Data.List.Nodup

/-!
# The builder's slots

`Orderly` is what the slots are for: as many builds hold one as the counter says, at
most as many as there are, nobody waits while one is free, and the builds that had to
wait get theirs in the order they were accepted in. Every event keeps it that meets
`InOrder` (`orderly_step`): a workspace can be made, and a build that joins the queue
was accepted after those that were in it. The second is not the queue's doing: between
accepting a build and asking for its slot the server writes its state, and of two such
writes either may end first.

About `acquireSlot` and `releaseSlot` of `infra/deployment/builder-server.mjs`, as
`Server.lean` has them.
-/

namespace CloudWai.Builder

/-- It has a slot that it has not given back. -/
def Build.Holds (b : Build) : Prop := b.released < b.acquired

instance (b : Build) : Decidable b.Holds := inferInstanceAs (Decidable (_ < _))

/-- How many builds hold a slot. -/
def Server.holders (s : Server) : Nat := s.builds.countP fun b => decide b.Holds

/-- The slots a build has got and given back when it is at an await. -/
def Stage.account : Stage → Nat × Nat
  | .flushing | .waiting => (0, 0)
  | .granted | .making | .running _ | .clearing | .stranded => (1, 0)
  | .over => (1, 1)

/-- Past the `try`. -/
def Stage.Last (g : Stage) : Prop := g = .clearing ∨ g = .over

/-- A build has the slots of its stage and a verdict in the end, and somebody awaits it. -/
structure Sane (b : Build) : Prop where
  account : (b.acquired, b.released) = b.stage.account
  ended : b.stage.Last → b.status.Ended
  awaited : b.stage ≠ .stranded

/-- The slots are in order. -/
structure Orderly (o : Options) (s : Server) : Prop where
  counted : s.running = s.holders
  bounded : s.running ≤ o.maxConcurrentBuilds
  busy : s.waiting ≠ [] → s.running = o.maxConcurrentBuilds
  fifo : (s.handed ++ s.waiting).Pairwise (· < ·)
  queued : ∀ n, n ∈ s.waiting ↔ ∃ b, s.builds[n]? = some b ∧ b.stage = .waiting
  sane : ∀ b ∈ s.builds, Sane b
  up : s.down = false

/-- How an await of build `n`, which is `b`, may end: a workspace can be made, and a
build that joins the queue was accepted after all that ever did. -/
def Smooth (o : Options) (s : Server) (n : Nat) (b : Build) (r : Settled) : Prop :=
  match b.stage, r with
  | .making, .threw _ => False
  | .flushing, _ => s.running < o.maxConcurrentBuilds ∨ ∀ m ∈ s.handed ++ s.waiting, m < n
  | _, _ => True

instance (o : Options) (s : Server) (n : Nat) (b : Build) (r : Settled) :
    Decidable (Smooth o s n b r) := by
  unfold Smooth
  split <;> infer_instance

/-- **The condition** on an event. -/
def InOrder (o : Options) (s : Server) : Event → Prop
  | .settle n r _ => ∀ b ∈ s.builds[n]?, Smooth o s n b r
  | _ => True

instance (o : Options) (s : Server) (e : Event) : Decidable (InOrder o s e) := by
  unfold InOrder
  split <;> infer_instance

/-! ## What `resume` does -/

/-- How far a build that has its slot is from giving it back. -/
def Stage.left : Stage → Nat
  | .granted => 7
  | .making => 6
  | .running (.clone _) => 5
  | .running (.checkout _) => 4
  | .running (.build ..) => 3
  | .running .plan => 2
  | .clearing => 1
  | .flushing | .waiting | .over | .stranded => 0

/-- A build on its way from a slot to giving it back. -/
def Stage.Active : Stage → Prop
  | .granted | .making | .running _ | .clearing => True
  | .flushing | .waiting | .over | .stranded => False

instance (g : Stage) : Decidable g.Active := by
  unfold Stage.Active
  split <;> infer_instance

section Resume

variable {o : Options} {now : Nat} {b b' : Build} {r : Settled}

@[simp] theorem log_stage (line : String) : (b.log o line).stage = b.stage := by
  unfold Build.log
  split <;> (try split) <;> rfl

@[simp] theorem log_acquired (line : String) : (b.log o line).acquired = b.acquired := by
  unfold Build.log
  split <;> (try split) <;> rfl

@[simp] theorem log_released (line : String) : (b.log o line).released = b.released := by
  unfold Build.log
  split <;> (try split) <;> rfl

@[simp] theorem log_status (line : String) : (b.log o line).status = b.status := by
  unfold Build.log
  split <;> (try split) <;> rfl

@[simp] theorem log_payload (line : String) : (b.log o line).payload = b.payload := by
  unfold Build.log
  split <;> (try split) <;> rfl

theorem logs_slots (lines : List String) :
    (lines.foldl (Build.log o) b).acquired = b.acquired ∧
      (lines.foldl (Build.log o) b).released = b.released := by
  induction lines generalizing b with
  | nil => exact ⟨rfl, rfl⟩
  | cons line lines ih =>
    obtain ⟨hacq, hrel⟩ := ih (b := b.log o line)
    exact ⟨hacq.trans (log_acquired line), hrel.trans (log_released line)⟩

/-- One await further: nearer to the end, with the slots it had. -/
structure Further (r : Settled) (b b' : Build) : Prop where
  slots : b'.acquired = b.acquired ∧ b'.released = b.released
  stage : (b'.stage.Active ∧ b'.stage.left < b.stage.left) ∨ b'.stage = .over ∨
    (b'.stage = .stranded ∧ b.stage = .making ∧ ∃ error, r = .threw error)
  ended : b'.stage.Last → b'.status.Ended

theorem further_finish (status : Status) (h : b'.acquired = b.acquired ∧ b'.released = b.released)
    (hstatus : status.Ended) (hleft : 1 < b.stage.left) : Further r b (b'.finish now status) :=
  ⟨h, .inl ⟨trivial, hleft⟩, fun _ => hstatus⟩

theorem further_fail (line : String) (h : b'.acquired = b.acquired ∧ b'.released = b.released)
    (hleft : 1 < b.stage.left) : Further r b (b'.fail o now line) :=
  further_finish .failed (by simpa using h) (.inr rfl) hleft

theorem further_start (h : b'.acquired = b.acquired ∧ b'.released = b.released)
    (hleft : 3 < b.stage.left) : Further r b (b'.startBuild o) := by
  refine ⟨by simpa [Build.startBuild] using h, .inl ⟨trivial, hleft⟩, ?_⟩
  rintro (h | h) <;> cases h

theorem further_enter (h : b.stage = .making) : Further r b (b.enter o now) := by
  have hleft : b.stage.left = 6 := by rw [h]; rfl
  unfold Build.enter
  split
  · refine ⟨by simp, .inl ⟨trivial, show 5 < _ by omega⟩, ?_⟩
    rintro (h | h) <;> cases h
  · exact further_finish .succeeded (by simp) (.inl rfl) (by omega)
  · exact further_fail _ ⟨rfl, rfl⟩ (by omega)

/-- A command's end brings the build nearer to giving its slot back. -/
theorem further_after {c : Command} {code : Nat} {out : String}
    (h : b'.acquired = b.acquired ∧ b'.released = b.released) (hc : b.stage = .running c) :
    Further r b (b'.after o now code out c) := by
  unfold Build.after
  cases c with
  | clone repository =>
    have hleft : b.stage.left = 5 := by rw [hc]; rfl
    dsimp only
    split
    · exact further_fail _ h (by omega)
    · split
      · split
        · exact further_start h (by omega)
        · refine ⟨h, .inl ⟨trivial, show 4 < _ by omega⟩, ?_⟩
          rintro (h | h) <;> cases h
      · exact further_start h (by omega)
  | checkout gitRef =>
    have hleft : b.stage.left = 4 := by rw [hc]; rfl
    dsimp only
    split
    · exact further_fail _ h (by omega)
    · exact further_start h (by omega)
  | build name buildCommand buildPack environment =>
    have hleft : b.stage.left = 3 := by rw [hc]; rfl
    dsimp only
    split
    · exact further_fail _ h (by omega)
    · split
      · exact further_fail _ h (by omega)
      · refine ⟨h, .inl ⟨trivial, show 2 < _ by omega⟩, ?_⟩
        rintro (h | h) <;> cases h
  | plan =>
    have hleft : b.stage.left = 2 := by rw [hc]; rfl
    dsimp only
    exact further_finish .succeeded (by simpa using h) (.inl rfl) (by omega)

/-- **What `resume` does**, from any await of a build that has its slot. -/
theorem further_resume (hactive : b.stage.Active) (hb : Sane b) : Further r b (b.resume o now r) := by
  unfold Build.resume
  cases hstage : b.stage with
  | flushing | waiting | «over» | stranded =>
    rw [hstage] at hactive
    exact hactive.elim
  | granted =>
    dsimp only
    split
    · exact ⟨by simp, .inr (.inl rfl), fun _ => .inr rfl⟩
    · refine ⟨⟨rfl, rfl⟩, .inl ⟨trivial, ?_⟩, ?_⟩
      · rw [hstage]
        exact Nat.lt_succ_self 6
      · rintro (h | h) <;> cases h
  | making =>
    cases r with
    | done code out lines => exact further_enter hstage
    | threw error =>
      refine ⟨⟨rfl, rfl⟩, .inr (.inr ⟨rfl, hstage, error, rfl⟩), ?_⟩
      rintro (h | h) <;> cases h
  | running c =>
    cases r with
    | done code out lines =>
      dsimp only
      split
      · exact further_after ⟨rfl, rfl⟩ hstage
      · exact further_after (logs_slots lines) hstage
    | threw error =>
      refine further_fail _ ⟨rfl, rfl⟩ ?_
      rw [hstage]
      cases c <;> simp [Stage.left]
  | clearing => exact ⟨⟨rfl, rfl⟩, .inr (.inl rfl), fun _ => hb.ended (.inl hstage)⟩

end Resume

/-! ## The tally -/

section Tally

variable {o : Options} {s s' : Server} {n : Nat} {b b' : Build}

theorem Sane.holds_iff (h : Sane b) : b.Holds ↔ b.stage.account = (1, 0) := by
  unfold Build.Holds
  obtain ⟨haccount, -⟩ := h
  cases hstage : b.stage <;> simp_all [Stage.account]

theorem Sane.holds_of_active (h : Sane b) (hactive : b.stage.Active) :
    b.acquired = 1 ∧ b.released = 0 := by
  obtain ⟨haccount, -⟩ := h
  cases hstage : b.stage <;> simp_all [Stage.account, Stage.Active]

/-- The part of the order that speaks of the builds. -/
structure Tallied (s : Server) : Prop where
  counted : s.running = s.holders
  queued : ∀ n, n ∈ s.waiting ↔ ∃ b, s.builds[n]? = some b ∧ b.stage = .waiting
  sane : ∀ b ∈ s.builds, Sane b

theorem Orderly.tallied (h : Orderly o s) : Tallied s := ⟨h.counted, h.queued, h.sane⟩

theorem holders_set {l : List Build} (hb : l[n]? = some b) :
    (l.set n b').countP (fun b => decide b.Holds) + (if b.Holds then 1 else 0) =
      l.countP (fun b => decide b.Holds) + (if b'.Holds then 1 else 0) := by
  obtain ⟨hn, rfl⟩ := List.getElem?_eq_some_iff.mp hb
  have hle := List.boole_getElem_le_countP (p := fun b => decide b.Holds) hn
  rw [List.countP_set hn]
  simp only [decide_eq_true_eq] at hle ⊢
  omega

/-- Build `n` is now `b'`, and the counter and the queue follow. -/
theorem tallied_set (h : Tallied s) (hb : s.builds[n]? = some b)
    (hbuilds : s'.builds = s.builds.set n b') (hsane : Sane b')
    (hrunning : s'.running + (if b.Holds then 1 else 0) = s.running + (if b'.Holds then 1 else 0))
    (hwaiting : ∀ m, m ∈ s'.waiting ↔ if m = n then b'.stage = .waiting else m ∈ s.waiting) :
    Tallied s' := by
  refine ⟨?_, fun m => ?_, fun c hc => ?_⟩
  · have hcount := (@holders_set _ _ b') hb
    have hcounted := h.counted
    unfold Server.holders at hcounted ⊢
    rw [hbuilds]
    by_cases hold : b.Holds <;> by_cases hnew : b'.Holds <;>
      simp only [hold, hnew, if_true, if_false] at hcount hrunning <;> omega
  · rw [hwaiting m, hbuilds, List.getElem?_set]
    obtain ⟨hn, -⟩ := List.getElem?_eq_some_iff.mp hb
    by_cases hm : m = n
    · subst hm
      simp [hn]
    · rw [if_neg hm, if_neg (Ne.symm hm)]
      exact h.queued m
  · rw [hbuilds] at hc
    rcases List.mem_or_eq_of_mem_set hc with hold | rfl
    · exact h.sane c hold
    · exact hsane

theorem modify_get {l : List Build} (hb : l[n]? = some b) (f : Build → Build) :
    l.modify n f = l.set n (f b) := by
  have : Inhabited Build := ⟨b⟩
  rw [List.modify_eq_set, hb]
  rfl

/-- A slot for build `n`, that has none. -/
theorem tallied_grant {waiting handed : List Nat} (h : Tallied s) (hb : s.builds[n]? = some b)
    (hstage : b.stage.account = (0, 0)) (hwaiting : ∀ m, m ∈ waiting ↔ m ∈ s.waiting ∧ m ≠ n) :
    Tallied ({ s with waiting := waiting, handed := handed }.grant n) := by
  have hsane := h.sane b (List.mem_of_getElem? hb)
  have hnone : b.acquired = 0 ∧ b.released = 0 := by simpa [hstage] using hsane.account
  refine tallied_set h hb (modify_get hb _) ⟨?_, ?_, nofun⟩ ?_ fun m => ?_
  · simp [hnone, Stage.account]
  · rintro (h | h) <;> cases h
  · simp [Server.grant, Build.Holds, hnone]
  · show m ∈ waiting ↔ _
    rw [hwaiting m]
    by_cases hm : m = n <;> simp [hm]

/-- Build `n` joins the queue. -/
theorem tallied_queue (h : Tallied s) (hb : s.builds[n]? = some b)
    (hstage : b.stage = .flushing) :
    Tallied
      { s with
        waiting := s.waiting ++ [n]
        builds := s.builds.modify n fun b => { b with stage := .waiting } } := by
  have hsane := h.sane b (List.mem_of_getElem? hb)
  refine tallied_set h hb (modify_get hb _) ⟨?_, ?_, nofun⟩ ?_ fun m => ?_
  · simpa [hstage, Stage.account] using hsane.account
  · rintro (h | h) <;> cases h
  · rfl
  · by_cases hm : m = n <;> simp [hm]

/-- A build is accepted. -/
theorem tallied_submit (h : Tallied s) (id : String) (payload : Payload) :
    Tallied { s with builds := s.builds ++ [{ id := id, payload := payload }] } where
  counted := by
    have hcounted := h.counted
    unfold Server.holders at hcounted ⊢
    simpa [Build.Holds] using hcounted
  queued n := by
    rw [h.queued n]
    constructor
    · rintro ⟨b, hb, hstage⟩
      obtain ⟨hn, -⟩ := List.getElem?_eq_some_iff.mp hb
      exact ⟨b, by rwa [List.getElem?_append_left hn], hstage⟩
    · rintro ⟨b, hb, hstage⟩
      rcases Nat.lt_or_ge n s.builds.length with hn | hn
      · exact ⟨b, by rwa [List.getElem?_append_left hn] at hb, hstage⟩
      · -- the new one does not wait
        rw [List.getElem?_append_right hn] at hb
        obtain rfl := List.mem_singleton.mp (List.mem_of_getElem? hb)
        cases hstage
  sane b hb := by
    rcases List.mem_append.mp hb with hold | hnew
    · exact h.sane b hold
    · obtain rfl := List.mem_singleton.mp hnew
      exact ⟨rfl, fun h => (by rcases h with h | h <;> cases h), nofun⟩

/-- A build that keeps its slot, or never had one. -/
theorem tallied_put (h : Tallied s) (hb : s.builds[n]? = some b) (hsane : Sane b')
    (hslots : b'.acquired = b.acquired ∧ b'.released = b.released)
    (hout : b'.stage = .waiting ↔ b.stage = .waiting) : Tallied { s with builds := s.builds.set n b' } := by
  have hsame : b'.Holds ↔ b.Holds := by
    unfold Build.Holds
    rw [hslots.1, hslots.2]
  refine tallied_set h hb rfl hsane ?_ fun m => ?_
  · simp only [hsame]
  · by_cases hm : m = n
    · subst hm
      simp [h.queued, hb, hout]
    · simp [hm]

/-- Build `n` gives its slot back. -/
theorem tallied_retire (h : Tallied s) (hb : s.builds[n]? = some b) (hactive : b.stage.Active)
    (hslots : b'.acquired = b.acquired ∧ b'.released = b.released) (hover : b'.stage = .over)
    (hended : b'.status.Ended) :
    Tallied
      { s with
        running := s.running - 1
        builds := (s.builds.set n b').modify n fun b => { b with released := b.released + 1 } } := by
  have hold := (h.sane b (List.mem_of_getElem? hb)).holds_of_active hactive
  obtain ⟨hn, -⟩ := List.getElem?_eq_some_iff.mp hb
  have hput : (s.builds.set n b')[n]? = some b' := by rw [List.getElem?_set_self hn]
  refine @tallied_set _ _ _ _ { b' with released := b'.released + 1 } h hb ?_
    ⟨?_, fun _ => hended, by dsimp only; rw [hover]; exact nofun⟩ ?_ fun m => ?_
  · dsimp only
    rw [modify_get hput, List.set_set]
  · simp [hslots, hold, hover, Stage.account]
  · simp [Build.Holds, hslots, hold]
  · have hout : b.stage ≠ .waiting := fun h => by
      rw [h] at hactive
      exact hactive
    by_cases hm : m = n
    · subst hm
      simp [hover, h.queued, hb, hout]
    · simp [hm]

end Tally

/-! ## The step -/

section Step

variable {o : Options} {s : Server} {n : Nat} {b b' : Build}

theorem orderly_start : Orderly o {} where
  counted := rfl
  bounded := Int.natCast_nonneg o.maxConcurrentBuilds
  busy h := absurd rfl h
  fifo := List.Pairwise.nil
  queued n := by simp
  sane b hb := absurd hb List.not_mem_nil
  up := rfl

/-- Asking for a slot: one that is free is taken, and otherwise the build is the last to wait. -/
theorem orderly_acquireSlot (h : Orderly o s) (hb : s.builds[n]? = some b)
    (hstage : b.stage = .flushing)
    (hroom : s.running < o.maxConcurrentBuilds ∨ ∀ m ∈ s.handed ++ s.waiting, m < n) :
    Orderly o (s.acquireSlot o n) := by
  have hout : n ∉ s.waiting := by
    intro hmem
    obtain ⟨c, hc, hwaiting⟩ := (h.queued n).mp hmem
    obtain rfl := Option.some.inj (hb.symm.trans hc)
    rw [hstage] at hwaiting
    cases hwaiting
  unfold Server.acquireSlot
  split
  next hfree =>
    have htally : Tallied (s.grant n) :=
      @tallied_grant _ _ _ _ s.handed h.tallied hb (by rw [hstage]; rfl) fun m => by
        constructor
        · exact fun hm => ⟨hm, fun heq => hout (heq ▸ hm)⟩
        · exact fun hm => hm.1
    exact { htally with
      bounded := by show s.running + 1 ≤ _; omega
      busy := fun hwaiting => by
        have := h.busy hwaiting
        omega
      fifo := h.fifo
      up := h.up }
  next hfull =>
    exact { tallied_queue h.tallied hb hstage with
      bounded := h.bounded
      busy := fun _ => by
        have := h.bounded
        show s.running = _
        omega
      fifo := by
        show (s.handed ++ (s.waiting ++ [n])).Pairwise (· < ·)
        rw [← List.append_assoc, List.pairwise_append]
        refine ⟨h.fifo, List.pairwise_singleton _ _, fun m hm k hk => ?_⟩
        rw [List.mem_singleton.mp hk]
        exact hroom.resolve_left hfull m hm
      up := h.up }

/-- Giving one back: it goes to the first that waits. -/
theorem orderly_releaseSlot (h : Orderly o s) (hb : s.builds[n]? = some b)
    (hactive : b.stage.Active) (hslots : b'.acquired = b.acquired ∧ b'.released = b.released)
    (hover : b'.stage = .over) (hended : b'.status.Ended) :
    Orderly o (Server.releaseSlot { s with builds := s.builds.set n b' } n) := by
  have htally := tallied_retire h.tallied hb hactive hslots hover hended
  unfold Server.releaseSlot
  dsimp only
  cases hwaiting : s.waiting with
  | nil =>
    rw [hwaiting] at htally
    exact { htally with
      bounded := by
        have := h.bounded
        show s.running - 1 ≤ _
        omega
      busy := fun h => absurd rfl h
      fifo := by
        have := h.fifo
        rwa [hwaiting] at this
      up := h.up }
  | cons next rest =>
    rw [hwaiting] at htally
    have hfifo := h.fifo
    rw [hwaiting] at hfifo
    have hnext : next ∉ rest := by
      have := (List.pairwise_append.mp hfifo).2.1
      exact fun hmem => Nat.lt_irrefl next ((List.pairwise_cons.mp this).1 next hmem)
    -- the head of the queue is a build that waits
    obtain ⟨c, hc, hstage⟩ := (htally.queued next).mp List.mem_cons_self
    have hgranted := @tallied_grant _ _ _ rest (s.handed ++ [next]) htally hc
      (by rw [hstage]; rfl) fun m => by
        constructor
        · exact fun hm => ⟨List.mem_cons_of_mem _ hm, fun heq => hnext (heq ▸ hm)⟩
        · rintro ⟨hm, hne⟩
          exact (List.mem_cons.mp hm).resolve_left hne
    exact { hgranted with
      bounded := by
        have := h.bounded
        show s.running - 1 + 1 ≤ _
        omega
      busy := fun _ => by
        have := h.busy (by rw [hwaiting]; exact List.cons_ne_nil _ _)
        show s.running - 1 + 1 = _
        omega
      fifo := by
        show (s.handed ++ [next] ++ rest).Pairwise (· < ·)
        rwa [List.append_assoc]
      up := h.up }

theorem orderly_put (h : Orderly o s) (hb : s.builds[n]? = some b) (hsane : Sane b')
    (hslots : b'.acquired = b.acquired ∧ b'.released = b.released)
    (hout : b'.stage = .waiting ↔ b.stage = .waiting) :
    Orderly o { s with builds := s.builds.set n b' } :=
  { tallied_put h.tallied hb hsane hslots hout with
    bounded := h.bounded, busy := h.busy, fifo := h.fifo, up := h.up }

/-- What becomes of the end of an await past the slot. -/
theorem settle_of_active {r : Settled} {now : Nat} (hactive : b.stage.Active) :
    s.settle o n b r now =
      match (b.resume o now r).stage with
      | .over => Server.releaseSlot { s with builds := s.builds.set n (b.resume o now r) } n
      | .stranded => { s with builds := s.builds.set n (b.resume o now r), down := true }
      | _ => { s with builds := s.builds.set n (b.resume o now r) } := by
  unfold Server.settle
  cases hs : b.stage <;> first | rfl | (rw [hs] at hactive; exact hactive.elim)

/-- An await that ends keeps the order. -/
theorem orderly_settle {r : Settled} {now : Nat} (h : Orderly o s) (hb : s.builds[n]? = some b)
    (hsmooth : Smooth o s n b r) : Orderly o (s.settle o n b r now) := by
  have hsane := h.sane b (List.mem_of_getElem? hb)
  by_cases hactive : b.stage.Active
  · obtain ⟨hslots, hstage, hended⟩ := @further_resume o now _ r hactive hsane
    have hout : b.stage ≠ .waiting := fun h => by
      rw [h] at hactive
      exact hactive
    rw [settle_of_active hactive]
    rcases hstage with ⟨hnext, -⟩ | hover | ⟨-, hmaking, error, rfl⟩
    · have hsane' : Sane (b.resume o now r) := by
        refine ⟨?_, hended, fun h => by rw [h] at hnext; exact hnext⟩
        have hone := hsane.holds_of_active hactive
        rw [hslots.1, hslots.2, hone.1, hone.2]
        cases hs : (b.resume o now r).stage <;>
          first | rfl | (rw [hs] at hnext; exact hnext.elim)
      have hput := orderly_put h hb hsane' hslots
        (iff_of_false (fun h => by rw [h] at hnext; exact hnext) hout)
      cases hs : (b.resume o now r).stage <;>
        first | exact hput | (rw [hs] at hnext; exact hnext.elim)
    · rw [hover]
      exact orderly_releaseSlot h hb hactive hslots hover (hended (.inr hover))
    · -- a workspace that could not be made
      unfold Smooth at hsmooth
      rw [hmaking] at hsmooth
      exact hsmooth.elim
  · unfold Server.settle
    cases hstage : b.stage with
    | flushing =>
      dsimp only
      have hput := @orderly_put _ _ _ _
        (b.log o s!"accepted build for {b.payload.source.known} source") h hb
        ⟨by simpa using hsane.account, by simpa using hsane.ended, by simpa using hsane.awaited⟩
        (by simp) (by simp)
      obtain ⟨hn, -⟩ := List.getElem?_eq_some_iff.mp hb
      refine orderly_acquireSlot hput (List.getElem?_set_self hn)
        ((log_stage _).trans hstage) ?_
      unfold Smooth at hsmooth
      rwa [hstage] at hsmooth
    | waiting | «over» | stranded => exact h
    | granted | making | running c | clearing =>
      rw [hstage] at hactive
      exact absurd trivial hactive

/-- **Step lemma.** -/
theorem orderly_step {e : Event} (h : Orderly o s) (hin : InOrder o s e) :
    Orderly o (s.step o e) := by
  unfold Server.step
  rw [if_neg (by rw [h.up]; exact Bool.false_ne_true)]
  cases e with
  | submit id payload =>
    exact { tallied_submit h.tallied id payload with
      bounded := h.bounded, busy := h.busy, fifo := h.fifo, up := h.up }
  | cancel n =>
    dsimp only
    cases hb : s.builds[n]? with
    | none =>
      rw [List.modify_eq_self (List.getElem?_eq_none_iff.mp hb)]
      exact h
    | some b =>
      have hsane := h.sane b (List.mem_of_getElem? hb)
      rw [modify_get hb]
      exact orderly_put h hb ⟨hsane.account, hsane.ended, hsane.awaited⟩ ⟨rfl, rfl⟩ Iff.rfl
  | settle n r now =>
    dsimp only
    split
    · exact h
    next b hb => exact orderly_settle h hb (hin b hb)

end Step

end CloudWai.Builder
