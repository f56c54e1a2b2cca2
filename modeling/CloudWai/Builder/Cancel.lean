import CloudWai.Builder.Progress

/-!
# Cancelling a build

A cancel request sets a flag, at any time and whatever the build is at. The flag
is read in two places, when the build gets its slot and when Nixpacks has ended,
and a build that finds it there fails. What a build does behind the second place,
or on a way that does not lead past it, it does with the flag set: a plan that
has been made ends the build succeeded, and so does a workspace that has been made
for an image source. `stays_cancelled_iff` is the exact form: a build that was
cancelled in time never succeeds in a run exactly if no cancelled build comes to
one of these two exits.

`Outcome` says once what `resume` can make of a build's verdict; what the queue of
slots does to a build never touches it (`Same`).

About `runBuild` and the cancel route of `infra/deployment/builder-server.mjs`, as
`Server.lean` has them.
-/

namespace CloudWai.Builder

open Base

/-! ## What a cancel request is for -/

/-- In a later state, a build that was cancelled before it ended has not succeeded
and has published nothing. -/
def StaysCancelled (x y : Server) : Prop :=
  ∀ n : Nat, ∀ b ∈ x.builds[n]?, b.cancelled = true → ¬ b.status.Ended →
    ∀ b' ∈ y.builds[n]?, b'.status ≠ .succeeded ∧ b'.artifact = none

/-- An image is taken as it is; nothing is built. -/
def Source.isImage : Source → Bool
  | .image _ => true
  | .git .. | .other _ => false

/-- The build's await is one that ends it succeeded, if it ends well. -/
def Build.AtExit (b : Build) : Prop :=
  b.stage = .running .plan ∨ (b.stage = .making ∧ b.payload.source.isImage = true)

instance (b : Build) : Decidable b.AtExit := inferInstanceAs (Decidable (_ ∨ _))

/-- An await that ended well. -/
def Settled.Well : Settled → Prop
  | .done .. => True
  | .threw _ => False

/-- **The condition** on an event: it does not lead a cancelled build to an exit. -/
def HeedsCancel (s : Server) : Event → Prop
  | .settle n r _ => s.down = false → ∀ b ∈ s.builds[n]?, b.cancelled = true → r.Well → ¬ b.AtExit
  | _ => True

/-! ## What `resume` makes of a verdict -/

/-- Short of the `finally`. -/
def Stage.Open (g : Stage) : Prop := g ≠ .clearing ∧ g ≠ .over ∧ g ≠ .stranded

/-- Where a build stands after `resume`. -/
inductive Outcome (b : Build) (r : Settled) (b' : Build) : Prop
  | goesOn (status : b'.status = b.status ∨ b.stage = .granted ∧ b'.status = .running)
      (artifact : b'.artifact = b.artifact) (opened : b'.stage.Open → b.stage.Open)
  | fails (opened : b.stage.Open) (status : b'.status = .failed)
      (artifact : b'.artifact = b.artifact) (closed : ¬ b'.stage.Open)
  | succeeds (exit : b.AtExit) (well : r.Well) (status : b'.status = .succeeded)
      (closed : ¬ b'.stage.Open)

section Resume

variable {o : Options} {now : Nat} {b b' : Build} {r : Settled}

@[simp] theorem log_artifact (line : String) : (b.log o line).artifact = b.artifact := by
  unfold Build.log
  split <;> (try split) <;> rfl

@[simp] theorem log_cancelled (line : String) : (b.log o line).cancelled = b.cancelled := by
  unfold Build.log
  split <;> (try split) <;> rfl

/-- The same verdict, the same flag. -/
structure Same (b b' : Build) : Prop where
  status : b'.status = b.status
  artifact : b'.artifact = b.artifact
  cancelled : b'.cancelled = b.cancelled

theorem Same.refl (b : Build) : Same b b := ⟨rfl, rfl, rfl⟩

theorem Same.trans {c : Build} (h : Same b b') (h' : Same b' c) : Same b c :=
  ⟨h'.status.trans h.status, h'.artifact.trans h.artifact, h'.cancelled.trans h.cancelled⟩

theorem same_log (line : String) : Same b (b.log o line) :=
  ⟨log_status line, log_artifact line, log_cancelled line⟩

theorem same_logs (lines : List String) : Same b (lines.foldl (Build.log o) b) := by
  induction lines generalizing b with
  | nil => exact .refl b
  | cons line lines ih => exact (same_log line).trans ih

theorem closed_clearing : ¬ Stage.Open .clearing := fun h => h.1 rfl

theorem outcome_fail (line : String) (hopen : b.stage.Open) (h : b'.artifact = b.artifact) :
    Outcome b r (b'.fail o now line) :=
  .fails hopen rfl ((log_artifact line).trans h) closed_clearing

/-- A build that runs goes on to another command. -/
theorem outcome_command {c : Command} (hsame : Same b b') (hopen : b.stage.Open) :
    Outcome b r { b' with stage := .running c } :=
  .goesOn (.inl hsame.status) hsame.artifact fun _ => hopen

theorem outcome_start (hsame : Same b b') (hopen : b.stage.Open) :
    Outcome b r (b'.startBuild o) :=
  outcome_command (hsame.trans (same_log _)) hopen

theorem outcome_enter (h : b.stage = .making) (hr : r.Well) : Outcome b r (b.enter o now) := by
  have hopen : b.stage.Open := by
    rw [h]
    exact ⟨nofun, nofun, nofun⟩
  unfold Build.enter
  split
  · exact outcome_command (same_log _) hopen
  next uri huri =>
    exact .succeeds (.inr ⟨h, by rw [huri]; rfl⟩) hr rfl closed_clearing
  · exact outcome_fail _ hopen rfl

/-- Where a command has ended, the build goes on, fails, or succeeds by one of the two exits. -/
theorem outcome_after {c : Command} {code : Nat} {out : String} (hsame : Same b b')
    (hc : b.stage = .running c) (hr : r.Well) : Outcome b r (b'.after o now code out c) := by
  have hopen : b.stage.Open := by
    rw [hc]
    exact ⟨nofun, nofun, nofun⟩
  unfold Build.after
  cases c with
  | clone repository =>
    dsimp only
    split
    · exact outcome_fail _ hopen hsame.artifact
    · split
      · split
        · exact outcome_start hsame hopen
        · exact outcome_command hsame hopen
      · exact outcome_start hsame hopen
  | checkout gitRef =>
    dsimp only
    split
    · exact outcome_fail _ hopen hsame.artifact
    · exact outcome_start hsame hopen
  | build name buildCommand buildPack environment =>
    dsimp only
    split
    · exact outcome_fail _ hopen hsame.artifact
    · split
      · exact outcome_fail _ hopen hsame.artifact
      · exact outcome_command hsame hopen
  | plan => exact .succeeds (.inl hc) hr rfl closed_clearing

/-- **What `resume` does** to the verdict of a build that has its slot. -/
theorem outcome_resume (hactive : b.stage.Active) : Outcome b r (b.resume o now r) := by
  have hopen (hne : b.stage ≠ .clearing) : b.stage.Open :=
    ⟨hne, fun h => by rw [h] at hactive; exact hactive, fun h => by rw [h] at hactive; exact hactive⟩
  unfold Build.resume
  cases hstage : b.stage with
  | flushing | waiting | «over» | stranded =>
    rw [hstage] at hactive
    exact hactive.elim
  | granted =>
    dsimp only
    split
    · exact .fails (hopen (by rw [hstage]; exact nofun)) rfl (log_artifact _) fun h => h.2.1 rfl
    · exact .goesOn (.inr ⟨hstage, rfl⟩) rfl fun _ => hopen (by rw [hstage]; exact nofun)
  | making =>
    cases r with
    | done code out lines => exact outcome_enter hstage trivial
    | threw error => exact .goesOn (.inl rfl) rfl fun h => absurd rfl h.2.2
  | running c =>
    cases r with
    | done code out lines =>
      dsimp only
      have hlogs : Same b (if c = .plan then b else lines.foldl (Build.log o) b) := by
        split
        · exact .refl b
        · exact same_logs lines
      exact outcome_after hlogs hstage trivial
    | threw error => exact outcome_fail _ (hopen (by rw [hstage]; exact nofun)) rfl
  | clearing => exact .goesOn (.inl rfl) rfl fun h => absurd rfl h.2.1

/-- No command's end takes a cancellation back. -/
theorem resume_cancelled : (b.resume o now r).cancelled = b.cancelled := by
  have hstart (b : Build) : (b.startBuild o).cancelled = b.cancelled := log_cancelled _
  have hfail (b : Build) (line : String) : (b.fail o now line).cancelled = b.cancelled :=
    log_cancelled line
  -- whatever a command's end sets going, it is a stage and a status, and lines of the log
  have hafter (b : Build) (code : Nat) (out : String) (c : Command) :
      (b.after o now code out c).cancelled = b.cancelled := by
    unfold Build.after
    cases c with
    | clone repository =>
      dsimp only
      repeat' split
      all_goals first | exact hfail b _ | exact hstart b | rfl
    | checkout gitRef | build =>
      dsimp only
      repeat' split
      all_goals first | exact hfail b _ | exact hstart b | rfl
    | plan => exact log_cancelled _
  unfold Build.resume
  split
  -- each stage waits for an end of its own
  · split
    · exact log_cancelled _
    · rfl
  · split
    · unfold Build.enter
      split
      · exact log_cancelled _
      · exact log_cancelled _
      · exact hfail b _
    · rfl
  · split
    · rw [hafter]
      split
      · rfl
      · exact (same_logs _).cancelled
    · exact hfail b _
  all_goals rfl

/-- What the queue of slots does afterwards does not change the outcome. -/
theorem Outcome.same {b₁ : Build} (h : Outcome b r b₁) (hsame : Same b₁ b')
    (hopened : b'.stage.Open → b₁.stage.Open) : Outcome b r b' := by
  cases h with
  | goesOn status artifact opened =>
    refine .goesOn ?_ (hsame.artifact.trans artifact) fun h => opened (hopened h)
    rw [hsame.status]
    exact status
  | fails opened status artifact closed =>
    exact .fails opened (hsame.status.trans status) (hsame.artifact.trans artifact)
      fun h => closed (hopened h)
  | succeeds exit well status closed =>
    exact .succeeds exit well (hsame.status.trans status) fun h => closed (hopened h)

end Resume

/-! ## The queue -/

section Queue

variable {o : Options} {s : Server} {n i : Nat} {b b' : Build}

/-- Who is in the queue waits, and stands in it once. -/
structure Lined (s : Server) : Prop where
  once : s.waiting.Nodup
  waits : ∀ i ∈ s.waiting, s.At i (· = .waiting)

theorem lined_put (h : Lined s) (hn : n ∉ s.waiting) :
    Lined { s with builds := s.builds.set n b' } where
  once := h.once
  waits i hi := by
    have hne : n ≠ i := fun heq => hn (heq ▸ hi)
    obtain ⟨b, hb, hwaiting⟩ := h.waits i hi
    exact ⟨b, (List.getElem?_set_ne hne).trans hb, hwaiting⟩

/-- A build that joins the queue, or gets a slot, is in its place. -/
theorem lined_acquire (h : Lined s) (hb : s.builds[n]? = some b) (hn : n ∉ s.waiting) :
    Lined (s.acquireSlot o n) := by
  have hothers : ∀ i ∈ s.waiting, (s.acquireSlot o n).At i (· = .waiting) := by
    intro i hi
    obtain ⟨c, hc, hwaiting⟩ := h.waits i hi
    have hne : n ≠ i := fun heq => hn (heq ▸ hi)
    exact ⟨c, (acquireSlot_other hne).trans hc, hwaiting⟩
  by_cases hfree : s.running < o.maxConcurrentBuilds
  · have hsame : (s.acquireSlot o n).waiting = s.waiting := by
      unfold Server.acquireSlot
      rw [if_pos hfree]
      rfl
    refine ⟨?_, ?_⟩ <;> rw [hsame]
    · exact h.once
    · exact hothers
  · have hmore : (s.acquireSlot o n).waiting = s.waiting ++ [n] := by
      unfold Server.acquireSlot
      rw [if_neg hfree]
    refine ⟨?_, ?_⟩ <;> rw [hmore]
    · rw [← List.concat_eq_append]
      exact h.once.concat hn
    · intro i hi
      rcases List.mem_append.mp hi with hi | hi
      · exact hothers i hi
      · obtain rfl := List.mem_singleton.mp hi
        refine ⟨{ b with stage := .waiting }, ?_, rfl⟩
        unfold Server.acquireSlot
        rw [if_neg hfree]
        simp [hb]

theorem lined_release (h : Lined s) (hn : n ∉ s.waiting) : Lined (s.releaseSlot n) := by
  have hwaiting : (s.releaseSlot n).waiting = s.waiting.tail := releaseSlot_waiting
  refine ⟨?_, ?_⟩ <;> rw [hwaiting]
  · exact h.once.sublist (List.tail_sublist _)
  · intro i hi
    have hmem := List.mem_of_mem_tail hi
    have hhead : i ∉ s.waiting.head? := by
      have honce := h.once
      revert hi honce
      cases s.waiting with
      | nil => exact fun h => absurd h List.not_mem_nil
      | cons next rest =>
        intro hi honce hhead
        obtain rfl : next = i := Option.some.inj hhead
        exact (List.nodup_cons.mp honce).1 hi
    obtain ⟨b, hb, hstage⟩ := h.waits i hmem
    have hne : n ≠ i := fun heq => hn (heq ▸ hmem)
    exact ⟨b, (releaseSlot_other hne hhead).trans hb, hstage⟩

/-- Asking for a slot changes no verdict. -/
theorem acquireSlot_same (hb' : (s.acquireSlot o n).builds[i]? = some b') :
    ∃ b, s.builds[i]? = some b ∧ Same b b' ∧ (b'.stage = b.stage ∨ i = n) := by
  by_cases hi : n = i
  · subst hi
    cases hb : s.builds[n]? with
    | none =>
      unfold Server.acquireSlot at hb'
      split at hb'
      · rw [grant_get, hb] at hb'
        cases hb'
      · simp [hb] at hb'
    | some b =>
      refine ⟨b, rfl, ?_, .inr rfl⟩
      unfold Server.acquireSlot at hb'
      split at hb'
      · rw [grant_get, hb] at hb'
        obtain rfl : (if n = n then _ else _) = b' := Option.some.inj hb'
        rw [if_pos rfl]
        exact ⟨rfl, rfl, rfl⟩
      · obtain rfl : { b with stage := .waiting } = b' := by simpa [hb] using hb'
        exact ⟨rfl, rfl, rfl⟩
  · exact ⟨b', (acquireSlot_other hi).symm.trans hb', .refl b', .inl rfl⟩

/-- Nor does giving one back: it goes to a build that waits. -/
theorem releaseSlot_same (h : Lined s) (hb' : (s.releaseSlot n).builds[i]? = some b') :
    ∃ b, s.builds[i]? = some b ∧ Same b b' ∧ (b'.stage = b.stage ∨ b.stage = .waiting) := by
  unfold Server.releaseSlot at hb'
  dsimp only at hb'
  cases hb : s.builds[i]? with
  | none =>
    -- without a build at `i` there is none afterwards either
    revert hb'
    cases s.waiting with
    | nil => simp [hb, List.getElem?_modify]
    | cons next rest => simp [hb, grant_get, List.getElem?_modify]
  | some b =>
    refine ⟨b, rfl, ?_⟩
    -- counting the release changes nothing else of it
    have hput : (s.builds.modify n fun b => { b with released := b.released + 1 })[i]? =
        some (if n = i then { b with released := b.released + 1 } else b) := by
      rw [List.getElem?_modify, hb]
      rfl
    have hsame : Same b (if n = i then { b with released := b.released + 1 } else b) ∧
        (if n = i then { b with released := b.released + 1 } else b).stage = b.stage := by
      split
      · exact ⟨⟨rfl, rfl, rfl⟩, rfl⟩
      · exact ⟨.refl b, rfl⟩
    cases hwaiting : s.waiting with
    | nil =>
      rw [hwaiting] at hb'
      obtain rfl := Option.some.inj (hput.symm.trans hb')
      exact ⟨hsame.1, .inl hsame.2⟩
    | cons next rest =>
      rw [hwaiting, grant_get] at hb'
      dsimp only at hb'
      rw [hput] at hb'
      obtain rfl := Option.some.inj hb'
      beta_reduce
      -- it is the one that the slot goes to: it waited
      by_cases hi : next = i
      · rw [if_pos hi]
        obtain ⟨c, hc, hstage⟩ := h.waits i (by rw [hwaiting, hi]; exact List.mem_cons_self)
        obtain rfl := Option.some.inj (hb.symm.trans hc)
        exact ⟨⟨hsame.1.status, hsame.1.artifact, hsame.1.cancelled⟩, .inr hstage⟩
      · rw [if_neg hi]
        exact ⟨hsame.1, .inl hsame.2⟩

end Queue

/-! ## The step -/

section Step

variable {o : Options} {s : Server} {n i : Nat} {b b' : Build} {e : Event}

/-- What an event has done to build `i`. -/
inductive Moved (s : Server) (e : Event) (i : Nat) (b b' : Build) : Prop
  | kept (same : Same b b') (opened : b'.stage.Open → b.stage.Open)
  | asked (cancelled : b' = { b with cancelled := true })
  | resumed (r : Settled) (now : Nat) (event : e = .settle i r now) (up : s.down = false)
      (cancelled : b'.cancelled = b.cancelled) (outcome : Outcome b r b')

/-- What is so of every state: a verdict is reached on the way to the `finally`, and the
artifact is there only under the verdict that goes with it. -/
structure Coherent (s : Server) : Prop where
  lined : Lined s
  unpublished : ∀ i : Nat, ∀ b ∈ s.builds[i]?, b.status ≠ .succeeded → b.artifact = none
  unsettled : ∀ i : Nat, ∀ b ∈ s.builds[i]?, b.stage.Open → ¬ b.status.Ended

theorem coherent_start : Coherent {} where
  lined := ⟨List.nodup_nil, fun _ h => absurd h List.not_mem_nil⟩
  unpublished i b hb := by simp at hb
  unsettled i b hb := by simp at hb

theorem open_of_waiting (h : b.stage = .waiting) : b.stage.Open := by
  rw [h]
  exact ⟨nofun, nofun, nofun⟩

/-- A build that has its slot is not in the queue. -/
theorem Lined.not_mem (h : Lined s) (hb : s.builds[n]? = some b) (hstage : b.stage ≠ .waiting) :
    n ∉ s.waiting := by
  intro hmem
  obtain ⟨c, hc, hwaiting⟩ := h.waits n hmem
  obtain rfl := Option.some.inj (hb.symm.trans hc)
  exact hstage hwaiting

/-- The end of an await moves the build it belongs to, and leaves the verdicts of the
others alone. -/
theorem moved_settle {r : Settled} {now : Nat} (h : Lined s) (hb : s.builds[n]? = some b)
    (hup : s.down = false) (hb' : (s.settle o n b r now).builds[i]? = some b') :
    ∃ c, s.builds[i]? = some c ∧ Moved s (.settle n r now) i c b' := by
  obtain ⟨hn, -⟩ := List.getElem?_eq_some_iff.mp hb
  by_cases hactive : b.stage.Active
  · have hout : n ∉ s.waiting := h.not_mem hb fun hw => by
      rw [hw] at hactive
      exact hactive
    have hlined : Lined { s with builds := s.builds.set n (b.resume o now r) } := lined_put h hout
    -- the build, or another that is handed the slot
    have hput : ∀ c₁ : Build, (s.builds.set n (b.resume o now r))[i]? = some c₁ → Same c₁ b' →
        (b'.stage = c₁.stage ∨ c₁.stage = .waiting) →
        ∃ c, s.builds[i]? = some c ∧ Moved s (.settle n r now) i c b' := by
      intro c₁ hc₁ hsame hstage
      have hopened : b'.stage.Open → c₁.stage.Open := by
        intro hopen
        rcases hstage with heq | hwaiting
        · rwa [← heq]
        · exact open_of_waiting hwaiting
      by_cases hi : n = i
      · subst hi
        rw [List.getElem?_set_self hn] at hc₁
        obtain rfl := Option.some.inj hc₁
        exact ⟨b, hb, .resumed r now rfl hup (hsame.cancelled.trans resume_cancelled)
          ((outcome_resume hactive).same hsame hopened)⟩
      · rw [List.getElem?_set_ne hi] at hc₁
        exact ⟨c₁, hc₁, .kept hsame hopened⟩
    rw [settle_of_active hactive] at hb'
    split at hb'
    · obtain ⟨c₁, hc₁, hsame, hstage⟩ := releaseSlot_same hlined hb'
      exact hput c₁ hc₁ hsame hstage
    · exact hput b' hb' (.refl b') (.inl rfl)
    · exact hput b' hb' (.refl b') (.inl rfl)
  · unfold Server.settle at hb'
    cases hstage : b.stage with
    | flushing =>
      rw [hstage] at hb'
      obtain ⟨c₁, hc₁, hsame, hmoved⟩ := acquireSlot_same hb'
      by_cases hi : n = i
      · subst hi
        rw [List.getElem?_set_self hn] at hc₁
        obtain rfl := Option.some.inj hc₁
        refine ⟨b, hb, .kept ((same_log _).trans hsame) fun _ => ?_⟩
        rw [hstage]
        exact ⟨nofun, nofun, nofun⟩
      · rw [List.getElem?_set_ne hi] at hc₁
        refine ⟨c₁, hc₁, .kept hsame fun hopen => ?_⟩
        rcases hmoved with heq | heq
        · rwa [← heq]
        · exact absurd heq.symm hi
    | waiting | «over» | stranded =>
      rw [hstage] at hb'
      exact ⟨b', hb', .kept (.refl b') id⟩
    | granted | making | running c | clearing =>
      rw [hstage] at hactive
      exact absurd trivial hactive

/-- **What an event does** to a build: it was there before, or it is a new one. -/
theorem moved_step (h : Lined s) (hb' : (s.step o e).builds[i]? = some b') :
    (∃ c, s.builds[i]? = some c ∧ Moved s e i c b') ∨
      s.builds[i]? = none ∧ b'.cancelled = false ∧ b'.status = .queued ∧ b'.artifact = none := by
  unfold Server.step at hb'
  split at hb'
  · exact .inl ⟨b', hb', .kept (.refl b') id⟩
  next hup =>
    cases e with
    | submit id payload =>
      rcases Nat.lt_or_ge i s.builds.length with hi | hi
      -- a new build is at the end, so those before it are where they were
      · rw [List.getElem?_append_left hi] at hb'
        exact .inl ⟨b', hb', .kept (.refl b') fun h => h⟩
      · rw [List.getElem?_append_right hi] at hb'
        obtain rfl := List.mem_singleton.mp (List.mem_of_getElem? hb')
        exact .inr ⟨List.getElem?_eq_none hi, rfl, rfl, rfl⟩
    -- the flag is set on one build
    | cancel n =>
      dsimp only at hb'
      rw [List.getElem?_modify] at hb'
      cases hb : s.builds[i]? with
      | none => simp [hb] at hb'
      | some b =>
        rw [hb] at hb'
        obtain rfl := Option.some.inj hb'
        refine .inl ⟨b, rfl, ?_⟩
        dsimp only
        split
        · exact .asked rfl
        · exact .kept (.refl b) id
    | settle n r now =>
      dsimp only at hb'
      split at hb'
      · exact .inl ⟨b', hb', .kept (.refl b') id⟩
      next b hb => exact .inl (moved_settle h hb (by simpa using hup) hb')

/-- **Step.** -/
theorem lined_step (h : Lined s) : Lined (s.step o e) := by
  unfold Server.step
  split
  · exact h
  · cases e with
    | submit id payload =>
      -- a new build waits for its state to be saved, and not in the queue
      refine ⟨h.once, fun i hi => ?_⟩
      obtain ⟨b, hb, hwaiting⟩ := h.waits i hi
      obtain ⟨hlt, -⟩ := List.getElem?_eq_some_iff.mp hb
      exact ⟨b, (List.getElem?_append_left hlt).trans hb, hwaiting⟩
    | cancel n =>
      refine ⟨h.once, fun i hi => ?_⟩
      obtain ⟨b, hb, hwaiting⟩ := h.waits i hi
      refine ⟨if n = i then { b with cancelled := true } else b, ?_, ?_⟩
      · dsimp only
        rw [List.getElem?_modify, hb]
        rfl
      · split <;> exact hwaiting
    | settle n r now =>
      dsimp only
      split
      · exact h
      next b hb =>
        obtain ⟨hn, -⟩ := List.getElem?_eq_some_iff.mp hb
        by_cases hactive : b.stage.Active
        -- an active build is not in the queue
        · have hout : n ∉ s.waiting := h.not_mem hb fun hw => by
            rw [hw] at hactive
            exact hactive
          have hput : Lined { s with builds := s.builds.set n (b.resume o now r) } :=
            lined_put h hout
          rw [settle_of_active hactive]
          split
          · exact lined_release hput hout
          · exact ⟨hput.once, hput.waits⟩
          · exact hput
        · unfold Server.settle
          cases hstage : b.stage with
          -- a saved build joins the queue, or gets a slot at once
          | flushing =>
            have hout : n ∉ s.waiting := h.not_mem hb (by rw [hstage]; exact nofun)
            exact lined_acquire (lined_put h hout) (List.getElem?_set_self hn) hout
          | waiting | «over» | stranded => exact h
          | granted | making | running c | clearing =>
            rw [hstage] at hactive
            exact absurd trivial hactive

/-- **Step lemma.** -/
theorem coherent_step (h : Coherent s) : Coherent (s.step o e) where
  lined := lined_step h.lined
  unpublished i b' hb' hstatus := by
    rcases moved_step h.lined hb' with ⟨b, hb, hmoved⟩ | ⟨-, -, -, hnone⟩
    · have hunpublished := h.unpublished i b hb
      cases hmoved with
      | kept same opened =>
        rw [same.artifact]
        rw [same.status] at hstatus
        exact hunpublished hstatus
      | asked cancelled =>
        subst cancelled
        exact hunpublished hstatus
      | resumed r now event up cancelled outcome =>
        cases outcome with
        -- it went on: then it is as it was, or has just begun
        | goesOn status artifact opened =>
          rw [artifact]
          rcases status with hsame | ⟨hgranted, -⟩
          · rw [hsame] at hstatus
            exact hunpublished hstatus
          · -- no verdict before the slot
            have hopen : b.stage.Open := by
              rw [hgranted]
              exact ⟨nofun, nofun, nofun⟩
            exact hunpublished fun hs => h.unsettled i b hb hopen (.inl hs)
        -- an end without an artifact of its own
        | fails opened status artifact closed =>
          rw [artifact]
          exact hunpublished fun hs => h.unsettled i b hb opened (.inl hs)
        | succeeds exit well status closed => exact absurd status hstatus
    · exact hnone
  unsettled i b' hb' hopen := by
    rcases moved_step h.lined hb' with ⟨b, hb, hmoved⟩ | ⟨-, -, hqueued, -⟩
    · have hunsettled := h.unsettled i b hb
      cases hmoved with
      | kept same opened =>
        rw [same.status]
        exact hunsettled (opened hopen)
      | asked cancelled =>
        subst cancelled
        exact hunsettled hopen
      | resumed r now event up cancelled outcome =>
        cases outcome with
        | goesOn status artifact opened =>
          rcases status with hsame | ⟨-, hrunning⟩
          · rw [hsame]
            exact hunsettled (opened hopen)
          · rw [hrunning]
            decide
        | fails opened status artifact closed => exact absurd hopen closed
        | succeeds exit well status closed => exact absurd hopen closed
    · rw [hqueued]
      decide

/-- A condition on the step, under which a cancelled build keeps its verdict open or fails. -/
theorem heeded_step (h : Coherent s) (hc : HeedsCancel s e) (hb : s.builds[i]? = some b)
    (hflag : b.cancelled = true) (hopen : b.status ≠ .succeeded ∧ b.artifact = none)
    (hb' : (s.step o e).builds[i]? = some b') :
    b'.cancelled = true ∧ b'.status ≠ .succeeded ∧ b'.artifact = none := by
  rcases moved_step h.lined hb' with ⟨c, hget, hmoved⟩ | ⟨hnone, -⟩
  · obtain rfl := Option.some.inj (hb.symm.trans hget)
    cases hmoved with
    | kept same opened =>
      rw [same.cancelled, same.status, same.artifact]
      exact ⟨hflag, hopen⟩
    | asked cancelled =>
      subst cancelled
      exact ⟨rfl, hopen⟩
    | resumed r now event up cancelled outcome =>
      subst event
      refine ⟨cancelled.trans hflag, ?_⟩
      cases outcome with
      | goesOn status artifact opened =>
        refine ⟨?_, artifact.trans hopen.2⟩
        rcases status with hsame | ⟨-, hrunning⟩
        · rw [hsame]
          exact hopen.1
        · rw [hrunning]
          exact nofun
      | fails opened status artifact closed =>
        exact ⟨by rw [status]; exact nofun, artifact.trans hopen.2⟩
      | succeeds exit well status closed => exact absurd exit (hc up b hb hflag well)
  · rw [hb] at hnone
    cases hnone

/-- An exit that is taken with the flag set. -/
theorem heeds_of_stays (h : Coherent s) (hstays : StaysCancelled s (s.step o e)) :
    HeedsCancel s e := by
  cases e with
  | submit id payload => trivial
  | cancel n => trivial
  | settle n r now =>
    intro hup b hb hflag hwell hexit
    -- at either exit the build is still open
    have hopen : b.stage.Open := by
      rcases hexit with hstage | ⟨hstage, -⟩ <;>
      · rw [hstage]
        exact ⟨nofun, nofun, nofun⟩
    obtain ⟨hn, -⟩ := List.getElem?_eq_some_iff.mp hb
    have hsucceeds : ∃ b', (s.step o (.settle n r now)).builds[n]? = some b' ∧
        b'.status = .succeeded := by
      -- and leaves it succeeded, whatever the flag says
      have hresumed : (b.resume o now r).status = .succeeded ∧
          (b.resume o now r).stage = .clearing := by
        cases r with
        | threw error => exact hwell.elim
        | done code out lines =>
          unfold Build.resume
          rcases hexit with hstage | ⟨hstage, himage⟩
          · rw [hstage]
            exact ⟨rfl, rfl⟩
          · rw [hstage]
            dsimp only
            unfold Build.enter
            cases hsource : b.payload.source with
            | image uri => exact ⟨rfl, rfl⟩
            -- an image source does not leave by this exit otherwise
            | git repository gitRef | other kind =>
              rw [hsource] at himage
              exact absurd himage Bool.false_ne_true
      have hactive : b.stage.Active := by
        rcases hexit with hstage | ⟨hstage, -⟩ <;>
        · rw [hstage]
          trivial
      refine ⟨b.resume o now r, ?_, hresumed.1⟩
      unfold Server.step
      rw [if_neg (by rw [hup]; exact Bool.false_ne_true)]
      dsimp only
      rw [Option.mem_def.mp hb]
      dsimp only
      rw [settle_of_active hactive, hresumed.2]
      exact List.getElem?_set_self hn
    obtain ⟨b', hb', hstatus⟩ := hsucceeds
    exact (hstays n b hb hflag (h.unsettled n b hb hopen) b' hb').1 hstatus

end Step

/-! ## Runs -/

section Runs

variable {o : Options} {s : Server} {es : List Event}

theorem length_acquireSlot {n : Nat} :
    (s.acquireSlot o n).builds.length = s.builds.length := by
  unfold Server.acquireSlot Server.grant
  split <;> exact List.length_modify _ _ _

theorem length_releaseSlot {n : Nat} : (s.releaseSlot n).builds.length = s.builds.length := by
  unfold Server.releaseSlot Server.grant
  dsimp only
  cases s.waiting <;> simp

/-- No build is forgotten. -/
theorem length_step {e : Event} : s.builds.length ≤ (s.step o e).builds.length := by
  unfold Server.step
  split
  · exact Nat.le_refl _
  · cases e with
    | submit id payload => simp
    | cancel n => simp
    | settle n r now =>
      dsimp only
      split
      · exact Nat.le_refl _
      · unfold Server.settle
        split
        · exact Nat.le_refl _
        · exact Nat.le_refl _
        · exact Nat.le_refl _
        · exact Nat.le_of_eq (by rw [length_acquireSlot, List.length_set])
        all_goals
          dsimp only
          split
          · exact Nat.le_of_eq (by rw [length_releaseSlot, List.length_set])
          · exact Nat.le_of_eq (by rw [List.length_set])
          · exact Nat.le_of_eq (by rw [List.length_set])

/-- What `pairs_of_inv` carries: the build is still there, with the flag set. -/
def Heeded (x y : Server) : Prop :=
  ∀ n : Nat, ∀ b ∈ x.builds[n]?, b.cancelled = true → ¬ b.status.Ended →
    n < y.builds.length ∧ ∀ b' ∈ y.builds[n]?,
      b'.cancelled = true ∧ b'.status ≠ .succeeded ∧ b'.artifact = none

/-- **A build that was cancelled in time never succeeds**, in a run of any requests and
any ends of any awaits, exactly if no cancelled build is led to an exit. -/
theorem stays_cancelled_iff (o : Options) (es : List Event) :
    Pairs (Server.step o) StaysCancelled {} es ↔ EachStep (Server.step o) HeedsCancel {} es := by
  constructor
  · intro h
    refine (eachStep_iff coherent_start ?_ fun s e hs => ?_).mp (eachStep_of_pairs h)
    · exact fun s e hs _ => coherent_step hs
    · refine ⟨heeds_of_stays hs, fun hc n b hb hflag hended b' hb' => ?_⟩
      have hopen : b.status ≠ .succeeded := fun h => hended (.inl h)
      exact (heeded_step hs hc hb hflag ⟨hopen, hs.unpublished n b hb hopen⟩ hb').2
  · intro h
    have hpairs : Pairs (Server.step o) Heeded {} es := by
      refine pairs_of_inv coherent_start (fun s e hs _ => coherent_step hs) ?_ ?_ h
      · intro s hs n b hb hflag hended
        refine ⟨(List.getElem?_eq_some_iff.mp hb).1, fun b' hb' => ?_⟩
        obtain rfl := Option.some.inj (hb.symm.trans hb')
        have hopen : b.status ≠ .succeeded := fun hs => hended (.inl hs)
        exact ⟨hflag, hopen, hs.unpublished n b hb hopen⟩
      · intro x y e hy hc hxy n b hb hflag hended
        obtain ⟨hlt, hheeded⟩ := hxy n b hb hflag hended
        refine ⟨Nat.lt_of_lt_of_le hlt length_step, fun b' hb' => ?_⟩
        obtain ⟨hflag', hopen'⟩ := hheeded _ (List.getElem?_eq_getElem hlt)
        exact heeded_step hy hc (List.getElem?_eq_getElem hlt) hflag' hopen' hb'
    intro pre mid post hsplit n b hb hflag hended b' hb'
    exact ((hpairs pre mid post hsplit n b hb hflag hended).2 b' hb').2

/-- An image source is cancelled while its workspace is made. -/
def duringMaking : List Event := [.submit "a" ⟨.image "nginx:1.27", none, none, []⟩, ends 0, ends 0]

/-- A repository is cancelled while its plan is made: it was cloned, checked out and built. -/
def duringPlan : List Event := .submit "a" fromGit :: List.replicate 6 (ends 0)

theorem cancelled_at_exit_succeeds :
    ¬ Pairs (Server.step oneSlot) StaysCancelled {} (duringMaking ++ [.cancel 0, ends 0]) ∧
      ¬ Pairs (Server.step oneSlot) StaysCancelled {} (duringPlan ++ [.cancel 0, ends 0]) := by
  constructor
  · intro h
    exact (h (duringMaking ++ [.cancel 0]) [ends 0] [] rfl 0 _ rfl rfl (by decide +kernel) _ rfl).1
      rfl
  · intro h
    exact (h (duringPlan ++ [.cancel 0]) [ends 0] [] rfl 0 _ rfl rfl (by decide +kernel) _ rfl).1
      rfl

end Runs

end CloudWai.Builder
