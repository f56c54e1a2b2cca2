import CloudWai.Runtime.Attempts

/-!
# Whose outcome an attempt's record holds

A run is not distracted (`Undistracted`) if what it reads off the application's object
is still its own: it is the latest attempt when it logs, the build plane does not know
the key it asks under, nothing is left of another run's reason when it succeeds, and
whoever sets the status does so while no run is between its verdict and its record.
A run whose steps are all of that kind keeps every attempt's record its own, and stops
what was cancelled (`records_kept`).

The flag of a cancelled attempt is looked at before the build and while it is waited
for, and not again. So a cancel must come early, and a build that succeeds all the
same must not have been cancelled meanwhile.

About `deploy` of `infra/deployment/runtime-server.mjs`, as `Attempts.lean` has it.
-/

namespace CloudWai.Runtime.Attempts

open Base

/-! ## The property -/

/-- The last lines of a log. -/
def keep (lines : List String) : List String := lines.drop (lines.length - logLimit)

/-- The attempt is among those that are kept. -/
def App.Has (a : App) (n : Nat) : Prop := n ∈ a.attempts.map (·.1)

/-- What attempt `n` has is its own run's. -/
structure Own (a : App) (jobs : List Job) (n : Nat) (r : Run) : Prop where
  verdict : ∀ record, (n, record) ∈ a.attempts →
    some record.verdict = if r.stage.Live then some ⟨.running, none⟩ else r.verdict
  lines : a.Has n → a.attemptLogs n = keep r.lines
  job : ∀ j ∈ r.job, ∃ job, jobs[j]? = some job ∧ job.maker = n
  stopped : r.cancelled = true →
    r.started = false ∧ r.verdict.map (·.status) ≠ some .succeeded

/-- `Own` of every run. -/
def Kept (s : System) : Prop := ∀ n r, s.runs[n]? = some r → Own s.app s.jobs n r

/-! ## The condition -/

/-- The attempts that are dropped when the next one is recorded. -/
def App.stale (a : App) : List Nat := (a.attempts.take (a.attempts.length - 50)).map (·.1)

/-- It has set the status, and it is not recorded. -/
def Stage.Window : Stage → Prop
  | .publishing _ | .returned => True
  | _ => False

/-- It will look at this attempt's flag. -/
def Stage.Watches (n : Nat) : Stage → Prop
  | .saving => True
  | .posting _ watched | .sleeping _ watched | .tailing _ watched | .polling _ watched =>
    watched = some n
  | _ => False

instance (g : Stage) : Decidable g.Window := by
  unfold Stage.Window
  split <;> infer_instance

instance (n : Nat) (g : Stage) : Decidable (g.Watches n) := by
  unfold Stage.Watches
  split <;> infer_instance

/-- Nobody but `n`, if it, is between its verdict and its record. -/
def System.NoWindow (s : System) (n : Option Nat) : Prop :=
  ∀ m r, s.runs[m]? = some r → r.stage.Window → n = some m

instance (s : System) (n : Option Nat) : Decidable (s.NoWindow n) :=
  decidable_of_iff (∀ m : Fin s.runs.length, s.runs[m].stage.Window → n = some m.val)
    ⟨fun h m r hr hw => by
      obtain ⟨hm, rfl⟩ := List.getElem?_eq_some_iff.mp hr
      exact h ⟨m, hm⟩ hw,
    fun h m hw => h m _ (List.getElem?_eq_some_iff.mpr ⟨m.isLt, rfl⟩) hw⟩

/-- The run logs something. -/
def logs : Stage → Answer → Bool
  | .posting .., .posted none _ | .publishing _, .published .. => true
  | .tailing .., .tail lines => lines != []
  | .polling .., .job (.succeeded (some _) lines) _ | .polling .., .job (.failed lines) _ =>
    lines != []
  | _, _ => false

/-- The way on is barred before the build. -/
def Setup.startable (o : Setup) : Bool :=
  match o.source with
  | .error _ => false
  | .ok (.image _) => true
  | .ok .git => o.builderConfigured

/-- The wait for the build is given up. -/
def App.stops (a : App) (watched : Option Nat) (late : Bool) : Bool :=
  late || watched.any a.cancelled.contains

/-- The run sets the status. -/
def concludes (o : Setup) (a : App) : Stage → Answer → Bool
  | .saving, .done => !o.startable || a.deployAttemptId.any a.cancelled.contains
  | .posting .., .posted (some _) _ => true
  | .posting _ watched, .posted none late => a.stops watched late
  | .polling _ watched, .job .unavailable late | .polling _ watched, .job .pending late =>
    a.stops watched late
  | .polling .., .job (.succeeded (some _) _) _ => false
  | .polling .., .job _ _ => true
  | .starting .., .ran (some _) | .inspecting .., .inspected .. => true
  | .removing .., .threw _ | .starting .., .threw _ | .inspecting .., .threw _ => true
  | .recorded, .threw _ => true
  | _, _ => false

/-- The run is recorded. -/
def records : Stage → Answer → Bool
  | .returned, .done => true
  | .removing .., .threw _ | .starting .., .threw _ | .inspecting .., .threw _ => true
  | _, _ => false

/-- The state is written before the run begins. -/
def Saved : Stage → Answer → Prop
  | .saving, .threw _ => False
  | _, _ => True

/-- The build plane does not know the key. -/
def Fresh (jobs : List Job) : Stage → Answer → Prop
  | .posting key _, .posted none _ => ∀ job ∈ jobs, job.key ≠ key
  | _, _ => True

/-- No other run has left a reason behind. -/
def Clean (a : App) : Stage → Answer → Prop
  | .inspecting .., .inspected true _ _ => a.engineReason = none
  | _, _ => True

/-- The image is still asked for. -/
def Wanted (a : App) (n : Nat) : Stage → Answer → Prop
  | .polling .., .job (.succeeded (some _) _) _ => n ∉ a.cancelled
  | _, _ => True

/-- Run `n` finds what it reads as it left it. -/
structure Undistracted (o : Setup) (s : System) (n : Nat) (r : Run) (answer : Answer) : Prop where
  saved : Saved r.stage answer
  flag : r.stage = .saving → n ∈ s.app.cancelled → s.app.deployAttemptId = some n
  fresh : Fresh s.jobs r.stage answer
  latest : logs r.stage answer = true → s.app.deployAttemptId = some n
  alone : concludes o s.app r.stage answer = true → s.NoWindow (some n)
  clean : Clean s.app r.stage answer
  wanted : Wanted s.app n r.stage answer
  kept : records r.stage answer = true → ∀ m ∈ s.app.stale, ∀ r' ∈ s.runs[m]?,
    r'.stage.Live → m = n

/-- **The condition** on an event. -/
def Orderly (o : Setup) (s : System) : Event → Prop
  | .deploy => s.NoWindow none
  | .cancelApp => ∀ r ∈ s.runs, ¬ r.stage.Live
  | .cancelAttempt n => s.app.Has n →
    s.NoWindow none ∧ ∀ r ∈ s.runs[n]?, r.stage.Live → r.stage.Watches n
  | .rollback => True
  | .resume n answer => ∀ r ∈ s.runs[n]?, Undistracted o s n r answer
  | .resumeRollback k answer => ∀ b ∈ s.rollbacks[k]?,
    ¬ (b.stage = .inspecting ∧ answer.running = true)

section Deciding

variable (o : Setup) (s : System) (a : App) (jobs : List Job) (n : Nat) (g : Stage)
  (answer : Answer)

instance : Decidable (Saved g answer) := by
  unfold Saved
  split <;> infer_instance

instance : Decidable (Fresh jobs g answer) := by
  unfold Fresh
  split <;> infer_instance

instance : Decidable (Clean a g answer) := by
  unfold Clean
  split <;> infer_instance

instance : Decidable (Wanted a n g answer) := by
  unfold Wanted
  split <;> infer_instance

instance : Decidable (a.Has n) := inferInstanceAs (Decidable (n ∈ _))

instance (r : Run) : Decidable (Undistracted o s n r answer) :=
  decidable_of_iff (Saved r.stage answer ∧
      (r.stage = .saving → n ∈ s.app.cancelled → s.app.deployAttemptId = some n) ∧
      Fresh s.jobs r.stage answer ∧
      (logs r.stage answer = true → s.app.deployAttemptId = some n) ∧
      (concludes o s.app r.stage answer = true → s.NoWindow (some n)) ∧
      Clean s.app r.stage answer ∧ Wanted s.app n r.stage answer ∧
      (records r.stage answer = true → ∀ m ∈ s.app.stale, ∀ r' ∈ s.runs[m]?,
        r'.stage.Live → m = n))
    ⟨fun ⟨h₁, h₂, h₃, h₄, h₅, h₆, h₇, h₈⟩ => ⟨h₁, h₂, h₃, h₄, h₅, h₆, h₇, h₈⟩,
      fun ⟨h₁, h₂, h₃, h₄, h₅, h₆, h₇, h₈⟩ => ⟨h₁, h₂, h₃, h₄, h₅, h₆, h₇, h₈⟩⟩

instance (e : Event) : Decidable (Orderly o s e) := by
  unfold Orderly
  split <;> infer_instance

end Deciding

/-! ## The invariant -/

/-- What else holds of run `n`. -/
structure Fits (a : App) (jobs : List Job) (n : Nat) (r : Run) : Prop where
  own : Own a jobs n r
  registered : r.stage.Live → a.Has n
  window : r.stage.Window → r.verdict = some ⟨a.status, a.engineReason⟩
  early : r.stage.Live → ¬ r.stage.Window → r.verdict = none
  unstarted : r.stage.Watches n → r.started = false
  flagged : r.cancelled = true → r.stage.Live →
    (r.stage.Watches n ∧ n ∈ a.cancelled) ∨ r.stage = .returned

/-- What every run of the runtime keeps. -/
structure Inv (s : System) : Prop where
  runs : ∀ n r, s.runs[n]? = some r → Fits s.app s.jobs n r
  known : ∀ n, s.app.Has n → n < s.runs.length
  nodup : (s.app.attempts.map (·.1)).Nodup
  blank : ∀ n, s.runs.length ≤ n → s.app.attemptLogs n = []
  flags : ∀ n ∈ s.app.cancelled, n < s.runs.length

/-! ## Logs -/

section Logs

variable {a : App} {r : Run} {lines : List String}

/-- A line more of a log that is kept is a line more that is kept. -/
theorem push_keep (line : String) : push (keep lines) line = keep (lines ++ [line]) := by
  unfold push keep
  generalize logLimit = limit
  rw [List.length_drop, List.length_append, List.length_singleton]
  by_cases hshort : lines.length < limit
  · have hnone : lines.length - limit = 0 := by omega
    rw [hnone, List.drop_zero, Nat.sub_zero]
  · have hcut : lines.length - (lines.length - limit) + 1 - limit = 1 := by omega
    have hnext : lines.length + 1 - limit = lines.length - limit + 1 := by omega
    have hle : lines.length - limit ≤ lines.length := Nat.sub_le _ _
    rw [hcut, hnext, ← List.drop_drop, List.drop_append_of_le_length (i := lines.length - limit) hle]

theorem foldl_push_keep (more : List String) :
    more.foldl push (keep lines) = keep (lines ++ more) := by
  induction more generalizing lines with
  | nil => rw [List.append_nil, List.foldl_nil]
  | cons line more ih =>
    rw [List.foldl_cons, push_keep, ih, List.append_assoc, List.singleton_append]

/-- What a run has logged, in the buffer of the latest attempt. -/
structure Turn (a : App) (r : Run) (lines : List String) (t : App × Run) : Prop where
  latest : t.1.deployAttemptId = a.deployAttemptId
  attempts : t.1.attempts = a.attempts
  flags : t.1.cancelled = a.cancelled
  cancelled : t.2.cancelled = r.cancelled
  wrote : t.2.lines = r.lines ++ lines
  logs : ∀ m, t.1.attemptLogs m =
    if a.deployAttemptId = some m then lines.foldl push (a.attemptLogs m) else a.attemptLogs m

/-- Nothing is logged. -/
theorem turn_quiet {t : App × Run} (hlatest : t.1.deployAttemptId = a.deployAttemptId)
    (hattempts : t.1.attempts = a.attempts) (hflags : t.1.cancelled = a.cancelled)
    (hcancelled : t.2.cancelled = r.cancelled) (hlines : t.2.lines = r.lines)
    (hlogs : t.1.attemptLogs = a.attemptLogs) : Turn a r [] t :=
  ⟨hlatest, hattempts, hflags, hcancelled, hlines.trans (List.append_nil _).symm,
    fun m => by rw [hlogs]; exact (ite_self _).symm⟩

theorem turn_refl (a : App) (r : Run) : Turn a r [] (a, r) := turn_quiet rfl rfl rfl rfl rfl rfl

/-- One line more. -/
theorem turn_log {t : App × Run} (h : Turn a r lines t) (line : String) :
    Turn a r (lines ++ [line]) (log line t) := by
  obtain ⟨a', r'⟩ := t
  obtain ⟨hlatest, hattempts, hflags, hcancelled, hlines, hlogs⟩ := h
  dsimp only at hlatest hattempts hflags hcancelled hlines hlogs
  refine ⟨hlatest, hattempts, hflags, hcancelled, ?_, fun m => ?_⟩
  · show r'.lines ++ [line] = _
    rw [hlines, List.append_assoc]
  · unfold log App.log
    dsimp only
    rw [hlatest, List.foldl_append, List.foldl_cons, List.foldl_nil]
    cases hid : a.deployAttemptId with
    | none => simpa [hid] using hlogs m
    | some id =>
      by_cases hm : id = m
      · subst hm
        simpa [hid] using congrArg (push · line) (hlogs id)
      · have hlog := hlogs m
        rw [hid, if_neg fun h => hm (Option.some.inj h)] at hlog
        rw [if_neg fun h => hm (Option.some.inj h)]
        dsimp only
        rw [Function.update_of_ne (Ne.symm hm), hlog]

theorem turn_logAll {t : App × Run} (h : Turn a r lines t) (more : List String) :
    Turn a r (lines ++ more) (logAll more t) := by
  unfold logAll
  induction more generalizing lines t with
  | nil => rwa [List.append_nil]
  | cons line more ih =>
    have := ih (turn_log h line)
    rwa [List.append_assoc] at this

theorem turn_fail {t : App × Run} (h : Turn a r lines t) (reason : String) :
    Turn a r lines (fail reason t) :=
  ⟨h.latest, h.attempts, h.flags, h.cancelled, h.wrote, h.logs⟩

/-- Logging changes nothing else. -/
theorem logAll_rest (more : List String) (t : App × Run) :
    (logAll more t).1.status = t.1.status ∧ (logAll more t).1.engineReason = t.1.engineReason ∧
      (logAll more t).2.stage = t.2.stage ∧ (logAll more t).2.verdict = t.2.verdict ∧
      (logAll more t).2.job = t.2.job ∧ (logAll more t).2.started = t.2.started := by
  unfold logAll
  induction more generalizing t with
  | nil => exact ⟨rfl, rfl, rfl, rfl, rfl, rfl⟩
  | cons line more ih => exact ih (log line t)

end Logs

/-! ## Records -/

section Records

variable {a : App} {r : Run} {n m : Nat}

theorem putRecord_keys {attempts : List (Nat × Record)} {rec : Record} :
    (putRecord n rec attempts).map (·.1) =
      if n ∈ attempts.map (·.1) then attempts.map (·.1) else attempts.map (·.1) ++ [n] := by
  have hany : (attempts.any (·.1 == n)) = true ↔ n ∈ attempts.map (·.1) := by
    simp [List.any_eq_true, List.mem_map]
  unfold putRecord
  by_cases hmem : n ∈ attempts.map (·.1)
  · rw [if_pos hmem, if_pos (hany.mpr hmem), List.map_map]
    refine List.map_congr_left fun p _ => ?_
    by_cases hp : p.1 = n
    · simp [hp]
    · simp [hp]
  · rw [if_neg hmem, if_neg fun h => hmem (hany.mp h), List.map_append]
    rfl

/-- Only the attempt's own record is another one. -/
theorem mem_putRecord {attempts : List (Nat × Record)} {rec rec' : Record}
    (h : (m, rec') ∈ putRecord n rec attempts) : if m = n then rec' = rec else (m, rec') ∈ attempts := by
  unfold putRecord at h
  split at h
  · obtain ⟨⟨k, old⟩, hmem, heq⟩ := List.mem_map.mp h
    by_cases hk : k = n
    · simp only [hk, beq_self_eq_true, if_true] at heq
      obtain ⟨rfl, rfl⟩ := Prod.mk.inj heq
      rw [if_pos rfl]
    · simp only [beq_eq_false_iff_ne.mpr hk, Bool.false_eq_true, if_false] at heq
      obtain ⟨rfl, rfl⟩ := Prod.mk.inj heq
      rw [if_neg hk]
      exact hmem
  · rcases List.mem_append.mp h with hmem | hmem
    · split
      next hm =>
        subst hm
        next hnot =>
          refine absurd (List.any_eq_true.mpr ⟨_, hmem, ?_⟩) hnot
          exact beq_self_eq_true _
      next => exact hmem
    · obtain ⟨rfl, rfl⟩ := Prod.mk.inj (List.mem_singleton.mp hmem)
      rw [if_pos rfl]

/-- An attempt is recorded: its record is what the application's status is, and the
stale ones are gone. -/
structure Recorded (n : Nat) (a a' : App) : Prop where
  kept : ∀ m rec, (m, rec) ∈ a'.attempts → m ≠ n → (m, rec) ∈ a.attempts
  mine : ∀ rec, (n, rec) ∈ a'.attempts → rec.verdict = ⟨a.status, a.engineReason⟩
  has : ∀ m, a'.Has m ↔ a.Has m ∧ m ∉ a.stale
  nodup : (a'.attempts.map (·.1)).Nodup
  logs : ∀ m, m ∉ a.stale → a'.attemptLogs m = a.attemptLogs m
  blank : ∀ m, a.attemptLogs m = [] → a'.attemptLogs m = []
  flags : ∀ m, m ∈ a'.cancelled ↔ m ∈ a.cancelled ∧ m ∉ a.stale
  status : a'.status = a.status ∧ a'.engineReason = a.engineReason
  latest : a'.deployAttemptId = a.deployAttemptId

/-- What `record` does to an attempt that is known. -/
theorem recorded_record (hhas : a.Has n) (hnodup : (a.attempts.map (·.1)).Nodup) :
    Recorded n a (record n (a, r)).1 := by
  -- the attempt has a record, so its place is kept and no key is new
  have hkeys := (@putRecord_keys n a.attempts ⟨⟨a.status, a.engineReason⟩, a.url⟩)
  have hmem : n ∈ a.attempts.map (·.1) := hhas
  rw [if_pos hmem] at hkeys
  have hlen := congrArg List.length hkeys
  rw [List.length_map, List.length_map] at hlen
  -- the keys that fall off at the front, and those that stay
  have hstale : ((putRecord n ⟨⟨a.status, a.engineReason⟩, a.url⟩ a.attempts).take
      ((putRecord n ⟨⟨a.status, a.engineReason⟩, a.url⟩ a.attempts).length - 50)).map (·.1) =
        a.stale := by
    unfold App.stale
    rw [List.map_take, hkeys, hlen, List.map_take]
  have hrest : (record n (a, r)).1.attempts.map (·.1) =
      (a.attempts.map (·.1)).drop (a.attempts.length - 50) := by
    show ((putRecord n _ a.attempts).drop _).map (·.1) = _
    rw [List.map_drop, hkeys, hlen]
  have hcut : a.attempts.map (·.1) = a.stale ++ (a.attempts.map (·.1)).drop (a.attempts.length - 50) := by
    unfold App.stale
    rw [List.map_take, List.take_append_drop]
  -- no key is on both sides
  have hapart := hnodup
  rw [hcut, List.nodup_append] at hapart
  obtain ⟨-, hdrop, hdisjoint⟩ := hapart
  refine ⟨fun m rec hmem hne => ?_, fun rec hmem => ?_, fun m => ?_, ?_, fun m hm => ?_,
    fun m hm => ?_, fun m => ?_, ⟨rfl, rfl⟩, rfl⟩
  -- what another attempt has is as it was
  · have := mem_putRecord (List.mem_of_mem_drop hmem)
    rwa [if_neg hne] at this
  -- and this one has what was read off the application
  · have := mem_putRecord (List.mem_of_mem_drop hmem)
    rw [if_pos rfl] at this
    rw [this]
  -- who has a record still: whoever had one and did not fall off
  · unfold App.Has
    rw [hrest]
    constructor
    · intro h
      exact ⟨List.mem_of_mem_drop h, fun hs => hdisjoint m hs m h rfl⟩
    · rintro ⟨h, hs⟩
      rw [hcut] at h
      exact (List.mem_append.mp h).resolve_left hs
  · rw [hrest]
    exact hdrop
  -- flags and logs go with the records
  · show (if _ then _ else _) = _
    rw [hstale, if_neg (by simpa using hm)]
  · show (if _ then _ else _) = _
    split
    · rfl
    · exact hm
  · show m ∈ List.filter _ _ ↔ _
    rw [hstale, List.mem_filter]
    simp

end Records

/-! ## The other runs -/

section Steps

variable {o : Setup} {s : System} {a a' : App} {jobs jobs' : List Job} {n m : Nat} {r r' : Run}

/-- What a step must leave of a run that it is not about. -/
theorem Fits.other (h : Fits a jobs m r)
    (hrecords : ∀ record, (m, record) ∈ a'.attempts → (m, record) ∈ a.attempts)
    (hhas : r.stage.Live → a'.Has m) (hlogs : a'.Has m → a'.attemptLogs m = a.attemptLogs m)
    (hjobs : jobs <+: jobs')
    (hstatus : r.stage.Window → a'.status = a.status ∧ a'.engineReason = a.engineReason)
    (hflags : r.stage.Live → m ∈ a.cancelled → m ∈ a'.cancelled) : Fits a' jobs' m r := by
  have hhas' : a'.Has m → a.Has m := by
    intro hm
    obtain ⟨⟨_, record⟩, hmem, rfl⟩ := List.mem_map.mp hm
    exact List.mem_map.mpr ⟨_, hrecords record hmem, rfl⟩
  refine ⟨⟨fun record hmem => h.own.verdict record (hrecords record hmem), fun hm => ?_,
    fun j hj => ?_, h.own.stopped⟩, hhas, fun hw => ?_, h.early, h.unstarted, fun hc hlive => ?_⟩
  · rw [hlogs hm]
    exact h.own.lines (hhas' hm)
  · obtain ⟨job, hjob, hmaker⟩ := h.own.job j hj
    obtain ⟨more, rfl⟩ := hjobs
    exact ⟨job, by rw [List.getElem?_append_left (List.getElem?_eq_some_iff.mp hjob).1, hjob],
      hmaker⟩
  · obtain ⟨hsame, hreason⟩ := hstatus hw
    rw [hsame, hreason]
    exact h.window hw
  · exact (h.flagged hc hlive).imp_left fun hf => ⟨hf.1, hflags hlive hf.2⟩

/-- A step of run `n` that records nothing. -/
structure Going (o : Setup) (s : System) (n : Nat) (r : Run) (answer : Answer) (t : App × Run) :
    Prop where
  turn : ∃ lines, Turn s.app r lines t ∧ (lines ≠ [] → logs r.stage answer = true)
  status : concludes o s.app r.stage answer = false →
    t.1.status = s.app.status ∧ t.1.engineReason = s.app.engineReason
  self : Fits t.1 (build s.jobs n r answer) n t.2

theorem build_prefixes (answer : Answer) : s.jobs <+: build s.jobs n r answer := by
  unfold build
  split
  · split
    · exact List.prefix_refl _
    · exact List.prefix_append _ _
  · exact List.prefix_refl _

theorem getElem?_set_run {runs : List Run} (hr : runs[n]? = some r) (m : Nat) :
    (runs.set n r')[m]? = if m = n then some r' else runs[m]? := by
  obtain ⟨hn, -⟩ := List.getElem?_eq_some_iff.mp hr
  rw [List.getElem?_set]
  by_cases hm : m = n
  · subst hm
    simp [hn]
  · rw [if_neg (Ne.symm hm), if_neg hm]

/-- **The invariant is kept** by a step of a run that records nothing. -/
theorem Going.inv {answer : Answer} {t : App × Run} (h : Going o s n r answer t) (hs : Inv s)
    (hr : s.runs[n]? = some r) (hc : Undistracted o s n r answer) :
    Inv { s with app := t.1, runs := s.runs.set n t.2, jobs := build s.jobs n r answer } := by
  obtain ⟨lines, hturn, hlogged⟩ := h.turn
  have hn : n < s.runs.length := (List.getElem?_eq_some_iff.mp hr).1
  have hhas : ∀ m, t.1.Has m ↔ s.app.Has m := fun m => by
    unfold App.Has
    rw [hturn.attempts]
  -- what the run logs is logged to its own attempt, which is the latest
  have hlogs : ∀ m, m ≠ n → t.1.attemptLogs m = s.app.attemptLogs m := by
    intro m hm
    rw [hturn.logs m]
    split
    next hid =>
      cases lines with
      | nil => rfl
      | cons line lines =>
        have := hc.latest (hlogged (List.cons_ne_nil _ _))
        exact absurd (Option.some.inj (hid.symm.trans this)) hm
    next => rfl
  refine ⟨fun m r' hm => ?_, fun m hm => ?_, ?_, fun m hm => ?_, fun m hm => ?_⟩
  · rw [getElem?_set_run hr] at hm
    split at hm
    -- the run itself is as `h` says
    next heq =>
      subst heq
      obtain rfl := Option.some.inj hm
      exact h.self
    -- another run keeps its record, its log and its flag
    next hne =>
      refine (hs.runs m r' hm).other (fun record hmem => by rwa [hturn.attempts] at hmem)
        (fun hlive => (hhas m).mpr ((hs.runs m r' hm).registered hlive)) (fun _ => hlogs m hne)
        (build_prefixes answer) (fun hw => ?_) fun _ hf => by rwa [hturn.flags]
      -- it may be between verdict and record: then nobody has set the status
      refine h.status ?_
      by_contra hconcludes
      exact hne (Option.some.inj (hc.alone (by simpa using hconcludes) m r' hm hw)).symm
  · rw [List.length_set]
    exact hs.known m ((hhas m).mp hm)
  · show (t.1.attempts.map (·.1)).Nodup
    rw [hturn.attempts]
    exact hs.nodup
  · rw [List.length_set] at hm
    show t.1.attemptLogs m = []
    rw [hlogs m (by omega)]
    exact hs.blank m hm
  · rw [List.length_set]
    refine hs.flags m ?_
    have hmem : m ∈ t.1.cancelled := hm
    rwa [hturn.flags] at hmem

/-! ## The run itself -/

/-- Its lines are in its own buffer. -/
theorem Turn.own {lines : List String} {t : App × Run} (h : Turn a r lines t)
    (hlines : a.attemptLogs n = keep r.lines) (hlatest : lines ≠ [] → a.deployAttemptId = some n) :
    t.1.attemptLogs n = keep t.2.lines := by
  rw [h.logs n, h.wrote]
  split
  next => rw [hlines, foldl_push_keep]
  next hid =>
    have hnone : lines = [] := by
      by_contra hne
      exact hid (hlatest hne)
    rw [hnone, List.append_nil]
    exact hlines

/-- Before its verdict, a run goes on to the next await. -/
theorem Fits.ahead {lines : List String} {t : App × Run} (h : Fits a jobs n r)
    (hlive : r.stage.Live ∧ ¬ r.stage.Window) (ht : Turn a r lines t)
    (hlatest : lines ≠ [] → a.deployAttemptId = some n)
    (hjob : ∀ j ∈ t.2.job, ∃ job, jobs'[j]? = some job ∧ job.maker = n)
    (hverdict : t.2.verdict = r.verdict) (hstage : t.2.stage.Live ∧ ¬ t.2.stage.Window)
    (hstarted : t.2.stage.Watches n → t.2.started = false)
    (hflag : r.cancelled = true → r.stage.Watches n ∧ n ∈ a.cancelled → t.2.stage.Watches n) :
    Fits t.1 jobs' n t.2 := by
  have hhas : a.Has n := h.registered hlive.1
  -- the record says running until there is a verdict
  have hrunning : ∀ record, (n, record) ∈ a.attempts → record.verdict = ⟨.running, none⟩ := by
    intro record hmem
    have := h.own.verdict record hmem
    rw [if_pos hlive.1] at this
    exact Option.some.inj this
  -- a flagged run goes on watching, and cannot have got behind the last look
  have hwatch : t.2.cancelled = true → t.2.stage.Watches n ∧ n ∈ a.cancelled := by
    intro hc
    rw [ht.cancelled] at hc
    rcases h.flagged hc hlive.1 with hf | hreturned
    · exact ⟨hflag hc hf, hf.2⟩
    · exact absurd (by rw [hreturned]; trivial) hlive.2
  refine ⟨⟨fun record hmem => ?_, fun _ => ?_, hjob, fun hc => ?_⟩, fun _ => ?_,
    fun hw => absurd hw hstage.2, fun _ _ => ?_, hstarted, fun hc _ => .inl ?_⟩
  · rw [ht.attempts] at hmem
    rw [if_pos hstage.1, hrunning record hmem]
  · exact ht.own (h.own.lines hhas) hlatest
  · refine ⟨hstarted (hwatch hc).1, ?_⟩
    rw [hverdict, h.early hlive.1 hlive.2]
    nofun
  · unfold App.Has
    rwa [ht.attempts]
  · rw [hverdict]
    exact h.early hlive.1 hlive.2
  · rw [ht.flags]
    exact hwatch hc

theorem Stage.Window.live {g : Stage} (h : g.Window) (n : Nat) : g.Live ∧ ¬ g.Watches n := by
  cases g with
  | publishing image => exact ⟨⟨nofun, nofun, nofun⟩, fun h => h⟩
  | returned => exact ⟨⟨nofun, nofun, nofun⟩, fun h => h⟩
  | _ => exact h.elim

/-- A run comes to its verdict, which is what the application's status is then. -/
theorem Fits.concluded {lines : List String} {t : App × Run} (h : Fits a jobs n r)
    (hlive : r.stage.Live) (ht : Turn a r lines t)
    (hlatest : lines ≠ [] → a.deployAttemptId = some n)
    (hjob : ∀ j ∈ t.2.job, ∃ job, jobs'[j]? = some job ∧ job.maker = n)
    (hverdict : t.2.verdict = some ⟨t.1.status, t.1.engineReason⟩) (hstage : t.2.stage.Window)
    (hstopped : r.cancelled = true →
      t.2.stage = .returned ∧ t.1.status ≠ .succeeded ∧ t.2.started = r.started) :
    Fits t.1 jobs' n t.2 := by
  have hhas : a.Has n := h.registered hlive
  obtain ⟨hlive', hearly⟩ := hstage.live n
  refine ⟨⟨fun record hmem => ?_, fun _ => ?_, hjob, fun hc => ?_⟩, fun _ => ?_,
    fun _ => hverdict, fun _ hw => absurd hstage hw, fun hw => absurd hw hearly,
    fun hc _ => .inr ?_⟩
  · rw [ht.attempts] at hmem
    rw [if_pos hlive']
    have := h.own.verdict record hmem
    rwa [if_pos hlive] at this
  · exact ht.own (h.own.lines hhas) hlatest
  · rw [ht.cancelled] at hc
    obtain ⟨-, hstatus, hstarted⟩ := hstopped hc
    refine ⟨hstarted.trans (h.own.stopped hc).1, ?_⟩
    rw [hverdict]
    exact fun heq => hstatus (Option.some.inj heq)
  · unfold App.Has
    rwa [ht.attempts]
  · rw [ht.cancelled] at hc
    exact (hstopped hc).1

/-! ## One step of a run -/

section Resume

variable {answer : Answer} {t : App × Run} {lines : List String}

/-- What the cases below have in common: the run's lines, and its job. -/
structure Said (o : Setup) (s : System) (n : Nat) (r : Run) (answer : Answer) (lines : List String)
    (t : App × Run) : Prop where
  turn : Turn s.app r lines t
  logged : lines ≠ [] → logs r.stage answer = true
  job : ∀ j ∈ t.2.job, ∃ job, (build s.jobs n r answer)[j]? = some job ∧ job.maker = n
  verdict : t.2.verdict = r.verdict
  started : t.2.started = r.started
  status : t.1.status = s.app.status ∧ t.1.engineReason = s.app.engineReason

theorem said_refl (hs : Inv s) (hr : s.runs[n]? = some r) (answer : Answer) :
    Said o s n r answer [] (s.app, r) where
  turn := turn_refl _ _
  logged h := absurd rfl h
  job j hj := by
    obtain ⟨job, hjob, hmaker⟩ := (hs.runs n r hr).own.job j hj
    obtain ⟨more, hmore⟩ := build_prefixes (s := s) (n := n) (r := r) answer
    exact ⟨job, by rw [← hmore,
      List.getElem?_append_left (List.getElem?_eq_some_iff.mp hjob).1, hjob], hmaker⟩
  verdict := rfl
  started := rfl
  status := ⟨rfl, rfl⟩

theorem said_logAll (h : Said o s n r answer lines t) (more : List String)
    (hlogged : more ≠ [] → logs r.stage answer = true) :
    Said o s n r answer (lines ++ more) (logAll more t) := by
  obtain ⟨hstatus, hreason, -, hverdict, hjob, hstarted⟩ := logAll_rest more t
  refine ⟨turn_logAll h.turn more, fun hne => ?_, ?_, hverdict.trans h.verdict,
    hstarted.trans h.started, hstatus.trans h.status.1, hreason.trans h.status.2⟩
  · cases lines with
    | nil => exact hlogged hne
    | cons line lines => exact h.logged (List.cons_ne_nil _ _)
  · rw [hjob]
    exact h.job

theorem going_fail (hs : Inv s) (hr : s.runs[n]? = some r) (hc : Undistracted o s n r answer)
    (hlive : r.stage.Live) (h : Said o s n r answer lines t) (reason : String)
    (hconcludes : concludes o s.app r.stage answer = true) :
    Going o s n r answer (fail reason t) where
  turn := ⟨lines, turn_fail h.turn reason, h.logged⟩
  status hnot := absurd hconcludes (by rw [hnot]; exact Bool.false_ne_true)
  self := (hs.runs n r hr).concluded hlive (turn_fail h.turn reason)
    (fun hne => hc.latest (h.logged hne)) h.job rfl trivial
    fun _ => ⟨rfl, nofun, h.started⟩

/-- On to the next await, before the verdict. -/
theorem going_ahead (hs : Inv s) (hr : s.runs[n]? = some r) (hc : Undistracted o s n r answer)
    (hlive : r.stage.Live ∧ ¬ r.stage.Window) (h : Said o s n r answer lines t) (stage : Stage)
    (hstage : stage.Live ∧ ¬ stage.Window) (hwatches : stage.Watches n → r.stage.Watches n)
    (hflag : r.cancelled = true → r.stage.Watches n ∧ n ∈ s.app.cancelled → stage.Watches n) :
    Going o s n r answer (t.1, { t.2 with stage := stage }) := by
  have hturn : Turn s.app r lines (t.1, { t.2 with stage := stage }) :=
    ⟨h.turn.latest, h.turn.attempts, h.turn.flags, h.turn.cancelled, h.turn.wrote, h.turn.logs⟩
  refine ⟨⟨lines, hturn, h.logged⟩, fun _ => h.status, ?_⟩
  exact (hs.runs n r hr).ahead hlive hturn (fun hne => hc.latest (h.logged hne)) h.job h.verdict
    hstage (fun hw => h.started.trans ((hs.runs n r hr).unstarted (hwatches hw))) hflag

/-- Before a pause the flag is looked at: the run waits, or ends as cancelled. -/
theorem going_await (hs : Inv s) (hr : s.runs[n]? = some r) (hc : Undistracted o s n r answer)
    (hlive : r.stage.Live ∧ ¬ r.stage.Window) (h : Said o s n r answer lines t) (job : Nat)
    (watched : Option Nat) (late : Bool) (hwatched : r.stage.Watches n ↔ watched = some n)
    (hconcludes : concludes o s.app r.stage answer = s.app.stops watched late) :
    Going o s n r answer (await job watched late t) := by
  unfold await
  split
  next hlate =>
    refine going_fail hs hr hc hlive.1 h _ ?_
    rw [hconcludes]
    unfold App.stops
    rw [hlate]
    rfl
  next =>
  split
  next hstop =>
    refine going_fail hs hr hc hlive.1 h _ ?_
    rw [h.turn.flags] at hstop
    rw [hconcludes]
    unfold App.stops
    rw [hstop, Bool.or_true]
  next =>
    exact going_ahead hs hr hc hlive h (.sleeping job watched)
      ⟨⟨nofun, nofun, nofun⟩, fun h => h⟩ hwatched.mpr fun _ hf => hwatched.mp hf.1

theorem going_replace (hs : Inv s) (hr : s.runs[n]? = some r) (hc : Undistracted o s n r answer)
    (hlive : r.stage.Live ∧ ¬ r.stage.Window) (h : Said o s n r answer lines t) (image : String)
    (hflag : r.stage.Watches n → n ∉ s.app.cancelled) :
    Going o s n r answer (replace image t) :=
  going_ahead hs hr hc hlive h (.removing image t.1.currentImage)
    ⟨⟨nofun, nofun, nofun⟩, fun h => h⟩ (fun h => h.elim) fun _ hf => absurd hf.2 (hflag hf.1)

theorem going_same (hs : Inv s) (hr : s.runs[n]? = some r) : Going o s n r answer (s.app, r) :=
  ⟨⟨[], turn_refl _ _, fun h => absurd rfl h⟩, fun _ => ⟨rfl, rfl⟩,
    (hs.runs n r hr).other (fun _ h => h) (hs.runs n r hr).registered (fun _ => rfl)
      (build_prefixes answer) (fun _ => ⟨rfl, rfl⟩) fun _ h => h⟩

/-- A run that was not cancelled for good is not cancelled at these awaits. -/
theorem Fits.uncancelled (h : Fits a jobs n r) (hlive : r.stage.Live)
    (hwatches : ¬ r.stage.Watches n) (hreturned : r.stage ≠ .returned) : r.cancelled ≠ true :=
  fun hc => (h.flagged hc hlive).elim (fun hf => hwatches hf.1) hreturned

/-- The run has begun, and looks at the source. -/
theorem going_begin (hs : Inv s) (hr : s.runs[n]? = some r) (hc : Undistracted o s n r .done)
    (hstage : r.stage = .saving) : Going o s n r .done (begin o (s.app, r)) := by
  have hlive : r.stage.Live ∧ ¬ r.stage.Window := by
    rw [hstage]
    exact ⟨⟨nofun, nofun, nofun⟩, fun h => h⟩
  have hwatches : r.stage.Watches n := by
    rw [hstage]
    trivial
  have hsaid := said_refl (o := o) hs hr .done
  have hbar : o.startable = false → concludes o s.app r.stage .done = true := by
    intro h
    rw [hstage]
    show (!o.startable || _) = true
    rw [h]
    rfl
  unfold begin
  cases hsource : o.source with
  | error reason =>
    refine going_fail hs hr hc hlive.1 hsaid reason (hbar ?_)
    unfold Setup.startable
    rw [hsource]
  | ok source =>
    dsimp only
    split
    next hflagged =>
      refine going_fail hs hr hc hlive.1 hsaid _ ?_
      rw [hstage]
      show (_ || s.app.deployAttemptId.any s.app.cancelled.contains) = true
      rw [hflagged, Bool.or_true]
    next hflagged =>
      -- its own flag would have been seen
      have hfree : n ∉ s.app.cancelled := by
        intro hmem
        refine hflagged ?_
        rw [hc.flag hstage hmem]
        simpa using hmem
      cases source with
      | image uri => exact going_replace hs hr hc hlive hsaid uri fun _ => hfree
      | git =>
        dsimp only
        split
        next =>
          exact going_ahead hs hr hc hlive hsaid _ ⟨⟨nofun, nofun, nofun⟩, fun h => h⟩
            (fun _ => hwatches) fun _ hf => absurd hf.2 hfree
        next hconfigured =>
          refine going_fail hs hr hc hlive.1 hsaid _ (hbar ?_)
          unfold Setup.startable
          rw [hsource]
          simpa using hconfigured

/-- The job that the builder took is the run's own. -/
theorem going_posted (hs : Inv s) (hr : s.runs[n]? = some r) {key : Nat} {watched : Option Nat}
    {late : Bool} (hc : Undistracted o s n r (.posted none late))
    (hstage : r.stage = .posting key watched) :
    Going o s n r (.posted none late)
      (Attempts.resume o (build s.jobs n r (.posted none late)) n (s.app, r) (.posted none late)) := by
  have hlive : r.stage.Live ∧ ¬ r.stage.Window := by
    rw [hstage]
    exact ⟨⟨nofun, nofun, nofun⟩, fun h => h⟩
  have hlogs : logs r.stage (.posted none late) = true := by
    rw [hstage]
    rfl
  have hfresh : ∀ job ∈ s.jobs, job.key ≠ key := by
    have := hc.fresh
    rwa [hstage] at this
  have hbuild : build s.jobs n r (.posted none late) = s.jobs ++ [⟨key, n⟩] := by
    unfold build
    rw [hstage]
    refine if_neg ?_
    rw [List.any_eq_true]
    rintro ⟨job, hmem, hkey⟩
    exact hfresh job hmem (by simpa using hkey)
  -- the job is the one that was made for this run
  have hjob : (s.jobs ++ [(⟨key, n⟩ : Job)]).findIdx (·.key == key) = s.jobs.length := by
    rw [List.findIdx_append, List.findIdx_eq_length_of_false]
    · simp
    · intro job hmem
      simpa using hfresh job hmem
  have hsaid : Said o s n r (.posted none late) []
      (s.app, { r with job := some s.jobs.length }) := by
    refine ⟨⟨rfl, rfl, rfl, rfl, (List.append_nil _).symm, fun _ => (ite_self _).symm⟩,
      fun h => absurd rfl h, fun j hj => ?_, rfl, rfl, rfl, rfl⟩
    obtain rfl := Option.some.inj hj
    exact ⟨⟨key, n⟩, by rw [hbuild]; simp, rfl⟩
  have hlogged := said_logAll hsaid [s!"build job {s.jobs.length} accepted"] fun _ => hlogs
  have hawait := going_await hs hr hc hlive hlogged s.jobs.length watched late
    (by rw [hstage]; exact Iff.rfl) (by rw [hstage]; rfl)
  have hresume : Attempts.resume o (build s.jobs n r (.posted none late)) n (s.app, r)
      (.posted none late) = await s.jobs.length watched late
        (logAll [s!"build job {s.jobs.length} accepted"]
          (s.app, { r with job := some s.jobs.length })) := by
    unfold Attempts.resume
    dsimp only
    rw [hstage, hbuild]
    dsimp only
    rw [hjob]
    rfl
  rwa [hresume]

/-- What the builder says of the job: to be waited for, to fail on, or an image. -/
theorem going_polled (hs : Inv s) (hr : s.runs[n]? = some r) {job : Nat} {watched : Option Nat}
    {report : Report} {late : Bool} (hc : Undistracted o s n r (.job report late))
    (hstage : r.stage = .polling job watched) :
    Going o s n r (.job report late) (polled job watched late (s.app, r) report) := by
  have hlive : r.stage.Live ∧ ¬ r.stage.Window := by
    rw [hstage]
    exact ⟨⟨nofun, nofun, nofun⟩, fun h => h⟩
  -- the flag it looks at is the one that the job was asked under
  have hwatched : r.stage.Watches n ↔ watched = some n := by
    rw [hstage]
    exact Iff.rfl
  have hsaid := said_refl (o := o) hs hr (.job report late)
  cases report with
  | unavailable =>
    exact going_await hs hr hc hlive hsaid job watched late hwatched (by rw [hstage]; rfl)
  | pending =>
    -- in flight, or not to be asked: the next pause
    exact going_await hs hr hc hlive hsaid job watched late hwatched (by rw [hstage]; rfl)
  | unknown => exact going_fail hs hr hc hlive.1 hsaid _ (by rw [hstage]; rfl)
  | failed lines =>
    refine going_fail hs hr hc hlive.1 (said_logAll hsaid lines fun hne => ?_) _ (by rw [hstage]; rfl)
    rw [hstage]
    exact bne_iff_ne.mpr hne
  -- a build without an image is a failure
  | succeeded image lines =>
    cases image with
    | none => exact going_fail hs hr hc hlive.1 hsaid _ (by rw [hstage]; rfl)
    | some image =>
      refine going_replace hs hr hc hlive (said_logAll hsaid lines fun hne => ?_) image
        fun _ => ?_
      swap
      -- the flag is not looked at again, so the run has to be wanted still
      · have hwanted := hc.wanted
        rwa [hstage] at hwanted
      rw [hstage]
      exact bne_iff_ne.mpr hne

/-- Behind its verdict the run logs where it can be reached, and returns. -/
theorem going_announce (hs : Inv s) (hr : s.runs[n]? = some r) {image : String}
    {hostname reason : Option String} (hc : Undistracted o s n r (.published hostname reason))
    (hstage : r.stage = .publishing image) :
    Going o s n r (.published hostname reason) (announce image hostname reason (s.app, r)) := by
  have hfits := hs.runs n r hr
  have hlive : r.stage.Live := by
    rw [hstage]
    exact ⟨nofun, nofun, nofun⟩
  have hfree := hfits.uncancelled hlive (by rw [hstage]; exact fun h => h) (by rw [hstage]; nofun)
  have hlogs : logs r.stage (.published hostname reason) = true := by
    rw [hstage]
    rfl
  let url := s.app.url.getD "null"
  have hsaid := said_logAll (said_refl (o := o) hs hr (.published hostname reason))
    (s!"deployed {image} on {url}" ::
      ((hostname.map fun host => s!"default hostname {host}").toList ++
        (reason.map fun reason => s!"[runtime] route not published: {reason}").toList))
    fun _ => hlogs
  have hturn : Turn s.app r _ (announce image hostname reason (s.app, r)) :=
    ⟨hsaid.turn.latest, hsaid.turn.attempts, hsaid.turn.flags, hsaid.turn.cancelled,
      hsaid.turn.wrote, hsaid.turn.logs⟩
  have hwindow := hfits.window (by rw [hstage]; trivial)
  refine ⟨⟨_, hturn, fun _ => hlogs⟩, fun _ => hsaid.status,
    hfits.concluded hlive hturn (fun _ => hc.latest hlogs) hsaid.job ?_ trivial
      fun h => absurd h hfree⟩
  refine (hsaid.verdict.trans hwindow).trans ?_
  rw [← hsaid.status.1, ← hsaid.status.2]
  rfl

/-- The last await of a run that is recorded. -/
theorem going_over (hs : Inv s) (hr : s.runs[n]? = some r) (hstage : r.stage = .recorded)
    (hturn : Turn s.app r [] (a, { r with stage := .over }))
    (hstatus : concludes o s.app r.stage answer = false →
      a.status = s.app.status ∧ a.engineReason = s.app.engineReason) :
    Going o s n r answer (a, { r with stage := .over }) := by
  have hfits := hs.runs n r hr
  have hover : ¬ (Stage.over).Live := fun h => h.2.1 rfl
  have hended : ¬ r.stage.Live := by
    rw [hstage]
    exact fun h => h.1 rfl
  refine ⟨⟨[], hturn, fun h => absurd rfl h⟩, hstatus, ⟨⟨fun rec hmem => ?_, fun hm => ?_,
    (said_refl (o := o) hs hr answer).job, hfits.own.stopped⟩, fun h => absurd h hover,
    fun h => h.elim, fun h => absurd h hover, fun h => h.elim, fun _ h => absurd h hover⟩⟩
  · have hmem' : (n, rec) ∈ s.app.attempts := by rwa [hturn.attempts] at hmem
    have := hfits.own.verdict rec hmem'
    rw [if_neg hended] at this
    rw [if_neg hover]
    exact this
  · refine hturn.own (hfits.own.lines ?_) fun h => absurd rfl h
    have hm' : n ∈ a.attempts.map (·.1) := hm
    rwa [hturn.attempts] at hm'

/-- The run's verdict is recorded; `a` is the application as it is then. -/
theorem inv_record (hs : Inv s) (hr : s.runs[n]? = some r) (hc : Undistracted o s n r answer)
    (hlive : r.stage.Live) (hrecords : records r.stage answer = true)
    (hattempts : a.attempts = s.app.attempts) (hlogs : a.attemptLogs = s.app.attemptLogs)
    (hflags : a.cancelled = s.app.cancelled)
    (hstatus : (a.status = s.app.status ∧ a.engineReason = s.app.engineReason) ∨
      concludes o s.app r.stage answer = true)
    (hverdict : r'.verdict = some ⟨a.status, a.engineReason⟩)
    (hsame : r'.lines = r.lines ∧ r'.job = r.job)
    (hstopped : r'.cancelled = true →
      r'.started = false ∧ r'.verdict.map (·.status) ≠ some .succeeded) :
    Inv { s with
      app := (record n (a, r')).1
      runs := s.runs.set n (record n (a, r')).2
      jobs := build s.jobs n r answer } := by
  have hfits := hs.runs n r hr
  have hhas : a.Has n := by
    unfold App.Has
    rw [hattempts]
    exact hfits.registered hlive
  -- the list of attempts is what it was, so the same ones fall off
  have hrec := recorded_record (r := r') hhas (by rw [hattempts]; exact hs.nodup)
  have hstale : a.stale = s.app.stale := by
    unfold App.stale
    rw [hattempts]
  have hold : ∀ m, a.Has m ↔ s.app.Has m := fun m => by
    unfold App.Has
    rw [hattempts]
  have hn : n < s.runs.length := (List.getElem?_eq_some_iff.mp hr).1
  refine ⟨fun m q hm => ?_, fun m hm => ?_, hrec.nodup, fun m hm => ?_, fun m hm => ?_⟩
  · rw [getElem?_set_run hr] at hm
    split at hm
    -- the run has ended, and its record says what its verdict says
    next heq =>
      subst heq
      obtain rfl := Option.some.inj hm
      have hended : ¬ (record m (a, r')).2.stage.Live := fun h => h.1 rfl
      refine ⟨⟨fun rec hmem => ?_, fun hm => ?_, fun j hj => ?_, hstopped⟩,
        fun h => absurd h hended, fun h => h.elim, fun h => absurd h hended, fun h => h.elim,
        fun _ h => absurd h hended⟩
      · rw [if_neg hended, hrec.mine rec hmem]
        exact hverdict.symm
      · have hkept := (hrec.has m).mp hm
        rw [hrec.logs m hkept.2, hlogs, hfits.own.lines ((hold m).mp hkept.1), ← hsame.1]
        rfl
      · have hj' : j ∈ r.job := by rwa [← hsame.2]
        obtain ⟨job, hjob, hmaker⟩ := hfits.own.job j hj'
        obtain ⟨more, hmore⟩ := build_prefixes (s := s) (n := m) (r := r) answer
        exact ⟨job, by rw [← hmore,
          List.getElem?_append_left (List.getElem?_eq_some_iff.mp hjob).1, hjob], hmaker⟩
    -- another run does not fall off while it is live
    next hne =>
      have hq := hs.runs m q hm
      have hfresh : q.stage.Live → m ∉ a.stale := fun hlive' hmem =>
        hne (hc.kept hrecords m (hstale ▸ hmem) q hm hlive')
      refine hq.other (fun rec hmem => ?_) (fun hlive' => ?_) (fun hm' => ?_)
        (build_prefixes answer) (fun hw => ?_) fun hlive' hf => ?_
      · have := hrec.kept m rec hmem hne
        rwa [hattempts] at this
      · exact (hrec.has m).mpr ⟨(hold m).mpr (hq.registered hlive'), hfresh hlive'⟩
      · rw [hrec.logs m ((hrec.has m).mp hm').2, hlogs]
      -- and none but the one that recorded had a verdict outstanding
      · rw [hrec.status.1, hrec.status.2]
        refine hstatus.resolve_right fun hconcludes => ?_
        exact hne (Option.some.inj (hc.alone hconcludes m q hm hw)).symm
      · exact (hrec.flags m).mpr ⟨hflags ▸ hf, hfresh hlive'⟩
  · rw [List.length_set]
    exact hs.known m ((hold m).mp ((hrec.has m).mp hm).1)
  · rw [List.length_set] at hm
    refine hrec.blank m ?_
    rw [hlogs]
    exact hs.blank m hm
  · rw [List.length_set]
    refine hs.flags m ?_
    have := ((hrec.flags m).mp hm).1
    rwa [hflags] at this

/-- An error is caught in a run that was not cancelled. -/
theorem inv_crash (hs : Inv s) (hr : s.runs[n]? = some r) {error : String}
    (hc : Undistracted o s n r (.threw error)) (hlive : r.stage.Live)
    (hrecords : records r.stage (.threw error) = true)
    (hconcludes : concludes o s.app r.stage (.threw error) = true) (hfree : r.cancelled ≠ true) :
    Inv { s with
      app := (crash n error (s.app, r)).1
      runs := s.runs.set n (crash n error (s.app, r)).2
      jobs := build s.jobs n r (.threw error) } :=
  (@inv_record _ _ { s.app with status := .failed, engineReason := some error } _ _ { r with verdict := some ⟨.failed, some error⟩ }) hs hr hc hlive hrecords rfl rfl rfl
    (.inr hconcludes) rfl ⟨rfl, rfl⟩ fun h => absurd h hfree

/-- An answer that the run does not wait for is passed over. -/
theorem inv_idle (hs : Inv s) (hr : s.runs[n]? = some r) (hc : Undistracted o s n r answer)
    (h : Attempts.resume o (build s.jobs n r answer) n (s.app, r) answer = (s.app, r)) :
    Inv (s.resume o n r answer) :=
  Going.inv (by rw [h]; exact going_same hs hr) hs hr hc

/-! ### Each await of a run -/

-- its equations are made here, once for all the awaits
attribute [local simp] Attempts.resume

/-- The first save has ended: the run begins. No save fails, under the condition. -/
theorem inv_saving (hs : Inv s) (hr : s.runs[n]? = some r)
    (hc : Undistracted o s n r answer) (hstage : r.stage = .saving) :
    Inv (s.resume o n r answer) := by
  cases answer with
  | done =>
    refine Going.inv ?_ hs hr hc
    simp only [Attempts.resume, hstage]
    exact going_begin hs hr hc hstage
  | threw error =>
    have hsaved := hc.saved
    rw [hstage] at hsaved
    exact hsaved.elim
  | _ => exact inv_idle hs hr hc (by simp only [Attempts.resume, hstage])

/-- The builder took the job, or refused it. -/
theorem inv_posting (hs : Inv s) (hr : s.runs[n]? = some r) {key : Nat} {watched : Option Nat}
    (hc : Undistracted o s n r answer) (hstage : r.stage = .posting key watched) :
    Inv (s.resume o n r answer) := by
  have hsaid := said_refl (o := o) hs hr answer
  have hlive : r.stage.Live := by rw [hstage]; exact ⟨nofun, nofun, nofun⟩
  cases answer with
  | posted refusal late =>
    cases refusal with
    | none => exact Going.inv (going_posted hs hr hc hstage) hs hr hc
    | some reason =>
      refine Going.inv ?_ hs hr hc
      simp only [Attempts.resume, hstage]
      exact going_fail hs hr hc hlive hsaid _ (by rw [hstage]; rfl)
  | _ => exact inv_idle hs hr hc (by simp only [Attempts.resume, hstage])

/-- A pause between two polls is over. -/
theorem inv_sleeping (hs : Inv s) (hr : s.runs[n]? = some r) {job : Nat} {watched : Option Nat}
    (hc : Undistracted o s n r answer) (hstage : r.stage = .sleeping job watched) :
    Inv (s.resume o n r answer) := by
  have hsaid := said_refl (o := o) hs hr answer
  have hlive : r.stage.Live ∧ ¬ r.stage.Window := by
    rw [hstage]
    exact ⟨⟨nofun, nofun, nofun⟩, fun h => h⟩
  cases answer with
  | done =>
    refine Going.inv ?_ hs hr hc
    simp only [Attempts.resume, hstage]
    refine going_ahead hs hr hc hlive hsaid (.tailing job watched)
      ⟨⟨nofun, nofun, nofun⟩, fun h => h⟩ ?_ fun _ hf => ?_
    · rw [hstage]
      exact fun h => h
    · rw [hstage] at hf
      exact hf.1
  | _ => exact inv_idle hs hr hc (by simp only [Attempts.resume, hstage])

/-- The lines of the build so far have come. -/
theorem inv_tailing (hs : Inv s) (hr : s.runs[n]? = some r) {job : Nat} {watched : Option Nat}
    (hc : Undistracted o s n r answer) (hstage : r.stage = .tailing job watched) :
    Inv (s.resume o n r answer) := by
  have hsaid := said_refl (o := o) hs hr answer
  have hlive : r.stage.Live ∧ ¬ r.stage.Window := by
    rw [hstage]
    exact ⟨⟨nofun, nofun, nofun⟩, fun h => h⟩
  cases answer with
  | tail lines =>
    refine Going.inv ?_ hs hr hc
    simp only [Attempts.resume, hstage]
    refine going_ahead hs hr hc hlive (said_logAll hsaid lines fun hne => ?_)
      (.polling job watched) ⟨⟨nofun, nofun, nofun⟩, fun h => h⟩ ?_ fun _ hf => ?_
    · rw [hstage]
      exact bne_iff_ne.mpr hne
    · rw [hstage]
      exact fun h => h
    · rw [hstage] at hf
      exact hf.1
  | _ => exact inv_idle hs hr hc (by simp only [Attempts.resume, hstage])

/-- The builder has said how the job stands. -/
theorem inv_polling (hs : Inv s) (hr : s.runs[n]? = some r) {job : Nat} {watched : Option Nat}
    (hc : Undistracted o s n r answer) (hstage : r.stage = .polling job watched) :
    Inv (s.resume o n r answer) := by
  cases answer with
  | job report late =>
    refine Going.inv ?_ hs hr hc
    simp only [Attempts.resume, hstage]
    exact going_polled hs hr hc hstage
  | _ => exact inv_idle hs hr hc (by simp only [Attempts.resume, hstage])

/-- The old container is gone, as far as docker says. -/
theorem inv_removing (hs : Inv s) (hr : s.runs[n]? = some r) {image : String} {previous : Option String}
    (hc : Undistracted o s n r answer) (hstage : r.stage = .removing image previous) :
    Inv (s.resume o n r answer) := by
  have hfits := hs.runs n r hr
  have hsaid := said_refl (o := o) hs hr answer
  have hlive : r.stage.Live ∧ ¬ r.stage.Window := by
    rw [hstage]
    exact ⟨⟨nofun, nofun, nofun⟩, fun h => h⟩
  have hfree := hfits.uncancelled hlive.1 (by rw [hstage]; exact fun h => h)
    (by rw [hstage]; nofun)
  cases answer with
  | done =>
    refine Going.inv ?_ hs hr hc
    simp only [Attempts.resume, hstage]
    exact going_ahead (t := ({ s.app with container := none }, r)) hs hr hc hlive
      ⟨turn_quiet rfl rfl rfl rfl rfl rfl, hsaid.logged, hsaid.job, rfl, rfl, rfl, rfl⟩
      (.starting image previous)
      ⟨⟨nofun, nofun, nofun⟩, fun h => h⟩ (fun h => h.elim) fun h => absurd h hfree
  | threw error =>
    have hinv := inv_crash hs hr hc hlive.1 (by rw [hstage]; rfl) (by rw [hstage]; rfl) hfree
    simpa only [System.resume, Attempts.resume, hstage] using hinv
  | _ => exact inv_idle hs hr hc (by simp only [Attempts.resume, hstage])

/-- `docker run` has ended. -/
theorem inv_starting (hs : Inv s) (hr : s.runs[n]? = some r) {image : String} {previous : Option String}
    (hc : Undistracted o s n r answer) (hstage : r.stage = .starting image previous) :
    Inv (s.resume o n r answer) := by
  have hfits := hs.runs n r hr
  have hsaid := said_refl (o := o) hs hr answer
  have hlive : r.stage.Live ∧ ¬ r.stage.Window := by
    rw [hstage]
    exact ⟨⟨nofun, nofun, nofun⟩, fun h => h⟩
  have hfree := hfits.uncancelled hlive.1 (by rw [hstage]; exact fun h => h)
    (by rw [hstage]; nofun)
  cases answer with
  | ran failure =>
    refine Going.inv ?_ hs hr hc
    simp only [Attempts.resume, hstage]
    cases failure with
    | some output => exact going_fail hs hr hc hlive.1 hsaid _ (by rw [hstage]; rfl)
    | none =>
      have hturn : Turn s.app r [] ({ s.app with container := some ⟨image, some n⟩ },
          { r with stage := .settling image previous, started := true }) :=
        turn_quiet rfl rfl rfl rfl rfl rfl
      exact ⟨⟨[], hturn, fun h => absurd rfl h⟩, fun _ => ⟨rfl, rfl⟩,
        hfits.ahead hlive hturn (fun h => absurd rfl h) hsaid.job rfl
          ⟨⟨nofun, nofun, nofun⟩, fun h => h⟩ (fun h => h.elim) fun h => absurd h hfree⟩
  | threw error =>
    have hinv := inv_crash hs hr hc hlive.1 (by rw [hstage]; rfl) (by rw [hstage]; rfl) hfree
    simpa only [System.resume, Attempts.resume, hstage] using hinv
  | _ => exact inv_idle hs hr hc (by simp only [Attempts.resume, hstage])

/-- The new container has had its time to come up. -/
theorem inv_settling (hs : Inv s) (hr : s.runs[n]? = some r) {image : String} {previous : Option String}
    (hc : Undistracted o s n r answer) (hstage : r.stage = .settling image previous) :
    Inv (s.resume o n r answer) := by
  have hfits := hs.runs n r hr
  have hsaid := said_refl (o := o) hs hr answer
  have hlive : r.stage.Live ∧ ¬ r.stage.Window := by
    rw [hstage]
    exact ⟨⟨nofun, nofun, nofun⟩, fun h => h⟩
  have hfree := hfits.uncancelled hlive.1 (by rw [hstage]; exact fun h => h)
    (by rw [hstage]; nofun)
  cases answer with
  | done =>
    refine Going.inv ?_ hs hr hc
    simp only [Attempts.resume, hstage]
    exact going_ahead hs hr hc hlive hsaid (.inspecting image previous)
      ⟨⟨nofun, nofun, nofun⟩, fun h => h⟩ (fun h => h.elim) fun h => absurd h hfree
  | _ => exact inv_idle hs hr hc (by simp only [Attempts.resume, hstage])

/-- Docker has said whether the new container runs. -/
theorem inv_inspecting (hs : Inv s) (hr : s.runs[n]? = some r) {image : String} {previous : Option String}
    (hc : Undistracted o s n r answer) (hstage : r.stage = .inspecting image previous) :
    Inv (s.resume o n r answer) := by
  have hfits := hs.runs n r hr
  have hsaid := said_refl (o := o) hs hr answer
  have hlive : r.stage.Live := by rw [hstage]; exact ⟨nofun, nofun, nofun⟩
  have hfree := hfits.uncancelled hlive (by rw [hstage]; exact fun h => h) (by rw [hstage]; nofun)
  cases answer with
  | inspected running hostname url =>
    refine Going.inv ?_ hs hr hc
    simp only [Attempts.resume, hstage]
    cases running with
    | false => exact going_fail hs hr hc hlive hsaid _ (by rw [hstage]; rfl)
    | true =>
      have hturn : Turn s.app r [] (succeed image previous url (s.app, r)) :=
        turn_quiet rfl rfl rfl rfl rfl rfl
      -- nothing was left of another run's reason, so the verdict is clean
      have hverdict : (succeed image previous url (s.app, r)).2.verdict =
          some ⟨.succeeded, s.app.engineReason⟩ := by
        have hclean := hc.clean
        rw [hstage] at hclean
        rw [show s.app.engineReason = none from hclean]
        rfl
      have hconcludes : concludes o s.app r.stage (.inspected true hostname url) = true := by
        rw [hstage]
        rfl
      exact ⟨⟨[], hturn, fun h => absurd rfl h⟩,
        fun h => absurd hconcludes (by rw [h]; exact Bool.false_ne_true),
        hfits.concluded hlive hturn (fun h => absurd rfl h) hsaid.job hverdict trivial
          fun h => absurd h hfree⟩
  | threw error =>
    have hinv := inv_crash hs hr hc hlive (by rw [hstage]; rfl) (by rw [hstage]; rfl) hfree
    simpa only [System.resume, Attempts.resume, hstage] using hinv
  | _ => exact inv_idle hs hr hc (by simp only [Attempts.resume, hstage])

/-- The router has answered. -/
theorem inv_publishing (hs : Inv s) (hr : s.runs[n]? = some r) {image : String}
    (hc : Undistracted o s n r answer) (hstage : r.stage = .publishing image) :
    Inv (s.resume o n r answer) := by
  have hfits := hs.runs n r hr
  have hlive : r.stage.Live := by rw [hstage]; exact ⟨nofun, nofun, nofun⟩
  have hfree := hfits.uncancelled hlive (by rw [hstage]; exact fun h => h) (by rw [hstage]; nofun)
  cases answer with
  | published hostname reason =>
    refine Going.inv ?_ hs hr hc
    simp only [Attempts.resume, hstage]
    exact going_announce hs hr hc hstage
  | _ => exact inv_idle hs hr hc (by simp only [Attempts.resume, hstage])

/-- `runDeploy` is over: its verdict is recorded. -/
theorem inv_returned (hs : Inv s) (hr : s.runs[n]? = some r)
    (hc : Undistracted o s n r answer) (hstage : r.stage = .returned) :
    Inv (s.resume o n r answer) := by
  have hfits := hs.runs n r hr
  have hlive : r.stage.Live := by rw [hstage]; exact ⟨nofun, nofun, nofun⟩
  cases answer with
  | done =>
    have hinv := (@inv_record _ _ s.app _ _ r) hs hr hc hlive (by rw [hstage]; rfl) rfl rfl rfl
      (.inl ⟨rfl, rfl⟩) (hfits.window (by rw [hstage]; trivial)) ⟨rfl, rfl⟩ hfits.own.stopped
    simpa only [System.resume, Attempts.resume, hstage] using hinv
  | _ => exact inv_idle hs hr hc (by simp only [Attempts.resume, hstage])

/-- The record is saved, or could not be. -/
theorem inv_recorded (hs : Inv s) (hr : s.runs[n]? = some r)
    (hc : Undistracted o s n r answer) (hstage : r.stage = .recorded) :
    Inv (s.resume o n r answer) := by
  cases answer with
  | done =>
    refine Going.inv ?_ hs hr hc
    simp only [Attempts.resume, hstage]
    exact going_over hs hr hstage (turn_quiet rfl rfl rfl rfl rfl rfl) fun _ => ⟨rfl, rfl⟩
  | threw error =>
    refine Going.inv ?_ hs hr hc
    simp only [Attempts.resume, hstage]
    exact going_over hs hr hstage (turn_quiet rfl rfl rfl rfl rfl rfl) fun h => by rw [hstage] at h; cases h
  | _ => exact inv_idle hs hr hc (by simp only [Attempts.resume, hstage])

/-- **Step lemma** of the runs: one case for each await. -/
theorem inv_resume (hs : Inv s) (hr : s.runs[n]? = some r) (hc : Undistracted o s n r answer) :
    Inv (s.resume o n r answer) := by
  cases hstage : r.stage with
  | saving => exact inv_saving hs hr hc hstage
  | posting _ _ => exact inv_posting hs hr hc hstage
  | sleeping _ _ => exact inv_sleeping hs hr hc hstage
  | tailing _ _ => exact inv_tailing hs hr hc hstage
  | polling _ _ => exact inv_polling hs hr hc hstage
  | removing _ _ => exact inv_removing hs hr hc hstage
  | starting _ _ => exact inv_starting hs hr hc hstage
  | settling _ _ => exact inv_settling hs hr hc hstage
  | inspecting _ _ => exact inv_inspecting hs hr hc hstage
  | publishing _ => exact inv_publishing hs hr hc hstage
  | returned => exact inv_returned hs hr hc hstage
  | recorded => exact inv_recorded hs hr hc hstage
  | «over» => exact inv_idle hs hr hc (by simp only [Attempts.resume, hstage])
  | lost => exact inv_idle hs hr hc (by simp only [Attempts.resume, hstage])

end Resume

/-! ## Requests -/

/-- A deploy is accepted, while no run is between its verdict and its record. -/
theorem inv_deploy (hs : Inv s) (hc : s.NoWindow none) : Inv s.deploy := by
  -- the number of the new attempt is the number of runs so far
  have hnew : ¬ s.app.Has s.runs.length := fun h => Nat.lt_irrefl _ (hs.known _ h)
  have hkeys : s.deploy.app.attempts.map (·.1) = s.app.attempts.map (·.1) ++ [s.runs.length] :=
    putRecord_keys.trans (if_neg hnew)
  have hhas : ∀ m, s.deploy.app.Has m ↔ s.app.Has m ∨ m = s.runs.length := by
    intro m
    unfold App.Has
    rw [hkeys, List.mem_append, List.mem_singleton]
  have hlen : s.deploy.runs.length = s.runs.length + 1 := List.length_append
  refine ⟨fun m q hm => ?_, fun m hm => ?_, ?_, fun m hm => ?_, fun m hm => ?_⟩
  · have hrun : (s.runs ++ [({} : Run)])[m]? = some q := hm
    -- the runs that were there: their records stay in front of the new one
    by_cases hlt : m < s.runs.length
    · rw [List.getElem?_append_left hlt] at hrun
      refine (hs.runs m q hrun).other (fun rec hmem => ?_) (fun hlive => ?_) (fun _ => rfl)
        (List.prefix_refl _) (fun hw => ?_) fun _ h => h
      · have := mem_putRecord hmem
        rwa [if_neg (Nat.ne_of_lt hlt)] at this
      · exact (hhas m).mpr (.inl ((hs.runs m q hrun).registered hlive))
      -- none of them is between its verdict and its record
      · cases hc m q hrun hw
    -- and the new one is at its first save, running
    · rw [List.getElem?_append_right (by omega)] at hrun
      rw [List.getElem?_singleton] at hrun
      split at hrun
      swap
      · cases hrun
      obtain rfl : m = s.runs.length := by omega
      obtain rfl := Option.some.inj hrun
      have hlive : (Stage.saving).Live := ⟨nofun, nofun, nofun⟩
      refine ⟨⟨fun rec hmem => ?_, fun _ => hs.blank _ (Nat.le_refl _), nofun, nofun⟩,
        fun _ => (hhas _).mpr (.inr rfl), fun h => h.elim, fun _ _ => rfl, fun _ => rfl, nofun⟩
      have := mem_putRecord hmem
      rw [if_pos rfl] at this
      rw [this, if_pos hlive]
  · rw [hlen]
    rcases (hhas m).mp hm with h | rfl
    · have := hs.known m h
      omega
    · exact Nat.lt_succ_self _
  · rw [hkeys, List.nodup_append]
    refine ⟨hs.nodup, List.nodup_singleton _, fun m hm k hk heq => ?_⟩
    rw [List.mem_singleton] at hk
    exact hnew (hk ▸ heq ▸ hm)
  · exact hs.blank m (by omega)
  · rw [hlen]
    have := hs.flags m hm
    omega

theorem inv_cancelApp (hs : Inv s) (hc : ∀ r ∈ s.runs, ¬ r.stage.Live) : Inv s.cancelApp := by
  have hruns : s.cancelApp.runs = s.runs := by
    refine (List.map_congr_left fun r hr => ?_).trans (List.map_id _)
    exact if_neg (hc r hr)
  refine ⟨fun m q hm => ?_, fun m hm => ?_, hs.nodup, fun m hm => ?_, fun m hm => ?_⟩
  · rw [hruns] at hm
    have hended : ¬ q.stage.Live := hc q (List.mem_of_getElem? hm)
    exact (hs.runs m q hm).other (fun _ h => h) (fun h => absurd h hended) (fun _ => rfl)
      (List.prefix_refl _) (fun hw => absurd (hw.live m).1 hended) fun _ h => h
  · rw [hruns]
    exact hs.known m hm
  · rw [hruns] at hm
    exact hs.blank m hm
  · rw [hruns]
    exact hs.flags m hm

/-- An attempt is cancelled that will still look at its flag, or that is over. -/
theorem inv_cancelAttempt (hs : Inv s) (hc : s.app.Has n → s.NoWindow none ∧
    ∀ r, s.runs[n]? = some r → r.stage.Live → r.stage.Watches n) : Inv (s.cancelAttempt n) := by
  unfold System.cancelAttempt
  split
  next hany =>
    have hhas : s.app.Has n := by
      obtain ⟨p, hp, hn⟩ := List.any_eq_true.mp hany
      exact List.mem_map.mpr ⟨p, hp, by simpa using hn⟩
    obtain ⟨hwindow, hwatches⟩ := hc hhas
    -- no verdict is outstanding, so it does no harm that the status is written over
    have hquiet : ∀ (m : Nat) (q : Run), s.runs[m]? = some q → q.stage.Window →
        Status.pending = s.app.status ∧ some "cancelled" = s.app.engineReason := by
      intro m q hm hw
      cases hwindow m q hm hw
    refine ⟨fun m q hm => ?_, fun m hm => ?_, hs.nodup, fun m hm => ?_, fun m hm => ?_⟩
    · dsimp only at hm
      rw [List.getElem?_modify] at hm
      obtain ⟨r, hr, rfl⟩ := Option.map_eq_some_iff.mp hm
      have hfits := hs.runs m r hr
      have hother : Fits { s.app with
          status := .pending
          engineReason := some "cancelled"
          cancelled := n :: s.app.cancelled } s.jobs m r :=
        hfits.other (fun _ h => h) hfits.registered (fun _ => rfl) (List.prefix_refl _)
          (hquiet m r hr) fun _ h => List.mem_cons_of_mem _ h
      split
      -- the attempt's own run: it will look at the flag, if it goes on at all
      next hmn =>
        subst hmn
        split
        next hlive =>
          have hw := hwatches r hr hlive
          have hnone : ¬ r.stage.Window := fun h => by cases hwindow n r hr h
          refine ⟨⟨hother.own.verdict, hother.own.lines, hother.own.job, fun _ => ?_⟩,
            hother.registered, hother.window, hother.early, hother.unstarted, fun _ _ => ?_⟩
          · refine ⟨hfits.unstarted hw, ?_⟩
            rw [hfits.early hlive hnone]
            intro h
            cases h
          · exact .inl ⟨hw, List.mem_cons_self⟩
        next => exact hother
      next => exact hother
    · rw [List.length_modify]
      exact hs.known m hm
    · rw [List.length_modify] at hm
      exact hs.blank m hm
    · rw [List.length_modify]
      -- the flag is for an attempt that is known
      rcases List.mem_cons.mp hm with rfl | hm
      · exact hs.known m hhas
      · exact hs.flags m hm
  next => exact hs

/-- Nothing that the attempts have is changed. -/
theorem inv_app {rollbacks : List Rollback} (hs : Inv s) (hattempts : a.attempts = s.app.attempts)
    (hlogs : a.attemptLogs = s.app.attemptLogs) (hflags : a.cancelled = s.app.cancelled)
    (hstatus : a.status = s.app.status ∧ a.engineReason = s.app.engineReason) :
    Inv { s with app := a, rollbacks := rollbacks } := by
  have hhas : ∀ m, a.Has m ↔ s.app.Has m := fun m => by
    unfold App.Has
    rw [hattempts]
  refine ⟨fun m q hm => ?_, fun m hm => hs.known m ((hhas m).mp hm), ?_, fun m hm => ?_,
    fun m hm => hs.flags m (hflags ▸ hm)⟩
  · exact (hs.runs m q hm).other (fun _ h => hattempts ▸ h)
      (fun h => (hhas m).mpr ((hs.runs m q hm).registered h)) (fun _ => by rw [hlogs])
      (List.prefix_refl _) (fun _ => hstatus) fun _ h => hflags.symm ▸ h
  · show (a.attempts.map (·.1)).Nodup
    rw [hattempts]
    exact hs.nodup
  · show a.attemptLogs m = []
    rw [hlogs]
    exact hs.blank m hm

theorem inv_resumeRollback {k : Nat} {b : Rollback} {answer : Answer} (hs : Inv s)
    (hc : ¬ (b.stage = .inspecting ∧ answer.running = true)) :
    Inv (s.resumeRollback k b answer) := by
  unfold System.resumeRollback
  dsimp only
  split
  · exact inv_app hs rfl rfl rfl ⟨rfl, rfl⟩
  · exact inv_app hs rfl rfl rfl ⟨rfl, rfl⟩
  · exact inv_app hs rfl rfl rfl ⟨rfl, rfl⟩
  next hstage => exact absurd ⟨hstage, rfl⟩ hc
  · exact inv_app hs rfl rfl rfl ⟨rfl, rfl⟩
  · exact inv_app hs rfl rfl rfl ⟨rfl, rfl⟩
  · exact inv_app hs rfl rfl rfl ⟨rfl, rfl⟩
  · exact hs

/-- **Step lemma.** -/
theorem inv_step {e : Event} (hs : Inv s) (hc : Orderly o s e) : Inv (s.step o e) := by
  cases e with
  | deploy => exact inv_deploy hs hc
  | cancelApp => exact inv_cancelApp hs hc
  | cancelAttempt n => exact inv_cancelAttempt hs hc
  | rollback =>
    show Inv s.rollback
    unfold System.rollback
    split
    · exact hs
    · exact inv_app hs rfl rfl rfl ⟨rfl, rfl⟩
  | resume n answer =>
    simp only [System.step]
    split
    · exact hs
    next r hr => exact inv_resume hs hr (hc r hr)
  | resumeRollback k answer =>
    simp only [System.step]
    split
    · exact hs
    next b hb => exact inv_resumeRollback hs (hc b hb)

end Steps

/-- An application of which nothing is known yet. -/
theorem inv_initial : Inv {} where
  runs n r h := by
    rw [List.getElem?_nil] at h
    cases h
  known n h := nomatch h
  nodup := List.nodup_nil
  blank _ _ := rfl
  flags n h := nomatch h

/-- **Every attempt's record is its own run's, and what was cancelled is stopped**, as long
as no run is distracted, and a cancel is seen. -/
theorem records_kept (o : Setup) (es : List Event)
    (h : EachStep (System.step o) (Orderly o) {} es) : Always (System.step o) Kept {} es :=
  always_of_inv (J := Inv) inv_initial (fun _ _ => inv_step) (fun _ hs n r hr => (hs.runs n r hr).own)
    h

/-! ## Three runs -/

def shop : Setup where
  gitRepository := some "https://git.example.com/shop.git"
  image := none
  builderConfigured := true

/-- A second deploy while the first waits for the build plane, which refuses it; the
second is cancelled in time. -/
theorem records_kept_refused : Always (System.step shop) Kept {}
    [.deploy, .resume 0 .done, .deploy, .cancelAttempt 1, .resume 0 (.posted (some "503") false),
      .resume 0 .done, .resume 1 .done, .resume 1 .done] :=
  records_kept shop _ (by decide +kernel)

/-- Two deploys, and both ask for a build after the second came. -/
def overlapping : List Event :=
  [.deploy, .deploy, .resume 0 .done, .resume 1 .done, .resume 0 (.posted none false),
    .resume 1 (.posted none false)]

/-- One deploy, cancelled while it waits for the answer that its build has succeeded. -/
def cancelledLate : List Event :=
  [.deploy, .resume 0 .done, .resume 0 (.posted none false), .resume 0 .done,
    .resume 0 (.tail []), .cancelAttempt 0,
    .resume 0 (.job (.succeeded (some "shop:1") []) false), .resume 0 .done,
    .resume 0 (.ran none), .resume 0 .done, .resume 0 (.inspected true none none)]

/-- The second deploy has the first one's build; and the container of the cancelled one is
the one that serves. -/
theorem records_mixed_up :
    ¬ Always (System.step shop) Kept {} overlapping ∧
      ¬ Always (System.step shop) Kept {} cancelledLate := by
  constructor
  · intro h
    have hlast := always_iff_prefixes.mp h overlapping [] (List.append_nil _).symm
    have hjob : ∀ j ∈ (some 0 : Option Nat), ∃ job,
        (runFrom (System.step shop) {} overlapping).jobs[j]? = some job ∧ job.maker = 1 :=
      (hlast 1 { stage := .sleeping 0 (some 1), lines := ["build job 0 accepted"], job := some 0 }
        (by decide +kernel)).job
    obtain ⟨job, hget, hmaker⟩ := hjob 0 rfl
    have hmade : (runFrom (System.step shop) {} overlapping).jobs[0]? = some ⟨2, 0⟩ := by
      decide +kernel
    obtain rfl := Option.some.inj (hmade.symm.trans hget)
    cases hmaker
  · intro h
    have hlast := always_iff_prefixes.mp h cancelledLate [] (List.append_nil _).symm
    have hrun : (runFrom (System.step shop) {} cancelledLate).runs[0]? = some
        { stage := .publishing "shop:1"
          verdict := some ⟨.succeeded, none⟩
          lines := ["build job 0 accepted"]
          job := some 0
          started := true
          cancelled := true } := by
      decide +kernel
    exact absurd ((hlast 0 _ hrun).stopped rfl).1 (by decide)

end CloudWai.Runtime.Attempts
