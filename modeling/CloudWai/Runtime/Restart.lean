import CloudWai.Runtime.Overlap

/-!
# The runtime starts again

A run of `deploy` lives in the process. When that stops, at whatever await, the run is
gone, and `loadState` takes up the record that the state file holds as it stands. An
attempt that was `running` there has nobody left to end it.

`Answered` says that every attempt has ended or is still worked on. It is kept by
everything but three things: such a restart, a first save that fails, after which `deploy`
gives its attempt up without a record, and an outcome that is recorded after somebody else
has set the application's status (`attempts_answered_iff`).

Mirrors `loadState` of `infra/deployment/runtime-server.mjs`. The file has one application,
and how its text gets there is the subject of `StateFile`.
-/

namespace CloudWai.Runtime.Attempts

open Base

/-! ## Restarts -/

/-- What is found under `apps.json`: no file, one that does not parse, or what was saved. -/
inductive File where
  | absent
  | unreadable
  | saved (app : App)

/-- The attempts that are on record there. -/
def File.attempts : File → List (Nat × Record)
  | .absent | .unreadable => []
  | .saved app => app.attempts

/-- `loadState`, as far as the application goes. What docker runs is not in the file, nor are
the flags of cancelled attempts. -/
def loadState (container : Option Serving) : File → App
  | .absent | .unreadable => { container := container }
  | .saved app => { app with container := container, cancelled := [] }

theorem loadState_attempts (container : Option Serving) (file : File) :
    (loadState container file).attempts = file.attempts := by
  cases file <;> rfl

/-- No identifier of the file is drawn again. -/
def unused (app : App) : Nat := (app.attempts.map (·.1)).foldr (fun n m => max (n + 1) m) 0

/-- A run of a process that is no more. -/
def Run.gone (r : Run) : Run := { r with stage := .over }

/-- The process stops, and a new one reads the file. -/
def System.restart (s : System) (file : File) : System :=
  let app := loadState s.app.container file
  { s with
    app := app
    runs := s.runs.map Run.gone ++ List.replicate (unused app - s.runs.length) { stage := .over }
    rollbacks := s.rollbacks.map fun b => { b with stage := .over } }

/-- What a process meets, and that it is started anew. -/
inductive Happening where
  | event (e : Event)
  | restart (file : File)

/-- An event, or a restart on a file. -/
def System.happen (o : Setup) (s : System) : Happening → System
  | .event e => s.step o e
  | .restart file => s.restart file

/-! ## Polls -/

/-- A poll that is answered with this status is the last one. -/
def Settled (status : Status) : Prop := status ≠ .running ∧ status ≠ .pending

instance (status : Status) : Decidable (Settled status) := inferInstanceAs (Decidable (_ ∧ _))

/-- A run of the attempt is in progress. -/
def System.InProgress (s : System) (n : Nat) : Prop := ∃ r, s.runs[n]? = some r ∧ r.stage.Live

/-- **Every attempt on record has ended, or is worked on.** -/
def Answered (s : System) : Prop :=
  ∀ n record, (n, record) ∈ s.app.attempts → Settled record.verdict.status ∨ s.InProgress n

/-- The attempts that are kept when `n` is recorded. -/
def App.kept (a : App) (n : Nat) : List Nat :=
  let ids := a.attempts.map (·.1)
  let ids := if n ∈ ids then ids else ids ++ [n]
  ids.drop (ids.length - 50)

/-- A restart finds no attempt in flight; a run whose first save fails is not on record as
in flight; and what a run records is an end, unless it is dropped at once. -/
def Ends (s : System) : Happening → Prop
  | .restart file => ∀ p ∈ file.attempts, Settled p.2.verdict.status
  | .event (.resume n answer) =>
    match (s.runs[n]?).map Run.stage, answer with
    | some .saving, .threw _ => ∀ p ∈ s.app.attempts, p.1 = n → Settled p.2.verdict.status
    | some .returned, .done => Settled s.app.status ∨ n ∉ s.app.kept n
    | _, _ => True
  | .event _ => True

instance (s : System) (h : Happening) : Decidable (Ends s h) := by
  unfold Ends
  rcases h with e | file
  · rcases e with _ | _ | _ | _ | ⟨n, answer⟩ | _
    · exact isTrue trivial
    · exact isTrue trivial
    · exact isTrue trivial
    · exact isTrue trivial
    · dsimp only
      rcases (s.runs[n]?).map Run.stage with _ | stage
      · exact isTrue trivial
      · rcases stage with _ | _ <;> rcases answer with _ | _ <;> infer_instance
    · exact isTrue trivial
  · infer_instance

section Steps

variable {o : Setup} {s : System} {a : App} {r : Run} {n m : Nat} {t : App × Run}

/-! ## One run -/

/-- The records are left alone, and a run that was in progress is still. -/
structure GoesOn (t t' : App × Run) : Prop where
  attempts : t'.1.attempts = t.1.attempts
  live : t.2.stage.Live → t'.2.stage.Live

theorem GoesOn.refl (t : App × Run) : GoesOn t t := ⟨rfl, id⟩

theorem GoesOn.trans {t t' t'' : App × Run} (h : GoesOn t t') (h' : GoesOn t' t'') :
    GoesOn t t'' := ⟨h'.attempts.trans h.attempts, fun hlive => h'.live (h.live hlive)⟩

theorem goesOn_log (line : String) (t : App × Run) : GoesOn t (log line t) := ⟨rfl, id⟩

theorem goesOn_logAll (lines : List String) : ∀ t : App × Run, GoesOn t (logAll lines t) := by
  induction lines with
  | nil => exact GoesOn.refl
  | cons line lines ih => exact fun t => (goesOn_log line t).trans (ih _)

theorem goesOn_fail (reason : String) (t : App × Run) : GoesOn t (fail reason t) :=
  ⟨rfl, fun _ => ⟨nofun, nofun, nofun⟩⟩

theorem goesOn_await (job : Nat) (watched : Option Nat) (late : Bool) (t : App × Run) :
    GoesOn t (await job watched late t) := by
  unfold await
  split
  · exact goesOn_fail _ t
  split
  · exact goesOn_fail _ t
  · exact ⟨rfl, fun _ => ⟨nofun, nofun, nofun⟩⟩

theorem goesOn_replace (image : String) (t : App × Run) : GoesOn t (replace image t) :=
  ⟨rfl, fun _ => ⟨nofun, nofun, nofun⟩⟩

theorem goesOn_begin (o : Setup) (t : App × Run) : GoesOn t (begin o t) := by
  unfold begin
  split
  · exact goesOn_fail _ t
  split
  · exact goesOn_fail _ t
  split
  · exact goesOn_replace _ t
  split
  · exact ⟨rfl, fun _ => ⟨nofun, nofun, nofun⟩⟩
  · exact goesOn_fail _ t

theorem goesOn_polled (job : Nat) (watched : Option Nat) (late : Bool) (t : App × Run)
    (report : Report) : GoesOn t (polled job watched late t report) := by
  unfold polled
  split
  · exact goesOn_await ..
  · exact goesOn_await ..
  · exact goesOn_fail _ t
  · exact goesOn_fail _ t
  · exact (goesOn_logAll _ t).trans (goesOn_replace _ _)
  · exact (goesOn_logAll _ t).trans (goesOn_fail _ _)

theorem goesOn_announce (image : String) (hostname reason : Option String) (t : App × Run) :
    GoesOn t (announce image hostname reason t) := by
  unfold announce
  dsimp only
  generalize List.cons _ _ = lines
  exact ⟨(goesOn_logAll lines t).attempts, fun _ => ⟨nofun, nofun, nofun⟩⟩

/-- **An await of a run** goes on, gives the attempt up, or records it. -/
theorem resume_cases (o : Setup) (jobs : List Job) (n : Nat) (t : App × Run) (answer : Answer) :
    GoesOn t (resume o jobs n t answer) ∨
    (t.2.stage = .saving ∧ (∃ e, answer = .threw e) ∧
      (resume o jobs n t answer).1.attempts = t.1.attempts ∧
      ¬ (resume o jobs n t answer).2.stage.Live) ∨
    (t.2.stage = .returned ∧ answer = .done ∧ resume o jobs n t answer = record n t) ∨
    ∃ a r, resume o jobs n t answer = record n (a, r) ∧ a.attempts = t.1.attempts ∧
      a.status = .failed := by
  have hstays : ∀ (a : App) (r' : Run), a.attempts = t.1.attempts → (t.2.stage.Live → r'.stage.Live) →
      GoesOn t (a, r') := fun _ _ h h' => ⟨h, h'⟩
  unfold resume
  split
  · exact .inl (goesOn_begin o t)
  -- the first save fails: `deploy` rejects, and there is no record
  next e hstage =>
    exact .inr (.inl ⟨hstage, ⟨e, rfl⟩, rfl, fun h => h.2.2 rfl⟩)
  · exact .inl (goesOn_fail _ t)
  -- the job is noted, and waited for
  next key watched late _ =>
    refine .inl (GoesOn.trans ?_ (goesOn_await ..))
    exact GoesOn.trans (hstays t.1 { t.2 with job := some _ } rfl id) (goesOn_log _ _)
  · exact .inl (hstays _ _ rfl fun _ => by simp [Stage.Live])
  next lines _ =>
    have hlog := goesOn_logAll lines t
    exact .inl (hstays _ _ hlog.attempts fun _ => by simp [Stage.Live])
  · exact .inl (goesOn_polled ..)
  · exact .inl (hstays _ _ rfl fun _ => by simp [Stage.Live])
  · exact .inl (goesOn_fail _ t)
  · exact .inl (hstays _ _ rfl fun _ => by simp [Stage.Live])
  · exact .inl (hstays _ _ rfl fun _ => by simp [Stage.Live])
  · exact .inl (goesOn_fail _ t)
  · exact .inl (hstays _ _ rfl fun _ => by simp [Stage.Live])
  · exact .inl (goesOn_announce ..)
  -- a container that cannot be replaced ends in a record of a failure
  · exact .inr (.inr (.inr ⟨_, _, rfl, rfl, rfl⟩))
  · exact .inr (.inr (.inr ⟨_, _, rfl, rfl, rfl⟩))
  · exact .inr (.inr (.inr ⟨_, _, rfl, rfl, rfl⟩))
  -- the outcome is recorded
  next hstage => exact .inr (.inr (.inl ⟨hstage, rfl, rfl⟩))
  next hstage => exact .inl (hstays _ _ rfl fun h => absurd hstage h.1)
  next hstage => exact .inl (hstays _ _ rfl fun h => absurd hstage h.1)
  · exact .inl (.refl t)

theorem record_keys : ((record n (a, r)).1.attempts).map (·.1) = a.kept n := by
  have hkeys := @putRecord_keys n a.attempts ⟨⟨a.status, a.engineReason⟩, a.url⟩
  show ((putRecord n _ a.attempts).drop _).map (·.1) = _
  rw [List.map_drop, hkeys, ← List.length_map (·.1), hkeys]
  rfl

theorem mem_record {rec : Record} (h : (m, rec) ∈ (record n (a, r)).1.attempts) :
    if m = n then rec = ⟨⟨a.status, a.engineReason⟩, a.url⟩ else (m, rec) ∈ a.attempts :=
  mem_putRecord (List.mem_of_mem_drop h)

/-! ## One step -/

/-- Another run goes on being in progress. -/
theorem inProgress_set {s' : System} {r' : Run} (hruns : s'.runs = s.runs.set n r')
    (hlive : m = n → r'.stage.Live) (h : s.InProgress m) : s'.InProgress m := by
  obtain ⟨q, hq, hqlive⟩ := h
  unfold System.InProgress
  rw [hruns]
  by_cases hm : n = m
  · subst hm
    obtain ⟨hlt, _⟩ := List.getElem?_eq_some_iff.mp hq
    exact ⟨r', List.getElem?_set_self hlt, hlive rfl⟩
  · exact ⟨q, by rw [List.getElem?_set_ne hm, hq], hqlive⟩

theorem answered_goesOn {s' : System} {r' : Run} (h : Answered s) (hr : s.runs[n]? = some r)
    (hattempts : s'.app.attempts = s.app.attempts) (hruns : s'.runs = s.runs.set n r')
    (hlive : r.stage.Live → r'.stage.Live) : Answered s' := by
  intro m rec hrec
  rw [hattempts] at hrec
  refine (h m rec hrec).imp_right fun hm => ?_
  refine inProgress_set hruns (fun hmn => hlive ?_) hm
  obtain ⟨q, hq, hqlive⟩ := hm
  rw [hmn, hr] at hq
  exact Option.some.inj hq ▸ hqlive

/-- A run that records the attempt, for better or worse. -/
theorem answered_record {s' : System} {r' : Run} (h : Answered s)
    (hattempts : s'.app.attempts = (record n (a, r)).1.attempts)
    (happ : a.attempts = s.app.attempts) (hruns : s'.runs = s.runs.set n r')
    (hend : Settled a.status ∨ n ∉ a.kept n) : Answered s' := by
  intro m rec hrec
  rw [hattempts] at hrec
  have hold := mem_record hrec
  by_cases hm : m = n
  · subst hm
    rw [if_pos rfl] at hold
    subst hold
    refine .inl (hend.resolve_right fun hgone => hgone ?_)
    rw [← @record_keys a r]
    exact List.mem_map_of_mem hrec
  · rw [if_neg hm, happ] at hold
    exact (h m rec hold).imp_right (inProgress_set hruns fun hmn => absurd hmn hm)

/-- The run is not in progress any more. -/
theorem not_inProgress_set {s' : System} {r' : Run} (hruns : s'.runs = s.runs.set n r')
    (hr : s.runs[n]? = some r) (hdead : ¬ r'.stage.Live) : ¬ s'.InProgress n := by
  rintro ⟨q, hq, hlive⟩
  obtain ⟨hlt, _⟩ := List.getElem?_eq_some_iff.mp hr
  rw [hruns, List.getElem?_set_self hlt] at hq
  exact hdead (Option.some.inj hq ▸ hlive)

/-- An await of a run. -/
theorem answered_resume (h : Answered s) (hr : s.runs[n]? = some r) (answer : Answer) :
    Answered (s.resume o n r answer) ↔ Ends s (.event (.resume n answer)) := by
  have hcases := resume_cases o (build s.jobs n r answer) n (s.app, r) answer
  have hruns : (s.resume o n r answer).runs = s.runs.set n
      (resume o (build s.jobs n r answer) n (s.app, r) answer).2 := rfl
  have happ : (s.resume o n r answer).app =
      (resume o (build s.jobs n r answer) n (s.app, r) answer).1 := rfl
  unfold Ends
  dsimp only
  rw [hr, Option.map_some]
  -- the first save fails: the attempt is left as it is, with no run
  by_cases hsave : r.stage = .saving ∧ ∃ e, answer = .threw e
  · obtain ⟨hstage, e, rfl⟩ := hsave
    rw [hstage]
    have hdead : ¬ (resume o (build s.jobs n r (.threw e)) n (s.app, r) (.threw e)).2.stage.Live := by
      unfold resume
      rw [hstage]
      exact fun hlive => hlive.2.2 rfl
    have hsame : (s.resume o n r (.threw e)).app.attempts = s.app.attempts := by
      rw [happ]
      unfold resume
      rw [hstage]
    constructor
    · rintro hafter ⟨m, rec⟩ hrec rfl
      rw [← hsame] at hrec
      exact (hafter m rec hrec).resolve_right (not_inProgress_set hruns hr hdead)
    -- the attempt had ended then, or it was not this run's
    · intro hends m rec hrec
      rw [hsame] at hrec
      by_cases hm : m = n
      · exact .inl (hends _ hrec hm)
      · exact (h m rec hrec).imp_right (inProgress_set hruns fun hmn => absurd hmn hm)
  -- the outcome is recorded as the status that is found
  by_cases hreturn : r.stage = .returned ∧ answer = .done
  · obtain ⟨hstage, rfl⟩ := hreturn
    rw [hstage]
    have hrecord : resume o (build s.jobs n r .done) n (s.app, r) .done = record n (s.app, r) := by
      unfold resume
      rw [hstage]
    rw [hrecord] at hruns happ
    refine ⟨fun hafter => ?_, answered_record h (congrArg App.attempts happ) rfl hruns⟩
    -- its record was kept, so the status found is the one it ends with
    rw [or_iff_not_imp_right, not_not]
    intro hkept
    rw [← @record_keys s.app r] at hkept
    obtain ⟨⟨m, rec⟩, hrec, rfl⟩ := List.mem_map.mp hkept
    have hnew := mem_record hrec
    rw [if_pos rfl] at hnew
    subst hnew
    rw [← happ] at hrec
    exact (hafter m _ hrec).resolve_right
      (not_inProgress_set hruns hr fun hlive => hlive.1 rfl)
  -- every other await goes on, or records that it failed
  · have hrest : Answered (s.resume o n r answer) := by
      rcases hcases with hgo | ⟨hstage, hthrew, _⟩ | ⟨hstage, hdone, _⟩ | ⟨a, q, heq, hsame, hfailed⟩
      · exact answered_goesOn h hr (happ ▸ hgo.attempts) hruns hgo.live
      · exact absurd ⟨hstage, hthrew⟩ hsave
      · exact absurd ⟨hstage, hdone⟩ hreturn
      · rw [heq] at happ hruns
        refine answered_record h (congrArg App.attempts happ) hsame hruns (.inl ?_)
        rw [hfailed]
        decide
    refine iff_of_true hrest ?_
    split
    next e hstage => exact absurd ⟨Option.some.inj hstage, e, rfl⟩ hsave
    next hstage => exact absurd ⟨Option.some.inj hstage, rfl⟩ hreturn
    · trivial

/-- Nothing is recorded, and whatever was in progress is. -/
theorem answered_still {s' : System} (h : Answered s) (hattempts : s'.app.attempts = s.app.attempts)
    (hruns : ∀ n, s.InProgress n → s'.InProgress n) : Answered s' := by
  intro n rec hrec
  rw [hattempts] at hrec
  exact (h n rec hrec).imp_right (hruns n)

theorem answered_deploy (h : Answered s) : Answered s.deploy := by
  intro m rec hrec
  have hold := mem_putRecord hrec
  by_cases hm : m = s.runs.length
  · refine .inr ⟨{}, ?_, nofun, nofun, nofun⟩
    show (s.runs ++ [({} : Run)])[m]? = _
    rw [hm, List.getElem?_concat_length]
  · rw [if_neg hm] at hold
    refine (h m rec hold).imp_right ?_
    rintro ⟨r, hr, hlive⟩
    obtain ⟨hlt, _⟩ := List.getElem?_eq_some_iff.mp hr
    exact ⟨r, (List.getElem?_append_left hlt).trans hr, hlive⟩

theorem answered_cancelApp (h : Answered s) : Answered s.cancelApp := by
  refine answered_still h rfl ?_
  rintro n ⟨r, hr, hlive⟩
  refine ⟨{ r with cancelled := true }, ?_, hlive⟩
  show (s.runs.map _)[n]? = _
  rw [List.getElem?_map, hr, Option.map_some, if_pos hlive]

theorem answered_cancelAttempt (h : Answered s) (n : Nat) : Answered (s.cancelAttempt n) := by
  unfold System.cancelAttempt
  split
  · refine answered_still h rfl ?_
    rintro m ⟨r, hr, hlive⟩
    by_cases hm : n = m
    · refine ⟨{ r with cancelled := true }, ?_, hlive⟩
      show (s.runs.modify n _)[m]? = _
      rw [List.getElem?_modify, hr, Option.map_eq_map, Option.map_some, if_pos hm, if_pos hlive]
    · refine ⟨r, ?_, hlive⟩
      show (s.runs.modify n _)[m]? = _
      rw [List.getElem?_modify, hr, Option.map_eq_map, Option.map_some, if_neg hm]
  · exact h

theorem answered_rollback (h : Answered s) : Answered s.rollback := by
  unfold System.rollback
  split
  · exact h
  · exact answered_still h rfl fun _ => id

theorem answered_resumeRollback (h : Answered s) (k : Nat) (b : Rollback) (answer : Answer) :
    Answered (s.resumeRollback k b answer) := by
  unfold System.resumeRollback
  dsimp only
  split
  all_goals exact h

theorem not_inProgress_restart (file : File) : ¬ (s.restart file).InProgress n := by
  rintro ⟨r, hr, hlive⟩
  have hmem : r ∈ s.runs.map Run.gone ++
      List.replicate (unused (loadState s.app.container file) - s.runs.length) { stage := .over } :=
    List.mem_of_getElem? hr
  rcases List.mem_append.mp hmem with hold | hnew
  · obtain ⟨q, _, rfl⟩ := List.mem_map.mp hold
    exact hlive.2.1 rfl
  · rw [List.eq_of_mem_replicate hnew] at hlive
    exact hlive.2.1 rfl

/-- **A step keeps every attempt answered just when the condition is met.** -/
theorem answered_step (o : Setup) (h : Answered s) (x : Happening) :
    Answered (s.happen o x) ↔ Ends s x := by
  cases x with
  | restart file =>
    -- after a restart no run is left, so what is not ended stays so
    show Answered (s.restart file) ↔ _
    have hfile : (s.restart file).app.attempts = file.attempts := loadState_attempts ..
    unfold Answered
    rw [hfile]
    constructor
    · intro hafter a hrec
      obtain ⟨n, rec⟩ := a
      exact (hafter n rec hrec).resolve_right (not_inProgress_restart file)
    · exact fun hends n rec hrec => .inl (hends (n, rec) hrec)
  | event e =>
    cases e with
    | deploy => exact iff_of_true (answered_deploy h) trivial
    | cancelApp => exact iff_of_true (answered_cancelApp h) trivial
    | cancelAttempt n => exact iff_of_true (answered_cancelAttempt h n) trivial
    | rollback => exact iff_of_true (answered_rollback h) trivial
    | resume n answer =>
      unfold System.happen System.step
      dsimp only
      cases hr : s.runs[n]? with
      | some r => exact answered_resume h hr answer
      | none =>
        -- there is no such run
        refine iff_of_true h ?_
        unfold Ends
        dsimp only
        rw [hr]
        trivial
    | resumeRollback k answer =>
      refine iff_of_true ?_ trivial
      unfold System.happen System.step
      dsimp only
      split
      · exact h
      · exact answered_resumeRollback h k _ answer

end Steps

/-! ## Runs -/

/-- **In every run, over any number of restarts, each attempt on record has ended or is
worked on at all times, if and only if every restart finds no attempt in flight and the
other steps record an end.** -/
theorem attempts_answered_iff (o : Setup) (xs : List Happening) :
    Always (System.happen o) Answered {} xs ↔ EachStep (System.happen o) Ends {} xs :=
  always_iff_eachStep (J := fun _ => True) trivial (fun _ _ _ => trivial)
    (nofun : ∀ n record, (n, record) ∈ [] → _) fun _ x _ h => answered_step o h x

/-- The runtime is restarted while the first deploy saves. -/
theorem attempt_left_behind :
    ¬ ∀ (o : Setup) (xs : List Happening), Always (System.happen o) Answered {} xs := by
  intro h
  have hrun := (h ⟨none, some "app:1", true⟩
    [.event .deploy, .restart (.saved ({} : System).deploy.app)]).2.2
  rcases hrun 0 ⟨⟨.running, none⟩, none⟩ (by decide) with hsettled | hprogress
  · exact hsettled.1 rfl
  · exact not_inProgress_restart _ hprogress

end CloudWai.Runtime.Attempts
