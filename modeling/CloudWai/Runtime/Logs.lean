import CloudWai.Base.Cursor
import CloudWai.Base.Machine
import CloudWai.Builder.Server

/-!
# Logs, page by page

The builder has a log for each job (`builder-server.mjs`), and the runtime one for each
application and one for each deploy attempt (`runtime-server.mjs`). A page of any of them
is what comes after the cursor, and with it comes the length of what there was, to be the
next cursor.

The builder's log never loses a line, but takes no more than `MAX_LOG_LINES`, and then one
that says so. The runtime's logs keep their last lines, and a page of the application's is
out of that log followed by what its container has printed of late. `pages_exact` says
of each when a reader gets what is recorded, each line once and in order.

In `Watch` there is one reader of an application's log and one of an attempt's. `appSince`
and `attemptSince` are read by nobody: what there was at the reader's first request, and
what has been produced since. `run` never rejects: a `docker logs` that fails, times out
or mixes its two streams is an answer like any other, and so it is an event's argument
what the call came to.
-/

namespace CloudWai.Runtime.Logs

open Base
open Builder (Build Options Payload)

/-! ## The builder's log -/

/-- A build's log and its reader. `produced` is all that was ever logged. -/
structure Job where
  build : Build
  produced : List String := []
  reader : Reader String := {}
deriving DecidableEq

/-- What happens to a build's log. -/
inductive JobEvent where
  | log (line : String)
  /-- `GET /builds/:id/logs`, with the cursor of the last answer. -/
  | read
deriving DecidableEq

namespace Job

/-- A build that has logged nothing yet. -/
def start (id : String) (payload : Payload) : Job := { build := { id := id, payload := payload } }

/-- A line, or a read of what there is. -/
def step (o : Options) (s : Job) : JobEvent → Job
  | .log line => { s with build := s.build.log o line, produced := s.produced ++ [line] }
  | .read => { s with reader := s.reader.read s.build.lines }

end Job

/-- What a log of so many lines records. -/
def recorded (o : Options) (lines : List String) : List String :=
  if lines.length ≤ o.maxLogLines then lines
  else lines.take o.maxLogLines ++ [s!"[cloud-wai] log truncated at {o.maxLogLines} lines"]

/-- The log is what it records of what was logged. -/
structure JobInv (o : Options) (s : Job) : Prop where
  lines : s.build.lines = recorded o s.produced
  truncated : s.build.logTruncated = decide (o.maxLogLines < s.produced.length)
  reader : s.reader.UpTo s.build.lines

section Builds

variable {o : Options} {s : Job} {e : JobEvent}

theorem recorded_of_le {lines : List String} (h : lines.length ≤ o.maxLogLines) :
    recorded o lines = lines := if_pos h

/-- One more line: it is recorded, or the line that says so, or nothing. -/
theorem jobInv_log (h : JobInv o s) (line : String) : JobInv o (s.step o (.log line)) := by
  obtain ⟨hlines, htruncated, hreader⟩ := h
  have hlength : (s.produced ++ [line]).length = s.produced.length + 1 := by simp
  have hlog : (s.build.log o line).lines = recorded o (s.produced ++ [line]) ∧
      (s.build.log o line).logTruncated = decide (o.maxLogLines < (s.produced ++ [line]).length) ∧
      ∃ suffix, (s.build.log o line).lines = s.build.lines ++ suffix := by
    unfold Build.log
    -- there is room for the line
    by_cases hroom : s.produced.length < o.maxLogLines
    · have hshort : s.build.lines = s.produced := hlines.trans (recorded_of_le (by omega))
      rw [hshort, if_neg (by omega), recorded_of_le (by omega)]
      refine ⟨rfl, ?_, [line], rfl⟩
      rw [htruncated, hlength]
      exact decide_eq_decide.mpr ⟨fun _ => by omega, fun _ => by omega⟩
    -- or the log is full, and the line is not recorded
    · have hfull : ¬ (s.produced ++ [line]).length ≤ o.maxLogLines := by omega
      have htake : (s.produced ++ [line]).take o.maxLogLines = s.produced.take o.maxLogLines :=
        List.take_append_of_le_length (by omega)
      have hrecorded : recorded o (s.produced ++ [line]) = s.produced.take o.maxLogLines ++
          [s!"[cloud-wai] log truncated at {o.maxLogLines} lines"] := by
        unfold recorded
        rw [if_neg hfull, htake]
      have hnow : decide (o.maxLogLines < (s.produced ++ [line]).length) = true :=
        decide_eq_true (by omega)
      by_cases hexact : s.produced.length = o.maxLogLines
      · -- the limit has just been reached
        have hshort : s.build.lines = s.produced := hlines.trans (recorded_of_le (by omega))
        have hnot : s.build.logTruncated = false := by
          rw [htruncated]
          exact decide_eq_false (by omega)
        rw [hshort, if_pos (by omega), hnot, hrecorded, hnow, ← hexact, List.take_length]
        exact ⟨rfl, rfl, _, rfl⟩
      -- the line that says so is there already
      · have hlong : s.build.lines = s.produced.take o.maxLogLines ++
            [s!"[cloud-wai] log truncated at {o.maxLogLines} lines"] := by
          rw [hlines]
          unfold recorded
          rw [if_neg (by omega)]
        have htrue : s.build.logTruncated = true := by
          rw [htruncated]
          exact decide_eq_true (by omega)
        have hmany : o.maxLogLines ≤ s.build.lines.length := by
          rw [hlong, List.length_append, List.length_take]
          omega
        rw [if_pos hmany, if_pos htrue, hrecorded, hnow]
        exact ⟨hlong, htrue, [], (List.append_nil _).symm⟩
  obtain ⟨hl, ht, suffix, hs⟩ := hlog
  refine ⟨hl, ht, ?_⟩
  show s.reader.UpTo (s.build.log o line).lines
  rw [hs]
  exact hreader.append suffix

/-- **Step lemma**, for a build. -/
theorem jobInv_step (h : JobInv o s) : JobInv o (s.step o e) := by
  cases e with
  | log line => exact jobInv_log h line
  | read => exact ⟨h.lines, h.truncated, Reader.upTo_read h.reader List.prefix_rfl h.reader.2⟩

theorem jobInv_start (o : Options) (id : String) (payload : Payload) :
    JobInv o (Job.start id payload) :=
  ⟨(recorded_of_le (Nat.zero_le _)).symm, rfl, Reader.upTo_start⟩

/-- The pages of a build's log are what it records. -/
theorem build_pages (o : Options) (id : String) (payload : Payload) (es : List JobEvent) :
    EachStep (Job.step o) (fun s e => e = .read →
      (s.step o e).reader.pages = recorded o s.produced) (Job.start id payload) es := by
  refine inv_eachStep (jobInv_start o id payload) (fun s e h => jobInv_step h) ?_
  intro s e h he
  subst he
  exact (Reader.pages_read h.reader).trans h.lines

end Builds

/-! ## The runtime's logs -/

/-- How many lines a log keeps. -/
def maxLines : Nat := 2000

/-- How many attempts an application keeps. -/
def maxAttempts : Nat := 50

/-- What an application knows of its log, and its container. The identifiers of attempts
are drawn by `randomUUID`: they are counted here. -/
structure Journal where
  logs : List String := []
  deploys : Nat := 0
  deployAttemptId : Option Nat := none
  attempts : List Nat := []
  attemptLogs : Nat → Option (List String) := fun _ => none
  /-- `app.container` -/
  container : Bool := false
  /-- What the container under the application's name has printed. -/
  printed : List String := []

namespace Journal

/-- `log` -/
def log (j : Journal) (line : String) : Journal :=
  { j with
    logs := push maxLines j.logs line
    attemptLogs := match j.deployAttemptId with
      | none => j.attemptLogs
      | some id => fun i =>
        if i = id then some (push maxLines ((j.attemptLogs id).getD []) line) else j.attemptLogs i }

/-- `deploy`, up to its first await. -/
def deploy (j : Journal) : Journal :=
  { j with
    deployAttemptId := some j.deploys
    attempts := j.attempts ++ [j.deploys]
    deploys := j.deploys + 1 }

/-- The attempts that are there when one has settled. -/
def settled (j : Journal) (id : Nat) : List Nat :=
  if id ∈ j.attempts then j.attempts else j.attempts ++ [id]

/-- The oldest of them. -/
def stale (j : Journal) (id : Nat) : List Nat :=
  (j.settled id).take ((j.settled id).length - maxAttempts)

/-- `deploy`, when the attempt has settled. -/
def settle (j : Journal) (id : Nat) : Journal :=
  { j with
    attempts := (j.settled id).filter (· ∉ j.stale id)
    attemptLogs := fun i => if i ∈ j.stale id then none else j.attemptLogs i }

/-- The last lines the container has printed, with `LOG_TAIL`. -/
def containerLogs (tail : Nat) (j : Journal) : List String :=
  if j.container then (j.printed.drop (j.printed.length - tail)).filter (· ≠ "") else []

/-- `containerLogs`, of what `docker logs` came to: the last lines, or other ones. -/
def liveLogs (tail : Nat) (j : Journal) : Option (List String) → List String
  | none => j.containerLogs tail
  | some out => if j.container then out.filter (· ≠ "") else []

/-- The log of an attempt. -/
def attemptLog (j : Journal) (id : Nat) : List String := (j.attemptLogs id).getD []

end Journal

/-- An application, a reader of its log, and one of the log of attempt `a`. -/
structure Watch where
  journal : Journal := {}
  app : Reader String := {}
  /-- `docker logs` has answered, for a page. -/
  live : Option (List String) := none
  appSince : Option (List String) := none
  /-- How much of it there was when the page was asked for. -/
  asked : Nat := 0
  attempt : Reader String := {}
  attemptSince : Option (List String) := none

/-- What happens to an application's logs. -/
inductive Event where
  | log (line : String)
  | deploy
  /-- The attempt has settled. -/
  | settle (id : Nat)
  /-- `docker run` -/
  | run
  /-- `app.container = result.container` -/
  | name
  /-- The container prints a line. -/
  | print (line : String)
  /-- `GET /apps/:id/logs`: `docker logs` answers, with the last lines or with `out`. -/
  | ask (out : Option (List String))
  /-- The page. -/
  | answer
  /-- `GET /deployments/:attemptId/logs` -/
  | readAttempt
deriving DecidableEq

/-- The runtime's logs, and beside them what the reader should have been given. -/
def Watch.step (tail a : Nat) (s : Watch) : Event → Watch
  | .log line =>
    { s with
      journal := s.journal.log line
      appSince := s.appSince.map (· ++ [line])
      attemptSince :=
        if s.journal.deployAttemptId = some a then s.attemptSince.map (· ++ [line])
        else s.attemptSince }
  | .deploy => { s with journal := s.journal.deploy }
  | .settle id => { s with journal := s.journal.settle id }
  | .run => { s with journal := { s.journal with printed := [] } }
  | .name => { s with journal := { s.journal with container := true } }
  | .print line =>
    { s with
      journal := { s.journal with printed := s.journal.printed ++ [line] }
      appSince := s.appSince.map (· ++ [line].filter (· ≠ "")) }
  | .ask out =>
    match s.live with
    | some _ => s
    | none =>
      let since := s.appSince.getD (s.journal.logs ++ s.journal.containerLogs tail)
      { s with
        live := some (s.journal.liveLogs tail out), appSince := some since, asked := since.length }
  | .answer =>
    match s.live with
    | none => s
    | some live => { s with live := none, app := s.app.read (s.journal.logs ++ live) }
  | .readAttempt =>
    if a ∈ s.journal.attempts then
      let all := s.journal.attemptLog a
      { s with attempt := s.attempt.read all, attemptSince := some (s.attemptSince.getD all) }
    else s

/-! ## The attempt's log -/

/-- The event is a page of the attempt's log. -/
def PageOf (a : Nat) (s : Watch) (e : Event) : Prop := e = .readAttempt ∧ a ∈ s.journal.attempts

/-- The reader's pages are all there was at its first request and has been produced since. -/
def AttemptRead (s : Watch) : Prop := ∀ l ∈ s.attemptSince, s.attempt.pages = l

/-- The attempt is not one of those that are forgotten while it is read. -/
def KeepsAttempt (a : Nat) (s : Watch) : Event → Prop
  | .settle id => s.attemptSince ≠ none → a ∉ s.journal.stale id
  | _ => True

instance (a : Nat) (s : Watch) (e : Event) : Decidable (KeepsAttempt a s e) := by
  unfold KeepsAttempt
  split <;> infer_instance

instance (a : Nat) (s : Watch) (e : Event) : Decidable (PageOf a s e) :=
  inferInstanceAs (Decidable (_ ∧ _))

/-- As long as no line had to be dropped, the reader sees the log as it has been. -/
structure AttemptInv (a : Nat) (s : Watch) : Prop where
  small : (s.journal.attemptLog a).length ≤ maxLines
  unread : s.attemptSince = none → s.attempt = {}
  cursor : s.attempt.pages.length = s.attempt.cursor.getD 0
  grown : s.attemptSince ≠ none → s.attempt.cursor.getD 0 ≤ (s.journal.attemptLog a).length
  whole : ∀ l ∈ s.attemptSince, l.length ≤ maxLines →
    s.journal.attemptLog a = l ∧ s.attempt.UpTo l

section Attempts

variable {tail a : Nat} {s : Watch} {e : Event}

theorem attemptLog_log (j : Journal) (line : String) : (j.log line).attemptLog a =
    if j.deployAttemptId = some a then push maxLines (j.attemptLog a) line else j.attemptLog a := by
  unfold Journal.log Journal.attemptLog
  cases j.deployAttemptId with
  | none => rfl
  | some id =>
    dsimp only
    by_cases ha : a = id
    · rw [if_pos ha, if_pos (by rw [ha]), ha]
      rfl
    · rw [if_neg ha, if_neg fun h => ha (Option.some.inj h).symm]

theorem attemptLog_settle (j : Journal) (id : Nat) : (j.settle id).attemptLog a =
    if a ∈ j.stale id then [] else j.attemptLog a := by
  unfold Journal.settle Journal.attemptLog
  dsimp only
  split <;> rfl

/-- A line of the log. -/
theorem attemptInv_log (h : AttemptInv a s) (line : String) :
    AttemptInv a (s.step tail a (.log line)) := by
  have hlog := attemptLog_log (a := a) s.journal line
  -- the line is the attempt's own, if that is the latest
  by_cases hcurrent : s.journal.deployAttemptId = some a
  · rw [if_pos hcurrent] at hlog
    have hsince : (s.step tail a (.log line)).attemptSince = s.attemptSince.map (· ++ [line]) :=
      if_pos hcurrent
    refine ⟨?_, ?_, h.cursor, ?_, ?_⟩
    · show ((s.journal.log line).attemptLog a).length ≤ _
      rw [hlog]
      exact length_push_le
    · rw [hsince, Option.map_eq_none_iff]
      exact h.unread
    · rw [hsince, ne_eq, Option.map_eq_none_iff]
      intro hread
      show _ ≤ ((s.journal.log line).attemptLog a).length
      rw [hlog]
      exact Nat.le_trans (h.grown hread) (le_length_push h.small)
    -- the first lines are not dropped while they fit
    · intro l hl hfits
      rw [hsince] at hl
      obtain ⟨before, hbefore, rfl⟩ := Option.map_eq_some_iff.mp hl
      rw [List.length_append, List.length_singleton] at hfits
      obtain ⟨hwhole, hpages⟩ := h.whole before hbefore (by omega)
      refine ⟨?_, hpages.append [line]⟩
      show (s.journal.log line).attemptLog a = _
      rw [hlog, hwhole]
      exact push_of_lt (by omega)
  -- or it is another's, and nothing changes
  · rw [if_neg hcurrent] at hlog
    have hsince : (s.step tail a (.log line)).attemptSince = s.attemptSince := if_neg hcurrent
    refine ⟨?_, ?_, h.cursor, ?_, ?_⟩
    · show ((s.journal.log line).attemptLog a).length ≤ _
      rw [hlog]
      exact h.small
    · rw [hsince]
      exact h.unread
    · rw [hsince]
      show _ → _ ≤ ((s.journal.log line).attemptLog a).length
      rw [hlog]
      exact h.grown
    · rw [hsince]
      show ∀ l ∈ s.attemptSince, l.length ≤ maxLines → (s.journal.log line).attemptLog a = l ∧ _
      rw [hlog]
      exact h.whole

/-- A page is read. -/
theorem attemptInv_read (h : AttemptInv a s) : AttemptInv a (s.step tail a .readAttempt) := by
  unfold Watch.step
  dsimp only
  split
  · cases hsince : s.attemptSince with
    | none =>
      -- the first page
      have hstart : s.attempt = {} := h.unread hsince
      have hupTo : (s.attempt.read (s.journal.attemptLog a)).UpTo (s.journal.attemptLog a) :=
        Reader.upTo_read (by rw [hstart]; exact Reader.upTo_start) List.prefix_rfl
          (by rw [hstart]; exact Nat.zero_le _)
      refine ⟨h.small, nofun, hupTo.length, fun _ => hupTo.2, ?_⟩
      intro l hl _
      obtain rfl := Option.some.inj hl
      exact ⟨rfl, hupTo⟩
    | some l =>
      have hgrown := h.grown (by rw [hsince]; exact nofun)
      refine ⟨h.small, nofun, Reader.length_read h.cursor hgrown, fun _ => Nat.le_refl _, ?_⟩
      intro l' hl' hfits
      obtain rfl : l = l' := Option.some.inj hl'
      obtain ⟨hwhole, hpages⟩ := h.whole l hsince hfits
      exact ⟨hwhole, Reader.upTo_read hpages ⟨[], by rw [hwhole, List.append_nil]⟩ hgrown⟩
  · exact h

/-- **Step lemma**, for an attempt. -/
theorem attemptInv_step (h : AttemptInv a s) (hk : KeepsAttempt a s e) :
    AttemptInv a (s.step tail a e) := by
  cases e with
  | log line => exact attemptInv_log h line
  | settle id =>
    have hlog := attemptLog_settle (a := a) s.journal id
    by_cases hstale : a ∈ s.journal.stale id
    · -- nobody has read it
      have hnone : s.attemptSince = none := by
        by_contra hread
        exact hk hread hstale
      rw [if_pos hstale] at hlog
      refine ⟨?_, h.unread, h.cursor, fun hread => absurd hnone hread, ?_⟩
      · show ((s.journal.settle id).attemptLog a).length ≤ _
        rw [hlog]
        exact Nat.zero_le _
      · intro l hl
        rw [show s.attemptSince = some l from hl] at hnone
        cases hnone
    -- the attempt keeps its record, and with it the log
    · rw [if_neg hstale] at hlog
      refine ⟨?_, h.unread, h.cursor, ?_, ?_⟩
      · show ((s.journal.settle id).attemptLog a).length ≤ _
        rw [hlog]
        exact h.small
      · show _ → _ ≤ ((s.journal.settle id).attemptLog a).length
        rw [hlog]
        exact h.grown
      · show ∀ l ∈ s.attemptSince, l.length ≤ maxLines → (s.journal.settle id).attemptLog a = l ∧ _
        rw [hlog]
        exact h.whole
  | deploy | run | name | print line => exact ⟨h.small, h.unread, h.cursor, h.grown, h.whole⟩
  | ask out =>
    unfold Watch.step
    cases s.live with
    | some live => exact h
    | none => exact ⟨h.small, h.unread, h.cursor, h.grown, h.whole⟩
  | answer =>
    unfold Watch.step
    cases s.live with
    | some live => exact ⟨h.small, h.unread, h.cursor, h.grown, h.whole⟩
    | none => exact h
  | readAttempt => exact attemptInv_read h

theorem attemptInv_start : AttemptInv a {} :=
  ⟨Nat.zero_le _, fun _ => rfl, rfl, fun h => absurd rfl h, nofun⟩

/-- A page completes what was to be read exactly if no more lines were to be read than the
log keeps. -/
theorem attempt_page_iff (h : AttemptInv a s) (hpage : PageOf a s e) :
    AttemptRead (s.step tail a e) ↔ ∀ l ∈ s.attemptSince, l.length ≤ maxLines := by
  obtain ⟨rfl, hmem⟩ := hpage
  have hstep : s.step tail a .readAttempt =
      { s with
        attempt := s.attempt.read (s.journal.attemptLog a)
        attemptSince := some (s.attemptSince.getD (s.journal.attemptLog a)) } := if_pos hmem
  rw [hstep]
  cases hsince : s.attemptSince with
  -- the first page: there is nothing that it could have missed
  | none =>
    refine iff_of_true ?_ nofun
    intro l hl
    obtain rfl := Option.some.inj hl
    show (s.attempt.read _).pages = _
    rw [h.unread hsince]
    exact Reader.pages_read Reader.upTo_start
  -- a further one, which ends where the log ends now
  | some l =>
    have hgrown := h.grown (by rw [hsince]; exact nofun)
    constructor
    · intro hread l' hl'
      -- what was read is as long as the log, and that has no more lines than it keeps
      obtain rfl : l = l' := Option.some.inj hl'
      have hpages : (s.attempt.read (s.journal.attemptLog a)).pages = l := hread l rfl
      rw [← hpages, Reader.length_read h.cursor hgrown]
      exact h.small
    · intro hfits l' hl'
      obtain rfl : l = l' := Option.some.inj hl'
      obtain ⟨hwhole, hpages⟩ := h.whole l hsince (hfits l rfl)
      show (s.attempt.read _).pages = l
      rw [hwhole]
      exact Reader.pages_read hpages

end Attempts

/-- What an attempt's pages are, in a run in which it is not forgotten. -/
theorem attempt_pages (tail a : Nat) (es : List Event)
    (hkeeps : EachStep (Watch.step tail a) (KeepsAttempt a) {} es) :
    EachStep (Watch.step tail a) (fun s e => PageOf a s e → AttemptRead (s.step tail a e)) {} es ↔
      EachStep (Watch.step tail a) (fun s e => PageOf a s e →
        ∀ l ∈ s.attemptSince, l.length ≤ maxLines) {} es := by
  have hiff : EachStep (Watch.step tail a)
        (fun s e => KeepsAttempt a s e ∧ (PageOf a s e → AttemptRead (s.step tail a e))) {} es ↔
      EachStep (Watch.step tail a) (fun s e => KeepsAttempt a s e ∧
        (PageOf a s e → ∀ l ∈ s.attemptSince, l.length ≤ maxLines)) {} es := by
    refine eachStep_iff attemptInv_start (fun s e hs hc => attemptInv_step hs hc.1) ?_
    intro s e hs
    exact and_congr_right fun _ => forall_congr' fun hpage => attempt_page_iff hs hpage
  rw [eachStep_and, eachStep_and] at hiff
  rwa [and_iff_right hkeeps, and_iff_right hkeeps] at hiff

/-! ## The application's log -/

/-- The page that has been answered is made of lines of the log, each once and in order,
and none is missing that was there when it was asked for. -/
def AppRead (s : Watch) : Prop := ∀ l ∈ s.appSince, s.app.pages <+: l ∧ s.asked ≤ s.app.pages.length

/-- What the container has printed that can be seen. -/
def Journal.visible (j : Journal) : List String := j.printed.filter (· ≠ "")

/-- `docker logs` is not asked, or answers with the last lines. -/
def Answered (s : Watch) : Event → Prop
  | .ask out => out = none ∨ s.journal.container = false
  | _ => True

/-- While it is read, nothing is logged when the log is full or the container has printed
something, and the container is one that `docker logs` is asked for, prints no more than is
shown of it, and is not replaced once it has printed something. -/
def Quiet (tail : Nat) (s : Watch) (e : Event) : Prop :=
  s.appSince ≠ none → match e with
    | .log _ => s.journal.logs.length < maxLines ∧ s.journal.visible = []
    | .run => s.journal.visible = []
    | .name => s.journal.container = true ∨ s.journal.visible = []
    | .print _ => s.journal.container = true ∧ s.journal.printed.length < tail
    | _ => True

/-- Nothing comes between the reader and the log's end. -/
structure Undisturbed (tail : Nat) (s : Watch) (e : Event) : Prop where
  answered : Answered s e
  quiet : Quiet tail s e

instance (s : Watch) (e : Event) : Decidable (Answered s e) := by
  unfold Answered
  split <;> infer_instance

instance (tail : Nat) (s : Watch) (e : Event) : Decidable (Quiet tail s e) := by
  unfold Quiet
  cases e <;> infer_instance

instance (tail : Nat) (s : Watch) (e : Event) : Decidable (Undisturbed tail s e) :=
  decidable_of_iff (Answered s e ∧ Quiet tail s e) ⟨fun h => ⟨h.1, h.2⟩, fun h => ⟨h.1, h.2⟩⟩

/-- While it is read, the log grows at its end. -/
structure AppInv (tail : Nat) (s : Watch) : Prop where
  unread : s.appSince = none → s.app = {} ∧ s.live = none
  whole : ∀ l ∈ s.appSince, l = s.journal.logs ++ s.journal.containerLogs tail
  reader : ∀ l ∈ s.appSince, s.app.UpTo l
  live : ∀ live ∈ s.live, live <+: s.journal.containerLogs tail ∧
    s.app.cursor.getD 0 ≤ s.journal.logs.length + live.length ∧
    s.asked ≤ s.journal.logs.length + live.length

section App

variable {tail a : Nat} {s : Watch} {e : Event}

theorem liveLogs_of_answered {j : Journal} {out : Option (List String)}
    (h : out = none ∨ j.container = false) : j.liveLogs tail out = j.containerLogs tail := by
  unfold Journal.liveLogs
  cases out with
  | none => rfl
  | some out =>
    rcases h with h | h
    · cases h
    · simp [Journal.containerLogs, h]

theorem containerLogs_of_visible {j : Journal} (h : j.visible = []) : j.containerLogs tail = [] := by
  unfold Journal.containerLogs
  split
  · rw [List.filter_eq_nil_iff]
    intro line hline
    exact List.filter_eq_nil_iff.mp h line (List.mem_of_mem_drop hline)
  · rfl

/-- An event that does not touch the log. -/
theorem AppInv.same {s' : Watch} (h : AppInv tail s) (happ : s'.app = s.app)
    (hsince : s'.appSince = s.appSince) (hlive : s'.live = s.live) (hasked : s'.asked = s.asked)
    (hlogs : s'.journal.logs = s.journal.logs)
    (hcontainer : s'.journal.containerLogs tail = s.journal.containerLogs tail) :
    AppInv tail s' := by
  refine ⟨?_, ?_, ?_, ?_⟩
  · rw [happ, hsince, hlive]
    exact h.unread
  · rw [hsince, hlogs, hcontainer]
    exact h.whole
  · rw [happ, hsince]
    exact h.reader
  · rw [happ, hlive, hasked, hlogs, hcontainer]
    exact h.live

/-- An event before anything is read. -/
theorem AppInv.before {s' : Watch} (h : AppInv tail s) (hread : s.appSince = none)
    (happ : s'.app = s.app) (hlive : s'.live = s.live) (hsince : s'.appSince = none) :
    AppInv tail s' := by
  obtain ⟨happ₀, hlive₀⟩ := h.unread hread
  have hidle := hlive.trans hlive₀
  refine ⟨fun _ => ⟨happ.trans happ₀, hidle⟩, ?_, ?_, ?_⟩
  · rw [hsince]
    exact nofun
  · rw [hsince]
    exact nofun
  · rw [hidle]
    exact nofun

/-- A line of the log comes at the end, while there is room and the container has shown none. -/
theorem appInv_log (h : AppInv tail s) (line : String) (hc : Quiet tail s (.log line)) :
    AppInv tail (s.step tail a (.log line)) := by
  by_cases hread : s.appSince = none
  · refine h.before hread rfl rfl ?_
    show s.appSince.map _ = none
    rw [hread]
    rfl
  · obtain ⟨hroom, hvisible⟩ := hc hread
    have hcontainer : s.journal.containerLogs tail = [] := containerLogs_of_visible hvisible
    have hcontainer' : (s.journal.log line).containerLogs tail = [] := hcontainer
    have hlogs : (s.journal.log line).logs = s.journal.logs ++ [line] := push_of_lt hroom
    refine ⟨fun hnone => absurd (Option.map_eq_none_iff.mp hnone) hread, ?_, ?_, ?_⟩
    · intro l hl
      obtain ⟨before, hbefore, rfl⟩ := Option.map_eq_some_iff.mp hl
      show _ = (s.journal.log line).logs ++ (s.journal.log line).containerLogs tail
      rw [h.whole before hbefore, hcontainer, hcontainer', hlogs, List.append_nil, List.append_nil]
    · intro l hl
      obtain ⟨before, hbefore, rfl⟩ := Option.map_eq_some_iff.mp hl
      exact (h.reader before hbefore).append [line]
    · intro live hlive
      obtain ⟨hfront, hcursor, hasked⟩ := h.live live hlive
      show live <+: (s.journal.log line).containerLogs tail ∧
        s.app.cursor.getD 0 ≤ (s.journal.log line).logs.length + live.length ∧
        s.asked ≤ (s.journal.log line).logs.length + live.length
      rw [hcontainer] at hfront
      rw [hcontainer', hlogs, List.length_append]
      exact ⟨hfront, by omega, by omega⟩

/-- And one that the container prints comes at the end. -/
theorem appInv_print (h : AppInv tail s) (line : String) (hc : Quiet tail s (.print line)) :
    AppInv tail (s.step tail a (.print line)) := by
  by_cases hread : s.appSince = none
  · refine h.before hread rfl rfl ?_
    show s.appSince.map _ = none
    rw [hread]
    rfl
  · obtain ⟨hnamed, hroom⟩ := hc hread
    -- nothing has been pushed out of the tail
    have hcontainer : (s.step tail a (.print line)).journal.containerLogs tail =
        s.journal.containerLogs tail ++ [line].filter (· ≠ "") := by
      show (if s.journal.container then _ else _) = (if s.journal.container then _ else _) ++ _
      rw [if_pos hnamed, if_pos hnamed, ← List.filter_append]
      have hnow : (s.journal.printed ++ [line]).length - tail = 0 := by
        rw [List.length_append, List.length_singleton]
        omega
      show ((s.journal.printed ++ [line]).drop ((s.journal.printed ++ [line]).length - tail)).filter _ = _
      rw [hnow, show s.journal.printed.length - tail = 0 by omega, List.drop_zero, List.drop_zero]
    refine ⟨fun hnone => absurd (Option.map_eq_none_iff.mp hnone) hread, ?_, ?_, ?_⟩
    · intro l hl
      obtain ⟨before, hbefore, rfl⟩ := Option.map_eq_some_iff.mp hl
      rw [hcontainer, h.whole before hbefore, List.append_assoc]
      rfl
    · intro l hl
      obtain ⟨before, hbefore, rfl⟩ := Option.map_eq_some_iff.mp hl
      exact (h.reader before hbefore).append _
    · intro live hlive
      obtain ⟨hfront, hbounds⟩ := h.live live hlive
      refine ⟨?_, hbounds⟩
      rw [hcontainer]
      exact hfront.trans (List.prefix_append _ _)

/-- **Step lemma**, for an application. -/
theorem appInv_step (h : AppInv tail s) (hc : Undisturbed tail s e) :
    AppInv tail (s.step tail a e) := by
  cases e with
  | log line => exact appInv_log h line hc.quiet
  | print line => exact appInv_print h line hc.quiet
  | deploy | settle id => exact h.same rfl rfl rfl rfl rfl rfl
  | run =>
    -- before the reader's first request nothing has to be kept
    by_cases hread : s.appSince = none
    · exact h.before hread rfl rfl hread
    · refine h.same rfl rfl rfl rfl rfl ?_
      rw [containerLogs_of_visible (hc.quiet hread)]
      exact containerLogs_of_visible rfl
  | name =>
    by_cases hread : s.appSince = none
    · exact h.before hread rfl rfl hread
    · refine h.same rfl rfl rfl rfl rfl ?_
      -- the container is named already, or it can be seen under its name
      rcases hc.quiet hread with hnamed | hvisible
      · show (if true then _ else _) = (if s.journal.container then _ else _)
        rw [hnamed]
        rfl
      · rw [containerLogs_of_visible hvisible]
        exact containerLogs_of_visible hvisible
  | ask out =>
    unfold Watch.step
    cases hlive : s.live with
    | some live => exact h
    | none =>
      dsimp only
      rw [liveLogs_of_answered hc.answered]
      -- the first page begins where the log begins
      cases hread : s.appSince with
      | none =>
        obtain ⟨happ, -⟩ := h.unread hread
        refine ⟨nofun, ?_, ?_, ?_⟩
        · intro l hl
          exact (Option.some.inj hl).symm
        · intro l _
          show s.app.UpTo l
          rw [happ]
          exact Reader.upTo_start
        · intro live hl
          obtain rfl := Option.some.inj hl
          refine ⟨List.prefix_rfl, ?_, ?_⟩
          · show s.app.cursor.getD 0 ≤ _
            rw [happ]
            exact Nat.zero_le _
          · exact Nat.le_of_eq List.length_append
      -- a further page: what was to be read so far is what is there
      | some l =>
        have hwhole := h.whole l hread
        have hreader := h.reader l hread
        have hlength : l.length = s.journal.logs.length + (s.journal.containerLogs tail).length := by
          rw [hwhole, List.length_append]
        refine ⟨nofun, ?_, ?_, ?_⟩
        · intro l' hl'
          obtain rfl : l = l' := Option.some.inj hl'
          exact hwhole
        · intro l' hl'
          obtain rfl : l = l' := Option.some.inj hl'
          exact hreader
        · intro live hl
          obtain rfl := Option.some.inj hl
          refine ⟨List.prefix_rfl, ?_, ?_⟩
          · rw [← hlength]
            exact hreader.2
          · rw [← hlength]
            exact Nat.le_refl _
  | answer =>
    unfold Watch.step
    cases hlive : s.live with
    | none => exact h
    | some live =>
      dsimp only
      -- the page is of the text at the request, and that is what there is still
      obtain ⟨⟨rest, hrest⟩, hcursor, -⟩ := h.live live hlive
      refine ⟨?_, h.whole, ?_, nofun⟩
      · intro hread
        rw [(h.unread hread).2] at hlive
        cases hlive
      · intro l hl
        refine Reader.upTo_read (h.reader l hl) ⟨rest, ?_⟩ ?_
        · rw [h.whole l hl, List.append_assoc, hrest]
        · rw [List.length_append]
          exact hcursor
  | readAttempt =>
    unfold Watch.step
    dsimp only
    split
    · exact h.same rfl rfl rfl rfl rfl rfl
    · exact h

theorem appInv_start : AppInv tail {} := ⟨fun _ => ⟨rfl, rfl⟩, nofun, nofun, nofun⟩

/-- A page of an undisturbed log. -/
theorem appRead_step (h : AppInv tail s) (hc : Undisturbed tail s e)
    (hpage : e = .answer ∧ s.live ≠ none) : AppRead (s.step tail a e) := by
  obtain ⟨rfl, hlive⟩ := hpage
  have hnext : AppInv tail (s.step tail a .answer) := appInv_step h hc
  intro l hl
  obtain ⟨hpages, hle⟩ := hnext.reader l hl
  refine ⟨?_, ?_⟩
  · rw [hpages]
    exact List.take_prefix _ _
  · rw [(hnext.reader l hl).length]
    obtain ⟨live, hsome⟩ := Option.ne_none_iff_exists'.mp hlive
    have hstep : s.step tail a .answer =
        { s with live := none, app := s.app.read (s.journal.logs ++ live) } := by
      unfold Watch.step
      rw [hsome]
    rw [hstep]
    show s.asked ≤ (s.journal.logs ++ live).length
    rw [List.length_append]
    exact (h.live live hsome).2.2

end App

/-- **Pages of a log.** A reader who passes on each cursor gets, line by line and in order,
what the builder's log records of all that was logged; what an attempt's log held at the
first request and all that has been logged since, exactly if these are no more lines than it
keeps; and what an application's log and its container had by the first request and have
produced since, if nothing disturbs it. -/
theorem pages_exact :
    (∀ (o : Options) (id : String) (payload : Payload) (es : List JobEvent),
      EachStep (Job.step o) (fun s e => e = .read →
        (s.step o e).reader.pages = recorded o s.produced) (Job.start id payload) es) ∧
    (∀ (tail a : Nat) (es : List Event), EachStep (Watch.step tail a) (KeepsAttempt a) {} es →
      (EachStep (Watch.step tail a) (fun s e => PageOf a s e → AttemptRead (s.step tail a e)) {} es ↔
        EachStep (Watch.step tail a) (fun s e => PageOf a s e →
          ∀ l ∈ s.attemptSince, l.length ≤ maxLines) {} es)) ∧
    ∀ (tail a : Nat) (es : List Event), EachStep (Watch.step tail a) (Undisturbed tail) {} es →
      EachStep (Watch.step tail a) (fun s e => e = .answer ∧ s.live ≠ none →
        AppRead (s.step tail a e)) {} es :=
  ⟨build_pages, attempt_pages, fun _ _ _ h =>
    eachStep_of_inv appInv_start (fun _ _ hs hc => appInv_step hs hc)
      (fun _ _ hs hc => appRead_step hs hc) h⟩

/-- A deploy that is watched: its log is read while it builds, and the application's until
its container has printed something. -/
def watched : List Event :=
  [.deploy, .log "building", .ask none, .answer, .readAttempt, .log "built", .readAttempt, .run,
    .name, .log "deployed", .ask none, .print "listening", .answer, .ask none, .answer]

theorem pages_exact_watched :
    EachStep (Watch.step 500 0) (fun s e => PageOf 0 s e → AttemptRead (s.step 500 0 e)) {} watched ∧
      EachStep (Watch.step 500 0) (fun s e => e = .answer ∧ s.live ≠ none →
        AppRead (s.step 500 0 e)) {} watched :=
  ⟨(pages_exact.2.1 500 0 watched (by decide +kernel)).mpr (by decide +kernel),
    pages_exact.2.2 500 0 watched (by decide +kernel)⟩

/-- The least limit that the builder can be given. -/
def shortLog : Options := ⟨1, "cloudwai", 100, fun _ => none, Nat.one_pos⟩

/-- The application logs a line when its container has printed one that was read. -/
def disturbed : List Event :=
  [.deploy, .run, .name, .ask none, .answer, .print "listening", .ask none, .answer,
    .log "deployed", .ask none]

/-- The last of so many lines is not recorded; the container's line is read twice, and the
application's never. -/
theorem line_lost :
    ¬ EachStep (Job.step shortLog) (fun s e => e = .read →
        (s.step shortLog e).reader.pages = s.produced)
        (Job.start "a" ⟨.image "nginx:1.27", none, none, []⟩)
        (List.replicate 101 (.log "line") ++ [.read]) ∧
      ¬ EachStep (Watch.step 500 0) (fun s e => e = .answer ∧ s.live ≠ none →
        AppRead (s.step 500 0 e)) {} (disturbed ++ [.answer]) := by
  constructor
  · intro h
    exact absurd (h.at rfl) (by decide +kernel)
  · intro h
    have hpages := (h.at ⟨rfl, by decide +kernel⟩ ["listening", "deployed"] (by decide +kernel)).1
    exact absurd hpages (by decide +kernel)

end CloudWai.Runtime.Logs
