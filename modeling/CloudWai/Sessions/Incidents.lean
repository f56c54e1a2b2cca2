import CloudWai.Authorization
import CloudWai.Base.Machine
import CloudWai.Base.RowSecurity
import CloudWai.Grammar

/-!
# Security incidents

The table of migration 0019 and everything that writes to it: the detectors, which
open an incident with the service role, the API, which moves one on with the service
role, and any admin's browser, which may update the columns it is granted with its own
token. All of them go through `security_incidents_guard`.

`Follows` is what the guard lets become of one row. `never_rewritten` is that of any
two states of a run; `closed_by` is that nothing is closed unless it was triaged
before, by the API or by an admin of the organization.

Mirrors `supabase/migrations/0019_security_incidents.sql` and `transitionSecurityIncident`
of `apps/api/src/procedures/security.ts`. The keys into other tables are left out: an
organization that is deleted takes its incidents along.
-/

namespace CloudWai.Sessions

open Base

/-! ## The table -/

/-- An incident's `state`. -/
inductive IncidentState where
  | open_ | triaged | resolved | falsePositive
deriving DecidableEq, Repr

/-- `state in ('resolved', 'false_positive')` -/
def IncidentState.closed : IncidentState → Bool
  | .resolved | .falsePositive => true
  | .open_ | .triaged => false

/-- How bad it is. -/
inductive IncidentSeverity where
  | low | medium | high | critical
deriving DecidableEq, Repr

/-- What was observed: the columns no update may change. -/
structure Observation where
  organizationId : OrganizationId
  kind : String
  severity : IncidentSeverity
  summary : String
  openedAt : Instant
deriving DecidableEq, Repr

/-- The columns a client is granted to update. -/
structure Triage where
  state : IncidentState
  resolution : Option String
  closedAt : Option Instant
  triagedBy : Option UserId
deriving DecidableEq, Repr

/-- A row of `security_incidents`. -/
structure IncidentRow extends Observation, Triage where
  id : Nat
  createdAt : Instant
deriving DecidableEq, Repr

/-- `length(text) between 1 and bound` -/
def lengthWithin (bound : Nat) (text : String) : Bool :=
  decide (1 ≤ text.length ∧ text.length ≤ bound)

/-- The checks of a row; the last is `security_incidents_close_complete`. -/
def IncidentRow.checks (r : IncidentRow) : Bool :=
  lengthWithin 80 r.kind && lengthWithin 500 r.summary && r.resolution.all (lengthWithin 500) &&
    if r.state.closed then r.closedAt.isSome && r.resolution.isSome
    else r.closedAt.isNone && r.resolution.isNone

/-- The time of a close is the server's, and what is not closed has no resolution. -/
def IncidentRow.stamped (now : Instant) (new : IncidentRow) : IncidentRow :=
  if new.state.closed then { new with closedAt := some now }
  else { new with closedAt := none, resolution := none }

/-- `security_incidents_guard`: the row an update is to write, or an error. -/
def securityIncidentsGuard (now : Instant) (old new : IncidentRow) : Option IncidentRow :=
  if new.toObservation ≠ old.toObservation then none
  else if old.state.closed ∧ new.state ≠ old.state then none
  else if old.state = .open_ ∧ new.state.closed then none
  else some (new.stamped now)

/-- What a statement depends on besides the table: the clock, and who is an admin. -/
structure Clerk where
  now : Instant
  isAdmin : UserId → OrganizationId → Bool

/-- `security_incidents`: no client inserts or deletes, admins update. -/
def incidentRules : Rules UserId Clerk IncidentRow Nat where
  key := IncidentRow.id
  mayInsert _ _ _ := false
  mayUpdate user c r := c.isAdmin user r.organizationId
  mayBecome user c r := c.isAdmin user r.organizationId
  mayDelete _ _ _ := false
  beforeInsert _ _ r := if r.checks then some r else none
  beforeUpdate _ c old new := (securityIncidentsGuard c.now old new).filter (·.checks)

/-! ## Writes -/

/-- What reaches the table. Who is an admin may change from one write to the next. -/
inductive IncidentWrite where
  /-- an `update` of a browser, which sets only what it is granted -/
  | triage (user : UserId) (isAdmin : UserId → OrganizationId → Bool) (hits : IncidentRow → Bool)
      (set : IncidentRow → Triage)
  /-- `openSecurityIncidentForService`; the state is left to its default -/
  | openSecurityIncidentForService (id : Nat) (observed : Observation)
  /-- `transitionSecurityIncident` of the store; `member` is what its join finds -/
  | transitionSecurityIncident (org : OrganizationId) (id : Nat) (state : IncidentState)
      (resolution : Option String) (triagedBy : UserId) (member : Bool)

/-- An update of the granted columns. -/
def IncidentRow.withTriage (r : IncidentRow) (t : Triage) : IncidentRow :=
  ⟨r.toObservation, t, r.id, r.createdAt⟩

/-- The session that makes a write, and its statement. -/
def IncidentWrite.statement (now : Instant) :
    IncidentWrite → Session UserId × Clerk × Statement IncidentRow
  | .triage user isAdmin hits set =>
    (.client user, ⟨now, isAdmin⟩, .update hits fun r => r.withTriage (set r))
  | .openSecurityIncidentForService id observed =>
    (.service, ⟨now, fun _ _ => false⟩, .insert [⟨observed, ⟨.open_, none, none, none⟩, id, now⟩])
  | .transitionSecurityIncident org id state resolution triagedBy member =>
    (.service, ⟨now, fun _ _ => false⟩,
      .update (fun r => r.id == id && r.organizationId == org && member)
        fun r => r.withTriage ⟨state, resolution, r.closedAt, some triagedBy⟩)

/-- An administrator's browser, or the API. -/
def IncidentWrite.authorized (org : OrganizationId) : IncidentWrite → Bool
  | .triage user isAdmin _ _ => isAdmin user org
  | .openSecurityIncidentForService _ _ => false
  | .transitionSecurityIncident _ _ _ _ _ _ => true

/-! ## What a write makes of a row -/

section Row

variable {now : Instant} {w : IncidentWrite} {rows rows' : List IncidentRow} {r r' : IncidentRow}

/-- The rows after a write. -/
def IncidentWrite.exec (w : IncidentWrite) (now : Instant) (rows : List IncidentRow) :
    Option (List IncidentRow) :=
  incidentRules.exec (w.statement now).1 (w.statement now).2.1 rows (w.statement now).2.2

/-- A row that the guard let an update write. -/
def Guarded (now : Instant) (r r' : IncidentRow) : Prop :=
  ∃ t, securityIncidentsGuard now r (r.withTriage t) = some r'

theorem turns_incident
    (h : incidentRules.Turns (w.statement now).1 (w.statement now).2.1 (w.statement now).2.2 r r') :
    r'.checks = true ∧ w.authorized r.organizationId = true ∧ Guarded now r r' := by
  obtain ⟨hits, set, hst, hhit, hset⟩ := h
  obtain ⟨hbefore, _⟩ := Option.filter_eq_some_iff.mp hset
  obtain ⟨hguard, hchecks⟩ := Option.filter_eq_some_iff.mp hbefore
  have hmay := ((Bool.and_eq_true _ _).mp hhit).2
  refine ⟨hchecks, ?_⟩
  cases w with
  | triage user isAdmin hits' set' =>
    cases hst
    exact ⟨hmay, set' r, hguard⟩
  | openSecurityIncidentForService id observed => cases hst
  | transitionSecurityIncident org id state resolution triagedBy member =>
    cases hst
    exact ⟨rfl, _, hguard⟩

/-- A row that was not there is open, and just opened. -/
theorem makes_incident
    (h : incidentRules.Makes (w.statement now).1 (w.statement now).2.1 (w.statement now).2.2 r') :
    r'.checks = true ∧ r'.toTriage = ⟨.open_, none, none, none⟩ := by
  obtain ⟨drafts, hst, draft, hdraft, hmade⟩ := h
  obtain ⟨hbefore, _⟩ := Option.filter_eq_some_iff.mp hmade
  have hthis : draft.checks = true ∧ draft = r' := by
    unfold incidentRules at hbefore
    dsimp only at hbefore
    split at hbefore
    next hc => exact ⟨hc, Option.some.inj hbefore⟩
    next => cases hbefore
  obtain ⟨hchecks, rfl⟩ := hthis
  refine ⟨hchecks, ?_⟩
  cases w with
  | openSecurityIncidentForService id observed =>
    cases hst
    rw [List.mem_singleton.mp hdraft]
  | triage user isAdmin hits set => cases hst
  | transitionSecurityIncident org id state resolution triagedBy member => cases hst

@[simp] theorem stamped_state (new : IncidentRow) : (new.stamped now).state = new.state := by
  unfold IncidentRow.stamped
  split <;> rfl

@[simp] theorem stamped_observation (new : IncidentRow) :
    (new.stamped now).toObservation = new.toObservation := by
  unfold IncidentRow.stamped
  split <;> rfl

@[simp] theorem stamped_id (new : IncidentRow) : (new.stamped now).id = new.id := by
  unfold IncidentRow.stamped
  split <;> rfl

theorem stamped_closedAt (new : IncidentRow) :
    (new.stamped now).closedAt = if new.state.closed then some now else none := by
  unfold IncidentRow.stamped
  split <;> rfl

/-- The guard's answer, read back. -/
theorem guard_iff {new : IncidentRow} : securityIncidentsGuard now r new = some r' ↔
    (new.toObservation = r.toObservation ∧ (r.state.closed = true → new.state = r.state) ∧
      (r.state = .open_ → new.state.closed = false)) ∧ new.stamped now = r' := by
  unfold securityIncidentsGuard
  split
  next h => exact iff_of_false (by simp) fun hall => h hall.1.1
  next hobservation =>
    split
    next h => exact iff_of_false (by simp) fun hall => h.2 (hall.1.2.1 h.1)
    next hclosed =>
      split
      next h =>
        refine iff_of_false (by simp) fun hall => ?_
        have hlow := hall.1.2.2 h.1
        rw [h.2] at hlow
        cases hlow
      next hopen =>
        have hkept : r.state.closed = true → new.state = r.state := fun hc =>
          by_contra fun hne => hclosed ⟨hc, hne⟩
        have hlow : r.state = .open_ → new.state.closed = false := fun ho =>
          Bool.eq_false_iff.mpr fun hc => hopen ⟨ho, hc⟩
        rw [Option.some.injEq]
        exact (and_iff_right ⟨not_not.mp hobservation, hkept, hlow⟩).symm

/-- **A row after a write** was there, was just opened, or got through the guard. -/
theorem row_after (h : w.exec now rows = some rows') (hr : r' ∈ rows') :
    r' ∈ rows ∨ (r'.checks = true ∧ r'.toTriage = ⟨.open_, none, none, none⟩ ∧
        r'.id ∉ rows.map IncidentRow.id) ∨
      ∃ r ∈ rows, r'.checks = true ∧ w.authorized r.organizationId = true ∧ Guarded now r r' := by
  rcases Rules.exec_after h hr with hthere | ⟨hmakes, hfresh⟩ | ⟨r, hold, hturns⟩
  · exact .inl hthere
  · obtain ⟨hchecks, hopen⟩ := makes_incident hmakes
    exact .inr (.inl ⟨hchecks, hopen, hfresh⟩)
  · exact .inr (.inr ⟨r, hold, turns_incident hturns⟩)

/-- **A row before a write** is there still, or what the guard let become of it. -/
theorem row_before (h : w.exec now rows = some rows') (hr : r ∈ rows) :
    ∃ r' ∈ rows', r' = r ∨ Guarded now r r' := by
  rcases Rules.exec_before h hr with hkept | ⟨r', hnew, hturns⟩ | ⟨hits, hst, _⟩
  · exact ⟨r, hkept, .inl rfl⟩
  · exact ⟨r', hnew, .inr (turns_incident hturns).2.2⟩
  · cases w <;> cases hst

/-- A row as it may stand in the table at this time. -/
def IncidentRow.Standing (now : Instant) (r : IncidentRow) : Prop :=
  r.checks = true ∧ ∀ t, r.closedAt = some t → t ≤ now

theorem standing_of_exec (hold : ∀ r ∈ rows, r.Standing now) (h : w.exec now rows = some rows') :
    ∀ r ∈ rows', r.Standing now := by
  intro r hr
  rcases row_after h hr with hthere | ⟨hchecks, hopen, _⟩ | ⟨_, _, hchecks, _, _, hguard⟩
  · exact hold r hthere
  · refine ⟨hchecks, fun t ht => ?_⟩
    rw [hopen] at ht
    cases ht
  · refine ⟨hchecks, fun t ht => ?_⟩
    rw [← (guard_iff.mp hguard).2, stamped_closedAt] at ht
    split at ht
    next => exact Nat.le_of_eq (Option.some.inj ht).symm
    next => cases ht

end Row

/-! ## The table in time -/

/-- The table and the server's clock. -/
structure Board where
  rows : List IncidentRow
  now : Instant
  keys : (rows.map IncidentRow.id).Nodup
  standing : ∀ r ∈ rows, r.Standing now

/-- A write, or time passing. -/
inductive IncidentMove where
  | write (w : IncidentWrite)
  | tick (duration : Nat)

/-- One move; an error leaves the table as it is. -/
def Board.step (b : Board) : IncidentMove → Board
  | .write w =>
    match h : w.exec b.now b.rows with
    | none => b
    | some rows => ⟨rows, b.now, Rules.nodup_of_exec h, standing_of_exec b.standing h⟩
  | .tick duration =>
    ⟨b.rows, b.now + duration, b.keys, fun r hr =>
      ⟨(b.standing r hr).1, fun t ht => Nat.le_add_right_of_le ((b.standing r hr).2 t ht)⟩⟩

variable {b : Board} {m : IncidentMove} {ms : List IncidentMove} {r r' r'' : IncidentRow}

theorem step_cases_incident (b : Board) (m : IncidentMove) : (b.step m).rows = b.rows ∨
    ∃ w, m = .write w ∧ (b.step m).now = b.now ∧ w.exec b.now b.rows = some (b.step m).rows := by
  cases m with
  | tick duration => exact .inl rfl
  | write w =>
    unfold Board.step
    dsimp only
    split
    next => exact .inl rfl
    next rows h => exact .inr ⟨w, rfl, rfl, h⟩

/-- What may become of a row: it is the same case, and if it was closed, it is closed as
it was and no earlier. -/
structure Follows (r r' : IncidentRow) : Prop where
  id : r'.id = r.id
  observation : r'.toObservation = r.toObservation
  state : r.state.closed = true → r'.state = r.state
  closing : r.state.closed = true →
    ∃ t t', r.closedAt = some t ∧ r'.closedAt = some t' ∧ t ≤ t'

/-- A closed incident has a time of closing. -/
theorem closedAt_of_checks (h : r.checks = true) (hclosed : r.state.closed = true) :
    ∃ t, r.closedAt = some t := by
  unfold IncidentRow.checks at h
  rw [hclosed, if_pos rfl, Bool.and_eq_true, Bool.and_eq_true r.closedAt.isSome] at h
  exact Option.isSome_iff_exists.mp h.2.1

theorem Follows.refl (h : r.checks = true) : Follows r r :=
  ⟨rfl, rfl, fun _ => rfl, fun hc =>
    have ⟨t, ht⟩ := closedAt_of_checks h hc
    ⟨t, t, ht, ht, Nat.le_refl t⟩⟩

theorem Follows.trans (h : Follows r r') (h' : Follows r' r'') : Follows r r'' where
  id := h'.id.trans h.id
  observation := h'.observation.trans h.observation
  state hc := (h'.state (by rwa [h.state hc])).trans (h.state hc)
  closing hc := by
    obtain ⟨t, t', ht, ht', hle⟩ := h.closing hc
    obtain ⟨u, u', hu, hu', hle'⟩ := h'.closing (by rwa [h.state hc])
    rw [ht'] at hu
    obtain rfl := Option.some.inj hu
    exact ⟨t, u', ht, hu', Nat.le_trans hle hle'⟩

theorem follows_of_guarded (h : Guarded b.now r r') (hr : r.Standing b.now) : Follows r r' := by
  obtain ⟨t, hguard⟩ := h
  obtain ⟨⟨hobservation, hstate, _⟩, rfl⟩ := guard_iff.mp hguard
  refine ⟨stamped_id _, (stamped_observation _).trans hobservation, fun hc => ?_, fun hc => ?_⟩
  · exact (stamped_state _).trans (hstate hc)
  · obtain ⟨u, hu⟩ := closedAt_of_checks hr.1 hc
    refine ⟨u, b.now, hu, ?_, hr.2 u hu⟩
    rw [stamped_closedAt, hstate hc, if_pos hc]

theorem follows_step (hr : r ∈ b.rows) : ∃ r' ∈ (b.step m).rows, Follows r r' := by
  have hstanding := b.standing r hr
  rcases step_cases_incident b m with hsame | ⟨w, _, _, hexec⟩
  · rw [hsame]
    exact ⟨r, hr, .refl hstanding.1⟩
  · obtain ⟨r', hr', hthis⟩ := row_before hexec hr
    refine ⟨r', hr', ?_⟩
    rcases hthis with rfl | hguarded
    · exact .refl hstanding.1
    · exact follows_of_guarded hguarded hstanding

theorem follows_run (hr : r ∈ b.rows) : ∃ r' ∈ (runFrom Board.step b ms).rows, Follows r r' := by
  induction ms generalizing b r with
  | nil => exact ⟨r, hr, .refl (b.standing r hr).1⟩
  | cons m ms ih =>
    obtain ⟨r', hr', hthis⟩ := follows_step (m := m) hr
    obtain ⟨r'', hr'', hrest⟩ := ih hr'
    exact ⟨r'', hr'', hthis.trans hrest⟩

/-- **No incident is rewritten.** Of any two states of a run, the later has each case of
the earlier, as it was observed; and a closed one closed the same way, at no earlier time. -/
theorem never_rewritten : Pairs Board.step
    (fun x y => ∀ r ∈ x.rows, ∃ r' ∈ y.rows, Follows r r') b ms := by
  intro pre mid post _ r hr
  rw [runFrom_append]
  exact follows_run hr

/-- Where a row is closed that was not, it was triaged, and whoever wrote may close it. -/
theorem closes_step (hr' : r' ∈ (b.step m).rows) (hclosed : r'.state.closed = true)
    (h : ∀ r ∈ b.rows, r.id = r'.id → r.state.closed = false) :
    ∃ w, m = .write w ∧ w.authorized r'.organizationId = true ∧
      ∃ r ∈ b.rows, r.id = r'.id ∧ r.state = .triaged := by
  have hnot : r' ∉ b.rows := fun hold => by
    rw [h r' hold rfl] at hclosed
    cases hclosed
  rcases step_cases_incident b m with hsame | ⟨w, hm, _, hexec⟩
  · exact absurd (hsame ▸ hr') hnot
  · rcases row_after hexec hr' with hold | ⟨_, hopen, _⟩ | ⟨r, hr, _, hauthorized, t, hguard⟩
    · exact absurd hold hnot
    · rw [show r'.state = .open_ from congrArg Triage.state hopen] at hclosed
      cases hclosed
    · obtain ⟨⟨hobservation, _, hopen⟩, rfl⟩ := guard_iff.mp hguard
      rw [stamped_state] at hclosed
      have hid : ((r.withTriage t).stamped b.now).id = r.id := stamped_id _
      refine ⟨w, hm, ?_, r, hr, hid.symm, ?_⟩
      · rwa [show ((r.withTriage t).stamped b.now).organizationId = r.organizationId from
          congrArg Observation.organizationId ((stamped_observation _).trans hobservation)]
      · have hlow := h r hr hid.symm
        cases hstate : r.state with
        | triaged => rfl
        | open_ =>
          rw [hopen hstate] at hclosed
          cases hclosed
        | resolved =>
          rw [hstate] at hlow
          cases hlow
        | falsePositive =>
          rw [hstate] at hlow
          cases hlow

/-- A board with one incident. -/
def oneIncident : Board where
  rows := [⟨⟨1, "origin", .high, "leak", 0⟩,
    ⟨.open_, none, none, none⟩, 7, 0⟩]
  now := 5
  keys := by decide
  standing := by
    intro r hr
    rw [List.mem_singleton.mp hr]
    exact ⟨by decide, fun _ ht => by cases ht⟩

/-- **Who closed it, and from where**: an incident closed after a run and not before was
closed by one write, of an admin of its organization or of the API, when it was triaged. -/
theorem closed_by (hr : r ∈ (runFrom Board.step b ms).rows) (hclosed : r.state.closed = true)
    (h : ∀ x ∈ b.rows, x.id = r.id → x.state.closed = false) :
    ∃ pre w post, ms = pre ++ .write w :: post ∧ w.authorized r.organizationId = true ∧
      (∃ x ∈ (runFrom Board.step b pre).rows, x.id = r.id ∧ x.state = .triaged) ∧
      ∃ y ∈ (runFrom Board.step b (pre ++ [.write w])).rows, y.id = r.id ∧ y.state = r.state := by
  induction ms generalizing b with
  | nil =>
    rw [h r hr rfl] at hclosed
    cases hclosed
  | cons m ms ih =>
    by_cases hlater : ∀ x ∈ (b.step m).rows, x.id = r.id → x.state.closed = false
    · obtain ⟨pre, w, post, rfl, hauthorized, hbefore, hafter⟩ := ih hr hlater
      exact ⟨m :: pre, w, post, rfl, hauthorized, hbefore, hafter⟩
    · -- it is closed by this move, and the row of that id stays so to the end
      push Not at hlater
      obtain ⟨y, hy, hid, hyclosed⟩ := hlater
      have hyclosed := eq_true_of_ne_false hyclosed
      obtain ⟨r', hr', hfollows⟩ : ∃ r' ∈ (runFrom Board.step (b.step m) ms).rows, Follows y r' :=
        follows_run hy
      have hsame : r' = r := List.inj_on_of_nodup_map (runFrom Board.step (b.step m) ms).keys hr' hr
        (hfollows.id.trans hid)
      rw [hsame] at hfollows
      obtain ⟨w, rfl, hauthorized, x, hx, hxid, hstate⟩ :=
        closes_step hy hyclosed fun x hx hxid => h x hx (hxid.trans hid)
      refine ⟨[], w, ms, rfl, ?_, ⟨x, hx, hxid.trans hid, hstate⟩,
        y, hy, hid, (hfollows.state hyclosed).symm⟩
      rwa [show r.organizationId = y.organizationId from
        congrArg Observation.organizationId hfollows.observation]

/-- An admin triages it in the browser, and the API resolves it. -/
theorem closed_by_api : let ms : List IncidentMove :=
    [.write (.triage 9 (fun _ _ => true) (fun _ => true) fun _ => ⟨.triaged, none, none, some 9⟩),
      .tick 3, .write (.transitionSecurityIncident 1 7 .resolved (some "moved") 4 true)]
    ∃ pre w post, ms = pre ++ .write w :: post ∧ w.authorized 1 = true ∧
      (∃ x ∈ (runFrom Board.step oneIncident pre).rows, x.id = 7 ∧ x.state = .triaged) ∧
      ∃ y ∈ (runFrom Board.step oneIncident (pre ++ [.write w])).rows,
        y.id = 7 ∧ y.state = .resolved :=
  closed_by (r := ⟨⟨1, "origin", .high, "leak", 0⟩, ⟨.resolved, some "moved", some 8, some 4⟩, 7, 0⟩)
    (by decide) rfl (by decide)

/-! ## The API's own check -/

/-- `transitionSecurityIncident` of the procedures, before it reads: the resolution. -/
def transitionInput (target : IncidentState) (resolution : Option String) : Except Failure String :=
  let text := Grammar.trim (resolution.getD "")
  if target = .open_ then .error (.api "invalid_input" "Unknown incident state.")
  else if target.closed ∧ Grammar.jsLength text = 0 then
    .error (.api "invalid_input" "Closing an incident requires a resolution.")
  else if 500 < Grammar.jsLength text then
    .error (.api "invalid_input" "A resolution is at most 500 characters.")
  else .ok text

/-- What it says to the state it reads. -/
def transitionConflict (current target : IncidentState) : Option Failure :=
  if current.closed then
    some (.api "conflict" "A closed incident cannot be reopened; open a new one.")
  else if current = .open_ ∧ target.closed then
    some (.api "conflict" "An incident must be triaged before it is closed.")
  else none

/-- The write it sends. -/
def transitionWrite (r : IncidentRow) (target : IncidentState) (text : String) (user : UserId) :
    IncidentWrite :=
  .transitionSecurityIncident r.organizationId r.id target
    (if target.closed then some text else none) user true

theorem length_le_jsLength (s : String) : s.length ≤ Grammar.jsLength s := by
  unfold Grammar.jsLength
  rw [← String.length_toList]
  generalize s.toList = cs
  induction cs with
  | nil => exact Nat.le_refl 0
  | cons c cs ih =>
    rw [List.length_cons, List.map_cons, List.sum_cons]
    split <;> omega

theorem jsLength_eq_zero {s : String} (h : s.length = 0) : Grammar.jsLength s = 0 := by
  rw [← String.length_toList, List.length_eq_zero_iff] at h
  unfold Grammar.jsLength
  rw [h]
  rfl

/-- An accepted input does not reopen, and closes with a short text. -/
theorem transitionInput_ok {target : IncidentState} {resolution : Option String} {text : String}
    (h : transitionInput target resolution = .ok text) :
    target ≠ .open_ ∧ (target.closed = true → lengthWithin 500 text = true) := by
  unfold transitionInput at h
  dsimp only at h
  split at h
  next => cases h
  next htarget =>
    split at h
    next => cases h
    next hblank =>
      split at h
      next => cases h
      next hlong =>
        obtain rfl := Except.ok.inj h
        refine ⟨htarget, fun hc => decide_eq_true ⟨?_, ?_⟩⟩
        · by_contra hzero
          exact hblank ⟨hc, jsLength_eq_zero (by omega)⟩
        · exact Nat.le_trans (length_le_jsLength _) (by omega)

section Backstop

variable {now : Instant} {target : IncidentState} {text : String} {user : UserId}

/-- The row the API's write asks for. -/
def transitioned (r : IncidentRow) (target : IncidentState) (text : String) (user : UserId) :
    IncidentRow :=
  r.withTriage ⟨target, if target.closed then some text else none, r.closedAt, some user⟩

/-- The guard lets it be unless the API reports a conflict; the one it does not see is a
case closed the same way before. -/
theorem guard_of_transition (hopen : target ≠ .open_) :
    (∃ r', securityIncidentsGuard now r (transitioned r target text user) = some r') ↔
      transitionConflict r.state target = none ∨ (r.state.closed = true ∧ target = r.state) := by
  have hguard : (∃ r', securityIncidentsGuard now r (transitioned r target text user) = some r') ↔
      (r.state.closed = true → target = r.state) ∧ (r.state = .open_ → target.closed = false) := by
    constructor
    · intro h
      obtain ⟨_, h⟩ := h
      exact (guard_iff.mp h).1.2
    · intro h
      exact ⟨_, guard_iff.mpr ⟨⟨rfl, h⟩, rfl⟩⟩
  rw [hguard]
  unfold transitionConflict
  cases r.state <;> cases target <;> simp_all [IncidentState.closed]

/-- What the guard lets be passes the checks. -/
theorem checks_of_transition (hr : r.checks = true)
    (htext : target.closed = true → lengthWithin 500 text = true) :
    ((transitioned r target text user).stamped now).checks = true := by
  unfold IncidentRow.checks at hr
  rw [Bool.and_eq_true, Bool.and_eq_true] at hr
  obtain ⟨⟨hobserved, _⟩, _⟩ := hr
  have hstate : (transitioned r target text user).state = target := rfl
  unfold IncidentRow.checks
  rw [stamped_state, stamped_closedAt, hstate]
  unfold IncidentRow.stamped
  rw [hstate]
  by_cases hc : target.closed = true
  · rw [if_pos hc, if_pos hc, if_pos hc]
    unfold transitioned
    rw [if_pos hc]
    show (lengthWithin 80 r.kind && lengthWithin 500 r.summary && lengthWithin 500 text && true) = true
    rw [hobserved, htext hc]
    rfl
  · rw [if_neg hc, if_neg hc, if_neg hc]
    show (lengthWithin 80 r.kind && lengthWithin 500 r.summary && true && true) = true
    rw [hobserved]
    rfl

/-- A transition that the guard refuses is not written. -/
theorem exec_refused (hr : r ∈ b.rows)
    (hguard : securityIncidentsGuard b.now r (transitioned r target text user) = none) :
    (transitionWrite r target text user).exec b.now b.rows = none := by
  refine Rules.exec_update_none hr ?_ ?_
  · show ((r.id == r.id && r.organizationId == r.organizationId && true) && true) = true
    rw [beq_self_eq_true, beq_self_eq_true]
    rfl
  · show ((securityIncidentsGuard b.now r (transitioned r target text user)).filter _).filter _ = none
    rw [hguard]
    rfl

/-- One that it lets be is, and no other row changes. -/
theorem exec_taken (hr : r ∈ b.rows)
    (htext : target.closed = true → lengthWithin 500 text = true)
    (hguard : securityIncidentsGuard b.now r (transitioned r target text user) = some r') :
    (transitionWrite r target text user).exec b.now b.rows =
      some (b.rows.map fun x => if x.id = r.id then r' else x) := by
  have hstamped := (guard_iff.mp hguard).2
  refine Rules.exec_update b.keys ?_ ?_
  · intro x hx
    show IncidentRow.id (if x.id = r.id then r' else x) = x.id
    split
    next hid =>
      rw [hid, ← hstamped]
      exact stamped_id _
    next => rfl
  · intro x hx
    by_cases hid : x.id = r.id
    · obtain rfl := List.inj_on_of_nodup_map b.keys hx hr hid
      rw [if_pos rfl, if_pos (by
        show ((x.id == x.id && x.organizationId == x.organizationId && true) && true) = true
        rw [beq_self_eq_true, beq_self_eq_true]
        rfl)]
      show ((securityIncidentsGuard b.now x (transitioned x target text user)).filter _).filter _ = _
      rw [hguard]
      have hchecks : ((transitioned x target text user).stamped b.now).checks = true :=
        checks_of_transition (b.standing x hx).1 htext
      rw [hstamped] at hchecks
      rw [Option.filter_some, if_pos hchecks]
      rfl
    · -- a row of another id is not hit
      rw [if_neg hid, if_neg ?_]
      show ¬ ((x.id == r.id && x.organizationId == r.organizationId && true) && true) = true
      rw [beq_eq_false_iff_ne.mpr hid]
      exact Bool.false_ne_true

/-- **The API and the backstop agree**, on a case that has not moved since it was read: the
database takes what the API lets through, and of what the API refuses over the state it
would only take a case being closed once more the way it is closed. -/
theorem backstop_iff {resolution : Option String} (hr : r ∈ b.rows)
    (h : transitionInput target resolution = .ok text) :
    (∃ rows, (transitionWrite r target text user).exec b.now b.rows = some rows) ↔
      transitionConflict r.state target = none ∨ (r.state.closed = true ∧ target = r.state) := by
  obtain ⟨hopen, htext⟩ := transitionInput_ok h
  have hguards : (∃ r', securityIncidentsGuard b.now r (transitioned r target text user) = some r') ↔
      _ := guard_of_transition hopen
  rw [← hguards]
  constructor
  · intro hexec
    obtain ⟨rows, hexec⟩ := hexec
    cases hguard : securityIncidentsGuard b.now r (transitioned r target text user) with
    | some r' => exact ⟨r', rfl⟩
    | none =>
      rw [exec_refused hr hguard] at hexec
      cases hexec
  · intro hguard
    obtain ⟨r', hguard⟩ := hguard
    exact ⟨_, exec_taken hr htext hguard⟩

/-- An incident just opened, and an admin who triages it. -/
theorem backstop_opened :
    (∃ rows, (transitionWrite ⟨⟨1, "origin", .high, "leak", 0⟩, ⟨.open_, none, none, none⟩, 7, 0⟩
        .triaged "" 9).exec 5 oneIncident.rows = some rows) ↔
      transitionConflict .open_ .triaged = none ∨ (false = true ∧ .triaged = IncidentState.open_) :=
  backstop_iff (b := oneIncident) List.mem_cons_self
    (show transitionInput .triaged none = .ok "" from rfl)

end Backstop

end CloudWai.Sessions
