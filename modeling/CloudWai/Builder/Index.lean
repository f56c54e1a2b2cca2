import CloudWai.Base.Catalog
import CloudWai.Base.Machine
import CloudWai.Builder.Server

/-!
# The index of the builder's jobs

`builder-server.mjs` keeps its jobs in one map and the identifiers of those that carry an
idempotency key in another. Three places write to both: the handler of `POST /builds`, the
sweep of what has expired, and `loadState`, which reads back what an earlier process wrote.
`index_kept_iff` says in which runs the second map is what the first one says.

It is as long as `loadState` finds no job that carries the key of one it reads. The first
process that answers a request under a key writes it down with the job. But a process
listens before it has read the file, and a request that comes in between is answered from
maps that are still empty.

What a build does to its job meanwhile, the lines of its log and a request to cancel it, is
an event with any outcome: nothing here depends on it. `keys` is read by nobody: what was
submitted, in the order in which identifiers were drawn for it.
-/

namespace CloudWai.Builder.Index

open Base

/-- The configuration. `draw` is what `randomUUID` answers, the first time, the second and
so on, in all processes: never the same twice. -/
structure Config where
  /-- `BUILDER_DATA_DIR` is set. -/
  stateFile : Bool
  jobTtl : Nat
  maxLogLines : Nat
  draw : Nat → String
  fresh : Function.Injective draw

/-- What is reported of a job. -/
structure Report where
  status : Status := .queued
  artifact : Option Artifact := none
  lines : List String := []
  cancelled : Bool := false
  startedAt : Option Nat := none
  finishedAt : Option Nat := none
deriving DecidableEq

/-- A job as `jobs` holds it. -/
structure Job where
  id : String
  idempotencyKey : Option String
  report : Report
  logTruncated : Bool := false
deriving DecidableEq

/-- A job in the state file. -/
structure Row where
  id : String
  idempotencyKey : Option String
  report : Report
deriving DecidableEq

/-- A key is one if it is truthy. -/
def truthy (key : Option String) : Option String := key.filter (· ≠ "")

namespace Job

def key (job : Job) : Option String := truthy job.idempotencyKey

/-- One entry of `jobIndex`. -/
def row (job : Job) : Row := ⟨job.id, job.idempotencyKey, job.report⟩

/-- `log` -/
def log (cfg : Config) (job : Job) (line : String) : Job :=
  if cfg.maxLogLines ≤ job.report.lines.length then
    if job.logTruncated then job
    else { job with
      logTruncated := true
      report := { job.report with
        lines := job.report.lines ++ [s!"[cloud-wai] log truncated at {cfg.maxLogLines} lines"] } }
  else { job with report := { job.report with lines := job.report.lines ++ [line] } }

/-- `sweepJobs` drops it. -/
def expired (cfg : Config) (now : Nat) (job : Job) : Bool :=
  decide job.report.status.Ended && job.report.finishedAt.any (· + cfg.jobTtl < now)

end Job

/-- The job that `loadState` makes of a row. -/
def Row.job (cfg : Config) (now : Nat) (row : Row) : Job :=
  if row.report.status = .running ∨ row.report.status = .queued then
    Job.log cfg ⟨row.id, row.idempotencyKey,
      { row.report with status := .failed, finishedAt := some now }, false⟩
      "[cloud-wai] the builder restarted while this build was in flight; it did not finish"
  else ⟨row.id, row.idempotencyKey, row.report, false⟩

/-- `jobs` and `byIdempotencyKey` -/
abbrev Maps := Catalog Job.id Job.key

/-- How far `loadState` is. -/
inductive Phase where
  /-- `mkdir`, and `readFile`. -/
  | opening
  /-- The file was read, or could not be. -/
  | parsed (jobs : Option (List Row))
  | loaded
deriving DecidableEq

/-- The process, and the state file. -/
structure Process where
  maps : Maps
  dirty : Bool
  /-- Written for `flushState`, and not under the file's name yet. -/
  inflight : List (List Row)
  phase : Phase
  file : Option (List Row)
  keys : List (Option String)

/-- A new process: `server.listen`, and `loadState` up to its first await. -/
def boot (cfg : Config) (file : Option (List Row)) (keys : List (Option String)) : Process :=
  { maps := .empty, dirty := false, inflight := []
    phase := if cfg.stateFile then .opening else .loaded
    file := file, keys := keys }

/-- What happens to the index. -/
inductive Event where
  /-- The body of a `POST /builds` has been read. -/
  | submit (key : Option String)
  /-- A build, its log or a request to cancel it. -/
  | progress (id : String) (report : Report) (logTruncated : Bool)
  /-- `sweepJobs` -/
  | sweep (now : Nat)
  /-- The timer's `flushState`. -/
  | flush
  /-- `rename`, by the n-th `flushState` that is under way, or its failure. -/
  | renamed (n : Nat)
  | lost (n : Nat)
  | restart
  /-- `readFile` has ended, well or not. -/
  | read (ok : Bool)
  /-- `loadState` goes on, and the `flushState` after it. -/
  | load (now : Nat)
deriving DecidableEq

namespace Process

/-- `flushState`, up to its first await. -/
def flushState (cfg : Config) (s : Process) : Process :=
  if cfg.stateFile && s.dirty then
    { s with dirty := false, inflight := s.inflight ++ [s.maps.rows.rows.map Job.row] }
  else s

/-- `POST /builds`, up to its first await: with the identifier of the answer, and whether a
build is started. -/
def submit (cfg : Config) (s : Process) (key : Option String) : Process × String × Bool :=
  match (truthy key).bind s.maps.index.find with
  | some (_, id) => (s, id, false)
  | none =>
    let id := cfg.draw s.keys.length
    let s := { s with
      maps := s.maps.set ⟨id, key, {}, false⟩, dirty := true, keys := s.keys ++ [key] }
    (s.flushState cfg, id, true)

/-- `loadState`, with the file's content. -/
def load (cfg : Config) (s : Process) (now : Nat) (rows : List Row) : Process :=
  { s with
    maps := ((rows.filter fun row => row.id ≠ "").map (Row.job cfg now)).foldl Catalog.set s.maps
    dirty := true }

/-- One event. -/
def step (cfg : Config) (s : Process) : Event → Process
  | .submit key => (s.submit cfg key).1
  | .progress id report logTruncated =>
    { s with
      maps := s.maps.revise (fun job => decide (job.id = id))
        ⟨fun job => { job with report := report, logTruncated := logTruncated }, fun _ => rfl⟩
      dirty := true }
  | .sweep now =>
    { s with
      maps := s.maps.sweep (Job.expired cfg now)
      dirty := s.dirty || s.maps.rows.rows.any (Job.expired cfg now) }
  | .flush => s.flushState cfg
  | .renamed n =>
    match s.inflight[n]? with
    | none => s
    | some rows => { s with file := some rows, inflight := s.inflight.eraseIdx n }
  | .lost n => { s with inflight := s.inflight.eraseIdx n }
  | .restart => boot cfg s.file s.keys
  | .read ok =>
    match s.phase with
    | .opening => { s with phase := .parsed (if ok then s.file else none) }
    | .parsed _ | .loaded => s
  | .load now =>
    match s.phase with
    | .parsed none => { s with phase := .loaded }.flushState cfg
    | .parsed (some rows) => ({ s with phase := .loaded }.load cfg now rows).flushState cfg
    | .opening | .loaded => s

end Process

/-! ## What the index is for -/

/-- Every key of the index leads to a job that carries it, no two jobs carry one key, and a
key whose job is there is answered with that job, and no build is started. -/
structure Indexed (cfg : Config) (s : Process) : Prop where
  found : ∀ k id, s.maps.index.find k = some (k, id) →
    ∃ job ∈ s.maps.rows, job.id = id ∧ job.key = some k
  unique : ∀ job ∈ s.maps.rows, ∀ job' ∈ s.maps.rows, ∀ k,
    job.key = some k → job'.key = some k → job = job'
  answered : ∀ job ∈ s.maps.rows, ∀ k, job.key = some k →
    s.submit cfg (some k) = (s, job.id, false)

/-- **The condition** on an event: no job is there that carries the key of another one that
is read back. -/
def LoadsBeforeServing (s : Process) : Event → Prop
  | .load _ => ∀ rows, s.phase = .parsed (some rows) → ∀ row ∈ rows, row.id ≠ "" →
      ∀ job ∈ s.maps.rows, ∀ k, truthy row.idempotencyKey = some k → job.key = some k →
        job.id = row.id
  | _ => True

section Lemmas

variable {cfg : Config} {s : Process} {e : Event} {job : Job} {k : String}

theorem truthy_key (h : job.key = some k) : truthy (some k) = some k := by
  unfold Job.key truthy at h
  obtain ⟨-, hk⟩ := Option.filter_eq_some_iff.mp h
  exact Option.filter_eq_some_iff.mpr ⟨rfl, hk⟩

/-- The index is what it is for if it is sound. -/
theorem indexed_iff : Indexed cfg s ↔ s.maps.Sound := by
  constructor
  · intro h
    refine ⟨h.found, fun job hjob k hk => ?_⟩
    have hanswer := h.answered job hjob k hk
    unfold Process.submit at hanswer
    rw [truthy_key hk, Option.bind_some] at hanswer
    cases hfind : s.maps.index.find k with
    | none =>
      rw [hfind] at hanswer
      exact absurd (congrArg (·.2.2) hanswer) Bool.noConfusion
    | some entry =>
      rw [hfind] at hanswer
      have hid : entry.2 = job.id := congrArg (·.2.1) hanswer
      rw [← hid, ← (Table.mem_of_find hfind).2]
  · intro h
    refine ⟨h.found, fun job hjob job' hjob' k => h.unique hjob hjob', fun job hjob k hk => ?_⟩
    unfold Process.submit
    rw [truthy_key hk, Option.bind_some, h.listed job hjob k hk]

@[simp] theorem log_id (line : String) : (job.log cfg line).id = job.id := by
  unfold Job.log
  split <;> (try split) <;> rfl

@[simp] theorem log_key (line : String) : (job.log cfg line).idempotencyKey = job.idempotencyKey := by
  unfold Job.log
  split <;> (try split) <;> rfl

@[simp] theorem row_job_id (row : Row) (now : Nat) : (row.job cfg now).id = row.id := by
  unfold Row.job
  split
  · exact log_id _
  · rfl

@[simp] theorem row_job_key (row : Row) (now : Nat) :
    (row.job cfg now).idempotencyKey = row.idempotencyKey := by
  unfold Row.job
  split
  · exact log_key _
  · rfl

end Lemmas

/-! ## The invariant -/

section Invariant

variable {cfg : Config} {s : Process} {e : Event} {keys : List (Option String)}
  {rows : List Row}

/-- The identifier was drawn for a request with the key. -/
def Born (cfg : Config) (keys : List (Option String)) (id : String) (key : Option String) : Prop :=
  ∃ n : Nat, keys[n]? = some key ∧ id = cfg.draw n

/-- Rows that a process has written. -/
structure Written (cfg : Config) (keys : List (Option String)) (rows : List Row) : Prop where
  born : ∀ row ∈ rows, Born cfg keys row.id row.idempotencyKey
  distinct : ∀ row ∈ rows, ∀ row' ∈ rows, ∀ k, truthy row.idempotencyKey = some k →
    truthy row'.idempotencyKey = some k → row'.id = row.id

/-- The process has them, or the disk. -/
def Process.Has (s : Process) (rows : List Row) : Prop :=
  s.file = some rows ∨ rows ∈ s.inflight ∨ s.phase = .parsed (some rows)

/-- What every event keeps that meets the condition. -/
structure Kept (cfg : Config) (s : Process) : Prop where
  sound : s.maps.Sound
  born : ∀ job ∈ s.maps.rows, Born cfg s.keys job.id job.idempotencyKey
  written : ∀ rows, s.Has rows → Written cfg s.keys rows

/-- An identifier was drawn for one request. -/
theorem Born.key {id id' : String} {key key' : Option String} (h : Born cfg keys id key)
    (h' : Born cfg keys id' key') (hid : id = id') : key = key' := by
  obtain ⟨n, hn, rfl⟩ := h
  obtain ⟨n', hn', rfl⟩ := h'
  rw [cfg.fresh hid] at hn
  exact Option.some.inj (hn.symm.trans hn')

theorem Born.append {id : String} {key key' : Option String} (h : Born cfg keys id key) :
    Born cfg (keys ++ [key']) id key := by
  obtain ⟨n, hn, hid⟩ := h
  obtain ⟨hlt, -⟩ := List.getElem?_eq_some_iff.mp hn
  exact ⟨n, (List.getElem?_append_left hlt).trans hn, hid⟩

theorem Written.append {key : Option String} (h : Written cfg keys rows) :
    Written cfg (keys ++ [key]) rows :=
  ⟨fun row hrow => (h.born row hrow).append, h.distinct⟩

theorem kept_boot (hfile : ∀ rows, s.file = some rows → Written cfg s.keys rows) :
    Kept cfg (boot cfg s.file s.keys) where
  sound := Catalog.sound_empty
  born job hjob := absurd hjob (Table.not_mem_empty job)
  written rows hrows := by
    rcases hrows with hrows | hrows | hrows
    · exact hfile rows hrows
    · exact absurd hrows List.not_mem_nil
    · unfold boot at hrows
      dsimp only at hrows
      split at hrows <;> cases hrows

/-- What is written down of a sound state. -/
theorem written_rows (h : Kept cfg s) :
    Written cfg s.keys (s.maps.rows.rows.map Job.row) where
  born row hrow := by
    obtain ⟨job, hjob, rfl⟩ := List.mem_map.mp hrow
    exact h.born job hjob
  distinct row hrow row' hrow' k hk hk' := by
    obtain ⟨job, hjob, rfl⟩ := List.mem_map.mp hrow
    obtain ⟨job', hjob', rfl⟩ := List.mem_map.mp hrow'
    exact congrArg Job.id (h.sound.unique hjob' hjob hk' hk)

theorem kept_flush (h : Kept cfg s) : Kept cfg (s.flushState cfg) := by
  unfold Process.flushState
  split
  · refine ⟨h.sound, h.born, fun rows hrows => ?_⟩
    rcases hrows with hrows | hrows | hrows
    · exact h.written rows (.inl hrows)
    · rcases List.mem_append.mp hrows with hrows | hrows
      · exact h.written rows (.inr (.inl hrows))
      · obtain rfl := List.mem_singleton.mp hrows
        have hnow : Written cfg s.keys (s.maps.rows.rows.map Job.row) := written_rows h
        exact hnow
    · exact h.written rows (.inr (.inr hrows))
  · exact h

/-- A build that is accepted is in the index under its id and its key. -/
theorem kept_submit {key : Option String} (h : Kept cfg s) : Kept cfg (s.submit cfg key).1 := by
  unfold Process.submit
  cases hfind : (truthy key).bind s.maps.index.find with
  | some entry => exact h
  | none =>
    have hnew : ∀ job ∈ s.maps.rows, job.id ≠ cfg.draw s.keys.length := by
      intro job hjob hid
      obtain ⟨n, hn, hdrawn⟩ := h.born job hjob
      obtain ⟨hlt, -⟩ := List.getElem?_eq_some_iff.mp hn
      have hsame := cfg.fresh (hdrawn.symm.trans hid)
      omega
    refine kept_flush ⟨?_, fun job hjob => ?_, fun rows hrows => (h.written rows hrows).append⟩
    · refine Catalog.sound_set h.sound (fun job hjob hid => absurd hid (hnew job hjob)) ?_
      intro job hjob k hk hjk
      -- the key is not in the index
      rw [show truthy key = some k from hk, Option.bind_some, h.sound.listed job hjob k hjk] at hfind
      cases hfind
    · rcases Catalog.mem_set.mp hjob with rfl | ⟨hjob, -⟩
      · exact ⟨s.keys.length, List.getElem?_concat_length, rfl⟩
      · exact (h.born job hjob).append

/-- **Reading the file back** is sound exactly under the condition. -/
theorem sound_load_iff {now : Nat} (h : Kept cfg s) (hphase : s.phase = .parsed (some rows)) :
    (s.load cfg now rows).maps.Sound ↔ LoadsBeforeServing s (.load now) := by
  have hwritten := h.written rows (.inr (.inr hphase))
  have hjobs : ∀ job, job ∈ (rows.filter fun row => row.id ≠ "").map (Row.job cfg now) →
      ∃ row ∈ rows, row.id ≠ "" ∧ row.job cfg now = job := by
    intro job hjob
    obtain ⟨row, hrow, rfl⟩ := List.mem_map.mp hjob
    obtain ⟨hrow, hid⟩ := List.mem_filter.mp hrow
    exact ⟨row, hrow, by simpa using hid, rfl⟩
  have hborn : ∀ job, job ∈ s.maps.rows ∨
      job ∈ (rows.filter fun row => row.id ≠ "").map (Row.job cfg now) →
      Born cfg s.keys job.id job.idempotencyKey := by
    intro job hjob
    rcases hjob with hjob | hjob
    · exact h.born job hjob
    · obtain ⟨row, hrow, -, rfl⟩ := hjobs job hjob
      rw [row_job_id, row_job_key]
      exact hwritten.born row hrow
  unfold Process.load
  rw [Catalog.sound_merge_iff h.sound ?_ ?_]
  · constructor
    · intro hclash rows' hphase' row hrow hid job hjob k hk hjk
      obtain rfl : rows = rows' := by
        rw [hphase] at hphase'
        exact Option.some.inj (Phase.parsed.inj hphase')
      have hmem : row.job cfg now ∈
          (rows.filter fun row => row.id ≠ "").map (Row.job cfg now) :=
        List.mem_map_of_mem (List.mem_filter.mpr ⟨hrow, by simpa using hid⟩)
      have hsame := hclash _ hmem job hjob k (by unfold Job.key; rwa [row_job_key]) hjk
      rwa [row_job_id] at hsame
    · intro hcond job hjob job' hjob' k hk hk'
      obtain ⟨row, hrow, hid, rfl⟩ := hjobs job hjob
      unfold Job.key at hk
      rw [row_job_key] at hk
      rw [row_job_id]
      exact hcond rows hphase row hrow hid job' hjob' k hk hk'
  · intro job hjob job' hjob' hid
    exact congrArg truthy ((hborn job' hjob').key (hborn job (.inr hjob)) hid)
  · intro job hjob job' hjob' k hk hk'
    obtain ⟨row, hrow, -, rfl⟩ := hjobs job hjob
    obtain ⟨row', hrow', -, rfl⟩ := hjobs job' hjob'
    unfold Job.key at hk hk'
    rw [row_job_key] at hk hk'
    rw [row_job_id, row_job_id]
    exact hwritten.distinct row hrow row' hrow' k hk hk'

/-- What is read back was drawn for, too. -/
theorem born_load {now : Nat} (h : Kept cfg s) (hphase : s.phase = .parsed (some rows)) :
    ∀ job ∈ (s.load cfg now rows).maps.rows, Born cfg s.keys job.id job.idempotencyKey := by
  have hwritten := h.written rows (.inr (.inr hphase))
  have hfold : ∀ l : List Job, (∀ job ∈ l, Born cfg s.keys job.id job.idempotencyKey) →
      ∀ maps : Maps, (∀ job ∈ maps.rows, Born cfg s.keys job.id job.idempotencyKey) →
      ∀ job ∈ (l.foldl Catalog.set maps).rows, Born cfg s.keys job.id job.idempotencyKey := by
    intro l
    induction l with
    | nil => exact fun _ maps hmaps => hmaps
    | cons job l ih =>
      intro hl maps hmaps
      refine ih (fun job' hjob' => hl job' (List.mem_cons_of_mem job hjob')) _ fun job' hjob' => ?_
      rcases Catalog.mem_set.mp hjob' with rfl | ⟨hjob', -⟩
      · exact hl job' List.mem_cons_self
      · exact hmaps job' hjob'
  refine hfold _ (fun job hjob => ?_) s.maps h.born
  obtain ⟨row, hrow, rfl⟩ := List.mem_map.mp hjob
  rw [row_job_id, row_job_key]
  exact hwritten.born row (List.mem_filter.mp hrow).1

/-- **Step lemma.** -/
theorem kept_step (h : Kept cfg s) (hc : LoadsBeforeServing s e) : Kept cfg (s.step cfg e) := by
  cases e with
  | submit key => exact kept_submit h
  | progress id report logTruncated =>
    refine ⟨Catalog.sound_revise h.sound fun _ => rfl, fun job hjob => ?_, h.written⟩
    rcases Table.mem_update.mp hjob with ⟨hjob, -⟩ | ⟨job', hjob', -, rfl⟩
    · exact h.born job hjob
    · exact h.born job' hjob'
  | sweep now =>
    exact ⟨Catalog.sound_sweep h.sound, fun job hjob => h.born job (Catalog.mem_of_sweep hjob),
      h.written⟩
  | flush => exact kept_flush h
  | renamed n =>
    unfold Process.step
    dsimp only
    split
    · exact h
    next rows hrows =>
      refine ⟨h.sound, h.born, fun rows' hrows' => ?_⟩
      rcases hrows' with hrows' | hrows' | hrows'
      · obtain rfl := Option.some.inj hrows'
        exact h.written _ (.inr (.inl (List.mem_of_getElem? hrows)))
      · exact h.written rows' (.inr (.inl (List.mem_of_mem_eraseIdx hrows')))
      · exact h.written rows' (.inr (.inr hrows'))
  | lost n =>
    refine ⟨h.sound, h.born, fun rows hrows => ?_⟩
    rcases hrows with hrows | hrows | hrows
    · exact h.written rows (.inl hrows)
    · exact h.written rows (.inr (.inl (List.mem_of_mem_eraseIdx hrows)))
    · exact h.written rows (.inr (.inr hrows))
  | restart => exact kept_boot fun rows hrows => h.written rows (.inl hrows)
  | read ok =>
    unfold Process.step
    dsimp only
    split
    · refine ⟨h.sound, h.born, fun rows hrows => ?_⟩
      rcases hrows with hrows | hrows | hrows
      · exact h.written rows (.inl hrows)
      · exact h.written rows (.inr (.inl hrows))
      · cases ok with
        | false => cases hrows
        | true => exact h.written rows (.inl (Phase.parsed.inj hrows))
    · exact h
    · exact h
  | load now =>
    unfold Process.step
    dsimp only
    split
    · refine kept_flush ⟨h.sound, h.born, fun rows hrows => h.written rows ?_⟩
      rcases hrows with hrows | hrows | hrows
      · exact .inl hrows
      · exact .inr (.inl hrows)
      · cases hrows
    next rows hphase =>
      have hborn : ∀ job ∈ (s.load cfg now rows).maps.rows,
          Born cfg s.keys job.id job.idempotencyKey := born_load h hphase
      refine kept_flush ⟨(sound_load_iff h hphase).mpr hc, hborn, ?_⟩
      intro rows' hrows'
      rcases hrows' with hrows' | hrows' | hrows'
      · exact h.written rows' (.inl hrows')
      · exact h.written rows' (.inr (.inl hrows'))
      · cases hrows'
    · exact h
    · exact h

@[simp] theorem maps_flush : (s.flushState cfg).maps = s.maps := by
  unfold Process.flushState
  split <;> rfl

/-- Only a `load` can break the index. -/
theorem indexed_step_iff (h : Kept cfg s) : Indexed cfg (s.step cfg e) ↔ LoadsBeforeServing s e := by
  rw [indexed_iff]
  refine ⟨fun hsound => ?_, fun hc => (kept_step h hc).sound⟩
  cases e with
  | submit | progress | sweep | flush | renamed | lost | restart | read => trivial
  | load now =>
    cases hphase : s.phase with
    | parsed jobs =>
      cases jobs with
      | none =>
        intro rows hrows
        rw [hphase] at hrows
        cases hrows
      | some rows =>
        unfold Process.step at hsound
        dsimp only at hsound
        rw [hphase] at hsound
        dsimp only at hsound
        rw [maps_flush] at hsound
        exact (sound_load_iff h hphase).mp hsound
    | opening | loaded =>
      intro rows hrows
      rw [hphase] at hrows
      cases hrows

end Invariant

/-- **The index is kept** in a run of requests, sweeps, writes that end in any order, and
restarts, from a first process that finds no file, exactly if no job is there that carries
the key of another one that `loadState` reads back. -/
theorem index_kept_iff (cfg : Config) (es : List Event) :
    Always (Process.step cfg) (Indexed cfg) (boot cfg none []) es ↔
      EachStep (Process.step cfg) LoadsBeforeServing (boot cfg none []) es := by
  have hstart : Kept cfg (boot cfg none []) :=
    kept_boot (s := boot cfg none []) fun rows hrows => by cases hrows
  rw [always_iff_after]
  constructor
  · intro h
    exact (eachStep_iff hstart (fun s e hs hc => kept_step hs hc)
      fun s e hs => indexed_step_iff hs).mp h.2
  · intro h
    exact ⟨indexed_iff.mpr hstart.sound, (eachStep_iff hstart (fun s e hs hc => kept_step hs hc)
      fun s e hs => indexed_step_iff hs).mpr h⟩

/-! ## A request while the file is read -/

/-- The identifiers are told apart by how long they are. -/
def counting : Config where
  stateFile := true
  jobTtl := 3600000
  maxLogLines := 5000
  draw n := String.ofList (List.replicate (n + 1) 'b')
  fresh n m h := by simpa using congrArg String.length h

/-- A build is accepted under a key and written down; the process is started anew, and
asked for a build under the same key before it has read the file. -/
def duringLoad : List Event :=
  [.read true, .load 0, .submit (some "deploy-7"), .renamed 0, .restart, .submit (some "deploy-7"),
    .read true, .load 1]

theorem one_key_two_jobs :
    ¬ Always (Process.step counting) (Indexed counting) (boot counting none []) duringLoad := by
  intro h
  have hlast := always_iff_prefixes.mp h duringLoad [] (List.append_nil _).symm
  have hjobs : ∀ id ∈ ["b", "bb"],
      ∃ job ∈ (runFrom (Process.step counting) (boot counting none []) duringLoad).maps.rows.rows,
        job.id = id ∧ job.key = some "deploy-7" := by decide +kernel
  obtain ⟨job, hjob, hid, hkey⟩ := hjobs "b" List.mem_cons_self
  obtain ⟨job', hjob', hid', hkey'⟩ := hjobs "bb" (List.mem_cons_of_mem _ List.mem_cons_self)
  rw [hlast.unique job hjob job' hjob' "deploy-7" hkey hkey', hid'] at hid
  exact absurd hid (by decide)

end CloudWai.Builder.Index
