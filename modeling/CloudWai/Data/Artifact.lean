import CloudWai.Data.Conformance

/-!
# Which dump a restore reads

A backup's reference names a database and a backup configuration. The dump itself
is looked up when a restore is performed: the newest execution of that configuration
that names a file. The configuration goes on running every night, so the newest is
not the one the customer chose; and the lookup does not ask whether it succeeded.
The import is addressed to the reference's database, and the target is in the
result only.

A restore is performed by a delivery of its job, or by the request itself where no
queue is wired. `restores_own_iff` says when either is right all the same: the run of
the chosen backup is `own`, and the engine lists the newest run first.

About `latestBackupFile` and `restore` of `packages/adapters/src/postgres.ts`, as
`Engine.lean` has them.
-/

namespace CloudWai.Data

open Base Grammar Queue

/-! ## One restore -/

/-- What whoever performs a restore is told when it asks. -/
structure Told where
  resource : Option DataResource
  backup : Option DataRow
  /-- Newest first. -/
  executions : List Execution
  others : (c : Call) → Except String c.Ans

/-- The answer to one call, and the calls made, newest first. -/
def Told.answer (told : Told) (calls : List Call) : (c : Call) → Except String c.Ans × List Call
  | .store (.selectResource org id) => (.ok told.resource, .store (.selectResource org id) :: calls)
  | .store (.selectResourceOfMember user id) =>
    (.ok told.resource, .store (.selectResourceOfMember user id) :: calls)
  | .store (.selectBackup org id) => (.ok told.backup, .store (.selectBackup org id) :: calls)
  | .engine row (.executions org db config) =>
    (.ok (.replied 200 told.executions ""), .engine row (.executions org db config) :: calls)
  | c => (told.others c, c :: calls)

/-- A database overwritten, and the file it was overwritten with. -/
def overwriting : Call → Option (String × String)
  | .engine _ (.imports _ database file) => some (database, file)
  | _ => none

/-- What a program overwrites. -/
def overwritten {α : Type} (told : Told) (p : DataProg α) : List (String × String) :=
  (p.eval told.answer []).2.filterMap overwriting

/-! ## What it should overwrite -/

/-- The target's own database, with the file of the chosen backup's run, which
succeeded. -/
structure RightImport (succeeded : Execution → Bool) (own : Execution) (target : String)
    (i : String × String) : Prop where
  database : i.1 = target
  file : own.filename = some i.2
  successful : succeeded own = true

instance (succeeded : Execution → Bool) (own : Execution) (target : String) (i : String × String) :
    Decidable (RightImport succeeded own target i) :=
  decidable_of_iff (_ ∧ _ ∧ _) ⟨fun h => ⟨h.1, h.2.1, h.2.2⟩, fun h => ⟨h.database, h.file, h.successful⟩⟩

/-- A restore into `target` that nothing refuses on the way to its import, from the
backup the reference of which is to `database` and `config`. -/
structure Performed (d : DatabaseAdapter) (told : Told) (resource : DataResource)
    (target database config : String) : Prop where
  found : told.resource = some resource
  kind : resource.kind = .postgres
  target : resource.providerResourceId.filter (· != "") = some target
  configured : (d.credentials resource.organizationId).isSome
  artifact : ∃ ref, artifactOf resource told.backup = .ok ref ∧
    backupParts ref.resourceId = some (database, config)
  listed : told.executions.any Execution.restorable = true

/-- Who performs it: a delivery of its job, or a request the checks let through and
whose row is written. -/
inductive Performs (d : DatabaseAdapter) (told : Told) (resource : DataResource) :
    (α : Type) → DataProg α → Prop
  | delivery (input : DataJobPayload) (ctx : JobContext)
      (horg : resource.organizationId = input.organizationId) :
      Performs d told resource _ (restoreJobHandler d input ctx)
  | request (ctx : RequestContext) (input : RestoreDataInput) (backup row : DataRow)
      (hmay : requireCapability ctx input.organizationId .dataRestore = .ok ())
      (horg : resource.organizationId = input.organizationId)
      (hname : trim input.confirmName = resource.name)
      (hbackup : told.backup = some backup)
      (hrow : told.others (.store (.insertRow .restore (pendingRow resource (some backup.id)))) =
        .ok row) :
      Performs d told resource _ (restoreDataResourceNow d ctx input)

/-- The runs listed before `own`, all of them if `own` is not listed any more. -/
def laterThan (own : Execution) (executions : List Execution) : List Execution :=
  executions.takeWhile (· ≠ own)

/-- The reference is to the target's database, the chosen run succeeded and has a
file, and the newest later run that has one has the same. -/
structure OwnDump (succeeded : Execution → Bool) (own : Execution) (executions : List Execution)
    (target database : String) : Prop where
  database : database = target
  successful : succeeded own = true
  restorable : own.restorable = true
  newest : ∀ e, (laterThan own executions).find? Execution.restorable = some e →
    e.filename = own.filename

/-! ## The lookup -/

theorem filename_of_restorable {e : Execution} (h : e.restorable = true) :
    ∃ file, e.filename = some file := by
  unfold Execution.restorable at h
  cases hf : e.filename with
  | none =>
    rw [hf] at h
    cases h
  | some file => exact ⟨file, rfl⟩

/-- What is looked up is there if anything is. -/
theorem latestBackupFile_isSome {executions : List Execution}
    (h : executions.any Execution.restorable = true) :
    ∃ e file, executions.find? Execution.restorable = some e ∧ e.filename = some file ∧
      latestBackupFile executions = some file := by
  obtain ⟨e, he⟩ := Option.isSome_iff_exists.mp (List.find?_isSome.mpr (List.any_eq_true.mp h))
  obtain ⟨file, hfile⟩ := filename_of_restorable (List.find?_some he)
  refine ⟨e, file, he, hfile, ?_⟩
  rw [latestBackupFile, he]
  exact hfile

theorem restorable_congr {e e' : Execution} (h : e.filename = e'.filename) :
    e.restorable = e'.restorable := by
  unfold Execution.restorable
  rw [h]

/-- What is listed is the later runs, and then `own` if it is listed. -/
theorem laterThan_split (own : Execution) (executions : List Execution) :
    laterThan own executions = executions ∨
      ∃ earlier, executions = laterThan own executions ++ own :: earlier := by
  unfold laterThan
  induction executions with
  | nil => exact .inl rfl
  | cons e rest ih =>
    by_cases he : e = own
    · subst he
      exact .inr ⟨rest, by rw [List.takeWhile_cons_of_neg (by simp)]; rfl⟩
    · rw [List.takeWhile_cons_of_pos (by simpa using he)]
      rcases ih with hall | ⟨earlier, hsplit⟩
      · exact .inl (by rw [hall])
      · exact .inr ⟨earlier, congrArg (e :: ·) hsplit⟩

/-- The lookup finds the file of a given run exactly if that run has one and no
later run gets in its way. -/
theorem latestBackupFile_own {executions : List Execution} {own : Execution} {file : String}
    (h : latestBackupFile executions = some file) :
    own.filename = some file ↔ own.restorable = true ∧
      ∀ e, (laterThan own executions).find? Execution.restorable = some e →
        e.filename = own.filename := by
  obtain ⟨e, he, hfile⟩ := Option.bind_eq_some_iff.mp h
  have hrest : e.restorable = true := List.find?_some he
  -- it is one of the later runs that is found, or `own` itself
  have hfound : (laterThan own executions).find? Execution.restorable = some e ∨
      (laterThan own executions).find? Execution.restorable = none ∧
        (own.restorable = true → e = own) := by
    rcases laterThan_split own executions with hall | ⟨earlier, hsplit⟩
    · exact .inl (by rw [hall]; exact he)
    · rw [hsplit, List.find?_append] at he
      cases hlater : (laterThan own executions).find? Execution.restorable with
      | some e' =>
        rw [hlater, Option.some_or] at he
        exact .inl he
      | none =>
        rw [hlater, Option.none_or] at he
        refine .inr ⟨rfl, fun hown => ?_⟩
        rw [List.find?_cons_of_pos hown] at he
        exact (Option.some.inj he).symm
  rcases hfound with hlater | ⟨hnone, hown⟩
  · constructor
    · intro hfile'
      have hsame : e.filename = own.filename := hfile.trans hfile'.symm
      refine ⟨(restorable_congr hsame).symm.trans hrest, fun e' he' => ?_⟩
      rw [hlater] at he'
      cases he'
      exact hsame
    · rintro ⟨_, hnewest⟩
      exact (hnewest e hlater).symm.trans hfile
  · rw [hnone]
    refine ⟨fun hfile' => ⟨?_, nofun⟩, fun ⟨hrestorable, _⟩ => ?_⟩
    · exact (restorable_congr (hfile'.trans hfile.symm)).trans hrest
    · exact hown hrestorable ▸ hfile

/-! ## The import -/

theorem result_replied {β : Type} (what : String) (timeoutMs : Nat) (body : β) :
    (HttpAnswer.replied 200 body "").result what timeoutMs = .ok .succeeded body := by
  unfold HttpAnswer.result
  exact if_pos ⟨by omega, by omega⟩

/-- A program that asks for no import adds nothing. -/
theorem overwritten_only {α : Type} (told : Told) {p : DataProg α}
    (hp : p.Only fun c => overwriting c = none) (calls : List Call) :
    (p.eval told.answer calls).2.filterMap overwriting = calls.filterMap overwriting := by
  induction p generalizing calls with
  | ret a => rfl
  | raise e => rfl
  | await c k ih =>
    have hcall : (told.answer calls c).2 = c :: calls := by
      unfold Told.answer
      split <;> rfl
    rw [Prog.eval, ih _ (hp.2 _), hcall, List.filterMap_cons_none hp.1]

section Restoring

variable {d : DatabaseAdapter} {told : Told} {resource : DataResource}
  {target database config file : String}

/-- Once the adapter is asked to restore, the reference's database is overwritten with
what was looked up, and whatever comes of it this is the only time. -/
theorem overwritten_restore {α : Type} {ref : ProviderRef} {base : String} (row : Record)
    {ctx : AdapterContext} {targetRef : ProviderRef}
    {f : AdapterResult OperationRef → DataProg α} {calls : List Call}
    (hbase : d.credentials ctx.organizationId = some base)
    (hparts : backupParts ref.resourceId = some (database, config))
    (hfile : latestBackupFile told.executions = some file)
    (hcalls : calls.filterMap overwriting = [])
    (hf : ∀ performed, (f performed).Only fun c => overwriting c = none) :
    (((d.restore row ctx ref targetRef).bind f).eval told.answer calls).2.filterMap overwriting =
      [(database, file)] := by
  have hlist : ∀ what, @HttpAnswer.result (EngineCall.executions ctx.organizationId database
      config).Body what ctx.timeoutMs (.replied 200 told.executions "") =
      .ok .succeeded told.executions := fun what => result_replied what ctx.timeoutMs _
  simp only [DatabaseAdapter.restore, DatabaseAdapter.call, hbase, hparts, Prog.bind, Prog.eval,
    Told.answer]
  simp only [hlist, hfile, Prog.bind, Prog.eval, Told.answer]
  have hthen : ∀ {p : DataProg α}, (p.Only fun c => overwriting c = none) →
      (p.eval told.answer
        (.engine row (.imports ctx.organizationId database file) ::
          .engine row (.executions ctx.organizationId database config) :: calls)).2.filterMap
        overwriting = [(database, file)] := by
    intro p hp
    rw [overwritten_only told hp]
    exact congrArg ((database, file) :: ·) hcalls
  -- whatever comes of the import, it is the last
  apply hthen
  refine Prog.only_bind (Prog.only_bind ?_ fun result => ?_) hf
  · cases told.others (.engine row (.imports ctx.organizationId database file)) <;> trivial
  · cases result <;> trivial

theorem overwritten_delivery {input : DataJobPayload} (ctx : JobContext)
    (h : Performed d told resource target database config)
    (hfile : latestBackupFile told.executions = some file)
    (horg : resource.organizationId = input.organizationId) :
    overwritten told (restoreJobHandler d input ctx) = [(database, file)] := by
  obtain ⟨ref, href, hparts⟩ := h.artifact
  obtain ⟨base, hbase⟩ := Option.isSome_iff_exists.mp h.configured
  have hfound : told.resource.filter (fun r => r.organizationId == input.organizationId) =
      some resource := by
    rw [h.found, Option.filter_some, beq_iff_eq.mpr horg]
    rfl
  have hkind : ¬ resource.kind ≠ .postgres := not_not.mpr h.kind
  unfold overwritten restoreJobHandler
  simp only [ControlPlaneStore.getDataResourceForService, ControlPlaneStore.getDataBackupForService,
    must, Prog.bind, Prog.eval, Told.answer, hfound, hkind, if_false, h.target, href]
  exact overwritten_restore _ hbase hparts hfile rfl fun _ => trivial

/-- Without a queue the reference is made of the backup that was read. -/
theorem artifactOf_ok {backup : DataRow} {ref : ProviderRef}
    (h : artifactOf resource (some backup) = .ok ref) :
    restorableBackup resource (some backup) = .ret backup ∧
      ref = artifactRef resource backup (backup.providerResourceId.getD "") := by
  unfold artifactOf at h
  split at h
  · cases h
  · next b hb =>
    split at h
    · cases h
    · next handle hhandle =>
      split at h
      · next hsucceeded =>
        cases h
        obtain ⟨hb', hresource⟩ := Option.filter_eq_some_iff.mp hb
        obtain ⟨hsome, hne⟩ := Option.filter_eq_some_iff.mp hhandle
        cases hb'
        refine ⟨?_, by rw [hsome]; rfl⟩
        unfold restorableBackup
        rw [hb]
        refine if_pos ⟨hsucceeded, ?_⟩
        rw [hsome]
        exact hne
      · cases h

/-- Such a request overwrites with the file that the listing gave it. -/
theorem overwritten_request {ctx : RequestContext} {input : RestoreDataInput}
    {backup row : DataRow} (h : Performed d told resource target database config)
    (hfile : latestBackupFile told.executions = some file)
    (hmay : requireCapability ctx input.organizationId .dataRestore = .ok ())
    (horg : resource.organizationId = input.organizationId)
    (hname : trim input.confirmName = resource.name) (hbackup : told.backup = some backup)
    (hrow : told.others (.store (.insertRow .restore (pendingRow resource (some backup.id)))) =
      .ok row) :
    overwritten told (restoreDataResourceNow d ctx input) = [(database, file)] := by
  obtain ⟨ref, href, hparts⟩ := h.artifact
  obtain ⟨base, hbase⟩ := Option.isSome_iff_exists.mp h.configured
  rw [hbackup] at href
  obtain ⟨hrestorable, href⟩ := artifactOf_ok href
  have hfound : told.resource.filter (fun r => r.organizationId == input.organizationId) =
      some resource := by
    rw [h.found, Option.filter_some, beq_iff_eq.mpr horg]
    rfl
  have hkind : ¬ resource.kind ≠ .postgres := not_not.mpr h.kind
  have hnamed : ¬ trim input.confirmName ≠ resource.name := not_not.mpr hname
  unfold overwritten restoreDataResourceNow authorizedResource
  simp only [hmay, checked, ControlPlaneStore.getDataResource,
    ControlPlaneStore.getDataBackupForService, ControlPlaneStore.createDataRestore, must, Prog.bind,
    Prog.eval, Told.answer, hfound, hkind, hnamed, if_false, h.target, hbackup, hrestorable, hrow]
  refine overwritten_restore _ hbase (href ▸ hparts) hfile rfl fun performed => ?_
  -- what is left is bookkeeping
  refine Prog.only_bind (only_clock rfl) fun finished => ?_
  exact Prog.only_bind (only_must rfl) fun updated => Prog.only_bind (only_must rfl) fun _ => trivial

theorem overwritten_performed {α : Type} {p : DataProg α}
    (h : Performed d told resource target database config) (hp : Performs d told resource α p)
    (hfile : latestBackupFile told.executions = some file) :
    overwritten told p = [(database, file)] := by
  cases hp with
  | delivery input ctx horg => exact overwritten_delivery ctx h hfile horg
  | request ctx input backup row hmay horg hname hbackup hrow =>
    exact overwritten_request h hfile hmay horg hname hbackup hrow

end Restoring

/-- **A restore that is performed** overwrites the target with the chosen backup's own
dump exactly if the reference is to the target's database, the chosen run succeeded
and names a file, and no later run names another. -/
theorem restores_own_iff {d : DatabaseAdapter} {told : Told} {resource : DataResource}
    {target database config : String} {α : Type} {p : DataProg α}
    (h : Performed d told resource target database config) (hp : Performs d told resource α p)
    (succeeded : Execution → Bool) (own : Execution) :
    (∀ i ∈ overwritten told p, RightImport succeeded own target i) ↔
      OwnDump succeeded own told.executions target database := by
  obtain ⟨e, file, _, _, hfile⟩ := latestBackupFile_isSome h.listed
  have hown := (@latestBackupFile_own _ own) hfile
  simp only [overwritten_performed h hp hfile, List.mem_singleton, forall_eq]
  constructor
  · intro hright
    obtain ⟨hrestorable, hnewest⟩ := hown.mp hright.file
    exact ⟨hright.database, hright.successful, hrestorable, hnewest⟩
  · intro hdump
    exact ⟨hdump.database, hown.mpr ⟨hdump.restorable, hdump.newest⟩, hdump.successful⟩

/-! ## Two restores -/

/-- What the engine calls a run that succeeded. -/
def successful (e : Execution) : Bool := e.status == "success"

def shop : DataResource := ⟨0, 1, .postgres, "shop", some "postgres", some "db"⟩

/-- The backup whose run is `chosenRun`. -/
def chosenBackup : DataRow :=
  { (⟨1, 0, none, some "postgres", .succeeded⟩ : DataRowInput) with
    id := 0
    providerResourceId := some "db/config"
    finishedAt := some 0 }

def chosenRun : Execution := ⟨"a", some "monday.sql", "success"⟩

/-- The restore of it, while the engine lists these runs. -/
def restoring (executions : List Execution) : Told :=
  ⟨some shop, some chosenBackup, executions, fun _ => .error "not asked"⟩

def aRestore : DataJobPayload := ⟨0, 1, some 0, 0, 7⟩

/-- A delivery of it. -/
def aDelivery : DataProg (AdapterResult DataExecutionResult) :=
  restoreJobHandler anEngine aRestore ⟨1, "restore-0", 30000⟩

theorem performed_restoring {executions : List Execution}
    (h : executions.any Execution.restorable = true) :
    Performed anEngine (restoring executions) shop "db" "db" "config" where
  found := rfl
  kind := rfl
  target := by decide
  configured := rfl
  artifact := by
    have hof : artifactOf shop (some chosenBackup) =
        .ok (artifactRef shop chosenBackup "db/config") := by decide
    exact ⟨artifactRef shop chosenBackup "db/config", hof, by decide⟩
  listed := h

/-- The chosen run is the only one yet. -/
theorem restores_own_first :
    (∀ i ∈ overwritten (restoring [chosenRun]) aDelivery, RightImport successful chosenRun "db" i) ↔
      OwnDump successful chosenRun [chosenRun] "db" "db" :=
  restores_own_iff (performed_restoring (by decide)) (.delivery aRestore _ rfl) successful chosenRun

/-- The nightly run failed halfway, and left a file: the restore reads that one. -/
def nightlyRun : Execution := ⟨"b", some "tuesday.sql", "failed"⟩

theorem failed_run_restored :
    ¬ ∀ (d : DatabaseAdapter) (told : Told) (resource : DataResource)
      (target database config : String) (α : Type) (p : DataProg α) (own : Execution),
      own ∈ told.executions →
      Performed d told resource target database config → Performs d told resource α p →
      ∀ i ∈ overwritten told p, RightImport successful own target i := by
  intro h
  have hperformed := @performed_restoring [nightlyRun, chosenRun] (by decide)
  have hp : Performs anEngine (restoring [nightlyRun, chosenRun]) shop _ aDelivery :=
    .delivery aRestore _ rfl
  have hright := h anEngine _ shop "db" "db" "config" _ _ chosenRun (by decide) hperformed hp
  rw [(@overwritten_performed _ _ _ _ _ _ "tuesday.sql") hperformed hp (by decide)] at hright
  exact absurd (hright _ List.mem_cons_self).file (by decide)

end CloudWai.Data
