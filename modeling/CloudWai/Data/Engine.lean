import CloudWai.Grammar
import CloudWai.Queue.Sql
import CloudWai.Runtime.Adapter
import CloudWai.Data.Store

/-!
# The database adapters

`postgres.ts`, which talks to Coolify, and `selfhosted-db.ts`, which talks to the
engine this deployment owns. Their `backup` and `restore` are the same requests
under another root: a backup is one `POST` whose answer names it, and a restore
looks up a file among the executions of that backup and posts its name.

A request is a call; what became of it is its answer, and `HttpAnswer.result` is
what `http.ts` makes of that. No adapter method throws.

Mirrors `packages/adapters/src/postgres.ts` and `selfhosted-db.ts`, with `createDatabase`
of `infra/deployment/postgres-server.mjs`. What the engine answers is settled outside, and
the port it chooses is the subject of `Ports`.
-/

namespace CloudWai.Data

open Base Grammar Queue

/-! ## `http.ts` -/

/-- What becomes of a request. -/
inductive HttpAnswer (β : Type) where
  | replied (code : Nat) (body : β) (message : String)
  | timedOut
  | unreachable (message : String)
deriving DecidableEq, Repr

/-- `request`: the status and the words of an answer; `what` is the method and
the address. -/
def HttpAnswer.result {β : Type} (what : String) (timeoutMs : Nat) :
    HttpAnswer β → AdapterResult β
  | .replied code body message =>
    if 200 ≤ code ∧ code < 300 then .ok .succeeded body
    else .err (Runtime.classify code) s!"{what} returned {code}{Runtime.detail message}"
  | .timedOut => .err .failed s!"{what} timed out after {timeoutMs}ms."
  | .unreachable message => .err .degraded s!"{what} unreachable: {message}"

theorem result_status {β : Type} (what : String) (timeoutMs : Nat) (a : HttpAnswer β) :
    (∃ body, a.result what timeoutMs = .ok .succeeded body) ∨
      ∃ status reason, a.result what timeoutMs = .err status reason ∧ status.Terminal := by
  cases a with
  | replied code body message =>
    simp only [HttpAnswer.result]
    split
    · exact .inl ⟨body, rfl⟩
    · refine .inr ⟨_, _, rfl, ?_⟩
      unfold Runtime.classify
      split <;> decide
  | timedOut => exact .inr ⟨_, _, rfl, by decide⟩
  | unreachable message => exact .inr ⟨_, _, rfl, by decide⟩

/-! ## Requests to an engine -/

/-- An entry of the engine's `executions`. -/
structure Execution where
  uuid : String
  filename : Option String
  status : String
deriving DecidableEq, Repr

/-- The requests of `backup` and `restore`. -/
inductive EngineCall where
  /-- `GET …/{databaseId}/backups/{backupId}/executions` -/
  | executions (org : OrganizationId) (databaseId backupId : String)
  /-- `POST …/{databaseId}/imports`, which overwrites the database. -/
  | imports (org : OrganizationId) (databaseId filename : String)
  /-- `POST …/{databaseId}/backups` -/
  | backups (org : OrganizationId) (databaseId : String)
deriving DecidableEq, Repr

/-- `executions ?? []`, nothing, and the `uuid` if there is one. -/
def EngineCall.Body : EngineCall → Type
  | .executions .. => List Execution
  | .imports .. => Unit
  | .backups .. => Option String

/-! ## Calls and programs -/

/-- `BackupJobPayload` and `RestoreJobPayload`. -/
structure DataJobPayload where
  /-- `backupId` of the one, `restoreId` of the other. -/
  recordId : Nat
  organizationId : OrganizationId
  /-- The backup to restore from. -/
  backupId : Option Nat
  dataResourceId : DataResourceId
  actorId : UserId
deriving DecidableEq, Repr

abbrev DataQueueCall := QueueCall DataJobPayload

/-- One awaited call; an engine's is labelled with the row it is made for, which
no engine sees. -/
inductive Call where
  | queue (c : DataQueueCall)
  | store (c : StoreCall)
  | engine (row : Record) (c : EngineCall)

def Call.Ans : Call → Type
  | .queue c => c.Ans
  | .store c => c.Ans
  | .engine _ c => HttpAnswer c.Body

/-- A program of the data plane. -/
abbrev DataProg (α : Type) := Prog Call Call.Ans String α

/-- A method of the SQL queue, run among the other calls. -/
def onQueue {α : Type} (p : QueueProg DataJobPayload α) : DataProg α :=
  p.embed Call.queue fun _ a => a

/-- `new Date()` -/
def clock : DataProg Instant := onQueue SqlJobQueue.now

/-- `must`: a refused store request throws. -/
def must (operation : String) (c : StoreCall) : DataProg c.Ans :=
  .await (.store c) fun
    | .ok a => .ret a
    | .error reason => .raise (unavailable operation reason)

/-! ## The adapters -/

/-- What differs between the two adapters: where the databases are, and how each
names itself when it has no credentials. -/
structure DatabaseApi where
  root : String
  missing : OrganizationId → String

/-- Where Coolify has its databases, and what is said without a token. -/
def coolifyApi : DatabaseApi where
  root := "/api/v1/databases"
  missing org := s!"The database engine is not configured for organization {org}. " ++
    "Provision a team token for this organization."

/-- The same of the self-hosted engine. -/
def selfHostedApi : DatabaseApi where
  root := "/databases"
  missing org := s!"The self-hosted database engine is not configured for organization {org}. " ++
    "Register a database-engine endpoint and token for this organization."

/-- A configured adapter: its engine's address for each organization it has
credentials of, without a final slash. -/
structure DatabaseAdapter where
  api : DatabaseApi
  credentials : OrganizationId → Option String

/-- `createPostgresDatabase` -/
def createPostgresDatabase (credentials : OrganizationId → Option String) : DatabaseAdapter :=
  ⟨coolifyApi, credentials⟩

/-- `createSelfHostedDatabase` -/
def createSelfHostedDatabase (credentials : OrganizationId → Option String) : DatabaseAdapter :=
  ⟨selfHostedApi, credentials⟩

/-- `encodeURIComponent` -/
def encodeURIComponent (s : String) : String :=
  let hex (n : Nat) : Char := if n < 10 then Char.ofNat (48 + n) else Char.ofNat (55 + n)
  let kept (c : Char) : Bool := c.isAlphanum || "-_.!~*'()".toList.contains c
  String.ofList (s.toList.flatMap fun c =>
    if kept c then [c]
    else (String.singleton c).toUTF8.toList.flatMap fun b =>
      ['%', hex (b.toNat / 16), hex (b.toNat % 16)])

/-- `executions.find((e) => e.filename && e.filename.trim() !== "")` -/
def Execution.restorable (e : Execution) : Bool :=
  e.filename.any fun name => name != "" && trim name != ""

/-- `latestBackupFile`, and `backupPath` of the self-hosted adapter, once the
executions were listed. -/
def latestBackupFile (executions : List Execution) : Option String :=
  (executions.find? Execution.restorable).bind (·.filename)

/-- The first two parts of `resourceId.split("/")`, neither of them empty. -/
def backupParts (resourceId : String) : Option (String × String) :=
  let database := resourceId.toList.takeWhile (· != '/')
  match resourceId.toList.dropWhile (· != '/') with
  | [] => none
  | _ :: rest =>
    let backup := rest.takeWhile (· != '/')
    if database.isEmpty || backup.isEmpty then none
    else some (String.ofList database, String.ofList backup)

/-- `backupRef` -/
def backupRef (org : OrganizationId) (databaseId backupId : String) : ProviderRef :=
  ⟨org, "postgres", .backup, s!"{databaseId}/{backupId}"⟩

/-- `OperationRef` -/
structure OperationRef where
  jobId : String
  providerRef : ProviderRef
deriving DecidableEq, Repr

/-- The refusal where no file can be restored. -/
def noFile : String := "The engine has no restorable backup file for this database yet."

namespace DatabaseAdapter

variable (d : DatabaseAdapter) (row : Record) (ctx : AdapterContext)

/-- `credentialsFor`, and one request with them. -/
def call (c : EngineCall) (method path : String) : DataProg (AdapterResult c.Body) :=
  match d.credentials ctx.organizationId with
  | none => .ret (.err .notConfigured (d.api.missing ctx.organizationId))
  | some base =>
    .await (.engine row c) fun
      | .ok answer => .ret (answer.result s!"{method} {base}{d.api.root}/{path}" ctx.timeoutMs)
      | .error e => .raise e

/-- `backup` -/
def backup (ref : ProviderRef) : DataProg (AdapterResult ProviderRef) :=
  (d.call row ctx (.backups ctx.organizationId ref.resourceId) "POST"
    s!"{encodeURIComponent ref.resourceId}/backups").bind fun
  | .err status reason => .ret (.err status reason)
  | .ok _ (uuid : Option String) =>
    match uuid.filter (· != "") with
    | none => .ret (.err .degraded
        "The database engine accepted a backup but returned no backup id.")
    | some uuid => .ret (.ok .succeeded (backupRef ctx.organizationId ref.resourceId uuid))

/-- `restore`: the target is named in the result and nowhere else. -/
def restore (backup target : ProviderRef) : DataProg (AdapterResult OperationRef) :=
  match d.credentials ctx.organizationId with
  | none => .ret (.err .notConfigured (d.api.missing ctx.organizationId))
  | some _ =>
    match backupParts backup.resourceId with
    | none => .ret (.err .failed "A backup reference must name a database and a backup.")
    | some (databaseId, backupId) =>
      (d.call row ctx (.executions ctx.organizationId databaseId backupId) "GET"
        (s!"{encodeURIComponent databaseId}/backups/{encodeURIComponent backupId}/executions")).bind
        fun
      | .err status reason => .ret (.err status reason)
      | .ok _ (executions : List Execution) =>
        match latestBackupFile executions with
        | none => .ret (.err .degraded noFile)
        | some filename =>
          (d.call row ctx (.imports ctx.organizationId databaseId filename) "POST"
            s!"{encodeURIComponent databaseId}/imports").bind fun
          | .err status reason => .ret (.err status reason)
          | .ok _ _ => .ret (.ok .succeeded ⟨s!"restore-{backup.resourceId}", target⟩)

end DatabaseAdapter

end CloudWai.Data
