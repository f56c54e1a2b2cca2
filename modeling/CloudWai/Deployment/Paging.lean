import CloudWai.Authorization
import CloudWai.Base.Page
import CloudWai.Deployment.Store
import Mathlib.Algebra.Order.Ring.Rat

/-!
# Paging through deployments and the audit log

Three lists are read page by page, newest first: a project's deployments, an
organization's, and its audit log (`listDeployments`, `listOrganizationDeployments` and
`listAuditEvents` of `supabase-store.ts`, and the procedures before them). The cursor of
the next page is the `createdAt` of the last row of this one, and the next page has rows
strictly older than it.

New rows land at the head and no reader ever sees them again, which is what the cursor
is for (`walk_of_reads`). But it is a timestamp alone. Where rows of one timestamp stand
on both sides of a page's end, those that did not make it onto the page are no older
than the cursor, and no page has them. And it is read by `Date.parse`, which does not
read all that the database writes: not a year of five digits, nor one before the year 1,
nor `infinity`. Such a cursor counts as none, and the reader is back on the first page.
`paging_iff` says that this is all: the lists are read to their end, each row once,
exactly if no page ends between rows of one timestamp, or with one that is not read.

An instant stands here for a timestamp of the database, in the database's order; which
of them `Date.parse` reads is a parameter.
-/

namespace CloudWai.Paging

open Base Deployment

/-- A row of `audit_logs`. -/
structure AuditRow where
  id : Nat
  organizationId : OrganizationId
  actorId : Option UserId
  event : String
  createdAt : Instant
deriving DecidableEq

/-- The control plane, with the audit log as it is listed. -/
structure Db where
  store : Store
  auditLogs : Table fun r : AuditRow => r.id

/-- What a caller may send for a cursor, by what `Date.parse` makes of it. -/
inductive Cursor where
  | stamp (t : Instant)
  | unreadable
deriving DecidableEq

/-- The fields of the three inputs that are about the page. -/
structure PageInput where
  before : Option Cursor
  limit : Option ℚ

/-- The page that is asked for. -/
structure ListPageOptions where
  before : Option Instant
  limit : Option ℚ

/-- `Date.parse`, where it is not `NaN`. -/
def Cursor.parsed : Cursor → Option Instant
  | .stamp t => some t
  | .unreadable => none

/-- A cursor that cannot be read is treated as absent. -/
def pageOf (input : PageInput) : ListPageOptions where
  before := input.before.bind Cursor.parsed
  limit := input.limit

/-- `MAX_LIST_LIMIT` -/
def maxListLimit : Nat := 200
/-- `DEFAULT_LIST_LIMIT` -/
def defaultListLimit : Nat := 100
/-- `DEFAULT_AUDIT_LIMIT` -/
def defaultAuditLimit : Nat := 200

/-- The limit that is asked for, if it is a whole number of at least one, and at most the
greatest. -/
def resolveListLimit (limit : Option ℚ) (fallback : Nat) : Nat :=
  match limit with
  | none => fallback
  | some q => if q.den ≠ 1 ∨ q < 1 then fallback else min q.num.toNat maxListLimit

/-- A request for rows older than `before`, the newest first. -/
structure PageRequest (α : Type) where
  selects : α → Bool
  before : Option Instant
  limit : Nat

/-- A list that is read in pages: its table, and what the procedure makes of a caller,
an error or the where-clause of the request. -/
structure Listing (α : Type) where
  table : Db → List α
  createdAt : α → Instant
  fallback : Nat
  select : RequestContext → Db → Except Failure (α → Bool)

/-- The procedure: the guard, and the store's request. -/
def Listing.list {α : Type} (l : Listing α) (ctx : RequestContext) (db : Db) (input : PageInput) :
    Except Failure (PageRequest α) :=
  (l.select ctx db).map fun selects =>
    let options := pageOf input
    ⟨selects, options.before, resolveListLimit options.limit l.fallback⟩

/-! ## The three lists -/

/-- The deployments of a project, for whom it is visible. -/
def listDeployments (project : ProjectId) : Listing DeploymentRow where
  table db := db.store.deployments.rows
  createdAt := (·.createdAt)
  fallback := defaultListLimit
  select ctx db :=
    match db.store.seenBy ctx.userId (·.organizationId) (db.store.projects.find project) with
    | none => .error (.api "not_found" "Project not found.")
    | some p =>
      (requireCapability ctx p.organizationId .deploymentRead).map fun _ r =>
        r.projectId == project && db.store.members r.organizationId ctx.userId

/-- Those of an organization. -/
def listOrganizationDeployments (org : OrganizationId) : Listing DeploymentRow where
  table db := db.store.deployments.rows
  createdAt := (·.createdAt)
  fallback := defaultListLimit
  select ctx db :=
    (requireCapability ctx org .deploymentRead).map fun _ r =>
      r.organizationId == org && db.store.members r.organizationId ctx.userId

/-- The audit log of an organization. -/
def listAuditEvents (org : OrganizationId) : Listing AuditRow where
  table db := db.auditLogs.rows
  createdAt := (·.createdAt)
  fallback := defaultAuditLimit
  select ctx db :=
    (requireCapability ctx org .auditRead).map fun _ r =>
      r.organizationId == org && db.store.members r.organizationId ctx.userId

/-! ## A reader -/

/-- New rows, none older than any there was. -/
def Newer {α : Type} (createdAt : α → Instant) (rows rows' : List α) : Prop :=
  ∃ new : List α, rows'.Perm (new ++ rows) ∧ ∀ r ∈ new, ∀ r' ∈ rows, createdAt r' ≤ createdAt r

/-- Rows were inserted at the head. -/
structure Headed (db db' : Db) : Prop where
  projects : db'.store.projects = db.store.projects
  members : db'.store.members = db.store.members
  deployments : Newer (fun r : DeploymentRow => r.createdAt) db.store.deployments.rows
    db'.store.deployments.rows
  auditLogs : Newer (fun r : AuditRow => r.createdAt) db.auditLogs.rows db'.auditLogs.rows

/-- A timestamp as the cursor of the next page. -/
def cursorOf (parses : Instant → Bool) (t : Instant) : Cursor :=
  if parses t then .stamp t else .unreadable

section Readers

variable {α : Type} (parses : Instant → Bool) (l : Listing α) (ctx : RequestContext)
variable (limit : Option ℚ)

/-- A page that the database may answer the procedure's request with. -/
def Answers (db : Db) (before : Option Cursor) (page : List α) : Prop :=
  ∃ request, l.list ctx db ⟨before, limit⟩ = .ok request ∧
    Page.First l.createdAt request.limit
      ((l.table db).filter fun r => request.selects r && request.before.all fun t => l.createdAt r < t)
      page

/-- The pages read so far: each is followed by one before its last row. -/
inductive Reads : Db → Option Cursor → List (List α) → Db → Option Cursor → Prop
  | start {db : Db} {before : Option Cursor} : Reads db before [] db before
  | page {db db₁ db₂ : Db} {before before₂ : Option Cursor} {page : List α} {last : α}
      {pages : List (List α)} (hpage : Answers l ctx limit db before page)
      (hlast : page.getLast? = some last) (hhead : Headed db db₁)
      (hrest : Reads db₁ (some (cursorOf parses (l.createdAt last))) pages db₂ before₂) :
      Reads db before (page :: pages) db₂ before₂

/-- The rows of the list, none for a caller who is refused. -/
def visible (db : Db) : List α :=
  match l.select ctx db with
  | .ok selects => (l.table db).filter selects
  | .error _ => []

variable [DecidableEq α]

/-- Reading on until a page is empty comes to an end, and every row there was at the start
has been read exactly once. -/
structure VisitsOnce (db : Db) : Prop where
  ends : ∀ pages db' before, Reads parses l ctx limit db none pages db' before →
    pages.length ≤ (visible l ctx db).length
  once : ∀ pages db' before, Reads parses l ctx limit db none pages db' before →
    Answers l ctx limit db' before [] → ∀ r ∈ visible l ctx db, pages.flatten.count r = 1

end Readers

/-- No page ends between rows of one timestamp, or with one that is not read. -/
structure Cut {α : Type} (parses : Instant → Bool) (l : Listing α) (ctx : RequestContext)
    (limit : Option ℚ) (db : Db) : Prop where
  apart : Page.Apart (resolveListLimit limit l.fallback) (Page.keys l.createdAt (visible l ctx db))
  readable : Page.Ends (fun t => parses t = true) (resolveListLimit limit l.fallback)
    (Page.keys l.createdAt (visible l ctx db))

/-! ## What the three lists have in common -/

/-- Inserts at the head change neither who may read a list nor its older rows. -/
structure Listing.Sound {α : Type} (l : Listing α) : Prop where
  select_eq : ∀ {ctx db db'}, Headed db db' → l.select ctx db' = l.select ctx db
  newer : ∀ {db db'}, Headed db db' → Newer l.createdAt (l.table db) (l.table db')
  nodup : ∀ db, (l.table db).Nodup
  fallback : 0 < l.fallback

theorem sound_listDeployments (project : ProjectId) : (listDeployments project).Sound where
  select_eq h := by simp only [listDeployments, Store.seenBy, h.projects, h.members]
  newer h := h.deployments
  nodup db := db.store.deployments.nodup.of_map _
  fallback := show 0 < defaultListLimit by decide

theorem sound_listOrganizationDeployments (org : OrganizationId) :
    (listOrganizationDeployments org).Sound where
  select_eq h := by simp only [listOrganizationDeployments, h.members]
  newer h := h.deployments
  nodup db := db.store.deployments.nodup.of_map _
  fallback := show 0 < defaultListLimit by decide

theorem sound_listAuditEvents (org : OrganizationId) : (listAuditEvents org).Sound where
  select_eq h := by simp only [listAuditEvents, h.members]
  newer h := h.auditLogs
  nodup db := db.auditLogs.nodup.of_map _
  fallback := show 0 < defaultAuditLimit by decide

theorem resolveListLimit_pos (limit : Option ℚ) {fallback : Nat} (h : 0 < fallback) :
    0 < resolveListLimit limit fallback := by
  unfold resolveListLimit
  split
  · exact h
  · rename_i q
    split
    · exact h
    · rename_i hq
      rw [not_or, not_not, not_lt] at hq
      have hnum : 1 ≤ q.num := by
        have hle := hq.2
        rw [← Rat.num_div_den q, hq.1, Nat.cast_one, div_one] at hle
        exact_mod_cast hle
      have hmax : 0 < maxListLimit := by decide
      omega

/-! ## A reader follows a keyset -/

section Following

variable {α : Type} {parses : Instant → Bool} {l : Listing α} {ctx : RequestContext}
variable {limit : Option ℚ} {db db' db'' : Db} {before before' before'' : Option Cursor}
variable {page : List α} {pages pages' : List (List α)}

/-- What is left to be read. -/
def left (l : Listing α) (ctx : RequestContext) (db : Db) (before : Option Cursor) : List α :=
  (visible l ctx db).filter fun r => (before.bind Cursor.parsed).all fun t => l.createdAt r < t

theorem left_none : left l ctx db none = visible l ctx db := by
  unfold left
  simp

/-- A page is answered exactly if the caller may read, and is the first of what is left. -/
theorem answers_iff : Answers l ctx limit db before page ↔
    (∃ selects, l.select ctx db = .ok selects) ∧
      Page.First l.createdAt (resolveListLimit limit l.fallback) (left l ctx db before) page := by
  unfold Answers Listing.list left visible
  cases hsel : l.select ctx db with
  | error e =>
    constructor
    · intro ⟨_, hok, _⟩
      cases hok
    · intro ⟨⟨_, hok⟩, _⟩
      cases hok
  | ok selects =>
    dsimp only [Except.map, pageOf]
    have hrows : (l.table db).filter (fun r => selects r &&
          (before.bind Cursor.parsed).all fun t => l.createdAt r < t) =
        ((l.table db).filter selects).filter fun r =>
          (before.bind Cursor.parsed).all fun t => l.createdAt r < t := by
      rw [List.filter_filter]
      congr 1
      funext r
      exact Bool.and_comm _ _
    rw [← hrows]
    constructor
    · intro ⟨request, hok, hfirst⟩
      cases hok
      exact ⟨⟨selects, rfl⟩, hfirst⟩
    · intro ⟨_, hfirst⟩
      exact ⟨_, rfl, hfirst⟩

theorem parsed_cursorOf {t : Instant} (h : parses t = true) :
    (some (cursorOf parses t)).bind Cursor.parsed = some t := by
  unfold cursorOf
  rw [if_pos h]
  rfl

theorem parsed_unread {t : Instant} (h : parses t = false) :
    (some (cursorOf parses t)).bind Cursor.parsed = none := by
  unfold cursorOf
  rw [h]
  rfl

/-- Behind the last row of a page nothing new appears. -/
theorem left_headed (hl : l.Sound) (h : Headed db db') {last : α} (hlast : last ∈ left l ctx db before)
    (hreadable : parses (l.createdAt last) = true) :
    (left l ctx db' (some (cursorOf parses (l.createdAt last)))).Perm
      ((left l ctx db before).filter fun r => l.createdAt r < l.createdAt last) := by
  obtain ⟨new, hperm, hnewer⟩ := hl.newer h
  unfold left visible at hlast ⊢
  rw [hl.select_eq h, parsed_cursorOf hreadable]
  generalize before.bind Cursor.parsed = since at hlast ⊢
  cases hsel : l.select ctx db with
  | error e => simp
  | ok selects =>
    rw [hsel] at hlast
    dsimp only at hlast ⊢
    have htable : last ∈ l.table db := List.mem_of_mem_filter (List.mem_of_mem_filter hlast)
    have hcursor : since.all (fun t => l.createdAt last < t) = true := (List.mem_filter.mp hlast).2
    refine ((hperm.filter _).filter _).trans ?_
    rw [List.filter_append, List.filter_append]
    have hnone : (new.filter selects).filter
        (fun r => (some (l.createdAt last)).all fun t => decide (l.createdAt r < t)) = [] := by
      rw [List.filter_eq_nil_iff]
      intro r hr
      have := hnewer r (List.mem_of_mem_filter hr) last htable
      simpa using this
    rw [hnone, List.nil_append]
    conv_rhs => rw [List.filter_filter]
    have hsame : ∀ r, (some (l.createdAt last)).all (fun t => decide (l.createdAt r < t)) =
        (decide (l.createdAt r < l.createdAt last) &&
          since.all fun t => decide (l.createdAt r < t)) := by
      intro r
      by_cases hr : l.createdAt r < l.createdAt last
      · cases since with
        | none => simp [hr]
        | some t =>
          have ht : l.createdAt last < t := by simpa using hcursor
          simp [hr, Nat.lt_trans hr ht]
      · simp [hr]
    simp only [hsame]
    exact List.Perm.refl _

theorem mem_of_first {rows : List α} {n : Nat} (h : Page.First l.createdAt n rows page) {r : α}
    (hr : r ∈ page) : r ∈ rows := by
  obtain ⟨order, hperm, _, rfl⟩ := h
  exact hperm.mem_iff.mp (List.mem_of_mem_take hr)

theorem headed_refl (db : Db) : Headed db db :=
  ⟨rfl, rfl, ⟨[], List.Perm.refl _, fun _ h => (nomatch h)⟩,
    ⟨[], List.Perm.refl _, fun _ h => (nomatch h)⟩⟩

/-! ### If the pages are cut well -/

/-- **A reading whose pages are cut well is a walk along the keyset,** whatever was inserted
meanwhile, and each page takes something away. -/
theorem walk_of_reads (hl : l.Sound) (h : Reads parses l ctx limit db before pages db' before')
    (hapart : Page.Apart (resolveListLimit limit l.fallback)
      (Page.keys l.createdAt (left l ctx db before)))
    (hends : Page.Ends (fun t => parses t = true) (resolveListLimit limit l.fallback)
      (Page.keys l.createdAt (left l ctx db before))) :
    pages.length ≤ (left l ctx db before).length ∧
      (Answers l ctx limit db' before' [] →
        Page.Walk l.createdAt (resolveListLimit limit l.fallback) (left l ctx db before) pages) := by
  have hpos := resolveListLimit_pos limit hl.fallback
  induction h with
  | start =>
    refine ⟨Nat.zero_le _, fun hend => ?_⟩
    rw [Page.nil_of_first hpos (answers_iff.mp hend).2]
    exact .done
  | page hpage hlast hhead _ ih =>
    have hfirst := (answers_iff.mp hpage).2
    have hmem := mem_of_first hfirst (List.mem_of_getLast? hlast)
    have hapart' := Page.apart_beyond hpos hapart hfirst hlast
    obtain ⟨hreadable, hends'⟩ := (Page.ends_iff_beyond hpos hapart hfirst hlast).mp hends
    have hleft := left_headed hl hhead hmem hreadable
    rw [← Page.keys_perm hleft] at hapart' hends'
    obtain ⟨hlength, hwalk⟩ := ih hapart' hends'
    have hlt := Page.length_filter_lt l.createdAt hmem
    rw [hleft.length_eq] at hlength
    refine ⟨?_, fun hend => .page hfirst hlast (Page.walk_perm (hwalk hend) hleft)⟩
    rw [List.length_cons]
    omega

/-! ### If the pages are not -/

theorem Reads.append (h : Reads parses l ctx limit db before pages db' before')
    (h' : Reads parses l ctx limit db' before' pages' db'' before'') :
    Reads parses l ctx limit db before (pages ++ pages') db'' before'' := by
  induction h with
  | start => exact h'
  | page hpage hlast hhead _ ih => exact .page hpage hlast hhead (ih h')

/-- A cursor that is not read is none. -/
theorem Reads.restart (h : Reads parses l ctx limit db none pages db' before') (hne : pages ≠ [])
    (hnone : before.bind Cursor.parsed = none) :
    Reads parses l ctx limit db before pages db' before' := by
  cases h with
  | start => exact absurd rfl hne
  | page hpage hlast hhead hrest =>
    refine .page ?_ hlast hhead hrest
    rw [answers_iff] at hpage ⊢
    unfold left at hpage ⊢
    rw [hnone]
    exact hpage

/-- Back on the first page, one reads for ever. -/
theorem exists_reads_of_loop {t : Instant}
    (h : Reads parses l ctx limit db none pages db (some (cursorOf parses t))) (hne : pages ≠ [])
    (hunread : parses t = false) (n : Nat) :
    ∃ pages' before', Reads parses l ctx limit db none pages' db before' ∧ n ≤ pages'.length := by
  induction n with
  | zero => exact ⟨[], none, .start, Nat.le_refl 0⟩
  | succ n ih =>
    obtain ⟨pages', before', hreads, hlength⟩ := ih
    have hpos := List.length_pos_iff.mpr hne
    by_cases hnil : pages' = []
    · rw [hnil] at hlength
      exact ⟨pages, _, h, by simp only [List.length_nil] at hlength; omega⟩
    · refine ⟨_, _, h.append (hreads.restart hnil (parsed_unread hunread)), ?_⟩
      rw [List.length_append]
      omega

/-- Every walk is a reading, of a table into which nothing is inserted: to its end, or to a
page that ends with a timestamp that is not read. -/
theorem reads_of_walk {selects : α → Bool} {rows : List α} (hsel : l.select ctx db = .ok selects)
    (hl : l.Sound)
    (h : Page.Walk l.createdAt (resolveListLimit limit l.fallback) rows pages) :
    ∀ before, rows.Perm (left l ctx db before) →
      ((∀ page ∈ pages, ∀ last ∈ page.getLast?, parses (l.createdAt last) = true) ∧
          ∃ before', Reads parses l ctx limit db before pages db before' ∧
            Answers l ctx limit db before' []) ∨
        ∃ pages' t, pages' ≠ [] ∧ parses t = false ∧
          Reads parses l ctx limit db before pages' db (some (cursorOf parses t)) := by
  induction h with
  | done =>
    intro before hleft
    refine .inl ⟨fun _ h => absurd h List.not_mem_nil, before, .start, answers_iff.mpr ⟨⟨selects, hsel⟩, ?_⟩⟩
    exact ⟨[], hleft, List.Pairwise.nil, List.take_nil.symm⟩
  | @page rows page last pages hpage hlast _ ih =>
    intro before hleft
    obtain ⟨order, horder, hsorted, hpage⟩ := hpage
    have hfirst : Page.First l.createdAt _ (left l ctx db before) _ :=
      ⟨order, horder.trans hleft, hsorted, hpage⟩
    have hanswers : Answers l ctx limit db before page := answers_iff.mpr ⟨⟨selects, hsel⟩, hfirst⟩
    have hmem := mem_of_first hfirst (List.mem_of_getLast? hlast)
    cases hreadable : parses (l.createdAt last) with
    | false =>
      exact .inr ⟨[page], _, List.cons_ne_nil _ _, hreadable,
        .page hanswers hlast (headed_refl db) .start⟩
    | true =>
      rcases ih _ ((hleft.filter _).trans (left_headed hl (headed_refl db) hmem hreadable).symm) with
        ⟨hall, before', hreads, hend⟩ | ⟨pages', t, _, hunread, hreads⟩
      · refine .inl ⟨?_, before', .page hanswers hlast (headed_refl db) hreads, hend⟩
        rw [List.forall_mem_cons]
        refine ⟨?_, hall⟩
        rw [hlast]
        rintro _ ⟨⟩
        exact hreadable
      · exact .inr ⟨page :: pages', t, List.cons_ne_nil _ _, hunread,
          .page hanswers hlast (headed_refl db) hreads⟩

theorem nodup_visible (hl : l.Sound) : (visible l ctx db).Nodup := by
  unfold visible
  split
  · exact (hl.nodup db).filter _
  · exact List.nodup_nil

variable [DecidableEq α]

/-- Where reading comes to an end, every walk is a reading. -/
theorem reads_of_visitsOnce (hl : l.Sound) (h : VisitsOnce parses l ctx limit db)
    (hwalk : Page.Walk l.createdAt (resolveListLimit limit l.fallback) (visible l ctx db) pages)
    (hne : visible l ctx db ≠ []) :
    (∀ page ∈ pages, ∀ last ∈ page.getLast?, parses (l.createdAt last) = true) ∧
      ∃ before', Reads parses l ctx limit db none pages db before' ∧
        Answers l ctx limit db before' [] := by
  have hselects : ∃ selects, l.select ctx db = .ok selects := by
    unfold visible at hne
    split at hne
    next selects hsel => exact ⟨selects, hsel⟩
    next => exact absurd rfl hne
  obtain ⟨selects, hsel⟩ := hselects
  rcases reads_of_walk hsel hl hwalk none (by rw [left_none]) with hread | ⟨pages', t, hne', hunread, hloop⟩
  · exact hread
  · obtain ⟨pages'', before', hreads, hlong⟩ :=
      exists_reads_of_loop hloop hne' hunread ((visible l ctx db).length + 1)
    have := h.ends pages'' db before' hreads
    omega

/-- A list is read completely exactly if its pages are cut well. -/
theorem visitsOnce_iff (hl : l.Sound) (parses : Instant → Bool) (ctx : RequestContext)
    (limit : Option ℚ) (db : Db) :
    VisitsOnce parses l ctx limit db ↔ Cut parses l ctx limit db := by
  have hpos := resolveListLimit_pos limit hl.fallback
  constructor
  · intro h
    have hapart : Page.Apart (resolveListLimit limit l.fallback)
        (Page.keys l.createdAt (visible l ctx db)) := by
      rw [← Page.complete_iff hpos (nodup_visible hl)]
      intro pages hwalk r hr
      obtain ⟨-, before, hreads, hend⟩ := reads_of_visitsOnce hl h hwalk (List.ne_nil_of_mem hr)
      exact h.once pages db before hreads hend r hr
    refine ⟨hapart, ?_⟩
    by_cases hne : visible l ctx db = []
    · rw [hne]
      intro k hlt
      exact absurd hlt (Nat.not_lt_zero _)
    · obtain ⟨pages, hwalk⟩ := Page.exists_walk l.createdAt hpos (visible l ctx db)
      exact Page.ends_of_walk hpos hwalk hapart (reads_of_visitsOnce hl h hwalk hne).1
  · intro h
    have hcomplete := (Page.complete_iff hpos (nodup_visible hl)).mpr h.apart
    have hapart := h.apart
    have hends := h.readable
    rw [← left_none (l := l)] at hapart hends
    constructor
    · intro pages db' before hreads
      have := (walk_of_reads hl hreads hapart hends).1
      rwa [left_none] at this
    · intro pages db' before hreads hend
      have hwalk := (walk_of_reads hl hreads hapart hends).2 hend
      rw [left_none] at hwalk
      exact hcomplete pages hwalk

end Following

/-- **Each list is read completely, every row once, exactly if none of its pages ends
between rows of one timestamp, or with one that `Date.parse` does not read.** -/
theorem paging_iff (parses : Instant → Bool) (ctx : RequestContext) (limit : Option ℚ) (db : Db) :
    (∀ project, VisitsOnce parses (listDeployments project) ctx limit db ↔
      Cut parses (listDeployments project) ctx limit db) ∧
    (∀ org, VisitsOnce parses (listOrganizationDeployments org) ctx limit db ↔
      Cut parses (listOrganizationDeployments org) ctx limit db) ∧
    (∀ org, VisitsOnce parses (listAuditEvents org) ctx limit db ↔
      Cut parses (listAuditEvents org) ctx limit db) :=
  ⟨fun project => visitsOnce_iff (sound_listDeployments project) parses ctx limit db,
    fun org => visitsOnce_iff (sound_listOrganizationDeployments org) parses ctx limit db,
    fun org => visitsOnce_iff (sound_listAuditEvents org) parses ctx limit db⟩

/-- The instants from 1970 on, in milliseconds, whose year `Date.parse` reads. -/
def fourDigitYear (t : Instant) : Bool := t < 253402300800000

/-- An audit log of two entries, in an organization of one. -/
def audited (first second : Instant) : Db where
  store := Store.initial Table.empty fun _ _ => true
  auditLogs := ⟨[⟨1, 1, some 1, "project.created", first⟩, ⟨2, 1, some 1, "git.linked", second⟩],
    by simp⟩

/-- Of two entries of one timestamp, read one by one, one is never seen; and from an entry
of the year 10000 the reader never gets to the one before it. -/
theorem audit_log_not_read :
    ¬ VisitsOnce fourDigitYear (listAuditEvents 1) ⟨1, [⟨1, 1, .owner⟩], none⟩ (some 1)
        (audited 7 7) ∧
      ¬ VisitsOnce fourDigitYear (listAuditEvents 1) ⟨1, [⟨1, 1, .owner⟩], none⟩ (some 1)
        (audited 7 253402300800000) := by
  constructor
  · intro h
    have hcut := (visitsOnce_iff (sound_listAuditEvents 1) _ _ _ _).mp h
    exact hcut.apart 1 (by decide) (by decide +kernel) (by decide +kernel)
  · intro h
    have hcut := (visitsOnce_iff (sound_listAuditEvents 1) _ _ _ _).mp h
    have := hcut.readable 0 (by decide +kernel) 253402300800000 (by decide +kernel)
    exact absurd this (by decide +kernel)

end CloudWai.Paging
