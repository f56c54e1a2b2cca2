import CloudWai.Base.Calendar
import CloudWai.Base.Double
import CloudWai.Base.Page
import CloudWai.Contracts
import Mathlib.Tactic.NormNum

/-!
# The hard cap

`apps/api/src/procedures/billing.ts`: new work is refused once the usage of the
current month has reached the cap. The month is right for every moment
(`isGreatest_monthlyPeriodStart`), and the comparison is.

The sum is not, for two reasons. `listUsageForService` asks for five thousand records
and names no order, and a server sends no more of them than it is set up to
(`supabase/config.toml` has `max_rows = 1000`); so in a busy month the gate adds up some
of the records and lets work pass that the month's usage forbids. And the column is
`numeric`, but what is added up are doubles: ten tenths are less than one. `gates_iff`
says when neither matters: where the usage has reached the cap, the least quantities
that can make up a page do, in whatever order they are added, and where it has not, the
greatest do not.

`NaN` and the infinities, which are `numeric` too, are no quantities here.
-/

namespace CloudWai.Billing

open Base

/-- A row of `usage_records`. The table checks that the quantity is not negative, and
keeps microseconds. -/
structure UsageRecord where
  organizationId : OrganizationId
  metric : String
  quantity : ℚ
  recordedAt : Int
  nonneg : 0 ≤ quantity

/-- A row of `organization_budgets`; the period is always a month. -/
structure Budget where
  organizationId : OrganizationId
  metric : String
  limitQuantity : ℚ
  hardCap : Bool

/-- The tables that the gate reads. -/
structure Db where
  usageRecords : List UsageRecord
  organizationBudgets : List Budget

/-- The records of a metric from a moment on, given in milliseconds. -/
def Db.recordedSince (db : Db) (org : OrganizationId) (metric : String) (since : Int) :
    List UsageRecord :=
  db.usageRecords.filter fun r =>
    r.organizationId == org && r.metric == metric && 1000 * since ≤ r.recordedAt

/-- What the procedures use of the store. A store may lack either method. -/
structure BillingStore where
  getBudgetForService : Option (OrganizationId → String → Option Budget)
  listUsageForService : Option (OrganizationId → String → Int → List UsageRecord)

/-- The limit `listUsageForService` asks for. -/
def usageLimit : Nat := 5000

/-- `num`: the double that a number of the answer is read as. -/
def num (q : ℚ) : Double := Double.round q

/-- The store over PostgREST, with what it answers for the rows a query is about. -/
def supabaseStore (db : Db) (answer : List UsageRecord → List UsageRecord) : BillingStore where
  getBudgetForService := some fun org metric =>
    db.organizationBudgets.find? fun b => b.organizationId == org && b.metric == metric
  listUsageForService := some fun org metric since => answer (db.recordedSince org metric since)

/-- The first instant of the current month, UTC. -/
def monthlyPeriodStart (now : Instant) : Int :=
  let day := (now : Int) / Calendar.msPerDay
  Calendar.utc (Calendar.fullYear day) (Calendar.month day) 1

/-- The sum of the records that the store answers, added as numbers. -/
def usageSince (store : BillingStore) (org : OrganizationId) (metric : String) (since : Int) :
    Double :=
  match store.listUsageForService with
  | none => num 0
  | some list => Double.sum ((list org metric since).map fun r => num r.quantity)

/-- Why the gate is shut, with the two figures. -/
structure HardCapRefusal where
  message : String
  metric : String
  limitQuantity : Double
  usedQuantity : Double

/-- `hardCapRefusal`; `text` is how a number is written in a message. -/
def hardCapRefusal (text : Double → String) (store : BillingStore) (now : Instant)
    (org : OrganizationId) (metric : String) : Option HardCapRefusal :=
  match store.getBudgetForService with
  | none => none
  | some getBudget =>
    match getBudget org metric with
    | none => none
    | some budget =>
      if !budget.hardCap then none
      else
        let used := usageSince store org metric (monthlyPeriodStart now)
        if used < num budget.limitQuantity then none
        else
          let limit := text (num budget.limitQuantity)
          some {
            message := s!"This organization has reached its hard cap of {limit} {metric} for this month. Raise the cap in Billing to continue."
            metric
            limitQuantity := num budget.limitQuantity
            usedQuantity := used }

/-! ## What it is for -/

/-- The instant at which the month of `now` begins. -/
def BeginsMonth (now : Instant) (since : Int) : Prop :=
  IsGreatest {t : Int | Calendar.MonthStart t ∧ t ≤ now} since

/-- The quantities recorded from a moment on. -/
def Db.used (db : Db) (org : OrganizationId) (metric : String) (since : Int) : ℚ :=
  ((db.recordedSince org metric since).map (·.quantity)).sum

/-- Whichever records a server that sends `maxRows` of them at most answers with, work is
refused exactly when the month's usage has reached the cap. -/
def Gates (text : Double → String) (maxRows : Nat) (db : Db) (now : Instant) (org : OrganizationId)
    (metric : String) (cap : ℚ) : Prop :=
  ∀ answer, (∀ rows, Page.Limited usageLimit maxRows rows (answer rows)) →
    ∀ since, BeginsMonth now since →
      ((hardCapRefusal text (supabaseStore db answer) now org metric).isSome = true ↔
        cap ≤ db.used org metric since)

/-- The quantities that count in the month of `now`, as they are read. -/
def Db.ofMonth (db : Db) (now : Instant) (org : OrganizationId) (metric : String) : List Double :=
  (db.recordedSince org metric (monthlyPeriodStart now)).map fun r => num r.quantity

/-- The least quantities of a page reach a cap that is reached, and the greatest do not reach
another, in whatever order they are added. -/
structure Tells (maxRows : Nat) (db : Db) (now : Instant) (org : OrganizationId) (metric : String)
    (cap : ℚ) : Prop where
  reached : cap ≤ db.used org metric (monthlyPeriodStart now) →
    ∀ l, l.Perm (Page.firsts (· ≤ ·) (min usageLimit maxRows) (db.ofMonth now org metric)) →
      num cap ≤ Double.sum l
  below : db.used org metric (monthlyPeriodStart now) < cap →
    ∀ l, l.Perm (Page.firsts (· ≥ ·) (min usageLimit maxRows) (db.ofMonth now org metric)) →
      Double.sum l < num cap

/-! ## The month -/

theorem isGreatest_monthlyPeriodStart (now : Instant) : BeginsMonth now (monthlyPeriodStart now) :=
  Calendar.isGreatest_first (Int.natCast_nonneg now)

/-! ## The sum -/

variable {text : Double → String} {maxRows : Nat} {db : Db} {now : Instant} {org : OrganizationId}
variable {metric : String} {b : Budget} {answer : List UsageRecord → List UsageRecord}

theorem hardCapRefusal_iff
    (hb : (db.organizationBudgets.find? fun b => b.organizationId == org && b.metric == metric) =
      some b) (hcap : b.hardCap = true) :
    (hardCapRefusal text (supabaseStore db answer) now org metric).isSome = true ↔
      num b.limitQuantity ≤ Double.sum
        ((answer (db.recordedSince org metric (monthlyPeriodStart now))).map fun r => num r.quantity) := by
  have hused : usageSince (supabaseStore db answer) org metric (monthlyPeriodStart now) = Double.sum
      ((answer (db.recordedSince org metric (monthlyPeriodStart now))).map fun r => num r.quantity) :=
    rfl
  unfold hardCapRefusal
  rw [hused]
  generalize Double.sum _ = used
  simp only [supabaseStore, hb, hcap]
  by_cases hlt : used < num b.limitQuantity
  · simp [hlt]
  · simp [hlt, not_lt.mp hlt]

/-- Any page may be the answer. -/
theorem exists_answer {rows page : List UsageRecord}
    (h : Page.Limited usageLimit maxRows rows page) :
    ∃ answers : List UsageRecord → List UsageRecord,
      (∀ rows, Page.Limited usageLimit maxRows rows (answers rows)) ∧ answers rows = page := by
  classical
  refine ⟨fun rows' => if rows' = rows then page else rows'.take (min usageLimit maxRows), ?_, if_pos rfl⟩
  intro rows'
  dsimp only
  split
  next heq => exact heq ▸ h
  next => exact ⟨(List.take_sublist _ rows').subperm, List.length_take⟩

/-- **The cap holds exactly when neither the page nor the rounding can hide it.** -/
theorem gates_iff
    (hb : (db.organizationBudgets.find? fun b => b.organizationId == org && b.metric == metric) =
      some b) (hcap : b.hardCap = true) :
    Gates text maxRows db now org metric b.limitQuantity ↔
      Tells maxRows db now org metric b.limitQuantity := by
  constructor
  · intro h
    -- a page of these quantities, in this order
    have hpage : ∀ (r : Double → Double → Prop) [DecidableRel r] [Std.Total r] [IsTrans Double r],
        ∀ l, l.Perm (Page.firsts r (min usageLimit maxRows) (db.ofMonth now org metric)) →
          (num b.limitQuantity ≤ Double.sum l ↔
            b.limitQuantity ≤ db.used org metric (monthlyPeriodStart now)) := by
      intro r _ _ _ l hl
      obtain ⟨page, hlimited, rfl⟩ := Page.exists_page_of_firsts hl
      obtain ⟨answer, hanswer, rfl⟩ := exists_answer hlimited
      rw [← h answer hanswer _ (isGreatest_monthlyPeriodStart now), hardCapRefusal_iff hb hcap]
    exact ⟨fun hreached l hl => (hpage _ l hl).mpr hreached,
      fun hbelow l hl => not_le.mp fun hle => not_le.mpr hbelow ((hpage _ l hl).mp hle)⟩
  · intro h answer hanswer since hsince
    rw [hardCapRefusal_iff hb hcap, hsince.unique (isGreatest_monthlyPeriodStart now)]
    have hpage := hanswer (db.recordedSince org metric (monthlyPeriodStart now))
    rcases le_or_gt b.limitQuantity (db.used org metric (monthlyPeriodStart now)) with hreached | hbelow
    · obtain ⟨l, hl, hle⟩ := Page.exists_firsts (r := (· ≤ ·)) (f := fun r => num r.quantity) hpage
      exact iff_of_true ((h.reached hreached l hl).trans (Double.sum_mono hle)) hreached
    · obtain ⟨l, hl, hge⟩ := Page.exists_firsts (r := (· ≥ ·)) (f := fun r => num r.quantity) hpage
      refine iff_of_false (not_le.mpr ?_) (not_le.mpr hbelow)
      exact (Double.sum_mono hge.flip).trans_lt (h.below hbelow l hl)

/-- The organization has recorded a quantity so many times, and has a hard cap. -/
def capped (cap : ℚ) (n : Nat) (quantity : ℚ) (h : 0 ≤ quantity) : Db :=
  ⟨List.replicate n ⟨1, "deployments", quantity, 0, h⟩, [⟨1, "deployments", cap, true⟩]⟩

theorem recordedSince_capped {cap quantity : ℚ} {n : Nat} {h : 0 ≤ quantity} :
    (capped cap n quantity h).recordedSince 1 "deployments" (monthlyPeriodStart 0) =
      List.replicate n ⟨1, "deployments", quantity, 0, h⟩ := by
  have hmonth : monthlyPeriodStart 0 = 0 := by decide +kernel
  unfold Db.recordedSince capped
  rw [hmonth]
  exact List.filter_replicate_of_pos (by simp)

theorem used_capped {cap quantity : ℚ} {n : Nat} {h : 0 ≤ quantity} :
    (capped cap n quantity h).used 1 "deployments" (monthlyPeriodStart 0) = n * quantity := by
  unfold Db.used
  rw [recordedSince_capped, List.map_replicate, List.sum_replicate, nsmul_eq_mul]

theorem firsts_capped {r : Double → Double → Prop} [DecidableRel r] {k : Nat} {cap quantity : ℚ}
    {n : Nat} {h : 0 ≤ quantity} :
    Page.firsts r k ((capped cap n quantity h).ofMonth 0 1 "deployments") =
      List.replicate (min k n) (num quantity) := by
  unfold Db.ofMonth
  rw [recordedSince_capped, List.map_replicate]
  exact Page.firsts_replicate n k _

/-- A quiet month. -/
theorem quiet_month_gates :
    Gates (fun _ => "2") 1000 (capped 2 2 1 (by decide)) 0 1 "deployments" 2 :=
  (gates_iff (b := ⟨1, "deployments", 2, true⟩) rfl rfl).mpr {
    reached := by
      intro _ l hl
      rw [firsts_capped] at hl
      rw [List.perm_replicate.mp hl]
      decide +kernel
    below := fun h => by
      rw [used_capped] at h
      norm_num at h }

/-- One record more than the server sends, under a cap of as many; and ten tenths, under a
cap of one. -/
theorem busy_month_passes :
    ¬ Gates (fun _ => "1001") 1000 (capped 1001 1001 1 (by decide)) 0 1 "deployments" 1001 ∧
      ¬ Gates (fun _ => "1") 1000 (capped 1 10 (1 / 10) (by norm_num)) 0 1 "deployments" 1 := by
  constructor
  · intro h
    have htells := (gates_iff (b := ⟨1, "deployments", 1001, true⟩) rfl rfl).mp h
    have hsum := htells.reached (by rw [used_capped]; norm_num) _ (List.Perm.refl _)
    rw [firsts_capped] at hsum
    refine absurd hsum (not_le.mpr (Double.value_lt_iff.mp ?_))
    have hones : List.replicate (min (min usageLimit 1000) 1001) (num 1) =
        (List.replicate 1000 1).map fun k : ℕ => Double.round (k : ℚ) := by
      rw [List.map_replicate]
      norm_num [usageLimit, num]
    have hcap : num 1001 = Double.round ((1001 : ℕ) : ℚ) := by norm_num [num]
    rw [hones, hcap, Double.value_sum_nat (by rw [List.sum_replicate]; norm_num), Double.value_round_nat (by norm_num)]
    norm_num
  · intro h
    have htells := (gates_iff (b := ⟨1, "deployments", 1, true⟩) rfl rfl).mp h
    have hsum := htells.reached (by rw [used_capped]; norm_num) _ (List.Perm.refl _)
    rw [firsts_capped] at hsum
    exact absurd hsum (by decide +kernel)

end CloudWai.Billing
