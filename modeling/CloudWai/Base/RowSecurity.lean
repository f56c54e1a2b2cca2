import Mathlib.Data.List.Forall2
import Mathlib.Data.List.Nodup

/-!
# Statements under row-level security

What one session may do to a table, row by row, as a database with row-level
security settles it. A statement inserts rows, updates rows or deletes rows, any
number of them at once. Its policies are evaluated in the state before it; a row
that an `update` or a `delete` may not touch is passed over, a row that may not be
written makes the whole statement an error, and so does a primary key that is then
there twice. An error changes nothing.

`exec_after` and `exec_before` say what a statement can make of a table, and are
all that is needed of `exec` afterwards. `exec_filter` is the frame rule: rows that
none of the policies lets a session touch are the same rows, in the same order.
-/

namespace Base

/-- Who runs a statement: a client signed in as a user, or the service role, which
the policies do not hold back. -/
inductive Session (U : Type) where
  | client (user : U)
  | service
deriving DecidableEq, Repr

/-- A policy asks about the user of a client, and nothing of the service role. -/
def Session.passes {U : Type} (policy : U → Bool) : Session U → Bool
  | .client user => policy user
  | .service => true

/-- One statement on one table. -/
inductive Statement (ρ : Type) where
  | insert (drafts : List ρ)
  | update (hits : ρ → Bool) (set : ρ → ρ)
  | delete (hits : ρ → Bool)

/-- A table's primary key, its policies, and its triggers before a row is written,
which may change the row or raise an error. -/
structure Rules (U W ρ κ : Type) where
  key : ρ → κ
  /-- `for insert … with check` -/
  mayInsert : U → W → ρ → Bool
  /-- `for update … using`, of the row as it is -/
  mayUpdate : U → W → ρ → Bool
  /-- `for update … with check`, of the row as it becomes -/
  mayBecome : U → W → ρ → Bool
  /-- `for delete … using` -/
  mayDelete : U → W → ρ → Bool
  beforeInsert : Session U → W → ρ → Option ρ
  beforeUpdate : Session U → W → (old new : ρ) → Option ρ

theorem forall₂_of_mapM {α β : Type} {f : α → Option β} {as : List α} {bs : List β}
    (h : as.mapM f = some bs) : List.Forall₂ (fun a b => f a = some b) as bs := by
  induction as generalizing bs with
  | nil =>
    rw [List.mapM_nil] at h
    cases h
    exact .nil
  | cons a as ih =>
    rw [List.mapM_cons] at h
    obtain ⟨b, hb, hrest⟩ := Option.bind_eq_some_iff.mp h
    obtain ⟨rest, hmap, hbs⟩ := Option.bind_eq_some_iff.mp hrest
    cases hbs
    exact .cons hb (ih hmap)

theorem mem_of_mapM {α β : Type} {f : α → Option β} {as : List α} {bs : List β}
    (h : as.mapM f = some bs) {b : β} (hb : b ∈ bs) : ∃ a ∈ as, f a = some b := by
  have hall := forall₂_of_mapM h
  clear h
  induction hall with
  | nil => cases hb
  | cons hone _ ih =>
    cases hb with
    | head => exact ⟨_, List.mem_cons_self, hone⟩
    | tail _ hb =>
      obtain ⟨a, ha, hone⟩ := ih hb
      exact ⟨a, List.mem_cons_of_mem _ ha, hone⟩

theorem mapM_of_mem {α β : Type} {f : α → Option β} {as : List α} {bs : List β}
    (h : as.mapM f = some bs) {a : α} (ha : a ∈ as) : ∃ b ∈ bs, f a = some b := by
  have hall := forall₂_of_mapM h
  clear h
  induction hall with
  | nil => cases ha
  | cons hone _ ih =>
    cases ha with
    | head => exact ⟨_, List.mem_cons_self, hone⟩
    | tail _ ha =>
      obtain ⟨b, hb, hone⟩ := ih ha
      exact ⟨b, List.mem_cons_of_mem _ hb, hone⟩

namespace Rules

variable {U W ρ κ : Type} (R : Rules U W ρ κ) (s : Session U) (w : W)

/-- What an `insert` makes of a draft, if it may. -/
def inserted (draft : ρ) : Option ρ :=
  (R.beforeInsert s w draft).filter fun r => s.passes fun u => R.mayInsert u w r

/-- The rows a statement with this filter updates. -/
def updates (hits : ρ → Bool) (r : ρ) : Bool := hits r && s.passes fun u => R.mayUpdate u w r

/-- What an `update` makes of such a row, if it may. -/
def updated (set : ρ → ρ) (r : ρ) : Option ρ :=
  (R.beforeUpdate s w r (set r)).filter fun r' => s.passes fun u => R.mayBecome u w r'

/-- The rows a statement with this filter deletes. -/
def deletes (hits : ρ → Bool) (r : ρ) : Bool := hits r && s.passes fun u => R.mayDelete u w r

/-- The rows after a statement, before their keys are compared. -/
def written (rows : List ρ) : Statement ρ → Option (List ρ)
  | .insert drafts => (drafts.mapM (R.inserted s w)).map (rows ++ ·)
  | .update hits set =>
    rows.mapM fun r => if R.updates s w hits r then R.updated s w set r else some r
  | .delete hits => some (rows.filter fun r => !R.deletes s w hits r)

/-- The statement puts this row into the table. -/
def Makes (st : Statement ρ) (r' : ρ) : Prop :=
  ∃ drafts, st = .insert drafts ∧ ∃ draft ∈ drafts, R.inserted s w draft = some r'

/-- It turns the one row into the other. -/
def Turns (st : Statement ρ) (r r' : ρ) : Prop :=
  ∃ hits set, st = .update hits set ∧ R.updates s w hits r = true ∧ R.updated s w set r = some r'

/-- It takes the row out. -/
def Drops (st : Statement ρ) (r : ρ) : Prop :=
  ∃ hits, st = .delete hits ∧ R.deletes s w hits r = true

/-- The rows after a statement, or an error. -/
def exec [DecidableEq κ] (rows : List ρ) (st : Statement ρ) : Option (List ρ) :=
  (R.written s w rows st).filter fun rows' => decide (rows'.map R.key).Nodup

variable {R s w} {rows rows' : List ρ} {st : Statement ρ}

/-- One row of an update is passed over, or turned into another. -/
theorem row_of_update {hits : ρ → Bool} {set : ρ → ρ} {r r' : ρ}
    (h : (if R.updates s w hits r then R.updated s w set r else some r) = some r') :
    r' = r ∨ R.Turns s w (.update hits set) r r' := by
  split at h
  next hhit => exact .inr ⟨hits, set, rfl, hhit, h⟩
  next => exact .inl (Option.some.inj h).symm

variable [DecidableEq κ]

theorem written_of_exec (h : R.exec s w rows st = some rows') :
    R.written s w rows st = some rows' := (Option.filter_eq_some_iff.mp h).1

theorem nodup_of_exec (h : R.exec s w rows st = some rows') : (rows'.map R.key).Nodup :=
  of_decide_eq_true (Option.filter_eq_some_iff.mp h).2

/-- A `delete` cannot fail. -/
theorem exec_delete (h : (rows.map R.key).Nodup) (hits : ρ → Bool) :
    R.exec s w rows (.delete hits) = some (rows.filter fun r => !R.deletes s w hits r) :=
  Option.filter_eq_some_iff.mpr ⟨rfl, decide_eq_true (h.sublist (List.filter_sublist.map _))⟩

theorem mapM_eq_map {α β : Type} {f : α → Option β} {g : α → β} {as : List α}
    (h : ∀ a ∈ as, f a = some (g a)) : as.mapM f = some (as.map g) := by
  induction as with
  | nil => rfl
  | cons a as ih =>
    rw [List.mapM_cons, h a List.mem_cons_self, ih fun a' ha => h a' (List.mem_cons_of_mem _ ha)]
    rfl

/-- An `update` that may write what it hits. -/
theorem exec_update {hits : ρ → Bool} {set g : ρ → ρ} (hnodup : (rows.map R.key).Nodup)
    (hkey : ∀ r ∈ rows, R.key (g r) = R.key r)
    (h : ∀ r ∈ rows, if R.updates s w hits r then R.updated s w set r = some (g r) else g r = r) :
    R.exec s w rows (.update hits set) = some (rows.map g) := by
  refine Option.filter_eq_some_iff.mpr ⟨mapM_eq_map fun r hr => ?_, decide_eq_true ?_⟩
  · have hrow := h r hr
    split at hrow
    next hhit => rw [if_pos hhit, hrow]
    next hhit => rw [if_neg hhit, hrow]
  · have hsame : rows.map (R.key ∘ g) = rows.map R.key := List.map_congr_left hkey
    rw [List.map_map, hsame]
    exact hnodup

/-- An `update` of a row that it may not write. -/
theorem exec_update_none {hits : ρ → Bool} {set : ρ → ρ} {r : ρ} (hr : r ∈ rows)
    (hhit : R.updates s w hits r = true) (h : R.updated s w set r = none) :
    R.exec s w rows (.update hits set) = none := by
  cases hexec : R.exec s w rows (.update hits set) with
  | none => rfl
  | some rows' =>
    obtain ⟨_, _, hone⟩ := mapM_of_mem (written_of_exec hexec) hr
    rw [if_pos hhit, h] at hone
    cases hone

/-- A row inserted has a key that was not there. -/
theorem fresh_of_insert {drafts new : List ρ}
    (h : R.exec s w rows (.insert drafts) = some (rows ++ new)) {r' : ρ} (hr : r' ∈ new) :
    R.key r' ∉ rows.map R.key := by
  have hnodup := nodup_of_exec h
  rw [List.map_append] at hnodup
  intro hold
  exact List.disjoint_of_nodup_append hnodup hold (List.mem_map_of_mem hr)

/-- **A row after a statement** was there, or is made by it, or a row that was there is
turned into it. -/
theorem exec_after (h : R.exec s w rows st = some rows') {r' : ρ} (hr : r' ∈ rows') :
    r' ∈ rows ∨ (R.Makes s w st r' ∧ R.key r' ∉ rows.map R.key) ∨
      ∃ r ∈ rows, R.Turns s w st r r' := by
  have hwritten := written_of_exec h
  cases st with
  | insert drafts =>
    obtain ⟨new, hnew, rfl⟩ := Option.map_eq_some_iff.mp hwritten
    rcases List.mem_append.mp hr with hold | hmade
    · exact .inl hold
    · exact .inr (.inl ⟨⟨drafts, rfl, mem_of_mapM hnew hmade⟩, fresh_of_insert h hmade⟩)
  | update hits set =>
    obtain ⟨r, hmem, hone⟩ := mem_of_mapM hwritten hr
    rcases row_of_update hone with rfl | hturns
    · exact .inl hmem
    · exact .inr (.inr ⟨r, hmem, hturns⟩)
  | delete hits =>
    obtain rfl := Option.some.inj hwritten
    exact .inl (List.mem_filter.mp hr).1

/-- **A row before a statement** is there afterwards, or has been turned into one that
is, or is dropped. -/
theorem exec_before (h : R.exec s w rows st = some rows') {r : ρ} (hr : r ∈ rows) :
    r ∈ rows' ∨ (∃ r' ∈ rows', R.Turns s w st r r') ∨ R.Drops s w st r := by
  have hwritten := written_of_exec h
  cases st with
  | insert drafts =>
    obtain ⟨new, _, rfl⟩ := Option.map_eq_some_iff.mp hwritten
    exact .inl (List.mem_append_left _ hr)
  | update hits set =>
    obtain ⟨r', hmem, hone⟩ := mapM_of_mem hwritten hr
    rcases row_of_update hone with rfl | hturns
    · exact .inl hmem
    · exact .inr (.inl ⟨r', hmem, hturns⟩)
  | delete hits =>
    obtain rfl := Option.some.inj hwritten
    by_cases hhit : R.deletes s w hits r = true
    · exact .inr (.inr ⟨hits, rfl, hhit⟩)
    · exact .inl (List.mem_filter.mpr ⟨hr, by simpa using hhit⟩)

/-- **Frame rule.** Rows that a statement neither makes, nor turns, nor turns others
into, nor drops, are the same after it. -/
theorem exec_filter {P : ρ → Bool} (h : R.exec s w rows st = some rows')
    (hmakes : ∀ r', R.Makes s w st r' → R.key r' ∉ rows.map R.key → P r' = false)
    (hturns : ∀ r ∈ rows, ∀ r', R.Turns s w st r r' → P r = false ∧ P r' = false)
    (hdrops : ∀ r ∈ rows, R.Drops s w st r → P r = false) : rows'.filter P = rows.filter P := by
  have hwritten := written_of_exec h
  cases st with
  | insert drafts =>
    obtain ⟨new, hnew, rfl⟩ := Option.map_eq_some_iff.mp hwritten
    have hnone : new.filter P = [] := by
      refine List.filter_eq_nil_iff.mpr fun r' hr => ?_
      rw [hmakes r' ⟨drafts, rfl, mem_of_mapM hnew hr⟩ (fresh_of_insert h hr)]
      exact Bool.false_ne_true
    rw [List.filter_append, hnone, List.append_nil]
  | update hits set =>
    have hall := forall₂_of_mapM hwritten
    clear hwritten h hmakes
    induction hall with
    | nil => rfl
    | @cons r r' rest rest' hone _ ih =>
      have htail := ih (fun x hx => hturns x (List.mem_cons_of_mem _ hx))
        fun x hx => hdrops x (List.mem_cons_of_mem _ hx)
      rcases row_of_update hone with rfl | hturn
      · rw [List.filter_cons, List.filter_cons, htail]
      · obtain ⟨hold, hnew⟩ := hturns r List.mem_cons_self r' hturn
        simp [hold, hnew, htail]
  | delete hits =>
    obtain rfl := Option.some.inj hwritten
    rw [List.filter_filter]
    refine List.filter_congr fun r hr => ?_
    by_cases hhit : R.deletes s w hits r = true
    · rw [hdrops r hr ⟨hits, rfl, hhit⟩]
      rfl
    · rw [Bool.eq_false_iff.mpr hhit]
      exact Bool.and_true _

end Rules

end Base
