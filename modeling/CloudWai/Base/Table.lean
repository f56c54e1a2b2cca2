import Mathlib.Data.List.Nodup
import Mathlib.Data.List.MinMax

/-!
# Tables with a primary key

A database table is a list of rows in which no two share a key; the key
constraint is a field, so a table that violates it cannot be built. The three
statements the repository's SQL uses are a lookup by key, an `update … where`
that leaves the key alone, and an insert under a key that is not taken.

Everything below is read through `find`: an update is a map over what `find`
answers (`find_update`), an insert adds one answer (`find_insert`), and a row is
in the table exactly if its key finds it (`find_eq_some`).
-/

namespace Base

/-- Rows with pairwise distinct keys, in insertion order. -/
structure Table {κ α : Type} (key : α → κ) where
  rows : List α
  nodup : (rows.map key).Nodup

namespace Table

variable {κ α : Type} {key : α → κ}

instance : Membership α (Table key) := ⟨fun t a => a ∈ t.rows⟩

theorem mem_rows {t : Table key} {a : α} : a ∈ t ↔ a ∈ t.rows := Iff.rfl

/-- The table with no rows. -/
def empty : Table key := ⟨[], List.nodup_nil⟩

@[simp] theorem not_mem_empty (a : α) : a ∉ (empty : Table key) := List.not_mem_nil

/-- A change to a row that leaves its key alone: a `set` clause. -/
structure Edit (key : α → κ) where
  run : α → α
  keeps : ∀ a, key (run a) = key a

/-- The row as `update … where p` leaves it. -/
def Edit.on (f : Edit key) (p : α → Bool) (a : α) : α := if p a then f.run a else a

theorem Edit.on_hit {f : Edit key} {p : α → Bool} {a : α} (h : p a = true) : f.on p a = f.run a :=
  if_pos h

theorem Edit.on_miss {f : Edit key} {p : α → Bool} {a : α} (h : p a = false) : f.on p a = a :=
  if_neg (by simp [h])

theorem Edit.on_key (f : Edit key) (p : α → Bool) (a : α) : key (f.on p a) = key a := by
  unfold Edit.on
  split
  · exact f.keeps a
  · rfl

/-- `update … set f where p`. -/
def update (t : Table key) (p : α → Bool) (f : Edit key) : Table key where
  rows := t.rows.map (f.on p)
  nodup := by
    have hmap : (t.rows.map (f.on p)).map key = t.rows.map key := by
      rw [List.map_map]
      exact List.map_congr_left fun a _ => f.on_key p a
    rw [hmap]
    exact t.nodup

/-- A row after an update is one its filter missed, or the edit of one it hit. -/
theorem mem_update {t : Table key} {p : α → Bool} {f : Edit key} {b : α} :
    b ∈ t.update p f ↔ (b ∈ t ∧ p b = false) ∨ ∃ a ∈ t, p a = true ∧ b = f.run a := by
  rw [mem_rows, update, List.mem_map]
  constructor
  · rintro ⟨a, ha, rfl⟩
    cases hp : p a with
    | false =>
      left
      rw [Edit.on_miss hp]
      exact ⟨ha, hp⟩
    | true =>
      right
      exact ⟨a, ha, hp, Edit.on_hit hp⟩
  · rintro (⟨hb, hp⟩ | ⟨a, ha, hp, rfl⟩)
    · exact ⟨b, hb, Edit.on_miss hp⟩
    · exact ⟨a, ha, Edit.on_hit hp⟩

/-- An edit that changes no row it hits changes nothing. -/
theorem update_self {t : Table key} {p : α → Bool} {f : Edit key}
    (h : ∀ a ∈ t, p a = true → f.run a = a) : t.update p f = t := by
  have hrows : t.rows.map (f.on p) = t.rows := by
    refine (List.map_congr_left fun a ha => ?_).trans (List.map_id _)
    unfold Edit.on
    split
    next hp => exact h a ha hp
    next => rfl
  cases t
  simp only [update, hrows]

/-- `delete … where p` -/
def delete (t : Table key) (p : α → Bool) : Table key where
  rows := t.rows.filter fun a => !p a
  nodup := t.nodup.sublist (List.filter_sublist.map key)

theorem mem_delete {t : Table key} {p : α → Bool} {a : α} :
    a ∈ t.delete p ↔ a ∈ t ∧ p a = false := by
  rw [mem_rows, delete, List.mem_filter, Bool.not_eq_true']
  rfl

section Find

variable [DecidableEq κ]

/-- The row with key `k`. -/
def find (t : Table key) (k : κ) : Option α := t.rows.find? fun a => decide (key a = k)

@[simp] theorem find_empty (k : κ) : (empty : Table key).find k = none := rfl

theorem mem_of_find {t : Table key} {k : κ} {a : α} (h : t.find k = some a) :
    a ∈ t ∧ key a = k := by
  have hk := List.find?_some h
  exact ⟨List.mem_of_find?_eq_some h, by simpa using hk⟩

private theorem find?_of_mem {l : List α} (hl : (l.map key).Nodup) {a : α} (ha : a ∈ l) :
    l.find? (fun b => decide (key b = key a)) = some a := by
  induction l with
  | nil => exact absurd ha List.not_mem_nil
  | cons b l ih =>
    rw [List.map_cons, List.nodup_cons] at hl
    rcases List.mem_cons.mp ha with rfl | ha'
    · exact List.find?_cons_of_pos (decide_eq_true rfl)
    · have hne : key b ≠ key a := by
        intro he
        exact hl.1 (List.mem_map.mpr ⟨a, ha', he.symm⟩)
      rw [List.find?_cons_of_neg (by simpa using hne)]
      exact ih hl.2 ha'

/-- Membership and lookup say the same. -/
theorem find_eq_some {t : Table key} {k : κ} {a : α} :
    t.find k = some a ↔ a ∈ t ∧ key a = k := by
  constructor
  · exact mem_of_find
  · rintro ⟨ha, rfl⟩
    exact find?_of_mem t.nodup ha

theorem find_eq_none {t : Table key} {k : κ} : t.find k = none ↔ ∀ a ∈ t, key a ≠ k := by
  simp only [find, List.find?_eq_none, decide_eq_true_eq]
  rfl

/-- Tables with the same rows answer alike. -/
theorem find_congr {t t' : Table key} (h : ∀ a, a ∈ t ↔ a ∈ t') (k : κ) : t.find k = t'.find k := by
  refine Option.ext ?_
  intro a
  rw [find_eq_some, find_eq_some, h]

/-- An update maps every lookup. -/
theorem find_update (t : Table key) (p : α → Bool) (f : Edit key) (k : κ) :
    (t.update p f).find k = (t.find k).map (f.on p) := by
  simp only [find, update, List.find?_map, Function.comp_def, Edit.on_key]

/-- Rows an update's filter misses are still there. -/
theorem find_update_of_not {t : Table key} {p : α → Bool} {f : Edit key} {k : κ}
    (h : ∀ a, t.find k = some a → p a = false) : (t.update p f).find k = t.find k := by
  rw [find_update]
  cases hk : t.find k with
  | none => rfl
  | some a => rw [Option.map_some, Edit.on_miss (h a hk)]

/-- A delete filters every lookup. -/
theorem find_delete (t : Table key) (p : α → Bool) (k : κ) :
    (t.delete p).find k = (t.find k).filter fun a => !p a := by
  cases hk : t.find k with
  | none =>
    refine find_eq_none.mpr fun a ha => ?_
    exact find_eq_none.mp hk a (mem_delete.mp ha).1
  | some a =>
    obtain ⟨hmem, hkey⟩ := mem_of_find hk
    cases hp : p a with
    | false => simpa [Option.filter, hp] using find_eq_some.mpr ⟨mem_delete.mpr ⟨hmem, hp⟩, hkey⟩
    | true =>
      have hnone : (t.delete p).find k = none := by
        refine find_eq_none.mpr fun b hb hbk => ?_
        obtain ⟨hb, hpb⟩ := mem_delete.mp hb
        have hsame := (find_eq_some.mpr ⟨hb, hbk⟩).symm.trans hk
        rw [Option.some.inj hsame, hp] at hpb
        cases hpb
      simpa [Option.filter, hp] using hnone

/-- `insert … on conflict (key) do update`: the row under its key, replaced where
there is one. -/
def put (t : Table key) (a : α) : Table key :=
  if h : t.find (key a) = none then
    { rows := t.rows ++ [a]
      nodup := by
        rw [List.map_append, List.nodup_append]
        refine ⟨t.nodup, List.nodup_singleton _, ?_⟩
        intro k hk k' hk'
        obtain ⟨b, hb, rfl⟩ := List.mem_map.mp hk
        rw [List.map_singleton, List.mem_singleton] at hk'
        rw [hk']
        exact find_eq_none.mp h b hb }
  else
    t.update (fun b => decide (key b = key a))
      { run := fun b => if key b = key a then a else b
        keeps := by
          intro b
          split
          next hb => exact hb.symm
          next => rfl }

/-- A lookup after a `put` finds the new row under its key. -/
theorem find_put (t : Table key) (a : α) (k : κ) :
    (t.put a).find k = if k = key a then some a else t.find k := by
  unfold put
  split
  next hnone =>
    split
    next hk =>
      rw [hk]
      exact find_eq_some.mpr ⟨List.mem_append_right _ (List.mem_singleton_self a), rfl⟩
    next hk =>
      have hne : ¬ key a = k := fun h => hk h.symm
      simp only [find, List.find?_append, List.find?_singleton, decide_eq_true_eq, if_neg hne,
        Option.or_none]
  next hsome =>
    rw [find_update]
    split
    next hk =>
      obtain ⟨b, hb⟩ := Option.ne_none_iff_exists'.mp hsome
      have hkey := (mem_of_find hb).2
      rw [hk, hb, Option.map_some, Edit.on_hit (by simpa using hkey)]
      exact congrArg some (if_pos hkey)
    next hk =>
      cases hf : t.find k with
      | none => rfl
      | some b =>
        have hkey : ¬ key b = key a := by
          rw [(mem_of_find hf).2]
          exact hk
        rw [Option.map_some, Edit.on_miss (by simpa using hkey)]

end Find

section Fresh

variable {key : α → Nat}

/-- A key no row has. -/
def nextId (t : Table key) : Nat := t.rows.foldr (fun a n => max (key a + 1) n) 0

private theorem key_lt_foldr {l : List α} {b : α} (hb : b ∈ l) :
    key b < l.foldr (fun a n => max (key a + 1) n) 0 := by
  induction l with
  | nil => exact absurd hb List.not_mem_nil
  | cons a l ih =>
    rw [List.foldr_cons]
    rcases List.mem_cons.mp hb with rfl | hb'
    · omega
    · have := ih hb'
      omega

theorem key_lt_nextId {t : Table key} {b : α} (hb : b ∈ t.rows) : key b < t.nextId :=
  key_lt_foldr hb

/-- Edits and lookups do not change which key comes next. -/
theorem nextId_update (t : Table key) (p : α → Bool) (f : Edit key) :
    (t.update p f).nextId = t.nextId := by
  simp only [nextId, update, List.foldr_map, Edit.on_key]

private theorem foldr_max (l : List α) (n : Nat) :
    l.foldr (fun a n => max (key a + 1) n) n = max (l.foldr (fun a n => max (key a + 1) n) 0) n := by
  induction l with
  | nil => simp
  | cons a l ih =>
    rw [List.foldr_cons, List.foldr_cons, ih]
    omega

/-- A row but for its key: what an `insert` supplies when the key is a default. -/
structure Draft (key : α → Nat) where
  row : Nat → α
  keyed : ∀ n, key (row n) = n

/-- Insert under a generated key. -/
def insertNew (t : Table key) (d : Draft key) : Table key where
  rows := t.rows ++ [d.row t.nextId]
  nodup := by
    rw [List.map_append, List.nodup_append]
    refine ⟨t.nodup, List.nodup_singleton _, ?_⟩
    intro k hk k' hk'
    obtain ⟨b, hb, rfl⟩ := List.mem_map.mp hk
    rw [List.map_singleton, List.mem_singleton, d.keyed] at hk'
    rw [hk']
    exact Nat.ne_of_lt (key_lt_nextId hb)

theorem mem_insertNew {t : Table key} {d : Draft key} {b : α} :
    b ∈ t.insertNew d ↔ b ∈ t ∨ b = d.row t.nextId := by
  rw [mem_rows, insertNew, List.mem_append, List.mem_singleton]
  rfl

theorem nextId_insertNew (t : Table key) (d : Draft key) : (t.insertNew d).nextId = t.nextId + 1 := by
  change (t.rows ++ [d.row t.nextId]).foldr (fun a n => max (key a + 1) n) 0 = _
  rw [List.foldr_append, List.foldr_cons, List.foldr_nil, d.keyed, Nat.max_zero, foldr_max]
  exact Nat.max_eq_right (Nat.le_succ t.nextId)

theorem find_nextId {t : Table key} : t.find t.nextId = none :=
  find_eq_none.mpr fun _ ha => Nat.ne_of_lt (key_lt_nextId ha)

/-- An insert adds one answer. -/
theorem find_insertNew (t : Table key) (d : Draft key) (k : Nat) :
    (t.insertNew d).find k = if k = t.nextId then some (d.row k) else t.find k := by
  split
  next hk =>
    rw [hk]
    exact find_eq_some.mpr ⟨mem_insertNew.mpr (.inr rfl), d.keyed _⟩
  next hk =>
    have hne : key (d.row t.nextId) ≠ k := by
      rw [d.keyed]
      exact fun h => hk h.symm
    simp only [find, insertNew, List.find?_append, List.find?_singleton, decide_eq_true_eq,
      if_neg hne, Option.or_none]

end Fresh

end Table

end Base
