import CloudWai.Base.Table

/-!
# A table and an index of it

Rows are kept under an identifier, and some of them carry a key besides, under which an
index has their identifier. Both are written together: `set` puts a row and lists it,
`drop` takes a row out and its key with it.

`Sound` says that the index is what the rows say. A row may be set that carries a key of
no other row (`sound_set`), and one that is there may be dropped (`sound_drop`). Many are
set one after the other, as by a program that reads its file back, exactly if none of them
carries the key of another row that was there before (`sound_merge_iff`).
-/

namespace Base

/-- The rows, and the identifiers of those that carry a key. -/
structure Catalog {κ ι α : Type} (id : α → κ) (key : α → Option ι) where
  rows : Table id
  index : Table (Prod.fst : ι × κ → ι)

namespace Catalog

variable {κ ι α : Type} {id : α → κ} {key : α → Option ι}

def empty : Catalog id key := ⟨.empty, .empty⟩

section Writes

variable [DecidableEq κ] [DecidableEq ι]

def set (c : Catalog id key) (a : α) : Catalog id key where
  rows := c.rows.put a
  index := match key a with
    | none => c.index
    | some k => c.index.put (k, id a)

def drop (c : Catalog id key) (a : α) : Catalog id key where
  rows := c.rows.delete fun b => decide (id b = id a)
  index := match key a with
    | none => c.index
    | some k => c.index.delete fun e => decide (e.1 = k)

/-- Drop the rows that `p` holds of. -/
def sweep (p : α → Bool) (c : Catalog id key) : Catalog id key :=
  c.rows.rows.foldl (fun c a => if p a then c.drop a else c) c

end Writes

/-- A change to rows that leaves the keys alone. -/
def revise (c : Catalog id key) (p : α → Bool) (f : Table.Edit id) : Catalog id key :=
  { c with rows := c.rows.update p f }

/-- The index is what the rows say. -/
structure Sound [DecidableEq ι] (c : Catalog id key) : Prop where
  found : ∀ k i, c.index.find k = some (k, i) → ∃ a ∈ c.rows, id a = i ∧ key a = some k
  listed : ∀ a ∈ c.rows, ∀ k, key a = some k → c.index.find k = some (k, id a)

section Lemmas

variable [DecidableEq κ] [DecidableEq ι] {c : Catalog id key} {a b : α} {k : ι} {l : List α}

/-- Who is in a catalog after one entry is set. -/
theorem mem_set : b ∈ (c.set a).rows ↔ b = a ∨ b ∈ c.rows ∧ id b ≠ id a := by
  have hfind : b ∈ (c.set a).rows ↔ (c.rows.put a).find (id b) = some b := by
    rw [Table.find_eq_some]
    exact (and_iff_left rfl).symm
  rw [hfind, Table.find_put]
  by_cases hid : id b = id a
  · rw [if_pos hid, Option.some.injEq]
    constructor
    · exact fun h => .inl h.symm
    · intro h
      rcases h with h | h
      · exact h.symm
      · exact absurd hid h.2
  · rw [if_neg hid, Table.find_eq_some]
    constructor
    · exact fun h => .inr ⟨h.1, hid⟩
    · intro h
      rcases h with h | h
      · exact absurd (congrArg id h) hid
      · exact ⟨h.1, rfl⟩

theorem mem_drop : b ∈ (c.drop a).rows ↔ b ∈ c.rows ∧ id b ≠ id a := by
  show b ∈ c.rows.delete _ ↔ _
  rw [Table.mem_delete, decide_eq_false_iff_not]

theorem index_set : (c.set a).index.find k =
    if key a = some k then some (k, id a) else c.index.find k := by
  unfold set
  cases hkey : key a with
  | none => rfl
  | some k' =>
    dsimp only
    rw [Table.find_put]
    by_cases hk : k = k'
    · rw [if_pos hk, if_pos (by rw [hk]), hk]
    · rw [if_neg hk, if_neg fun h => hk (Option.some.inj h).symm]

theorem index_drop : (c.drop a).index.find k =
    if key a = some k then none else c.index.find k := by
  unfold drop
  cases hkey : key a with
  | none => rfl
  | some k' =>
    dsimp only
    rw [Table.find_delete]
    by_cases hk : k = k'
    · rw [if_pos (by rw [hk])]
      cases hf : c.index.find k with
      | none => rfl
      | some e => simp [Option.filter, (Table.mem_of_find hf).2, hk]
    · rw [if_neg fun h => hk (Option.some.inj h).symm]
      cases hf : c.index.find k with
      | none => rfl
      | some e => simp [Option.filter, (Table.mem_of_find hf).2, hk]

omit [DecidableEq κ] [DecidableEq ι] in
/-- Two rows with one identifier are one row. -/
theorem eq_of_id (ha : a ∈ c.rows) (hb : b ∈ c.rows) (h : id a = id b) : a = b :=
  List.inj_on_of_nodup_map c.rows.nodup ha hb h

omit [DecidableEq κ] in
/-- Two rows with one key are one row. -/
theorem Sound.unique (h : c.Sound) (ha : a ∈ c.rows) (hb : b ∈ c.rows) (hka : key a = some k)
    (hkb : key b = some k) : a = b := by
  have hsame := (h.listed a ha k hka).symm.trans (h.listed b hb k hkb)
  exact eq_of_id ha hb (congrArg Prod.snd (Option.some.inj hsame))

omit [DecidableEq κ] in
theorem sound_empty : (empty : Catalog id key).Sound where
  found k i h := by cases h
  listed a ha := absurd ha (Table.not_mem_empty a)

/-- A row whose key no other row carries. -/
theorem sound_set (h : c.Sound) (hkey : ∀ b ∈ c.rows, id b = id a → key b = key a)
    (hnew : ∀ b ∈ c.rows, ∀ k, key a = some k → key b = some k → id b = id a) :
    (c.set a).Sound where
  found k i hk := by
    rw [index_set] at hk
    split at hk
    next hka =>
      obtain rfl : id a = i := congrArg Prod.snd (Option.some.inj hk)
      exact ⟨a, mem_set.mpr (.inl rfl), rfl, hka⟩
    next hka =>
      obtain ⟨b, hb, hid, hkb⟩ := h.found k i hk
      have hne : id b ≠ id a := fun heq => hka ((hkey b hb heq).symm.trans hkb)
      exact ⟨b, mem_set.mpr (.inr ⟨hb, hne⟩), hid, hkb⟩
  listed b hb k hkb := by
    rw [index_set]
    rcases mem_set.mp hb with rfl | ⟨hb, hne⟩
    · rw [if_pos hkb]
    · rw [if_neg fun hka => hne (hnew b hb k hka hkb)]
      exact h.listed b hb k hkb

theorem sound_drop (h : c.Sound) (ha : a ∈ c.rows) : (c.drop a).Sound where
  found k i hk := by
    rw [index_drop] at hk
    split at hk
    · cases hk
    next hka =>
      obtain ⟨b, hb, hid, hkb⟩ := h.found k i hk
      have hne : id b ≠ id a := by
        intro heq
        rw [eq_of_id hb ha heq] at hkb
        exact hka hkb
      exact ⟨b, mem_drop.mpr ⟨hb, hne⟩, hid, hkb⟩
  listed b hb k hkb := by
    obtain ⟨hb, hne⟩ := mem_drop.mp hb
    rw [index_drop, if_neg fun hka => hne (congrArg id (h.unique hb ha hkb hka))]
    exact h.listed b hb k hkb

/-- What is left of a sweep was there before it. -/
theorem mem_of_sweep {p : α → Bool} (h : b ∈ (c.sweep p).rows) : b ∈ c.rows := by
  unfold sweep at h
  generalize c.rows.rows = l at h
  induction l generalizing c with
  | nil => exact h
  | cons a l ih =>
    have hrest := ih h
    beta_reduce at hrest
    split at hrest
    · exact (mem_drop.mp hrest).1
    · exact hrest

/-- A sweep leaves no key without its entry. -/
theorem sound_sweep {p : α → Bool} (h : c.Sound) : (c.sweep p).Sound := by
  have hfold : ∀ l : List α, ∀ c : Catalog id key, c.Sound → (l.map id).Nodup →
      (∀ a ∈ l, a ∈ c.rows) → (l.foldl (fun c a => if p a then c.drop a else c) c).Sound := by
    intro l
    induction l with
    | nil => exact fun c h _ _ => h
    | cons a l ih =>
      intro c h hnodup hmem
      rw [List.map_cons, List.nodup_cons] at hnodup
      have ha := hmem a List.mem_cons_self
      have hrest : ∀ b ∈ l, b ∈ c.rows := fun b hb => hmem b (List.mem_cons_of_mem a hb)
      rw [List.foldl_cons]
      split
      · -- the others are still there
        refine ih _ (sound_drop h ha) hnodup.2 fun b hb => mem_drop.mpr ⟨hrest b hb, ?_⟩
        intro heq
        exact hnodup.1 (heq ▸ List.mem_map_of_mem hb)
      · exact ih c h hnodup.2 hrest
  exact hfold _ c h c.rows.nodup fun a ha => ha

omit [DecidableEq κ] in
theorem sound_revise {p : α → Bool} {f : Table.Edit id} (h : c.Sound)
    (hf : ∀ a, key (f.run a) = key a) : (c.revise p f).Sound where
  found k i hk := by
    obtain ⟨a, ha, hid, hka⟩ := h.found k i hk
    cases hp : p a with
    | false => exact ⟨a, Table.mem_update.mpr (.inl ⟨ha, hp⟩), hid, hka⟩
    | true =>
      exact ⟨f.run a, Table.mem_update.mpr (.inr ⟨a, ha, hp, rfl⟩), (f.keeps a).trans hid,
        (hf a).trans hka⟩
  listed b hb k hkb := by
    rcases Table.mem_update.mp hb with ⟨hb, -⟩ | ⟨a, ha, -, rfl⟩
    · exact h.listed b hb k hkb
    · rw [hf] at hkb
      rw [f.keeps]
      exact h.listed a ha k hkb

/-! ## Reading rows back -/

/-- Each row that was there, or is set, is there under its identifier and key. -/
theorem stays_merge (hkey : ∀ a ∈ l, ∀ b, b ∈ c.rows ∨ b ∈ l → id b = id a → key b = key a)
    (hb : b ∈ c.rows ∨ b ∈ l) :
    ∃ b' ∈ (l.foldl set c).rows, id b' = id b ∧ key b' = key b := by
  induction l generalizing c b with
  | nil =>
    rcases hb with hb | hb
    · exact ⟨b, hb, rfl, rfl⟩
    · exact absurd hb List.not_mem_nil
  | cons a l ih =>
    have hkey' : ∀ a' ∈ l, ∀ b, b ∈ (c.set a).rows ∨ b ∈ l → id b = id a' → key b = key a' := by
      intro a' ha' b hb
      refine hkey a' (List.mem_cons_of_mem a ha') b ?_
      rcases hb with hb | hb
      · rcases mem_set.mp hb with rfl | ⟨hb, -⟩
        · exact .inr List.mem_cons_self
        · exact .inl hb
      · exact .inr (List.mem_cons_of_mem a hb)
    rw [List.foldl_cons]
    by_cases hid : id b = id a
    · obtain ⟨b', hb', hid', hkb'⟩ := ih hkey' (.inl (mem_set.mpr (.inl rfl)))
      exact ⟨b', hb', hid'.trans hid.symm,
        hkb'.trans (hkey a List.mem_cons_self b hb hid).symm⟩
    · refine ih hkey' ?_
      rcases hb with hb | hb
      · exact .inl (mem_set.mpr (.inr ⟨hb, hid⟩))
      · rcases List.mem_cons.mp hb with rfl | hb
        · exact absurd rfl hid
        · exact .inr hb

/-- **Reading rows back**, no two of which carry one key, is sound exactly if none carries
the key of another row that is there. -/
theorem sound_merge_iff (h : c.Sound)
    (hkey : ∀ a ∈ l, ∀ b, b ∈ c.rows ∨ b ∈ l → id b = id a → key b = key a)
    (hl : ∀ a ∈ l, ∀ b ∈ l, ∀ k, key a = some k → key b = some k → id b = id a) :
    (l.foldl set c).Sound ↔
      ∀ a ∈ l, ∀ b ∈ c.rows, ∀ k, key a = some k → key b = some k → id b = id a := by
  constructor
  · intro hmerged a ha b hb k hka hkb
    obtain ⟨a', ha', hida, hka'⟩ := stays_merge hkey (.inr ha)
    obtain ⟨b', hb', hidb, hkb'⟩ := stays_merge hkey (.inl hb)
    have hsame := hmerged.unique hb' ha' (hkb'.trans hkb) (hka'.trans hka)
    rw [← hida, ← hidb, hsame]
  · intro hnew
    induction l generalizing c with
    | nil => exact h
    | cons a l ih =>
      have hset : (c.set a).Sound :=
        sound_set h (fun b hb => hkey a List.mem_cons_self b (.inl hb))
          (fun b hb => hnew a List.mem_cons_self b hb)
      refine ih hset ?_ ?_ ?_
      · intro a' ha' b hb
        refine hkey a' (List.mem_cons_of_mem a ha') b ?_
        rcases hb with hb | hb
        · rcases mem_set.mp hb with rfl | ⟨hb, -⟩
          · exact .inr List.mem_cons_self
          · exact .inl hb
        · exact .inr (List.mem_cons_of_mem a hb)
      · exact fun a' ha' b hb => hl a' (List.mem_cons_of_mem a ha') b (List.mem_cons_of_mem a hb)
      · intro a' ha' b hb
        rcases mem_set.mp hb with rfl | ⟨hb, -⟩
        · exact hl a' (List.mem_cons_of_mem b ha') b List.mem_cons_self
        · exact hnew a' (List.mem_cons_of_mem a ha') b hb

end Lemmas

end Catalog

end Base
