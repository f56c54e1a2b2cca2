import Mathlib.Algebra.Order.BigOperators.Group.List
import Mathlib.Data.List.Sort

/-!
# Queries with a limit

A query that names a limit is answered by that many of its rows, or by all of them if
there are no more; and a server may have a limit of its own. Which rows is up to the
database: without an order any of them (`Limited`), with an order the first ones, where
rows of the same key come as they like (`First`).

What is computed from a page is therefore known only between bounds. Value by value, a
page of so many rows is no less than some arrangement of as many least values
(`exists_firsts`), and no greater than one of the greatest; and every arrangement of
either is a page (`exists_page_of_firsts`).

`Walk` follows a keyset: each page is read among the rows strictly beyond the last
row of the page before. It is over when nothing is beyond. Rows that share the key of
that last row are not beyond it, so they are passed over unless they were on the page
themselves; `complete_iff` says that a walk misses nothing exactly if no two rows on
the two sides of a page's end have the same key. The pages then end where the keys say
(`ends_of_walk`).
-/

namespace Base

namespace Page

variable {α : Type}

/-- What a query with a limit and no order answers, at a server that sends `maxRows` rows
at most. -/
def Limited (limit maxRows : Nat) (rows page : List α) : Prop :=
  page.Subperm rows ∧ page.length = min (min limit maxRows) rows.length

/-! ## Values -/

section Values

variable {β : Type} {r : β → β → Prop} [DecidableRel r] {limit maxRows : Nat}
variable {rows page : List α} {f : α → β}

/-- The first `n` values in the order `r`. -/
def firsts (r : β → β → Prop) [DecidableRel r] (n : Nat) (values : List β) : List β :=
  (values.insertionSort r).take n

omit [DecidableRel r] in
/-- In an ordered list, a selection of as many values comes nowhere before the first ones. -/
theorem forall₂_take {l s : List β} (hl : l.Pairwise r) (hrefl : ∀ b, r b b) (h : s.Sublist l) :
    List.Forall₂ r (l.take s.length) s := by
  induction l generalizing s with
  | nil =>
    rw [List.sublist_nil.mp h]
    exact .nil
  | cons a l ih =>
    rw [List.pairwise_cons] at hl
    cases s with
    | nil => exact .nil
    | cons b s =>
      rw [List.length_cons, List.take_succ_cons]
      rcases List.sublist_cons_iff.mp h with hskip | ⟨s', heq, htake⟩
      · have hb : b ∈ l := hskip.subset List.mem_cons_self
        exact .cons (hl.1 b hb) (ih hl.2 ((List.sublist_cons_self b s).trans hskip))
      · obtain ⟨rfl, rfl⟩ := List.cons.inj heq
        exact .cons (hrefl b) (ih hl.2 htake)

/-- Value by value, a page comes nowhere before some arrangement of the first values. -/
theorem exists_firsts [Std.Total r] [Std.Antisymm r] [IsTrans β r] (h : Limited limit maxRows rows page) :
    ∃ l, l.Perm (firsts r (min limit maxRows) (rows.map f)) ∧ List.Forall₂ r l (page.map f) := by
  obtain ⟨hsub, hlen⟩ := h
  have hsorted := List.pairwise_insertionSort r (rows.map f)
  have hperm := List.perm_insertionSort r (page.map f)
  have hvalues : (page.map f).Subperm (rows.map f) := by
    obtain ⟨page', hpage', hsublist⟩ := hsub
    exact ⟨page'.map f, hpage'.map f, hsublist.map f⟩
  have hsublist : ((page.map f).insertionSort r).Sublist ((rows.map f).insertionSort r) :=
    List.sublist_insertionSort' (List.pairwise_insertionSort r _) (hperm.subperm.trans hvalues)
  have hle := forall₂_take hsorted (fun b => (Std.Total.total b b).elim id id) hsublist
  have htake : ((rows.map f).insertionSort r).take ((page.map f).insertionSort r).length =
      firsts r (min limit maxRows) (rows.map f) := by
    unfold firsts
    rw [hperm.length_eq, List.length_map, hlen, ← List.length_map f,
      ← List.length_insertionSort r (rows.map f), ← List.take_eq_take_min]
  rw [htake] at hle
  -- arranged as the page is
  obtain ⟨l, hl, hlperm⟩ := List.perm_comp_forall₂ hperm.symm hle.flip
  exact ⟨l, hlperm, hl.flip⟩

/-- Every arrangement of the first values is a page. -/
theorem exists_page_of_firsts [Std.Total r] [IsTrans β r] {l : List β}
    (h : l.Perm (firsts r (min limit maxRows) (rows.map f))) :
    ∃ page, Limited limit maxRows rows page ∧ page.map f = l := by
  let sorted := rows.insertionSort fun a b => r (f a) (f b)
  have hperm : sorted.Perm rows := List.perm_insertionSort _ rows
  have hfirsts : (sorted.take (min limit maxRows)).map f =
      firsts r (min limit maxRows) (rows.map f) := by
    unfold firsts
    rw [List.map_take, List.map_insertionSort _ _ f rows fun a _ b _ => Iff.rfl]
  rw [← hfirsts] at h
  have hsame : List.Forall₂ (fun b a => b = f a) ((sorted.take (min limit maxRows)).map f)
      (sorted.take (min limit maxRows)) :=
    List.forall₂_map_left_iff.mpr (List.forall₂_same.mpr fun a _ => rfl)
  obtain ⟨page, hvalues, hpage⟩ := List.perm_comp_forall₂ h hsame
  refine ⟨page, ⟨?_, ?_⟩, ?_⟩
  · exact (hpage.subperm.trans (List.take_sublist _ sorted).subperm).trans hperm.subperm
  · rw [hpage.length_eq, List.length_take, hperm.length_eq]
  · exact (List.forall₂_eq_eq_eq ▸ List.forall₂_map_right_iff.mpr hvalues : l = page.map f).symm

theorem firsts_replicate (n k : Nat) (b : β) :
    firsts r k (List.replicate n b) = List.replicate (min k n) b := by
  unfold firsts
  rw [List.perm_replicate.mp (List.perm_insertionSort r (List.replicate n b)), List.take_replicate]

end Values

/-! ## Keysets -/

section Keysets

variable {κ : Type} [LinearOrder κ] {key : α → κ} {limit : Nat} {rows order page : List α} {last : α}

/-- What a query with a limit answers, the greatest keys first. -/
def First (key : α → κ) (limit : Nat) (rows page : List α) : Prop :=
  ∃ order : List α, order.Perm rows ∧ order.Pairwise (fun a b => key b ≤ key a) ∧
    page = order.take limit

/-- The pages of a reader who goes on beyond the last row of each. -/
inductive Walk (key : α → κ) (limit : Nat) : List α → List (List α) → Prop
  | done : Walk key limit [] []
  | page {rows page : List α} {last : α} {pages : List (List α)}
      (hpage : First key limit rows page) (hlast : page.getLast? = some last)
      (hrest : Walk key limit (rows.filter fun r => key r < key last) pages) :
      Walk key limit rows (page :: pages)

/-- The keys, the greatest first. -/
def keys (key : α → κ) (rows : List α) : List κ := (rows.map key).insertionSort (· ≥ ·)

/-- The two keys at each page's end are different. -/
def Apart (limit : Nat) (ks : List κ) : Prop :=
  ∀ k, 0 < k → k * limit < ks.length → ks[k * limit - 1]? ≠ ks[k * limit]?

/-- The keys that pages end with. -/
def Ends (P : κ → Prop) (limit : Nat) (ks : List κ) : Prop :=
  ∀ k, k * limit < ks.length → ∀ key ∈ ks[min ((k + 1) * limit) ks.length - 1]?, P key

theorem keys_of_order (hperm : order.Perm rows)
    (hsorted : order.Pairwise fun a b => key b ≤ key a) : keys key rows = order.map key := by
  refine List.Perm.eq_of_pairwise' (r := (· ≥ ·)) (List.pairwise_insertionSort _ _)
    (List.pairwise_map.mpr hsorted) ?_
  exact (List.perm_insertionSort _ _).trans (hperm.map key).symm

/-- Keys do not depend on how the rows are stored. -/
theorem keys_perm {rows' : List α} (h : rows.Perm rows') : keys key rows = keys key rows' := by
  refine List.Perm.eq_of_pairwise' (r := (· ≥ ·)) (List.pairwise_insertionSort _ _)
    (List.pairwise_insertionSort _ _) ?_
  exact ((List.perm_insertionSort _ _).trans (h.map key)).trans (List.perm_insertionSort _ _).symm

omit [LinearOrder κ] in
/-- One page's end, and those of the rest. -/
theorem apart_iff {ks : List κ} (h : 0 < limit) : Apart limit ks ↔
    (limit < ks.length → ks[limit - 1]? ≠ ks[limit]?) ∧ Apart limit (ks.drop limit) := by
  constructor
  · intro hall
    constructor
    · intro hlt
      have := hall 1 Nat.one_pos (by omega)
      rwa [Nat.one_mul] at this
    · intro k hk hlt
      rw [List.length_drop] at hlt
      have hsucc : (k + 1) * limit = limit + k * limit := by rw [Nat.succ_mul]; omega
      have hpos : 0 < k * limit := Nat.mul_pos hk h
      have := hall (k + 1) (Nat.succ_pos k) (by omega)
      rw [hsucc] at this
      rw [List.getElem?_drop, List.getElem?_drop]
      rwa [show limit + (k * limit - 1) = limit + k * limit - 1 by omega]
  · intro ⟨hfirst, hrest⟩ k hk hlt
    by_cases hone : k = 1
    · rw [hone, Nat.one_mul] at hlt ⊢
      exact hfirst hlt
    · obtain ⟨j, rfl⟩ : ∃ j, k = j + 1 := ⟨k - 1, by omega⟩
      have hsucc : (j + 1) * limit = limit + j * limit := by rw [Nat.succ_mul]; omega
      have hpos : 0 < j * limit := Nat.mul_pos (by omega) h
      rw [hsucc] at hlt ⊢
      have := hrest j (by omega) (by rw [List.length_drop]; omega)
      rw [List.getElem?_drop, List.getElem?_drop] at this
      rwa [show limit + (j * limit - 1) = limit + j * limit - 1 by omega] at this

omit [LinearOrder κ] in
/-- `Ends`, page by page. -/
theorem ends_iff {P : κ → Prop} {ks : List κ} (h : 0 < limit) (hne : ks ≠ []) : Ends P limit ks ↔
    (∀ key ∈ ks[min limit ks.length - 1]?, P key) ∧ Ends P limit (ks.drop limit) := by
  have hpos := List.length_pos_iff.mpr hne
  -- a page's end in the rest is that of the page after it
  have hlater : ∀ k, k * limit < (ks.drop limit).length →
      (ks.drop limit)[min ((k + 1) * limit) (ks.drop limit).length - 1]? =
        ks[min ((k + 1 + 1) * limit) ks.length - 1]? := by
    intro k hlt
    rw [List.length_drop] at hlt ⊢
    have hone : (k + 1) * limit = k * limit + limit := Nat.succ_mul k limit
    have htwo : (k + 1 + 1) * limit = k * limit + limit + limit := by rw [Nat.succ_mul, hone]
    rw [List.getElem?_drop, hone, htwo]
    congr 1
    omega
  constructor
  · intro hall
    constructor
    · have := hall 0 (by omega)
      rwa [Nat.zero_add, Nat.one_mul] at this
    · intro k hlt
      rw [hlater k hlt]
      rw [List.length_drop] at hlt
      exact hall (k + 1) (by rw [Nat.succ_mul]; omega)
  · intro ⟨hfirst, hrest⟩ k hlt
    cases k with
    | zero =>
      rw [Nat.zero_add, Nat.one_mul]
      exact hfirst
    | succ k =>
      have hlt' : k * limit < (ks.drop limit).length := by
        rw [List.length_drop]
        rw [Nat.succ_mul] at hlt
        omega
      rw [← hlater k hlt']
      exact hrest k hlt'

omit [LinearOrder κ] in
theorem last_at (h : 0 < limit) (hlt : limit < order.length)
    (hlast : (order.take limit).getLast? = some last) : order[limit - 1]? = some last := by
  rw [List.getLast?_eq_getElem?, List.length_take, Nat.min_eq_left (by omega),
    List.getElem?_take_of_lt (by omega)] at hlast
  exact hlast

/-- No row of a page is beyond its last row. -/
theorem last_le (hsorted : order.Pairwise fun a b => key b ≤ key a)
    (hlast : (order.take limit).getLast? = some last) : ∀ r ∈ order.take limit, key last ≤ key r := by
  obtain ⟨front, hfront⟩ := List.getLast?_eq_some_iff.mp hlast
  have hpage : (order.take limit).Pairwise fun a b => key b ≤ key a :=
    hsorted.sublist (List.take_sublist limit order)
  rw [hfront, List.pairwise_append] at hpage
  intro r hr
  rw [hfront, List.mem_append, List.mem_singleton] at hr
  rcases hr with hr | rfl
  · exact hpage.2.2 r hr last (List.mem_singleton.mpr rfl)
  · exact le_rfl

theorem not_beyond (hsorted : order.Pairwise fun a b => key b ≤ key a)
    (hlast : (order.take limit).getLast? = some last) {r : α} (hin : r ∈ order.take limit) :
    r ∉ rows.filter fun r => key r < key last := by
  intro hmem
  have hlt : key r < key last := by simpa using List.of_mem_filter hmem
  exact absurd hlt (not_lt.mpr (last_le hsorted hlast r hin))

/-- If the keys at a page's end differ, everything that was not on it is beyond it. -/
theorem beyond (hsorted : order.Pairwise fun a b => key b ≤ key a) (h : 0 < limit)
    (hlast : (order.take limit).getLast? = some last)
    (hends : limit < order.length → (order.map key)[limit - 1]? ≠ (order.map key)[limit]?) :
    order.filter (fun r => key r < key last) = order.drop limit := by
  have hpage : (order.take limit).filter (fun r => key r < key last) = [] := by
    rw [List.filter_eq_nil_iff]
    intro r hr
    have := last_le hsorted hlast r hr
    simpa using this
  have hrest : (order.drop limit).filter (fun r => key r < key last) = order.drop limit := by
    rw [List.filter_eq_self]
    intro r hr
    have hlt : limit < order.length := by
      have := List.length_pos_of_mem hr
      rw [List.length_drop] at this
      omega
    -- the last row of the page and the first one after it
    have hlastAt := last_at h hlt hlast
    have hne := hends hlt
    rw [List.getElem?_map, List.getElem?_map, hlastAt, List.getElem?_eq_getElem hlt] at hne
    have hdrop : order.drop limit = order[limit] :: order.drop (limit + 1) :=
      List.drop_eq_getElem_cons hlt
    have hle : key r ≤ key order[limit] := by
      have hd : (order.drop limit).Pairwise fun a b => key b ≤ key a :=
        hsorted.sublist (List.drop_sublist limit order)
      rw [hdrop] at hr hd
      rcases List.mem_cons.mp hr with rfl | hr
      · exact le_rfl
      · exact (List.pairwise_cons.mp hd).1 r hr
    have hnext : key order[limit] ≤ key last := by
      have hsplit := hsorted
      rw [← List.take_append_drop limit order, List.pairwise_append] at hsplit
      exact hsplit.2.2 last (List.mem_of_getLast? hlast) _ (by rw [hdrop]; exact List.mem_cons_self)
    have hlt' : key order[limit] < key last := by
      refine lt_of_le_of_ne hnext ?_
      intro he
      exact hne (by simp [he])
    simpa using lt_of_le_of_lt hle hlt'
  conv_lhs => rw [← List.take_append_drop limit order]
  rw [List.filter_append, hpage, hrest, List.nil_append]

/-- The key a page ends with. -/
theorem key_last (hperm : order.Perm rows) (hsorted : order.Pairwise fun a b => key b ≤ key a)
    (hlast : (order.take limit).getLast? = some last) :
    (keys key rows)[min limit (keys key rows).length - 1]? = some (key last) := by
  rw [keys_of_order hperm hsorted, List.length_map]
  rw [List.getLast?_eq_getElem?, List.length_take] at hlast
  have hpos : 0 < min limit order.length := by
    by_contra hzero
    rw [List.getElem?_eq_none (by rw [List.length_take]; omega)] at hlast
    cases hlast
  rw [List.getElem?_take_of_lt (by omega)] at hlast
  rw [List.getElem?_map, hlast]
  rfl

/-- Where the keys at a page's end differ, what is beyond has the rest of the keys. -/
theorem keys_beyond (h : 0 < limit) (hperm : order.Perm rows)
    (hsorted : order.Pairwise fun a b => key b ≤ key a)
    (hlast : (order.take limit).getLast? = some last)
    (hends : limit < order.length → (order.map key)[limit - 1]? ≠ (order.map key)[limit]?) :
    keys key (rows.filter fun r => key r < key last) = (keys key rows).drop limit := by
  have hleft : (order.drop limit).Perm (rows.filter fun r => key r < key last) := by
    rw [← beyond hsorted h hlast hends]
    exact hperm.filter _
  rw [keys_of_order hleft (hsorted.sublist (List.drop_sublist limit order)),
    keys_of_order hperm hsorted, List.map_drop]

/-- Where the keys at the pages' ends differ, they do so beyond each page. -/
theorem apart_beyond (h : 0 < limit) (hapart : Apart limit (keys key rows))
    (hpage : First key limit rows page) (hlast : page.getLast? = some last) :
    Apart limit (keys key (rows.filter fun r => key r < key last)) := by
  obtain ⟨order, hperm, hsorted, rfl⟩ := hpage
  obtain ⟨hends, hrest⟩ := (apart_iff h).mp hapart
  rw [keys_of_order hperm hsorted, List.length_map] at hends
  exact keys_beyond h hperm hsorted hlast hends ▸ hrest

/-- And what the pages end with is what this one ends with, and those beyond it. -/
theorem ends_iff_beyond {P : κ → Prop} (h : 0 < limit) (hapart : Apart limit (keys key rows))
    (hpage : First key limit rows page) (hlast : page.getLast? = some last) :
    Ends P limit (keys key rows) ↔
      P (key last) ∧ Ends P limit (keys key (rows.filter fun r => key r < key last)) := by
  obtain ⟨order, hperm, hsorted, rfl⟩ := hpage
  have hends := ((apart_iff h).mp hapart).1
  rw [keys_of_order hperm hsorted, List.length_map] at hends
  have hkey := key_last hperm hsorted hlast
  have hne : keys key rows ≠ [] := by
    intro hnil
    rw [hnil] at hkey
    cases hkey
  rw [ends_iff h hne, hkey, keys_beyond h hperm hsorted hlast hends]
  simp

theorem mem_of_walk {pages : List (List α)} (h : Walk key limit rows pages) :
    ∀ r ∈ pages.flatten, r ∈ rows := by
  induction h with
  | done => simp
  | page hpage hlast hrest ih =>
    obtain ⟨order, hperm, _, rfl⟩ := hpage
    intro r hr
    rw [List.flatten_cons, List.mem_append] at hr
    rcases hr with hr | hr
    · exact hperm.mem_iff.mp (List.mem_of_mem_take hr)
    · exact List.mem_of_mem_filter (ih r hr)

/-- A walk does not depend on how the rows are stored. -/
theorem walk_perm {rows' : List α} {pages : List (List α)} (h : Walk key limit rows pages)
    (hperm : rows.Perm rows') : Walk key limit rows' pages := by
  induction h generalizing rows' with
  | done =>
    rw [List.nil_perm.mp hperm]
    exact .done
  | page hpage hlast _ ih =>
    obtain ⟨order, horder, hsorted, hpage⟩ := hpage
    exact .page ⟨order, horder.trans hperm, hsorted, hpage⟩ hlast (ih (hperm.filter _))

/-- Where the keys at the pages' ends differ, these are the keys that pages end with. -/
theorem ends_of_walk {P : κ → Prop} {pages : List (List α)} (h : 0 < limit)
    (hwalk : Walk key limit rows pages) (hapart : Apart limit (keys key rows))
    (hP : ∀ page ∈ pages, ∀ last ∈ page.getLast?, P (key last)) : Ends P limit (keys key rows) := by
  induction hwalk with
  | done =>
    intro k hlt
    exact absurd hlt (Nat.not_lt_zero _)
  | @page rows page last pages hpage hlast hrest ih =>
    rw [ends_iff_beyond h hapart hpage hlast]
    exact ⟨hP page List.mem_cons_self last hlast, ih (apart_beyond h hapart hpage hlast)
      fun page' h' => hP page' (List.mem_cons_of_mem _ h')⟩

/-- Only where there is no row is the page empty. -/
theorem nil_of_first (h : 0 < limit) (hfirst : First key limit rows []) : rows = [] := by
  obtain ⟨order, hperm, _, hpage⟩ := hfirst
  have hlen := congrArg List.length hpage
  rw [List.length_take, List.length_nil, hperm.length_eq] at hlen
  apply List.eq_nil_of_length_eq_zero
  omega

/-- There is a page as long as there is a row. -/
theorem exists_page (key : α → κ) (h : 0 < limit) (hne : rows ≠ []) :
    ∃ (order : List α) (last : α), order.Perm rows ∧
      (order.Pairwise fun a b => key b ≤ key a) ∧ (order.take limit).getLast? = some last := by
  let order := rows.insertionSort fun a b => key b ≤ key a
  have hperm : order.Perm rows := List.perm_insertionSort _ rows
  have hsorted : order.Pairwise fun a b => key b ≤ key a := by
    have : Std.Total fun a b : α => key b ≤ key a := ⟨fun a b => le_total (key b) (key a)⟩
    have : IsTrans α fun a b => key b ≤ key a := ⟨fun a b c hab hbc => le_trans hbc hab⟩
    exact List.pairwise_insertionSort _ rows
  have hpage : order.take limit ≠ [] := by
    intro hnil
    have hlen := congrArg List.length hnil
    have hrows := List.length_pos_iff.mpr hne
    rw [List.length_take, hperm.length_eq, List.length_nil] at hlen
    omega
  exact ⟨order, _, hperm, hsorted, List.getLast?_eq_some_getLast hpage⟩

theorem length_filter_lt (key : α → κ) {r : α} (hr : r ∈ rows) :
    (rows.filter fun r' => key r' < key r).length < rows.length := by
  rw [List.length_filter_lt_length_iff_exists]
  exact ⟨r, hr, by simp⟩

/-- A walk comes to its end. -/
theorem exists_walk (key : α → κ) (h : 0 < limit) (rows : List α) :
    ∃ pages, Walk key limit rows pages := by
  induction hn : rows.length using Nat.strong_induction_on generalizing rows with
  | _ n ih =>
    by_cases hne : rows = []
    · rw [hne]
      exact ⟨[], .done⟩
    · obtain ⟨order, last, hperm, hsorted, hlast⟩ := exists_page key h hne
      have hmem : last ∈ rows := hperm.mem_iff.mp (List.mem_of_mem_take (List.mem_of_getLast? hlast))
      obtain ⟨pages, hpages⟩ := ih _ (hn ▸ length_filter_lt key hmem) _ rfl
      exact ⟨_, .page ⟨order, hperm, hsorted, rfl⟩ hlast hpages⟩

variable [DecidableEq α]

/-- Whatever order rows of the same key come in, each row is read once. -/
def Complete (key : α → κ) (limit : Nat) (rows : List α) : Prop :=
  ∀ pages, Walk key limit rows pages → ∀ r ∈ rows, pages.flatten.count r = 1

/-- Where no two rows at a page's end have one key, every row is read once. -/
theorem complete_of_apart (h : 0 < limit) (hnodup : rows.Nodup)
    (hapart : Apart limit (keys key rows)) : Complete key limit rows := by
  intro pages hwalk
  induction hwalk with
  | done => simp
  | @page rows page last pages hpage hlast hrest ih =>
    have hbeyondApart := apart_beyond h hapart hpage hlast
    obtain ⟨order, hperm, hsorted, rfl⟩ := hpage
    have hends := ((apart_iff h).mp hapart).1
    rw [keys_of_order hperm hsorted, List.length_map] at hends
    have hleft : (order.drop limit).Perm (rows.filter fun r => key r < key last) := by
      rw [← beyond hsorted h hlast hends]
      exact hperm.filter _
    have horder : order.Nodup := hperm.nodup_iff.mpr hnodup
    intro r hr
    rw [List.flatten_cons, List.count_append]
    have hsplit : r ∈ order.take limit ++ order.drop limit := by
      rw [List.take_append_drop]
      exact hperm.mem_iff.mpr hr
    rcases List.mem_append.mp hsplit with hin | hout
    · have hlater : r ∉ pages.flatten :=
        fun hmem => not_beyond hsorted hlast hin (mem_of_walk hrest r hmem)
      rw [List.count_eq_one_of_mem (horder.sublist (List.take_sublist limit order)) hin,
        List.count_eq_zero_of_not_mem hlater]
    · have hnot : r ∉ order.take limit := by
        intro hin
        rw [← List.take_append_drop limit order] at horder
        exact List.disjoint_of_nodup_append horder hin hout
      rw [List.count_eq_zero_of_not_mem hnot, Nat.zero_add]
      exact ih (hnodup.filter _) hbeyondApart r (hleft.mem_iff.mp hout)

/-- And otherwise one is left out. -/
theorem apart_of_complete (h : 0 < limit) (hnodup : rows.Nodup)
    (hcomplete : Complete key limit rows) : Apart limit (keys key rows) := by
  induction hn : rows.length using Nat.strong_induction_on generalizing rows with
  | _ n ih =>
    by_cases hne : rows = []
    · rw [hne]
      intro k _ hlt
      exact absurd hlt (Nat.not_lt_zero _)
    · obtain ⟨order, last, hperm, hsorted, hlast⟩ := exists_page key h hne
      have horder : order.Nodup := hperm.nodup_iff.mpr hnodup
      have hmem : last ∈ rows := hperm.mem_iff.mp (List.mem_of_mem_take (List.mem_of_getLast? hlast))
      have hpage : First key limit rows (order.take limit) := ⟨order, hperm, hsorted, rfl⟩
      have hends : limit < order.length → (order.map key)[limit - 1]? ≠ (order.map key)[limit]? := by
        -- a row with the key of the page's last one is never read
        intro hlt he
        obtain ⟨pages, hpages⟩ := exists_walk key h (rows.filter fun r => key r < key last)
        have hcount := hcomplete _ (.page hpage hlast hpages) order[limit]
          (hperm.mem_iff.mp (List.getElem_mem hlt))
        have hlastAt := last_at h hlt hlast
        rw [List.getElem?_map, List.getElem?_map, hlastAt, List.getElem?_eq_getElem hlt] at he
        have hkey : key last = key order[limit] := by simpa using he
        have hnot : order[limit] ∉ order.take limit := by
          intro hin
          rw [← List.take_append_drop limit order] at horder
          exact List.disjoint_of_nodup_append horder hin
            (by rw [List.drop_eq_getElem_cons hlt]; exact List.mem_cons_self)
        have hlater : order[limit] ∉ pages.flatten := by
          intro hin
          have := List.of_mem_filter (mem_of_walk hpages _ hin)
          simp [hkey] at this
        rw [List.flatten_cons, List.count_append, List.count_eq_zero_of_not_mem hnot,
          List.count_eq_zero_of_not_mem hlater] at hcount
        cases hcount
      have hrest : Complete key limit (rows.filter fun r => key r < key last) := by
        intro pages hpages r hr
        have hcount := hcomplete _ (.page hpage hlast hpages) r (List.mem_of_mem_filter hr)
        have hnot : r ∉ order.take limit := fun hin => not_beyond hsorted hlast hin hr
        rwa [List.flatten_cons, List.count_append, List.count_eq_zero_of_not_mem hnot,
          Nat.zero_add] at hcount
      have hapart := ih _ (hn ▸ length_filter_lt _ hmem) (hnodup.filter _) hrest rfl
      rw [keys_beyond h hperm hsorted hlast hends] at hapart
      refine (apart_iff h).mpr ⟨?_, hapart⟩
      rwa [keys_of_order hperm hsorted, List.length_map]

/-- **A keyset misses nothing exactly if the keys at each page's end differ.** -/
theorem complete_iff (h : 0 < limit) (hnodup : rows.Nodup) :
    Complete key limit rows ↔ Apart limit (keys key rows) :=
  ⟨apart_of_complete h hnodup, complete_of_apart h hnodup⟩

end Keysets

end Page

end Base
