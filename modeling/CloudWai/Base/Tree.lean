import Mathlib.Data.List.Basic
import Mathlib.Data.List.Forall2

/-!
# Trees, and what a mask leaves of them

A tree is a scalar, a list of trees, or a record of trees under keys. A mask goes down to
a depth; what lies deeper is filled in. On its way it looks at the keys: the tree
under one is kept (and masked in turn), hidden, or lost with its key.

Trees that differ only in what a mask does not show have the same mask (`mask_congr`).
A mask is its own mask (`mask_mask`), and a tree that has room is its mask as soon as all
its keys are kept (`mask_eq_self`).
-/

namespace Base

/-- A leaf, a list, or a record with its keys in order. -/
inductive Tree (K L : Type) where
  | leaf (l : L)
  | list (ts : List (Tree K L))
  | record (es : List (K × Tree K L))

namespace Tree

variable {K L : Type}

/-- What a tree is made of, itself included. -/
inductive Part (s : Tree K L) : Tree K L → Prop
  | self : Part s s
  | item {t : Tree K L} {ts : List (Tree K L)} (ht : t ∈ ts) (h : Part s t) : Part s (list ts)
  | field {e : K × Tree K L} {es : List (K × Tree K L)} (he : e ∈ es) (h : Part s e.2) :
      Part s (record es)

/-- Some record has this key. -/
def HasKey (k : K) (t : Tree K L) : Prop := ∃ es, Part (record es) t ∧ k ∈ es.map Prod.fst

/-- No record has a key twice. -/
def Distinct (t : Tree K L) : Prop := ∀ es, Part (record es) t → (es.map Prod.fst).Nodup

/-- No scalar, and no empty list or record, is deeper. -/
def Within : Nat → Tree K L → Prop
  | 0, _ => False
  | _ + 1, leaf _ => True
  | n + 1, list ts => ∀ t ∈ ts, Within n t
  | n + 1, record es => ∀ e ∈ es, Within n e.2

/-- The same, except for what is deeper and what is under keys that are not looked under. -/
def Alike (seen : K → Bool) : Nat → Tree K L → Tree K L → Prop
  | 0, _, _ => True
  | _ + 1, leaf l, leaf l' => l = l'
  | n + 1, list ts, list ts' => List.Forall₂ (Alike seen n) ts ts'
  | n + 1, record es, record es' =>
    List.Forall₂ (fun e e' => e.1 = e'.1 ∧ (seen e.1 = true → Alike seen n e.2 e'.2)) es es'
  | _ + 1, _, _ => False

/-! ## Parts -/

section Parts

variable {k : K} {l : L} {t : Tree K L} {ts : List (Tree K L)} {e : K × Tree K L}
  {es : List (K × Tree K L)}

theorem not_hasKey_leaf : ¬ HasKey k (leaf l : Tree K L) := by
  intro ⟨es, hpart, _⟩
  cases hpart

theorem hasKey_list : HasKey k (list ts) ↔ ∃ t ∈ ts, HasKey k t := by
  constructor
  · intro ⟨es, hpart, hk⟩
    cases hpart with
    | item ht h => exact ⟨_, ht, es, h, hk⟩
  · intro ⟨t, ht, es, hpart, hk⟩
    exact ⟨es, .item ht hpart, hk⟩

theorem hasKey_record : HasKey k (record es) ↔ ∃ e ∈ es, e.1 = k ∨ HasKey k e.2 := by
  constructor
  · intro ⟨es', hpart, hk⟩
    cases hpart with
    | self =>
      obtain ⟨e, he, hek⟩ := List.mem_map.mp hk
      exact ⟨e, he, .inl hek⟩
    | field he h => exact ⟨_, he, .inr ⟨es', h, hk⟩⟩
  · intro ⟨e, he, h⟩
    rcases h with rfl | ⟨es', hpart, hk⟩
    · exact ⟨es, .self, List.mem_map_of_mem he⟩
    · exact ⟨es', .field he hpart, hk⟩

theorem distinct_leaf : Distinct (leaf l : Tree K L) := by
  intro es hpart
  cases hpart

theorem distinct_list (h : ∀ t ∈ ts, Distinct t) : Distinct (list ts) := by
  intro es hpart
  cases hpart with
  | item ht hpart => exact h _ ht es hpart

theorem distinct_record (hkeys : (es.map Prod.fst).Nodup) (h : ∀ e ∈ es, Distinct e.2) :
    Distinct (record es) := by
  intro es' hpart
  cases hpart with
  | self => exact hkeys
  | field he hpart => exact h _ he es' hpart

theorem Distinct.item (h : Distinct (list ts)) (ht : t ∈ ts) : Distinct t := fun es hpart =>
  h es (.item ht hpart)

theorem Distinct.field (h : Distinct (record es)) (he : e ∈ es) : Distinct e.2 := fun es' hpart =>
  h es' (.field he hpart)

theorem Distinct.keys (h : Distinct (record es)) : (es.map Prod.fst).Nodup := h es .self

end Parts

/-! ## Masks -/

/-- What becomes of an entry. -/
inductive Fate where
  | kept | hidden | lost
deriving DecidableEq

/-- What is filled in, and what becomes of the entries, by their keys. -/
structure Policy (K L : Type) where
  fill : L
  fate : K → Fate

variable {P : Policy K L} {n : Nat} {t t' : Tree K L}

/-- An entry, if what is kept is put through `f`. -/
def Policy.entry (P : Policy K L) (f : Tree K L → Tree K L) (e : K × Tree K L) :
    Option (K × Tree K L) :=
  match P.fate e.1 with
  | .kept => some (e.1, f e.2)
  | .hidden => some (e.1, leaf P.fill)
  | .lost => none

/-- What lies deeper than `n` is filled in; of a record's entries some are masked. -/
def mask (P : Policy K L) : Nat → Tree K L → Tree K L
  | 0, _ => leaf P.fill
  | _ + 1, leaf l => leaf l
  | n + 1, list ts => list (ts.map (mask P n))
  | n + 1, record es => record (es.filterMap (P.entry (mask P n)))

section Entry

variable {f : Tree K L → Tree K L} {e : K × Tree K L}

theorem entry_kept (h : P.fate e.1 = .kept) : P.entry f e = some (e.1, f e.2) := by
  unfold Policy.entry
  rw [h]

theorem entry_hidden (h : P.fate e.1 = .hidden) : P.entry f e = some (e.1, leaf P.fill) := by
  unfold Policy.entry
  rw [h]

theorem entry_lost (h : P.fate e.1 = .lost) : P.entry f e = none := by
  unfold Policy.entry
  rw [h]

/-- A key stays, or goes. -/
theorem fst_of_entry {e' : K × Tree K L} (h : P.entry f e = some e') :
    e'.1 = e.1 ∧ (e'.2 = f e.2 ∨ e'.2 = leaf P.fill) := by
  cases hfate : P.fate e.1 with
  | kept =>
    obtain rfl := Option.some.inj ((entry_kept hfate).symm.trans h)
    exact ⟨rfl, .inl rfl⟩
  | hidden =>
    obtain rfl := Option.some.inj ((entry_hidden hfate).symm.trans h)
    exact ⟨rfl, .inr rfl⟩
  | lost => cases (entry_lost hfate).symm.trans h

theorem keys_sublist {es : List (K × Tree K L)} :
    ((es.filterMap (P.entry f)).map Prod.fst).Sublist (es.map Prod.fst) := by
  induction es with
  | nil => exact List.Sublist.slnil
  | cons e es ih =>
    rw [List.filterMap_cons]
    cases h : P.entry f e with
    | none => exact ih.cons _
    | some e' =>
      show (e'.1 :: _).Sublist (e.1 :: _)
      rw [(fst_of_entry h).1]
      exact ih.cons_cons _

/-- What is put through once is through. -/
theorem entry_entry (hf : f (f e.2) = f e.2) : (P.entry f e).bind (P.entry f) = P.entry f e := by
  cases h : P.fate e.1 with
  | kept =>
    rw [entry_kept h]
    show P.entry f (e.1, f e.2) = _
    exact (entry_kept (e := (e.1, f e.2)) h).trans (by rw [hf])
  | hidden =>
    rw [entry_hidden h]
    exact entry_hidden (e := (e.1, leaf P.fill)) h
  | lost =>
    rw [entry_lost h]
    rfl

end Entry

/-- **Noninterference.** What a mask does not show has no part in it. -/
theorem mask_congr {seen : K → Bool} (hseen : ∀ k, P.fate k = .kept → seen k = true)
    (h : Alike seen n t t') : mask P n t = mask P n t' := by
  induction n generalizing t t' with
  | zero => rfl
  | succ n ih =>
    cases t with
    | leaf l =>
      cases t' with
      | leaf l' => exact congrArg leaf h
      | list ts' => cases h
      | record es' => cases h
    | list ts =>
      cases t' with
      | leaf l' => cases h
      | list ts' =>
        have hall : List.Forall₂ (Alike seen n) ts ts' := h
        show list (ts.map (mask P n)) = list (ts'.map (mask P n))
        induction hall with
        | nil => rfl
        | cons hone hrest ihrest =>
          have htail := list.inj (ihrest hrest)
          rw [List.map_cons, List.map_cons, ih hone, htail]
      | record es' => cases h
    | record es =>
      cases t' with
      | leaf l' => cases h
      | list ts' => cases h
      | record es' =>
        have hall : List.Forall₂ (fun e e' => e.1 = e'.1 ∧
            (seen e.1 = true → Alike seen n e.2 e'.2)) es es' := h
        show record (es.filterMap (P.entry (mask P n))) =
          record (es'.filterMap (P.entry (mask P n)))
        induction hall with
        | nil => rfl
        | @cons e e' es es' hone hrest ihrest =>
          obtain ⟨hkey, hval⟩ := hone
          have htail := record.inj (ihrest hrest)
          have hentry : P.entry (mask P n) e = P.entry (mask P n) e' := by
            cases hfate : P.fate e.1 with
            | kept =>
              rw [entry_kept hfate, entry_kept (hkey ▸ hfate), ih (hval (hseen _ hfate)), hkey]
            | hidden => rw [entry_hidden hfate, entry_hidden (hkey ▸ hfate), hkey]
            | lost => rw [entry_lost hfate, entry_lost (hkey ▸ hfate)]
          rw [List.filterMap_cons, List.filterMap_cons, hentry, htail]

/-- **A mask is its own mask.** -/
theorem mask_mask : mask P n (mask P n t) = mask P n t := by
  induction n generalizing t with
  | zero => rfl
  | succ n ih =>
    cases t with
    | leaf l => rfl
    | list ts =>
      show list ((ts.map (mask P n)).map (mask P n)) = list (ts.map (mask P n))
      rw [List.map_map]
      exact congrArg list (List.map_congr_left fun _ _ => ih)
    | record es =>
      show record ((es.filterMap (P.entry (mask P n))).filterMap (P.entry (mask P n))) =
        record (es.filterMap (P.entry (mask P n)))
      rw [List.filterMap_filterMap]
      exact congrArg record (List.filterMap_congr fun _ _ => entry_entry ih)

/-- A tree that has room, and whose keys are all kept, is its mask. -/
theorem mask_eq_self (hroom : Within n t) (hkept : ∀ k, HasKey k t → P.fate k = .kept) :
    mask P n t = t := by
  induction n generalizing t with
  | zero => cases hroom
  | succ n ih =>
    cases t with
    | leaf l => rfl
    | list ts =>
      refine congrArg list ((List.map_congr_left fun t ht => ?_).trans (List.map_id ts))
      exact ih (hroom t ht) fun k hk => hkept k (hasKey_list.mpr ⟨t, ht, hk⟩)
    | record es =>
      refine congrArg record ((List.filterMap_congr fun e he => ?_).trans List.filterMap_some)
      have hfate := hkept e.1 (hasKey_record.mpr ⟨e, he, .inl rfl⟩)
      rw [entry_kept hfate,
        ih (hroom e he) fun k hk => hkept k (hasKey_record.mpr ⟨e, he, .inr hk⟩)]

/-- A mask has no key twice either. -/
theorem Distinct.mask (h : Distinct t) : Distinct (mask P n t) := by
  induction n generalizing t with
  | zero => exact distinct_leaf
  | succ n ih =>
    cases t with
    | leaf l => exact distinct_leaf
    | list ts =>
      refine distinct_list fun s hs => ?_
      obtain ⟨t, ht, rfl⟩ := List.mem_map.mp hs
      exact ih (h.item ht)
    | record es =>
      refine distinct_record (h.keys.sublist keys_sublist) fun e' he' => ?_
      obtain ⟨e, he, hentry⟩ := List.mem_filterMap.mp he'
      rcases (fst_of_entry hentry).2 with hval | hval
      · rw [hval]
        exact ih (h.field he)
      · rw [hval]
        exact distinct_leaf

/-- And no mask has a key that is lost. -/
theorem fate_of_hasKey {k : K} (h : HasKey k (mask P n t)) : P.fate k ≠ .lost := by
  induction n generalizing t with
  | zero => exact absurd h not_hasKey_leaf
  | succ n ih =>
    cases t with
    | leaf l => exact absurd h not_hasKey_leaf
    | list ts =>
      obtain ⟨s, hs, hk⟩ := hasKey_list.mp h
      obtain ⟨t, _, rfl⟩ := List.mem_map.mp hs
      exact ih hk
    | record es =>
      obtain ⟨e', he', hk⟩ := hasKey_record.mp h
      obtain ⟨e, _, hentry⟩ := List.mem_filterMap.mp he'
      obtain ⟨hkey, hval⟩ := fst_of_entry hentry
      rcases hk with rfl | hk
      · rw [hkey]
        intro hlost
        cases (entry_lost hlost).symm.trans hentry
      · rcases hval with hval | hval
        · rw [hval] at hk
          exact ih hk
        · rw [hval] at hk
          exact absurd hk not_hasKey_leaf

end Tree

end Base
