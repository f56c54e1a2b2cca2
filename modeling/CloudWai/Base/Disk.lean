import Mathlib.Data.List.TakeDrop
import Mathlib.Logic.Function.Basic

/-!
# A directory of files

A name is bound to a node, and a node holds bytes. Whoever has opened a file has its node,
and goes on writing there when the name has been taken away or bound to another: so what a
reader finds under a name is changed by writing to the node that the name is bound to
(`read_write_self`), or by binding the name (`read_rename`), and by nothing else.

That no two names share a node, and that nodes are not used again, are fields of `Disk`.
-/

namespace Base

/-- Names `ν`, the nodes they are bound to, and what these hold. -/
structure Disk (ν : Type) where
  names : ν → Option Nat
  data : Nat → List UInt8
  /-- The nodes from here on have not been used. -/
  fresh : Nat
  used : ∀ a i, names a = some i → i < fresh
  inj : ∀ a b i, names a = some i → names b = some i → a = b

namespace Disk

variable {ν : Type}

/-- There are no files. -/
def empty : Disk ν where
  names _ := none
  data _ := []
  fresh := 0
  used := nofun
  inj := nofun

/-- What is found under a name. -/
def read (d : Disk ν) (a : ν) : Option (List UInt8) := (d.names a).map d.data

/-- Bytes are written at an offset. A gap before it is filled with zeros. -/
def write (d : Disk ν) (i offset : Nat) (bytes : List UInt8) : Disk ν :=
  { d with
    data := Function.update d.data i
      ((d.data i).takeD offset 0 ++ bytes ++ (d.data i).drop (offset + bytes.length)) }

/-- The node of a file that is opened for writing anew. -/
def node (d : Disk ν) (a : ν) : Nat := (d.names a).getD d.fresh

section Names

variable [DecidableEq ν]

/-- A file is opened for writing anew: it is empty then. -/
def create (d : Disk ν) (a : ν) : Disk ν where
  names := Function.update d.names a (some (d.node a))
  data := Function.update d.data (d.node a) []
  fresh := max d.fresh (d.node a + 1)
  used := by
    intro b i hb
    by_cases h : b = a
    · subst h
      rw [Function.update_self] at hb
      have := Option.some.inj hb
      omega
    · rw [Function.update_of_ne h] at hb
      have := d.used b i hb
      omega
  inj := by
    have hnode : ∀ b, d.names b = some (d.node a) → b = a := by
      intro b hb
      unfold node at hb
      cases ha : d.names a with
      | some i => rw [ha] at hb; exact d.inj b a i hb ha
      | none => rw [ha] at hb; exact absurd (d.used b _ hb) (Nat.lt_irrefl _)
    intro b c i hb hc
    by_cases h : b = a
    · by_cases h' : c = a
      · rw [h, h']
      · subst h
        rw [Function.update_self] at hb
        rw [Function.update_of_ne h', ← hb] at hc
        exact (hnode c hc).symm
    · rw [Function.update_of_ne h] at hb
      by_cases h' : c = a
      · subst h'
        rw [Function.update_self] at hc
        rw [← hc] at hb
        exact hnode b hb
      · rw [Function.update_of_ne h'] at hc
        exact d.inj b c i hb hc

/-- A name is taken away. -/
def unlink (d : Disk ν) (a : ν) : Disk ν where
  names := Function.update d.names a none
  data := d.data
  fresh := d.fresh
  used := by
    intro b i hb
    by_cases h : b = a
    · rw [h, Function.update_self] at hb
      exact absurd hb nofun
    · rw [Function.update_of_ne h] at hb
      exact d.used b i hb
  inj := by
    intro b c i hb hc
    by_cases h : b = a
    · rw [h, Function.update_self] at hb
      exact absurd hb nofun
    by_cases h' : c = a
    · rw [h', Function.update_self] at hc
      exact absurd hc nofun
    · rw [Function.update_of_ne h] at hb
      rw [Function.update_of_ne h'] at hc
      exact d.inj b c i hb hc

/-- The node of `a` is bound to `b` instead, and what `b` was bound to has lost its name. -/
def rename (d : Disk ν) (a b : ν) : Disk ν where
  names c := if c = b then d.names a else if c = a then none else d.names c
  data := d.data
  fresh := d.fresh
  used := by
    intro c i hc
    split at hc
    · exact d.used a i hc
    split at hc
    · exact absurd hc nofun
    · exact d.used c i hc
  inj := by
    intro c e i hc he
    split at hc <;> split at he
    next h h' => rw [h, h']
    next h h' =>
      split at he
      · exact absurd he nofun
      next hne => exact absurd (d.inj a e i hc he).symm hne
    next h h' =>
      split at hc
      · exact absurd hc nofun
      next hne => exact absurd (d.inj c a i hc he) hne
    next h h' =>
      split at hc
      · exact absurd hc nofun
      split at he
      · exact absurd he nofun
      · exact d.inj c e i hc he

end Names

/-! ## What is found afterwards -/

variable {d : Disk ν} {a b : ν} {i j offset : Nat} {bytes : List UInt8}

theorem read_of_names (h : d.names a = some i) : d.read a = some (d.data i) := by
  unfold read
  rw [h, Option.map_some]

theorem data_write_other (h : j ≠ i) : (d.write i offset bytes).data j = d.data j :=
  Function.update_of_ne h _ _

theorem read_write_other (h : d.names a ≠ some i) :
    (d.write i offset bytes).read a = d.read a := by
  show (d.names a).map _ = (d.names a).map _
  cases ha : d.names a with
  | none => rfl
  | some j =>
    refine congrArg some (data_write_other fun hj => h ?_)
    rw [ha, hj]

/-- A file that is written from front to back has a longer beginning of the text then. -/
theorem data_write_take {text : List UInt8} (h : d.data i = text.take offset)
    (hle : offset ≤ text.length) (k : Nat) :
    (d.write i offset ((text.drop offset).take k)).data i = text.take (offset + k) := by
  have hfull : (text.take offset).length = offset := List.length_take_of_le hle
  have hpad : (text.take offset).takeD offset 0 = text.take offset := by
    rw [List.takeD_eq_take _ (Nat.le_of_eq hfull.symm), List.take_of_length_le (Nat.le_of_eq hfull)]
  have hrest : (text.take offset).drop (offset + ((text.drop offset).take k).length) = [] :=
    List.drop_eq_nil_of_le (by omega)
  show Function.update d.data i _ i = _
  rw [Function.update_self, h, hpad, hrest, List.append_nil, List.take_add]

/-- The node is the name's, or it is new. -/
theorem node_ne (hj : j < d.fresh) (h : d.names a ≠ some j) : j ≠ d.node a := by
  rintro rfl
  unfold node at hj h
  cases ha : d.names a with
  | some i => exact h (by rw [ha, Option.getD_some])
  | none =>
    rw [ha, Option.getD_none] at hj
    exact Nat.lt_irrefl _ hj

section Names

variable [DecidableEq ν]

theorem names_create_self : (d.create a).names a = some (d.node a) := Function.update_self ..

theorem names_create_other (h : b ≠ a) : (d.create a).names b = d.names b :=
  Function.update_of_ne h _ _

theorem data_create_self : (d.create a).data (d.node a) = [] := Function.update_self ..

theorem data_create_other (h : j ≠ d.node a) : (d.create a).data j = d.data j :=
  Function.update_of_ne h _ _

theorem fresh_le_create : d.fresh ≤ (d.create a).fresh := Nat.le_max_left ..

theorem node_lt_create : d.node a < (d.create a).fresh := Nat.le_max_right ..

theorem read_create_other (h : b ≠ a) : (d.create a).read b = d.read b := by
  unfold read
  rw [names_create_other h]
  cases hb : d.names b with
  | none => rfl
  | some j =>
    refine congrArg some (data_create_other (node_ne (d.used b j hb) fun ha => h ?_))
    exact d.inj b a j hb ha

theorem names_rename_target : (d.rename a b).names b = d.names a := if_pos rfl

theorem names_rename_source (h : a ≠ b) : (d.rename a b).names a = none :=
  (if_neg h).trans (if_pos rfl)

theorem names_rename_other {c : ν} (ha : c ≠ a) (hb : c ≠ b) :
    (d.rename a b).names c = d.names c := (if_neg hb).trans (if_neg ha)

/-- **What is found under a name that a file has been given is that file's.** -/
theorem read_rename : (d.rename a b).read b = d.read a := by
  unfold read
  rw [names_rename_target]
  rfl

theorem names_unlink_self : (d.unlink a).names a = none := Function.update_self ..

theorem names_unlink_other (h : b ≠ a) : (d.unlink a).names b = d.names b :=
  Function.update_of_ne h _ _

theorem read_unlink_other (h : b ≠ a) : (d.unlink a).read b = d.read b := by
  unfold read
  rw [names_unlink_other h]
  rfl

end Names

end Disk

end Base
