import Mathlib.Algebra.GroupWithZero.Nat
import Mathlib.Data.List.Nodup
import Mathlib.Data.List.Perm.Subperm
import CloudWai.Base.Machine

/-!
# The host ports of the engines

The runtime and the database engine each hand out ports of a configured range, and look for
a free one from a place that depends on the identifier. They differ in two respects. The
runtime does not come round to the beginning of its range, and has a number from beyond it
when it has found none; but it records a port as soon as it is chosen. The database engine
comes round, and throws when every port is recorded; but it records a port only when
`docker run` has answered, and another create may have looked meanwhile.

So the ports of the runtime are in the range if and only if a deploy always finds one between
its place and the end (`Apps.Room`), and those of the database engine are apart if and only if
no create arrives at the port of one that waits for its container (`Databases.Clear`).

Mirrors `allocatePort` of `infra/deployment/runtime-server.mjs` and of
`postgres-server.mjs`, and of what the servers keep of an application or a database only
the port.
-/

namespace CloudWai.Ports

open Base

/-! ## Data -/

/-- `PORT_BASE` and `PORT_RANGE` -/
structure Range where
  base : Nat
  size : Nat
deriving DecidableEq

/-- The port lies in the range. -/
def Range.Has (c : Range) (port : Nat) : Prop := c.base ≤ port ∧ port < c.base + c.size

instance (c : Range) (port : Nat) : Decidable (c.Has port) := inferInstanceAs (Decidable (_ ∧ _))

/-- `ch.charCodeAt(0)`: of a character beyond the first plane, its first half. -/
def charCode (ch : Char) : Nat :=
  if ch.toNat < 0x10000 then ch.toNat else 0xD800 + (ch.toNat - 0x10000) / 0x400

/-- A hash of 32 bits. -/
def hash (text : String) : Nat :=
  text.toList.foldl (fun h ch => (h * 31 + charCode ch) % 2 ^ 32) 0

/-- **The ports that are handed out** are pairwise distinct, and in the range. -/
structure HandedOut (c : Range) (ports : List Nat) : Prop where
  apart : ports.Nodup
  inside : ∀ port ∈ ports, c.Has port

section Handing

variable {c : Range} {ports ports' : List Nat} {port : Nat}

theorem HandedOut.subperm (h : HandedOut c ports) (hsub : ports'.Subperm ports) :
    HandedOut c ports' := by
  obtain ⟨l, hperm, hl⟩ := hsub
  refine ⟨hperm.nodup_iff.mp (h.apart.sublist hl), fun port hport => ?_⟩
  exact h.inside port (hl.subset (hperm.mem_iff.mpr hport))

/-- One more is handed out. -/
theorem handedOut_concat (h : HandedOut c ports) :
    HandedOut c (ports ++ [port]) ↔ port ∉ ports ∧ c.Has port := by
  constructor
  · intro h'
    have hmem : port ∈ ports ++ [port] := List.mem_append_right _ (List.mem_singleton_self _)
    refine ⟨fun hport => ?_, h'.inside port hmem⟩
    exact (List.nodup_append.mp h'.apart).2.2 port hport port (List.mem_singleton_self _) rfl
  · rintro ⟨hnew, hin⟩
    refine ⟨List.nodup_append.mpr ⟨h.apart, List.nodup_singleton _, ?_⟩, ?_⟩
    · intro p hp q hq hpq
      exact hnew (List.mem_singleton.mp hq ▸ hpq ▸ hp)
    · intro p hp
      rcases List.mem_append.mp hp with hp | hp
      · exact h.inside p hp
      · exact List.mem_singleton.mp hp ▸ hin

end Handing

/-! ## The runtime -/

/-- An application, as far as its port goes. -/
structure App where
  id : String
  hostPort : Option Nat
deriving DecidableEq

/-- `state.apps` of the runtime. -/
structure Apps where
  rows : List App := []

namespace Apps

/-- The other applications. -/
def others (s : Apps) (id : String) : List App := s.rows.filter (·.id != id)

def ports (rows : List App) : List Nat := rows.filterMap (·.hostPort)

/-- `allocatePort` of the runtime. A port that is `0` does not count as one. -/
def allocatePort (c : Range) (s : Apps) (id : String) (random : Fin 1000) : Nat :=
  let used := (ports (s.others id)).filter (· != 0)
  match (List.range c.size).find? fun i => !used.contains (c.base + hash id % c.size + i) with
  | some i => c.base + hash id % c.size + i
  | none => c.base + c.size + random

/-- What happens to the runtime's ports. -/
inductive Event where
  | createApp (id : String)
  /-- A deploy or a rollback comes to `docker run`. -/
  | runContainer (id : String) (random : Fin 1000)
  | destroy (id : String)
deriving DecidableEq

/-- One event. -/
def step (c : Range) (s : Apps) : Event → Apps
  | .createApp id => { rows := s.others id ++ [⟨id, none⟩] }
  | .runContainer id random =>
    match s.rows.find? (·.id == id) with
    | none => s
    | some app =>
      match app.hostPort with
      | some _ => s
      | none => { rows := s.others id ++ [{ app with
          hostPort := some (s.allocatePort c id random) }] }
  | .destroy id => { rows := s.others id }

/-- The ports of the applications that there are. -/
def Good (c : Range) (s : Apps) : Prop := HandedOut c (ports s.rows)

/-- **The condition.** An application that has no port yet finds one between its place and the
end of the range; and if its place is `0`, no other application has that. -/
def Room (c : Range) (s : Apps) : Event → Prop
  | .runContainer id _ => ∀ app ∈ s.rows.find? (·.id == id), app.hostPort = none →
      (∃ k < c.size, hash id % c.size ≤ k ∧ c.base + k ∉ ports (s.others id)) ∧
      (c.base + hash id % c.size = 0 → 0 ∉ ports (s.others id))
  | _ => True

instance (c : Range) (s : Apps) (e : Event) : Decidable (Room c s e) := by
  unfold Room
  split <;> infer_instance

section Steps

variable {c : Range} {s : Apps} {id : String}

theorem ports_others : (ports (s.others id)).Subperm (ports s.rows) :=
  (List.filter_sublist.filterMap _).subperm

/-- **The port that is chosen** is nobody's and in the range, if and only if there is room. -/
theorem allocatePort_good (random : Fin 1000) :
    (s.allocatePort c id random ∉ ports (s.others id) ∧ c.Has (s.allocatePort c id random)) ↔
    (∃ k < c.size, hash id % c.size ≤ k ∧ c.base + k ∉ ports (s.others id)) ∧
      (c.base + hash id % c.size = 0 → 0 ∉ ports (s.others id)) := by
  have hused : ∀ p, ((ports (s.others id)).filter (· != 0)).contains p = true ↔
      p ∈ ports (s.others id) ∧ p ≠ 0 := by
    intro p
    rw [List.contains_iff_mem, List.mem_filter, bne_iff_ne]
  unfold allocatePort
  generalize hplace : hash id % c.size = place
  dsimp only
  cases hfind : (List.range c.size).find? fun i =>
      !((ports (s.others id)).filter (· != 0)).contains (c.base + place + i) with
  | none =>
    rw [List.find?_range_eq_none] at hfind
    refine iff_of_false (fun h => ?_) ?_
    · have hend : c.base + c.size + random.val < c.base + c.size := h.2.2
      omega
    · rintro ⟨⟨k, hk, hle, hfree⟩, _⟩
      have htaken := hfind (k - place) (by omega)
      rw [Bool.not_not, hused] at htaken
      refine hfree ?_
      have heq : c.base + place + (k - place) = c.base + k := by omega
      exact heq ▸ htaken.1
  | some i =>
    rw [List.find?_range_eq_some] at hfind
    obtain ⟨hi, hmem, hbefore⟩ := hfind
    rw [Bool.not_eq_true', ← Bool.not_eq_true, hused, not_and_not_right] at hi
    have hlt : i < c.size := List.mem_range.mp hmem
    have hplace' : place < c.size := hplace ▸ Nat.mod_lt _ (by omega)
    show (c.base + place + i ∉ ports (s.others id) ∧ c.Has (c.base + place + i)) ↔ _
    constructor
    · rintro ⟨hnew, _, hend⟩
      refine ⟨⟨place + i, by omega, by omega, Nat.add_assoc .. ▸ hnew⟩, fun hzero => ?_⟩
      -- the first place is `0`, which never counts as used
      have hfirst : i = 0 := by
        by_contra hne
        have htaken := hbefore 0 (by omega)
        rw [Bool.not_not, hused] at htaken
        exact htaken.2 hzero
      rwa [hfirst, hzero] at hnew
    · rintro ⟨⟨k, hk, hle, hfree⟩, hzero⟩
      have hik : i ≤ k - place := by
        by_contra hgt
        have htaken := hbefore (k - place) (by omega)
        rw [Bool.not_not, hused] at htaken
        have heq : c.base + place + (k - place) = c.base + k := by omega
        exact hfree (heq ▸ htaken.1)
      refine ⟨fun htaken => ?_, by omega, by omega⟩
      have hnone := hi htaken
      rw [hnone] at htaken
      exact hzero (by omega) htaken

/-- The step lemma: what was handed out well is after the step, just when there is room. -/
theorem good_step (h : Good c s) (e : Event) : Good c (s.step c e) ↔ Room c s e := by
  cases e with
  | createApp id =>
    refine iff_of_true ?_ trivial
    have hports : ports (s.others id ++ [⟨id, none⟩]) = ports (s.others id) := by
      unfold ports
      rw [List.filterMap_append]
      exact List.append_nil _
    show HandedOut c (ports (s.others id ++ [⟨id, none⟩]))
    rw [hports]
    exact h.subperm ports_others
  | destroy id => exact iff_of_true (h.subperm ports_others) trivial
  | runContainer id random =>
    unfold step Room
    dsimp only
    cases hfind : s.rows.find? (·.id == id) with
    | none => exact iff_of_true h fun app happ => by cases happ
    | some app =>
      dsimp only
      cases hport : app.hostPort with
      | some port =>
        refine iff_of_true h ?_
        rintro app' happ hnone
        rw [Option.mem_some.mp happ, hnone] at hport
        cases hport
      | none =>
        have hrest : HandedOut c (ports (s.others id)) := h.subperm ports_others
        show HandedOut c (ports (s.others id ++ [_])) ↔ _
        unfold ports
        rw [List.filterMap_append]
        refine (handedOut_concat hrest).trans ((allocatePort_good random).trans ?_)
        exact ⟨fun hroom _ _ _ => hroom, fun hroom => hroom app rfl hport⟩

end Steps

end Apps

/-! ## The database engine -/

/-- A database, as far as its port goes. -/
structure Database where
  id : String
  port : Nat
deriving DecidableEq

/-- `state.databases`, and the creates that wait for `docker run`. -/
structure Databases where
  recorded : List Database := []
  creating : List Database := []

namespace Databases

def ports (dbs : List Database) : List Nat := dbs.map (·.port)

/-- The port that is looked at in the `i`-th place. -/
def candidate (c : Range) (id : String) (i : Nat) : Nat := c.base + (hash id + i) % c.size

/-- `allocatePort` of the database engine; `none` is `no free database port`. -/
def allocatePort (c : Range) (s : Databases) (id : String) : Option Nat :=
  ((List.range c.size).find? fun i => !(ports s.recorded).contains (candidate c id i)).map
    (candidate c id)

/-- What happens to the database engine's. -/
inductive Event where
  | createDatabase (id : String)
  /-- `docker run` has answered a create. -/
  | started (k : Nat) (ok : Bool)
  | destroyDatabase (id : String)
deriving DecidableEq

/-- One event; a create is under way until `docker run` has answered. -/
def step (c : Range) (s : Databases) : Event → Databases
  | .createDatabase id =>
    match s.allocatePort c id with
    | none => s
    | some port => { s with creating := s.creating ++ [⟨id, port⟩] }
  | .started k ok =>
    match s.creating[k]? with
    | none => s
    | some db =>
      { recorded := if ok then s.recorded.filter (·.id != db.id) ++ [db] else s.recorded
        creating := s.creating.eraseIdx k }
  | .destroyDatabase id => { s with recorded := s.recorded.filter (·.id != id) }

/-- The ports of the databases that there are, and of those that are about to be. -/
def Good (c : Range) (s : Databases) : Prop := HandedOut c (ports (s.recorded ++ s.creating))

/-- **The condition.** The first candidate that no database has is not that of a create that
waits. -/
def Clear (c : Range) (s : Databases) : Event → Prop
  | .createDatabase id => ∀ i < c.size, (∀ j < i, candidate c id j ∈ ports s.recorded) →
      candidate c id i ∉ ports s.recorded → candidate c id i ∉ ports s.creating
  | _ => True

instance (c : Range) (s : Databases) (e : Event) : Decidable (Clear c s e) := by
  unfold Clear
  split <;> infer_instance

section Steps

variable {c : Range} {s : Databases} {id : String} {port : Nat}

/-- Every place of the range is come to. -/
theorem place_of_lt {n : Nat} (h : Nat) {r : Nat} (hr : r < n) : ∃ i < n, (h + i) % n = r := by
  refine ⟨(r + (n - h % n)) % n, Nat.mod_lt _ (by omega), ?_⟩
  have hle : h % n < n := Nat.mod_lt _ (by omega)
  have hdiv : n * (h / n) + h % n = h := Nat.div_add_mod h n
  have hround : h + (r + (n - h % n)) = r + n * (h / n + 1) := by
    rw [Nat.mul_succ]
    omega
  rw [Nat.add_mod_mod, hround, Nat.add_mul_mod_self_left, Nat.mod_eq_of_lt hr]

theorem has_candidate {i : Nat} (hi : i < c.size) : c.Has (candidate c id i) := by
  have hlt : (hash id + i) % c.size < c.size := Nat.mod_lt _ (by omega)
  unfold candidate
  exact ⟨by omega, by omega⟩

/-- **It throws only when every port of the range is recorded.** -/
theorem allocatePort_eq_none :
    s.allocatePort c id = none ↔ ∀ port, c.Has port → port ∈ ports s.recorded := by
  unfold allocatePort
  rw [Option.map_eq_none_iff, List.find?_range_eq_none]
  constructor
  · rintro h port ⟨hle, hlt⟩
    have hr : port - c.base < c.size := by omega
    obtain ⟨i, hi, hplace⟩ := place_of_lt (hash id) hr
    have htaken := h i hi
    rw [Bool.not_not, List.contains_iff_mem] at htaken
    have heq : candidate c id i = port := by
      unfold candidate
      omega
    exact heq ▸ htaken
  · intro h i hi
    rw [Bool.not_not, List.contains_iff_mem]
    exact h _ (has_candidate hi)

theorem allocatePort_some (h : s.allocatePort c id = some port) :
    ∃ i < c.size, port = candidate c id i ∧ candidate c id i ∉ ports s.recorded ∧
      ∀ j < i, candidate c id j ∈ ports s.recorded := by
  unfold allocatePort at h
  obtain ⟨i, hfind, rfl⟩ := Option.map_eq_some_iff.mp h
  rw [List.find?_range_eq_some] at hfind
  obtain ⟨hfree, hmem, hbefore⟩ := hfind
  refine ⟨i, List.mem_range.mp hmem, rfl, fun htaken => ?_, fun j hj => ?_⟩
  · rw [List.contains_iff_mem.mpr htaken] at hfree
    exact absurd hfree nofun
  · have htaken := hbefore j hj
    rwa [Bool.not_not, List.contains_iff_mem] at htaken

/-- The step lemma. -/
theorem good_step (h : Good c s) (e : Event) : Good c (s.step c e) ↔ Clear c s e := by
  cases e with
  | destroyDatabase id =>
    refine iff_of_true (h.subperm (List.Sublist.subperm (List.Sublist.map _ ?_))) trivial
    exact List.filter_sublist.append (List.Sublist.refl _)
  | started k ok =>
    refine iff_of_true ?_ trivial
    unfold step
    dsimp only
    cases hk : s.creating[k]? with
    | none => exact h
    | some db =>
      obtain ⟨hlt, rfl⟩ := List.getElem?_eq_some_iff.mp hk
      have hsub : ((if ok then s.recorded.filter (·.id != s.creating[k].id) ++ [s.creating[k]]
          else s.recorded) ++ s.creating.eraseIdx k).Subperm (s.recorded ++ s.creating) := by
        cases ok with
        | false => exact ((List.Sublist.refl _).append (List.eraseIdx_sublist _ _)).subperm
        | true =>
          rw [if_pos rfl, List.append_assoc]
          refine List.Subperm.append List.filter_sublist.subperm ?_
          exact (List.getElem_cons_eraseIdx_perm hlt).subperm
      obtain ⟨l, hperm, hl⟩ := hsub
      exact h.subperm ⟨_, hperm.map _, hl.map _⟩
  | createDatabase id =>
    unfold step
    dsimp only
    cases hport : s.allocatePort c id with
    | none =>
      refine iff_of_true h fun i hi _ hfree => absurd ?_ hfree
      exact allocatePort_eq_none.mp hport _ (has_candidate hi)
    | some port =>
      obtain ⟨i, hi, rfl, hfree, hbefore⟩ := allocatePort_some hport
      have hports : ports (s.recorded ++ (s.creating ++ [⟨id, candidate c id i⟩])) =
          ports (s.recorded ++ s.creating) ++ [candidate c id i] := by
        unfold ports
        rw [← List.append_assoc, List.map_append]
        rfl
      show HandedOut c (ports (s.recorded ++ (s.creating ++ [⟨id, candidate c id i⟩]))) ↔ _
      rw [hports, handedOut_concat h, and_iff_left (has_candidate hi)]
      constructor
      · intro hnew k hk hbefore' hfree'
        -- the first free candidate is one
        have hik : k = i := by
          rcases Nat.lt_trichotomy k i with hlt | heq | hgt
          · exact absurd (hbefore k hlt) hfree'
          · exact heq
          · exact absurd (hbefore' i hgt) hfree
        subst hik
        intro hmem
        refine hnew ?_
        unfold ports
        rw [List.map_append]
        exact List.mem_append_right _ hmem
      · intro hclear hmem
        unfold ports at hmem
        rw [List.map_append] at hmem
        exact (List.mem_append.mp hmem).elim hfree (hclear i hi hbefore hfree)

end Steps

end Databases

/-! ## Runs -/

theorem always_good_iff {σ ℓ : Type} {step : σ → ℓ → σ} {P : σ → Prop} {C : σ → ℓ → Prop}
    (hstep : ∀ s l, P s → (P (step s l) ↔ C s l)) (s : σ) (ls : List ℓ) :
    Always step P s ls ↔ P s ∧ EachStep step C s ls := by
  have hiff : P s → (Always step P s ls ↔ EachStep step C s ls) := fun h0 =>
    always_iff_eachStep (J := fun _ => True) trivial (fun _ _ _ => trivial) h0
      fun s l _ => hstep s l
  constructor
  · intro h
    have h0 := (always_iff_after.mp h).1
    exact ⟨h0, (hiff h0).mp h⟩
  · rintro ⟨h0, h⟩
    exact (hiff h0).mpr h

/-- **In every run of either engine, from whatever it finds, the ports that are handed out are
distinct and in the range throughout, if and only if they are at the beginning and every step
meets its condition; and the database engine finds none only when every one is recorded.** -/
theorem ports_handed_out (c : Range) :
    (∀ (s : Apps) (es : List Apps.Event), Always (Apps.step c) (Apps.Good c) s es ↔
      Apps.Good c s ∧ EachStep (Apps.step c) (Apps.Room c) s es) ∧
    (∀ (s : Databases) (es : List Databases.Event),
      Always (Databases.step c) (Databases.Good c) s es ↔
        Databases.Good c s ∧ EachStep (Databases.step c) (Databases.Clear c) s es) ∧
    ∀ (s : Databases) (id : String), s.allocatePort c id = none ↔
      ∀ port, c.Has port → port ∈ Databases.ports s.recorded :=
  ⟨always_good_iff fun _ e h => Apps.good_step h e,
    always_good_iff fun _ e h => Databases.good_step h e,
    fun _ _ => Databases.allocatePort_eq_none⟩

/-- A range of two ports. The second application has a port from beyond it while the first
port is free; and two databases are given the same port, and both are recorded. -/
theorem ports_not_handed_out :
    (¬ ∀ (c : Range) (es : List Apps.Event), Always (Apps.step c) (Apps.Good c) {} es) ∧
    ¬ ∀ (c : Range) (es : List Databases.Event),
      Always (Databases.step c) (Databases.Good c) {} es := by
  refine ⟨fun h => ?_, fun h => ?_⟩
  · have hrun := always_iff_prefixes.mp (h ⟨18100, 2⟩ [.createApp "0000000000000000000c",
      .runContainer "0000000000000000000c" 0, .createApp "0000000000000000000a",
      .runContainer "0000000000000000000a" 0]) _ [] (List.append_nil _).symm
    have hin := hrun.inside
    revert hin
    decide +kernel
  · have hrun := always_iff_prefixes.mp (h ⟨18500, 2⟩ [.createDatabase "0000000000000000000a",
      .createDatabase "0000000000000000000c", .started 0 true, .started 0 true]) _ []
      (List.append_nil _).symm
    have hapart := hrun.apart
    revert hapart
    decide +kernel

end CloudWai.Ports
