import CloudWai.Base.Hex
import CloudWai.Base.Ipv4
import Mathlib.Data.List.TakeWhile

/-!
# IPv6 addresses, and where a connection goes

An address is eight groups of sixteen bits. In its text one `::` stands for all
the zero groups it takes to make eight, and the last two groups may be written
as a quad. `Endpoint.read` reads what a proxy is told to connect to: an address
of either family and perhaps a port, for which the address of the newer family
is put in brackets. A text that is not read so is a name, and where a name leads
is not in the text.

`Ip.Internal` are the ranges that are never routed publicly: private, loopback,
link-local and unique-local. How a text begins decides about it only once the
text is known to be an address (`first_group`, `Endpoint.dotted`).
-/

namespace Base

namespace Ipv6

/-- Eight groups of sixteen bits. -/
structure Address where
  groups : List Nat
  eight : groups.length = 8
  bounded : ∀ n ∈ groups, n < 65536

def Address.ofGroups (gs : List Nat) : Option Address :=
  if h : gs.length = 8 ∧ ∀ n ∈ gs, n < 65536 then some ⟨gs, h.1, h.2⟩ else none

/-- One to four digits of either case. -/
def group (w : List Char) : Option Nat :=
  if 1 ≤ w.length ∧ w.length ≤ 4 then
    (w.mapM Hex.value).map fun ds => ds.foldl (fun n d => 16 * n + d) 0
  else none

/-- The two groups a quad stands for. -/
def pair (a : Ipv4.Address) : List Nat :=
  match a.octets with
  | [p, q, r, s] => [256 * p + q, 256 * r + s]
  | _ => []

/-- The groups at the end of a text, where a quad may be. -/
def tail : List (List Char) → Option (List Nat)
  | [] => some []
  | [p] =>
    match group p with
    | some n => some [n]
    | none => (Ipv4.Address.read p).map pair
  | p :: ps => (group p).bind fun n => (tail ps).map (n :: ·)

/-- The texts around the first `::`. -/
def cut : List Char → Option (List Char × List Char)
  | [] => none
  | c :: w =>
    if c = ':' ∧ w.head? = some ':' then some ([], w.tail)
    else (cut w).map fun (l, r) => (c :: l, r)

/-- The parts between colons; an empty text has none. -/
def parts (w : List Char) : List (List Char) := if w = [] then [] else w.splitOn ':'

/-- The address a text denotes. -/
def Address.read (w : List Char) : Option Address :=
  match cut w with
  | none => (tail (w.splitOn ':')).bind ofGroups
  | some (l, r) =>
    ((parts l).mapM group).bind fun gs => (tail (parts r)).bind fun hs =>
      if gs.length + hs.length < 8 then
        ofGroups (gs ++ (List.replicate (8 - (gs.length + hs.length)) 0 ++ hs))
      else none

example : (Address.read "fd00:12::10.1.2.3".toList).map (·.groups) =
    some [0xfd00, 0x12, 0, 0, 0, 0, 0x0a01, 0x0203] := by decide

variable {w x r : List Char}

theorem groups_of_ofGroups {gs : List Nat} {a : Address} (h : Address.ofGroups gs = some a) :
    a.groups = gs := by
  unfold Address.ofGroups at h
  split at h
  · cases h
    rfl
  · cases h

/-! ## The first group -/

theorem cut_append (h : ':' ∉ x) :
    cut (x ++ w) = (cut w).map fun (l, r) => (x ++ l, r) := by
  induction x with
  | nil =>
    rw [List.nil_append]
    cases cut w <;> rfl
  | cons c x ih =>
    have hc : c ≠ ':' := fun he => h (he ▸ List.mem_cons_self)
    rw [List.cons_append, cut, if_neg (fun hcut => hc hcut.1),
      ih (fun hx => h (List.mem_cons_of_mem c hx))]
    cases cut w <;> rfl

theorem head_of_tail {gs : List Nat} {p q : List Char} {ps : List (List Char)}
    (h : tail (p :: q :: ps) = some gs) : ∃ n, group p = some n ∧ gs.head? = some n := by
  unfold tail at h
  cases hp : group p with
  | none => simp [hp] at h
  | some n =>
    simp only [hp, Option.bind_some, Option.map_eq_some_iff] at h
    obtain ⟨ns, _, rfl⟩ := h
    exact ⟨n, rfl, rfl⟩

theorem head_of_mapM {gs : List Nat} {p : List Char} {ps : List (List Char)}
    (h : (p :: ps).mapM group = some gs) : ∃ n, group p = some n ∧ gs.head? = some n := by
  rw [List.mapM_cons] at h
  simp only [Option.pure_def, Option.bind_eq_bind, Option.bind_eq_some_iff, Option.some.injEq] at h
  obtain ⟨n, hp, ns, _, rfl⟩ := h
  exact ⟨n, hp, rfl⟩

/-- What stands before the first colon is the first group. -/
theorem first_group {a : Address} (hx : ':' ∉ x) (hne : x ≠ [])
    (h : Address.read (x ++ ':' :: r) = some a) :
    ∃ n, group x = some n ∧ a.groups.head? = some n := by
  unfold Address.read at h
  rw [cut_append hx] at h
  cases hcut : cut (':' :: r) with
  | none =>
    simp only [hcut, Option.map_none, List.splitOn_append_cons_self_of_not_mem hx] at h
    obtain ⟨gs, htail, hgs⟩ := Option.bind_eq_some_iff.mp h
    rw [groups_of_ofGroups hgs]
    cases hr : r.splitOn ':' with
    | nil => exact absurd hr (List.splitOn_ne_nil ':' r)
    | cons q ps =>
      rw [hr] at htail
      exact head_of_tail htail
  | some lt =>
    obtain ⟨l, t⟩ := lt
    simp only [hcut, Option.map_some] at h
    obtain ⟨gs, hgs, hrest⟩ := Option.bind_eq_some_iff.mp h
    obtain ⟨hs, _, hend⟩ := Option.bind_eq_some_iff.mp hrest
    have hfirst : ∃ n, group x = some n ∧ gs.head? = some n := by
      have hparts : ∃ ps, parts (x ++ l) = x :: ps := by
        unfold parts
        rw [if_neg (by simp [hne])]
        -- the cut text begins with a colon, so what is left of it is empty or does too
        unfold cut at hcut
        split at hcut
        next =>
          cases hcut
          rw [List.append_nil, List.splitOn_eq_singleton hx]
          exact ⟨[], rfl⟩
        next =>
          obtain ⟨⟨l', t'⟩, _, hlt⟩ := Option.map_eq_some_iff.mp hcut
          cases hlt
          rw [List.splitOn_append_cons_self_of_not_mem hx]
          exact ⟨_, rfl⟩
      obtain ⟨ps, hps⟩ := hparts
      rw [hps] at hgs
      exact head_of_mapM hgs
    obtain ⟨n, hn, hhead⟩ := hfirst
    split at hend
    · refine ⟨n, hn, ?_⟩
      rw [groups_of_ofGroups hend, List.head?_append, hhead]
      rfl
    · cases hend

/-! ## What a text is made of -/

theorem isSome_of_mapM {α β : Type} {f : α → Option β} {l : List α} {bs : List β}
    (h : l.mapM f = some bs) : ∀ a ∈ l, (f a).isSome = true := by
  induction l generalizing bs with
  | nil => simp
  | cons d l ih =>
    rw [List.mapM_cons] at h
    simp only [Option.pure_def, Option.bind_eq_bind, Option.bind_eq_some_iff,
      Option.some.injEq] at h
    obtain ⟨v, hv, vs, hvs, _⟩ := h
    intro a ha
    rcases List.mem_cons.mp ha with rfl | ha
    · rw [hv]
      rfl
    · exact ih hvs a ha

theorem chars_of_group (h : (group w).isSome = true) : ∀ c ∈ w, (Hex.value c).isSome = true := by
  obtain ⟨n, hn⟩ := Option.isSome_iff_exists.mp h
  unfold group at hn
  split at hn
  · obtain ⟨ds, hds, _⟩ := Option.map_eq_some_iff.mp hn
    exact isSome_of_mapM hds
  · cases hn

/-- A digit or the dot of a quad. -/
def Plain (c : Char) : Prop := (Hex.value c).isSome = true ∨ c = '.'

theorem value_of_digit {c : Char} (h : Ipv4.digit c = true) : (Hex.value c).isSome = true := by
  have hle : ∀ {a b : Char}, a ≤ b → a.toNat ≤ b.toNat := fun h => h
  simp only [Ipv4.digit, Bool.and_eq_true, decide_eq_true_eq] at h
  have hlow := hle h.1
  have hhigh := hle h.2
  simp at hlow hhigh
  unfold Hex.value
  dsimp only
  rw [if_pos ⟨hlow, hhigh⟩]
  rfl

theorem chars_of_quad {a : Ipv4.Address} (h : Ipv4.Address.read w = some a) :
    ∀ c ∈ w, Plain c := by
  obtain ⟨q, hq, _⟩ := Ipv4.address_iff.mp (by rw [h]; rfl)
  intro c hc
  rcases Ipv4.chars_of_quad (by rw [hq]; rfl) c hc with hd | hdot
  · exact .inl (value_of_digit hd)
  · exact .inr hdot

/-- Groups are written in hexadecimal digits, and the last of them perhaps as a quad. -/
theorem chars_of_tail {ps : List (List Char)} {gs : List Nat} (h : tail ps = some gs) :
    ∀ p ∈ ps, ∀ c ∈ p, Plain c := by
  induction ps generalizing gs with
  | nil => simp
  | cons p ps ih =>
    cases ps with
    | nil =>
      intro p' hp' c hc
      rw [List.mem_singleton.mp hp'] at hc
      unfold tail at h
      cases hg : group p with
      | some n => exact .inl (chars_of_group (by rw [hg]; rfl) c hc)
      | none =>
        simp only [hg, Option.map_eq_some_iff] at h
        obtain ⟨a, ha, _⟩ := h
        exact chars_of_quad ha c hc
    | cons q qs =>
      unfold tail at h
      obtain ⟨n, hn, hrest⟩ := Option.bind_eq_some_iff.mp h
      obtain ⟨ns, hns, _⟩ := Option.map_eq_some_iff.mp hrest
      intro p' hp' c hc
      rcases List.mem_cons.mp hp' with rfl | hp'
      · exact .inl (chars_of_group (by rw [hn]; rfl) c hc)
      · exact ih hns p' hp' c hc

/-- What is between the colons, and the colons, are the whole text. -/
theorem mem_of_parts {c : Char} (hc : c ∈ w) : c = ':' ∨ ∃ p ∈ parts w, c ∈ p := by
  unfold parts
  rw [if_neg (List.ne_nil_of_mem hc)]
  induction w with
  | nil => cases hc
  | cons d w ih =>
    rw [List.splitOn_cons_eq_if_modifyHead]
    by_cases hd : d = ':'
    · rw [if_pos (by simpa using hd)]
      rcases List.mem_cons.mp hc with rfl | hc
      · exact .inl hd
      · rcases ih hc with h | ⟨p, hp, hcp⟩
        · exact .inl h
        · exact .inr ⟨p, List.mem_cons_of_mem _ hp, hcp⟩
    · rw [if_neg (by simpa using hd)]
      cases hs : w.splitOn ':' with
      | nil => exact absurd hs (List.splitOn_ne_nil ':' w)
      | cons q qs =>
        rw [hs] at ih
        rcases List.mem_cons.mp hc with rfl | hc
        · exact .inr ⟨c :: q, by simp, by simp⟩
        · rcases ih hc with h | ⟨p, hp, hcp⟩
          · exact .inl h
          · rcases List.mem_cons.mp hp with rfl | hp
            · exact .inr ⟨d :: p, by simp, by simp [hcp]⟩
            · exact .inr ⟨p, by simp [hp], hcp⟩

/-- A text is cut at its first two colons. -/
theorem eq_of_cut {l t : List Char} (h : cut w = some (l, t)) : w = l ++ ':' :: ':' :: t := by
  induction w generalizing l with
  | nil => cases h
  | cons c w ih =>
    unfold cut at h
    split at h
    next hc =>
      cases h
      obtain ⟨rfl, hhead⟩ := hc
      cases w with
      | nil => cases hhead
      | cons d w =>
        cases hhead
        rfl
    next =>
      obtain ⟨⟨l', t'⟩, hl', hlt⟩ := Option.map_eq_some_iff.mp h
      cases hlt
      rw [ih hl']
      rfl

/-- So an address has no other characters than these. -/
theorem chars_of_read {a : Address} (h : Address.read w = some a) :
    ∀ c ∈ w, Plain c ∨ c = ':' := by
  intro c hc
  unfold Address.read at h
  split at h
  · obtain ⟨gs, htail, _⟩ := Option.bind_eq_some_iff.mp h
    rcases mem_of_parts hc with hcolon | ⟨p, hp, hcp⟩
    · exact .inr hcolon
    · unfold parts at hp
      rw [if_neg (List.ne_nil_of_mem hc)] at hp
      exact .inl (chars_of_tail htail p hp c hcp)
  · rename_i l t hcut
    obtain ⟨gs, hgs, hrest⟩ := Option.bind_eq_some_iff.mp h
    obtain ⟨hs, hhs, _⟩ := Option.bind_eq_some_iff.mp hrest
    rw [eq_of_cut hcut, List.mem_append, List.mem_cons, List.mem_cons] at hc
    rcases hc with hc | hc | hc | hc
    · rcases mem_of_parts hc with hcolon | ⟨p, hp, hcp⟩
      · exact .inr hcolon
      · exact .inl (.inl (chars_of_group (isSome_of_mapM hgs p hp) c hcp))
    · exact .inr hc
    · exact .inr hc
    · rcases mem_of_parts hc with hcolon | ⟨p, hp, hcp⟩
      · exact .inr hcolon
      · exact .inl (chars_of_tail hhs p hp c hcp)

end Ipv6

/-! ## Where a connection goes -/

/-- An address of either kind. -/
inductive Ip where
  | v4 (a : Ipv4.Address)
  | v6 (a : Ipv6.Address)

/-- Private, loopback or link-local. -/
def InternalOctets : List Nat → Prop
  | 10 :: _ => True
  | 127 :: _ => True
  | 172 :: n :: _ => 16 ≤ n ∧ n ≤ 31
  | 192 :: n :: _ => n = 168
  | 169 :: n :: _ => n = 254
  | _ => False

/-- Loopback, unique-local or link-local. -/
def InternalGroups (gs : List Nat) : Prop :=
  gs = [0, 0, 0, 0, 0, 0, 0, 1] ∨
    ∃ n, gs.head? = some n ∧ (0xfc00 ≤ n ∧ n ≤ 0xfdff ∨ 0xfe80 ≤ n ∧ n ≤ 0xfebf)

/-- Not routed publicly. -/
def Ip.Internal : Ip → Prop
  | .v4 a => InternalOctets a.octets
  | .v6 a => InternalGroups a.groups

namespace Endpoint

/-- A port's number. -/
def port (w : List Char) : Bool := (Ipv4.numeral 5 w).any fun n => n ≤ 65535

/-- An address in brackets, perhaps with a port. -/
def bracketed (w : List Char) : Option Ip :=
  let host := w.takeWhile (· != ']')
  match w.dropWhile (· != ']') with
  | [_] => (Ipv6.Address.read host).map .v6
  | _ :: ':' :: p => if port p then (Ipv6.Address.read host).map .v6 else none
  | _ => none

/-- An address without brackets. What follows a colon is a port or makes the text an
address of the newer family. -/
def bare (w : List Char) : Option Ip :=
  let host := w.takeWhile (· != ':')
  match w.dropWhile (· != ':') with
  | [] => (Ipv4.Address.read host).map .v4
  | _ :: p =>
    if port p then (Ipv4.Address.read host).map .v4 else (Ipv6.Address.read w).map .v6

/-- The address a text connects to. -/
def read : List Char → Option Ip
  | '[' :: w => bracketed w
  | w => bare w

example : (read "10.0.0.7:8080".toList).isSome = true ∧ (read "[fd00::7]:8080".toList).isSome = true ∧
    (read "10.example".toList).isSome = false := by decide

variable {w x r : List Char} {ip : Ip}

theorem read_bare (h : w.head? ≠ some '[') : read w = bare w := by
  unfold read
  split
  · exact absurd rfl h
  · rfl

/-- A text around its first colon. -/
theorem split_at {c : Char} {rest : List Char} {d : Char} (h : w.dropWhile (· != c) = d :: rest) :
    w = w.takeWhile (· != c) ++ c :: rest ∧ c ∉ w.takeWhile (· != c) := by
  have hd : d = c := by
    have hnot := List.head_dropWhile_not (· != c) (l := w) (by rw [h]; simp)
    simp only [h, List.head_cons] at hnot
    simpa using hnot
  constructor
  · rw [← hd, ← h, hd, List.takeWhile_append_dropWhile]
  · intro hmem
    have := List.mem_takeWhile_imp hmem
    simp at this

/-- With a dot before any colon it is a quad, perhaps with a port. -/
theorem dotted (h : read w = some ip) (hw : w.head? ≠ some '[')
    (hdot : '.' ∈ w.takeWhile (· != ':')) :
    ∃ a, ip = .v4 a ∧ Ipv4.Address.read (w.takeWhile (· != ':')) = some a := by
  have hquad : ∀ {o : Option Ipv4.Address}, o.map Ip.v4 = some ip → ∃ a, ip = .v4 a ∧ o = some a := by
    intro o ho
    obtain ⟨a, ha, rfl⟩ := Option.map_eq_some_iff.mp ho
    exact ⟨a, rfl, ha⟩
  rw [read_bare hw] at h
  unfold bare at h
  dsimp only at h
  split at h
  · exact hquad h
  · rename_i d p hd
    split at h
    · exact hquad h
    · obtain ⟨a, ha, _⟩ := Option.map_eq_some_iff.mp h
      obtain ⟨heq, hcolon⟩ := split_at hd
      rw [heq] at ha
      obtain ⟨n, hn, _⟩ := Ipv6.first_group hcolon (List.ne_nil_of_mem hdot) ha
      have hnot : (Hex.value '.').isSome = false := by decide
      rw [Ipv6.chars_of_group (by rw [hn]; rfl) _ hdot] at hnot
      cases hnot

/-- With a colon after a group, inside brackets or not, it is of the newer family. -/
theorem grouped {x r : List Char} {d : Char} (hd : Ipv4.digit d = false ∧ d ≠ '.' ∧ d ≠ '[')
    (hx : ':' ∉ d :: x ∧ ']' ∉ d :: x)
    (h : read (d :: x ++ ':' :: r) = some ip ∨ read ('[' :: (d :: x ++ ':' :: r)) = some ip) :
    ∃ a n, ip = .v6 a ∧ Ipv6.group (d :: x) = some n ∧ a.groups.head? = some n := by
  have hend : ∀ r' : List Char,
      (Ipv6.Address.read (d :: x ++ ':' :: r')).map Ip.v6 = some ip →
      ∃ a n, ip = .v6 a ∧ Ipv6.group (d :: x) = some n ∧ a.groups.head? = some n := by
    intro r' hread
    obtain ⟨a, ha, rfl⟩ := Option.map_eq_some_iff.mp hread
    obtain ⟨n, hn, hhead⟩ := Ipv6.first_group hx.1 (List.cons_ne_nil d x) ha
    exact ⟨a, n, rfl, hn, hhead⟩
  rcases h with h | h
  · rw [read_bare (by simpa using hd.2.2)] at h
    have hall : ∀ c ∈ d :: x, (c != ':') = true := by
      intro c hc
      have : c ≠ ':' := fun he => hx.1 (he ▸ hc)
      simpa using this
    have htake : (d :: x ++ ':' :: r).takeWhile (· != ':') = d :: x := by
      rw [List.takeWhile_append_of_pos hall, List.takeWhile_cons_of_neg (by decide), List.append_nil]
    have hdrop : (d :: x ++ ':' :: r).dropWhile (· != ':') = ':' :: r := by
      rw [List.dropWhile_append_of_pos hall, List.dropWhile_cons_of_neg (by decide)]
    unfold bare at h
    rw [htake, hdrop] at h
    dsimp only at h
    split at h
    · obtain ⟨a, ha, _⟩ := Option.map_eq_some_iff.mp h
      obtain ⟨q, hq, _⟩ := Ipv4.address_iff.mp (by rw [ha]; rfl)
      rcases Ipv4.chars_of_quad (by rw [hq]; rfl) d List.mem_cons_self with hdig | hdot
      · rw [hd.1] at hdig
        cases hdig
      · exact absurd hdot hd.2.1
    · exact hend r h
  · have hall : ∀ c ∈ d :: x ++ [':'], (c != ']') = true := by
      intro c hc
      rcases List.mem_append.mp hc with hc | hc
      · have : c ≠ ']' := fun he => hx.2 (he ▸ hc)
        simpa using this
      · rw [List.mem_singleton.mp hc]
        decide
    have htake : (d :: x ++ ':' :: r).takeWhile (· != ']') =
        d :: x ++ ':' :: r.takeWhile (· != ']') := by
      have := @List.takeWhile_append_of_pos _ _ _ r hall
      simpa using this
    show ∃ a n, _
    have hb : bracketed (d :: x ++ ':' :: r) = some ip := h
    unfold bracketed at hb
    rw [htake] at hb
    dsimp only at hb
    split at hb
    · exact hend _ hb
    · split at hb
      · exact hend _ hb
      · cases hb
    · cases hb

/-! ## What it is made of -/

/-- A character of an address or of what surrounds it. -/
def Mark (c : Char) : Prop := Ipv6.Plain c ∨ c = ':' ∨ c = '[' ∨ c = ']'

theorem marks_of_port {p : List Char} (h : port p = true) : ∀ c ∈ p, Mark c := by
  unfold port at h
  cases hn : Ipv4.numeral 5 p with
  | none =>
    rw [hn] at h
    cases h
  | some n =>
    intro c hc
    exact .inl (.inl (Ipv6.value_of_digit
      ((Ipv4.numeral_isSome.mp (by rw [hn]; rfl : (Ipv4.numeral 5 p).isSome = true)).2.2 c hc)))

theorem marks_of_v4 {o : List Char} (h : (Ipv4.Address.read o).map Ip.v4 = some ip) :
    ∀ c ∈ o, Mark c := by
  obtain ⟨a, ha, _⟩ := Option.map_eq_some_iff.mp h
  exact fun c hc => .inl (Ipv6.chars_of_quad ha c hc)

theorem marks_of_v6 {o : List Char} (h : (Ipv6.Address.read o).map Ip.v6 = some ip) :
    ∀ c ∈ o, Mark c := by
  obtain ⟨a, ha, _⟩ := Option.map_eq_some_iff.mp h
  exact fun c hc => (Ipv6.chars_of_read ha c hc).imp_right .inl

theorem marks_around {c : Char} {host rest : List Char} (hc : Mark c) (hhost : ∀ d ∈ host, Mark d)
    (hrest : ∀ d ∈ rest, Mark d) : ∀ d ∈ host ++ c :: rest, Mark d := by
  intro d hd
  rcases List.mem_append.mp hd with hd | hd
  · exact hhost d hd
  · rcases List.mem_cons.mp hd with rfl | hd
    · exact hc
    · exact hrest d hd

theorem marks_of_bracketed (h : bracketed w = some ip) : ∀ c ∈ w, Mark c := by
  have hclose : Mark ']' := .inr (.inr (.inr rfl))
  have hcolon : Mark ':' := .inr (.inl rfl)
  unfold bracketed at h
  dsimp only at h
  split at h
  · rename_i hdrop
    rw [(split_at hdrop).1]
    exact marks_around hclose (marks_of_v6 h) (by simp)
  · rename_i p hdrop
    split at h
    · rename_i hport
      rw [(split_at hdrop).1]
      exact marks_around hclose (marks_of_v6 h)
        (marks_around hcolon (fun _ hd => absurd hd List.not_mem_nil) (marks_of_port hport))
    · cases h
  · cases h

theorem marks_of_bare (h : bare w = some ip) : ∀ c ∈ w, Mark c := by
  have hcolon : Mark ':' := .inr (.inl rfl)
  unfold bare at h
  dsimp only at h
  split at h
  · rename_i hdrop
    have hw := List.takeWhile_append_dropWhile (p := (· != ':')) (l := w)
    rw [hdrop, List.append_nil] at hw
    rw [hw] at h
    exact marks_of_v4 h
  · rename_i hdrop
    split at h
    · rename_i hport
      rw [(split_at hdrop).1]
      exact marks_around hcolon (marks_of_v4 h) (marks_of_port hport)
    · exact marks_of_v6 h

theorem marks_of_read (h : read w = some ip) : ∀ c ∈ w, Mark c := by
  unfold read at h
  split at h
  · intro c hc
    rcases List.mem_cons.mp hc with rfl | hc
    · exact .inr (.inr (.inl rfl))
    · exact marks_of_bracketed h c hc
  · exact marks_of_bare h

end Endpoint

end Base
