import CloudWai.Base.Url
import CloudWai.Base.Utf8

/-!
# Percent-encoded octets

What a text stands for that may hold escapes is a list of octets: those of its escapes,
and the UTF-8 of everything else (`octets`). The other way, octets are written with
escapes for all but some ASCII characters (`escape`). What was escaped is read back
(`octets_escape`).

`decodeURIComponent` asks for more: every `%` begins an escape, and the octets are a
text's. Where it succeeds, its text is that of the octets (`octets_of_decode`).
-/

namespace Base.Percent

open Url (hexDigit hexValue percent tokens utf8)

/-- The octets a text stands for; a `%` that begins no escape is one itself. -/
def octets : List Char → List UInt8
  | [] => []
  | '%' :: a :: b :: cs =>
    match hexValue a, hexValue b with
    | some high, some low => UInt8.ofNat (16 * high + low) :: octets cs
    | _, _ => 0x25 :: octets (a :: b :: cs)
  | c :: cs => String.utf8EncodeChar c ++ octets cs

/-- An octet as it is written. -/
def escapeOctet (keep : Char → Bool) (b : UInt8) : List Char :=
  if keep (Char.ofNat b.toNat) then [Char.ofNat b.toNat] else percent b

/-- Octets, with escapes for all that is not kept. -/
def escape (keep : Char → Bool) (bs : List UInt8) : List Char := bs.flatMap (escapeOctet keep)

/-- Only ASCII is kept, and the `%` is not. -/
def Safe (keep : Char → Bool) : Prop := ∀ c, keep c = true → c.toNat < 0x80 ∧ c ≠ '%'

section Octets

variable {keep : Char → Bool} {c : Char} {cs : List Char} {b : UInt8} {bs bs' : List UInt8}

theorem octets_cons (h : c ≠ '%') : octets (c :: cs) = String.utf8EncodeChar c ++ octets cs := by
  rw [octets]
  intro a b rest hc
  exact absurd hc h

theorem octets_hex {a b : Char} {high low : Nat} (ha : hexValue a = some high)
    (hb : hexValue b = some low) :
    octets ('%' :: a :: b :: cs) = UInt8.ofNat (16 * high + low) :: octets cs := by
  rw [octets, ha, hb]

theorem utf8EncodeChar_ascii (h : c.toNat < 0x80) :
    String.utf8EncodeChar c = [UInt8.ofNat c.toNat] := by
  rcases Utf8.encodeChar_cases c with ⟨_, henc⟩ | h' | h' | h'
  · exact henc
  · omega
  · omega
  · omega

theorem hexValue_hexDigit {n : Nat} (h : n < 16) : hexValue (hexDigit n) = some n := by
  have hall : ∀ n < 16, hexValue (hexDigit n) = some n := by decide
  exact hall n h

theorem octets_percent : octets (percent b ++ cs) = b :: octets cs := by
  have hb : b.toNat < 256 := b.toNat_lt
  show octets ('%' :: hexDigit (b.toNat / 16) :: hexDigit (b.toNat % 16) :: cs) = _
  rw [octets_hex (hexValue_hexDigit (by omega)) (hexValue_hexDigit (by omega))]
  congr 1
  rw [show 16 * (b.toNat / 16) + b.toNat % 16 = b.toNat by omega]
  exact UInt8.ofNat_toNat

theorem toNat_ofNat_octet (b : UInt8) : (Char.ofNat b.toNat).toNat = b.toNat := by
  have hb : b.toNat < 256 := b.toNat_lt
  exact Utf8.toNat_ofNat (by omega)

theorem octets_escapeOctet (hsafe : Safe keep) :
    octets (escapeOctet keep b ++ cs) = b :: octets cs := by
  unfold escapeOctet
  split
  next hk =>
    obtain ⟨hascii, hne⟩ := hsafe _ hk
    rw [List.singleton_append, octets_cons hne, utf8EncodeChar_ascii hascii, toNat_ofNat_octet,
      UInt8.ofNat_toNat]
    rfl
  next => exact octets_percent

/-- **What was escaped is read back.** -/
theorem octets_escape (hsafe : Safe keep) : octets (escape keep bs ++ cs) = bs ++ octets cs := by
  unfold escape
  induction bs with
  | nil => rfl
  | cons b bs ih =>
    rw [List.flatMap_cons, List.append_assoc, octets_escapeOctet hsafe, ih]
    rfl

/-- Escapes need no escapes. -/
theorem mem_escape (h : c ∈ escape keep bs) : keep c = true ∨ c = '%' ∨
    ∃ n < 16, c = hexDigit n := by
  obtain ⟨b, _, hc⟩ := List.mem_flatMap.mp h
  unfold escapeOctet at hc
  split at hc
  next hk =>
    rw [List.mem_singleton] at hc
    exact .inl (hc ▸ hk)
  next =>
    have hb : b.toNat < 256 := b.toNat_lt
    unfold percent at hc
    rw [List.mem_cons, List.mem_cons, List.mem_singleton] at hc
    rcases hc with rfl | rfl | rfl
    · exact .inr (.inl rfl)
    · exact .inr (.inr ⟨_, by omega, rfl⟩)
    · exact .inr (.inr ⟨_, by omega, rfl⟩)

/-- A character more that is kept shortens what it is written in. -/
theorem length_escape_le {keep' : Char → Bool} (h : ∀ c, keep c = true → keep' c = true) :
    (escape keep' bs).length ≤ (escape keep bs).length ∧
      ((escape keep' bs).length = (escape keep bs).length →
        ∀ b ∈ bs, keep' (Char.ofNat b.toNat) = keep (Char.ofNat b.toNat)) := by
  unfold escape
  induction bs with
  | nil => exact ⟨Nat.le_refl _, fun _ _ hb => absurd hb List.not_mem_nil⟩
  | cons b bs ih =>
    obtain ⟨hle, heq⟩ := ih
    have hone : (escapeOctet keep' b).length ≤ (escapeOctet keep b).length ∧
        ((escapeOctet keep' b).length = (escapeOctet keep b).length →
          keep' (Char.ofNat b.toNat) = keep (Char.ofNat b.toNat)) := by
      unfold escapeOctet
      cases hk : keep (Char.ofNat b.toNat) with
      | true =>
        rw [h _ hk]
        exact ⟨Nat.le_refl _, fun _ => rfl⟩
      | false =>
        cases hk' : keep' (Char.ofNat b.toNat) with
        | true =>
          refine ⟨?_, fun hlen => ?_⟩
          · show 1 ≤ 3
            omega
          · cases hlen
        | false => exact ⟨Nat.le_refl _, fun _ => rfl⟩
    simp only [List.flatMap_cons, List.length_append]
    refine ⟨by omega, fun hlen => ?_⟩
    intro d hd
    rcases List.mem_cons.mp hd with rfl | hd
    · exact hone.2 (by omega)
    · exact heq (by omega) d hd

theorem escape_congr {keep' : Char → Bool}
    (h : ∀ b ∈ bs, keep' (Char.ofNat b.toNat) = keep (Char.ofNat b.toNat)) :
    escape keep' bs = escape keep bs := by
  unfold escape escapeOctet
  refine List.flatMap_congr fun b hb => ?_
  rw [h b hb]

end Octets

/-! ## `decodeURIComponent` -/

/-- The octets of its bytes and characters. -/
def tokenOctets (ts : List (Nat ⊕ Char)) : List UInt8 :=
  ts.flatMap fun
  | .inl b => [UInt8.ofNat b]
  | .inr c => String.utf8EncodeChar c

theorem octets_of_tokens {cs : List Char} {ts : List (Nat ⊕ Char)} (h : tokens cs = some ts) :
    octets cs = tokenOctets ts := by
  fun_induction tokens cs generalizing ts with
  | case1 =>
    obtain rfl := Option.some.inj h
    rfl
  | case2 a b cs high low hb ha ih =>
    obtain ⟨rest, hrest, rfl⟩ := Option.map_eq_some_iff.mp h
    rw [octets_hex ha hb, ih hrest]
    rfl
  | case3 => cases h
  | case4 => cases h
  | case5 c cs _ hne ih =>
    obtain ⟨rest, hrest, rfl⟩ := Option.map_eq_some_iff.mp h
    rw [octets_cons hne, ih hrest]
    rfl

/-- What is to follow of a character follows, and then the rest. -/
theorem utf8_within {need value low : Nat} {ts : List (Nat ⊕ Char)} {t : List Char}
    (h : utf8 (need + 1) value low ts = some t) : ∃ b rest, ts = .inl b :: rest ∧
      0x80 ≤ b ∧ b < 0xC0 ∧
      if need = 0 then ∃ t', utf8 0 0 0 rest = some t' ∧ low ≤ 64 * value + (b - 0x80) ∧
        Nat.isValidChar (64 * value + (b - 0x80)) ∧ t = Char.ofNat (64 * value + (b - 0x80)) :: t'
      else utf8 need (64 * value + (b - 0x80)) low rest = some t := by
  rcases ts with _ | ⟨b | c, rest⟩
  · cases h
  · rw [utf8] at h
    split at h
    · cases h
    next hb =>
      have hbounds : 0x80 ≤ b ∧ b < 0xC0 := by
        simp only [Bool.or_eq_true, decide_eq_true_eq, not_or] at hb
        omega
      refine ⟨b, rest, rfl, hbounds.1, hbounds.2, ?_⟩
      split at h
      next hneed => rw [if_neg hneed]; exact h
      next hneed =>
        rw [if_pos (by omega)]
        split at h
        next hcode =>
          obtain ⟨t', ht', rfl⟩ := Option.map_eq_some_iff.mp h
          exact ⟨t', ht', hcode.1, hcode.2, rfl⟩
        next => cases h
  · cases h

section Width

variable {n : Nat}

theorem encodeChar_one (hu : n ≤ 0x7F) : String.utf8EncodeChar (Char.ofNat n) = [UInt8.ofNat n] := by
  have hn : (Char.ofNat n).toNat = n := Utf8.toNat_ofNat (by omega)
  rw [utf8EncodeChar_ascii (by omega), hn]

theorem encodeChar_two (hl : 0x7F < n) (hu : n ≤ 0x7FF) : String.utf8EncodeChar (Char.ofNat n) =
    [UInt8.ofNat (n / 64 % 0x20 + 0xC0), UInt8.ofNat (n % 0x40 + 0x80)] := by
  have hn : (Char.ofNat n).toNat = n := Utf8.toNat_ofNat (by omega)
  rcases Utf8.encodeChar_cases (Char.ofNat n) with ⟨h, _⟩ | ⟨_, _, henc⟩ | ⟨h, _⟩ | ⟨h, _⟩
  · omega
  · rw [henc, hn]
  · omega
  · omega

theorem encodeChar_three (hv : n.isValidChar) (hl : 0x7FF < n) (hu : n ≤ 0xFFFF) :
    String.utf8EncodeChar (Char.ofNat n) = [UInt8.ofNat (n / 4096 % 0x10 + 0xE0),
      UInt8.ofNat (n / 64 % 0x40 + 0x80), UInt8.ofNat (n % 0x40 + 0x80)] := by
  have hn : (Char.ofNat n).toNat = n := Utf8.toNat_ofNat hv
  rcases Utf8.encodeChar_cases (Char.ofNat n) with ⟨h, _⟩ | ⟨_, h, _⟩ | ⟨_, _, henc⟩ | ⟨h, _⟩
  · omega
  · omega
  · rw [henc, hn]
  · omega

theorem encodeChar_four (hv : n.isValidChar) (hl : 0xFFFF < n) :
    String.utf8EncodeChar (Char.ofNat n) = [UInt8.ofNat (n / 262144 % 0x08 + 0xF0),
      UInt8.ofNat (n / 4096 % 0x40 + 0x80), UInt8.ofNat (n / 64 % 0x40 + 0x80),
      UInt8.ofNat (n % 0x40 + 0x80)] := by
  have hn : (Char.ofNat n).toNat = n := Utf8.toNat_ofNat hv
  rcases Utf8.encodeChar_cases (Char.ofNat n) with ⟨h, _⟩ | ⟨_, h, _⟩ | ⟨_, h, _⟩ | ⟨_, henc⟩
  · omega
  · omega
  · omega
  · rw [henc, hn]

end Width

theorem tokenOctets_byte {b : Nat} {ts : List (Nat ⊕ Char)} :
    tokenOctets (.inl b :: ts) = UInt8.ofNat b :: tokenOctets ts := rfl

/-- The first character that is decoded, and what it was decoded from. -/
theorem utf8_first {ts : List (Nat ⊕ Char)} {t : List Char} (h : utf8 0 0 0 ts = some t) :
    (ts = [] ∧ t = []) ∨ ∃ c t' rest, t = c :: t' ∧ utf8 0 0 0 rest = some t' ∧
      tokenOctets ts = String.utf8EncodeChar c ++ tokenOctets rest := by
  rcases ts with _ | ⟨b | c, ts⟩
  · exact .inl ⟨rfl, (Option.some.inj h).symm⟩
  · right
    rw [utf8] at h
    split at h
    next hb =>
      obtain ⟨t', ht', rfl⟩ := Option.map_eq_some_iff.mp h
      refine ⟨_, t', ts, rfl, ht', ?_⟩
      rw [encodeChar_one (by omega)]
      rfl
    next hb =>
      split at h
      · cases h
      next hb =>
        split at h
        next hb2 =>
          obtain ⟨b1, rest, rfl, hl1, hu1, hrest⟩ := utf8_within h
          rw [if_pos rfl] at hrest
          obtain ⟨t', ht', hlow, hv, rfl⟩ := hrest
          refine ⟨_, t', rest, rfl, ht', ?_⟩
          rw [encodeChar_two (by omega) (by omega), tokenOctets_byte, tokenOctets_byte]
          congr <;> omega
        next hb2 =>
          split at h
          next hb3 =>
            obtain ⟨b1, rest, rfl, hl1, hu1, hrest⟩ := utf8_within h
            rw [if_neg (by omega)] at hrest
            obtain ⟨b2, rest, rfl, hl2, hu2, hrest⟩ := utf8_within hrest
            rw [if_pos rfl] at hrest
            obtain ⟨t', ht', hlow, hv, rfl⟩ := hrest
            refine ⟨_, t', rest, rfl, ht', ?_⟩
            rw [encodeChar_three hv (by omega) (by omega), tokenOctets_byte, tokenOctets_byte,
              tokenOctets_byte]
            congr <;> omega
          next hb3 =>
            split at h
            next hb4 =>
              obtain ⟨b1, rest, rfl, hl1, hu1, hrest⟩ := utf8_within h
              rw [if_neg (by omega)] at hrest
              obtain ⟨b2, rest, rfl, hl2, hu2, hrest⟩ := utf8_within hrest
              rw [if_neg (by omega)] at hrest
              obtain ⟨b3, rest, rfl, hl3, hu3, hrest⟩ := utf8_within hrest
              rw [if_pos rfl] at hrest
              obtain ⟨t', ht', hlow, hv, rfl⟩ := hrest
              refine ⟨_, t', rest, rfl, ht', ?_⟩
              rw [encodeChar_four hv (by omega), tokenOctets_byte, tokenOctets_byte,
                tokenOctets_byte, tokenOctets_byte]
              congr <;> omega
            · cases h
  · right
    obtain ⟨t', ht', rfl⟩ := Option.map_eq_some_iff.mp h
    exact ⟨c, t', ts, rfl, ht', rfl⟩

theorem tokenOctets_of_utf8 {ts : List (Nat ⊕ Char)} {t : List Char} (h : utf8 0 0 0 ts = some t) :
    tokenOctets ts = Utf8.encode t := by
  induction t generalizing ts with
  | nil =>
    rcases utf8_first h with ⟨rfl, _⟩ | ⟨c, t', rest, ht, _⟩
    · rfl
    · cases ht
  | cons c t ih =>
    rcases utf8_first h with ⟨_, ht⟩ | ⟨c', t', rest, ht, hrest, hocts⟩
    · cases ht
    · obtain ⟨rfl, rfl⟩ := List.cons.inj ht
      rw [hocts, ih hrest]
      rfl

/-- **What is decoded** is the text of the octets. -/
theorem octets_of_decode {cs t : List Char} (h : Url.decodeURIComponent cs = some t) :
    octets cs = Utf8.encode t := by
  obtain ⟨ts, hts, ht⟩ := Option.bind_eq_some_iff.mp h
  rw [octets_of_tokens hts, tokenOctets_of_utf8 ht]

/-! ## Separators, and forms -/

/-- A `%` that begins no escape. -/
theorem octets_stray {cs : List Char}
    (h : ∀ a b rest, cs = a :: b :: rest → hexValue a = none ∨ hexValue b = none) :
    octets ('%' :: cs) = 0x25 :: octets cs := by
  rcases cs with _ | ⟨a, _ | ⟨b, cs⟩⟩
  · rfl
  · rfl
  · rw [octets]
    split
    next ha hb =>
      rcases h a b cs rfl with hno | hno
      · rw [hno] at ha
        cases ha
      · rw [hno] at hb
        cases hb
    next => rfl

/-- No escape is behind a `%` that this follows. -/
def NoEscape (cs : List Char) : Prop :=
  ∀ a b rest, cs = a :: b :: rest → hexValue a = none ∨ hexValue b = none

/-- **Induction** on what is read at a time: an escape, a `%` that begins none, a character. -/
theorem octets_rec {motive : List Char → Prop} (nil : motive [])
    (hex : ∀ a b cs high low, hexValue a = some high → hexValue b = some low → motive cs →
      motive ('%' :: a :: b :: cs))
    (stray : ∀ cs, NoEscape cs → motive cs → motive ('%' :: cs))
    (char : ∀ c cs, c ≠ '%' → motive cs → motive (c :: cs)) (cs : List Char) : motive cs := by
  fun_induction octets cs with
  | case1 => exact nil
  | case2 a b cs high low hb ha ih => exact hex a b cs high low ha hb ih
  | case3 a b cs hno ih =>
    refine stray _ ?_ ih
    rintro a' b' rest heq
    obtain ⟨rfl, rfl, rfl⟩ := by simpa using heq
    cases ha : hexValue a with
    | none => exact .inl rfl
    | some high =>
      cases hb : hexValue b with
      | none => exact .inr rfl
      | some low => exact (hno high low ha hb).elim
  | case4 c cs hne ih =>
    by_cases hc : c = '%'
    · subst hc
      exact stray cs (fun a b rest heq => (hne a b rest rfl heq).elim) ih
    · exact char c cs hc ih

section Form

variable {c : Char} {a cs : List Char}

/-- An escape does not reach over a character that is no digit. -/
theorem octets_append (hc : hexValue c = none) :
    octets (a ++ c :: cs) = octets a ++ octets (c :: cs) := by
  induction a using octets_rec with
  | nil => rfl
  | hex x y a high low hx hy ih =>
    rw [List.cons_append, List.cons_append, List.cons_append, octets_hex hx hy, octets_hex hx hy, ih]
    rfl
  | stray a hno ih =>
    rw [List.cons_append, octets_stray hno, octets_stray, ih]
    · rfl
    · intro x y rest heq
      rcases a with _ | ⟨x', _ | ⟨y', a⟩⟩
      · obtain ⟨rfl, _⟩ := List.cons.inj heq
        exact .inl hc
      · obtain ⟨_, heq⟩ := List.cons.inj heq
        obtain ⟨rfl, _⟩ := List.cons.inj heq
        exact .inr hc
      · have hx := (List.cons.inj heq).1
        have hy := (List.cons.inj (List.cons.inj heq).2).1
        rw [← hx, ← hy]
        exact hno _ _ _ rfl
  | char d a hd ih => rw [List.cons_append, octets_cons hd, octets_cons hd, ih, List.append_assoc]

/-- In a form, a plus sign stands for a space. -/
def formSpace (c : Char) : Char := if c = '+' then ' ' else c

theorem hexValue_formSpace : hexValue (formSpace c) = hexValue c := by
  unfold formSpace
  split
  next h => rw [h]; rfl
  next => rfl

/-- The octets of a text, and those it has where a plus sign is a space. -/
inductive Spaced : List UInt8 → List UInt8 → Prop
  | nil : Spaced [] []
  | same {b : UInt8} {bs bs' : List UInt8} (h : Spaced bs bs') : Spaced (b :: bs) (b :: bs')
  | plus {bs bs' : List UInt8} (h : Spaced bs bs') : Spaced (0x2B :: bs) (0x20 :: bs')

theorem Spaced.append_left (bs : List UInt8) {cs cs' : List UInt8} (h : Spaced cs cs') :
    Spaced (bs ++ cs) (bs ++ cs') := by
  induction bs with
  | nil => exact h
  | cons b bs ih => exact .same ih

/-- The form's plus signs are its spaces; they are found again among the octets. -/
theorem spaced_octets : Spaced (octets cs) (octets (cs.map formSpace)) ∧
    (octets cs).count 0x2B = cs.count '+' + (octets (cs.map formSpace)).count 0x2B := by
  induction cs using octets_rec with
  | nil => exact ⟨.nil, rfl⟩
  | hex a b cs high low ha hb ih =>
    obtain ⟨hspaced, hcount⟩ := ih
    have hna : a ≠ '+' := by rintro rfl; cases ha
    have hnb : b ≠ '+' := by rintro rfl; cases hb
    rw [List.map_cons, List.map_cons, List.map_cons, show formSpace '%' = '%' from rfl,
      octets_hex ha hb, octets_hex (hexValue_formSpace.trans ha) (hexValue_formSpace.trans hb)]
    have hplus : ('%' :: a :: b :: cs).count '+' = cs.count '+' := by
      rw [List.count_cons_of_ne (by decide), List.count_cons_of_ne hna, List.count_cons_of_ne hnb]
    refine ⟨.same hspaced, ?_⟩
    rw [hplus, List.count_cons, List.count_cons, hcount]
    omega
  | stray cs hno ih =>
    obtain ⟨hspaced, hcount⟩ := ih
    rw [List.map_cons, show formSpace '%' = '%' from rfl, octets_stray hno, octets_stray]
    · refine ⟨.same hspaced, ?_⟩
      rw [List.count_cons_of_ne (by decide), List.count_cons_of_ne (by decide),
        List.count_cons_of_ne (by decide), hcount]
    · intro a b rest heq
      rcases cs with _ | ⟨a', _ | ⟨b', cs⟩⟩
      · cases heq
      · cases heq
      · have hx := (List.cons.inj heq).1
        have hy := (List.cons.inj (List.cons.inj heq).2).1
        rw [← hx, ← hy, hexValue_formSpace, hexValue_formSpace]
        exact hno _ _ _ rfl
  | char c cs hc ih =>
    obtain ⟨hspaced, hcount⟩ := ih
    rw [List.map_cons, octets_cons hc]
    by_cases hplus : c = '+'
    · subst hplus
      rw [show formSpace '+' = ' ' from rfl, octets_cons (by decide)]
      refine ⟨.plus hspaced, ?_⟩
      rw [List.count_cons_self, show String.utf8EncodeChar '+' = [0x2B] from by decide,
        show String.utf8EncodeChar ' ' = [0x20] from by decide, List.singleton_append,
        List.singleton_append, List.count_cons_self, List.count_cons_of_ne (by decide), hcount]
      omega
    · rw [show formSpace c = c from if_neg hplus, octets_cons hc]
      refine ⟨hspaced.append_left _, ?_⟩
      rw [List.count_append, List.count_append, List.count_cons_of_ne hplus, hcount]
      omega

theorem Spaced.of_append {bs cs bs' : List UInt8} (h : Spaced (bs ++ cs) bs') (hno : 0x2B ∉ bs) :
    ∃ cs', bs' = bs ++ cs' ∧ Spaced cs cs' := by
  induction bs generalizing bs' with
  | nil => exact ⟨bs', rfl, h⟩
  | cons b bs ih =>
    rw [List.mem_cons, not_or] at hno
    cases h with
    | same h =>
      obtain ⟨cs', rfl, hcs⟩ := ih h hno.2
      exact ⟨cs', rfl, hcs⟩
    | plus h => exact absurd rfl hno.1

theorem plus_not_mem_encodeChar (hc : c ≠ '+') : 0x2B ∉ String.utf8EncodeChar c := by
  have hne : c.toNat ≠ 0x2B := fun h =>
    hc ((Char.ofNat_toNat c).symm.trans (congrArg Char.ofNat h))
  have hlow : ∀ n : Nat, n < 256 → n ≠ 0x2B → (0x2B : UInt8) ≠ UInt8.ofNat n := by
    intro n hn hn' h
    have := congrArg UInt8.toNat h
    rw [UInt8.toNat_ofNat', Nat.mod_eq_of_lt hn] at this
    exact hn' this.symm
  rcases Utf8.encodeChar_cases c with ⟨_, henc⟩ | ⟨_, _, henc⟩ | ⟨_, _, henc⟩ | ⟨_, henc⟩
  all_goals
    rw [henc]
    simp only [List.mem_cons, List.not_mem_nil, or_false, not_or]
  · exact hlow _ (by omega) hne
  · exact ⟨hlow _ (by omega) (by omega), hlow _ (by omega) (by omega)⟩
  · exact ⟨hlow _ (by omega) (by omega), hlow _ (by omega) (by omega), hlow _ (by omega) (by omega)⟩
  · exact ⟨hlow _ (by omega) (by omega), hlow _ (by omega) (by omega), hlow _ (by omega) (by omega),
      hlow _ (by omega) (by omega)⟩

/-- With spaces for some plus signs, a text is a text. -/
theorem Spaced.text {t : List Char} {bs' : List UInt8} (h : Spaced (Utf8.encode t) bs') :
    ∃ t', bs' = Utf8.encode t' ∧ ∀ c ∈ t', c ∈ t ∨ c = ' ' := by
  induction t generalizing bs' with
  | nil =>
    cases h
    exact ⟨[], rfl, nofun⟩
  | cons c t ih =>
    have hcons : Utf8.encode (c :: t) = String.utf8EncodeChar c ++ Utf8.encode t := rfl
    rw [hcons] at h
    by_cases hplus : c = '+'
    · subst hplus
      rw [show String.utf8EncodeChar '+' = [0x2B] from by decide, List.singleton_append] at h
      cases h with
      | same h =>
        obtain ⟨t', rfl, ht'⟩ := ih h
        refine ⟨'+' :: t', rfl, ?_⟩
        intro d hd
        rcases List.mem_cons.mp hd with rfl | hd
        · exact .inl List.mem_cons_self
        · exact (ht' d hd).imp_left (List.mem_cons_of_mem _)
      | plus h =>
        obtain ⟨t', rfl, ht'⟩ := ih h
        refine ⟨' ' :: t', rfl, ?_⟩
        intro d hd
        rcases List.mem_cons.mp hd with rfl | hd
        · exact .inr rfl
        · exact (ht' d hd).imp_left (List.mem_cons_of_mem _)
    · obtain ⟨cs', rfl, hcs⟩ := h.of_append (plus_not_mem_encodeChar hplus)
      obtain ⟨t', rfl, ht'⟩ := ih hcs
      refine ⟨c :: t', rfl, ?_⟩
      intro d hd
      rcases List.mem_cons.mp hd with rfl | hd
      · exact .inl List.mem_cons_self
      · exact (ht' d hd).imp_left (List.mem_cons_of_mem _)

end Form

end Base.Percent
