import CloudWai.Base.Ipv4
import CloudWai.Security.Protection

/-!
# Which addresses are accepted

Deny rules, trusted sources and the allow-list of a protected project carry
addresses that end up behind `@ipMatch`, where the engine parses them. What the
validators test is how an address is written: `IPV4` and `CIDR` count digits.
So they accept `999.1.1.1` and `10.0.0.0/99`, which are written like an address
and like a block and denote neither.

`exact_iff` says that this is all that goes wrong: for every string, the five
tests and the normalisation of a save accept exactly what denotes an address or
a block, unless the string, trimmed, is such a quad or block with a number that
is too large. The grammars are the library's patterns by definition.

About the validators of `packages/adapters/src/security-edge.ts` and the save of
`apps/api/src/procedures/security.ts`.
-/

namespace CloudWai

namespace Security

open Base

/-! ## What acceptance is for -/

/-- The string denotes an IPv4 address. -/
def DenotesAddress (v : String) : Prop := (Ipv4.Address.read v.toList).isSome = true

/-- The string denotes a block of IPv4 addresses. -/
def DenotesBlock (v : String) : Prop := (Ipv4.Block.read v.toList).isSome = true

/-- A save whose allow-list has one entry. -/
def listing (v : String) : SaveDeploymentProtectionInput :=
  ⟨1, 1, "ip", none, none, some [v], none⟩

/-- What the validators and the save make of a string is what it denotes. -/
structure AcceptsExactly (v : String) : Prop where
  denyIp : validateDenyRule ⟨.ip, v⟩ = .ok ↔ DenotesAddress v
  denyCidr : validateDenyRule ⟨.cidr, v⟩ = .ok ↔ DenotesBlock v
  trustedIp : validateTrustedSource ⟨.ip, v⟩ = .ok ↔ DenotesAddress v
  trustedCidr : validateTrustedSource ⟨.cidr, v⟩ = .ok ↔ DenotesBlock v
  protection : validateProtection ⟨.ip, none, none, some [v]⟩ = .ok ↔ DenotesBlock v
  /-- An entry of the allow-list, a bare address or a block. -/
  saved : validateProtection ⟨.ip, none, none, some (allowedCidrsFor .ip (listing v))⟩ = .ok ↔
    DenotesAddress (Grammar.trim v) ∨ DenotesBlock (Grammar.trim v)

/-- Written like an address or a block, with a number that no octet or no prefix
can have. -/
def OutOfRange (w : List Char) : Prop :=
  (∃ q, Ipv4.quad w = some q ∧ ∃ n ∈ q, 255 < n) ∨
    ∃ q k, Ipv4.slashed w = some (q, k) ∧ ((∃ n ∈ q, 255 < n) ∨ 32 < k)

/-! ## What the tests see -/

theorem ipv4_test {v : String} : Grammar.ipv4.test v = true ↔ (Ipv4.quad v.toList).isSome = true := by
  rw [Pattern.test_iff]
  exact Ipv4.quadPattern_iff

theorem cidr_test {v : String} :
    Grammar.cidr.test v = true ↔ (Ipv4.slashed v.toList).isSome = true := by
  rw [Pattern.test_iff]
  exact Ipv4.slashedPattern_iff

theorem refused_unless {b : Bool} {reason : String} :
    (if !b then Validated.refused reason else .ok) = .ok ↔ b = true := by
  cases b <;> simp

theorem validateTrustedSource_cidr {v : String} :
    validateTrustedSource ⟨.cidr, v⟩ = .ok ↔ (Ipv4.slashed v.toList).isSome = true :=
  refused_unless.trans cidr_test

/-- A single block on the allow-list. -/
theorem validateProtection_one {v : String} :
    validateProtection ⟨.ip, none, none, some [v]⟩ = .ok ↔
      validateTrustedSource ⟨.cidr, v⟩ = .ok := by
  unfold validateProtection
  simp only [CompiledProtection.cidrs, Option.getD_some, List.length_singleton, Nat.one_ne_zero,
    if_false, List.findSome?_cons, List.findSome?_nil]
  cases validateTrustedSource ⟨.cidr, v⟩ <;> simp [truthy]

/-! ## Trimming -/

theorem digit_not_space {c : Char} (h : Ipv4.digit c = true) : Grammar.jsSpace c = false := by
  have hle : ∀ {a b : Char}, a ≤ b → a.toNat ≤ b.toNat := fun h => h
  simp only [Ipv4.digit, Bool.and_eq_true, decide_eq_true_eq] at h
  have hlow := hle h.1
  have hhigh := hle h.2
  simp at hlow hhigh
  simp [Grammar.jsSpace]
  omega

/-- What has no white space is its own trimmed form. -/
theorem trim_of_no_space {v : String} (h : ∀ c ∈ v.toList, Grammar.jsSpace c = false) :
    Grammar.trim v = v := by
  have hdrop : ∀ w : List Char, (∀ c ∈ w, Grammar.jsSpace c = false) →
      w.dropWhile Grammar.jsSpace = w := by
    intro w hw
    cases w with
    | nil => rfl
    | cons c w => rw [List.dropWhile_cons, hw c List.mem_cons_self]; rfl
  unfold Grammar.trim
  rw [hdrop _ h, hdrop v.toList.reverse fun c hc => h c (List.mem_reverse.mp hc),
    List.reverse_reverse, String.ofList_toList]

/-- What is written like an address or a block has none. -/
theorem trim_of_shaped {v : String}
    (h : (Ipv4.quad v.toList).isSome = true ∨ (Ipv4.slashed v.toList).isSome = true) :
    Grammar.trim v = v := by
  have hdot : Grammar.jsSpace '.' = false := by decide
  have hslash : Grammar.jsSpace '/' = false := by decide
  apply trim_of_no_space
  intro c hc
  rcases h with h | h
  · rcases Ipv4.chars_of_quad h c hc with hd | rfl
    · exact digit_not_space hd
    · exact hdot
  · rcases Ipv4.chars_of_slashed h c hc with hd | rfl | rfl
    · exact digit_not_space hd
    · exact hdot
    · exact hslash

theorem OutOfRange.shaped {w : List Char} (h : OutOfRange w) :
    (Ipv4.quad w).isSome = true ∨ (Ipv4.slashed w).isSome = true := by
  rcases h with ⟨q, hq, _⟩ | ⟨q, k, hs, _⟩
  · exact .inl (by rw [hq]; rfl)
  · exact .inr (by rw [hs]; rfl)

/-! ## The gap -/

section Gap

variable {w : List Char}

theorem not_slashed_of_quad (h : (Ipv4.quad w).isSome = true) :
    ¬ (Ipv4.slashed w).isSome = true :=
  fun hs => Ipv4.slash_of_quad h (Ipv4.slash_of_slashed hs)

theorem quad_of_address (h : (Ipv4.Address.read w).isSome = true) :
    (Ipv4.quad w).isSome = true := by
  obtain ⟨q, hq, _⟩ := Ipv4.address_iff.mp h
  rw [hq]
  rfl

theorem slashed_of_block (h : (Ipv4.Block.read w).isSome = true) :
    (Ipv4.slashed w).isSome = true := by
  obtain ⟨q, k, hs, _⟩ := Ipv4.block_iff.mp h
  rw [hs]
  rfl

/-- In range, what is written like an address is one. -/
theorem address_of_quad (hr : ¬ OutOfRange w) :
    (Ipv4.quad w).isSome = true ↔ (Ipv4.Address.read w).isSome = true := by
  constructor
  · intro h
    obtain ⟨q, hq⟩ := Option.isSome_iff_exists.mp h
    refine Ipv4.address_iff.mpr ⟨q, hq, ?_⟩
    intro n hn
    by_contra hlt
    exact hr (.inl ⟨q, hq, n, hn, by omega⟩)
  · exact quad_of_address

/-- And what is written like a block is one. -/
theorem block_of_slashed (hr : ¬ OutOfRange w) :
    (Ipv4.slashed w).isSome = true ↔ (Ipv4.Block.read w).isSome = true := by
  constructor
  · intro h
    obtain ⟨⟨q, k⟩, hs⟩ := Option.isSome_iff_exists.mp h
    refine Ipv4.block_iff.mpr ⟨q, k, hs, ?_, ?_⟩
    · intro n hn
      by_contra hlt
      exact hr (.inr ⟨q, k, hs, .inl ⟨n, hn, by omega⟩⟩)
    · by_contra hlt
      exact hr (.inr ⟨q, k, hs, .inr (by omega)⟩)
  · exact slashed_of_block

/-- Out of range, it denotes nothing. -/
theorem nothing_of_outOfRange (h : OutOfRange w) :
    ¬ ((Ipv4.Address.read w).isSome = true ∨ (Ipv4.Block.read w).isSome = true) := by
  intro hread
  rcases hread with ha | hb
  · obtain ⟨q, hq, hall⟩ := Ipv4.address_iff.mp ha
    rcases h with ⟨q', hq', n, hn, hlt⟩ | ⟨q', k, hs, _⟩
    · rw [hq] at hq'
      cases hq'
      have := hall n hn
      omega
    · exact not_slashed_of_quad (quad_of_address ha) (by rw [hs]; rfl)
  · obtain ⟨q, k, hs, hall, hk⟩ := Ipv4.block_iff.mp hb
    rcases h with ⟨q', hq', _⟩ | ⟨q', k', hs', hlt⟩
    · exact not_slashed_of_quad (by rw [hq']; rfl) (slashed_of_block hb)
    · rw [hs] at hs'
      cases hs'
      rcases hlt with ⟨n, hn, hlt⟩ | hlt
      · have := hall n hn
        omega
      · omega

end Gap

/-! ## The save -/

/-- A bare quad with the longest prefix is a block. -/
theorem slashed_host {u : String} (h : '/' ∉ u.toList) :
    (Ipv4.slashed (u ++ "/32").toList).isSome = true ↔ (Ipv4.quad u.toList).isSome = true := by
  have hparts : (u ++ "/32").toList.splitOn '/' = [u.toList, ['3', '2']] := by
    rw [String.toList_append]
    show (u.toList ++ '/' :: ['3', '2']).splitOn '/' = _
    rw [List.splitOn_append_cons_self_of_not_mem h, List.splitOn_eq_singleton (by decide)]
  have hnumeral : Ipv4.numeral 2 ['3', '2'] = some 32 := by decide
  unfold Ipv4.slashed
  rw [hparts]
  cases hq : Ipv4.quad u.toList <;> simp [hq, hnumeral]

/-- An entry is taken if it is written like an address or a block. -/
theorem saved_iff (v : String) :
    validateProtection ⟨.ip, none, none, some (allowedCidrsFor .ip (listing v))⟩ = .ok ↔
      (Ipv4.quad (Grammar.trim v).toList).isSome = true ∨
        (Ipv4.slashed (Grammar.trim v).toList).isSome = true := by
  have hlist : allowedCidrsFor .ip (listing v) =
      if Grammar.trim v = "" then []
      else [if (Grammar.trim v).toList.contains '/' then Grammar.trim v
        else Grammar.trim v ++ "/32"] := by
    unfold allowedCidrsFor listing
    by_cases h : Grammar.trim v = "" <;> simp [h, List.eraseDups_cons]
  generalize Grammar.trim v = u at hlist
  rw [hlist]
  split
  next hu =>
    rw [hu]
    decide
  next =>
    rw [validateProtection_one, validateTrustedSource_cidr]
    by_cases hslash : '/' ∈ u.toList
    · rw [if_pos (by simpa using hslash)]
      constructor
      · exact .inr
      · intro h
        rcases h with h | h
        · exact absurd hslash (Ipv4.slash_of_quad h)
        · exact h
    · rw [if_neg (by simpa using hslash), slashed_host hslash]
      constructor
      · exact .inl
      · intro h
        rcases h with h | h
        · exact h
        · exact absurd (Ipv4.slash_of_slashed h) hslash

/-- **Acceptance is exact, except for numbers out of range.** -/
theorem exact_iff (v : String) : AcceptsExactly v ↔ ¬ OutOfRange (Grammar.trim v).toList := by
  constructor
  · intro h hr
    have haccept := (saved_iff v).mpr hr.shaped
    exact nothing_of_outOfRange hr (h.saved.mp haccept)
  · intro hr
    -- a string out of range has nothing to trim
    have hv : ¬ OutOfRange v.toList := by
      intro h
      rw [trim_of_shaped h.shaped] at hr
      exact hr h
    have haddress := ipv4_test.trans (address_of_quad hv)
    have hblock := cidr_test.trans (block_of_slashed hv)
    refine ⟨?_, ?_, ?_, ?_, ?_, ?_⟩
    · exact refused_unless.trans haddress
    · exact refused_unless.trans hblock
    · exact refused_unless.trans haddress
    · exact refused_unless.trans hblock
    · exact validateProtection_one.trans (refused_unless.trans hblock)
    · rw [saved_iff, address_of_quad hr, block_of_slashed hr]
      rfl

/-- Written like an address. -/
theorem no_such_octet : ¬ AcceptsExactly "999.1.1.1" := by
  intro h
  have hdenotes := h.denyIp.mp (by decide +kernel)
  revert hdenotes
  unfold DenotesAddress
  decide +kernel

end Security

end CloudWai
