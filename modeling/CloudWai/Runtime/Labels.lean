import CloudWai.Runtime.Server

/-!
# Labels

What `defaultLabel` makes of an application's name is a label of a DNS name unless it
ends in a hyphen, which it does where it is cut there. Under a suffix that is a
hostname a label is one too, so an application whose label is found gets its hostname.

About `defaultLabel` and `isHostname` of `infra/deployment/runtime-server.mjs`, as
`Server.lean` has them.
-/

namespace CloudWai.Runtime

open Base Grammar Pattern

variable {v : List Char}

/-- A letter or a digit at either end, and hyphens besides at most. -/
structure Labelled (v : List Char) : Prop where
  head : ∃ c, v.head? = some c ∧ lowerNum c = true
  last : ∃ c, v.getLast? = some c ∧ lowerNum c = true
  chars : ∀ c ∈ v, (lowerNum c || c == '-') = true

/-- Both patterns of a label say so, but for the number of characters in between. -/
theorem Labelled.matches {middle : Pattern} (h : Labelled v)
    (hmiddle : ∀ mid : List Char, mid.length + 2 ≤ v.length →
      (∀ c ∈ mid, (lowerNum c || c == '-') = true) → Matches middle mid) :
    Matches (seq (one lowerNum) (opt (seq middle (one lowerNum)))) v := by
  obtain ⟨c, hc, hnum⟩ := h.head
  obtain ⟨rest, rfl⟩ := List.head?_eq_some_iff.mp hc
  refine matches_seq.mpr ⟨[c], rest, rfl, matches_one.mpr ⟨c, hnum, rfl⟩, ?_⟩
  rw [opt, matches_alt, matches_eps]
  rcases rest.eq_nil_or_concat with rfl | ⟨mid, d, rfl⟩
  · exact .inl rfl
  · rw [List.concat_eq_append] at h hmiddle ⊢
    obtain ⟨d', hd, hlast⟩ := h.last
    have hsame : (c :: (mid ++ [d])).getLast? = some d := by
      rw [← List.cons_append]
      exact List.getLast?_concat
    obtain rfl := Option.some.inj (hsame.symm.trans hd)
    refine .inr (matches_seq.mpr ⟨mid, [d], rfl, hmiddle mid ?_ fun e he => ?_,
      matches_one.mpr ⟨d, hlast, rfl⟩⟩)
    · simp
    · exact h.chars e (List.mem_cons_of_mem c (List.mem_append_left [d] he))

theorem Labelled.isDnsLabel (h : Labelled v) (hlen : v.length ≤ 63) :
    isDnsLabel (String.ofList v) = true := by
  unfold Runtime.isDnsLabel
  rw [test_iff, String.toList_ofList]
  exact h.matches fun mid hmid hall => matches_upTo_one.mpr ⟨by omega, hall⟩

/-- Neither lets a label end in a hyphen. -/
theorem last_of_matches {middle : Pattern}
    (h : Matches (seq (one lowerNum) (opt (seq middle (one lowerNum)))) v) :
    v.getLast? ≠ some '-' := by
  have hend : ∃ init c, lowerNum c = true ∧ v = init ++ [c] := by
    obtain ⟨u, w, rfl, hu, hw⟩ := matches_seq.mp h
    obtain ⟨c, hc, rfl⟩ := matches_one.mp hu
    rw [opt, matches_alt, matches_eps] at hw
    rcases hw with rfl | hw
    · exact ⟨[], c, hc, rfl⟩
    · obtain ⟨mid, last, rfl, _, hlast⟩ := matches_seq.mp hw
      obtain ⟨d, hd, rfl⟩ := matches_one.mp hlast
      exact ⟨c :: mid, d, hd, rfl⟩
  obtain ⟨init, c, hc, rfl⟩ := hend
  rw [List.getLast?_concat]
  intro heq
  obtain rfl := Option.some.inj heq
  cases hc

theorem last_of_isDnsLabel (h : isDnsLabel (String.ofList v) = true) : v.getLast? ≠ some '-' := by
  unfold Runtime.isDnsLabel dnsLabel at h
  rw [test_iff, String.toList_ofList] at h
  exact last_of_matches h

theorem host_toList (v : List Char) (suffix : String) :
    (s!"{String.ofList v}.{suffix}").toList = v ++ '.' :: suffix.toList := by
  show (String.ofList v ++ "." ++ suffix).toList = _
  rw [String.toList_append, String.toList_append, String.toList_ofList, List.append_assoc]
  rfl

/-- Nor does a hostname let its first one. -/
theorem last_of_isHostname {suffix : String} (hdot : '.' ∉ v)
    (h : isHostname s!"{String.ofList v}.{suffix}" = true) : v.getLast? ≠ some '-' := by
  unfold Runtime.isHostname hostnamePattern at h
  rw [Bool.and_eq_true, test_iff, host_toList] at h
  obtain ⟨u, w, hsplit, hu, hw⟩ := matches_seq.mp h.2
  obtain ⟨first, _, rfl, hfirst, _⟩ := matches_seq.mp hw
  obtain ⟨dot, rest, rfl, hch, _⟩ := matches_seq.mp hfirst
  obtain rfl := matches_ch.mp hch
  have hchars : '.' ∉ u := by
    intro hmem
    have hwithin : Pattern.Within (fun c => lowerNum c || c == '-') (.seq (.one lowerNum)
        (.opt (.seq (.star (.one fun c => lowerNum c || c == '-')) (.one lowerNum)))) := by
      have hnum : ∀ c, lowerNum c = true → (lowerNum c || c == '-') = true := by
        intro c hc
        rw [hc]
        rfl
      exact ⟨hnum, trivial, fun _ hc => hc, hnum⟩
    cases hu.within hwithin '.' hmem
  -- both are what is before the first dot
  have hbefore : ∀ a b : List Char, '.' ∉ a → (a ++ '.' :: b).takeWhile (· != '.') = a := by
    intro a b ha
    rw [List.takeWhile_append_of_pos, List.takeWhile_cons_of_neg (by decide), List.append_nil]
    intro c hc
    rw [bne_iff_ne]
    rintro rfl
    exact ha hc
  have hsame := congrArg (List.takeWhile (· != '.')) hsplit
  rw [hbefore v _ hdot, List.append_assoc] at hsame
  rw [hsame.trans (hbefore u _ hchars)]
  exact last_of_matches hu

theorem jsLength_bounds (s : String) :
    s.toList.length ≤ jsLength s ∧ jsLength s ≤ 2 * s.toList.length := by
  unfold jsLength
  induction s.toList with
  | nil => exact ⟨le_rfl, le_rfl⟩
  | cons c cs ih =>
    rw [List.map_cons, List.sum_cons, List.length_cons]
    split <;> omega

/-- A suffix that hostnames can be made under. -/
def someSuffix : String := "apps.example.com"

theorem Labelled.isHostname (h : Labelled v) (hlen : v.length ≤ 63) :
    isHostname s!"{String.ofList v}.{someSuffix}" = true := by
  have hlist : (s!"{String.ofList v}.{someSuffix}").toList = v ++ ".apps.example.com".toList := by
    rw [host_toList]
    rfl
  have hsuffix : Matches (plus (seq (ch '.') (seq (one lowerNum)
      (opt (seq (star (one fun c => lowerNum c || c == '-')) (one lowerNum))))))
      ".apps.example.com".toList := run_iff.mp (by decide)
  have hlength := jsLength_bounds s!"{String.ofList v}.{someSuffix}"
  have hshort : ".apps.example.com".toList.length = 17 := rfl
  rw [hlist, List.length_append, hshort] at hlength
  unfold Runtime.isHostname
  rw [Bool.and_eq_true, Bool.and_eq_true, decide_eq_true_eq, decide_eq_true_eq, test_iff, hlist]
  refine ⟨⟨?_, ?_⟩, matches_seq.mpr ⟨v, _, rfl, h.matches fun mid _ hall =>
    matches_star_one.mpr hall, hsuffix⟩⟩
  · omega
  · omega

end CloudWai.Runtime
