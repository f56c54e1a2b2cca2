import CloudWai.Base.UrlJoin
import CloudWai.Signing.Canonical

/-!
# When the signer's form is AWS's

Both forms are made of the octets that a path or a query stands for. The signer gets at
them by way of a text, and what is lost on the way shows: a character of two UTF-16 units is
encoded as two that it is not, an escaped slash comes out as a slash, a plus sign as a
space, and pairs may change places between being sorted and being encoded. `PathAgrees`
and `QueryAgrees` exclude exactly these.

About `canonicalPathAndQuery` of `packages/adapters/src/aws-signature.ts`, as
`Canonical.lean` has it.
-/

namespace CloudWai.Signing

open Base Url Percent Grammar

/-- Every character is one UTF-16 unit. -/
def OneUnit (t : List Char) : Prop := ∀ c ∈ t, c.toNat < 0x10000

/-- The path decodes, to characters of one unit, and no segment has an escaped slash. -/
structure PathAgrees (u : WebUrl) : Prop where
  decodes : ∃ t, decodeURIComponent (pathname u.path) = some t ∧ OneUnit t
  slashes : ∀ seg ∈ u.path, 0x2F ∉ octets seg

/-- A name or value without plus signs that is the UTF-8 of characters of one unit. -/
structure TextAgrees (cs : List Char) : Prop where
  plus : '+' ∉ cs
  units : ∃ t, octets cs = Utf8.encode t ∧ OneUnit t

/-- All names and values do, and any two pairs are as they are decoded in the order that they
are in as they are encoded. -/
structure QueryAgrees (query : List Char) : Prop where
  texts : ∀ p ∈ pairsOf query, TextAgrees p.1 ∧ TextAgrees p.2
  order : ∀ p ∈ pairsOf query, ∀ q ∈ pairsOf query,
    ParamsLe (decodePair p) (decodePair q) → AwsLe (awsPair p) (awsPair q)

/-! ## Encoding -/

section Encoding

variable {t t' : List Char} {slash : Bool} {c : Char}

/-- What is not encoded. -/
def kept (encodeSlash : Bool) (c : Char) : Bool := unreserved c || (c == '/' && !encodeSlash)

theorem unreserved_low (h : unreserved c = true) :
    (45 ≤ c.toNat ∧ c.toNat ≤ 46) ∨ (48 ≤ c.toNat ∧ c.toNat ≤ 57) ∨ (65 ≤ c.toNat ∧ c.toNat ≤ 90) ∨
      c.toNat = 95 ∨ (97 ≤ c.toNat ∧ c.toNat ≤ 122) ∨ c.toNat = 126 := by
  unfold unreserved alnumOr alnum upper lower digit at h
  simp only [Bool.or_eq_true, Bool.and_eq_true, decide_eq_true_eq, List.contains_iff_mem,
    List.mem_cons, List.not_mem_nil, or_false] at h
  have hle : ∀ {a b : Char}, a ≤ b → a.toNat ≤ b.toNat := fun h => h
  rcases h with ((⟨hl, hu⟩ | ⟨hl, hu⟩) | ⟨hl, hu⟩) | rfl | rfl | rfl | rfl
  · exact .inr (.inr (.inl ⟨hle hl, hle hu⟩))
  · exact .inr (.inr (.inr (.inr (.inl ⟨hle hl, hle hu⟩))))
  · exact .inr (.inl ⟨hle hl, hle hu⟩)
  all_goals decide

theorem kept_low (h : kept slash c = true) : c.toNat < 0x80 ∧ c ≠ '%' := by
  unfold kept at h
  rw [Bool.or_eq_true] at h
  rcases h with h | h
  · have := unreserved_low h
    refine ⟨by omega, ?_⟩
    rintro rfl
    revert this
    decide
  · rw [Bool.and_eq_true, beq_iff_eq] at h
    rw [h.1]
    decide

theorem safe_kept : Safe (kept slash) := fun _ h => kept_low h

theorem safe_unreserved : Safe unreserved := fun c h =>
  @kept_low true _ (by rw [kept, h, Bool.true_or])

/-- The octets of a character beyond ASCII are all encoded. -/
theorem escape_char (h : kept slash c = false) :
    escape (kept slash) (String.utf8EncodeChar c) = (String.utf8EncodeChar c).flatMap percent := by
  unfold escape
  refine List.flatMap_congr fun b hb => ?_
  unfold escapeOctet
  refine if_neg ?_
  intro hkept
  have hlow := (kept_low hkept).1
  rw [toNat_ofNat_octet] at hlow
  rcases Utf8.encodeChar_cases c with ⟨hu, henc⟩ | ⟨_, _, henc⟩ | ⟨_, _, henc⟩ | ⟨_, henc⟩
  · rw [henc, List.mem_singleton] at hb
    rw [hb, UInt8.toNat_ofNat', Nat.mod_eq_of_lt (by omega), Char.ofNat_toNat] at hkept
    rw [hkept] at h
    cases h
  all_goals
    have hge : ∀ n : Nat, 0x80 ≤ n → n < 256 → b = UInt8.ofNat n → False := by
      intro n hn hn' hb
      rw [hb, UInt8.toNat_ofNat', Nat.mod_eq_of_lt hn'] at hlow
      omega
    rw [henc] at hb
    simp only [List.mem_cons, List.not_mem_nil, or_false] at hb
  · rcases hb with hb | hb
    · exact hge _ (by omega) (by omega) hb
    · exact hge _ (by omega) (by omega) hb
  · rcases hb with hb | hb | hb
    · exact hge _ (by omega) (by omega) hb
    · exact hge _ (by omega) (by omega) hb
    · exact hge _ (by omega) (by omega) hb
  · rcases hb with hb | hb | hb | hb
    · exact hge _ (by omega) (by omega) hb
    · exact hge _ (by omega) (by omega) hb
    · exact hge _ (by omega) (by omega) hb
    · exact hge _ (by omega) (by omega) hb

/-- **Encoding** is escaping the octets, unit by unit. -/
theorem uriEncode_eq :
    uriEncode t slash = escape (kept slash) (Utf8.encode (t.flatMap perUnit)) := by
  unfold uriEncode Utf8.encode escape
  generalize t.flatMap perUnit = t
  rw [List.flatMap_assoc]
  refine List.flatMap_congr fun c _ => ?_
  have hkeep : kept slash c = true → (String.utf8EncodeChar c).flatMap (escapeOctet (kept slash)) =
      [c] := by
    intro h
    have hlow := (kept_low h).1
    rw [utf8EncodeChar_ascii hlow, List.flatMap_singleton]
    unfold escapeOctet
    have hchar : Char.ofNat (UInt8.ofNat c.toNat).toNat = c := by
      rw [UInt8.toNat_ofNat', Nat.mod_eq_of_lt (by omega), Char.ofNat_toNat]
    rw [hchar, if_pos h]
  split
  next h => exact (hkeep (by rw [kept, h, Bool.true_or])).symm
  next h =>
    split
    next hs => exact (hkeep (by rw [kept, hs, Bool.or_true])).symm
    next hs =>
      refine (escape_char ?_).symm
      unfold kept
      rw [Bool.or_eq_false_iff]
      exact ⟨Bool.eq_false_iff.mpr h, Bool.eq_false_iff.mpr hs⟩

/-- Unit by unit is character by character for characters of one unit, and only for those. -/
theorem perUnit_id (h : OneUnit t) : t.flatMap perUnit = t := by
  induction t with
  | nil => rfl
  | cons c t ih =>
    rw [List.flatMap_cons, ih fun d hd => h d (List.mem_cons_of_mem c hd)]
    unfold perUnit
    rw [if_pos (h c List.mem_cons_self)]
    rfl

theorem oneUnit_perUnit (t : List Char) : OneUnit (t.flatMap perUnit) := by
  intro c hc
  obtain ⟨d, _, hd⟩ := List.mem_flatMap.mp hc
  unfold perUnit at hd
  split at hd
  next h =>
    rw [List.mem_singleton] at hd
    rwa [hd]
  next =>
    have hrep : c = Utf8.replacement := by simpa using hd
    rw [hrep]
    decide

theorem octets_uriEncode : octets (uriEncode t slash) = Utf8.encode (t.flatMap perUnit) := by
  have hread := @octets_escape (kept slash) [] (Utf8.encode (t.flatMap perUnit)) safe_kept
  rw [List.append_nil] at hread
  rw [uriEncode_eq, hread]
  exact List.append_nil _

theorem octets_awsText {cs : List Char} : octets (awsText cs) = octets cs := by
  have hread := @octets_escape unreserved [] (octets cs) safe_unreserved
  rw [List.append_nil] at hread
  unfold awsText
  rw [hread]
  exact List.append_nil _

theorem encode_inj (h : Utf8.encode t = Utf8.encode t') : t = t' := by
  rw [← Utf8.decode_encode t, h, Utf8.decode_encode]

theorem kept_true : kept true = unreserved := by
  funext c
  unfold kept
  rw [Bool.not_true, Bool.and_false, Bool.or_false]

end Encoding

/-! ## The path -/

section Path

variable {u : WebUrl} {path : List (List Char)} {lib : Library} {t : List Char}

theorem octets_pathname : octets (pathname path) = path.flatMap fun seg => 0x2F :: octets seg := by
  induction path with
  | nil => rfl
  | cons seg path ih =>
    have hrest : octets (seg ++ pathname path) = octets seg ++ octets (pathname path) := by
      cases path with
      | nil =>
        show octets (seg ++ []) = octets seg ++ []
        rw [List.append_nil, List.append_nil]
      | cons seg' path => exact octets_append (by decide)
    rw [List.flatMap_cons, ← ih]
    show octets ('/' :: (seg ++ pathname path)) = _
    rw [octets_cons (by decide), hrest]
    rfl

/-- The segments' octets, escaped, with slashes between. -/
theorem escape_pathname {keep : Char → Bool} (hslash : keep '/' = true) :
    escape keep (octets (pathname path)) =
      path.flatMap fun seg => '/' :: escape keep (octets seg) := by
  rw [octets_pathname]
  unfold escape
  rw [List.flatMap_assoc]
  refine List.flatMap_congr fun seg _ => ?_
  rw [List.flatMap_cons]
  unfold escapeOctet
  have hchar : Char.ofNat (0x2F : UInt8).toNat = '/' := by decide
  rw [hchar, if_pos hslash]
  rfl

theorem awsPath_eq : awsPath u = u.path.flatMap fun seg => '/' :: escape unreserved (octets seg) := by
  unfold awsPath pathname
  rw [List.flatMap_map]
  rfl

theorem length_flatMap_le {α β : Type} {l : List α} {f g : α → List β}
    (hle : ∀ a ∈ l, (f a).length ≤ (g a).length) : (l.flatMap f).length ≤ (l.flatMap g).length := by
  induction l with
  | nil => exact Nat.le_refl _
  | cons a l ih =>
    rw [List.flatMap_cons, List.flatMap_cons, List.length_append, List.length_append]
    exact Nat.add_le_add (hle a List.mem_cons_self)
      (ih fun b hb => hle b (List.mem_cons_of_mem a hb))

/-- Where a part is not longer each time and the whole is as long, each part is as long. -/
theorem length_flatMap_eq {α β : Type} {l : List α} {f g : α → List β}
    (hle : ∀ a ∈ l, (f a).length ≤ (g a).length)
    (heq : (l.flatMap f).length = (l.flatMap g).length) :
    ∀ a ∈ l, (f a).length = (g a).length := by
  induction l with
  | nil => nofun
  | cons a l ih =>
    rw [List.flatMap_cons, List.flatMap_cons, List.length_append, List.length_append] at heq
    have hhead := hle a List.mem_cons_self
    have hrest := length_flatMap_le fun b hb => hle b (List.mem_cons_of_mem a hb)
    intro b hb
    rcases List.mem_cons.mp hb with rfl | hb
    · omega
    · exact ih (fun c hc => hle c (List.mem_cons_of_mem a hc)) (by omega) b hb

/-- **The path** comes to AWS's form exactly if it agrees. -/
theorem canonical_path_iff :
    (∃ t, decodeURIComponent (pathname u.path) = some t ∧ uriEncode t false = awsPath u) ↔
      PathAgrees u := by
  have hkept : kept false '/' = true := by decide
  have hmono : ∀ c, unreserved c = true → kept false c = true := fun c h => by
    rw [kept, h, Bool.true_or]
  constructor
  · intro ⟨t, ht, heq⟩
    have hoctets := octets_of_decode ht
    -- both sides stand for octets, and those of the right are the path's
    have hunits : t.flatMap perUnit = t := by
      refine encode_inj ?_
      rw [← @octets_uriEncode _ false, heq, ← hoctets, octets_pathname]
      unfold awsPath
      rw [octets_pathname, List.flatMap_map]
      exact List.flatMap_congr fun seg _ => by rw [octets_awsText]
    refine ⟨⟨t, ht, hunits ▸ oneUnit_perUnit t⟩, ?_⟩
    rw [uriEncode_eq, hunits, ← hoctets, escape_pathname hkept, awsPath_eq] at heq
    have hlength := length_flatMap_eq (fun seg _ => by
      show (_ :: _).length ≤ (_ :: _).length
      rw [List.length_cons, List.length_cons]
      exact Nat.succ_le_succ (length_escape_le hmono).1) (congrArg List.length heq)
    intro seg hseg hmem
    have hsame := (length_escape_le hmono).2 (Nat.succ.inj (hlength seg hseg)) 0x2F hmem
    revert hsame
    decide
  · intro ⟨⟨t, ht, hunits⟩, hslashes⟩
    refine ⟨t, ht, ?_⟩
    rw [uriEncode_eq, perUnit_id hunits, ← octets_of_decode ht, escape_pathname hkept, awsPath_eq]
    refine List.flatMap_congr fun seg hseg => congrArg ('/' :: ·) ?_
    refine escape_congr fun b hb => ?_
    unfold kept
    have hne : Char.ofNat b.toNat ≠ '/' := by
      intro hslash
      refine hslashes seg hseg ?_
      have hb2 := congrArg Char.toNat hslash
      rw [toNat_ofNat_octet] at hb2
      rw [← UInt8.ofNat_toNat (x := b), hb2] at hb
      exact hb
    rw [beq_eq_false_iff_ne.mpr hne, Bool.false_and, Bool.or_false]

end Path

/-! ## The query's order -/

section Order

variable {a b : List Char × List Char} {t t' : List Char}

theorem paramsLe_iff : ParamsLe a b ↔ LexLe (fun p => units p.1) (fun p => units p.2) a b := by
  unfold ParamsLe compareParams LexLe
  by_cases hname : units a.1 = units b.1
  · rw [if_pos hname]
    simp only [hname, lt_irrefl, true_and, false_or]
    split
    next hlt => exact iff_of_true (by decide) hlt.le
    next hlt =>
      split
      next hgt => exact iff_of_false (by decide) (not_le_of_gt hgt)
      next hgt => exact iff_of_true (by decide) (not_lt.mp hgt)
  · rw [if_neg hname]
    simp only [hname, false_and, or_false]
    split
    next hlt => exact iff_of_true (by decide) hlt
    next hlt => exact iff_of_false (by decide) hlt

instance : Std.Total ParamsLe where
  total a b := by
    rw [paramsLe_iff, paramsLe_iff]
    exact Std.Total.total a b

instance : IsTrans (List Char × List Char) ParamsLe where
  trans a b c hab hbc := by
    rw [paramsLe_iff] at *
    exact IsTrans.trans _ _ _ hab hbc

/-- Characters of one unit are told by their units. -/
theorem units_inj (ht : OneUnit t) (ht' : OneUnit t') (h : units t = units t') : t = t' := by
  have hone : ∀ s, OneUnit s → units s = s.map Char.toNat := by
    intro s hs
    unfold units
    rw [List.map_eq_flatMap]
    exact List.flatMap_congr fun c hc => if_pos (hs c hc)
  rw [hone t ht, hone t' ht'] at h
  exact List.map_injective_iff.mpr (fun c d hcd => Char.toNat_inj.mp hcd) h

end Order

/-! ## Queries that are written alike -/

section Written

variable {p : List Char × List Char} {ps qs : List (List Char × List Char)}

/-- Nothing in a name or a value ends it. -/
structure Clear (p : List Char × List Char) : Prop where
  name : '=' ∉ p.1 ∧ '&' ∉ p.1
  value : '&' ∉ p.2

theorem Clear.amp (h : Clear p) : '&' ∉ written p := by
  unfold written
  rw [List.mem_append, List.mem_cons]
  intro hmem
  rcases hmem with hmem | hmem | hmem
  · exact h.name.2 hmem
  · revert hmem
    decide
  · exact h.value hmem

theorem cutPair_written (h : Clear p) : cutPair (written p) = p := by
  have hname : ∀ c ∈ p.1, (c != '=') = true := by
    intro c hc
    rw [bne_iff_ne]
    intro heq
    exact h.name.1 (heq ▸ hc)
  unfold cutPair written
  rw [List.takeWhile_append_of_pos hname, List.dropWhile_append_of_pos hname,
    List.takeWhile_cons_of_neg (by decide), List.dropWhile_cons_of_neg (by decide), List.append_nil]
  rfl

/-- **What was written is read back.** -/
theorem pairsOf_joinPairs (h : ∀ p ∈ ps, Clear p) : pairsOf (joinPairs ps) = ps := by
  by_cases hne : ps = []
  · rw [hne]
    rfl
  · unfold pairsOf joinPairs
    rw [List.splitOn_intercalate]
    · have hfilter : (ps.map written).filter (· != []) = ps.map written := by
        rw [List.filter_eq_self]
        intro cs hcs
        obtain ⟨p, _, rfl⟩ := List.mem_map.mp hcs
        rw [bne_iff_ne]
        exact List.append_ne_nil_of_right_ne_nil _ (List.cons_ne_nil _ _)
      rw [hfilter, List.map_map]
      calc ps.map (cutPair ∘ written) = ps.map id :=
            List.map_congr_left fun p hp => cutPair_written (h p hp)
        _ = ps := List.map_id ps
    · intro cs hcs
      obtain ⟨p, hp, rfl⟩ := List.mem_map.mp hcs
      exact (h p hp).amp
    · intro hmap
      exact hne (List.map_eq_nil_iff.mp hmap)

theorem joinPairs_inj (hps : ∀ p ∈ ps, Clear p) (hqs : ∀ p ∈ qs, Clear p)
    (h : joinPairs ps = joinPairs qs) : ps = qs := by
  rw [← pairsOf_joinPairs hps, h, pairsOf_joinPairs hqs]

theorem mem_escape_ne {bs : List UInt8} {c : Char} (h : c ∈ escape unreserved bs) :
    c ≠ '=' ∧ c ≠ '&' := by
  rcases mem_escape h with h | rfl | ⟨n, hn, rfl⟩
  · refine ⟨?_, ?_⟩
    · rintro rfl
      revert h
      decide
    · rintro rfl
      revert h
      decide
  · decide
  · have hall : ∀ n < 16, Url.hexDigit n ≠ '=' ∧ Url.hexDigit n ≠ '&' := by decide
    exact hall n hn

theorem clear_escape {bs bs' : List UInt8} : Clear (escape unreserved bs, escape unreserved bs') where
  name := ⟨fun h => (mem_escape_ne h).1 rfl, fun h => (mem_escape_ne h).2 rfl⟩
  value h := (mem_escape_ne h).2 rfl

theorem clear_awsPair : Clear (awsPair p) := clear_escape

theorem clear_encodePair : Clear (encodePair p) := by
  unfold encodePair
  rw [uriEncode_eq, uriEncode_eq, kept_true]
  exact clear_escape

end Written

/-! ## The query -/

section Query

variable {cs query : List Char} {p : List Char × List Char}

/-- A name or value that is the text of one-unit characters is written in UTF-8 of its form
text: its octets, with spaces for plus signs. -/
theorem octets_formDecode (h : ∃ t, octets cs = Utf8.encode t ∧ OneUnit t) :
    octets (uriEncode (formDecode cs) true) = octets (cs.map formSpace) ∧
      OneUnit (formDecode cs) := by
  obtain ⟨t, ht, hunits⟩ := h
  obtain ⟨t', ht', hmem⟩ := (ht ▸ spaced_octets.1 : Spaced (Utf8.encode t) _).text
  have hone : OneUnit t' := by
    intro c hc
    rcases hmem c hc with hc | rfl
    · exact hunits c hc
    · decide
  have hdecode : formDecode cs = t' := by
    unfold formDecode
    rw [ht', Utf8.decode_encode]
  rw [hdecode, octets_uriEncode, perUnit_id hone, ht']
  exact ⟨rfl, hone⟩

theorem uriEncode_formDecode (h : TextAgrees cs) : uriEncode (formDecode cs) true = awsText cs := by
  have hread := (octets_formDecode h.units).1
  have hplain : cs.map formSpace = cs := by
    refine (List.map_congr_left fun c hc => ?_).trans (List.map_id cs)
    unfold formSpace
    refine if_neg ?_
    rintro rfl
    exact h.plus hc
  rw [hplain, octets_uriEncode] at hread
  rw [uriEncode_eq, hread, kept_true]
  rfl

theorem encodePair_decodePair (h : TextAgrees p.1 ∧ TextAgrees p.2) :
    encodePair (decodePair p) = awsPair p :=
  Prod.ext (uriEncode_formDecode h.1) (uriEncode_formDecode h.2)

/-- Where each is a sum, and all have the same sum as one of their parts, the other is nothing. -/
theorem part_eq_zero {α : Type} {l : List α} {f g h : α → Nat} (hsum : ∀ a, h a = f a + g a)
    (heq : (l.map g).sum = (l.map h).sum) : ∀ a ∈ l, f a = 0 := by
  have hle : ∀ l : List α, (l.map h).sum = (l.map f).sum + (l.map g).sum := by
    intro l
    induction l with
    | nil => rfl
    | cons a l ih =>
      rw [List.map_cons, List.map_cons, List.map_cons, List.sum_cons, List.sum_cons, List.sum_cons, ih,
        hsum]
      omega
  have hzero : (l.map f).sum = 0 := by
    have := hle l
    omega
  intro a ha
  exact List.sum_eq_zero_iff_forall_eq_nat.mp hzero (f a) (List.mem_map_of_mem ha)

/-- If the names, or the values, are written alike in some order, they agree. -/
theorem agree_of_perm {l : List (List Char)}
    (h : (l.map fun cs => uriEncode (formDecode cs) true).Perm (l.map awsText)) :
    ∀ cs ∈ l, TextAgrees cs := by
  have hunits : ∀ cs ∈ l, ∃ t, octets cs = Utf8.encode t ∧ OneUnit t := by
    intro cs hcs
    obtain ⟨cs', _, heq⟩ := List.mem_map.mp (h.mem_iff.mpr (List.mem_map_of_mem hcs))
    refine ⟨(formDecode cs').flatMap perUnit, ?_, oneUnit_perUnit _⟩
    rw [← octets_awsText, ← heq, octets_uriEncode]
  -- each plus sign is an octet that the signer does not write
  have hcount := (h.map fun cs => (octets cs).count 0x2B).sum_nat
  rw [List.map_map, List.map_map] at hcount
  have hsame : (l.map fun cs => (octets (cs.map formSpace)).count 0x2B).sum =
      (l.map fun cs => (octets cs).count 0x2B).sum := by
    refine Eq.trans ?_ (hcount.trans ?_)
    · refine congrArg List.sum (List.map_congr_left fun cs hcs => ?_)
      exact congrArg (List.count 0x2B) (octets_formDecode (hunits cs hcs)).1.symm
    · refine congrArg List.sum (List.map_congr_left fun cs _ => ?_)
      exact congrArg (List.count 0x2B) octets_awsText
  have hplus := part_eq_zero (fun _ => spaced_octets.2) hsame
  intro cs hcs
  exact ⟨List.count_eq_zero.mp (hplus cs hcs), hunits cs hcs⟩

/-- **The query** comes to AWS's form exactly if it agrees. -/
theorem canonical_query_iff : canonicalQuery query = awsQuery query ↔ QueryAgrees query := by
  have hwritten : canonicalQuery query = awsQuery query ↔
      ((searchParams query).insertionSort ParamsLe).map encodePair =
        ((pairsOf query).map awsPair).insertionSort AwsLe := by
    refine ⟨fun h => joinPairs_inj ?_ ?_ h, congrArg joinPairs⟩
    · intro p hp
      obtain ⟨_, _, rfl⟩ := List.mem_map.mp hp
      exact clear_encodePair
    · intro p hp
      obtain ⟨_, _, rfl⟩ := List.mem_map.mp ((List.mem_insertionSort _).mp hp)
      exact clear_awsPair
  -- once the texts agree, what is left is whether sorting and encoding can be exchanged
  have hordered : (∀ p ∈ pairsOf query, TextAgrees p.1 ∧ TextAgrees p.2) →
      (((searchParams query).insertionSort ParamsLe).map encodePair =
        ((pairsOf query).map awsPair).insertionSort AwsLe ↔
      ∀ p ∈ pairsOf query, ∀ q ∈ pairsOf query,
        ParamsLe (decodePair p) (decodePair q) → AwsLe (awsPair p) (awsPair q)) := by
    intro htexts
    have hencoded : (pairsOf query).map awsPair = (searchParams query).map encodePair := by
      unfold searchParams
      rw [List.map_map]
      exact List.map_congr_left fun p hp => (encodePair_decodePair (htexts p hp)).symm
    have hunits : ∀ x ∈ searchParams query, OneUnit x.1 ∧ OneUnit x.2 := by
      intro x hx
      obtain ⟨p, hp, rfl⟩ := List.mem_map.mp hx
      exact ⟨(octets_formDecode (htexts p hp).1.units).2, (octets_formDecode (htexts p hp).2.units).2⟩
    rw [hencoded, map_sort_iff]
    · unfold searchParams
      rw [List.forall_mem_map]
      refine forall₂_congr fun p hp => ?_
      rw [List.forall_mem_map]
      refine forall₂_congr fun q hq => ?_
      rw [encodePair_decodePair (htexts p hp), encodePair_decodePair (htexts q hq)]
    · intro x hx y hy hxy hyx
      obtain ⟨hname, hvalue⟩ := LexLe.antisymm (paramsLe_iff.mp hxy) (paramsLe_iff.mp hyx)
      exact Prod.ext (units_inj (hunits x hx).1 (hunits y hy).1 hname)
        (units_inj (hunits x hx).2 (hunits y hy).2 hvalue)
    · intro x hx y hy hxy hyx
      obtain ⟨hname, hvalue⟩ := LexLe.antisymm hxy hyx
      have htext : ∀ t t', OneUnit t → OneUnit t' → uriEncode t true = uriEncode t' true → t = t' := by
        intro t t' ht ht' heq
        have := congrArg octets heq
        rw [octets_uriEncode, octets_uriEncode, perUnit_id ht, perUnit_id ht'] at this
        exact encode_inj this
      exact Prod.ext (htext _ _ (hunits x hx).1 (hunits y hy).1 hname)
        (htext _ _ (hunits x hx).2 (hunits y hy).2 hvalue)
  rw [hwritten]
  constructor
  · intro heq
    have hperm : ((searchParams query).map encodePair).Perm ((pairsOf query).map awsPair) :=
      (((List.perm_insertionSort _ _).map encodePair).symm.trans (.of_eq heq)).trans
        (List.perm_insertionSort _ _)
    unfold searchParams at hperm
    rw [List.map_map] at hperm
    have hnames := hperm.map Prod.fst
    have hvalues := hperm.map Prod.snd
    rw [List.map_map, List.map_map] at hnames hvalues
    have htexts : ∀ p ∈ pairsOf query, TextAgrees p.1 ∧ TextAgrees p.2 := by
      intro p hp
      refine ⟨agree_of_perm (l := (pairsOf query).map Prod.fst) ?_ p.1 (List.mem_map_of_mem hp),
        agree_of_perm (l := (pairsOf query).map Prod.snd) ?_ p.2 (List.mem_map_of_mem hp)⟩
      · rw [List.map_map, List.map_map]
        exact hnames
      · rw [List.map_map, List.map_map]
        exact hvalues
    exact ⟨htexts, (hordered htexts).mp heq⟩
  · intro h
    exact (hordered h.texts).mpr h.order

end Query

/-! ## The request -/

/-- What is signed are the path and the query in AWS's form, of the URL that is to be sent to. -/
def RequestSigned (lib : Library) (crypto : Crypto) (credentials : SigV4Credentials)
    (req : SigV4Request) : Prop :=
  ∃ signed canonical u, signSigV4Request lib crypto credentials req = some signed ∧
    canonicalRequest lib crypto credentials req = some canonical ∧
    parse lib signed.url.toList = some (.web u) ∧
    canonical.path = awsPath u ∧ canonical.query = awsQuery (u.query.getD [])

section Request

variable {lib : Library} {crypto : Crypto} {credentials : SigV4Credentials} {req : SigV4Request}
  {u : WebUrl} {t : List Char}

theorem path_ne_nil {cs : List Char} (h : parse lib cs = some (.web u)) : u.path ≠ [] := by
  obtain ⟨scheme, r, _, hauth⟩ := body_of_parse h
  obtain ⟨hp, _, rfl⟩ := Option.map_eq_some_iff.mp hauth
  exact resolve_ne_nil (List.splitOnP_ne_nil _ _)

/-- A path is never encoded as nothing. -/
theorem uriEncode_ne_nil (hne : u.path ≠ []) (h : decodeURIComponent (pathname u.path) = some t) :
    uriEncode t false ≠ [] := by
  intro hnil
  have hunits : t.flatMap perUnit = [] := by
    refine encode_inj ?_
    rw [← @octets_uriEncode _ false, hnil]
    rfl
  have ht : t = [] := by
    rw [List.eq_nil_iff_forall_not_mem]
    intro c hc
    have := List.flatMap_eq_nil_iff.mp hunits c hc
    unfold perUnit at this
    split at this <;> cases this
  have hoctets := octets_of_decode h
  obtain ⟨seg, path, hpath⟩ := List.exists_cons_of_ne_nil hne
  rw [octets_pathname, hpath, ht] at hoctets
  cases hoctets

/-- **What is signed is AWS's form** exactly if the path and the query agree. -/
theorem request_signed_iff (h : parse lib req.url.toList = some (.web u)) :
    RequestSigned lib crypto credentials req ↔ PathAgrees u ∧ QueryAgrees (u.query.getD []) := by
  rw [← canonical_path_iff, ← canonical_query_iff]
  have hcanonical : canonicalPathAndQuery lib req.url.toList =
      (decodeURIComponent (pathname u.path)).map fun t =>
        ⟨uriEncode t false, canonicalQuery (u.query.getD [])⟩ := by
    unfold canonicalPathAndQuery
    rw [h, Option.bind_some]
    show (decodeURIComponent (pathname u.path)).map _ = _
    cases ht : decodeURIComponent (pathname u.path) with
    | none => rfl
    | some t =>
      rw [Option.map_some, Option.map_some]
      dsimp only
      rw [if_neg (uriEncode_ne_nil (path_ne_nil h) ht)]
      rfl
  constructor
  · intro ⟨signed, canonical, v, hsigned, hrequest, hv, hpath, hquery⟩
    have hurl : signed.url = req.url := by
      unfold signSigV4Request at hsigned
      rw [h, Option.bind_some] at hsigned
      obtain ⟨_, _, rfl⟩ := Option.map_eq_some_iff.mp hsigned
      rfl
    rw [hurl, h] at hv
    obtain rfl := Parsed.web.inj (Option.some.inj hv)
    unfold canonicalRequest at hrequest
    rw [h, Option.bind_some, hcanonical, Option.map_map] at hrequest
    obtain ⟨t, ht, rfl⟩ := Option.map_eq_some_iff.mp hrequest
    exact ⟨⟨t, ht, hpath⟩, hquery⟩
  · intro ⟨⟨t, ht, hpath⟩, hquery⟩
    obtain ⟨canonical, hrequest, hp, hq⟩ : ∃ canonical,
        canonicalRequest lib crypto credentials req = some canonical ∧
          canonical.path = uriEncode t false ∧ canonical.query = canonicalQuery (u.query.getD []) := by
      unfold canonicalRequest
      rw [h, Option.bind_some, hcanonical, ht]
      exact ⟨_, rfl, rfl, rfl⟩
    obtain ⟨signed, hsigned, hurl⟩ : ∃ signed,
        signSigV4Request lib crypto credentials req = some signed ∧ signed.url = req.url := by
      unfold signSigV4Request
      rw [h, Option.bind_some, hrequest]
      exact ⟨_, rfl, rfl⟩
    exact ⟨signed, canonical, u, hsigned, hrequest, hurl ▸ h, hp.trans hpath, hq.trans hquery⟩

end Request

end CloudWai.Signing
