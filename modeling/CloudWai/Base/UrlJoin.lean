import CloudWai.Base.Url

/-!
# A URL with a path behind it

A client often has a base URL as a string and puts a path behind it. What the parser makes
of the two is not always the one path and then the other: the base may end in a query, in
segments that are resolved, or in a space that the parser drops at the end of its input and
encodes in the middle.

The segments of the base are those before the last one then (`walk`), so what the path
resolves to begins with what they come to (`resolve_append`). It is that and the path,
as they are, only if no segment of the path is a dot segment (`pathname_resolve_iff`).
-/

namespace Base

namespace Url

/-- The path state, on segments that none is the last of. -/
def walk (path : List (List Char)) : List (List Char) → List (List Char)
  | [] => path
  | seg :: segs =>
    if dots seg = some 2 then walk path.dropLast segs
    else if dots seg = some 1 then walk path segs
    else walk (path ++ [encode inPathSet seg]) segs

/-- Without the slashes at its end. -/
def strip (cs : List Char) : List Char := cs.rdropWhile (· == '/')

section Walk

variable {path segs last : List (List Char)} {a : List Char}

theorem walk_cons {seg : List Char} : walk path (seg :: segs) =
    if dots seg = some 2 then walk path.dropLast segs
    else if dots seg = some 1 then walk path segs
    else walk (path ++ [encode inPathSet seg]) segs := by
  rw [walk]

theorem resolve_cons {seg : List Char} (h : segs ≠ []) : resolve path (seg :: segs) =
    if dots seg = some 2 then resolve path.dropLast segs
    else if dots seg = some 1 then resolve path segs
    else resolve (path ++ [encode inPathSet seg]) segs := by
  obtain ⟨seg', rest, rfl⟩ := List.exists_cons_of_ne_nil h
  rw [resolve]
  exact List.cons_ne_nil seg' rest

theorem resolve_append (h : last ≠ []) :
    resolve path (segs ++ last) = resolve (walk path segs) last := by
  induction segs generalizing path with
  | nil => rfl
  | cons seg segs ih =>
    have hne : segs ++ last ≠ [] := List.append_ne_nil_of_right_ne_nil _ h
    rw [List.cons_append, resolve_cons hne, walk_cons, ih, ih, ih]
    split
    · rfl
    · split <;> rfl

theorem walk_append (segs' : List (List Char)) :
    walk path (segs ++ segs') = walk (walk path segs) segs' := by
  induction segs generalizing path with
  | nil => rfl
  | cons seg segs ih =>
    rw [List.cons_append, walk_cons, walk_cons, ih, ih, ih]
    split
    · rfl
    · split <;> rfl

/-- Behind the segments, a last one that is empty. -/
theorem resolve_walk : resolve path (segs ++ [[]]) = walk path segs ++ [[]] := by
  rw [resolve_append (List.cons_ne_nil _ _)]
  rfl

theorem settled_walk (hpath : ∀ seg ∈ path, Settled seg)
    (hsegs : ∀ seg ∈ segs, ∀ c ∈ seg, isSlash c = false) : ∀ seg ∈ walk path segs, Settled seg := by
  intro seg hseg
  refine @settled_resolve _ (segs ++ [[]]) hpath ?_ seg ?_
  · intro s hs
    rcases List.mem_append.mp hs with hs | hs
    · exact hsegs s hs
    · obtain rfl := List.mem_singleton.mp hs
      nofun
  · rw [resolve_walk]
    exact List.mem_append_left _ hseg

theorem strip_slash : strip (pathname (path ++ [[]])) = strip (pathname path) := by
  rw [pathname_append]
  exact List.rdropWhile_concat_pos _ _ _ rfl

/-- Nothing goes exactly if there is no slash at the end. -/
theorem strip_self_iff : strip a = a ↔ ¬ ['/'] <:+ a := by
  unfold strip
  rcases a.eq_nil_or_concat with rfl | ⟨init, last, rfl⟩
  · exact iff_of_true rfl (by decide)
  · rw [List.concat_eq_append]
    by_cases hlast : last = '/'
    · subst hlast
      refine iff_of_false ?_ (not_not_intro ⟨init, rfl⟩)
      rw [List.rdropWhile_concat_pos _ _ _ rfl]
      intro heq
      have hlen := (List.rdropWhile_prefix (· == '/') init).length_le
      rw [heq, List.length_append, List.length_singleton] at hlen
      omega
    · refine iff_of_true (List.rdropWhile_concat_neg _ _ _ (by simpa using hlast)) ?_
      intro ⟨pre, hpre⟩
      exact hlast (List.cons.inj (List.append_inj' hpre rfl).2).1.symm

/-- Text that ends in no slash has one at its end with one slash behind it. -/
theorem strip_eq_iff : strip a = a ↔ ¬ ['/', '/'] <:+ a ++ ['/'] := by
  rw [strip_self_iff, not_iff_not]
  constructor
  · intro ⟨pre, hpre⟩
    refine ⟨pre, ?_⟩
    rw [← hpre, List.append_assoc]
    rfl
  · intro ⟨pre, hpre⟩
    refine ⟨pre, List.append_cancel_right (Eq.trans ?_ hpre)⟩
    rw [List.append_assoc]
    rfl

theorem length_strip_le : (strip a).length ≤ a.length := (List.rdropWhile_prefix _ a).length_le

/-- What is put in the place of the slashes, and has none, is what else is behind them. -/
theorem eq_of_strip_append {first y : List Char} (hfirst : '/' ∉ first)
    (h : strip a ++ first = a ++ y) : first = y := by
  have hcut : strip a ++ a.rtakeWhile (· == '/') = a := List.rdropWhile_append_rtakeWhile
  have hslashes : first = a.rtakeWhile (· == '/') ++ y := by
    refine List.append_cancel_left (h.trans ?_)
    rw [← List.append_assoc, hcut]
  cases hs : a.rtakeWhile (· == '/') with
  | nil =>
    rw [hs] at hslashes
    exact hslashes
  | cons c rest =>
    have hmem : c ∈ a.rtakeWhile (· == '/') := hs ▸ List.mem_cons_self
    obtain rfl : c = '/' := beq_iff_eq.mp (List.mem_rtakeWhile_imp (p := (· == '/')) hmem)
    rw [hs] at hslashes
    exact absurd (hslashes ▸ List.mem_cons_self) hfirst

/-- Whether a segment is the last one shows at the end of the path only. -/
theorem strip_resolve (h : segs ≠ []) :
    strip (pathname (resolve path segs)) = strip (pathname (walk path segs)) := by
  induction segs generalizing path with
  | nil => exact absurd rfl h
  | cons seg segs ih =>
    cases segs with
    | nil =>
      rw [resolve, walk_cons, walk, walk, walk]
      split
      · exact strip_slash
      · split
        · exact strip_slash
        · rfl
    | cons seg' segs =>
      have hne := List.cons_ne_nil seg' segs
      rw [resolve_cons hne, walk_cons, apply_ite pathname, apply_ite pathname, apply_ite strip,
        apply_ite strip, ih hne, ih hne, ih hne]
      split
      · rfl
      · split <;> rfl

theorem encode_append {set : Char → Bool} {b : List Char} :
    encode set (a ++ b) = encode set a ++ encode set b := List.flatMap_append

/-- What is put behind a text stays with its last segment, if it has no slashes. -/
theorem splitOnP_append_right {z : List Char} (hz : ∀ c ∈ z, isSlash c = false) :
    ∃ init last, a.splitOnP isSlash = init ++ [last] ∧
      (a ++ z).splitOnP isSlash = init ++ [last ++ z] := by
  induction a with
  | nil =>
    refine ⟨[], [], List.splitOnP_nil, ?_⟩
    exact List.splitOnP_eq_singleton hz
  | cons c a ih =>
    obtain ⟨init, last, hone, hboth⟩ := ih
    rw [List.cons_append, List.splitOnP_cons_eq_if_modifyHead, List.splitOnP_cons_eq_if_modifyHead,
      hone, hboth]
    split
    · exact ⟨[] :: init, last, rfl, rfl⟩
    · cases init with
      | nil => exact ⟨[], c :: last, rfl, rfl⟩
      | cons first init => exact ⟨(c :: first) :: init, last, rfl, rfl⟩

theorem splitOnP_concat {init : List (List Char)} {seg z : List Char}
    (h : a.splitOnP isSlash = init ++ [seg]) (hz : ∀ c ∈ z, isSlash c = false) :
    (a ++ z).splitOnP isSlash = init ++ [seg ++ z] := by
  obtain ⟨init', seg', hone, hboth⟩ := splitOnP_append_right (a := a) hz
  obtain ⟨rfl, hseg⟩ := List.append_inj' (h.symm.trans hone) rfl
  obtain rfl := (List.cons.inj hseg).1
  exact hboth

/-- A segment of dots has nothing that is trimmed at the end of a text. -/
theorem dots_plain {seg : List Char} {n : Nat} (h : dots seg = some n) :
    ∀ c ∈ seg, c0OrSpace c = false := by
  fun_induction dots seg generalizing n with
  | case1 => nofun
  | case2 seg ih =>
    obtain ⟨m, hm, _⟩ := Option.map_eq_some_iff.mp h
    intro c hc
    rcases List.mem_cons.mp hc with rfl | hc
    · rfl
    · exact ih hm c hc
  | case3 seg ih =>
    obtain ⟨m, hm, _⟩ := Option.map_eq_some_iff.mp h
    intro c hc
    simp only [List.mem_cons] at hc
    rcases hc with rfl | rfl | rfl | hc
    · rfl
    · rfl
    · rfl
    · exact ih hm c hc
  | case4 seg ih =>
    obtain ⟨m, hm, _⟩ := Option.map_eq_some_iff.mp h
    intro c hc
    simp only [List.mem_cons] at hc
    rcases hc with rfl | rfl | rfl | hc
    · rfl
    · rfl
    · rfl
    · exact ih hm c hc
  | case5 => cases h

theorem length_pathname_singleton {seg : List Char} : (pathname [seg]).length = seg.length + 1 := by
  show ('/' :: (seg ++ [])).length = _
  rw [List.append_nil, List.length_cons]

/-- A text with a control or a space in it is no dot segment. -/
theorem isDot_blank {seg : List Char} {c : Char} (hmem : c ∈ seg) (hc : c0OrSpace c = true) :
    isDot seg = false := by
  have hnone : ∀ n, dots seg ≠ some n := by
    intro n hdots
    have := dots_plain hdots c hmem
    rw [hc] at this
    cases this
  exact isDot_eq_false (hnone 2) (hnone 1)

theorem walk_singleton {seg : List Char} (h : isDot seg = false) :
    walk path [seg] = path ++ [encode inPathSet seg] := by
  unfold isDot at h
  rw [Bool.or_eq_false_iff, beq_eq_false_iff_ne, beq_eq_false_iff_ne] at h
  rw [walk_cons, if_neg h.2, if_neg h.1]
  rfl

/-- A segment that goes is no longer than what was there. -/
theorem length_walk_dot {seg : List Char} (h : isDot seg = true) :
    (pathname (walk path [seg])).length ≤ (pathname path).length := by
  have hdrop := length_pathname_dropLast path
  unfold isDot at h
  rw [Bool.or_eq_true, beq_iff_eq, beq_iff_eq] at h
  rw [walk_cons]
  rcases h with h | h
  · rw [h, if_neg (by decide), if_pos rfl]
    exact le_rfl
  · rw [h, if_pos rfl]
    exact hdrop

/-- Controls or spaces are not slashes. -/
theorem isSlash_of_blank {c : Char} (h : c0OrSpace c = true) : isSlash c = false := by
  unfold isSlash
  rw [Bool.or_eq_false_iff, beq_eq_false_iff_ne, beq_eq_false_iff_ne]
  refine ⟨?_, ?_⟩
  · rintro rfl
    cases h
  · rintro rfl
    cases h

theorem encode_blank {z : List Char} (hz : z ≠ []) (hblank : ∀ c ∈ z, c0OrSpace c = true) :
    encode inPathSet z ≠ [] ∧ ∀ c ∈ encode inPathSet z, Plain c := by
  have hset : ∀ c ∈ z, inPathSet c = true := by
    intro c hc
    have hlow : c.toNat ≤ 0x20 := of_decide_eq_true (hblank c hc)
    unfold inPathSet
    rw [decide_eq_true hlow]
    rfl
  refine ⟨?_, ?_⟩
  · obtain ⟨c, z', rfl⟩ := List.exists_cons_of_ne_nil hz
    obtain ⟨b, bs, hbs, _⟩ := utf8_head c
    rw [encode_cons, if_pos (hset c List.mem_cons_self), hbs]
    exact List.cons_ne_nil _ _
  · intro c hc
    rcases mem_encode hc with h | ⟨hmem, hno⟩
    · exact h
    · rw [hset c hmem] at hno
      cases hno

/-- A path that ends in controls or spaces and goes on has them at its end, encoded. -/
theorem walk_blank {z : List Char} (hz : z ≠ []) (hblank : ∀ c ∈ z, c0OrSpace c = true) :
    ∃ init last, a.splitOnP isSlash = init ++ [last] ∧
      (a ++ z).splitOnP isSlash = init ++ [last ++ z] ∧
      walk path ((a ++ z).splitOnP isSlash) =
        walk path init ++ [encode inPathSet last ++ encode inPathSet z] := by
  obtain ⟨init, last, hone, hboth⟩ :=
    splitOnP_append_right (a := a) fun c hc => isSlash_of_blank (hblank c hc)
  obtain ⟨c, hc⟩ := List.exists_mem_of_ne_nil z hz
  refine ⟨init, last, hone, hboth, ?_⟩
  rw [hboth, walk_append, walk_singleton (isDot_blank (List.mem_append_right last hc) (hblank c hc)),
    encode_append]

/-- They make it longer. -/
theorem length_walk_blank {z : List Char} (hz : z ≠ []) (hblank : ∀ c ∈ z, c0OrSpace c = true) :
    (pathname (walk path (a.splitOnP isSlash))).length <
        (pathname (walk path ((a ++ z).splitOnP isSlash))).length ∧
      (pathname (resolve path (a.splitOnP isSlash))).length <
        (pathname (walk path ((a ++ z).splitOnP isSlash))).length := by
  obtain ⟨init, last, hone, _, hwalk⟩ := @walk_blank path a _ hz hblank
  have hlong : 0 < (encode inPathSet z).length := List.length_pos_iff.mpr (encode_blank hz hblank).1
  rw [hwalk, hone, walk_append, resolve_append (List.cons_ne_nil _ _)]
  generalize walk path init = path
  have hdrop := length_pathname_dropLast path
  rw [resolve, walk_cons]
  unfold walk
  rw [pathname_append path [_ ++ _], List.length_append, length_pathname_singleton,
    List.length_append]
  have hslash : (pathname [([] : List Char)]).length = 1 := rfl
  split
  · rw [pathname_append, List.length_append, hslash]
    omega
  · split
    · rw [pathname_append, List.length_append, hslash]
      omega
    · rw [pathname_append, List.length_append, length_pathname_singleton]
      omega

/-- And are at its end, so that it ends in no slash. -/
theorem strip_walk_blank {z : List Char} (hz : z ≠ []) (hblank : ∀ c ∈ z, c0OrSpace c = true) :
    strip (pathname (walk path ((a ++ z).splitOnP isSlash))) =
      pathname (walk path ((a ++ z).splitOnP isSlash)) := by
  obtain ⟨init, last, _, _, hwalk⟩ := @walk_blank path a _ hz hblank
  obtain ⟨hne, hplain⟩ := encode_blank hz hblank
  have hlast : pathname (walk path ((a ++ z).splitOnP isSlash)) =
      (pathname (walk path init) ++ '/' :: encode inPathSet last) ++ encode inPathSet z := by
    rw [hwalk, pathname_append, List.append_assoc]
    show _ ++ '/' :: (encode inPathSet last ++ encode inPathSet z ++ []) = _
    rw [List.append_nil]
    rfl
  rw [strip_self_iff, hlast]
  intro hsuffix
  have hget : (encode inPathSet z).getLast? = some '/' := by
    obtain ⟨pre, hpre⟩ := hsuffix
    have := congrArg List.getLast? hpre
    rw [List.getLast?_append, List.getLast?_append_of_ne_nil _ hne] at this
    exact this.symm
  have := (hplain '/' (List.mem_of_getLast? hget)).2.2
  cases this

/-! ### A path behind another one -/

/-- The segments of a text with a path behind it. -/
theorem splitOnP_append_pathname (h : ∀ seg ∈ segs, ∀ c ∈ seg, isSlash c = false) :
    (a ++ pathname segs).splitOnP isSlash = a.splitOnP isSlash ++ segs := by
  cases segs with
  | nil =>
    rw [List.append_nil]
    exact congrArg (List.splitOnP isSlash) (List.append_nil a)
  | cons first rest =>
    have hcons : pathname (first :: rest) = '/' :: (first ++ pathname rest) := rfl
    have hright := splitOnP_pathname h
    rw [hcons, List.splitOnP_cons_eq_if_modifyHead, if_pos (by rfl)] at hright
    rw [hcons, List.splitOnP_append_cons _ _ (by rfl), (List.cons.inj hright).2]

/-- Segments that end a path after it was resolved were no dot segments. -/
theorem dots_of_pathname (hpath : ∀ seg ∈ path, Settled seg)
    (hslash : ∀ seg ∈ segs, ∀ c ∈ seg, isSlash c = false)
    (hlast : ∀ seg ∈ last, ∀ c ∈ seg, isSlash c = false)
    (heq : pathname (resolve path segs) = a ++ pathname last) : ∀ seg ∈ last, isDot seg = false := by
  have hsettled := settled_resolve hpath hslash
  intro seg hseg
  -- the segments are between slashes on the right, so they are segments on the left
  have hsplit := congrArg (List.splitOnP isSlash) heq
  rw [splitOnP_pathname fun s hs c hc => ((hsettled s hs).chars c hc).2,
    splitOnP_append_pathname hlast] at hsplit
  have hmem : seg ∈ [] :: resolve path segs := hsplit ▸ List.mem_append_right _ hseg
  rcases List.mem_cons.mp hmem with rfl | hmem
  · rfl
  · exact (hsettled seg hmem).dots

/-- **A path behind another one** is resolved to the two as they are exactly if the first came
to that, and the second has no dot segments. -/
theorem pathname_resolve_iff (hpath : ∀ seg ∈ path, Settled seg)
    (hchars : ∀ seg ∈ segs, ∀ c ∈ seg, inPathSet c = false ∧ isSlash c = false) :
    pathname (resolve path segs) = a ++ pathname segs ↔
      pathname path = a ∧ ∀ seg ∈ segs, isDot seg = false := by
  have hslash : ∀ seg ∈ segs, ∀ c ∈ seg, isSlash c = false := fun seg hseg c hc =>
    (hchars seg hseg c hc).2
  have happend : (∀ seg ∈ segs, isDot seg = false) → resolve path segs = path ++ segs := fun hdots =>
    resolve_settled fun seg hseg => ⟨hchars seg hseg, hdots seg hseg⟩
  constructor
  · intro heq
    have hdots := dots_of_pathname hpath hslash hslash heq
    rw [happend hdots, pathname_append] at heq
    exact ⟨List.append_cancel_right heq, hdots⟩
  · intro ⟨ha, hdots⟩
    rw [happend hdots, pathname_append, ha]

theorem resolve_plain {seg : List Char} (h : isDot seg = false) (hsegs : ∀ seg ∈ segs, Settled seg) :
    resolve path (seg :: segs) = path ++ encode inPathSet seg :: segs := by
  unfold isDot at h
  rw [Bool.or_eq_false_iff, beq_eq_false_iff_ne, beq_eq_false_iff_ne] at h
  cases segs with
  | nil => rw [resolve, if_neg h.2, if_neg h.1]
  | cons seg' segs =>
    rw [resolve_cons (List.cons_ne_nil _ _), if_neg h.2, if_neg h.1, resolve_settled hsegs,
      List.append_assoc]
    rfl

/-- A last segment that is not empty is not stripped. -/
theorem strip_last {seg : List Char} (hne : seg ≠ []) (hslash : '/' ∉ seg) :
    strip (pathname (path ++ [seg])) = pathname (path ++ [seg]) := by
  obtain ⟨init, c, rfl⟩ := (seg.eq_nil_or_concat).resolve_left hne
  rw [List.concat_eq_append] at hslash ⊢
  have hlast : pathname (path ++ [init ++ [c]]) = (pathname path ++ '/' :: init) ++ [c] := by
    rw [pathname_append, List.append_assoc]
    show _ ++ '/' :: (init ++ [c] ++ []) = _
    rw [List.append_nil]
    rfl
  rw [strip_self_iff, hlast]
  intro ⟨pre, hpre⟩
  obtain rfl := (List.cons.inj (List.append_inj' hpre rfl).2).1
  exact hslash (List.mem_append_right init List.mem_cons_self)

/-- A path with a text behind it in the place of the slashes is not the path, nor the path
before it. -/
theorem ne_strip_append {path' path'' : List (List Char)} {seg first : List Char}
    (hseg : '/' ∉ seg) (hne : first ≠ []) (hfirst : '/' ∉ first)
    (h' : path' = path ∨ path' = path ++ [seg]) (h'' : path'' = path ∨ path'' = path ++ [seg]) :
    pathname path' ≠ strip (pathname path'') ++ first := by
  have hself : ∀ p, p ≠ strip p ++ first := by
    intro p heq
    exact hne (eq_of_strip_append hfirst (heq.symm.trans (List.append_nil p).symm))
  have hmore : pathname (path ++ [seg]) = pathname path ++ '/' :: seg := by
    rw [pathname_append]
    exact congrArg (pathname path ++ '/' :: ·) (List.append_nil seg)
  rcases h'' with rfl | rfl
  · rcases h' with rfl | rfl
    · exact hself _
    · intro heq
      have := eq_of_strip_append hfirst (heq.symm.trans hmore)
      exact hfirst (this ▸ List.mem_cons_self)
  · rcases h' with rfl | rfl
    · by_cases hnil : seg = []
      · rw [hnil, strip_slash]
        exact hself _
      · rw [strip_last hnil hseg, hmore]
        intro heq
        have hlen := congrArg List.length heq
        rw [List.length_append, List.length_append, List.length_cons] at hlen
        omega
    · exact hself _

/-- A dot segment goes, so that no text without slashes is in its place. -/
theorem not_resolve_dot {seg tail first : List Char} (hpath : ∀ s ∈ path, Settled s)
    (htail : ∀ c ∈ tail, isSlash c = false) (hseg : isDot seg = true)
    (hsegs : ∀ s ∈ segs, Settled s) (hne : first ≠ []) (hfirst : '/' ∉ first) :
    pathname (resolve path (seg :: segs)) ≠
      strip (pathname (walk path [tail])) ++ first ++ pathname segs := by
  intro heq
  cases segs with
  | nil =>
    -- the last segment leaves a slash
    have hlast : ∃ pre, pathname (resolve path [seg]) = pre ++ ['/'] := by
      unfold isDot at hseg
      rw [Bool.or_eq_true, beq_iff_eq, beq_iff_eq] at hseg
      rw [resolve]
      rcases hseg with h | h
      · rw [h, if_neg (by decide), if_pos rfl]
        exact ⟨pathname path, pathname_append path [[]]⟩
      · rw [h, if_pos rfl]
        exact ⟨pathname path.dropLast, pathname_append path.dropLast [[]]⟩
    obtain ⟨pre, hpre⟩ := hlast
    obtain ⟨init, c, rfl⟩ := (first.eq_nil_or_concat).resolve_left hne
    rw [hpre, List.concat_eq_append] at heq
    have hboth : pre ++ ['/'] = (strip (pathname (walk path [tail])) ++ init) ++ [c] := by
      rw [heq, List.append_assoc _ init]
      exact List.append_nil _
    obtain rfl := (List.cons.inj (List.append_inj' hboth rfl).2).1
    rw [List.concat_eq_append] at hfirst
    exact hfirst (List.mem_append_right init List.mem_cons_self)
  | cons seg' segs =>
    -- what is left is the path, or the path without its last segment
    have hbase : resolve path (seg :: seg' :: segs) = walk path [seg] ++ seg' :: segs := by
      show resolve path ([seg] ++ seg' :: segs) = _
      rw [resolve_append (List.cons_ne_nil _ _), resolve_settled hsegs]
    have hor : ∀ s, isDot s = true → walk path [s] = path.dropLast ∨ walk path [s] = path := by
      intro s hs
      unfold isDot at hs
      rw [Bool.or_eq_true, beq_iff_eq, beq_iff_eq] at hs
      rw [walk_cons]
      rcases hs with h | h
      · rw [h, if_neg (by decide), if_pos rfl]
        exact .inr rfl
      · rw [h, if_pos rfl]
        exact .inl rfl
    rw [hbase, pathname_append] at heq
    replace heq := List.append_cancel_right heq
    rcases path.eq_nil_or_concat with rfl | ⟨init, seg'', rfl⟩
    · have hnil : walk [] [seg] = [] := (hor seg hseg).elim id id
      rw [hnil] at heq
      exact hne (List.append_eq_nil_iff.mp heq.symm).2
    rw [List.concat_eq_append] at heq hor hpath
    rw [List.dropLast_concat] at hor
    have hslash : '/' ∉ seg'' := by
      intro hmem
      have := ((hpath seg'' (List.mem_append_right init List.mem_cons_self)).chars '/' hmem).2
      cases this
    by_cases hdot : isDot tail = true
    · exact ne_strip_append hslash hne hfirst (hor seg hseg) (hor tail hdot) heq
    · -- a last segment that stays is longer than what is left, or is empty
      rw [walk_singleton (Bool.eq_false_iff.mpr hdot)] at heq
      by_cases hnil : encode inPathSet tail = []
      · rw [hnil] at heq
        refine ne_strip_append hslash hne hfirst (hor seg hseg) (.inr rfl) (heq.trans ?_)
        exact congrArg (· ++ first) strip_slash
      · have hstay : '/' ∉ encode inPathSet tail := by
          intro hmem
          have := ((settled_encode htail (Bool.eq_false_iff.mpr hdot)).chars '/' hmem).2
          cases this
        have hlen := congrArg List.length heq
        have hshort := @length_walk_dot (init ++ [seg'']) _ hseg
        rw [strip_last hnil hstay, pathname_append _ [encode _ _], List.length_append,
          List.length_append, length_pathname_singleton] at hlen
        omega

/-- **A text behind a path**, one that is not empty and begins with no slash, is resolved to the
two as they are exactly if the path's last segment is one that stays, and would be with the
text behind it. -/
theorem pathname_resolve_join {seg first : List Char} (hpath : ∀ s ∈ path, Settled s)
    (hseg : ∀ c ∈ seg, isSlash c = false) (hne : first ≠ [])
    (hfirst : ∀ c ∈ first, inPathSet c = false ∧ isSlash c = false)
    (hsegs : ∀ s ∈ segs, ∀ c ∈ s, inPathSet c = false ∧ isSlash c = false) :
    pathname (resolve path ((seg ++ first) :: segs)) =
        strip (pathname (walk path [seg])) ++ first ++ pathname segs ↔
      (seg ≠ [] ∧ isDot seg = false ∧ isDot (seg ++ first) = false) ∧
        ∀ s ∈ segs, isDot s = false := by
  have hnoSlash : '/' ∉ first := by
    intro hmem
    cases (hfirst '/' hmem).2
  have hwith : ∀ s ∈ (seg ++ first) :: segs, ∀ c ∈ s, isSlash c = false := by
    intro s hs c hc
    rcases List.mem_cons.mp hs with rfl | hs
    · exact (List.mem_append.mp hc).elim (hseg c) fun h => (hfirst c h).2
    · exact (hsegs s hs c hc).2
  have hencode : encode inPathSet (seg ++ first) = encode inPathSet seg ++ first := by
    rw [encode_append, encode_id fun c hc => (hfirst c hc).1]
  -- where nothing is resolved, the path ends in the segment and the text
  have hplain : isDot (seg ++ first) = false → (∀ s ∈ segs, isDot s = false) →
      pathname (resolve path ((seg ++ first) :: segs)) =
        pathname (path ++ [encode inPathSet seg]) ++ first ++ pathname segs := by
    intro hdot hdots
    rw [resolve_plain hdot fun s hs => ⟨hsegs s hs, hdots s hs⟩, hencode, pathname_append,
      pathname_append]
    simp [pathname]
  constructor
  · intro heq
    have hdots := dots_of_pathname hpath hwith (fun s hs c hc => (hsegs s hs c hc).2) heq
    have hdot : isDot (seg ++ first) = false := by
      rw [Bool.eq_false_iff]
      intro hdot
      exact not_resolve_dot hpath hseg hdot (fun s hs => ⟨hsegs s hs, hdots s hs⟩) hne hnoSlash heq
    rw [hplain hdot hdots] at heq
    replace heq := List.append_cancel_right (List.append_cancel_right heq)
    have hstay : isDot seg = false := by
      rw [Bool.eq_false_iff]
      intro hgoes
      have hshort := @length_walk_dot path _ hgoes
      have hstrip := length_strip_le (a := pathname (walk path [seg]))
      rw [← heq, pathname_append, List.length_append, length_pathname_singleton] at hstrip
      omega
    refine ⟨⟨?_, hstay, hdot⟩, hdots⟩
    rintro rfl
    rw [walk_singleton hstay] at heq
    refine strip_self_iff.mp heq.symm ⟨pathname path, ?_⟩
    rw [pathname_append]
    rfl
  · rintro ⟨⟨hnamed, hstay, hdot⟩, hdots⟩
    have hslash : '/' ∉ encode inPathSet seg := by
      intro hmem
      cases ((settled_encode hseg hstay).chars '/' hmem).2
    have hlong : encode inPathSet seg ≠ [] := by
      obtain ⟨c, rest, rfl⟩ := List.exists_cons_of_ne_nil hnamed
      obtain ⟨b, bs, hbs, _⟩ := utf8_head c
      rw [encode_cons, hbs]
      split <;> exact List.cons_ne_nil _ _
    rw [hplain hdot hdots, walk_singleton hstay, strip_last hlong hslash]

/-- The same of the texts, and with controls or spaces between them, which are encoded there. -/
theorem pathname_resolve_behind {init : List (List Char)} {seg z first : List Char}
    (ha : a.splitOnP isSlash = init ++ [seg]) (hblank : ∀ c ∈ z, c0OrSpace c = true)
    (hne : first ≠ []) (hfirst : ∀ c ∈ first, inPathSet c = false ∧ isSlash c = false)
    (hsegs : ∀ s ∈ segs, ∀ c ∈ s, inPathSet c = false ∧ isSlash c = false) :
    pathname (resolve [] ((a ++ (z ++ (first ++ pathname segs))).splitOnP isSlash)) =
        strip (pathname (walk [] (a.splitOnP isSlash))) ++ (first ++ pathname segs) ↔
      z = [] ∧ (seg ≠ [] ∧ isDot seg = false ∧ isDot (seg ++ first) = false) ∧
        ∀ s ∈ segs, isDot s = false := by
  have hslash : ∀ s ∈ init ++ [seg], ∀ c ∈ s, isSlash c = false := by
    intro s hs c hc
    exact noSep_of_mem_splitOnP (ha ▸ hs) c hc
  have hseg : ∀ c ∈ seg, isSlash c = false :=
    hslash seg (List.mem_append_right init List.mem_cons_self)
  have hsettled : ∀ s ∈ walk [] init, Settled s :=
    settled_walk nofun fun s hs => hslash s (List.mem_append_left _ hs)
  have hbehind : ∀ y, (∀ c ∈ y, isSlash c = false) →
      resolve [] ((a ++ (y ++ pathname segs)).splitOnP isSlash) =
        resolve (walk [] init) ((seg ++ y) :: segs) := by
    intro y hy
    rw [← List.append_assoc, splitOnP_append_pathname fun s hs c hc => (hsegs s hs c hc).2,
      splitOnP_concat ha hy, List.append_assoc]
    exact resolve_append (List.cons_ne_nil _ _)
  have hy : ∀ c ∈ z ++ first, isSlash c = false := by
    intro c hc
    exact (List.mem_append.mp hc).elim (fun h => isSlash_of_blank (hblank c h)) fun h =>
      (hfirst c h).2
  have hwalk : walk [] (a.splitOnP isSlash) = walk (walk [] init) [seg] := by
    rw [ha, walk_append]
  rw [← List.append_assoc z, hbehind _ hy, hwalk, ← List.append_assoc (strip _)]
  by_cases hz : z = []
  · rw [hz, List.nil_append, and_iff_right rfl]
    exact pathname_resolve_join hsettled hseg hne hfirst hsegs
  · refine iff_of_false ?_ fun h => hz h.1
    intro heq
    -- with them in between the segment stays, and is signed without them
    obtain ⟨c, hc⟩ := List.exists_mem_of_ne_nil z hz
    have hdot : ∀ y, isDot (seg ++ z ++ y) = false := fun y =>
      isDot_blank (List.mem_append_left y (List.mem_append_right seg hc)) (hblank c hc)
    have hsegz : ∀ c ∈ seg ++ z, isSlash c = false := by
      intro c hc
      exact (List.mem_append.mp hc).elim (hseg c) fun h => isSlash_of_blank (hblank c h)
    have hdots := dots_of_pathname hsettled (by
      intro s hs c hc
      rcases List.mem_cons.mp hs with rfl | hs
      · exact (List.mem_append.mp hc).elim (hseg c) (hy c)
      · exact (hsegs s hs c hc).2) (fun s hs c hc => (hsegs s hs c hc).2) heq
    have hjoin := (pathname_resolve_join hsettled hsegz hne hfirst hsegs).mpr
      ⟨⟨fun hnil => hz (List.append_eq_nil_iff.mp hnil).2, by simpa using hdot [], hdot first⟩, hdots⟩
    rw [← List.append_assoc seg, hjoin, ← hwalk] at heq
    replace heq := List.append_cancel_right (List.append_cancel_right heq)
    have hwalkz : walk (walk [] init) [seg ++ z] = walk [] ((a ++ z).splitOnP isSlash) := by
      rw [splitOnP_concat ha fun c hc => isSlash_of_blank (hblank c hc), walk_append]
    have hlong := (@length_walk_blank [] a z hz hblank).1
    have hshort := length_strip_le (a := pathname (walk [] (a.splitOnP isSlash)))
    rw [hwalkz, strip_walk_blank hz hblank] at heq
    rw [← heq] at hshort
    omega

end Walk

/-! ## Authorities -/

/-- The segments behind an authority. -/
def segmentsOf (cs : List Char) : List (List Char) :=
  match cs.dropWhile (!endsAuthority ·) with
  | [] => []
  | _ :: path => path.splitOnP isSlash

/-- No text with a control or a space in it is a host. -/
def Library.Printable (lib : Library) : Prop :=
  ∀ cs, (∃ c ∈ cs, c0OrSpace c = true) → lib.host cs = none

section Authority

variable {lib : Library} {scheme : WebScheme} {cs q z : List Char} {u : WebUrl}

theorem segmentsOf_nil (hd : cs.dropWhile (!endsAuthority ·) = [])
    (hq : ∀ c ∈ q, endsAuthority c = false) : segmentsOf (cs ++ q) = [] := by
  have hnone : q.dropWhile (!endsAuthority ·) = [] := by
    refine List.dropWhile_eq_nil_iff.mpr fun c hc => ?_
    rw [hq c hc]
    rfl
  unfold segmentsOf
  rw [List.dropWhile_append, hd, List.isEmpty_nil, if_pos rfl, hnone]

theorem segmentsOf_cons {c : Char} {path : List Char}
    (hd : cs.dropWhile (!endsAuthority ·) = c :: path) :
    segmentsOf (cs ++ q) = (path ++ q).splitOnP isSlash := by
  unfold segmentsOf
  rw [List.dropWhile_append, hd, List.isEmpty_cons, if_neg Bool.false_ne_true]
  rfl

/-- Controls and spaces end nothing. -/
theorem endsAuthority_of_blank {c : Char} (h : c0OrSpace c = true) : endsAuthority c = false := by
  unfold endsAuthority
  rw [isSlash_of_blank h, Bool.false_or]
  unfold endsPath
  rw [Bool.or_eq_false_iff, beq_eq_false_iff_ne, beq_eq_false_iff_ne]
  refine ⟨?_, ?_⟩
  · rintro rfl
    cases h
  · rintro rfl
    cases h

theorem endsPath_of_blank {c : Char} (h : c0OrSpace c = true) : endsPath c = false :=
  (Bool.or_eq_false_iff.mp (endsAuthority_of_blank h)).2

theorem endsAuthority_of_endsPath {c : Char} (h : endsPath c = true) : endsAuthority c = true := by
  unfold endsAuthority
  rw [h, Bool.or_true]

/-- What an authority ends at is a slash, if no query or fragment begins. -/
theorem isSlash_head {c : Char} {path : List Char} (hno : ∀ c ∈ cs, endsPath c = false)
    (h : cs.dropWhile (!endsAuthority ·) = c :: path) : isSlash c = true := by
  have hmem : c ∈ cs := (List.dropWhile_suffix _).subset (h ▸ List.mem_cons_self)
  have hends := List.head_dropWhile_not (!endsAuthority ·) (l := cs) (by
    rw [h]
    exact List.cons_ne_nil _ _)
  simp only [h, List.head_cons, Bool.not_eq_false'] at hends
  unfold endsAuthority at hends
  rwa [hno c hmem, Bool.or_false] at hends

theorem skipSlash_slash {c : Char} (h : isSlash c = true) : skipSlash (c :: cs) = cs := if_pos h

theorem skipSlash_other {c : Char} (h : ¬ isSlash c = true) : skipSlash (c :: cs) = c :: cs := if_neg h

theorem goTo_plain (hno : ∀ c ∈ cs, endsPath c = false) :
    u.goTo [] cs = { u with path := resolve [] (cs.splitOnP isSlash), query := none } := by
  have hall : ∀ c ∈ cs, (!endsPath c) = true := fun c hc => by rw [hno c hc]; rfl
  unfold WebUrl.goTo
  rw [List.takeWhile_eq_self_iff.mpr hall, List.dropWhile_eq_nil_iff.mpr hall]
  rfl

/-- **With a path behind it**, an authority's segments are followed by those of the path. -/
theorem authority_append (hno : ∀ c ∈ cs, endsPath c = false) (hq : ∀ c ∈ q, endsPath c = false) :
    authority lib scheme (cs ++ '/' :: q) =
      (hostPort lib scheme (cs.takeWhile (!endsAuthority ·))).map fun hp =>
        ⟨scheme, hp.1, hp.2, resolve (walk [] (segmentsOf cs)) (q.splitOnP isSlash), none⟩ := by
  have hne : q.splitOnP isSlash ≠ [] := List.splitOnP_ne_nil _ _
  have htake : (cs ++ '/' :: q).takeWhile (!endsAuthority ·) = cs.takeWhile (!endsAuthority ·) := by
    rw [List.takeWhile_append]
    split
    next h =>
      rw [List.takeWhile_cons_of_neg (by decide), List.append_nil,
        (List.takeWhile_prefix _).eq_of_length h]
    · rfl
  have hpath : ∃ path, skipSlash ((cs ++ '/' :: q).dropWhile (!endsAuthority ·)) = path ∧
      (∀ c ∈ path, endsPath c = false) ∧
      path.splitOnP isSlash = segmentsOf cs ++ q.splitOnP isSlash := by
    refine ⟨_, rfl, ?_⟩
    unfold segmentsOf
    rw [List.dropWhile_append]
    cases hd : cs.dropWhile (!endsAuthority ·) with
    | nil =>
      rw [List.isEmpty_nil, if_pos rfl, List.dropWhile_cons_of_neg (by decide)]
      exact ⟨hq, rfl⟩
    | cons c path =>
      have hslash := isSlash_head hno hd
      have hrest : ∀ d ∈ path, endsPath d = false := fun d hd' =>
        hno d ((List.dropWhile_suffix (!endsAuthority ·)).subset (hd ▸ List.mem_cons_of_mem c hd'))
      rw [List.isEmpty_cons, if_neg Bool.false_ne_true, List.cons_append, skipSlash_slash hslash]
      refine ⟨?_, List.splitOnP_append_cons _ _ rfl⟩
      intro d hd'
      rcases List.mem_append.mp hd' with hd' | hd'
      · exact hrest d hd'
      · rcases List.mem_cons.mp hd' with rfl | hd'
        · rfl
        · exact hq d hd'
  obtain ⟨path, hskip, hplain, hsplit⟩ := hpath
  unfold authority
  rw [htake, hskip]
  refine congrArg (Option.map · _) (funext fun ⟨host, port⟩ => ?_)
  dsimp only
  rw [goTo_plain hplain, hsplit, resolve_append hne]

/-- What is behind the path of an authority's text is part of the path. -/
theorem authority_behind {c : Char} {path : List Char} (hno : ∀ c ∈ cs, endsPath c = false)
    (hq : ∀ c ∈ q, endsPath c = false) (hd : cs.dropWhile (!endsAuthority ·) = c :: path) :
    authority lib scheme (cs ++ q) =
      (hostPort lib scheme (cs.takeWhile (!endsAuthority ·))).map fun hp =>
        ⟨scheme, hp.1, hp.2, resolve [] ((path ++ q).splitOnP isSlash), none⟩ := by
  have hslash := isSlash_head hno hd
  have htake : (cs ++ q).takeWhile (!endsAuthority ·) = cs.takeWhile (!endsAuthority ·) := by
    rw [List.takeWhile_append, if_neg]
    intro hlen
    have hself := (List.takeWhile_prefix (!endsAuthority ·)).eq_of_length hlen
    have hnil := List.dropWhile_eq_nil_iff.mpr (List.takeWhile_eq_self_iff.mp hself)
    rw [hd] at hnil
    cases hnil
  have hplain : ∀ d ∈ path ++ q, endsPath d = false := by
    intro d hd'
    rcases List.mem_append.mp hd' with hd' | hd'
    · exact hno d ((List.dropWhile_suffix _).subset (hd ▸ List.mem_cons_of_mem c hd'))
    · exact hq d hd'
  unfold authority
  rw [htake, List.dropWhile_append, hd, List.isEmpty_cons, if_neg Bool.false_ne_true,
    List.cons_append, skipSlash_slash hslash]
  refine congrArg (Option.map · _) (funext fun ⟨host, port⟩ => ?_)
  exact goTo_plain hplain

/-- Every path begins with a slash. -/
theorem pathname_authority (h : authority lib scheme cs = some u) :
    ∃ rest, pathname u.path = '/' :: rest := by
  obtain ⟨⟨host, port⟩, _, rfl⟩ := Option.map_eq_some_iff.mp h
  have hne := @resolve_ne_nil [] _ (List.splitOnP_ne_nil isSlash
    ((skipSlash (cs.dropWhile (!endsAuthority ·))).takeWhile (!endsPath ·)))
  obtain ⟨seg, segs, hpath⟩ := List.exists_cons_of_ne_nil hne
  refine ⟨seg ++ pathname segs, ?_⟩
  show pathname (resolve [] _) = _
  rw [hpath]
  rfl

/-- **Without one**, they come to the same but for slashes at the end. -/
theorem authority_bare (hno : ∀ c ∈ cs, endsPath c = false)
    (h : authority lib scheme cs = some u) :
    hostPort lib scheme (cs.takeWhile (!endsAuthority ·)) = some (u.host, u.port) ∧
      strip (pathname u.path) = strip (pathname (walk [] (segmentsOf cs))) := by
  obtain ⟨⟨host, port⟩, hhost, rfl⟩ := Option.map_eq_some_iff.mp h
  refine ⟨hhost, ?_⟩
  unfold segmentsOf
  cases hd : cs.dropWhile (!endsAuthority ·) with
  | nil => rfl
  | cons c path =>
    have hrest : ∀ d ∈ path, endsPath d = false := fun d hd' =>
      hno d ((List.dropWhile_suffix (!endsAuthority ·)).subset (hd ▸ List.mem_cons_of_mem c hd'))
    dsimp only
    rw [skipSlash_slash (isSlash_head hno hd), goTo_plain hrest]
    exact strip_resolve (List.splitOnP_ne_nil _ _)

theorem takeWhile_append_of_mem {p : Char → Bool} (h : ∃ c ∈ cs, p c = false) :
    (cs ++ q).takeWhile p = cs.takeWhile p := by
  obtain ⟨c, hc, hp⟩ := h
  rw [List.takeWhile_append, if_neg]
  intro hlen
  have hself := (List.takeWhile_prefix p).eq_of_length hlen
  have := List.takeWhile_eq_self_iff.mp hself c hc
  rw [hp] at this
  cases this

/-- Behind a query or a fragment, nothing is added to the path. -/
theorem authority_query (h : ∃ c ∈ cs, endsPath c = true) :
    (authority lib scheme (cs ++ q)).map WebUrl.path = (authority lib scheme cs).map WebUrl.path := by
  obtain ⟨c, hc, hends⟩ := h
  have hauth : ∃ c ∈ cs, (!endsAuthority c) = false :=
    ⟨c, hc, by rw [endsAuthority_of_endsPath hends]; rfl⟩
  -- the first of them is still there behind the authority, and is not the slash that is skipped
  have hdrop : ∃ d rest, cs.dropWhile (!endsAuthority ·) = d :: rest ∧
      (cs ++ q).dropWhile (!endsAuthority ·) = d :: (rest ++ q) ∧
      ∃ c ∈ d :: rest, endsPath c = true := by
    have hne : cs.dropWhile (!endsAuthority ·) ≠ [] := by
      intro hnil
      have := List.dropWhile_eq_nil_iff.mp hnil c hc
      rw [endsAuthority_of_endsPath hends] at this
      cases this
    obtain ⟨d, rest, hd⟩ := List.exists_cons_of_ne_nil hne
    refine ⟨d, rest, hd, ?_, c, ?_, hends⟩
    · rw [List.dropWhile_append, hd, List.isEmpty_cons, if_neg Bool.false_ne_true]
      rfl
    · rw [← List.takeWhile_append_dropWhile (p := (!endsAuthority ·)) (l := cs), hd] at hc
      rcases List.mem_append.mp hc with hc | hc
      · have := List.mem_takeWhile_imp hc
        rw [endsAuthority_of_endsPath hends] at this
        cases this
      · exact hc
  obtain ⟨d, rest, hd, hd', c, hc, hends⟩ := hdrop
  have hskip : ∃ path, skipSlash (d :: rest) = path ∧ skipSlash (d :: (rest ++ q)) = path ++ q ∧
      ∃ c ∈ path, (!endsPath c) = false := by
    have hends' : (!endsPath c) = false := by rw [hends]; rfl
    by_cases hslash : isSlash d = true
    · rw [skipSlash_slash hslash, skipSlash_slash hslash]
      refine ⟨rest, rfl, rfl, c, ?_, hends'⟩
      rcases List.mem_cons.mp hc with rfl | hc
      · unfold isSlash at hslash
        unfold endsPath at hends
        simp only [Bool.or_eq_true, beq_iff_eq] at hslash hends
        rcases hslash with rfl | rfl <;> simp at hends
      · exact hc
    · rw [skipSlash_other hslash, skipSlash_other hslash]
      exact ⟨d :: rest, rfl, rfl, c, hc, hends'⟩
  obtain ⟨path, hpath, hpath', hmem⟩ := hskip
  unfold authority
  rw [takeWhile_append_of_mem hauth, hd, hd', hpath, hpath', Option.map_map, Option.map_map]
  refine congrArg (Option.map · _) (funext fun hp => ?_)
  show resolve [] (((path ++ q).takeWhile (!endsPath ·)).splitOnP isSlash) = _
  rw [takeWhile_append_of_mem hmem]
  rfl

theorem mem_cutPort {c : Char} {inside : Bool} (h : c ∈ cs) (hc : c ≠ ':') :
    c ∈ (cutPort inside cs).1 ∨ c ∈ (cutPort inside cs).2 := by
  fun_induction cutPort inside cs with
  | case1 => cases h
  | case2 cs ih =>
    rcases List.mem_cons.mp h with rfl | h
    · exact absurd rfl hc
    · exact (ih h).imp_left (List.mem_cons_of_mem _)
  | case3 inside cs hin =>
    rcases List.mem_cons.mp h with rfl | h
    · exact absurd rfl hc
    · exact .inr h
  | case4 inside d cs hd rest ih =>
    rcases List.mem_cons.mp h with rfl | h
    · exact .inl List.mem_cons_self
    · exact (ih h).imp_left (List.mem_cons_of_mem _)

/-- Controls or spaces at its end are in the host or the port. -/
theorem hostPort_blank (hlib : lib.Printable) (hz : z ≠ []) (hblank : ∀ c ∈ z, c0OrSpace c = true) :
    hostPort lib scheme (cs ++ z) = none := by
  have hnot : ∀ c, c0OrSpace c = true → c ≠ ':' ∧ (c != '@') = true ∧ ¬ '0' ≤ c := by
    intro c hc
    refine ⟨?_, ?_, ?_⟩
    · rintro rfl
      cases hc
    · rw [bne_iff_ne]
      rintro rfl
      cases hc
    · intro hle
      have hlow : c.toNat ≤ 0x20 := of_decide_eq_true hc
      have : 0x30 ≤ c.toNat := hle
      omega
  obtain ⟨c, hc⟩ := List.exists_mem_of_ne_nil z hz
  have hcblank := hblank c hc
  have hmem : c ∈ afterAt (cs ++ z) := by
    unfold afterAt List.rtakeWhile
    rw [List.reverse_append, List.takeWhile_append_of_pos, List.mem_reverse]
    · exact List.mem_append_left _ (List.mem_reverse.mpr hc)
    · intro d hd
      exact (hnot d (hblank d (List.mem_reverse.mp hd))).2.1
  unfold hostPort
  dsimp only
  split
  · rfl
  · rcases @mem_cutPort _ _ false hmem (hnot c hcblank).1 with hin | hin
    · rw [hlib _ ⟨c, hin, hcblank⟩]
      rfl
    · have hport : portOf scheme (cutPort false (afterAt (cs ++ z))).2 = none := by
        unfold portOf
        refine if_neg ?_
        intro hall
        have := List.all_eq_true.mp hall c hin
        rw [Bool.and_eq_true, decide_eq_true_eq] at this
        exact (hnot c hcblank).2.2 this.1
      rw [hport]
      cases lib.host (cutPort false (afterAt (cs ++ z))).1 <;> rfl

end Authority

/-! ## Schemes -/

/-- A URL's scheme, and what is behind the slashes after it. -/
def bodyOf (cs : List Char) : Option (WebScheme × List Char) :=
  (splitScheme cs).bind fun cut =>
  (WebScheme.find cut.1).map fun scheme => (scheme, cut.2.dropWhile isSlash)

section Body

variable {lib : Library} {scheme : WebScheme} {cs q r s : List Char} {u : WebUrl}

theorem parseClean_body (h : bodyOf cs = some (scheme, r)) :
    parseClean lib cs none = (authority lib scheme r).map .web := by
  obtain ⟨⟨s, rest⟩, hsplit, hbody⟩ := Option.bind_eq_some_iff.mp h
  obtain ⟨scheme', hfind, heq⟩ := Option.map_eq_some_iff.mp hbody
  obtain ⟨rfl, rfl⟩ := Prod.mk.inj heq
  unfold parseClean
  rw [hsplit]
  dsimp only
  rw [hfind]

theorem body_of_parse (h : parseClean lib cs none = some (.web u)) :
    ∃ scheme r, bodyOf cs = some (scheme, r) ∧ authority lib scheme r = some u := by
  unfold parseClean at h
  split at h
  next s rest hsplit =>
    split at h
    next =>
      obtain ⟨v, _, hv⟩ := Option.map_eq_some_iff.mp h
      cases hv
    next scheme hfind =>
      obtain ⟨v, hv, heq⟩ := Option.map_eq_some_iff.mp h
      obtain rfl := Parsed.web.inj heq
      refine ⟨scheme, rest.dropWhile isSlash, ?_, hv⟩
      unfold bodyOf
      rw [hsplit, Option.bind_some, hfind]
      rfl
  next => cases h

theorem schemeChar_alpha {c : Char} (h : c.isAlpha = true) : schemeChar c = true := by
  unfold schemeChar Char.isAlphanum
  rw [h]
  rfl

/-- A scheme ends at the first colon, if it begins with a letter and goes on like one. -/
theorem splitScheme_iff : splitScheme cs = some (s, r) ↔
    ∃ pre, cs = pre ++ ':' :: r ∧ (∃ c rest, pre = c :: rest ∧ c.isAlpha = true) ∧
      (∀ c ∈ pre, schemeChar c = true) ∧ s = pre.map Char.toLower := by
  constructor
  · intro h
    unfold splitScheme at h
    split at h
    · cases h
    next c rest =>
      split at h
      next halpha =>
        split at h
        next r' hd =>
          obtain ⟨rfl, rfl⟩ := Prod.mk.inj (Option.some.inj h)
          refine ⟨(c :: rest).takeWhile schemeChar, ?_, ?_, fun d hd' => List.mem_takeWhile_imp hd', rfl⟩
          · rw [← hd, List.takeWhile_append_dropWhile]
          · rw [List.takeWhile_cons_of_pos (schemeChar_alpha halpha)]
            exact ⟨c, _, rfl, halpha⟩
        · cases h
      · cases h
  · rintro ⟨pre, rfl, ⟨c, rest, rfl, halpha⟩, hall, rfl⟩
    have hcolon : ¬ schemeChar ':' = true := by decide
    show (if c.isAlpha = true then _ else none) = _
    rw [if_pos halpha, List.dropWhile_append_of_pos hall, List.takeWhile_append_of_pos hall,
      List.dropWhile_cons_of_neg hcolon, List.takeWhile_cons_of_neg hcolon, List.append_nil]
    rfl

theorem body_iff : bodyOf cs = some (scheme, r) ↔
    ∃ s rest, splitScheme cs = some (s, rest) ∧ WebScheme.find s = some scheme ∧
      rest.dropWhile isSlash = r := by
  unfold bodyOf
  rw [Option.bind_eq_some_iff]
  constructor
  · rintro ⟨⟨s, rest⟩, hsplit, hmap⟩
    obtain ⟨scheme', hfind, heq⟩ := Option.map_eq_some_iff.mp hmap
    obtain ⟨rfl, rfl⟩ := Prod.mk.inj heq
    exact ⟨s, rest, hsplit, hfind, rfl⟩
  · rintro ⟨s, rest, hsplit, hfind, rfl⟩
    refine ⟨(s, rest), hsplit, ?_⟩
    dsimp only
    rw [hfind]
    rfl

theorem bodyOf_append (h : bodyOf cs = some (scheme, r)) (hr : r ≠ []) :
    bodyOf (cs ++ q) = some (scheme, r ++ q) := by
  obtain ⟨s, rest, hsplit, hfind, rfl⟩ := body_iff.mp h
  obtain ⟨pre, rfl, hpre⟩ := splitScheme_iff.mp hsplit
  refine body_iff.mpr ⟨s, rest ++ q, splitScheme_iff.mpr ⟨pre, ?_, hpre⟩, hfind, ?_⟩
  · rw [List.append_assoc]
    rfl
  · rw [List.dropWhile_append, if_neg]
    rwa [List.isEmpty_iff]

/-- The other way, for a slash at the end. -/
theorem bodyOf_concat (h : bodyOf (cs ++ ['/']) = some (scheme, r)) (hr : r ≠ []) :
    ∃ r', r' ≠ [] ∧ r = r' ++ ['/'] ∧ bodyOf cs = some (scheme, r') := by
  obtain ⟨s, rest, hsplit, hfind, rfl⟩ := body_iff.mp h
  obtain ⟨pre, heq, hpre⟩ := splitScheme_iff.mp hsplit
  rcases rest.eq_nil_or_concat with rfl | ⟨init, last, rfl⟩
  · exact absurd rfl hr
  · rw [List.concat_eq_append] at heq hr ⊢
    have hcut : cs ++ ['/'] = (pre ++ ':' :: init) ++ [last] := by
      rw [heq, List.append_assoc]
      rfl
    obtain ⟨rfl, hlast⟩ := List.append_inj' hcut rfl
    obtain rfl := (List.cons.inj hlast).1
    have hne : init.dropWhile isSlash ≠ [] := by
      intro hnil
      refine hr ?_
      rw [List.dropWhile_append, hnil]
      rfl
    refine ⟨init.dropWhile isSlash, hne, ?_,
      body_iff.mpr ⟨s, init, splitScheme_iff.mpr ⟨pre, rfl, hpre⟩, hfind, rfl⟩⟩
    rw [List.dropWhile_append, if_neg]
    rwa [List.isEmpty_iff]

/-- The other way, for what is in no scheme and is no slash. -/
theorem body_of_append (h : bodyOf (cs ++ q) = some (scheme, r))
    (hq : ∀ c ∈ q, isSlash c = false ∧ c ≠ ':') : ∃ r', r = r' ++ q ∧ bodyOf cs = some (scheme, r') := by
  obtain ⟨s, rest, hsplit, hfind, rfl⟩ := body_iff.mp h
  obtain ⟨pre, heq, hpre⟩ := splitScheme_iff.mp hsplit
  have hcut : ∃ rest', rest = rest' ++ q ∧ cs = pre ++ ':' :: rest' := by
    rcases List.append_eq_append_iff.mp heq with ⟨mid, _, hq'⟩ | ⟨mid, hmid, hrest⟩
    · exact absurd rfl (hq ':' (hq' ▸ List.mem_append_right mid List.mem_cons_self)).2
    · cases mid with
      | nil =>
        rw [List.nil_append] at hrest
        exact absurd rfl (hq ':' (hrest ▸ List.mem_cons_self)).2
      | cons d mid =>
        obtain ⟨rfl, rfl⟩ := List.cons.inj hrest
        exact ⟨mid, rfl, hmid⟩
  obtain ⟨rest', rfl, rfl⟩ := hcut
  refine ⟨rest'.dropWhile isSlash, ?_,
    body_iff.mpr ⟨s, rest', splitScheme_iff.mpr ⟨pre, rfl, hpre⟩, hfind, rfl⟩⟩
  rw [List.dropWhile_append]
  split
  next hnil =>
    have hnone : ∀ c ∈ q, isSlash c = false := fun c hc => (hq c hc).1
    rw [List.isEmpty_iff.mp hnil, List.nil_append]
    cases q with
    | nil => rfl
    | cons c q =>
      refine List.dropWhile_cons_of_neg ?_
      rw [hnone c List.mem_cons_self]
      exact Bool.false_ne_true
  next => rfl

theorem mem_dropWhile {c : Char} {p : Char → Bool} (h : c ∈ cs) (hp : p c = false) : c ∈ cs.dropWhile p := by
  rw [← List.takeWhile_append_dropWhile (p := p) (l := cs)] at h
  rcases List.mem_append.mp h with h | h
  · rw [List.mem_takeWhile_imp h] at hp
    cases hp
  · exact h

/-- A character of neither a scheme nor slashes is in the one if it is in the other. -/
theorem mem_body {c : Char} (h : bodyOf cs = some (scheme, r)) (hc : endsPath c = true) :
    c ∈ cs ↔ c ∈ r := by
  obtain ⟨s, rest, hsplit, _, rfl⟩ := body_iff.mp h
  obtain ⟨pre, rfl, _, hall, _⟩ := splitScheme_iff.mp hsplit
  have hslash : isSlash c = false ∧ schemeChar c = false ∧ c ≠ ':' := by
    unfold endsPath at hc
    rw [Bool.or_eq_true, beq_iff_eq, beq_iff_eq] at hc
    rcases hc with rfl | rfl <;> decide
  constructor
  · intro hmem
    rcases List.mem_append.mp hmem with hmem | hmem
    · have := hall c hmem
      rw [hslash.2.1] at this
      cases this
    · rcases List.mem_cons.mp hmem with rfl | hmem
      · exact absurd rfl hslash.2.2
      · exact mem_dropWhile hmem hslash.1
  · intro hmem
    exact List.mem_append_right _ (List.mem_cons_of_mem _ ((List.dropWhile_suffix _).subset hmem))

theorem colon_of_body (h : bodyOf cs = some (scheme, r)) : ':' ∈ cs := by
  obtain ⟨s, rest, hsplit, _⟩ := body_iff.mp h
  obtain ⟨pre, rfl, _⟩ := splitScheme_iff.mp hsplit
  exact List.mem_append_right _ List.mem_cons_self

end Body

/-! ## Cleaning what goes on -/

/-- Cleaned at its beginning only. -/
def opened (cs : List Char) : List Char :=
  (cs.dropWhile c0OrSpace).filter fun c => !tabOrNewline c

/-- Controls and spaces at the end; tabs and newlines go in any case. -/
def trailing (cs : List Char) : List Char := (cs.rtakeWhile c0OrSpace).filter fun c => !tabOrNewline c

section Opened

variable {cs q : List Char} {c : Char}

theorem rtakeWhile_append {p : Char → Bool} {a b : List Char} (h : ∃ c ∈ b, p c = false) :
    (a ++ b).rtakeWhile p = b.rtakeWhile p := by
  obtain ⟨c, hc, hp⟩ := h
  unfold List.rtakeWhile
  rw [List.reverse_append, takeWhile_append_of_mem ⟨c, List.mem_reverse.mpr hc, hp⟩]

theorem mem_of_clean (h : c ∈ clean cs) : c ∈ cs :=
  (List.dropWhile_suffix _).subset (mem_cleanTail h)

theorem mem_opened (hc : c0OrSpace c = false) : c ∈ opened cs ↔ c ∈ cs := by
  unfold opened
  rw [List.mem_filter, tabOrNewline_of_not_c0 hc]
  constructor
  · intro h
    exact (List.dropWhile_suffix _).subset h.1
  · intro h
    exact ⟨mem_dropWhile h hc, rfl⟩

theorem opened_eq (h : ∃ c ∈ cs, c0OrSpace c = false) : opened cs = clean cs ++ trailing cs := by
  obtain ⟨c, hc, hp⟩ := h
  have htrail : (cs.dropWhile c0OrSpace).rtakeWhile c0OrSpace = cs.rtakeWhile c0OrSpace := by
    have := rtakeWhile_append (a := cs.takeWhile c0OrSpace) ⟨c, mem_dropWhile hc hp, hp⟩
    rw [List.takeWhile_append_dropWhile] at this
    exact this.symm
  unfold opened clean trailing
  rw [← htrail, ← List.filter_append, List.rdropWhile_append_rtakeWhile]

theorem clean_append (h : ∃ c ∈ cs, c0OrSpace c = false) (hne : q ≠ [])
    (hq : ∀ c ∈ q, c0OrSpace c = false) : clean (cs ++ q) = opened cs ++ q := by
  obtain ⟨c, hc, hp⟩ := h
  have hdrop : (cs ++ q).dropWhile c0OrSpace = cs.dropWhile c0OrSpace ++ q := by
    rw [List.dropWhile_append, if_neg]
    rw [List.isEmpty_iff]
    exact List.ne_nil_of_mem (mem_dropWhile hc hp)
  unfold clean opened
  rw [hdrop]
  exact cleanTail_append_right hne hq

theorem trailing_blank (h : c ∈ trailing cs) : c0OrSpace c = true ∧ tabOrNewline c = false := by
  unfold trailing at h
  rw [List.mem_filter, Bool.not_eq_true'] at h
  exact ⟨List.mem_rtakeWhile_imp h.1, h.2⟩

theorem trailing_eq_nil : trailing cs = [] ↔ ∀ c ∈ cs.rtakeWhile c0OrSpace, tabOrNewline c = true := by
  unfold trailing
  rw [List.filter_eq_nil_iff]
  refine forall₂_congr fun c _ => ?_
  rw [Bool.not_eq_true', Bool.not_eq_false]

end Opened

end Url

end Base
