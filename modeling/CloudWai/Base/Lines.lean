import CloudWai.Base.Utf8

/-!
# Lines, out of chunks

A text's lines are what is between its newlines, less those that are blank. Octets that come
in chunks are decoded and split chunk by chunk, and the lines of each chunk are recorded.

`recorded_iff` says when these are the lines of the whole: no character is cut in two, and
of the line that goes across a cut one part is empty, or both are blank. The reason is a
count. A cut through a line that is not blank on either side makes two lines of it, as a
cut through a character does, and nothing makes up for it later (`count_cut`); where no line
has become two, the recorded ones are shorter by what is blank next to a cut (`width_append`).
-/

namespace Base.Lines

open Utf8

def split (t : List Char) : List (List Char) := t.splitOn '\n'

/-- The line a text begins in. -/
def opens (t : List Char) : List Char := (split t).headD []

/-- The line a text ends in. -/
def ends (t : List Char) : List Char := (split t).getLastD []

theorem split_ne_nil (t : List Char) : split t ≠ [] := List.splitOn_ne_nil _ _

theorem split_newline (t : List Char) : split ('\n' :: t) = [] :: split t := by
  unfold split
  rw [List.splitOn, List.splitOnP_cons_eq_if_modifyHead]
  rfl

theorem split_cons {c : Char} (h : c ≠ '\n') (t : List Char) :
    split (c :: t) = (c :: opens t) :: (split t).tail := by
  have hne := split_ne_nil t
  have hcons : split (c :: t) = (split t).modifyHead (c :: ·) := by
    unfold split
    rw [List.splitOn, List.splitOnP_cons_eq_if_modifyHead, if_neg (by simpa using h)]
    rfl
  rw [hcons]
  unfold opens
  cases hs : split t with
  | nil => exact absurd hs hne
  | cons l ls => rfl

/-- The lines of two texts: the last of the one goes on as the first of the other. -/
theorem split_append (t u : List Char) :
    split (t ++ u) = (split t).dropLast ++ (ends t ++ opens u) :: (split u).tail := by
  induction t with
  | nil =>
    have hne := split_ne_nil u
    unfold opens
    cases hs : split u with
    | nil => exact absurd hs hne
    | cons l ls => exact hs
  | cons c t ih =>
    have hne := split_ne_nil t
    by_cases hc : c = '\n'
    · subst hc
      rw [List.cons_append, split_newline, ih]
      unfold ends
      rw [split_newline]
      cases hs : split t with
      | nil => exact absurd hs hne
      | cons l ls => rfl
    · have hopens : opens (t ++ u) = (split (t ++ u)).headD [] := rfl
      rw [List.cons_append, split_cons hc, hopens, ih]
      unfold ends
      rw [split_cons hc]
      unfold opens
      cases hs : split t with
      | nil => exact absurd hs hne
      | cons l ls => cases ls <;> rfl

theorem opens_append {t : List Char} (h : '\n' ∉ t) (u : List Char) :
    opens (t ++ u) = t ++ opens u ∧ (split (t ++ u)).tail = (split u).tail := by
  induction t with
  | nil => exact ⟨rfl, rfl⟩
  | cons c t ih =>
    obtain ⟨hc, ht⟩ := not_or.mp (mt List.mem_cons.mpr h)
    obtain ⟨hopens, htail⟩ := ih ht
    rw [List.cons_append]
    constructor
    · show (split (c :: (t ++ u))).headD [] = _
      rw [split_cons (Ne.symm hc), hopens]
      rfl
    · rw [split_cons (Ne.symm hc)]
      exact htail

/-! ## Lines that are not blank -/

section Blank

variable (space : Char → Bool)

def blank (l : List Char) : Bool := l.all space

/-- The lines of a text. -/
def lines (t : List Char) : List (List Char) := (split t).filter fun l => !blank space l

/-- One line, unless it is blank. -/
def keep (l : List Char) : List (List Char) := [l].filter fun l => !blank space l

/-- How many lines. -/
def count (t : List Char) : Nat := (lines space t).length

/-- How much of them. -/
def width (ls : List (List Char)) : Nat := (ls.map List.length).sum

variable {space} {t u e o : List Char}

@[simp] theorem blank_append : blank space (e ++ o) = (blank space e && blank space o) :=
  List.all_append

theorem keep_of_blank (h : blank space e = true) : keep space e = [] := by
  simp [keep, h]

theorem keep_of_not_blank (h : blank space e = false) : keep space e = [e] := by
  simp [keep, h]

/-- What is kept of a line in two parts, and of it as a whole. -/
theorem keep_cases (e o : List Char) :
    (blank space e = true ∧ blank space o = true ∧
      keep space e = [] ∧ keep space o = [] ∧ keep space (e ++ o) = []) ∨
    (blank space e = true ∧ blank space o = false ∧
      keep space e = [] ∧ keep space o = [o] ∧ keep space (e ++ o) = [e ++ o]) ∨
    (blank space e = false ∧ blank space o = true ∧
      keep space e = [e] ∧ keep space o = [] ∧ keep space (e ++ o) = [e ++ o]) ∨
    (blank space e = false ∧ blank space o = false ∧
      keep space e = [e] ∧ keep space o = [o] ∧ keep space (e ++ o) = [e ++ o]) := by
  cases he : blank space e <;> cases ho : blank space o <;>
    simp [keep, he, ho]

/-- The lines of a text but the one it ends in. -/
def before (space : Char → Bool) (t : List Char) : List (List Char) :=
  (split t).dropLast.filter fun l => !blank space l

/-- The lines of a text but the one it begins in. -/
def behind (space : Char → Bool) (t : List Char) : List (List Char) :=
  (split t).tail.filter fun l => !blank space l

theorem lines_opens (t : List Char) : lines space t = keep space (opens t) ++ behind space t := by
  have hne := split_ne_nil t
  unfold lines keep behind opens
  rw [← List.filter_append]
  cases hs : split t with
  | nil => exact absurd hs hne
  | cons l ls => rfl

theorem lines_ends (t : List Char) : lines space t = before space t ++ keep space (ends t) := by
  have hne := split_ne_nil t
  unfold lines keep before ends
  rw [← List.filter_append]
  congr 1
  rw [List.getLastD_eq_getLast?, List.getLast?_eq_some_getLast hne]
  exact (List.dropLast_append_getLast hne).symm

/-- The lines of two texts, one behind the other: one goes across. -/
theorem lines_append (t u : List Char) : lines space (t ++ u) =
    before space t ++ (keep space (ends t ++ opens u) ++ behind space u) := by
  unfold lines keep before behind
  rw [split_append, List.filter_append, ← List.singleton_append, List.filter_append]

/-- The line that goes across was blank before, or is behind. -/
def Apart (space : Char → Bool) (t u : List Char) : Prop :=
  blank space (ends t) = true ∨ blank space (opens u) = true

/-- One part of it is empty, or both are blank. -/
def Harmless (space : Char → Bool) (t u : List Char) : Prop :=
  ends t = [] ∨ opens u = [] ∨ blank space (ends t) = true ∧ blank space (opens u) = true

instance : Decidable (Harmless space t u) := inferInstanceAs (Decidable (_ ∨ _ ∨ _ ∧ _))

/-- Lines do not become fewer by being cut. -/
theorem count_append : count space (t ++ u) ≤ count space t + count space u ∧
    (count space (t ++ u) = count space t + count space u → Apart space t u) := by
  unfold count Apart
  rw [lines_append, lines_ends t, lines_opens u]
  simp only [List.length_append]
  rcases @keep_cases space (ends t) (opens u) with ⟨he, ho, hke, hko, hk⟩ | ⟨he, ho, hke, hko, hk⟩ |
    ⟨he, ho, hke, hko, hk⟩ | ⟨he, ho, hke, hko, hk⟩ <;> rw [hke, hko, hk]
  · exact ⟨by omega, fun _ => .inl he⟩
  · exact ⟨by simp, fun _ => .inl he⟩
  · exact ⟨by simp; omega, fun _ => .inr ho⟩
  · exact ⟨by simp, fun h => by simp at h⟩

theorem width_lines_append (ls ms : List (List Char)) :
    width (ls ++ ms) = width ls + width ms := by
  unfold width
  rw [List.map_append, List.sum_append]

theorem width_nil : width [] = 0 := rfl

theorem width_singleton (l : List Char) : width [l] = l.length := Nat.add_zero _

/-- Where none has become two, they become no longer by being put together but by what is
blank next to the cut. -/
theorem width_append (h : Apart space t u) :
    width (lines space t) + width (lines space u) ≤ width (lines space (t ++ u)) ∧
    (width (lines space t) + width (lines space u) = width (lines space (t ++ u)) →
      Harmless space t u) := by
  unfold Harmless
  rw [lines_append, lines_ends t, lines_opens u]
  simp only [width_lines_append]
  rcases @keep_cases space (ends t) (opens u) with ⟨he, ho, hke, hko, hk⟩ | ⟨he, ho, hke, hko, hk⟩ |
    ⟨he, ho, hke, hko, hk⟩ | ⟨he, ho, hke, hko, hk⟩ <;> rw [hke, hko, hk]
  · rw [width_nil]
    exact ⟨by omega, fun _ => .inr (.inr ⟨he, ho⟩)⟩
  · simp only [width_singleton, List.length_append]
    rw [width_nil]
    exact ⟨by omega, fun h => .inl (List.eq_nil_of_length_eq_zero (by omega))⟩
  · simp only [width_singleton, List.length_append]
    rw [width_nil]
    exact ⟨by omega, fun h => .inr (.inl (List.eq_nil_of_length_eq_zero (by omega)))⟩
  · rcases h with h | h
    · rw [he] at h
      cases h
    · rw [ho] at h
      cases h

/-- A cut that does no harm. -/
theorem lines_append_of_harmless (h : Harmless space t u) :
    lines space (t ++ u) = lines space t ++ lines space u := by
  rw [lines_append, lines_ends t, lines_opens u, List.append_assoc,
    ← List.append_assoc (keep space (ends t))]
  congr 2
  rcases h with h | h | ⟨he, ho⟩
  · rw [h]
    rfl
  · rw [h, List.append_nil]
    exact (List.append_nil _).symm
  · rw [keep_of_blank he, keep_of_blank ho, keep_of_blank (by rw [blank_append, he, ho]; rfl)]
    rfl

/-! ## Chunks -/

/-- Two replacement characters for one character make two lines of its line. -/
theorem count_torn {c : Char} {n : Nat} {v : List Char} (hspace : space replacement = false)
    (hc : c ≠ '\n') : count space (t ++ c :: v) <
      count space (t ++ [replacement]) +
        count space (List.replicate (n + 1) replacement ++ v) := by
  have hnotin : '\n' ∉ List.replicate (n + 1) replacement := by
    intro hmem
    exact absurd (List.eq_of_mem_replicate hmem) (by decide)
  obtain ⟨hopens, htail⟩ := opens_append hnotin v
  have hleft : lines space (t ++ [replacement]) = before space t ++ [ends t ++ [replacement]] := by
    rw [lines_append, show opens [replacement] = [replacement] by decide,
      keep_of_not_blank (by simp [blank, hspace])]
    rfl
  have hright : lines space (List.replicate (n + 1) replacement ++ v) =
      (List.replicate (n + 1) replacement ++ opens v) :: behind space v := by
    rw [lines_opens, hopens, keep_of_not_blank (by simp [blank, hspace])]
    unfold behind
    rw [htail]
    rfl
  have hwhole : lines space (t ++ c :: v) =
      before space t ++ (keep space (ends t ++ opens (c :: v)) ++ behind space v) := by
    rw [lines_append]
    unfold behind
    rw [split_cons hc]
    rfl
  have hone : (keep space (ends t ++ opens (c :: v))).length ≤ 1 := List.length_filter_le _ _
  unfold count
  rw [hleft, hright, hwhole]
  simp only [List.length_append, List.length_cons, List.length_nil]
  omega

/-- **A cut through octets** does not make lines fewer. If it makes none more, it is between
two characters, and not through a line. -/
theorem count_cut (hspace : space replacement = false) (a b : List UInt8) :
    count space (decode (a ++ b)) ≤ count space (decode a) + count space (decode b) ∧
    (count space (decode (a ++ b)) = count space (decode a) + count space (decode b) →
      decode (a ++ b) = decode a ++ decode b ∧ Apart space (decode a) (decode b)) := by
  rcases decode_cut a b with hclean | ⟨u, c, n, v, hc, hab, ha, hb⟩
  · rw [hclean]
    obtain ⟨hle, hapart⟩ := @count_append space (decode a) (decode b)
    exact ⟨hle, fun h => ⟨rfl, hapart h⟩⟩
  · rw [hab, ha, hb]
    have hlt := @count_torn space u c n v hspace hc
    exact ⟨Nat.le_of_lt hlt, fun h => absurd h (Nat.ne_of_lt hlt)⟩

variable (space)

/-- The lines of each chunk. -/
def recorded (cs : List (List UInt8)) : List (List Char) :=
  cs.flatMap fun c => lines space (decode c)

/-- Each chunk is cut off from what is behind it where `R` allows it. -/
def EachCut (R : List UInt8 → List UInt8 → Prop) : List (List UInt8) → Prop
  | [] => True
  | c :: cs => R c cs.flatten ∧ EachCut R cs

/-- **The condition** on a cut: it is between two characters, and does no harm. -/
def CutsLine (a b : List UInt8) : Prop :=
  decode (a ++ b) = decode a ++ decode b ∧ Harmless space (decode a) (decode b)

instance (a b : List UInt8) : Decidable (CutsLine space a b) := inferInstanceAs (Decidable (_ ∧ _))

variable {space} {cs : List (List UInt8)}

theorem count_recorded (hspace : space replacement = false) :
    count space (decode cs.flatten) ≤ (recorded space cs).length ∧
    (count space (decode cs.flatten) = (recorded space cs).length →
      EachCut (fun a b => decode (a ++ b) = decode a ++ decode b ∧
        Apart space (decode a) (decode b)) cs) := by
  induction cs with
  | nil => exact ⟨Nat.zero_le _, fun _ => trivial⟩
  | cons c cs ih =>
    obtain ⟨hle, hcuts⟩ := ih
    obtain ⟨hle', hcut⟩ := count_cut hspace c cs.flatten
    have hlength : (recorded space (c :: cs)).length =
        count space (decode c) + (recorded space cs).length := List.length_append
    rw [List.flatten_cons, hlength]
    exact ⟨by omega, fun h => ⟨hcut (by omega), hcuts (by omega)⟩⟩

theorem width_recorded (h : EachCut (fun a b => decode (a ++ b) = decode a ++ decode b ∧
      Apart space (decode a) (decode b)) cs) :
    width (recorded space cs) ≤ width (lines space (decode cs.flatten)) ∧
    (width (recorded space cs) = width (lines space (decode cs.flatten)) →
      EachCut (CutsLine space) cs) := by
  induction cs with
  | nil => exact ⟨Nat.zero_le _, fun _ => trivial⟩
  | cons c cs ih =>
    obtain ⟨⟨hclean, hapart⟩, hrest⟩ := h
    obtain ⟨hle, hcuts⟩ := ih hrest
    obtain ⟨hle', hcut⟩ := width_append hapart
    have hwidth : width (recorded space (c :: cs)) =
        width (lines space (decode c)) + width (recorded space cs) := width_lines_append _ _
    rw [List.flatten_cons, hclean, hwidth]
    exact ⟨by omega, fun h => ⟨⟨hclean, hcut (by omega)⟩, hcuts (by omega)⟩⟩

theorem recorded_of_cuts (h : EachCut (CutsLine space) cs) :
    recorded space cs = lines space (decode cs.flatten) := by
  induction cs with
  | nil => rfl
  | cons c cs ih =>
    obtain ⟨⟨hclean, hharmless⟩, hrest⟩ := h
    rw [List.flatten_cons, hclean, lines_append_of_harmless hharmless, ← ih hrest]
    rfl

end Blank

/-! ## Two streams -/

/-- One list, out of the elements of two, each in its order. -/
inductive Merge {α : Type} : List α → List α → List α → Prop
  | nil : Merge [] [] []
  | left (a : α) {l r m : List α} : Merge l r m → Merge (a :: l) r (a :: m)
  | right (a : α) {l r m : List α} : Merge l r m → Merge l (a :: r) (a :: m)

section Merging

variable {α : Type} {l r m : List α}

theorem Merge.append_left (h : Merge l r m) (x : List α) : Merge (x ++ l) r (x ++ m) := by
  induction x with
  | nil => exact h
  | cons a x ih => exact .left a ih

theorem Merge.append_right (h : Merge l r m) (x : List α) : Merge l (x ++ r) (x ++ m) := by
  induction x with
  | nil => exact h
  | cons a x ih => exact .right a ih

theorem Merge.map {β : Type} (f : α → β) (h : Merge l r m) : Merge (l.map f) (r.map f) (m.map f) := by
  induction h with
  | nil => exact .nil
  | left a h ih => exact .left (f a) ih
  | right a h ih => exact .right (f a) ih

/-- A change that can be taken back. -/
theorem merge_map_iff {β : Type} {f : α → β} {g : β → α} (hg : ∀ a, g (f a) = a) :
    Merge (l.map f) (r.map f) (m.map f) ↔ Merge l r m := by
  refine ⟨fun h => ?_, Merge.map f⟩
  have hid (x : List α) : (x.map f).map g = x := by
    rw [List.map_map]
    exact (List.map_congr_left fun a _ => hg a).trans (List.map_id x)
  have hback := h.map g
  rwa [hid, hid, hid] at hback

theorem Merge.length (h : Merge l r m) : m.length = l.length + r.length := by
  induction h with
  | nil => rfl
  | left a h ih =>
    simp only [List.length_cons]
    omega
  | right a h ih =>
    simp only [List.length_cons]
    omega

theorem Merge.width {l r m : List (List Char)} (h : Merge l r m) :
    width m = width l + width r := by
  induction h with
  | nil => rfl
  | left a h ih =>
    unfold Lines.width at *
    simp only [List.map_cons, List.sum_cons]
    omega
  | right a h ih =>
    unfold Lines.width at *
    simp only [List.map_cons, List.sum_cons]
    omega

/-- **Lines out of chunks** of two streams are the lines of the streams, in some order of
one and the other, exactly if each stream is cut only where it does no harm. -/
theorem recorded_iff {space : Char → Bool} (hspace : space replacement = false)
    {ls rs : List (List UInt8)} {m : List (List Char)}
    (h : Merge (recorded space ls) (recorded space rs) m) :
    Merge (lines space (decode ls.flatten)) (lines space (decode rs.flatten)) m ↔
      EachCut (CutsLine space) ls ∧ EachCut (CutsLine space) rs := by
  constructor
  · intro hlines
    obtain ⟨hcl, hcutsl⟩ := @count_recorded space ls hspace
    obtain ⟨hcr, hcutsr⟩ := @count_recorded space rs hspace
    have hcount := h.length
    have hcount' := hlines.length
    unfold count at hcl hcutsl hcr hcutsr
    obtain ⟨hwl, hl⟩ := width_recorded (hcutsl (by omega))
    obtain ⟨hwr, hr⟩ := width_recorded (hcutsr (by omega))
    have hwidth := h.width
    have hwidth' := hlines.width
    exact ⟨hl (by omega), hr (by omega)⟩
  · intro hcuts
    rwa [recorded_of_cuts hcuts.1, recorded_of_cuts hcuts.2] at h

end Merging

end Base.Lines
