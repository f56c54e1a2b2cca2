import CloudWai.StateFile.Saves

/-!
# Which text the state file holds

A text lands in the state file when a temporary file that has it is renamed, or when the
state file is opened to be written over. `Orderly` is what has to be so for the last text
that was made to be the one that is found in the end, and for a crash to leave a whole text:
two saves do not draw one name, an older text does not land after the last one, the last one
is not given up, and the state file is not written over by two at once, nor when the process
stops.

The invariant says, of each save, what its file holds (`Held`), and of the last text, that it
has landed or is on its way (`coming`).

About the routines of `infra/deployment`, as `Saves.lean` has them.
-/

namespace CloudWai.StateFile

open Base

variable {V : Type}

/-! ## The property -/

/-- A flush is due that has not been called. -/
def Pending (e : Engine) (s : System V) : Prop := e.flagged = true ∧ s.dirty = true

/-- **When all saves have completed**, a flush is pending, or the file has the text that was
made last, and this is the memory's unless it has changed since. -/
def Current (e : Engine) (f : Format V) (s : System V) : Prop :=
  s.called = true → (∀ q ∈ s.saves, ¬ q.Live) → Pending e s ∨
    ∃ v, s.taken.getLast? = some v ∧ s.disk.read .state = some (f.stringify v) ∧
      (s.dirty = false → v = s.memory)

/-- The file is as it was found in the beginning, or has a whole text of a state. -/
def Whole (f : Format V) (found : Option (List UInt8)) (s : System V) : Prop :=
  s.disk.read .state = found ∨ ∃ v ∈ s.taken, s.disk.read .state = some (f.stringify v)

/-- **When the process stops**, it leaves a whole file. -/
def Survives (f : Format V) (found : Option (List UInt8)) (s : System V) : Event V → Prop
  | .restart _ => Whole f found s
  | _ => True

/-! ## The condition -/

/-- The node of the state file, as it was when this save opened it to write over it. -/
def Save.overwriting (q : Save) : Option Nat :=
  match q.script, q.file with
  | .writeFile .state _ _, some (node, _) => some node
  | _, _ => none

/-- It is writing over the state file. -/
def Overwrites (d : Disk Name) (q : Save) : Prop := q.overwriting ≠ none ∧ d.names .state = q.overwriting

/-- Its text may land: a later one has not, or is to come. -/
def Due (e : Engine) (s : System V) (q : Save) : Prop :=
  Pending e s ∨ q.turn + 1 = s.taken.length ∨ s.landed.map (· + 1) ≠ some s.taken.length

/-- Its text is not needed. -/
def Spared (e : Engine) (s : System V) (q : Save) : Prop :=
  Pending e s ∨ q.turn + 1 ≠ s.taken.length

/-- The condition of one step of a save. -/
def Proceeds (e : Engine) (s : System V) (q : Save) (answer : Answer) : Prop :=
  match q.script, q.file, answer with
  | .writeFile .state _ _, none, .opened => Due e s q ∧ ∀ p ∈ s.saves, ¬ Overwrites s.disk p
  | .rename _ _, _, .done => Due e s q
  | .writeFile .state _ _, some _, .failed => ¬ Overwrites s.disk q
  | .writeFile _ _ failed, _, .failed | .rename _ failed, _, .failed =>
    failed.hopeful = true ∨ Spared e s q
  | _, _, _ => True

/-- **The condition** on an event. -/
def Orderly (e : Engine) (s : System V) : Event V → Prop
  | .change _ => True
  | .save suffix => ∀ q ∈ s.saves, q.Live → q.suffix ≠ suffix
  | .resume n answer => ∀ q ∈ s.saves[n]?, Proceeds e s q answer
  | .restart _ => ∀ q ∈ s.saves, ¬ Overwrites s.disk q

section Deciding

variable (e : Engine) (s : System V) (q : Save)

instance : Decidable (Pending e s) := inferInstanceAs (Decidable (_ ∧ _))

instance (d : Disk Name) : Decidable (Overwrites d q) := inferInstanceAs (Decidable (_ ∧ _))

instance : Decidable (Due e s q) := inferInstanceAs (Decidable (_ ∨ _ ∨ _))

instance : Decidable (Spared e s q) := inferInstanceAs (Decidable (_ ∨ _))

instance (answer : Answer) : Decidable (Proceeds e s q answer) := by
  unfold Proceeds
  split <;> infer_instance

instance (x : Event V) : Decidable (Orderly e s x) := by
  unfold Orderly
  split <;> infer_instance

end Deciding

/-! ## The invariant -/

/-- Its text is yet to land. -/
def Ahead (q : Save) : Prop :=
  match q.script, q.file with
  | .writeFile .state _ _, some _ => False
  | script, _ => script.hopeful = true

/-- The last text has landed. -/
def System.Landed (s : System V) : Prop := s.landed.map (· + 1) = some s.taken.length

/-- What the file of a save holds. -/
def Held (s : System V) (q : Save) : Prop :=
  match q.script, q.file with
  | .writeFile .temporary _ _, some (node, offset) =>
    s.disk.names (q.name .temporary) = some node ∧ s.disk.data node = q.text.take offset ∧
      offset ≤ q.text.length
  | .writeFile .state _ _, some (node, offset) =>
    node < s.disk.fresh ∧ (∀ m, s.disk.names (.temporary m) ≠ some node) ∧
      (s.disk.names .state = some node →
        s.disk.data node = q.text.take offset ∧ offset ≤ q.text.length ∧ s.landed = some q.turn)
  | .rename _ _, _ =>
    ∃ node, s.disk.names (q.name .temporary) = some node ∧ s.disk.data node = q.text
  | _, _ => True

/-- The last text has landed or is on its way, or another is to come. -/
def Coming (e : Engine) (s : System V) : Prop :=
  Pending e s ∨ s.Landed ∨ ∃ q ∈ s.saves, Ahead q ∧ q.turn + 1 = s.taken.length

/-- What the state file holds, if nobody writes over it. -/
def Content (f : Format V) (found : Option (List UInt8)) (s : System V) : Prop :=
  match s.landed with
  | none => s.disk.read .state = found
  | some t => ∃ v, s.taken[t]? = some v ∧ s.disk.read .state = some (f.stringify v)

/-- What every run keeps of the saves on their way. -/
structure Inv (e : Engine) (f : Format V) (found : Option (List UInt8)) (s : System V) :
    Prop where
  apart : ∀ (n m : Nat) (q p : Save), s.saves[n]? = some q → s.saves[m]? = some p →
    q.Live → p.Live → q.suffix = p.suffix → n = m
  sound : ∀ q ∈ s.saves, q.script.Sound true
  held : ∀ q ∈ s.saves, Held s q
  text : ∀ q ∈ s.saves, ∃ v, s.taken[q.turn]? = some v ∧ q.text = f.stringify v
  single : ∀ (n m : Nat) (q p : Save), s.saves[n]? = some q → s.saves[m]? = some p →
    Overwrites s.disk q → Overwrites s.disk p → n = m
  whole : (∀ q ∈ s.saves, ¬ Overwrites s.disk q) → Content f found s
  coming : s.called = true → Coming e s
  recent : s.called = true → s.taken ≠ [] ∧ (s.dirty = false → s.taken.getLast? = some s.memory)

/-- At rest the property follows. -/
theorem current_of_inv {e : Engine} {f : Format V} {found : Option (List UInt8)} {s : System V}
    (h : Inv e f found s) : Current e f s := by
  intro hcalled hrest
  -- a save that is written over the state file is not at rest
  have hover : ∀ q ∈ s.saves, ¬ Overwrites s.disk q := by
    rintro q hq ⟨hopen, _⟩
    refine hopen ?_
    unfold Save.overwriting
    split
    next hscript _ => exact absurd ⟨by rw [hscript]; nofun, by rw [hscript]; nofun⟩ (hrest q hq)
    · rfl
  obtain ⟨hne, hmemory⟩ := h.recent hcalled
  rcases h.coming hcalled with hpending | hlanded | ⟨q, hq, hahead, _⟩
  · exact .inl hpending
  -- the last text has landed, and nobody writes over it
  · have hcontent := h.whole hover
    unfold System.Landed at hlanded
    unfold Content at hcontent
    cases ht : s.landed with
    | none => rw [ht] at hlanded; exact absurd hlanded nofun
    | some t =>
      rw [ht] at hlanded hcontent
      obtain ⟨v, hv, hread⟩ := hcontent
      have hlast : s.taken.getLast? = some v := by
        rw [List.getLast?_eq_getElem?, ← hv, ← Option.some.inj hlanded]
        rfl
      exact .inr ⟨v, hlast, hread, fun hclean =>
        Option.some.inj (hlast.symm.trans (hmemory hclean))⟩
  -- or a save is ahead, and then it is not at rest
  · refine absurd ⟨?_, ?_⟩ (hrest q hq)
    all_goals
      intro hscript
      unfold Ahead at hahead
      rw [hscript] at hahead
      exact absurd hahead nofun

theorem survives_of_inv {e : Engine} {f : Format V} {found : Option (List UInt8)} {s : System V}
    (h : Inv e f found s) (x : Event V) (hx : Orderly e s x) : Survives f found s x := by
  cases x with
  | restart gone =>
    have hcontent := h.whole hx
    unfold Content at hcontent
    show Whole f found s
    split at hcontent
    · exact .inl hcontent
    · obtain ⟨v, hv, hread⟩ := hcontent
      exact .inr ⟨v, List.mem_of_getElem? hv, hread⟩
  | change _ => trivial
  | save _ => trivial
  | resume _ _ => trivial

/-! ## What a step leaves alone -/

/-- From `s` to `s'`, save `n` has become `q`, and what the files of the others hold is as it
was. -/
structure Frame (s s' : System V) (n : Nat) (q : Save) : Prop where
  here : s'.saves[n]? = some q
  there : ∀ m, m ≠ n → s'.saves[m]? = s.saves[m]?
  apart : ∀ m p, m ≠ n → s.saves[m]? = some p → p.Live → p.suffix ≠ q.suffix
  taken : s.taken <+: s'.taken
  fresh : s.disk.fresh ≤ s'.disk.fresh
  files : ∀ k, k ≠ q.suffix → ∀ node, s.disk.names (.temporary k) = some node →
    s'.disk.names (.temporary k) = some node ∧ s'.disk.data node = s.disk.data node
  nameless : ∀ node < s.disk.fresh, (∀ k, s.disk.names (.temporary k) ≠ some node) →
    ∀ k, s'.disk.names (.temporary k) ≠ some node
  overwritten : ∀ m p node, m ≠ n → s.saves[m]? = some p → p.overwriting = some node →
    s'.disk.names .state = some node → s.disk.names .state = some node ∧
      s'.disk.data node = s.disk.data node ∧ s'.landed = s.landed

section Steps

variable {e : Engine} {f : Format V} {found : Option (List UInt8)} {s s' : System V}
  {q q' p : Save} {n m : Nat}

theorem live_of_script {script : Script} (h : q.script = script) (hreturns : script ≠ .returns)
    (hthrows : script ≠ .throws) : q.Live := ⟨h ▸ hreturns, h ▸ hthrows⟩

/-- The other saves hold what they held. -/
theorem held_other (hframe : Frame s s' n q') (hm : m ≠ n) (hp : s.saves[m]? = some p)
    (h : Held s p) : Held s' p := by
  unfold Held at h ⊢
  split at h
  next node offset hscript hfile =>
    obtain ⟨hname, hdata, hle⟩ := h
    have hlive : p.Live := live_of_script hscript nofun nofun
    obtain ⟨hname', hdata'⟩ := hframe.files _ (hframe.apart m p hm hp hlive) node hname
    exact ⟨hname', hdata'.trans hdata, hle⟩
  next node offset hscript hfile =>
    obtain ⟨hfresh, hnames, hover⟩ := h
    refine ⟨Nat.lt_of_lt_of_le hfresh hframe.fresh, hframe.nameless node hfresh hnames,
      fun hstate => ?_⟩
    have hopen : p.overwriting = some node := by
      unfold Save.overwriting
      rw [hscript, hfile]
    obtain ⟨hold, hdata, hlanded⟩ := hframe.overwritten m p node hm hp hopen hstate
    rw [hdata, hlanded]
    exact hover hold
  next hscript =>
    obtain ⟨node, hname, hdata⟩ := h
    have hlive : p.Live := live_of_script hscript nofun nofun
    obtain ⟨hname', hdata'⟩ := hframe.files _ (hframe.apart m p hm hp hlive) node hname
    exact ⟨node, hname', hdata'.trans hdata⟩
  · trivial

/-- And write over the state file only if they did. -/
theorem overwrites_other (hframe : Frame s s' n q') (hm : m ≠ n) (hp : s.saves[m]? = some p)
    (h : Overwrites s'.disk p) : Overwrites s.disk p := by
  obtain ⟨hopen, hname⟩ := h
  obtain ⟨node, hnode⟩ := Option.ne_none_iff_exists'.mp hopen
  refine ⟨hopen, ?_⟩
  rw [hnode] at hname ⊢
  exact (hframe.overwritten m p node hm hp hnode hname).1

/-- **What a step of one save has to keep.** -/
theorem inv_of_frame (h : Inv e f found s) (hframe : Frame s s' n q') (hsound : q'.script.Sound true)
    (hheld : Held s' q') (htext : ∃ v, s'.taken[q'.turn]? = some v ∧ q'.text = f.stringify v)
    (hsingle : Overwrites s'.disk q' →
      ∀ m p, m ≠ n → s.saves[m]? = some p → ¬ Overwrites s.disk p)
    (hwhole : (∀ p ∈ s'.saves, ¬ Overwrites s'.disk p) → Content f found s')
    (hcoming : s'.called = true → Coming e s')
    (hrecent : s'.called = true →
      s'.taken ≠ [] ∧ (s'.dirty = false → s'.taken.getLast? = some s'.memory)) :
    Inv e f found s' := by
  -- a save afterwards is the one that moved, or one that was there
  have hcases : ∀ m p, s'.saves[m]? = some p →
      (m = n ∧ p = q') ∨ (m ≠ n ∧ s.saves[m]? = some p) := by
    intro m p hp
    by_cases hm : m = n
    · subst hm
      exact .inl ⟨rfl, Option.some.inj (hp.symm.trans hframe.here)⟩
    · exact .inr ⟨hm, (hframe.there m hm).symm.trans hp⟩
  refine ⟨?_, ?_, ?_, ?_, ?_, hwhole, hcoming, hrecent⟩
  · intro k m q p hq hp hlive hlive' heq
    rcases hcases k q hq with ⟨rfl, rfl⟩ | ⟨hk, hq⟩ <;> rcases hcases m p hp with ⟨rfl, rfl⟩ | ⟨hm, hp⟩
    · rfl
    · exact absurd heq.symm (hframe.apart m p hm hp hlive')
    · exact absurd heq (hframe.apart k q hk hq hlive)
    · exact h.apart k m q p hq hp hlive hlive' heq
  · intro p hp
    obtain ⟨m, hp⟩ := List.mem_iff_getElem?.mp hp
    rcases hcases m p hp with ⟨rfl, rfl⟩ | ⟨_, hp⟩
    · exact hsound
    · exact h.sound p (List.mem_of_getElem? hp)
  · intro p hp
    obtain ⟨m, hp⟩ := List.mem_iff_getElem?.mp hp
    rcases hcases m p hp with ⟨rfl, rfl⟩ | ⟨hm, hp⟩
    · exact hheld
    · exact held_other hframe hm hp (h.held p (List.mem_of_getElem? hp))
  · intro p hp
    obtain ⟨m, hp⟩ := List.mem_iff_getElem?.mp hp
    rcases hcases m p hp with ⟨rfl, rfl⟩ | ⟨_, hp⟩
    · exact htext
    -- a text made before is made still, at its place
    · obtain ⟨v, hv, heq⟩ := h.text p (List.mem_of_getElem? hp)
      obtain ⟨more, hmore⟩ := hframe.taken
      obtain ⟨hlt, _⟩ := List.getElem?_eq_some_iff.mp hv
      exact ⟨v, by rw [← hmore, List.getElem?_append_left hlt, hv], heq⟩
  · intro k m q p hq hp hover hover'
    rcases hcases k q hq with ⟨rfl, rfl⟩ | ⟨hk, hq⟩ <;> rcases hcases m p hp with ⟨rfl, rfl⟩ | ⟨hm, hp⟩
    · rfl
    -- two that write over the state file: one of them is the one that moved
    · exact absurd (overwrites_other hframe hm hp hover') (hsingle hover m p hm hp)
    · exact absurd (overwrites_other hframe hk hq hover) (hsingle hover' k q hk hq)
    · exact h.single k m q p hq hp (overwrites_other hframe hk hq hover)
        (overwrites_other hframe hm hp hover')

/-! ## The file system -/

/-- A save that writes over the state file has a node that no temporary file has. -/
theorem over_node (h : Inv e f found s) (hp : s.saves[m]? = some p) {node : Nat}
    (hopen : p.overwriting = some node) :
    node < s.disk.fresh ∧ ∀ k, s.disk.names (.temporary k) ≠ some node := by
  have hheld := h.held p (List.mem_of_getElem? hp)
  unfold Held at hheld
  unfold Save.overwriting at hopen
  split at hopen
  next hscript hfile =>
    rw [hscript, hfile] at hheld
    obtain rfl := Option.some.inj hopen
    exact ⟨hheld.1, hheld.2.1⟩
  · cases hopen

theorem coming_same {d : Disk Name} (hq : s.saves[n]? = some q) (h : Coming e s)
    (hahead : Ahead q → Ahead q') (hturn : q'.turn = q.turn) :
    Coming e { s with disk := d, saves := s.saves.set n q' } := by
  obtain ⟨hlt, _⟩ := List.getElem?_eq_some_iff.mp hq
  rcases h with hpending | hlanded | ⟨p, hp, hp', hlast⟩
  · exact .inl hpending
  · exact .inr (.inl hlanded)
  · obtain ⟨m, hp⟩ := List.mem_iff_getElem?.mp hp
    by_cases hm : n = m
    · subst hm
      obtain rfl := Option.some.inj (hq.symm.trans hp)
      exact .inr (.inr ⟨q', List.mem_of_getElem? (List.getElem?_set_self hlt), hahead hp',
        hturn ▸ hlast⟩)
    · exact .inr (.inr ⟨p, List.mem_of_getElem? ((List.getElem?_set_ne hm).trans hp), hp', hlast⟩)

/-- A text lands. -/
theorem coming_due {d : Disk Name} (hq : s.saves[n]? = some q) (h : Coming e s)
    (hdue : Due e s q) :
    Coming e { s with disk := d, landed := some q.turn, saves := s.saves.set n q' } := by
  rcases hdue with hpending | hlast | hnot
  · exact .inl hpending
  · exact .inr (.inl (congrArg some hlast))
  rcases h with hpending | hlanded | ⟨p, hp, hahead, hlast⟩
  · exact .inl hpending
  · exact absurd hlanded hnot
  · obtain ⟨m, hp⟩ := List.mem_iff_getElem?.mp hp
    by_cases hm : n = m
    · subst hm
      obtain rfl := Option.some.inj (hq.symm.trans hp)
      exact .inr (.inl (congrArg some hlast))
    · exact .inr (.inr ⟨p, List.mem_of_getElem? ((List.getElem?_set_ne hm).trans hp), hahead,
        hlast⟩)

/-- The state file is as it was. -/
theorem whole_same {d : Disk Name} (h : Inv e f found s) (hq : s.saves[n]? = some q)
    (hnames : d.names .state = s.disk.names .state) (hread : d.read .state = s.disk.read .state)
    (hover : q'.overwriting = q.overwriting)
    (hnone : ∀ p ∈ s.saves.set n q', ¬ Overwrites d p) :
    Content f found { s with disk := d, saves := s.saves.set n q' } := by
  obtain ⟨hlt, _⟩ := List.getElem?_eq_some_iff.mp hq
  have hcontent : Content f found s := by
    refine h.whole fun p hp hp' => ?_
    obtain ⟨m, hp⟩ := List.mem_iff_getElem?.mp hp
    by_cases hm : n = m
    · subst hm
      obtain rfl := Option.some.inj (hq.symm.trans hp)
      refine hnone q' (List.mem_of_getElem? (List.getElem?_set_self hlt)) ⟨?_, ?_⟩
      · rw [hover]; exact hp'.1
      · rw [hover, hnames]; exact hp'.2
    · refine hnone p (List.mem_of_getElem? ((List.getElem?_set_ne hm).trans hp)) ⟨hp'.1, ?_⟩
      rw [hnames]
      exact hp'.2
  unfold Content at hcontent ⊢
  dsimp only
  rw [hread]
  exact hcontent

/-- A call to the file system by save `n`. -/
theorem inv_disk {d : Disk Name} {landed : Option Nat} (h : Inv e f found s)
    (hq : s.saves[n]? = some q) (hlive : q.Live)
    (hsame : q'.suffix = q.suffix ∧ q'.turn = q.turn ∧ q'.text = q.text)
    (hsound : q'.script.Sound true)
    (hheld : Held { s with disk := d, landed := landed, saves := s.saves.set n q' } q')
    (hfresh : s.disk.fresh ≤ d.fresh)
    (hfiles : ∀ k, k ≠ q.suffix → ∀ node, s.disk.names (.temporary k) = some node →
      d.names (.temporary k) = some node ∧ d.data node = s.disk.data node)
    (hnameless : ∀ node < s.disk.fresh, (∀ k, s.disk.names (.temporary k) ≠ some node) →
      ∀ k, d.names (.temporary k) ≠ some node)
    (hover : ∀ m p node, m ≠ n → s.saves[m]? = some p → p.overwriting = some node →
      d.names .state = some node → s.disk.names .state = some node ∧
        d.data node = s.disk.data node ∧ landed = s.landed)
    (hsingle : Overwrites d q' → ∀ m p, m ≠ n → s.saves[m]? = some p → ¬ Overwrites s.disk p)
    (hwhole : (∀ p ∈ s.saves.set n q', ¬ Overwrites d p) →
      Content f found { s with disk := d, landed := landed, saves := s.saves.set n q' })
    (hcoming : Coming e s →
      Coming e { s with disk := d, landed := landed, saves := s.saves.set n q' }) :
    Inv e f found { s with disk := d, landed := landed, saves := s.saves.set n q' } := by
  obtain ⟨hlt, _⟩ := List.getElem?_eq_some_iff.mp hq
  obtain ⟨hsuffix, hturn, htext⟩ := hsame
  refine inv_of_frame (n := n) h ⟨List.getElem?_set_self hlt,
    fun m hm => List.getElem?_set_ne (Ne.symm hm), ?_, List.prefix_rfl, hfresh, ?_, hnameless,
    hover⟩ hsound hheld ?_ hsingle hwhole (fun hcalled => hcoming (h.coming hcalled)) h.recent
  -- the others have other names
  · intro m p hm hp hplive heq
    exact hm (h.apart m n p q hp hq hplive hlive (heq.trans hsuffix))
  · rw [hsuffix]
    exact hfiles
  · rw [hturn, htext]
    exact h.text q (List.mem_of_getElem? hq)

section Calls

variable {next failed : Script} {node offset : Nat}

theorem temporary_ne (k : Nat) : Name.temporary k ≠ .state := nofun

theorem name_temporary {k : Nat} (hk : k ≠ q.suffix) : Name.temporary k ≠ q.name .temporary :=
  fun h => hk (Name.temporary.inj h)

/-- The temporary file is opened. -/
theorem inv_openTemporary (h : Inv e f found s) (hq : s.saves[n]? = some q)
    (hscript : q.script = .writeFile .temporary next failed) :
    Inv e f found (s.open n q .temporary) := by
  have hlive : q.Live := live_of_script hscript nofun nofun
  -- to be created anew a file takes a node of its own, if it was there or not
  have hother : ∀ node, s.disk.names (q.name .temporary) ≠ some node → node < s.disk.fresh →
      (s.disk.create (q.name .temporary)).data node = s.disk.data node :=
    fun node hname hlt => Disk.data_create_other (Disk.node_ne hlt hname)
  have hstate : (s.disk.create (q.name .temporary)).names .state = s.disk.names .state :=
    Disk.names_create_other nofun
  have hover : ({ q with file := some (s.disk.node (q.name .temporary), 0) } : Save).overwriting = q.overwriting := by
    unfold Save.overwriting
    rw [hscript]
  refine inv_disk h hq hlive ⟨rfl, rfl, rfl⟩ (h.sound q (List.mem_of_getElem? hq)) ?_
    Disk.fresh_le_create ?_ ?_ ?_ ?_ ?_ ?_
  · unfold Held
    rw [hscript]
    exact ⟨Disk.names_create_self, Disk.data_create_self, Nat.zero_le _⟩
  -- another temporary file is another node
  · intro k hk node hname
    refine ⟨(Disk.names_create_other (name_temporary hk)).trans hname, ?_⟩
    refine hother node (fun hq' => hk ?_) (s.disk.used _ _ hname)
    exact Name.temporary.inj (s.disk.inj _ _ node hname hq')
  -- a node without a name has none now, unless it is this one
  · intro node hlt hnone k hk
    by_cases hkq : k = q.suffix
    · subst hkq
      rw [show Name.temporary q.suffix = q.name .temporary from rfl, Disk.names_create_self] at hk
      exact Disk.node_ne hlt (hnone _) (Option.some.inj hk).symm
    · rw [Disk.names_create_other (name_temporary hkq)] at hk
      exact hnone k hk
  -- a save that writes over the state file keeps it
  · intro m p node _ hp hopen hname
    obtain ⟨hlt, hnone⟩ := over_node h hp hopen
    rw [hstate] at hname
    exact ⟨hname, hother node (hnone _) hlt, rfl⟩
  · rintro ⟨hopen, _⟩
    unfold Save.overwriting at hopen
    rw [hscript] at hopen
    exact absurd rfl hopen
  · exact whole_same h hq hstate (Disk.read_create_other nofun) hover
  · refine fun hcoming => coming_same hq hcoming ?_ rfl
    unfold Ahead
    rw [hscript]
    exact id

/-- The state file is opened to be written over, and is not whole until that is done. -/
theorem inv_openState (h : Inv e f found s) (hq : s.saves[n]? = some q)
    (hscript : q.script = .writeFile .state next failed) (hdue : Due e s q)
    (hnone : ∀ p ∈ s.saves, ¬ Overwrites s.disk p) : Inv e f found (s.open n q .state) := by
  have hlive : q.Live := live_of_script hscript nofun nofun
  have hnames : (s.disk.create .state).names .state = some (s.disk.node .state) :=
    Disk.names_create_self
  -- nobody else has the state file open to be written over
  have hother : ∀ (m : Nat) (p : Save) (node : Nat), s.saves[m]? = some p → p.overwriting = some node →
      node ≠ s.disk.node .state := by
    intro m p node hp hopen
    refine Disk.node_ne (over_node h hp hopen).1 fun hname => ?_
    refine hnone p (List.mem_of_getElem? hp) ⟨?_, hname.trans hopen.symm⟩
    rw [hopen]
    nofun
  refine inv_disk h hq hlive ⟨rfl, rfl, rfl⟩ (h.sound q (List.mem_of_getElem? hq)) ?_
    Disk.fresh_le_create ?_ ?_ ?_ ?_ ?_ ?_
  -- from here on the file is this save's, and empty
  · unfold Held
    rw [hscript]
    refine ⟨Disk.node_lt_create, fun m hm => ?_, fun _ => ⟨Disk.data_create_self, Nat.zero_le _, rfl⟩⟩
    exact absurd ((s.disk.create .state).inj _ _ _ hm hnames) nofun
  · intro k _ node hname
    refine ⟨(Disk.names_create_other (temporary_ne k)).trans hname, Disk.data_create_other ?_⟩
    refine Disk.node_ne (s.disk.used _ _ hname) fun hname' => ?_
    exact absurd (s.disk.inj _ _ _ hname hname') nofun
  · intro node _ hno k hk
    exact hno k ((Disk.names_create_other (temporary_ne k)).symm.trans hk)
  · intro m p node _ hp hopen hname
    rw [show (s.disk.create (q.name .state)).names .state = some (s.disk.node .state) from hnames]
      at hname
    exact absurd (Option.some.inj hname).symm (hother m p node hp hopen)
  · exact fun _ m p _ hp => hnone p (List.mem_of_getElem? hp)
  -- while it is open for that the state file counts as written over
  · intro hnone'
    obtain ⟨hlt, _⟩ := List.getElem?_eq_some_iff.mp hq
    refine absurd ⟨?_, ?_⟩ (hnone' _ (List.mem_of_getElem? (List.getElem?_set_self hlt)))
    all_goals
      unfold Save.overwriting
      rw [hscript]
    · nofun
    · exact hnames
  · exact fun hcoming => coming_due hq hcoming hdue

/-- A part of the temporary file is written. -/
theorem inv_writeTemporary (h : Inv e f found s) (hq : s.saves[n]? = some q)
    (hscript : q.script = .writeFile .temporary next failed) (hfile : q.file = some (node, offset))
    (count : Nat) :
    Inv e f found { s with
      disk := s.disk.write node offset ((q.text.drop offset).take count)
      saves := s.saves.set n
        { q with file := some (node, min (offset + count) q.text.length) } } := by
  have hlive : q.Live := live_of_script hscript nofun nofun
  have hheld := h.held q (List.mem_of_getElem? hq)
  unfold Held at hheld
  rw [hscript, hfile] at hheld
  obtain ⟨hname, hdata, hle⟩ := hheld
  have hover : ({ q with file := some (node, min (offset + count) q.text.length) } : Save).overwriting =
      q.overwriting := by
    unfold Save.overwriting
    rw [hscript, hfile]
  refine inv_disk h hq hlive ⟨rfl, rfl, rfl⟩ (h.sound q (List.mem_of_getElem? hq)) ?_
    (Nat.le_refl _) ?_ (fun _ _ hno => hno) ?_ ?_ ?_ ?_
  · unfold Held
    rw [hscript]
    -- what is written follows what was there
    refine ⟨hname, ?_, Nat.min_le_right ..⟩
    rw [List.take_eq_take_iff.mpr (by omega : min (min (offset + count) q.text.length) _ =
      min (offset + count) q.text.length)]
    exact Disk.data_write_take hdata hle count
  · intro k hk node' hname'
    refine ⟨hname', Disk.data_write_other ?_⟩
    rintro rfl
    exact hk (Name.temporary.inj (s.disk.inj _ _ _ hname' hname))
  · intro m p node' _ hp hopen hstate
    refine ⟨hstate, Disk.data_write_other ?_, rfl⟩
    rintro rfl
    exact (over_node h hp hopen).2 _ hname
  -- a save with a temporary file writes nothing over
  · rintro ⟨hopen, _⟩
    unfold Save.overwriting at hopen
    rw [hscript] at hopen
    exact absurd rfl hopen
  · refine whole_same h hq rfl (Disk.read_write_other fun hstate => ?_) hover
    exact absurd (s.disk.inj _ _ _ hstate hname) nofun
  · refine fun hcoming => coming_same hq hcoming ?_ rfl
    unfold Ahead
    rw [hscript]
    exact id

/-- A part of the state file is written, or of what was the state file. -/
theorem inv_writeState (h : Inv e f found s) (hq : s.saves[n]? = some q)
    (hscript : q.script = .writeFile .state next failed) (hfile : q.file = some (node, offset))
    (count : Nat) :
    Inv e f found { s with
      disk := s.disk.write node offset ((q.text.drop offset).take count)
      saves := s.saves.set n
        { q with file := some (node, min (offset + count) q.text.length) } } := by
  have hlive : q.Live := live_of_script hscript nofun nofun
  have hheld := h.held q (List.mem_of_getElem? hq)
  unfold Held at hheld
  rw [hscript, hfile] at hheld
  obtain ⟨hfresh, hnames, hstate⟩ := hheld
  have hopen : q.overwriting = some node := by
    unfold Save.overwriting
    rw [hscript, hfile]
  have hopen' : ({ q with file := some (node, min (offset + count) q.text.length) } : Save).overwriting =
      some node := by
    unfold Save.overwriting
    rw [hscript]
  refine inv_disk h hq hlive ⟨rfl, rfl, rfl⟩ (h.sound q (List.mem_of_getElem? hq)) ?_
    (Nat.le_refl _) ?_ (fun _ _ hno => hno) ?_ ?_ ?_ ?_
  · unfold Held
    rw [hscript]
    -- the file may have lost its name meanwhile, to a rename
    refine ⟨hfresh, hnames, fun hname => ?_⟩
    obtain ⟨hdata, hle, hlanded⟩ := hstate hname
    refine ⟨?_, Nat.min_le_right .., hlanded⟩
    rw [List.take_eq_take_iff.mpr (by omega : min (min (offset + count) q.text.length) _ =
      min (offset + count) q.text.length)]
    exact Disk.data_write_take hdata hle count
  · intro k _ node' hname'
    refine ⟨hname', Disk.data_write_other ?_⟩
    rintro rfl
    exact hnames k hname'
  · intro m p node' hm hp hover hname
    refine ⟨hname, Disk.data_write_other ?_, rfl⟩
    rintro rfl
    -- two may not write over one file
    refine hm (h.single m n p q hp hq ⟨?_, ?_⟩ ⟨?_, ?_⟩)
    · rw [hover]; nofun
    · rw [hover]; exact hname
    · rw [hopen]; nofun
    · rw [hopen]; exact hname
  · rintro ⟨_, hname⟩ m p hm hp hover
    refine hm (h.single m n p q hp hq hover ⟨?_, ?_⟩)
    · rw [hopen]; nofun
    · rw [hopen, ← hopen']; exact hname
  -- it is no longer the state file that is written
  · intro hnone
    have hname : s.disk.names .state ≠ some node := by
      intro hname
      obtain ⟨hlt, _⟩ := List.getElem?_eq_some_iff.mp hq
      refine hnone _ (List.mem_of_getElem? (List.getElem?_set_self hlt)) ⟨?_, ?_⟩
      · rw [hopen']; nofun
      · rw [hopen']; exact hname
    exact whole_same h hq rfl (Disk.read_write_other hname) (hopen'.trans hopen.symm) hnone
  · refine fun hcoming => coming_same hq hcoming ?_ rfl
    unfold Ahead
    rw [hscript, hfile]
    exact id

/-- The temporary file becomes the state file; what is left is as if it were removed. -/
theorem inv_rename (h : Inv e f found s) (hq : s.saves[n]? = some q)
    (hscript : q.script = .rename next failed) (hdue : Due e s q) :
    Inv e f found { s with
      disk := s.disk.rename (q.name .temporary) .state
      landed := some q.turn
      saves := s.saves.set n { q with script := .rm next, file := none } } := by
  have hlive : q.Live := live_of_script hscript (fun h => by cases h) fun h => by cases h
  have hsound := h.sound q (List.mem_of_getElem? hq)
  rw [hscript] at hsound
  have hheld := h.held q (List.mem_of_getElem? hq)
  unfold Held at hheld
  rw [hscript] at hheld
  obtain ⟨node, hname, hdata⟩ := hheld
  have hstate : (s.disk.rename (q.name .temporary) .state).names .state = some node :=
    Disk.names_rename_target.trans hname
  have hself : (s.disk.rename (q.name .temporary) .state).names (q.name .temporary) = none :=
    Disk.names_rename_source (temporary_ne _)
  refine inv_disk h hq hlive ⟨rfl, rfl, rfl⟩ hsound.2.1 trivial (Nat.le_refl _) ?_ ?_ ?_ ?_ ?_ ?_
  -- the renamed node is gone from under its own name, and the others are as they were
  · intro k hk node' hname'
    exact ⟨(Disk.names_rename_other (name_temporary hk) (temporary_ne k)).trans hname', rfl⟩
  · intro node' _ hno k hk
    by_cases hkq : k = q.suffix
    · subst hkq
      cases hself.symm.trans hk
    · exact hno k ((Disk.names_rename_other (name_temporary hkq) (temporary_ne k)).symm.trans hk)
  · intro m p node' _ hp hopen hname'
    obtain rfl := Option.some.inj (hstate.symm.trans hname')
    exact absurd hname ((over_node h hp hopen).2 _)
  · intro hwhole
    exact absurd rfl hwhole.1
  · intro _
    obtain ⟨v, hv, htext⟩ := h.text q (List.mem_of_getElem? hq)
    refine ⟨v, hv, ?_⟩
    show (s.disk.rename (q.name .temporary) .state).read .state = _
    rw [Disk.read_rename, Disk.read_of_names hname, hdata, htext]
  · exact fun hcoming => coming_due hq hcoming hdue

/-- The temporary file is removed. -/
theorem inv_rm (h : Inv e f found s) (hq : s.saves[n]? = some q) (hscript : q.script = .rm next) :
    Inv e f found { s with
      disk := s.disk.unlink (q.name .temporary)
      saves := s.saves.set n q } := by
  have hlive : q.Live := live_of_script hscript (fun h => by cases h) fun h => by cases h
  have hstate : (s.disk.unlink (q.name .temporary)).names .state = s.disk.names .state :=
    Disk.names_unlink_other (temporary_ne _).symm
  refine inv_disk h hq hlive ⟨rfl, rfl, rfl⟩ (h.sound q (List.mem_of_getElem? hq)) ?_
    (Nat.le_refl _) ?_ ?_ ?_ ?_ ?_ ?_
  · unfold Held
    rw [hscript]
    trivial
  · intro k hk node hname
    exact ⟨(Disk.names_unlink_other (name_temporary hk)).trans hname, rfl⟩
  · intro node _ hno k hk
    by_cases hkq : k = q.suffix
    · subst hkq
      cases Disk.names_unlink_self.symm.trans hk
    · exact hno k ((Disk.names_unlink_other (name_temporary hkq)).symm.trans hk)
  · intro m p node _ _ _ hname
    exact ⟨hstate.symm.trans hname, rfl, rfl⟩
  · intro hwhole
    have hopen := hwhole.1
    unfold Save.overwriting at hopen
    rw [hscript] at hopen
    exact absurd rfl hopen
  · exact whole_same h hq hstate (Disk.read_unlink_other (temporary_ne _).symm) rfl
  · exact fun hcoming => coming_same hq hcoming id rfl

end Calls

/-! ## One step -/

theorem Script.Sound.mono {script : Script} (h : script.Sound false) : script.Sound true := by
  cases script with
  | rename next failed => exact absurd h.1 nofun
  | writeFile target next failed => cases target <;> exact h
  | returns => trivial
  | throws => trivial
  | rm next => exact h

theorem Script.Sound.not_rename {next failed : Script} :
    ¬ (Script.rename next failed).Sound false := fun h => absurd h.1 nofun

/-- To write a file is to write it for something. -/
theorem hopeful_writeFile {target : Target} {next failed : Script} {written : Bool}
    (h : (Script.writeFile target next failed).Sound written) :
    (Script.writeFile target next failed).hopeful = true := by
  cases target with
  | state => rfl
  | temporary => exact h.1

theorem content_append {v : V} (h : Content f found s) {saves : List Save} {memory : V}
    {dirty called : Bool} :
    Content f found { s with
      memory := memory, dirty := dirty, saves := saves, called := called
      taken := s.taken ++ [v] } := by
  unfold Content at h ⊢
  dsimp only
  split at h
  · exact h
  · obtain ⟨w, hw, hread⟩ := h
    obtain ⟨hlt, _⟩ := List.getElem?_eq_some_iff.mp hw
    exact ⟨w, (List.getElem?_append_left hlt).trans hw, hread⟩

/-- What a save had written to the state file it leaves whole. -/
theorem content_goTo (h : Inv e f found s) (hq : s.saves[n]? = some q)
    (hdone : Overwrites s.disk q → Content f found s)
    (hnone : ∀ p ∈ s.saves.set n q', ¬ Overwrites s.disk p) : Content f found s := by
  by_cases hover : Overwrites s.disk q
  · exact hdone hover
  · refine h.whole fun p hp => ?_
    obtain ⟨m, hp⟩ := List.mem_iff_getElem?.mp hp
    by_cases hm : n = m
    · subst hm
      obtain rfl := Option.some.inj (hq.symm.trans hp)
      exact hover
    · exact hnone p (List.mem_of_getElem? ((List.getElem?_set_ne hm).trans hp))

theorem over_none {q : Save} (h : q.file = none) (d : Disk Name) : ¬ Overwrites d q := by
  rintro ⟨hopen, _⟩
  unfold Save.overwriting at hopen
  rw [h] at hopen
  exact hopen (by split <;> first | rfl | contradiction)

/-- **A save goes on** with the next of its calls. -/
theorem inv_goTo (h : Inv e f found s) (hq : s.saves[n]? = some q) (hlive : q.Live)
    {script : Script} (hsound : script.Sound true)
    (hrename : ∀ next failed, script = .rename next failed →
      ∃ node, s.disk.names (q.name .temporary) = some node ∧ s.disk.data node = q.text)
    (hdone : Overwrites s.disk q → Content f found s)
    (hahead : Ahead q → script.hopeful = true ∨ Spared e s q) :
    Inv e f found (s.goTo f n q script) := by
  obtain ⟨hlt, _⟩ := List.getElem?_eq_some_iff.mp hq
  -- what `goTo` touches is the save itself
  have hframe : ∀ (s' : System V) (q' : Save), s'.disk = s.disk → s'.landed = s.landed →
      s.taken <+: s'.taken → s'.saves = s.saves.set n q' → q'.suffix = q.suffix →
      Frame s s' n q' := by
    intro s' q' hdisk hlanded htaken hsaves hsuffix
    refine ⟨?_, fun m hm => ?_, fun m p hm hp hplive heq => ?_, htaken, ?_, ?_, ?_, ?_⟩
    · rw [hsaves]; exact List.getElem?_set_self hlt
    · rw [hsaves]; exact List.getElem?_set_ne (Ne.symm hm)
    -- no other live save has its name
    · exact hm (h.apart m n p q hp hq hplive hlive (heq.trans hsuffix))
    · exact Nat.le_of_eq (by rw [hdisk])
    · rw [hdisk]; exact fun _ _ _ hname => ⟨hname, rfl⟩
    · rw [hdisk]; exact fun _ _ hno => hno
    · rw [hdisk]; exact fun _ _ _ _ _ _ hname => ⟨hname, rfl, hlanded⟩
  -- a new `writeFile`: the text is made here and now, and it is the last
  by_cases hwrite : ∃ target next failed, script = .writeFile target next failed
  · obtain ⟨target, next, failed, rfl⟩ := hwrite
    have hhopeful := hopeful_writeFile hsound
    refine inv_of_frame (n := n) h (hframe _ { q with
        script := .writeFile target next failed, file := none, text := f.stringify s.memory,
        turn := s.taken.length } rfl rfl (List.prefix_append ..) rfl rfl) hsound ?_
      ⟨s.memory, List.getElem?_concat_length, rfl⟩
      (fun hover => absurd hover (over_none rfl _)) (fun hnone => ?_) (fun _ => ?_) (fun _ => ?_)
    · cases target <;> trivial
    · exact content_append (content_goTo h hq hdone hnone)
    · refine .inr (.inr ⟨_, List.mem_of_getElem? (List.getElem?_set_self hlt), ?_, ?_⟩)
      · cases target <;> exact hhopeful
      · show s.taken.length + 1 = (s.taken ++ [s.memory]).length
        rw [List.length_append, List.length_singleton]
    · exact ⟨List.append_ne_nil_of_right_ne_nil _ nofun, fun _ => List.getLast?_concat⟩
  -- any other call leaves the texts as they are
  · have hgo : s.goTo f n q script =
        { s with saves := s.saves.set n { q with script := script, file := none } } := by
      cases script with
      | writeFile target next failed => exact absurd ⟨target, next, failed, rfl⟩ hwrite
      | returns | throws | rename | rm => rfl
    rw [hgo]
    refine inv_of_frame (n := n) h (hframe _ { q with script := script, file := none } rfl rfl
        List.prefix_rfl rfl rfl) hsound ?_ (h.text q (List.mem_of_getElem? hq))
      (fun hover => absurd hover (over_none rfl _)) (fun hnone => ?_) (fun hcalled => ?_) h.recent
    · cases script with
      | writeFile target next failed => cases target <;> trivial
      | rename next failed => exact hrename next failed rfl
      | returns | throws | rm => trivial
    · have hcontent : Content f found s := content_goTo h hq hdone hnone
      exact hcontent
    -- the last text has landed, or is still on its way with another save
    · rcases h.coming hcalled with hpending | hlanded | ⟨p, hp, hahead', hlast⟩
      · exact .inl hpending
      · exact .inr (.inl hlanded)
      obtain ⟨m, hp⟩ := List.mem_iff_getElem?.mp hp
      by_cases hm : n = m
      · subst hm
        obtain rfl := Option.some.inj (hq.symm.trans hp)
        -- or it was on its way with this one, and still is unless it is given up
        rcases hahead hahead' with hhopeful | hpending | hother
        · refine .inr (.inr ⟨_, List.mem_of_getElem? (List.getElem?_set_self hlt), ?_, hlast⟩)
          unfold Ahead
          split
          · contradiction
          · exact hhopeful
        · exact .inl hpending
        · exact absurd hlast hother
      · exact .inr (.inr ⟨p, List.mem_of_getElem? ((List.getElem?_set_ne hm).trans hp), hahead',
          hlast⟩)

theorem goTo_set {s : System V} (c script : Script) (file : Option (Nat × Nat)) :
    ({ s with saves := s.saves.set n { q with script := c, file := file } } : System V).goTo f n
      { q with script := c, file := file } script = s.goTo f n q script := by
  unfold System.goTo
  cases script <;> simp only [List.set_set]

/-- A file has been written to its end. -/
theorem inv_written (h : Inv e f found s) (hq : s.saves[n]? = some q) {target : Target}
    {next failed : Script} (hscript : q.script = .writeFile target next failed)
    {node offset : Nat} (hfile : q.file = some (node, offset)) {count : Nat}
    (hend : q.text.length ≤ offset + count) :
    Inv e f found (({ s with
      disk := s.disk.write node offset ((q.text.drop offset).take count) } : System V).goTo f n q
        next) := by
  obtain ⟨hlt, _⟩ := List.getElem?_eq_some_iff.mp hq
  have hsound := h.sound q (List.mem_of_getElem? hq)
  rw [hscript] at hsound
  -- the file has all of the text now
  have hmin : min (offset + count) q.text.length = q.text.length := by omega
  rw [← goTo_set q.script next (some (node, min (offset + count) q.text.length))]
  cases target with
  | temporary =>
    have hinv := inv_writeTemporary h hq hscript hfile count
    have hheld := hinv.held _ (List.mem_of_getElem? (List.getElem?_set_self hlt))
    unfold Held at hheld
    rw [hscript] at hheld
    obtain ⟨hname, hdata, _⟩ := hheld
    refine inv_goTo hinv (List.getElem?_set_self hlt) (live_of_script hscript nofun nofun)
      hsound.2.1 (fun _ _ _ => ⟨node, hname, hdata.trans ?_⟩) (fun hover => ?_)
      (fun _ => .inl hsound.1)
    · rw [hmin, List.take_length]
    · refine absurd hover.1 (not_not.mpr ?_)
      unfold Save.overwriting
      rw [hscript]
  -- written over in place: the state file has the text itself
  | state =>
    have hinv := inv_writeState h hq hscript hfile count
    have hheld := hinv.held _ (List.mem_of_getElem? (List.getElem?_set_self hlt))
    unfold Held at hheld
    rw [hscript] at hheld
    obtain ⟨_, _, hstate⟩ := hheld
    refine inv_goTo hinv (List.getElem?_set_self hlt) (live_of_script hscript nofun nofun)
      hsound.1.mono (fun _ _ hnext => ?_) (fun hover => ?_) (fun hahead => ?_)
    · exact absurd (hnext ▸ hsound.1) Script.Sound.not_rename
    -- the state file is the one that was opened, under the condition
    · have hname : s.disk.names .state = some node := by
        have hover := hover.2
        unfold Save.overwriting at hover
        rw [hscript] at hover
        exact hover
      obtain ⟨hdata, _, hlanded⟩ := hstate hname
      obtain ⟨v, hv, htext⟩ := h.text q (List.mem_of_getElem? hq)
      unfold Content
      rw [hlanded]
      refine ⟨v, hv, ?_⟩
      refine (Disk.read_of_names (d := s.disk.write node offset _) hname).trans
        (congrArg some (hdata.trans ?_))
      rw [hmin]
      exact List.take_length.trans htext
    · unfold Ahead at hahead
      rw [hscript] at hahead
      exact hahead.elim

/-- A removal is not waited for to succeed. -/
theorem inv_removed (h : Inv e f found s) (hq : s.saves[n]? = some q) {next : Script}
    (hscript : q.script = .rm next) : Inv e f found (s.goTo f n q next) := by
  have hsound := h.sound q (List.mem_of_getElem? hq)
  rw [hscript] at hsound
  refine inv_goTo h hq (live_of_script hscript nofun nofun) hsound.mono (fun _ _ hnext => ?_)
    (fun hover => ?_) (fun hahead => .inl ?_)
  · exact absurd (hnext ▸ hsound) Script.Sound.not_rename
  · refine absurd hover.1 (not_not.mpr ?_)
    unfold Save.overwriting
    rw [hscript]
  · unfold Ahead at hahead
    rw [hscript] at hahead
    exact hahead

/-- An await of a save. -/
theorem inv_resume (h : Inv e f found s) (hq : s.saves[n]? = some q) (answer : Answer)
    (hp : Proceeds e s q answer) : Inv e f found (s.resume f n q answer) := by
  have hsound := h.sound q (List.mem_of_getElem? hq)
  unfold Proceeds at hp
  unfold System.resume
  split
  -- the file is opened
  next target next failed hscript hfile =>
    cases target with
    | temporary => exact inv_openTemporary h hq hscript
    | state =>
      rw [hscript, hfile] at hp
      exact inv_openState h hq hscript hp.1 hp.2
  -- a part of the text is written, or the last of it
  next target next failed node offset count hscript hfile =>
    dsimp only
    split
    next hlt =>
      have hmin : min (offset + count) q.text.length = offset + count := by omega
      rw [← hmin]
      cases target with
      | temporary => exact inv_writeTemporary h hq hscript hfile count
      | state => exact inv_writeState h hq hscript hfile count
    next hge => exact inv_written h hq hscript hfile (Nat.le_of_not_lt hge)
  -- `writeFile` fails
  next _ target next failed hscript =>
    rw [hscript] at hp hsound
    have hlive : q.Live := live_of_script hscript nofun nofun
    cases target with
    | temporary =>
      refine inv_goTo h hq hlive hsound.2.2.mono (fun _ _ hnext => ?_) (fun hover => ?_) fun _ => hp
      · exact absurd (hnext ▸ hsound.2.2) Script.Sound.not_rename
      · refine absurd hover.1 (not_not.mpr ?_)
        unfold Save.overwriting
        rw [hscript]
    | state =>
      refine inv_goTo h hq hlive hsound.2.mono (fun _ _ hnext => ?_) (fun hover => ?_)
        fun hahead => ?_
      · exact absurd (hnext ▸ hsound.2) Script.Sound.not_rename
      · cases hfile : q.file with
        | none => exact absurd hover (over_none hfile _)
        | some file =>
          rw [hfile] at hp
          exact absurd hover hp
      · cases hfile : q.file with
        | none =>
          rw [hfile] at hp
          exact hp
        | some file =>
          unfold Ahead at hahead
          rw [hscript, hfile] at hahead
          exact hahead.elim
  -- the temporary file takes the state file's name
  next _ next failed hscript =>
    rw [hscript] at hp hsound
    split
    · exact h
    · obtain ⟨hlt, _⟩ := List.getElem?_eq_some_iff.mp hq
      dsimp only
      rw [← goTo_set (.rm next) next none]
      refine inv_goTo (inv_rename h hq hscript hp) (List.getElem?_set_self hlt) ⟨nofun, nofun⟩
        hsound.2.1.mono (fun _ _ hnext => ?_) (fun hover => absurd hover (over_none rfl _)) .inl
      exact absurd (hnext ▸ hsound.2.1) Script.Sound.not_rename
  -- the rename fails
  next _ next failed hscript =>
    rw [hscript] at hp hsound
    refine inv_goTo h hq (live_of_script hscript nofun nofun) hsound.2.2.mono (fun _ _ hnext => ?_)
      (fun hover => ?_) fun _ => hp
    · exact absurd (hnext ▸ hsound.2.2) Script.Sound.not_rename
    · refine absurd hover.1 (not_not.mpr ?_)
      unfold Save.overwriting
      rw [hscript]
  -- the temporary file is removed, or could not be
  next _ next hscript =>
    obtain ⟨hlt, _⟩ := List.getElem?_eq_some_iff.mp hq
    dsimp only
    rw [hscript] at hsound
    rw [← goTo_set q.script next q.file]
    exact inv_removed (inv_rm h hq hscript) (List.getElem?_set_self hlt) hscript
  next _ next hscript => exact inv_removed h hq hscript
  · exact h

theorem goTo_concat {target : Target} {next failed : Script} :
    ({ s with saves := s.saves ++ [q], called := true } : System V).goTo f s.saves.length q
      (.writeFile target next failed) =
    { s with
      dirty := false
      called := true
      taken := s.taken ++ [s.memory]
      saves := s.saves ++ [{ q with
        script := .writeFile target next failed, file := none, text := f.stringify s.memory,
        turn := s.taken.length }] } := by
  unfold System.goTo
  dsimp only
  rw [List.set_append_right _ _ (Nat.le_refl _), Nat.sub_self]
  rfl

/-- The routine is called, with a name that nobody else has. -/
theorem inv_save (h : Inv e f found s) {suffix : Nat}
    (hfree : ∀ q ∈ s.saves, q.Live → q.suffix ≠ suffix) :
    Inv e f found (({ s with
      saves := s.saves ++ [{ suffix := suffix, script := .returns }]
      called := true } : System V).goTo f s.saves.length { suffix := suffix, script := .returns }
        e.saveState) := by
  unfold Engine.saveState
  rw [goTo_concat]
  refine inv_of_frame (n := s.saves.length) h ⟨List.getElem?_concat_length, fun m hm => ?_,
    fun m p _ hp hlive => hfree p (List.mem_of_getElem? hp) hlive, List.prefix_append ..,
    Nat.le_refl _, fun _ _ _ hname => ⟨hname, rfl⟩, fun _ _ hno => hno,
    fun _ _ _ _ _ _ hname => ⟨hname, rfl, rfl⟩⟩ e.sound.mono trivial
    ⟨s.memory, List.getElem?_concat_length, rfl⟩ (fun hover => absurd hover (over_none rfl _))
    (fun hnone => ?_) (fun _ => ?_) (fun _ => ?_)
  · rcases Nat.lt_or_gt_of_ne hm with hlt | hgt
    · exact List.getElem?_append_left hlt
    · rw [List.getElem?_eq_none (Nat.le_of_lt hgt), List.getElem?_eq_none]
      rw [List.length_append, List.length_singleton]
      exact hgt
  · exact content_append (h.whole fun p hp => hnone p (List.mem_append_left _ hp))
  · refine .inr (.inr ⟨_, List.mem_append_right _ (List.mem_singleton_self _), e.sound.1, ?_⟩)
    show s.taken.length + 1 = (s.taken ++ [s.memory]).length
    rw [List.length_append, List.length_singleton]
  · exact ⟨List.append_ne_nil_of_right_ne_nil _ nofun, fun _ => List.getLast?_concat⟩

theorem read_sweep (gone : List Nat) (d : Disk Name) :
    (sweep d gone).read .state = d.read .state := by
  unfold sweep
  induction gone generalizing d with
  | nil => rfl
  | cons suffix gone ih => exact (ih _).trans (Disk.read_unlink_other (temporary_ne _).symm)

/-- **Every orderly event keeps the invariant.** -/
theorem inv_step (h : Inv e f found s) (x : Event V) (hx : Orderly e s x) :
    Inv e f found (s.step e f x) := by
  cases x with
  -- the memory changes: whatever had to be saved has to be saved still
  | change memory =>
    refine ⟨h.apart, h.sound, h.held, h.text, h.single, h.whole, fun hcalled => ?_,
      fun hcalled => ⟨(h.recent hcalled).1, fun h => by cases h⟩⟩
    exact (h.coming hcalled).imp_left fun hpending => ⟨hpending.1, rfl⟩
  | save suffix =>
    show Inv e f found (if e.flagged && !s.dirty then s else _)
    split
    · exact h
    · exact inv_save h hx
  | resume n answer =>
    unfold System.step
    dsimp only
    cases hq : s.saves[n]? with
    | none => exact h
    | some q => exact inv_resume h hq answer (hx q hq)
  -- the process stops: no save is left, and the state file is whole
  | restart gone =>
    have hnone : ∀ (P : Save → Prop), ∀ q ∈ (s.restart e f gone).saves, P q :=
      fun _ _ hq => absurd hq List.not_mem_nil
    have hcalled : (s.restart e f gone).called ≠ true := fun h => by cases h
    refine ⟨fun n m q p hq => ?_, hnone _, hnone _, hnone _, fun n m q p hq => ?_, fun _ => ?_,
      fun h => absurd h hcalled, fun h => absurd h hcalled⟩
    · exact absurd (List.mem_of_getElem? hq) List.not_mem_nil
    · exact absurd (List.mem_of_getElem? hq) List.not_mem_nil
    have hcontent := h.whole hx
    have hread : (s.restart e f gone).disk.read .state = s.disk.read .state := by
      show Disk.read (if e.sweeps then sweep s.disk gone else s.disk) .state = _
      split
      · exact read_sweep gone s.disk
      · rfl
    show Content f found (s.restart e f gone)
    unfold Content at hcontent ⊢
    rw [hread]
    exact hcontent

end Steps

/-! ## Runs -/

theorem inv_start (e : Engine) (f : Format V) (disk : Disk Name) :
    Inv e f (disk.read .state) (start f disk) :=
  ⟨nofun, nofun, nofun, nofun, nofun, fun _ => rfl, nofun, nofun⟩

/-- **In every run of an engine's process, over any number of restarts, whose steps are
orderly: when all saves have completed the state file has the text of the latest state or a
flush is pending, and whenever the process stops the file is whole.** -/
theorem file_kept (e : Engine) (f : Format V) (disk : Disk Name) (xs : List (Event V))
    (h : EachStep (System.step e f) (Orderly e) (start f disk) xs) :
    Always (System.step e f) (Current e f) (start f disk) xs ∧
      EachStep (System.step e f) (Survives f (disk.read .state)) (start f disk) xs :=
  ⟨always_of_inv (inv_start e f disk) (fun _ x hinv hx => inv_step hinv x hx)
      (fun _ hinv => current_of_inv hinv) h,
    eachStep_of_inv (inv_start e f disk) (fun _ x hinv hx => inv_step hinv x hx)
      (fun _ x hinv hx => survives_of_inv hinv x hx) h⟩

/-- What is found at rest when nothing is pending. -/
theorem read_of_current {e : Engine} {f : Format V} {s : System V} (h : Current e f s)
    (hcalled : s.called = true) (hrest : ∀ q ∈ s.saves, ¬ q.Live) (hpending : ¬ Pending e s) :
    s.disk.read .state = s.taken.getLast?.map f.stringify := by
  obtain ⟨v, hv, hread, _⟩ := (h hcalled hrest).resolve_left hpending
  rw [hread, hv, Option.map_some]

/-! ## Four runs -/

/-- A state of one byte. -/
def oneByte : Format UInt8 where
  stringify v := [v]
  load
    | some (v :: _) => (v, true)
    | _ => (0, false)

/-- Two saves of the runtime, whose files are renamed in the order of the calls. The process
stops while a third is writing. -/
theorem file_kept_twice :
    Always (System.step runtime oneByte) (Current runtime oneByte) (start oneByte .empty)
      [.change 1, .save 0, .change 2, .save 1, .resume 1 .opened, .resume 0 .opened,
        .resume 0 (.wrote 1), .resume 1 (.wrote 1), .resume 0 .done, .resume 1 .done, .save 0,
        .resume 2 .opened, .restart [0]] ∧
    EachStep (System.step runtime oneByte) (Survives oneByte none) (start oneByte .empty)
      [.change 1, .save 0, .change 2, .save 1, .resume 1 .opened, .resume 0 .opened,
        .resume 0 (.wrote 1), .resume 1 (.wrote 1), .resume 0 .done, .resume 1 .done, .save 0,
        .resume 2 .opened, .restart [0]] :=
  file_kept runtime oneByte .empty _ (by decide +kernel)

/-- The file of the second save is renamed before that of the first. -/
def crossing : List (Event UInt8) :=
  [.change 1, .save 0, .change 2, .save 1, .resume 0 .opened, .resume 0 (.wrote 1),
    .resume 1 .opened, .resume 1 (.wrote 1), .resume 1 .done, .resume 0 .done]

/-- The only save fails. -/
def failing : List (Event UInt8) := [.change 1, .save 0, .resume 0 .failed, .resume 0 .done]

/-- The process stops when the second file has been opened. -/
def cutShort : List (Event UInt8) :=
  [.change 1, .save 0, .resume 0 .opened, .resume 0 (.wrote 1), .resume 0 .opened, .restart []]

/-- The runtime and the database engine are left with an older state, the builder with none
and no flush to come, and the router with a file that is cut short. -/
theorem file_not_kept :
    (¬ ∀ (V : Type) (f : Format V) (disk : Disk Name) (xs : List (Event V)),
      Always (System.step runtime f) (Current runtime f) (start f disk) xs) ∧
    (¬ ∀ (V : Type) (f : Format V) (disk : Disk Name) (xs : List (Event V)),
      Always (System.step postgres f) (Current postgres f) (start f disk) xs) ∧
    (¬ ∀ (V : Type) (f : Format V) (disk : Disk Name) (xs : List (Event V)),
      Always (System.step builder f) (Current builder f) (start f disk) xs) ∧
    ¬ ∀ (V : Type) (f : Format V) (disk : Disk Name) (xs : List (Event V)),
      EachStep (System.step router f) (Survives f (disk.read .state)) (start f disk) xs := by
  -- it is enough to find one state of the run that is not current
  have hcurrent : ∀ (e : Engine) (xs : List (Event UInt8)),
      Always (System.step e oneByte) (Current e oneByte) (start oneByte .empty) xs →
      Current e oneByte (runFrom (System.step e oneByte) (start oneByte .empty) xs) :=
    fun e xs h => always_iff_prefixes.mp h xs [] (List.append_nil _).symm
  refine ⟨fun h => ?_, fun h => ?_, fun h => ?_, fun h => ?_⟩
  · have hread := read_of_current (hcurrent runtime crossing (h ..)) rfl (by decide +kernel)
      (by decide +kernel)
    revert hread
    decide +kernel
  · have hread := read_of_current (hcurrent postgres crossing (h ..)) rfl (by decide +kernel)
      (by decide +kernel)
    revert hread
    decide +kernel
  · have hread := read_of_current (hcurrent builder failing (h ..)) rfl (by decide +kernel)
      (by decide +kernel)
    revert hread
    decide +kernel
  -- the router's file has been opened, and nothing is in it yet
  · have hend := (h UInt8 oneByte .empty cutShort).2.2.2.2.2.1
    rcases hend with hfound | ⟨v, _, hread⟩
    · revert hfound
      decide +kernel
    · have hempty : (runFrom (System.step router oneByte) (start oneByte .empty)
          (cutShort.take 5)).disk.read .state = some [] := by decide +kernel
      exact absurd (hempty.symm.trans hread) nofun

end CloudWai.StateFile
