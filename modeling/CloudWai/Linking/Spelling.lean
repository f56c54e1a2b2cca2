import CloudWai.Authorization
import CloudWai.Grammar
import Mathlib.Data.List.DropRight

/-!
# How a repository is spelled

A repository is linked by what somebody pasted: with a scheme and a host before it, in
capital letters, with `.git` or slashes behind it. `normaliseRepository` takes all that
away, so that a repository has one name and is not linked twice under two spellings.

It takes each thing away once, in a fixed order, and the slashes go last. So a `.git` that
had a slash behind it, or another `.git`, stays (`ends_git_iff`), and the result is no
longer the name of the repository: normalised again it is another one (`normalise_again`).
Otherwise the result is the owner and the name, however they were spelled
(`result_of_spells`).

Mirrors `normaliseRepository` of `apps/api/src/procedures/git-links.ts`.
-/

namespace CloudWai.Linking

open Base Pattern Grammar

/-! ## Normalising -/

/-- `[a-z0-9._-]` -/
def repositoryChar (c : Char) : Bool := lowerNum c || ['.', '_', '-'].contains c

/-- `REPOSITORY_PATTERN` -/
def repositoryPattern : Pattern :=
  seq (plus (one repositoryChar)) (seq (ch '/') (plus (one repositoryChar)))

def slash (c : Char) : Bool := c == '/'

def git : List Char := ".git".toList

/-- What is behind `https?://`. -/
def afterScheme (t : List Char) : Option (List Char) :=
  if "https://".toList <+: t then some (t.drop 8)
  else if "http://".toList <+: t then some (t.drop 7)
  else none

/-- `.replace(/^https?:\/\/[^/]+\//, "")` -/
def stripHost (t : List Char) : List Char :=
  match afterScheme t with
  | none => t
  | some rest =>
    match rest.takeWhile (!slash ·), rest.dropWhile (!slash ·) with
    | _ :: _, _ :: path => path
    | _, _ => t

/-- `.replace(/\.git$/, "")` -/
def stripGit (t : List Char) : List Char := if git <:+ t then t.take (t.length - 4) else t

/-- `.replace(/^\/+|\/+$/g, "")` -/
def stripSlashes (t : List Char) : List Char := (t.dropWhile slash).rdropWhile slash

/-- What the four steps make of a spelling. -/
def stripped (value : String) : String :=
  String.ofList (stripSlashes (stripGit (stripHost (lowerCase (trim value)).toList)))

/-- A repository as it is stored: owner and name, if that is what is left of the text. -/
@[irreducible] def normaliseRepository (value : String) : Except Failure String :=
  if !repositoryPattern.test (stripped value) then
    .error (.api "invalid_input" "Repository must be in the form owner/name.")
  else .ok (stripped value)

/-! ## Spellings -/

/-- An owner and a name, in their normal form; the name does not end in `.git`. -/
structure IsRepository (owner name : List Char) : Prop where
  owner_ne : owner ≠ []
  owner_chars : ∀ c ∈ owner, repositoryChar c = true
  name_ne : name ≠ []
  name_chars : ∀ c ∈ name, repositoryChar c = true
  bare : ¬ git <:+ name

/-- What may be before the owner: slashes, or a scheme and a host between slashes. -/
inductive Lead : List Char → Prop
  | slashes {a : List Char} (ha : ∀ c ∈ a, c = '/') : Lead a
  | host {a scheme host b : List Char} (ha : ∀ c ∈ a, c = '/')
      (hscheme : scheme = "https://".toList ∨ scheme = "http://".toList) (hne : host ≠ [])
      (hhost : ∀ c ∈ host, c ≠ '/') (hb : ∀ c ∈ b, c = '/') : Lead (a ++ scheme ++ host ++ '/' :: b)

/-- What may be behind the name: slashes and `.git`, in any combination. -/
inductive Trail : List Char → Prop
  | nil : Trail []
  | slash {s : List Char} (h : Trail s) : Trail (s ++ ['/'])
  | git {s : List Char} (h : Trail s) : Trail (s ++ git)

/-- The text spells the repository: white space around it and the letters' case aside, it is the
owner and the name with something before and something behind. -/
def Spells (owner name : List Char) (value : String) : Prop :=
  IsRepository owner name ∧ ∃ lead trail, Lead lead ∧ Trail trail ∧
    (lowerCase (trim value)).toList = lead ++ (owner ++ '/' :: name) ++ trail

/-- Behind a `.git` there are slashes, or one more `.git` with any number of slashes between. -/
def Masked (value : String) : Prop :=
  ∃ x s, (∀ c ∈ s, c = '/') ∧ ((s ≠ [] ∧ (lowerCase (trim value)).toList = x ++ git ++ s) ∨
    (lowerCase (trim value)).toList = x ++ git ++ s ++ git)

/-! ## The steps -/

section Steps

variable {t p s x : List Char}

theorem stripGit_append : stripGit (p ++ git) = p := by
  unfold stripGit
  rw [if_pos (List.suffix_append p git), List.length_append, show git.length = 4 from rfl,
    Nat.add_sub_cancel, List.take_left']
  rfl

theorem stripGit_of_not (h : ¬ git <:+ t) : stripGit t = t := if_neg h

/-- One ending goes, or there is none. -/
theorem stripGit_cases (t : List Char) :
    t = stripGit t ++ git ∨ (¬ git <:+ t ∧ stripGit t = t) := by
  by_cases h : git <:+ t
  · obtain ⟨p, rfl⟩ := h
    rw [stripGit_append]
    exact .inl rfl
  · exact .inr ⟨h, stripGit_of_not h⟩

/-- An ending without slashes is the ending of what is behind, too. -/
theorem git_suffix_iff (hx : '/' ∈ x) : git <:+ p ++ x ↔ git <:+ x := by
  constructor
  · intro h
    rcases List.suffix_or_suffix_of_suffix h (List.suffix_append p x) with hgit | hgit
    · exact hgit
    · exact absurd (hgit.subset hx) (by decide)
  · intro h
    exact h.trans (List.suffix_append p x)

theorem stripGit_append_left (hx : '/' ∈ x) : stripGit (p ++ x) = p ++ stripGit x := by
  rcases stripGit_cases x with hgit | ⟨hno, hself⟩
  · rw [hgit, ← List.append_assoc, stripGit_append, stripGit_append]
  · rw [hself, stripGit_of_not fun h => hno ((git_suffix_iff hx).mp h)]

theorem rdropWhile_slashes (hs : ∀ c ∈ s, c = '/') :
    (t ++ s).rdropWhile slash = t.rdropWhile slash := by
  induction s using List.reverseRecOn with
  | nil => rw [List.append_nil]
  | append_singleton s c ih =>
    have hc : slash c = true := beq_iff_eq.mpr (hs c (by simp))
    rw [← List.append_assoc, List.rdropWhile_concat_pos _ _ _ hc]
    exact ih fun d hd => hs d (by simp [hd])

/-- A text is what is left of it, and slashes. -/
theorem rdropWhile_split (t : List Char) :
    ∃ s, (∀ c ∈ s, c = '/') ∧ t = t.rdropWhile slash ++ s := by
  refine ⟨t.rtakeWhile slash, ?_, (List.rdropWhile_append_rtakeWhile).symm⟩
  intro c hc
  exact beq_iff_eq.mp (List.mem_rtakeWhile_imp (p := slash) hc)

theorem dropWhile_split (t : List Char) :
    ∃ s, (∀ c ∈ s, c = '/') ∧ t = s ++ t.dropWhile slash := by
  refine ⟨t.takeWhile slash, ?_, List.takeWhile_append_dropWhile.symm⟩
  intro c hc
  exact beq_iff_eq.mp (List.mem_takeWhile_imp (p := slash) hc)

theorem rdropWhile_git : (x ++ git).rdropWhile slash = x ++ git := by
  rw [List.rdropWhile_eq_self_iff]
  intro hne
  rw [List.getLast_append_of_ne_nil hne (by decide)]
  decide

theorem mem_stripSlashes {c : Char} (hc : c ∈ t) (hne : c ≠ '/') : c ∈ stripSlashes t := by
  obtain ⟨a, ha, hfront⟩ := dropWhile_split t
  obtain ⟨b, hb, hback⟩ := rdropWhile_split (t.dropWhile slash)
  rw [hfront, hback] at hc
  rcases List.mem_append.mp hc with hc | hc
  · exact absurd (ha c hc) hne
  · rcases List.mem_append.mp hc with hc | hc
    · exact hc
    · exact absurd (hb c hc) hne

theorem mem_stripGit {c : Char} (hc : c ∈ t) (hne : c ∉ git) : c ∈ stripGit t := by
  rcases stripGit_cases t with hgit | ⟨_, hself⟩
  · rw [hgit] at hc
    rcases List.mem_append.mp hc with hc | hc
    · exact hc
    · exact absurd hc hne
  · rwa [hself]

/-- A scheme is the whole of what is before the first slash. -/
theorem afterScheme_eq {rest : List Char} (h : afterScheme t = some rest) :
    t = "https://".toList ++ rest ∨ t = "http://".toList ++ rest := by
  unfold afterScheme at h
  split at h
  next hs =>
    obtain ⟨r, rfl⟩ := hs
    obtain rfl := Option.some.inj h
    exact .inl rfl
  next =>
    split at h
    next hs =>
      obtain ⟨r, rfl⟩ := hs
      obtain rfl := Option.some.inj h
      exact .inr rfl
    next => cases h

theorem afterScheme_https (rest : List Char) : afterScheme ("https://".toList ++ rest) = some rest := by
  unfold afterScheme
  rw [if_pos (List.prefix_append _ _)]
  rfl

theorem afterScheme_http (rest : List Char) : afterScheme ("http://".toList ++ rest) = some rest := by
  unfold afterScheme
  rw [if_neg, if_pos (List.prefix_append _ _)]
  · rfl
  · intro ⟨r, hr⟩
    have := congrArg (fun l => l[4]?) hr
    simp at this

/-- Without a colon before its first slash, a text begins with no scheme. -/
theorem stripHost_self (h : ':' ∉ t.takeWhile (!slash ·)) : stripHost t = t := by
  unfold stripHost
  cases hs : afterScheme t with
  | none => rfl
  | some rest =>
    refine absurd ?_ h
    rcases afterScheme_eq hs with rfl | rfl
    · exact (by decide : ':' ∈ "https:".toList)
    · exact (by decide : ':' ∈ "http:".toList)

/-- The scheme and the host go. -/
theorem stripHost_host {scheme host path : List Char}
    (hscheme : scheme = "https://".toList ∨ scheme = "http://".toList) (hne : host ≠ [])
    (hhost : ∀ c ∈ host, c ≠ '/') : stripHost (scheme ++ host ++ '/' :: path) = path := by
  have hafter : afterScheme (scheme ++ host ++ '/' :: path) = some (host ++ '/' :: path) := by
    rw [List.append_assoc]
    rcases hscheme with rfl | rfl
    · exact afterScheme_https _
    · exact afterScheme_http _
  have hgo : ∀ c ∈ host, (!slash c) = true := by
    intro c hc
    simp [slash, hhost c hc]
  have htake : (host ++ '/' :: path).takeWhile (!slash ·) = host := by
    rw [List.takeWhile_append_of_pos hgo, List.takeWhile_cons_of_neg (by decide), List.append_nil]
  have hdrop : (host ++ '/' :: path).dropWhile (!slash ·) = '/' :: path := by
    rw [List.dropWhile_append_of_pos hgo, List.dropWhile_cons_of_neg (by decide)]
  unfold stripHost
  rw [hafter]
  dsimp only
  rw [htake, hdrop]
  cases host with
  | nil => exact absurd rfl hne
  | cons c host => rfl

/-- What is left without scheme and host is an end of the text. -/
theorem stripHost_suffix (t : List Char) : stripHost t <:+ t := by
  unfold stripHost
  split
  next => exact List.suffix_refl t
  next rest hs =>
    have hrest : rest <:+ t := by
      rcases afterScheme_eq hs with rfl | rfl <;> exact List.suffix_append _ _
    split
    next hpath =>
      have hsplit := List.takeWhile_append_dropWhile (p := (!slash ·)) (l := rest)
      rw [hpath] at hsplit
      refine ((List.suffix_cons _ _).trans (List.suffix_append _ _)).trans (hsplit ▸ hrest)
    next => exact List.suffix_refl t

end Steps

/-! ## What is accepted -/

section Accepted

variable {value : String} {r : String}

theorem repositoryChar_code {c : Char} (h : repositoryChar c = true) :
    (97 ≤ c.toNat ∧ c.toNat ≤ 122) ∨ (48 ≤ c.toNat ∧ c.toNat ≤ 57) ∨ c.toNat = 45 ∨ c.toNat = 46 ∨
      c.toNat = 95 := by
  unfold repositoryChar lowerNum lower digit at h
  simp only [Bool.or_eq_true, Bool.and_eq_true, decide_eq_true_eq, List.contains_iff_mem,
    List.mem_cons, List.not_mem_nil, or_false] at h
  have hle : ∀ {a b : Char}, a ≤ b → a.toNat ≤ b.toNat := fun h => h
  rcases h with (⟨hl, hu⟩ | ⟨hl, hu⟩) | rfl | rfl | rfl
  · exact .inl ⟨hle hl, hle hu⟩
  · exact .inr (.inl ⟨hle hl, hle hu⟩)
  · decide
  · decide
  · decide

/-- A character of a repository's name is no space and no capital letter. -/
theorem repositoryChar_low {c : Char} (h : repositoryChar c = true) :
    jsSpace c = false ∧ lowerChar c = [c] := by
  have hcode := repositoryChar_code h
  constructor
  · unfold jsSpace
    simp only [Bool.or_eq_false_iff, Bool.and_eq_false_iff, decide_eq_false_iff_not,
      beq_eq_false_iff_ne]
    omega
  · exact lowerChar_self (by omega)

theorem repository_test : repositoryPattern.test r = true ↔ ∃ owner name, r.toList = owner ++ '/' :: name ∧
    (owner ≠ [] ∧ ∀ c ∈ owner, repositoryChar c = true) ∧
      (name ≠ [] ∧ ∀ c ∈ name, repositoryChar c = true) := by
  unfold repositoryPattern
  rw [test_iff, matches_seq]
  constructor
  · intro ⟨owner, rest, hr, howner, hrest⟩
    obtain ⟨mid, name, rfl, hmid, hname⟩ := matches_seq.mp hrest
    obtain rfl := matches_ch.mp hmid
    exact ⟨owner, name, hr, matches_plus_one.mp howner, matches_plus_one.mp hname⟩
  · intro ⟨owner, name, hr, howner, hname⟩
    refine ⟨owner, '/' :: name, hr, matches_plus_one.mpr howner, ?_⟩
    exact matches_seq.mpr ⟨['/'], name, rfl, matches_ch.mpr rfl, matches_plus_one.mpr hname⟩

theorem normaliseRepository_ok : normaliseRepository value = .ok r ↔
    repositoryPattern.test r = true ∧ r = stripped value := by
  unfold normaliseRepository
  split
  next h =>
    refine ⟨nofun, ?_⟩
    intro ⟨htest, heq⟩
    rw [← heq, htest] at h
    cases h
  next h =>
    rw [Bool.not_eq_true', Bool.not_eq_false] at h
    constructor
    · intro heq
      obtain rfl := Except.ok.inj heq
      exact ⟨h, rfl⟩
    · intro ⟨_, heq⟩
      rw [heq]

/-- The characters of an accepted result. -/
theorem char_of_test (h : repositoryPattern.test r = true) {c : Char} (hc : c ∈ r.toList) :
    repositoryChar c = true ∨ c = '/' := by
  obtain ⟨owner, name, hr, ⟨_, howner⟩, _, hname⟩ := repository_test.mp h
  rw [hr] at hc
  rcases List.mem_append.mp hc with hc | hc
  · exact .inl (howner c hc)
  · rcases List.mem_cons.mp hc with hc | hc
    · exact .inr hc
    · exact .inl (hname c hc)

theorem slash_mem (h : repositoryPattern.test r = true) : '/' ∈ r.toList := by
  obtain ⟨owner, name, hr, _⟩ := repository_test.mp h
  rw [hr]
  simp

theorem colon_not_mem (h : repositoryPattern.test r = true) : ':' ∉ r.toList := by
  intro hc
  rcases char_of_test h hc with hc | hc
  · exact absurd hc (by decide)
  · exact absurd hc (by decide)

/-- Trimming and lowering leave a result alone. -/
theorem lower_trim_of_test (h : repositoryPattern.test r = true) : lowerCase (trim r) = r := by
  have hlow : ∀ c ∈ r.toList, jsSpace c = false ∧ lowerChar c = [c] := by
    intro c hc
    rcases char_of_test h hc with hc | rfl
    · exact repositoryChar_low hc
    · decide
  have hdrop : ∀ w : List Char, (∀ c ∈ w, jsSpace c = false) → w.dropWhile jsSpace = w := by
    intro w hw
    cases w with
    | nil => rfl
    | cons c w => rw [List.dropWhile_cons, hw c List.mem_cons_self]; rfl
  have htrim : trim r = r := by
    unfold trim
    rw [hdrop _ fun c hc => (hlow c hc).1,
      hdrop r.toList.reverse fun c hc => (hlow c (List.mem_reverse.mp hc)).1, List.reverse_reverse,
      String.ofList_toList]
  rw [htrim]
  exact lowerCase_self fun c hc => (hlow c hc).2

/-- A result has no slash at its ends. -/
theorem stripSlashes_of_test (h : repositoryPattern.test r = true) :
    stripSlashes r.toList = r.toList := by
  obtain ⟨owner, name, hr, ⟨hone, howner⟩, hnne, hname⟩ := repository_test.mp h
  have hno : ∀ c, repositoryChar c = true → slash c = false := by
    intro c hc
    have := repositoryChar_code hc
    refine beq_eq_false_iff_ne.mpr ?_
    rintro rfl
    revert this
    decide
  unfold stripSlashes
  rw [hr]
  have hfront : (owner ++ '/' :: name).dropWhile slash = owner ++ '/' :: name := by
    cases owner with
    | nil => exact absurd rfl hone
    | cons c owner =>
      rw [List.cons_append, List.dropWhile_cons_of_neg]
      rw [hno c (howner c List.mem_cons_self)]
      exact Bool.false_ne_true
  rw [hfront, List.rdropWhile_eq_self_iff]
  intro hne
  rw [List.getLast_append_of_ne_nil hne (List.cons_ne_nil _ _), List.getLast_cons hnne,
    hno _ (hname _ (List.getLast_mem hnne))]
  exact Bool.false_ne_true

/-- **A result normalised again** is itself, unless it ends in `.git`. -/
theorem normalise_again (h : repositoryPattern.test r = true) :
    normaliseRepository r = .ok r ↔ ¬ git <:+ r.toList := by
  have hhost : stripHost r.toList = r.toList :=
    stripHost_self fun hc => colon_not_mem h (List.takeWhile_subset _ hc)
  have hstripped : stripped r = String.ofList (stripSlashes (stripGit r.toList)) := by
    unfold stripped
    rw [lower_trim_of_test h, hhost]
  rw [normaliseRepository_ok, and_iff_right h, hstripped]
  constructor
  · intro heq ⟨p, hp⟩
    -- what is left is too short
    have hlen := congrArg String.toList heq
    rw [← hp, stripGit_append, String.toList_ofList] at hlen
    have hle : (stripSlashes p).length ≤ p.length :=
      (List.rdropWhile_prefix slash _).length_le.trans (List.dropWhile_suffix slash).length_le
    rw [← hlen, List.length_append] at hle
    have : git.length = 4 := rfl
    omega
  · intro hno
    rw [stripGit_of_not hno, stripSlashes_of_test h, String.ofList_toList]

/-! ### When a `.git` stays -/

theorem not_git_suffix {x s : List Char} (hs : ∀ c ∈ s, c = '/') (hne : s ≠ []) :
    ¬ git <:+ x ++ s := by
  intro ⟨p, hp⟩
  have hlast := congrArg List.getLast? hp
  rw [List.getLast?_append_of_ne_nil _ (by decide), List.getLast?_append_of_ne_nil _ hne,
    List.getLast?_eq_getLast_of_ne_nil hne, hs _ (List.getLast_mem hne)] at hlast
  revert hlast
  decide

/-- What is masked is still there when one `.git`, and then the slashes, are gone. -/
theorem masked_iff : Masked value ↔
    git <:+ (stripGit (lowerCase (trim value)).toList).rdropWhile slash := by
  unfold Masked
  generalize (lowerCase (trim value)).toList = t
  constructor
  · intro ⟨x, s, hs, h⟩
    rcases h with ⟨hne, rfl⟩ | rfl
    · rw [stripGit_of_not (not_git_suffix hs hne), rdropWhile_slashes hs, rdropWhile_git]
      exact List.suffix_append x git
    · rw [stripGit_append, rdropWhile_slashes hs, rdropWhile_git]
      exact List.suffix_append x git
  · intro ⟨x, hx⟩
    obtain ⟨s, hs, hsplit⟩ := rdropWhile_split (stripGit t)
    rw [← hx] at hsplit
    refine ⟨x, s, hs, ?_⟩
    rcases stripGit_cases t with hgit | ⟨hno, hself⟩
    · right
      rw [← hsplit]
      exact hgit
    · left
      rw [hself] at hsplit
      refine ⟨?_, hsplit⟩
      rintro rfl
      rw [List.append_nil] at hsplit
      exact hno (hsplit ▸ List.suffix_append x git)

instance : Decidable (Masked value) := decidable_of_iff _ masked_iff.symm

theorem rdropWhile_append_self {p x : List Char} (hne : x ≠ []) (h : x.rdropWhile slash = x) :
    (p ++ x).rdropWhile slash = p ++ x := by
  rw [List.rdropWhile_eq_self_iff] at h ⊢
  intro hne'
  rw [List.getLast_append_of_ne_nil hne' hne]
  exact h hne

/-- **The result ends in `.git`** exactly if the spelling masks one. -/
theorem ends_git_iff (h : normaliseRepository value = .ok r) : git <:+ r.toList ↔ Masked value := by
  obtain ⟨htest, hr⟩ := normaliseRepository_ok.mp h
  have hslash := slash_mem htest
  rw [masked_iff]
  replace hr := congrArg String.toList hr
  unfold stripped at hr
  rw [String.toList_ofList] at hr
  generalize (lowerCase (trim value)).toList = t at hr
  obtain ⟨p, hp⟩ := stripHost_suffix t
  generalize stripHost t = x at hr hp
  obtain ⟨a, _, hfront⟩ := dropWhile_split (stripGit x)
  obtain ⟨b, hb, hback⟩ := rdropWhile_split ((stripGit x).dropWhile slash)
  have hrdrop : r.toList.rdropWhile slash = r.toList := by
    rw [hr]
    exact List.rdropWhile_idempotent slash _
  change r.toList = ((stripGit x).dropWhile slash).rdropWhile slash at hr
  rw [← hr] at hback
  have hstripped : stripGit x = a ++ r.toList ++ b := by
    rw [List.append_assoc, ← hback]
    exact hfront
  have hmem : '/' ∈ x := by
    have : '/' ∈ stripGit x := by
      rw [hstripped]
      simp [hslash]
    rcases stripGit_cases x with hgit | ⟨_, hself⟩
    · rw [hgit]
      exact List.mem_append_left _ this
    · rwa [← hself]
  rw [← hp, stripGit_append_left hmem, hstripped, ← List.append_assoc, rdropWhile_slashes hb,
    ← List.append_assoc, rdropWhile_append_self (List.ne_nil_of_mem hslash) hrdrop]
  exact (git_suffix_iff hslash).symm

end Accepted

/-! ## What a spelling comes to -/

section Spellings

variable {owner name lead trail : List Char} {value r : String}

theorem IsRepository.not_git (h : IsRepository owner name) {p : List Char} :
    ¬ git <:+ p ++ (owner ++ '/' :: name) := by
  intro hgit
  rw [← List.append_assoc] at hgit
  have hcons := (git_suffix_iff List.mem_cons_self).mp hgit
  rcases List.suffix_cons_iff.mp hcons with heq | hsuffix
  · have hhead : some '.' = some '/' := congrArg List.head? heq
    cases hhead
  · exact h.bare hsuffix

theorem IsRepository.slash_free (h : IsRepository owner name) : '/' ∉ owner ∧ '/' ∉ name :=
  ⟨fun hc => absurd (h.owner_chars _ hc) (by decide), fun hc => absurd (h.name_chars _ hc) (by decide)⟩

theorem IsRepository.rdropWhile (h : IsRepository owner name) {p : List Char} :
    (p ++ (owner ++ '/' :: name)).rdropWhile slash = p ++ (owner ++ '/' :: name) := by
  rw [List.rdropWhile_eq_self_iff]
  intro hne
  rw [← List.append_assoc] at hne
  simp only [← List.append_assoc]
  rw [List.getLast_append_of_ne_nil hne (List.cons_ne_nil _ _), List.getLast_cons h.name_ne]
  intro hslash
  exact h.slash_free.2 (beq_iff_eq.mp hslash ▸ List.getLast_mem h.name_ne)

/-- One ending fewer, or there is none to take away. -/
theorem stripGit_trail (hrep : IsRepository owner name) (h : Trail trail) {p : List Char} :
    ∃ trail', Trail trail' ∧ stripGit (p ++ (owner ++ '/' :: name) ++ trail) =
      p ++ (owner ++ '/' :: name) ++ trail' := by
  cases h with
  | nil =>
    rw [List.append_nil, stripGit_of_not hrep.not_git]
    exact ⟨[], .nil, (List.append_nil _).symm⟩
  | @slash s h =>
    refine ⟨s ++ ['/'], .slash h, stripGit_of_not ?_⟩
    rw [← List.append_assoc]
    exact not_git_suffix (by simp) (by simp)
  | @git s h =>
    refine ⟨s, h, ?_⟩
    rw [← List.append_assoc, stripGit_append]

/-- Without the slashes behind it, it ends in `.git` or is gone. -/
theorem rdropWhile_trail (hrep : IsRepository owner name) (h : Trail trail) {p : List Char} :
    ∃ trail', Trail trail' ∧ (p ++ (owner ++ '/' :: name) ++ trail).rdropWhile slash =
      p ++ (owner ++ '/' :: name) ++ trail' := by
  induction h with
  | nil =>
    rw [List.append_nil, hrep.rdropWhile]
    exact ⟨[], .nil, (List.append_nil _).symm⟩
  | slash _ ih =>
    rw [← List.append_assoc, List.rdropWhile_concat_pos _ _ _ (by decide)]
    exact ih
  | @git s h _ =>
    rw [← List.append_assoc, rdropWhile_git]
    exact ⟨s ++ git, .git h, by rw [List.append_assoc]⟩

/-- Endings without slashes. -/
theorem trail_gits (h : Trail trail) (hno : '/' ∉ trail) :
    trail = [] ∨ git <:+ trail := by
  cases h with
  | nil => exact .inl rfl
  | slash h => simp at hno
  | git h => exact .inr (List.suffix_append _ _)

/-- What is before the owner comes to slashes, or nothing is accepted. -/
theorem stripHost_lead (hrep : IsRepository owner name) (h : Lead lead)
    (hcolon : ':' ∉ stripSlashes (stripGit (stripHost (lead ++ (owner ++ '/' :: name) ++ trail)))) :
    ∃ a, (∀ c ∈ a, c = '/') ∧ stripHost (lead ++ (owner ++ '/' :: name) ++ trail) =
      a ++ (owner ++ '/' :: name) ++ trail := by
  have hno : ':' ∉ owner := fun hc => absurd (hrep.owner_chars _ hc) (by decide)
  cases h with
  | slashes ha =>
    refine ⟨lead, ha, stripHost_self ?_⟩
    cases lead with
    | nil =>
      have hgo : ∀ c ∈ owner, (!slash c) = true := by
        intro c hc
        have hne : c ≠ '/' := fun he => hrep.slash_free.1 (he ▸ hc)
        simp [slash, hne]
      rw [List.nil_append, List.append_assoc, List.takeWhile_append_of_pos hgo, List.cons_append,
        List.takeWhile_cons_of_neg (by decide), List.append_nil]
      exact hno
    | cons c lead =>
      obtain rfl := ha c List.mem_cons_self
      rw [List.cons_append, List.cons_append, List.takeWhile_cons_of_neg (by decide)]
      exact List.not_mem_nil
  | @host a scheme host b ha hscheme hne hhost hb =>
    cases a with
    | nil =>
      refine ⟨b, hb, ?_⟩
      have := @stripHost_host _ _ (b ++ (owner ++ '/' :: name) ++ trail) hscheme hne hhost
      simpa using this
    | cons c a =>
      -- the slash keeps the scheme from being one, and it stays
      obtain rfl := ha c List.mem_cons_self
      have hself : stripHost (('/' :: a) ++ scheme ++ host ++ '/' :: b ++
          (owner ++ '/' :: name) ++ trail) = ('/' :: a) ++ scheme ++ host ++ '/' :: b ++
            (owner ++ '/' :: name) ++ trail := by
        refine stripHost_self ?_
        simp only [List.cons_append]
        rw [List.takeWhile_cons_of_neg (by decide)]
        exact List.not_mem_nil
      rw [hself] at hcolon
      refine absurd (mem_stripSlashes (mem_stripGit ?_ (by decide)) (by decide)) hcolon
      have hmem : ':' ∈ scheme := by
        rcases hscheme with rfl | rfl <;> decide
      simp [hmem]

theorem count_slash (h : repositoryPattern.test r = true) : r.toList.count '/' = 1 := by
  obtain ⟨owner, name, hr, ⟨_, howner⟩, _, hname⟩ := repository_test.mp h
  have hone : ∀ w : List Char, (∀ c ∈ w, repositoryChar c = true) → w.count '/' = 0 := by
    intro w hw
    rw [List.count_eq_zero]
    exact fun hc => absurd (hw _ hc) (by decide)
  rw [hr, List.count_append, List.count_cons_self, hone owner howner, hone name hname]

/-- **What a spelling comes to**, if no `.git` stays: the owner and the name. -/
theorem result_of_spells (h : normaliseRepository value = .ok r) (hspells : Spells owner name value)
    (hbare : ¬ git <:+ r.toList) : r.toList = owner ++ '/' :: name := by
  obtain ⟨htest, hr⟩ := normaliseRepository_ok.mp h
  obtain ⟨hrep, lead, trail, hlead, htrail, htext⟩ := hspells
  replace hr := congrArg String.toList hr
  unfold stripped at hr
  rw [String.toList_ofList, htext] at hr
  obtain ⟨a, ha, hhost⟩ := stripHost_lead hrep hlead (hr ▸ colon_not_mem htest)
  obtain ⟨trail₁, htrail₁, hgit⟩ := stripGit_trail hrep htrail (p := a)
  rw [hhost, hgit] at hr
  have hfront : (a ++ (owner ++ '/' :: name) ++ trail₁).dropWhile slash =
      owner ++ '/' :: name ++ trail₁ := by
    have hgo : ∀ c ∈ a, slash c = true := fun c hc => beq_iff_eq.mpr (ha c hc)
    rw [List.append_assoc, List.dropWhile_append_of_pos hgo]
    cases howner : owner with
    | nil => exact absurd howner hrep.owner_ne
    | cons c w =>
      have hne : c ≠ '/' := by
        intro he
        apply hrep.slash_free.1
        rw [howner, he]
        exact List.mem_cons_self
      rw [List.cons_append, List.cons_append, List.dropWhile_cons_of_neg (by simp [slash, hne])]
  obtain ⟨trail₂, htrail₂, hback⟩ := rdropWhile_trail hrep htrail₁ (p := [])
  rw [List.nil_append] at hback
  have hresult : r.toList = owner ++ '/' :: name ++ trail₂ := by
    rw [hr]
    unfold stripSlashes
    rw [hfront]
    exact hback
  -- the only slash is the one between the owner and the name
  have hcount := count_slash htest
  rw [hresult, List.count_append, List.count_append, List.count_cons_self] at hcount
  have hno : '/' ∉ trail₂ := by
    rw [← List.count_eq_zero]
    omega
  rcases trail_gits htrail₂ hno with rfl | hsuffix
  · rw [hresult, List.append_nil]
  · refine absurd ?_ hbare
    rw [hresult]
    exact hsuffix.trans (List.suffix_append _ _)

end Spellings

end CloudWai.Linking
