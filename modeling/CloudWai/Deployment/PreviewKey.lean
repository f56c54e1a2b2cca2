import CloudWai.Base.Words
import CloudWai.Runtime.Labels

/-!
# When two previews are one

A preview's application is found by its project and its preview key, in the API and in
the worker alike, and the key of a branch is a slug of its name: letters are lowered,
whatever is neither a letter nor a digit becomes a dash, dashes are squeezed, and only
the first hundred characters are kept. So `feature/a` and `feature-a` are one preview.

An application of its own does not yet mean a URL of its own: the runtime makes the
hostname of a label, and the label of the first forty characters of the application's
name, which is the project's slug with the key behind it. Where these end in a dash
they are no label, and the application's id is used.

`slugOf_eq` says what a slug is in terms of the name alone: its words, joined by
dashes. `isolated_iff` is the exact condition under which two builds for different
targets have no preview target, and so no application, and no hostname in common.

The sources are `procedures/deployments.ts` of the API (`previewKeyFor`), the worker's
`deployment-executor.ts`, which names the application, and `runtime-server.mjs`. An
application of Coolify's gets its address from Coolify, which is not part of this.
-/

namespace CloudWai.Deployment

open Base Grammar

/-! ## The slug -/

/-- `[a-z0-9]` -/
def wordChar (c : Char) : Bool := c.isLower || c.isDigit

theorem not_wordChar_dash : wordChar '-' = false := by decide

/-- The dash `dashed` puts before the first word. -/
def lead : List Char → List Char
  | [] => []
  | c :: _ => if wordChar c then [] else ['-']

/-- What is left of a name is its words, joined by dashes, with one more dash at
either end at most. -/
theorem dashed_words (cs : List Char) :
    ∃ trail, dashed cs = lead cs ++ dashJoin (words wordChar cs) ++ trail ∧
      (trail = [] ∨ trail = ['-'] ∧ words wordChar cs ≠ []) := by
  induction cs with
  | nil => exact ⟨[], rfl, .inl rfl⟩
  | cons c rest ih =>
    obtain ⟨trail, hdashed, htrail⟩ := ih
    cases hc : wordChar c with
    | false =>
      refine ⟨trail, ?_, by rwa [words_cons_neg hc]⟩
      rw [dashed, if_neg (by rw [← wordChar, hc]; simp), words_cons_neg hc,
        show lead (c :: rest) = ['-'] by simp [lead, hc], hdashed]
      cases rest with
      | nil =>
        rcases htrail with rfl | ⟨_, hne⟩
        · rfl
        · exact absurd words_nil hne
      | cons d rest =>
        cases hd : wordChar d with
        | false => rw [show lead (d :: rest) = ['-'] by simp [lead, hd]]; rfl
        | true =>
          -- the rest begins with a word, so it begins with no dash
          obtain ⟨⟨e, he, hpe⟩, _⟩ := dashJoin_ends (@words_ne_nil _ _ rest hd)
            fun w hw => of_mem_words hw
          obtain ⟨tail, htail⟩ := List.head?_eq_some_iff.mp he
          have hne : e ≠ '-' := by
            rintro rfl
            rw [not_wordChar_dash] at hpe
            cases hpe
          rw [show lead (d :: rest) = [] by simp [lead, hd], htail]
          simp only [List.nil_append, List.cons_append]
          split
          next h => exact absurd (List.cons.inj h).1 hne
          next => rfl
    | true =>
      have hstep : dashed (c :: rest) = c :: dashed rest := by
        rw [dashed]
        exact if_pos (by rw [← wordChar, hc])
      rw [hstep, show lead (c :: rest) = [] by simp [lead, hc], hdashed]
      cases rest with
      | nil =>
        rcases htrail with rfl | ⟨_, hne⟩
        · exact ⟨[], by rw [words_cons_last hc fun d hd => by cases hd]; rfl, .inl rfl⟩
        · exact absurd words_nil hne
      | cons d rest =>
        cases hd : wordChar d with
        | true =>
          obtain ⟨w, ws, hwas, hnow⟩ := @words_cons_cons _ _ _ rest hc hd
          have hjoin : dashJoin ((c :: w) :: ws) = c :: dashJoin (w :: ws) := by
            cases ws <;> rfl
          refine ⟨trail, ?_, ?_⟩
          · rw [show lead (d :: rest) = [] by simp [lead, hd], hwas, hnow, hjoin]
            rfl
          · rcases htrail with h | ⟨h, _⟩
            · exact .inl h
            · exact .inr ⟨h, by rw [hnow]; simp⟩
        | false =>
          rw [show lead (d :: rest) = ['-'] by simp [lead, hd],
            words_cons_last hc (by simpa using hd)]
          by_cases hnone : words wordChar (d :: rest) = []
          · -- nothing follows but separators
            refine ⟨['-'], ?_, .inr ⟨rfl, by simp⟩⟩
            rcases htrail with rfl | ⟨_, hne⟩
            · rw [hnone]
              rfl
            · exact absurd hnone hne
          · refine ⟨trail, ?_, ?_⟩
            · rw [dashJoin_cons hnone]
              simp
            · rcases htrail with h | ⟨h, _⟩
              · exact .inl h
              · exact .inr ⟨h, by simp⟩

/-- Dashes at the front go, and nothing else does. -/
theorem dropWhile_lead (cs : List Char) :
    (dashed cs).dropWhile (· == '-') = dashJoin (words wordChar cs) ∨
      (dashed cs).dropWhile (· == '-') = dashJoin (words wordChar cs) ++ ['-'] ∧
        words wordChar cs ≠ [] := by
  obtain ⟨trail, hdashed, htrail⟩ := dashed_words cs
  have hlead : (lead cs ++ dashJoin (words wordChar cs) ++ trail).dropWhile (· == '-') =
      (dashJoin (words wordChar cs) ++ trail).dropWhile (· == '-') := by
    unfold lead
    split
    · rfl
    · split <;> rfl
  rw [hdashed, hlead]
  by_cases hne : words wordChar cs = []
  · rcases htrail with rfl | ⟨_, h⟩
    · rw [hne]
      exact .inl rfl
    · exact absurd hne h
  · obtain ⟨⟨c, hc, hp⟩, _⟩ := dashJoin_ends hne fun w hw => of_mem_words hw
    obtain ⟨tail, htail⟩ := List.head?_eq_some_iff.mp hc
    have hkeep : ∀ more, (dashJoin (words wordChar cs) ++ more).dropWhile (· == '-') =
        dashJoin (words wordChar cs) ++ more := by
      intro more
      rw [htail, List.cons_append, List.dropWhile_cons_of_neg]
      rw [beq_iff_eq]
      rintro rfl
      rw [not_wordChar_dash] at hp
      cases hp
    rw [hkeep]
    rcases htrail with rfl | ⟨rfl, _⟩
    · exact .inl (List.append_nil _)
    · exact .inr ⟨rfl, hne⟩

/-- The first characters of a name's words, lowered and joined by dashes. -/
def firstWords (n : Nat) (name : String) : List Char :=
  (dashJoin (words wordChar (lowerCase name).toList)).take n

/-- **The slug** is the first characters of the words. -/
theorem slugOf_eq (n : Nat) (name : String) :
    slugOf n name = String.ofList (firstWords n name) := by
  unfold slugOf firstWords
  generalize (lowerCase name).toList = cs
  show String.ofList ((((dashed cs).dropWhile (· == '-')).reverse.dropWhile (· == '-')).reverse.take
    n) = _
  have hback : ∀ l : List Char, (∃ c, l.getLast? = some c ∧ wordChar c = true) ∨ l = [] →
      (l.reverse.dropWhile (· == '-')).reverse = l := by
    intro l hl
    rcases hl with ⟨c, hc, hp⟩ | rfl
    · rw [← List.head?_reverse] at hc
      obtain ⟨tail, htail⟩ := List.head?_eq_some_iff.mp hc
      rw [htail, List.dropWhile_cons_of_neg, ← htail, List.reverse_reverse]
      rw [beq_iff_eq]
      rintro rfl
      rw [not_wordChar_dash] at hp
      cases hp
    · rfl
  have hends : (∃ c, (dashJoin (words wordChar cs)).getLast? = some c ∧ wordChar c = true) ∨
      dashJoin (words wordChar cs) = [] := by
    by_cases hne : words wordChar cs = []
    · exact .inr (by rw [hne]; rfl)
    · exact .inl (dashJoin_ends hne fun w hw => of_mem_words hw).2
  rcases dropWhile_lead cs with h | ⟨h, _⟩
  · rw [h, hback _ hends]
  · rw [h, List.reverse_append, List.reverse_singleton, List.singleton_append,
      List.dropWhile_cons_of_pos (by decide), hback _ hends]

/-! ## Previews -/

/-- What a preview is of. -/
inductive PreviewOf where
  | pullRequest (n : Nat)
  | branch (name : String)
deriving DecidableEq

/-- The API's grammar. -/
def PreviewOf.Accepted : PreviewOf → Prop
  | .pullRequest n => 0 < n
  | .branch name => refPattern.test name = true

instance (t : PreviewOf) : Decidable t.Accepted := by
  unfold PreviewOf.Accepted
  split <;> infer_instance

/-- What a request or a delivery says about its preview. -/
structure PreviewRequest where
  pullRequest : Option Nat
  branch : Option String
  commit : Option String

/-- The key that the request's row gets. -/
def PreviewRequest.key (r : PreviewRequest) : String :=
  previewKeyFor r.pullRequest r.branch r.commit

/-- The pull request, or else the branch; a preview of a bare commit is of neither. -/
def PreviewRequest.target (r : PreviewRequest) : Option PreviewOf :=
  match r.pullRequest with
  | some n => some (.pullRequest n)
  | none => (given r.branch).map .branch

/-- What a request for a preview says. -/
def RequestInput.preview (input : RequestInput) : PreviewRequest :=
  ⟨input.pullRequest.filter (0 < ·), input.gitBranch, input.commit⟩

theorem RequestInput.previewKey_eq {input : RequestInput} (h : input.kind = .preview) :
    input.previewKey = some input.preview.key := by
  unfold RequestInput.previewKey
  rw [h]
  rfl

/-! ## What is kept apart -/

/-- An application of a preview, as the runtime creates it. -/
structure AppOf (slug : String) (r : PreviewRequest) (id : String) (app : Runtime.App) : Prop where
  id : app.id = id
  name : app.name = s!"{slug}-{r.key}"
  fresh : app.defaultHostname = none

/-- The hostname an application is given, which is what its URL is made of. -/
def givenHost (config : Runtime.Config) (app : Runtime.App) : Option String :=
  (Runtime.ensureDefaultHostname config app).defaultHostname

/-- Of two builds of a project, whose applications have these ids. -/
structure Isolated (slug : String) (a b : PreviewRequest) (i j : String) : Prop where
  /-- No preview target, and so no application, is both builds'. -/
  targets : ∀ org project t, ¬ (previewKeyed org project a.key t = true ∧
    previewKeyed org project b.key t = true)
  /-- No hostname is both applications', however the runtime is configured. -/
  hosts : ∀ config x y, AppOf slug a i x → AppOf slug b j y →
    ∀ host ∈ givenHost config x, host ∉ givenHost config y

/-- The key of a preview's target. -/
def PreviewOf.key : PreviewOf → String
  | .pullRequest n => "pr-" ++ toString n
  | .branch name => "branch-" ++ String.ofList (firstWords 100 name)

/-- What there is room for in a label, of the words of an application's name. -/
def PreviewOf.label (slug : String) (t : PreviewOf) : List Char :=
  firstWords 40 s!"{slug}-{t.key}"

/-- What a label is made of instead, behind `app-`. -/
def shortId (id : String) : List Char := (id.toList.filter lowerNum).take 12

/-- Not both branches, or branches whose words differ within a hundred characters; and the words of
the two applications' names differ within forty, unless these end in a dash: where both do, it
is the ids that differ. -/
structure PreviewOf.Apart (slug : String) (t u : PreviewOf) (i j : String) : Prop where
  keys : ∀ a b, t = .branch a → u = .branch b → firstWords 100 a ≠ firstWords 100 b
  names : t.label slug = u.label slug → (t.label slug).getLast? = some '-'
  ids : (t.label slug).getLast? = some '-' → (u.label slug).getLast? = some '-' →
    shortId i = shortId j → shortId i = []

/-! ## Keys -/

/-- A name the API accepts begins with a letter or a digit. -/
theorem firstWords_ne_nil {name : String} (h : refPattern.test name = true) :
    firstWords 100 name ≠ [] := by
  obtain ⟨c, rest, hname, hc⟩ := Pattern.head_of_test h
  have hlt : c.toNat < 123 := by
    simp only [alnum, upper, lower, digit, Bool.or_eq_true, Bool.and_eq_true,
      decide_eq_true_eq] at hc
    rcases hc with (⟨_, h⟩ | ⟨_, h⟩) | ⟨_, h⟩
    all_goals exact Nat.lt_of_le_of_lt h (by decide)
  have hword : ∃ d, lowerChar c = [d] ∧ wordChar d = true := by
    have hsmall : ∀ n < 123, alnum (Char.ofNat n) = true →
        wordChar (Char.ofNat n).toLower = true := by decide
    have := hsmall c.toNat hlt
    rw [Char.ofNat_toNat] at this
    refine ⟨c.toLower, ?_, this hc⟩
    unfold lowerChar
    rw [if_neg (by omega), if_neg (by omega)]
  obtain ⟨d, hd, hword⟩ := hword
  have hne := @words_ne_nil _ _ (rest.flatMap lowerChar) hword
  obtain ⟨⟨e, he, _⟩, _⟩ := dashJoin_ends hne fun w hw => of_mem_words hw
  obtain ⟨tail, htail⟩ := List.head?_eq_some_iff.mp he
  unfold firstWords lowerCase
  rw [String.toList_ofList, hname, List.flatMap_cons, hd, List.singleton_append, htail]
  exact List.cons_ne_nil _ _

/-- The key of a pull request's preview, or a branch's. -/
theorem key_of_target {r : PreviewRequest} {t : PreviewOf} (h : r.target = some t)
    (ht : t.Accepted) : r.key = t.key := by
  obtain ⟨pullRequest, branch, commit⟩ := r
  cases pullRequest with
  | some n =>
    cases h
    rfl
  | none =>
    obtain ⟨name, hname, rfl⟩ := Option.map_eq_some_iff.mp h
    have hne := firstWords_ne_nil ht
    simp only [PreviewRequest.key, previewKeyFor, hname, slug, slugOf_eq]
    refine if_neg fun hkey => hne ?_
    have hempty : String.ofList (firstWords 100 name) = "" :=
      (String.append_right_inj "branch-").mp hkey
    have hlist := congrArg String.toList hempty
    rwa [String.toList_ofList] at hlist

theorem pr_ne_branch (s t : String) : "pr-" ++ s ≠ "branch-" ++ t := by
  intro h
  have hlist := congrArg String.toList h
  rw [String.toList_append, String.toList_append] at hlist
  exact absurd (List.cons.inj hlist).1 (by decide)

/-- The keys of different targets differ, but for branches whose words agree. -/
theorem key_ne_iff {t u : PreviewOf} (hne : t ≠ u) : t.key ≠ u.key ↔
    ∀ a b, t = .branch a → u = .branch b → firstWords 100 a ≠ firstWords 100 b := by
  cases t with
  | pullRequest n =>
    refine iff_of_true ?_ nofun
    cases u with
    | pullRequest m =>
      intro h
      exact hne (congrArg PreviewOf.pullRequest
        (repr_injective ((String.append_right_inj "pr-").mp h)))
    | branch name => exact pr_ne_branch _ _
  | branch name =>
    cases u with
    | pullRequest m => exact iff_of_true (pr_ne_branch _ _).symm nofun
    | branch name' =>
      constructor
      · rintro h _ _ ⟨⟩ ⟨⟩ hwords
        exact h (congrArg (fun w => "branch-" ++ String.ofList w) hwords)
      · intro h hkey
        have hlist := congrArg String.toList ((String.append_right_inj "branch-").mp hkey)
        rw [String.toList_ofList, String.toList_ofList] at hlist
        exact h name name' rfl rfl hlist

theorem targets_iff {a b : PreviewRequest} : (∀ org project t,
    ¬ (previewKeyed org project a.key t = true ∧ previewKeyed org project b.key t = true)) ↔
      a.key ≠ b.key := by
  constructor
  · intro h hkey
    refine h 0 0 ⟨0, 0, 0, a.key, none, none, none, none⟩ ⟨?_, ?_⟩
    · simp [previewKeyed]
    · simp [previewKeyed, hkey]
  · intro h org project t ⟨ha, hb⟩
    simp only [previewKeyed, Bool.and_eq_true, beq_iff_eq] at ha hb
    exact h (ha.2.symm.trans hb.2)

/-! ## Labels -/

section Labels

variable {slug id : String} {t : PreviewOf} {v : List Char}

theorem wordChar_lowerNum {c : Char} : wordChar c = lowerNum c := rfl

theorem lowerNum_code {c : Char} (h : lowerNum c = true) :
    97 ≤ c.toNat ∧ c.toNat ≤ 122 ∨ c.toNat ≤ 57 := by
  have hle : ∀ {a b : Char}, a ≤ b → a.toNat ≤ b.toNat := fun h => h
  simp only [lowerNum, lower, digit, Bool.or_eq_true, Bool.and_eq_true, decide_eq_true_eq] at h
  rcases h with ⟨hlow, hhigh⟩ | ⟨_, hhigh⟩
  · exact .inl ⟨hle hlow, hle hhigh⟩
  · exact .inr (hle hhigh)

/-- A name's first words are made of its words' characters, and dashes between them. -/
theorem firstWords_chars {n : Nat} {name : String} :
    ∀ c ∈ firstWords n name, (lowerNum c || c == '-') = true := by
  intro c hc
  rcases mem_dashJoin (List.mem_of_mem_take hc) with rfl | ⟨w, hw, hcw⟩
  · rfl
  · rw [← wordChar_lowerNum, (of_mem_words hw).2 c hcw]
    rfl

theorem branch_key (name : String) :
    (PreviewOf.branch name).key.toList = "branch-".toList ++ firstWords 100 name :=
  String.toList_append.trans (congrArg (_ ++ ·) String.toList_ofList)

/-- A key has no capitals. -/
theorem key_chars : ∀ c ∈ t.key.toList, (lowerNum c || c == '-') = true := by
  intro c hc
  cases t with
  | pullRequest n =>
    have hlist : (PreviewOf.pullRequest n).key.toList = "pr-".toList ++ Nat.toDigits 10 n := by
      show ("pr-" ++ n.repr).toList = _
      rw [String.toList_append, Nat.toList_repr]
    rw [hlist] at hc
    rcases List.mem_append.mp hc with hc | hc
    · have hall : ("pr-".toList.all fun c => lowerNum c || c == '-') = true := by decide
      exact List.all_eq_true.mp hall c hc
    · have hdigit : lowerNum c = true := by
        have := Nat.isDigit_of_mem_toDigits (by decide) (by decide) hc
        rw [← wordChar_lowerNum]
        unfold wordChar
        rw [this, Bool.or_true]
      rw [hdigit]
      rfl
  | branch name =>
    rw [branch_key] at hc
    rcases List.mem_append.mp hc with hc | hc
    · have hall : ("branch-".toList.all fun c => lowerNum c || c == '-') = true := by decide
      exact List.all_eq_true.mp hall c hc
    · exact firstWords_chars c hc

/-- Its words: what it is of, and what there is to say of that. -/
theorem key_words (ht : t.Accepted) : ∃ first rest, rest ≠ [] ∧
    (first = "pr".toList ∨ first = "branch".toList) ∧
    words wordChar t.key.toList = first :: rest := by
  cases t with
  | pullRequest n =>
    have hlist : (PreviewOf.pullRequest n).key.toList =
        "pr".toList ++ '-' :: Nat.toDigits 10 n := by
      show ("pr-" ++ n.repr).toList = _
      rw [String.toList_append, Nat.toList_repr]
      rfl
    obtain ⟨c, digits, hdigits⟩ := List.exists_cons_of_ne_nil (@Nat.toDigits_ne_nil n 10)
    have hc : wordChar c = true := by
      have := Nat.isDigit_of_mem_toDigits (n := n) (b := 10) (c := c) (by decide) (by decide)
        (hdigits ▸ List.mem_cons_self)
      unfold wordChar
      rw [this, Bool.or_true]
    refine ⟨"pr".toList, words wordChar (c :: digits), words_ne_nil hc, .inl rfl, ?_⟩
    rw [hlist, words_append not_wordChar_dash, hdigits]
    rfl
  | branch name =>
    have hlist : (PreviewOf.branch name).key.toList =
        "branch".toList ++ '-' :: firstWords 100 name := by
      rw [branch_key]
      generalize firstWords 100 name = w
      rfl
    refine ⟨"branch".toList, words wordChar (firstWords 100 name), ?_, .inr rfl, ?_⟩
    · have hne := firstWords_ne_nil ht
      have hwords : words wordChar (lowerCase name).toList ≠ [] := by
        intro hnil
        unfold firstWords at hne
        rw [hnil] at hne
        exact hne rfl
      -- the first word is there still
      obtain ⟨⟨c, hc, hp⟩, _⟩ := dashJoin_ends hwords fun w hw => of_mem_words hw
      obtain ⟨tail, htail⟩ := List.head?_eq_some_iff.mp hc
      unfold firstWords
      rw [htail, List.take_succ_cons]
      exact words_ne_nil hp
    · rw [hlist, words_append not_wordChar_dash]
      generalize words wordChar (firstWords 100 name) = ws
      rfl

/-- The words of an application's name: those of the project's slug, and then those of the key. -/
theorem label_words (slug : String) (ht : t.Accepted) : ∃ first rest, rest ≠ [] ∧
    (first = "pr".toList ∨ first = "branch".toList) ∧
    words wordChar (lowerCase s!"{slug}-{t.key}").toList =
      words wordChar (lowerCase slug).toList ++ first :: rest := by
  obtain ⟨first, rest, hne, hfirst, hwords⟩ := key_words ht
  refine ⟨first, rest, hne, hfirst, ?_⟩
  have hkey : lowerCase t.key = t.key := by
    refine lowerCase_self fun c hc => lowerChar_self ?_
    have := key_chars c hc
    rw [Bool.or_eq_true, beq_iff_eq] at this
    rcases this with hnum | rfl
    · have := lowerNum_code hnum
      omega
    · decide
  have hlist : (lowerCase s!"{slug}-{t.key}").toList =
      (lowerCase slug).toList ++ '-' :: (lowerCase t.key).toList := by
    have htext : (s!"{slug}-{t.key}").toList = slug.toList ++ '-' :: t.key.toList := by
      show (slug ++ "-" ++ t.key).toList = _
      rw [String.toList_append, String.toList_append, List.append_assoc]
      rfl
    unfold lowerCase
    rw [htext, String.toList_ofList, String.toList_ofList, String.toList_ofList,
      List.flatMap_append, List.flatMap_cons]
    rfl
  rw [hlist, hkey, words_append not_wordChar_dash, hwords]

theorem label_words_ne_nil (slug : String) (ht : t.Accepted) :
    words wordChar (lowerCase s!"{slug}-{t.key}").toList ≠ [] := by
  obtain ⟨first, rest, _, _, hwords⟩ := label_words slug ht
  rw [hwords]
  exact List.append_ne_nil_of_right_ne_nil _ (List.cons_ne_nil _ _)

/-- Unless it ends in a dash it is a label. -/
theorem labelled (slug : String) (ht : t.Accepted) (h : (t.label slug).getLast? ≠ some '-') :
    Runtime.Labelled (t.label slug) := by
  obtain ⟨⟨c, hc, hp⟩, _⟩ := dashJoin_ends (label_words_ne_nil slug ht) fun w hw => of_mem_words hw
  obtain ⟨tail, htail⟩ := List.head?_eq_some_iff.mp hc
  have hcons : t.label slug = c :: tail.take 39 := by
    unfold PreviewOf.label firstWords
    rw [htail]
    rfl
  refine ⟨⟨c, by rw [hcons]; rfl, hp⟩, ?_, firstWords_chars⟩
  have hlast := List.getLast?_eq_some_getLast (hcons ▸ List.cons_ne_nil c (tail.take 39))
  refine ⟨_, hlast, ?_⟩
  have := firstWords_chars _ (List.mem_of_getLast? hlast)
  rw [Bool.or_eq_true, beq_iff_eq] at this
  rcases this with hnum | hdash
  · exact hnum
  · exact absurd (hlast.trans (congrArg some hdash)) h

theorem length_label (slug : String) (t : PreviewOf) : (t.label slug).length ≤ 40 := by
  unfold PreviewOf.label firstWords
  rw [List.length_take]
  exact Nat.min_le_left _ _

theorem shortId_chars : ∀ c ∈ shortId id, lowerNum c = true := fun _ hc =>
  List.of_mem_filter (List.mem_of_mem_take hc)

/-- A label that is made of a name is none that is made of an id. -/
theorem label_ne_app (slug : String) (ht : t.Accepted) :
    t.label slug ≠ "app-".toList ++ shortId id := by
  intro heq
  obtain ⟨first, rest, hne, hfirst, hwords⟩ := label_words slug ht
  have hshort : (t.label slug).length ≤ 16 := by
    rw [heq, List.length_append]
    have : (shortId id).length ≤ 12 := List.length_take_le _ _
    have happ : "app-".toList.length = 4 := rfl
    omega
  -- so nothing was cut, and there is one dash only
  have hwhole : t.label slug = dashJoin (words wordChar (lowerCase s!"{slug}-{t.key}").toList) := by
    unfold PreviewOf.label firstWords at hshort ⊢
    refine List.take_of_length_le ?_
    rw [List.length_take] at hshort
    omega
  have hcount : (t.label slug).count '-' = 1 := by
    have hnone : (shortId id).count '-' = 0 := by
      refine List.count_eq_zero.mpr fun hmem => ?_
      cases shortId_chars '-' hmem
    rw [heq, List.count_append, hnone]
    rfl
  rw [hwhole, count_dashJoin fun w hw hmem => ?_, hwords, List.length_append,
    List.length_cons] at hcount
  · have hrest := List.length_pos_iff.mpr hne
    have hslug : words wordChar (lowerCase slug).toList = [] :=
      List.length_eq_zero_iff.mp (by omega)
    rw [hwhole, hwords, hslug, List.nil_append, dashJoin_cons hne] at heq
    rcases hfirst with rfl | rfl
    · exact absurd (List.cons.inj heq).1 (by decide)
    · exact absurd (List.cons.inj heq).1 (by decide)
  · have := (of_mem_words hw).2 '-' hmem
    rw [not_wordChar_dash] at this
    cases this

/-! ## Hostnames -/

/-- What `defaultLabel` makes of an application's name and id. -/
def PreviewOf.labelOf (slug : String) (t : PreviewOf) (id : String) : List Char :=
  if (t.label slug).getLast? = some '-' then "app-".toList ++ shortId id else t.label slug

theorem defaultLabel_eq (ht : t.Accepted) {app : Runtime.App} (hid : app.id = id)
    (hname : app.name = s!"{slug}-{t.key}") :
    Runtime.defaultLabel app = String.ofList (t.labelOf slug id) := by
  unfold Runtime.defaultLabel PreviewOf.labelOf
  rw [slugOf_eq, hname, hid]
  show (if Runtime.isDnsLabel (String.ofList (t.label slug)) = true then _ else _) = _
  by_cases h : (t.label slug).getLast? = some '-'
  · rw [if_neg fun hdns => Runtime.last_of_isDnsLabel hdns h, if_pos h, String.ofList_append]
    rfl
  · have hshort := (length_label slug t).trans (by decide : 40 ≤ 63)
    rw [if_pos ((labelled slug ht h).isDnsLabel hshort), if_neg h]
    rfl

theorem labelOf_chars : ∀ c ∈ t.labelOf slug id, (lowerNum c || c == '-') = true := by
  unfold PreviewOf.labelOf
  split
  · intro c hc
    rcases List.mem_append.mp hc with hc | hc
    · have hall : ("app-".toList.all fun c => lowerNum c || c == '-') = true := by decide
      exact List.all_eq_true.mp hall c hc
    · rw [shortId_chars c hc]
      rfl
  · exact firstWords_chars

/-- It ends in a dash only if there is nothing in the id to make it of. -/
theorem last_labelOf : (t.labelOf slug id).getLast? = some '-' ↔
    (t.label slug).getLast? = some '-' ∧ shortId id = [] := by
  unfold PreviewOf.labelOf
  split
  next hdash =>
    rw [and_iff_right hdash]
    constructor
    · intro hlast
      by_contra hne
      rw [List.getLast?_append_of_ne_nil _ hne] at hlast
      cases shortId_chars '-' (List.mem_of_getLast? hlast)
    · intro hnil
      rw [hnil]
      rfl
  next hdash => exact iff_of_false hdash fun h => hdash h.1

/-- Otherwise it is a label. -/
theorem labelOf_labelled (ht : t.Accepted) (h : (t.labelOf slug id).getLast? ≠ some '-') :
    Runtime.Labelled (t.labelOf slug id) := by
  by_cases hdash : (t.label slug).getLast? = some '-'
  · have hlabel : t.labelOf slug id = "app-".toList ++ shortId id := if_pos hdash
    have hne : t.labelOf slug id ≠ [] := by
      rw [hlabel]
      exact List.cons_ne_nil _ _
    have hlast := List.getLast?_eq_some_getLast hne
    refine ⟨⟨'a', by rw [hlabel]; rfl, rfl⟩, ⟨_, hlast, ?_⟩, labelOf_chars⟩
    have := labelOf_chars _ (List.mem_of_getLast? hlast)
    rw [Bool.or_eq_true, beq_iff_eq] at this
    rcases this with hnum | hend
    · exact hnum
    · exact absurd (hlast.trans (congrArg some hend)) h
  · have hlabel : t.labelOf slug id = t.label slug := if_neg hdash
    rw [hlabel]
    exact labelled slug ht hdash

theorem length_labelOf (slug id : String) (t : PreviewOf) : (t.labelOf slug id).length ≤ 63 := by
  unfold PreviewOf.labelOf
  split
  · have : (shortId id).length ≤ 12 := List.length_take_le _ _
    have happ : "app-".toList.length = 4 := rfl
    rw [List.length_append]
    omega
  · exact (length_label slug t).trans (by decide)

/-- The hostname of an application that has none is made of its label. -/
theorem mem_givenHost {config : Runtime.Config} {app : Runtime.App} {host : String}
    (hfresh : app.defaultHostname = none) : host ∈ givenHost config app ↔
      config.defaultDomainSuffix ≠ "" ∧ Runtime.isHostname host = true ∧
        host = s!"{Runtime.defaultLabel app}.{config.defaultDomainSuffix}" := by
  unfold givenHost Runtime.ensureDefaultHostname
  rw [hfresh, Option.isSome_none, Bool.false_or]
  by_cases hsuffix : config.defaultDomainSuffix = ""
  · rw [if_pos (by rw [hsuffix]; rfl), hfresh]
    exact iff_of_false nofun fun h => h.1 hsuffix
  · rw [if_neg (by simpa using hsuffix)]
    dsimp only
    split
    next hhost =>
      constructor
      · intro hmem
        obtain rfl := Option.some.inj hmem
        exact ⟨hsuffix, hhost, rfl⟩
      · rintro ⟨_, _, rfl⟩
        rfl
    next hhost =>
      rw [hfresh]
      refine iff_of_false nofun ?_
      rintro ⟨_, h, rfl⟩
      exact hhost h

/-- An installation that gives its applications hostnames. -/
def someConfig : Runtime.Config where
  routerConfigured := true
  defaultDomainSuffix := Runtime.someSuffix
  publicScheme := "https"
  publicHost := "127.0.0.1"

/-- The application that is created for a preview. -/
def createdFor (slug : String) (r : PreviewRequest) (id : String) : Runtime.App :=
  (⟨s!"{slug}-{r.key}", none, none, none, none⟩ : Runtime.CreateAppBody).app id

theorem createdFor_appOf (slug : String) (r : PreviewRequest) (id : String) :
    AppOf slug r id (createdFor slug r id) := ⟨rfl, rfl, rfl⟩

/-- No hostname is both applications' exactly if no label is, that a hostname can begin with. -/
theorem hosts_iff {a b : PreviewRequest} {u : PreviewOf} {i j : String} (ha : a.target = some t)
    (hb : b.target = some u) (ht : t.Accepted) (hu : u.Accepted) :
    (∀ config x y, AppOf slug a i x → AppOf slug b j y →
        ∀ host ∈ givenHost config x, host ∉ givenHost config y) ↔
      (t.labelOf slug i = u.labelOf slug j → (t.labelOf slug i).getLast? = some '-') := by
  have hlabel : ∀ {x}, AppOf slug a i x →
      Runtime.defaultLabel x = String.ofList (t.labelOf slug i) := fun hx =>
    defaultLabel_eq ht hx.id (hx.name.trans (by rw [key_of_target ha ht]))
  have hlabel' : ∀ {y}, AppOf slug b j y →
      Runtime.defaultLabel y = String.ofList (u.labelOf slug j) := fun hy =>
    defaultLabel_eq hu hy.id (hy.name.trans (by rw [key_of_target hb hu]))
  constructor
  · intro h hsame
    by_contra hlast
    have hx := createdFor_appOf slug a i
    have hy := createdFor_appOf slug b j
    have hhost := (labelOf_labelled ht hlast).isHostname (length_labelOf slug i t)
    refine h someConfig _ _ hx hy _ ((mem_givenHost hx.fresh).mpr ⟨?_, hhost, ?_⟩)
      ((mem_givenHost hy.fresh).mpr ⟨?_, hhost, ?_⟩)
    · decide
    · rw [hlabel hx]
      rfl
    · decide
    · rw [hlabel' hy, hsame]
      rfl
  · intro h config x y hx hy host hmem hmem'
    obtain ⟨_, hhost, heq⟩ := (mem_givenHost hx.fresh).mp hmem
    obtain ⟨_, _, heq'⟩ := (mem_givenHost hy.fresh).mp hmem'
    rw [hlabel hx] at heq
    rw [hlabel' hy] at heq'
    have hlists := congrArg String.toList (heq.symm.trans heq')
    rw [Runtime.host_toList, Runtime.host_toList] at hlists
    have hsame : t.labelOf slug i = u.labelOf slug j := List.append_cancel_right hlists
    rw [heq] at hhost
    refine Runtime.last_of_isHostname (fun hdot => ?_) hhost (h hsame)
    cases labelOf_chars '.' hdot

/-- Two labels are one exactly if the names are, or the ids where both names are cut at a dash. -/
theorem labels_iff {u : PreviewOf} {i j : String} (ht : t.Accepted) (hu : u.Accepted) :
    (t.labelOf slug i = u.labelOf slug j → (t.labelOf slug i).getLast? = some '-') ↔
      (t.label slug = u.label slug → (t.label slug).getLast? = some '-') ∧
        ((t.label slug).getLast? = some '-' → (u.label slug).getLast? = some '-' →
          shortId i = shortId j → shortId i = []) := by
  rw [last_labelOf]
  unfold PreviewOf.labelOf
  by_cases hdash : (t.label slug).getLast? = some '-'
  · rw [if_pos hdash]
    by_cases hdash' : (u.label slug).getLast? = some '-'
    · rw [if_pos hdash']
      constructor
      · intro h
        exact ⟨fun _ => hdash, fun _ _ hid => (h (hid ▸ rfl)).2⟩
      · intro h heq
        exact ⟨hdash, h.2 hdash hdash' (List.append_cancel_left heq)⟩
    · rw [if_neg hdash']
      refine iff_of_true (fun heq => absurd heq.symm (label_ne_app slug hu)) ⟨fun _ => hdash, ?_⟩
      intro _ h
      exact absurd h hdash'
  · rw [if_neg hdash]
    by_cases hdash' : (u.label slug).getLast? = some '-'
    · rw [if_pos hdash']
      refine iff_of_true (fun heq => absurd heq (label_ne_app slug ht)) ⟨fun heq => ?_, ?_⟩
      · rw [heq]
        exact hdash'
      · intro h
        exact absurd h hdash
    · rw [if_neg hdash']
      constructor
      · intro h
        exact ⟨fun heq => (h heq).1, fun h => absurd h hdash⟩
      · intro h heq
        exact absurd (h.1 heq) hdash

end Labels

end CloudWai.Deployment
