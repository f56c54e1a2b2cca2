import CloudWai.Router.Alive

/-!
# Where a request is forwarded to

The router (`proxy` of `router-server.mjs`) resolves a request target against the
upstream of the route, as a browser resolves a link on a page. A link may lead anywhere:
with a scheme and an authority of its own it does, and with two slashes in front, of
either kind, it takes over the scheme only. So a request stays with its upstream exactly
if its target names no authority, or the upstream's (`forwarded_iff`); and it arrives as
it was written exactly if, besides, its path and query are normal.

One upstream is not reached at all. `URL.hostname` writes an IPv6 address in brackets,
and `http.request` looks `[::1]` up as a name.
-/

namespace CloudWai.Router

open Base Url Deployment

/-! ## Request targets -/

/-- What a request line has between the method and the version, as the HTTP parser
tells them apart: origin form, absolute form, and what starts with an asterisk. -/
inductive RequestTarget where
  | origin (rest : Text)
  | absolute (scheme rest : Text) (letters : scheme ≠ [] ∧ ∀ c ∈ scheme, c.isAlpha)
  | asterisk (rest : Text)

/-- `req.url` -/
def RequestTarget.wire : RequestTarget → Text
  | .origin rest => '/' :: rest
  | .absolute scheme rest _ => scheme ++ (':' :: '/' :: '/' :: rest)
  | .asterisk rest => '*' :: rest

/-- The request's own path and query. -/
def RequestTarget.own : RequestTarget → Text
  | .origin rest => '/' :: rest
  | .absolute _ rest _ =>
    match rest.dropWhile (!endsAuthority ·) with
    | '/' :: cs => '/' :: cs
    | cs => '/' :: cs
  | .asterisk rest => '*' :: rest

/-- It starts with two slashes, of either kind. -/
def doubled (rest : Text) : Bool := (rest.head?.map isSlash) == some true

/-- A scheme, a host and a port. -/
structure Origin where
  scheme : WebScheme
  host : Text
  port : Option Nat
deriving DecidableEq

/-- Where a request to the URL goes. -/
def originOf (u : WebUrl) : Origin := ⟨u.scheme, u.host, u.port⟩

/-- The server that the target itself names, if it is one for `http:` or `https:`. -/
def RequestTarget.named (lib : Library) (upstream : WebUrl) : RequestTarget → Option Origin
  | .origin rest =>
    if doubled (cleanTail rest) then
      (authority lib upstream.scheme ((cleanTail rest).dropWhile isSlash)).map originOf
    else none
  | .absolute scheme rest _ =>
    (WebScheme.find (scheme.map Char.toLower)).bind fun scheme =>
    (authority lib scheme ((cleanTail rest).dropWhile isSlash)).map originOf
  | .asterisk _ => none

/-! ## Forwarding -/

/-- What the HTTPS server sends to an upstream for a request. -/
def State.forwards (lib : Library) (s : State) (target : Text) (host : Option String) :
    Option Outgoing :=
  (s.upstreamFor (hostOf host)).bind fun upstream =>
  match proxy lib target upstream with
  | .ok (.sent out) => some out
  | _ => none

/-- An IPv6 address as a URL has it. As a host name there is no such thing. -/
def bracketed (host : Text) : Bool := host.head? == some '['

/-- It goes to this server. -/
def Outgoing.goesTo (out : Outgoing) (u : WebUrl) : Prop :=
  out.scheme = u.scheme ∧ out.hostname = u.host ∧ out.port = u.port ∧ bracketed out.hostname = false

instance (out : Outgoing) (u : WebUrl) : Decidable (out.goesTo u) :=
  inferInstanceAs (Decidable (_ ∧ _))

/-- Nothing is sent: what there is makes no URL, or one that is not `http:`. -/
def Unsent (lib : Library) (u : WebUrl) : RequestTarget → Prop
  | .origin rest =>
    u.scheme = .https ∨
      doubled (cleanTail rest) = true ∧ (RequestTarget.origin rest).named lib u = none
  | .absolute scheme rest h =>
    ∀ o ∈ (RequestTarget.absolute scheme rest h).named lib u, o.scheme ≠ .http
  | .asterisk _ => u.scheme = .https

/-- The target names no server for `http:`, or the upstream. -/
def NamesNoOther (lib : Library) (u : WebUrl) (t : RequestTarget) : Prop :=
  ∀ o ∈ t.named lib u, o.scheme = .http → o = originOf u

/-- Nothing can be sent, or the target names no server for `http:` that is not the
upstream, and has a path and a query that are sent as they are written. -/
def KeepsWriting (lib : Library) (u : WebUrl) : RequestTarget → Prop
  | .origin rest =>
    u.scheme = .https ∨
      if doubled (cleanTail rest) then (RequestTarget.origin rest).named lib u = none
      else Normal ('/' :: rest)
  | .absolute scheme rest h =>
    ∀ o ∈ (RequestTarget.absolute scheme rest h).named lib u, o.scheme = .http →
      o = originOf u ∧ doubled (cleanTail rest) = false ∧
        Normal (RequestTarget.absolute scheme rest h).own
  | .asterisk _ => u.scheme = .https

/-- The upstream is one that is reached and the target names no other, or nothing is sent. -/
def Within (lib : Library) (u : WebUrl) (t : RequestTarget) : Prop :=
  if bracketed u.host then Unsent lib u t else NamesNoOther lib u t

/-- And it is sent as it was written. -/
def Fits (lib : Library) (u : WebUrl) (t : RequestTarget) : Prop :=
  if bracketed u.host then Unsent lib u t else KeepsWriting lib u t

section Forwarding

variable {lib : Library} {upstream : Text} {u : WebUrl} {rest scheme : Text}

/-! ### What a target is resolved to -/

theorem letter_clean {c : Char} (h : c.isAlpha) : c0OrSpace c = false := by
  unfold Char.isAlpha Char.isUpper Char.isLower at h
  unfold c0OrSpace
  simp only [Bool.or_eq_true, Bool.and_eq_true, decide_eq_true_eq, decide_eq_false_iff_not] at h ⊢
  have hle : ∀ {a b : UInt32}, a ≤ b → a.toNat ≤ b.toNat := fun h => h
  have hn : c.toNat = c.val.toNat := rfl
  rcases h with ⟨h, -⟩ | ⟨h, -⟩
  · have := hle h
    simp at this
    omega
  · have := hle h
    simp at this
    omega

/-- Nothing of an authority's URL but its path comes from behind it. -/
theorem authority_spec {scheme : WebScheme} {cs : Text} {v : WebUrl}
    (h : authority lib scheme cs = some v) :
    v.scheme = scheme ∧ v.request = render (skipSlash (cs.dropWhile (!endsAuthority ·))) ∧
      cs.takeWhile (!endsAuthority ·) ≠ [] := by
  obtain ⟨⟨host, port⟩, hp, rfl⟩ := Option.map_eq_some_iff.mp h
  refine ⟨rfl, rfl, fun hnil => ?_⟩
  rw [hnil] at hp
  cases hp

theorem relative_slash {cs : Text} : relative lib u ('/' :: cs) =
    if doubled cs then authority lib u.scheme (cs.dropWhile isSlash) else some (u.goTo [] cs) := by
  unfold relative doubled
  simp only [beq_iff_eq]
  exact if_pos rfl

theorem parse_origin : parseClean lib (clean (RequestTarget.origin rest).wire) (some (.web u)) =
    if doubled (cleanTail rest) then
      (authority lib u.scheme ((cleanTail rest).dropWhile isSlash)).map .web
    else some (.web (u.goTo [] (cleanTail rest))) := by
  unfold RequestTarget.wire
  rw [clean_cons (by rfl)]
  show (relative lib u ('/' :: cleanTail rest)).map Parsed.web = _
  rw [relative_slash]
  split <;> rfl

theorem parse_asterisk : ∃ path, ∃ cs, path ≠ [] ∧
    parseClean lib (clean (RequestTarget.asterisk rest).wire) (some (.web u)) =
      some (.web { u with path := path, query := queryOf cs }) := by
  unfold RequestTarget.wire
  rw [clean_cons (by rfl)]
  exact ⟨_, _, resolve_ne_nil (List.splitOnP_ne_nil _ _), rfl⟩

/-- A scheme of letters is found as it is, in lower case. -/
theorem splitScheme_letters {cs : Text} (h : scheme ≠ [] ∧ ∀ c ∈ scheme, c.isAlpha) :
    splitScheme (scheme ++ ':' :: cs) = some (scheme.map Char.toLower, cs) := by
  have hchar : ∀ c ∈ scheme, schemeChar c = true := by
    intro c hc
    have := h.2 c hc
    simp [schemeChar, Char.isAlphanum, this]
  have htake : (scheme ++ ':' :: cs).takeWhile schemeChar = scheme := by
    rw [List.takeWhile_append_of_pos hchar, List.takeWhile_cons_of_neg (by decide),
      List.append_nil]
  have hdrop : (scheme ++ ':' :: cs).dropWhile schemeChar = ':' :: cs := by
    rw [List.dropWhile_append_of_pos hchar, List.dropWhile_cons_of_neg (by decide)]
  obtain ⟨hne, hall⟩ := h
  cases scheme with
  | nil => exact absurd rfl hne
  | cons c scheme =>
    unfold splitScheme
    rw [List.cons_append]
    dsimp only
    rw [if_pos (hall c List.mem_cons_self), ← List.cons_append, hdrop, htake]
    rfl

/-- A target in absolute form is parsed by itself. -/
theorem parse_absolute {letters : scheme ≠ [] ∧ ∀ c ∈ scheme, c.isAlpha} :
    parseClean lib (clean (RequestTarget.absolute scheme rest letters).wire) (some (.web u)) =
      match WebScheme.find (scheme.map Char.toLower) with
      | none =>
        (lib.other (scheme ++ ':' :: '/' :: '/' :: cleanTail rest) (some (.web u))).map .other
      | some scheme =>
        (authority lib scheme ((cleanTail rest).dropWhile isSlash)).map .web := by
  have hwire : clean (RequestTarget.absolute scheme rest letters).wire =
      scheme ++ ':' :: '/' :: '/' :: cleanTail rest := by
    obtain ⟨hne, hall⟩ := letters
    -- neither the scheme nor the two slashes are dropped from a text
    have hclean : ∀ c ∈ scheme ++ "://".toList, c0OrSpace c = false := by
      intro c hc
      rcases List.mem_append.mp hc with hc | hc
      · exact letter_clean (hall c hc)
      · have hsep : "://".toList.all (fun c => !c0OrSpace c) = true := by decide
        simpa using List.all_eq_true.mp hsep c hc
    cases scheme with
    | nil => exact absurd rfl hne
    | cons c scheme =>
      -- the scheme has a letter to begin with, so nothing in front of it is trimmed
      have hassoc : (RequestTarget.absolute (c :: scheme) rest ⟨hne, hall⟩).wire =
          c :: (scheme ++ "://".toList ++ rest) := by
        simp [RequestTarget.wire]
      rw [hassoc, clean_cons (hclean c List.mem_cons_self),
        @cleanTail_append _ (scheme ++ "://".toList)
          fun d hd => hclean d (List.mem_cons_of_mem c hd)]
      simp
  rw [hwire]
  unfold parseClean
  rw [splitScheme_letters letters]
  dsimp only
  cases WebScheme.find (scheme.map Char.toLower) with
  | none => rfl
  | some found =>
    dsimp only
    -- a scheme of the upstream's own is read as if it were relative, which comes to the same
    split
    next hsame =>
      rw [relative_slash, hsame]
      rfl
    next => rfl

/-! ### What is sent to it -/

/-- What `http.request` is given for a URL. -/
def outgoing (v : WebUrl) : Outgoing := ⟨v.scheme, v.host, v.port, v.request⟩

variable {s : State} {host : Option String} {t : RequestTarget}

/-- What the target is resolved to, if it is a URL for `http:`. -/
def ResolvesTo (lib : Library) (u : WebUrl) (t : RequestTarget) (v : WebUrl) : Prop :=
  parseClean lib (clean t.wire) (some (.web u)) = some (.web v) ∧ v.scheme = .http

/-- A request is sent to wherever its target leads from the upstream. -/
theorem proxy_sent_iff {target : Text} {out : Outgoing}
    (hu : parse lib upstream = some (.web u)) :
    proxy lib target upstream = .ok (.sent out) ↔
      ∃ v, (parseClean lib (clean target) (some (.web u)) = some (.web v) ∧ v.scheme = .http) ∧
        out = outgoing v := by
  have hwith : parseWith lib target upstream = parseClean lib (clean target) (some (.web u)) := by
    unfold parseWith
    rw [hu]
    -- the upstream parses, so the target is read behind it
    rfl
  unfold proxy
  rw [hwith, hu]
  cases hurl : parseClean lib (clean target) (some (.web u)) with
  | none => simp
  | some url =>
    cases url with
    | other v => simp
    | web v =>
      dsimp only
      -- `http.request` refuses whatever is not http
      split
      next hscheme =>
        constructor
        · rintro ⟨⟩
          exact ⟨v, ⟨rfl, hscheme⟩, rfl⟩
        · rintro ⟨_, ⟨⟨⟩, -⟩, rfl⟩
          rfl
      next hscheme =>
        constructor
        · nofun
        · rintro ⟨_, ⟨⟨⟩, h⟩, -⟩
          exact absurd h hscheme

/-- What holds of all that is sent. -/
theorem forwards_forall_iff {P : Outgoing → Prop} (hup : s.upstreamFor (hostOf host) = some upstream)
    (hu : parse lib upstream = some (.web u)) :
    (∀ out ∈ s.forwards lib t.wire host, P out) ↔ ∀ v, ResolvesTo lib u t v → P (outgoing v) := by
  have hsent : ∀ out, s.forwards lib t.wire host = some out ↔
      proxy lib t.wire upstream = .ok (.sent out) := by
    intro out
    unfold State.forwards
    rw [hup, Option.bind_some]
    constructor
    · intro h
      split at h
      next heq => rw [heq, Option.some.inj h]
      next => cases h
    · intro h
      rw [h]
  constructor
  · exact fun h v hv => h _ ((hsent _).mpr ((proxy_sent_iff hu).mpr ⟨v, hv, rfl⟩))
  · intro h out hout
    obtain ⟨v, hv, rfl⟩ := (proxy_sent_iff hu).mp ((hsent out).mp hout)
    exact h v hv

theorem goesTo_iff {v : WebUrl} :
    (outgoing v).goesTo u ↔ originOf v = originOf u ∧ bracketed u.host = false := by
  unfold Outgoing.goesTo outgoing originOf
  constructor
  · rintro ⟨hscheme, hhost, hport, hdial⟩
    dsimp only at hscheme hhost hport hdial
    rw [hscheme, hhost, hport]
    exact ⟨rfl, hhost ▸ hdial⟩
  · rintro ⟨horigin, hdial⟩
    obtain ⟨hscheme, hhost, hport⟩ := Origin.mk.inj horigin
    exact ⟨hscheme, hhost, hport, hhost ▸ hdial⟩

theorem resolvesTo_origin {v : WebUrl} : ResolvesTo lib u (.origin rest) v ↔
    v.scheme = .http ∧ if doubled (cleanTail rest) then
      authority lib u.scheme ((cleanTail rest).dropWhile isSlash) = some v
    else v = u.goTo [] (cleanTail rest) := by
  unfold ResolvesTo
  rw [parse_origin, and_comm]
  refine and_congr_right fun _ => ?_
  split
  · simp
  · simp [eq_comm]

theorem resolvesTo_absolute {v : WebUrl} {letters : scheme ≠ [] ∧ ∀ c ∈ scheme, c.isAlpha} :
    ResolvesTo lib u (.absolute scheme rest letters) v ↔
      v.scheme = .http ∧ ∃ web ∈ WebScheme.find (scheme.map Char.toLower),
        authority lib web ((cleanTail rest).dropWhile isSlash) = some v := by
  unfold ResolvesTo
  rw [parse_absolute, and_comm]
  refine and_congr_right fun _ => ?_
  cases WebScheme.find (scheme.map Char.toLower) with
  | none => simp
  | some web => simp

/-- A target leads away exactly if it names another server. -/
theorem namesNoOther_iff :
    (∀ v, ResolvesTo lib u t v → originOf v = originOf u) ↔ NamesNoOther lib u t := by
  unfold NamesNoOther
  cases t with
  -- in origin form, only two slashes in front name a server
  | origin rest =>
    simp only [resolvesTo_origin, RequestTarget.named]
    split
    · constructor
      · intro h o ho hhttp
        obtain ⟨v, hv, rfl⟩ := Option.map_eq_some_iff.mp ho
        exact h v ⟨hhttp, hv⟩
      · exact fun h v ⟨hhttp, hv⟩ => h _ (Option.map_eq_some_iff.mpr ⟨v, hv, rfl⟩) hhttp
    · refine iff_of_true ?_ nofun
      rintro _ ⟨-, rfl⟩
      rfl
  -- in absolute form it is the authority
  | absolute scheme rest letters =>
    simp only [resolvesTo_absolute, RequestTarget.named]
    constructor
    · intro h o ho hhttp
      obtain ⟨web, hweb, ho⟩ := Option.bind_eq_some_iff.mp ho
      obtain ⟨v, hv, rfl⟩ := Option.map_eq_some_iff.mp ho
      exact h v ⟨hhttp, web, hweb, hv⟩
    · rintro h v ⟨hhttp, web, hweb, hv⟩
      exact h _ (Option.bind_eq_some_iff.mpr ⟨web, hweb, Option.map_eq_some_iff.mpr ⟨v, hv, rfl⟩⟩)
        hhttp
  -- and the asterisk stays where it is
  | asterisk rest =>
    refine iff_of_true ?_ nofun
    rintro v ⟨hparse, -⟩
    obtain ⟨path, cs, -, hurl⟩ := (@parse_asterisk lib u rest)
    obtain rfl := Parsed.web.inj (Option.some.inj (hurl.symm.trans hparse))
    rfl

/-! ### Whether it is sent as it was written -/

/-- What is resolved to an authority arrives without it, and so not as it was written. -/
theorem authority_request_ne {pre cs : Text} {web : WebScheme} {v : WebUrl}
    (hv : authority lib web (cs.dropWhile isSlash) = some v) (hpre : ∀ c ∈ pre, c ≠ '?')
    (hlen : 1 ≤ pre.length + (cs.takeWhile isSlash).length) : v.request ≠ pre ++ cs := by
  obtain ⟨-, hrequest, hne⟩ := authority_spec hv
  have hauth : 1 ≤ ((cs.dropWhile isSlash).takeWhile (!endsAuthority ·)).length :=
    List.length_pos_iff.mpr hne
  have hcut : pre ++ cs = (pre ++ (cs.takeWhile isSlash ++
      (cs.dropWhile isSlash).takeWhile (!endsAuthority ·))) ++
        (cs.dropWhile isSlash).dropWhile (!endsAuthority ·) := by
    rw [List.append_assoc, List.append_assoc, List.takeWhile_append_dropWhile,
      List.takeWhile_append_dropWhile]
  intro heq
  have hnormal : Normal (pre ++ cs) := by
    rw [← heq, hrequest]
    exact normal_render _
  rw [hcut] at hnormal heq
  rw [hrequest] at heq
  refine absurd (congrArg List.length heq) (Nat.ne_of_lt (length_render_lt hnormal ?_ ?_))
  · intro c hc
    rcases List.mem_append.mp hc with hc | hc
    · exact hpre c hc
    rcases List.mem_append.mp hc with hc | hc
    · rintro rfl
      exact absurd (List.mem_takeWhile_imp (p := isSlash) hc) (by decide)
    · rintro rfl
      exact absurd (List.mem_takeWhile_imp (p := (!endsAuthority ·)) hc) (by decide)
  · simp only [List.length_append]
    omega

/-- A normal path and query, behind an authority. -/
theorem own_absolute {letters : scheme ≠ [] ∧ ∀ c ∈ scheme, c.isAlpha}
    (h : Normal (RequestTarget.absolute scheme rest letters).own) :
    (RequestTarget.absolute scheme rest letters).own =
        '/' :: skipSlash (rest.dropWhile (!endsAuthority ·)) ∧
      ∀ c ∈ rest.dropWhile (!endsAuthority ·), c0OrSpace c = false := by
  have hclean := h.clean
  have hpath := h.path
  unfold RequestTarget.own at hclean hpath ⊢
  dsimp only at hclean hpath ⊢
  split at hclean
  next cs heq =>
    rw [heq]
    exact ⟨rfl, hclean⟩
  next heq =>
    generalize rest.dropWhile (!endsAuthority ·) = r at hclean hpath heq ⊢
    refine ⟨?_, fun c hc => hclean c (List.mem_cons_of_mem '/' hc)⟩
    cases r with
    | nil => rfl
    | cons c cs =>
      have hslash : isSlash c = false := by
        unfold isSlash
        rw [Bool.or_eq_false_iff, beq_eq_false_iff_ne, beq_eq_false_iff_ne]
        refine ⟨fun hc => heq cs (by rw [hc]), ?_⟩
        rintro rfl
        exact (hpath '\\' (by simp)).2 rfl
      have hskip : skipSlash (c :: cs) = c :: cs := if_neg (by rw [hslash]; exact Bool.false_ne_true)
      rw [hskip]

/-- Behind an authority, what is sent is what was written if that is normal. -/
theorem absolute_request_eq_iff {web : WebScheme} {v : WebUrl}
    {letters : scheme ≠ [] ∧ ∀ c ∈ scheme, c.isAlpha}
    (hv : authority lib web ((cleanTail rest).dropWhile isSlash) = some v) :
    v.request = (RequestTarget.absolute scheme rest letters).own ↔
      doubled (cleanTail rest) = false ∧ Normal (RequestTarget.absolute scheme rest letters).own := by
  have hrequest := (authority_spec hv).2.1
  constructor
  -- what is sent is rendered by the parser, and so is normal
  · intro heq
    have hnormal : Normal (RequestTarget.absolute scheme rest letters).own := by
      rw [← heq, hrequest]
      exact normal_render _
    refine ⟨?_, hnormal⟩
    obtain ⟨hown, hclean⟩ := own_absolute hnormal
    -- with a third slash the parser would skip what the text has
    by_contra hdoubled
    have hdrop := dropWhile_cleanTail hclean
    rw [← hdrop] at hown
    cases hcs : cleanTail rest with
    | nil =>
      rw [hcs] at hdoubled
      exact hdoubled rfl
    | cons c cs =>
      rw [hcs] at hdoubled hown hv
      have hslash : isSlash c = true := by simpa [doubled] using hdoubled
      have hends : endsAuthority c = true := by
        unfold endsAuthority
        rw [hslash]
        rfl
      rw [List.dropWhile_cons_of_neg (by rw [hends]; exact Bool.false_ne_true)] at hown
      have hskip : skipSlash (c :: cs) = cs := if_pos hslash
      rw [hskip] at hown
      rw [List.dropWhile_cons_of_pos hslash] at hv
      exact (@authority_request_ne _ ['/']) hv (by simp) (by simp) (heq.trans hown)
  -- the other way round, nothing is skipped, and a normal text is rendered as it is
  · rintro ⟨hdoubled, hnormal⟩
    obtain ⟨hown, hclean⟩ := own_absolute hnormal
    have hslashes : (cleanTail rest).dropWhile isSlash = cleanTail rest := by
      cases hcs : cleanTail rest with
      | nil => rfl
      | cons c cs =>
        rw [hcs] at hdoubled
        refine List.dropWhile_cons_of_neg ?_
        simpa [doubled] using hdoubled
    rw [hrequest, hslashes, dropWhile_cleanTail hclean, hown]
    rw [hown] at hnormal
    exact render_of_normal hnormal

theorem origin_request_eq_iff :
    (u.goTo [] (cleanTail rest)).request = '/' :: rest ↔ Normal ('/' :: rest) := by
  rw [request_goTo]
  constructor
  · intro heq
    rw [← heq]
    exact normal_render _
  · intro hnormal
    rw [cleanTail_id fun c hc => hnormal.clean c (List.mem_cons_of_mem _ hc)]
    exact render_of_normal hnormal

/-- A target is sent to the upstream as it was written. -/
theorem keepsWriting_iff : (∀ v, ResolvesTo lib u t v →
    originOf v = originOf u ∧ (outgoing v).path = t.own) ↔ KeepsWriting lib u t := by
  cases t with
  | origin rest =>
    simp only [resolvesTo_origin, RequestTarget.named, KeepsWriting]
    -- an https upstream is never sent to
    cases hscheme : u.scheme with
    | https =>
      refine iff_of_true ?_ (.inl rfl)
      rintro v ⟨hhttp, h⟩
      exfalso
      split at h
      · exact absurd ((authority_spec h).1.symm.trans hhttp) (by nofun)
      · subst h
        exact absurd (hscheme.symm.trans hhttp) (by nofun)
    | http =>
      simp only [reduceCtorEq, false_or]
      split
      -- two slashes: what is sent is behind an authority, so it is not what was written
      next hdoubled =>
        rw [Option.map_eq_none_iff, Option.eq_none_iff_forall_ne_some]
        constructor
        · intro h v hv
          obtain ⟨hhttp, hrequest, -⟩ := authority_spec hv
          have hpath : v.request = '/' :: rest := (h v ⟨hhttp, hv⟩).2
          have hnormal : Normal ('/' :: rest) := by
            rw [← hpath, hrequest]
            exact normal_render _
          have hid : cleanTail rest = rest :=
            cleanTail_id fun c hc => hnormal.clean c (List.mem_cons_of_mem _ hc)
          rw [hid] at hv
          exact (@authority_request_ne _ ['/']) hv (by simp) (by simp) hpath
        · rintro h v ⟨-, hv⟩
          exact absurd hv (h v)
      -- one slash: a path on the upstream
      next hdoubled =>
        rw [← origin_request_eq_iff (u := u)]
        constructor
        · exact fun h => (h (u.goTo [] (cleanTail rest)) ⟨hscheme, rfl⟩).2
        · rintro h _ ⟨-, rfl⟩
          exact ⟨rfl, h⟩
  | absolute scheme rest letters =>
    simp only [resolvesTo_absolute, RequestTarget.named, KeepsWriting]
    constructor
    · intro h o ho hhttp
      obtain ⟨web, hweb, ho⟩ := Option.bind_eq_some_iff.mp ho
      obtain ⟨v, hv, rfl⟩ := Option.map_eq_some_iff.mp ho
      obtain ⟨hthere, hpath⟩ := h v ⟨hhttp, web, hweb, hv⟩
      exact ⟨hthere, (absolute_request_eq_iff hv).mp hpath⟩
    · rintro h v ⟨hhttp, web, hweb, hv⟩
      obtain ⟨hthere, hfit⟩ := h _ (Option.bind_eq_some_iff.mpr
        ⟨web, hweb, Option.map_eq_some_iff.mpr ⟨v, hv, rfl⟩⟩) hhttp
      exact ⟨hthere, (absolute_request_eq_iff hv).mpr hfit⟩
  | asterisk rest =>
    obtain ⟨path, cs, hne, hurl⟩ := (@parse_asterisk lib u rest)
    simp only [ResolvesTo, hurl, KeepsWriting]
    constructor
    · intro h
      cases hscheme : u.scheme with
      | https => rfl
      | http =>
        have hpath : pathname path ++ search (queryOf cs) = '*' :: rest :=
          (h _ ⟨rfl, hscheme⟩).2
        -- an asterisk is sent as a path, which begins with a slash
        cases path with
        | nil => exact absurd rfl hne
        | cons seg path => exact absurd (List.cons.inj hpath).1 (by decide)
    · rintro hscheme v ⟨hv, hhttp⟩
      obtain rfl := Parsed.web.inj (Option.some.inj hv)
      exact absurd (hscheme.symm.trans hhttp) (by nofun)

/-! ### Whether anything is sent -/

/-- Which targets are not sent at all. -/
theorem unsent_iff : (∀ v, ¬ ResolvesTo lib u t v) ↔ Unsent lib u t := by
  cases t with
  | origin rest =>
    simp only [resolvesTo_origin, RequestTarget.named, Unsent]
    -- no scheme but http is sent at all
    cases hscheme : u.scheme with
    | https =>
      refine iff_of_true ?_ (.inl rfl)
      rintro v ⟨hhttp, h⟩
      split at h
      · exact absurd ((authority_spec h).1.symm.trans hhttp) (by simp)
      · subst h
        exact absurd (hscheme.symm.trans hhttp) (by simp)
    | http =>
      simp only [reduceCtorEq, false_or]
      split
      -- two slashes whose authority does not parse
      next hdoubled =>
        rw [and_iff_right hdoubled, Option.map_eq_none_iff, Option.eq_none_iff_forall_ne_some]
        constructor
        · exact fun h v hv => h v ⟨(authority_spec hv).1, hv⟩
        · exact fun h v hv => h v hv.2
      next hdoubled =>
        -- one slash always leads somewhere
        refine iff_of_false (fun h => ?_) fun h => hdoubled h.1
        exact h (u.goTo [] (cleanTail rest)) ⟨hscheme, rfl⟩
  | absolute scheme rest letters =>
    simp only [resolvesTo_absolute, RequestTarget.named, Unsent]
    constructor
    · intro h o ho hhttp
      obtain ⟨web, hweb, ho⟩ := Option.bind_eq_some_iff.mp ho
      obtain ⟨v, hv, rfl⟩ := Option.map_eq_some_iff.mp ho
      exact h v ⟨hhttp, web, hweb, hv⟩
    · rintro h v ⟨hhttp, web, hweb, hv⟩
      exact h _ (Option.bind_eq_some_iff.mpr ⟨web, hweb, Option.map_eq_some_iff.mpr ⟨v, hv, rfl⟩⟩)
        hhttp
  | asterisk rest =>
    obtain ⟨path, cs, -, hurl⟩ := (@parse_asterisk lib u rest)
    simp only [ResolvesTo, hurl, Unsent]
    constructor
    · intro h
      cases hscheme : u.scheme with
      | https => rfl
      | http => exact absurd ⟨rfl, hscheme⟩ (h _)
    · rintro hscheme v ⟨hv, hhttp⟩
      obtain rfl := Parsed.web.inj (Option.some.inj hv)
      exact WebScheme.noConfusion (hscheme.symm.trans hhttp)

/-- Nothing that is sent goes to an upstream in brackets. -/
theorem goesTo_and_iff {P : WebUrl → Prop} (hbracketed : bracketed u.host = true) :
    (∀ v, ResolvesTo lib u t v → (outgoing v).goesTo u ∧ P v) ↔ Unsent lib u t := by
  rw [← unsent_iff]
  refine forall_congr' fun v => ?_
  have hnot : ¬ ((outgoing v).goesTo u ∧ P v) := by
    rintro ⟨h, -⟩
    have hfree := (goesTo_iff.mp h).2
    rw [hbracketed] at hfree
    cases hfree
  exact ⟨fun h hv => hnot (h hv), fun h hv => absurd hv h⟩

theorem within_iff : (∀ v, ResolvesTo lib u t v → (outgoing v).goesTo u) ↔ Within lib u t := by
  unfold Within
  split
  next hbracketed =>
    rw [← goesTo_and_iff (P := fun _ => True) hbracketed]
    simp
  next hfree =>
    rw [Bool.not_eq_true] at hfree
    rw [← namesNoOther_iff]
    simp only [goesTo_iff, hfree, and_true]

theorem fits_iff : (∀ v, ResolvesTo lib u t v →
    (outgoing v).goesTo u ∧ (outgoing v).path = t.own) ↔ Fits lib u t := by
  unfold Fits
  split
  next hbracketed => exact goesTo_and_iff (P := fun v => (outgoing v).path = t.own) hbracketed
  next hfree =>
    rw [Bool.not_eq_true] at hfree
    rw [← keepsWriting_iff]
    simp only [goesTo_iff, hfree, and_true]

/-! ### Published routes -/

/-- The upstream of every route is the URL of a server on this host. -/
def Looped (lib : Library) (s : State) : Prop :=
  ∀ r ∈ s.routes, isLoopbackUpstream lib r.2.upstream = true

theorem looped_withdraw {name : String} (h : Looped lib s) : Looped lib (s.withdraw name) :=
  fun r hr => h r (List.mem_of_mem_filter hr)

theorem looped_publish {name : String} {route : Route} (h : Looped lib s)
    (hroute : isLoopbackUpstream lib route.upstream = true) :
    Looped lib (s.publish name route) := by
  intro r hr
  rcases List.mem_append.mp hr with hr | hr
  · exact looped_withdraw h r hr
  · obtain rfl := List.mem_singleton.mp hr
    exact hroute

theorem looped_putRoute {node : Node} {body : Json} {written : Bool} (h : Looped node.url s) :
    Looped node.url (putRoute node s body written).2 := by
  unfold putRoute
  split
  · exact h
  · dsimp only
    split
    · exact h
    · split
      · split
        next hloop => exact looped_publish h hloop
        · exact h
      · exact h

theorem looped_deleteRoute {encoded : Text} {written : Bool} (h : Looped lib s) :
    Looped lib (deleteRoute s encoded written).2 := by
  unfold deleteRoute
  split
  · exact h
  · exact looped_withdraw h

/-- Upstreams stay on the loopback, since the admin server takes no others. -/
theorem looped_onAdmin {node : Node} {req : AdminRequest} (h : Looped node.url s) :
    Looped node.url (onAdmin node s req).2 := by
  unfold onAdmin
  split
  · exact h
  dsimp only
  split
  · exact h
  split
  · exact h
  split
  · exact h
  split
  · split
    · exact h
    · split
      · exact h
      · exact h
      · exact looped_putRoute h
  split
  · split
    · exact looped_deleteRoute h
    · exact h
  · exact h

/-- **Step lemma.** -/
theorem looped_step {node : Node} {p : Process} {e : Event} (h : Looped node.url p.state) :
    Looped node.url (p.step node e).state := by
  unfold Process.step
  split
  · cases e with
    | http challenges target host => exact h
    | https req host head => exact h
    | admin req => exact looped_onAdmin h
  · exact h

/-- A published route has an upstream that can be read, and is forwarded to. -/
theorem Looped.readable {route : Route} (h : Looped lib s)
    (hroute : s.route (hostOf host) = some route) :
    ∃ u, parse lib route.upstream = some (.web u) ∧
      s.upstreamFor (hostOf host) = some route.upstream := by
  obtain ⟨r, hr, rfl⟩ := Option.map_eq_some_iff.mp hroute
  have hloop := h r (List.mem_of_find?_eq_some hr)
  unfold isLoopbackUpstream at hloop
  split at hloop
  next u hu =>
    refine ⟨u, hu, ?_⟩
    have hne : r.2.upstream ≠ [] := by
      intro hnil
      rw [hnil] at hu
      cases hu
    unfold State.upstreamFor
    rw [hroute]
    simp [Option.filter, hne]
  next => cases hloop

end Forwarding

/-- **A request stays with its upstream exactly if its target names no other server, and
arrives as it was written exactly if it fits.** -/
theorem forwarded_iff (node : Node) (defaultUpstream : Text) (es : List Event)
    (host : Option String) (route : Route)
    (hroute : (runFrom (Process.step node) ⟨⟨[], defaultUpstream⟩, true⟩ es).state.route
      (hostOf host) = some route) :
    ∃ u, parse node.url route.upstream = some (.web u) ∧ ∀ t : RequestTarget,
      let sent := (runFrom (Process.step node) ⟨⟨[], defaultUpstream⟩, true⟩ es).state.forwards
        node.url t.wire host
      ((∀ out ∈ sent, out.goesTo u ∧ out.path = t.own) ↔ Fits node.url u t) ∧
        ((∀ out ∈ sent, out.goesTo u) ↔ Within node.url u t) := by
  have hlooped : Looped node.url
      (runFrom (Process.step node) ⟨⟨[], defaultUpstream⟩, true⟩ es).state :=
    inv_runFrom (J := fun p : Process => Looped node.url p.state) (fun _ h => nomatch h)
      fun _ _ => looped_step
  obtain ⟨u, hu, hup⟩ := hlooped.readable hroute
  exact ⟨u, hu, fun t => ⟨(forwards_forall_iff hup hu).trans fits_iff,
    (forwards_forall_iff hup hu).trans within_iff⟩⟩

/-- Published through the admin server, `app.example.com` has the upstream
`http://127.0.0.1:3000`. -/
theorem forwarded_iff_published :
    ∃ u, parse plainHosts "http://127.0.0.1:3000".toList = some (.web u) ∧
    ∀ t : RequestTarget,
      let sent := (runFrom (Process.step plainNode) ⟨⟨[], []⟩, true⟩
        [published "http://127.0.0.1:3000"]).state.forwards plainHosts t.wire
          (some "app.example.com:8443")
      ((∀ out ∈ sent, out.goesTo u ∧ out.path = t.own) ↔ Fits plainHosts u t) ∧
        ((∀ out ∈ sent, out.goesTo u) ↔ Within plainHosts u t) :=
  forwarded_iff plainNode [] [published "http://127.0.0.1:3000"] (some "app.example.com:8443")
    ⟨"http://127.0.0.1:3000".toList, false⟩ (by decide +kernel)

/-- Two slashes, a slash and a backslash, and an absolute form, each lead to another
server; a path that is not normal arrives as another one; and the loopback address of
IPv6 is published, and reached by nothing. -/
theorem requests_led_away :
    let p := runFrom (Process.step plainNode) ⟨⟨[], []⟩, true⟩ [published "http://127.0.0.1:3000"]
    let u : WebUrl := ⟨.http, "127.0.0.1".toList, some 3000, [[]], none⟩
    let sent := fun t : RequestTarget => p.state.forwards plainHosts t.wire (some "app.example.com")
    let p' := runFrom (Process.step plainNode) ⟨⟨[], []⟩, true⟩ [published "http://[::1]:3000"]
    let u' : WebUrl := ⟨.http, "[::1]".toList, some 3000, [[]], none⟩
    parse plainHosts "http://127.0.0.1:3000".toList = some (.web u) ∧
      (∀ t ∈ [.origin "/evil.example.com/x".toList, .origin "\\169.254.169.254/latest".toList,
          .absolute "http".toList "127.0.0.1:12000/admin".toList
            ⟨by decide, List.all_eq_true.mp (by decide)⟩],
        ¬ ∀ out ∈ sent t, out.goesTo u) ∧
      ¬ (∀ out ∈ sent (.origin "a/../b".toList),
        out.path = (RequestTarget.origin "a/../b".toList).own) ∧
      parse plainHosts "http://[::1]:3000".toList = some (.web u') ∧
      ¬ ∀ out ∈ p'.state.forwards plainHosts (RequestTarget.origin []).wire (some "app.example.com"),
        out.goesTo u' := by
  decide +kernel

end CloudWai.Router
