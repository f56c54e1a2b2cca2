import CloudWai.Signing.Agreement

/-!
# What a request to the object store is signed for

`signRequest`: the store is reached at an endpoint, which may have a path of its own, and the
path of the object goes behind it. The URL that is returned is put together as text: the
endpoint less one slash at its end, and the encoded path. What is signed is put together
from parts: the endpoint's path as the parser has it, less all slashes at its end, and the
same encoded path.

`signed_path_iff` says for which endpoints and paths the URL's path is the signed one. The
parser has to find the object's path behind the endpoint's (there is no query, and nothing
that is dropped at the end of a text only), the slashes have to be as many, and no segment
may be one that is resolved (`Joins`). Both callers pass a path that begins with a slash;
`signRequest` does not ask for one, and signs what it is given: the empty path (`Stands`), and
one that goes on the endpoint's last segment (`Continues`).

The source is `packages/adapters/src/minio.ts`. SHA-256 and the HMAC are parameters, and so is
the time, as the text that AWS requires.
-/

namespace CloudWai.Signing

open Base Url Percent Grammar

/-! ## The request -/

/-- The caller's credentials. -/
structure StorageCredentials where
  accessKey : String
  secretKey : String
  region : Option String

/-- A request to the store; the instant is in the form that AWS requires. -/
structure StorageRequest where
  method : String
  endpoint : String
  path : String
  credentials : StorageCredentials
  payload : Option String
  amz : String

/-- `path.split("/").map((segment) => uriEncode(segment, false)).join("/")` -/
def encodedPath (path : List Char) : List Char :=
  ['/'].intercalate ((path.splitOn '/').map (uriEncode · false))

/-- `endpoint.replace(/\/$/, "")` -/
def trimEndpoint (endpoint : List Char) : List Char :=
  if endpoint.getLast? = some '/' then endpoint.dropLast else endpoint

/-- The endpoint's path without its last slashes, and the object's. -/
def canonicalUri (endpointUrl : Parsed) (path : List Char) : List Char :=
  strip (pathnameOf endpointUrl) ++ encodedPath path

/-- `url` -/
def returnedUrl (endpoint path : List Char) : List Char := trimEndpoint endpoint ++ encodedPath path

/-- The canonical request of `signRequest`; `none` is a throw. -/
def storageCanonical (lib : Library) (crypto : Crypto) (input : StorageRequest) :
    Option CanonicalRequest :=
  (parse lib input.endpoint.toList).map fun endpointUrl =>
    let payloadHash := crypto.sha256Hex (input.payload.getD "")
    { method := input.method
      path := canonicalUri endpointUrl input.path.toList
      query := []
      headers := "host:" ++ String.ofList (hostOf endpointUrl) ++ "\n" ++
        "x-amz-content-sha256:" ++ payloadHash ++ "\n" ++ "x-amz-date:" ++ input.amz ++ "\n"
      signedHeaders := "host;x-amz-content-sha256;x-amz-date"
      payloadHash := payloadHash }

/-- What is sent. -/
structure SignedRequest where
  url : String
  headers : List (String × String)

/-- `signRequest`; `none` is a throw. -/
def signRequest (lib : Library) (crypto : Crypto) (input : StorageRequest) : Option SignedRequest :=
  (parse lib input.endpoint.toList).bind fun endpointUrl =>
  (storageCanonical lib crypto input).map fun canonical =>
    let region := input.credentials.region.getD "us-east-1"
    let date := String.ofList (input.amz.toList.take 8)
    let scope := date ++ "/" ++ region ++ "/s3/aws4_request"
    let stringToSign := String.intercalate "\n"
      ["AWS4-HMAC-SHA256", input.amz, scope, crypto.sha256Hex canonical.text]
    let signature := crypto.signature input.credentials.secretKey date region "s3" stringToSign
    ⟨String.ofList (returnedUrl input.endpoint.toList input.path.toList),
      [("host", String.ofList (hostOf endpointUrl)),
        ("x-amz-content-sha256", canonical.payloadHash), ("x-amz-date", input.amz),
        ("authorization", "AWS4-HMAC-SHA256 Credential=" ++ input.credentials.accessKey ++ "/" ++
          scope ++ ", SignedHeaders=" ++ canonical.signedHeaders ++ ", Signature=" ++ signature)]⟩

/-! ## Encoded paths -/

section Encoded

variable {object path seg t : List Char} {slash : Bool} {c : Char}

/-- The segments of the object's path, as they are sent. -/
def keys (object : List Char) : List (List Char) := (object.splitOn '/').map (uriEncode · false)

theorem intercalate_slash {segs : List (List Char)} :
    ['/'].intercalate (seg :: segs) = seg ++ pathname segs := by
  induction segs generalizing seg with
  | nil => exact List.intercalate_singleton.trans (List.append_nil seg).symm
  | cons seg' segs ih =>
    rw [List.intercalate_cons_cons, ih, List.append_assoc]
    rfl

theorem splitOn_slash : ('/' :: object).splitOn '/' = [] :: object.splitOn '/' :=
  List.splitOn_append_cons_self [] object

theorem encodedPath_eq : encodedPath ('/' :: object) = pathname (keys object) := by
  unfold encodedPath keys
  rw [splitOn_slash, List.map_cons, intercalate_slash]
  rfl

/-- A path is its first segment and the others. -/
theorem encodedPath_cons {rest : List (List Char)} (h : path.splitOn '/' = seg :: rest) :
    encodedPath path = uriEncode seg false ++ pathname (rest.map (uriEncode · false)) := by
  unfold encodedPath
  rw [h, List.map_cons, intercalate_slash]

theorem uriEncode_append {s : List Char} :
    uriEncode (s ++ t) slash = uriEncode s slash ++ uriEncode t slash := by
  unfold uriEncode
  rw [List.flatMap_append, List.flatMap_append]

/-- Segment by segment is all at once. -/
theorem encodedPath_uriEncode : encodedPath path = uriEncode path false := by
  have hall : ∀ segs : List (List Char), ['/'].intercalate (segs.map (uriEncode · false)) =
      uriEncode (['/'].intercalate segs) false := by
    intro segs
    induction segs with
    | nil => rfl
    | cons seg segs ih =>
      cases segs with
      | nil =>
        rw [List.map_singleton, List.intercalate_singleton, List.intercalate_singleton]
      | cons seg' segs =>
        rw [List.map_cons, List.map_cons, List.intercalate_cons_cons, List.intercalate_cons_cons,
          uriEncode_append, uriEncode_append, ← ih]
        rfl
  unfold encodedPath
  rw [hall, List.intercalate_splitOn]

/-- What stays as it is in the signer's form stays so in a URL. -/
theorem unreserved_plain (h : unreserved c = true) :
    inPathSet c = false ∧ c ≠ '/' ∧ c ≠ '\\' := by
  have hrange := unreserved_low h
  have hne : ∀ d : Char, unreserved d = false → c ≠ d := by
    intro d hd heq
    rw [← heq, h] at hd
    cases hd
  refine ⟨?_, hne _ (by decide), hne _ (by decide)⟩
  have hlisted : ['"', '#', '<', '>', '?', '^', '\x60', '{', '}'].contains c = false := by
    rw [Bool.eq_false_iff]
    intro hmem
    have hall : ∀ d ∈ ['"', '#', '<', '>', '?', '^', '\x60', '{', '}'], unreserved d = false :=
      none_of_all (by decide)
    have := hall c (List.contains_iff_mem.mp hmem)
    rw [h] at this
    cases this
  unfold inPathSet
  rw [Bool.or_eq_false_iff, Bool.or_eq_false_iff, decide_eq_false_iff_not, decide_eq_false_iff_not]
  exact ⟨⟨by omega, by omega⟩, hlisted⟩

/-- What a path is encoded in is not changed by the parser, and ends nothing. -/
theorem encoded_plain (h : c ∈ uriEncode t slash) : inPathSet c = false ∧ c ≠ '\\' := by
  rw [uriEncode_eq] at h
  rcases mem_escape h with h | rfl | ⟨n, hn, rfl⟩
  · unfold kept at h
    rw [Bool.or_eq_true, Bool.and_eq_true, beq_iff_eq] at h
    rcases h with h | ⟨rfl, _⟩
    · exact ⟨(unreserved_plain h).1, (unreserved_plain h).2.2⟩
    · decide
  · decide
  · have hall : ∀ n < 16, inPathSet (Url.hexDigit n) = false ∧ Url.hexDigit n ≠ '\\' := by decide
    exact hall n hn

theorem blank_of_inPathSet (h : inPathSet c = false) : c0OrSpace c = false := by
  unfold inPathSet at h
  simp only [Bool.or_eq_false_iff] at h
  exact h.1.1

/-- Without slashes before, there are none after. -/
theorem encoded_slash (h : '/' ∉ t) : '/' ∉ uriEncode t slash := by
  intro hmem
  unfold uriEncode at hmem
  obtain ⟨c, hc, hmem⟩ := List.mem_flatMap.mp hmem
  have hescape : '/' ∉ (String.utf8EncodeChar c).flatMap percent := by
    intro hmem
    obtain ⟨b, _, hb⟩ := List.mem_flatMap.mp hmem
    have := (plain_percent hb).2.2
    revert this
    decide
  have hne : c ≠ '/' := by
    rintro rfl
    obtain ⟨d, hd, hmem⟩ := List.mem_flatMap.mp hc
    unfold perUnit at hmem
    split at hmem
    · exact h (List.mem_singleton.mp hmem ▸ hd)
    · revert hmem
      decide
  split at hmem
  · exact hne (List.mem_singleton.mp hmem).symm
  · split at hmem
    · exact hne (List.mem_singleton.mp hmem).symm
    · exact hescape hmem

theorem keys_plain (h : seg ∈ keys object) : ∀ c ∈ seg, inPathSet c = false ∧ isSlash c = false := by
  obtain ⟨s, hs, rfl⟩ := List.mem_map.mp h
  intro c hc
  obtain ⟨hset, hback⟩ := encoded_plain hc
  refine ⟨hset, ?_⟩
  unfold isSlash
  rw [Bool.or_eq_false_iff, beq_eq_false_iff_ne, beq_eq_false_iff_ne]
  refine ⟨?_, hback⟩
  rintro rfl
  refine encoded_slash ?_ hc
  intro hmem
  rw [List.splitOn_eq_splitOnP] at hs
  exact absurd (noSep_of_mem_splitOnP hs '/' hmem) (by decide)

/-! ### Dots and slashes -/

theorem octets_dots {n : Nat} (h : dots seg = some n) : octets seg = List.replicate n 0x2E := by
  fun_induction dots seg generalizing n with
  | case1 =>
    obtain rfl := Option.some.inj h
    rfl
  | case2 seg ih =>
    obtain ⟨m, hm, rfl⟩ := Option.map_eq_some_iff.mp h
    rw [octets_cons (by decide), ih hm, List.replicate_succ]
    rfl
  | case3 seg ih =>
    obtain ⟨m, hm, rfl⟩ := Option.map_eq_some_iff.mp h
    rw [octets_hex rfl rfl, ih hm, List.replicate_succ]
    rfl
  | case4 seg ih =>
    obtain ⟨m, hm, rfl⟩ := Option.map_eq_some_iff.mp h
    rw [octets_hex rfl rfl, ih hm, List.replicate_succ]
    rfl
  | case5 => cases h

theorem encode_replicate {n : Nat} (hc : c.toNat < 0x80) :
    Utf8.encode (List.replicate n c) = List.replicate n (UInt8.ofNat c.toNat) := by
  induction n with
  | zero => rfl
  | succ n ih =>
    rw [List.replicate_succ, List.replicate_succ, ← ih]
    show String.utf8EncodeChar c ++ _ = _
    rw [utf8EncodeChar_ascii hc]
    rfl

/-- What is encoded as one character, many times, is that. -/
theorem replicate_of_encode {n : Nat} (hc : c ≠ Utf8.replacement)
    (h : octets (uriEncode t slash) = Utf8.encode (List.replicate n c)) : t = List.replicate n c := by
  rw [octets_uriEncode] at h
  have hunits := encode_inj h
  clear h
  induction t generalizing n with
  | nil => exact hunits
  | cons d t ih =>
    cases n with
    | zero =>
      have := (List.flatMap_eq_nil_iff.mp hunits) d List.mem_cons_self
      unfold perUnit at this
      split at this <;> cases this
    | succ n =>
      rw [List.flatMap_cons, List.replicate_succ] at hunits
      unfold perUnit at hunits
      split at hunits
      · obtain ⟨rfl, hrest⟩ := List.cons.inj hunits
        rw [List.replicate_succ, ← ih hrest]
      · exact absurd (List.cons.inj hunits).1.symm hc

/-- Slashes are encoded as slashes, and nothing else is. -/
theorem uriEncode_eq_slashes {n : Nat} :
    uriEncode t false = List.replicate n '/' ↔ t = List.replicate n '/' := by
  have hself : uriEncode (List.replicate n '/') false = List.replicate n '/' := by
    induction n with
    | zero => rfl
    | succ n ih =>
      show uriEncode (['/'] ++ List.replicate n '/') false = _
      rw [uriEncode_append, ih]
      rfl
  have hunits : OneUnit (List.replicate n '/') := by
    intro c hc
    rw [(List.mem_replicate.mp hc).2]
    decide
  constructor
  · intro h
    refine @replicate_of_encode _ false _ _ (by decide) ?_
    rw [h, ← hself, octets_uriEncode, perUnit_id hunits, hself]
  · rintro rfl
    exact hself

theorem isDot_encoded : isDot (uriEncode t slash) = false ↔ t ≠ ['.'] ∧ t ≠ ['.', '.'] := by
  constructor
  · intro h
    refine ⟨?_, ?_⟩
    · rintro rfl
      cases slash <;> exact absurd h (by decide)
    · rintro rfl
      cases slash <;> exact absurd h (by decide)
  · intro ⟨hone, htwo⟩
    have hno : ∀ n, t ≠ List.replicate n '.' → dots (uriEncode t slash) ≠ some n := by
      intro n hne hdots
      refine hne (@replicate_of_encode _ slash _ _ (by decide) ?_)
      rw [octets_dots hdots, encode_replicate (by decide)]
      rfl
    exact isDot_eq_false (hno 2 htwo) (hno 1 hone)

end Encoded

/-! ## When the URL's path is the signed one -/

/-- An endpoint that a path can be put behind, and a path that is left as it is. -/
structure Joins (lib : Library) (endpoint path : List Char) : Prop where
  /-- What the parser drops at the endpoint's end it drops everywhere. -/
  ends : ∀ c ∈ endpoint.rtakeWhile c0OrSpace, tabOrNewline c = true
  /-- With one slash in place of those at its end, there is one. -/
  slashes : ∀ w, parse lib (trimEndpoint endpoint ++ ['/']) = some (.web w) →
    ¬ ['/', '/'] <:+ pathname w.path
  dots : ∀ seg ∈ path.splitOn '/', seg ≠ ['.'] ∧ seg ≠ ['.', '.']

/-- An endpoint that is as it should be with no path behind it. -/
structure Stands (lib : Library) (endpoint : List Char) : Prop where
  /-- What the parser drops before the slash that is not sent it drops everywhere. -/
  ends : endpoint.getLast? = some '/' →
    ∀ c ∈ (trimEndpoint endpoint).rtakeWhile c0OrSpace, tabOrNewline c = true
  slashes : ∀ w, parse lib (trimEndpoint endpoint) = some (.web w) → ¬ ['/'] <:+ pathname w.path

/-- The last segment of a URL's path as it is written, if the URL has a path. -/
def lastSegment (cs : List Char) : Option (List Char) :=
  (bodyOf (opened cs)).bind fun body => (segmentsOf body.2).getLast?

/-- An endpoint whose last segment a path without a slash goes on. -/
structure Continues (endpoint path : List Char) : Prop where
  ends : ∀ c ∈ endpoint.rtakeWhile c0OrSpace, tabOrNewline c = true
  /-- The segment is one that stays, and would be with the path's first one behind it. -/
  last : ∃ seg, lastSegment (trimEndpoint endpoint) = some seg ∧ seg ≠ [] ∧ isDot seg = false ∧
    ∀ first ∈ (path.splitOn '/').head?, isDot (seg ++ uriEncode first false) = false
  dots : ∀ seg ∈ (path.splitOn '/').tail, seg ≠ ['.'] ∧ seg ≠ ['.', '.']

/-- Behind a query or a fragment no path is added: the one there is ends in the slashes that
were not signed, and these have to be the object's path. -/
def StorageAgrees (lib : Library) (endpoint : List Char) (e : WebUrl) (path : List Char) : Prop :=
  if endpoint.any endsPath then path = (pathname e.path).rtakeWhile (· == '/')
  else if path = [] then Stands lib endpoint
  else if path.head? = some '/' then Joins lib endpoint path
  else Continues endpoint path

section Joined

variable {lib : Library} {endpoint object path q t : List Char} {e : WebUrl} {scheme : WebScheme}

/-- An endpoint, as its scheme, its text with nothing at its end, what is at its end, and the
slash that is not sent. -/
structure Opened (lib : Library) (endpoint : List Char) (e : WebUrl) (scheme : WebScheme)
    (r z tail : List Char) : Prop where
  printed : ∃ c ∈ trimEndpoint endpoint, c0OrSpace c = false
  body : bodyOf (opened (trimEndpoint endpoint)) = some (scheme, r ++ z)
  named : r ≠ []
  rest : z = trailing endpoint
  slash : tail = [] ∧ endpoint.getLast? ≠ some '/' ∨
    tail = ['/'] ∧ z = [] ∧ endpoint.getLast? = some '/'
  url : authority lib scheme (r ++ tail) = some e
  ends : (∃ c ∈ endpoint, endsPath c = true) ↔ ∃ c ∈ r, endsPath c = true

/-- An endpoint that parses can be taken apart where the object's path is put. -/
theorem opened_endpoint (h : parse lib endpoint = some (.web e)) :
    ∃ scheme r z tail, Opened lib endpoint e scheme r z tail := by
  obtain ⟨scheme, r, hbody, hauth⟩ := body_of_parse h
  have hne : r ≠ [] := by
    rintro rfl
    cases hauth
  have hcolon := mem_of_clean (colon_of_body hbody)
  -- a query or a fragment begins with neither a blank nor a slash
  have hends : ∀ c, endsPath c = true → c0OrSpace c = false ∧ c ≠ '/' := by
    intro c hc
    unfold endsPath at hc
    rw [Bool.or_eq_true, beq_iff_eq, beq_iff_eq] at hc
    rcases hc with rfl | rfl <;> decide
  -- the endpoint ends in a slash: what is trimmed is that one
  by_cases hlast : endpoint.getLast? = some '/'
  · obtain ⟨init, rfl⟩ := List.getLast?_eq_some_iff.mp hlast
    have htrim : trimEndpoint (init ++ ['/']) = init := by
      unfold trimEndpoint
      rw [if_pos hlast, List.dropLast_concat]
    have hinit : ':' ∈ init := by
      rcases List.mem_append.mp hcolon with hmem | hmem
      · exact hmem
      · exact absurd hmem (by decide)
    have hprinted : ∃ c ∈ init, c0OrSpace c = false := ⟨':', hinit, rfl⟩
    rw [clean_append hprinted (List.cons_ne_nil _ _) (none_of_all (by decide))] at hbody
    obtain ⟨r, hr, rfl, hopened⟩ := bodyOf_concat hbody hne
    refine ⟨scheme, r, [], ['/'], ?_⟩
    constructor
    · rwa [htrim]
    · rwa [htrim, List.append_nil]
    · exact hr
    · symm
      unfold trailing
      rw [List.rtakeWhile_concat_neg _ _ _ (by decide)]
      rfl
    · exact .inr ⟨rfl, rfl, hlast⟩
    · exact hauth
    · refine exists_congr fun c => ?_
      refine and_congr_left fun hc => ?_
      rw [← mem_body hopened hc, mem_opened (hends c hc).1, List.mem_append, List.mem_singleton]
      exact or_iff_left (hends c hc).2
  -- it does not, and nothing is trimmed
  · have htrim : trimEndpoint endpoint = endpoint := if_neg hlast
    have hprinted : ∃ c ∈ endpoint, c0OrSpace c = false := ⟨':', hcolon, rfl⟩
    have hopened : bodyOf (opened endpoint) = some (scheme, r ++ trailing endpoint) := by
      rw [opened_eq hprinted]
      exact bodyOf_append hbody hne
    refine ⟨scheme, r, trailing endpoint, [], ?_⟩
    constructor
    · rwa [htrim]
    · rwa [htrim]
    · exact hne
    · rfl
    · exact .inl ⟨rfl, hlast⟩
    · rwa [List.append_nil]
    -- what opens a query is found in the same place either way
    · refine exists_congr fun c => ?_
      refine and_congr_left fun hc => ?_
      rw [← mem_opened (hends c hc).1, mem_body hopened hc, List.mem_append]
      refine or_iff_left fun hmem => ?_
      have := (trailing_blank hmem).1
      rw [(hends c hc).1] at this
      cases this

/-- What the parser makes of the endpoint with a text behind it. -/
theorem Opened.parse_append {r z tail : List Char} (h : Opened lib endpoint e scheme r z tail)
    (hne : q ≠ []) (hq : ∀ c ∈ q, c0OrSpace c = false) :
    parse lib (trimEndpoint endpoint ++ q) = (authority lib scheme (r ++ z ++ q)).map .web := by
  unfold parse
  rw [clean_append h.printed hne hq]
  exact parseClean_body (bodyOf_append h.body (List.append_ne_nil_of_left_ne_nil h.named z))

/-- And with nothing: what it drops at the end is no part of the authority. -/
theorem Opened.parse_bare {r z tail : List Char} (h : Opened lib endpoint e scheme r z tail) :
    ∃ r', r ++ z = r' ++ trailing (trimEndpoint endpoint) ∧
      parse lib (trimEndpoint endpoint) = (authority lib scheme r').map .web := by
  have hbody := h.body
  rw [opened_eq h.printed] at hbody
  have hblank : ∀ c ∈ trailing (trimEndpoint endpoint), isSlash c = false ∧ c ≠ ':' := by
    intro c hc
    have hc := (trailing_blank hc).1
    refine ⟨isSlash_of_blank hc, ?_⟩
    rintro rfl
    cases hc
  obtain ⟨r', hr, hclean⟩ := body_of_append hbody hblank
  exact ⟨r', hr, parseClean_body hclean⟩

/-- The host is found, and the path is that of the segments, but for slashes at its end. -/
theorem Opened.found {r z tail : List Char} (h : Opened lib endpoint e scheme r z tail)
    (hno : ∀ c ∈ r, endsPath c = false) :
    hostPort lib scheme (r.takeWhile (!endsAuthority ·)) = some (e.host, e.port) ∧
      strip (pathname e.path) = strip (pathname (walk [] (segmentsOf r))) := by
  have hurl := h.url
  rcases h.slash with ⟨rfl, _⟩ | ⟨rfl, _⟩
  · rw [List.append_nil] at hurl
    exact authority_bare hno hurl
  · rw [authority_append hno fun _ hc => absurd hc List.not_mem_nil] at hurl
    obtain ⟨⟨host, port⟩, hhost, rfl⟩ := Option.map_eq_some_iff.mp hurl
    exact ⟨hhost, strip_slash⟩

theorem settled_segmentsOf {r : List Char} : ∀ seg ∈ walk [] (segmentsOf r), Settled seg := by
  refine settled_walk nofun ?_
  unfold segmentsOf
  split
  · nofun
  · intro seg hseg
    exact noSep_of_mem_splitOnP hseg

theorem splitOnP_keys (h : '/' :: q = pathname (keys object)) : q.splitOnP isSlash = keys object := by
  have hsplit := splitOnP_pathname fun seg (hseg : seg ∈ keys object) c hc => (keys_plain hseg c hc).2
  rw [← h, List.splitOnP_cons_eq_if_modifyHead, if_pos (by rfl)] at hsplit
  exact (List.cons.inj hsplit).2

theorem keys_ne_nil : keys object ≠ [] := by
  unfold keys
  rw [ne_eq, List.map_eq_nil_iff]
  exact List.splitOn_ne_nil _ _

theorem keys_path (object : List Char) :
    ∃ q, '/' :: q = pathname (keys object) ∧ ∀ c ∈ q, inPathSet c = false := by
  obtain ⟨seg, segs, hkeys⟩ := List.exists_cons_of_ne_nil (@keys_ne_nil object)
  have hcons : pathname (keys object) = '/' :: (seg ++ pathname segs) := by
    rw [hkeys]
    rfl
  refine ⟨seg ++ pathname segs, hcons.symm, ?_⟩
  intro c hc
  have hmem : c ∈ pathname (keys object) := hcons ▸ List.mem_cons_of_mem '/' hc
  rw [← encodedPath_eq, encodedPath_uriEncode] at hmem
  exact (encoded_plain hmem).1

/-- No segment is resolved exactly if none is one or two dots. -/
theorem dots_keys : (∀ seg ∈ keys object, isDot seg = false) ↔
    ∀ seg ∈ object.splitOn '/', seg ≠ ['.'] ∧ seg ≠ ['.', '.'] := by
  unfold keys
  rw [List.forall_mem_map]
  exact forall₂_congr fun seg _ => isDot_encoded

/-- The path of the URL that is returned is the signed one. -/
def PathSigned (lib : Library) (endpoint : List Char) (e : WebUrl) (path : List Char) : Prop :=
  ∃ v, parse lib (returnedUrl endpoint path) = some v ∧ pathnameOf v = canonicalUri (.web e) path

/-- Nothing is encoded as nothing, and only that is. -/
theorem uriEncode_eq_nil : uriEncode t false = [] ↔ t = [] :=
  @uriEncode_eq_slashes _ 0

theorem encodedPath_blank (path : List Char) : ∀ c ∈ encodedPath path, c0OrSpace c = false := by
  intro c hc
  rw [encodedPath_uriEncode] at hc
  exact blank_of_inPathSet (encoded_plain hc).1

theorem encodedPath_ends (path : List Char) : ∀ c ∈ encodedPath path, endsPath c = false := by
  intro c hc
  rw [encodedPath_uriEncode] at hc
  exact endsPath_of_not_inPathSet (encoded_plain hc).1

theorem Opened.signed_iff {r z tail : List Char} (h : Opened lib endpoint e scheme r z tail)
    (hne : path ≠ []) : PathSigned lib endpoint e path ↔
      ∃ v, authority lib scheme (r ++ z ++ encodedPath path) = some v ∧
        pathname v.path = strip (pathname e.path) ++ encodedPath path := by
  have hsent : encodedPath path ≠ [] := by
    rw [encodedPath_uriEncode, ne_eq, uriEncode_eq_nil]
    exact hne
  unfold PathSigned returnedUrl canonicalUri
  rw [h.parse_append hsent (encodedPath_blank path)]
  constructor
  · intro ⟨v, hv, hpath⟩
    obtain ⟨w, hw, rfl⟩ := Option.map_eq_some_iff.mp hv
    exact ⟨w, hw, hpath⟩
  · intro ⟨w, hw, hpath⟩
    exact ⟨.web w, Option.map_eq_some_iff.mpr ⟨w, hw, rfl⟩, hpath⟩

/-- Behind a query or a fragment the path is the endpoint's. -/
theorem Opened.query_path {r z tail : List Char} (h : Opened lib endpoint e scheme r z tail)
    (hends : ∃ c ∈ r, endsPath c = true) (hq : ∀ c ∈ q, c0OrSpace c = false) :
    ∃ w, parse lib (trimEndpoint endpoint ++ q) = some (.web w) ∧ w.path = e.path := by
  have hpath : ∀ t, (authority lib scheme (r ++ t)).map WebUrl.path = some e.path := by
    intro t
    rw [authority_query hends, ← authority_query hends (q := tail), h.url]
    rfl
  have hfound : ∀ {u : Option WebUrl}, u.map WebUrl.path = some e.path →
      ∃ w, u.map Parsed.web = some (.web w) ∧ w.path = e.path := by
    intro u hu
    obtain ⟨w, hw, hwe⟩ := Option.map_eq_some_iff.mp hu
    exact ⟨w, Option.map_eq_some_iff.mpr ⟨w, hw, rfl⟩, hwe⟩
  cases q with
  | cons c q =>
    rw [h.parse_append (List.cons_ne_nil c q) hq, List.append_assoc]
    exact hfound (hpath _)
  | nil =>
    obtain ⟨r', hr, hparse⟩ := h.parse_bare
    rw [List.append_nil, hparse]
    -- what is dropped at the end begins no query
    have hends' : ∃ c ∈ r', endsPath c = true := by
      obtain ⟨c, hc, hce⟩ := hends
      refine ⟨c, ?_, hce⟩
      rcases List.mem_append.mp (hr ▸ List.mem_append_left z hc) with hc | hc
      · exact hc
      · have hblank := (trailing_blank hc).1
        unfold endsPath at hce
        rw [Bool.or_eq_true, beq_iff_eq, beq_iff_eq] at hce
        rcases hce with rfl | rfl <;> cases hblank
    refine hfound ?_
    rw [← authority_query hends' (q := trailing (trimEndpoint endpoint)), ← hr]
    exact hpath z

/-- Behind a query the object's path is none of the URL's path. -/
theorem Opened.query_iff {r z tail : List Char} (h : Opened lib endpoint e scheme r z tail)
    (hends : ∃ c ∈ r, endsPath c = true) : PathSigned lib endpoint e path ↔
      path = (pathname e.path).rtakeWhile (· == '/') := by
  -- behind a query the object's path is no part of the path that is parsed
  have hsigned : PathSigned lib endpoint e path ↔
      pathname e.path = strip (pathname e.path) ++ encodedPath path := by
    obtain ⟨w, hw, hpath⟩ := h.query_path hends (encodedPath_blank path)
    unfold PathSigned returnedUrl canonicalUri
    rw [hw]
    constructor
    · intro ⟨v, hv, heq⟩
      obtain rfl := Option.some.inj hv
      exact (congrArg pathname hpath).symm.trans heq
    · intro heq
      exact ⟨_, rfl, (congrArg pathname hpath).trans heq⟩
  -- so what is signed has to be the slashes at its end, and nothing else
  rw [hsigned, encodedPath_uriEncode]
  have hcut := List.rdropWhile_append_rtakeWhile (p := (· == '/')) (l := pathname e.path)
  -- which are slashes alone
  have hslashes : ∃ n, (pathname e.path).rtakeWhile (· == '/') = List.replicate n '/' := by
    refine ⟨_, List.eq_replicate_iff.mpr ⟨rfl, fun c hc => ?_⟩⟩
    have := List.mem_rtakeWhile_imp hc
    exact beq_iff_eq.mp this
  obtain ⟨n, hn⟩ := hslashes
  constructor
  · intro heq
    have hkeys : (pathname e.path).rtakeWhile (· == '/') = uriEncode path false :=
      List.append_cancel_left (hcut.trans heq)
    rw [hn] at hkeys ⊢
    exact uriEncode_eq_slashes.mp hkeys.symm
  · intro heq
    rw [heq, hn, uriEncode_eq_slashes.mpr rfl, ← hn]
    exact hcut.symm

/-- With nothing that is dropped at the endpoint's end, it comes down to slashes and dots. -/
theorem Opened.whole_iff {r tail : List Char} (h : Opened lib endpoint e scheme r [] tail)
    (hno : ∀ c ∈ r, endsPath c = false) : PathSigned lib endpoint e ('/' :: object) ↔
      strip (pathname (walk [] (segmentsOf r))) = pathname (walk [] (segmentsOf r)) ∧
        ∀ seg ∈ keys object, isDot seg = false := by
  obtain ⟨hhost, hstrip⟩ := h.found hno
  obtain ⟨q, hcons, hset⟩ := keys_path object
  have hq : ∀ c ∈ q, endsPath c = false := fun c hc => endsPath_of_not_inPathSet (hset c hc)
  rw [h.signed_iff (List.cons_ne_nil _ _), List.append_nil, encodedPath_eq]
  have hauth := @authority_append lib scheme _ _ hno hq
  rw [hhost, splitOnP_keys hcons, hcons, Option.map_some] at hauth
  rw [hauth]
  have hiff := pathname_resolve_iff (a := strip (pathname e.path)) (settled_segmentsOf (r := r))
    fun seg hseg => @keys_plain object seg hseg
  rw [hstrip] at hiff ⊢
  rw [eq_comm (a := strip _), ← hiff]
  constructor
  · intro ⟨v, hv, hpath⟩
    obtain rfl := Option.some.inj hv
    exact hpath
  · intro hpath
    exact ⟨_, rfl, hpath⟩

/-- With something, the parser encodes it, and it is in no path that was signed. -/
theorem Opened.not_signed {r z tail : List Char} (h : Opened lib endpoint e scheme r z tail)
    (hlib : lib.Printable) (hno : ∀ c ∈ r, endsPath c = false) (hz : z ≠ []) :
    ¬ PathSigned lib endpoint e ('/' :: object) := by
  have hblank : ∀ c ∈ z, c0OrSpace c = true := by
    intro c hc
    rw [h.rest] at hc
    exact (trailing_blank hc).1
  have hplain : ∀ c ∈ z, endsAuthority c = false := fun c hc => endsAuthority_of_blank (hblank c hc)
  have hno' : ∀ c ∈ r ++ z, endsPath c = false := by
    intro c hc
    rcases List.mem_append.mp hc with hc | hc
    · exact hno c hc
    · exact endsPath_of_blank (hblank c hc)
  obtain ⟨_, hstrip⟩ := h.found hno
  obtain ⟨q, hcons, hset⟩ := keys_path object
  have hq : ∀ c ∈ q, endsPath c = false := fun c hc => endsPath_of_not_inPathSet (hset c hc)
  rw [h.signed_iff (List.cons_ne_nil _ _), encodedPath_eq]
  intro ⟨v, hv, hpath⟩
  have hauth := @authority_append lib scheme _ _ hno' hq
  rw [hcons, splitOnP_keys hcons, hv] at hauth
  obtain ⟨⟨host, port⟩, hhost, rfl⟩ := Option.map_eq_some_iff.mp hauth.symm
  cases hd : r.dropWhile (!endsAuthority ·) with
  | nil =>
    -- in the authority it is in no host and in no port
    have hall : ∀ c ∈ r ++ z, (!endsAuthority c) = true := by
      intro c hc
      rcases List.mem_append.mp hc with hc | hc
      · exact List.dropWhile_eq_nil_iff.mp hd c hc
      · rw [hplain c hc]
        rfl
    rw [List.takeWhile_eq_self_iff.mpr hall, hostPort_blank hlib hz hblank] at hhost
    cases hhost
  | cons c path =>
    have hsegments := segmentsOf_cons (q := []) hd
    rw [List.append_nil, List.append_nil] at hsegments
    have hwalk := ((pathname_resolve_iff settled_segmentsOf
      fun seg hseg => keys_plain hseg).mp hpath).1
    have hlong := (@length_walk_blank [] path _ hz hblank).1
    have hshort := length_strip_le (a := pathname (walk [] (path.splitOnP isSlash)))
    rw [hstrip, hsegments, segmentsOf_cons hd] at hwalk
    rw [hwalk] at hlong
    omega

/-- A path with a slash in front. -/
theorem Opened.joins_iff {r z tail : List Char} (h : Opened lib endpoint e scheme r z tail)
    (hlib : lib.Printable) (hno : ∀ c ∈ r, endsPath c = false) :
    PathSigned lib endpoint e ('/' :: object) ↔ Joins lib endpoint ('/' :: object) := by
  have hrest := h.rest
  -- nothing is dropped at the endpoint's end
  by_cases hz : z = []
  · rw [hz] at h hrest
    have hparse := h.parse_append (List.cons_ne_nil '/' []) (none_of_all (by decide))
    obtain ⟨hhost, _⟩ := h.found hno
    rw [List.append_nil, authority_append hno fun _ hc => absurd hc List.not_mem_nil, hhost] at hparse
    -- the endpoint's path ends in no slash if two do not meet behind it
    have hslashes : strip (pathname (walk [] (segmentsOf r))) = pathname (walk [] (segmentsOf r)) ↔
        ∀ w, parse lib (trimEndpoint endpoint ++ ['/']) = some (.web w) →
          ¬ ['/', '/'] <:+ pathname w.path := by
      rw [strip_eq_iff, hparse]
      constructor
      · intro hno w hw
        obtain rfl := Parsed.web.inj (Option.some.inj hw)
        exact pathname_append _ _ ▸ hno
      · intro hall
        exact pathname_append _ [[]] ▸ hall _ rfl
    rw [h.whole_iff hno, dots_keys, hslashes]
    constructor
    · intro ⟨hslash, hdots⟩
      refine ⟨trailing_eq_nil.mp hrest.symm, hslash, ?_⟩
      rw [splitOn_slash, List.forall_mem_cons]
      exact ⟨⟨nofun, nofun⟩, hdots⟩
    · intro hjoins
      have hdots := hjoins.dots
      rw [splitOn_slash, List.forall_mem_cons] at hdots
      exact ⟨hjoins.slashes, hdots.2⟩
  -- a blank at the end of the text would be in the URL, and is not signed
  · refine iff_of_false (h.not_signed hlib hno hz) ?_
    intro hjoins
    exact hz (hrest.trans (trailing_eq_nil.mpr hjoins.ends))

/-- Controls or spaces in front of the endpoint's slash are in what is signed, and not in the
URL that ends in them. -/
theorem Opened.not_bare {r r' : List Char} {w : WebUrl}
    (h : Opened lib endpoint e scheme r [] ['/']) (hno : ∀ c ∈ r, endsPath c = false)
    (hblank : trailing (trimEndpoint endpoint) ≠ [])
    (hr : r = r' ++ trailing (trimEndpoint endpoint)) (hw : authority lib scheme r' = some w) :
    pathname w.path ≠ strip (pathname e.path) := by
  have hall : ∀ c ∈ trailing (trimEndpoint endpoint), c0OrSpace c = true := fun c hc =>
    (trailing_blank hc).1
  rw [(h.found hno).2, hr]
  cases hd : r'.dropWhile (!endsAuthority ·) with
  | nil =>
    obtain ⟨rest, hrest⟩ := pathname_authority hw
    rw [segmentsOf_nil hd fun c hc => endsAuthority_of_blank (hall c hc), hrest]
    exact List.cons_ne_nil _ _
  | cons c p =>
    have hpath := @authority_behind lib scheme _ [] _ _
      (fun d hd' => hno d (hr ▸ List.mem_append_left _ hd')) (by simp) hd
    rw [List.append_nil, List.append_nil, hw] at hpath
    obtain ⟨hp, _, rfl⟩ := Option.map_eq_some_iff.mp hpath.symm
    rw [segmentsOf_cons hd, strip_walk_blank hblank hall]
    intro heq
    have hlong := (@length_walk_blank [] p _ hblank hall).2
    exact absurd (congrArg List.length heq) (Nat.ne_of_lt hlong)

/-- A path without one goes on the endpoint's last segment. -/
theorem Opened.continues_iff {r z tail : List Char} (h : Opened lib endpoint e scheme r z tail)
    (hno : ∀ c ∈ r, endsPath c = false) (hnil : path ≠ []) (hslash : path.head? ≠ some '/') :
    PathSigned lib endpoint e path ↔ Continues endpoint path := by
  obtain ⟨head, tail', hsplit⟩ := List.exists_cons_of_ne_nil (List.splitOn_ne_nil '/' path)
  have hsent := encodedPath_cons hsplit
  have hhead : uriEncode head false ≠ [] := by
    rw [ne_eq, uriEncode_eq_nil]
    rintro rfl
    have hwhole : ['/'].intercalate (path.splitOn '/') = path := List.intercalate_splitOn '/'
    rw [hsplit, intercalate_slash, List.nil_append] at hwhole
    cases tail' with
    | nil => exact hnil hwhole.symm
    | cons seg segs => exact hslash (hwhole ▸ rfl)
  generalize hfirst : uriEncode head false = first at hhead hsent
  generalize hsegs : tail'.map (uriEncode · false) = segs at hsent
  have hblank : ∀ c ∈ z, c0OrSpace c = true := by
    intro c hc
    rw [h.rest] at hc
    exact (trailing_blank hc).1
  have hlast : lastSegment (trimEndpoint endpoint) = (segmentsOf (r ++ z)).getLast? := by
    unfold lastSegment
    rw [h.body]
    rfl
  have hplain : ∀ seg ∈ first :: segs, ∀ c ∈ seg, inPathSet c = false ∧ isSlash c = false := by
    intro seg hseg
    refine @keys_plain path seg ?_
    unfold keys
    rw [hsplit, List.map_cons, hfirst, hsegs]
    exact hseg
  have hdots : (∀ seg ∈ segs, isDot seg = false) ↔
      ∀ seg ∈ tail', seg ≠ ['.'] ∧ seg ≠ ['.', '.'] := by
    rw [← hsegs, List.forall_mem_map]
    exact forall₂_congr fun seg _ => isDot_encoded
  rw [h.signed_iff hnil, (h.found hno).2, hsent]
  cases hd : r.dropWhile (!endsAuthority ·) with
  | nil =>
    -- there is no path to go on: what is behind the endpoint is part of its host
    refine iff_of_false ?_ fun hcontinues => ?_
    · intro ⟨v, hv, hpath⟩
      obtain ⟨rest, hrest⟩ := pathname_authority hv
      have hsegments := segmentsOf_nil (q := []) hd (by simp)
      rw [List.append_nil] at hsegments
      obtain ⟨c, first', rfl⟩ := List.exists_cons_of_ne_nil hhead
      rw [hrest, hsegments] at hpath
      obtain rfl : '/' = c := (List.cons.inj hpath).1
      cases (hplain _ List.mem_cons_self '/' List.mem_cons_self).2
    · obtain ⟨seg, hseg, _⟩ := hcontinues.last
      rw [hlast, segmentsOf_nil hd fun c hc => endsAuthority_of_blank (hblank c hc)] at hseg
      cases hseg
  | cons c p =>
    obtain ⟨init, seg, hp⟩ := ((p.splitOnP isSlash).eq_nil_or_concat).resolve_left
      (List.splitOnP_ne_nil isSlash p)
    rw [List.concat_eq_append] at hp
    have hends : ∀ d ∈ z ++ (first ++ pathname segs), endsPath d = false := by
      intro d hd'
      rcases List.mem_append.mp hd' with hd' | hd'
      · exact endsPath_of_blank (hblank d hd')
      · exact encodedPath_ends path d (hsent ▸ hd')
    have hsegments := segmentsOf_cons (q := []) hd
    rw [List.append_nil, List.append_nil] at hsegments
    rw [List.append_assoc, authority_behind hno hends hd, (h.found hno).1, hsegments]
    have hiff := pathname_resolve_behind hp hblank hhead (hplain first List.mem_cons_self)
      fun seg hseg => hplain seg (List.mem_cons_of_mem first hseg)
    rw [hdots] at hiff
    constructor
    · intro ⟨v, hv, hpath⟩
      obtain rfl := Option.some.inj hv
      obtain ⟨rfl, ⟨hnamed, hstay, hwith⟩, hrest⟩ := hiff.mp hpath
      refine ⟨trailing_eq_nil.mp h.rest.symm, ⟨seg, ?_, hnamed, hstay, ?_⟩, ?_⟩
      · rw [hlast, List.append_nil, hsegments, hp, List.getLast?_concat]
      · rw [hsplit]
        intro first' hfirst'
        obtain rfl := Option.some.inj hfirst'
        rwa [hfirst]
      · rw [hsplit]
        exact hrest
    · intro hcontinues
      have hz : z = [] := h.rest.trans (trailing_eq_nil.mpr hcontinues.ends)
      obtain ⟨seg', hseg', hnamed, hstay, hwith⟩ := hcontinues.last
      rw [hlast, hz, List.append_nil, hsegments, hp, List.getLast?_concat] at hseg'
      obtain rfl := Option.some.inj hseg'
      refine ⟨_, rfl, hiff.mpr ⟨hz, ⟨hnamed, hstay, ?_⟩, ?_⟩⟩
      · rw [← hfirst]
        exact hwith head (by rw [hsplit]; rfl)
      · have := hcontinues.dots
        rwa [hsplit] at this

/-- Nothing behind the endpoint: its own path has to end in no slash. -/
theorem Opened.bare_iff {r z tail : List Char} (h : Opened lib endpoint e scheme r z tail)
    (hendpoint : parse lib endpoint = some (.web e)) (hno : ∀ c ∈ r, endsPath c = false) :
    PathSigned lib endpoint e [] ↔ Stands lib endpoint := by
  -- an empty path adds nothing to either
  have hsigned : PathSigned lib endpoint e [] ↔
      ∃ v, parse lib (trimEndpoint endpoint) = some v ∧ pathnameOf v = strip (pathname e.path) := by
    unfold PathSigned returnedUrl canonicalUri
    rw [show encodedPath [] = [] from rfl, List.append_nil, List.append_nil]
    rfl
  rw [hsigned]
  rcases h.slash with ⟨_, hlast⟩ | ⟨rfl, rfl, hlast⟩
  · -- the URL is the endpoint
    have htrim : trimEndpoint endpoint = endpoint := if_neg hlast
    rw [htrim, hendpoint]
    constructor
    · intro ⟨v, hv, hpath⟩
      obtain rfl := Option.some.inj hv
      refine ⟨fun hslash => absurd hslash hlast, fun w hw => ?_⟩
      rw [htrim, hendpoint, Option.some_inj] at hw
      obtain rfl := Parsed.web.inj hw
      exact strip_self_iff.mp hpath.symm
    · intro hstands
      refine ⟨_, rfl, (strip_self_iff.mpr (hstands.slashes e ?_)).symm⟩
      rw [htrim, hendpoint]
  · -- the URL is the endpoint less its slash
    obtain ⟨r', hr, hparse⟩ := h.parse_bare
    obtain ⟨hhost, hstrip⟩ := h.found hno
    rw [List.append_nil] at hr
    have hno' : ∀ c ∈ r', endsPath c = false := fun c hc =>
      hno c (hr ▸ List.mem_append_left _ hc)
    by_cases hblank : trailing (trimEndpoint endpoint) = []
    · rw [hblank, List.append_nil] at hr
      subst hr
      have hfound : ∃ w, authority lib scheme r = some w := by
        unfold authority
        rw [hhost]
        exact ⟨_, rfl⟩
      obtain ⟨w, hw⟩ := hfound
      rw [hw, Option.map_some] at hparse
      rw [hstrip, ← (authority_bare hno hw).2, hparse]
      constructor
      · intro ⟨v, hv, hpath⟩
        obtain rfl := Option.some.inj hv
        refine ⟨fun _ => trailing_eq_nil.mp hblank, fun w' hw' => ?_⟩
        rw [hparse, Option.some_inj] at hw'
        obtain rfl := Parsed.web.inj hw'
        exact strip_self_iff.mp hpath.symm
      · intro hstands
        exact ⟨_, rfl, (strip_self_iff.mpr (hstands.slashes w hparse)).symm⟩
    · -- what is dropped in front of the slash is signed
      refine iff_of_false ?_ fun hstands => hblank (trailing_eq_nil.mpr (hstands.ends hlast))
      intro ⟨v, hv, hpath⟩
      obtain ⟨w, hw, rfl⟩ := Option.map_eq_some_iff.mp (hparse.symm.trans hv)
      exact h.not_bare hno hblank hr hw hpath

/-- **The URL's path is the signed one** exactly if the endpoint and the path agree. -/
theorem signed_path_iff (hlib : lib.Printable) (hendpoint : parse lib endpoint = some (.web e)) :
    PathSigned lib endpoint e path ↔ StorageAgrees lib endpoint e path := by
  obtain ⟨scheme, r, z, tail, h⟩ := opened_endpoint hendpoint
  unfold StorageAgrees
  by_cases hends : ∃ c ∈ r, endsPath c = true
  · rw [if_pos (List.any_eq_true.mpr (h.ends.mpr hends))]
    exact h.query_iff hends
  have hany : ¬ endpoint.any endsPath = true := fun hany =>
    hends (h.ends.mp (List.any_eq_true.mp hany))
  have hno : ∀ c ∈ r, endsPath c = false := by
    intro c hc
    rw [Bool.eq_false_iff]
    exact fun htrue => hends ⟨c, hc, htrue⟩
  rw [if_neg hany]
  by_cases hnil : path = []
  · rw [if_pos hnil, hnil]
    exact h.bare_iff hendpoint hno
  rw [if_neg hnil]
  by_cases hslash : path.head? = some '/'
  · obtain ⟨object, rfl⟩ := List.head?_eq_some_iff.mp hslash
    rw [if_pos hslash]
    exact h.joins_iff hlib hno
  · rw [if_neg hslash]
    exact h.continues_iff hno hnil hslash

end Joined

/-! ## Both signers -/

/-- What is signed is the path of the URL that is returned. -/
def StorageSigned (lib : Library) (crypto : Crypto) (input : StorageRequest) : Prop :=
  ∃ signed canonical v, signRequest lib crypto input = some signed ∧
    storageCanonical lib crypto input = some canonical ∧
    parse lib signed.url.toList = some v ∧ canonical.path = pathnameOf v

section Signed

variable {lib : Library} {crypto : Crypto} {input : StorageRequest} {e : WebUrl}

/-- The request is the URL's path, since the rest of it is made the same way. -/
theorem storage_signed_iff (h : parse lib input.endpoint.toList = some (.web e)) :
    StorageSigned lib crypto input ↔ PathSigned lib input.endpoint.toList e input.path.toList := by
  have hcanonical : ∃ canonical, storageCanonical lib crypto input = some canonical ∧
      canonical.path = canonicalUri (.web e) input.path.toList := by
    unfold storageCanonical
    rw [h]
    exact ⟨_, rfl, rfl⟩
  obtain ⟨canonical, hrequest, hpath⟩ := hcanonical
  have hsigned : ∃ signed, signRequest lib crypto input = some signed ∧
      signed.url = String.ofList (returnedUrl input.endpoint.toList input.path.toList) := by
    unfold signRequest
    rw [h, Option.bind_some, hrequest]
    exact ⟨_, rfl, rfl⟩
  obtain ⟨signed, hsigned, hurl⟩ := hsigned
  unfold StorageSigned PathSigned
  constructor
  · intro ⟨signed', canonical', v, hs, hc, hv, heq⟩
    obtain rfl := Option.some.inj (hsigned.symm.trans hs)
    obtain rfl := Option.some.inj (hrequest.symm.trans hc)
    rw [hurl, String.toList_ofList] at hv
    exact ⟨v, hv, heq.symm.trans hpath⟩
  · intro ⟨v, hv, heq⟩
    refine ⟨signed, canonical, v, hsigned, hrequest, ?_, hpath.trans heq.symm⟩
    rwa [hurl, String.toList_ofList]

end Signed

/-- **What each of them signs is what is sent** exactly where its own condition says so. -/
theorem signed_as_sent_iff {lib : Library} {crypto : Crypto} {credentials : SigV4Credentials}
    {req : SigV4Request} {u : WebUrl} {input : StorageRequest} {e : WebUrl}
    (hlib : lib.Printable) (hreq : parse lib req.url.toList = some (.web u))
    (hendpoint : parse lib input.endpoint.toList = some (.web e)) :
    (RequestSigned lib crypto credentials req ↔ PathAgrees u ∧ QueryAgrees (u.query.getD [])) ∧
      (StorageSigned lib crypto input ↔
        StorageAgrees lib input.endpoint.toList e input.path.toList) := by
  refine ⟨request_signed_iff hreq, ?_⟩
  rw [storage_signed_iff hendpoint]
  exact signed_path_iff hlib hendpoint

/-! ### At two requests -/

/-- Hosts that are written as they are meant. -/
def plainHosts : Library where
  host cs := if cs.any c0OrSpace then none else some cs
  other _ _ := none

/-- Nothing is hidden. -/
def plainText : Crypto where
  sha256Hex text := text
  signature secret _ _ _ _ := secret

def rootCredentials : SigV4Credentials := ⟨"AKID", "secret", none⟩

/-- A request to AWS for a URL. -/
def getOf (url : String) : SigV4Request where
  method := "GET"
  url := url
  region := "us-east-1"
  service := "iam"
  headers := []
  body := none
  amz := "20150830T123600Z"

/-- A request to the store at an endpoint, for a bucket. -/
def putAt (endpoint : String) : StorageRequest where
  method := "PUT"
  endpoint := endpoint
  path := "/assets"
  credentials := ⟨"AKID", "secret", none⟩
  payload := none
  amz := "20150830T123600Z"

theorem printable_plainHosts : plainHosts.Printable := by
  intro cs ⟨c, hc, hblank⟩
  exact if_pos (List.any_eq_true.mpr ⟨c, hc, hblank⟩)

theorem signed_as_sent_users :
    (RequestSigned plainHosts plainText rootCredentials
        (getOf "https://iam.amazonaws.com/?Action=ListUsers") ↔
      PathAgrees ⟨.https, "iam.amazonaws.com".toList, none, [[]], some "Action=ListUsers".toList⟩ ∧
        QueryAgrees "Action=ListUsers".toList) ∧
      (StorageSigned plainHosts plainText (putAt "http://minio:9000/s3/") ↔
        StorageAgrees plainHosts "http://minio:9000/s3/".toList
          ⟨.http, "minio".toList, some 9000, ["s3".toList, []], none⟩ "/assets".toList) :=
  signed_as_sent_iff printable_plainHosts (by decide +kernel) (by decide +kernel)

/-- A character of two units is signed as two that it is not; of two slashes at the end of an
endpoint one is sent and none is signed. -/
theorem not_signed_as_sent :
    ¬ RequestSigned plainHosts plainText rootCredentials (getOf "https://h/😀") ∧
      ¬ StorageSigned plainHosts plainText (putAt "http://minio:9000/s3//") := by
  refine ⟨?_, ?_⟩
  -- the character is two units of UTF-16, each encoded by itself, and four octets
  · intro ⟨signed, canonical, u, hsigned, hcanonical, hu, hpath, _⟩
    have hurl : (signSigV4Request plainHosts plainText rootCredentials
        (getOf "https://h/😀")).map (·.url) = some "https://h/😀" := by decide +kernel
    have hparse : parse plainHosts "https://h/😀".toList =
        some (.web ⟨.https, ['h'], none, ["%F0%9F%98%80".toList], none⟩) := by decide +kernel
    have hline : (canonicalRequest plainHosts plainText rootCredentials
        (getOf "https://h/😀")).map (·.path) = some "/%EF%BF%BD%EF%BF%BD".toList := by
      decide +kernel
    rw [hsigned, Option.map_some, Option.some_inj] at hurl
    rw [hcanonical, Option.map_some, Option.some_inj] at hline
    rw [hurl, hparse, Option.some_inj] at hu
    obtain rfl := Parsed.web.inj hu
    rw [hline] at hpath
    revert hpath
    decide +kernel
  -- the URL keeps the second slash, the canonical form has neither
  · intro ⟨signed, canonical, v, hsigned, hcanonical, hv, hpath⟩
    have hurl : (signRequest plainHosts plainText (putAt "http://minio:9000/s3//")).map (·.url) =
        some "http://minio:9000/s3//assets" := by decide +kernel
    have hparse : (parse plainHosts "http://minio:9000/s3//assets".toList).map pathnameOf =
        some "/s3//assets".toList := by decide +kernel
    have hline : (storageCanonical plainHosts plainText (putAt "http://minio:9000/s3//")).map (·.path) =
        some "/s3/assets".toList := by decide +kernel
    rw [hsigned, Option.map_some, Option.some_inj] at hurl
    rw [hcanonical, Option.map_some, Option.some_inj] at hline
    rw [← hurl, hv, Option.map_some, Option.some_inj, ← hpath, hline] at hparse
    revert hparse
    decide +kernel

end CloudWai.Signing
