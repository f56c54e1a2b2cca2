import Mathlib.Data.List.DropRight
import Mathlib.Data.List.TakeWhile

/-!
# URLs

The WHATWG parser, as far as `http:` and `https:` URLs and references against them
go: input is cleaned, a scheme is looked for, and the rest is an authority, a path, or
both. Where the standard runs a state machine character by character, the states are
here functions on what is left of the input.

Two things are parameters. `Library.host` is the host parser (percent-decoding, IDNA,
IPv4 and IPv6), and `Library.other` the rest of the parser, for URLs of other schemes.

What is sent to a server of a URL is its `request`: path and query as they were
normalised. A string that is `Normal` is its own request (`render_of_normal`), and
every request is `Normal` (`normal_render`).
-/

namespace Base

namespace Url

/-! ## Characters -/

/-- A C0 control or a space. -/
def c0OrSpace (c : Char) : Bool := c.toNat ≤ 0x20

/-- An ASCII tab or newline. -/
def tabOrNewline (c : Char) : Bool := c.toNat == 9 || c.toNat == 10 || c.toNat == 13

/-- What separates the segments of a special URL's path. -/
def isSlash (c : Char) : Bool := c == '/' || c == '\\'

/-- Where a path ends. -/
def endsPath (c : Char) : Bool := c == '?' || c == '#'

/-- Where an authority ends. -/
def endsAuthority (c : Char) : Bool := isSlash c || endsPath c

/-- The query percent-encode set, and `'` for special URLs. -/
def inQuerySet (c : Char) : Bool :=
  c.toNat ≤ 0x20 || 0x7F ≤ c.toNat || ['"', '#', '<', '>', '\''].contains c

/-- The path percent-encode set. -/
def inPathSet (c : Char) : Bool :=
  c.toNat ≤ 0x20 || 0x7F ≤ c.toNat || ['"', '#', '<', '>', '?', '^', '`', '{', '}'].contains c

/-- `0`–`9`, `A`–`F` -/
def hexDigit (n : Nat) : Char := if n < 10 then Char.ofNat (48 + n) else Char.ofNat (55 + n)

/-- A byte, percent-encoded. -/
def percent (b : UInt8) : List Char := ['%', hexDigit (b.toNat / 16), hexDigit (b.toNat % 16)]

/-- UTF-8 percent-encode, with a percent-encode set. -/
def encode (set : Char → Bool) (cs : List Char) : List Char :=
  cs.flatMap fun c => if set c then (String.utf8EncodeChar c).flatMap percent else [c]

/-- Leading and trailing controls go, and tabs and newlines everywhere. -/
def clean (cs : List Char) : List Char :=
  ((cs.dropWhile c0OrSpace).rdropWhile c0OrSpace).filter fun c => !tabOrNewline c

/-! ## Paths -/

/-- How many dots a segment is, `%2e` counting for one, if it is nothing else. -/
def dots : List Char → Option Nat
  | [] => some 0
  | '.' :: cs => (dots cs).map (· + 1)
  | '%' :: '2' :: 'e' :: cs => (dots cs).map (· + 1)
  | '%' :: '2' :: 'E' :: cs => (dots cs).map (· + 1)
  | _ :: _ => none

/-- A single-dot or a double-dot URL path segment. -/
def isDot (seg : List Char) : Bool := dots seg == some 1 || dots seg == some 2

/-- The path state, on the segments that are left. -/
def resolve (path : List (List Char)) : List (List Char) → List (List Char)
  | [] => path
  | [last] =>
    if dots last = some 2 then path.dropLast ++ [[]]
    else if dots last = some 1 then path ++ [[]]
    else path ++ [encode inPathSet last]
  | seg :: segs =>
    if dots seg = some 2 then resolve path.dropLast segs
    else if dots seg = some 1 then resolve path segs
    else resolve (path ++ [encode inPathSet seg]) segs

/-- `pathname` -/
def pathname (path : List (List Char)) : List Char := path.flatMap fun seg => '/' :: seg

/-- The query, if there is a `?`; without the fragment. -/
def queryOf : List Char → Option (List Char)
  | '?' :: cs => some (encode inQuerySet (cs.takeWhile (· != '#')))
  | _ => none

/-- `search` -/
def search : Option (List Char) → List Char
  | some (c :: cs) => '?' :: c :: cs
  | _ => []

/-- The scheme of a URL that this is about. -/
inductive WebScheme where
  | http | https
deriving DecidableEq, Repr

def WebScheme.text : WebScheme → List Char
  | .http => "http".toList
  | .https => "https".toList

def WebScheme.defaultPort : WebScheme → Nat
  | .http => 80
  | .https => 443

def WebScheme.find (s : List Char) : Option WebScheme :=
  if s = WebScheme.http.text then some .http
  else if s = WebScheme.https.text then some .https else none

/-- A URL with one of these schemes. The port is `none` if it is the default one. -/
structure WebUrl where
  scheme : WebScheme
  host : List Char
  port : Option Nat
  path : List (List Char)
  query : Option (List Char)
deriving DecidableEq

/-- A URL with another one. -/
structure OtherUrl where
  scheme : List Char
  host : List Char
  pathname : List Char
  search : List Char
deriving DecidableEq

/-- A parsed URL: a web one, or one of another scheme. -/
inductive Parsed where
  | web (u : WebUrl)
  | other (u : OtherUrl)
deriving DecidableEq

/-- What is not modelled of the URL parser: hosts, and URLs of other schemes. -/
structure Library where
  host : List Char → Option (List Char)
  other : List Char → Option Parsed → Option OtherUrl

/-- Path and query, as a server of the URL is asked for them. -/
def WebUrl.request (u : WebUrl) : List Char := pathname u.path ++ search u.query

/-- The path state, from after its first slash, and what follows. -/
def WebUrl.goTo (u : WebUrl) (path : List (List Char)) (cs : List Char) : WebUrl :=
  { u with
    path := resolve path ((cs.takeWhile (!endsPath ·)).splitOnP isSlash)
    query := queryOf (cs.dropWhile (!endsPath ·)) }

/-- The path start state. -/
def skipSlash : List Char → List Char
  | c :: cs => if isSlash c then cs else c :: cs
  | [] => []

/-! ## Authorities -/

/-- A decimal number. -/
def decimal (cs : List Char) : Nat := cs.foldl (fun n c => 10 * n + (c.toNat - 48)) 0

/-- The port state: the outer option is failure. -/
def portOf (scheme : WebScheme) (cs : List Char) : Option (Option Nat) :=
  if cs.all fun c => '0' ≤ c && c ≤ '9' then
    if cs = [] then some none
    else if 65535 < decimal cs then none
    else some (if decimal cs = scheme.defaultPort then none else some (decimal cs))
  else none

/-- Up to the first `:` that is not in brackets, and what is behind it. -/
def cutPort (inside : Bool) : List Char → List Char × List Char
  | [] => ([], [])
  | ':' :: cs => if inside then ((':' :: (cutPort inside cs).1), (cutPort inside cs).2) else ([], cs)
  | c :: cs =>
    let rest := cutPort (c == '[' || (inside && c != ']')) cs
    (c :: rest.1, rest.2)

/-- Behind the last `@`. -/
def afterAt (cs : List Char) : List Char := cs.rtakeWhile (· != '@')

/-- The authority and host states, on an authority. -/
def hostPort (lib : Library) (scheme : WebScheme) (cs : List Char) :
    Option (List Char × Option Nat) :=
  let cut := cutPort false (afterAt cs)
  if cut.1 = [] then none
  else
    (lib.host cut.1).bind fun host =>
    (portOf scheme cut.2).map fun port => (host, port)

/-- The authority state, from after the slashes. -/
def authority (lib : Library) (scheme : WebScheme) (cs : List Char) : Option WebUrl :=
  (hostPort lib scheme (cs.takeWhile (!endsAuthority ·))).map fun (host, port) =>
    (⟨scheme, host, port, [], none⟩ : WebUrl).goTo []
      (skipSlash (cs.dropWhile (!endsAuthority ·)))

/-! ## The parser -/

/-- The relative states. -/
def relative (lib : Library) (base : WebUrl) : List Char → Option WebUrl
  | [] => some base
  | '?' :: cs => some { base with query := queryOf ('?' :: cs) }
  | '#' :: _ => some base
  | c :: cs =>
    if isSlash c then
      if (cs.head?.map isSlash) = some true then
        authority lib base.scheme (cs.dropWhile isSlash)
      else some (base.goTo [] cs)
    else some (base.goTo base.path.dropLast (c :: cs))

/-- What a scheme is made of, after its first letter. -/
def schemeChar (c : Char) : Bool := c.isAlphanum || c == '+' || c == '-' || c == '.'

/-- The scheme, in lower case, and what is behind its `:`. -/
def splitScheme (cs : List Char) : Option (List Char × List Char) :=
  match cs with
  | [] => none
  | c :: _ =>
    if c.isAlpha then
      match cs.dropWhile schemeChar with
      | ':' :: rest => some ((cs.takeWhile schemeChar).map Char.toLower, rest)
      | _ => none
    else none

/-- The parser, on input that is clean. -/
def parseClean (lib : Library) (cs : List Char) (base : Option Parsed) : Option Parsed :=
  match splitScheme cs with
  | some (s, rest) =>
    match WebScheme.find s with
    | none => (lib.other cs base).map .other
    | some scheme =>
      match base with
      | some (.web b) =>
        if b.scheme = scheme then (relative lib b rest).map .web
        else (authority lib scheme (rest.dropWhile isSlash)).map .web
      | _ => (authority lib scheme (rest.dropWhile isSlash)).map .web
  | none =>
    match base with
    | none => none
    | some (.other b) => (lib.other cs (some (.other b))).map .other
    | some (.web b) => (relative lib b cs).map .web

/-- `new URL(input)`; `none` is a throw. -/
def parse (lib : Library) (input : List Char) : Option Parsed := parseClean lib (clean input) none

/-- `new URL(input, base)` -/
def parseWith (lib : Library) (input base : List Char) : Option Parsed :=
  (parse lib base).bind fun b => parseClean lib (clean input) (some b)

/-! ## `decodeURIComponent` -/

/-- The value of a hexadecimal digit, in either case. -/
def hexValue (c : Char) : Option Nat :=
  if '0' ≤ c && c ≤ '9' then some (c.toNat - 48)
  else if 'A' ≤ c && c ≤ 'F' then some (c.toNat - 55)
  else if 'a' ≤ c && c ≤ 'f' then some (c.toNat - 87) else none

/-- The bytes that are written as `%XX`, and the characters between them. -/
def tokens : List Char → Option (List (Nat ⊕ Char))
  | [] => some []
  | '%' :: a :: b :: cs =>
    match hexValue a, hexValue b with
    | some high, some low => (tokens cs).map (.inl (16 * high + low) :: ·)
    | _, _ => none
  | '%' :: _ => none
  | c :: cs => (tokens cs).map (.inr c :: ·)

/-- UTF-8: `need` bytes are to follow on `value`, and make a number from `low` on. -/
def utf8 : (need value low : Nat) → List (Nat ⊕ Char) → Option (List Char)
  | 0, _, _, [] => some []
  | 0, _, _, .inr c :: ts => (utf8 0 0 0 ts).map (c :: ·)
  | 0, _, _, .inl b :: ts =>
    if b < 0x80 then (utf8 0 0 0 ts).map (Char.ofNat b :: ·)
    else if b < 0xC0 then none
    else if b < 0xE0 then utf8 1 (b - 0xC0) 0x80 ts
    else if b < 0xF0 then utf8 2 (b - 0xE0) 0x800 ts
    else if b < 0xF8 then utf8 3 (b - 0xF0) 0x10000 ts else none
  | need + 1, value, low, .inl b :: ts =>
    if b < 0x80 || 0xC0 ≤ b then none
    else if need ≠ 0 then utf8 need (64 * value + (b - 0x80)) low ts
    else if low ≤ 64 * value + (b - 0x80) ∧ Nat.isValidChar (64 * value + (b - 0x80)) then
      (utf8 0 0 0 ts).map (Char.ofNat (64 * value + (b - 0x80)) :: ·)
    else none
  | _ + 1, _, _, _ => none

/-- `decodeURIComponent`; `none` is a throw. -/
def decodeURIComponent (cs : List Char) : Option (List Char) := (tokens cs).bind (utf8 0 0 0)

theorem tokens_plain {cs : List Char} (h : '%' ∉ cs) : tokens cs = some (cs.map .inr) := by
  induction cs with
  | nil => rfl
  | cons c cs ih =>
    rw [List.mem_cons, not_or] at h
    unfold tokens
    split
    next heq => cases heq
    next heq => exact absurd (List.cons.inj heq).1.symm h.1
    next heq => exact absurd (List.cons.inj heq).1.symm h.1
    next heq =>
      obtain ⟨rfl, rfl⟩ := List.cons.inj heq
      rw [ih h.2]
      rfl

/-- Without a `%` there is nothing to decode. -/
theorem decodeURIComponent_plain {cs : List Char} (h : '%' ∉ cs) :
    decodeURIComponent cs = some cs := by
  have hutf8 : ∀ cs : List Char, utf8 0 0 0 (cs.map .inr) = some cs := by
    intro cs
    induction cs with
    | nil => rfl
    | cons c cs ih =>
      show (utf8 0 0 0 (cs.map .inr)).map (c :: ·) = _
      rw [ih]
      rfl
  unfold decodeURIComponent
  rw [tokens_plain h]
  exact hutf8 cs

/-! ## Encoding -/

section Encode

variable {set : Char → Bool} {c : Char} {cs : List Char}

/-- A character that is in no percent-encode set and separates nothing. -/
def Plain (c : Char) : Prop := inPathSet c = false ∧ inQuerySet c = false ∧ isSlash c = false

theorem plain_hexDigit {n : Nat} (h : n < 16) : Plain (hexDigit n) ∧ hexDigit n ≠ '%' := by
  have hall : ∀ n < 16, Plain (hexDigit n) ∧ hexDigit n ≠ '%' := by
    unfold Plain
    decide
  exact hall n h

theorem plain_percent {b : UInt8} (h : c ∈ percent b) : Plain c := by
  have hb : b.toNat < 256 := b.toNat_lt
  rcases List.mem_cons.mp h with rfl | h
  · exact ⟨rfl, rfl, rfl⟩
  rcases List.mem_cons.mp h with rfl | h
  · exact (plain_hexDigit (by omega)).1
  obtain rfl := List.mem_singleton.mp h
  exact (plain_hexDigit (by omega)).1

theorem encode_cons : encode set (c :: cs) =
    (if set c then (String.utf8EncodeChar c).flatMap percent else [c]) ++ encode set cs := rfl

theorem mem_encode (h : c ∈ encode set cs) : Plain c ∨ (c ∈ cs ∧ set c = false) := by
  obtain ⟨d, hd, hc⟩ := List.mem_flatMap.mp h
  split at hc
  · obtain ⟨b, -, hb⟩ := List.mem_flatMap.mp hc
    exact .inl (plain_percent hb)
  next hset =>
    obtain rfl := List.mem_singleton.mp hc
    exact .inr ⟨hd, by simpa using hset⟩

theorem encode_id (h : ∀ c ∈ cs, set c = false) : encode set cs = cs := by
  induction cs with
  | nil => rfl
  | cons c cs ih =>
    rw [encode_cons, h c List.mem_cons_self, ih fun d hd => h d (List.mem_cons_of_mem c hd)]
    rfl

/-- The first byte of a character, and the character if it is that byte. -/
theorem utf8_head (c : Char) : ∃ b bs, String.utf8EncodeChar c = b :: bs ∧
    (b.toNat < 0x80 → b.toNat = c.toNat) := by
  unfold String.utf8EncodeChar
  dsimp only
  split
  · refine ⟨_, _, rfl, fun _ => ?_⟩
    rw [UInt8.toNat_ofNat']
    exact Nat.mod_eq_of_lt (by omega)
  -- the first byte of a longer sequence is not ASCII
  · split
    · exact ⟨_, _, rfl, fun hb => by rw [UInt8.toNat_ofNat'] at hb; omega⟩
    · split
      · exact ⟨_, _, rfl, fun hb => by rw [UInt8.toNat_ofNat'] at hb; omega⟩
      · exact ⟨_, _, rfl, fun hb => by rw [UInt8.toNat_ofNat'] at hb; omega⟩

theorem encode_eq_cons {d : Char} {ds : List Char} (hd : d ≠ '%') (h : encode set cs = d :: ds) :
    ∃ cs', cs = d :: cs' ∧ encode set cs' = ds := by
  cases cs with
  | nil => cases h
  | cons c cs =>
    rw [encode_cons] at h
    split at h
    · obtain ⟨b, bs, hbs, -⟩ := utf8_head c
      rw [hbs] at h
      exact absurd (List.cons.inj h).1.symm hd
    · obtain ⟨rfl, rfl⟩ := List.cons.inj h
      exact ⟨cs, rfl, rfl⟩

/-- No encoding of another character is that of a dot. -/
theorem percent_ne_dot (h : inPathSet c = true) {ds : List Char} {e : Char}
    (he : e = 'e' ∨ e = 'E') :
    (String.utf8EncodeChar c).flatMap percent ++ cs ≠ '%' :: '2' :: e :: ds := by
  obtain ⟨b, bs, hbs, hhead⟩ := utf8_head c
  rw [hbs]
  intro heq
  have hb : b.toNat < 256 := b.toNat_lt
  have hhex : ∀ n < 16, (hexDigit n = '2' → n = 2) ∧ (hexDigit n = 'e' ∨ hexDigit n = 'E' → n = 14) := by
    decide
  have h2 : hexDigit (b.toNat / 16) = '2' := by
    simpa [percent] using (List.cons.inj (List.cons.inj heq).2).1
  have hE : hexDigit (b.toNat % 16) = e := by
    simpa [percent] using (List.cons.inj (List.cons.inj (List.cons.inj heq).2).2).1
  have hhigh := (hhex (b.toNat / 16) (by omega)).1 h2
  have hlow := (hhex (b.toNat % 16) (by omega)).2 (by rw [hE]; exact he)
  have hc : c.toNat = '.'.toNat := by
    have := hhead (by omega)
    show c.toNat = 46
    omega
  rw [Char.toNat_inj.mp hc] at h
  exact absurd h (by decide)

/-- Encoding makes no segment one of dots. -/
theorem dots_encode {n : Nat} (h : dots (encode inPathSet cs) = some n) : dots cs = some n := by
  induction hlen : cs.length using Nat.strongRecOn generalizing cs n with
  | ind len ih =>
    cases cs with
    | nil => exact h
    | cons c cs =>
      rw [encode_cons] at h
      split at h
      next hset =>
        obtain ⟨b, bs, hbs, -⟩ := utf8_head c
        rw [dots.eq_def] at h
        split at h
        next heq => simp [hbs, percent] at heq
        next heq => simp [hbs, percent] at heq
        next heq => exact absurd heq (percent_ne_dot hset (.inl rfl))
        next heq => exact absurd heq (percent_ne_dot hset (.inr rfl))
        next => cases h
      next hset =>
        have hshort : cs.length < len := by
          rw [← hlen]
          exact Nat.lt_succ_self _
        rw [dots.eq_def] at h
        split at h
        next heq => cases heq
        next ds heq =>
          obtain ⟨rfl, rfl⟩ := List.cons.inj heq
          obtain ⟨m, hm, rfl⟩ := Option.map_eq_some_iff.mp h
          rw [dots, ih _ hshort hm rfl]
          rfl
        next ds heq =>
          obtain ⟨rfl, htail⟩ := List.cons.inj heq
          obtain ⟨cs₁, rfl, htail₁⟩ := encode_eq_cons (by decide) htail
          obtain ⟨cs₂, rfl, rfl⟩ := encode_eq_cons (by decide) htail₁
          obtain ⟨m, hm, rfl⟩ := Option.map_eq_some_iff.mp h
          rw [dots, ih cs₂.length (by simp at hshort; omega) hm rfl]
          rfl
        next ds heq =>
          obtain ⟨rfl, htail⟩ := List.cons.inj heq
          obtain ⟨cs₁, rfl, htail₁⟩ := encode_eq_cons (by decide) htail
          obtain ⟨cs₂, rfl, rfl⟩ := encode_eq_cons (by decide) htail₁
          obtain ⟨m, hm, rfl⟩ := Option.map_eq_some_iff.mp h
          rw [dots, ih cs₂.length (by simp at hshort; omega) hm rfl]
          rfl
        next => cases h

/-- A segment that is no dot segment is none when it is encoded. -/
theorem isDot_encode (h : isDot cs = false) : isDot (encode inPathSet cs) = false := by
  unfold isDot at h ⊢
  simp only [Bool.or_eq_false_iff, beq_eq_false_iff_ne] at h ⊢
  exact ⟨fun hone => h.1 (dots_encode hone), fun htwo => h.2 (dots_encode htwo)⟩

end Encode

/-! ## Requests -/

/-- The request for what stands behind the first slash of a path. -/
def render (cs : List Char) : List Char :=
  pathname (resolve [] ((cs.takeWhile (!endsPath ·)).splitOnP isSlash)) ++
    search (queryOf (cs.dropWhile (!endsPath ·)))

theorem request_goTo (u : WebUrl) (cs : List Char) : (u.goTo [] cs).request = render cs := rfl

/-- A path with a query as a client may write it who knows what becomes of them. -/
structure Normal (cs : List Char) : Prop where
  slash : cs.head? = some '/'
  path : ∀ c ∈ cs.takeWhile (· != '?'), inPathSet c = false ∧ c ≠ '\\'
  dots : ∀ seg ∈ (cs.takeWhile (· != '?')).splitOnP isSlash, isDot seg = false
  query : ∀ c ∈ cs.dropWhile (· != '?'), inQuerySet c = false
  named : cs.dropWhile (· != '?') ≠ ['?']

section Requests

variable {cs : List Char} {path segs : List (List Char)}

/-- A segment of a path that was resolved. -/
structure Settled (seg : List Char) : Prop where
  chars : ∀ c ∈ seg, inPathSet c = false ∧ isSlash c = false
  dots : isDot seg = false

theorem settled_nil : Settled [] := ⟨nofun, rfl⟩

theorem settled_encode {seg : List Char} (hslash : ∀ c ∈ seg, isSlash c = false)
    (hdots : isDot seg = false) : Settled (encode inPathSet seg) where
  chars c hc := by
    rcases mem_encode hc with ⟨hpath, -, hslash⟩ | ⟨hmem, hpath⟩
    · exact ⟨hpath, hslash⟩
    · exact ⟨hpath, hslash c hmem⟩
  dots := isDot_encode hdots

theorem isDot_eq_false {seg : List Char} (h2 : dots seg ≠ some 2) (h1 : dots seg ≠ some 1) :
    isDot seg = false := by
  unfold isDot
  simp [h1, h2]

/-- Segments of a path are settled when they are resolved, and there is one. -/
theorem settled_resolve (hpath : ∀ seg ∈ path, Settled seg)
    (hsegs : ∀ seg ∈ segs, ∀ c ∈ seg, isSlash c = false) :
    ∀ seg ∈ resolve path segs, Settled seg := by
  have hdrop : ∀ {path : List (List Char)}, (∀ seg ∈ path, Settled seg) →
      ∀ seg ∈ path.dropLast, Settled seg := fun h seg hseg => h seg (List.dropLast_subset _ hseg)
  have hpush : ∀ {path : List (List Char)} {last : List Char}, (∀ seg ∈ path, Settled seg) →
      Settled last → ∀ seg ∈ path ++ [last], Settled seg := by
    intro path last h hlast seg hseg
    rcases List.mem_append.mp hseg with hseg | hseg
    · exact h seg hseg
    · obtain rfl := List.mem_singleton.mp hseg
      exact hlast
  induction segs generalizing path with
  | nil => exact hpath
  | cons seg segs ih =>
    have hseg := hsegs seg List.mem_cons_self
    have hrest := fun s hs => hsegs s (List.mem_cons_of_mem seg hs)
    cases segs with
    | nil =>
      unfold resolve
      split
      · exact hpush (hdrop hpath) settled_nil
      next h2 =>
        split
        · exact hpush hpath settled_nil
        next h1 => exact hpush hpath (settled_encode hseg (isDot_eq_false h2 h1))
    | cons seg' segs =>
      unfold resolve
      split
      · exact ih (hdrop hpath) hrest
      next h2 =>
        split
        · exact ih hpath hrest
        next h1 => exact ih (hpush hpath (settled_encode hseg (isDot_eq_false h2 h1))) hrest

theorem resolve_ne_nil (h : segs ≠ []) : resolve path segs ≠ [] := by
  induction segs generalizing path with
  | nil => exact absurd rfl h
  | cons seg segs ih =>
    cases segs with
    | nil =>
      unfold resolve
      split
      · simp
      · split <;> simp
    | cons seg' segs =>
      unfold resolve
      split
      · exact ih (List.cons_ne_nil _ _)
      · split
        · exact ih (List.cons_ne_nil _ _)
        · exact ih (List.cons_ne_nil _ _)

/-- Segments that are settled already are left as they are. -/
theorem resolve_settled (h : ∀ seg ∈ segs, Settled seg) : resolve path segs = path ++ segs := by
  induction segs generalizing path with
  | nil => exact (List.append_nil path).symm
  | cons seg segs ih =>
    obtain ⟨hchars, hdots⟩ := h seg List.mem_cons_self
    have hrest := fun s hs => h s (List.mem_cons_of_mem seg hs)
    unfold isDot at hdots
    simp only [Bool.or_eq_false_iff, beq_eq_false_iff_ne] at hdots
    have hid : encode inPathSet seg = seg := encode_id fun c hc => (hchars c hc).1
    cases segs with
    | nil =>
      unfold resolve
      rw [if_neg hdots.2, if_neg hdots.1, hid]
    | cons seg' segs =>
      unfold resolve
      rw [if_neg hdots.2, if_neg hdots.1, hid, ih hrest, List.append_assoc]
      rfl

/-- Between separators there are none. -/
theorem noSep_of_mem_splitOnP {sep : Char → Bool} {seg : List Char} (h : seg ∈ cs.splitOnP sep) :
    ∀ c ∈ seg, sep c = false := by
  induction cs generalizing seg with
  | nil =>
    rw [List.splitOnP_nil] at h
    obtain rfl := List.mem_singleton.mp h
    nofun
  | cons c cs ih =>
    rw [List.splitOnP_cons_eq_if_modifyHead] at h
    split at h
    · rcases List.mem_cons.mp h with rfl | h
      · nofun
      · exact ih h
    next hc =>
      cases hsplit : cs.splitOnP sep with
      | nil => exact absurd hsplit (List.splitOnP_ne_nil _ _)
      | cons first others =>
        rw [hsplit] at h ih
        rcases List.mem_cons.mp h with rfl | h
        · intro d hd
          rcases List.mem_cons.mp hd with rfl | hd
          · simpa using hc
          · exact ih List.mem_cons_self d hd
        · exact ih (List.mem_cons_of_mem _ h)

theorem splitOnP_pathname (h : ∀ seg ∈ segs, ∀ c ∈ seg, isSlash c = false) :
    (pathname segs).splitOnP isSlash = [] :: segs := by
  induction segs with
  | nil => exact List.splitOnP_nil
  | cons seg segs ih =>
    have hseg := h seg List.mem_cons_self
    have hrest := ih fun s hs => h s (List.mem_cons_of_mem seg hs)
    show ('/' :: (seg ++ pathname segs)).splitOnP isSlash = _
    rw [List.splitOnP_cons_eq_if_modifyHead, if_pos (by rfl)]
    cases segs with
    | nil =>
      show [] :: (seg ++ []).splitOnP isSlash = _
      rw [List.append_nil, List.splitOnP_eq_singleton hseg]
    | cons seg' segs =>
      have hcons : pathname (seg' :: segs) = '/' :: (seg' ++ pathname segs) := rfl
      rw [hcons, List.splitOnP_cons_eq_if_modifyHead, if_pos (by rfl)] at hrest
      rw [hcons, List.splitOnP_append_cons_of_forall_mem hseg '/' rfl, (List.cons.inj hrest).2]

/-- Split at its slashes and joined again, a path is what it was. -/
theorem pathname_splitOnP (h : ∀ c ∈ cs, c ≠ '\\') :
    pathname (cs.splitOnP isSlash) = '/' :: cs := by
  induction cs with
  | nil => rw [List.splitOnP_nil]; rfl
  | cons c cs ih =>
    have hrest := ih fun d hd => h d (List.mem_cons_of_mem c hd)
    rw [List.splitOnP_cons_eq_if_modifyHead]
    split
    next hc =>
      obtain rfl : c = '/' := by
        have := h c List.mem_cons_self
        simpa [isSlash, this] using hc
      show '/' :: pathname (cs.splitOnP isSlash) = _
      rw [hrest]
    · cases hsplit : cs.splitOnP isSlash with
      | nil => exact absurd hsplit (List.splitOnP_ne_nil _ _)
      | cons first others =>
        rw [hsplit] at hrest
        have htail : first ++ pathname others = cs := (List.cons.inj hrest).2
        show '/' :: c :: (first ++ pathname others) = _
        rw [htail]

/-! ### Every request is normal -/

theorem mem_pathname {c : Char} (h : c ∈ pathname segs) : c = '/' ∨ ∃ seg ∈ segs, c ∈ seg := by
  obtain ⟨seg, hseg, hc⟩ := List.mem_flatMap.mp h
  rcases List.mem_cons.mp hc with rfl | hc
  · exact .inl rfl
  · exact .inr ⟨seg, hseg, hc⟩

theorem inPathSet_of_settled (h : ∀ seg ∈ segs, Settled seg) {c : Char} (hc : c ∈ pathname segs) :
    inPathSet c = false ∧ c ≠ '\\' := by
  rcases mem_pathname hc with rfl | ⟨seg, hseg, hc⟩
  · exact ⟨rfl, by decide⟩
  · obtain ⟨hset, hslash⟩ := (h seg hseg).chars c hc
    exact ⟨hset, fun h => by rw [h] at hslash; cases hslash⟩

theorem search_cases (cs : List Char) : search (queryOf cs) = [] ∨
    ∃ c q, search (queryOf cs) = '?' :: c :: q ∧ ∀ d ∈ c :: q, inQuerySet d = false := by
  unfold queryOf
  split
  next cs =>
    cases hq : encode inQuerySet (cs.takeWhile (· != '#')) with
    | nil => exact .inl rfl
    | cons c q =>
      refine .inr ⟨c, q, rfl, fun d hd => ?_⟩
      rw [← hq] at hd
      rcases mem_encode hd with ⟨-, hset, -⟩ | ⟨-, hset⟩ <;> exact hset
  · exact .inl rfl

/-- **Every request is normal.** -/
theorem normal_render (cs : List Char) : Normal (render cs) := by
  have hsegs : ∀ seg ∈ (cs.takeWhile (!endsPath ·)).splitOnP isSlash, ∀ c ∈ seg,
      isSlash c = false := fun seg hseg => noSep_of_mem_splitOnP hseg
  have hsettled := (@settled_resolve []) nofun hsegs
  have hne : resolve [] ((cs.takeWhile (!endsPath ·)).splitOnP isSlash) ≠ [] :=
    resolve_ne_nil (List.splitOnP_ne_nil _ _)
  unfold render
  generalize resolve [] ((cs.takeWhile (!endsPath ·)).splitOnP isSlash) = segs at hsettled hne
  have hno : ∀ c ∈ pathname segs, (c != '?') = true := by
    intro c hc
    have hset := (inPathSet_of_settled hsettled hc).1
    rw [bne_iff_ne]
    rintro rfl
    cases hset
  have hsplit : (pathname segs).splitOnP isSlash = [] :: segs :=
    splitOnP_pathname fun seg hseg c hc => ((hsettled seg hseg).chars c hc).2
  have hhead : ∀ q, (pathname segs ++ q).head? = some '/' := by
    intro q
    cases segs with
    | nil => exact absurd rfl hne
    | cons seg segs => rfl
  have hdots : ∀ seg ∈ (pathname segs).splitOnP isSlash, isDot seg = false := by
    intro seg hseg
    rw [hsplit] at hseg
    rcases List.mem_cons.mp hseg with rfl | hseg
    · rfl
    · exact (hsettled seg hseg).dots
  rcases search_cases (cs.dropWhile (!endsPath ·)) with hq | ⟨c, q, hq, hset⟩
  · rw [hq, List.append_nil]
    have htake : (pathname segs).takeWhile (· != '?') = pathname segs :=
      List.takeWhile_eq_self_iff.mpr hno
    have hdrop : (pathname segs).dropWhile (· != '?') = [] := List.dropWhile_eq_nil_iff.mpr hno
    refine ⟨by simpa using hhead [], ?_, ?_, ?_, ?_⟩
    · rw [htake]
      exact fun c hc => inPathSet_of_settled hsettled hc
    · rwa [htake]
    · rw [hdrop]
      nofun
    · rw [hdrop]
      nofun
  · rw [hq]
    have htake : (pathname segs ++ '?' :: c :: q).takeWhile (· != '?') = pathname segs := by
      rw [List.takeWhile_append_of_pos hno]
      simp
    have hdrop : (pathname segs ++ '?' :: c :: q).dropWhile (· != '?') = '?' :: c :: q := by
      rw [List.dropWhile_append_of_pos hno]
      simp
    refine ⟨hhead _, ?_, ?_, ?_, ?_⟩
    · rw [htake]
      exact fun c hc => inPathSet_of_settled hsettled hc
    · rwa [htake]
    · rw [hdrop]
      intro d hd
      rcases List.mem_cons.mp hd with rfl | hd
      · rfl
      · exact hset d hd
    · rw [hdrop]
      nofun

/-! ### A normal request is as it was written -/

theorem endsPath_of_not_inPathSet {c : Char} (h : inPathSet c = false) : endsPath c = false := by
  unfold endsPath
  rw [Bool.or_eq_false_iff, beq_eq_false_iff_ne, beq_eq_false_iff_ne]
  constructor <;> rintro rfl <;> cases h

/-- Without a `#`, a path ends at the `?`. -/
theorem endsPath_eq (h : ∀ c ∈ cs.takeWhile (· != '?'), inPathSet c = false) :
    cs.takeWhile (!endsPath ·) = cs.takeWhile (· != '?') ∧
      cs.dropWhile (!endsPath ·) = cs.dropWhile (· != '?') := by
  induction cs with
  | nil => exact ⟨rfl, rfl⟩
  | cons c cs ih =>
    by_cases hc : c = '?'
    · subst hc
      exact ⟨rfl, rfl⟩
    · have hgo : (c != '?') = true := bne_iff_ne.mpr hc
      rw [List.takeWhile_cons_of_pos (p := (· != '?')) hgo] at h
      have hends := endsPath_of_not_inPathSet (h c List.mem_cons_self)
      obtain ⟨htake, hdrop⟩ := ih fun d hd => h d (List.mem_cons_of_mem c hd)
      rw [List.takeWhile_cons_of_pos (p := (· != '?')) hgo,
        List.dropWhile_cons_of_pos (p := (· != '?')) hgo,
        List.takeWhile_cons_of_pos (by rw [hends]; rfl),
        List.dropWhile_cons_of_pos (by rw [hends]; rfl), htake, hdrop]
      exact ⟨rfl, rfl⟩

/-- A segment's characters are the text's. -/
theorem mem_of_mem_splitOnP {seg : List Char} (h : seg ∈ cs.splitOnP isSlash) :
    ∀ c ∈ seg, c ∈ cs := by
  induction cs generalizing seg with
  | nil =>
    rw [List.splitOnP_nil] at h
    obtain rfl := List.mem_singleton.mp h
    nofun
  | cons c cs ih =>
    rw [List.splitOnP_cons_eq_if_modifyHead] at h
    split at h
    · rcases List.mem_cons.mp h with rfl | h
      · nofun
      · exact fun d hd => List.mem_cons_of_mem c (ih h d hd)
    · cases hsplit : cs.splitOnP isSlash with
      | nil => exact absurd hsplit (List.splitOnP_ne_nil _ _)
      | cons first others =>
        rw [hsplit] at h ih
        rcases List.mem_cons.mp h with rfl | h
        · intro d hd
          rcases List.mem_cons.mp hd with rfl | hd
          · exact List.mem_cons_self
          · exact List.mem_cons_of_mem c (ih List.mem_cons_self d hd)
        · exact fun d hd => List.mem_cons_of_mem c (ih (List.mem_cons_of_mem _ h) d hd)

/-- A query that needs no encoding, and is not empty, is as it was written. -/
theorem search_of_plain {q : List Char} (hq : q.head? = none ∨ q.head? = some '?')
    (hset : ∀ c ∈ q, inQuerySet c = false) (hnamed : q ≠ ['?']) : search (queryOf q) = q := by
  cases q with
  | nil => rfl
  | cons c q =>
    obtain rfl : c = '?' := by simpa using hq
    have hplain : ∀ d ∈ q, inQuerySet d = false := fun d hd => hset d (List.mem_cons_of_mem _ hd)
    have htake : q.takeWhile (· != '#') = q := by
      refine List.takeWhile_eq_self_iff.mpr fun d hd => ?_
      rw [bne_iff_ne]
      rintro rfl
      cases hplain '#' hd
    show search (some (encode inQuerySet (q.takeWhile (· != '#')))) = _
    rw [htake, encode_id hplain]
    cases q with
    | nil => exact absurd rfl hnamed
    | cons d q => rfl

/-- **A normal request is as it was written.** -/
theorem render_of_normal (h : Normal ('/' :: cs)) : render cs = '/' :: cs := by
  obtain ⟨-, hpath, hdots, hquery, hnamed⟩ := h
  have htake : ('/' :: cs).takeWhile (· != '?') = '/' :: cs.takeWhile (· != '?') := rfl
  have hdrop : ('/' :: cs).dropWhile (· != '?') = cs.dropWhile (· != '?') := rfl
  rw [htake] at hpath hdots
  rw [hdrop] at hquery hnamed
  have hchars := fun c hc => hpath c (List.mem_cons_of_mem '/' hc)
  obtain ⟨htake', hdrop'⟩ := endsPath_eq fun c hc => (hchars c hc).1
  rw [List.splitOnP_cons_eq_if_modifyHead, if_pos (by rfl)] at hdots
  have hsettled : ∀ seg ∈ (cs.takeWhile (· != '?')).splitOnP isSlash, Settled seg := fun seg hseg =>
    ⟨fun c hc => ⟨(hchars c (mem_of_mem_splitOnP hseg c hc)).1, noSep_of_mem_splitOnP hseg c hc⟩,
      hdots seg (List.mem_cons_of_mem _ hseg)⟩
  have hhead : (cs.dropWhile (· != '?')).head? = none ∨
      (cs.dropWhile (· != '?')).head? = some '?' := by
    cases hd : cs.dropWhile (· != '?') with
    | nil => exact .inl rfl
    | cons c q =>
      have := List.head_dropWhile_not (· != '?') (l := cs) (by rw [hd]; exact List.cons_ne_nil _ _)
      right
      simpa [hd] using this
  unfold render
  rw [htake', hdrop', resolve_settled hsettled, List.nil_append,
    pathname_splitOnP fun c hc => (hchars c hc).2, search_of_plain hhead hquery hnamed,
    List.cons_append, List.takeWhile_append_dropWhile]

/-! ### And shorter than what it is a part of -/

theorem pathname_append (path segs : List (List Char)) :
    pathname (path ++ segs) = pathname path ++ pathname segs := List.flatMap_append

theorem length_pathname_dropLast (path : List (List Char)) :
    (pathname path.dropLast).length ≤ (pathname path).length := by
  rcases path.eq_nil_or_concat with rfl | ⟨init, last, rfl⟩
  · exact Nat.le_refl _
  · rw [List.concat_eq_append, List.dropLast_concat, pathname_append, List.length_append]
    exact Nat.le_add_right _ _

/-- Nothing is added to a path that needs no encoding. -/
theorem length_resolve (h : ∀ seg ∈ segs, ∀ c ∈ seg, inPathSet c = false) :
    (pathname (resolve path segs)).length ≤ (pathname path).length + (pathname segs).length := by
  have hone : ∀ seg : List Char, (pathname [seg]).length = seg.length + 1 := fun seg => by
    simp [pathname]
  induction segs generalizing path with
  | nil => exact Nat.le_refl _
  | cons seg segs ih =>
    have hid : encode inPathSet seg = seg := encode_id (h seg List.mem_cons_self)
    have hdrop := length_pathname_dropLast path
    have hcons : (pathname (seg :: segs)).length = seg.length + 1 + (pathname segs).length := by
      rw [← List.singleton_append, pathname_append, List.length_append, hone]
    have hrest := fun (path : List (List Char)) =>
      @ih path fun s hs => h s (List.mem_cons_of_mem seg hs)
    rw [hcons]
    cases segs with
    | nil =>
      unfold resolve
      rw [hid]
      split
      · rw [pathname_append, List.length_append, hone]
        simp
        omega
      · split
        · rw [pathname_append, List.length_append, hone]
          simp
          omega
        · rw [pathname_append, List.length_append, hone]
          omega
    | cons seg' segs =>
      unfold resolve
      rw [hid]
      split
      · have := hrest path.dropLast
        omega
      · split
        · have := hrest path
          omega
        · have := hrest (path ++ [seg])
          rw [pathname_append, List.length_append, hone] at this
          omega

theorem length_search (cs : List Char) (h : ∀ c ∈ cs, inQuerySet c = false) :
    (search (queryOf cs)).length ≤ cs.length := by
  unfold queryOf
  split
  next cs =>
    have hplain : ∀ c ∈ cs.takeWhile (· != '#'), inQuerySet c = false := fun c hc =>
      h c (List.mem_cons_of_mem _ (List.takeWhile_subset _ hc))
    have hlen := (List.takeWhile_sublist (p := (· != '#')) (l := cs)).length_le
    rw [encode_id hplain]
    cases hq : cs.takeWhile (· != '#') with
    | nil => exact Nat.zero_le _
    | cons c q =>
      rw [hq] at hlen
      show (c :: q).length + 1 ≤ cs.length + 1
      omega
  · exact Nat.zero_le _

/-- A request for a path and a query that need no encoding is longer by a slash at most. -/
theorem length_render (hpath : ∀ c ∈ cs.takeWhile (· != '?'), inPathSet c = false ∧ c ≠ '\\')
    (hquery : ∀ c ∈ cs.dropWhile (· != '?'), inQuerySet c = false) :
    (render cs).length ≤ cs.length + 1 := by
  obtain ⟨htake, hdrop⟩ := endsPath_eq fun c hc => (hpath c hc).1
  have hsum := congrArg List.length (List.takeWhile_append_dropWhile (p := (· != '?')) (l := cs))
  have hsearch := length_search _ hquery
  have hresolve := @length_resolve [] ((cs.takeWhile (· != '?')).splitOnP isSlash)
    fun seg hseg c hc => (hpath c (mem_of_mem_splitOnP hseg c hc)).1
  rw [pathname_splitOnP fun c hc => (hpath c hc).2] at hresolve
  unfold render
  rw [htake, hdrop, List.length_append]
  rw [List.length_append] at hsum
  simp only [pathname, List.flatMap_nil, List.length_nil, List.length_cons] at hresolve hsum ⊢
  omega

/-- A request for a part of what was asked for, with something before it, is not what was
asked for. -/
theorem length_render_lt {pre r : List Char} (h : Normal (pre ++ r)) (hpre : ∀ c ∈ pre, c ≠ '?')
    (hlen : 2 ≤ pre.length) : (render (skipSlash r)).length < (pre ++ r).length := by
  have hgo : ∀ c ∈ pre, (c != '?') = true := fun c hc => bne_iff_ne.mpr (hpre c hc)
  have hpath := h.path
  have hquery := h.query
  rw [List.takeWhile_append_of_pos hgo] at hpath
  rw [List.dropWhile_append_of_pos hgo] at hquery
  have hpath' : ∀ c ∈ r.takeWhile (· != '?'), inPathSet c = false ∧ c ≠ '\\' := fun c hc =>
    hpath c (List.mem_append_right pre hc)
  rw [List.length_append]
  cases r with
  | nil =>
    have := @length_render [] nofun nofun
    simp only [skipSlash, List.length_nil] at this ⊢
    omega
  | cons c r =>
    by_cases hslash : isSlash c = true
    · have hskip : skipSlash (c :: r) = r := if_pos hslash
      have hc : (c != '?') = true := by
        rw [bne_iff_ne]
        rintro rfl
        exact absurd hslash (by decide)
      rw [List.takeWhile_cons_of_pos (p := (· != '?')) hc] at hpath'
      rw [List.dropWhile_cons_of_pos (p := (· != '?')) hc] at hquery
      have := length_render (fun d hd => hpath' d (List.mem_cons_of_mem c hd)) hquery
      rw [hskip, List.length_cons]
      omega
    · have hskip : skipSlash (c :: r) = c :: r := if_neg hslash
      have := length_render hpath' hquery
      rw [hskip]
      omega

end Requests

/-! ## Cleaning -/

section Cleaning

variable {cs : List Char} {c : Char}

/-- What cleaning does behind a character that it leaves. -/
def cleanTail (cs : List Char) : List Char :=
  (cs.rdropWhile c0OrSpace).filter fun c => !tabOrNewline c

theorem rdropWhile_cons (hc : c0OrSpace c = false) :
    (c :: cs).rdropWhile c0OrSpace = c :: cs.rdropWhile c0OrSpace := by
  unfold List.rdropWhile
  rw [List.reverse_cons, List.dropWhile_append]
  split
  next h =>
    rw [List.isEmpty_iff.mp h]
    simp [hc]
  · simp

theorem tabOrNewline_of_not_c0 (hc : c0OrSpace c = false) : tabOrNewline c = false := by
  unfold c0OrSpace at hc
  unfold tabOrNewline
  simp only [decide_eq_false_iff_not, Bool.or_eq_false_iff, beq_eq_false_iff_ne] at hc ⊢
  omega

theorem cleanTail_cons (hc : c0OrSpace c = false) : cleanTail (c :: cs) = c :: cleanTail cs := by
  unfold cleanTail
  rw [rdropWhile_cons hc, List.filter_cons, tabOrNewline_of_not_c0 hc]
  rfl

theorem clean_cons (hc : c0OrSpace c = false) : clean (c :: cs) = c :: cleanTail cs := by
  rw [← cleanTail_cons hc]
  unfold clean cleanTail
  rw [List.dropWhile_cons_of_neg (by rw [hc]; exact Bool.false_ne_true)]

theorem cleanTail_append {pre : List Char} (hpre : ∀ c ∈ pre, c0OrSpace c = false) :
    cleanTail (pre ++ cs) = pre ++ cleanTail cs := by
  induction pre with
  | nil => rfl
  | cons c pre ih =>
    rw [List.cons_append, cleanTail_cons (hpre c List.mem_cons_self),
      ih fun d hd => hpre d (List.mem_cons_of_mem c hd)]
    rfl

theorem cleanTail_id (h : ∀ c ∈ cs, c0OrSpace c = false) : cleanTail cs = cs := by
  have := (@cleanTail_append []) h
  simpa [cleanTail] using this

theorem mem_cleanTail (h : c ∈ cleanTail cs) : c ∈ cs :=
  (List.rdropWhile_prefix c0OrSpace cs).subset (List.mem_of_mem_filter h)

theorem cleanTail_append_right {pre r : List Char} (hne : r ≠ [])
    (h : ∀ c ∈ r, c0OrSpace c = false) :
    cleanTail (pre ++ r) = pre.filter (fun c => !tabOrNewline c) ++ r := by
  -- the last character is not trimmed, so only tabs and newlines go
  have htrim : (pre ++ r).rdropWhile c0OrSpace = pre ++ r := by
    rw [List.rdropWhile_eq_self_iff]
    intro hne'
    rw [List.getLast_append_of_ne_nil hne' hne, h _ (List.getLast_mem hne)]
    exact Bool.false_ne_true
  have hfilter : r.filter (fun c => !tabOrNewline c) = r := by
    rw [List.filter_eq_self]
    exact fun c hc => by rw [tabOrNewline_of_not_c0 (h c hc)]; rfl
  unfold cleanTail
  rw [htrim, List.filter_append, hfilter]

/-- What is clean behind an authority stays there. -/
theorem dropWhile_cleanTail (h : ∀ c ∈ cs.dropWhile (!endsAuthority ·), c0OrSpace c = false) :
    (cleanTail cs).dropWhile (!endsAuthority ·) = cs.dropWhile (!endsAuthority ·) := by
  by_cases hnil : cs.dropWhile (!endsAuthority ·) = []
  · rw [hnil, List.dropWhile_eq_nil_iff]
    exact fun c hc => List.dropWhile_eq_nil_iff.mp hnil c (mem_cleanTail hc)
  · have hclean := (@cleanTail_append_right (cs.takeWhile (!endsAuthority ·))) hnil h
    rw [List.takeWhile_append_dropWhile] at hclean
    rw [hclean, List.dropWhile_append_of_pos, List.dropWhile_idempotent]
    exact fun c hc => List.mem_takeWhile_imp (p := (!endsAuthority ·)) (List.mem_of_mem_filter hc)

/-- A normal request is clean. -/
theorem Normal.clean (h : Normal cs) : ∀ c ∈ cs, c0OrSpace c = false := by
  have hlow : ∀ c : Char, inPathSet c = false ∨ inQuerySet c = false → c0OrSpace c = false := by
    intro c hc
    unfold inPathSet inQuerySet at hc
    unfold c0OrSpace
    simp only [Bool.or_eq_false_iff] at hc
    rcases hc with ⟨⟨hc, -⟩, -⟩ | ⟨⟨hc, -⟩, -⟩ <;> exact hc
  intro c hc
  rw [← List.takeWhile_append_dropWhile (p := (· != '?')) (l := cs)] at hc
  rcases List.mem_append.mp hc with hc | hc
  · exact hlow c (.inl (h.path c hc).1)
  · exact hlow c (.inr (h.query c hc))

end Cleaning

end Url

end Base
