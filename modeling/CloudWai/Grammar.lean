import CloudWai.Base.Ipv4

/-!
# The grammars

Customer input reaches an engine only through a fixed set of anchored regular
expressions. They are written here once, under the names the source gives them,
together with the two string functions the procedures apply before a test:
`trim` and `length` as JavaScript defines them.

Mirrors the patterns of `packages/adapters/src/security-edge.ts` and of
`apps/api/src/procedures`. `toLowerCase` is Unicode's, and only what it makes of ASCII, of
the Kelvin sign and of the dotted capital I is kept.
-/

namespace CloudWai

namespace Grammar

open Base Pattern

/-! ## Character classes -/

export Ipv4 (digit)

/-- `[a-z]` -/
def lower (c : Char) : Bool := 'a' ≤ c && c ≤ 'z'

/-- `[A-Z]` -/
def upper (c : Char) : Bool := 'A' ≤ c && c ≤ 'Z'

/-- `[A-Za-z0-9]` -/
def alnum (c : Char) : Bool := upper c || lower c || digit c

/-- `[a-z0-9]` -/
def lowerNum (c : Char) : Bool := lower c || digit c

/-- `[0-9a-f]` -/
def hexDigit (c : Char) : Bool := digit c || ('a' ≤ c && c ≤ 'f')

/-- A class of letters and digits with some further characters. -/
def alnumOr (extra : List Char) (c : Char) : Bool := alnum c || extra.contains c

/-! ## Expressions -/

/-- `[a-z0-9]([a-z0-9-]{0,61}[a-z0-9])?`, one label of a DNS name. -/
def dnsLabel : Pattern :=
  seq (one lowerNum)
    (opt (seq (upTo 61 (one fun c => lowerNum c || c == '-')) (one lowerNum)))

/-- `HOST_PATTERN` -/
def hostPattern : Pattern := seq dnsLabel (plus (seq (ch '.') dnsLabel))

/-- `PATH_PATTERN` -/
def pathPattern : Pattern :=
  seq (ch '/') (upTo 200 (one (alnumOr ['-', '.', '_', '~', '/'])))

/-- `PRIVATE_HOST`, and `PRIVATE_ORIGIN` of the loaders: a prefix test. -/
def privateHost : Pattern :=
  seq
    (alt (lit "10.")
      (alt (lit "127.")
        (alt (seq (lit "172.")
            (seq (alt (seq (ch '1') (one fun c => '6' ≤ c && c ≤ '9'))
              (alt (seq (ch '2') (one digit)) (seq (ch '3') (one fun c => c == '0' || c == '1'))))
            (ch '.')))
          (alt (lit "192.168.")
            (alt (lit "169.254.")
              (seq (opt (ch '[')) (seq (ch 'f') (seq (one fun c => c == 'c' || c == 'd')
                (seq (times 2 (one hexDigit)) (ch ':'))))))))))
    rest

/-- `IPV4` -/
def ipv4 : Pattern := Ipv4.quadPattern

/-- `CIDR` -/
def cidr : Pattern := Ipv4.slashedPattern

/-- `ASN` -/
def asn : Pattern := seq (lit "AS") (between 1 10 (one digit))

/-- `UA_VALUE` -/
def uaValue : Pattern :=
  between 1 120 (one (alnumOr [' ', '.', '_', '/', '+', '(', ')', '-']))

/-- `BOT_NAME` -/
def botName : Pattern := seq (one lowerNum) (upTo 39 (one fun c => lowerNum c || c == '-'))

/-- `HEADER_NAME` -/
def headerName : Pattern := seq (one alnum) (upTo 60 (one (alnumOr ['-'])))

/-- `BASIC_USER`, and the column check of migration 0030. -/
def basicUser : Pattern := between 1 64 (one (alnumOr ['.', '_', '@', '-']))

/-- `SHA256_HEX`, and the column check of migration 0030. -/
def sha256Hex : Pattern := times 64 (one hexDigit)

/-- `HOSTNAME_PATTERN` of the domain procedures, and the runtime's. -/
def hostnamePattern : Pattern :=
  let label := seq (one lowerNum)
    (opt (seq (star (one fun c => lowerNum c || c == '-')) (one lowerNum)))
  seq label (plus (seq (ch '.') label))

/-- `KEY_PATTERN`, and the column check of migration 0015. -/
def keyPattern : Pattern :=
  seq (one upper) (upTo 127 (one fun c => upper c || digit c || c == '_'))

/-- What the runtime takes for the name of an environment variable. -/
def envName : Pattern :=
  seq (one fun c => alnumOr ['_'] c && !digit c) (star (one (alnumOr ['_'])))

/-- The start of a remote that `git clone` may be given: a prefix test. -/
def gitRemote : Pattern :=
  seq
    (alt (seq (lit "http") (seq (opt (ch 's')) (lit "://")))
      (alt (lit "git://")
        (alt (lit "ssh://")
          (seq (lit "git@") (seq (plus (one fun c => c != ':')) (ch ':'))))))
    rest

/-- What `validateArtifact` takes for the URI of an ECR image: a prefix test. -/
def ecrImage : Pattern :=
  let name := plus (one fun c => lowerNum c || c == '-')
  seq name (seq (lit ".dkr.ecr.") (seq name (seq (lit ".amazonaws.com/")
    (seq (one fun c => !List.contains [0xA, 0xD, 0x2028, 0x2029] c.toNat) rest))))

/-- `REF_PATTERN` of the deployment procedures. -/
def refPattern : Pattern := seq (one alnum) (upTo 199 (one (alnumOr ['.', '_', '/', '-'])))

/-- The first eight characters of a UUID. -/
def uuidHead : Pattern := times 8 (one hexDigit)

/-- A variable's name is not the start of a UUID: it begins with a capital. -/
theorem not_uuidHead_of_key {key : String} (h : keyPattern.test key = true) :
    uuidHead.test key = false := by
  by_contra htest
  rw [Bool.not_eq_false] at htest
  obtain ⟨c, w, hkey, hupper⟩ := head_of_test h
  have hwithin : uuidHead.Within hexDigit := within_times fun _ hc => hc
  have hhex := within_of_test htest hwithin c (by rw [hkey]; exact List.mem_cons_self)
  simp only [upper, hexDigit, digit, Bool.and_eq_true, Bool.or_eq_true, decide_eq_true_eq] at hupper hhex
  have hle : ∀ {a b : Char}, a ≤ b → a.toNat ≤ b.toNat := fun h => h
  have hlow := hle hupper.1
  have hhigh := hle hupper.2
  rcases hhex with ⟨_, hdigit⟩ | ⟨hletter, _⟩
  · have := hle hdigit
    simp at hlow this
    omega
  · have := hle hletter
    simp at hhigh this
    omega

/-! ## Strings -/

/-- The characters `trim` removes: ECMAScript's white space and line ends. -/
def jsSpace (c : Char) : Bool :=
  let n := c.toNat
  (9 ≤ n && n ≤ 13) || n == 32 || n == 0xA0 || n == 0x1680 || (0x2000 ≤ n && n ≤ 0x200A) ||
    n == 0x2028 || n == 0x2029 || n == 0x202F || n == 0x205F || n == 0x3000 || n == 0xFEFF

/-- `String.prototype.trim` -/
def trim (s : String) : String :=
  String.ofList (((s.toList.dropWhile jsSpace).reverse.dropWhile jsSpace).reverse)

/-- `toUpperCase`, as far as ASCII comes out: besides the letters themselves, the
characters whose upper case is written with ASCII letters alone. -/
def upperCase (s : String) : String :=
  String.ofList (s.toList.flatMap fun c =>
    match c.toNat with
    | 0xDF => ['S', 'S']
    | 0x131 => ['I']
    | 0x17F => ['S']
    | 0xFB00 => ['F', 'F']
    | 0xFB01 => ['F', 'I']
    | 0xFB02 => ['F', 'L']
    | 0xFB03 => ['F', 'F', 'I']
    | 0xFB04 => ['F', 'F', 'L']
    | 0xFB05 => ['S', 'T']
    | 0xFB06 => ['S', 'T']
    | _ => [c.toUpper])

/-- The lower case of a character, if there is ASCII in it: besides the letters themselves, the
Kelvin sign is a `k`, and the capital I with a dot an `i` and the dot. -/
def lowerChar (c : Char) : List Char :=
  if c.toNat = 0x212A then ['k']
  else if c.toNat = 0x130 then ['i', Char.ofNat 0x307]
  else [c.toLower]

/-- `toLowerCase`, as far as ASCII comes out. -/
def lowerCase (s : String) : String := String.ofList (s.toList.flatMap lowerChar)

theorem lowerChar_self {c : Char} (h : c.toNat < 65 ∨ 90 < c.toNat ∧ c.toNat < 0x130) :
    lowerChar c = [c] := by
  unfold lowerChar
  rw [if_neg (by omega), if_neg (by omega)]
  unfold Char.toLower
  split
  next hup =>
    have hlow : 65 ≤ c.toNat := hup.1
    have hhigh : c.toNat ≤ 90 := hup.2
    omega
  next => rfl

/-- What has no capitals is as it was. -/
theorem lowerCase_self {s : String} (h : ∀ c ∈ s.toList, lowerChar c = [c]) : lowerCase s = s := by
  have hall : ∀ cs : List Char, (∀ c ∈ cs, lowerChar c = [c]) → cs.flatMap lowerChar = cs := by
    intro cs
    induction cs with
    | nil => exact fun _ => rfl
    | cons c cs ih =>
      intro hcs
      rw [List.flatMap_cons, hcs c List.mem_cons_self, ih fun d hd => hcs d (List.mem_cons_of_mem c hd)]
      rfl
  unfold lowerCase
  rw [hall _ h, String.ofList_toList]

/-- `includes` -/
def includes (s sub : String) : Bool := s.toList.tails.any fun t => sub.toList.isPrefixOf t

/-- `length`: UTF-16 code units. -/
def jsLength (s : String) : Nat :=
  (s.toList.map fun c => if 0x10000 ≤ c.toNat then 2 else 1).sum

/-- By one computation for all characters of a text. -/
theorem none_of_all {p : Char → Bool} {cs : List Char} (h : (cs.all fun c => !p c) = true) :
    ∀ c ∈ cs, p c = false := by
  intro c hc
  have := List.all_eq_true.mp h c hc
  rwa [Bool.not_eq_true'] at this

end Grammar

end CloudWai
