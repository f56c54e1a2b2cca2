import CloudWai.Base.Percent
import CloudWai.Base.Sorting
import CloudWai.Grammar
import Mathlib.Data.Char
import Mathlib.Data.List.Lex

/-!
# What a request to AWS is signed for

`signSigV4Request`: the service computes the canonical form of the request it was sent, and
the signature has to be one of the same text. Its first parts are the path and the query. In
AWS's form each segment of the path, and each name and value of the query, is percent-encoded
byte by byte, and the pairs are sorted by what they are written as (`awsPath`, `awsQuery`).

The signer takes another way: it decodes the whole path, reads the query as a form, sorts
the pairs as they were decoded, and encodes one UTF-16 unit at a time. `canonical_path_iff`
and `canonical_query_iff` say when that comes to the same.

Mirrors `packages/adapters/src/aws-signature.ts`. SHA-256 and the HMAC are parameters, and
a URL is one of http or https.
-/

namespace CloudWai.Signing

open Base Url Percent Grammar

/-! ## Encoding -/

/-- `/[A-Za-z0-9\-._~]/` -/
def unreserved (c : Char) : Bool := alnumOr ['-', '.', '_', '~'] c

/-- What the encoder makes of each of a character's UTF-16 units: half a pair is replaced. -/
def perUnit (c : Char) : List Char :=
  if c.toNat < 0x10000 then [c] else [Utf8.replacement, Utf8.replacement]

/-- Each unit is encoded by itself. -/
def uriEncode (value : List Char) (encodeSlash : Bool) : List Char :=
  (value.flatMap perUnit).flatMap fun c =>
    if unreserved c then [c]
    else if c == '/' && !encodeSlash then [c]
    else (String.utf8EncodeChar c).flatMap percent

/-! ## The query, read as a form -/

/-- A piece, cut at its first `=`. -/
def cutPair (piece : List Char) : List Char × List Char :=
  (piece.takeWhile (· != '='), (piece.dropWhile (· != '=')).drop 1)

/-- The names and values of a query, as they are written. -/
def pairsOf (query : List Char) : List (List Char × List Char) :=
  ((query.splitOn '&').filter (· != [])).map cutPair

/-- What `URLSearchParams` makes of a name or a value. -/
def formDecode (cs : List Char) : List Char := Utf8.decode (octets (cs.map formSpace))

def decodePair (p : List Char × List Char) : List Char × List Char :=
  (formDecode p.1, formDecode p.2)

/-- `url.searchParams.entries()` -/
def searchParams (query : List Char) : List (List Char × List Char) := (pairsOf query).map decodePair

/-! ## Sorting -/

/-- The UTF-16 units of a text, by which `<` compares. -/
def units (t : List Char) : List Nat :=
  t.flatMap fun c =>
    if c.toNat < 0x10000 then [c.toNat]
    else [0xD800 + (c.toNat - 0x10000) / 0x400, 0xDC00 + (c.toNat - 0x10000) % 0x400]

/-- What `params.sort` is given. -/
def compareParams (a b : List Char × List Char) : Int :=
  if units a.1 = units b.1 then
    if units a.2 < units b.2 then -1 else if units b.2 < units a.2 then 1 else 0
  else if units a.1 < units b.1 then -1 else 1

/-- The order that pairs are sorted in. -/
def ParamsLe (a b : List Char × List Char) : Prop := compareParams a b ≤ 0

instance : DecidableRel ParamsLe := fun _ _ => inferInstanceAs (Decidable (_ ≤ _))

/-- `name=value` -/
def written (p : List Char × List Char) : List Char := p.1 ++ '=' :: p.2

def joinPairs (ps : List (List Char × List Char)) : List Char := ['&'].intercalate (ps.map written)

def encodePair (p : List Char × List Char) : List Char × List Char :=
  (uriEncode p.1 true, uriEncode p.2 true)

/-! ## The canonical path and query -/

/-- `url.pathname` -/
def pathnameOf : Parsed → List Char
  | .web u => pathname u.path
  | .other u => u.pathname

/-- The query behind the `?`, if there is one. -/
def queryText : Parsed → List Char
  | .web u => u.query.getD []
  | .other u => u.search.drop 1

/-- Pairs are sorted first and encoded then. -/
def canonicalQuery (query : List Char) : List Char :=
  joinPairs (((searchParams query).insertionSort ParamsLe).map encodePair)

/-- The two parts of a URL that are signed. -/
structure PathAndQuery where
  path : List Char
  query : List Char
deriving DecidableEq

/-- `canonicalPathAndQuery`; `none` is a throw. -/
def canonicalPathAndQuery (lib : Library) (rawUrl : List Char) : Option PathAndQuery :=
  (parse lib rawUrl).bind fun url =>
  (decodeURIComponent (pathnameOf url)).map fun decoded =>
    let path := uriEncode decoded false
    ⟨if path = [] then ['/'] else path, canonicalQuery (queryText url)⟩

/-! ## The request -/

/-- The caller's credentials. -/
structure SigV4Credentials where
  accessKeyId : String
  secretAccessKey : String
  sessionToken : Option String

/-- A request to be signed; the instant is in the form that AWS requires. -/
structure SigV4Request where
  method : String
  url : String
  region : String
  service : String
  headers : List (String × String)
  body : Option String
  amz : String

/-- SHA-256 in hexadecimal digits, and the HMAC of a text under the key that the chain makes of
a secret for a date, a region and a service. -/
structure Crypto where
  sha256Hex : String → String
  signature : (secret date region service text : String) → String

/-- `headers[name] = value` -/
def setHeader (headers : List (String × String)) (name value : String) : List (String × String) :=
  if name ∈ headers.map Prod.fst then headers.map fun h => if h.1 = name then (name, value) else h
  else headers ++ [(name, value)]

/-- `.replace(/\s+/g, " ")` -/
def collapse : List Char → List Char
  | [] => []
  | c :: cs =>
    if jsSpace c then
      match cs with
      | [] => [' ']
      | d :: _ => if jsSpace d then collapse cs else ' ' :: collapse cs
    else c :: collapse cs

/-- Lower-case names, trimmed values, sorted by name. -/
def canonicalHeaders (headers : List (String × String)) : String × String :=
  let entries := (headers.map fun h =>
    (lowerCase h.1, String.ofList (collapse (trim h.2).toList))).insertionSort
      fun a b => units a.1.toList ≤ units b.1.toList
  (String.join (entries.map fun h => h.1 ++ ":" ++ h.2 ++ "\n"),
    String.intercalate ";" (entries.map Prod.fst))

/-- `url.host` -/
def hostOf : Parsed → List Char
  | .web u => u.host ++ (match u.port with | some port => ':' :: (toString port).toList | none => [])
  | .other _ => []

/-- The lines of the canonical request. -/
structure CanonicalRequest where
  method : String
  path : List Char
  query : List Char
  headers : String
  signedHeaders : String
  payloadHash : String

/-- The lines that are hashed. -/
def CanonicalRequest.text (c : CanonicalRequest) : String :=
  String.intercalate "\n" [c.method, String.ofList c.path, String.ofList c.query, c.headers,
    c.signedHeaders, c.payloadHash]

/-- The headers that are sent. -/
def requestHeaders (credentials : SigV4Credentials) (req : SigV4Request) (url : Parsed) :
    List (String × String) :=
  let headers := setHeader (setHeader req.headers "host" (String.ofList (hostOf url)))
    "x-amz-date" req.amz
  match credentials.sessionToken with
  | some token => if token = "" then headers else setHeader headers "x-amz-security-token" token
  | none => headers

/-- What `signSigV4Request` signs. -/
def canonicalRequest (lib : Library) (crypto : Crypto) (credentials : SigV4Credentials)
    (req : SigV4Request) : Option CanonicalRequest :=
  (parse lib req.url.toList).bind fun url =>
  (canonicalPathAndQuery lib req.url.toList).map fun canonical =>
    let headers := canonicalHeaders (requestHeaders credentials req url)
    { method := upperCase req.method
      path := canonical.path
      query := canonical.query
      headers := headers.1
      signedHeaders := headers.2
      payloadHash := crypto.sha256Hex (req.body.getD "") }

/-- What is sent. -/
structure SigV4SignedRequest where
  url : String
  headers : List (String × String)

/-- `signSigV4Request`; `none` is a throw. -/
def signSigV4Request (lib : Library) (crypto : Crypto) (credentials : SigV4Credentials)
    (req : SigV4Request) : Option SigV4SignedRequest :=
  (parse lib req.url.toList).bind fun url =>
  (canonicalRequest lib crypto credentials req).map fun canonical =>
    let date := String.ofList (req.amz.toList.take 8)
    let scope := date ++ "/" ++ req.region ++ "/" ++ req.service ++ "/aws4_request"
    let stringToSign := String.intercalate "\n"
      ["AWS4-HMAC-SHA256", req.amz, scope, crypto.sha256Hex canonical.text]
    let signature := crypto.signature credentials.secretAccessKey date req.region req.service
      stringToSign
    ⟨req.url, setHeader (requestHeaders credentials req url) "authorization"
      ("AWS4-HMAC-SHA256 Credential=" ++ credentials.accessKeyId ++ "/" ++ scope ++
        ", SignedHeaders=" ++ canonical.signedHeaders ++ ", Signature=" ++ signature)⟩

/-! ## AWS's form -/

/-- Percent-encoded, byte by byte, from what it stands for. -/
def awsText (cs : List Char) : List Char := escape unreserved (octets cs)

/-- The path, each segment encoded by its octets. -/
def awsPath (u : WebUrl) : List Char := pathname (u.path.map awsText)

/-- And a name with its value. -/
def awsPair (p : List Char × List Char) : List Char × List Char := (awsText p.1, awsText p.2)

/-- By name, and by value where the names are the same. -/
abbrev AwsLe : List Char × List Char → List Char × List Char → Prop := LexLe Prod.fst Prod.snd

/-- Pairs are encoded first and sorted then. -/
def awsQuery (query : List Char) : List Char :=
  joinPairs (((pairsOf query).map awsPair).insertionSort AwsLe)

end CloudWai.Signing
