/-!
# Requests and answers at an HTTP server

A handler has a request whose head the parser accepted, and answers it or sends it on.
Both can throw: Node's library looks at the head of an outgoing message once more, and
throws on some that its own parser lets in. Its rules are not the handler's, and they
change from one version to the next; so what it takes is a parameter (`Library`), asked
where the handler sends.

`trailers` is one library, with the rule of Node 22 that is met most easily: a `trailer`
header needs a body that is sent in chunks.
-/

namespace Base.Http

/-- Header fields, the names in lower case. -/
abbrev Headers := List (String × String)

namespace Headers

def get (hs : Headers) (name : String) : Option String :=
  (hs.find? fun h => h.1 == name).map (·.2)

def has (hs : Headers) (name : String) : Bool := (hs.get name).isSome

def without (hs : Headers) (names : List String) : Headers :=
  hs.filter fun h => !names.contains h.1

end Headers

/-- A request as a handler gets it. -/
structure Request where
  method : String
  /-- `req.url` -/
  target : List Char
  headers : Headers
  /-- A part of the body has come, or the end of the request. -/
  arrived : Bool := true
deriving DecidableEq

/-- The head of an answer. -/
structure Head where
  status : Nat
  headers : Headers := []
deriving DecidableEq

/-- What the library takes without throwing. -/
structure Library where
  /-- This request, to another server: by `http.request` and all that is piped into it. -/
  sends : Request → Bool
  /-- This head, in answer to this request: by `writeHead`. -/
  heads : Request → Head → Bool

/-! ## Trailers -/

/-- The methods whose requests are sent without a body unless the headers announce one. -/
def bodiless : List String := ["GET", "HEAD", "DELETE", "OPTIONS", "TRACE", "CONNECT"]

/-- The request is sent on in chunks. -/
def Request.chunked (req : Request) : Bool :=
  req.headers.has "transfer-encoding" ||
    !(req.headers.has "content-length" || bodiless.contains req.method)

/-- The answer is sent in chunks. -/
def Head.chunked (req : Request) (head : Head) : Bool :=
  head.status != 204 && head.status != 304 &&
    (head.headers.has "transfer-encoding" ||
      !(head.headers.has "content-length" || req.method == "HEAD" || head.status < 200))

/-- A `trailer` header needs chunks. A request's head is written when something of its
body is, and at once if the client expects to be told to go on. -/
def trailers : Library where
  sends req :=
    !(req.arrived || req.headers.has "expect") || req.chunked || !req.headers.has "trailer"
  heads req head := head.chunked req || !head.headers.has "trailer"

end Base.Http
