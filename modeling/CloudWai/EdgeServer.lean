import CloudWai.Base.Http
import CloudWai.Base.Machine
import CloudWai.Base.Url

/-!
# The edge server's front door

What `infra/deployment/edge-server.mjs` does with a request: the API's paths go to the
API, and a `GET` of anything else is answered with a file of the bundle, or with the
shell. The headers of the answers and the bodies are left out; what is sent on to the API
keeps its headers, for Node's library throws on some of them.

A path becomes a file's name by `join` and `normalize`, which let `..` climb, and the
check afterwards compares two texts. `startsWith_iff` says what it lets by: the folders
above the bundle's are the bundle's, and the next name begins like the bundle's own,
which another folder's beside it may do too; and `served_iff` that every file there that
can be found is served.

Before that the path is decoded, outside every `try`: one that cannot be decoded ends
the process, and so does a head that the library does not take (`up_iff`).
-/

namespace CloudWai.EdgeServer

open Base

/-! ## Paths -/

/-- One name of a path. -/
abbrev Segment := List Char

/-- A name is taken, `..` takes the last one off. -/
def push (stack : List Segment) (seg : Segment) : List Segment :=
  if seg = [] ∨ seg = ['.'] then stack
  else if seg = ['.', '.'] then stack.dropLast
  else stack ++ [seg]

/-- The names a path leads to, from the folder of those names. -/
def walk (base : List Segment) (path : List Char) : List Segment :=
  (path.splitOnP (· == '/')).foldl push base

/-- The names an absolute path comes down to. -/
def resolved (path : List Char) : List Segment := walk [] path

/-- An absolute path, written. -/
def written (segs : List Segment) : List Char := segs.flatMap ('/' :: ·)

/-- `normalize` of an absolute path; a slash at its end stays. -/
def normalize (path : List Char) : List Char :=
  if resolved path = [] then ['/']
  else if path.getLast? = some '/' then written (resolved path) ++ ['/']
  else written (resolved path)

/-- `join` of an absolute path and another; an empty one is left out. -/
def join (base path : List Char) : List Char :=
  if path = [] then normalize base else normalize (base ++ '/' :: path)

/-- A name a folder can have. -/
def Plain (seg : Segment) : Prop := seg ≠ [] ∧ seg ≠ ['.'] ∧ seg ≠ ['.', '.'] ∧ '/' ∉ seg

instance (seg : Segment) : Decidable (Plain seg) :=
  inferInstanceAs (Decidable (seg ≠ [] ∧ seg ≠ ['.'] ∧ seg ≠ ['.', '.'] ∧ '/' ∉ seg))

/-- `WEB_ROOT`, as `resolve` gives it: not the root of all files. -/
structure Root where
  segs : List Segment
  below : segs ≠ []
  plain : ∀ seg ∈ segs, Plain seg

/-! ## Answers -/

/-- `candidate`: the name a decoded path is given. -/
def candidate (root : Root) (decoded : List Char) : List Char :=
  normalize (join (written root.segs) decoded)

/-- `candidate.startsWith(WEB_ROOT)` -/
def startsWith (root : Root) (name : List Char) : Bool := (written root.segs).isPrefixOf name

/-- `stat`, whether it is a file, or nothing where it throws; and whether a file can be read. -/
structure Disk where
  stat : List Char → Option Bool
  reads : List Char → Bool

/-- `resolveAsset`; it throws at a path that cannot be decoded. -/
def resolveAsset (root : Root) (disk : Disk) (pathname : List Char) : Option (Option (List Char)) :=
  (Url.decodeURIComponent pathname).map fun decoded =>
    let name := candidate root decoded
    if startsWith root name then
      match disk.stat name with
      | none => none
      | some true => some name
      | some false =>
        let index := join name "index.html".toList
        if disk.stat index = some true then some index else none
    else none

/-- The methods the server tells apart. -/
inductive Method where
  | get | head | other
  deriving DecidableEq

/-- What is read of a request. -/
structure Request where
  method : Method
  url : Option (List Char)

/-- `PROXY_PREFIXES` -/
def proxyPrefixes : List (List Char) :=
  ["/rpc".toList, "/healthz".toList, "/hooks/git/".toList]

/-- What is passed on to the API. -/
def isProxied (pathname : List Char) : Bool :=
  proxyPrefixes.any fun pre => pathname == pre || pre.isPrefixOf pathname

/-- What is before the question mark. -/
def Request.pathname (req : Request) : List Char :=
  (req.url.getD "/".toList).takeWhile (· != '?')

/-- What is sent back: the API's answer, a `405`, a file, or the `500`. -/
inductive Reply where
  | proxied
  | notAllowed
  | file (name : List Char)
  | missing

/-- `shell` -/
def shell (root : Root) : List Char := join (written root.segs) "index.html".toList

/-- The request handler; nothing where its promise is rejected. -/
def serve (root : Root) (disk : Disk) (req : Request) : Option Reply :=
  if isProxied req.pathname then some .proxied
  else if req.method = .other then some .notAllowed
  else
    (resolveAsset root disk req.pathname).map fun
      | some asset => .file asset
      | none => if (disk.stat (shell root)).isSome then .file (shell root) else .missing

/-! ### Passing on -/

/-- `STRIPPED_HEADERS` -/
def strippedHeaders : List String := ["x-cloud-wai-internal", "x-forwarded-proto"]

/-- A request, with the files there are, and the head of the API's answer if it gave one. -/
structure Visit where
  disk : Disk
  req : Http.Request
  head : Option Http.Head

/-- What is read of a request. -/
def Visit.request (v : Visit) : Request where
  method := if v.req.method = "GET" then .get else if v.req.method = "HEAD" then .head else .other
  url := some v.req.target

/-- The request `proxyToApi` makes. -/
def apiRequest (api : String) (req : Http.Request) : Http.Request :=
  { req with
    headers := req.headers.without ("host" :: strippedHeaders) ++
      [("host", api), ("x-forwarded-proto", "https")] }

/-- `proxyToApi` throws nothing: the request is taken, and the head of the answer. -/
def passes (http : Http.Library) (api : String) (v : Visit) : Bool :=
  http.sends (apiRequest api v.req) &&
    v.head.all fun h => decide (100 ≤ h.status ∧ h.status ≤ 999) && http.heads v.req h

/-- A rejected promise ends the process, and so does what is thrown in a handler, and a
stream's error: nobody listens. -/
def step (http : Http.Library) (api : String) (root : Root) (up : Bool) (v : Visit) : Bool :=
  up && match serve root v.disk v.request with
    | none => false
    | some .proxied => passes http api v
    | some (.file name) => v.disk.reads name
    | some _ => true

/-! ## The check -/

/-- The folders above are the root's, and the next name begins like the root's own. -/
def Leads (root segs : List Segment) : Prop :=
  ∃ above own name rest, root = above ++ [own] ∧ segs = above ++ name :: rest ∧ own <+: name

section Prefixes

variable {r c : Segment} {rs cs : List Segment} {x y : List Char}

/-- What may follow a name: nothing, or a slash. -/
def Ends (x : List Char) : Prop := x = [] ∨ ∃ y, x = '/' :: y

theorem prefix_last (hr : '/' ∉ r) (hx : Ends x) : r <+: c ++ x ↔ r <+: c := by
  induction r generalizing c with
  | nil => exact iff_of_true List.nil_prefix List.nil_prefix
  | cons a r ih =>
    cases c with
    | cons b c =>
      rw [List.cons_append, List.cons_prefix_cons, List.cons_prefix_cons,
        ih fun h => hr (List.mem_cons_of_mem _ h)]
    | nil =>
      refine iff_of_false ?_ (by simp)
      rcases hx with rfl | ⟨y, rfl⟩
      · simp
      · rw [List.nil_append, List.cons_prefix_cons]
        intro h
        exact hr (h.1 ▸ List.mem_cons_self)

/-- Two names in front of a slash are one if one text begins with the other. -/
theorem prefix_name (hr : '/' ∉ r) (hc : '/' ∉ c) (hx : Ends x) :
    r ++ '/' :: y <+: c ++ x ↔ r = c ∧ '/' :: y <+: x := by
  induction r generalizing c with
  | nil =>
    cases c with
    | nil => simp
    | cons b c =>
      rw [List.nil_append, List.cons_append, List.cons_prefix_cons]
      refine iff_of_false (fun h => hc (h.1 ▸ List.mem_cons_self)) (by simp)
  | cons a r ih =>
    cases c with
    | cons b c =>
      rw [List.cons_append, List.cons_append, List.cons_prefix_cons,
        ih (fun h => hr (List.mem_cons_of_mem _ h)) fun h => hc (List.mem_cons_of_mem _ h),
        List.cons.injEq, and_assoc]
    | nil =>
      refine iff_of_false ?_ (by simp)
      rcases hx with rfl | ⟨z, rfl⟩
      · simp
      · rw [List.nil_append, List.cons_append, List.cons_prefix_cons]
        intro h
        exact hr (h.1 ▸ List.mem_cons_self)

theorem written_cons : written (r :: rs) = '/' :: (r ++ written rs) := rfl

theorem ends_written (hx : Ends x) : Ends (written rs ++ x) := by
  cases rs with
  | nil => exact hx
  | cons r rs => exact .inr ⟨r ++ written rs ++ x, rfl⟩

theorem leads_single : Leads [r] (c :: cs) ↔ r <+: c := by
  constructor
  · intro h
    obtain ⟨above, own, name, rest, hroot, hsegs, hname⟩ := h
    cases above with
    | nil =>
      obtain ⟨rfl, _⟩ := List.cons.inj hroot
      obtain ⟨rfl, _⟩ := List.cons.inj hsegs
      exact hname
    | cons a above => simp at hroot
  · intro h
    exact ⟨[], r, c, cs, rfl, rfl, h⟩

theorem leads_cons {r' : Segment} :
    Leads (r :: r' :: rs) (c :: cs) ↔ r = c ∧ Leads (r' :: rs) cs := by
  constructor
  · intro h
    obtain ⟨above, own, name, rest, hroot, hsegs, hname⟩ := h
    cases above with
    | nil => simp at hroot
    | cons a above =>
      rw [List.cons_append, List.cons.injEq] at hroot hsegs
      exact ⟨hroot.1.trans hsegs.1.symm, above, own, name, rest, hroot.2, hsegs.2, hname⟩
  · intro h
    obtain ⟨rfl, above, own, name, rest, hroot, hsegs, hname⟩ := h
    exact ⟨r :: above, own, name, rest, congrArg _ hroot, congrArg _ hsegs, hname⟩

/-- Texts are compared name by name, but for the last one. -/
theorem prefix_written (hne : rs ≠ []) (hplain : ∀ seg ∈ rs, Plain seg)
    (hcs : ∀ seg ∈ cs, '/' ∉ seg) (hx : x = [] ∨ x = ['/']) :
    written rs <+: written cs ++ x ↔ Leads rs cs := by
  have hends : Ends x := hx.imp id fun h => ⟨[], h⟩
  induction rs generalizing cs with
  | nil => exact absurd rfl hne
  | cons r rs ih =>
    obtain ⟨hfull, -, -, hr⟩ := hplain r List.mem_cons_self
    cases cs with
    | nil =>
      -- a name of the root does not fit into what is left
      refine iff_of_false (fun h => ?_) fun h => ?_
      · have hlen := h.length_le
        have hfew : x.length ≤ 1 := by rcases hx with rfl | rfl <;> simp
        have hmany := List.length_pos_iff.mpr hfull
        rw [written_cons, List.length_cons, List.length_append] at hlen
        have hnone : (written ([] : List Segment) ++ x).length = x.length := rfl
        omega
      · obtain ⟨_, _, _, _, _, hsegs, _⟩ := h
        simp at hsegs
    | cons c cs =>
      have hc := hcs c List.mem_cons_self
      rw [written_cons, written_cons, List.cons_append, List.cons_prefix_cons,
        and_iff_right rfl, List.append_assoc]
      cases rs with
      | nil =>
        rw [leads_single, ← prefix_last hr (ends_written hends)]
        show r ++ [] <+: _ ↔ _
        rw [List.append_nil]
      | cons r' rs =>
        have htail : written (r' :: rs) <+: written cs ++ x ↔ Leads (r' :: rs) cs :=
          ih (by simp) (fun seg h => hplain seg (List.mem_cons_of_mem _ h))
            fun seg h => hcs seg (List.mem_cons_of_mem _ h)
        rw [leads_cons, written_cons, prefix_name hr hc (ends_written hends)]
        exact and_congr_right fun _ => htail

end Prefixes

section Walks

variable {base : List Segment} {seg : Segment} {x : List Char}

theorem push_plain (h : Plain seg) : push base seg = base ++ [seg] := by
  obtain ⟨hfull, hdot, hdots, -⟩ := h
  rw [push, if_neg (by simp [hfull, hdot]), if_neg hdots]

theorem push_nil : push base [] = base := if_pos (.inl rfl)

theorem walk_nil : walk base [] = base := push_nil

theorem walk_slash : walk base ('/' :: x) = walk base x := by
  have hsplit : ('/' :: x).splitOnP (· == '/') = [] :: x.splitOnP (· == '/') :=
    List.splitOnP_append_cons [] x rfl
  rw [walk, hsplit, List.foldl_cons, push_nil]
  rfl

theorem walk_name (h : '/' ∉ seg) (hx : Ends x) : walk base (seg ++ x) = walk (push base seg) x := by
  have hfree : ∀ c ∈ seg, (c == '/') = false := by
    intro c hc
    exact beq_false_of_ne fun heq => h (heq ▸ hc)
  obtain rfl | ⟨y, rfl⟩ := hx
  · rw [List.append_nil, walk, List.splitOnP_eq_singleton hfree, walk_nil]
    rfl
  · rw [walk_slash, walk, List.splitOnP_append_cons_of_forall_mem hfree '/' rfl y]
    rfl

/-- Folders by their names are walked into. -/
theorem walk_written {segs : List Segment} (h : ∀ seg ∈ segs, Plain seg) (hx : Ends x) :
    walk base (written segs ++ x) = walk (base ++ segs) x := by
  induction segs generalizing base with
  | nil =>
    rw [List.append_nil]
    rfl
  | cons seg segs ih =>
    have hseg := h seg List.mem_cons_self
    rw [written_cons, List.cons_append, walk_slash, List.append_assoc,
      walk_name hseg.2.2.2 (ends_written hx), push_plain hseg,
      ih fun other hmem => h other (List.mem_cons_of_mem _ hmem), List.append_assoc]
    rfl

theorem plain_push (hbase : ∀ s ∈ base, Plain s) (hseg : '/' ∉ seg) :
    ∀ s ∈ push base seg, Plain s := by
  unfold push
  split
  · exact hbase
  next hname =>
    split
    · intro s hs
      exact hbase s (List.dropLast_subset _ hs)
    next hdots =>
      intro s hs
      rcases List.mem_append.mp hs with hold | hnew
      · exact hbase s hold
      · obtain rfl := List.mem_singleton.mp hnew
        exact ⟨fun h => hname (.inl h), fun h => hname (.inr h), hdots, hseg⟩

/-- No walk leads to a name that is no name. -/
theorem plain_walk (hbase : ∀ s ∈ base, Plain s) : ∀ s ∈ walk base x, Plain s := by
  have hfree : ∀ seg ∈ x.splitOnP (· == '/'), '/' ∉ seg := by
    intro seg hseg hmem
    have hno := Url.noSep_of_mem_splitOnP hseg '/' hmem
    simp at hno
  unfold walk
  generalize x.splitOnP (· == '/') = segs at hfree
  induction segs generalizing base with
  | nil => exact hbase
  | cons seg segs ih =>
    exact ih (plain_push hbase (hfree seg List.mem_cons_self))
      fun other hmem => hfree other (List.mem_cons_of_mem _ hmem)

end Walks

section Normal

variable {path : List Char}

theorem plain_resolved : ∀ s ∈ resolved path, Plain s := plain_walk (by simp)

/-- A normal path is its names, and at most a slash. -/
theorem normalize_eq (path : List Char) :
    ∃ x, (x = [] ∨ x = ['/']) ∧ normalize path = written (resolved path) ++ x := by
  unfold normalize
  split
  next h =>
    rw [h]
    exact ⟨['/'], .inr rfl, rfl⟩
  · split
    · exact ⟨['/'], .inr rfl, rfl⟩
    · exact ⟨[], .inl rfl, (List.append_nil _).symm⟩

theorem resolved_normalize : resolved (normalize path) = resolved path := by
  obtain ⟨x, hx, hnormal⟩ := normalize_eq path
  rw [hnormal, resolved, walk_written plain_resolved (hx.imp id fun h => ⟨[], h⟩), List.nil_append]
  rcases hx with rfl | rfl
  · exact walk_nil
  · rw [walk_slash, walk_nil]

/-- To join is to walk on. -/
theorem resolved_join (root : Root) (path : List Char) :
    resolved (join (written root.segs) path) = walk root.segs path := by
  have hroot : ∀ x, Ends x → resolved (written root.segs ++ x) = walk root.segs x := by
    intro x hx
    rw [resolved, walk_written root.plain hx, List.nil_append]
  unfold join
  split
  next h =>
    have hempty := hroot [] (.inl rfl)
    rw [List.append_nil] at hempty
    rw [resolved_normalize, hempty, h]
  · rw [resolved_normalize, hroot _ (.inr ⟨path, rfl⟩), walk_slash]

end Normal

/-- **What the check lets by**: a path that leads to the folders above the bundle's, and
there to a name that begins like the bundle's own. -/
theorem startsWith_iff (root : Root) (decoded : List Char) :
    startsWith root (candidate root decoded) = true ↔ Leads root.segs (walk root.segs decoded) := by
  obtain ⟨x, hx, hnormal⟩ := normalize_eq (join (written root.segs) decoded)
  have hnames : ∀ s ∈ walk root.segs decoded, '/' ∉ s := by
    intro s hs
    exact (plain_walk root.plain s hs).2.2.2
  rw [startsWith, List.isPrefixOf_iff_prefix, candidate, hnormal, resolved_join]
  exact prefix_written root.below root.plain hnames hx

/-- The bundle's name, and a name that begins like it. -/
def app : Root where
  segs := ["srv".toList, "app".toList]
  below := by decide
  plain := by decide

-- beside the bundle's folder, it depends on the name
example : startsWith app (candidate app "/../key".toList) = false := by decide

/-- What `stat` has to say for this name to be the asset. -/
def Found (disk : Disk) (name asset : List Char) : Prop :=
  (disk.stat name = some true ∧ asset = name) ∨
    (disk.stat name = some false ∧ asset = join name "index.html".toList ∧
      disk.stat asset = some true)

/-- A path is resolved to what it leads to, if that is there. -/
theorem resolveAsset_iff {root : Root} {disk : Disk} {pathname asset : List Char} :
    resolveAsset root disk pathname = some (some asset) ↔
      ∃ decoded, Url.decodeURIComponent pathname = some decoded ∧
        Leads root.segs (walk root.segs decoded) ∧ Found disk (candidate root decoded) asset := by
  rw [resolveAsset, Option.map_eq_some_iff]
  refine exists_congr fun decoded => and_congr_right fun _ => ?_
  rw [← startsWith_iff]
  dsimp only
  unfold Found
  split
  next hstarts =>
    rw [and_iff_right hstarts]
    split
    next hstat => simp [hstat]
    next hstat => simp [hstat, eq_comm]
    next hstat =>
      rw [hstat]
      constructor
      · intro h
        split at h
        next hindex =>
          obtain rfl := Option.some.inj h
          exact .inr ⟨rfl, rfl, hindex⟩
        next => cases h
      · intro h
        rcases h with ⟨h, _⟩ | ⟨_, rfl, hindex⟩
        · cases h
        · rw [if_pos hindex]
  next hstarts => exact iff_of_false (by simp) fun h => hstarts h.1

/-! ## Files and the process -/

/-- What a request must be for the process to outlast it. -/
def Harmless (http : Http.Library) (api : String) (root : Root) (v : Visit) : Prop :=
  if isProxied v.request.pathname then passes http api v = true
  else v.request.method = .other ∨
    (Url.decodeURIComponent v.request.pathname).isSome = true ∧
      ∀ name, serve root v.disk v.request = some (.file name) → v.disk.reads name = true

theorem serve_eq_none {root : Root} {disk : Disk} {req : Request} :
    serve root disk req = none ↔ isProxied req.pathname = false ∧ req.method ≠ .other ∧
      Url.decodeURIComponent req.pathname = none := by
  unfold serve
  split
  next hproxied => exact iff_of_false (by simp) fun h => by simp [h.1] at hproxied
  next hproxied =>
    rw [and_iff_right (Bool.eq_false_iff.mpr hproxied)]
    split
    next hmethod => exact iff_of_false (by simp) fun h => h.1 hmethod
    next hmethod =>
      rw [and_iff_right hmethod, Option.map_eq_none_iff, resolveAsset, Option.map_eq_none_iff]

theorem file_served {root : Root} {disk : Disk} {req : Request} {name : List Char}
    (h : serve root disk req = some (.file name)) :
    isProxied req.pathname = false ∧ req.method ≠ .other := by
  unfold serve at h
  split at h
  · simp at h
  next hproxied =>
    split at h
    · simp at h
    next hmethod => exact ⟨Bool.eq_false_iff.mpr hproxied, hmethod⟩

/-- **What can be read through the server**, besides the shell: what is found by a path that
leads to the folders above the bundle's, and there to a name that begins like its own. -/
theorem served_iff (root : Root) (disk : Disk) (req : Request) (name : List Char) :
    serve root disk req = some (.file name) ∧ name ≠ shell root ↔
      isProxied req.pathname = false ∧ req.method ≠ .other ∧ name ≠ shell root ∧
        ∃ decoded, Url.decodeURIComponent req.pathname = some decoded ∧
          Leads root.segs (walk root.segs decoded) ∧ Found disk (candidate root decoded) name := by
  rw [← resolveAsset_iff]
  constructor
  · intro h
    obtain ⟨hserve, hname⟩ := h
    obtain ⟨hproxied, hmethod⟩ := file_served hserve
    refine ⟨hproxied, hmethod, hname, ?_⟩
    rw [serve, if_neg (by simp [hproxied]), if_neg hmethod, Option.map_eq_some_iff] at hserve
    obtain ⟨asset, hasset, hreply⟩ := hserve
    cases asset with
    | some asset =>
      obtain rfl := Reply.file.inj hreply
      exact hasset
    | none =>
      dsimp only at hreply
      split at hreply
      · exact absurd (Reply.file.inj hreply).symm hname
      · cases hreply
  · intro h
    obtain ⟨hproxied, hmethod, hname, hasset⟩ := h
    refine ⟨?_, hname⟩
    rw [serve, if_neg (by simp [hproxied]), if_neg hmethod, hasset]
    rfl

/-- One file, in a folder beside the bundle's. -/
def beside : Disk where
  stat name := if name = "/srv/app-old/key".toList then some true else none
  reads _ := true

example : serve app beside ⟨.get, some "/%2e%2e/app-old/key?v=1".toList⟩ =
    some (.file "/srv/app-old/key".toList) := rfl

section Process

variable {http : Http.Library} {api : String} {root : Root} {up : Bool} {v : Visit}

/-- The process stays up exactly on harmless requests. -/
theorem step_iff : step http api root up v = true ↔ up = true ∧ Harmless http api root v := by
  rw [step, Bool.and_eq_true]
  refine and_congr_right fun _ => ?_
  unfold Harmless
  by_cases hproxied : isProxied v.request.pathname = true
  · have hserve : serve root v.disk v.request = some .proxied := by rw [serve, if_pos hproxied]
    rw [hserve, if_pos hproxied]
  · rw [if_neg hproxied]
    have hlocal : isProxied v.request.pathname = false := Bool.eq_false_iff.mpr hproxied
    have hnone := @serve_eq_none root v.disk v.request
    rw [and_iff_right hlocal] at hnone
    cases hserve : serve root v.disk v.request with
    | none =>
      obtain ⟨hmethod, hdecodes⟩ := hnone.mp hserve
      refine iff_of_false (by simp) ?_
      rintro (hother | ⟨hdecodes', -⟩)
      · exact hmethod hother
      · simp [hdecodes] at hdecodes'
    | some reply =>
      have hsome : v.request.method = .other ∨
          (Url.decodeURIComponent v.request.pathname).isSome = true := by
        by_contra hnot
        rw [not_or, Bool.not_eq_true, Option.isSome_eq_false_iff, Option.isNone_iff_eq_none] at hnot
        rw [hnone.mpr hnot] at hserve
        cases hserve
      cases reply with
      | proxied =>
        unfold serve at hserve
        rw [if_neg hproxied] at hserve
        split at hserve
        · cases hserve
        · obtain ⟨asset, -, hreply⟩ := Option.map_eq_some_iff.mp hserve
          cases asset with
          | some asset => cases hreply
          | none =>
            dsimp only at hreply
            split at hreply <;> cases hreply
      | notAllowed | missing =>
        refine iff_of_true rfl (hsome.imp_right fun h => ⟨h, ?_⟩)
        rintro _ ⟨⟩
      | file name =>
        have hmethod := (file_served hserve).2
        constructor
        · intro hreads
          refine .inr ⟨hsome.resolve_left hmethod, ?_⟩
          rintro _ ⟨⟩
          exact hreads
        · rintro (hother | ⟨-, hreads⟩)
          · exact absurd hother hmethod
          · exact hreads name rfl

end Process

-- half an escape ends it, and so does a `Trailer` on its way to the API
example : [("/%", []), ("/healthz", [("trailer", "expires")])].map (fun r =>
    step Http.trailers "127.0.0.1:8080" app true
      ⟨beside, ⟨"GET", r.1.toList, r.2, true⟩, some ⟨200, []⟩⟩) = [false, false] := by
  decide +kernel

end CloudWai.EdgeServer
