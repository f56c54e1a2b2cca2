import CloudWai.Base.Machine
import CloudWai.Base.Disk

/-!
# The engines' state files

Each of the four engines keeps what it knows in memory, and has one file that it is read
back from. A routine writes it: the text is made when `writeFile` is called, and the call is
then awaited, as are the others. Nothing keeps two calls of the routine apart, so each is a
`Save` of its own that goes on when its await ends, in whatever order that is.

The routines are given as what is left to do (`Script`). What the state is, what text it has
and what is made of a text that is read are parameters.

`taken`, `turn`, `landed` and `called` are never read by the code: the states that texts were
made of, which of them a save has, which is under the state file's name, and whether a save
has been called since the process began.

Mirrors `saveState` and `loadState` of `runtime-server.mjs`, `postgres-server.mjs` and
`router-server.mjs`, and `flushState` of `builder-server.mjs`.
-/

namespace CloudWai.StateFile

open Base

/-! ## The routines -/

/-- The names in the data directory. -/
inductive Name where
  | state
  /-- With what was drawn for it. -/
  | temporary (suffix : Nat)
deriving DecidableEq

/-- The file that is written, and the one that is read. -/
inductive Target where
  | temporary
  | state
deriving DecidableEq

/-- What a save has left to do, and what instead if a call fails. -/
inductive Script where
  | returns
  | throws
  | writeFile (target : Target) (next failed : Script)
  /-- `rename(tmp, STATE_FILE)` -/
  | rename (next failed : Script)
  /-- `rm(tmp).catch(() => {})` -/
  | rm (next : Script)
deriving DecidableEq

/-- The state file is written yet, if nothing fails. -/
def Script.hopeful : Script → Bool
  | .returns | .throws => false
  | .writeFile .state _ _ | .rename _ _ => true
  | .writeFile .temporary next _ | .rm next => next.hopeful

/-- What is renamed has been written just before, and a file is written for something. -/
def Script.Sound (written : Bool) : Script → Prop
  | .returns | .throws => True
  | .writeFile .temporary next failed =>
    next.hopeful = true ∧ next.Sound true ∧ failed.Sound false
  | .writeFile .state next failed => next.Sound false ∧ failed.Sound false
  | .rename next failed => written = true ∧ next.Sound false ∧ failed.Sound false
  | .rm next => next.Sound false

instance : ∀ (written : Bool) (script : Script), Decidable (script.Sound written)
  | _, .returns | _, .throws => inferInstanceAs (Decidable True)
  | _, .writeFile .temporary next failed =>
    have := instDecidableSound true next
    have := instDecidableSound false failed
    inferInstanceAs (Decidable (_ ∧ _ ∧ _))
  | _, .writeFile .state next failed =>
    have := instDecidableSound false next
    have := instDecidableSound false failed
    inferInstanceAs (Decidable (_ ∧ _))
  | _, .rename next failed =>
    have := instDecidableSound false next
    have := instDecidableSound false failed
    inferInstanceAs (Decidable (_ ∧ _ ∧ _))
  | _, .rm next => instDecidableSound false next

/-- An engine's routine begins with the temporary file. -/
structure Engine where
  /-- When the temporary file is written. -/
  next : Script
  /-- When it could not be. -/
  failed : Script
  /-- Nothing is done unless the state has been marked dirty. -/
  flagged : Bool
  /-- `loadState` removes the temporary files that it finds. -/
  sweeps : Bool
  sound : (Script.writeFile .temporary next failed).Sound false := by decide

/-- The routine begins with the file beside the state. -/
def Engine.saveState (e : Engine) : Script := .writeFile .temporary e.next e.failed

/-- `runtime-server.mjs` -/
def runtime : Engine where
  next := .rename .returns (.rm (.writeFile .state .returns .throws))
  failed := .throws
  flagged := false
  sweeps := true

/-- `postgres-server.mjs` -/
def postgres : Engine where
  next := .rename .returns (.rm (.writeFile .state .returns .throws))
  failed := .throws
  flagged := false
  sweeps := true

/-- `router-server.mjs` writes the state file over, and leaves the temporary one. -/
def router : Engine where
  next := .writeFile .state .returns .throws
  failed := .throws
  flagged := false
  sweeps := false

/-- `flushState` of `builder-server.mjs` -/
def builder : Engine where
  next := .rename .returns (.rm .returns)
  failed := .rm .returns
  flagged := true
  sweeps := false

/-! ## The state -/

/-- A call of the routine. -/
structure Save where
  /-- What its temporary file is called. -/
  suffix : Nat
  script : Script
  /-- The file that is open, and how much has been written. -/
  file : Option (Nat × Nat) := none
  /-- What is written, or was last. -/
  text : List UInt8 := []
  turn : Nat := 0
deriving DecidableEq

/-- It has not returned. -/
def Save.Live (q : Save) : Prop := q.script ≠ .returns ∧ q.script ≠ .throws

instance (q : Save) : Decidable q.Live := inferInstanceAs (Decidable (_ ∧ _))

/-- A temporary file is named after the suffix of its save. -/
def Save.name (q : Save) : Target → Name
  | .temporary => .temporary q.suffix
  | .state => .state

/-- `JSON.stringify`, and what `loadState` makes of a text or of there being none: with the
flag, if the engine has one. -/
structure Format (V : Type) where
  stringify : V → List UInt8
  load : Option (List UInt8) → V × Bool

/-- The process's memory, the disk and the saves on their way. -/
structure System (V : Type) where
  memory : V
  /-- The memory has changed since its text was made; only a `flagged` engine looks. -/
  dirty : Bool
  disk : Disk Name
  saves : List Save := []
  taken : List V := []
  landed : Option Nat := none
  called : Bool := false

/-- How a call to the file system ends. -/
inductive Answer where
  | opened
  /-- So many bytes more are written. -/
  | wrote (count : Nat)
  | done
  | failed
deriving DecidableEq

/-- What happens to them. -/
inductive Event (V : Type) where
  /-- The memory changes; where there is a flag, it is set. -/
  | change (memory : V)
  /-- The routine is called, and draws a name. -/
  | save (suffix : Nat)
  | resume (n : Nat) (answer : Answer)
  /-- The process stops and a new one begins, which may have swept these files away. -/
  | restart (gone : List Nat)

/-! ## Steps -/

variable {V : Type} (e : Engine) (f : Format V)

/-- Save `n` goes on with this. -/
def System.goTo (s : System V) (n : Nat) (q : Save) (script : Script) : System V :=
  match script with
  | .writeFile .. =>
    { s with
      dirty := false
      taken := s.taken ++ [s.memory]
      saves := s.saves.set n { q with
        script := script, file := none, text := f.stringify s.memory, turn := s.taken.length } }
  | _ => { s with saves := s.saves.set n { q with script := script, file := none } }

/-- A file is open for it. -/
def System.open (s : System V) (n : Nat) (q : Save) (target : Target) : System V :=
  let node := s.disk.node (q.name target)
  { s with
    disk := s.disk.create (q.name target)
    landed := if target = .state then some q.turn else s.landed
    saves := s.saves.set n { q with file := some (node, 0) } }

/-- An await of save `n`, which is `q`, ends. An answer that the await cannot have is none. -/
def System.resume (s : System V) (n : Nat) (q : Save) (answer : Answer) : System V :=
  match q.script, q.file, answer with
  | .writeFile target _ _, none, .opened => s.open n q target
  | .writeFile _ next _, some (node, offset), .wrote count =>
    let s := { s with disk := s.disk.write node offset ((q.text.drop offset).take count) }
    if offset + count < q.text.length then
      { s with saves := s.saves.set n { q with file := some (node, offset + count) } }
    else s.goTo f n q next
  | .writeFile _ _ failed, _, .failed => s.goTo f n q failed
  | .rename next _, _, .done =>
    match s.disk.names (q.name .temporary) with
    | none => s
    | some _ =>
      let s := { s with
        disk := s.disk.rename (q.name .temporary) .state
        landed := some q.turn }
      s.goTo f n q next
  | .rename _ failed, _, .failed => s.goTo f n q failed
  | .rm next, _, .done =>
    let s := { s with disk := s.disk.unlink (q.name .temporary) }
    s.goTo f n q next
  | .rm next, _, .failed => s.goTo f n q next
  | _, _, _ => s

/-- The temporary files are swept away. -/
def sweep (disk : Disk Name) (gone : List Nat) : Disk Name :=
  gone.foldl (fun d suffix => d.unlink (.temporary suffix)) disk

/-- The process begins with this directory. -/
def start (disk : Disk Name) : System V where
  memory := (f.load (disk.read .state)).1
  dirty := (f.load (disk.read .state)).2
  disk := disk

/-- A new process reads what there is. -/
def System.restart (s : System V) (gone : List Nat) : System V :=
  { s with
    memory := (f.load (s.disk.read .state)).1
    dirty := (f.load (s.disk.read .state)).2
    disk := if e.sweeps then sweep s.disk gone else s.disk
    saves := []
    called := false }

/-- One event. -/
def System.step (s : System V) : Event V → System V
  | .change memory => { s with memory := memory, dirty := true }
  | .save suffix =>
    if e.flagged && !s.dirty then s
    else
      let q : Save := { suffix := suffix, script := .returns }
      ({ s with saves := s.saves ++ [q], called := true } : System V).goTo f s.saves.length q
        e.saveState
  | .resume n answer =>
    match s.saves[n]? with
    | none => s
    | some q => s.resume f n q answer
  | .restart gone => s.restart e f gone

end CloudWai.StateFile
