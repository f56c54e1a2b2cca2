import Mathlib.Data.List.Basic
import Mathlib.Data.List.Infix

/-!
# A rule language of a web application firewall

The fragment of SecLang that generated rule sets are written in: conditions on
the request and on transaction variables, chains of conditions, variables set
on a match, and a disruptive `deny`. The abstract syntax comes with `render`,
the text a rule engine loads, and with its meaning:

* a rule matches if some value of its target satisfies the operator, so a rule
  about a variable that was never set matches nothing, negated or not;
* `chain` binds a rule to the one that follows, and a chain fires only if all
  its rules match;
* what a chain sets, it sets when it fires;
* the first chain to fire whose starter denies ends the transaction.

`chains` reads a flat list of directives the way the engine does, and
`chains_flatten` says that a list written block by block is read back block by
block — that no block swallows the start of the next. `evalPhase_inv` is the
invariant rule for the evaluation.
-/

namespace Base

namespace Seclang

/-- What a rule looks at. -/
inductive Target where
  | requestUri
  | remoteAddr
  | requestHeader (name : String)
  | tx (name : String)
deriving DecidableEq, Repr

/-- What it asks of a value. `geVar` compares with a transaction variable. -/
inductive Operator where
  | beginsWith (s : String)
  | contains (s : String)
  | ipMatch (s : String)
  | streq (s : String)
  | rx (s : String)
  | geVar (name : String)
deriving DecidableEq, Repr

/-- The actions that the compiler writes. -/
inductive Action where
  | id (n : Nat)
  | phase (n : Nat)
  | pass
  | deny
  | status (n : Nat)
  | log
  | nolog
  | chain
  | msg (s : String)
  | severity (s : String)
  | engineOn
  | transformNone
  | setvar (name value : String)
deriving DecidableEq, Repr

/-- A line of the rule set. -/
inductive Directive where
  | ruleEngineOn
  | rule (target : Target) (negated : Bool) (op : Operator) (actions : List Action)
  | action (actions : List Action)
deriving DecidableEq, Repr

/-! ## The text -/

/-- A target as it is written in a rule. -/
def Target.render : Target → String
  | .requestUri => "REQUEST_URI"
  | .remoteAddr => "REMOTE_ADDR"
  | .requestHeader name => "REQUEST_HEADERS:" ++ name
  | .tx name => "TX:" ++ name

/-- An operator with its argument. -/
def Operator.render : Operator → String
  | .beginsWith s => "@beginsWith " ++ s
  | .contains s => "@contains " ++ s
  | .ipMatch s => "@ipMatch " ++ s
  | .streq s => "@streq " ++ s
  | .rx s => "@rx " ++ s
  | .geVar name => "@ge %\x7btx." ++ name ++ "\x7d"

/-- An action as it is written in a list. -/
def Action.render : Action → String
  | .id n => "id:" ++ toString n
  | .phase n => "phase:" ++ toString n
  | .pass => "pass"
  | .deny => "deny"
  | .status n => "status:" ++ toString n
  | .log => "log"
  | .nolog => "nolog"
  | .chain => "chain"
  | .msg s => "msg:'" ++ s ++ "'"
  | .severity s => "severity:" ++ s
  | .engineOn => "ctl:ruleEngine=On"
  | .transformNone => "t:none"
  | .setvar name value => "setvar:tx." ++ name ++ "=" ++ value

/-- An action list in its quotes. -/
def renderActions (as : List Action) : String :=
  "\"" ++ ",".intercalate (as.map Action.render) ++ "\""

/-- A line of the rule set. -/
def Directive.render : Directive → String
  | .ruleEngineOn => "SecRuleEngine On"
  | .rule t negated op as =>
    "SecRule " ++ t.render ++ " \"" ++ (if negated then "!" else "") ++ op.render ++ "\" " ++
      renderActions as
  | .action as => "SecAction " ++ renderActions as

/-! ## The meaning -/

/-- The operators that need address or expression parsing are the engine's. -/
structure Matchers where
  ipMatch : String → String → Bool
  rx : String → String → Bool

/-- A request as the engine sees it. -/
structure Request where
  uri : String
  remoteAddr : String
  headers : List (String × String)
deriving DecidableEq, Repr

/-- Names of headers and variables are case-insensitive. -/
def caseless (name : String) : List Char := name.toList.map Char.toLower

/-- Transaction variables, by their caseless names. -/
abbrev Tx := List Char → Option String

def Tx.get (tx : Tx) (name : String) : Option String := tx (caseless name)

def Tx.set (tx : Tx) (name value : String) : Tx :=
  fun n => if n = caseless name then some value else tx n

/-- The values of a header. -/
def Request.header (req : Request) (name : String) : List String :=
  (req.headers.filter fun h => caseless h.1 == caseless name).map (·.2)

/-- The values a target has. A variable that is not set has none. -/
def Target.values (req : Request) (tx : Tx) : Target → List String
  | .requestUri => [req.uri]
  | .remoteAddr => [req.remoteAddr]
  | .requestHeader name => req.header name
  | .tx name => (tx.get name).toList

/-- Whether a value satisfies an operator. -/
def Operator.holds (M : Matchers) (tx : Tx) (v : String) : Operator → Bool
  | .beginsWith s => s.toList.isPrefixOf v.toList
  | .contains s => decide (s.toList <:+: v.toList)
  | .ipMatch s => M.ipMatch s v
  | .streq s => v == s
  | .rx s => M.rx s v
  | .geVar name => ((tx.get name).bind String.toNat?).getD 0 ≤ v.toNat?.getD 0

def Directive.actions : Directive → List Action
  | .ruleEngineOn => []
  | .rule _ _ _ as => as
  | .action as => as

/-- Whether a directive's condition is met. -/
def Directive.matched (M : Matchers) (req : Request) (tx : Tx) : Directive → Bool
  | .ruleEngineOn => false
  | .rule t negated op _ => (t.values req tx).any fun v => op.holds M tx v != negated
  | .action _ => true

def Directive.chained (d : Directive) : Bool := d.actions.contains .chain

/-- The directives grouped into chains, in order. -/
def chains : List Directive → List (List Directive)
  | [] => []
  | d :: ds =>
    if d.chained then
      match chains ds with
      | [] => [[d]]
      | g :: gs => (d :: g) :: gs
    else [d] :: chains ds

/-- A directive's number, if it has one. -/
def Directive.id? (d : Directive) : Option Nat :=
  d.actions.findSome? fun
    | .id n => some n
    | _ => none

def Directive.phase? (d : Directive) : Option Nat :=
  d.actions.findSome? fun
    | .phase n => some n
    | _ => none

/-- The variables after an action. -/
def Tx.apply (tx : Tx) : Action → Tx
  | .setvar name value => tx.set name value
  | _ => tx

/-- Where a transaction stands: its variables, and the rule that denied it. -/
structure Transaction where
  tx : Tx
  deniedBy : Option Nat

/-- A chain fires if every member matches. -/
def fires (M : Matchers) (req : Request) (tx : Tx) (g : List Directive) : Bool :=
  g.all (Directive.matched M req tx)

/-- A chain's starter carries its number, its phase and its disruptive action. -/
def evalChain (M : Matchers) (req : Request) (phase : Nat) (t : Transaction) :
    List Directive → Transaction
  | [] => t
  | d :: ds =>
    if t.deniedBy.isSome || d.phase? != some phase || !fires M req t.tx (d :: ds) then t
    else
      { tx := ((d :: ds).flatMap Directive.actions).foldl Tx.apply t.tx
        deniedBy := if d.actions.contains .deny then d.id? else none }

/-- The chains of a phase run one after another. -/
def evalPhase (M : Matchers) (req : Request) (phase : Nat) (ds : List Directive)
    (t : Transaction) : Transaction :=
  (chains ds).foldl (evalChain M req phase) t

/-- Request headers first, then the request body: the rules in order, per phase. -/
def eval (M : Matchers) (req : Request) (ds : List Directive) (tx : Tx) : Transaction :=
  evalPhase M req 2 ds (evalPhase M req 1 ds ⟨tx, none⟩)

example : (eval ⟨fun _ _ => false, fun _ _ => false⟩ ⟨"/x", "10.0.0.1", []⟩
    [.rule .requestUri false (.beginsWith "/") [.id 1, .phase 1, .setvar "seen" "1"],
      .rule .remoteAddr false (.streq "10.0.0.1") [.id 2, .phase 1, .deny, .chain],
      .rule (.tx "SEEN") false (.streq "1") []] fun _ => none).deniedBy = some 2 := by
  decide

/-! ## Reading chains back -/

/-- Chained rules up to a last one that is not. -/
def IsChain : List Directive → Prop
  | [] => False
  | [d] => d.chained = false
  | d :: ds => d.chained = true ∧ IsChain ds

instance decideIsChain : (g : List Directive) → Decidable (IsChain g)
  | [] => inferInstanceAs (Decidable False)
  | [d] => inferInstanceAs (Decidable (d.chained = false))
  | d :: e :: ds =>
    have := decideIsChain (e :: ds)
    inferInstanceAs (Decidable (d.chained = true ∧ IsChain (e :: ds)))

theorem chains_append {g ds : List Directive} (h : IsChain g) : chains (g ++ ds) = g :: chains ds := by
  induction g with
  | nil => exact h.elim
  | cons d g ih =>
    cases g with
    | nil =>
      have hd : d.chained = false := h
      simp [chains, hd]
    | cons e g =>
      obtain ⟨hd, hg⟩ : d.chained = true ∧ IsChain (e :: g) := h
      rw [List.cons_append, chains, if_pos hd, ih hg]

/-- Whole chains written one after the other are read back one by one. -/
theorem chains_flatten {gs : List (List Directive)} (h : ∀ g ∈ gs, IsChain g) :
    chains gs.flatten = gs := by
  induction gs with
  | nil => rfl
  | cons g gs ih =>
    rw [List.flatten_cons, chains_append (h g (List.mem_cons_self ..)),
      ih fun g' hg' => h g' (List.mem_cons_of_mem _ hg')]

/-! ## Invariants of the evaluation -/

variable {M : Matchers} {req : Request} {n : Nat} {t : Transaction} {ds : List Directive}

/-- **Invariant rule** for one phase. -/
theorem evalPhase_inv {P : Transaction → Prop} (h0 : P t)
    (hP : ∀ g ∈ chains ds, ∀ t, P t → P (evalChain M req n t g)) :
    P (evalPhase M req n ds t) := by
  unfold evalPhase
  generalize chains ds = gs at hP
  induction gs generalizing t with
  | nil => exact h0
  | cons g gs ih =>
    have h1 := hP g (List.mem_cons_self ..) t h0
    exact ih h1 fun g' hg' => hP g' (List.mem_cons_of_mem _ hg')

/-- A chain with a member that does not match leaves the transaction alone. -/
theorem evalChain_eq_self {g : List Directive} (h : ∃ d ∈ g, d.matched M req t.tx = false) :
    evalChain M req n t g = t := by
  have hf : fires M req t.tx g = false := by
    obtain ⟨d, hd, hm⟩ := h
    rw [fires, List.all_eq_false]
    exact ⟨d, hd, by simp [hm]⟩
  cases g with
  | nil => rfl
  | cons d g => simp [evalChain, hf]

/-- A rule about an unset variable does not match, whatever it asks. -/
theorem matched_unset {name : String} {tx : Tx} (h : tx.get name = none) (negated : Bool)
    (op : Operator) (as : List Action) :
    (Directive.rule (.tx name) negated op as).matched M req tx = false := by
  simp [Directive.matched, Target.values, h]

theorem get_set_of_ne {tx : Tx} {name name' value : String} (h : caseless name' ≠ caseless name) :
    (tx.set name value).get name' = tx.get name' :=
  if_neg h

/-- What holds of a variable's value after each `setvar` holds after a list of actions. -/
theorem foldl_apply_inv {P : Tx → Prop} {as : List Action} {tx : Tx} (h0 : P tx)
    (h : ∀ name value, Action.setvar name value ∈ as → ∀ tx, P tx → P (tx.set name value)) :
    P (as.foldl Tx.apply tx) := by
  induction as generalizing tx with
  | nil => exact h0
  | cons a as ih =>
    have h1 : P (tx.apply a) := by
      cases a with
      | setvar name value => exact h name value (List.mem_cons_self ..) tx h0
      | _ => exact h0
    exact ih h1 fun name value hm => h name value (List.mem_cons_of_mem _ hm)

end Seclang

end Base
