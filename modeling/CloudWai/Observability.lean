import CloudWai.Base.Pattern
import CloudWai.Base.Tree

/-!
# What is logged

No secret and no origin address is to reach a log line, so every field of a log record is
put through `redact`: it goes through objects and arrays, and writes a placeholder under
every key that looks sensitive, and wherever it is eight levels deep. That is a mask
(`redact_eq_mask`), so what it covers has no part in what is logged, and redacting twice is
redacting once.

Whatever is not covered should be logged as it is. It is, except under one key: the result
is built by assignment, and assigning to `__proto__` makes no entry of that name
(`setProperty`). It sets a prototype instead, which is no part of a value of JSON:
neither `Object.entries` nor `JSON.stringify` looks at it.

Mirrors `packages/observability/src/index.ts` up to the logger itself, which is left out
with the latency reports.
-/

namespace CloudWai

namespace Observability

open Base Pattern

/-! ## Keys -/

/-- A word, in capital or small letters. -/
def word (s : String) : Pattern := s.toList.foldr (fun c r => seq (one fun d => d.toLower == c) r) eps

/-- `[_-]?` -/
def gap : Pattern := opt (one fun c => c == '_' || c == '-')

/-- `_?` -/
def underscore : Pattern := opt (ch '_')

/-- `SECRET_KEY_PATTERN`, which looks anywhere. -/
def secretKeyPattern : Pattern :=
  seq rest (seq
    (alt (seq (word "pass") (opt (word "word")))
      (alt (word "secret")
        (alt (word "token")
          (alt (seq (word "api") (seq gap (word "key")))
            (alt (seq (word "private") (seq gap (word "key")))
              (alt (word "authorization")
                (alt (word "cookie")
                  (alt (word "credential")
                    (alt (word "session")
                      (alt (word "dsn")
                        (alt (seq (word "connection") (seq gap (word "string")))
                          (word "jwt")))))))))))) rest)

/-- `ORIGIN_KEY_PATTERN`, anchored. -/
def originKeyPattern : Pattern :=
  alt (word "origin")
    (alt (seq (word "origin") (seq underscore (word "ip")))
      (alt (seq (word "origin") (seq underscore (word "host")))
        (alt (word "upstream") (seq (word "backend") (seq underscore (word "host"))))))

/-- A key of a secret, or of a private origin. -/
def isSensitiveKey (key : String) : Bool := secretKeyPattern.test key || originKeyPattern.test key

/-! ## Values -/

/-- A value that is no object; numbers are of a type of their own. -/
inductive Scalar (N : Type) where
  | null
  | bool (b : Bool)
  | number (n : N)
  | string (s : String)

/-- Arrays are lists and objects records, whose entries come in the order in which they are
enumerated. -/
abbrev Value (N : Type) := Tree String (Scalar N)

/-- `REDACTED` -/
def redacted {N : Type} : Value N := .leaf (.string "[redacted]")

section Redact

variable {N : Type}

/-- `out[key] = val` for an `out` that was `{}`. What is assigned to `__proto__` becomes the
prototype or nothing. -/
def setProperty (out : List (String × Value N)) (key : String) (val : Value N) :
    List (String × Value N) :=
  if key = "__proto__" then out
  else if key ∈ out.map Prod.fst then out.map fun e => if e.1 = key then (key, val) else e
  else out ++ [(key, val)]

mutual

/-- What lies deeper than eight levels is redacted whole. -/
def redact (value : Value N) (depth : Nat) : Value N :=
  if depth > 8 then redacted
  else
    match value with
    | .leaf l => .leaf l
    | .list items => .list (redactItems items (depth + 1))
    | .record entries => .record (redactEntries entries (depth + 1) [])

/-- Each item of a list. -/
def redactItems (items : List (Value N)) (depth : Nat) : List (Value N) :=
  match items with
  | [] => []
  | item :: items => redact item depth :: redactItems items depth

/-- The loop over the entries, with what has been set. -/
def redactEntries (entries : List (String × Value N)) (depth : Nat)
    (out : List (String × Value N)) : List (String × Value N) :=
  match entries with
  | [] => out
  | (key, val) :: entries =>
    redactEntries entries depth
      (setProperty out key (if isSensitiveKey key then redacted else redact val depth))

end

end Redact

/-! ## A mask -/

/-- What becomes of an entry. -/
def fate (key : String) : Tree.Fate :=
  if key = "__proto__" then .lost else if isSensitiveKey key then .hidden else .kept

/-- The same as a policy on trees. -/
def policy {N : Type} : Tree.Policy String (Scalar N) := ⟨.string "[redacted]", fate⟩

theorem fate_lost {key : String} : fate key = .lost ↔ key = "__proto__" := by
  unfold fate
  split
  next h => exact iff_of_true rfl h
  next h =>
    refine iff_of_false ?_ h
    split <;> nofun

theorem fate_kept {key : String} :
    fate key = .kept ↔ key ≠ "__proto__" ∧ isSensitiveKey key = false := by
  unfold fate
  split
  next h => exact iff_of_false nofun fun hne => hne.1 h
  next h =>
    split
    next hs => exact iff_of_false nofun fun hne => by rw [hs] at hne; cases hne.2
    next hs => exact iff_of_true rfl ⟨h, Bool.not_eq_true _ ▸ hs⟩

section Mask

variable {N : Type} {n depth : Nat} {key : String} {val value : Value N}
  {items : List (Value N)} {entries out : List (String × Value N)}

theorem setProperty_new (hne : key ≠ "__proto__") (hnew : key ∉ out.map Prod.fst) :
    setProperty out key val = out ++ [(key, val)] := by
  unfold setProperty
  rw [if_neg hne, if_neg hnew]

theorem redactItems_eq : redactItems items depth = items.map fun item => redact item depth := by
  induction items with
  | nil => rw [redactItems, List.map_nil]
  | cons item items ih => rw [redactItems, ih, List.map_cons]

/-- **Loop lemma.** The entries are set one by one, behind what has been set. -/
theorem redactEntries_eq {f : Value N → Value N} (hf : ∀ e ∈ entries, redact e.2 depth = f e.2)
    (hdistinct : (out.map Prod.fst ++ entries.map Prod.fst).Nodup) :
    redactEntries entries depth out = out ++ entries.filterMap (policy.entry f) := by
  induction entries generalizing out with
  | nil => rw [redactEntries, List.filterMap_nil, List.append_nil]
  | cons e entries ih =>
    obtain ⟨key, val⟩ := e
    have hrest : ∀ e ∈ entries, redact e.2 depth = f e.2 := fun e he =>
      hf e (List.mem_cons_of_mem _ he)
    rw [List.map_cons] at hdistinct
    have hnew : key ∉ out.map Prod.fst := fun hmem =>
      (List.nodup_append.mp hdistinct).2.2 key hmem key List.mem_cons_self rfl
    have hset : ∀ val : Value N, ((out ++ [(key, val)]).map Prod.fst ++
        entries.map Prod.fst).Nodup := by
      intro val
      rw [List.map_append, List.append_assoc]
      exact hdistinct
    rw [redactEntries, hf _ List.mem_cons_self, List.filterMap_cons]
    by_cases hproto : key = "__proto__"
    · -- nothing is set, and the entry is lost
      rw [Tree.entry_lost (fate_lost.mpr hproto)]
      unfold setProperty
      rw [if_pos hproto]
      refine ih hrest ?_
      exact hdistinct.sublist (List.Sublist.append_left (List.sublist_cons_self _ _) _)
    · rw [setProperty_new hproto hnew, ih hrest (hset _), List.append_assoc]
      congr 1
      cases hkey : isSensitiveKey key with
      | true =>
        have hfate : fate key = .hidden := by
          unfold fate
          rw [if_neg hproto, if_pos hkey]
        rw [Tree.entry_hidden hfate, if_pos rfl]
        rfl
      | false =>
        rw [Tree.entry_kept (fate_kept.mpr ⟨hproto, hkey⟩), if_neg Bool.false_ne_true]
        rfl

/-- **Redacting is masking**, with as many levels as there are left. -/
theorem redact_eq_mask (h : value.Distinct) : redact value depth = Tree.mask policy (9 - depth) value := by
  generalize hn : 9 - depth = n
  induction n generalizing value depth with
  | zero =>
    rw [redact.eq_def, if_pos (by omega)]
    rfl
  | succ n ih =>
    rw [redact.eq_def, if_neg (by omega)]
    cases value with
    | leaf l => rfl
    | list items =>
      refine congrArg Tree.list ?_
      rw [redactItems_eq]
      exact List.map_congr_left fun item hitem => ih (h.item hitem) (by omega)
    | record entries =>
      refine congrArg Tree.record ?_
      rw [redactEntries_eq fun e he => ih (h.field he) (by omega)]
      · rfl
      · exact h.keys

end Mask

/-! ## What is promised -/

/-- A value of JSON: no object has a key twice. -/
structure Json (N : Type) where
  value : Value N
  distinct : value.Distinct

section Faithful

variable {N : Type}

/-- Alike except under sensitive keys and below the depth bound. -/
def Alike (a b : Value N) : Prop := Tree.Alike (fun key => !isSensitiveKey key) 9 a b

/-- No key is sensitive, and the depth is within the bound. -/
def Plain (a : Value N) : Prop :=
  (∀ key, a.HasKey key → isSensitiveKey key = false) ∧ a.Within 9

/-- What is alike is logged alike. -/
theorem redact_alike {a b : Json N} (h : Alike a.value b.value) :
    redact a.value 0 = redact b.value 0 := by
  rw [redact_eq_mask a.distinct, redact_eq_mask b.distinct]
  refine Tree.mask_congr ?_ h
  intro key hkey
  rw [(fate_kept.mp hkey).2]
  rfl

/-- And twice is once. -/
theorem redact_redact (a : Json N) : redact (redact a.value 0) 0 = redact a.value 0 := by
  have hmask : redact a.value 0 = _ := redact_eq_mask a.distinct
  rw [hmask, redact_eq_mask a.distinct.mask]
  exact Tree.mask_mask

/-- What is plain is logged as it is, unless there is an entry to lose. -/
theorem redact_eq_self_iff {a : Json N} (h : Plain a.value) :
    redact a.value 0 = a.value ↔ ¬ a.value.HasKey "__proto__" := by
  obtain ⟨hplain, hroom⟩ := h
  rw [redact_eq_mask a.distinct]
  constructor
  · intro heq hproto
    rw [← heq] at hproto
    exact Tree.fate_of_hasKey hproto (fate_lost.mpr rfl)
  · intro hproto
    refine Tree.mask_eq_self hroom fun key hkey => fate_kept.mpr ⟨?_, hplain key hkey⟩
    intro h
    exact hproto (h ▸ hkey)

/-- What is not shown has no part in the result, what is plain is unchanged, and redacting
again changes nothing. -/
def Faithful (a : Json N) : Prop :=
  (∀ b : Json N, Alike a.value b.value → redact a.value 0 = redact b.value 0) ∧
    (Plain a.value → redact a.value 0 = a.value) ∧
    redact (redact a.value 0) 0 = redact a.value 0

/-- **What `redact` promises holds of all values but the plain ones that have an entry named
`__proto__`**, and that entry is lost. -/
theorem redaction_iff (a : Json N) : Faithful a ↔ (Plain a.value → ¬ a.value.HasKey "__proto__") := by
  constructor
  · intro ⟨_, hself, _⟩ hplain
    exact (redact_eq_self_iff hplain).mp (hself hplain)
  · intro h
    exact ⟨fun _ => redact_alike, fun hplain => (redact_eq_self_iff hplain).mpr (h hplain),
      redact_redact a⟩

end Faithful

/-- What `JSON.parse` makes of `{"__proto__": true}`. -/
def protoEntry : Json Nat where
  value := .record [("__proto__", .leaf (.bool true))]
  distinct := by
    refine Tree.distinct_record (by simp) fun e he => ?_
    obtain rfl := List.mem_singleton.mp he
    exact Tree.distinct_leaf

theorem proto_lost : ¬ ∀ a : Json Nat, Faithful a := by
  intro h
  have hkeys : ∀ key, protoEntry.value.HasKey key → key = "__proto__" := by
    intro key hkey
    obtain ⟨e, he, hk⟩ := Tree.hasKey_record.mp hkey
    obtain rfl := List.mem_singleton.mp he
    rcases hk with hk | hk
    · exact hk.symm
    · exact absurd hk Tree.not_hasKey_leaf
  have hplain : Plain protoEntry.value := by
    constructor
    · intro key hkey
      rw [hkeys key hkey]
      decide +kernel
    · intro e he
      obtain rfl := List.mem_singleton.mp he
      trivial
  cases (h protoEntry).2.1 hplain

end Observability

end CloudWai
