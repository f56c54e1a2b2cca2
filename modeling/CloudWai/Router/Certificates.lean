import CloudWai.Base.Interleave
import CloudWai.Base.Table
import CloudWai.Router.Server

/-!
# Where a certificate ends up

`ensureCertificate` takes the route of a host, waits for the authority, and writes
the certificate on what it took. Meanwhile the admin API may have put another object
in its place: a `PUT` copies the route, and a `DELETE` lets it go. "The cert lands on
the route when it is ready": it lands on the object it was ordered for, and
`settled_iff` says that it is served from then on exactly if that object is still the
host's route, or the host has none.

Routes are objects here, and a host has a reference. A certificate is known by the
number it was issued under; the PEM texts and the key go with it.

Mirrors `contextFor`, `ensureCertificate` and the renewal loop of
`infra/deployment/router-server.mjs`. What the authority gives for an order is settled
outside.
-/

namespace CloudWai.Router

open Base

/-! ## Memory -/

/-- `certPem`, `keyPem` and `notAfter`, which are always written together. -/
structure Certificate where
  serial : Nat
  notAfter : Int
deriving DecidableEq, Repr

/-- A route as an object. -/
structure RouteObject where
  upstream : Text
  auto : Bool
  cert : Option Certificate
  lastError : Option String
deriving DecidableEq, Repr

/-- The objects, and `state.routes`: a reference for a host. No two hosts share an
object, and a number is issued once. -/
structure Memory where
  now : Int
  objects : List RouteObject
  routes : Table (Prod.fst : String × Nat → String)
  issued : Nat
  there : ∀ r ∈ routes, r.2 < objects.length
  apart : ∀ r ∈ routes, ∀ r' ∈ routes, r.2 = r'.2 → r = r'
  fresh : ∀ o ∈ objects, ∀ c ∈ o.cert, c.serial < issued

namespace Memory

variable (w : Memory)

/-- `state.routes[host]`, as a reference. -/
def ref (host : String) : Option Nat := (w.routes.find host).map (·.2)

/-- `state.routes[host]` -/
def route (host : String) : Option RouteObject := (w.ref host).bind fun r => w.objects[r]?

/-- `contextFor`: the certificate a host is served with; `none` is the fallback. -/
def contextFor (host : String) : Option Certificate := (w.route host).bind (·.cert)

theorem ref_eq_some {host : String} {r : Nat} : w.ref host = some r ↔ (host, r) ∈ w.routes := by
  unfold ref
  rw [Option.map_eq_some_iff]
  constructor
  · rintro ⟨p, hp, rfl⟩
    obtain ⟨hmem, rfl⟩ := Table.mem_of_find hp
    exact hmem
  · intro hmem
    exact ⟨_, Table.find_eq_some.mpr ⟨hmem, rfl⟩, rfl⟩

theorem ref_lt {host : String} {r : Nat} (h : w.ref host = some r) : r < w.objects.length :=
  w.there _ (w.ref_eq_some.mp h)

/-- An object is the route of one host. -/
theorem ref_inj {host host' : String} {r : Nat} (h : w.ref host = some r)
    (h' : w.ref host' = some r) : host = host' :=
  congrArg Prod.fst (w.apart _ (w.ref_eq_some.mp h) _ (w.ref_eq_some.mp h') rfl)

/-- `state.routes[host] = { ...existing, upstream, tls, lastError: null }` -/
def publish (host : String) (upstream : Text) (auto : Bool) : Memory where
  now := w.now
  objects := w.objects ++ [⟨upstream, auto, w.contextFor host, none⟩]
  routes := w.routes.put (host, w.objects.length)
  issued := w.issued
  there r hr := by
    have hfind := Table.find_eq_some.mpr ⟨hr, rfl⟩
    rw [Table.find_put] at hfind
    rw [List.length_append, List.length_singleton]
    split at hfind
    · obtain rfl := Option.some.inj hfind
      exact Nat.lt_succ_self _
    · exact Nat.lt_succ_of_lt (w.there _ (Table.mem_of_find hfind).1)
  apart r hr r' hr' hsame := by
    have hfind := Table.find_eq_some.mpr ⟨hr, rfl⟩
    have hfind' := Table.find_eq_some.mpr ⟨hr', rfl⟩
    rw [Table.find_put] at hfind hfind'
    split at hfind
    · obtain rfl := Option.some.inj hfind
      split at hfind'
      · exact Option.some.inj hfind'
      · have := w.there _ (Table.mem_of_find hfind').1
        omega
    · have hmem := (Table.mem_of_find hfind).1
      split at hfind'
      · obtain rfl := Option.some.inj hfind'
        have := w.there _ hmem
        omega
      · exact w.apart _ hmem _ (Table.mem_of_find hfind').1 hsame
  fresh o ho c hc := by
    rcases List.mem_append.mp ho with hold | hnew
    · exact w.fresh o hold c hc
    · obtain rfl := List.mem_singleton.mp hnew
      obtain ⟨o', ho', hc'⟩ := Option.bind_eq_some_iff.mp hc
      obtain ⟨r, _, hget⟩ := Option.bind_eq_some_iff.mp ho'
      exact w.fresh o' (List.mem_of_getElem? hget) c hc'

/-- `delete state.routes[host]` -/
def withdraw (host : String) : Memory :=
  { w with
    routes := w.routes.delete fun r => r.1 == host
    there := fun r hr => w.there r (Table.mem_delete.mp hr).1
    apart := fun r hr r' hr' => w.apart r (Table.mem_delete.mp hr).1 r' (Table.mem_delete.mp hr').1 }

/-- Write on an object; the certificate, where there is one, is a new one. -/
def attach (r : Nat) (notAfter : Int) : Memory :=
  { w with
    objects := w.objects.modify r fun o =>
      { o with cert := some ⟨w.issued, notAfter⟩, lastError := none }
    issued := w.issued + 1
    there := fun p hp => by
      rw [List.length_modify]
      exact w.there p hp
    fresh := fun o ho c hc => by
      obtain ⟨i, hi⟩ := List.mem_iff_getElem?.mp ho
      rw [List.getElem?_modify] at hi
      obtain ⟨o', ho', rfl⟩ := Option.map_eq_some_iff.mp hi
      split at hc
      · obtain rfl := Option.some.inj hc
        exact Nat.lt_succ_self _
      · exact Nat.lt_succ_of_lt (w.fresh o' (List.mem_of_getElem? ho') c hc) }

/-- `route.lastError = reason` -/
def complain (r : Nat) (reason : String) : Memory :=
  { w with
    objects := w.objects.modify r fun o => { o with lastError := some reason }
    there := fun p hp => by
      rw [List.length_modify]
      exact w.there p hp
    fresh := fun o ho c hc => by
      obtain ⟨i, hi⟩ := List.mem_iff_getElem?.mp ho
      rw [List.getElem?_modify] at hi
      obtain ⟨o', ho', rfl⟩ := Option.map_eq_some_iff.mp hi
      split at hc <;> exact w.fresh o' (List.mem_of_getElem? ho') c hc }

end Memory

/-! ## Tasks -/

/-- What runs between two awaits. -/
inductive TlsCall where
  /-- The synchronous half of a `PUT`, its input checked. -/
  | publish (host : String) (upstream : Text) (auto : Bool)
  | withdraw (host : String)
  | saveState
  /-- `ensureCertificate` up to the order: the object it orders for. -/
  | ensure (host : String)
  /-- `Object.keys(state.routes)` -/
  | hosts
  /-- The loop's own look at a host, and `ensureCertificate` up to the order. -/
  | renewal (host : String)
  /-- The order, and what its answer does to the object. -/
  | obtain (host : String) (route : Nat)
deriving DecidableEq, Repr

abbrev TlsCall.Ans : TlsCall → Type
  | .ensure _ => Option Nat
  | .renewal _ => Option Nat
  | .hosts => List String
  | _ => Unit

/-- A program over the router's routes. -/
abbrev TlsProg (α : Type) := Prog TlsCall TlsCall.Ans String α

/-- `ensureCertificate` -/
def ensureCertificate (host : String) : TlsProg Unit :=
  (Prog.call (TlsCall.ensure host)).bind fun
  | none => .ret ()
  | some route =>
    (Prog.call (TlsCall.obtain host route)).bind fun _ => Prog.call TlsCall.saveState

/-- `PUT /routes`; the certificate is seen to in the background. -/
def publishRoute (host : String) (upstream : Text) (auto : Bool) : TlsProg Unit :=
  (Prog.call (TlsCall.publish host upstream auto)).bind fun _ =>
  (Prog.call TlsCall.saveState).bind fun _ =>
  if auto then ensureCertificate host else .ret ()

/-- `DELETE /routes/:host` -/
def withdrawRoute (host : String) : TlsProg Unit :=
  (Prog.call (TlsCall.withdraw host)).bind fun _ => Prog.call TlsCall.saveState

/-- The rest of a round of renewals. -/
def renewHosts : List String → TlsProg Unit
  | [] => .ret ()
  | host :: hosts =>
    (Prog.call (TlsCall.renewal host)).bind fun
    | none => renewHosts hosts
    | some route =>
      (Prog.call (TlsCall.obtain host route)).bind fun _ =>
      (Prog.call TlsCall.saveState).bind fun _ => renewHosts hosts

/-- `renewLoop` -/
def renewLoop : TlsProg Unit := (Prog.call TlsCall.hosts).bind renewHosts

/-- What is called from outside, and runs as a thread. -/
inductive TlsTask where
  | put (host : String) (upstream : Text) (auto : Bool)
  | delete (host : String)
  | renew
deriving DecidableEq, Repr

/-- The program of a task. -/
def TlsTask.body : TlsTask → TlsProg Unit
  | .put host upstream auto => publishRoute host upstream auto
  | .delete host => withdrawRoute host
  | .renew => renewLoop

/-! ## The router -/

/-- What `obtainCertificate` comes to. -/
inductive Issuance where
  | issued (notAfter : Int)
  | failed (reason : String)
deriving DecidableEq, Repr

/-- What the certificate authority and the disk do. -/
structure TlsOracle where
  issuance : Issuance
  /-- The state could be written. -/
  written : Bool

/-- A certificate is to be had: there is none, or it runs out within the window. -/
def RouteObject.due (window now : Int) (o : RouteObject) : Bool :=
  o.auto && !(o.cert.any fun c => decide (window < c.notAfter - now))

/-- One stretch between two awaits. -/
def Memory.perform (window : Int) (w : Memory) (o : TlsOracle) :
    (c : TlsCall) → Except String c.Ans × Memory
  | .publish host upstream auto => (.ok (), w.publish host upstream auto)
  | .withdraw host => (.ok (), w.withdraw host)
  | .saveState => (if o.written then .ok () else .error "EACCES", w)
  | .ensure host =>
    (.ok ((w.ref host).filter fun _ => (w.route host).any (·.due window w.now)), w)
  | .hosts => (.ok (w.routes.rows.map (·.1)), w)
  | .renewal host =>
    -- a host withdrawn since the round began has no `tls` to look at
    (if (w.ref host).isNone then .error "TypeError"
      else .ok ((w.ref host).filter fun _ => (w.route host).any (·.due window w.now)), w)
  | .obtain _ route =>
    (.ok (), match o.issuance with
      | .issued notAfter => w.attach route notAfter
      | .failed reason => w.complain route reason)

/-- The admin API and the renewals; what drifts is the clock. -/
def tlsHost (window : Int) : Host Memory TlsOracle Nat TlsTask TlsCall TlsCall.Ans String where
  perform := Memory.perform window
  drift w ms := { w with now := w.now + ms }
  body := TlsTask.body

/-- The routes with the requests and orders that run over them. -/
abbrev TlsSys := Sys Memory TlsTask TlsCall TlsCall.Ans String

abbrev TlsMove := Move TlsTask TlsOracle Nat

/-! ## What is asked of a step -/

/-- The host a certificate comes for in this step. -/
def issuing (s : TlsSys) : TlsMove → Option (String × Nat)
  | .exec tid o =>
    match s.pending tid, o.issuance with
    | some (.obtain host route), .issued _ => some (host, route)
    | _, _ => none
  | _ => none

/-- The host whose route is deleted in this step. -/
def withdrawing (s : TlsSys) : TlsMove → Option String
  | .exec tid _ =>
    match s.pending tid with
    | some (.withdraw host) => some host
    | _ => none
  | _ => none

/-- A certificate that comes is served from then on if its host has a route, and gives
the host none if it has not; no other step, a `DELETE` of the host apart, changes what
a host is served with. -/
structure Settled (window : Int) (s : TlsSys) (l : TlsMove) : Prop where
  served : ∀ host route, issuing s l = some (host, route) → s.world.ref host ≠ none →
    ∃ c, ((tlsHost window).step s l).world.contextFor host = some c ∧ c.serial = s.world.issued
  deleted : ∀ host route, issuing s l = some (host, route) → s.world.ref host = none →
    ((tlsHost window).step s l).world.ref host = none
  kept : ∀ host, (issuing s l).map Prod.fst ≠ some host → withdrawing s l ≠ some host →
    ((tlsHost window).step s l).world.contextFor host = s.world.contextFor host

/-- A certificate comes for the object that is still its host's route, or for a host
without one. -/
def Unreplaced (s : TlsSys) (l : TlsMove) : Prop :=
  ∀ p ∈ issuing s l, s.world.ref p.1 = none ∨ s.world.ref p.1 = some p.2

instance (s : TlsSys) (l : TlsMove) : Decidable (Unreplaced s l) :=
  inferInstanceAs (Decidable (∀ p ∈ _, _))

/-! ## Which order a thread waits for -/

/-- The order in progress: the host, and the object it was begun with. -/
def orderNext (x : Option (String × Nat)) : (c : TlsCall) → Except String c.Ans →
    Option (Option (String × Nat))
  | .ensure host, .ok (some route) => some (some (host, route))
  | .renewal host, .ok (some route) => some (some (host, route))
  | .obtain host route, _ => if x = some (host, route) then some none else none
  | _, _ => some x

/-- A thread that orders a certificate knows for which host, and of which route object. -/
def orderProtocol : Protocol TlsCall TlsCall.Ans String (Option (String × Nat)) where
  next := orderNext
  Possible _ _ := True

def orderDuty : Duty TlsTask TlsCall TlsCall.Ans String (Option (String × Nat)) where
  protocol := orderProtocol
  first _ := none
  ends _ _ _ := True

section Follows

variable {α : Type} {x : Option (String × Nat)}

/-- Whatever the outcome and the stage. -/
abbrev Orders (x : Option (String × Nat)) (p : TlsProg α) : Prop :=
  orderProtocol.Follows (fun _ _ => True) x p

theorem orders_call {c : TlsCall} {k : c.Ans → TlsProg α}
    (h : ∀ r, ∃ y, orderNext x c r = some y ∧ ∀ a, r = .ok a → Orders y (k a)) :
    Orders x ((Prog.call c).bind k) := by
  intro r _
  obtain ⟨y, hy, hk⟩ := h r
  refine ⟨y, hy, ?_⟩
  cases r with
  | ok a => exact hk a rfl
  | error e => trivial

theorem orders_save : Orders x (Prog.call TlsCall.saveState) := by
  intro r _
  refine ⟨x, rfl, ?_⟩
  cases r <;> trivial

theorem orders_obtain {host : String} {route : Nat} {k : Unit → TlsProg α}
    (h : Orders none (k ())) :
    Orders (some (host, route)) ((Prog.call (TlsCall.obtain host route)).bind k) :=
  orders_call fun _ => ⟨none, if_pos rfl, fun _ _ => h⟩

theorem orders_ensure (host : String) : Orders x (ensureCertificate host) := by
  refine orders_call fun r => ?_
  rcases r with e | found
  · exact ⟨x, rfl, fun _ h => by cases h⟩
  rcases found with _ | route
  · exact ⟨x, rfl, fun _ h => by cases h; trivial⟩
  · refine ⟨some (host, route), rfl, fun _ h => ?_⟩
    cases h
    exact orders_obtain orders_save

theorem orders_renew (hosts : List String) : Orders x (renewHosts hosts) := by
  induction hosts generalizing x with
  | nil => trivial
  | cons host hosts ih =>
    refine orders_call fun r => ?_
    rcases r with e | found
    · exact ⟨x, rfl, fun _ h => by cases h⟩
    rcases found with _ | route
    · refine ⟨x, rfl, fun _ h => ?_⟩
      cases h
      exact ih
    · refine ⟨some (host, route), rfl, fun _ h => ?_⟩
      cases h
      exact orders_obtain (orders_call fun _ => ⟨none, rfl, fun _ _ => ih⟩)

/-- **Every task** writes on the object it ordered for. -/
theorem task_orders (window : Int) (t : TlsTask) :
    orderDuty.protocol.Follows (orderDuty.ends t) (orderDuty.first t) ((tlsHost window).body t) := by
  show Orders none t.body
  cases t with
  | put host upstream auto =>
    refine orders_call fun _ => ⟨none, rfl, fun _ _ => ?_⟩
    refine orders_call fun _ => ⟨none, rfl, fun _ _ => ?_⟩
    split
    · exact orders_ensure host
    · trivial
  | delete host => exact orders_call fun _ => ⟨none, rfl, fun _ _ => orders_save⟩
  | renew => exact orders_call fun _ => ⟨none, rfl, fun hosts _ => orders_renew hosts⟩

end Follows

/-! ## What each stretch does -/

section Stretches

variable {w : Memory} {host host' : String} {route : Nat}

theorem ref_publish {upstream : Text} {auto : Bool} :
    (w.publish host upstream auto).ref host' =
      if host' = host then some w.objects.length else w.ref host' := by
  unfold Memory.ref
  show ((w.routes.put (host, w.objects.length)).find host').map _ = _
  rw [Table.find_put]
  split <;> rfl

theorem ref_withdraw : (w.withdraw host).ref host' = if host' = host then none else w.ref host' := by
  unfold Memory.ref
  show ((w.routes.delete fun r => r.1 == host).find host').map _ = _
  rw [Table.find_delete]
  cases hfind : w.routes.find host' with
  | none =>
    split <;> rfl
  | some r =>
    have hkey : r.1 = host' := (Table.mem_of_find hfind).2
    by_cases hsame : host' = host
    · rw [if_pos hsame]
      simp [Option.filter, hkey, hsame]
    · rw [if_neg hsame]
      simp [Option.filter, hkey, hsame]

/-- Publishing copies the certificate. -/
theorem contextFor_publish {upstream : Text} {auto : Bool} :
    (w.publish host upstream auto).contextFor host' = w.contextFor host' := by
  unfold Memory.contextFor Memory.route
  rw [ref_publish]
  split
  next hsame =>
    subst hsame
    show ((w.objects ++ [_])[w.objects.length]?).bind _ = _
    rw [List.getElem?_concat_length]
    rfl
  next =>
    cases href : w.ref host' with
    | none => rfl
    | some r =>
      show ((w.objects ++ [_])[r]?).bind _ = _
      rw [List.getElem?_append_left (w.ref_lt href)]
      rfl

theorem contextFor_withdraw (h : host' ≠ host) :
    (w.withdraw host).contextFor host' = w.contextFor host' := by
  unfold Memory.contextFor Memory.route
  rw [ref_withdraw, if_neg h]
  rfl

theorem contextFor_complain {reason : String} :
    (w.complain route reason).contextFor host = w.contextFor host := by
  unfold Memory.contextFor Memory.route
  show (((w.ref host).bind fun r => (w.objects.modify route _)[r]?).bind _) = _
  cases w.ref host with
  | none => rfl
  | some r =>
    show ((w.objects.modify route _)[r]?).bind _ = (w.objects[r]?).bind _
    rw [List.getElem?_modify]
    cases w.objects[r]? with
    | none => rfl
    | some o =>
      show RouteObject.cert (if _ then _ else _) = _
      split <;> rfl

/-- A certificate is read where its object is a host's route, and nowhere else. -/
theorem contextFor_attach {notAfter : Int} : (w.attach route notAfter).contextFor host =
    if w.ref host = some route then some ⟨w.issued, notAfter⟩ else w.contextFor host := by
  unfold Memory.contextFor Memory.route
  show (((w.ref host).bind fun r => (w.objects.modify route _)[r]?).bind _) = _
  cases href : w.ref host with
  | none => rfl
  | some r =>
    show ((w.objects.modify route _)[r]?).bind _ =
      if some r = some route then _ else (w.objects[r]?).bind _
    rw [List.getElem?_modify, List.getElem?_eq_getElem (w.ref_lt href)]
    by_cases hsame : r = route
    · rw [if_pos (congrArg some hsame)]
      show RouteObject.cert (if route = r then _ else _) = _
      rw [if_pos hsame.symm]
    · rw [if_neg fun h => hsame (Option.some.inj h)]
      show RouteObject.cert (if route = r then _ else _) = _
      rw [if_neg fun h => hsame h.symm]
      rfl

/-- What a host is served with was issued. -/
theorem serial_lt {c : Certificate} (h : w.contextFor host = some c) : c.serial < w.issued := by
  obtain ⟨o, ho, hc⟩ := Option.bind_eq_some_iff.mp h
  obtain ⟨r, _, hget⟩ := Option.bind_eq_some_iff.mp ho
  exact w.fresh o (List.mem_of_getElem? hget) c hc

/-- The object is no route but the host's. -/
structure Owned (w : Memory) (p : String × Nat) : Prop where
  there : p.2 < w.objects.length
  only : ∀ host, w.ref host = some p.2 → host = p.1

theorem owned_of_ref (h : w.ref host = some route) : Owned w (host, route) where
  there := w.ref_lt h
  only _ h' := w.ref_inj h' h

/-- **No stretch** makes another host's route of an object. -/
theorem owned_perform {window : Int} {o : TlsOracle} {c : TlsCall} {p : String × Nat}
    (h : Owned w p) : Owned (w.perform window o c).2 p := by
  cases c with
  | publish host upstream auto =>
    constructor
    · show p.2 < (w.objects ++ [_]).length
      rw [List.length_append]
      exact Nat.lt_add_right _ h.there
    · intro host' href
      replace href : (w.publish host upstream auto).ref host' = some p.2 := href
      rw [ref_publish] at href
      split at href
      · have := h.there
        have := Option.some.inj href
        omega
      · exact h.only _ href
  | withdraw host =>
    refine ⟨h.there, fun host' href => ?_⟩
    replace href : (w.withdraw host).ref host' = some p.2 := href
    rw [ref_withdraw] at href
    split at href
    · cases href
    · exact h.only _ href
  | obtain host route =>
    unfold Memory.perform
    dsimp only
    split
    · refine ⟨?_, h.only⟩
      show p.2 < (w.objects.modify _ _).length
      rw [List.length_modify]
      exact h.there
    · refine ⟨?_, h.only⟩
      show p.2 < (w.objects.modify _ _).length
      rw [List.length_modify]
      exact h.there
  | _ => exact h

/-- An order that begins is for a host's own route. -/
theorem owned_begun {window : Int} {o : TlsOracle} {c : TlsCall} {x : Option (String × Nat)}
    {p : String × Nat} (hx : ∀ p ∈ x, Owned w p)
    (h : orderNext x c (w.perform window o c).1 = some (some p)) :
    Owned (w.perform window o c).2 p := by
  have hstays : x = some p → Owned (w.perform window o c).2 p := fun hp => owned_perform (hx p hp)
  cases c with
  | ensure host =>
    cases hr : (w.ref host).filter fun _ => (w.route host).any (·.due window w.now) with
    | none =>
      replace h : orderNext x (.ensure host) (.ok _) = some (some p) := h
      rw [hr] at h
      exact hstays (Option.some.inj h)
    | some route =>
      replace h : orderNext x (.ensure host) (.ok _) = some (some p) := h
      rw [hr] at h
      obtain rfl := Option.some.inj (Option.some.inj h)
      exact owned_of_ref (Option.filter_eq_some_iff.mp hr).1
  | renewal host =>
    replace h : orderNext x (.renewal host) (if (w.ref host).isNone then .error "TypeError"
      else .ok ((w.ref host).filter fun _ => (w.route host).any (·.due window w.now))) =
        some (some p) := h
    split at h
    · exact hstays (Option.some.inj h)
    cases hr : (w.ref host).filter fun _ => (w.route host).any (·.due window w.now) with
    | none =>
      rw [hr] at h
      exact hstays (Option.some.inj h)
    | some route =>
      rw [hr] at h
      obtain rfl := Option.some.inj (Option.some.inj h)
      exact owned_of_ref (Option.filter_eq_some_iff.mp hr).1
  | obtain host route =>
    replace h : (if x = some (host, route) then some none else none) = some (some p) := h
    split at h <;> cases h
  | _ => exact hstays (Option.some.inj h)

end Stretches

/-! ## Runs -/

section Runs

variable {window : Int} {s : TlsSys}

/-- The order thread `tid` waits for. -/
def orderOf (s : TlsSys) (tid : Nat) : Option (Option (String × Nat)) :=
  s.stage orderDuty.protocol orderDuty.first tid

/-- What carries the proof: an order's object is a route of its host or of none. -/
structure Placed (s : TlsSys) : Prop where
  sane : s.Sane
  typed : s.Typed orderDuty
  owned : ∀ tid x, orderOf s tid = some x → ∀ p ∈ x, Owned s.world p

theorem tls_answers (window : Int) (w : Memory) : (tlsHost window).Answers orderDuty w :=
  fun _ _ => trivial

theorem placed_start (w : Memory) : Placed (Sys.start w) where
  sane := sane_start _
  typed := typed_start _ _
  owned _ _ hx := by cases hx

/-- A step that is no call leaves the memory, but for the clock. -/
theorem silent_memory {l : TlsMove} (h : Silent (tlsHost window) orderDuty s l) :
    ∃ now, ((tlsHost window).step s l).world = { s.world with now := now } := by
  rcases h.world with hw | ⟨ms, hw⟩
  · exact ⟨s.world.now, hw⟩
  · exact ⟨s.world.now + ms, hw⟩

/-- **Step.** Every order keeps to its host. -/
theorem placed_step (h : Placed s) (l : TlsMove) : Placed ((tlsHost window).step s l) := by
  refine ⟨sane_step _ h.sane l, ?_, ?_⟩
  · exact typed_step (task_orders window) (tls_answers window s.world) h.typed l
  intro tid x hx p hp
  rcases step_cases h.sane h.typed (tls_answers window s.world) l with
    hs | ⟨tid', o, c, y, y', rfl, hc⟩
  · rcases hs.stage tid x hx with hwas | ⟨_, _, rfl⟩
    · obtain ⟨now, hw⟩ := silent_memory hs
      rw [hw]
      obtain ⟨hthere, honly⟩ := h.owned tid x hwas p hp
      exact ⟨hthere, honly⟩
    · cases hp
  · rw [hc.world]
    rcases hc.stage_after hx with ⟨_, rfl⟩ | ⟨_, hwas⟩
    · obtain rfl : x = some p := hp
      exact owned_begun (h.owned tid' y hc.was) hc.moves
    · exact owned_perform (h.owned tid x hwas p hp)

/-- A step that is no call issues nothing, and withdraws nothing. -/
theorem silent_idle {l : TlsMove} (h : Silent (tlsHost window) orderDuty s l) :
    issuing s l = none ∧ withdrawing s l = none := by
  cases l with
  | exec tid o =>
    have hnone := h.idle tid o rfl
    unfold issuing withdrawing
    dsimp only
    rw [hnone]
    exact ⟨rfl, rfl⟩
  | _ => exact ⟨rfl, rfl⟩

/-- **One step** settles a certificate exactly if it finds its route in place. -/
theorem settled_step_iff (h : Placed s) (l : TlsMove) : Settled window s l ↔ Unreplaced s l := by
  rcases step_cases h.sane h.typed (tls_answers window s.world) l with
    hs | ⟨tid, o, c, x, x', rfl, hc⟩
  · obtain ⟨hissue, hwithdraw⟩ := silent_idle hs
    obtain ⟨now, hw⟩ := silent_memory hs
    unfold Unreplaced
    rw [hissue]
    refine iff_of_true ⟨?_, ?_, ?_⟩ (fun _ hp => by cases hp)
    · intro host route hi
      rw [hissue] at hi
      cases hi
    · intro host route hi
      rw [hissue] at hi
      cases hi
    · intro host _ _
      rw [hw]
      rfl
  -- nothing comes in a call that is no order's end
  have hquiet : issuing s (.exec tid o) = none →
      (∀ host, withdrawing s (.exec tid o) ≠ some host →
        (s.world.perform window o c).2.contextFor host = s.world.contextFor host) →
      (Settled window s (.exec tid o) ↔ Unreplaced s (.exec tid o)) := by
    intro hissue hkept
    unfold Unreplaced
    rw [hissue]
    refine iff_of_true ⟨?_, ?_, ?_⟩ (fun _ hp => by cases hp)
    · intro host route hi
      rw [hissue] at hi
      cases hi
    · intro host route hi
      rw [hissue] at hi
      cases hi
    · intro host _ hout
      rw [hc.world]
      exact hkept host hout
  have hissuing : ∀ q, s.pending tid = some q → issuing s (.exec tid o) =
      match some q, o.issuance with
      | some (.obtain host route), .issued _ => some (host, route)
      | _, _ => none := by
    intro q hq
    unfold issuing
    dsimp only
    rw [hq]
  cases c with
  | publish host upstream auto =>
    refine hquiet (hissuing _ hc.pending) fun host' _ => ?_
    exact contextFor_publish
  | withdraw host =>
    refine hquiet (hissuing _ hc.pending) fun host' hout => ?_
    refine contextFor_withdraw ?_
    rintro rfl
    refine hout ?_
    unfold withdrawing
    dsimp only
    rw [hc.pending]
  | obtain host route =>
    cases ho : o.issuance with
    | failed reason =>
      refine hquiet ?_ fun host' _ => ?_
      · rw [hissuing _ hc.pending, ho]
      · unfold Memory.perform
        dsimp only
        rw [ho]
        exact contextFor_complain
    | issued notAfter =>
      have hissue : issuing s (.exec tid o) = some (host, route) := by
        rw [hissuing _ hc.pending, ho]
      have hworld : ((tlsHost window).step s (.exec tid o)).world = s.world.attach route notAfter := by
        rw [hc.world]
        show (match o.issuance with | .issued n => _ | .failed _ => _) = _
        rw [ho]
      have hmoves : (if x = some (host, route) then some none else none) = some x' := hc.moves
      have hown : Owned s.world (host, route) := by
        split at hmoves
        next hx => exact h.owned tid x hc.was _ hx
        next => cases hmoves
      constructor
      · intro hsettled p hp
        obtain rfl := Option.some.inj (hissue.symm.trans hp)
        by_contra hnot
        rw [not_or] at hnot
        obtain ⟨cert, hcert, hserial⟩ := hsettled.served host route hissue hnot.1
        rw [hworld, contextFor_attach, if_neg hnot.2] at hcert
        have := serial_lt hcert
        omega
      · intro hplace
        have hhere : s.world.ref host = none ∨ s.world.ref host = some route := hplace _ hissue
        refine ⟨?_, ?_, ?_⟩
        · intro host' route' hi hthere
          obtain ⟨rfl, rfl⟩ := Prod.mk.inj (Option.some.inj (hissue.symm.trans hi))
          refine ⟨⟨s.world.issued, notAfter⟩, ?_, rfl⟩
          rw [hworld, contextFor_attach, if_pos (hhere.resolve_left hthere)]
        · intro host' route' hi hgone
          rw [hworld]
          exact hgone
        · intro host' hother _
          rw [hworld, contextFor_attach, if_neg]
          intro hsame
          refine hother ?_
          rw [hissue, hown.only host' hsame]
          rfl
  | saveState => exact hquiet (hissuing _ hc.pending) fun _ _ => rfl
  | ensure host => exact hquiet (hissuing _ hc.pending) fun _ _ => rfl
  | hosts => exact hquiet (hissuing _ hc.pending) fun _ _ => rfl
  | renewal host => exact hquiet (hissuing _ hc.pending) fun _ _ => rfl

end Runs

/-- **Run.** In a run of the admin API and the renewals every certificate ends up on
its host's route, if it has one, and stays there until the next or the route's end,
exactly if each comes for the object that is still the route, or for a host without. -/
theorem settled_iff (window : Int) (w : Memory) (ls : List TlsMove) :
    EachStep (tlsHost window).step (Settled window) (Sys.start w) ls ↔
      EachStep (tlsHost window).step Unreplaced (Sys.start w) ls :=
  eachStep_iff (placed_start w) (fun _ l h _ => placed_step h l) fun _ l h => settled_step_iff h l

/-! A route that is published twice. -/

/-- A router that has just started. -/
def noRoutes : Memory where
  now := 0
  objects := []
  routes := Table.empty
  issued := 0
  there _ h := by cases h
  apart _ h := by cases h
  fresh _ h := by cases h

/-- Nothing goes wrong. -/
def calm : TlsOracle := ⟨.issued 7776000000, true⟩

def shopHost : String := "shop.example.com"

/-- A route is published and its certificate ordered; before it comes, the route is
published again, with another upstream. -/
def beforeArrival : List TlsMove :=
  [.spawn (.put shopHost "http://127.0.0.1:3000".toList true), .exec 0 calm, .exec 0 calm,
    .exec 0 calm, .spawn (.put shopHost "http://127.0.0.1:3001".toList true), .exec 1 calm]

/-- The certificate is written on the route that was replaced. -/
theorem certificate_stray :
    ¬ EachStep (tlsHost 2592000000).step (Settled 2592000000) (Sys.start noRoutes)
      (beforeArrival ++ [.exec 0 calm]) := by
  intro h
  have hissue : issuing (runFrom (tlsHost 2592000000).step (Sys.start noRoutes) beforeArrival)
      (.exec 0 calm) = some (shopHost, 0) := by decide +kernel
  have hthere : (runFrom (tlsHost 2592000000).step (Sys.start noRoutes)
      beforeArrival).world.ref shopHost ≠ none := by decide +kernel
  have hfallback : ((tlsHost 2592000000).step (runFrom (tlsHost 2592000000).step
      (Sys.start noRoutes) beforeArrival) (.exec 0 calm)).world.contextFor shopHost = none := by
    decide +kernel
  obtain ⟨c, hc, _⟩ := (EachStep.at h).served shopHost 0 hissue hthere
  rw [hfallback] at hc
  cases hc

end CloudWai.Router
