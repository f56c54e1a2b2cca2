import CloudWai.Base.Machine
import CloudWai.Runtime.Taking

/-!
# Two applications under one hostname

An application's default hostname is a label made of its name, and only where that makes no
label is its id used. Two applications of one name have one hostname, and so have two that
were given one domain: nothing looks for the hostname at another application. The later one
takes the route over, and either one takes it away.

Nor does an operation look again before each of its requests. A hostname that was dropped and
given to another application meanwhile is still withdrawn, or put, by the one that had it.

A step is harmless if what it takes for its application (`FrontSys.takes`) is free: no other
application has it, and no request of another one's for it is outstanding. Runs of such steps
keep the applications apart and the routes of the others as they are (`apart_of_unclaimed`);
that no request of an operation is for what another application has is what carries the
induction (`Parted`).

The operations are those of `infra/deployment/runtime-server.mjs`, as `Front.lean` has
them.
-/

namespace CloudWai.Runtime

open Base Grammar Deployment

variable {config : Config} {f : Front} {o : Front.Luck} {c : Front.Call}

/-! ## The property -/

/-- No two applications have a hostname in common. -/
def Separate (f : Front) : Prop := ∀ i j, i ≠ j → ∀ host ∈ f.hosts i, host ∉ f.hosts j

/-- The application that a move is about. -/
def FrontSys.subject (s : FrontSys) : FrontMove → Option String
  | .exec tid _ => (s.pending tid).map Front.Call.subject
  | .drift k => s.world.late[k]?.map (·.sender)
  | .spawn _ | .crash _ => none

/-- The routes of every other application are as they were. -/
def Undisturbed (config : Config) (s : FrontSys) (l : FrontMove) : Prop :=
  ∀ j, s.subject l ≠ some j → ∀ host ∈ s.world.hosts j,
    ((front config).step s l).world.router.route host = s.world.router.route host

/-! ## The condition -/

/-- The hostnames that the step gives its application. -/
def FrontSys.takes (config : Config) (s : FrontSys) : FrontMove → List String
  | .exec tid o => ((s.pending tid).map (Front.Call.takes config s.world o)).getD []
  | _ => []

/-- No other application has what a move takes; and if its own application is still there,
no request of another one's for it is outstanding. -/
structure Unclaimed (config : Config) (s : FrontSys) (l : FrontMove) : Prop where
  free : ∀ host ∈ s.takes config l, ∀ j, s.subject l ≠ some j → host ∉ s.world.hosts j
  settled : ∀ id, s.subject l = some id → id ∉ s.world.gone →
    ∀ host ∈ s.takes config l, ∀ r ∈ s.outstanding, r.host = host → r.sender = id

/-! ## Programs -/

/-- What a program asks next, and that what it then makes requests for is in the answer. -/
def Foretold : (c : Front.Call) → (Front.Ans c → FrontProg Unit) → Prop
  | .send _, k => ∀ a, owed (k a) = owed (k none)
  | c, k => ∀ a, ∀ r ∈ owed (k a), r.host ∈ c.listed a

/-- A program of one application, all the way. -/
def Announces (id : String) : FrontProg Unit → Prop
  | .await c k =>
    c.subject = id ∧ Foretold c (fun a => k (.ok a)) ∧ ∀ a, Announces id (k (.ok a))
  | _ => True

section Programs

variable {id : String} {p : FrontProg Unit}

theorem owed_sender (h : Announces id p) : ∀ r ∈ owed p, r.sender = id := by
  induction p with
  | ret _ => exact fun r hr => absurd hr List.not_mem_nil
  | raise e => exact fun r hr => absurd hr List.not_mem_nil
  | await c k ih =>
    cases c with
    | send q =>
      intro r hr
      rcases List.mem_cons.mp hr with rfl | hr
      · exact h.1
      · exact ih _ (h.2.2 none) r hr
    | _ => exact fun r hr => absurd hr List.not_mem_nil

/-- The rest of a program after an answer owes what it owed before, or what the answer lists. -/
theorem owed_rest {c : Front.Call} {k : Except Empty (Front.Ans c) → FrontProg Unit}
    (h : Announces id (.await c k)) (a : Front.Ans c) {r : Front.Request}
    (hr : r ∈ owed (k (.ok a))) :
    r ∈ owed (.await c k) ∨ r.sender = c.subject ∧ r.host ∈ c.listed a := by
  have hsender : r.sender = c.subject := (owed_sender (h.2.2 a) r hr).trans h.1.symm
  have hfore := h.2.1
  cases c with
  | send q =>
    left
    rw [hfore a] at hr
    exact List.mem_cons_of_mem _ hr
  | _ => exact .inr ⟨hsender, hfore a r hr⟩

/-- One request for each host, and what follows. -/
theorem putAll_bind (port : Nat) (hosts : List String) {g : List String → FrontProg Unit}
    (hg : ∀ failures, Announces id (g failures) ∧ owed (g failures) = []) :
    Announces id ((putAll id port hosts).bind g) ∧
      owed ((putAll id port hosts).bind g) =
        hosts.map fun host => ⟨id, host, some (routeOn port)⟩ := by
  induction hosts generalizing g with
  | nil => exact hg []
  | cons host hosts ih =>
    have hrest : ∀ reason : Option String,
        let rest := ((putAll id port hosts).bind fun failures =>
          .ret ((reason.map fun r => s!"{host}: {r}").toList ++ failures)).bind g
        Announces id rest ∧
          owed rest = hosts.map fun host => ⟨id, host, some (routeOn port)⟩ := by
      intro reason
      rw [Prog.bind_assoc]
      exact ih fun failures => hg _
    refine ⟨⟨rfl, fun reason => ?_, fun reason => (hrest reason).1⟩, ?_⟩
    · exact (hrest reason).2.trans (hrest none).2.symm
    · exact congrArg _ (hrest none).2

theorem deleteAll_bind (hosts : List String) {g : Unit → FrontProg Unit}
    (hg : Announces id (g ()) ∧ owed (g ()) = []) :
    Announces id ((deleteAll id hosts).bind g) ∧
      owed ((deleteAll id hosts).bind g) = hosts.map fun host => ⟨id, host, none⟩ := by
  induction hosts with
  | nil => exact hg
  | cons host hosts ih => exact ⟨⟨rfl, fun _ => rfl, fun _ => ih.1⟩, congrArg _ ih.2⟩

/-- The same of a publication, which lists its hosts. -/
theorem publishFrom_bind (publication : Publication) {g : Option String → FrontProg Unit}
    (hg : ∀ routeError, Announces id (g routeError) ∧ owed (g routeError) = []) :
    Announces id ((publishFrom id publication).bind g) ∧
      ∀ r ∈ owed ((publishFrom id publication).bind g), r.host ∈ Publication.hosts publication := by
  cases publication with
  | error reason =>
    refine ⟨(hg _).1, fun r hr => ?_⟩
    change r ∈ owed (g (some reason)) at hr
    rw [(hg _).2] at hr
    cases hr
  | ok listed =>
    obtain ⟨port, hosts⟩ := listed
    have hput := @putAll_bind id port hosts
      (fun failures => g (if failures = [] then none else some ("; ".intercalate failures)))
      fun failures => hg _
    unfold publishFrom
    dsimp only
    rw [Prog.bind_assoc]
    refine ⟨hput.1, fun r hr => ?_⟩
    change r ∈ owed ((putAll id port hosts).bind fun failures =>
      g (if failures = [] then none else some ("; ".intercalate failures))) at hr
    rw [hput.2] at hr
    obtain ⟨host, hmem, rfl⟩ := List.mem_map.mp hr
    exact hmem

/-- A call at the end. -/
theorem announces_conclude (attempt : String) (routeError : Option (Option String)) :
    Announces id (Prog.call (Front.Call.conclude id attempt routeError)) ∧
      owed (Prog.call (Front.Call.conclude id attempt routeError)) = [] :=
  ⟨⟨rfl, fun _ _ h => absurd h List.not_mem_nil, fun _ => trivial⟩, rfl⟩

theorem announces_report (routeError : Option String) :
    Announces id (Prog.call (Front.Call.report id routeError)) ∧
      owed (Prog.call (Front.Call.report id routeError)) = [] :=
  ⟨⟨rfl, fun _ _ h => absurd h List.not_mem_nil, fun _ => trivial⟩, rfl⟩

theorem announces_deploy (attempt : String) (row : DeploymentId) :
    Announces id (deployProgram id attempt row) := by
  refine ⟨rfl, fun _ _ h => absurd h List.not_mem_nil,
    fun _ => ⟨rfl, fun a r hr => ?_, fun a => ?_⟩⟩
  · cases a with
    | none => exact absurd hr List.not_mem_nil
    | some publication =>
      exact (publishFrom_bind publication fun _ => announces_conclude _ _).2 r hr
  · cases a with
    | none => exact (announces_conclude _ _).1
    | some publication => exact (publishFrom_bind publication fun _ => announces_conclude _ _).1

/-- A change of domains announces what it drops and what it has then. -/
theorem announces_setDomains (domains : List String) :
    Announces id (setDomainsProgram id domains) := by
  have hpublish : ∀ publication : Publication, _ := fun publication =>
    @publishFrom_bind id publication (fun routeError => Prog.call (Front.Call.report id routeError))
      announces_report
  have hdelete : ∀ removed : List String, _ := fun removed =>
    @deleteAll_bind id removed
      (fun _ => (Prog.call (Front.Call.publishable id)).bind fun publication =>
        (publishFrom id publication).bind fun routeError =>
        Prog.call (Front.Call.report id routeError))
      ⟨⟨rfl, fun a => (hpublish a).2, fun a => (hpublish a).1⟩, rfl⟩
  refine ⟨rfl, ?_, ?_⟩
  · rintro ⟨removed, publication⟩ r hr
    by_cases hremoved : removed = []
    · change r ∈ owed (if _ then _ else _) at hr
      rw [if_pos hremoved] at hr
      exact List.mem_append_right _ ((hpublish publication).2 r hr)
    · change r ∈ owed (if _ then _ else _) at hr
      rw [if_neg hremoved, (hdelete removed).2] at hr
      obtain ⟨host, hmem, rfl⟩ := List.mem_map.mp hr
      exact List.mem_append_left _ hmem
  · rintro ⟨removed, publication⟩
    show Announces id (if _ then _ else _)
    split
    · exact (hpublish publication).1
    · exact (hdelete removed).1

theorem announces_destroy : Announces id (destroyProgram id) := by
  have hforget : Announces id (Prog.call (Front.Call.forget id)) ∧
      owed (Prog.call (Front.Call.forget id)) = [] :=
    ⟨⟨rfl, fun _ _ h => absurd h List.not_mem_nil, fun _ => trivial⟩, rfl⟩
  have hdelete : ∀ hosts : List String, _ := fun hosts =>
    @deleteAll_bind id hosts (fun _ => Prog.call (Front.Call.forget id)) hforget
  refine ⟨rfl, fun _ _ h => absurd h List.not_mem_nil,
    fun _ => ⟨rfl, fun hosts r hr => ?_, fun hosts => ?_⟩⟩
  · change r ∈ owed ((deleteAll id hosts).bind _) at hr
    rw [(hdelete hosts).2] at hr
    obtain ⟨host, hmem, rfl⟩ := List.mem_map.mp hr
    exact hmem
  · exact (hdelete hosts).1

theorem announces_whenFound (h : Announces id p) (howed : owed p = []) :
    Announces id (whenFound id p) := by
  refine ⟨rfl, fun found r hr => ?_, fun found => ?_⟩
  · cases found with
    | false => exact absurd hr List.not_mem_nil
    | true =>
      change r ∈ owed p at hr
      rw [howed] at hr
      cases hr
  · cases found with
    | false => trivial
    | true => exact h

/-- **Every operation** makes requests for its own application alone, and for what it was
answered last. -/
theorem announces_body (t : Front.Task) : (∃ id, Announces id t.body) ∧ owed t.body = [] := by
  cases t with
  | createApp id body domains =>
    exact ⟨⟨id, rfl, fun _ _ h => absurd h List.not_mem_nil, fun _ => trivial⟩, rfl⟩
  | deploy id attempt row =>
    exact ⟨⟨id, announces_whenFound (announces_deploy attempt row) rfl⟩, rfl⟩
  | setDomains id domains =>
    exact ⟨⟨id, announces_whenFound (announces_setDomains domains) rfl⟩, rfl⟩
  | rollback id =>
    refine ⟨⟨id, announces_whenFound ⟨rfl, fun _ _ h => ?_, fun _ => trivial⟩ rfl⟩, rfl⟩
    exact absurd h List.not_mem_nil
  | destroy id => exact ⟨⟨id, announces_whenFound announces_destroy rfl⟩, rfl⟩

end Programs

/-! ## The claim over runs -/

section Runs

variable {s : FrontSys} {l : FrontMove}

/-- No request of an operation is for what another application has. -/
structure Parted (s : FrontSys) : Prop where
  sane : s.Sane
  separate : Separate s.world
  clear : ∀ r ∈ s.outstanding, ∀ j, j ≠ r.sender → r.host ∉ s.world.hosts j
  programs : ∀ tid th, s.live tid = some th → ∃ id, Announces id th.rest

theorem mem_outstanding (hs : s.Sane) {r : Front.Request} : r ∈ s.outstanding ↔
    r ∈ s.world.late ∨ ∃ tid th, s.live tid = some th ∧ r ∈ owed th.rest := by
  unfold FrontSys.outstanding
  rw [List.mem_append, List.mem_flatMap]
  refine or_congr Iff.rfl ⟨?_, ?_⟩
  · rintro ⟨tid, -, hmem⟩
    cases hlive : s.live tid with
    | none =>
      rw [hlive] at hmem
      cases hmem
    | some th =>
      rw [hlive] at hmem
      exact ⟨tid, th, hlive, hmem⟩
  · rintro ⟨tid, th, hlive, hmem⟩
    refine ⟨tid, List.mem_range.mpr ?_, by rw [hlive]; exact hmem⟩
    by_contra hge
    rw [(hs.fresh tid (by omega)).1] at hlive
    cases hlive

theorem parted_initial (router : Router.State) : Parted (Sys.start (Front.initial router)) where
  sane := sane_start _
  separate _ _ _ _ h := nomatch h
  clear r h := by
    rcases (mem_outstanding (sane_start _)).mp h with h | ⟨_, _, h, _⟩ <;> cases h
  programs _ _ h := nomatch h

theorem overtake_hosts (k : Nat) : (f.overtake k).hosts = f.hosts := by
  unfold Front.overtake
  split
  · rfl
  · exact hosts_congr rfl rfl

theorem overtake_late {k : Nat} : ∀ r ∈ (f.overtake k).late, r ∈ f.late := by
  unfold Front.overtake
  split
  · exact fun _ h => h
  · exact fun _ h => List.mem_of_mem_eraseIdx h

/-- What is outstanding after a move was so before, or is listed by it. -/
theorem outstanding_step (h : Parted s) {r : Front.Request}
    (hr : r ∈ FrontSys.outstanding ((front config).step s l)) : r ∈ s.outstanding ∨
      ∃ tid o c, l = .exec tid o ∧ s.pending tid = some c ∧ r.sender = c.subject ∧
        r.host ∈ c.listed (s.world.perform config o c).1 := by
  have hsane := sane_step (front config) h.sane l
  rcases (mem_outstanding hsane).mp hr with hlate | ⟨i, th, hlive, howed⟩
  · left
    refine (mem_outstanding h.sane).mpr ?_
    cases l with
    | spawn t => exact .inl hlate
    | crash tid => exact .inl hlate
    | drift k => exact .inl (overtake_late r hlate)
    | exec tid o =>
      simp only [Host.step] at hlate
      split at hlate
      next t past c k hlive =>
        change r ∈ (s.world.perform config o c).2.late at hlate
        by_cases hsend : ∃ q, c = .send q
        · -- a request that is late was still to be made before
          obtain ⟨q, rfl⟩ := hsend
          change r ∈ (s.world.pass q o.passage).late at hlate
          cases hpassage : o.passage with
          | late =>
            rw [hpassage] at hlate
            rcases List.mem_append.mp hlate with hold | hnew
            · exact .inl hold
            · rw [List.mem_singleton.mp hnew]
              exact .inr ⟨tid, _, hlive, List.mem_cons_self⟩
          | carried =>
            rw [hpassage] at hlate
            exact .inl hlate
          | lost =>
            rw [hpassage] at hlate
            exact .inl hlate
        · rw [(perform_router fun q hq => hsend ⟨q, hq⟩).2] at hlate
          exact .inl hlate
      next => exact .inl hlate
  · rcases live_step hlive with hold | ⟨t, rfl, rfl⟩ | ⟨o, c, k, t, past, rfl, hold, rfl⟩
    · exact .inl ((mem_outstanding h.sane).mpr (.inr ⟨i, th, hold, howed⟩))
    · change r ∈ owed t.body at howed
      rw [(announces_body t).2] at howed
      cases howed
    · obtain ⟨id, hprogram⟩ := h.programs i _ hold
      rcases owed_rest hprogram _ howed with hbefore | hlisted
      · exact .inl ((mem_outstanding h.sane).mpr (.inr ⟨i, _, hold, hbefore⟩))
      · refine .inr ⟨i, o, c, rfl, ?_, hlisted⟩
        rw [Sys.pending, hold]

/-- A move is a call, or leaves the hostnames alone. -/
theorem hosts_step (l : FrontMove) :
    (((front config).step s l).world.hosts = s.world.hosts ∧
        ∀ tid o, l = .exec tid o → s.pending tid = none) ∨
      ∃ tid o c, l = .exec tid o ∧ s.pending tid = some c ∧
        ((front config).step s l).world = (s.world.perform config o c).2 := by
  cases l with
  | spawn t => exact .inl ⟨rfl, nofun⟩
  | crash tid => exact .inl ⟨rfl, nofun⟩
  | drift k => exact .inl ⟨overtake_hosts k, nofun⟩
  | exec tid o =>
    simp only [Host.step]
    split
    next t past c k hlive =>
      refine .inr ⟨tid, o, c, rfl, ?_, rfl⟩
      rw [Sys.pending, hlive]
    next hno =>
      refine .inl ⟨rfl, ?_⟩
      rintro _ _ ⟨⟩
      unfold Sys.pending
      split
      next t past c k hlive => exact absurd hlive (hno t past c k)
      next => rfl

theorem programs_step (h : Parted s) (l : FrontMove) : ∀ tid th,
    ((front config).step s l).live tid = some th → ∃ id, Announces id th.rest := by
  intro tid th hlive
  rcases live_step hlive with hold | ⟨t, -, rfl⟩ | ⟨o, c, k, t, past, -, hold, rfl⟩
  · exact h.programs tid th hold
  · exact (announces_body t).1
  · obtain ⟨id, hprogram⟩ := h.programs tid _ hold
    exact ⟨id, hprogram.2.2 _⟩

theorem subject_exec {tid : Nat} (h : s.pending tid = some c) :
    s.subject (.exec tid o) = some c.subject := by
  show (s.pending tid).map _ = _
  rw [h]
  rfl

theorem takes_exec {tid : Nat} (h : s.pending tid = some c) :
    s.takes config (.exec tid o) = c.takes config s.world o := by
  show ((s.pending tid).map _).getD _ = _
  rw [h]
  rfl

/-- **Step lemma.** -/
theorem parted_step (h : Parted s) (hl : Unclaimed config s l) :
    Parted ((front config).step s l) := by
  rcases @hosts_step config s l with ⟨hsame, hidle⟩ | ⟨tid, o, c, rfl, hpending, hworld⟩
  · refine ⟨sane_step _ h.sane l, ?_, fun r hr j hj => ?_, programs_step h l⟩
    · unfold Separate
      rw [hsame]
      exact h.separate
    · rw [hsame]
      rcases outstanding_step h hr with hold | ⟨tid, o, c, hexec, hpending, -⟩
      · exact h.clear r hold j hj
      · rw [hidle tid o hexec] at hpending
        cases hpending
  have heffect : s.world.Effect config o c := effect c
  have hfree : ∀ host ∈ c.takes config s.world o, ∀ j, j ≠ c.subject → host ∉ s.world.hosts j := by
    intro host hhost j hj
    refine hl.free host (by rwa [takes_exec hpending]) j ?_
    rw [subject_exec hpending]
    exact fun heq => hj (Option.some.inj heq).symm
  -- what the call's application has afterwards, nobody else had
  have hmine : ∀ host ∈ (s.world.perform config o c).2.hosts c.subject, ∀ j, j ≠ c.subject →
      host ∉ s.world.hosts j := by
    intro host hhost j hj
    rcases heffect.mine host hhost with ⟨htakes, -⟩ | hold
    · exact hfree host htakes j hj
    · exact h.separate _ j (Ne.symm hj) host hold
  refine ⟨sane_step _ h.sane _, ?_, fun r hr j hj hmem => ?_, programs_step h _⟩
  · intro i j hij host hi hj
    rw [hworld] at hi hj
    by_cases hsi : i = c.subject
    · subst hsi
      rw [heffect.others j (Ne.symm hij)] at hj
      exact hmine host hi j (Ne.symm hij) hj
    rw [heffect.others i hsi] at hi
    by_cases hsj : j = c.subject
    · subst hsj
      exact hmine host hj i hij hi
    · rw [heffect.others j hsj] at hj
      exact h.separate i j hij host hi hj
  · rw [hworld] at hmem
    rcases outstanding_step h hr with hold | ⟨tid', o', c', hexec, hpending', hsender, hlisted⟩
    · by_cases hsj : j = c.subject
      · subst hsj
        rcases heffect.mine r.host hmem with ⟨htakes, hlive⟩ | hhad
        · exact hj (hl.settled c.subject (subject_exec hpending) hlive r.host
            (by rwa [takes_exec hpending]) r hold rfl).symm
        · exact h.clear r hold _ hj hhad
      · rw [heffect.others j hsj] at hmem
        exact h.clear r hold j hj hmem
    · obtain ⟨rfl, rfl⟩ := Move.exec.inj hexec
      obtain rfl := Option.some.inj (hpending.symm.trans hpending')
      rw [hsender] at hj
      rw [heffect.others j hj] at hmem
      rcases heffect.listed r.host hlisted with htakes | hhad
      · exact hfree r.host htakes j hj hmem
      · exact h.separate _ j (Ne.symm hj) r.host hhad hmem

/-- A move changes the route of a request that was outstanding, if of any. -/
theorem undisturbed_step (h : Parted s) (l : FrontMove) : Undisturbed config s l := by
  intro j hj host hmem
  cases l with
  | spawn t => rfl
  | crash tid => rfl
  | drift k =>
    show (s.world.overtake k).router.route host = _
    unfold Front.overtake
    split
    next => rfl
    next r hlate =>
      have hr : r ∈ s.outstanding :=
        (mem_outstanding h.sane).mpr (.inl (List.mem_of_getElem? hlate))
      refine route_carry fun heq => ?_
      subst heq
      refine h.clear r hr j (fun heq => hj ?_) hmem
      show s.world.late[k]?.map _ = _
      rw [hlate, heq]
      rfl
  | exec tid o =>
    simp only [Host.step]
    split
    next t past c k hlive =>
      have hpending : s.pending tid = some c := by rw [Sys.pending, hlive]
      refine route_perform fun r hsend heq => ?_
      subst hsend heq
      have hr : r ∈ s.outstanding :=
        (mem_outstanding h.sane).mpr (.inr ⟨tid, _, hlive, List.mem_cons_self⟩)
      refine h.clear r hr j (fun heq => hj ?_) hmem
      rw [subject_exec hpending, heq]
      rfl
    next => rfl

/-- **Where every step takes what is free, no two applications ever have a hostname in common,
and no step touches the routes of another application**, whatever becomes of the requests and
in whatever order the operations move. -/
theorem apart_of_unclaimed (config : Config) (router : Router.State) (ls : List FrontMove)
    (hfree : EachStep (front config).step (Unclaimed config) (Sys.start (Front.initial router)) ls) :
    Always (front config).step (fun s => Separate s.world) (Sys.start (Front.initial router)) ls ∧
      EachStep (front config).step (Undisturbed config) (Sys.start (Front.initial router)) ls :=
  ⟨always_of_inv (parted_initial router) (fun _ _ => parted_step) (fun _ h => h.separate) hfree,
    eachStep_of_inv (parted_initial router) (fun _ _ => parted_step)
      (fun _ l h _ => undisturbed_step h l) hfree⟩

end Runs

/-! ## Two shops -/

def shopConfig : Config where
  routerConfigured := true
  defaultDomainSuffix := "apps.example.com"
  publicScheme := "https"
  publicHost := "127.0.0.1"

def shopBody (name : String) : CreateAppBody where
  name := name
  gitRepository := some "https://git.example.com/shop.git"
  gitBranch := none
  buildPack := none
  rootDirectory := none

/-- A build that succeeds, a container that runs on this port, and requests that are carried
out. -/
def shopLuck (port : Nat) : Front.Luck where
  outcome :=
    { build := .ok ⟨some ⟨"f00d", [], []⟩, true, "shop:1"⟩
      lost := none
      docker := .started true
      port := port
      refusal := fun _ => none }
  docker := .started true
  port := port
  passage := .carried
  reason := none

/-- The operation and its first `n` calls, one after the other. -/
def shopMoves (tid : Nat) (t : Front.Task) (port n : Nat) : List FrontMove :=
  .spawn t :: List.replicate n (.exec tid (shopLuck port))

/-- Two applications of these names are created and deployed. -/
def twoShops (name name' : String) : List FrontMove :=
  shopMoves 0 (.createApp "a1" (shopBody name) []) 4001 1 ++
    shopMoves 1 (.createApp "b2" (shopBody name') []) 4002 1 ++
    shopMoves 2 (.deploy "a1" "d1" 1) 4001 5 ++ shopMoves 3 (.deploy "b2" "d2" 2) 4002 5

/-- The runtime and the router after a run. -/
def shopsAfter (ls : List FrontMove) : FrontSys :=
  runFrom (front shopConfig).step (Sys.start (Front.initial ⟨[], []⟩)) ls

/-! ### Checking a step -/

theorem hosts_row {id host : String} (h : host ∈ f.hosts id) :
    ∃ app ∈ f.runtime.apps.rows, app.id = id := by
  by_contra hnone
  have hfind : f.runtime.apps.find id = none := by
    by_contra hne
    obtain ⟨app, happ⟩ := Option.ne_none_iff_exists'.mp hne
    exact hnone ⟨app, Table.mem_of_find happ⟩
  unfold Front.hosts Front.app at h
  rw [hfind] at h
  split at h <;> cases h

/-- Only applications in the table have hostnames. -/
instance (s : FrontSys) (l : FrontMove) : Decidable (Unclaimed config s l) :=
  decidable_of_iff
    ((∀ host ∈ s.takes config l, ∀ app ∈ s.world.runtime.apps.rows, s.subject l ≠ some app.id →
        host ∉ s.world.hosts app.id) ∧
      ∀ id ∈ s.subject l, id ∉ s.world.gone → ∀ host ∈ s.takes config l, ∀ r ∈ s.outstanding,
        r.host = host → r.sender = id)
    ⟨fun ⟨hfree, hsettled⟩ =>
      { free := fun host hhost _ hj hmem =>
          (hosts_row hmem).elim fun app h => hfree host hhost app h.1 (h.2 ▸ hj) (h.2 ▸ hmem)
        settled := hsettled },
    fun h => ⟨fun host hhost app _ hj => h.free host hhost app.id hj, h.settled⟩⟩

/-- Two applications whose names are not the same are kept apart, also while one of them is
taken away. -/
theorem shop_and_desk_apart :
    Always (front shopConfig).step (fun s => Separate s.world)
        (Sys.start (Front.initial ⟨[], []⟩))
        (twoShops "Shop" "Desk" ++ shopMoves 4 (.destroy "b2") 4002 5) ∧
      EachStep (front shopConfig).step (Undisturbed shopConfig)
        (Sys.start (Front.initial ⟨[], []⟩))
        (twoShops "Shop" "Desk" ++ shopMoves 4 (.destroy "b2") 4002 5) :=
  apart_of_unclaimed shopConfig ⟨[], []⟩ _ (by decide +kernel)

/-- Two applications of one name have one hostname, which the second took over; destroying the
second leaves the first without a route. -/
theorem shops_share_hostname :
    ¬ Always (front shopConfig).step (fun s => Separate s.world)
        (Sys.start (Front.initial ⟨[], []⟩)) (twoShops "Shop" "Shop") ∧
      ¬ EachStep (front shopConfig).step (Undisturbed shopConfig)
        (Sys.start (Front.initial ⟨[], []⟩))
        (twoShops "Shop" "Shop" ++ shopMoves 4 (.destroy "b2") 4002 3 ++
          [.exec 4 (shopLuck 4002)]) := by
  constructor
  · intro h
    have hlast := always_iff_prefixes.mp h (twoShops "Shop" "Shop") [] (List.append_nil _).symm
    have hshared : "shop.apps.example.com" ∈
        (shopsAfter (twoShops "Shop" "Shop")).world.hosts "a1" ∧
      "shop.apps.example.com" ∈ (shopsAfter (twoShops "Shop" "Shop")).world.hosts "b2" := by
      decide +kernel
    exact hlast "a1" "b2" (by decide) _ hshared.1 hshared.2
  · intro h
    have hroute : ∀ host ∈ (shopsAfter
        (twoShops "Shop" "Shop" ++ shopMoves 4 (.destroy "b2") 4002 3)).world.hosts "a1", _ :=
      h.at "a1" (by decide +kernel)
    revert hroute
    decide +kernel

/-- Nor is it enough that hostnames are never shared: one that the first application drops is
given to the second, and then withdrawn. -/
def handedOver : List FrontMove :=
  shopMoves 0 (.createApp "a1" (shopBody "Shop") ["www.example.com"]) 4001 1 ++
    shopMoves 1 (.createApp "b2" (shopBody "Desk") []) 4002 1 ++
    shopMoves 2 (.deploy "a1" "d1" 1) 4001 6 ++ shopMoves 3 (.deploy "b2" "d2" 2) 4002 5 ++
    shopMoves 4 (.setDomains "a1" []) 4001 2 ++
    shopMoves 5 (.setDomains "b2" ["www.example.com"]) 4002 5

example : (shopsAfter handedOver).world.hosts "a1" = ["shop.apps.example.com"] ∧
    (shopsAfter handedOver).world.router.route "www.example.com" = some (routeOn 4002) ∧
    (shopsAfter (handedOver ++ [.exec 4 (shopLuck 4001)])).world.router.route
      "www.example.com" = none := by decide +kernel

end CloudWai.Runtime
