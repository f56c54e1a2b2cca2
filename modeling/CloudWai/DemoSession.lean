import CloudWai.Base.Machine
import CloudWai.Contracts
import Mathlib.Data.List.Induction
import Mathlib.Logic.Function.Basic

/-!
# The demo sign-in's brake

The rate limit of `buildDemoSessionHandler`. Per client it keeps the instants of the
sign-ins it let through and, at each request, forgets those that are a window old. What
it has forgotten can no longer count, as long as the clock does not go back: so the
list it keeps answers like the whole history (`allowed_iff`), and no window of time,
wherever it begins, holds more sign-ins of one client than the limit (`window_bound`).

Mirrors `apps/api/src/demo-session.ts`. The password grant that is sent for a request that
is let through is left out, with its answer, and a limit is a number.
-/

namespace CloudWai.DemoSession

open Base

/-- The limits of `DemoSessionConfig`. -/
structure Config where
  maxPerWindow : Nat
  windowMs : Nat
deriving DecidableEq, Repr

variable {κ : Type} [DecidableEq κ]

/-- `hits`: a client that is not in the map has none. -/
abbrev Hits (κ : Type) := κ → List Instant

/-- `now - at < config.windowMs` -/
def Config.counts (c : Config) (now at_ : Instant) : Bool := decide (now < at_ + c.windowMs)

/-- `allowed` -/
def allowed (c : Config) (hits : Hits κ) (now : Instant) (key : κ) : Bool × Hits κ :=
  let recent := (hits key).filter (c.counts now)
  if c.maxPerWindow ≤ recent.length then (false, Function.update hits key recent)
  else (true, Function.update hits key (recent ++ [now]))

/-- A request for a demo session: by whom, and when. -/
structure Request (κ : Type) where
  key : κ
  now : Instant

/-- The handler's map, and the requests it has let through. -/
structure Handler (κ : Type) where
  hits : Hits κ
  granted : List (Request κ)

def Handler.start : Handler κ := ⟨fun _ => [], []⟩

/-- `handle`, as far as it lets a request through. -/
def Handler.step (c : Config) (s : Handler κ) (r : Request κ) : Handler κ :=
  let (granted, hits) := allowed c s.hits r.now r.key
  ⟨hits, if granted then s.granted ++ [r] else s.granted⟩

/-- The instants a client was let through at. -/
def Handler.times (s : Handler κ) (key : κ) : List Instant :=
  (s.granted.filter fun g => g.key = key).map (·.now)

/-! ## What is forgotten does not count -/

section Step

variable {c : Config} {s : Handler κ} {r : Request κ} {key : κ} {now now' : Instant}

/-- What counts later counts now. -/
theorem counts_mono (h : now ≤ now') {at_ : Instant} (hlater : c.counts now' at_ = true) :
    c.counts now at_ = true := by
  unfold Config.counts at hlater ⊢
  rw [decide_eq_true_eq] at hlater ⊢
  exact Nat.lt_of_le_of_lt h hlater

theorem filter_counts (h : now ≤ now') (l : List Instant) :
    (l.filter (c.counts now)).filter (c.counts now') = l.filter (c.counts now') := by
  rw [List.filter_filter]
  refine List.filter_congr fun a _ => ?_
  by_cases hlater : c.counts now' a = true
  · rw [hlater, counts_mono h hlater]
    rfl
  · rw [Bool.eq_false_iff.mpr hlater]
    rfl

/-- From now on, what is kept counts like all there was; and nothing is ahead of the clock. -/
structure Remembers (c : Config) (s : Handler κ) (now : Instant) : Prop where
  hits : ∀ key now', now ≤ now' →
    (s.hits key).filter (c.counts now') = (s.times key).filter (c.counts now')
  past : ∀ g ∈ s.granted, g.now ≤ now

theorem remembers_start (c : Config) : Remembers c (Handler.start : Handler κ) 0 where
  hits _ _ _ := rfl
  past _ hg := by cases hg

theorem times_concat (s : Handler κ) (hits : Hits κ) (r : Request κ) (key : κ) :
    (Handler.mk hits (s.granted ++ [r])).times key =
      if r.key = key then s.times key ++ [r.now] else s.times key := by
  unfold Handler.times
  rw [List.filter_append, List.map_append]
  by_cases hkey : r.key = key
  · rw [if_pos hkey, List.filter_cons_of_pos (by simpa using hkey)]
    rfl
  · rw [if_neg hkey, List.filter_cons_of_neg (by simpa using hkey)]
    exact List.append_nil _

/-- One request, let through or not. -/
theorem remembers_step (h : Remembers c s now) (hnow : now ≤ r.now) :
    Remembers c (s.step c r) r.now := by
  have hpast : ∀ g ∈ s.granted, g.now ≤ r.now := fun g hg => Nat.le_trans (h.past g hg) hnow
  unfold Handler.step allowed
  dsimp only
  split
  next =>
    refine ⟨fun key now' hlater => ?_, hpast⟩
    show (Function.update s.hits r.key _ key).filter _ = (s.times key).filter _
    by_cases hkey : key = r.key
    · subst hkey
      rw [Function.update_self, filter_counts hlater]
      exact h.hits r.key now' (Nat.le_trans hnow hlater)
    · rw [Function.update_of_ne hkey]
      exact h.hits key now' (Nat.le_trans hnow hlater)
  next =>
    refine ⟨fun key now' hlater => ?_, fun g hg => ?_⟩
    · rw [if_pos rfl, times_concat]
      show (Function.update s.hits r.key _ key).filter _ = _
      by_cases hkey : key = r.key
      · subst hkey
        rw [Function.update_self, if_pos rfl, List.filter_append, List.filter_append,
          filter_counts hlater, h.hits r.key now' (Nat.le_trans hnow hlater)]
      · rw [Function.update_of_ne hkey, if_neg (Ne.symm hkey)]
        exact h.hits key now' (Nat.le_trans hnow hlater)
    · rw [if_pos rfl] at hg
      rcases List.mem_append.mp hg with hold | hnew
      · exact hpast g hold
      · obtain rfl := List.mem_singleton.mp hnew
        exact Nat.le_refl _

theorem remembers_run {rs : List (Request κ)} (h : Remembers c s now)
    (hnow : ∀ r ∈ rs, now ≤ r.now) (horder : (rs.map Request.now).Pairwise (· ≤ ·)) {last : Instant}
    (hlast : ∀ r ∈ rs, r.now ≤ last) (hle : now ≤ last) :
    Remembers c (runFrom (Handler.step c) s rs) last := by
  induction rs generalizing s now with
  | nil =>
    exact ⟨fun key now' hlater => h.hits key now' (Nat.le_trans hle hlater),
      fun g hg => Nat.le_trans (h.past g hg) hle⟩
  | cons r rs ih =>
    rw [List.map_cons, List.pairwise_cons] at horder
    exact ih (remembers_step h (hnow r List.mem_cons_self))
      (fun r' hr' => horder.1 r'.now (List.mem_map_of_mem hr')) horder.2
      (fun r' hr' => hlast r' (List.mem_cons_of_mem _ hr')) (hlast r List.mem_cons_self)

end Step

/-! ## Runs -/

section Runs

variable {c : Config} {rs : List (Request κ)} {r : Request κ}

/-- The handler after these requests. -/
def Handler.after (c : Config) (rs : List (Request κ)) : Handler κ :=
  runFrom (Handler.step c) Handler.start rs

theorem remembers_after (horder : ((rs ++ [r]).map Request.now).Pairwise (· ≤ ·)) :
    Remembers c (Handler.after c rs) r.now := by
  rw [List.map_append, List.pairwise_append] at horder
  obtain ⟨hrs, _, hlast⟩ := horder
  exact remembers_run (remembers_start c) (fun _ _ => Nat.zero_le _) hrs
    (fun r' hr' => hlast r'.now (List.mem_map_of_mem hr') r.now List.mem_cons_self) (Nat.zero_le _)

theorem allowed_eq (h : Remembers c (Handler.after c rs) r.now) :
    (allowed c (Handler.after c rs).hits r.now r.key).1 = true ↔
      (((Handler.after c rs).times r.key).filter (c.counts r.now)).length < c.maxPerWindow := by
  rw [← h.hits r.key r.now (Nat.le_refl _)]
  unfold allowed
  dsimp only
  split
  next hfull => exact iff_of_false Bool.false_ne_true (Nat.not_lt.mpr hfull)
  next hroom => exact iff_of_true rfl (Nat.lt_of_not_le hroom)

/-- **The list it keeps answers like the whole history**: requests coming in the order of
their instants, one gets through exactly if fewer than the limit of that client's sign-ins
that got through are less than a window old. -/
theorem allowed_iff (horder : ((rs ++ [r]).map Request.now).Pairwise (· ≤ ·)) :
    (allowed c (Handler.after c rs).hits r.now r.key).1 = true ↔
      (((Handler.after c rs).times r.key).filter (c.counts r.now)).length < c.maxPerWindow :=
  allowed_eq (remembers_after horder)

/-- A third request, when the first of the two before it is a window old. -/
theorem allowed_iff_third : let rs : List (Request String) := [⟨"a", 5⟩, ⟨"a", 700⟩]
    (allowed ⟨2, 1000⟩ (Handler.after ⟨2, 1000⟩ rs).hits 1005 "a").1 = true ↔
      (((Handler.after ⟨2, 1000⟩ rs).times "a").filter
        (Config.counts ⟨2, 1000⟩ 1005)).length < 2 :=
  allowed_iff (r := ⟨"a", 1005⟩) (by decide)

/-- The window that begins at an instant. -/
def Config.window (c : Config) (start t : Instant) : Bool :=
  decide (start ≤ t) && decide (t < start + c.windowMs)

/-- The sign-ins of a client in a window. -/
def Handler.within (c : Config) (s : Handler κ) (key : κ) (start : Instant) : List Instant :=
  (s.times key).filter (c.window start)

theorem times_step (s : Handler κ) (r : Request κ) (key : κ) : (s.step c r).times key =
    if (allowed c s.hits r.now r.key).1 = true ∧ r.key = key then s.times key ++ [r.now]
    else s.times key := by
  by_cases hgranted : (allowed c s.hits r.now r.key).1 = true
  · have hstep : s.step c r = ⟨(allowed c s.hits r.now r.key).2, s.granted ++ [r]⟩ := by
      unfold Handler.step
      exact congrArg (Handler.mk _) (if_pos hgranted)
    rw [hstep, times_concat]
    by_cases hkey : r.key = key
    · rw [if_pos hkey, if_pos ⟨hgranted, hkey⟩]
    · rw [if_neg hkey, if_neg fun h => hkey h.2]
  · rw [if_neg fun h => hgranted h.1]
    have hstep : s.step c r = ⟨(allowed c s.hits r.now r.key).2, s.granted⟩ := by
      unfold Handler.step
      exact congrArg (Handler.mk _) (if_neg hgranted)
    rw [hstep]
    rfl

/-- In a window that a request falls into, what was let through before still counts. -/
theorem within_le {s : Handler κ} {key : κ} {start now : Instant} (hstart : now < start + c.windowMs) :
    (s.within c key start).length ≤ ((s.times key).filter (c.counts now)).length := by
  unfold Handler.within
  rw [← List.countP_eq_length_filter, ← List.countP_eq_length_filter]
  refine List.countP_mono_left fun t _ ht => ?_
  obtain ⟨hfrom, _⟩ := (Bool.and_eq_true _ _).mp ht
  have hle : start ≤ t := of_decide_eq_true hfrom
  exact decide_eq_true (Nat.lt_of_lt_of_le hstart (Nat.add_le_add_right hle _))

/-- **No window is overfull**, wherever it begins: requests coming in the order of their
instants, no more than the limit of one client's sign-ins get through in it. -/
theorem window_bound (horder : (rs.map Request.now).Pairwise (· ≤ ·)) (key : κ) (start : Instant) :
    ((Handler.after c rs).within c key start).length ≤ c.maxPerWindow := by
  induction rs using List.reverseRecOn with
  | nil => exact Nat.zero_le _
  | append_singleton rs r ih =>
    have hbefore := ih (horder.sublist ((List.sublist_append_left rs [r]).map _))
    have hstep : Handler.after c (rs ++ [r]) = (Handler.after c rs).step c r := runFrom_append
    unfold Handler.within at hbefore ⊢
    rw [hstep, times_step]
    split
    next hthis =>
      obtain ⟨hgranted, rfl⟩ := hthis
      rw [List.filter_append, List.length_append]
      by_cases hinside : c.window start r.now = true
      · -- it was let through, so what counts at its instant is fewer than the limit
        have hfew := (allowed_eq (remembers_after horder)).mp hgranted
        have hwithin : ((Handler.after c rs).within c r.key start).length ≤ _ :=
          within_le (of_decide_eq_true ((Bool.and_eq_true _ _).mp hinside).2)
        rw [List.filter_cons_of_pos hinside]
        exact Nat.lt_of_le_of_lt hwithin hfew
      · rw [List.filter_cons_of_neg hinside]
        exact hbefore
    next => exact hbefore

/-- Three requests at once, with a limit of two. -/
theorem window_bound_burst :
    ((Handler.after ⟨2, 1000⟩ [⟨"a", 5⟩, ⟨"a", 5⟩, ⟨"a", 5⟩]).within ⟨2, 1000⟩ "a" 5).length ≤ 2 :=
  window_bound (c := ⟨2, 1000⟩) (by decide) "a" 5

end Runs

end CloudWai.DemoSession
