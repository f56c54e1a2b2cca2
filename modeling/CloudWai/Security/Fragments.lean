import CloudWai.Base.Replace
import CloudWai.Security.Compile
import Mathlib.Data.List.Forall2

/-!
# One fragment per host

`compileEdge` walks its routes, the primary first, and emits a fragment for each
host it has not seen. Which host gets a fragment, how often, and from which
route is decided by that walk alone, and the walk is right for every list
(`onePerHost`): each host of the list once, from the first route that names it.

The name of a fragment's Envoy cluster is not the host but the host with its
dots written as hyphens, and a host may contain hyphens of its own. Two hosts
that differ only in which of the two stands at a place are given one cluster,
so the fragments name the origins they were made from exactly as long as the
list holds no such pair (`fragments_sound_iff`).

About `compileEdge` of `packages/adapters/src/security-edge.ts`, as `Compile.lean` has it.
-/

namespace CloudWai

namespace Security

open Base

/-! ## What the fragments are for -/

/-- The routes an artifact is made of, primary first. -/
def CompileInput.allRoutes (input : CompileInput) : List EdgeRoute := input.route :: input.routes

/-- Exactly one fragment for each host, with the origin and the posture of the
first route that names it. -/
structure OnePerHost (input : CompileInput) : Prop where
  once : ((compileEdge input).envoyRoutes.map (·.host)).Nodup
  hosts : ∀ host, host ∈ (compileEdge input).envoyRoutes.map (·.host) ↔
    host ∈ input.allRoutes.map (·.host)
  own : ∀ f ∈ (compileEdge input).envoyRoutes, ∃ one,
    input.allRoutes.find? (·.host == f.host) = some one ∧ f.privateOrigin = one.origin ∧
      f.protection = protectionInput one.protection

/-- And a cluster of its own for each. -/
structure FragmentsSound (input : CompileInput) : Prop extends OnePerHost input where
  clusters : ∀ f ∈ (compileEdge input).envoyRoutes, ∀ g ∈ (compileEdge input).envoyRoutes,
    f.host ≠ g.host → f.cluster ≠ g.cluster

/-- The same place by place, a dot and a hyphen taken for one another. -/
def Confusable (a b : String) : Prop :=
  List.Forall₂ (fun c d => c = d ∨ (c = '.' ∧ d = '-') ∨ (c = '-' ∧ d = '.')) a.toList b.toList

/-! ## The walk -/

section Walk

variable {seen : List String} {routes : List EdgeRoute} {one : EdgeRoute}

/-- A route is kept if its host was not seen before and no earlier route has it. -/
theorem mem_firstOfHost : one ∈ firstOfHost seen routes ↔
    one.host ∉ seen ∧ routes.find? (·.host == one.host) = some one := by
  induction routes generalizing seen with
  | nil => simp [firstOfHost]
  | cons r routes ih =>
    rw [firstOfHost]
    by_cases hr : r.host ∈ seen
    · rw [if_pos hr, ih]
      constructor
      · intro ⟨hone, hfind⟩
        have hne : r.host ≠ one.host := fun h => hone (h ▸ hr)
        exact ⟨hone, by rw [List.find?_cons_of_neg (by simpa using hne), hfind]⟩
      · intro ⟨hone, hfind⟩
        have hne : r.host ≠ one.host := fun h => hone (h ▸ hr)
        rw [List.find?_cons_of_neg (by simpa using hne)] at hfind
        exact ⟨hone, hfind⟩
    · rw [if_neg hr, List.mem_cons, ih, List.mem_cons, not_or]
      by_cases hhost : r.host = one.host
      · rw [List.find?_cons_of_pos (by simpa using hhost)]
        constructor
        · intro h
          rcases h with rfl | ⟨⟨hne, _⟩, _⟩
          · exact ⟨hr, rfl⟩
          · exact absurd hhost.symm hne
        · intro ⟨_, hfind⟩
          exact .inl (Option.some.inj hfind).symm
      · rw [List.find?_cons_of_neg (by simpa using hhost)]
        constructor
        · intro h
          rcases h with rfl | ⟨⟨_, hone⟩, hfind⟩
          · exact absurd rfl hhost
          · exact ⟨hone, hfind⟩
        · intro ⟨hone, hfind⟩
          exact .inr ⟨⟨fun h => hhost h.symm, hone⟩, hfind⟩

theorem firstOfHost_nodup : ((firstOfHost seen routes).map (·.host)).Nodup := by
  induction routes generalizing seen with
  | nil => exact List.nodup_nil
  | cons r routes ih =>
    rw [firstOfHost]
    split
    · exact ih
    · rw [List.map_cons, List.nodup_cons]
      refine ⟨?_, ih⟩
      intro hmem
      obtain ⟨one, hone, hhost⟩ := List.mem_map.mp hmem
      exact (mem_firstOfHost.mp hone).1 (hhost ▸ List.mem_cons_self)

theorem host_firstOfHost {host : String} : host ∈ (firstOfHost [] routes).map (·.host) ↔
    host ∈ routes.map (·.host) := by
  constructor
  · intro h
    obtain ⟨one, hone, hhost⟩ := List.mem_map.mp h
    have hmem := List.mem_of_find?_eq_some (mem_firstOfHost.mp hone).2
    exact hhost ▸ List.mem_map_of_mem hmem
  · intro h
    obtain ⟨r, hr, hhost⟩ := List.mem_map.mp h
    -- the first route with that host is the one that is kept
    have hsome : (routes.find? (·.host == host)).isSome := by
      rw [List.find?_isSome]
      exact ⟨r, hr, by simpa using hhost⟩
    obtain ⟨one, hone⟩ := Option.isSome_iff_exists.mp hsome
    have hfound : one.host = host := by simpa using List.find?_some hone
    refine List.mem_map.mpr ⟨one, mem_firstOfHost.mpr ⟨List.not_mem_nil, ?_⟩, hfound⟩
    rw [hfound]
    exact hone

end Walk

variable {input : CompileInput}

theorem mem_envoyRoutes {f : EnvoyRouteFragment} : f ∈ (compileEdge input).envoyRoutes ↔
    ∃ one, input.allRoutes.find? (·.host == one.host) = some one ∧ fragment input one = f := by
  show f ∈ (firstOfHost [] input.allRoutes).map (fragment input) ↔ _
  simp only [List.mem_map, mem_firstOfHost, List.not_mem_nil, not_false_eq_true, true_and]

theorem map_host_envoyRoutes : (compileEdge input).envoyRoutes.map (·.host) =
    (firstOfHost [] input.allRoutes).map (·.host) :=
  List.map_map

/-- The walk gives each host its own. -/
theorem onePerHost (input : CompileInput) : OnePerHost input where
  once := by
    rw [map_host_envoyRoutes]
    exact firstOfHost_nodup
  hosts := by
    intro host
    rw [map_host_envoyRoutes]
    exact host_firstOfHost
  own := by
    intro f hf
    obtain ⟨one, hone, rfl⟩ := mem_envoyRoutes.mp hf
    exact ⟨one, hone, rfl, rfl⟩

/-! ## The name of a cluster -/

/-- A character of a host as a cluster's name has it. -/
def undotted (c : Char) : Char := if c = '.' then '-' else c

theorem replaced_dots (w : List Char) : replaced '.' "-" w = w.map undotted := by
  induction w with
  | nil => rfl
  | cons c w ih =>
    show (if c = '.' then ['-'] else [c]) ++ replaced '.' "-" w = undotted c :: w.map undotted
    rw [ih, undotted]
    split <;> rfl

theorem toList_cluster (one : EdgeRoute) : (fragment input one).cluster.toList =
    "origin-".toList ++ one.host.toList.map undotted := by
  show ("origin-" ++ one.host.replace (String.singleton '.') "-").toList = _
  rw [String.toList_append, toList_replace, replaced_dots]

theorem undotted_eq_iff {c d : Char} : undotted c = undotted d ↔
    (c = d ∨ (c = '.' ∧ d = '-') ∨ (c = '-' ∧ d = '.')) := by
  unfold undotted
  split <;> split <;> simp_all [eq_comm]

/-- Two clusters have one name exactly if the hosts are confusable. -/
theorem cluster_eq_iff {one two : EdgeRoute} :
    (fragment input one).cluster = (fragment input two).cluster ↔ Confusable one.host two.host := by
  rw [← String.toList_inj, toList_cluster, toList_cluster, List.append_cancel_left_eq,
    ← List.forall₂_eq_eq_eq, List.forall₂_map_left_iff, List.forall₂_map_right_iff]
  simp only [undotted_eq_iff]
  rfl

/-- **The fragments are sound exactly if no two hosts of the list differ only in
dots and hyphens.** -/
theorem fragments_sound_iff (input : CompileInput) : FragmentsSound input ↔
    ∀ a ∈ input.allRoutes.map (·.host), ∀ b ∈ input.allRoutes.map (·.host),
      Confusable a b → a = b := by
  constructor
  · intro h a ha b hb hab
    obtain ⟨f, hf, rfl⟩ := List.mem_map.mp ((h.hosts a).mpr ha)
    obtain ⟨g, hg, rfl⟩ := List.mem_map.mp ((h.hosts b).mpr hb)
    by_contra hne
    refine h.clusters f hf g hg hne ?_
    obtain ⟨one, _, rfl⟩ := mem_envoyRoutes.mp hf
    obtain ⟨two, _, rfl⟩ := mem_envoyRoutes.mp hg
    exact cluster_eq_iff.mpr hab
  · intro h
    refine ⟨onePerHost input, ?_⟩
    intro f hf g hg hne hcluster
    have hall := (onePerHost input).hosts
    have hfh := (hall f.host).mp (List.mem_map_of_mem hf)
    have hgh := (hall g.host).mp (List.mem_map_of_mem hg)
    obtain ⟨one, _, rfl⟩ := mem_envoyRoutes.mp hf
    obtain ⟨two, _, rfl⟩ := mem_envoyRoutes.mp hg
    exact hne (h _ hfh _ hgh (cluster_eq_iff.mp hcluster))

/-- Two hosts of one organization, on two origins. -/
def nearTwins : CompileInput :=
  { CompileInput.bare ⟨"shop.eu.example.com", "10.0.0.8", "/", 1, none⟩ with
    routes := [⟨"shop-eu.example.com", "10.0.0.9", "/", 1, none⟩] }

/-- Valid names both, and one cluster. -/
theorem near_twins_share_a_cluster :
    ¬ ∀ input : CompileInput, (input.allRoutes.all fun one => Grammar.hostPattern.test one.host) →
      FragmentsSound input := by
  intro h
  have hsound := h nearTwins (by decide +kernel)
  refine hsound.clusters (fragment nearTwins nearTwins.route) (by simp [compileEdge, firstOfHost])
    (fragment nearTwins ⟨"shop-eu.example.com", "10.0.0.9", "/", 1, none⟩)
    (by simp [compileEdge, firstOfHost, nearTwins, CompileInput.bare]) (by decide) ?_
  exact cluster_eq_iff.mpr (by unfold Confusable; decide)

end Security

end CloudWai
