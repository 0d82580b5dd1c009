import PackageUsage.Proofs.NotedSearch
import PackageUsage.Proofs.Routes

namespace PackageUsage
set_option autoImplicit true
open Walks Attribution

/-- No file has the path of another one with a bar and more behind it. -/
def RepositoryFacts.Separate (facts : RepositoryFacts) : Prop :=
  ∀ f ∈ facts.files, ∀ g ∈ facts.files, ∀ rest : String,
    Modules.normalize g.path ≠ Modules.normalize f.path ++ "|" ++ rest

namespace Attribution

/-- The circles that the search for an import gives up with. -/
def metCircles (facts : RepositoryFacts) (importer : String) (i : Import) (package : String) :
    List Circle :=
  ((Question.attribution importer i package).logged (.ofFacts facts)).events.filterMap (·.circle?)

/-- A circle that tells a route from the start of the search for an import. The route passes
different nodes up to one whose mark has come up before. -/
structure Closes (facts : RepositoryFacts) (importer : String) (i : Import) (package : String)
    (c : Circle) (nodes : List Hop) (last : Hop) : Prop where
  route : ∃ start ks, searchStart facts importer i = some start ∧
    Route (Hop.successors facts package) start ks nodes last
  distinct : (nodes.map Hop.mark).Nodup
  closed : last.mark ∈ nodes.map Hop.mark
  told : c = ⟨Modules.normalize importer, last.name, (nodes ++ [last]).map (·.file)⟩

/-- A circle that comes back to a node. -/
def Genuine (facts : RepositoryFacts) (importer : String) (i : Import) (package : String)
    (c : Circle) : Prop :=
  ∃ nodes last, Closes facts importer i package c nodes last ∧ last ∈ nodes

theorem append_cons_cases {c : α} {xs ys xs' ys' : List α} (h : xs ++ c :: ys = xs' ++ c :: ys') :
    (xs = xs' ∧ ys = ys') ∨ (∃ rest, xs' = xs ++ c :: rest) ∨ ∃ rest, xs = xs' ++ c :: rest := by
  rcases List.append_eq_append_iff.1 h with ⟨between, he, hb⟩ | ⟨between, he, hb⟩
  · cases between with
    | nil =>
      rw [List.append_nil] at he
      exact .inl ⟨he.symm, (List.cons.inj hb).2⟩
    | cons x rest =>
      cases (List.cons.inj hb).1
      exact .inr (.inl ⟨rest, he⟩)
  · cases between with
    | nil =>
      rw [List.append_nil] at he
      exact .inl ⟨he, (List.cons.inj hb).2.symm⟩
    | cons x rest =>
      cases (List.cons.inj hb).1
      exact .inr (.inr ⟨rest, he⟩)

theorem eq_append_bar {s t : String} (h : t.toList = s.toList ++ '|' :: rest) :
    t = s ++ "|" ++ String.ofList rest := by
  apply String.toList_injective
  simp only [h, String.toList_append, String.toList_ofList, List.append_assoc]
  rfl

/-- If a mark is that of two nodes, the path of one goes on where that of the other one ends. -/
theorem Hop.mark_cases {n n' : Hop} (he : n.mark = n'.mark) :
    n = n' ∨ (∃ rest, n'.file = n.file ++ "|" ++ rest) ∨
      ∃ rest, n.file = n'.file ++ "|" ++ rest := by
  have hc := congrArg String.toList he
  simp only [Hop.mark, Attribution.mark, String.toList_append, List.append_assoc] at hc
  rcases append_cons_cases hc with ⟨file, name⟩ | ⟨rest, longer⟩ | ⟨rest, longer⟩
  · left
    obtain ⟨_, _⟩ := n
    rw [Hop.mk.injEq]
    exact ⟨String.toList_injective file, String.toList_injective name⟩
  · exact .inr (.inl ⟨_, eq_append_bar longer⟩)
  · exact .inr (.inr ⟨_, eq_append_bar longer⟩)

theorem file_of_mem_territory {n : Hop} (h : n ∈ territory (.ofFacts facts) requested) :
    ∃ f ∈ facts.files, Modules.normalize f.path = n.file := by
  obtain ⟨e, he, hf⟩ := List.mem_map.1 (mem_territory.1 h).1
  obtain ⟨f, hm, rfl⟩ := List.mem_map.1 he
  exact ⟨f, hm, hf⟩

theorem Hop.mark_inj_of_separate (hs : facts.Separate)
    (hn : n ∈ territory (.ofFacts facts) requested)
    (hn' : n' ∈ territory (.ofFacts facts) requested) (he : Hop.mark n = Hop.mark n') : n = n' := by
  obtain ⟨f, hf, path⟩ := file_of_mem_territory hn
  obtain ⟨f', hf', path'⟩ := file_of_mem_territory hn'
  rcases Hop.mark_cases he with rfl | ⟨rest, longer⟩ | ⟨rest, longer⟩
  · rfl
  · rw [← path, ← path'] at longer
    exact (hs f hf f' hf' rest longer).elim
  · rw [← path, ← path'] at longer
    exact (hs f' hf' f hf rest longer).elim

theorem Tries.mem_notes (h : Tries visit successors x) (hm : note ∈ x.notes) :
    ∃ n, .node n ∈ successors ∧ note ∈ (visit n.file n.name).notes := by
  obtain ⟨j, notes, _⟩ := h
  rw [notes] at hm
  obtain ⟨t, ht, hm⟩ := List.mem_flatMap.1 hm
  cases t with
  | arrival b => exact (List.not_mem_nil hm).elim
  | node n => exact ⟨n, List.mem_of_mem_take ht, hm⟩
  | nothing => exact (List.not_mem_nil hm).elim

theorem gaveUp_successor {facts : RepositoryFacts} {importer package : String}
    {visited trail : List String} {n : Hop} (hv : mark n.file n.name ∉ visited)
    (hc : .gaveUp c ∈ (Search.noted ⟨.ofFacts facts, importer, package⟩ fuel visited trail
      n.file n.name).notes) :
    ∃ less n', fuel = less + 1 ∧ .node n' ∈ n.successors facts package ∧
      .gaveUp c ∈ (Search.noted ⟨.ofFacts facts, importer, package⟩ less
        (mark n.file n.name :: visited) (trail ++ [n.file]) n'.file n'.name).notes := by
  have unvisited : ¬ visited.contains (mark n.file n.name) = true := by
    rwa [List.contains_iff_mem]
  cases fuel with
  | zero =>
    rw [Search.noted, if_neg unvisited] at hc
    cases hc
  | succ less =>
    cases hf : (Modules.Index.ofFacts facts).file? n.file with
    | none =>
      simp only [Search.noted, if_neg unvisited, hf] at hc
      cases hc
    | some f =>
      obtain ⟨x, hx, tries⟩ := noted_succ hv hf importer package less trail
      rw [hx] at hc
      rcases List.mem_cons.1 hc with he | hc
      · cases he
      obtain ⟨n', hs, hm⟩ := tries.mem_notes hc
      exact ⟨less, n', rfl, hs, hm⟩

/-- A circle of a search that goes on from a route is that of a longer route. -/
theorem route_of_gaveUp {facts : RepositoryFacts} {package : String}
    (hr : Route (Hop.successors facts package) start ks nodes n)
    (hd : (nodes.map Hop.mark).Nodup) (importer : String)
    (hc : .gaveUp c ∈ (Search.noted ⟨.ofFacts facts, importer, package⟩ fuel
      (nodes.map Hop.mark).reverse (nodes.map (·.file)) n.file n.name).notes) :
    ∃ ks nodes last, Route (Hop.successors facts package) start ks nodes last ∧
      (nodes.map Hop.mark).Nodup ∧ last.mark ∈ nodes.map Hop.mark ∧
      c = ⟨importer, last.name, (nodes ++ [last]).map (·.file)⟩ := by
  induction fuel using Nat.strong_induction_on generalizing ks nodes n with
  | _ fuel ih =>
    by_cases hv : mark n.file n.name ∈ (nodes.map Hop.mark).reverse
    · rw [noted_visited hv] at hc
      cases List.mem_singleton.1 hc
      refine ⟨ks, nodes, n, hr, hd, List.mem_reverse.1 hv, ?_⟩
      rw [List.map_append, List.map_singleton]
    obtain ⟨less, n', rfl, hs, hc⟩ := gaveUp_successor hv hc
    obtain ⟨k, hk⟩ := List.mem_iff_getElem?.1 hs
    rw [List.mem_reverse] at hv
    have fresh : ((nodes ++ [n]).map Hop.mark).Nodup := by
      rw [List.map_append, List.map_singleton]
      exact hd.append (List.nodup_singleton _) (List.disjoint_singleton.2 hv)
    apply ih less less.lt_succ_self (hr.snoc hk) fresh
    rwa [List.map_append, List.map_append, List.map_singleton, List.map_singleton,
      List.reverse_append, List.reverse_singleton, List.singleton_append]

theorem closes_of_gaveUp (hc : .gaveUp c ∈ (notedImport facts importer i package).notes) :
    ∃ nodes last, Closes facts importer i package c nodes last := by
  cases hs : searchStart facts importer i with
  | none =>
    rw [notedImport, hs] at hc
    cases hc
  | some start =>
    rw [notedImport_of_start hs] at hc
    obtain ⟨ks, nodes, last, route, distinct, closed, told⟩ :=
      route_of_gaveUp .here .nil (Modules.normalize importer) hc
    exact ⟨nodes, last, ⟨start, ks, hs, route⟩, distinct, closed, told⟩

theorem mem_metCircles (facts : RepositoryFacts) (importer : String) (i : Import)
    (package : String) :
    c ∈ metCircles facts importer i package ↔
      .gaveUp c ∈ (notedImport facts importer i package).notes := by
  rw [metCircles, Question.logged, (alike_notedImport facts importer i package).circles,
    List.mem_filterMap]
  constructor
  · rintro ⟨note, hm, he⟩
    cases note with
    | opened n => cases he
    | gaveUp c =>
      cases he
      exact hm
  · exact fun hm => ⟨_, hm, rfl⟩

theorem Closes.genuine (h : Closes facts importer i package c nodes last)
    (hs : facts.Separate) : last ∈ nodes := by
  obtain ⟨start, ks, hstart, route⟩ := h.route
  have within := route.forall_mem (fun _ _ => successor_node_mem_territory)
    (searchStart_mem_territory hstart)
  obtain ⟨n, hn, he⟩ := List.mem_map.1 h.closed
  have same := Hop.mark_inj_of_separate hs (within n (List.mem_append_left _ hn))
    (within last (List.mem_append_right _ List.mem_cons_self)) he
  exact same ▸ hn

end Attribution

namespace Resolver

theorem mem_warnings_answerAll (facts : RepositoryFacts) (qs : List Question) :
    w ∈ ((ofFacts facts).answerAll qs).2.warnings ↔ ∃ importer i package,
      .attribution importer i package ∈ qs ∧
        ∃ c ∈ metCircles facts importer i package, w = c.text := by
  rw [(coherent_ofFacts facts).answerAll, warnings, Text.mem_sort, mem_circles_replay,
    List.filterMap_flatMap, List.mem_flatMap]
  constructor
  · rintro (hw | ⟨q, hq, hw⟩)
    · exact (List.not_mem_nil hw).elim
    obtain ⟨e, he, hw⟩ := List.mem_filterMap.1 hw
    cases q with
    | module importer specifier =>
      cases List.mem_singleton.1 he
      cases hw
    | attribution importer i package =>
      cases e with
      | lookup importer module => cases hw
      | circle c =>
        cases hw
        exact ⟨importer, i, package, hq, c, List.mem_filterMap.2 ⟨_, he, rfl⟩, rfl⟩
  · rintro ⟨importer, i, package, hq, c, hc, rfl⟩
    obtain ⟨e, he, hc⟩ := List.mem_filterMap.1 hc
    cases e with
    | lookup importer module => cases hc
    | circle c =>
      cases hc
      exact .inr ⟨_, hq, List.mem_filterMap.2 ⟨_, he, rfl⟩⟩

/-- Every warning is the text of a circle that some search gave up with, and every such circle
tells a route that ends at a node whose mark came up before. If the paths of the files are separate,
it is the node that did. -/
theorem circles_close (facts : RepositoryFacts) (qs : List Question) :
    (∀ w ∈ ((ofFacts facts).answerAll qs).2.warnings, ∃ importer i package,
      .attribution importer i package ∈ qs ∧
        ∃ c ∈ metCircles facts importer i package, w = c.text) ∧
    ∀ importer i package, ∀ c ∈ metCircles facts importer i package, ∃ nodes last,
      Closes facts importer i package c nodes last ∧ (facts.Separate → last ∈ nodes) := by
  constructor
  · exact fun w hw => (mem_warnings_answerAll facts qs).1 hw
  · intro importer i package c hc
    obtain ⟨nodes, last, closes⟩ := closes_of_gaveUp ((mem_metCircles ..).1 hc)
    exact ⟨nodes, last, closes, closes.genuine⟩

/-- A file that re-exports a name from itself makes a circle, which comes back to its start. -/
theorem circles_close_at_start :
    let facts : RepositoryFacts :=
      { files := [{ path := "a.js", reexports := [⟨"x", "./a.js", "x"⟩] }] }
    let i : Import := ⟨"./a.js", "x", "x", .named, ⟨"main.js", 1, 10⟩⟩
    Genuine facts "main.js" i "p" ⟨"main.js", "x", ["a.js", "a.js"]⟩ := by
  intro facts i
  have separate : facts.Separate := by
    intro f hf g hg rest he
    cases List.mem_singleton.1 hf
    cases List.mem_singleton.1 hg
    have length := congrArg String.length he
    rw [String.length_append, String.length_append] at length
    have bar : "|".length = 1 := rfl
    omega
  have begins : searchStart facts "main.js" i = some ⟨"a.js", "x"⟩ := by
    rw [searchStart_eq_first?]
    decide +kernel
  have met : ⟨"main.js", "x", ["a.js", "a.js"]⟩ ∈ metCircles facts "main.js" i "p" := by
    rw [mem_metCircles, notedImport_of_start begins]
    decide +kernel
  obtain ⟨nodes, last, closes, comes⟩ := (circles_close facts []).2 "main.js" i "p" _ met
  exact ⟨nodes, last, closes, comes separate⟩

/-- The name asked of one file has a bar, and the path of the other file goes on with what stands
before it. The search takes the two for one node, which no chain of re-exports comes back to. -/
theorem warning_of_shared_mark :
    let facts : RepositoryFacts := { files := [
      { path := "a.js", reexports := [⟨"b.js|x", "./a.js|b.js", "x"⟩] },
      { path := "a.js|b.js", reexports := [⟨"x", "p", "x"⟩] }] }
    let i : Import := ⟨"./a.js", "b.js|x", "y", .named, ⟨"main.js", 1, 10⟩⟩
    (∃ w, w ∈ ((ofFacts facts).answerAll [.attribution "main.js" i "p"]).2.warnings) ∧
      ∀ c, ¬ Genuine facts "main.js" i "p" c := by
  intro facts i
  have begins : searchStart facts "main.js" i = some ⟨"a.js", "b.js|x"⟩ := by
    rw [searchStart_eq_first?]
    decide +kernel
  have met : ⟨"main.js", "x", ["a.js", "a.js|b.js"]⟩ ∈ metCircles facts "main.js" i "p" := by
    rw [mem_metCircles, notedImport_of_start begins]
    decide +kernel
  have goes : Hop.successors facts "p" ⟨"a.js", "b.js|x"⟩ = [.node ⟨"a.js|b.js", "x"⟩] := by
    decide +kernel
  have arrives : Hop.successors facts "p" ⟨"a.js|b.js", "x"⟩ = [.arrival ("p", "x")] := by
    decide +kernel
  refine ⟨⟨_, (mem_warnings_answerAll ..).2
    ⟨"main.js", i, "p", List.mem_cons_self, _, met, rfl⟩⟩, ?_⟩
  rintro c ⟨nodes, last, closes, comes⟩
  obtain ⟨start, ks, hs, route⟩ := closes.route
  rw [begins, Option.some.injEq] at hs
  subst hs
  exact route.not_mem_of_arrival goes arrives (by decide) comes

end Resolver

end PackageUsage
