import PackageUsage.Proofs.NotedSearch
import PackageUsage.Proofs.Routes

namespace PackageUsage
set_option autoImplicit true
open Walks Attribution

namespace Attribution

def Noted.opened (x : Noted α) : List Hop := x.notes.filterMap (·.opened?)

/-- The nodes that the search for an import opens, in order. -/
def expansions (facts : RepositoryFacts) (importer : String) (i : Import) (package : String) :
    List Hop :=
  (notedImport facts importer i package).opened

/-- The nodes that the re-exports lead to from a start. -/
def Reachable (facts : RepositoryFacts) (package : String) (start n : Hop) : Prop :=
  ∃ ks nodes, Route (Hop.successors facts package) start ks nodes n

theorem opened_notesOf_other (visit : String → String → Noted (Option Origin))
    (h : ∀ n, t ≠ .node n) : (notesOf visit t).filterMap (·.opened?) = [] := by
  cases t with
  | node n => exact (h n rfl).elim
  | arrival b => rfl
  | nothing => rfl

/-- What the search of a node opens is a tour of it, and a complete one if nothing is found. -/
theorem noted_tour (hr : Room (territory (.ofFacts facts) requested) visited fuel)
    (hn : n ∈ territory (.ofFacts facts) requested) (importer package : String)
    (trail : List String) :
    let x := Search.noted ⟨.ofFacts facts, importer, package⟩ fuel (visited.map Hop.mark) trail
      n.file n.name
    ∃ routes, Tour (Hop.successors facts package) Hop.mark (visited.map Hop.mark) n
      (x.value = none) x.opened routes := by
  induction fuel generalizing visited n trail with
  | zero =>
    have hv : n.mark ∈ visited.map Hop.mark := List.mem_map_of_mem (hr.visited_of_no_fuel hn)
    refine ⟨[], ?_⟩
    rw [noted_visited hv]
    exact tour_avoided hv
  | succ fuel ih =>
    by_cases hv : n.mark ∈ visited.map Hop.mark
    · refine ⟨[], ?_⟩
      rw [noted_visited hv]
      exact tour_avoided hv
    obtain ⟨f, hf⟩ := Modules.Index.exists_file? (mem_territory.1 hn).1
    obtain ⟨x, hx, j, notes, failed⟩ := noted_succ hv hf importer package fuel trail
    have fresh : n ∉ visited := fun hm => hv (List.mem_map_of_mem hm)
    simp only [hx, Noted.opened, notes, List.filterMap_cons, Note.opened?, List.filterMap_flatMap]
    refine tour_node hv (fun t _ h => opened_notesOf_other _ h) ?_ fun h => (failed h).1
    intro n' hs
    obtain ⟨routes, tour⟩ := ih (hr.visit hn fresh) (successor_node_mem_territory hn hs) _
    exact ⟨routes, tour.mono fun h => (failed h).2 _ hs⟩

end Attribution

namespace Resolver

theorem value_notedImport (facts : RepositoryFacts) (history : List Question) (importer : String)
    (i : Import) (package : String) :
    (((ofFacts facts).answerAll history).2.attributionOf importer i package).1 =
      (notedImport facts importer i package).value := by
  rw [(coherent_answerAll facts history).attributionOf]
  exact (alike_notedImport facts importer i package).value

/-- The nodes that a search opens are the ends of different simple routes from its start, and of all
of them if it finds nothing. So it opens every node at most once if no two simple routes lead to
the same node, and it needs this if it finds nothing. -/
theorem expansions_tour (facts : RepositoryFacts) (history : List Question) (importer : String)
    (i : Import) (package : String) (hs : searchStart facts importer i = some start) :
    let found := (((ofFacts facts).answerAll history).2.attributionOf importer i package).1
    let opened := expansions facts importer i package
    let next := Hop.successors facts package
    (∃ routes, Tour next Hop.mark [] start (found = none) opened routes) ∧
    (SingleRoutes next Hop.mark start → opened.Nodup ∧
      ∀ pairs : List Hop, (∀ n, Reachable facts package start n → n ∈ pairs) →
        opened.length ≤ pairs.length) ∧
    (found = none → opened.Nodup → SingleRoutes next Hop.mark start) := by
  intro found opened next
  obtain ⟨routes, tour⟩ : ∃ routes, Tour next Hop.mark [] start (found = none) opened routes := by
    obtain ⟨routes, tour⟩ := noted_tour (room_start _ _) (searchStart_mem_territory hs)
      (Modules.normalize importer) package []
    simp only [found, opened, value_notedImport, expansions, notedImport_of_start hs]
    exact ⟨routes, tour.mono Option.map_eq_none_iff.1⟩
  refine ⟨⟨routes, tour⟩, fun single => ?_, fun hf hd => tour.singleRoutes hf hd⟩
  have distinct := tour.nodup single
  refine ⟨distinct, fun pairs hp => ?_⟩
  refine (List.subperm_of_subset distinct fun n ho => ?_).length_le
  obtain ⟨ks, nodes, simple⟩ := tour.route_of_mem ho
  exact hp n ⟨ks, nodes, simple.route⟩

/-- The files of a tree of re-exports that arrives nowhere are opened once each. -/
theorem expansions_of_tree :
    let facts : RepositoryFacts := { files := [
      { path := "a.js", reexports := [⟨"*", "./b.js", "*"⟩, ⟨"*", "./c.js", "*"⟩] },
      { path := "b.js", reexports := [⟨"*", "./b.js", "*"⟩] }, { path := "c.js" }] }
    let i : Import := ⟨"./a.js", "x", "x", .named, ⟨"main.js", 1, 10⟩⟩
    SingleRoutes (Hop.successors facts "p") Hop.mark ⟨"a.js", "x"⟩ ∧
    ∀ pairs : List Hop, (∀ n, Reachable facts "p" ⟨"a.js", "x"⟩ n → n ∈ pairs) →
      (expansions facts "main.js" i "p").length ≤ pairs.length := by
  intro facts i
  have hs : searchStart facts "main.js" i = some ⟨"a.js", "x"⟩ := by
    rw [searchStart_eq_first?]
    decide +kernel
  obtain ⟨_, bounded, needed⟩ := expansions_tour facts [] "main.js" i "p" hs
  rw [value_notedImport, expansions, notedImport_of_start hs] at needed
  have single := needed (by decide +kernel) (by decide +kernel)
  exact ⟨single, (bounded single).2⟩

/-- Two files re-export the same one, which is opened once for each of them. -/
theorem expansions_of_diamond :
    let facts : RepositoryFacts := { files := [
      { path := "a.js", reexports := [⟨"*", "./b.js", "*"⟩, ⟨"*", "./c.js", "*"⟩] },
      { path := "b.js", reexports := [⟨"*", "./d.js", "*"⟩] },
      { path := "c.js", reexports := [⟨"*", "./d.js", "*"⟩] },
      { path := "d.js", reexports := [⟨"*", "./d.js", "*"⟩] }] }
    let i : Import := ⟨"./a.js", "x", "x", .named, ⟨"main.js", 1, 10⟩⟩
    ¬ (expansions facts "main.js" i "p").Nodup := by
  intro facts i
  have hs : searchStart facts "main.js" i = some ⟨"a.js", "x"⟩ := by
    rw [searchStart_eq_first?]
    decide +kernel
  have opened : expansions facts "main.js" i "p" =
      [⟨"a.js", "x"⟩, ⟨"b.js", "x"⟩, ⟨"d.js", "x"⟩, ⟨"c.js", "x"⟩, ⟨"d.js", "x"⟩] := by
    rw [expansions, notedImport_of_start hs]
    decide +kernel
  rw [opened]
  decide

end Resolver

end PackageUsage
