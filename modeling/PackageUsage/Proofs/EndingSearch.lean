import PackageUsage.Proofs.NotedSearch

namespace PackageUsage
set_option autoImplicit true
open Walks Attribution

namespace Attribution

/-- A call of the search: the nodes on the way to it, the last one first, and the node searched. -/
structure Call where
  before : List Hop
  node : Hop

namespace Call

def trail (c : Call) : List String := (c.before.map (·.file)).reverse

/-- The call for a node that the re-exports of this one lead to. -/
def next (c : Call) (n : Hop) : Call := ⟨c.node :: c.before, n⟩

def Repeats (c : Call) : Prop := c.node.mark ∈ c.before.map Hop.mark

mutual

/-- The search of a node ends with an outcome, after some calls. The first of them is its own. -/
inductive Ends (facts : RepositoryFacts) (package : String) :
    Call → Option Origin → List Call → Prop
  | gaveUp : c.Repeats → Ends facts package c none [c]
  | searched : ¬ c.Repeats → Tries facts package c (c.node.successors facts package) o calls →
      Ends facts package c o (c :: calls)

/-- Trying successors of a node one after the other ends with an outcome, after some calls. -/
inductive Tries (facts : RepositoryFacts) (package : String) :
    Call → List (Successor Hop (String × String)) → Option Origin → List Call → Prop
  | nil : Tries facts package c [] none []
  | arrival : Tries facts package c (.arrival b :: rest)
      (some (origin (c.trail ++ [c.node.file]) [] b)) []
  | nothing : Tries facts package c rest o calls → Tries facts package c (.nothing :: rest) o calls
  | found : Ends facts package (c.next n) (some o) calls →
      Tries facts package c (.node n :: rest) (some o) calls
  | failed : Ends facts package (c.next n) none calls → Tries facts package c rest o more →
      Tries facts package c (.node n :: rest) o (calls ++ more)

end

theorem trail_next (c : Call) (n : Hop) : (c.next n).trail = c.trail ++ [c.node.file] := by
  rw [trail, next, List.map_cons, List.reverse_cons]
  rfl

theorem length_trail (c : Call) : c.trail.length = c.before.length := by
  rw [trail, List.length_reverse, List.length_map]

theorem Ends.unique (h : Ends facts package c o calls) :
    ∀ o' calls', Ends facts package c o' calls' → o' = o ∧ calls' = calls := by
  induction h using Ends.rec (motive_2 := fun c todo o calls _ =>
    ∀ o' calls', Tries facts package c todo o' calls' → o' = o ∧ calls' = calls) with
  | gaveUp hr =>
    intro o' calls' h'
    cases h' with
    | gaveUp _ => exact ⟨rfl, rfl⟩
    | searched hn _ => exact (hn hr).elim
  | searched hn _ ih =>
    intro o' calls' h'
    cases h' with
    | gaveUp hr => exact (hn hr).elim
    | searched _ h' =>
      obtain ⟨rfl, rfl⟩ := ih _ _ h'
      exact ⟨rfl, rfl⟩
  | nil o' calls' h' =>
    cases h'
    exact ⟨rfl, rfl⟩
  | arrival o' calls' h' =>
    cases h'
    exact ⟨rfl, rfl⟩
  | nothing _ ih o' calls' h' =>
    cases h' with
    | nothing h' => exact ih _ _ h'
  | found _ ih o' calls' h' =>
    cases h' with
    | found h' => exact ih _ _ h'
    | failed h' _ => cases (ih _ _ h').1
  | failed _ _ ih ihrest o' calls' h' =>
    cases h' with
    | found h' => cases (ih _ _ h').1
    | failed h' more =>
      obtain ⟨_, rfl⟩ := ih _ _ h'
      obtain ⟨rfl, rfl⟩ := ihrest _ _ more
      exact ⟨rfl, rfl⟩

/-- The nodes of a call are ones that a search for a name may come to, and none of those left behind
has the mark of another one. -/
structure Within (facts : RepositoryFacts) (requested : String) (c : Call) : Prop where
  node : c.node ∈ territory (.ofFacts facts) requested
  before : c.before ⊆ territory (.ofFacts facts) requested
  distinct : (c.before.map Hop.mark).Nodup

theorem Within.next {c : Call} (h : c.Within facts requested) (hn : ¬ c.Repeats)
    (hs : .node n ∈ c.node.successors facts package) : (c.next n).Within facts requested where
  node := successor_node_mem_territory h.node hs
  before := List.cons_subset.2 ⟨h.node, h.before⟩
  distinct := h.distinct.cons hn

theorem Within.length_trail_le {c : Call} (h : c.Within facts requested) :
    c.trail.length ≤ facts.files.length * (names (.ofFacts facts) requested).length := by
  have fits := (List.subperm_of_subset h.distinct.of_map h.before).length_le
  rw [length_territory] at fits
  rw [length_trail]
  have files : (Modules.Index.ofFacts facts).files.length = facts.files.length := List.length_map ..
  rwa [files] at fits

/-- A search leaves no node behind twice, so that all its calls stay within the nodes it may come
to. -/
theorem Ends.within (h : Ends facts package c o calls) (hc : c.Within facts requested) :
    ∀ c' ∈ calls, c'.Within facts requested := by
  induction h using Ends.rec (motive_2 := fun c todo _ calls _ =>
    (∀ n, .node n ∈ todo → (c.next n).Within facts requested) →
      ∀ c' ∈ calls, c'.Within facts requested) with
  | gaveUp _ => exact List.forall_mem_singleton.2 hc
  | searched hn _ ih => exact List.forall_mem_cons.2 ⟨hc, ih fun n hs => hc.next hn hs⟩
  | nil hs c' hc => exact (List.not_mem_nil hc).elim
  | arrival hs c' hc => exact (List.not_mem_nil hc).elim
  | nothing _ ih hs c' hc => exact ih (fun n hn => hs n (List.mem_cons_of_mem _ hn)) c' hc
  | found _ ih hs c' hc => exact ih (hs _ List.mem_cons_self) c' hc
  | failed _ _ ih ihrest hs c' hc =>
    rcases List.mem_append.1 hc with hc | hc
    · exact ih (hs _ List.mem_cons_self) c' hc
    · exact ihrest (fun n hn => hs n (List.mem_cons_of_mem _ hn)) c' hc

theorem exists_tries {visit : String → String → Option Origin}
    (h : ∀ n, .node n ∈ todo → ∃ calls, Ends facts package (c.next n) (visit n.file n.name) calls) :
    ∃ calls, Tries facts package c todo
      (todo.findSome? (Attribution.follow visit (c.trail ++ [c.node.file]))) calls := by
  induction todo with
  | nil => exact ⟨[], .nil⟩
  | cons s rest ih =>
    obtain ⟨more, hrest⟩ := ih fun n hn => h n (List.mem_cons_of_mem _ hn)
    rw [List.findSome?_cons]
    cases s with
    | arrival b =>
      exact ⟨[], .arrival⟩
    | node n =>
      obtain ⟨calls, hn⟩ := h n List.mem_cons_self
      rw [Attribution.follow]
      cases hv : visit n.file n.name with
      | none => exact ⟨_, .failed (hv ▸ hn) hrest⟩
      | some o => exact ⟨_, .found (hv ▸ hn)⟩
    | nothing => exact ⟨more, .nothing hrest⟩

theorem repeats_iff (c : Call) :
    (c.before.map Hop.mark).contains (mark c.node.file c.node.name) = true ↔ c.Repeats :=
  List.contains_iff_mem

theorem file_of_repeats {c : Call} (h : c.Repeats) (s : Search) (services : Services Id)
    (fuel : Nat) :
    s.file services fuel (c.before.map Hop.mark) c.trail c.node.file c.node.name = none := by
  rw [Search.file.eq_def, if_pos (c.repeats_iff.2 h)]
  rfl

/-- Where there is fuel for all nodes that have not been left behind, the search with fuel tells the
outcome of the search. -/
theorem exists_ends (hl : Serves facts services)
    (hr : Room (territory (.ofFacts facts) requested) c.before fuel)
    (hn : c.node ∈ territory (.ofFacts facts) requested) (importer package : String) :
    ∃ calls, Ends facts package c (Search.file ⟨.ofFacts facts, importer, package⟩ services fuel
      (c.before.map Hop.mark) c.trail c.node.file c.node.name) calls := by
  -- There is room for one node less after each, so that without fuel all of them are behind.
  induction fuel generalizing c with
  | zero =>
    have repeats : c.Repeats := List.mem_map_of_mem (hr.visited_of_no_fuel hn)
    rw [file_of_repeats repeats]
    exact ⟨_, .gaveUp repeats⟩
  | succ fuel ih =>
    by_cases repeats : c.Repeats
    · rw [file_of_repeats repeats]
      exact ⟨_, .gaveUp repeats⟩
    have fresh : c.node ∉ c.before := fun hm => repeats (List.mem_map_of_mem hm)
    rw [file_eq_findSome? hl (mt c.repeats_iff.1 repeats)]
    refine (exists_tries fun n hs => ?_).imp' (c :: ·) fun _ tries => .searched repeats tries
    have ends := ih (c := c.next n) (hr.visit hn fresh) (successor_node_mem_territory hn hs)
    rwa [trail_next] at ends

end Call

theorem startOf_of_searchStart (h : searchStart facts importer i = some start) :
    Specifier.isRelative i.module = true ∧ i.kind ≠ .wholeModule ∧
      startOf facts importer i = some start ∧ start.name = requestedBy i := by
  rw [searchStart] at h
  split at h
  · cases h
  · rename_i searched
    rw [Bool.or_eq_true, not_or, Bool.not_eq_true', Bool.not_eq_false, decide_eq_true_eq]
      at searched
    obtain ⟨file, hl, rfl⟩ := Option.map_eq_some_iff.1 h
    exact ⟨searched.1, searched.2, h, rfl⟩

end Attribution

namespace Resolver

/-- The search for the origin of an import ends, without a bound on its depth. What it comes to is
what the resolver answers, and no call is longer in coming than there are files and names. -/
theorem search_ends (facts : RepositoryFacts) (history : List Question) (importer : String)
    (i : Import) (package : String) :
    let found := (((ofFacts facts).answerAll history).2.attributionOf importer i package).1
    match searchStart facts importer i with
    | none => found = none
    | some start => ∃ outcome calls, Call.Ends facts package ⟨[], start⟩ outcome calls ∧
        (∀ o cs, Call.Ends facts package ⟨[], start⟩ o cs → o = outcome ∧ cs = calls) ∧
        found = outcome.map (ofOrigin (Modules.normalize importer)) ∧
        ∀ c ∈ calls, c.trail.length ≤
          facts.files.length * (names (.ofFacts facts) (requestedBy i)).length := by
  intro found
  cases hs : searchStart facts importer i with
  | none =>
    have value := (coherent_answerAll facts history).attributionOf importer i package
    simp only [found, value]
    rw [(alike_notedImport facts importer i package).value, notedImport, hs]
    rfl
  | some start =>
    obtain ⟨relative, named, begins, name⟩ := startOf_of_searchStart hs
    have reached := start_mem_territory begins
    have room := room_start (.ofFacts facts) (requestedBy i)
    obtain ⟨calls, ends⟩ := Call.exists_ends (c := ⟨[], start⟩) (serves_plain facts) room reached
      (Modules.normalize importer) package
    refine ⟨_, calls, ends, ends.unique, ?_, ?_⟩
    · simp only [found, history_attributionOf facts history relative named, begins]
      rfl
    · intro c hc
      have start : Call.Within facts (requestedBy i) ⟨[], start⟩ :=
        ⟨reached, List.nil_subset _, .nil⟩
      exact (ends.within start c hc).length_trail_le

end Resolver

end PackageUsage
