import Mathlib.Data.List.Perm.Subperm
import PackageUsage.Proofs.FirstPath
import PackageUsage.Proofs.ResolverHistory

namespace PackageUsage
set_option autoImplicit true
open Walks Attribution

theorem Reexport.select_subset (bindings : List Reexport) (requested : String) :
    select bindings requested ⊆ bindings := by
  rw [select]
  split
  · exact List.filter_subset_self _
  · exact List.filter_subset_self _

theorem Modules.Index.mem_of_file? {index : Modules.Index} (h : index.file? path = some f) :
    (path, f) ∈ index.files :=
  List.mem_reverse.1 (mem_of_lookup h)

theorem Modules.Index.mem_of_find? {index : Modules.Index}
    (h : index.find? importer specifier = some path) : path ∈ index.files.map (·.1) := by
  rw [find?] at h
  have hs := List.find?_some h
  obtain ⟨f, hf⟩ := Option.isSome_iff_exists.1 hs
  exact List.mem_map_of_mem (mem_of_file? hf)

theorem Resolver.fresh_resolveModule (facts : RepositoryFacts) (importer module : String) :
    ((ofFacts facts).resolveModule importer module).1 =
      (Modules.Index.ofFacts facts).find? (Modules.normalize importer) module :=
  (coherent_ofFacts facts).resolveModule importer module

namespace Attribution

/-- A file and a name asked of it. -/
structure Hop where
  file : String
  name : String

/-- Where a re-export leads that may provide the name of a node. -/
def Hop.successor (facts : RepositoryFacts) (package : String) (n : Hop) (b : Reexport) :
    Successor Hop (String × String) :=
  let name := Reexport.forwarded b.sourceName n.name
  if Specifier.belongsTo b.sourceModule package then .arrival (b.sourceModule, name)
  else if Specifier.isRelative b.sourceModule then
    match ((Resolver.ofFacts facts).resolveModule n.file b.sourceModule).1 with
    | some file => .node ⟨file, name⟩
    | none => .nothing
  else .nothing

/-- The successors of a node, in the order of the re-exports. -/
def Hop.successors (facts : RepositoryFacts) (package : String) (n : Hop) :
    List (Successor Hop (String × String)) :=
  match (Modules.Index.ofFacts facts).file? n.file with
  | some f => (Reexport.select f.reexports n.name).map (n.successor facts package)
  | none => []

/-- The node at which the search for an import starts. -/
def startOf (facts : RepositoryFacts) (importer : String) (i : Import) : Option Hop :=
  ((Resolver.ofFacts facts).resolveModule importer i.module).1.map (⟨·, requestedBy i⟩)

def Hop.mark (n : Hop) : String := Attribution.mark n.file n.name

theorem takeWhile_ne_append_cons {xs : List Char} (hx : c ∉ xs) (zs : List Char) :
    (xs ++ c :: zs).takeWhile (· != c) = xs := by
  rw [List.takeWhile_append_of_pos, List.takeWhile_cons_of_neg, List.append_nil]
  · rw [bne_self_eq_false]
    exact Bool.false_ne_true
  · exact fun x h => bne_iff_ne.2 fun he => hx (he ▸ h)

theorem not_mem_of_hasChar (h : Text.hasChar s c = false) : c ∉ s.toList := by
  simpa only [Text.hasChar, List.contains_eq_mem, decide_eq_false_iff_not] using h

/-- What stands before the first bar of a mark is the file. -/
theorem Hop.mark_inj {n n' : Hop} (h : Text.hasChar n.file '|' = false)
    (h' : Text.hasChar n'.file '|' = false) (he : n.mark = n'.mark) : n = n' := by
  have hc := congrArg String.toList he
  simp only [Hop.mark, Attribution.mark, String.toList_append, List.append_assoc] at hc
  have hf := takeWhile_ne_append_cons (not_mem_of_hasChar h) n.name.toList
  have hf' := takeWhile_ne_append_cons (not_mem_of_hasChar h') n'.name.toList
  have file := hf.symm.trans ((congrArg _ hc).trans hf')
  rw [file] at hc
  have name := List.append_cancel_left (List.append_cancel_left hc)
  obtain ⟨_, _⟩ := n
  rw [Hop.mk.injEq]
  exact ⟨String.toList_injective file, String.toList_injective name⟩

/-- The origin that a path tells which goes on from a trail. -/
def origin (trail : List String) (path : List Hop) (arrival : String × String) : Origin :=
  ⟨arrival.1, arrival.2, trail ++ path.map (·.file)⟩

def follow (visit : String → String → Option Origin) (trail : List String) :
    Successor Hop (String × String) → Option Origin
  | .arrival b => some (origin trail [] b)
  | .node n => visit n.file n.name
  | .nothing => none

theorem origin_cons (trail : List String) (n : Hop) :
    (fun path => origin trail (n :: path)) = origin (trail ++ [n.file]) := by
  funext path arrival
  simp only [origin, List.map_cons, List.append_assoc, List.singleton_append]

/-- Services that find the files that a fresh resolver finds. -/
structure Serves (facts : RepositoryFacts) (services : Services Id) : Prop where
  locate : ∀ file module, services.locate file module =
    ((Resolver.ofFacts facts).resolveModule file module).1

theorem through_eq_findSome? (hl : Serves facts services) (s : Search) (trail : List String)
    (n : Hop) (visit : String → String → Option Origin) (bindings : List Reexport) :
    s.through services trail n.file n.name visit bindings =
      (bindings.map (n.successor facts s.package)).findSome?
        (follow visit (trail ++ [n.file])) := by
  induction bindings with
  | nil => rfl
  | cons b rest ih =>
    simp only [Search.through, List.map_cons, List.findSome?_cons, Hop.successor, hl.locate]
    split
    · simp only [follow, origin, List.map_nil, List.append_nil]
      rfl
    cases Specifier.isRelative b.sourceModule with
    | false => exact ih
    | true =>
      generalize ((Resolver.ofFacts facts).resolveModule n.file b.sourceModule).1 = found
      cases found with
      | none => exact ih
      | some file =>
        simp only [↓reduceIte, Bool.not_true, Bool.false_eq_true, follow, ← ih, bind]
        cases visit file (Reexport.forwarded b.sourceName n.name) <;> rfl

theorem file_eq_findSome? {n : Hop} (hl : Serves facts services)
    (hv : ¬ visited.contains (mark n.file n.name) = true) (importer package : String) (fuel : Nat)
    (trail : List String) :
    Search.file ⟨.ofFacts facts, importer, package⟩ services (fuel + 1) visited trail n.file
        n.name =
      (n.successors facts package).findSome? (follow
        (Search.file ⟨.ofFacts facts, importer, package⟩ services fuel
          (mark n.file n.name :: visited) (trail ++ [n.file])) (trail ++ [n.file])) := by
  rw [Search.file, if_neg hv, Hop.successors]
  cases (Modules.Index.ofFacts facts).file? n.file with
  | none => rfl
  | some f => exact through_eq_findSome? hl _ _ _ _ _

/-- The nodes that a search for a name may come to. -/
def territory (index : Modules.Index) (requested : String) : List Hop :=
  (index.files.map (·.1)).flatMap fun file => (names index requested).map (Hop.mk file)

theorem mem_territory {n : Hop} : n ∈ territory index requested ↔
    n.file ∈ index.files.map (·.1) ∧ n.name ∈ names index requested := by
  simp only [territory, List.mem_flatMap, List.mem_map]
  constructor
  · rintro ⟨_, hf, name, hn, rfl⟩
    exact ⟨hf, hn⟩
  · rintro ⟨hf, hn⟩
    exact ⟨n.file, hf, n.name, hn, rfl⟩

theorem length_territory (index : Modules.Index) (requested : String) :
    (territory index requested).length =
      index.files.length * (names index requested).length := by
  rw [territory, List.length_flatMap]
  simp only [List.length_map, List.map_map, Function.comp_def, List.map_const',
    List.sum_replicate_nat]

theorem forwarded_mem_names (hf : (file, f) ∈ index.files) (hb : b ∈ f.reexports)
    (hn : name ∈ names index requested) :
    Reexport.forwarded b.sourceName name ∈ names index requested := by
  rw [Reexport.forwarded]
  split
  · exact hn
  · rw [names, List.mem_eraseDups]
    apply List.mem_cons_of_mem
    exact List.mem_flatMap.2 ⟨_, hf, List.mem_map_of_mem hb⟩

theorem successor_node_mem_territory {n n' : Hop}
    (hn : n ∈ territory (.ofFacts facts) requested)
    (h : .node n' ∈ n.successors facts package) : n' ∈ territory (.ofFacts facts) requested := by
  rw [Hop.successors] at h
  split at h
  · rename_i f hf
    obtain ⟨b, hb, hs⟩ := List.mem_map.1 h
    rw [Hop.successor] at hs
    split at hs
    · cases hs
    split at hs
    · split at hs
      · rename_i file hl
        cases hs
        rw [Resolver.fresh_resolveModule] at hl
        refine mem_territory.2 ⟨Modules.Index.mem_of_find? hl, ?_⟩
        exact forwarded_mem_names (Modules.Index.mem_of_file? hf)
          (Reexport.select_subset _ _ hb) (mem_territory.1 hn).2
      · cases hs
    · cases hs
  · cases h

/-- The nodes visited are different ones of a region, and there is fuel for all the others. -/
structure Room (region visited : List Hop) (fuel : Nat) : Prop where
  nodup : visited.Nodup
  within : visited ⊆ region
  enough : region.length < visited.length + fuel

theorem Room.visit (h : Room region visited (fuel + 1)) (hn : n ∈ region)
    (hv : n ∉ visited) : Room region (n :: visited) fuel where
  nodup := h.nodup.cons hv
  within := List.cons_subset.2 ⟨hn, h.within⟩
  enough := by
    have := h.enough
    rw [List.length_cons]
    omega

theorem Room.visited_of_no_fuel (h : Room region visited 0) (hn : n ∈ region) :
    n ∈ visited := by
  by_contra hv
  have hle := (List.subperm_of_subset (h.nodup.cons hv)
    (List.cons_subset.2 ⟨hn, h.within⟩)).length_le
  have := h.enough
  rw [List.length_cons] at hle
  omega

theorem contains_mark {region visited : List Hop}
    (hbar : ∀ n ∈ region, Text.hasChar n.file '|' = false) (hv : visited ⊆ region)
    (hn : n ∈ region) :
    (visited.map Hop.mark).contains (mark n.file n.name) = true ↔ n ∈ visited := by
  rw [List.contains_iff_mem]
  constructor
  · intro h
    obtain ⟨n', hn', he⟩ := List.mem_map.1 h
    exact Hop.mark_inj (hbar n' (hv hn')) (hbar n hn) he ▸ hn'
  · exact fun h => List.mem_map.2 ⟨n, h, rfl⟩

/-- The search of a node finds the first path from it that stays away from the visited nodes. -/
theorem file_finds (hl : Serves facts services)
    (hbar : ∀ n ∈ territory (.ofFacts facts) requested, Text.hasChar n.file '|' = false)
    (importer package : String) (hr : Room (territory (.ofFacts facts) requested) visited fuel)
    (hn : n ∈ territory (.ofFacts facts) requested) (trail : List String) :
    Finds (Hop.successors facts package) visited (.node n) (origin trail)
      (Search.file ⟨.ofFacts facts, importer, package⟩ services fuel (visited.map Hop.mark) trail
        n.file n.name) := by
  induction fuel generalizing visited n trail with
  | zero =>
    have hv := hr.visited_of_no_fuel hn
    rw [Search.file, if_pos ((contains_mark hbar hr.within hn).2 hv)]
    exact finds_avoided hv
  | succ fuel ih =>
    by_cases hv : n ∈ visited
    · rw [Search.file, if_pos ((contains_mark hbar hr.within hn).2 hv)]
      exact finds_avoided hv
    rw [file_eq_findSome? hl fun hc => hv ((contains_mark hbar hr.within hn).1 hc)]
    apply finds_node hv
    intro s hs
    rw [origin_cons]
    cases s with
    | arrival b => exact finds_arrival _ _
    | node n' => exact ih (hr.visit hn hv) (successor_node_mem_territory hn hs) _
    | nothing => exact finds_nothing _

theorem room_start (index : Modules.Index) (requested : String) :
    Room (territory index requested) [] (fuelFor index requested) where
  nodup := .nil
  within := List.nil_subset _
  enough := by
    rw [length_territory, fuelFor, List.length_nil]
    omega

theorem territory_unbarred
    (hbar : ∀ f ∈ facts.files, Text.hasChar (Modules.normalize f.path) '|' = false)
    (n : Hop) (hn : n ∈ territory (.ofFacts facts) requested) :
    Text.hasChar n.file '|' = false := by
  obtain ⟨e, he, hf⟩ := List.mem_map.1 (mem_territory.1 hn).1
  obtain ⟨f, hm, rfl⟩ := List.mem_map.1 he
  exact hf ▸ hbar f hm

theorem start_mem_territory (h : startOf facts importer i = some n) :
    n ∈ territory (.ofFacts facts) (requestedBy i) := by
  obtain ⟨file, hl, rfl⟩ := Option.map_eq_some_iff.1 h
  rw [Resolver.fresh_resolveModule] at hl
  refine mem_territory.2 ⟨Modules.Index.mem_of_find? hl, ?_⟩
  exact List.mem_eraseDups.2 List.mem_cons_self

theorem ofImport_eq_bind {i : Import} (hl : Serves facts services)
    (hr : Specifier.isRelative i.module = true) (hk : i.kind ≠ .wholeModule)
    (importer package : String) :
    ofImport services (.ofFacts facts) importer i package =
      (startOf facts importer i).bind fun n =>
        (Search.file ⟨.ofFacts facts, Modules.normalize importer, package⟩ services
          (fuelFor (.ofFacts facts) (requestedBy i)) [] [] n.file n.name).map
            (ofOrigin (Modules.normalize importer)) := by
  simp only [ofImport, hr, hk, hl.locate, Bool.not_true, decide_false, Bool.or_self,
    Bool.false_eq_true, ↓reduceIte, startOf]
  cases ((Resolver.ofFacts facts).resolveModule importer i.module).1 with
  | none => rfl
  | some file => rfl

theorem serves_plain (facts : RepositoryFacts) : Serves facts (.plain (.ofFacts facts)) := by
  constructor
  intro file module
  rw [Resolver.fresh_resolveModule]
  simp only [Services.plain]

end Attribution

namespace Resolver

theorem history_attributionOf (facts : RepositoryFacts) (history : List Question) {i : Import}
    (hr : Specifier.isRelative i.module = true) (hk : i.kind ≠ .wholeModule)
    (importer package : String) :
    (((ofFacts facts).answerAll history).2.attributionOf importer i package).1 =
      (startOf facts importer i).bind fun n =>
        (Search.file ⟨.ofFacts facts, Modules.normalize importer, package⟩
          (.plain (.ofFacts facts)) (fuelFor (.ofFacts facts) (requestedBy i)) [] [] n.file
          n.name).map (ofOrigin (Modules.normalize importer)) := by
  rw [(coherent_answerAll facts history).attributionOf, Services.value_ofImport_logging,
    ofImport_eq_bind (serves_plain facts) hr hk]

/-- What an import of a name or of a default is attributed to is told by the first path that the
re-exports offer, and it is attributed if there is any walk at all. -/
theorem attributionOf_first_path (facts : RepositoryFacts) (history : List Question)
    (importer : String) (i : Import) (package : String)
    (hbar : ∀ f ∈ facts.files, Text.hasChar (Modules.normalize f.path) '|' = false)
    (hk : i.kind ≠ .wholeModule) (hr : Specifier.isRelative i.module = true) :
    let found := (((ofFacts facts).answerAll history).2.attributionOf importer i package).1
    (found.isSome ↔ ∃ start ks path arrival, startOf facts importer i = some start ∧
      Walk (Hop.successors facts package) (.node start) ks path arrival) ∧
    ∀ a, found = some a → ∃ start ks path, startOf facts importer i = some start ∧
      First (Hop.successors facts package) [] (.node start) ks path (a.module, a.exportName) ∧
      a.provenance = Text.join arrow (Modules.normalize importer :: path.map (·.file) ++
        [a.module ++ "#" ++ a.exportName]) := by
  rw [history_attributionOf facts history hr hk]
  dsimp only
  cases hs : startOf facts importer i with
  | none =>
    refine ⟨⟨nofun, ?_⟩, nofun⟩
    rintro ⟨start, _, _, _, ⟨⟩, _⟩
  | some start =>
    have hf := file_finds (serves_plain facts) (territory_unbarred hbar)
      (Modules.normalize importer) package (room_start _ _) (start_mem_territory hs) []
    rw [List.map_nil] at hf
    rw [Option.bind_some, Option.isSome_map]
    constructor
    · refine hf.isSome_iff.trans ⟨?_, ?_⟩
      · rintro ⟨ks, path, arrival, hw⟩
        exact ⟨start, ks, path, arrival, rfl, hw⟩
      · rintro ⟨_, ks, path, arrival, ⟨⟩, hw⟩
        exact ⟨ks, path, arrival, hw⟩
    · intro a ha
      obtain ⟨o, ho, rfl⟩ := Option.map_eq_some_iff.1 ha
      rw [ho] at hf
      obtain ⟨ks, path, arrival, hfirst, rfl⟩ := hf
      exact ⟨start, ks, path, rfl, hfirst, rfl⟩

/-- The first re-export leads into a circle, and the second one is taken. -/
theorem attributionOf_past_circle :
    let facts : RepositoryFacts :=
      { files := [{ path := "a.ts", reexports := [⟨"f", "./a", "f"⟩, ⟨"f", "p", "g"⟩] }] }
    let i : Import := ⟨"./a", "f", "f", .named, ⟨"b.ts", 1, 1⟩⟩
    ∃ start ks path, startOf facts "b.ts" i = some start ∧
      First (Hop.successors facts "p") [] (.node start) ks path ("p", "g") ∧
      "b.ts -> a.ts -> p#g" = Text.join arrow
        (Modules.normalize "b.ts" :: path.map (·.file) ++ ["p" ++ "#" ++ "g"]) := by
  intro facts i
  have unbarred : ∀ f ∈ facts.files, Text.hasChar (Modules.normalize f.path) '|' = false := by
    decide +kernel
  exact (attributionOf_first_path facts [.module "b.ts" "./a"] "b.ts" i "p" unbarred (by decide)
    (by decide +kernel)).2 ⟨"p", "g", "b.ts -> a.ts -> p#g"⟩ (by decide +kernel)

end Resolver

end PackageUsage
