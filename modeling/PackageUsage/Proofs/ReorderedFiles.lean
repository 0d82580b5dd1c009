import PackageUsage.Proofs.ImportAccounting

namespace PackageUsage
set_option autoImplicit true
open Attribution

/-- A file without its imports. -/
def FileFacts.bare (f : FileFacts) : FileFacts := { f with imports := [] }

theorem FileFacts.path_of_bare (h : bare f = bare g) : f.path = g.path := by
  change f.bare.path = g.bare.path
  rw [h]

/-- The same file with its imports in another order. -/
structure FileFacts.Reordered (f g : FileFacts) : Prop where
  bare : f.bare = g.bare
  imports : f.imports.Perm g.imports

namespace RepositoryFacts

/-- The same files in another order, each with its imports in another order. -/
def Reordered (facts facts' : RepositoryFacts) : Prop :=
  ∃ files, facts.files.Perm files ∧ List.Forall₂ FileFacts.Reordered files facts'.files

/-- No two files have the same normal path. -/
def Distinct (facts : RepositoryFacts) : Prop :=
  (facts.files.map fun f => Modules.normalize f.path).Nodup

instance (facts : RepositoryFacts) : Decidable facts.Distinct :=
  inferInstanceAs (Decidable (List.Nodup _))

theorem Reordered.bare (h : Reordered facts facts') :
    (facts.files.map (·.bare)).Perm (facts'.files.map (·.bare)) := by
  obtain ⟨files, perm, same⟩ := h
  refine (perm.map _).trans (.of_eq ?_)
  clear perm
  generalize facts'.files = files' at same
  induction same with
  | nil => rfl
  | cons hf _ ih => rw [List.map_cons, List.map_cons, hf.bare, ih]

theorem Reordered.flatMap (h : Reordered facts facts') {F F' : FileFacts → Import → List α}
    (hF : ∀ f g, f.bare = g.bare → F f = F' g) :
    (facts.files.flatMap fun f => f.imports.flatMap (F f)).Perm
      (facts'.files.flatMap fun f => f.imports.flatMap (F' f)) := by
  obtain ⟨files, perm, same⟩ := h
  refine (perm.flatMap_right _).trans ?_
  clear perm
  generalize facts'.files = files' at same
  induction same with
  | nil => exact .nil
  | cons hf _ ih =>
    rw [List.flatMap_cons, List.flatMap_cons, hF _ _ hf.bare]
    exact (hf.imports.flatMap_right _).append ih

theorem Reordered.distinct (h : Reordered facts facts') (hd : facts.Distinct) :
    facts'.Distinct := by
  have paths := h.bare.map fun f => Modules.normalize f.path
  rw [List.map_map, List.map_map] at paths
  exact paths.nodup_iff.1 hd

end RepositoryFacts

namespace Modules.Index

/-- Two indexes with the same paths and the same re-exports. -/
structure Alike (i j : Index) : Prop where
  reexports : ∀ path, (i.file? path).map (·.reexports) = (j.file? path).map (·.reexports)
  fuel : ∀ requested, fuelFor i requested = fuelFor j requested

variable {i j : Index}

theorem Alike.find? (h : i.Alike j) (importer module : String) :
    i.find? importer module = j.find? importer module := by
  have found (path : String) : (i.file? path).isSome = (j.file? path).isSome := by
    rw [← Option.isSome_map (f := (·.reexports)), h.reexports, Option.isSome_map]
  simp only [Index.find?, found]

theorem Alike.logging (h : i.Alike j) : Services.logging i = Services.logging j := by
  simp only [Services.logging, h.find?]

end Modules.Index

namespace Attribution
variable {m : Type → Type} [Monad m] {i j : Modules.Index}

theorem Search.through_congr {s s' : Search} (h : s.package = s'.package) (services : Services m)
    (trail : List String) (current requested : String)
    (visit : String → String → m (Option Origin)) (bindings : List Reexport) :
    s.through services trail current requested visit bindings =
      s'.through services trail current requested visit bindings := by
  induction bindings with
  | nil => rfl
  | cons b rest ih => simp only [Search.through, h, ih]

/-- A search looks at the re-exports of a file only. -/
theorem Search.file_succ (s : Search) (services : Services m) (fuel : Nat)
    (visited trail : List String) (current requested : String) :
    s.file services (fuel + 1) visited trail current requested =
      if visited.contains (mark current requested) then do
        services.report ⟨s.importer, requested, trail ++ [current]⟩
        pure none
      else match (s.index.file? current).map (·.reexports) with
        | none => pure none
        | some bindings => s.through services trail current requested
            (s.file services fuel (mark current requested :: visited) (trail ++ [current]))
            (Reexport.select bindings requested) := by
  rw [Search.file]
  cases s.index.file? current <;> rfl

theorem Search.file_congr (h : i.Alike j) (importer package : String) (services : Services m)
    (fuel : Nat) (visited trail : List String) (current requested : String) :
    Search.file ⟨i, importer, package⟩ services fuel visited trail current requested =
      Search.file ⟨j, importer, package⟩ services fuel visited trail current requested := by
  induction fuel generalizing visited trail current requested with
  | zero => rw [Search.file, Search.file]
  | succ fuel ih =>
    have visit : Search.file ⟨i, importer, package⟩ services fuel
        (mark current requested :: visited) (trail ++ [current]) =
          Search.file ⟨j, importer, package⟩ services fuel
            (mark current requested :: visited) (trail ++ [current]) :=
      funext fun file => funext fun name => ih _ _ file name
    rw [Search.file_succ, Search.file_succ, h.reexports, visit]
    dsimp only
    split
    · rfl
    split
    · rfl
    · apply Search.through_congr
      rfl

theorem ofImport_congr (h : i.Alike j) (services : Services m) (importer : String)
    (imported : Import) (package : String) :
    ofImport services i importer imported package =
      ofImport services j importer imported package := by
  simp only [ofImport, h.fuel, Search.file_congr h]

end Attribution

namespace RepositoryFacts

theorem mem_file? (hd : facts.Distinct) : (Modules.Index.ofFacts facts).file? path = some f ↔
    f ∈ facts.files ∧ Modules.normalize f.path = path := by
  have distinct : (((Modules.Index.ofFacts facts).files.reverse).map (·.1)).Nodup := by
    rw [Modules.Index.ofFacts, List.map_reverse, List.nodup_reverse, List.map_map]
    exact hd
  rw [Modules.Index.file?, lookup_eq_some_iff_mem distinct, List.mem_reverse,
    Modules.Index.ofFacts, List.mem_map]
  constructor
  · rintro ⟨f, hf, he⟩
    cases he
    exact ⟨hf, rfl⟩
  · rintro ⟨hf, rfl⟩
    exact ⟨f, hf, rfl⟩

theorem reexports_file? (hd : facts.Distinct) :
    ((Modules.Index.ofFacts facts).file? path).map (·.reexports) = some bindings ↔
      ∃ b ∈ facts.files.map (·.bare), Modules.normalize b.path = path ∧ b.reexports = bindings := by
  rw [Option.map_eq_some_iff]
  simp only [mem_file? hd, List.mem_map, exists_exists_and_eq_and, and_assoc]
  rfl

theorem names_ofFacts (facts : RepositoryFacts) (requested : String) :
    names (.ofFacts facts) requested = (requested ::
      (facts.files.map (·.bare)).flatMap fun f => f.reexports.map (·.sourceName)).eraseDups := by
  rw [names, Modules.Index.ofFacts, List.flatMap_map, List.flatMap_map]
  rfl

theorem Reordered.alike (h : facts.Reordered facts') (hd : facts.Distinct) :
    (Modules.Index.ofFacts facts).Alike (.ofFacts facts') where
  reexports path := by
    apply Option.ext
    intro bindings
    rw [reexports_file? hd, reexports_file? (h.distinct hd)]
    simp only [h.bare.mem_iff]
  fuel requested := by
    have files : facts.files.length = facts'.files.length := by
      simpa only [List.length_map] using h.bare.length_eq
    have names : (names (.ofFacts facts) requested).length =
        (names (.ofFacts facts') requested).length := by
      rw [names_ofFacts, names_ofFacts]
      exact length_eraseDups_of_perm ((h.bare.flatMap_right _).cons requested)
    rw [fuelFor, fuelFor, names, Modules.Index.ofFacts, Modules.Index.ofFacts, List.length_map,
      List.length_map, files]

end RepositoryFacts

/-- An occurrence in a file without its imports. -/
def Occurrence.bare (o : Occurrence) : Occurrence := { o with file := o.file.bare }

namespace Usage

theorem attributionOf_reordered (h : facts.Reordered facts') (hd : facts.Distinct)
    (importer : String) (i : Import) (package : String) :
    ((Resolver.ofFacts facts).attributionOf importer i package).1 =
      ((Resolver.ofFacts facts').attributionOf importer i package).1 := by
  have alike := h.alike hd
  rw [(Resolver.coherent_ofFacts facts).attributionOf,
    (Resolver.coherent_ofFacts facts').attributionOf, alike.logging, ofImport_congr alike]

theorem asked_reordered (h : facts.Reordered facts') (hd : facts.Distinct) (package : String)
    (hf : f.bare = g.bare) : asked facts package f = asked facts' package g := by
  have alike := h.alike hd
  funext i
  rw [asked, asked, FileFacts.path_of_bare hf, alike.logging, ofImport_congr alike]

theorem occurrence?_reordered (h : facts.Reordered facts') (hd : facts.Distinct)
    (package : String) (hf : f.bare = g.bare) (i : Import) :
    (occurrence? facts package f i).map (·.bare) =
      (occurrence? facts' package g i).map (·.bare) := by
  rw [occurrence?, occurrence?, FileFacts.path_of_bare hf, attributionOf_reordered h hd]
  split
  · simp only [Option.map_some, Occurrence.bare, hf]
  · rfl

theorem occurrences_reordered (h : facts.Reordered facts') (hd : facts.Distinct)
    (package : String) :
    ((occurrences facts package).map (·.bare)).Perm
      ((occurrences facts' package).map (·.bare)) := by
  have flat (facts : RepositoryFacts) : (occurrences facts package).map (·.bare) =
      facts.files.flatMap fun f =>
        f.imports.flatMap fun i => ((occurrence? facts package f i).map (·.bare)).toList := by
    rw [occurrences, List.map_flatMap]
    refine congrArg facts.files.flatMap (funext fun f => ?_)
    rw [List.map_filterMap, List.filterMap_eq_flatMap_toList]
  rw [flat, flat]
  exact h.flatMap fun f g hf => funext fun i =>
    congrArg Option.toList (occurrence?_reordered h hd package hf i)

theorem warnings_resolverAfter_reordered (h : facts.Reordered facts') (hd : facts.Distinct)
    (package : String) :
    (resolverAfter package facts).warnings = (resolverAfter package facts').warnings := by
  have events := h.flatMap fun f g hf => asked_reordered h hd package hf
  rw [Resolver.warnings, Resolver.warnings]
  refine (Text.ascending_sort (coherent_resolverAfter package facts).circles).ext
    (Text.ascending_sort (coherent_resolverAfter package facts').circles) fun w => ?_
  rw [Text.mem_sort, Text.mem_sort, resolverAfter, resolverAfter, Resolver.mem_circles_replay,
    Resolver.mem_circles_replay, (events.filterMap _).mem_iff]
  rfl

end Usage

end PackageUsage
