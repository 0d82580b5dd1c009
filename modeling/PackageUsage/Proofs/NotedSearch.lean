import PackageUsage.Proofs.ReexportPath

namespace PackageUsage
set_option autoImplicit true
open Walks

theorem Modules.Index.exists_file? {index : Modules.Index} (h : path ∈ index.files.map (·.1)) :
    ∃ f, index.file? path = some f := by
  obtain ⟨e, he, rfl⟩ := List.mem_map.1 h
  apply Option.isSome_iff_exists.1
  exact List.lookup_isSome_iff.2 ⟨e, List.mem_reverse.2 he, beq_self_eq_true _⟩

theorem find?_eraseDups [BEq α] [LawfulBEq α] (xs : List α) (p : α → Bool) :
    xs.eraseDups.find? p = xs.find? p := by
  match xs with
  | [] => rfl
  | x :: xs =>
    rw [List.eraseDups_cons, List.find?_cons, List.find?_cons]
    cases hx : p x with
    | true => rfl
    | false =>
      simp only
      rw [find?_eraseDups, List.find?_filter]
      congr 1
      funext y
      by_cases hy : y = x
      · simp only [hy, hx, Bool.false_eq_true, and_false, decide_false]
      · simp only [beq_eq_false_iff_ne.2 hy, Bool.not_false, true_and, Bool.decide_eq_true]
termination_by xs.length
decreasing_by exact Nat.lt_succ_of_le (List.length_filter_le _ _)

namespace Modules
open Path.Normal

/-- The candidates for a path as they are tried. Some of them may come up twice. -/
def attempts (path : String) : List String :=
  let whole := normalize path
  let (base, extension) := splitExtension whole
  let stripped := if extension = "" then [] else [base]
  let extended := extensions.flatMap fun e => [base ++ e, joinText base ("index" ++ e)]
  (whole :: stripped ++ extended).map normalize

/-- The first attempt that is a file. No attempt after it has to be made. -/
def Index.first? (i : Index) (importer module : String) : Option String :=
  (attempts (joinText (directory importer) module)).find? fun c => (i.file? c).isSome

theorem Index.find?_eq_first? (i : Index) (importer module : String) :
    i.find? importer module = i.first? importer module :=
  find?_eraseDups _ _

end Modules

namespace Attribution

deriving instance DecidableEq for Hop, Successor

inductive Note where
  | opened (n : Hop)
  | gaveUp (c : Circle)
deriving DecidableEq

/-- A result and the notes that were taken on the way to it, in order. -/
structure Noted (α : Type) where
  value : α
  notes : List Note := []

namespace Noted

def andThen (x : Noted α) (f : α → Noted β) : Noted β :=
  ⟨(f x.value).value, x.notes ++ (f x.value).notes⟩

instance : Monad Noted where
  pure v := ⟨v, []⟩
  bind := andThen

def take (n : Note) : Noted Unit := ⟨(), [n]⟩

theorem pure_bind (v : α) (f : α → Noted β) : pure v >>= f = f v := rfl

theorem bind_of_value {x : Noted α} (h : x.value = v) (f : α → Noted β) :
    x >>= f = ⟨(f v).value, x.notes ++ (f v).notes⟩ := by
  subst h
  rfl

end Noted

def Note.opened? : Note → Option Hop
  | .opened n => some n
  | .gaveUp _ => none

def Note.gaveUp? : Note → Option Circle
  | .opened _ => none
  | .gaveUp c => some c

def Event.circle? : Event → Option Circle
  | .lookup _ _ => none
  | .circle c => some c

def Services.noting (index : Modules.Index) : Services Noted where
  locate importer module := pure (index.first? (Modules.normalize importer) module)
  report c := .take (.gaveUp c)

/-- The search of a file, which takes a note when the file and its re-exports of a name are at
hand. -/
def Search.noted (s : Search) (fuel : Nat) (visited trail : List String)
    (current requested : String) : Noted (Option Origin) :=
  let services := Services.noting s.index
  if visited.contains (mark current requested) then do
    services.report ⟨s.importer, requested, trail ++ [current]⟩
    pure none
  else match fuel with
    | 0 => pure none
    | fuel + 1 =>
      match s.index.file? current with
      | none => pure none
      | some facts => do
        .take (.opened ⟨current, requested⟩)
        s.through services trail current requested
          (s.noted fuel (mark current requested :: visited) (trail ++ [current]))
          (Reexport.select facts.reexports requested)

/-- Two searches that come to the same result by the same circles. -/
structure Alike {α : Type} (x : Logged α) (y : Noted α) : Prop where
  value : x.value = y.value
  circles : x.events.filterMap (·.circle?) = y.notes.filterMap (·.gaveUp?)

theorem Alike.bind {x : Logged α} {y : Noted α} {f : α → Logged β} {g : α → Noted β}
    (h : Alike x y) (hf : ∀ v, Alike (f v) (g v)) : Alike (x >>= f) (y >>= g) where
  value := by
    change (f x.value).value = (g y.value).value
    rw [h.value, (hf _).value]
  circles := by
    change (x.events ++ (f x.value).events).filterMap (·.circle?) =
      (y.notes ++ (g y.value).notes).filterMap (·.gaveUp?)
    rw [List.filterMap_append, List.filterMap_append, h.circles, h.value, (hf _).circles]

theorem agree_logging_noting (index : Modules.Index) :
    Services.Agree Alike (.logging index) (.noting index) where
  pure _ := ⟨rfl, rfl⟩
  bind := Alike.bind
  locate importer module := by
    simp only [Services.logging, Services.noting, Modules.Index.find?_eq_first?]
    exact ⟨rfl, rfl⟩
  report _ := ⟨rfl, rfl⟩

theorem Alike.opened (h : Alike x y) (n : Hop) :
    Alike x (Noted.take (.opened n) >>= fun _ => y) where
  value := h.value
  circles := h.circles

theorem Alike.lookup {f : α → Logged β} (h : Alike (f v) y) (importer module : String) :
    Alike ((⟨v, [.lookup importer module]⟩ : Logged α) >>= f) y where
  value := h.value
  circles := h.circles

theorem alike_noted (s : Search) (fuel : Nat) (visited trail : List String)
    (current requested : String) :
    Alike (s.file (.logging s.index) fuel visited trail current requested)
      (s.noted fuel visited trail current requested) := by
  induction fuel generalizing visited trail current requested with
  | zero =>
    rw [Search.file, Search.noted]
    split
    · exact ⟨rfl, rfl⟩
    · exact ⟨rfl, rfl⟩
  | succ fuel ih =>
    rw [Search.file, Search.noted]
    split
    · exact ⟨rfl, rfl⟩
    cases s.index.file? current with
    | none => exact ⟨rfl, rfl⟩
    | some facts =>
      apply Alike.opened
      exact (agree_logging_noting s.index).through s trail current requested
        (fun file name => ih _ _ file name) _

/-- The notes that are taken for a successor. -/
def notesOf (visit : String → String → Noted (Option Origin)) :
    Successor Hop (String × String) → List Note
  | .node n => (visit n.file n.name).notes
  | _ => []

/-- Nothing is found at a successor. -/
def Fails (visit : String → String → Noted (Option Origin)) :
    Successor Hop (String × String) → Prop
  | .arrival _ => False
  | .node n => (visit n.file n.name).value = none
  | .nothing => True

/-- The notes are those of the successors up to one that succeeds, or else of all of them. -/
def Tries (visit : String → String → Noted (Option Origin))
    (successors : List (Successor Hop (String × String))) (x : Noted (Option Origin)) : Prop :=
  ∃ j, x.notes = (successors.take j).flatMap (notesOf visit) ∧
    (x.value = none → successors.length ≤ j ∧ ∀ t ∈ successors, Fails visit t)

section
variable {visit : String → String → Noted (Option Origin)}

theorem tries_nil : Tries visit [] (pure none) :=
  ⟨0, rfl, fun _ => ⟨Nat.le_refl _, nofun⟩⟩

theorem tries_success (hn : x.notes = notesOf visit t) (hx : x.value ≠ none) :
    Tries visit (t :: rest) x := by
  refine ⟨1, ?_, fun h => (hx h).elim⟩
  rw [hn, List.take_succ_cons, List.take_zero, List.flatMap_singleton]

theorem Tries.failure (h : Tries visit rest x) (ht : Fails visit t) :
    Tries visit (t :: rest) ⟨x.value, notesOf visit t ++ x.notes⟩ := by
  obtain ⟨j, notes, failed⟩ := h
  refine ⟨j + 1, ?_, fun hx => ?_⟩
  · rw [List.take_succ_cons, List.flatMap_cons, notes]
  · obtain ⟨hj, all⟩ := failed hx
    exact ⟨Nat.succ_le_succ hj, List.forall_mem_cons.2 ⟨ht, all⟩⟩

end

theorem tries_through {s : Search} (hs : s.index = .ofFacts facts) (trail : List String) (n : Hop)
    (visit : String → String → Noted (Option Origin)) (bindings : List Reexport) :
    Tries visit (bindings.map (n.successor facts s.package))
      (s.through (.noting s.index) trail n.file n.name visit bindings) := by
  induction bindings with
  | nil => exact tries_nil
  | cons b rest ih =>
    simp only [Search.through, List.map_cons, Hop.successor, Services.noting,
      Resolver.fresh_resolveModule, Modules.Index.find?_eq_first?, hs]
    simp only [Services.noting, hs] at ih
    split
    · exact tries_success rfl (Option.some_ne_none _)
    cases Specifier.isRelative b.sourceModule with
    | false => exact ih.failure trivial
    | true =>
      cases (Modules.Index.ofFacts facts).first? (Modules.normalize n.file) b.sourceModule with
      | none => exact ih.failure trivial
      | some file =>
        simp only [↓reduceIte, Bool.not_true, Bool.false_eq_true, Noted.pure_bind]
        cases hv : (visit file (Reexport.forwarded b.sourceName n.name)).value with
        | none =>
          rw [Noted.bind_of_value hv]
          exact ih.failure hv
        | some origin =>
          rw [Noted.bind_of_value hv]
          exact tries_success (List.append_nil _) (Option.some_ne_none _)

theorem noted_visited (hv : mark current requested ∈ visited) (s : Search) (fuel : Nat)
    (trail : List String) :
    s.noted fuel visited trail current requested =
      ⟨none, [.gaveUp ⟨s.importer, requested, trail ++ [current]⟩]⟩ := by
  rw [Search.noted.eq_def, if_pos (List.contains_iff_mem.2 hv)]
  rfl

/-- What the search of a node notes is the node, and then what the search of its successors does. -/
theorem noted_succ {n : Hop} {f : FileFacts} (hv : mark n.file n.name ∉ visited)
    (hf : (Modules.Index.ofFacts facts).file? n.file = some f) (importer package : String)
    (fuel : Nat) (trail : List String) :
    let s : Search := ⟨.ofFacts facts, importer, package⟩
    ∃ x, s.noted (fuel + 1) visited trail n.file n.name = ⟨x.value, .opened n :: x.notes⟩ ∧
      Tries (s.noted fuel (mark n.file n.name :: visited) (trail ++ [n.file]))
        (n.successors facts package) x := by
  intro s
  rw [Search.noted, if_neg (fun hc => hv (List.contains_iff_mem.1 hc))]
  simp only [s, hf, Hop.successors]
  exact ⟨_, rfl, tries_through rfl _ _ _ _⟩

/-- The node at which the search for an import starts, if the import is one that is searched for. -/
def searchStart (facts : RepositoryFacts) (importer : String) (i : Import) : Option Hop :=
  if !Specifier.isRelative i.module || i.kind = .wholeModule then none
  else startOf facts importer i

theorem searchStart_eq_first? (facts : RepositoryFacts) (importer : String) (i : Import) :
    searchStart facts importer i =
      if !Specifier.isRelative i.module || i.kind = .wholeModule then none
      else ((Modules.Index.ofFacts facts).first? (Modules.normalize importer) i.module).map
        (⟨·, requestedBy i⟩) := by
  rw [searchStart, startOf, Resolver.fresh_resolveModule, Modules.Index.find?_eq_first?]

theorem searchStart_mem_territory (h : searchStart facts importer i = some start) :
    start ∈ territory (.ofFacts facts) start.name := by
  rw [searchStart] at h
  split at h
  · cases h
  · obtain ⟨file, hl, rfl⟩ := Option.map_eq_some_iff.1 h
    exact start_mem_territory h

/-- The attribution of an import by a search that takes notes. -/
def notedImport (facts : RepositoryFacts) (importer : String) (i : Import) (package : String) :
    Noted (Option Attribution) :=
  match searchStart facts importer i with
  | none => pure none
  | some start => do
    let s : Search := ⟨.ofFacts facts, Modules.normalize importer, package⟩
    let origin ← s.noted (fuelFor (.ofFacts facts) start.name) [] [] start.file start.name
    pure (origin.map (ofOrigin s.importer))

theorem notedImport_of_start (hs : searchStart facts importer i = some start) (package : String) :
    let s : Search := ⟨.ofFacts facts, Modules.normalize importer, package⟩
    let x := s.noted (fuelFor (.ofFacts facts) start.name) [] [] start.file start.name
    notedImport facts importer i package = ⟨x.value.map (ofOrigin s.importer), x.notes⟩ := by
  intro s x
  rw [notedImport, hs]
  exact congrArg (Noted.mk _) (List.append_nil _)

theorem alike_notedImport (facts : RepositoryFacts) (importer : String) (i : Import)
    (package : String) :
    Alike (ofImport (.logging (.ofFacts facts)) (.ofFacts facts) importer i package)
      (notedImport facts importer i package) := by
  rw [ofImport, notedImport, searchStart, startOf]
  split
  · exact ⟨rfl, rfl⟩
  rw [Resolver.fresh_resolveModule]
  apply Alike.lookup
  cases (Modules.Index.ofFacts facts).find? (Modules.normalize importer) i.module with
  | none => exact ⟨rfl, rfl⟩
  | some file => exact (alike_noted _ _ _ _ _ _).bind fun origin => ⟨rfl, rfl⟩

end Attribution

end PackageUsage
