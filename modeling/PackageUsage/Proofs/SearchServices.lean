import PackageUsage.Attribution.Basic

namespace PackageUsage.Attribution
set_option autoImplicit true

/-- What a search does to its surroundings. -/
inductive Event where
  | lookup (importer module : String)
  | circle (c : Circle)

/-- A result and what was done on the way to it, in order. -/
structure Logged (α : Type) where
  value : α
  events : List Event := []

namespace Logged

def andThen (x : Logged α) (f : α → Logged β) : Logged β :=
  ⟨(f x.value).value, x.events ++ (f x.value).events⟩

instance : Monad Logged where
  pure v := ⟨v, []⟩
  bind := andThen

end Logged

namespace Services

/-- Every lookup is made in the index. -/
def plain (index : Modules.Index) : Services Id where
  locate importer module := index.find? (Modules.normalize importer) module
  report _ := ()

/-- Every lookup is made in the index and goes into the log, as does every circle. -/
def logging (index : Modules.Index) : Services Logged where
  locate importer module :=
    ⟨index.find? (Modules.normalize importer) module, [.lookup importer module]⟩
  report c := ⟨(), [.circle c]⟩

/-- A relation between runs that holds of two services and is kept by putting runs together. -/
structure Agree {m n : Type → Type} [Monad m] [Monad n] (R : {α : Type} → m α → n α → Prop)
    (a : Services m) (b : Services n) : Prop where
  pure : ∀ {α : Type} (v : α), R (pure v : m α) (pure v : n α)
  bind : ∀ {α β : Type} {x : m α} {y : n α} {f : α → m β} {g : α → n β},
    R x y → (∀ v, R (f v) (g v)) → R (x >>= f) (y >>= g)
  locate : ∀ importer module, R (a.locate importer module) (b.locate importer module)
  report : ∀ c, R (a.report c) (b.report c)

section
variable {m n : Type → Type} [Monad m] [Monad n] {R : {α : Type} → m α → n α → Prop}
  {a : Services m} {b : Services n}

theorem Agree.through (h : Agree R a b) (s : Search) (trail : List String)
    (current requested : String) {visit : String → String → m (Option Origin)}
    {visit' : String → String → n (Option Origin)}
    (hv : ∀ file name, R (visit file name) (visit' file name)) (bindings : List Reexport) :
    R (s.through a trail current requested visit bindings)
      (s.through b trail current requested visit' bindings) := by
  induction bindings with
  | nil => exact h.pure none
  | cons binding rest ih =>
    simp only [Search.through]
    split
    · exact h.pure _
    split
    · exact ih
    apply h.bind (h.locate _ _)
    rintro (_ | file)
    · exact ih
    apply h.bind (hv _ _)
    rintro (_ | origin)
    · exact ih
    · exact h.pure _

theorem Agree.file (h : Agree R a b) (s : Search) (fuel : Nat) (visited trail : List String)
    (current requested : String) :
    R (s.file a fuel visited trail current requested)
      (s.file b fuel visited trail current requested) := by
  induction fuel generalizing visited trail current requested with
  | zero =>
    simp only [Search.file]
    split
    · exact h.bind (h.report _) fun _ => h.pure none
    · exact h.pure none
  | succ fuel ih =>
    simp only [Search.file]
    split
    · exact h.bind (h.report _) fun _ => h.pure none
    split
    · exact h.pure none
    · exact h.through s trail current requested (fun file name => ih _ _ file name) _

theorem Agree.ofImport (h : Agree R a b) (index : Modules.Index) (importer : String) (i : Import)
    (package : String) :
    R (ofImport a index importer i package) (ofImport b index importer i package) := by
  simp only [Attribution.ofImport]
  split
  · exact h.pure none
  apply h.bind (h.locate _ _)
  rintro (_ | start)
  · exact h.pure none
  · exact h.bind (h.file _ _ _ _ _ _) fun origin => h.pure _

end

theorem agree_logging_plain (index : Modules.Index) :
    Agree (fun {α} (x : Logged α) (y : Id α) => x.value = y) (logging index) (plain index) where
  pure _ := rfl
  bind {_ _ _ _ _ g} hxy hfg := (hfg _).trans (congrArg g hxy)
  locate _ _ := rfl
  report _ := rfl

theorem value_ofImport_logging (index : Modules.Index) (importer : String) (i : Import)
    (package : String) :
    (ofImport (.logging index) index importer i package).value =
      ofImport (.plain index) index importer i package :=
  (agree_logging_plain index).ofImport index importer i package

end Services

end PackageUsage.Attribution
