import Mathlib.Data.List.Dedup
import PackageUsage.Proofs.KeyedLists
import PackageUsage.Proofs.SearchServices
import PackageUsage.Proofs.SortedText

namespace PackageUsage
set_option autoImplicit true
open Attribution

/-- The file and the specifier that were looked up. -/
def Attribution.Event.pair? : Event → Option (String × String)
  | .lookup importer module => some (Modules.normalize importer, module)
  | .circle _ => none

def Attribution.Event.warning? : Event → Option String
  | .lookup _ _ => none
  | .circle c => some c.text

namespace Resolver

variable {index : Modules.Index} {r : Resolver}

/-- What an event leaves behind in a resolver. -/
def note (r : Resolver) : Event → Resolver
  | .lookup importer module => (r.resolveModule importer module).2
  | .circle c => r.addCircle c

def keys (r : Resolver) : List (String × String) := r.remembered.map (·.1)

/-- A resolver remembers what its index says, each lookup once, and has counted it. -/
structure Coherent (index : Modules.Index) (r : Resolver) : Prop where
  sameIndex : r.index = index
  faithful : ∀ e ∈ r.remembered, e.2 = index.find? e.1.1 e.1.2
  once : r.keys.Nodup
  counted : r.lookups = r.keys.length
  circles : r.circles.Nodup
  texts : ∀ w ∈ r.circles, ∃ c : Attribution.Circle, w = c.text

theorem coherent_ofFacts (facts : RepositoryFacts) :
    (ofFacts facts).Coherent (Modules.Index.ofFacts facts) where
  sameIndex := rfl
  faithful _ h := (List.not_mem_nil h).elim
  once := .nil
  counted := rfl
  circles := .nil
  texts _ h := (List.not_mem_nil h).elim

theorem not_mem_keys_of_lookup (h : r.remembered.lookup key = none) : key ∉ keys r := by
  intro hk
  obtain ⟨e, he, rfl⟩ := List.mem_map.1 hk
  have hne := List.lookup_eq_none_iff.1 h e he
  rw [bne_self_eq_false] at hne
  cases hne

theorem Coherent.resolveModule (h : Coherent index r) (importer module : String) :
    (r.resolveModule importer module).1 = index.find? (Modules.normalize importer) module := by
  rw [Resolver.resolveModule]
  split
  · rename_i known hl
    exact h.faithful _ (mem_of_lookup hl)
  · rw [h.sameIndex]

theorem Coherent.note (h : Coherent index r) (e : Event) : (r.note e).Coherent index := by
  cases e with
  | circle c =>
    refine ⟨h.sameIndex, h.faithful, h.once, h.counted, h.circles.insert, ?_⟩
    intro w hw
    rcases List.mem_insert_iff.1 hw with rfl | hw
    · exact ⟨c, rfl⟩
    · exact h.texts w hw
  | lookup importer module =>
    rw [Resolver.note, Resolver.resolveModule]
    split
    · exact h
    · rename_i hl
      have fresh := not_mem_keys_of_lookup hl
      constructor
      · exact h.sameIndex
      · refine List.forall_mem_cons.2 ⟨?_, h.faithful⟩
        rw [h.sameIndex]
      · exact List.nodup_cons.2 ⟨fresh, h.once⟩
      · exact congrArg (· + 1) h.counted
      · exact h.circles
      · exact h.texts

theorem Coherent.replay (h : Coherent index r) (events : List Event) :
    (events.foldl Resolver.note r).Coherent index := by
  induction events generalizing r with
  | nil => exact h
  | cons e events ih => exact ih (h.note e)

/-- What is there after some events was there before them, or one of them has left it. -/
theorem mem_replay {seen : Resolver → List α} {left? : Event → Option α}
    (step : ∀ r e, x ∈ seen (note r e) ↔ x ∈ seen r ∨ left? e = some x) (r : Resolver)
    (events : List Event) :
    x ∈ seen (events.foldl note r) ↔ x ∈ seen r ∨ x ∈ events.filterMap left? := by
  induction events generalizing r with
  | nil => simp only [List.foldl_nil, List.filterMap_nil, List.not_mem_nil, or_false]
  | cons e events ih =>
    rw [List.foldl_cons, ih, step, or_assoc]
    simp only [List.mem_filterMap, List.mem_cons, exists_eq_or_imp]

theorem mem_keys_note (r : Resolver) (e : Event) :
    key ∈ (r.note e).keys ↔ key ∈ r.keys ∨ e.pair? = some key := by
  cases e with
  | circle c => simp only [note, addCircle, keys, Event.pair?, reduceCtorEq, or_false]
  | lookup importer module =>
    rw [note, resolveModule, Event.pair?, Option.some.injEq]
    split
    · rename_i known hl
      have hk : (Modules.normalize importer, module) ∈ r.keys :=
        List.mem_map.2 ⟨_, mem_of_lookup hl, rfl⟩
      exact ⟨.inl, fun hh => hh.elim id fun he => he ▸ hk⟩
    · rw [keys, keys, List.map_cons, List.mem_cons, or_comm, eq_comm]

theorem mem_keys_replay (r : Resolver) (events : List Event) :
    key ∈ (events.foldl note r).keys ↔ key ∈ r.keys ∨ key ∈ events.filterMap (·.pair?) :=
  mem_replay mem_keys_note r events

theorem mem_circles_note (r : Resolver) (e : Event) :
    w ∈ (r.note e).circles ↔ w ∈ r.circles ∨ e.warning? = some w := by
  cases e with
  | circle c =>
    rw [note, addCircle, List.mem_insert_iff, Event.warning?, Option.some.injEq, or_comm, eq_comm]
  | lookup importer module =>
    rw [note, resolveModule]
    simp only [Event.warning?, reduceCtorEq, or_false]
    split <;> rfl

theorem mem_circles_replay (r : Resolver) (events : List Event) :
    w ∈ (events.foldl note r).circles ↔ w ∈ r.circles ∨ w ∈ events.filterMap (·.warning?) :=
  mem_replay mem_circles_note r events

/-- A search that a coherent resolver serves comes to the result that a log has and leaves behind
what the log says. -/
theorem agree_services_logging (index : Modules.Index) :
    Services.Agree (fun {α} (x : StateM Resolver α) (y : Logged α) =>
      ∀ r, Coherent index r → x.run r = (y.value, y.events.foldl note r))
      services (.logging index) where
  pure _ _ _ := rfl
  bind {α β x y f g} hxy hfg r hr := by
    have first := hxy r hr
    have second := hfg y.value _ (hr.replay y.events)
    change (f (x.run r).1).run (x.run r).2 =
      ((g y.value).value, (y.events ++ (g y.value).events).foldl note r)
    rw [first, second, List.foldl_append]
  locate importer module r hr := by
    simp only [services, StateT.run, Services.logging, ← hr.resolveModule, List.foldl_cons,
      List.foldl_nil, note]
  report _ _ _ := rfl

end Resolver

/-- What a resolver can be asked: the file of a specifier, or the attribution of an import. -/
inductive Question where
  | module (importer specifier : String)
  | attribution (importer : String) (i : Import) (package : String)

inductive Answer where
  | module (file : Option String)
  | attribution (a : Option Attribution)

/-- The answer that the index gives, and what is asked of it on the way. -/
def Question.logged (index : Modules.Index) : Question → Logged Answer
  | .module importer specifier =>
    ⟨.module (index.find? (Modules.normalize importer) specifier), [.lookup importer specifier]⟩
  | .attribution importer i package =>
    let x := ofImport (.logging index) index importer i package
    ⟨.attribution x.value, x.events⟩

/-- The different lookups in the files of a repository that a question comes to. -/
def Question.lookups (facts : RepositoryFacts) (q : Question) : List (String × String) :=
  (q.logged (.ofFacts facts)).events.filterMap (·.pair?)

namespace Resolver

variable {index : Modules.Index} {r : Resolver}

def answer (r : Resolver) : Question → Answer × Resolver
  | .module importer specifier =>
    let (file, r) := r.resolveModule importer specifier
    (.module file, r)
  | .attribution importer i package =>
    let (a, r) := r.attributionOf importer i package
    (.attribution a, r)

/-- The answers to some questions, one after the other. -/
def answerAll (r : Resolver) : List Question → List Answer × Resolver
  | [] => ([], r)
  | q :: qs =>
    let (a, r) := r.answer q
    let (as, r) := r.answerAll qs
    (a :: as, r)

theorem Coherent.attributionOf (h : Coherent index r) (importer : String) (i : Import)
    (package : String) :
    r.attributionOf importer i package =
      ((ofImport (.logging index) index importer i package).value,
        (ofImport (.logging index) index importer i package).events.foldl Resolver.note r) := by
  rw [Resolver.attributionOf, h.sameIndex]
  exact (agree_services_logging index).ofImport index importer i package r h

theorem Coherent.answer (h : Coherent index r) (q : Question) :
    r.answer q = ((q.logged index).value, (q.logged index).events.foldl Resolver.note r) := by
  cases q with
  | module importer specifier =>
    simp only [Resolver.answer, h.resolveModule, Question.logged, List.foldl_cons, List.foldl_nil,
      Resolver.note]
  | attribution importer i package =>
    simp only [Resolver.answer, h.attributionOf, Question.logged]

theorem Coherent.answerAll (h : Coherent index r) (qs : List Question) :
    r.answerAll qs = (qs.map fun q => (q.logged index).value,
      (qs.flatMap fun q => (q.logged index).events).foldl Resolver.note r) := by
  induction qs generalizing r with
  | nil => rfl
  | cons q qs ih =>
    rw [Resolver.answerAll, h.answer]
    dsimp only
    rw [ih (h.replay _), List.map_cons, List.flatMap_cons, List.foldl_append]

theorem coherent_answerAll (facts : RepositoryFacts) (qs : List Question) :
    ((ofFacts facts).answerAll qs).2.Coherent (.ofFacts facts) := by
  rw [(coherent_ofFacts facts).answerAll]
  exact (coherent_ofFacts facts).replay _

theorem mem_warnings_answer (facts : RepositoryFacts) (q : Question) :
    w ∈ ((ofFacts facts).answer q).2.warnings ↔
      w ∈ (q.logged (.ofFacts facts)).events.filterMap (·.warning?) := by
  rw [(coherent_ofFacts facts).answer, warnings, Text.mem_sort, mem_circles_replay]
  exact or_iff_right List.not_mem_nil

/-- A resolver answers every question as a fresh one does. Its warnings are those of the fresh ones,
and it has looked up as often as there are different lookups. -/
theorem answerAll_eq_fresh (facts : RepositoryFacts) (qs : List Question) :
    let (answers, r) := (ofFacts facts).answerAll qs
    answers = qs.map (fun q => ((ofFacts facts).answer q).1) ∧
      r.warnings = Text.sortUnique (qs.flatMap fun q => ((ofFacts facts).answer q).2.warnings) ∧
      r.lookups = (qs.flatMap (·.lookups facts)).dedup.length := by
  have start := coherent_ofFacts facts
  have after := coherent_answerAll facts qs
  rw [start.answerAll] at after ⊢
  refine ⟨?_, ?_, ?_⟩
  · simp only [start.answer]
  · apply Text.sort_eq_sortUnique after.circles
    intro w
    rw [mem_circles_replay, List.filterMap_flatMap]
    simp only [List.mem_flatMap, mem_warnings_answer]
    exact or_iff_right List.not_mem_nil
  · have same : ∀ key, key ∈ ((qs.flatMap fun q =>
        (q.logged (.ofFacts facts)).events).foldl Resolver.note (ofFacts facts)).keys ↔
        key ∈ (qs.flatMap (·.lookups facts)).dedup := by
      intro key
      rw [mem_keys_replay, List.filterMap_flatMap, List.mem_dedup]
      exact or_iff_right List.not_mem_nil
    rw [after.counted]
    exact ((List.perm_ext_iff_of_nodup after.once (List.nodup_dedup _)).2 same).length_eq

end Resolver

end PackageUsage
