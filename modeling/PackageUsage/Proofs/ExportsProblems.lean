import PackageUsage.Proofs.ActiveLeaves
import PackageUsage.Surface.Basic

namespace PackageUsage
set_option autoImplicit true

/-- Targets by the targets that they are made of. -/
@[elab_as_elim]
theorem ExportTarget.targetInduction {motive : ExportTarget → Prop} (nothing : motive .nothing)
    (path : ∀ s, motive (.path s))
    (fallbacks : ∀ items, (∀ t ∈ items, motive t) → motive (.fallbacks items))
    (keyed : ∀ entries : List (String × ExportTarget), (∀ key t, (key, t) ∈ entries → motive t) →
      motive (.keyed entries)) (t : ExportTarget) : motive t := by
  cases t with
  | nothing => exact nothing
  | path s => exact path s
  | fallbacks items =>
    apply fallbacks
    intro t ht
    have smaller : sizeOf t < sizeOf (ExportTarget.fallbacks items) := by
      have item := List.sizeOf_lt_of_mem ht
      rw [ExportTarget.fallbacks.sizeOf_spec]
      omega
    exact targetInduction nothing path fallbacks keyed t
  | keyed entries =>
    apply keyed
    intro key t ht
    have smaller : sizeOf t < sizeOf (ExportTarget.keyed entries) := by
      have entry := List.sizeOf_lt_of_mem ht
      rw [Prod.mk.sizeOf_spec] at entry
      rw [ExportTarget.keyed.sizeOf_spec]
      omega
    exact targetInduction nothing path fallbacks keyed t
termination_by sizeOf t
decreasing_by
  · exact smaller
  · exact smaller

namespace ExportsMap

/-- No code asset in a target counts under a profile. -/
inductive OffersNothing (p : Profile) : ExportTarget → Prop
  | nothing : OffersNothing p .nothing
  | path : isCode s = false → OffersNothing p (.path s)
  | fallbacks : (∀ t ∈ items, OffersNothing p t) → OffersNothing p (.fallbacks items)
  | keyed : (∀ key t, entries.lookup key = some t → Counts p (entries.map (·.1)) key →
      OffersNothing p t) → OffersNothing p (.keyed entries)

/-- The conditions of a profile among some keys, in the order of the profile. -/
def heldConditions (p : Profile) (keys : List String) : List String :=
  p.conditions.filter fun c => keys.contains c

/-- Of some keys the first condition that offers something counts. -/
def ByCondition (keys : List String) : Prop :=
  keys.any isSubpath = false ∧ keys.any isCondition = true

/-- What can be wrong with a target at a place, where it is looked at under a profile. Fallbacks and
conditions are looked at up to the first that offers something. -/
inductive TargetProblem (p : Profile) : String → ExportTarget → String → Prop
  | skipped : isCode s = false →
      TargetProblem p scope (.path s) ("skipping non-js export target at " ++ scope ++ ": " ++ s)
  | fallback : items[i]? = some t → (∀ u ∈ items.take i, OffersNothing p u) →
      TargetProblem p (scope ++ "[" ++ toString i ++ "]") t w →
      TargetProblem p scope (.fallbacks items) w
  | ambiguous {entries : List (String × ExportTarget)} : ByCondition (entries.map (·.1)) →
      1 < (heldConditions p (entries.map (·.1))).length →
      TargetProblem p scope (.keyed entries)
        (ambiguityWarning p scope (heldConditions p (entries.map (·.1))))
  | condition {entries : List (String × ExportTarget)} : ByCondition (entries.map (·.1)) →
      (heldConditions p (entries.map (·.1)))[i]? = some key →
      (∀ c ∈ (heldConditions p (entries.map (·.1))).take i, ∀ u, entries.lookup c = some u →
        OffersNothing p u) →
      entries.lookup key = some t → TargetProblem p (scope ++ "." ++ key) t w →
      TargetProblem p scope (.keyed entries) w
  | key {entries : List (String × ExportTarget)} : ¬ ByCondition (entries.map (·.1)) →
      Counts p (entries.map (·.1)) key → entries.lookup key = some t →
      TargetProblem p (scope ++ "." ++ key) t w → TargetProblem p scope (.keyed entries) w

theorem take_resolveItems (p : Profile) (scope : String) (i k : Nat) (items : List ExportTarget) :
    (resolveItems p scope i items).take k = resolveItems p scope i (items.take k) := by
  induction items generalizing i k with
  | nil => simp only [resolveItems, List.take_nil]
  | cons t items ih =>
    cases k with
    | zero => rfl
    | succ k => rw [resolveItems, List.take_succ_cons, ih, List.take_succ_cons, resolveItems]

theorem getElem?_resolveItems (p : Profile) (scope : String) (i k : Nat)
    (items : List ExportTarget) : (resolveItems p scope i items)[k]? =
      items[k]?.map (resolve p (scope ++ "[" ++ toString (i + k) ++ "]")) := by
  induction items generalizing i k with
  | nil => rfl
  | cons t items ih =>
    cases k with
    | zero => rfl
    | succ k =>
      rw [resolveItems, List.getElem?_cons_succ, List.getElem?_cons_succ, ih, Nat.add_right_comm]
      rfl

theorem paths_union_eq_nil {fs : List Found} :
    (Found.union fs).paths = [] ↔ ∀ f ∈ fs, f.paths = [] := by
  rw [← List.flatMap_eq_nil_iff]
  simp only [List.eq_nil_iff_forall_not_mem, Found.union, Text.mem_sortUnique]

theorem paths_first_eq_nil {fs : List Found} :
    (Found.first fs).paths = [] ↔ ∀ f ∈ fs, f.paths = [] := by
  rcases Found.first_paths fs with ⟨hall, hfs⟩ | ⟨f, hf, hne, hfs⟩
  · exact iff_of_true hfs hall
  · exact iff_of_false (hfs ▸ hne) fun hall => hne (hall f hf)

/-- The results tried are those up to the first with a path. -/
theorem mem_warnings_first {fs : List Found} : w ∈ (Found.first fs).warnings ↔
    ∃ i f, fs[i]? = some f ∧ (∀ g ∈ fs.take i, g.paths = []) ∧ w ∈ f.warnings := by
  induction fs with
  | nil => simp [Found.first, Found.nothing]
  | cons f fs ih =>
    by_cases he : f.paths = []
    · have both : (Found.first (f :: fs)).warnings = f.warnings ++ (Found.first fs).warnings := by
        simp only [Found.first, he, List.isEmpty_nil, if_true]
      rw [both, List.mem_append, ih]
      constructor
      · rintro (hw | ⟨i, g, hg, before, hw⟩)
        · exact ⟨0, f, rfl, List.forall_mem_nil _, hw⟩
        · exact ⟨i + 1, g, hg, List.forall_mem_cons.2 ⟨he, before⟩, hw⟩
      · rintro ⟨i, g, hg, before, hw⟩
        cases i with
        | zero =>
          cases hg
          exact .inl hw
        | succ i => exact .inr ⟨i, g, hg, (List.forall_mem_cons.1 before).2, hw⟩
    · have alone : Found.first (f :: fs) = f := by
        rw [Found.first, if_neg (by rwa [List.isEmpty_iff])]
      rw [alone]
      constructor
      · exact fun hw => ⟨0, f, rfl, List.forall_mem_nil _, hw⟩
      · rintro ⟨i, g, hg, before, hw⟩
        cases i with
        | zero =>
          cases hg
          exact hw
        | succ i => exact (he (before f List.mem_cons_self)).elim

theorem mem_warnings_union {keys : List String} {f : String → Found} :
    w ∈ (Found.union (keys.map f)).warnings ↔ ∃ key ∈ keys, w ∈ (f key).warnings := by
  simp only [Found.union, List.mem_flatMap, List.mem_map, exists_exists_and_eq_and]

theorem paths_choose_eq_nil (p : Profile) (scope : String) (entries : List (String × Found)) :
    (choose p scope entries).paths = [] ↔ ∀ key ∈ entries.map (·.1),
      Counts p (entries.map (·.1)) key → (Found.under entries key).paths = [] := by
  obtain ⟨keys, hkeys, combined⟩ := choose_paths p scope entries
  have each : (choose p scope entries).paths = [] ↔
      ∀ f ∈ keys.map (Found.under entries), f.paths = [] := by
    rcases combined with he | he
    · rw [he, paths_union_eq_nil]
    · rw [he, paths_first_eq_nil]
  simp only [each, List.forall_mem_map, hkeys, and_imp]

theorem offersNothing_of_mem (h : OffersNothing p (.fallbacks items)) (ht : t ∈ items) :
    OffersNothing p t := by
  cases h with
  | fallbacks each => exact each t ht

theorem offersNothing_of_lookup {entries : List (String × ExportTarget)}
    (h : OffersNothing p (.keyed entries)) (hl : entries.lookup key = some t)
    (counts : Counts p (entries.map (·.1)) key) : OffersNothing p t := by
  cases h with
  | keyed each => exact each key t hl counts

theorem forall_paths_resolveItems
    (h : ∀ t ∈ items, ∀ scope, (resolve p scope t).paths = [] ↔ OffersNothing p t)
    (scope : String) (i : Nat) :
    (∀ f ∈ resolveItems p scope i items, f.paths = []) ↔ ∀ t ∈ items, OffersNothing p t := by
  induction items generalizing i with
  | nil => exact iff_of_true (List.forall_mem_nil _) (List.forall_mem_nil _)
  | cons t items ih =>
    obtain ⟨ht, hitems⟩ := List.forall_mem_cons.1 h
    rw [resolveItems, List.forall_mem_cons, List.forall_mem_cons, ht, ih hitems]

theorem exists_lookup_of_mem_keys {entries : List (String × α)} (h : key ∈ entries.map (·.1)) :
    ∃ value, entries.lookup key = some value := by
  cases hl : entries.lookup key with
  | some value => exact ⟨value, rfl⟩
  | none =>
    obtain ⟨e, he, rfl⟩ := List.mem_map.1 h
    exact (bne_iff_ne.1 (List.lookup_eq_none_iff.1 hl e he) rfl).elim

/-- A target has no paths under a profile exactly if nothing in it counts. -/
theorem paths_eq_nil_iff (p : Profile) (scope : String) (t : ExportTarget) :
    (resolve p scope t).paths = [] ↔ OffersNothing p t := by
  induction t using ExportTarget.targetInduction generalizing scope with
  | nothing => exact iff_of_true rfl .nothing
  | path s =>
    rw [resolve]
    cases hs : isCode s with
    | true =>
      refine iff_of_false (List.cons_ne_nil _ _) ?_
      rintro (_ | other)
      cases hs.symm.trans other
    | false => exact iff_of_true rfl (.path hs)
  | fallbacks items ih =>
    rw [resolve, paths_first_eq_nil, forall_paths_resolveItems fun t ht scope => ih t ht scope]
    exact ⟨.fallbacks, fun h t => offersNothing_of_mem h⟩
  | keyed entries ih =>
    rw [resolve, paths_choose_eq_nil, keys_resolveEntries]
    constructor
    · intro h
      refine .keyed fun key t hl counts => ?_
      have hm := mem_of_lookup hl
      have empty := h key (List.mem_map_of_mem hm) counts
      rwa [under_of_lookup hl, ih key t hm] at empty
    · intro h key hkey counts
      obtain ⟨t, hl⟩ := exists_lookup_of_mem_keys hkey
      rw [under_of_lookup hl, ih key t (mem_of_lookup hl)]
      exact offersNothing_of_lookup h hl counts

theorem mem_warnings_under : w ∈ (Found.under (resolveEntries p scope entries) key).warnings ↔
    ∃ t, entries.lookup key = some t ∧ w ∈ (resolve p (scope ++ "." ++ key) t).warnings := by
  cases hl : entries.lookup key with
  | some t =>
    rw [under_of_lookup hl]
    simp only [Option.some.injEq, exists_eq_left']
  | none =>
    rw [under_of_none hl]
    exact iff_of_false List.not_mem_nil fun ⟨_, ht, _⟩ => nomatch ht

theorem mem_warnings_choose_of_keys {entries : List (String × Found)}
    (h : ¬ ByCondition (entries.map (·.1))) : w ∈ (choose p scope entries).warnings ↔
      ∃ key ∈ entries.map (·.1), Counts p (entries.map (·.1)) key ∧
        w ∈ (Found.under entries key).warnings := by
  unfold choose Counts
  by_cases hs : (entries.map (·.1)).any isSubpath
  · simp only [if_pos hs, mem_warnings_union, List.mem_filter, Text.mem_sort,
      and_assoc]
  · have other : ¬ (entries.map (·.1)).any isCondition = true :=
      fun hc => h ⟨Bool.eq_false_iff.2 hs, hc⟩
    simp only [if_neg hs, if_neg other, mem_warnings_union, Text.mem_sort, true_and]

theorem mem_warnings_choose_of_conditions {entries : List (String × Found)}
    (h : ByCondition (entries.map (·.1))) : w ∈ (choose p scope entries).warnings ↔
      (1 < (heldConditions p (entries.map (·.1))).length ∧
        w = ambiguityWarning p scope (heldConditions p (entries.map (·.1)))) ∨
      ∃ i key, (heldConditions p (entries.map (·.1)))[i]? = some key ∧
        (∀ c ∈ (heldConditions p (entries.map (·.1))).take i, (Found.under entries c).paths = []) ∧
        w ∈ (Found.under entries key).warnings := by
  have tried : w ∈ (Found.first ((heldConditions p (entries.map (·.1))).map
      (Found.under entries))).warnings ↔
      ∃ i key, (heldConditions p (entries.map (·.1)))[i]? = some key ∧
        (∀ c ∈ (heldConditions p (entries.map (·.1))).take i, (Found.under entries c).paths = []) ∧
        w ∈ (Found.under entries key).warnings := by
    rw [mem_warnings_first]
    simp only [List.getElem?_map, Option.map_eq_some_iff, ← List.map_take, List.forall_mem_map]
    constructor
    · rintro ⟨i, _, ⟨key, hk, rfl⟩, before, hw⟩
      exact ⟨i, key, hk, before, hw⟩
    · rintro ⟨i, key, hk, before, hw⟩
      exact ⟨i, _, ⟨key, hk, rfl⟩, before, hw⟩
  have chosen : choose p scope entries = chooseConditions p scope entries := by
    rw [choose, if_neg (Bool.eq_false_iff.1 h.1), if_pos h.2]
  rw [chosen, chooseConditions]
  change w ∈ (if 1 < (heldConditions p (entries.map (·.1))).length then _ else []) ++ _ ↔ _
  rw [List.mem_append, ← tried]
  apply or_congr_left
  split
  · rename_i several
    rw [List.mem_singleton, and_iff_right several]
    rfl
  · rename_i once
    exact iff_of_false List.not_mem_nil fun told => once told.1

/-- Resolving a target warns of just what is wrong with it. -/
theorem mem_warnings_resolve (p : Profile) (scope : String) (t : ExportTarget) :
    w ∈ (resolve p scope t).warnings ↔ TargetProblem p scope t w := by
  induction t using ExportTarget.targetInduction generalizing scope with
  | nothing => exact iff_of_false List.not_mem_nil nofun
  | path s =>
    rw [resolve]
    cases hs : isCode s with
    | true =>
      refine iff_of_false List.not_mem_nil ?_
      rintro ⟨other⟩
      cases hs.symm.trans other
    | false =>
      refine List.mem_singleton.trans ⟨?_, ?_⟩
      · rintro rfl
        exact .skipped hs
      · rintro ⟨_⟩
        rfl
  | fallbacks items ih =>
    rw [resolve, mem_warnings_first]
    have passed (i : Nat) : (∀ f ∈ (resolveItems p scope 0 items).take i, f.paths = []) ↔
        ∀ u ∈ items.take i, OffersNothing p u := by
      rw [take_resolveItems]
      exact forall_paths_resolveItems (fun t _ scope => paths_eq_nil_iff p scope t) scope 0
    simp only [passed, getElem?_resolveItems, Nat.zero_add, Option.map_eq_some_iff]
    constructor
    · rintro ⟨i, _, ⟨t, ht, rfl⟩, before, hw⟩
      exact .fallback ht before ((ih t (List.mem_of_getElem? ht) _).1 hw)
    · rintro (_ | ⟨ht, before, hw⟩)
      exact ⟨_, _, ⟨_, ht, rfl⟩, before, (ih _ (List.mem_of_getElem? ht) _).2 hw⟩
  | keyed entries ih =>
    have below {key : String} {t : ExportTarget} (hl : entries.lookup key = some t) :
        w ∈ (resolve p (scope ++ "." ++ key) t).warnings ↔
          TargetProblem p (scope ++ "." ++ key) t w := ih key t (mem_of_lookup hl) _
    rw [resolve]
    by_cases conditions : ByCondition (entries.map (·.1))
    · rw [mem_warnings_choose_of_conditions (by rwa [keys_resolveEntries]), keys_resolveEntries]
      have passed (c : String) : (Found.under (resolveEntries p scope entries) c).paths = [] ↔
          ∀ u, entries.lookup c = some u → OffersNothing p u := by
        cases hl : entries.lookup c with
        | some u =>
          rw [under_of_lookup hl, paths_eq_nil_iff]
          simp only [Option.some.injEq, forall_eq']
        | none =>
          rw [under_of_none hl]
          exact iff_of_true rfl nofun
      simp only [passed, mem_warnings_under]
      constructor
      · rintro (⟨several, rfl⟩ | ⟨i, key, hk, before, t, hl, hw⟩)
        · exact .ambiguous conditions several
        · exact .condition conditions hk before hl ((below hl).1 hw)
      · intro problem
        cases problem with
        | ambiguous _ several => exact .inl ⟨several, rfl⟩
        | condition _ hk before hl hw =>
          exact .inr ⟨_, _, hk, before, _, hl, (below hl).2 hw⟩
        | key other => exact (other conditions).elim
    · rw [mem_warnings_choose_of_keys (by rwa [keys_resolveEntries]), keys_resolveEntries]
      simp only [mem_warnings_under]
      constructor
      · rintro ⟨key, _, counts, t, hl, hw⟩
        exact .key conditions counts hl ((below hl).1 hw)
      · intro problem
        cases problem with
        | ambiguous chosen => exact (conditions chosen).elim
        | condition chosen => exact (conditions chosen).elim
        | key _ counts hl hw =>
          exact ⟨_, List.mem_map_of_mem (mem_of_lookup hl), counts, _, hl, (below hl).2 hw⟩

theorem exists_of_mem_choose (h : s ∈ (choose p scope entries).paths) :
    ∃ key, s ∈ (Found.under entries key).paths := by
  obtain ⟨keys, _, combined⟩ := choose_paths p scope entries
  have part : ∃ f ∈ keys.map (Found.under entries), s ∈ f.paths := by
    rcases combined with he | he
    · rw [he] at h
      exact List.mem_flatMap.1 (Text.mem_sortUnique.1 h)
    · rw [he] at h
      rcases Found.first_paths (keys.map (Found.under entries)) with ⟨_, none⟩ | ⟨f, hf, _, same⟩
      · rw [none] at h
        cases h
      · exact ⟨f, hf, same ▸ h⟩
  obtain ⟨_, hf, hs⟩ := part
  obtain ⟨key, _, rfl⟩ := List.mem_map.1 hf
  exact ⟨key, hs⟩

theorem isCode_of_mem_paths (h : s ∈ (resolve p scope t).paths) : isCode s = true := by
  induction t using ExportTarget.targetInduction generalizing scope with
  | nothing => cases h
  | path s' =>
    rw [resolve] at h
    split at h
    · rename_i code
      rwa [List.mem_singleton.1 h]
    · cases h
  | fallbacks items ih =>
    rw [resolve] at h
    rcases Found.first_paths (resolveItems p scope 0 items) with ⟨_, none⟩ | ⟨f, hf, _, same⟩
    · rw [none] at h
      cases h
    · rw [same] at h
      obtain ⟨i, hi⟩ := List.mem_iff_getElem?.1 hf
      rw [getElem?_resolveItems] at hi
      obtain ⟨t, ht, rfl⟩ := Option.map_eq_some_iff.1 hi
      exact ih t (List.mem_of_getElem? ht) h
  | keyed entries ih =>
    rw [resolve] at h
    obtain ⟨key, hs⟩ := exists_of_mem_choose h
    cases hl : entries.lookup key with
    | none =>
      rw [under_of_none hl] at hs
      cases hs
    | some t =>
      rw [under_of_lookup hl] at hs
      exact ih key t (mem_of_lookup hl) hs

theorem strip_ne_of_isCode (h : isCode s = true) : Text.strip s ≠ "" := by
  intro blank
  have none : isCode s = false := by
    unfold isCode
    rw [blank]
    decide +kernel
  cases h.symm.trans none

end ExportsMap

namespace Surface

/-- What is to be said about the exports map of a manifest: what is wrong with it, and whether it
offers anything. -/
inductive ExportsProblem (p : Profile) (m : Manifest) : String → Prop
  | target : m.hasExports = true → ExportsMap.TargetProblem p "exports" m.exports w →
      ExportsProblem p m w
  | offers : m.hasExports = true → ¬ ExportsMap.OffersNothing p m.exports →
      ExportsProblem p m ("info: resolved exports using runtime profile \"" ++ p.name ++ "\"")
  | offersNothing : m.hasExports = true → ExportsMap.OffersNothing p m.exports →
      ExportsProblem p m ("no exports resolved for runtime profile \"" ++ p.name ++
        "\"; falling back to legacy entrypoints")

theorem mem_warnings_candidates (m : Manifest) (p : Profile) :
    w ∈ (candidates m p).2 ↔ ExportsProblem p m w := by
  unfold candidates
  cases given : m.hasExports with
  | false =>
    refine iff_of_false List.not_mem_nil ?_
    rintro (⟨other⟩ | ⟨other⟩ | ⟨other⟩)
    · cases given.symm.trans other
    · cases given.symm.trans other
    · cases given.symm.trans other
  | true =>
    have kept : ((ExportsMap.resolve p "exports" m.exports).paths.map Text.strip).filter
        (· != "") = (ExportsMap.resolve p "exports" m.exports).paths.map Text.strip := by
      rw [List.filter_eq_self, List.forall_mem_map]
      intro s hs
      exact bne_iff_ne.2 (ExportsMap.strip_ne_of_isCode (ExportsMap.isCode_of_mem_paths hs))
    dsimp only
    rw [if_pos rfl, kept, List.mem_append, ExportsMap.mem_warnings_resolve, List.mem_singleton]
    by_cases empty : ExportsMap.OffersNothing p m.exports
    · rw [if_pos (by rw [(ExportsMap.paths_eq_nil_iff p "exports" _).2 empty]; rfl)]
      constructor
      · rintro (problem | rfl)
        · exact .target given problem
        · exact .offersNothing given empty
      · rintro (⟨_, problem⟩ | ⟨_, some⟩ | _)
        · exact .inl problem
        · exact (some empty).elim
        · exact .inr rfl
    · have some : ¬ ((ExportsMap.resolve p "exports" m.exports).paths.map Text.strip).isEmpty := by
        rwa [List.isEmpty_iff, List.map_eq_nil_iff, ExportsMap.paths_eq_nil_iff]
      rw [if_neg some]
      constructor
      · rintro (problem | rfl)
        · exact .target given problem
        · exact .offers given empty
      · rintro (⟨_, problem⟩ | _ | ⟨_, none⟩)
        · exact .inl problem
        · exact .inr rfl
        · exact (empty none).elim

end Surface

end PackageUsage
