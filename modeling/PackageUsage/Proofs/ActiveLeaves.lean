import PackageUsage.Proofs.KeyedLists
import PackageUsage.Proofs.SortedText
import PackageUsage.Surface.ExportsMap

namespace PackageUsage
set_option autoImplicit true

/-- No object in a target has a key twice. -/
inductive ExportTarget.UniqueKeys : ExportTarget → Prop
  | path : UniqueKeys (.path s)
  | fallbacks : (∀ t ∈ items, UniqueKeys t) → UniqueKeys (.fallbacks items)
  | keyed {entries : List (String × ExportTarget)} : (entries.map (·.1)).Nodup →
      (∀ e ∈ entries, UniqueKeys e.2) → UniqueKeys (.keyed entries)
  | nothing : UniqueKeys .nothing

namespace ExportsMap

/-- Whether a key counts under a profile in an object with some keys. -/
def Counts (p : Profile) (keys : List String) (key : String) : Prop :=
  if keys.any isSubpath then isSubpath key = true
  else if keys.any isCondition then key ∈ p.conditions
  else True

instance (p : Profile) (keys : List String) (key : String) : Decidable (Counts p keys key) :=
  inferInstanceAs (Decidable (ite _ _ (ite _ _ _)))

inductive ActiveLeaf (p : Profile) : ExportTarget → String → Prop
  | path : isCode s → ActiveLeaf p (.path s) s
  | fallbacks : t ∈ items → ActiveLeaf p t s → ActiveLeaf p (.fallbacks items) s
  | keyed : (key, t) ∈ entries → Counts p (entries.map (·.1)) key → ActiveLeaf p t s →
      ActiveLeaf p (.keyed entries) s

/-- Paths are among the leaves that they were to be taken from, and are none only if those are. -/
structure Exact (leaf : String → Prop) (paths : List String) : Prop where
  found : ∀ s, leaf s → paths ≠ []
  sound : ∀ s ∈ paths, leaf s
  ascending : Text.Ascending paths

theorem Exact.none (h : ∀ s, ¬ leaf s) : Exact leaf [] where
  found s hs := (h s hs).elim
  sound s hs := by cases hs
  ascending := .nil

theorem Exact.congr (h : Exact leaf paths) (same : ∀ s, leaf s ↔ leaf' s) :
    Exact leaf' paths where
  found s hs := h.found s ((same s).2 hs)
  sound s hs := (same s).1 (h.sound s hs)
  ascending := h.ascending

theorem Found.first_paths (fs : List Found) :
    (∀ f ∈ fs, f.paths = []) ∧ (first fs).paths = [] ∨
      ∃ f ∈ fs, f.paths ≠ [] ∧ (first fs).paths = f.paths := by
  induction fs with
  | nil => exact .inl ⟨fun f hf => (List.not_mem_nil hf).elim, rfl⟩
  | cons f fs ih =>
    by_cases he : f.paths = []
    · have skip : (first (f :: fs)).paths = (first fs).paths := by
        simp only [first, he, List.isEmpty_nil, if_true]
      rw [skip]
      rcases ih with ⟨hall, hfs⟩ | ⟨g, hg, hne, hfs⟩
      · exact .inl ⟨List.forall_mem_cons.2 ⟨he, hall⟩, hfs⟩
      · exact .inr ⟨g, List.mem_cons_of_mem f hg, hne, hfs⟩
    · refine .inr ⟨f, List.mem_cons_self, he, ?_⟩
      rw [first, if_neg (by rwa [List.isEmpty_iff])]

/-- Every part has a result that is exact, and there are no other results. -/
structure Covers (leaf : α → String → Prop) (parts : List α) (fs : List Found) : Prop where
  result : ∀ a ∈ parts, ∃ f ∈ fs, Exact (leaf a) f.paths
  part : ∀ f ∈ fs, ∃ a ∈ parts, Exact (leaf a) f.paths

theorem Covers.first (h : Covers leaf parts fs) :
    Exact (fun s => ∃ a ∈ parts, leaf a s) (Found.first fs).paths := by
  rcases Found.first_paths fs with ⟨hall, hfs⟩ | ⟨f, hf, hne, hfs⟩
  · rw [hfs]
    apply Exact.none
    rintro s ⟨a, ha, hs⟩
    obtain ⟨f, hf, hx⟩ := h.result a ha
    exact hx.found s hs (hall f hf)
  · obtain ⟨a, ha, hx⟩ := h.part f hf
    rw [hfs]
    exact ⟨fun _ _ => hne, fun s hs => ⟨a, ha, hx.sound s hs⟩, hx.ascending⟩

theorem Covers.union (h : Covers leaf parts fs) :
    Exact (fun s => ∃ a ∈ parts, leaf a s) (Found.union fs).paths where
  found := by
    rintro s ⟨a, ha, hs⟩
    obtain ⟨f, hf, hx⟩ := h.result a ha
    obtain ⟨path, hp⟩ := List.exists_mem_of_ne_nil _ (hx.found s hs)
    apply List.ne_nil_of_mem (a := path)
    exact Text.mem_sortUnique.2 (List.mem_flatMap.2 ⟨f, hf, hp⟩)
  sound s hs := by
    obtain ⟨f, hf, hp⟩ := List.mem_flatMap.1 (Text.mem_sortUnique.1 hs)
    obtain ⟨a, ha, hx⟩ := h.part f hf
    exact ⟨a, ha, hx.sound s hp⟩
  ascending := Text.ascending_sortUnique _

theorem covers_resolveItems
    (h : ∀ t ∈ items, ∀ scope, Exact (ActiveLeaf p t) (resolve p scope t).paths)
    (scope : String) (i : Nat) : Covers (ActiveLeaf p) items (resolveItems p scope i items) := by
  induction items generalizing i with
  | nil => exact ⟨fun _ ha => (List.not_mem_nil ha).elim, fun _ hf => (List.not_mem_nil hf).elim⟩
  | cons t items ih =>
    obtain ⟨ht, hitems⟩ := List.forall_mem_cons.1 h
    have rest := ih hitems (i + 1)
    constructor
    · intro u hu
      rcases List.mem_cons.1 hu with rfl | hu
      · exact ⟨_, List.mem_cons_self, ht _⟩
      · obtain ⟨f, hf, hx⟩ := rest.result u hu
        exact ⟨f, List.mem_cons_of_mem _ hf, hx⟩
    · intro f hf
      rcases List.mem_cons.1 hf with rfl | hf
      · exact ⟨t, List.mem_cons_self, ht _⟩
      · obtain ⟨u, hu, hx⟩ := rest.part f hf
        exact ⟨u, List.mem_cons_of_mem _ hu, hx⟩

theorem keys_resolveEntries (p : Profile) (scope : String)
    (entries : List (String × ExportTarget)) :
    (resolveEntries p scope entries).map (·.1) = entries.map (·.1) := by
  induction entries with
  | nil => rfl
  | cons e entries ih => simp only [resolveEntries, List.map_cons, ih]

theorem lookup_resolveEntries (p : Profile) (scope : String)
    (entries : List (String × ExportTarget)) (key : String) :
    (resolveEntries p scope entries).lookup key =
      (entries.lookup key).map (resolve p (scope ++ "." ++ key)) := by
  induction entries with
  | nil => rfl
  | cons e entries ih =>
    obtain ⟨k, u⟩ := e
    rw [resolveEntries, List.lookup_cons, List.lookup_cons]
    by_cases hk : key = k
    · rw [hk, beq_self_eq_true]
      rfl
    · rw [beq_false_of_ne hk]
      exact ih

theorem under_of_lookup (h : entries.lookup key = some t) :
    Found.under (resolveEntries p scope entries) key = resolve p (scope ++ "." ++ key) t := by
  rw [Found.under, lookup_resolveEntries, h]
  rfl

theorem under_of_none (h : entries.lookup key = none) :
    Found.under (resolveEntries p scope entries) key = .nothing := by
  rw [Found.under, lookup_resolveEntries, h]
  rfl

theorem under_resolveEntries (unique : (entries.map (·.1)).Nodup) (h : (key, t) ∈ entries) :
    Found.under (resolveEntries p scope entries) key = resolve p (scope ++ "." ++ key) t :=
  under_of_lookup ((lookup_eq_some_iff_mem unique).2 h)

theorem choose_paths (p : Profile) (scope : String) (entries : List (String × Found)) :
    ∃ keys : List String,
      (∀ key, key ∈ keys ↔ key ∈ entries.map (·.1) ∧ Counts p (entries.map (·.1)) key) ∧
      ((choose p scope entries).paths = (Found.union (keys.map (Found.under entries))).paths ∨
        (choose p scope entries).paths = (Found.first (keys.map (Found.under entries))).paths) := by
  unfold choose Counts
  by_cases hs : (entries.map (·.1)).any isSubpath
  · refine ⟨(Text.sort (entries.map (·.1))).filter isSubpath, ?_, .inl (by rw [if_pos hs])⟩
    intro key
    rw [if_pos hs, List.mem_filter, Text.mem_sort]
  · by_cases hc : (entries.map (·.1)).any isCondition
    · refine ⟨p.conditions.filter fun c => (entries.map (·.1)).contains c, ?_,
        .inr (by rw [if_neg hs, if_pos hc, chooseConditions])⟩
      intro key
      rw [if_neg hs, if_pos hc, List.mem_filter, List.contains_iff_mem, and_comm]
    · refine ⟨Text.sort (entries.map (·.1)), ?_, .inl (by rw [if_neg hs, if_neg hc])⟩
      intro key
      rw [if_neg hs, if_neg hc, Text.mem_sort, and_true]

theorem exact_keyed (unique : (entries.map (·.1)).Nodup)
    (h : ∀ e ∈ entries, ∀ scope, Exact (ActiveLeaf p e.2) (resolve p scope e.2).paths) :
    Exact (ActiveLeaf p (.keyed entries))
      (choose p scope (resolveEntries p scope entries)).paths := by
  obtain ⟨keys, hkeys, hpaths⟩ := choose_paths p scope (resolveEntries p scope entries)
  rw [keys_resolveEntries] at hkeys
  have each (key) (hkey : key ∈ keys) : Exact (fun s => ∃ t, (key, t) ∈ entries ∧ ActiveLeaf p t s)
      (Found.under (resolveEntries p scope entries) key).paths := by
    obtain ⟨⟨k, t⟩, ht, rfl⟩ := List.mem_map.1 ((hkeys key).1 hkey).1
    rw [under_resolveEntries unique ht]
    refine (h _ ht _).congr fun s => ⟨fun hs => ⟨t, ht, hs⟩, ?_⟩
    rintro ⟨u, hu, hs⟩
    cases List.inj_on_of_nodup_map unique ht hu rfl
    exact hs
  have covers : Covers (fun key s => ∃ t, (key, t) ∈ entries ∧ ActiveLeaf p t s) keys
      (keys.map (Found.under (resolveEntries p scope entries))) := by
    refine ⟨fun key hkey => ⟨_, List.mem_map_of_mem hkey, each key hkey⟩, ?_⟩
    intro f hf
    obtain ⟨key, hkey, rfl⟩ := List.mem_map.1 hf
    exact ⟨key, hkey, each key hkey⟩
  have same (s : String) : (∃ key ∈ keys, ∃ t, (key, t) ∈ entries ∧ ActiveLeaf p t s) ↔
      ActiveLeaf p (.keyed entries) s := by
    constructor
    · rintro ⟨key, hkey, t, ht, hs⟩
      exact .keyed ht ((hkeys key).1 hkey).2 hs
    · rintro (_ | _ | ⟨ht, hc, hs⟩)
      exact ⟨_, (hkeys _).2 ⟨List.mem_map.2 ⟨_, ht, rfl⟩, hc⟩, _, ht, hs⟩
  rcases hpaths with he | he
  · rw [he]
    exact covers.union.congr same
  · rw [he]
    exact covers.first.congr same

theorem exact_path (p : Profile) (scope s : String) :
    Exact (ActiveLeaf p (.path s)) (resolve p scope (.path s)).paths := by
  by_cases hc : isCode s
  · rw [resolve, if_pos hc]
    refine ⟨fun _ _ => List.cons_ne_nil _ _, ?_, List.pairwise_singleton _ _⟩
    intro t ht
    rw [List.mem_singleton.1 ht]
    exact .path hc
  · rw [resolve, if_neg hc]
    apply Exact.none
    rintro t (hs | _ | _)
    exact hc hs

theorem exact_resolve (h : t.UniqueKeys) (scope : String) :
    Exact (ActiveLeaf p t) (resolve p scope t).paths := by
  induction h generalizing scope with
  | path => exact exact_path p scope _
  | fallbacks _ ih =>
    rw [resolve]
    refine (covers_resolveItems ih scope 0).first.congr fun s => ⟨?_, ?_⟩
    · rintro ⟨t, ht, hs⟩
      exact .fallbacks ht hs
    · rintro (_ | ⟨ht, hs⟩ | _)
      exact ⟨_, ht, hs⟩
  | keyed unique _ ih =>
    rw [resolve]
    exact exact_keyed unique ih
  | nothing =>
    rw [resolve]
    apply Exact.none
    intro s hs
    cases hs

/-- Resolving finds active leaves only, in strictly ascending order, and finds some if there are
any. -/
theorem resolve_finds_active_leaves (p : Profile) (scope : String) (t : ExportTarget)
    (unique : t.UniqueKeys) :
    ((resolve p scope t).paths ≠ [] ↔ ∃ s, ActiveLeaf p t s) ∧
      (∀ s ∈ (resolve p scope t).paths, ActiveLeaf p t s) ∧
      ((resolve p scope t).paths.Pairwise fun a b => Text.lt a b) ∧
      (resolve p scope t).paths.Nodup := by
  have h : Exact (ActiveLeaf p t) (resolve p scope t).paths := exact_resolve unique scope
  refine ⟨⟨fun hne => ?_, fun ⟨s, hs⟩ => h.found s hs⟩, h.sound, h.ascending, h.ascending.nodup⟩
  obtain ⟨s, hs⟩ := List.exists_mem_of_ne_nil _ hne
  exact ⟨s, h.sound s hs⟩

/-- The style sheet is passed over for the fallback behind it. -/
theorem resolve_finds_fallback_in_nested_map :
    let t : ExportTarget := .keyed [("./x", .nothing), (".", .keyed
      [("require", .path "./b.cjs"), ("import", .fallbacks [.path "./a.css", .path "./a.mjs"])])]
    t.UniqueKeys ∧ ActiveLeaf Profile.nodeImport t "./a.mjs" ∧
      (resolve Profile.nodeImport "exports" t).paths ≠ [] := by
  intro t
  have unique : t.UniqueKeys := by
    refine .keyed (by decide) (List.forall_mem_cons.2 ⟨.nothing, List.forall_mem_singleton.2 ?_⟩)
    refine .keyed (by decide) (List.forall_mem_cons.2 ⟨.path, List.forall_mem_singleton.2 ?_⟩)
    exact .fallbacks (List.forall_mem_cons.2 ⟨.path, List.forall_mem_singleton.2 .path⟩)
  have leaf : ActiveLeaf Profile.nodeImport t "./a.mjs" := by
    refine .keyed (.tail _ (.head _)) (by decide +kernel) ?_
    refine .keyed (.tail _ (.head _)) (by decide +kernel) ?_
    exact .fallbacks (.tail _ (.head _)) (.path (by decide +kernel))
  exact ⟨unique, leaf,
    (resolve_finds_active_leaves Profile.nodeImport "exports" t unique).1.2 ⟨_, leaf⟩⟩

end ExportsMap

end PackageUsage
