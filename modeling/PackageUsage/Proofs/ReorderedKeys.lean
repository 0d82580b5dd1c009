import PackageUsage.Proofs.ActiveLeaves

namespace PackageUsage
set_option autoImplicit true

namespace ExportTarget

/-- The same target with the entries of its objects in another order, at any depth. -/
inductive Reordered : ExportTarget → ExportTarget → Prop
  | refl : Reordered t t
  | trans : Reordered t u → Reordered u v → Reordered t v
  | members : List.Perm members members' → Reordered (.keyed members) (.keyed members')
  | value : Reordered t u →
      Reordered (.keyed (before ++ (key, t) :: behind)) (.keyed (before ++ (key, u) :: behind))
  | item : Reordered t u →
      Reordered (.fallbacks (before ++ t :: behind)) (.fallbacks (before ++ u :: behind))

theorem UniqueKeys.keys (h : UniqueKeys (.keyed members)) : (members.map (·.1)).Nodup := by
  cases h with
  | keyed unique _ => exact unique

theorem UniqueKeys.values (h : UniqueKeys (.keyed members)) : ∀ e ∈ members, UniqueKeys e.2 := by
  cases h with
  | keyed _ values => exact values

theorem UniqueKeys.items (h : UniqueKeys (.fallbacks targets)) :
    ∀ t ∈ targets, UniqueKeys t := by
  cases h with
  | fallbacks items => exact items

theorem Reordered.uniqueKeys (h : Reordered t u) (unique : UniqueKeys t) : UniqueKeys u := by
  induction h with
  | refl => exact unique
  | trans _ _ ih ih' => exact ih' (ih unique)
  | members perm =>
    apply UniqueKeys.keyed
    · exact (perm.map _).nodup_iff.1 unique.keys
    · intro e he
      exact unique.values e (perm.mem_iff.2 he)
  | @value t u before key behind _ ih =>
    apply UniqueKeys.keyed
    · have keys := unique.keys
      rwa [List.map_append, List.map_cons] at keys ⊢
    · have values := unique.values
      rw [List.forall_mem_append, List.forall_mem_cons] at values ⊢
      exact ⟨values.1, ih values.2.1, values.2.2⟩
  | item _ ih =>
    apply UniqueKeys.fallbacks
    have items := unique.items
    rw [List.forall_mem_append, List.forall_mem_cons] at items ⊢
    exact ⟨items.1, ih items.2.1, items.2.2⟩

end ExportTarget

namespace ExportsMap
open ExportTarget (UniqueKeys Reordered)

/-- What an object offers depends on the set of its keys and on what is found under each. -/
theorem choose_congr {entries entries' : List (String × Found)} (p : Profile) (scope : String)
    (keys : (entries.map (·.1)).Perm (entries'.map (·.1)))
    (same : ∀ key ∈ entries.map (·.1), Found.under entries key = Found.under entries' key) :
    choose p scope entries = choose p scope entries' := by
  have sorted : Text.sort (entries.map (·.1)) = Text.sort (entries'.map (·.1)) :=
    Text.sort_perm keys
  have found (chosen : List String) (h : ∀ key ∈ chosen, key ∈ entries.map (·.1)) :
      chosen.map (Found.under entries) = chosen.map (Found.under entries') := by
    apply List.map_congr_left
    intro key hkey
    exact same key (h key hkey)
  have held : (p.conditions.filter fun c => (entries'.map (·.1)).contains c) =
      p.conditions.filter fun c => (entries.map (·.1)).contains c := by
    apply List.filter_congr
    intro c _
    exact (keys.contains_eq).symm
  unfold choose chooseConditions
  simp only [← sorted, held, ← keys.any_eq]
  rw [found, found, found]
  · intro key hkey
    exact Text.mem_sort.1 hkey
  · intro key hkey
    exact List.contains_iff_mem.1 (List.mem_filter.1 hkey).2
  · intro key hkey
    exact Text.mem_sort.1 (List.mem_filter.1 hkey).1

theorem resolve_entries_perm (p : Profile) (scope : String) (unique : (entries.map (·.1)).Nodup)
    (perm : List.Perm entries entries') :
    resolve p scope (.keyed entries) = resolve p scope (.keyed entries') := by
  have unique' : (entries'.map (·.1)).Nodup := (perm.map _).nodup_iff.1 unique
  rw [resolve, resolve]
  apply choose_congr
  · rw [keys_resolveEntries, keys_resolveEntries]
    exact perm.map _
  · intro key hkey
    rw [keys_resolveEntries] at hkey
    obtain ⟨⟨_, t⟩, ht, rfl⟩ := List.mem_map.1 hkey
    rw [under_resolveEntries unique ht, under_resolveEntries unique' (perm.mem_iff.1 ht)]

theorem resolveEntries_value (same : ∀ scope, resolve p scope t = resolve p scope u)
    (scope : String) (before : List (String × ExportTarget)) :
    resolveEntries p scope (before ++ (key, t) :: behind) =
      resolveEntries p scope (before ++ (key, u) :: behind) := by
  induction before with
  | nil => simp only [List.nil_append, resolveEntries, same]
  | cons e before ih => simp only [List.cons_append, resolveEntries, ih]

theorem resolveItems_item (same : ∀ scope, resolve p scope t = resolve p scope u)
    (scope : String) (i : Nat) (before : List ExportTarget) :
    resolveItems p scope i (before ++ t :: behind) =
      resolveItems p scope i (before ++ u :: behind) := by
  induction before generalizing i with
  | nil => simp only [List.nil_append, resolveItems, same]
  | cons t' before ih => simp only [List.cons_append, resolveItems, ih]

theorem resolve_eq_of_reordered (h : Reordered t u) (unique : UniqueKeys t) (p : Profile)
    (scope : String) : resolve p scope t = resolve p scope u := by
  induction h generalizing scope with
  | refl => rfl
  | trans first _ ih ih' => exact (ih unique scope).trans (ih' (first.uniqueKeys unique) scope)
  | members perm => exact resolve_entries_perm p scope unique.keys perm
  | value _ ih =>
    have value := (List.forall_mem_cons.1 (List.forall_mem_append.1 unique.values).2).1
    rw [resolve, resolve, resolveEntries_value (ih value)]
  | item _ ih =>
    have item := (List.forall_mem_cons.1 (List.forall_mem_append.1 unique.items).2).1
    rw [resolve, resolve, resolveItems_item (ih item)]

/-- A resolution that returns the paths it finds and writes its warnings behind those of a list. -/
abbrev Writing := StateM (List String) (List String)

namespace Writing

def warn (warning : String) : StateM (List String) Unit := modify (· ++ [warning])

/-- Tries one after the other until a path is found. -/
def first : List Writing → Writing
  | [] => pure []
  | w :: rest => do
    let paths ← w
    if paths.isEmpty then first rest else pure paths

def collect : List Writing → Writing
  | [] => pure []
  | w :: rest => do
    let paths ← w
    let others ← collect rest
    pure (paths ++ others)

def union (ws : List Writing) : Writing := return Text.sortUnique (← collect ws)

def under (entries : List (String × Writing)) (key : String) : Writing :=
  (entries.lookup key).getD (pure [])

def chooseConditions (p : Profile) (scope : String) (entries : List (String × Writing)) :
    Writing := do
  let held := p.conditions.filter fun c => (entries.map (·.1)).contains c
  if 1 < held.length then warn (ambiguityWarning p scope held)
  first (held.map (under entries))

def choose (p : Profile) (scope : String) (entries : List (String × Writing)) : Writing :=
  let keys := entries.map (·.1)
  if keys.any isSubpath then union (((Text.sort keys).filter isSubpath).map (under entries))
  else if keys.any isCondition then chooseConditions p scope entries
  else union ((Text.sort keys).map (under entries))

end Writing

mutual

def write (p : Profile) (scope : String) : ExportTarget → Writing
  | .nothing => pure []
  | .path s =>
    if isCode s then pure [s]
    else do
      Writing.warn ("skipping non-js export target at " ++ scope ++ ": " ++ s)
      pure []
  | .fallbacks items => .first (writeItems p scope 0 items)
  | .keyed entries => .choose p scope (writeEntries p scope entries)

def writeItems (p : Profile) (scope : String) (i : Nat) : List ExportTarget → List Writing
  | [] => []
  | t :: rest =>
    write p (scope ++ "[" ++ toString i ++ "]") t :: writeItems p scope (i + 1) rest

def writeEntries (p : Profile) (scope : String) :
    List (String × ExportTarget) → List (String × Writing)
  | [] => []
  | (k, t) :: rest => (k, write p (scope ++ "." ++ k) t) :: writeEntries p scope rest

end

/-- Whatever has been written before, the paths are found and the warnings are put behind it. -/
def Writes (w : Writing) (f : Found) : Prop :=
  ∀ written, w.run written = (f.paths, written ++ f.warnings)

theorem writes_pure (paths : List String) : Writes (pure paths) ⟨paths, []⟩ := by
  intro written
  rw [List.append_nil]
  rfl

theorem Writes.run_bind (h : Writes w f) (k : List String → Writing) (written : List String) :
    (w >>= k).run written = (k f.paths).run (written ++ f.warnings) := by
  rw [StateT.run_bind, h]
  rfl

theorem writes_first (h : List.Forall₂ Writes ws fs) : Writes (.first ws) (.first fs) := by
  induction h with
  | nil => exact writes_pure []
  | @cons w f ws fs hw _ ih =>
    intro written
    rw [Writing.first, hw.run_bind, Found.first]
    cases f.paths.isEmpty with
    | true => rw [if_pos rfl, if_pos rfl, ih, List.append_assoc]
    | false =>
      rw [if_neg Bool.false_ne_true, if_neg Bool.false_ne_true]
      rfl

theorem writes_collect (h : List.Forall₂ Writes ws fs) :
    Writes (.collect ws) ⟨fs.flatMap (·.paths), fs.flatMap (·.warnings)⟩ := by
  induction h with
  | nil => exact writes_pure []
  | cons hw _ ih =>
    intro written
    rw [Writing.collect, hw.run_bind, ih.run_bind, List.append_assoc]
    rfl

theorem writes_union (h : List.Forall₂ Writes ws fs) : Writes (.union ws) (.union fs) := by
  intro written
  rw [Writing.union, (writes_collect h).run_bind]
  rfl

/-- Under the same keys, in the same order, what is written is what was found. -/
def WritesUnder (ws : List (String × Writing)) (fs : List (String × Found)) : Prop :=
  List.Forall₂ (fun w f => w.1 = f.1 ∧ Writes w.2 f.2) ws fs

theorem WritesUnder.keys (h : WritesUnder ws fs) : ws.map (·.1) = fs.map (·.1) := by
  induction h with
  | nil => rfl
  | cons he _ ih => rw [List.map_cons, List.map_cons, he.1, ih]

theorem WritesUnder.under (h : WritesUnder ws fs) (key : String) :
    Writes (.under ws key) (.under fs key) := by
  induction h with
  | nil => exact writes_pure []
  | @cons w f ws fs he _ ih =>
    obtain ⟨k, w⟩ := w
    obtain ⟨k', f⟩ := f
    obtain ⟨rfl, hw⟩ := he
    unfold Writing.under Found.under at ih ⊢
    rw [List.lookup_cons, List.lookup_cons]
    cases key == k with
    | true => exact hw
    | false => exact ih

theorem WritesUnder.map (h : WritesUnder ws fs) (keys : List String) :
    List.Forall₂ Writes (keys.map (Writing.under ws)) (keys.map (Found.under fs)) := by
  induction keys with
  | nil => exact .nil
  | cons key keys ih => exact .cons (h.under key) ih

theorem writes_chooseConditions (h : WritesUnder ws fs) (p : Profile) (scope : String) :
    Writes (.chooseConditions p scope ws) (chooseConditions p scope fs) := by
  intro written
  unfold Writing.chooseConditions chooseConditions
  rw [h.keys]
  have first := writes_first (h.map (p.conditions.filter fun c => (fs.map (·.1)).contains c))
  dsimp only
  split
  · exact (first _).trans (by rw [List.append_assoc])
  · exact first written

theorem writes_choose (h : WritesUnder ws fs) (p : Profile) (scope : String) :
    Writes (.choose p scope ws) (choose p scope fs) := by
  unfold Writing.choose choose
  rw [h.keys]
  dsimp only
  split
  · exact writes_union (h.map _)
  split
  · exact writes_chooseConditions h p scope
  · exact writes_union (h.map _)

mutual

theorem writes_write (p : Profile) (scope : String) (t : ExportTarget) :
    Writes (write p scope t) (resolve p scope t) := by
  match t with
  | .nothing =>
    rw [write, resolve]
    exact writes_pure []
  | .path s =>
    rw [write, resolve]
    split
    · exact writes_pure [s]
    · intro written
      rfl
  | .fallbacks items =>
    rw [write, resolve]
    exact writes_first (writes_writeItems p scope 0 items)
  | .keyed entries =>
    rw [write, resolve]
    exact writes_choose (writes_writeEntries p scope entries) p scope

theorem writes_writeItems (p : Profile) (scope : String) (i : Nat) (items : List ExportTarget) :
    List.Forall₂ Writes (writeItems p scope i items) (resolveItems p scope i items) := by
  match items with
  | [] => exact .nil
  | t :: rest => exact .cons (writes_write p _ t) (writes_writeItems p scope (i + 1) rest)

theorem writes_writeEntries (p : Profile) (scope : String)
    (entries : List (String × ExportTarget)) :
    WritesUnder (writeEntries p scope entries) (resolveEntries p scope entries) := by
  match entries with
  | [] => exact .nil
  | (k, t) :: rest => exact .cons ⟨rfl, writes_write p _ t⟩ (writes_writeEntries p scope rest)

end

/-- However the keys of a map are arranged, the same paths are found with the same warnings in the
same order. They are written behind whatever has been written before, which changes nothing. -/
theorem resolve_reordered (p : Profile) (scope : String) (unique : UniqueKeys t)
    (h : Reordered t u) :
    resolve p scope u = resolve p scope t ∧
      ∀ written, (write p scope u).run written =
        ((resolve p scope t).paths, written ++ (resolve p scope t).warnings) := by
  have same : resolve p scope t = resolve p scope u := resolve_eq_of_reordered h unique p scope
  constructor
  · exact same.symm
  · intro written
    rw [same]
    exact writes_write p scope u written

/-- Two objects are turned around, and conditions are still tried in the order of the profile. -/
theorem resolve_reordered_nested_map :
    let t : ExportTarget := .keyed [("default", .path "./c.js"), ("import", .fallbacks
      [.keyed [("import", .path "./a.mjs"), ("node", .path "./a.css")]])]
    let u : ExportTarget := .keyed [("import", .fallbacks
      [.keyed [("node", .path "./a.css"), ("import", .path "./a.mjs")]]),
      ("default", .path "./c.js")]
    UniqueKeys t ∧ Reordered t u ∧
      (write Profile.nodeImport "exports" u).run ["written before"] = (["./a.mjs"],
        ["written before",
          ambiguityWarning Profile.nodeImport "exports" ["import", "default"],
          ambiguityWarning Profile.nodeImport "exports.import[0]" ["node", "import"],
          "skipping non-js export target at exports.import[0].node: ./a.css"]) := by
  intro t u
  have unique : UniqueKeys t := by
    refine .keyed (by decide) (List.forall_mem_cons.2 ⟨.path, List.forall_mem_singleton.2 ?_⟩)
    refine .fallbacks (List.forall_mem_singleton.2 (.keyed (by decide) ?_))
    exact List.forall_mem_cons.2 ⟨.path, List.forall_mem_singleton.2 .path⟩
  have reordered : Reordered t u := by
    have inner : Reordered (.keyed [("import", .path "./a.mjs"), ("node", .path "./a.css")])
        (.keyed [("node", .path "./a.css"), ("import", .path "./a.mjs")]) :=
      .members (.swap ..)
    have below : Reordered (.fallbacks [.keyed [("import", .path "./a.mjs"),
        ("node", .path "./a.css")]]) (.fallbacks [.keyed [("node", .path "./a.css"),
        ("import", .path "./a.mjs")]]) :=
      @Reordered.item _ _ [] [] inner
    have outer := @Reordered.value _ _ [("default", .path "./c.js")] "import" [] below
    exact .trans outer (.members (.swap ..))
  have found : resolve Profile.nodeImport "exports" t = ⟨["./a.mjs"],
      [ambiguityWarning Profile.nodeImport "exports" ["import", "default"],
        ambiguityWarning Profile.nodeImport "exports.import[0]" ["node", "import"],
        "skipping non-js export target at exports.import[0].node: ./a.css"]⟩ := by
    decide +kernel
  have written := (resolve_reordered Profile.nodeImport "exports" unique reordered).2
    ["written before"]
  rw [found] at written
  exact ⟨unique, reordered, written⟩

end ExportsMap

end PackageUsage
