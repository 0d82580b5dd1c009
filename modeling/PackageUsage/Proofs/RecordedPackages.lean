import PackageUsage.Proofs.DiscoveredRoots

namespace PackageUsage
set_option autoImplicit true
open Package (seenFrom?)

namespace Inventory

/-- A file, and the specifier of what it imports. -/
abbrev Call := String × String

section
variable (t : FileTree) (repository : Path)

/-- The inventory after one more call. A call that fails leaves it as it is. -/
def after (i : Inventory) (call : Call) : Inventory :=
  match i.record t repository call.1 call.2 with
  | .ok next => next
  | .error _ => i

def recordAll (calls : List Call) : Inventory := calls.foldl (after t repository) {}

/-- A call names a package, and this is what its file sees of it. -/
def Records (call : Call) (name : String) (seen : Option Path) : Prop :=
  Specifier.package? call.2 = some name ∧ seenFrom? t repository call.1 name = .ok seen

/-- Some call finds a package in a place. -/
def Found (calls : List Call) (name : String) (root : Path) : Prop :=
  ∃ call ∈ calls, Records t repository call name (some root)

/-- The first call that finds a package finds it in a place. -/
def FirstFound (calls : List Call) (name : String) (root : Path) : Prop :=
  ∃ before call behind, calls = before ++ call :: behind ∧
    Records t repository call name (some root) ∧ ∀ other, ¬ Found t repository before name other

def sighting? (call : Call) : Option Sighting :=
  (Specifier.package? call.2).bind fun name =>
    (seenFrom? t repository call.1 name).toOption.map (name, ·)

def sightings (calls : List Call) : List Sighting := calls.filterMap (sighting? t repository)

end

section
variable {t : FileTree} {repository : Path}

theorem sighting?_eq_some_iff :
    sighting? t repository call = some (name, seen) ↔ Records t repository call name seen := by
  unfold sighting? Records
  rw [Option.bind_eq_some_iff]
  constructor
  · rintro ⟨n, hn, he⟩
    obtain ⟨found, hf, same⟩ := Option.map_eq_some_iff.1 he
    cases same
    exact ⟨hn, eq_ok_of_toOption hf⟩
  · rintro ⟨hn, hs⟩
    refine ⟨name, hn, ?_⟩
    rw [hs]
    rfl

theorem mem_sightings_iff : (name, seen) ∈ sightings t repository calls ↔
    ∃ call ∈ calls, Records t repository call name seen := by
  unfold sightings
  rw [List.mem_filterMap]
  simp only [sighting?_eq_some_iff]

theorem mem_rootsIn_sightings :
    root ∈ rootsIn (sightings t repository calls) name ↔ Found t repository calls name root :=
  mem_rootsIn.trans mem_sightings_iff

theorem after_eq (i : Inventory) (call : Call) : after t repository i call =
    match sighting? t repository call with
    | some s => i.note s.1 s.2
    | none => i := by
  unfold after record sighting?
  cases Specifier.package? call.2 with
  | none => rfl
  | some name =>
    dsimp only [Option.bind_some]
    cases seenFrom? t repository call.1 name with
    | error e => rfl
    | ok seen => rfl

theorem foldl_after (i : Inventory) (calls : List Call) : calls.foldl (after t repository) i =
    (sightings t repository calls).foldl (fun i s => i.note s.1 s.2) i := by
  induction calls generalizing i with
  | nil => rfl
  | cons call calls ih =>
    unfold sightings at ih ⊢
    rw [List.foldl_cons, List.filterMap_cons, after_eq, ih]
    cases sighting? t repository call with
    | none => rfl
    | some s => rfl

theorem tells_recordAll (calls : List Call) :
    Tells (recordAll t repository calls) (sightings t repository calls) := by
  unfold recordAll
  rw [foldl_after]
  exact tells_foldl tells_nothing (sightings t repository calls)

theorem foldl_after_of_foldlM {i : Inventory} {calls : List Call}
    (h : calls.foldlM (fun (i : Inventory) call => i.record t repository call.1 call.2) i =
      .ok last) :
    calls.foldl (after t repository) i = last := by
  induction calls generalizing i with
  | nil =>
    cases h
    rfl
  | cons call calls ih =>
    rw [List.foldlM_cons] at h
    obtain ⟨next, hn, h⟩ := bind_ok h
    have step : after t repository i call = next := by
      unfold after
      rw [hn]
    rw [List.foldl_cons, step]
    exact ih h

theorem one_lt_length_iff {roots : List Path} (distinct : roots.Nodup) :
    1 < roots.length ↔ ∃ root ∈ roots, ∃ other ∈ roots, root ≠ other := by
  constructor
  · intro several
    match roots with
    | root :: other :: rest =>
      refine ⟨root, List.mem_cons_self, other, List.mem_cons_of_mem _ List.mem_cons_self, ?_⟩
      rintro rfl
      exact (List.nodup_cons.1 distinct).1 List.mem_cons_self
  · rintro ⟨root, hr, other, ho, differs⟩
    match roots with
    | [single] =>
      cases List.mem_singleton.1 hr
      cases List.mem_singleton.1 ho
      exact (differs rfl).elim
    | _ :: _ :: _ => exact Nat.succ_lt_succ (Nat.succ_pos _)

theorem root?_eq_some_iff : (recordAll t repository calls).root? name = some root ↔
    FirstFound t repository calls name root := by
  have first : (recordAll t repository calls).root? name =
      calls.findSome? fun call => (sighting? t repository call).bind fun s =>
        if s.1 = name then s.2 else none := by
    rw [root?_eq_head?, (tells_recordAll calls).roots]
    unfold rootsIn sightings
    rw [head?_eraseDups, List.filterMap_filterMap, List.head?_filterMap]
  have finds (call : Call) (root : Path) : ((sighting? t repository call).bind fun s =>
      if s.1 = name then s.2 else none) = some root ↔
        Records t repository call name (some root) := by
    rw [← sighting?_eq_some_iff, Option.bind_eq_some_iff]
    simp only [rootOf_eq_some_iff, exists_eq_right]
  rw [first, List.findSome?_eq_some_iff]
  unfold FirstFound Found
  simp only [finds, Option.eq_none_iff_forall_ne_some, ne_eq]
  constructor
  · rintro ⟨before, call, behind, he, hc, none⟩
    exact ⟨before, call, behind, he, hc, fun other ⟨earlier, hm, h⟩ => none earlier hm other h⟩
  · rintro ⟨before, call, behind, he, hc, none⟩
    exact ⟨before, call, behind, he, hc, fun earlier hm other h => none other ⟨earlier, hm, h⟩⟩

/-- What an inventory tells is what some calls have recorded. -/
structure Reports (t : FileTree) (repository : Path) (calls : List Call) (i : Inventory) :
    Prop where
  listed : name ∈ i.names ↔ ∃ root, Found t repository calls name root
  missing : missingWarning name ∈ i.warnings ↔
    (∃ call ∈ calls, ∃ seen, Records t repository call name seen) ∧
      ∀ root, ¬ Found t repository calls name root
  several : severalRootsWarning name ∈ i.warnings ↔
    ∃ root other, root ≠ other ∧ Found t repository calls name root ∧
      Found t repository calls name other
  apart : name ∈ i.names → missingWarning name ∉ i.warnings
  warned : w ∈ i.warnings → ∃ name, w = missingWarning name ∨ w = severalRootsWarning name
  rooted : i.root? name = some root ↔ FirstFound t repository calls name root
  keyed : (i.root? name).isSome = true ↔ name ∈ i.names
  sorted : Text.Ascending i.names ∧ Text.Ascending i.warnings

theorem Tells.ascending_warnings {i : Inventory} {seen : List Sighting} (h : Tells i seen) :
    Text.Ascending i.warnings := by
  unfold warnings
  apply Text.ascending_sort
  rw [List.nodup_append]
  refine ⟨?_, ?_, ?_⟩
  · exact h.missingOnce.map fun _ _ => missingWarning_inj.1
  · have keys (p : String × List Path → Bool) : ((i.installed.filter p).map (·.1)).Nodup :=
      h.distinct.sublist (List.filter_sublist.map _)
    exact (keys _).map fun _ _ => severalRootsWarning_inj.1
  · intro w hw v hv
    obtain ⟨m, _, rfl⟩ := List.mem_map.1 hw
    obtain ⟨n, _, rfl⟩ := List.mem_map.1 hv
    exact missingWarning_ne m n

theorem mem_rootsOf_recordAll : root ∈ (recordAll t repository calls).rootsOf name ↔
    Found t repository calls name root := by
  rw [(tells_recordAll calls).roots, List.mem_eraseDups, mem_rootsIn_sightings]

theorem rootsOf_recordAll_eq_nil : (recordAll t repository calls).rootsOf name = [] ↔
    ∀ root, ¬ Found t repository calls name root := by
  rw [List.eq_nil_iff_forall_not_mem]
  simp only [mem_rootsOf_recordAll]

theorem mem_names_recordAll : name ∈ (recordAll t repository calls).names ↔
    ∃ root, Found t repository calls name root := by
  rw [(tells_recordAll calls).mem_names, ne_eq, rootsOf_recordAll_eq_nil]
  simp only [not_forall, not_not]

theorem missingWarning_mem_recordAll :
    missingWarning name ∈ (recordAll t repository calls).warnings ↔
      (∃ call ∈ calls, ∃ seen, Records t repository call name seen) ∧
        ∀ root, ¬ Found t repository calls name root := by
  rw [(tells_recordAll calls).missingWarning_mem, mem_sightings_iff, rootsOf_recordAll_eq_nil]
  apply and_congr_left
  intro unfound
  constructor
  · rintro ⟨call, hc, h⟩
    exact ⟨call, hc, none, h⟩
  · rintro ⟨call, hc, seen, h⟩
    cases seen with
    | none => exact ⟨call, hc, h⟩
    | some root => exact (unfound root ⟨call, hc, h⟩).elim

theorem severalRootsWarning_mem_recordAll :
    severalRootsWarning name ∈ (recordAll t repository calls).warnings ↔
      ∃ root other, root ≠ other ∧ Found t repository calls name root ∧
        Found t repository calls name other := by
  have h : Tells (recordAll t repository calls) (sightings t repository calls) :=
    tells_recordAll calls
  have distinct : ((recordAll t repository calls).rootsOf name).Nodup := by
    rw [h.roots]
    exact nodup_eraseDups _
  rw [h.severalRootsWarning_mem, one_lt_length_iff distinct]
  simp only [mem_rootsOf_recordAll]
  constructor
  · rintro ⟨root, hr, other, ho, differs⟩
    exact ⟨root, other, differs, hr, ho⟩
  · rintro ⟨root, other, differs, hr, ho⟩
    exact ⟨root, hr, other, ho, differs⟩

theorem reports_recordAll (calls : List Call) :
    Reports t repository calls (recordAll t repository calls) where
  listed := mem_names_recordAll
  missing := missingWarning_mem_recordAll
  several := severalRootsWarning_mem_recordAll
  apart := by
    intro name listed missing
    obtain ⟨root, found⟩ := mem_names_recordAll.1 listed
    exact (missingWarning_mem_recordAll.1 missing).2 root found
  warned := by
    intro w hw
    rcases mem_warnings.1 hw with ⟨name, _, rfl⟩ | ⟨name, _, _, _, rfl⟩
    · exact ⟨name, .inl rfl⟩
    · exact ⟨name, .inr rfl⟩
  rooted := root?_eq_some_iff
  keyed := by
    intro name
    rw [root?_eq_head?, (tells_recordAll calls).mem_names, List.isSome_head?]
  sorted := ⟨Text.ascending_sort (tells_recordAll calls).distinct,
    (tells_recordAll calls).ascending_warnings⟩

theorem Reports.alike {i j : Inventory} (h : Reports t repository calls i)
    (k : Reports t repository others j) (same : ∀ call, call ∈ others ↔ call ∈ calls) :
    i.names = j.names ∧ i.warnings = j.warnings := by
  have found {name root} : Found t repository calls name root ↔
      Found t repository others name root := by
    unfold Found
    simp only [same]
  have missing {name} : missingWarning name ∈ i.warnings ↔ missingWarning name ∈ j.warnings := by
    rw [h.missing, k.missing]
    simp only [same, found]
  have several {name} : severalRootsWarning name ∈ i.warnings ↔
      severalRootsWarning name ∈ j.warnings := by
    rw [h.several, k.several]
    simp only [found]
  constructor
  · apply h.sorted.1.ext k.sorted.1
    intro name
    rw [h.listed, k.listed]
    simp only [found]
  · apply h.sorted.2.ext k.sorted.2
    intro w
    constructor
    · intro hw
      obtain ⟨name, rfl | rfl⟩ := h.warned hw
      · exact missing.1 hw
      · exact several.1 hw
    · intro hw
      obtain ⟨name, rfl | rfl⟩ := k.warned hw
      · exact missing.2 hw
      · exact several.2 hw

/-- After any calls an inventory lists the packages that some call has found, each with the place
where it was found first. It warns of those that were recorded and never found, and of those that
were found in several places. Names and warnings do not depend on the order of the calls. -/
theorem recordAll_reports (t : FileTree) (repository : Path) (calls : List Call) :
    Reports t repository calls (recordAll t repository calls) ∧
    (∀ others : List Call, (∀ call, call ∈ others ↔ call ∈ calls) →
      (recordAll t repository others).names = (recordAll t repository calls).names ∧
      (recordAll t repository others).warnings = (recordAll t repository calls).warnings) ∧
    ∀ i, calls.foldlM (fun (i : Inventory) call => i.record t repository call.1 call.2) {} = .ok i →
      i = recordAll t repository calls := by
  refine ⟨reports_recordAll calls, fun others same => ?_, fun i made => ?_⟩
  · exact (reports_recordAll others).alike (reports_recordAll calls) fun call => (same call).symm
  · exact (foldl_after_of_foldlM made).symm

end

/-- A repository with a package installed in a folder, where the files above do not see it. -/
def tucked : FileTree :=
  let manifest : Entry := .file (.ofBytes (Text.Utf8.encode "\x7b\x7d")) true
  let installed : Entry := .folder [("pkg", .folder [("package.json", manifest)] .full)] .full
  ⟨.folder [("b", .folder [("node_modules", installed)] .full)] .full, []⟩

/-- A package that is missing at first is listed once it is found, and then it is not warned of,
whichever call comes first. -/
theorem recordAll_of_tucked :
    let missed : Call := ("a.js", "pkg")
    let met : Call := ("b/c.js", "pkg/sub")
    let root : Path := ⟨.root, []⟩
    missingWarning "pkg" ∈ (recordAll tucked root [missed]).warnings ∧
      "pkg" ∈ (recordAll tucked root [missed, met]).names ∧
      missingWarning "pkg" ∉ (recordAll tucked root [missed, met]).warnings ∧
      (recordAll tucked root [met, missed]).warnings =
        (recordAll tucked root [missed, met]).warnings := by
  intro missed met root
  have unseen : Records tucked root missed "pkg" none :=
    ⟨by decide +kernel, eq_ok_of_toOption (by decide +kernel)⟩
  have seen : Records tucked root met "pkg" (some ⟨.root, ["b", "node_modules", "pkg"]⟩) :=
    ⟨by decide +kernel, eq_ok_of_toOption (by decide +kernel)⟩
  obtain ⟨first, _, _⟩ := recordAll_reports tucked root [missed]
  obtain ⟨both, reordered, _⟩ := recordAll_reports tucked root [missed, met]
  have listed := both.listed.2 ⟨_, met, List.mem_cons_of_mem _ List.mem_cons_self, seen⟩
  refine ⟨?_, listed, both.apart listed, (reordered [met, missed] ?_).2⟩
  · refine first.missing.2 ⟨⟨missed, List.mem_cons_self, none, unseen⟩, ?_⟩
    rintro place ⟨call, hc, _, found⟩
    cases List.mem_singleton.1 hc
    cases unseen.2.symm.trans found
  · intro call
    rw [List.mem_pair, List.mem_pair, or_comm]

end Inventory

end PackageUsage
