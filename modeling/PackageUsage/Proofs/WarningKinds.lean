import PackageUsage.Analysis.Package
import PackageUsage.Proofs.SortedText

namespace PackageUsage
set_option autoImplicit true

theorem prefix_toList_append (h : p <+: s.toList) (t : String) : p <+: (s ++ t).toList := by
  rw [String.toList_append]
  exact h.trans (List.prefix_append _ _)

/-- The first letters of the warning of missing uses. -/
def missingUses : List Char := ['n', 'o', ' ', 'u']

theorem begins_missingUses (package : String) :
    missingUses <+: (Usage.noUsedExportsWarning package).toList := by
  have letters : "no used exports found for dependency \"".toList.take 4 = missingUses := by decide
  exact prefix_toList_append (prefix_toList_append (letters ▸ List.take_prefix _ _) _) _

/-- A warning of another kind than that of missing uses, by its first letters. -/
def Apart (w : String) : Prop := ∃ s : List Char, s.length = 4 ∧ s ≠ missingUses ∧ s <+: w.toList

theorem apart_of_letters (h : (w.toList.take 4).length = 4 ∧ w.toList.take 4 ≠ missingUses) :
    Apart w :=
  ⟨_, h.1, h.2, List.take_prefix _ _⟩

theorem Apart.append (h : Apart w) (t : String) : Apart (w ++ t) := by
  obtain ⟨s, hl, hn, hp⟩ := h
  exact ⟨s, hl, hn, prefix_toList_append hp t⟩

theorem Apart.ne (h : Apart w) (package : String) : w ≠ Usage.noUsedExportsWarning package := by
  rintro rfl
  obtain ⟨s, hl, hn, hp⟩ := h
  -- two beginnings of one text that are equally long are the same
  have le := List.prefix_of_prefix_length_le hp (begins_missingUses package) (Nat.le_of_eq hl)
  exact hn (le.eq_of_length hl)

/-- Warnings none of which is that of missing uses. -/
def Quiet (ws : List String) : Prop := ∀ w ∈ ws, Apart w

theorem quiet_nil : Quiet [] := fun _ hw => (List.not_mem_nil hw).elim

theorem quiet_singleton (h : Apart w) : Quiet [w] := List.forall_mem_singleton.2 h

theorem Quiet.append (h : Quiet ws) (k : Quiet ws') : Quiet (ws ++ ws') :=
  List.forall_mem_append.2 ⟨h, k⟩

theorem Quiet.not_mem (h : Quiet ws) (package : String) :
    Usage.noUsedExportsWarning package ∉ ws :=
  fun hm => (h _ hm).ne package rfl

/-- Whatever a computation yields satisfies a condition. -/
def Yields (x : Except ε α) (P : α → Prop) : Prop := ∀ a, x = .ok a → P a

theorem yields_ok {P : α → Prop} (h : P a) : Yields (.ok a : Except ε α) P := by
  rintro _ ⟨⟩
  exact h

theorem yields_pure {P : α → Prop} (h : P a) : Yields (pure a : Except ε α) P := yields_ok h

theorem yields_error (e : ε) (P : α → Prop) : Yields (.error e) P := nofun

theorem yields_any (x : Except ε α) : Yields x fun _ => True := fun _ _ => trivial

theorem Yields.bind {P : α → Prop} {Q : β → Prop} {f : α → Except ε β} (h : Yields x P)
    (k : ∀ a, P a → Yields (f a) Q) : Yields (x >>= f) Q := by
  cases x with
  | error e => exact yields_error e Q
  | ok a => exact k a (h a rfl)

theorem yields_foldlM {f : β → α → Except ε β} {I : β → Prop}
    (step : ∀ b a, I b → Yields (f b a) I) (h : I b) (as : List α) : Yields (as.foldlM f b) I := by
  induction as generalizing b with
  | nil => exact yields_ok h
  | cons a as ih => exact (step b a h).bind fun b' h' => ih h'

namespace ExportsMap

theorem quiet_first (h : ∀ f ∈ fs, Quiet f.warnings) : Quiet (Found.first fs).warnings := by
  induction fs with
  | nil => exact quiet_nil
  | cons f fs ih =>
    obtain ⟨hf, hfs⟩ := List.forall_mem_cons.1 h
    rw [Found.first]
    split
    · exact hf.append (ih hfs)
    · exact hf

theorem quiet_union (h : ∀ f ∈ fs, Quiet f.warnings) : Quiet (Found.union fs).warnings := by
  intro w hw
  obtain ⟨f, hf, hw⟩ := List.mem_flatMap.1 hw
  exact h f hf w hw

theorem quiet_under {entries : List (String × Found)} (h : ∀ e ∈ entries, Quiet e.2.warnings)
    (keys : List String) : ∀ f ∈ keys.map (Found.under entries), Quiet f.warnings := by
  intro f hf
  obtain ⟨key, _, rfl⟩ := List.mem_map.1 hf
  rw [Found.under]
  cases hl : entries.lookup key with
  | none => exact quiet_nil
  | some f =>
    obtain ⟨before, behind, he, _⟩ := List.lookup_eq_some_iff.1 hl
    exact h (key, f) (he ▸ List.mem_append_right _ List.mem_cons_self)

theorem apart_ambiguityWarning (p : Profile) (scope : String) (conditions : List String) :
    Apart (ambiguityWarning p scope conditions) := by
  unfold ambiguityWarning
  repeat with_reducible apply Apart.append
  exact apart_of_letters (by decide)

theorem quiet_choose {entries : List (String × Found)} (h : ∀ e ∈ entries, Quiet e.2.warnings)
    (p : Profile) (scope : String) : Quiet (choose p scope entries).warnings := by
  rw [choose]
  split
  · exact quiet_union (quiet_under h _)
  split
  · rw [chooseConditions]
    dsimp only
    refine Quiet.append ?_ (quiet_first (quiet_under h _))
    split
    · exact quiet_singleton (apart_ambiguityWarning p scope _)
    · exact quiet_nil
  · exact quiet_union (quiet_under h _)

mutual

theorem quiet_resolve (p : Profile) (scope : String) (t : ExportTarget) :
    Quiet (resolve p scope t).warnings := by
  match t with
  | .nothing => exact quiet_nil
  | .path s =>
    rw [resolve]
    split
    · exact quiet_nil
    · refine quiet_singleton ?_
      repeat with_reducible apply Apart.append
      exact apart_of_letters (by decide)
  | .fallbacks items =>
    rw [resolve]
    exact quiet_first (quiet_resolveItems p scope 0 items)
  | .keyed entries =>
    rw [resolve]
    exact quiet_choose (quiet_resolveEntries p scope entries) p scope

theorem quiet_resolveItems (p : Profile) (scope : String) (i : Nat) (items : List ExportTarget) :
    ∀ f ∈ resolveItems p scope i items, Quiet f.warnings := by
  match items with
  | [] => exact fun _ hf => (List.not_mem_nil hf).elim
  | t :: rest =>
    rw [resolveItems]
    exact List.forall_mem_cons.2
      ⟨quiet_resolve p _ t, quiet_resolveItems p scope (i + 1) rest⟩

theorem quiet_resolveEntries (p : Profile) (scope : String)
    (entries : List (String × ExportTarget)) :
    ∀ e ∈ resolveEntries p scope entries, Quiet e.2.warnings := by
  match entries with
  | [] => exact fun _ he => (List.not_mem_nil he).elim
  | (k, t) :: rest =>
    rw [resolveEntries]
    exact List.forall_mem_cons.2 ⟨quiet_resolve p _ t, quiet_resolveEntries p scope rest⟩

end

end ExportsMap

namespace Surface

theorem quiet_candidates (m : Manifest) (p : Profile) : Quiet (candidates m p).2 := by
  cases hx : m.hasExports with
  | false =>
    simp only [candidates, hx, Bool.false_eq_true, ↓reduceIte]
    exact quiet_nil
  | true =>
    simp only [candidates, hx, ↓reduceIte]
    refine (ExportsMap.quiet_resolve p "exports" m.exports).append (quiet_singleton ?_)
    split
    all_goals
      repeat with_reducible apply Apart.append
      exact apart_of_letters (by decide)

theorem quiet_warn {s : Surface} (h : Quiet s.warnings) (hw : Apart w) :
    Quiet (s.warn w).warnings :=
  h.append (quiet_singleton hw)

theorem quiet_foldl_warn {s : Surface} (h : Quiet s.warnings) (hw : Quiet ws) :
    Quiet (ws.foldl warn s).warnings :=
  List.foldlRecOn (motive := fun s => Quiet s.warnings) ws warn h fun _ hs w hm =>
    quiet_warn hs (hw w hm)

theorem warnings_addNames (s : Surface) (names : List String) :
    (s.addNames names).warnings = s.warnings := by
  have step (s : Surface) (name : String) : (s.addName name).warnings = s.warnings := by
    rw [addName]
    split
    · rfl
    split
    · rfl
    · rfl
  exact List.foldlRecOn (motive := fun s' => s'.warnings = s.warnings) names addName rfl
    fun s' hs name _ => (step s' name).trans hs

theorem quiet_addFile (t : FileTree) {s : Surface} (h : Quiet s.warnings) (path : Path) :
    Quiet (addFile t s path).warnings := by
  unfold addFile
  dsimp only
  split
  · exact quiet_warn h (.append (apart_of_letters (by decide)) _)
  split
  · exact quiet_warn h (.append (apart_of_letters (by decide)) _)
  · rw [warnings_addNames]
    exact h

theorem quiet_foldl_addFile (t : FileTree) {s : Surface} (h : Quiet s.warnings)
    (files : List Path) : Quiet (files.foldl (addFile t) s).warnings :=
  List.foldlRecOn (motive := fun s => Quiet s.warnings) files (addFile t) h fun _ hs path _ =>
    quiet_addFile t hs path

theorem quiet_findFiles (t : FileTree) (root : Path) {s : Surface} (h : Quiet s.warnings)
    (entries : List String) : Yields (findFiles t root s entries) fun r => Quiet r.1.warnings := by
  refine yields_foldlM (I := fun r : Surface × List Path => Quiet r.1.warnings)
    (fun r entry hr => ?_) h entries
  refine (yields_any _).bind fun found _ => ?_
  cases found with
  | none => exact yields_pure (quiet_warn hr (.append (apart_of_letters (by decide)) _))
  | some path => exact yields_pure hr

theorem quiet_ofRoot (t : FileTree) {s : Surface} (h : Quiet s.warnings) (p : Profile)
    (root : Path) : Yields (ofRoot t s p root) fun s => Quiet s.warnings := by
  refine (yields_any _).bind fun found _ => ?_
  split
  · exact yields_pure (quiet_warn h (.append (apart_of_letters (by decide)) _))
  · exact yields_pure (quiet_warn h (apart_of_letters (by decide)))
  · rename_i m
    have told := quiet_foldl_warn h (quiet_candidates m p)
    refine (quiet_findFiles t root told _).bind fun r hr => ?_
    dsimp only
    split
    · exact yields_pure (quiet_warn hr (apart_of_letters (by decide)))
    · exact yields_pure (quiet_foldl_addFile t hr _)

theorem quiet_select (name : String) : Quiet (Profile.select name).2.toList := by
  unfold Profile.select
  split
  · exact quiet_nil
  · refine quiet_singleton ?_
    repeat with_reducible apply Apart.append
    exact apart_of_letters (by decide)

theorem apart_invalidDependency (name reason : String) :
    Apart (Fault.invalidDependency name reason).text :=
  .append (.append (.append (.append (apart_of_letters (by decide)) _) _) _) _

theorem apart_place (h : Package.place folder name = .error f) : Apart f.text := by
  have pieces : Package.pathPieces name = .error f := by
    rw [Package.place] at h
    cases hp : Package.pathPieces name with
    | error e =>
      rw [hp] at h
      cases h
      rfl
    | ok ps =>
      rw [hp] at h
      cases h
  rw [Package.pathPieces] at pieces
  dsimp only at pieces
  split at pieces
  · cases pieces
    exact apart_invalidDependency _ _
  split at pieces
  · split at pieces
    · cases pieces
      exact apart_invalidDependency _ _
    · cases pieces
  · cases pieces

theorem quiet_resolve (t : FileTree) (repository : Path) (name : String) (root : Option Path)
    (profile : String) :
    Yields (resolve t repository name root profile) fun s => Quiet s.warnings := by
  have start := quiet_foldl_warn (s := {}) quiet_nil (quiet_select profile)
  rw [resolve]
  dsimp only
  split
  · exact quiet_ofRoot t start _ _
  split
  · rename_i f hf
    exact yields_ok (quiet_warn start (apart_place hf))
  · exact quiet_ofRoot t start _ _

end Surface

namespace Risk

theorem quiet_metadata (t : FileTree) (root : Path) :
    Yields (metadata t root) fun r => Quiet r.2 := by
  refine (yields_any _).bind fun found _ => ?_
  split
  · exact yields_pure quiet_nil
  · exact yields_pure (quiet_singleton (.append (apart_of_letters (by decide)) _))
  · exact yields_pure (quiet_singleton (.append (apart_of_letters (by decide)) _))

theorem quiet_cuesAt (t : FileTree) (repository : Path) (package : String)
    (dynamic : List DynamicImport) (root : Path) :
    Yields (cuesAt t repository package dynamic root) fun r => Quiet r.2 := by
  refine (quiet_metadata t root).bind fun (m, warnings) hr => ?_
  -- however native code was looked for, the depth of dependencies comes after it
  have last (signs : List RiskCue × List String) (hs : Quiet signs.2) :
      Yields (do
        let depth ← depth t repository root m
        let cues := loaderCue dynamic ++ signs.1 ++ depthCue depth
        pure (cues.mergeSort fun a b => Text.le a.code b.code, warnings ++ signs.2))
        fun r => Quiet r.2 :=
    (yields_any _).bind fun depth _ => yields_pure (hr.append hs)
  dsimp only
  split
  · exact last (_, []) quiet_nil
  split
  · refine last ([], [_]) (quiet_singleton ?_)
    repeat with_reducible apply Apart.append
    exact apart_of_letters (by decide)
  · exact yields_error _ _

theorem quiet_cues (t : FileTree) (repository : Path) (package : String)
    (dynamic : List DynamicImport) (root : Option Path) :
    Yields (cues t repository package dynamic root) fun r => Quiet r.2 := by
  unfold cues
  split
  · exact quiet_cuesAt t repository package dynamic _
  split
  · exact quiet_cuesAt t repository package dynamic _
  · refine yields_ok (quiet_singleton ?_)
    repeat with_reducible apply Apart.append
    exact apart_of_letters (by decide)

end Risk

theorem Narrowing.apart_unreadableWarning (file : String) (e : FileError) :
    Apart (unreadableWarning file e) := by
  unfold unreadableWarning
  repeat with_reducible apply Apart.append
  exact apart_of_letters (by decide)

theorem Narrowing.quiet_plan (t : FileTree) (repository : Path) (package : String)
    (root : Option Path) (facts : RepositoryFacts) :
    Yields (plan t repository package root facts) fun r => Quiet r.2 := by
  refine (yields_any _).bind fun subpaths _ => ?_
  dsimp only
  split
  · exact yields_error _ _
  · refine yields_pure ?_
    intro w hw
    obtain ⟨_, _, rfl⟩ := List.mem_map.1 (Text.mem_sortUnique.1 hw)
    exact apart_unreadableWarning _ _

end PackageUsage
