import PackageUsage.Package.Installed
import PackageUsage.Proofs.SpecifierNames

namespace PackageUsage
set_option autoImplicit true

namespace Text

theorem rdropWhile_append_cons {p : Char → Bool} (hc : p c = false) (cs ds : List Char) :
    (cs ++ c :: ds).rdropWhile p = cs ++ c :: ds.rdropWhile p := by
  have stops : (c :: cs.reverse).dropWhile p = c :: cs.reverse := by
    rw [List.dropWhile_cons, hc, if_neg Bool.false_ne_true]
  unfold List.rdropWhile
  rw [List.reverse_append, List.reverse_cons, List.append_assoc, List.singleton_append,
    List.dropWhile_append, stops]
  cases hd : ds.reverse.dropWhile p with
  | nil => simp
  | cons d rest => simp

theorem strip_sublist (s : String) : (strip s).toList.Sublist s.toList := by
  unfold strip
  rw [String.toList_ofList]
  exact (List.rdropWhile_prefix isBlank _).sublist.trans (List.dropWhile_suffix isBlank).sublist

theorem dropWhile_of_trimmed (trimmed : strip s = s) :
    s.toList.dropWhile isBlank = s.toList := by
  have shorter := (List.rdropWhile_prefix isBlank (s.toList.dropWhile isBlank)).length_le
  have same : ((s.toList.dropWhile isBlank).rdropWhile isBlank) = s.toList := by
    have characters := congrArg String.toList trimmed
    unfold strip at characters
    rwa [String.toList_ofList] at characters
  rw [same] at shorter
  exact (List.dropWhile_suffix isBlank).eq_of_length_le shorter

theorem strip_append_slash (trimmed : strip s = s) (t : String) :
    ∃ u, strip (s ++ "/" ++ t) = s ++ "/" ++ u := by
  have start := dropWhile_of_trimmed trimmed
  have whole : (s ++ "/" ++ t).toList = s.toList ++ '/' :: t.toList := by
    rw [String.toList_append, String.toList_append, List.append_assoc]
    rfl
  have begins : (s.toList ++ '/' :: t.toList).dropWhile isBlank =
      s.toList ++ '/' :: t.toList := by
    cases hs : s.toList with
    | nil => rfl
    | cons c cs =>
      rw [hs, List.dropWhile_eq_self_iff] at start
      rw [List.dropWhile_eq_self_iff]
      exact fun _ => start (Nat.succ_pos _)
  have slash : isBlank '/' = false := by decide
  refine ⟨String.ofList (t.toList.rdropWhile isBlank), String.toList_inj.1 ?_⟩
  unfold strip
  rw [whole, begins]
  simp only [String.toList_append, String.toList_ofList, List.append_assoc]
  exact rdropWhile_append_cons slash s.toList t.toList

end Text

namespace Specifier
open Text

theorem strip_of_canonical (canonical : package? name = some name) : strip name = name := by
  obtain ⟨_, same | ⟨rest, longer⟩⟩ := leads_split_iff.1 (package?_eq_some_iff.1 canonical)
  · exact same
  · have shorter := (strip_sublist name).length_le
    rw [longer, String.toList_append, String.toList_append, List.length_append,
      List.length_append] at shorter
    change name.toList.length + 1 + rest.toList.length ≤ name.toList.length at shorter
    omega

theorem Below.strip (trimmed : Text.strip name = name) (h : Below m name) :
    Below (Text.strip m) name := by
  rcases h with rfl | ⟨rest, rfl⟩
  · exact .inl trimmed
  · obtain ⟨more, he⟩ := strip_append_slash trimmed rest
    exact .inr ⟨more, he⟩

theorem package?_of_belongsTo (canonical : package? name = some name)
    (h : belongsTo m name = true) : package? m = some name := by
  rw [package?_eq_some_iff, leads_split_iff]
  exact ⟨leads_of_package? canonical, (belongsTo_iff.1 h).strip (strip_of_canonical canonical)⟩

theorem isBuiltin_of_package? (h : package? m = some name) : isBuiltin m = false := by
  by_contra builtin
  have stripped : isBuiltin (strip m) = true := by
    unfold isBuiltin at builtin ⊢
    rw [strip_strip]
    exact Bool.not_eq_false _ ▸ builtin
  unfold package? at h
  dsimp only at h
  rw [if_pos (.inr (.inl stripped))] at h
  cases h

theorem Leads.external (h : Leads segments name) :
    ∃ first rest, segments = first :: rest ∧ External first := by
  cases h with
  | bare external _ => exact ⟨_, _, rfl, external⟩
  | inScope external _ _ _ => exact ⟨_, _, rfl, external⟩

theorem Leads.not_path (h : Leads (split '/' m) name) :
    isRelative m = false ∧ startsWith m "/" = false := by
  obtain ⟨first, rest, hs, given, _, _, dot⟩ := h.external
  constructor
  · exact (startsWith_of_split hs (by decide)).trans dot
  · rw [Bool.eq_false_iff]
    exact fun slash => given ((first_eq_empty_iff hs).1 (.inr slash))

theorem cut_append (h : sep ∉ s.toList) (t : String) :
    Package.cut sep (s ++ String.singleton sep ++ t) = (s, t) := by
  have parts : (s.toList ++ sep :: t.toList).span (· != sep) = (s.toList, sep :: t.toList) := by
    apply span_append
    · intro c hc
      rw [bne_iff_ne]
      rintro rfl
      exact h hc
    · rintro _ ⟨⟩
      exact bne_self_eq_false sep
  unfold Package.cut
  rw [String.toList_append, String.toList_append, String.toList_singleton, List.append_assoc,
    List.singleton_append, parts]
  simp

theorem exists_pathPieces (trimmed : strip name = name) (h : Leads (split '/' name) name) :
    ∃ pieces, Package.pathPieces name = .ok pieces ∧ join "/" pieces = name := by
  generalize hs : split '/' name = segments at h
  unfold Package.pathPieces
  dsimp only
  rw [trimmed]
  cases h with
  | bare external bare =>
    obtain ⟨given, _⟩ := external
    rw [if_neg given, bare, if_neg Bool.false_ne_true]
    exact ⟨[name], rfl, String.intercalate_singleton⟩
  | @inScope scope second rest external inScope long named =>
    obtain ⟨clear, _⟩ := split_eq_cons hs
    have same : startsWith (scope ++ String.singleton '/' ++ second) "@" = startsWith scope "@" :=
      startsWith_append (by decide) scope second
    have start : startsWith (scope ++ "/" ++ second) "@" = true := same.trans inScope
    have given : scope ++ "/" ++ second ≠ "" := by
      intro empty
      rw [empty] at start
      cases start
    have apart : ¬ (second = "" ∨ scope.length ≤ 1) := not_or.2 ⟨named, Nat.not_le.2 long⟩
    have pieces : Package.cut '/' (scope ++ "/" ++ second) = (scope, second) :=
      cut_append clear second
    rw [if_neg given, if_pos start, pieces]
    dsimp only
    rw [if_neg apart]
    refine ⟨[scope, second], rfl, ?_⟩
    rw [join, String.intercalate_cons_cons, String.intercalate_singleton]

/-- Package names part the specifiers: one without white space around it names a package exactly if
it belongs to it. So it belongs to no other package, and neither to the runtime nor to a file; and
the name makes a path. -/
theorem belongsTo_partitions (canonical : package? name = some name) :
    (∀ m, strip m = m → (belongsTo m name = true ↔ package? m = some name)) ∧
    (∀ m, belongsTo m name = true →
      (∀ other, package? other = some other → belongsTo m other = true → other = name) ∧
      isBuiltin m = false ∧ isRelative m = false ∧ startsWith m "/" = false) ∧
    ∃ pieces, Package.pathPieces name = .ok pieces ∧ join "/" pieces = name := by
  have named := leads_of_package? canonical
  refine ⟨fun m trimmed => ?_, fun m h => ?_, ?_⟩
  · exact (package?_eq_some_iff_belongsTo trimmed named).symm
  · have names := package?_of_belongsTo canonical h
    have leads := leads_split_iff.2 ⟨named, belongsTo_iff.1 h⟩
    refine ⟨fun other canonical' h' => ?_, isBuiltin_of_package? names, leads.not_path⟩
    exact Option.some.inj ((package?_of_belongsTo canonical' h').symm.trans names)
  · exact exists_pathPieces (strip_of_canonical canonical) named

/-- A scoped package and one whose name goes on from it. -/
theorem belongsTo_partitions_scope : package? "@acme/ui" = some "@acme/ui" ∧
    package? "@acme/ui-kit" = some "@acme/ui-kit" ∧
    belongsTo "@acme/ui-kit/button" "@acme/ui-kit" = true ∧
    belongsTo "@acme/ui-kit/button" "@acme/ui" = false ∧
    package? "@acme/ui-kit/button" ≠ some "@acme/ui" ∧
    ∃ pieces, Package.pathPieces "@acme/ui" = .ok pieces ∧ join "/" pieces = "@acme/ui" := by
  have canonical : package? "@acme/ui" = some "@acme/ui" := by decide +kernel
  obtain ⟨exact, _, pieces⟩ := belongsTo_partitions canonical
  have outside : belongsTo "@acme/ui-kit/button" "@acme/ui" = false := by decide +kernel
  refine ⟨canonical, by decide +kernel, by decide +kernel, outside, fun names => ?_, pieces⟩
  have inside := (exact "@acme/ui-kit/button" (by decide +kernel)).2 names
  rw [outside] at inside
  cases inside

end Specifier

end PackageUsage
