import PackageUsage.Proofs.NodeRoles

namespace PackageUsage
set_option autoImplicit true
open Syntax

namespace Facts

/-- The leaves of a pattern, at which it introduces names. -/
inductive Leaf : Visit → Visit → Prop
  | name : v.node.kind = "identifier" ∨ v.node.kind = "shorthand_property_identifier_pattern" →
      Leaf v v
  | property : v.node.kind = "pair_pattern" → v.inRole? "value" = some c → Leaf c b → Leaf v b
  | withDefault : v.node.kind = "assignment_pattern" ∨ v.node.kind = "object_assignment_pattern" →
      v.inRole? "left" = some c → Leaf c b → Leaf v b
  | part : v.node.kind = "object_pattern" ∨ v.node.kind = "array_pattern" ∨
      v.node.kind = "rest_pattern" → c ∈ v.namedChildren → Leaf c b → Leaf v b

/-- The node at which a name is declared or passed on: the name of a module that is exported as a
whole, the alias in an export, the name in an export from a source, a leaf of a declared pattern. -/
inductive Declares (v : Visit) : Visit → Prop
  | module : v.node.kind = "namespace_export" →
      v.namedChildren.find? (fun c => c.node.kind == "identifier" || c.node.kind == "string") =
        some b → Declares v b
  | renamed : v.node.kind = "export_specifier" → v.inRole? "alias" = some b → Declares v b
  | forwarded : v.node.kind = "export_specifier" → v.parent? = some clause →
      clause.parent? = some statement → (statement.node.field? "source").isSome = true →
      v.inRole? "name" = some b → Declares v b
  | leaf : v.node.kind = "variable_declarator" → v.inRole? "name" = some pattern →
      Leaf pattern b → Declares v b

section
variable {s : Source} {v b : Visit}

theorem boundNamesInRole_eq (s : Source) (role : String) (ns : List Node) :
    s.boundNamesInRole role ns =
      ((ns.find? (·.field == some role)).map s.boundNames).getD [] := by
  induction ns with
  | nil => rw [Source.boundNamesInRole]; rfl
  | cons n ns ih =>
    rw [Source.boundNamesInRole, List.find?_cons]
    cases n.field == some role with
    | true => rfl
    | false => exact ih

theorem boundNamesOfAll_eq (s : Source) (ns : List Node) :
    s.boundNamesOfAll ns = (ns.filter (·.named)).flatMap s.boundNames := by
  induction ns with
  | nil => rw [Source.boundNamesOfAll]; rfl
  | cons n ns ih =>
    rw [Source.boundNamesOfAll, List.filter_cons]
    cases n.named with
    | true => rw [if_pos rfl, if_pos rfl, List.flatMap_cons, ih]
    | false => exact ih

theorem boundNames_eq (s : Source) (n : Node) : s.boundNames n =
    if n.kind = "identifier" ∨ n.kind = "shorthand_property_identifier_pattern" then [s.text n]
    else if n.kind = "pair_pattern" then ((n.field? "value").map s.boundNames).getD []
    else if n.kind = "assignment_pattern" ∨ n.kind = "object_assignment_pattern" then
      ((n.field? "left").map s.boundNames).getD []
    else if n.kind = "object_pattern" ∨ n.kind = "array_pattern" ∨ n.kind = "rest_pattern" then
      n.namedChildren.flatMap s.boundNames
    else [] := by
  cases n
  rw [Source.boundNames, boundNamesInRole_eq, boundNamesInRole_eq, boundNamesOfAll_eq]
  rfl

theorem mem_boundNames_of_leaf (h : Leaf v b) : s.text b.node ∈ s.boundNames v.node := by
  induction h with
  | name hk =>
    rw [boundNames_eq, if_pos hk]
    exact List.mem_singleton_self _
  | property hk hc _ ih =>
    rw [boundNames_eq, hk]
    change _ ∈ ((Node.field? _ "value").map s.boundNames).getD []
    rw [Visit.node_of_inRole? hc]
    exact ih
  | withDefault hk hc _ ih =>
    have left (n : Node)
        (hk : n.kind = "assignment_pattern" ∨ n.kind = "object_assignment_pattern") :
        s.boundNames n = ((n.field? "left").map s.boundNames).getD [] := by
      rw [boundNames_eq]
      rcases hk with hk | hk <;> rw [hk] <;> rfl
    rw [left _ hk, Visit.node_of_inRole? hc]
    exact ih
  | part hk hc _ ih =>
    have parts (n : Node) (hk : n.kind = "object_pattern" ∨ n.kind = "array_pattern" ∨
        n.kind = "rest_pattern") : s.boundNames n = n.namedChildren.flatMap s.boundNames := by
      rw [boundNames_eq]
      rcases hk with hk | hk | hk <;> rw [hk] <;> rfl
    rw [parts _ hk]
    exact List.mem_flatMap.2 ⟨_, Visit.map_node_namedChildren _ ▸ List.mem_map_of_mem hc, ih⟩

theorem mem_boundNames_inRole (h : x ∈ ((v.node.field? role).map s.boundNames).getD []) :
    ∃ c, v.inRole? role = some c ∧ x ∈ s.boundNames c.node := by
  rw [← Visit.map_node_inRole?] at h
  cases hc : v.inRole? role with
  | none => rw [hc] at h; cases h
  | some c => rw [hc] at h; exact ⟨c, rfl, h⟩

theorem exists_leaf (h : x ∈ s.boundNames v.node) : ∃ b, Leaf v b ∧ s.text b.node = x := by
  induction v using Visit.recChildren with
  | step v ih =>
    rw [boundNames_eq] at h
    split at h
    · rename_i hk
      exact ⟨v, .name hk, (List.mem_singleton.1 h).symm⟩
    split at h
    · rename_i hk
      obtain ⟨c, hc, hx⟩ := mem_boundNames_inRole h
      obtain ⟨b, leaf, hb⟩ := ih c (Visit.isField_of_inRole? hc).2 hx
      exact ⟨b, .property hk hc leaf, hb⟩
    split at h
    · rename_i hk
      obtain ⟨c, hc, hx⟩ := mem_boundNames_inRole h
      obtain ⟨b, leaf, hb⟩ := ih c (Visit.isField_of_inRole? hc).2 hx
      exact ⟨b, .withDefault hk hc leaf, hb⟩
    split at h
    · rename_i hk
      obtain ⟨n, hn, hx⟩ := List.mem_flatMap.1 h
      obtain ⟨c, hc, rfl⟩ := Visit.exists_mem_namedChildren hn
      obtain ⟨b, leaf, hb⟩ := ih c (Visit.mem_children_of_named hc) hx
      exact ⟨b, .part hk hc leaf, hb⟩
    · cases h

theorem moduleExportName_of_declares (hk : v.node.kind = "namespace_export")
    (given : s.moduleExportName v.node ≠ "") :
    ∃ b, Declares v b ∧ b.node.nameText s.bytes = s.moduleExportName v.node := by
  rw [Source.moduleExportName, ← Visit.map_node_namedChildren, List.find?_map] at given ⊢
  cases hb : v.namedChildren.find? ((fun c => c.kind == "identifier" || c.kind == "string") ∘
      (·.node)) with
  | none =>
    rw [hb] at given
    exact (given rfl).elim
  | some b => exact ⟨b, .module hk hb, rfl⟩

theorem mem_declared_iff (hk : v.node.kind = "variable_declarator") :
    x ∈ ((v.node.field? "name").map s.boundNames).getD [] ↔
      ∃ b, Declares v b ∧ s.text b.node = x := by
  constructor
  · intro h
    obtain ⟨pattern, hp, hx⟩ := mem_boundNames_inRole h
    obtain ⟨b, leaf, hb⟩ := exists_leaf hx
    exact ⟨b, .leaf hk hp leaf, hb⟩
  · rintro ⟨b, declares, rfl⟩
    cases declares with
    | module other => exact absurd (hk.symm.trans other) (by decide)
    | renamed other => exact absurd (hk.symm.trans other) (by decide)
    | forwarded other => exact absurd (hk.symm.trans other) (by decide)
    | leaf _ hp leaf =>
      rw [Visit.node_of_inRole? hp]
      exact mem_boundNames_of_leaf leaf

/-- The name at a leaf is introduced there, unless it is the leaf of a pattern with a default that
holds a plain name. -/
theorem Leaf.introduced (h : Leaf v b) (inner : v.parent?.isSome = true) :
    b = v ∨ isRead b = false ∨ ∃ u, b.parent? = some u ∧ u.parent?.isSome = true ∧
      u.node.kind = "object_assignment_pattern" ∧ u.node.field? "left" = some b.node := by
  -- A leaf that is not the pattern itself is introduced by the innermost pattern around it, so that
  -- only the step from a part that is the leaf looks at the kind of the pattern.
  induction h with
  | name => exact .inl rfl
  | property hk hc _ ih =>
    have parent := Visit.parent?_of_inRole? hc
    rcases ih (by rw [parent]; rfl) with rfl | introduced
    · exact .inr (.inl (isRead_of_bindingParent parent (by rw [hk]; decide)))
    · exact .inr introduced
  | withDefault hk hc _ ih =>
    have parent := Visit.parent?_of_inRole? hc
    rcases ih (by rw [parent]; rfl) with rfl | introduced
    · rcases hk with hk | hk
      · exact .inr (.inl (isRead_of_bindingRole hc (by rw [hk]; rfl)))
      · exact .inr (.inr ⟨_, parent, inner, hk, Visit.node_of_inRole? hc⟩)
    · exact .inr introduced
  | part hk hc _ ih =>
    have parent := Visit.parent?_of_named hc
    rcases ih (by rw [parent]; rfl) with rfl | introduced
    · refine .inr (.inl (isRead_of_bindingParent parent ?_))
      rcases hk with hk | hk | hk <;> rw [hk] <;> decide
    · exact .inr introduced

theorem isRead_of_specifier (hc : b.parent? = some v) (hk : v.node.kind = "export_specifier") :
    isRead b = isLocalExportName b := by
  obtain ⟨i, hi⟩ := Visit.parent?_eq_some.1 hc
  rw [isRead, hi]
  dsimp only
  rw [hk]
  rfl

theorem isRead_of_forwarded (hb : v.inRole? "name" = some b) (hk : v.node.kind = "export_specifier")
    (hc : v.parent? = some clause) (hs : clause.parent? = some statement)
    (source : (statement.node.field? "source").isSome = true) : isRead b = false := by
  have parent := Visit.parent?_of_inRole? hb
  obtain ⟨i, hi⟩ := Visit.parent?_eq_some.1 parent
  obtain ⟨j, hj⟩ := Visit.parent?_eq_some.1 hc
  obtain ⟨k, hk'⟩ := Visit.parent?_eq_some.1 hs
  rw [isRead_of_specifier parent hk, isLocalExportName, hi, hj, hk']
  dsimp only
  rw [Option.isNone_eq_false_iff.2 source, Bool.and_false]

theorem isRead_of_alias (hb : v.inRole? "alias" = some b) (hk : v.node.kind = "export_specifier") :
    isRead b = false := by
  rw [isRead_of_specifier (Visit.parent?_of_inRole? hb) hk, isLocalExportName,
    Visit.isField_of_other hb (by decide), Bool.false_and]

/-- A name is introduced where it is declared or passed on. Apart stand the names of modules that
are exported as a whole, and plain names with a default in an object pattern. -/
theorem Declares.introduced (h : Declares v b) : v.node.kind = "namespace_export" ∧
    b.parent? = some v ∨ v.node.kind ≠ "namespace_export" ∧ (isRead b = false ∨
      ∃ u, b.parent? = some u ∧ u.parent?.isSome = true ∧
        u.node.kind = "object_assignment_pattern" ∧ u.node.field? "left" = some b.node) := by
  cases h with
  | module hk hb => exact .inl ⟨hk, Visit.parent?_of_named (List.mem_of_find?_eq_some hb)⟩
  | renamed hk hb => exact .inr ⟨by rw [hk]; decide, .inl (isRead_of_alias hb hk)⟩
  | forwarded hk hc hs source hb =>
    exact .inr ⟨by rw [hk]; decide, .inl (isRead_of_forwarded hb hk hc hs source)⟩
  | leaf hk hp leaf =>
    refine .inr ⟨by rw [hk]; decide, ?_⟩
    rcases leaf.introduced (by rw [Visit.parent?_of_inRole? hp]; rfl) with rfl | introduced
    · exact .inl (isRead_of_bindingRole hp (by rw [hk]; rfl))
    · exact introduced

theorem isRead_of_namespace (hc : b.parent? = some v) (hk : v.node.kind = "namespace_export") :
    isRead b = true :=
  isRead_of_other hc (by rw [hk]; decide)

end

end Facts

namespace ParsedSource
open Facts

/-- A node at which a name is declared or passed on is not counted as a read, but for the name under
which a whole module is exported: that is always counted. -/
theorem counts_declared_iff {p : ParsedSource}
    (lefts : ∀ w ∈ p.root.visits, w.node.kind = "object_assignment_pattern" →
      ∀ left, w.node.field? "left" = some left → left.kind ≠ "identifier") :
    let s : Source := ⟨p.path, p.bytes⟩
    (∀ v, v.node.kind = "variable_declarator" → ∀ x,
      x ∈ ((v.node.field? "name").map s.boundNames).getD [] ↔
        ∃ b, Declares v b ∧ s.text b.node = x) ∧
    (∀ v, v.node.kind = "namespace_export" → s.moduleExportName v.node ≠ "" →
      ∃ b, Declares v b ∧ b.node.nameText s.bytes = s.moduleExportName v.node) ∧
    ∀ v b, Declares v b → b.node.kind = "identifier" →
      (p.Counts b ↔
        b ∈ p.root.visits ∧ v.node.kind = "namespace_export" ∧ s.text b.node ≠ "") := by
  intro s
  refine ⟨fun v hk x => mem_declared_iff hk,
    fun v hk given => moduleExportName_of_declares hk given, fun v b h hi => ?_⟩
  rw [counts_iff hi]
  refine and_congr_right fun visited => and_congr_left fun _ => ?_
  rcases h.introduced with ⟨hk, parent⟩ | ⟨hk, unread | ⟨u, parent, inner, kind, left⟩⟩
  · exact iff_of_true (isRead_of_namespace parent hk) hk
  · rw [unread]
    exact iff_of_false Bool.false_ne_true hk
  -- The node around a leaf is visited as well, and the root is not around any declared pattern.
  · have around : u ∈ p.root.visits := by
      obtain ⟨w, hw, hb⟩ := Visit.exists_parent visited
      cases (Visit.parent?_of_named hb).symm.trans parent
      refine (List.mem_cons.1 hw).resolve_left ?_
      rintro rfl
      cases inner
    exact (lefts u around kind _ left hi).elim

/-- `const {a: [b = c]} = d;` -/
def patternReader : ParsedSource where
  path := "a.js"
  language := .javascript
  bytes := "const \x7ba: [b = c]\x7d = d;\n".toUTF8
  hasError := false
  root := ⟨"program", true, none, 0, 24, [
    ⟨"lexical_declaration", true, none, 0, 23, [
      ⟨"const", false, some "kind", 0, 5, []⟩,
      ⟨"variable_declarator", true, none, 6, 22, [
        ⟨"object_pattern", true, some "name", 6, 18, [
          ⟨"\x7b", false, none, 6, 7, []⟩,
          ⟨"pair_pattern", true, none, 7, 17, [
            ⟨"property_identifier", true, some "key", 7, 8, []⟩,
            ⟨":", false, none, 8, 9, []⟩,
            ⟨"array_pattern", true, some "value", 10, 17, [
              ⟨"[", false, none, 10, 11, []⟩,
              ⟨"assignment_pattern", true, none, 11, 16, [
                ⟨"identifier", true, some "left", 11, 12, []⟩,
                ⟨"=", false, none, 13, 14, []⟩,
                ⟨"identifier", true, some "right", 15, 16, []⟩]⟩,
              ⟨"]", false, none, 16, 17, []⟩]⟩]⟩,
          ⟨"\x7d", false, none, 17, 18, []⟩]⟩,
        ⟨"=", false, none, 19, 20, []⟩,
        ⟨"identifier", true, some "value", 21, 22, []⟩]⟩,
      ⟨";", false, none, 22, 23, []⟩]⟩]⟩

/-- A name deep inside a pattern is declared there and not read. Its default is read. -/
theorem counts_declared_of_pattern :
    let p := patternReader
    (∀ w ∈ p.root.visits, w.node.kind = "object_assignment_pattern" →
      ∀ left, w.node.field? "left" = some left → left.kind ≠ "identifier") ∧
      (∃ v b, Declares v b ∧ b.node.kind = "identifier" ∧ b.node.text p.bytes = "b" ∧
        b ∈ p.root.visits ∧ ¬ p.Counts b) ∧
      (FileFacts.ofParsed p).reads = [("c", 1), ("d", 1)] := by
  intro p
  let declaration := (Visit.root p.root).child 0 (p.root.children.get ⟨0, by decide⟩)
  let declarator := declaration.child 1 (declaration.node.children.get ⟨1, by decide⟩)
  let object := declarator.child 0 (declarator.node.children.get ⟨0, by decide⟩)
  let property := object.child 1 (object.node.children.get ⟨1, by decide⟩)
  let array := property.child 2 (property.node.children.get ⟨2, by decide⟩)
  let part := array.child 1 (array.node.children.get ⟨1, by decide⟩)
  let name := part.child 0 (part.node.children.get ⟨0, by decide⟩)
  have declares : Declares declarator name := by
    have inPart : Leaf part name := .withDefault (.inl rfl) rfl (.name (.inl rfl))
    have inArray : Leaf array name := .part (.inr (.inl rfl)) (.head _) inPart
    exact .leaf rfl rfl (.part (.inl rfl) (.head _) (.property rfl rfl inArray))
  have visited : name ∈ p.root.visits := by
    have inside {v c : Visit} (hv : v ∈ p.root.visits) (hc : c ∈ v.namedChildren) :
        c ∈ p.root.visits := Visit.namedChildren_subset_below hv hc
    have top : declaration ∈ p.root.visits :=
      Visit.cons_below_subset (.head _) List.mem_cons_self
    have visited : property ∈ p.root.visits :=
      inside (inside (inside top (.head _)) (.head _)) (.head _)
    exact inside (inside (inside visited (.tail _ (.head _))) (.head _)) (.head _)
  have lefts : ∀ w ∈ p.root.visits, w.node.kind ≠ "object_assignment_pattern" := by decide +kernel
  have lefts : ∀ w ∈ p.root.visits, w.node.kind = "object_assignment_pattern" →
      ∀ left, w.node.field? "left" = some left → left.kind ≠ "identifier" :=
    fun w hw hk => absurd hk (lefts w hw)
  have counts := (counts_declared_iff lefts).2.2 declarator name declares rfl
  refine ⟨lefts, ⟨declarator, name, declares, rfl, by decide +kernel, visited, ?_⟩,
    by decide +kernel⟩
  rw [counts]
  exact fun h => absurd h.2.1 (by decide)

/-- `export * as ns from "p";` -/
def wholeExport : ParsedSource where
  path := "a.js"
  language := .javascript
  bytes := "export * as ns from \"p\";\n".toUTF8
  hasError := false
  root := ⟨"program", true, none, 0, 25, [
    ⟨"export_statement", true, none, 0, 24, [
      ⟨"export", false, none, 0, 6, []⟩,
      ⟨"namespace_export", true, none, 7, 14, [
        ⟨"*", false, none, 7, 8, []⟩,
        ⟨"as", false, none, 9, 11, []⟩,
        ⟨"identifier", true, none, 12, 14, []⟩]⟩,
      ⟨"from", false, none, 15, 19, []⟩,
      ⟨"string", true, some "source", 20, 23, []⟩,
      ⟨";", false, none, 23, 24, []⟩]⟩]⟩

/-- The name under which a whole module is exported is counted as a read. -/
theorem counts_declared_of_namespace :
    let p := wholeExport
    (∀ w ∈ p.root.visits, w.node.kind = "object_assignment_pattern" →
      ∀ left, w.node.field? "left" = some left → left.kind ≠ "identifier") ∧
      (∃ v ∈ p.root.visits, ∃ b, Declares v b ∧ b.node.kind = "identifier" ∧
        b.node.text p.bytes = "ns" ∧ p.Counts b) ∧
      (FileFacts.ofParsed p).reads = [("ns", 1)] := by
  intro p
  let statement := (Visit.root p.root).child 0 (p.root.children.get ⟨0, by decide⟩)
  let whole := statement.child 1 (statement.node.children.get ⟨1, by decide⟩)
  let name := whole.child 2 (whole.node.children.get ⟨2, by decide⟩)
  have around : whole ∈ p.root.visits :=
    Visit.cons_below_subset (.head _) (List.mem_cons_of_mem statement
      (Visit.cons_below_subset (.head _) List.mem_cons_self))
  have declares : Declares whole name := .module rfl rfl
  have counts : p.Counts name :=
    ⟨Visit.namedChildren_subset_below around (.head _), by decide +kernel⟩
  have lefts : ∀ w ∈ p.root.visits, w.node.kind ≠ "object_assignment_pattern" := by decide +kernel
  exact ⟨fun w hw hk => absurd hk (lefts w hw),
    ⟨whole, around, name, declares, rfl, by decide +kernel, counts⟩, by decide +kernel⟩

end ParsedSource

end PackageUsage
