import PackageUsage.Proofs.ConservedReads

namespace PackageUsage
set_option autoImplicit true
open Syntax

namespace Facts

/-- An import that a part of an import clause brings in, with the node that names it. -/
inductive Brings (s : Source) (module : String) (part : Visit) : Import → Visit → Prop
  | default : part.node.kind = "identifier" →
      Brings s module part
        ⟨module, defaultName, s.text part.node, .defaultExport, s.locate part.node⟩ part
  | whole : part.node.kind = "namespace_import" → part.namedChild? "identifier" = some b →
      Brings s module part (s.whole module (s.text b.node) part.node) b
  | named : part.node.kind = "named_imports" → spec ∈ part.namedChildren →
      spec.node.kind = "import_specifier" → spec.inRole? "alias" = none →
      spec.inRole? "name" = some b → b.node.nameText s.bytes = name → name ≠ "" →
      Brings s module part (s.named module name name spec.node) b
  | renamed : part.node.kind = "named_imports" → spec ∈ part.namedChildren →
      spec.node.kind = "import_specifier" → spec.inRole? "alias" = some b →
      Node.nameOf s.bytes (spec.node.field? "name") = name → name ≠ "" →
      Brings s module part (s.named module name (s.text b.node) spec.node) b

/-- An import that a part of an object pattern takes from a module, with the node that names it. -/
inductive Takes (s : Source) (module : String) (part : Visit) : Import → Visit → Prop
  | shorthand : part.node.kind = "shorthand_property_identifier_pattern" →
      Takes s module part (s.named module (s.text part.node) (s.text part.node) part.node) part
  | shorthandDefault : part.node.kind = "object_assignment_pattern" →
      part.inRole? "left" = some b → b.node.kind = "shorthand_property_identifier_pattern" →
      Takes s module part (s.named module (s.text b.node) (s.text b.node) part.node) b
  | property : part.node.kind = "pair_pattern" →
      Node.nameOf s.bytes (part.node.field? "key") = key → key ≠ "" →
      part.inRole? "value" = some b → b.node.kind = "identifier" →
      Takes s module part (s.named module key (s.text b.node) part.node) b
  | propertyDefault : part.node.kind = "pair_pattern" →
      Node.nameOf s.bytes (part.node.field? "key") = key → key ≠ "" →
      part.inRole? "value" = some value → value.node.kind = "assignment_pattern" →
      value.inRole? "left" = some b → b.node.kind = "identifier" →
      Takes s module part (s.named module key (s.text b.node) part.node) b

/-- The visit of the declarator whose value a node is. -/
def declaratorVisit? : List (Node × Nat) → Option Visit
  | [] => none
  | (parent, i) :: rest =>
    if Source.wrappers.contains parent.kind then declaratorVisit? rest
    else if parent.kind = "variable_declarator" ∧ parent.fieldIndex? "value" = some i then
      some ⟨parent, rest⟩
    else none

/-- An import that a visit reads, with the node that names it. -/
inductive Binds (s : Source) (v : Visit) : Import → Visit → Prop
  | clause : v.node.kind = "import_statement" →
      (v.node.field? "source").bind (·.staticText? s.bytes) = some module →
      v.namedChild? "import_clause" = some clause → part ∈ clause.namedChildren →
      Brings s module part i b → Binds s v i b
  | assigned : v.node.kind = "import_statement" →
      (v.node.field? "source").bind (·.staticText? s.bytes) = none →
      v.namedChild? "import_require_clause" = some clause →
      (clause.node.field? "source").bind (·.staticText? s.bytes) = some module →
      clause.namedChild? "identifier" = some b →
      Binds s v (s.whole module (s.text b.node) b.node) b
  | declared : s.load? v.node = some (loader, argument) →
      argument.staticText? s.bytes = some module → declaratorVisit? v.around = some d →
      d.inRole? "name" = some b → b.node.kind = "identifier" →
      Binds s v (s.whole module (s.text b.node) b.node) b
  | pattern : s.load? v.node = some (loader, argument) →
      argument.staticText? s.bytes = some module → declaratorVisit? v.around = some d →
      d.inRole? "name" = some pattern → pattern.node.kind = "object_pattern" →
      part ∈ pattern.namedChildren → Takes s module part i b → Binds s v i b

theorem map_node_declaratorVisit? (around : List (Node × Nat)) :
    (declaratorVisit? around).map (·.node) = Source.declarator? around := by
  induction around with
  | nil => rfl
  | cons first rest ih =>
    obtain ⟨parent, i⟩ := first
    rw [declaratorVisit?, Source.declarator?]
    split
    · exact ih
    · split
      · rfl
      · rfl

theorem kind_of_declaratorVisit? {around : List (Node × Nat)}
    (h : declaratorVisit? around = some d) : d.node.kind = "variable_declarator" := by
  induction around with
  | nil => cases h
  | cons first rest ih =>
    obtain ⟨parent, i⟩ := first
    rw [declaratorVisit?] at h
    split at h
    · exact ih h
    · split at h
      · rename_i hk
        cases h
        exact hk.1
      · cases h

section
variable {s : Source} {v part b : Visit}

theorem specifierImport?_eq_some : s.specifierImport? module spec = some i ↔
    ∃ name, Node.nameOf s.bytes (spec.field? "name") = name ∧ name ≠ "" ∧
      s.named module name (((spec.field? "alias").map s.text).getD name) spec = i := by
  rw [Source.specifierImport?]
  split
  · rename_i empty
    refine iff_of_false nofun ?_
    rintro ⟨name, rfl, given, _⟩
    exact given empty
  · rename_i given
    rw [Option.some_inj]
    constructor
    · intro h
      exact ⟨_, rfl, given, h⟩
    · rintro ⟨name, rfl, _, h⟩
      exact h

theorem Brings.of_specifier (hk : part.node.kind = "named_imports") (hs : spec ∈ part.namedChildren)
    (kind : spec.node.kind = "import_specifier")
    (h : s.specifierImport? module spec.node = some i) : ∃ b, Brings s module part i b := by
  obtain ⟨name, hn, given, rfl⟩ := specifierImport?_eq_some.1 h
  cases ha : spec.node.field? "alias" with
  | some other =>
    obtain ⟨b, hb, rfl⟩ := Visit.exists_inRole? ha
    exact ⟨b, .renamed hk hs kind hb hn given⟩
  | none =>
    cases hf : spec.node.field? "name" with
    | none =>
      rw [hf] at hn
      exact (given hn.symm).elim
    | some node =>
      obtain ⟨b, hb, rfl⟩ := Visit.exists_inRole? hf
      rw [hf] at hn
      exact ⟨b, .named hk hs kind (Visit.inRole?_eq_none.2 ha) hb hn given⟩

theorem mem_clauseImports_of_specifier (hk : part.node.kind = "named_imports")
    (hs : spec ∈ part.namedChildren) (kind : spec.node.kind = "import_specifier")
    (h : s.specifierImport? module spec.node = some i) :
    i ∈ s.clauseImports module part.node := by
  have inside : spec.node ∈ part.node.namedChildren :=
    Visit.map_node_namedChildren part ▸ List.mem_map_of_mem hs
  rw [Source.clauseImports, hk, if_neg (by decide), if_neg (by decide), if_pos rfl]
  exact List.mem_filterMap.2 ⟨_, List.mem_filter.2 ⟨inside, beq_iff_eq.2 kind⟩, h⟩

theorem mem_clauseImports :
    i ∈ s.clauseImports module part.node ↔ ∃ b, Brings s module part i b := by
  constructor
  · intro h
    rw [Source.clauseImports] at h
    split at h
    · rename_i hk
      cases List.mem_singleton.1 h
      exact ⟨part, .default hk⟩
    split at h
    · rename_i hk
      obtain ⟨name, hn, rfl⟩ := Option.map_eq_some_iff.1 (Option.mem_toList.1 h)
      obtain ⟨b, hb, rfl⟩ := Visit.exists_namedChild? hn
      exact ⟨b, .whole hk hb⟩
    split at h
    · rename_i hk
      obtain ⟨node, chosen, hi⟩ := List.mem_filterMap.1 h
      obtain ⟨inside, kind⟩ := List.mem_filter.1 chosen
      obtain ⟨spec, hs, rfl⟩ := Visit.exists_mem_namedChildren inside
      exact Brings.of_specifier hk hs (beq_iff_eq.1 kind) hi
    · cases h
  · rintro ⟨b, h⟩
    cases h with
    | default hk =>
      rw [Source.clauseImports, if_pos hk]
      exact List.mem_singleton_self _
    | whole hk hb =>
      rw [Source.clauseImports, hk, if_neg (by decide), if_pos rfl, Visit.node_of_namedChild? hb]
      exact List.mem_singleton_self _
    | named hk hs kind ha hb hn given =>
      refine mem_clauseImports_of_specifier hk hs kind (specifierImport?_eq_some.2 ?_)
      refine ⟨_, ?_, given, ?_⟩
      · rw [Visit.node_of_inRole? hb]
        exact hn
      · rw [Visit.inRole?_eq_none.1 ha]
        rfl
    | renamed hk hs kind hb hn given =>
      refine mem_clauseImports_of_specifier hk hs kind (specifierImport?_eq_some.2 ?_)
      refine ⟨_, hn, given, ?_⟩
      rw [Visit.node_of_inRole? hb]
      rfl

theorem patternImport?_eq_some :
    s.patternImport? module part.node = some i ↔ ∃ b, Takes s module part i b := by
  constructor
  · intro h
    rw [Source.patternImport?] at h
    split at h
    · rename_i hk
      cases h
      exact ⟨part, .shorthand hk⟩
    split at h
    · rename_i hk
      split at h
      · rename_i left hl
        split at h
        · rename_i kind
          cases h
          obtain ⟨b, hb, rfl⟩ := Visit.exists_inRole? hl
          exact ⟨b, .shorthandDefault hk hb kind⟩
        · cases h
      · cases h
    split at h
    · rename_i hk
      dsimp only at h
      split at h
      · rename_i target ht
        split at h
        · rename_i hi
          cases h
          obtain ⟨node, role, ht⟩ := Option.bind_eq_some_iff.1 ht
          obtain ⟨value, hv, rfl⟩ := Visit.exists_inRole? role
          split at ht
          · rename_i kind
            obtain ⟨b, hb, rfl⟩ := Visit.exists_inRole? ht
            exact ⟨b, .propertyDefault hk rfl hi.1 hv kind hb hi.2⟩
          · cases ht
            exact ⟨value, .property hk rfl hi.1 hv hi.2⟩
        · cases h
      · cases h
    · cases h
  · rintro ⟨b, h⟩
    rw [Source.patternImport?]
    cases h with
    | shorthand hk => exact if_pos hk
    | shorthandDefault hk hb kind =>
      rw [hk, if_neg (by decide), if_pos rfl, Visit.node_of_inRole? hb]
      exact if_pos kind
    | property hk hn given hb kind =>
      rw [hk, if_neg (by decide), if_neg (by decide), if_pos rfl, Visit.node_of_inRole? hb, hn]
      dsimp only [Option.bind_some]
      rw [kind, if_neg (by decide)]
      exact if_pos ⟨given, kind⟩
    | propertyDefault hk hn given hv kind hb identifier =>
      rw [hk, if_neg (by decide), if_neg (by decide), if_pos rfl, Visit.node_of_inRole? hv, hn]
      dsimp only [Option.bind_some]
      rw [kind, if_pos rfl, Visit.node_of_inRole? hb]
      exact if_pos ⟨given, identifier⟩

theorem isSideEffect_whole (s : Source) (module : String) (place : Node) :
    (s.whole module wildcard place).isSideEffect = true := rfl

theorem exists_binds_of_statement (hk : v.node.kind = "import_statement")
    (h : i ∈ s.statementImports v.node) : i.isSideEffect = true ∨ ∃ b, Binds s v i b := by
  rw [Source.statementImports] at h
  split at h
  · rename_i sourceless
    cases hc : v.node.namedChild? "import_require_clause" with
    | none =>
      rw [hc] at h
      cases h
    | some node =>
      rw [hc] at h
      obtain ⟨clause, hclause, rfl⟩ := Visit.exists_namedChild? hc
      change i ∈ s.assignedImports clause.node at h
      rw [Source.assignedImports] at h
      split at h
      · rename_i module name hm hn
        cases List.mem_singleton.1 h
        obtain ⟨b, hb, rfl⟩ := Visit.exists_namedChild? hn
        exact .inr ⟨b, .assigned hk sourceless hclause hm hb⟩
      · cases h
  · rename_i module hm
    split at h
    · cases List.mem_singleton.1 h
      exact .inl (isSideEffect_whole s module v.node)
    · rename_i node hc
      obtain ⟨clause, hclause, rfl⟩ := Visit.exists_namedChild? hc
      obtain ⟨node, inside, hi⟩ := List.mem_flatMap.1 h
      obtain ⟨part, hp, rfl⟩ := Visit.exists_mem_namedChildren inside
      obtain ⟨b, brings⟩ := mem_clauseImports.1 hi
      exact .inr ⟨b, .clause hk hm hclause hp brings⟩

theorem exists_binds_of_call (load : s.load? v.node = some (loader, argument))
    (hm : argument.staticText? s.bytes = some module) (h : i ∈ s.callImports module v) :
    i.isSideEffect = true ∨ ∃ b, Binds s v i b := by
  have unbound (h : i ∈ [s.whole module wildcard v.node]) : i.isSideEffect = true := by
    cases List.mem_singleton.1 h
    exact isSideEffect_whole s module v.node
  rw [Source.callImports, ← map_node_declaratorVisit?] at h
  split at h
  · exact .inl (unbound h)
  rename_i node hn
  obtain ⟨other, declarator, role⟩ := Option.bind_eq_some_iff.1 hn
  obtain ⟨d, hd, rfl⟩ := Option.map_eq_some_iff.1 declarator
  obtain ⟨name, hname, rfl⟩ := Visit.exists_inRole? role
  split at h
  · rename_i kind
    cases List.mem_singleton.1 h
    exact .inr ⟨name, .declared load hm hd hname kind⟩
  split at h
  · rename_i kind
    split at h
    · exact .inl (unbound h)
    · obtain ⟨node, inside, hi⟩ := List.mem_filterMap.1 h
      obtain ⟨part, hp, rfl⟩ := Visit.exists_mem_namedChildren inside
      obtain ⟨b, takes⟩ := patternImport?_eq_some.1 hi
      exact .inr ⟨b, .pattern load hm hd hname kind hp takes⟩
  · exact .inl (unbound h)

/-- An import is bound by a node, or it only loads its module. -/
theorem exists_binds (h : i ∈ s.importsAt v) : i.isSideEffect = true ∨ ∃ b, Binds s v i b := by
  rw [Source.importsAt] at h
  split at h
  · rename_i hk
    exact exists_binds_of_statement hk h
  split at h
  · rename_i load
    split at h
    · rename_i hm
      exact exists_binds_of_call load hm h
    · cases h
  · cases h

theorem importsAt_of_load (load : s.load? v.node = some (loader, argument))
    (hm : argument.staticText? s.bytes = some module) : s.importsAt v = s.callImports module v := by
  have call : v.node.kind = "call_expression" := by
    by_contra other
    rw [Source.load?, if_neg other] at load
    cases load
  rw [Source.importsAt, if_neg (call ▸ by decide), load]
  dsimp only
  rw [hm]

theorem callImports_of_declarator (hd : declaratorVisit? v.around = some d)
    (hb : d.inRole? "name" = some b) :
    (Source.declarator? v.around).bind (·.field? "name") = some b.node := by
  rw [← map_node_declaratorVisit?, hd]
  exact Visit.node_of_inRole? hb

theorem Binds.mem_importsAt (h : Binds s v i b) : i ∈ s.importsAt v := by
  cases h with
  | clause hk hm hc hp brings =>
    rw [Source.importsAt, if_pos hk, Source.statementImports, hm]
    dsimp only
    rw [Visit.node_of_namedChild? hc]
    have inside : _ ∈ _ := Visit.map_node_namedChildren _ ▸ List.mem_map_of_mem hp
    exact List.mem_flatMap.2 ⟨_, inside, mem_clauseImports.2 ⟨b, brings⟩⟩
  | assigned hk sourceless hc hm hb =>
    rw [Source.importsAt, if_pos hk, Source.statementImports, sourceless]
    dsimp only
    rw [Visit.node_of_namedChild? hc, Option.map_some, Option.getD_some, Source.assignedImports, hm,
      Visit.node_of_namedChild? hb]
    exact List.mem_singleton_self _
  | declared load hm hd hb kind =>
    rw [importsAt_of_load load hm, Source.callImports, callImports_of_declarator hd hb]
    dsimp only
    rw [if_pos kind]
    exact List.mem_singleton_self _
  | pattern load hm hd hb kind hp takes =>
    rw [importsAt_of_load load hm, Source.callImports, callImports_of_declarator hd hb]
    dsimp only
    rw [kind, if_neg (by decide), if_pos rfl]
    have inside : _ ∈ _ := Visit.map_node_namedChildren _ ▸ List.mem_map_of_mem hp
    have taken := List.mem_filterMap.2 ⟨_, inside, patternImport?_eq_some.2 ⟨b, takes⟩⟩
    split
    · rename_i none
      rw [none] at taken
      cases taken
    · exact taken

/-- An import is known under the text of the node that binds it, or under what a string says. -/
theorem Binds.localName_eq (h : Binds s v i b) (plain : b.node.staticText? s.bytes = none) :
    i.localName = s.text b.node := by
  cases h with
  | clause _ _ _ _ brings =>
    cases brings with
    | default => rfl
    | whole => rfl
    | named _ _ _ _ _ hn =>
      rw [Node.nameText, plain] at hn
      exact hn.symm
    | renamed => rfl
  | assigned => rfl
  | declared => rfl
  | pattern _ _ _ _ _ _ takes => cases takes <;> rfl

theorem Brings.isRead_eq_false (h : Brings s module part i b) (hp : part.parent? = some clause)
    (hc : clause.node.kind = "import_clause") : isRead b = false := by
  cases h with
  | default => exact isRead_of_bindingParent hp (by rw [hc]; decide)
  | whole hk hb =>
    have inside := Visit.parent?_of_named (Visit.mem_of_namedChild? hb).1
    exact isRead_of_bindingParent inside (by rw [hk]; decide)
  | named _ _ hk _ hb =>
    exact isRead_of_bindingParent (Visit.parent?_of_inRole? hb) (by rw [hk]; decide)
  | renamed _ _ hk hb =>
    exact isRead_of_bindingParent (Visit.parent?_of_inRole? hb) (by rw [hk]; decide)

theorem Takes.isRead_eq_false (h : Takes s module part i b) (hi : b.node.kind = "identifier") :
    isRead b = false := by
  cases h with
  | shorthand hk => exact absurd (hk.symm.trans hi) (by decide)
  | shorthandDefault _ _ hk => exact absurd (hk.symm.trans hi) (by decide)
  | property hk _ _ hb =>
    exact isRead_of_bindingParent (Visit.parent?_of_inRole? hb) (by rw [hk]; decide)
  | propertyDefault _ _ _ _ hk hb => exact isRead_of_bindingRole hb (by rw [hk]; rfl)

/-- A name that an import introduces is no read where it stands, unless it is assigned to. -/
theorem Binds.introduced (h : Binds s v i b) (hi : b.node.kind = "identifier") :
    isRead b = false ∨ ∃ clause, v.namedChild? "import_require_clause" = some clause ∧
      clause.namedChild? "identifier" = some b := by
  cases h with
  | clause _ _ hc hp brings =>
    exact .inl (brings.isRead_eq_false (Visit.parent?_of_named hp) (Visit.mem_of_namedChild? hc).2)
  | assigned _ _ hc _ hb => exact .inr ⟨_, hc, hb⟩
  | declared _ _ hd hb =>
    exact .inl (isRead_of_bindingRole hb (by rw [kind_of_declaratorVisit? hd]; rfl))
  | pattern _ _ _ _ _ _ takes => exact .inl (takes.isRead_eq_false hi)

theorem isRead_of_assigned (hc : b.parent? = some clause)
    (hk : clause.node.kind = "import_require_clause") : isRead b = true :=
  isRead_of_other hc (by rw [hk]; decide)

end

end Facts

namespace ParsedSource
open Facts

theorem not_counts_of_shorthandPattern {p : ParsedSource}
    (hi : b.node.kind = "shorthand_property_identifier_pattern") : ¬ p.Counts b := by
  rintro ⟨_, counted⟩
  rw [Source.readAt?, hi] at counted
  exact Bool.false_ne_true counted

/-- An import is bound by a node or only loads its module, and a node that binds one is not counted
as a read, but for the name that an import statement assigns to: that is always counted. -/
theorem counts_bound_iff {p : ParsedSource} (hv : v ∈ p.root.visits) :
    let s : Source := ⟨p.path, p.bytes⟩
    (∀ i ∈ s.importsAt v, i.isSideEffect = true ∨ ∃ b, Binds s v i b) ∧
      ∀ i b, Binds s v i b → i ∈ s.importsAt v ∧
        (b.node.kind = "identifier" → i.localName = s.text b.node ∧
          (p.Counts b ↔ b.parent?.map (·.node.kind) = some "import_require_clause" ∧
            i.localName ≠ "")) ∧
        (b.node.kind = "shorthand_property_identifier_pattern" →
          i.localName = s.text b.node ∧ ¬ p.Counts b) := by
  intro s
  refine ⟨fun i hi => exists_binds hi, fun i b h => ⟨h.mem_importsAt, fun hi => ?_, fun hi => ?_⟩⟩
  · have name : i.localName = s.text b.node :=
      h.localName_eq (by rw [Node.staticText?, hi]; rfl)
    refine ⟨name, ?_⟩
    rw [counts_iff hi, name]
    rcases h.introduced hi with unread | ⟨clause, hc, hb⟩
    · rw [unread]
      refine iff_of_false (fun h => Bool.false_ne_true h.2.1) ?_
      rintro ⟨assigned, _⟩
      obtain ⟨clause, parent, kind⟩ := Option.map_eq_some_iff.1 assigned
      exact Bool.false_ne_true (unread.symm.trans (isRead_of_assigned parent kind))
    -- The name that is assigned to is two steps below the statement, hence visited, and read there.
    · obtain ⟨around, kind⟩ := Visit.mem_of_namedChild? hc
      have child := (Visit.mem_of_namedChild? hb).1
      have visited := Visit.namedChildren_subset_below
        (Visit.namedChildren_subset_below hv around) child
      have parent := Visit.parent?_of_named child
      rw [parent]
      exact ⟨fun h => ⟨congrArg some kind, h.2.2⟩,
        fun h => ⟨visited, isRead_of_assigned parent kind, h.2⟩⟩
  · exact ⟨h.localName_eq (by rw [Node.staticText?, hi]; rfl), not_counts_of_shorthandPattern hi⟩

/-- The name of a module as a whole is no read where it is imported. -/
theorem counts_bound_of_namespace :
    let p := Usage.wholeReader
    let s : Source := ⟨p.path, p.bytes⟩
    ∃ v ∈ p.root.visits, ∃ i b, Binds s v i b ∧ b.node.kind = "identifier" ∧ i.localName = "n" ∧
      ¬ p.Counts b := by
  intro p s
  let statement := (Visit.root p.root).child 0 (p.root.children.get ⟨0, by decide⟩)
  let clause := statement.child 1 (statement.node.children.get ⟨1, by decide⟩)
  let part := clause.child 0 (clause.node.children.get ⟨0, by decide⟩)
  let name := part.child 2 (part.node.children.get ⟨2, by decide⟩)
  have visited : statement ∈ p.root.visits :=
    Visit.cons_below_subset (.head _) List.mem_cons_self
  have binds : Binds s statement (s.whole "p" "n" part.node) name := by
    have hm : (statement.node.field? "source").bind (·.staticText? s.bytes) = some "p" := by
      decide +kernel
    have hn : s.text name.node = "n" := by decide +kernel
    have hc : statement.namedChild? "import_clause" = some clause := rfl
    exact .clause rfl hm hc (.head _) (hn ▸ .whole rfl rfl)
  have counts := ((counts_bound_iff visited).2 _ _ binds).2.1 rfl
  refine ⟨statement, visited, _, name, binds, rfl, rfl, ?_⟩
  rw [counts.2]
  rintro ⟨assigned, _⟩
  revert assigned
  decide +kernel

/-- `import x = require("p");` -/
def assignedImport : ParsedSource where
  path := "a.ts"
  language := .typescript
  bytes := "import x = require(\"p\");\n".toUTF8
  hasError := false
  root := ⟨"program", true, none, 0, 25, [
    ⟨"import_statement", true, none, 0, 24, [
      ⟨"import", false, none, 0, 6, []⟩,
      ⟨"import_require_clause", true, none, 7, 23, [
        ⟨"identifier", true, none, 7, 8, []⟩,
        ⟨"=", false, none, 9, 10, []⟩,
        ⟨"require", false, none, 11, 18, []⟩,
        ⟨"(", false, none, 18, 19, []⟩,
        ⟨"string", true, some "source", 19, 22, []⟩,
        ⟨")", false, none, 22, 23, []⟩]⟩,
      ⟨";", false, none, 23, 24, []⟩]⟩]⟩

/-- A name that is assigned to when it is imported is counted as a read there. -/
theorem counts_bound_of_assigned :
    let p := assignedImport
    let s : Source := ⟨p.path, p.bytes⟩
    (∃ v ∈ p.root.visits, ∃ i b, Binds s v i b ∧ b.node.kind = "identifier" ∧
      i.localName = "x" ∧ p.Counts b) ∧
      (FileFacts.ofParsed p).reads = [("x", 1)] := by
  intro p s
  let statement := (Visit.root p.root).child 0 (p.root.children.get ⟨0, by decide⟩)
  let clause := statement.child 1 (statement.node.children.get ⟨1, by decide⟩)
  let name := clause.child 0 (clause.node.children.get ⟨0, by decide⟩)
  have visited : statement ∈ p.root.visits :=
    Visit.cons_below_subset (.head _) List.mem_cons_self
  have binds : Binds s statement (s.whole "p" "x" name.node) name := by
    have hm : (clause.node.field? "source").bind (·.staticText? s.bytes) = some "p" := by
      decide +kernel
    have hn : s.text name.node = "x" := by decide +kernel
    have hc : statement.namedChild? "import_require_clause" = some clause := rfl
    exact hn ▸ .assigned rfl rfl hc hm rfl
  have counts : p.Counts name :=
    ⟨Visit.namedChildren_subset_below (Visit.namedChildren_subset_below visited (.head _))
      (.head _), by decide +kernel⟩
  exact ⟨⟨statement, visited, _, name, binds, rfl, rfl, counts⟩, by decide +kernel⟩

end ParsedSource

end PackageUsage
