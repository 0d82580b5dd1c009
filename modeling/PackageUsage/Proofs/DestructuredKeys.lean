import PackageUsage.Proofs.LoaderCalls

namespace PackageUsage
set_option autoImplicit true
open Syntax

namespace Facts

/-- The value of a node is that of another one, through nodes that have the value of what they
wrap. -/
inductive ValueOf (d : Visit) : Visit → Prop
  | value : d.inRole? "value" = some v → ValueOf d v
  | wrapped : ValueOf d w → Source.wrappers.contains w.node.kind = true → v ∈ w.children →
      ValueOf d v

/-- A key that a part of an object pattern reads, if it is not computed, with what it is bound to: a
name, a nested pattern or another target, without its default. -/
inductive Picks (s : Source) (part : Visit) : String → Visit → Prop
  | shorthand : part.node.kind = "shorthand_property_identifier_pattern" →
      Picks s part (s.text part.node) part
  | shorthandDefault : part.node.kind = "object_assignment_pattern" →
      part.inRole? "left" = some b → b.node.kind = "shorthand_property_identifier_pattern" →
      Picks s part (s.text b.node) b
  | property : part.node.kind = "pair_pattern" → part.inRole? "key" = some k →
      k.node.kind ≠ "computed_property_name" → part.inRole? "value" = some b →
      b.node.kind ≠ "assignment_pattern" → Picks s part (k.node.nameText s.bytes) b
  | propertyDefault : part.node.kind = "pair_pattern" → part.inRole? "key" = some k →
      k.node.kind ≠ "computed_property_name" → part.inRole? "value" = some value →
      value.node.kind = "assignment_pattern" → value.inRole? "left" = some b →
      Picks s part (k.node.nameText s.bytes) b

/-- A key is bound to a plain name: as its own shorthand, or, if it is not empty, to an
identifier. -/
def Plain (part : Visit) (key : String) (b : Visit) : Prop :=
  part.node.kind = "pair_pattern" → b.node.kind = "identifier" ∧ key ≠ ""

/-- A call that loads a module that is written down, the value of a declarator with an object
pattern. -/
structure Destructured (s : Source) (v : Visit) (module : String) (pattern : Visit) : Prop where
  loads : ∃ loader a, Calls s v loader ∧ Argument v a ∧ Literal s a.node module
  declared : ∃ d, d.node.kind = "variable_declarator" ∧ ValueOf d v ∧
    d.inRole? "name" = some pattern
  kind_eq : pattern.node.kind = "object_pattern"

section
variable {s : Source} {v d part pattern b : Visit}

theorem around_of_mem_children (hv : v ∈ d.children) :
    ∃ i, v.around = (d.node, i) :: d.around := by
  obtain ⟨i, _, rfl⟩ := List.mem_mapIdx.1 hv
  exact ⟨i, rfl⟩

theorem ValueOf.declaratorVisit? (h : ValueOf d v) (hk : d.node.kind = "variable_declarator") :
    declaratorVisit? v.around = some d := by
  induction h with
  | value hv =>
    obtain ⟨i, hi, hn⟩ := Option.bind_eq_some_iff.1 hv
    obtain ⟨n, _, rfl⟩ := Option.map_eq_some_iff.1 hn
    have unwrapped : Source.wrappers.contains d.node.kind = false := by
      rw [hk]
      decide
    rw [Visit.child, Facts.declaratorVisit?, unwrapped, if_neg Bool.false_ne_true, if_pos ⟨hk, hi⟩]
  | wrapped _ wraps hv ih =>
    obtain ⟨i, hi⟩ := around_of_mem_children hv
    rw [hi, Facts.declaratorVisit?, if_pos wraps]
    exact ih

theorem Picks.takes (h : Picks s part key b) (plain : Plain part key b) :
    Takes s module part (s.named module key (s.text b.node) part.node) b := by
  have keyed {k : Visit} (hk : part.inRole? "key" = some k) :
      Node.nameOf s.bytes (part.node.field? "key") = k.node.nameText s.bytes := by
    rw [Visit.node_of_inRole? hk]
    rfl
  cases h with
  | shorthand kind => exact .shorthand kind
  | shorthandDefault kind left hb => exact .shorthandDefault kind left hb
  | property kind hk _ value =>
    obtain ⟨identifier, given⟩ := plain kind
    exact .property kind (keyed hk) given value identifier
  | propertyDefault kind hk _ value assigned left =>
    obtain ⟨identifier, given⟩ := plain kind
    exact .propertyDefault kind (keyed hk) given value assigned left identifier

theorem Takes.kind_eq (h : Takes s module part i b) : i.kind = .named := by
  cases h <;> rfl

/-- What a module is taken apart into. -/
def Source.taken (s : Source) (module : String) (pattern : Visit) : List Import :=
  pattern.node.namedChildren.filterMap (s.patternImport? module)

theorem mem_taken : i ∈ s.taken module pattern ↔
    ∃ part ∈ pattern.namedChildren, ∃ b, Takes s module part i b := by
  rw [Source.taken, List.mem_filterMap]
  constructor
  · rintro ⟨n, hn, hi⟩
    obtain ⟨part, hp, rfl⟩ := Visit.exists_mem_namedChildren hn
    exact ⟨part, hp, patternImport?_eq_some.1 hi⟩
  · rintro ⟨part, hp, takes⟩
    exact ⟨part.node, Visit.map_node_namedChildren pattern ▸ List.mem_map_of_mem hp,
      patternImport?_eq_some.2 takes⟩

/-- A module that is taken apart into nothing is imported as a whole. -/
theorem Destructured.importsAt_eq (h : Destructured s v module pattern) :
    s.importsAt v = if s.taken module pattern = [] then [s.whole module wildcard v.node]
      else s.taken module pattern := by
  obtain ⟨loader, a, calls, ha, literal⟩ := h.loads
  obtain ⟨d, hd, value, hp⟩ := h.declared
  rw [importsAt_of_load (load?_eq_some.2 ⟨calls, a, ha, rfl⟩) (staticText?_eq_some.2 literal),
    Source.callImports, callImports_of_declarator (value.declaratorVisit? hd) hp]
  dsimp only
  rw [h.kind_eq, if_neg (by decide), if_pos rfl]
  split
  · rename_i none
    exact (if_pos none).symm
  · rename_i some
    exact (if_neg some).symm

/-- Every key of a pattern that is bound to a plain name is imported under it. All keys are
imported, or the module as a whole, exactly if no part of the pattern binds a plain name or every
key is bound to one. -/
theorem keys_kept_iff (h : Destructured s v module pattern) :
    (∀ i ∈ s.importsAt v, i.module = module) ∧
      (∀ part ∈ pattern.namedChildren, ∀ key b, Picks s part key b → Plain part key b →
        ∃ i ∈ s.importsAt v, i.exportName = key ∧ i.localName = s.text b.node) ∧
      ((s.importsAt v = [s.whole module wildcard v.node] ∨
          ∀ part ∈ pattern.namedChildren, ∀ key b, Picks s part key b →
            ∃ i ∈ s.importsAt v, i.exportName = key) ↔
        (∀ part ∈ pattern.namedChildren, ∀ i b, ¬ Takes s module part i b) ∨
          ∀ part ∈ pattern.namedChildren, ∀ key b, Picks s part key b →
            ∃ other ∈ pattern.namedChildren, ∃ i c, Takes s module other i c ∧
              i.exportName = key) := by
  obtain ⟨loader, a, calls, ha, literal⟩ := h.loads
  refine ⟨(calls.accounted.written a module ha literal).2.1, ?_, ?_⟩
  · intro part hp key b picks plain
    have takes : Takes s module part _ b := picks.takes plain
    have taken := mem_taken.2 ⟨part, hp, b, takes⟩
    rw [h.importsAt_eq, if_neg (List.ne_nil_of_mem taken)]
    exact ⟨_, taken, rfl, rfl⟩
  rw [h.importsAt_eq]
  split
  · rename_i none
    refine iff_of_true (.inl rfl) (.inl fun part hp i b takes => ?_)
    exact (List.eq_nil_iff_forall_not_mem.1 none i) (mem_taken.2 ⟨part, hp, b, takes⟩)
  · rename_i some
    obtain ⟨first, hfirst⟩ := List.exists_mem_of_ne_nil _ some
    have apart : s.taken module pattern ≠ [s.whole module wildcard v.node] := by
      intro same
      obtain ⟨_, _, _, takes⟩ := mem_taken.1 hfirst
      have named := takes.kind_eq
      rw [same, List.mem_singleton] at hfirst
      rw [hfirst] at named
      cases named
    obtain ⟨part, hp, b, takes⟩ := mem_taken.1 hfirst
    rw [or_iff_right apart, or_iff_right fun none => none part hp first b takes]
    refine forall₂_congr fun part _ => forall₃_congr fun key b _ => ?_
    constructor
    · rintro ⟨i, hi, name⟩
      obtain ⟨other, ho, c, takes⟩ := mem_taken.1 hi
      exact ⟨other, ho, i, c, takes, name⟩
    · rintro ⟨other, ho, i, c, takes, name⟩
      exact ⟨i, mem_taken.2 ⟨other, ho, c, takes⟩, name⟩

end

/-- `const {a: {b}, c} = require("p");` -/
def nestedKeys : ParsedSource where
  path := "a.js"
  language := .javascript
  bytes := "const \x7ba: \x7bb\x7d, c\x7d = require(\"p\");\n".toUTF8
  hasError := false
  root := ⟨"program", true, none, 0, 34, [
    ⟨"lexical_declaration", true, none, 0, 33, [
      ⟨"const", false, some "kind", 0, 5, []⟩,
      ⟨"variable_declarator", true, none, 6, 32, [
        ⟨"object_pattern", true, some "name", 6, 17, [
          ⟨"\x7b", false, none, 6, 7, []⟩,
          ⟨"pair_pattern", true, none, 7, 13, [
            ⟨"property_identifier", true, some "key", 7, 8, []⟩,
            ⟨":", false, none, 8, 9, []⟩,
            ⟨"object_pattern", true, some "value", 10, 13, [
              ⟨"\x7b", false, none, 10, 11, []⟩,
              ⟨"shorthand_property_identifier_pattern", true, none, 11, 12, []⟩,
              ⟨"\x7d", false, none, 12, 13, []⟩]⟩]⟩,
          ⟨",", false, none, 13, 14, []⟩,
          ⟨"shorthand_property_identifier_pattern", true, none, 15, 16, []⟩,
          ⟨"\x7d", false, none, 16, 17, []⟩]⟩,
        ⟨"=", false, none, 18, 19, []⟩,
        ⟨"call_expression", true, some "value", 20, 32, [
          ⟨"identifier", true, some "function", 20, 27, []⟩,
          ⟨"arguments", true, some "arguments", 27, 32, [
            ⟨"(", false, none, 27, 28, []⟩,
            ⟨"string", true, none, 28, 31, []⟩,
            ⟨")", false, none, 31, 32, []⟩]⟩]⟩]⟩,
      ⟨";", false, none, 32, 33, []⟩]⟩]⟩

theorem destructured_nestedKeys :
    let s : Source := ⟨nestedKeys.path, nestedKeys.bytes⟩
    ∃ v ∈ nestedKeys.root.visits, ∃ pattern property shorthand target,
      Destructured s v "p" pattern ∧ pattern.namedChildren = [property, shorthand] ∧
      Picks s property "a" target ∧ Picks s shorthand "c" shorthand ∧
      shorthand.node.kind ≠ "pair_pattern" ∧
      s.importsAt v = [s.named "p" "c" "c" shorthand.node] := by
  intro s
  let declaration := (Visit.root nestedKeys.root).child 0
    (nestedKeys.root.children.get ⟨0, by decide⟩)
  let declarator := declaration.child 1 (declaration.node.children.get ⟨1, by decide⟩)
  let pattern := declarator.child 0 (declarator.node.children.get ⟨0, by decide⟩)
  let property := pattern.child 1 (pattern.node.children.get ⟨1, by decide⟩)
  let key := property.child 0 (property.node.children.get ⟨0, by decide⟩)
  let target := property.child 2 (property.node.children.get ⟨2, by decide⟩)
  let shorthand := pattern.child 3 (pattern.node.children.get ⟨3, by decide⟩)
  let call := declarator.child 2 (declarator.node.children.get ⟨2, by decide⟩)
  let arguments := call.child 1 (call.node.children.get ⟨1, by decide⟩)
  let argument := arguments.child 1 (arguments.node.children.get ⟨1, by decide⟩)
  have visited : call ∈ nestedKeys.root.visits := by
    have inside {v c : Visit} (hv : v ∈ nestedKeys.root.visits) (hc : c ∈ v.namedChildren) :
        c ∈ nestedKeys.root.visits := Visit.namedChildren_subset_below hv hc
    have top : declaration ∈ nestedKeys.root.visits :=
      Visit.cons_below_subset (.head _) List.mem_cons_self
    exact inside (inside top (.head _)) (.tail _ (.head _))
  have calls : Calls s call "require" := .requiring rfl rfl rfl (by decide +kernel)
  have arranged : arguments.namedChildren = [] ++ argument :: [] := rfl
  have first : Argument call argument := .first rfl arranged nofun (by decide)
  have literal : Literal s argument.node "p" := staticText?_eq_some.1 (by decide +kernel)
  have destructured : Destructured s call "p" pattern :=
    ⟨⟨"require", argument, calls, first, literal⟩, ⟨declarator, rfl, .value rfl, rfl⟩, rfl⟩
  have a : key.node.nameText s.bytes = "a" := by decide +kernel
  have c : s.text shorthand.node = "c" := by decide +kernel
  exact ⟨call, visited, pattern, property, shorthand, target, destructured, rfl,
    a ▸ .property rfl rfl (by decide) rfl (by decide), c ▸ .shorthand rfl, by decide,
    by decide +kernel⟩

/-- A key that is bound to its own name is imported, whatever stands beside it. -/
theorem keys_kept_of_shorthand :
    let s : Source := ⟨nestedKeys.path, nestedKeys.bytes⟩
    ∃ v ∈ nestedKeys.root.visits, ∃ pattern, Destructured s v "p" pattern ∧
      ∃ i ∈ s.importsAt v, i.exportName = "c" := by
  intro s
  obtain ⟨v, hv, pattern, _, shorthand, _, destructured, parts, _, c, single, _⟩ :=
    destructured_nestedKeys
  have inside : shorthand ∈ pattern.namedChildren := by
    rw [parts]
    exact .tail _ (.head _)
  obtain ⟨i, hi, name, _⟩ := (keys_kept_iff destructured).2.1 shorthand inside "c" shorthand c
    fun pair => absurd pair single
  exact ⟨v, hv, pattern, destructured, i, hi, name⟩

/-- A key that is bound to a pattern is lost beside one that is bound to a name. -/
theorem keys_lost_of_pattern :
    let s : Source := ⟨nestedKeys.path, nestedKeys.bytes⟩
    ∃ v ∈ nestedKeys.root.visits, ∃ pattern, Destructured s v "p" pattern ∧
      ∃ part ∈ pattern.namedChildren, ∃ target, Picks s part "a" target ∧
        (∀ i ∈ s.importsAt v, i.exportName ≠ "a") ∧
        s.importsAt v ≠ [s.whole "p" wildcard v.node] := by
  intro s
  obtain ⟨v, hv, pattern, property, shorthand, target, destructured, parts, a, _, _, imports⟩ :=
    destructured_nestedKeys
  have inside : property ∈ pattern.namedChildren := by
    rw [parts]
    exact .head _
  refine ⟨v, hv, pattern, destructured, property, inside, target, a, ?_, ?_⟩
  · rw [imports]
    intro i hi
    have name : i.exportName = "c" := congrArg Import.exportName (List.mem_singleton.1 hi)
    rw [name]
    decide
  · rw [imports]
    intro same
    cases (congrArg (List.map (·.kind)) same)

end Facts

end PackageUsage
