import PackageUsage.Facts.Extraction
import PackageUsage.Proofs.TreeWalk

namespace PackageUsage
set_option autoImplicit true

namespace Syntax.Visit
variable {v c : Visit}

/-- The child in a role. -/
def inRole? (v : Visit) (role : String) : Option Visit :=
  (v.node.fieldIndex? role).bind fun i => v.node.children[i]?.map (v.child i)

/-- The first named child of a kind. -/
def namedChild? (v : Visit) (kind : String) : Option Visit :=
  v.namedChildren.find? (·.node.kind == kind)

theorem map_node_inRole? (v : Visit) (role : String) :
    (v.inRole? role).map (·.node) = v.node.field? role := by
  rw [Node.field?, List.find?_eq_bind_findIdx?_getElem?, inRole?, Option.map_bind]
  congr 1
  funext i
  exact (Option.map_map ..).trans (Option.map_id' ..)

theorem map_node_namedChildren (v : Visit) :
    v.namedChildren.map (·.node) = v.node.namedChildren := by
  rw [Node.namedChildren, ← map_node_children, List.filter_map]
  rfl

theorem map_node_namedChild? (v : Visit) (kind : String) :
    (v.namedChild? kind).map (·.node) = v.node.namedChild? kind := by
  rw [Node.namedChild?, ← map_node_namedChildren, List.find?_map]
  rfl

theorem node_of_inRole? (h : v.inRole? role = some c) : v.node.field? role = some c.node := by
  rw [← map_node_inRole?, h]
  rfl

theorem node_of_namedChild? (h : v.namedChild? kind = some c) :
    v.node.namedChild? kind = some c.node := by
  rw [← map_node_namedChild?, h]
  rfl

theorem exists_inRole? (h : v.node.field? role = some n) :
    ∃ c, v.inRole? role = some c ∧ c.node = n := by
  rw [← map_node_inRole?] at h
  exact Option.map_eq_some_iff.1 h

theorem inRole?_eq_none : v.inRole? role = none ↔ v.node.field? role = none := by
  rw [← map_node_inRole?, Option.map_eq_none_iff]

theorem exists_namedChild? (h : v.node.namedChild? kind = some n) :
    ∃ c, v.namedChild? kind = some c ∧ c.node = n := by
  rw [← map_node_namedChild?] at h
  exact Option.map_eq_some_iff.1 h

theorem exists_mem_namedChildren (h : n ∈ v.node.namedChildren) :
    ∃ c ∈ v.namedChildren, c.node = n := by
  rw [← map_node_namedChildren] at h
  exact List.mem_map.1 h

theorem mem_of_namedChild? (h : v.namedChild? kind = some c) :
    c ∈ v.namedChildren ∧ c.node.kind = kind := by
  have same : (c.node.kind == kind) = true :=
    List.find?_some (p := fun c : Visit => c.node.kind == kind) h
  exact ⟨List.mem_of_find?_eq_some h, beq_iff_eq.1 same⟩

theorem parent?_eq_some : c.parent? = some v ↔ ∃ i, c.around = (v.node, i) :: v.around := by
  rw [parent?]
  split
  · rename_i h
    simp [h]
  · rename_i h
    simp only [h, Option.some.injEq, List.cons.injEq, Prod.mk.injEq]
    constructor
    · rintro rfl
      exact ⟨_, ⟨rfl, rfl⟩, rfl⟩
    · rintro ⟨_, ⟨rfl, rfl⟩, rfl⟩
      rfl

theorem parent?_child (h : c ∈ v.children) : c.parent? = some v := by
  obtain ⟨i, _, rfl⟩ := List.mem_mapIdx.1 h
  rfl

theorem parent?_of_named (h : c ∈ v.namedChildren) : c.parent? = some v :=
  parent?_child (mem_children_of_named h)

theorem isSome_parent? (h : c ∈ v.below) : c.parent?.isSome = true := by
  obtain ⟨u, _, hc⟩ := exists_parent h
  rw [parent?_of_named hc]
  rfl

theorem isField_child (v : Visit) (i : Nat) (n : Node) (role : String) :
    (v.child i n).isField role = (v.node.fieldIndex? role == some i) := rfl

/-- The child in a role is told by it from all others. -/
theorem isField_of_inRole? (h : v.inRole? role = some c) :
    c.isField role = true ∧ c ∈ v.children := by
  obtain ⟨i, hi, hc⟩ := Option.bind_eq_some_iff.1 h
  obtain ⟨n, hn, rfl⟩ := Option.map_eq_some_iff.1 hc
  obtain ⟨length, rfl⟩ := List.getElem?_eq_some_iff.1 hn
  refine ⟨?_, List.mem_mapIdx.2 ⟨i, length, rfl⟩⟩
  rw [isField_child]
  exact beq_iff_eq.2 hi

theorem parent?_of_inRole? (h : v.inRole? role = some c) : c.parent? = some v :=
  parent?_child (isField_of_inRole? h).2

theorem isField_of_other (h : v.inRole? role = some c) (other : role ≠ role') :
    c.isField role' = false := by
  have field {i : Nat} {role : String} (hi : v.node.fieldIndex? role = some i) :
      (v.node.children[i]?.bind (·.field)) = some role := by
    obtain ⟨length, hr, _⟩ := List.findIdx?_eq_some_iff_getElem.1 hi
    rw [List.getElem?_eq_getElem length]
    exact beq_iff_eq.1 hr
  obtain ⟨i, hi, hc⟩ := Option.bind_eq_some_iff.1 h
  obtain ⟨n, _, rfl⟩ := Option.map_eq_some_iff.1 hc
  rw [isField_child]
  by_contra hr
  have same := (field hi).symm.trans (field (beq_iff_eq.1 (Bool.eq_true_of_not_eq_false hr)))
  exact other (Option.some_inj.1 same)

theorem filter_mapIdx {f : Nat → α → β} {p : β → Bool} {i : Nat}
    (h : ∀ j a, p (f j a) = decide (j = i)) (as : List α) :
    (as.mapIdx f).filter p = (as[i]?.map (f i)).toList := by
  induction as generalizing f i with
  | nil => rfl
  | cons a as ih =>
    rw [List.mapIdx_cons, List.filter_cons, h]
    cases i with
    | zero =>
      have none : (as.mapIdx fun j => f (j + 1)).filter p = [] := by
        refine List.filter_eq_nil_iff.2 fun b hb => ?_
        obtain ⟨j, _, rfl⟩ := List.mem_mapIdx.1 hb
        rw [h]
        exact of_decide_eq_false rfl
      rw [none]
      rfl
    | succ i =>
      exact ih fun j a => (h (j + 1) a).trans (by simp only [Nat.add_right_cancel_iff])

theorem filter_isField (v : Visit) (role : String) :
    v.children.filter (·.isField role) = (v.inRole? role).toList := by
  cases hi : v.node.fieldIndex? role with
  | none =>
    rw [inRole?, hi]
    refine List.filter_eq_nil_iff.2 fun c hc => ?_
    obtain ⟨j, _, rfl⟩ := List.mem_mapIdx.1 hc
    rw [isField_child, hi]
    exact Bool.false_ne_true
  | some i =>
    rw [inRole?, hi]
    refine filter_mapIdx (fun j n => ?_) v.node.children
    rw [isField_child, hi]
    simp only [beq_eq_decide, Option.some.injEq, eq_comm]

end Syntax.Visit

namespace Facts
open Syntax
variable {v c : Visit}

theorem isRead_of_bindingParent (hc : c.parent? = some v)
    (hk : bindingParents.contains v.node.kind = true) : isRead c = false := by
  obtain ⟨i, hi⟩ := Visit.parent?_eq_some.1 hc
  rw [isRead, hi]
  exact if_pos hk

theorem isRead_of_bindingRole (hc : v.inRole? role = some c)
    (hk : bindingRole? v.node.kind = some role) : isRead c = false := by
  obtain ⟨field, child⟩ := Visit.isField_of_inRole? hc
  obtain ⟨i, hi⟩ := Visit.parent?_eq_some.1 (Visit.parent?_child child)
  rw [isRead, hi]
  dsimp only
  rw [hk]
  dsimp only
  rw [field]
  exact ite_self _

theorem isRead_of_other (hc : c.parent? = some v)
    (hk : bindingParents.contains v.node.kind = false ∧ bindingRole? v.node.kind = none ∧
      v.node.kind ≠ "export_specifier") : isRead c = true := by
  obtain ⟨i, hi⟩ := Visit.parent?_eq_some.1 hc
  obtain ⟨parent, role, specifier⟩ := hk
  rw [isRead, hi]
  dsimp only
  rw [parent, role]
  exact if_neg specifier

theorem readAt?_identifier {s : Source} (hi : v.node.kind = "identifier") :
    s.readAt? v = if isRead v = true ∧ s.text v.node ≠ "" then some (s.text v.node) else none := by
  have shorthand : ("identifier" == "shorthand_property_identifier") = false := by decide
  rw [Source.readAt?, hi, beq_self_eq_true, Bool.true_and, shorthand, Bool.or_false]
  cases isRead v with
  | false => rfl
  | true =>
    by_cases given : s.text v.node = ""
    · simp [given]
    · simp [given]

end Facts

/-- The reads of a file that are counted. -/
def ParsedSource.Counts (p : ParsedSource) (v : Syntax.Visit) : Prop :=
  v ∈ p.root.visits ∧ (Facts.Source.readAt? ⟨p.path, p.bytes⟩ v).isSome = true

theorem ParsedSource.counts_iff {p : ParsedSource} {v : Syntax.Visit}
    (hi : v.node.kind = "identifier") : p.Counts v ↔
      v ∈ p.root.visits ∧ Facts.isRead v = true ∧ v.node.text p.bytes ≠ "" := by
  rw [Counts, Facts.readAt?_identifier hi]
  refine and_congr_right fun _ => ?_
  split
  · rename_i h
    exact iff_of_true rfl h
  · rename_i h
    exact iff_of_false Bool.false_ne_true h

end PackageUsage
