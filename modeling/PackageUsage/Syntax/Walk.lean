import PackageUsage.Syntax.Node

namespace PackageUsage.Syntax

/-- A node together with the nodes around it, innermost first, each with the position among its
children of the one that leads to the node. -/
structure Visit where
  node : Node
  around : List (Node × Nat)

namespace Visit

def root (n : Node) : Visit := ⟨n, []⟩

def child (v : Visit) (i : Nat) (n : Node) : Visit := ⟨n, (v.node, i) :: v.around⟩

def children (v : Visit) : List Visit := v.node.children.mapIdx v.child

def namedChildren (v : Visit) : List Visit := v.children.filter (·.node.named)

def parent? (v : Visit) : Option Visit :=
  match v.around with
  | [] => none
  | (p, _) :: rest => some ⟨p, rest⟩

/-- Whether this is the child that its parent has in a role. -/
def isField (v : Visit) (role : String) : Bool :=
  match v.around with
  | [] => false
  | (p, i) :: _ => p.fieldIndex? role == some i

/-- The number of nodes in the trees of some visits. -/
def pending : List Visit → Nat
  | [] => 0
  | v :: vs => v.node.size + pending vs

theorem pending_filter_le (p : Visit → Bool) (vs : List Visit) :
    pending (vs.filter p) ≤ pending vs := by
  induction vs with
  | nil => exact Nat.le_refl _
  | cons v vs ih =>
    simp only [List.filter_cons, pending]
    split
    · exact Nat.add_le_add_left ih _
    · omega

theorem map_node_children (v : Visit) : v.children.map (·.node) = v.node.children := by
  apply List.ext_getElem <;> simp [children, child]

theorem pending_eq_sizes (vs : List Visit) :
    pending vs = Node.size.sizes (vs.map (·.node)) := by
  induction vs with
  | nil => rfl
  | cons v vs ih => simp only [pending, List.map_cons, Node.size.sizes, ih]

theorem pending_namedChildren_lt (v : Visit) : pending v.namedChildren < v.node.size := by
  have hle : pending v.namedChildren ≤ pending v.children := pending_filter_le ..
  have hnode : v.node.size = 1 + Node.size.sizes v.node.children := by
    cases h : v.node; simp [Node.size]
  rw [pending_eq_sizes v.children, map_node_children] at hle
  omega

theorem pending_append (vs ws : List Visit) : pending (vs ++ ws) = pending vs + pending ws := by
  induction vs with
  | nil => exact (Nat.zero_add _).symm
  | cons v vs ih => simp only [List.cons_append, pending, ih, Nat.add_assoc]

/-- Visits the pending trees, the first one first; `seen` holds what was visited before. -/
def drain (stack : List Visit) (seen : Array Visit) : Array Visit :=
  match stack with
  | [] => seen
  | v :: rest => drain (v.namedChildren ++ rest) (seen.push v)
termination_by pending stack
decreasing_by
  have := pending_namedChildren_lt v
  rw [pending_append]
  simp only [pending]
  omega

/-- The named nodes below a visit, itself left out, parents before children. -/
def below (v : Visit) : List Visit := (drain v.namedChildren #[]).toList

end Visit

def Node.visits (n : Node) : List Visit := (Visit.root n).below

end PackageUsage.Syntax
