import Mathlib.Data.List.Induction
import Mathlib.Logic.Function.Iterate
import Mathlib.Logic.Relation
import PackageUsage.Proofs.PlacedVisits

namespace PackageUsage.Syntax.Visit
set_option autoImplicit true

mutual

/-- The named nodes below a node by recursion, itself left out; `around` is what the node is in. -/
def descend (around : List (Node × Nat)) : Node → List Visit
  | ⟨kind, named, field, start, stop, children⟩ =>
    descendAll ⟨kind, named, field, start, stop, children⟩ around 0 children

/-- The named ones among the children of a node from a position on, each with what is below it. -/
def descendAll (parent : Node) (around : List (Node × Nat)) (i : Nat) : List Node → List Visit
  | [] => []
  | c :: cs =>
    (if c.named then ⟨c, (parent, i) :: around⟩ :: descend ((parent, i) :: around) c else []) ++
      descendAll parent around (i + 1) cs

end

/-- The walk by recursion. -/
def preorder (v : Visit) : List Visit := descend v.around v.node

/-- One turn of the walk by a stack: the last of the pending trees gives way to its named children,
the first of them last. -/
def turn (stack : List Visit) : List Visit :=
  match stack.getLast? with
  | none => []
  | some v => stack.dropLast ++ v.namedChildren.reverse

theorem descendAll_eq (parent : Node) (around : List (Node × Nat)) (i : Nat) (cs : List Node) :
    descendAll parent around i cs =
      ((cs.mapIdx fun j c => ⟨c, (parent, i + j) :: around⟩).filter (·.node.named)).flatMap
        fun c => c :: c.preorder := by
  induction cs generalizing i with
  | nil => rfl
  | cons c cs ih =>
    have shift : (fun j c => (⟨c, (parent, i + (j + 1)) :: around⟩ : Visit)) =
        fun j c => ⟨c, (parent, i + 1 + j) :: around⟩ := by
      funext j c
      rw [Nat.add_comm j 1, Nat.add_assoc]
    rw [descendAll, ih, List.mapIdx_cons, shift, List.filter_cons]
    cases c.named with
    | true => rfl
    | false => rfl

theorem preorder_eq (v : Visit) :
    v.preorder = v.namedChildren.flatMap fun c => c :: c.preorder := by
  obtain ⟨⟨kind, named, field, start, stop, children⟩, around⟩ := v
  rw [preorder, descend, descendAll_eq]
  simp only [Nat.zero_add]
  rfl

theorem below_eq_preorder (v : Visit) : v.below = v.preorder := by
  induction v using recChildren with
  | step v ih =>
    have each : ∀ c ∈ v.namedChildren, c :: c.below = c :: c.preorder := by
      intro c hc
      rw [ih c (mem_children_of_named hc)]
    rw [below_eq, preorder_eq, List.flatMap_congr each]

theorem mem_below_iff (v w : Visit) :
    w ∈ v.below ↔ Relation.TransGen (fun u c => c ∈ u.namedChildren) v w := by
  constructor
  · intro hw
    induction v using recChildren with
    | step v ih =>
      rw [below_eq] at hw
      obtain ⟨c, hc, hw⟩ := List.mem_flatMap.1 hw
      rcases List.mem_cons.1 hw with rfl | hw
      · exact .single hc
      · exact .head hc (ih c (mem_children_of_named hc) hw)
  · intro led
    induction led with
    | single hc => exact cons_below_subset hc List.mem_cons_self
    | tail _ hc ih => exact namedChildren_subset_below ih hc

theorem turn_concat (stack : List Visit) (v : Visit) :
    turn (stack ++ [v]) = stack ++ v.namedChildren.reverse := by
  rw [turn, List.getLast?_concat, List.dropLast_concat]

/-- What a stack is still to visit, its last tree first: that tree now, and the rest of it after the
turn. -/
theorem getLast?_iterate_turn (stack : List Visit) (k : Nat) :
    (turn^[k] stack).getLast? = (stack.reverse.flatMap fun v => v :: v.preorder)[k]? := by
  induction k generalizing stack with
  | zero =>
    cases stack using List.reverseRecOn with
    | nil => rfl
    | append_singleton stack v =>
      rw [Function.iterate_zero_apply, List.getLast?_concat, List.reverse_concat]
      rfl
  | succ k ih =>
    rw [Function.iterate_succ_apply, ih]
    cases stack using List.reverseRecOn with
    | nil => rfl
    | append_singleton stack v =>
      rw [turn_concat, List.reverse_append, List.reverse_reverse, List.flatMap_append,
        ← preorder_eq, List.reverse_concat, List.flatMap_cons, List.cons_append,
        List.getElem?_cons_succ]

/-- The walk from any node is the walk by recursion. It visits each node that named nodes lead to
once, and none else. A stack that begins with the named children of the node shows them one by one,
in this order, and is empty after as many turns. -/
theorem below_walks_preorder (v : Visit) :
    v.below = v.preorder ∧ v.below.Nodup ∧
      (∀ w, w ∈ v.below ↔ Relation.TransGen (fun u c => c ∈ u.namedChildren) v w) ∧
      (∀ k, (turn^[k] v.namedChildren.reverse).getLast? = v.below[k]?) ∧
      turn^[v.below.length] v.namedChildren.reverse = [] := by
  have shown : ∀ k, (turn^[k] v.namedChildren.reverse).getLast? = v.below[k]? := by
    intro k
    rw [getLast?_iterate_turn, List.reverse_reverse, ← preorder_eq, below_eq_preorder]
  have once : v.below.Nodup := by
    apply (pairwise_below v).imp
    intro u w before same
    rw [same] at before
    exact List.lt_irrefl _ before
  refine ⟨below_eq_preorder v, once, mem_below_iff v, shown, ?_⟩
  have last := shown v.below.length
  rw [List.getElem?_length] at last
  exact List.getLast?_eq_none_iff.1 last

end PackageUsage.Syntax.Visit
