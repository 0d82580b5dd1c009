import Mathlib.Algebra.GroupWithZero.Nat
import Mathlib.Algebra.Order.BigOperators.Group.List
import Mathlib.Algebra.Order.Group.Nat
import PackageUsage.Syntax.Walk

namespace PackageUsage.Syntax
set_option autoImplicit true

namespace Visit
variable {v c : Visit}

theorem toList_drain (stack : List Visit) (seen : Array Visit) :
    (drain stack seen).toList = seen.toList ++ stack.flatMap fun v => v :: v.below := by
  match stack with
  | [] => rw [drain, List.flatMap_nil, List.append_nil]
  | v :: rest =>
    have children := toList_drain v.namedChildren #[]
    rw [List.nil_append, ← below] at children
    rw [drain, toList_drain (v.namedChildren ++ rest), Array.toList_push, List.flatMap_append,
      ← children, List.flatMap_cons, List.append_assoc, List.singleton_append, List.cons_append]
termination_by pending stack
decreasing_by
  · have := pending_namedChildren_lt v
    simp only [pending]
    omega
  · have := pending_namedChildren_lt v
    rw [pending_append]
    simp only [pending]
    omega

theorem below_eq (v : Visit) : v.below = v.namedChildren.flatMap fun c => c :: c.below := by
  rw [below, toList_drain, List.nil_append]

theorem mem_children_of_named (h : c ∈ v.namedChildren) : c ∈ v.children :=
  List.mem_of_mem_filter h

theorem size_lt_of_mem_children (hc : c ∈ v.children) : c.node.size < v.node.size := by
  have le {ns : List Node} {n : Node} (hn : n ∈ ns) : n.size ≤ Node.size.sizes ns := by
    induction ns with
    | nil => cases hn
    | cons m ns ih =>
      rw [Node.size.sizes]
      cases hn with
      | head => exact Nat.le_add_right _ _
      | tail _ hn => exact Nat.le_add_left_of_le (ih hn)
  have inside : c.node ∈ v.node.children := map_node_children v ▸ List.mem_map_of_mem hc
  have whole : v.node.size = 1 + Node.size.sizes v.node.children := by
    cases v.node
    rfl
  have := le inside
  omega

theorem recChildren {motive : Visit → Prop}
    (step : ∀ v, (∀ c ∈ v.children, motive c) → motive v)
    (v : Visit) : motive v := by
  induction h : v.node.size using Nat.strong_induction_on generalizing v with
  | h n ih =>
    subst h
    exact step v fun c hc => ih c.node.size (size_lt_of_mem_children hc) c rfl

theorem cons_below_subset (hc : c ∈ v.namedChildren) : c :: c.below ⊆ v.below := by
  rw [below_eq v]
  exact fun w hw => List.mem_flatMap.2 ⟨c, hc, hw⟩

theorem namedChildren_subset_below (hw : w ∈ v.below) : w.namedChildren ⊆ v.below := by
  induction v using recChildren with
  | step v ih =>
    rw [below_eq] at hw
    obtain ⟨c, hc, hw⟩ := List.mem_flatMap.1 hw
    have inside := cons_below_subset hc
    intro d hd
    apply inside
    rcases List.mem_cons.1 hw with rfl | hw
    · exact List.mem_cons_of_mem _ (cons_below_subset hd List.mem_cons_self)
    · exact List.mem_cons_of_mem _ (ih c (mem_children_of_named hc) hw hd)

theorem exists_parent (hw : w ∈ v.below) : ∃ u ∈ v :: v.below, w ∈ u.namedChildren := by
  induction v using recChildren with
  | step v ih =>
    rw [below_eq] at hw
    obtain ⟨c, hc, hw⟩ := List.mem_flatMap.1 hw
    rcases List.mem_cons.1 hw with rfl | hw
    · exact ⟨v, List.mem_cons_self, hc⟩
    · obtain ⟨u, hu, child⟩ := ih c (mem_children_of_named hc) hw
      exact ⟨u, List.mem_cons_of_mem v (cons_below_subset hc hu), child⟩

theorem countP_flatMap_below (q : Visit → Bool) (cs : List Visit) :
    (cs.flatMap fun c => c :: c.below).countP q =
      cs.countP q + (cs.map (·.below.countP q)).sum := by
  induction cs with
  | nil => rfl
  | cons c cs ih =>
    rw [List.flatMap_cons, List.countP_append, ih, List.countP_cons, List.countP_cons,
      List.map_cons, List.sum_cons]
    omega

/-- If of the named children of a visit one has `q` where the visit has `p`, and none otherwise, the
visits with `q` are those among the children and one for each visit with `p`. -/
theorem countP_below_eq {p q : Visit → Bool} (v : Visit)
    (h : ∀ w ∈ v.below, w.namedChildren.countP q = if p w then 1 else 0) :
    v.below.countP q = v.namedChildren.countP q + v.below.countP p := by
  induction v using recChildren with
  | step v ih =>
    have each : ∀ c ∈ v.namedChildren, c.below.countP q = (c :: c.below).countP p := by
      intro c hc
      have inside := cons_below_subset hc
      rw [ih c (mem_children_of_named hc) fun w hw => h w (inside (List.mem_cons_of_mem c hw)),
        List.countP_cons, h c (inside List.mem_cons_self), Nat.add_comm]
    rw [below_eq v, countP_flatMap_below q, List.countP_flatMap (p := p), List.map_congr_left each]
    rfl

end Visit

end PackageUsage.Syntax
