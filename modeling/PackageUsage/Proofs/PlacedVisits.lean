import PackageUsage.Proofs.TreeWalk

namespace PackageUsage.Syntax.Visit
set_option autoImplicit true
variable {v c w : Visit}

/-- The positions of the children on the way to a visit, outermost first. -/
def place (v : Visit) : List Nat := (v.around.map (·.2)).reverse

theorem place_child (v : Visit) (i : Nat) (n : Node) : (v.child i n).place = v.place ++ [i] := by
  rw [place, child, List.map_cons, List.reverse_cons]
  rfl

theorem exists_place_of_mem_children (hc : c ∈ v.children) : ∃ i, c.place = v.place ++ [i] := by
  obtain ⟨i, _, rfl⟩ := List.mem_mapIdx.1 hc
  exact ⟨i, place_child v i _⟩

theorem exists_place_of_mem_below (hw : w ∈ v.below) :
    ∃ i way, w.place = v.place ++ i :: way := by
  induction v using recChildren with
  | step v ih =>
    rw [below_eq] at hw
    obtain ⟨c, hc, hw⟩ := List.mem_flatMap.1 hw
    have child := mem_children_of_named hc
    obtain ⟨i, hi⟩ := exists_place_of_mem_children child
    rcases List.mem_cons.1 hw with rfl | hw
    · exact ⟨i, [], hi⟩
    · obtain ⟨j, way, hj⟩ := ih c child hw
      refine ⟨i, j :: way, ?_⟩
      rw [hj, hi, List.append_assoc]
      rfl

theorem place_lt_of_mem_below (hw : w ∈ v.below) : v.place < w.place := by
  obtain ⟨i, way, hi⟩ := exists_place_of_mem_below hw
  have longer : v.place ++ [] < v.place ++ i :: way := List.append_left_lt (List.nil_lt_cons i way)
  rwa [List.append_nil, ← hi] at longer

/-- The children of a visit come one after the other, each before what is below the next. -/
theorem pairwise_children (v : Visit) : v.children.Pairwise fun c d =>
    ∀ w ∈ c :: c.below, ∀ u ∈ d :: d.below, w.place < u.place := by
  have way {w : Visit} {i : Nat} {n : Node} (hw : w ∈ v.child i n :: (v.child i n).below) :
      ∃ way, w.place = v.place ++ i :: way := by
    rcases List.mem_cons.1 hw with rfl | hw
    · exact ⟨[], place_child v i n⟩
    · obtain ⟨j, way, hj⟩ := exists_place_of_mem_below hw
      refine ⟨j :: way, ?_⟩
      rw [hj, place_child, List.append_assoc]
      rfl
  rw [List.pairwise_iff_getElem]
  intro i j hi hj hlt w hw u hu
  simp only [children, List.getElem_mapIdx] at hw hu
  obtain ⟨toW, hw⟩ := way hw
  obtain ⟨toU, hu⟩ := way hu
  rw [hw, hu]
  exact List.append_left_lt (List.cons_lt_cons_iff.2 (.inl hlt))

theorem pairwise_below (v : Visit) : v.below.Pairwise fun w u => w.place < u.place := by
  induction v using recChildren with
  | step v ih =>
    rw [below_eq, List.pairwise_flatMap]
    refine ⟨fun c hc => ?_, (pairwise_children v).filter _⟩
    exact List.pairwise_cons.2
      ⟨fun w hw => place_lt_of_mem_below hw, ih c (mem_children_of_named hc)⟩

end PackageUsage.Syntax.Visit
