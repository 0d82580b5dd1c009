import PackageUsage.Proofs.ConservedReads

namespace PackageUsage
set_option autoImplicit true
open Syntax

namespace Facts

theorem isObject_iff {s : Source} {n : Node} (hv : v ∈ n.visits) : s.isObject v = true ↔
    ∃ w ∈ n.visits, (s.memberAt? w).isSome = true ∧ v ∈ w.children ∧
      v.isField "object" = true := by
  constructor
  · intro h
    obtain ⟨w, hw, hc⟩ := Visit.exists_parent hv
    have child := Visit.mem_children_of_named hc
    simp only [isObject_child child, Bool.and_eq_true] at h
    obtain ⟨⟨role, member⟩, inner⟩ := h
    refine ⟨w, (List.mem_cons.1 hw).resolve_left ?_, member, child, role⟩
    rintro rfl
    cases inner
  · rintro ⟨w, hw, member, child, role⟩
    rw [isObject_child child, role, member, Visit.isSome_parent? hw]
    rfl

end Facts

namespace FileFacts

/-- The direct reads of a name are those that are not the object of a member that is counted: there
are never more members than reads, and the difference is not cut off at zero. -/
theorem directReads_eq_countP {p : ParsedSource} (given : l ≠ "")
    (named : ∀ v ∈ p.root.visits, ∀ c ∈ v.node.children,
      c.field = some "object" → c.kind = "identifier" → c.named = true) :
    let s : Facts.Source := ⟨p.path, p.bytes⟩
    let f := ofParsed p
    (f.membersOf l).total ≤ f.reads.count l ∧
      f.directReads l = f.reads.count l - (f.membersOf l).total ∧
      f.directReads l =
        (p.root.visits.countP fun v => s.readAt? v == some l && !s.isObject v : Nat) ∧
      ∀ v ∈ p.root.visits, s.isObject v = true ↔
        ∃ w ∈ p.root.visits, (s.memberAt? w).isSome = true ∧ v ∈ w.children ∧
          v.isField "object" = true := by
  intro s f
  have members : (f.membersOf l).total =
      p.root.visits.countP fun v => s.readAt? v == some l && s.isObject v := by
    refine total_membersOf_eq_countP given fun v hv _ object ho => ?_
    have role : (object.field == some "object") = true :=
      List.find?_some (p := fun c : Node => c.field == some "object") ho
    exact named v hv object (List.mem_of_find?_eq_some ho) (beq_iff_eq.1 role)
  have reads : f.reads.count l = p.root.visits.countP fun v => s.readAt? v == some l := by
    rw [count_reads_ofParsed, ParsedSource.readNames, List.count, List.countP_filterMap]
    refine congrArg Int.ofNat (List.countP_congr fun v _ => ?_)
    change ((s.readAt? v).map _).getD false = true ↔ _
    cases s.readAt? v with
    | none => exact iff_of_false Bool.false_ne_true Bool.false_ne_true
    | some name => simp
  have parts : (p.root.visits.countP fun v => s.readAt? v == some l) =
      (p.root.visits.countP fun v => s.readAt? v == some l && s.isObject v) +
        p.root.visits.countP fun v => s.readAt? v == some l && !s.isObject v := by
    rw [List.countP_eq_countP_filter_add _ _ s.isObject, List.countP_filter, List.countP_filter]
  have direct : f.directReads l = max 0 (f.reads.count l - (f.membersOf l).total) := rfl
  rw [members, reads] at direct ⊢
  rw [direct, parts]
  refine ⟨by omega, by omega, by omega, fun v hv => Facts.isObject_iff hv⟩

/-- One read of a module reaches for a member, and one passes the module on. -/
theorem directReads_of_member_and_whole :
    (∀ v ∈ Usage.wholeReader.root.visits, ∀ c ∈ v.node.children,
      c.field = some "object" → c.kind = "identifier" → c.named = true) ∧
    (ofParsed Usage.wholeReader).reads.count "n" = 2 ∧
    (ofParsed Usage.wholeReader).directReads "n" = 1 := by
  have named : ∀ v ∈ Usage.wholeReader.root.visits, ∀ c ∈ v.node.children,
      c.field = some "object" → c.kind = "identifier" → c.named = true := by decide +kernel
  have direct := (directReads_eq_countP (l := "n") (by decide) named).2.1
  have reads : (ofParsed Usage.wholeReader).reads.count "n" = 2 := by decide +kernel
  have members : ((ofParsed Usage.wholeReader).membersOf "n").total = 1 := by decide +kernel
  rw [reads, members] at direct
  exact ⟨named, reads, direct⟩

end FileFacts

end PackageUsage
