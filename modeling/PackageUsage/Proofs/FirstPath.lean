import Mathlib.Data.List.Nodup
import Mathlib.Data.List.Infix

namespace PackageUsage.Walks
set_option autoImplicit true

inductive Successor (α β : Type) where
  | arrival (b : β)
  | node (a : α)
  | nothing

/-- A walk from a successor to an arrival takes a position at each node that it passes. -/
inductive Walk (next : α → List (Successor α β)) :
    Successor α β → List Nat → List α → β → Prop
  | arrive : Walk next (.arrival b) [] [] b
  | step : (next a)[k]? = some s → Walk next s ks nodes b →
      Walk next (.node a) (k :: ks) (a :: nodes) b

section
variable {next : α → List (Successor α β)}

theorem Walk.from_passed (h : Walk next s ks nodes b) (ha : a ∈ nodes) :
    ∃ ks' nodes', Walk next (.node a) ks' nodes' b ∧ nodes' <:+ nodes := by
  induction h with
  | arrive => cases ha
  | step hk hw ih =>
    rcases List.mem_cons.1 ha with rfl | ha
    · exact ⟨_, _, .step hk hw, List.suffix_refl _⟩
    · obtain ⟨ks', nodes', hw', hs⟩ := ih ha
      exact ⟨ks', nodes', hw', hs.trans (List.suffix_cons _ _)⟩

theorem Walk.loop_free (h : Walk next s ks nodes b) :
    ∃ ks' nodes', Walk next s ks' nodes' b ∧ nodes'.Nodup := by
  induction h with
  | arrive => exact ⟨_, _, .arrive, .nil⟩
  | @step a k s _ _ b hk _ ih =>
    obtain ⟨ks', nodes', hw, hn⟩ := ih
    by_cases ha : a ∈ nodes'
    · obtain ⟨ks'', nodes'', hw', hs⟩ := hw.from_passed ha
      exact ⟨ks'', nodes'', hw', hn.sublist hs.sublist⟩
    · exact ⟨_, _, .step hk hw, hn.cons ha⟩

/-- A path is a walk without a repetition. This one also stays away from some nodes. -/
structure Path (next : α → List (Successor α β)) (avoided : List α) (s : Successor α β)
    (ks : List Nat) (nodes : List α) (b : β) : Prop where
  walk : Walk next s ks nodes b
  simple : nodes.Nodup
  clear : ∀ a ∈ nodes, a ∉ avoided

theorem Path.not_avoided (h : Path next avoided (.node a) ks nodes b) : a ∉ avoided := by
  obtain ⟨_ | ⟨_, _⟩, _, hc⟩ := h
  exact hc a List.mem_cons_self

theorem Path.tail (h : Path next avoided (.node a) ks nodes b) :
    ∃ k s ks' nodes', ks = k :: ks' ∧ nodes = a :: nodes' ∧ (next a)[k]? = some s ∧
      Path next (a :: avoided) s ks' nodes' b := by
  obtain ⟨_ | ⟨hk, hw⟩, hn, hc⟩ := h
  obtain ⟨ha, hn⟩ := List.nodup_cons.1 hn
  refine ⟨_, _, _, _, rfl, rfl, hk, hw, hn, ?_⟩
  intro x hx hxa
  rcases List.mem_cons.1 hxa with rfl | hxa
  · exact ha hx
  · exact hc x (List.mem_cons_of_mem _ hx) hxa

theorem Path.cons (h : Path next (a :: avoided) s ks nodes b) (ha : a ∉ avoided)
    (hk : (next a)[k]? = some s) : Path next avoided (.node a) (k :: ks) (a :: nodes) b where
  walk := .step hk h.walk
  simple := h.simple.cons fun hm => h.clear a hm List.mem_cons_self
  clear := by
    intro x hx
    rcases List.mem_cons.1 hx with rfl | hx
    · exact ha
    · exact fun hxa => h.clear x hx (List.mem_cons_of_mem _ hxa)

/-- The first of all paths, comparing the positions taken one after the other. -/
structure First (next : α → List (Successor α β)) (avoided : List α) (s : Successor α β)
    (ks : List Nat) (nodes : List α) (b : β) : Prop
    extends Path next avoided s ks nodes b where
  least : ∀ {ks' nodes' b'}, Path next avoided s ks' nodes' b' →
    ks = ks' ∨ ks.Lex (· < ·) ks'

/-- A result that tells the first path, or that there is none. -/
def Finds (next : α → List (Successor α β)) (avoided : List α) (s : Successor α β)
    (tell : List α → β → γ) : Option γ → Prop
  | some c => ∃ ks nodes b, First next avoided s ks nodes b ∧ c = tell nodes b
  | none => ∀ ks nodes b, ¬ Path next avoided s ks nodes b

variable {tell : List α → β → γ}

theorem finds_arrival (avoided : List α) (b : β) :
    Finds next avoided (.arrival b) tell (some (tell [] b)) := by
  refine ⟨[], [], b, ⟨⟨.arrive, .nil, ?_⟩, ?_⟩, rfl⟩
  · exact fun _ ha => (List.not_mem_nil ha).elim
  · rintro ks' nodes' b' ⟨⟨⟩, _, _⟩
    exact .inl rfl

theorem finds_nothing (avoided : List α) : Finds next avoided .nothing tell none := by
  rintro ks nodes b ⟨⟨⟩, _, _⟩

theorem finds_avoided (ha : a ∈ avoided) : Finds next avoided (.node a) tell none :=
  fun _ _ _ h => h.not_avoided ha

/-- To try the successors of a node in order finds the first path from it. -/
theorem finds_node {find : Successor α β → Option γ} (ha : a ∉ avoided)
    (h : ∀ s ∈ next a, Finds next (a :: avoided) s (fun nodes => tell (a :: nodes)) (find s)) :
    Finds next avoided (.node a) tell ((next a).findSome? find) := by
  cases hf : (next a).findSome? find with
  | none =>
    intro ks nodes b hp
    obtain ⟨k, s, ks', nodes', rfl, rfl, hk, hrest⟩ := hp.tail
    have hs := List.mem_of_getElem? hk
    have hnone := h s hs
    rw [List.findSome?_eq_none_iff.1 hf s hs] at hnone
    exact hnone ks' nodes' b hrest
  | some c =>
    obtain ⟨before, s, behind, hnext, hc, hbefore⟩ := List.findSome?_eq_some_iff.1 hf
    have hs := h s (hnext ▸ List.mem_append_right _ List.mem_cons_self)
    rw [hc] at hs
    obtain ⟨ks, nodes, b, hfirst, rfl⟩ := hs
    have hk : (next a)[before.length]? = some s := by
      rw [hnext, List.getElem?_append_right (Nat.le_refl _), Nat.sub_self,
        List.getElem?_cons_zero]
    refine ⟨before.length :: ks, a :: nodes, b, ⟨hfirst.toPath.cons ha hk, ?_⟩, rfl⟩
    intro ks' nodes' b' hp
    obtain ⟨k, s', ks', nodes', rfl, rfl, hk', hrest⟩ := hp.tail
    rcases Nat.lt_trichotomy before.length k with hlt | rfl | hgt
    · exact .inr (.rel hlt)
    · rw [hk, Option.some.injEq] at hk'
      exact (hfirst.least (hk' ▸ hrest)).imp (congrArg _) .cons
    · rw [hnext, List.getElem?_append_left hgt] at hk'
      have hmem := List.mem_of_getElem? hk'
      have hnone := h s' (hnext ▸ List.mem_append_left _ hmem)
      rw [hbefore s' hmem] at hnone
      exact (hnone _ _ _ hrest).elim

/-- There is a result if and only if there is a walk. -/
theorem Finds.isSome_iff (h : Finds next [] s tell o) :
    o.isSome ↔ ∃ ks nodes b, Walk next s ks nodes b := by
  cases o with
  | some c =>
    obtain ⟨ks, nodes, b, hf, _⟩ := h
    exact ⟨fun _ => ⟨ks, nodes, b, hf.walk⟩, fun _ => rfl⟩
  | none =>
    refine ⟨nofun, ?_⟩
    rintro ⟨ks, nodes, b, hw⟩
    obtain ⟨ks', nodes', hw', hn⟩ := hw.loop_free
    exact (h ks' nodes' b ⟨hw', hn, fun _ _ => List.not_mem_nil⟩).elim

end

end PackageUsage.Walks
