import PackageUsage.Proofs.FirstPath

namespace PackageUsage.Walks
set_option autoImplicit true

/-- A route takes a position at each node that it leaves. -/
inductive Route (next : α → List (Successor α β)) : α → List Nat → List α → α → Prop
  | here : Route next a [] [] a
  | step : (next a)[k]? = some (.node b) → Route next b ks nodes c →
      Route next a (k :: ks) (a :: nodes) c

/-- A simple route also stays away from some keys. -/
structure SimpleRoute (next : α → List (Successor α β)) (key : α → κ) (avoided : List κ) (a : α)
    (ks : List Nat) (nodes : List α) (c : α) : Prop where
  route : Route next a ks nodes c
  distinct : ((nodes ++ [c]).map key).Nodup
  clear : ∀ x ∈ nodes ++ [c], key x ∉ avoided

/-- No two simple routes lead to the same node. -/
def SingleRoutes (next : α → List (Successor α β)) (key : α → κ) (a : α) : Prop :=
  ∀ ks ks' nodes nodes' c, SimpleRoute next key [] a ks nodes c →
    SimpleRoute next key [] a ks' nodes' c → ks = ks'

/-- The nodes at which different simple routes end, in the order of the routes. If nothing stops the
tour, they are all the simple routes. -/
structure Tour (next : α → List (Successor α β)) (key : α → κ) (avoided : List κ) (a : α)
    (unstopped : Prop) (ends : List α) (routes : List (List Nat)) : Prop where
  each : List.Forall₂ (fun ks c => ∃ nodes, SimpleRoute next key avoided a ks nodes c) routes ends
  distinct : routes.Nodup
  complete : unstopped → ∀ {ks nodes c}, SimpleRoute next key avoided a ks nodes c → ks ∈ routes

/-- The part of a tour that takes a position before some one at its first node. -/
structure TourBefore (next : α → List (Successor α β)) (key : α → κ) (avoided : List κ) (a : α)
    (j : Nat) (unstopped : Prop) (ends : List α) (routes : List (List Nat)) : Prop where
  each : List.Forall₂ (fun ks c => ∃ nodes, SimpleRoute next key avoided a ks nodes c) routes ends
  distinct : routes.Nodup
  below : ∀ ks ∈ routes, ∃ k rest, ks = k :: rest ∧ k < j
  complete : unstopped → ∀ {k rest nodes c}, k < j →
    SimpleRoute next key avoided a (k :: rest) nodes c → k :: rest ∈ routes

section
variable {next : α → List (Successor α β)} {key : α → κ} {avoided : List κ}

theorem Route.snoc (h : Route next a ks nodes b) (hk : (next b)[k]? = some (.node c)) :
    Route next a (ks ++ [k]) (nodes ++ [b]) c := by
  induction h with
  | here => exact .step hk .here
  | step hj _ ih => exact .step hj (ih hk)

theorem Route.end_unique (h : Route next a ks nodes c) (h' : Route next a ks nodes' c') :
    c = c' := by
  induction h generalizing nodes' with
  | here =>
    cases h'
    rfl
  | step hk _ ih =>
    cases h' with
    | step hk' h' =>
      cases hk.symm.trans hk'
      exact ih h'

theorem Route.forall_mem {P : α → Prop} (h : Route next a ks nodes c)
    (keep : ∀ x y, P x → .node y ∈ next x → P y) (ha : P a) : ∀ x ∈ nodes ++ [c], P x := by
  induction h with
  | here => exact List.forall_mem_singleton.2 ha
  | step hk _ ih =>
    exact List.forall_mem_cons.2 ⟨ha, ih (keep _ _ ha (List.mem_of_getElem? hk))⟩

/-- A route does not come back if it can only go to one node, where it can only arrive. -/
theorem Route.not_mem_of_arrival (h : Route next a ks nodes c) (ha : next a = [.node b])
    (hb : next b = [.arrival e]) (hne : b ≠ a) : c ∉ nodes := by
  cases h with
  | here => exact List.not_mem_nil
  | step hk h =>
    have only := List.mem_of_getElem? hk
    rw [ha] at only
    cases List.mem_singleton.1 only
    cases h with
    | here => exact fun hc => hne (List.mem_singleton.1 hc)
    | step hk _ =>
      have only := List.mem_of_getElem? hk
      rw [hb] at only
      cases List.mem_singleton.1 only

theorem SimpleRoute.here (ha : key a ∉ avoided) : SimpleRoute next key avoided a [] [] a where
  route := .here
  distinct := List.nodup_singleton _
  clear := List.forall_mem_singleton.2 ha

theorem SimpleRoute.cons (h : SimpleRoute next key (key a :: avoided) b ks nodes c)
    (ha : key a ∉ avoided) (hk : (next a)[k]? = some (.node b)) :
    SimpleRoute next key avoided a (k :: ks) (a :: nodes) c where
  route := .step hk h.route
  distinct := by
    rw [List.cons_append, List.map_cons]
    refine h.distinct.cons fun hm => ?_
    obtain ⟨x, hx, he⟩ := List.mem_map.1 hm
    exact h.clear x hx (he ▸ List.mem_cons_self)
  clear := by
    intro x hx
    rw [List.cons_append] at hx
    rcases List.mem_cons.1 hx with rfl | hx
    · exact ha
    · exact fun hxa => h.clear x hx (List.mem_cons_of_mem _ hxa)

theorem SimpleRoute.start_clear (h : SimpleRoute next key avoided a ks nodes c) :
    key a ∉ avoided := by
  obtain ⟨_ | ⟨_, _⟩, _, hc⟩ := h
  · exact hc a List.mem_cons_self
  · exact hc a List.mem_cons_self

theorem SimpleRoute.tail (h : SimpleRoute next key avoided a (k :: ks) nodes c) :
    ∃ b nodes', (next a)[k]? = some (.node b) ∧
      SimpleRoute next key (key a :: avoided) b ks nodes' c := by
  obtain ⟨_ | ⟨hk, hr⟩, hd, hc⟩ := h
  rw [List.cons_append, List.map_cons] at hd
  obtain ⟨ha, hd⟩ := List.nodup_cons.1 hd
  refine ⟨_, _, hk, hr, hd, ?_⟩
  intro x hx hxa
  rcases List.mem_cons.1 hxa with he | hxa
  · exact ha (he ▸ List.mem_map_of_mem hx)
  · exact hc x (List.mem_cons_of_mem _ hx) hxa

theorem tour_avoided (ha : key a ∈ avoided) : Tour next key avoided a unstopped [] [] where
  each := .nil
  distinct := .nil
  complete _ _ _ _ h := (h.start_clear ha).elim

theorem Tour.mono (h : Tour next key avoided a unstopped ends routes)
    (hu : unstopped' → unstopped) : Tour next key avoided a unstopped' ends routes where
  each := h.each
  distinct := h.distinct
  complete hu' := h.complete (hu hu')

theorem tourBefore_zero : TourBefore next key avoided a 0 unstopped [] [] where
  each := .nil
  distinct := .nil
  below := nofun
  complete _ _ _ _ _ hk := absurd hk (Nat.not_lt_zero _)

theorem TourBefore.node (h : TourBefore next key avoided a j unstopped ends routes)
    (ha : key a ∉ avoided) (hb : (next a)[j]? = some (.node b))
    (tour : Tour next key (key a :: avoided) b unstopped more behind) :
    TourBefore next key avoided a (j + 1) unstopped (ends ++ more)
      (routes ++ behind.map (j :: ·)) where
  each := by
    refine List.rel_append h.each (List.forall₂_map_left_iff.2 (tour.each.imp ?_))
    rintro ks c ⟨nodes, hr⟩
    exact ⟨_, hr.cons ha hb⟩
  distinct := by
    refine h.distinct.append (tour.distinct.map fun _ _ he => (List.cons.inj he).2) ?_
    intro ks hks hks'
    obtain ⟨k, rest, rfl, hk⟩ := h.below ks hks
    obtain ⟨rest', _, he⟩ := List.mem_map.1 hks'
    exact absurd (List.cons.inj he).1.symm hk.ne
  below := by
    intro ks hks
    rcases List.mem_append.1 hks with hks | hks
    · obtain ⟨k, rest, rfl, hk⟩ := h.below ks hks
      exact ⟨k, rest, rfl, hk.trans j.lt_succ_self⟩
    · obtain ⟨rest, _, rfl⟩ := List.mem_map.1 hks
      exact ⟨j, rest, rfl, j.lt_succ_self⟩
  complete := by
    intro hu k rest nodes c hk hr
    rcases Nat.lt_succ_iff_lt_or_eq.1 hk with hk | rfl
    · exact List.mem_append_left _ (h.complete hu hk hr)
    · obtain ⟨b', _, hb', hr'⟩ := hr.tail
      cases hb.symm.trans hb'
      exact List.mem_append_right _ (List.mem_map_of_mem (tour.complete hu hr'))

theorem TourBefore.skip (h : TourBefore next key avoided a j unstopped ends routes)
    (hs : ∀ b, (next a)[j]? ≠ some (.node b)) :
    TourBefore next key avoided a (j + 1) unstopped ends routes where
  each := h.each
  distinct := h.distinct
  below := by
    intro ks hks
    obtain ⟨k, rest, rfl, hk⟩ := h.below ks hks
    exact ⟨k, rest, rfl, hk.trans j.lt_succ_self⟩
  complete := by
    intro hu k rest nodes c hk hr
    rcases Nat.lt_succ_iff_lt_or_eq.1 hk with hk | rfl
    · exact h.complete hu hk hr
    · obtain ⟨b, _, hb, _⟩ := hr.tail
      exact (hs b hb).elim

theorem tourBefore_take {ends : Successor α β → List α} (ha : key a ∉ avoided)
    (hother : ∀ s ∈ next a, (∀ b, s ≠ .node b) → ends s = [])
    (h : ∀ b, .node b ∈ next a → ∃ routes,
      Tour next key (key a :: avoided) b unstopped (ends (.node b)) routes) (j : Nat) :
    ∃ routes, TourBefore next key avoided a j unstopped (((next a).take j).flatMap ends)
      routes := by
  induction j with
  | zero => exact ⟨[], tourBefore_zero⟩
  | succ j ih =>
    obtain ⟨routes, before⟩ := ih
    rw [List.take_add_one, List.flatMap_append]
    by_cases hs : ∃ b, (next a)[j]? = some (.node b)
    · obtain ⟨b, hb⟩ := hs
      obtain ⟨behind, tour⟩ := h b (List.mem_of_getElem? hb)
      rw [hb, Option.toList_some, List.flatMap_singleton]
      exact ⟨_, before.node ha hb tour⟩
    · have none : (next a)[j]?.toList.flatMap ends = [] := by
        rw [List.flatMap_eq_nil_iff]
        intro s hj
        have hj := Option.mem_toList.1 hj
        exact hother s (List.mem_of_getElem? hj) fun b he => hs ⟨b, he ▸ hj⟩
      rw [none, List.append_nil]
      exact ⟨routes, before.skip fun b hb => hs ⟨b, hb⟩⟩

theorem tour_node {ends : Successor α β → List α} (ha : key a ∉ avoided)
    (hother : ∀ s ∈ next a, (∀ b, s ≠ .node b) → ends s = [])
    (h : ∀ b, .node b ∈ next a → ∃ routes,
      Tour next key (key a :: avoided) b unstopped (ends (.node b)) routes)
    {j : Nat} (hj : unstopped → (next a).length ≤ j) :
    ∃ routes, Tour next key avoided a unstopped (a :: ((next a).take j).flatMap ends) routes := by
  obtain ⟨routes, before⟩ := tourBefore_take ha hother h j
  refine ⟨[] :: routes, .cons ⟨[], .here ha⟩ before.each, before.distinct.cons fun hm => ?_, ?_⟩
  · obtain ⟨_, _, he, _⟩ := before.below _ hm
    cases he
  · rintro hu (_ | ⟨k, rest⟩) nodes c hr
    · exact List.mem_cons_self
    · obtain ⟨_, _, hk, _⟩ := hr.tail
      obtain ⟨hk, _⟩ := List.getElem?_eq_some_iff.1 hk
      exact List.mem_cons_of_mem _ (before.complete hu (hk.trans_le (hj hu)) hr)

theorem Tour.route_at (h : Tour next key avoided a unstopped ends routes)
    (hi : i < ends.length) (hi' : i < routes.length) :
    ∃ nodes, SimpleRoute next key avoided a routes[i] nodes ends[i] :=
  h.each.get hi' hi

theorem Tour.route_of_mem (h : Tour next key avoided a unstopped ends routes) (hc : c ∈ ends) :
    ∃ ks nodes, SimpleRoute next key avoided a ks nodes c := by
  obtain ⟨i, hi, rfl⟩ := List.getElem_of_mem hc
  exact ⟨_, h.route_at hi (h.each.length_eq ▸ hi)⟩

/-- If no two simple routes lead to the same node, no node is toured twice. -/
theorem Tour.nodup (h : Tour next key [] a unstopped ends routes)
    (hs : SingleRoutes next key a) : ends.Nodup := by
  have length := h.each.length_eq
  refine List.pairwise_iff_getElem.2 fun i j hi hj hij he => ?_
  obtain ⟨nodes, hr⟩ := h.route_at hi (length ▸ hi)
  obtain ⟨nodes', hr'⟩ := h.route_at hj (length ▸ hj)
  rw [← he] at hr'
  have same := hs _ _ _ _ _ hr hr'
  exact hij.ne ((List.Nodup.getElem_inj_iff h.distinct).1 same)

/-- A complete tour comes to a node as often as there are simple routes to it. -/
theorem Tour.singleRoutes (h : Tour next key [] a unstopped ends routes) (hu : unstopped)
    (hn : ends.Nodup) : SingleRoutes next key a := by
  intro ks ks' nodes nodes' c hr hr'
  have length := h.each.length_eq
  obtain ⟨i, hi, rfl⟩ := List.getElem_of_mem (h.complete hu hr)
  obtain ⟨j, hj, rfl⟩ := List.getElem_of_mem (h.complete hu hr')
  obtain ⟨_, there⟩ := h.route_at (length ▸ hi) hi
  obtain ⟨_, there'⟩ := h.route_at (length ▸ hj) hj
  have meet := (there.route.end_unique hr.route).trans (there'.route.end_unique hr'.route).symm
  have same : i = j := (List.Nodup.getElem_inj_iff hn).1 meet
  subst same
  rfl

end

end PackageUsage.Walks
