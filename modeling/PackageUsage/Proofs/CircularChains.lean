import Mathlib.Data.List.Perm.Subperm
import PackageUsage.Proofs.KeyedLists
import PackageUsage.Proofs.LongestChain

namespace PackageUsage
set_option autoImplicit true

theorem lookup_eq_none_of_not_mem [BEq α] [LawfulBEq α] {entries : List (α × β)}
    (h : key ∉ entries.map Prod.fst) : entries.lookup key = none := by
  rw [List.lookup_eq_none_iff]
  intro e he
  rw [bne_iff_ne]
  rintro rfl
  exact h (List.mem_map_of_mem he)

theorem lookup_append_of_not_mem [BEq α] [LawfulBEq α] {first rest : List (α × β)}
    (h : key ∉ first.map Prod.fst) : (first ++ rest).lookup key = rest.lookup key := by
  rw [List.lookup_append, lookup_eq_none_of_not_mem h, Option.none_or]

theorem le_foldl_max (xs : List Nat) (start : Nat) :
    start ≤ xs.foldl max start ∧ ∀ x ∈ xs, x ≤ xs.foldl max start := by
  induction xs generalizing start with
  | nil => exact ⟨Nat.le_refl _, nofun⟩
  | cons x xs ih =>
    obtain ⟨reached, bound⟩ := ih (max start x)
    rw [List.foldl_cons]
    refine ⟨Nat.le_trans (Nat.le_max_left _ _) reached, ?_⟩
    exact List.forall_mem_cons.2 ⟨Nat.le_trans (Nat.le_max_right _ _) reached, bound⟩

theorem foldl_max_cases (xs : List Nat) (start : Nat) :
    xs.foldl max start = start ∨ xs.foldl max start ∈ xs := by
  induction xs generalizing start with
  | nil => exact .inl rfl
  | cons x xs ih =>
    rw [List.foldl_cons]
    rcases ih (max start x) with he | hm
    · rcases Nat.le_total x start with hx | hx
      · left
        rw [he, Nat.max_eq_left hx]
      · right
        rw [he, Nat.max_eq_right hx]
        exact List.mem_cons_self
    · exact .inr (List.mem_cons_of_mem x hm)

theorem cons_sublist_of_pair {order : List α} (once : order.Nodup) (pair : [a, b].Sublist order)
    (h : (b :: bs).Sublist order) : (a :: b :: bs).Sublist order := by
  induction order with
  | nil => cases pair
  | cons x order ih =>
    obtain ⟨gone, once⟩ := List.nodup_cons.1 once
    have behind {y : α} {ys : List α} (hy : y ∈ order) (hs : (y :: ys).Sublist (x :: order)) :
        (y :: ys).Sublist order := by
      cases hs with
      | cons _ hs => exact hs
      | cons_cons => exact (gone hy).elim
    cases pair with
    | cons _ pair =>
      have hb := pair.subset (List.mem_cons_of_mem a List.mem_cons_self)
      exact (ih once pair (behind hb h)).cons _
    | cons_cons _ pair =>
      exact (behind (List.singleton_sublist.1 pair) h).cons_cons _

namespace Risk

/-- The packages on a chain, with the one at its end. -/
inductive Way (t : FileTree) (repository : Path) :
    Path → Manifest → List Path → Path → Manifest → Prop
  | here : Way t repository root m [root] root m
  | step : Needs t repository root m child childManifest →
      Way t repository child childManifest ps p k → Way t repository root m (root :: ps) p k

section
variable {t : FileTree} {repository : Path}

theorem Needs.loads (h : Needs t repository root m child childManifest) :
    Manifest.load t child = .ok (.ok childManifest) := by
  cases h
  assumption

theorem Way.snoc (h : Way t repository root m ps p k) (needs : Needs t repository p k q kq) :
    Way t repository root m (ps ++ [q]) q kq := by
  induction h with
  | here => exact .step needs .here
  | step first _ ih => exact .step first (ih needs)

theorem Way.chain (h : Way t repository root m ps p k) : Chain t repository root m ps := by
  induction h with
  | here => exact .alone
  | step needs _ ih => exact .next needs ih

theorem Way.start_mem (h : Way t repository root m ps p k) : root ∈ ps := by
  cases h <;> exact List.mem_cons_self

/-- The manifest with which a package is on a chain from a start. -/
def Held (t : FileTree) (start : Path) (m : Manifest) (p : Path) (k : Manifest) : Prop :=
  if p = start then k = m else Manifest.load t p = .ok (.ok k)

theorem Held.unique (h : Held t start m p k) (h' : Held t start m p k') : k = k' := by
  unfold Held at h h'
  split at h
  · rename_i same
    rw [if_pos same] at h'
    exact h.trans h'.symm
  · rename_i other
    rw [if_neg other] at h'
    cases h.symm.trans h'
    rfl

theorem Held.of_needs (needs : Needs t repository p k q kq) (other : q ≠ start) :
    Held t start m q kq := by
  unfold Held
  rw [if_neg other]
  exact needs.loads

theorem Way.held (h : Way t repository root k ps p kp) (held : Held t start m root k)
    (away : start ∉ ps.tail) : Held t start m p kp := by
  induction h with
  | here => exact held
  | step needs way ih =>
    have other := ne_of_mem_of_not_mem way.start_mem away
    exact ih (.of_needs needs other) fun again => away (List.mem_of_mem_tail again)

theorem Way.start_not_mem_tail (h : Way t repository start m ps p k) (once : ps.Nodup) :
    start ∉ ps.tail := by
  cases h with
  | here => exact List.not_mem_nil
  | step _ _ => exact (List.nodup_cons.1 once).1

theorem Held.here : Held t start m start m := by rw [Held, if_pos rfl]

theorem Way.held_of_nodup (h : Way t repository start m ps p k) (once : ps.Nodup) :
    Held t start m p k := h.held .here (h.start_not_mem_tail once)

end

/-- The depth that is known of a package, and one for any other. -/
def depthIn (known : Depths) (root : Path) : Nat := (known.lookup root).getD 1

def deepestIn (known : Depths) (start : Nat) (children : List (Path × Manifest)) : Nat :=
  (children.map (depthIn known ·.1)).foldl max start

def leftIn (known : Depths) : List Path := known.map Prod.fst

/-- What a search from a start has found, last package first. Whatever a package needs was left
before it, or is on the chain on which it was met. -/
inductive Measured (t : FileTree) (repository start : Path) (m : Manifest) : Depths → Prop
  | nil : Measured t repository start m []
  | cons : Measured t repository start m earlier → Way t repository start m ps root k → ps.Nodup →
      (∀ p ∈ ps, p ∉ leftIn earlier) → dependencies t repository root k = .ok children →
      (∀ c ∈ children, c.1 ∈ leftIn earlier ∨ c.1 ∈ ps) →
      Measured t repository start m ((root, 1 + deepestIn earlier 0 children) :: earlier)

section
variable {t : FileTree} {repository start : Path} {m : Manifest}

theorem Way.end_mem (h : Way t repository root m ps p k) : p ∈ ps := by
  induction h with
  | here => exact List.mem_cons_self
  | step _ _ ih => exact List.mem_cons_of_mem _ ih

theorem Measured.nodup (h : Measured t repository start m known) : (leftIn known).Nodup := by
  induction h with
  | nil => exact .nil
  | cons _ way _ apart _ _ ih => exact List.nodup_cons.2 ⟨apart _ way.end_mem, ih⟩

/-- Later finds change no depth that was taken into account. -/
theorem depthIn_of_suffix (once : (leftIn known').Nodup) (kept : known <:+ known')
    (met : p ∈ leftIn known ∨ p ∉ leftIn known') : depthIn known' p = depthIn known p := by
  obtain ⟨later, rfl⟩ := kept
  unfold depthIn
  rcases met with before | never
  · have new : p ∉ later.map Prod.fst := by
      intro again
      unfold leftIn at once
      rw [List.map_append, List.nodup_append] at once
      exact once.2.2 p again p before rfl
    rw [lookup_append_of_not_mem new]
  · have missing : p ∉ leftIn known := by
      intro before
      apply never
      unfold leftIn
      rw [List.map_append]
      exact List.mem_append_right _ before
    rw [lookup_eq_none_of_not_mem never, lookup_eq_none_of_not_mem missing]

/-- Whatever a package needs that was left was left as well, or is on the chain. -/
def Closed (t : FileTree) (repository start : Path) (m : Manifest) (known : Depths)
    (chain : List Path) : Prop :=
  ∀ p ∈ leftIn known, ∀ k, Held t start m p k → ∀ q kq, Needs t repository p k q kq →
    q ∈ leftIn known ∨ q ∈ chain

/-- A search can go on with what it has found: nothing on the chain was left. -/
structure Ready (t : FileTree) (repository start : Path) (m : Manifest) (chain : List Path)
    (known : Depths) : Prop where
  measured : Measured t repository start m known
  apart : ∀ p ∈ chain, p ∉ leftIn known
  closed : Closed t repository start m known chain

/-- What has become of some packages that were looked at with a chain before them. -/
structure Searched (t : FileTree) (repository start : Path) (m : Manifest) (chain : List Path)
    (children : List (Path × Manifest)) (known known' : Depths) : Prop where
  ready : Ready t repository start m chain known'
  kept : known <:+ known'
  met : ∀ c ∈ children, c.1 ∈ leftIn known' ∨ c.1 ∈ chain

theorem searched_visits {children : List (Path × Manifest)}
    (step : ∀ c ∈ children, ∀ known d known', Ready t repository start m chain known →
      depthFrom t repository budget known chain c.1 c.2 = .ok (d, known') →
      Searched t repository start m chain [c] known known' ∧ d = depthIn known' c.1)
    (h : children.foldlM (visit t repository budget chain) (reached, known) = .ok (n, known'))
    (hk : Ready t repository start m chain known) :
    Searched t repository start m chain children known known' ∧
      n = deepestIn known' reached children := by
  induction children generalizing reached known with
  | nil =>
    cases h
    exact ⟨⟨hk, List.suffix_refl _, nofun⟩, rfl⟩
  | cons c children ih =>
    obtain ⟨d, between, hd, h⟩ := visits_cons h
    obtain ⟨hc, hcs⟩ := List.forall_mem_cons.1 step
    obtain ⟨first, rfl⟩ := hc _ _ _ hk hd
    obtain ⟨rest, rfl⟩ := ih hcs h first.ready
    have here := first.met c (List.mem_singleton_self c)
    have met : c.1 ∈ leftIn known' ∨ c.1 ∈ chain :=
      here.imp_left ((rest.kept.map Prod.fst).subset ·)
    have stays : depthIn known' c.1 = depthIn between c.1 :=
      depthIn_of_suffix rest.ready.measured.nodup rest.kept (here.imp_right (rest.ready.apart _))
    refine ⟨⟨rest.ready, first.kept.trans rest.kept, ?_⟩, ?_⟩
    · exact List.forall_mem_cons.2 ⟨met, rest.met⟩
    · rw [deepestIn, deepestIn, List.map_cons, List.foldl_cons, stays]

theorem depthFrom_met (h : root ∈ leftIn known ∨ root ∈ chain) :
    depthFrom t repository budget known chain root k = .ok (depthIn known root, known) := by
  unfold depthFrom depthIn
  cases hl : known.lookup root with
  | some d => rfl
  | none =>
    rcases h with left | again
    · obtain ⟨⟨_, d⟩, he, rfl⟩ := List.mem_map.1 left
      have apart := List.lookup_eq_none_iff.1 hl _ he
      exact absurd rfl (bne_iff_ne.1 apart)
    · cases budget with
      | zero => rfl
      | succ budget => exact if_pos (List.contains_iff_mem.2 again)

theorem Searched.left {chain : List Path}
    (h : Searched t repository start m (root :: chain) children known between)
    (way : Way t repository start m (root :: chain).reverse root k) (once : (root :: chain).Nodup)
    (hc : dependencies t repository root k = .ok children) :
    Searched t repository start m chain [(root, k)] known
      ((root, 1 + deepestIn between 0 children) :: between) := by
  have simple : (root :: chain).reverse.Nodup := List.nodup_reverse.2 once
  have met {q : Path} {kq : Manifest} (needs : Needs t repository root k q kq) :
      q ∈ leftIn between ∨ q ∈ root :: chain := h.met _ ((mem_dependencies hc).2 needs)
  have pop {q : Path} (hq : q ∈ leftIn between ∨ q ∈ root :: chain) :
      q ∈ root :: leftIn between ∨ q ∈ chain := by
    rcases hq with left | on
    · exact .inl (List.mem_cons_of_mem root left)
    rcases List.mem_cons.1 on with rfl | on
    · exact .inl List.mem_cons_self
    · exact .inr on
  refine ⟨⟨?_, ?_, ?_⟩, h.kept.trans (List.suffix_cons _ _), ?_⟩
  · apply h.ready.measured.cons way simple ?_ hc ?_
    · intro p hp
      exact h.ready.apart p (List.mem_reverse.1 hp)
    · intro c hm
      exact (h.met c hm).imp_right List.mem_reverse.2
  · intro p hp
    obtain ⟨gone, _⟩ := List.nodup_cons.1 once
    exact List.not_mem_cons_of_ne_of_not_mem (ne_of_mem_of_not_mem hp gone)
      (h.ready.apart p (List.mem_cons_of_mem root hp))
  · intro p hp kp held q kq needs
    rcases List.mem_cons.1 hp with rfl | hp
    · cases held.unique (way.held_of_nodup simple)
      exact pop (met needs)
    · exact pop (h.ready.closed p hp kp held q kq needs)
  · exact List.forall_mem_singleton.2 (.inl List.mem_cons_self)

/-- The induction is on the budget. It is never spent, because the packages on the chain and the
next one are a chain without repetition. -/
theorem depthFrom_searched
    (short : ∀ ps p k, Way t repository start m ps p k → ps.Nodup →
      ps.length ≤ budget + chain.length)
    (hk : Ready t repository start m chain known) (once : chain.Nodup)
    (way : Way t repository start m (root :: chain).reverse root k)
    (h : depthFrom t repository budget known chain root k = .ok (n, known')) :
    Searched t repository start m chain [(root, k)] known known' ∧ n = depthIn known' root := by
  by_cases met : root ∈ leftIn known ∨ root ∈ chain
  · cases h.symm.trans (depthFrom_met met)
    exact ⟨⟨hk, List.suffix_refl _, List.forall_mem_singleton.2 met⟩, rfl⟩
  · rw [not_or] at met
    obtain ⟨unknown, new⟩ := met
    have onward : (root :: chain).Nodup := List.nodup_cons.2 ⟨new, once⟩
    cases budget with
    | zero =>
      have := short _ _ _ way (List.nodup_reverse.2 onward)
      rw [List.length_reverse, List.length_cons] at this
      omega
    | succ budget =>
      obtain ⟨children, deepest, between, hc, hd, rfl, rfl⟩ :=
        depthFrom_succ (lookup_eq_none_of_not_mem unknown) new h
      have inside : Ready t repository start m (root :: chain) known := by
        refine ⟨hk.measured, List.forall_mem_cons.2 ⟨unknown, hk.apart⟩, ?_⟩
        intro p hp kp held q kq needs
        exact (hk.closed p hp kp held q kq needs).imp_right (List.mem_cons_of_mem root)
      have step : ∀ c ∈ children, ∀ known d known',
          Ready t repository start m (root :: chain) known →
          depthFrom t repository budget known (root :: chain) c.1 c.2 = .ok (d, known') →
          Searched t repository start m (root :: chain) [c] known known' ∧
            d = depthIn known' c.1 := by
        intro c hm known d known' hk he
        have onto := way.snoc ((mem_dependencies hc).1 hm)
        rw [← List.reverse_cons] at onto
        apply depthFrom_searched ?_ hk onward onto he
        intro ps p k hp simple
        have := short ps p k hp simple
        rw [List.length_cons]
        omega
      obtain ⟨searched, rfl⟩ := searched_visits step hd inside
      refine ⟨searched.left way onward hc, ?_⟩
      rw [depthIn, List.lookup_cons_self, Option.getD_some]
termination_by budget

end

/-- The number of packages on the longest chain of which all but the last stand in an order. -/
structure LongestAlong (t : FileTree) (repository : Path) (order : List Path) (root : Path)
    (m : Manifest) (n : Nat) : Prop where
  attained : ∃ ps, Chain t repository root m ps ∧ ps.dropLast.Sublist order ∧ ps.length = n
  bound : ∀ ps, Chain t repository root m ps → ps.dropLast.Sublist order → ps.length ≤ n

/-- An order in which a search can have left the packages that it met, last package first. What a
package needs stands behind it, or in a circle on which a chain comes back from the package. -/
structure LeavingOrder (t : FileTree) (repository root : Path) (m : Manifest) (order : List Path) :
    Prop where
  starts : root ∈ order
  once : order.Nodup
  steps : ∀ p ∈ order, ∀ k, Held t root m p k → ∀ q kq, Needs t repository p k q kq →
    [p, q].Sublist order ∨ ∃ ps, Way t repository root m ps p k ∧ ps.Nodup ∧ q ∈ ps

/-- A chain can come back to a package only from where every chain has come from it. -/
def OneEntry (t : FileTree) (repository root : Path) (m : Manifest) : Prop :=
  ∀ p k ps q kq, Way t repository root m ps p k → ps.Nodup → Needs t repository p k q kq → q ∈ ps →
    ∀ ps', Way t repository root m ps' p k → ps'.Nodup → q ∈ ps'

section
variable {t : FileTree} {repository start : Path} {m : Manifest}

theorem Chain.exists_behind (h : Chain t repository root m ps) : ∃ behind, ps = root :: behind := by
  cases h with
  | alone => exact ⟨_, rfl⟩
  | next _ _ => exact ⟨_, rfl⟩

theorem dropLast_next (h : Chain t repository root m ps) (p : Path) :
    (p :: ps).dropLast = p :: ps.dropLast := by
  obtain ⟨behind, rfl⟩ := h.exists_behind
  rfl

theorem longestAlong_one (h : root ∉ order) : LongestAlong t repository order root m 1 := by
  refine ⟨⟨[root], .alone, List.nil_sublist order, rfl⟩, ?_⟩
  intro ps hps along
  cases hps with
  | alone => exact Nat.le_refl 1
  | next _ hps =>
    rw [dropLast_next hps] at along
    exact (h (along.subset List.mem_cons_self)).elim

/-- What the packages that a package needs tell of it, if it is left after them. -/
theorem LongestAlong.left {children : List (Path × Manifest)}
    (hc : dependencies t repository root m = .ok children)
    (h : ∀ c ∈ children, LongestAlong t repository order c.1 c.2 (depthIn known c.1)) :
    LongestAlong t repository (root :: order) root m (1 + deepestIn known 0 children) := by
  constructor
  · rcases foldl_max_cases (children.map (depthIn known ·.1)) 0 with none | some
    · exact ⟨[root], .alone, List.nil_sublist _, by rw [deepestIn, none, List.length_singleton]⟩
    · obtain ⟨c, hm, he⟩ := List.mem_map.1 some
      obtain ⟨ps, hps, along, length⟩ := (h c hm).attained
      refine ⟨root :: ps, .next ((mem_dependencies hc).1 hm) hps, ?_, ?_⟩
      · rw [dropLast_next hps]
        exact along.cons_cons root
      · rw [List.length_cons, length, he, Nat.add_comm, deepestIn]
  · intro ps hps along
    cases hps with
    | alone => exact Nat.le_add_right 1 _
    | @next _ _ child childManifest _ needs hps =>
      have hm := (mem_dependencies hc).2 needs
      rw [dropLast_next hps, List.cons_sublist_cons] at along
      have bound := (h _ hm).bound _ hps along
      have deep : depthIn known child ≤ deepestIn known 0 children :=
        (le_foldl_max _ 0).2 _ (List.mem_map_of_mem hm)
      rw [List.length_cons, Nat.add_comm]
      exact Nat.add_le_add_left (Nat.le_trans bound deep) 1

theorem LongestAlong.later (h : LongestAlong t repository order root k n) (other : root ≠ p) :
    LongestAlong t repository (p :: order) root k n := by
  obtain ⟨⟨ps, hps, along, length⟩, bound⟩ := h
  refine ⟨⟨ps, hps, along.cons p, length⟩, ?_⟩
  intro ps hps along
  apply bound ps hps
  cases hps with
  | alone => exact List.nil_sublist order
  | next _ hps =>
    rw [dropLast_next hps] at along ⊢
    cases along with
    | cons _ along => exact along
    | cons_cons => exact (other rfl).elim

/-- Every depth that was found is the right one along the order in which packages were left. -/
theorem Measured.longest (h : Measured t repository start m known) (left : root ∈ leftIn known)
    (held : Held t start m root k) :
    LongestAlong t repository (leftIn known) root k (depthIn known root) := by
  induction h generalizing root k with
  | nil => cases left
  | @cons earlier ps p _ children _ way once apart hc _ ih =>
    by_cases here : root = p
    · subst here
      cases held.unique (way.held_of_nodup once)
      rw [depthIn, List.lookup_cons_self, Option.getD_some]
      apply LongestAlong.left hc
      intro c hm
      by_cases before : c.1 ∈ leftIn earlier
      · apply ih before
        apply Held.of_needs ((mem_dependencies hc).1 hm)
        rintro rfl
        exact apart _ way.start_mem before
      · rw [depthIn, lookup_eq_none_of_not_mem before, Option.getD_none]
        exact longestAlong_one before
    · have before : root ∈ leftIn earlier := (List.mem_cons.1 left).resolve_left here
      rw [depthIn, List.lookup_cons, beq_false_of_ne here]
      exact (ih before held).later here

theorem Measured.leavingOrder (h : Measured t repository start m known)
    (starts : start ∈ leftIn known) : LeavingOrder t repository start m (leftIn known) := by
  refine ⟨starts, h.nodup, ?_⟩
  clear starts
  induction h with
  | nil =>
    intro p hp
    cases hp
  | cons _ way once _ hc met ih =>
    intro p hp k held q kq needs
    rcases List.mem_cons.1 hp with rfl | hp
    · cases held.unique (way.held_of_nodup once)
      rcases met _ ((mem_dependencies hc).2 needs) with before | on
      · exact .inl ((List.singleton_sublist.2 before).cons_cons p)
      · exact .inr ⟨_, way, once, on⟩
    · exact (ih p hp k held q kq needs).imp_left (·.cons _)

/-- If circles have one entry, a chain without repetition goes through packages in their order. -/
theorem LeavingOrder.sublist (h : LeavingOrder t repository start m order)
    (entry : OneEntry t repository start m) (before : List Path)
    (way : Way t repository start m (before ++ [p]) p k) (hp : p ∈ order)
    (chain : Chain t repository p k ps) (once : (before ++ ps).Nodup) : ps.Sublist order := by
  induction chain generalizing before with
  | alone => exact List.singleton_sublist.2 hp
  | @next p k q kq qs needs chain ih =>
    obtain ⟨rest, rfl⟩ := chain.exists_behind
    have simple : (before ++ [p]).Nodup := by
      apply List.Nodup.sublist ?_ once
      exact (List.Sublist.refl before).append (List.singleton_sublist.2 List.mem_cons_self)
    have onward : (before ++ [p] ++ (q :: rest)).Nodup := by
      rw [List.append_assoc]
      exact once
    have apart : q ∉ before ++ [p] := by
      intro again
      exact (List.nodup_append.1 onward).2.2 q again q List.mem_cons_self rfl
    have pair : [p, q].Sublist order := by
      apply (h.steps p hp k (way.held_of_nodup simple) q kq needs).resolve_right
      rintro ⟨ps, way', once', on⟩
      exact apart (entry p k ps q kq way' once' needs on _ way simple)
    have hq : q ∈ order := pair.subset (List.mem_cons_of_mem p List.mem_cons_self)
    exact cons_sublist_of_pair h.once pair (ih (before ++ [p]) (way.snoc needs) hq onward)

theorem Measured.placed (h : Measured t repository start m known) (left : p ∈ leftIn known)
    (held : Held t start m p k) : Placed t repository p k := by
  induction h with
  | nil => cases left
  | cons _ way once _ hc _ ih =>
    rcases List.mem_cons.1 left with rfl | left
    · cases held.unique (way.held_of_nodup once)
      exact placed_of_dependencies hc
    · exact ih left

theorem Closed.mem_left (h : Closed t repository start m known [])
    (way : Way t repository root k ps p kp) (held : Held t start m root k)
    (left : root ∈ leftIn known) (away : start ∉ ps.tail) : p ∈ leftIn known := by
  induction way with
  | here => exact left
  | step needs way ih =>
    have other := ne_of_mem_of_not_mem way.start_mem away
    have onward := (h _ left _ held _ _ needs).resolve_right List.not_mem_nil
    exact ih (.of_needs needs other) onward fun again => away (List.mem_of_mem_tail again)

/-- A search from the start finds an order, the depth along it and all packages. -/
theorem depth_searched
    (short : ∀ ps, Chain t repository start m ps → ps.Nodup → ps.length ≤ chainLimit)
    (h : depth t repository start m = .ok n) : ∃ known, Measured t repository start m known ∧
      Closed t repository start m known [] ∧ start ∈ leftIn known ∧ n = depthIn known start := by
  obtain ⟨⟨d, known⟩, hd, h⟩ := bind_ok h
  cases h
  have ready : Ready t repository start m [] [] := ⟨.nil, nofun, nofun⟩
  obtain ⟨searched, rfl⟩ := depthFrom_searched
    (fun ps p k way once => short ps way.chain once) ready .nil .here hd
  have left := (searched.met _ (List.mem_singleton_self _)).resolve_right List.not_mem_nil
  exact ⟨known, searched.ready.measured, searched.ready.closed, left, rfl⟩

theorem depthFrom_returns_around (budget : Nat) (known : Depths) (chain : List Path)
    (h : ∀ ps p kp, Way t repository root k ps p kp → ps.Nodup → (∀ q ∈ ps, q ∉ chain) →
      Placed t repository p kp) :
    Returns (depthFrom t repository budget known chain root k) fun _ => True := by
  induction budget generalizing root k known chain with
  | zero =>
    unfold depthFrom
    split
    · exact returns_ok trivial
    · exact returns_ok trivial
  | succ budget ih =>
    unfold depthFrom
    split
    · exact returns_ok trivial
    dsimp only
    split
    · exact returns_ok trivial
    rename_i new
    rw [List.contains_iff_mem] at new
    have placed := h [root] root k .here (List.nodup_singleton root)
      (List.forall_mem_singleton.2 new)
    refine (dependencies_returns placed).bind fun children hc _ => ?_
    refine (returns_foldlM (I := fun _ => True) (fun state child hm _ => ?_) trivial).bind
      fun _ _ _ => returns_pure trivial
    have needs := (mem_dependencies hc).1 hm
    refine (ih _ _ fun ps p kp way once away => ?_).bind fun _ _ _ => returns_pure trivial
    have gone : root ∉ ps := fun again => away root again List.mem_cons_self
    apply h (root :: ps) p kp (.step needs way) (List.nodup_cons.2 ⟨gone, once⟩)
    intro q hq again
    rcases List.mem_cons.1 hq with rfl | hq
    · exact new again
    · exact away q hq (List.mem_cons_of_mem root again)

end

/-- The depth of a package is that of its longest chain along the order in which the search left
what it met, if no chain without repetition is longer than the limit. No such chain is longer than
the depth if circles have one entry. The depth is found if and only if every package on such chains
can look for its dependencies. -/
theorem depth_along_order (t : FileTree) (repository root : Path) (m : Manifest)
    (short : ∀ ps, Chain t repository root m ps → ps.Nodup → ps.length ≤ chainLimit) :
    (∀ n, depth t repository root m = .ok n →
      ∃ order, LeavingOrder t repository root m order ∧ LongestAlong t repository order root m n ∧
        (OneEntry t repository root m →
          ∀ ps, Chain t repository root m ps → ps.Nodup → ps.length ≤ n)) ∧
      ((∃ n, depth t repository root m = .ok n) ↔
        ∀ ps p k, Way t repository root m ps p k → ps.Nodup → Placed t repository p k) := by
  refine ⟨?_, ?_, ?_⟩
  · intro n h
    obtain ⟨known, measured, _, left, rfl⟩ := depth_searched short h
    have ordered := measured.leavingOrder left
    have longest := measured.longest left .here
    refine ⟨leftIn known, ordered, longest, ?_⟩
    intro entry ps hps once
    have along := ordered.sublist entry [] .here left hps once
    exact longest.bound ps hps ((List.dropLast_sublist ps).trans along)
  · rintro ⟨n, h⟩ ps p k way once
    obtain ⟨known, measured, closed, left, _⟩ := depth_searched short h
    have away : root ∉ ps.tail := way.start_not_mem_tail once
    exact measured.placed (closed.mem_left way .here left away) (way.held .here away)
  · intro placed
    have returns := depthFrom_returns_around chainLimit [] []
      fun ps p k way once _ => placed ps p k way once
    obtain ⟨n, h, _⟩ := returns.bind fun found _ _ => returns_pure (P := fun _ => True) trivial
    exact ⟨n, h⟩

/-- What some packages need, which is among them again. -/
structure Tabled (t : FileTree) (repository : Path) (among : List Path)
    (needed : Path → List Path) : Prop where
  loads : ∀ p ∈ among, ∃ k, Manifest.load t p = .ok (.ok k)
  finds : ∀ p ∈ among, ∀ k, Manifest.load t p = .ok (.ok k) →
    ∃ children, dependencies t repository p k = .ok children ∧ children.map Prod.fst = needed p
  closed : ∀ p ∈ among, needed p ⊆ among

/-- The search for a depth by a table of what packages need. -/
def searchIn (needed : Path → List Path) (budget : Nat) (known : Depths) (chain : List Path)
    (root : Path) : Nat × Depths :=
  match known.lookup root with
  | some depth => (depth, known)
  | none =>
    match budget with
    | 0 => (1, known)
    | budget + 1 =>
      if chain.contains root then (1, known)
      else
        let found := (needed root).foldl (fun state child =>
          (searchIn needed budget state.2 (root :: chain) child).map (max state.1) id) (0, known)
        (1 + found.1, (root, 1 + found.1) :: found.2)

/-- Whether a package loads, names what it needs in ascending order, and finds it all there. -/
def showsNeeds (t : FileTree) (repository : Path) (among : List Path) (needed : List Path)
    (root : Path) : Bool :=
  match namesIn t root with
  | none => false
  | some names => decide (names.Pairwise fun s t => Text.lt s t) && needed.all (among.contains ·) &&
    names.map (fun name => (dependencyRoot? t repository root name).toOption) ==
      needed.map (some ∘ some)

section
variable {t : FileTree} {repository : Path}

theorem mapM_need? {names : List String} {needed : List Path}
    (h : names.map (fun name => (dependencyRoot? t repository root name).toOption) =
      needed.map (some ∘ some))
    (loads : ∀ q ∈ needed, ∃ kq, Manifest.load t q = .ok (.ok kq)) :
    ∃ children : List (Path × Manifest),
      names.mapM (need? t repository root) = .ok (children.map some) ∧
        children.map Prod.fst = needed := by
  induction names generalizing needed with
  | nil =>
    cases needed with
    | nil => exact ⟨[], rfl, rfl⟩
    | cons q needed => cases h
  | cons name names ih =>
    cases needed with
    | nil => cases h
    | cons q needed =>
      obtain ⟨place, h⟩ := List.cons.inj h
      obtain ⟨⟨kq, hq⟩, loads⟩ := List.forall_mem_cons.1 loads
      obtain ⟨children, found, rfl⟩ := ih h loads
      refine ⟨(q, kq) :: children, ?_, rfl⟩
      rw [List.mapM_cons, need?_eq_some_iff.2 ⟨eq_ok_of_toOption place, hq⟩, found]
      rfl

theorem tabled_of_showsNeeds {among : List Path} {needed : Path → List Path}
    (h : ∀ p ∈ among, showsNeeds t repository among (needed p) p = true) :
    Tabled t repository among needed := by
  have shown (p : Path) (hp : p ∈ among) : ∃ names, namesIn t p = some names ∧
      Text.Ascending names ∧ needed p ⊆ among ∧
      names.map (fun name => (dependencyRoot? t repository p name).toOption) =
        (needed p).map (some ∘ some) := by
    have := h p hp
    unfold showsNeeds at this
    split at this
    · cases this
    · rename_i names given
      simp only [Bool.and_eq_true, decide_eq_true_eq, List.all_eq_true, List.contains_iff_mem,
        beq_iff_eq] at this
      exact ⟨names, given, this.1.1, this.1.2, this.2⟩
  have loads (p : Path) (hp : p ∈ among) : ∃ k, Manifest.load t p = .ok (.ok k) := by
    obtain ⟨names, given, _⟩ := shown p hp
    exact loads_of_namesIn given
  refine ⟨loads, ?_, ?_⟩
  · intro p hp k loaded
    obtain ⟨names, given, ascending, among, places⟩ := shown p hp
    have same : k.dependencyNames = names :=
      (Text.ascending_sortUnique _).ext ascending fun _ => mem_dependencyNames given loaded
    obtain ⟨children, found, firsts⟩ := mapM_need? places fun q hq => loads q (among hq)
    refine ⟨children, ?_, firsts⟩
    change (k.dependencyNames.mapM (need? t repository p) >>= _) = _
    rw [same, found]
    change Except.ok ((children.map some).filterMap id) = _
    rw [List.filterMap_map, Function.id_comp, List.filterMap_some]
  · intro p hp
    obtain ⟨_, _, _, among, _⟩ := shown p hp
    exact among

theorem foldlM_eq_foldl {f : β → α → Except ε β} {g : β → γ → β} (key : α → γ) {as : List α}
    (h : ∀ a ∈ as, ∀ b, f b a = .ok (g b (key a))) (b : β) :
    as.foldlM f b = .ok ((as.map key).foldl g b) := by
  induction as generalizing b with
  | nil => rfl
  | cons a as ih =>
    obtain ⟨ha, has⟩ := List.forall_mem_cons.1 h
    rw [List.foldlM_cons, ha]
    exact ih has _

theorem Tabled.depthFrom_eq (h : Tabled t repository among needed) (hr : root ∈ among)
    (loads : Manifest.load t root = .ok (.ok k)) (budget : Nat) (known : Depths)
    (chain : List Path) : depthFrom t repository budget known chain root k =
      .ok (searchIn needed budget known chain root) := by
  induction budget generalizing root k known chain with
  | zero =>
    unfold depthFrom searchIn
    cases known.lookup root <;> rfl
  | succ budget ih =>
    unfold depthFrom searchIn
    cases known.lookup root with
    | some depth => rfl
    | none =>
      dsimp only
      split
      · rfl
      obtain ⟨children, hc, firsts⟩ := h.finds root hr k loads
      have step : ∀ c ∈ children, ∀ state, visit t repository budget (root :: chain) state c =
          .ok ((searchIn needed budget state.2 (root :: chain) c.1).map (max state.1) id) := by
        intro c hm state
        have among := h.closed root hr (firsts ▸ List.mem_map_of_mem hm)
        unfold visit
        rw [ih among ((mem_dependencies hc).1 hm).loads]
        rfl
      rw [hc]
      change (children.foldlM (visit t repository budget (root :: chain)) (0, known) >>= _) = _
      rw [foldlM_eq_foldl (g := fun state child => (searchIn needed budget state.2 (root :: chain)
        child).map (max state.1) id) Prod.fst step, firsts]
      rfl

theorem Tabled.needs_iff (h : Tabled t repository among needed) (hp : p ∈ among)
    (loads : Manifest.load t p = .ok (.ok k)) :
    q ∈ needed p ↔ ∃ kq, Needs t repository p k q kq := by
  obtain ⟨children, hc, firsts⟩ := h.finds p hp k loads
  rw [← firsts, List.mem_map]
  constructor
  · rintro ⟨⟨_, kq⟩, hm, rfl⟩
    exact ⟨kq, (mem_dependencies hc).1 hm⟩
  · rintro ⟨kq, needs⟩
    exact ⟨(q, kq), (mem_dependencies hc).2 needs, rfl⟩

theorem Tabled.chain (h : Tabled t repository among needed) (hp : p ∈ among)
    (loads : Manifest.load t p = .ok (.ok k)) (steps : (p :: ps).IsChain fun p q => q ∈ needed p) :
    Chain t repository p k (p :: ps) := by
  induction ps generalizing p k with
  | nil => exact .alone
  | cons q ps ih =>
    obtain ⟨here, behind⟩ := List.isChain_cons_cons.1 steps
    obtain ⟨kq, needs⟩ := (h.needs_iff hp loads).1 here
    exact .next needs (ih (h.closed p hp here) needs.loads behind)

theorem Tabled.subset (h : Tabled t repository among needed) (hp : p ∈ among)
    (loads : Manifest.load t p = .ok (.ok k)) (hps : Chain t repository p k ps) : ps ⊆ among := by
  induction hps with
  | alone => exact List.cons_subset.2 ⟨hp, List.nil_subset _⟩
  | next needs _ ih =>
    have onward := h.closed _ hp ((h.needs_iff hp loads).2 ⟨_, needs⟩)
    exact List.cons_subset.2 ⟨hp, ih onward needs.loads⟩

theorem Tabled.length_le (h : Tabled t repository among needed) (hp : p ∈ among)
    (loads : Manifest.load t p = .ok (.ok k)) (hps : Chain t repository p k ps) (once : ps.Nodup) :
    ps.length ≤ among.length :=
  (List.subperm_of_subset once (h.subset hp loads hps)).length_le

end

def installed (name : String) : Path := ⟨.root, ["node_modules", name]⟩

/-- Two packages that need each other. -/
def twoWay : FileTree :=
  ⟨.folder [("node_modules", .folder [packageNeeding "a" ["b"], packageNeeding "b" ["a"]] .full)]
    .full, []⟩

def neededBothWays (p : Path) : List Path :=
  if p = installed "a" then [installed "b"] else [installed "a"]

theorem tabled_twoWay :
    Tabled twoWay ⟨.root, []⟩ [installed "a", installed "b"] neededBothWays := by
  apply tabled_of_showsNeeds
  decide +kernel

theorem ways_twoWay (loads : Manifest.load twoWay (installed "a") = .ok (.ok m))
    (way : Way twoWay ⟨.root, []⟩ (installed "a") m ps p k) (once : ps.Nodup) :
    ps = if p = installed "a" then [p] else [installed "a", p] := by
  have first : installed "a" ∈ [installed "a", installed "b"] := List.mem_cons_self
  cases way with
  | here => rfl
  | step needs way =>
    have second := (tabled_twoWay.needs_iff first loads).2 ⟨_, needs⟩
    cases List.mem_singleton.1 second
    cases way with
    | here => rfl
    | step needs' way =>
      have back := (tabled_twoWay.needs_iff (List.mem_cons_of_mem _ List.mem_cons_self)
        needs.loads).2 ⟨_, needs'⟩
      cases List.mem_singleton.1 back
      have again := List.mem_cons_of_mem (installed "b") way.start_mem
      exact ((List.nodup_cons.1 once).1 again).elim

/-- Chains enter the circle at the first of the packages, whose depth counts this package twice. -/
theorem depth_of_two_way : ∃ m, Manifest.load twoWay (installed "a") = .ok (.ok m) ∧
    depth twoWay ⟨.root, []⟩ (installed "a") m = .ok 3 ∧
      OneEntry twoWay ⟨.root, []⟩ (installed "a") m ∧
      ∀ ps, Chain twoWay ⟨.root, []⟩ (installed "a") m ps → ps.Nodup → ps.length ≤ 3 := by
  have first : installed "a" ∈ [installed "a", installed "b"] := List.mem_cons_self
  obtain ⟨m, loads⟩ := tabled_twoWay.loads _ first
  have three : depth twoWay ⟨.root, []⟩ (installed "a") m = .ok 3 := by
    unfold depth
    rw [tabled_twoWay.depthFrom_eq first loads]
    have found : (searchIn neededBothWays chainLimit [] [] (installed "a")).1 = 3 := by
      decide +kernel
    exact congrArg Except.ok found
  have short : ∀ ps, Chain twoWay ⟨.root, []⟩ (installed "a") m ps → ps.Nodup →
      ps.length ≤ chainLimit := by
    intro ps hps once
    exact Nat.le_trans (tabled_twoWay.length_le first loads hps once) (by decide)
  have entry : OneEntry twoWay ⟨.root, []⟩ (installed "a") m := by
    intro p k ps q _ way once _ on ps' way' once'
    rw [ways_twoWay loads way' once', ← ways_twoWay loads way once]
    exact on
  obtain ⟨order, _, _, bound⟩ := (depth_along_order _ _ _ m short).1 3 three
  exact ⟨m, loads, three, entry, bound entry⟩

/-- Two packages that need each other, both of which another one needs. -/
def twoEntries : FileTree :=
  ⟨.folder [("node_modules", .folder [packageNeeding "r" ["a", "b"],
    packageNeeding "a" ["b", "c"], packageNeeding "b" ["a"], packageNeeding "c" ["d"],
    packageNeeding "d" []] .full)] .full, []⟩

def neededFromEntries (p : Path) : List Path :=
  if p = installed "r" then [installed "a", installed "b"]
  else if p = installed "a" then [installed "b", installed "c"]
  else if p = installed "b" then [installed "a"]
  else if p = installed "c" then [installed "d"]
  else []

theorem tabled_twoEntries : Tabled twoEntries ⟨.root, []⟩
    [installed "r", installed "a", installed "b", installed "c", installed "d"]
    neededFromEntries := by
  apply tabled_of_showsNeeds
  decide +kernel

/-- The circle is entered at its first package, on which the other one then ends. The chain that
enters it at the other one is longer. -/
theorem depth_of_two_entries : ∃ m, Manifest.load twoEntries (installed "r") = .ok (.ok m) ∧
    (∀ ps, Chain twoEntries ⟨.root, []⟩ (installed "r") m ps → ps.Nodup →
      ps.length ≤ chainLimit) ∧
      depth twoEntries ⟨.root, []⟩ (installed "r") m = .ok 4 ∧
      ∃ ps, Chain twoEntries ⟨.root, []⟩ (installed "r") m ps ∧ ps.Nodup ∧ ps.length = 5 := by
  have first : installed "r" ∈ [installed "r", installed "a", installed "b", installed "c",
    installed "d"] := List.mem_cons_self
  obtain ⟨m, loads⟩ := tabled_twoEntries.loads _ first
  refine ⟨m, loads, ?_, ?_, ?_⟩
  · intro ps hps once
    exact Nat.le_trans (tabled_twoEntries.length_le first loads hps once) (by decide)
  · unfold depth
    rw [tabled_twoEntries.depthFrom_eq first loads]
    have found : (searchIn neededFromEntries chainLimit [] [] (installed "r")).1 = 4 := by
      decide +kernel
    exact congrArg Except.ok found
  · let ps := [installed "r", installed "b", installed "a", installed "c", installed "d"]
    refine ⟨ps, ?_, ?_, rfl⟩
    · apply tabled_twoEntries.chain first loads
      decide +kernel
    · decide +kernel

end Risk

end PackageUsage
