import PackageUsage.Proofs.OverlongNames
import PackageUsage.Proofs.ReturningProbes
import PackageUsage.Proofs.SortedText

namespace PackageUsage
set_option autoImplicit true

namespace Risk

/-- A package needs another one: a dependency of it is installed with a readable manifest. -/
inductive Needs (t : FileTree) (repository root : Path) (m : Manifest) (child : Path)
    (childManifest : Manifest) : Prop
  | of : name ∈ m.dependencyNames → dependencyRoot? t repository root name = .ok (some child) →
      Manifest.load t child = .ok (.ok childManifest) →
      Needs t repository root m child childManifest

/-- The packages on a way from a package through what each of them needs. -/
inductive Chain (t : FileTree) (repository : Path) : Path → Manifest → List Path → Prop
  | alone : Chain t repository root m [root]
  | next : Needs t repository root m child childManifest →
      Chain t repository child childManifest ps → Chain t repository root m (root :: ps)

/-- The number of packages on the longest chain. -/
structure Longest (t : FileTree) (repository root : Path) (m : Manifest) (n : Nat) : Prop where
  attained : ∃ ps, Chain t repository root m ps ∧ ps.length = n
  bound : ∀ ps, Chain t repository root m ps → ps.length ≤ n

/-- The dependency of a package under a name, if it is installed with a readable manifest. -/
def need? (t : FileTree) (repository root : Path) (name : String) :
    Except FileError (Option (Path × Manifest)) := do
  match ← dependencyRoot? t repository root name with
  | none => pure none
  | some child =>
    match ← Manifest.load t child with
    | .ok manifest => pure (some (child, manifest))
    | .error _ => pure none

section
variable {t : FileTree} {repository : Path}

theorem need?_eq_some_iff : need? t repository root name = .ok (some (child, childManifest)) ↔
    dependencyRoot? t repository root name = .ok (some child) ∧
      Manifest.load t child = .ok (.ok childManifest) := by
  constructor
  · intro h
    obtain ⟨place, hp, h⟩ := bind_ok h
    cases place with
    | none => cases h
    | some place =>
      obtain ⟨loaded, hl, h⟩ := bind_ok h
      cases loaded with
      | error problem => cases h
      | ok manifest =>
        cases h
        exact ⟨hp, hl⟩
  · rintro ⟨hp, hl⟩
    unfold need?
    rw [hp]
    change (Manifest.load t child >>= _) = _
    rw [hl]
    rfl

/-- The dependencies are found only after all of them were looked for. -/
theorem forall₂_of_dependencies (h : dependencies t repository root m = .ok children) :
    ∃ found, List.Forall₂ (fun name f => need? t repository root name = .ok f) m.dependencyNames
      found ∧ children = found.filterMap id := by
  change (m.dependencyNames.mapM (need? t repository root) >>= _) = _ at h
  obtain ⟨found, hf, h⟩ := bind_ok h
  cases h
  rcases mapM_cases (need? t repository root) m.dependencyNames with
    ⟨answers, he, found⟩ | ⟨e, he, _⟩
  · cases hf.symm.trans he
    exact ⟨_, found, rfl⟩
  · cases hf.symm.trans he

theorem mem_dependencies (h : dependencies t repository root m = .ok children) :
    (child, childManifest) ∈ children ↔ Needs t repository root m child childManifest := by
  obtain ⟨found, answers, rfl⟩ := forall₂_of_dependencies h
  rw [List.mem_filterMap]
  constructor
  · rintro ⟨_, hf, rfl⟩
    obtain ⟨name, hn, he⟩ := exists_left_of_forall₂ answers hf
    obtain ⟨place, loads⟩ := need?_eq_some_iff.1 he
    exact .of hn place loads
  · rintro ⟨hn, place, loads⟩
    obtain ⟨f, hf, he⟩ := exists_right_of_forall₂ answers hn
    cases (need?_eq_some_iff.2 ⟨place, loads⟩).symm.trans he
    exact ⟨_, hf, rfl⟩

theorem seen_of_installedIn? (h : Package.installedIn? t folder name = .ok found) :
    Seen t folder name := by
  intro place hp
  unfold Package.installedIn? at h
  rw [hp] at h
  obtain ⟨installed, hi, _⟩ := bind_ok h
  exact FileTree.answers_of_probe hi

theorem placed_of_dependencies (h : dependencies t repository root m = .ok children) :
    Placed t repository root m := by
  obtain ⟨found, answers, _⟩ := forall₂_of_dependencies h
  intro name hn
  obtain ⟨f, _, he⟩ := exists_right_of_forall₂ answers hn
  obtain ⟨place, hp, _⟩ := bind_ok he
  obtain ⟨inside, hi, outside⟩ := bind_ok hp
  refine ⟨seen_of_installedIn? hi, ?_⟩
  intro missing
  cases hi.symm.trans missing
  exact seen_of_installedIn? outside

/-- A depth is the right one, and every package on the way to it could be looked at. -/
structure Settled (t : FileTree) (repository root : Path) (m : Manifest) (n : Nat) : Prop where
  longest : Longest t repository root m n
  placed : ∀ other k, Linked t repository root m other k → Placed t repository other k

/-- The depths that are known are right, at whatever budget they were computed. -/
def Known (t : FileTree) (repository : Path) (known : Depths) : Prop :=
  ∀ root n, known.lookup root = some n → ∀ m, Manifest.load t root = .ok (.ok m) →
    Settled t repository root m n

/-- What the deepest of some packages is, if it is deeper than a start. -/
structure Deepest (t : FileTree) (repository : Path) (children : List (Path × Manifest))
    (start n : Nat) : Prop where
  reached : start ≤ n
  bound : ∀ c ∈ children, ∀ ps, Chain t repository c.1 c.2 ps → ps.length ≤ n
  attained : n = start ∨ ∃ c ∈ children, ∃ ps, Chain t repository c.1 c.2 ps ∧ ps.length = n
  placed : ∀ c ∈ children, ∀ other k, Linked t repository c.1 c.2 other k →
    Placed t repository other k

theorem Deepest.cons (first : Settled t repository c.1 c.2 d)
    (rest : Deepest t repository children (max start d) n) :
    Deepest t repository (c :: children) start n where
  reached := Nat.le_trans (Nat.le_max_left _ _) rest.reached
  bound := by
    apply List.forall_mem_cons.2 ⟨?_, rest.bound⟩
    intro ps hps
    have deep : d ≤ n := Nat.le_trans (Nat.le_max_right _ _) rest.reached
    exact Nat.le_trans (first.longest.bound ps hps) deep
  attained := by
    rcases rest.attained with he | ⟨c', hc, found⟩
    · rcases Nat.le_total d start with hd | hd
      · left
        rw [he, Nat.max_eq_left hd]
      · obtain ⟨ps, hps, length⟩ := first.longest.attained
        right
        refine ⟨c, List.mem_cons_self, ps, hps, ?_⟩
        rw [he, Nat.max_eq_right hd, length]
    · exact .inr ⟨c', List.mem_cons_of_mem _ hc, found⟩
  placed := List.forall_mem_cons.2 ⟨first.placed, rest.placed⟩

theorem Deepest.settled (hc : dependencies t repository root m = .ok children)
    (h : Deepest t repository children 0 n) : Settled t repository root m (1 + n) := by
  constructor
  · constructor
    · rcases h.attained with rfl | ⟨⟨child, manifest⟩, hm, ps, hps, rfl⟩
      · exact ⟨[root], .alone, rfl⟩
      · refine ⟨root :: ps, .next ((mem_dependencies hc).1 hm) hps, ?_⟩
        rw [List.length_cons, Nat.add_comm]
    · intro ps hps
      cases hps with
      | alone => exact Nat.le_add_right 1 n
      | next needs hps =>
        have rest := h.bound _ ((mem_dependencies hc).2 needs) _ hps
        rw [List.length_cons, Nat.add_comm]
        exact Nat.add_le_add_left rest 1
  · intro other k linked
    cases linked with
    | here => exact placed_of_dependencies hc
    | step hn place loads linked =>
      exact h.placed _ ((mem_dependencies hc).2 (.of hn place loads)) other k linked

theorem Known.cons (h : Known t repository known) (settled : Settled t repository root m n)
    (loads : Manifest.load t root = .ok (.ok m)) : Known t repository ((root, n) :: known) := by
  intro p d hp pm loads'
  rw [List.lookup_cons] at hp
  split at hp
  · rename_i he
    cases eq_of_beq he
    cases hp
    cases loads.symm.trans loads'
    exact settled
  · exact h p d hp pm loads'

/-- Takes the depth of a package into account. -/
def visit (t : FileTree) (repository : Path) (budget : Nat) (chain : List Path)
    (state : Nat × Depths) (c : Path × Manifest) : Except FileError (Nat × Depths) := do
  let (depth, known) ← depthFrom t repository budget state.2 chain c.1 c.2
  pure (max state.1 depth, known)

theorem visits_cons {children : List (Path × Manifest)}
    (h : (c :: children).foldlM (visit t repository budget chain) (start, known) =
      .ok (n, known')) :
    ∃ d between, depthFrom t repository budget known chain c.1 c.2 = .ok (d, between) ∧
      children.foldlM (visit t repository budget chain) (max start d, between) =
        .ok (n, known') := by
  rw [List.foldlM_cons] at h
  obtain ⟨state, hs, rest⟩ := bind_ok h
  obtain ⟨⟨d, between⟩, first, hs⟩ := bind_ok hs
  cases hs
  exact ⟨d, between, first, rest⟩

theorem deepest_of_visits {children : List (Path × Manifest)}
    (step : ∀ c ∈ children, ∀ known d known', Known t repository known →
      depthFrom t repository budget known chain c.1 c.2 = .ok (d, known') →
      Settled t repository c.1 c.2 d ∧ Known t repository known')
    (h : children.foldlM (visit t repository budget chain) (start, known) = .ok (n, known'))
    (hk : Known t repository known) :
    Deepest t repository children start n ∧ Known t repository known' := by
  induction children generalizing start known with
  | nil =>
    cases h
    exact ⟨⟨Nat.le_refl _, nofun, .inl rfl, nofun⟩, hk⟩
  | cons c children ih =>
    obtain ⟨d, between, hd, h⟩ := visits_cons h
    obtain ⟨hc, hcs⟩ := List.forall_mem_cons.1 step
    obtain ⟨first, hb⟩ := hc _ _ _ hk hd
    obtain ⟨rest, hk'⟩ := ih hcs h hb
    exact ⟨.cons first rest, hk'⟩

theorem depthFrom_succ (hk : known.lookup root = none) (new : root ∉ chain)
    (h : depthFrom t repository (budget + 1) known chain root m = .ok (n, known')) :
    ∃ children deepest between, dependencies t repository root m = .ok children ∧
      children.foldlM (visit t repository budget (root :: chain)) (0, known) =
        .ok (deepest, between) ∧ n = 1 + deepest ∧ known' = (root, 1 + deepest) :: between := by
  unfold depthFrom at h
  rw [hk] at h
  dsimp only at h
  rw [if_neg (mt List.contains_iff_mem.1 new)] at h
  obtain ⟨children, hc, h⟩ := bind_ok h
  obtain ⟨⟨deepest, between⟩, hd, h⟩ := bind_ok h
  cases h
  exact ⟨children, deepest, between, hc, hd, rfl, rfl⟩

/-- If no chain from a package is longer than the budget, returns to itself or meets the packages
before it, its depth is right. The induction is on the budget, and every depth that it leaves behind
is right as well, because a chain from a package that is needed is one package shorter. -/
theorem depthFrom_settles
    (h : depthFrom t repository budget known chain root m = .ok (n, known'))
    (hk : Known t repository known)
    (new : known.lookup root = none ∨ Manifest.load t root = .ok (.ok m))
    (short : ∀ ps, Chain t repository root m ps → ps.length ≤ budget)
    (free : ∀ ps, Chain t repository root m ps → ps.Nodup ∧ ∀ p ∈ ps, p ∉ chain) :
    Settled t repository root m n ∧
      (Manifest.load t root = .ok (.ok m) → Known t repository known') := by
  induction budget generalizing root m known chain n known' with
  | zero => exact absurd (short [root] .alone) (Nat.not_succ_le_zero 0)
  | succ budget ih =>
    cases hl : known.lookup root with
    | some d =>
      have loads := new.resolve_left (ne_of_eq_of_ne hl (Option.some_ne_none d))
      unfold depthFrom at h
      rw [hl] at h
      cases h
      exact ⟨hk root _ hl m loads, fun _ => hk⟩
    | none =>
      have apart : root ∉ chain := (free [root] .alone).2 root List.mem_cons_self
      obtain ⟨children, deepest, between, hc, hd, rfl, rfl⟩ := depthFrom_succ hl apart h
      have step : ∀ c ∈ children, ∀ known d known', Known t repository known →
          depthFrom t repository budget known (root :: chain) c.1 c.2 = .ok (d, known') →
          Settled t repository c.1 c.2 d ∧ Known t repository known' := by
        rintro ⟨child, manifest⟩ hm known d known' hk he
        have needs := (mem_dependencies hc).1 hm
        have loads : Manifest.load t child = .ok (.ok manifest) := by
          cases needs
          assumption
        have settles := ih he hk (.inr loads)
          (fun ps hps => Nat.le_of_succ_le_succ (short _ (.next needs hps))) ?_
        · exact ⟨settles.1, settles.2 loads⟩
        · intro ps hps
          obtain ⟨once, away⟩ := free _ (.next needs hps)
          obtain ⟨gone, once⟩ := List.nodup_cons.1 once
          refine ⟨once, fun p hp => ?_⟩
          rw [List.mem_cons, not_or]
          constructor
          · rintro rfl
            exact gone hp
          · exact away p (List.mem_cons_of_mem _ hp)
      obtain ⟨found, hb⟩ := deepest_of_visits step hd hk
      have settled := found.settled hc
      exact ⟨settled, hb.cons settled⟩

end

/-- The depth of a package is the number of packages on its longest chain, if no chain meets a
package twice or is longer than the limit. It is found if and only if every package on the chains
can look for its dependencies. -/
theorem depth_longest (t : FileTree) (repository root : Path) (m : Manifest)
    (acyclic : ∀ ps, Chain t repository root m ps → ps.Nodup)
    (short : ∀ ps, Chain t repository root m ps → ps.length ≤ chainLimit) :
    (∀ n, depth t repository root m = .ok n → Longest t repository root m n) ∧
      ((∃ n, depth t repository root m = .ok n) ↔
        ∀ other k, Linked t repository root m other k → Placed t repository other k) := by
  have settled (n : Nat) (h : depth t repository root m = .ok n) :
      Settled t repository root m n := by
    obtain ⟨⟨d, known⟩, hd, h⟩ := bind_ok h
    cases h
    have free (ps : List Path) (hps : Chain t repository root m ps) :
        ps.Nodup ∧ ∀ p ∈ ps, p ∉ [] := ⟨acyclic ps hps, fun _ _ => List.not_mem_nil⟩
    exact (depthFrom_settles hd nofun (.inl rfl) short free).1
  refine ⟨fun n h => (settled n h).longest, ?_, ?_⟩
  · rintro ⟨n, h⟩
    exact (settled n h).placed
  · intro placed
    obtain ⟨n, h, _⟩ := depth_returns placed
    exact ⟨n, h⟩

section
variable {t : FileTree} {repository : Path}

/-- Packages are listed so that each of them needs only packages behind it. -/
def Ordered (t : FileTree) (repository : Path) : List Path → Prop
  | [] => True
  | root :: behind =>
    (∀ m, Manifest.load t root = .ok (.ok m) → ∀ child childManifest,
      Needs t repository root m child childManifest → child ∈ behind) ∧
      Ordered t repository behind

theorem Ordered.chain_sublist (h : Ordered t repository order) (hr : root ∈ order)
    (loads : Manifest.load t root = .ok (.ok m)) (hps : Chain t repository root m ps) :
    ps.Sublist order := by
  induction order generalizing root m ps with
  | nil => cases hr
  | cons first behind ih =>
    obtain ⟨needed, rest⟩ := h
    rcases List.mem_cons.1 hr with rfl | hr
    · cases hps with
      | alone => exact List.singleton_sublist.2 List.mem_cons_self
      | next needs hps =>
        have later := needed m loads _ _ needs
        obtain ⟨_, _, loads'⟩ := needs
        exact (ih rest later loads' hps).cons_cons root
    · exact (ih rest hr loads hps).cons first

theorem Ordered.mem_of_linked (h : Ordered t repository order) (hr : root ∈ order)
    (loads : Manifest.load t root = .ok (.ok m)) (linked : Linked t repository root m other k) :
    other ∈ order ∧ Manifest.load t other = .ok (.ok k) := by
  induction order generalizing root m with
  | nil => cases hr
  | cons first behind ih =>
    obtain ⟨needed, rest⟩ := h
    rcases List.mem_cons.1 hr with rfl | hr
    · cases linked with
      | here => exact ⟨hr, loads⟩
      | step hn place loads' linked =>
        have later := needed m loads _ _ (.of hn place loads')
        obtain ⟨found, loaded⟩ := ih rest later loads' linked
        exact ⟨List.mem_cons_of_mem _ found, loaded⟩
    · obtain ⟨found, loaded⟩ := ih rest hr loads linked
      exact ⟨List.mem_cons_of_mem _ found, loaded⟩

/-- The names that the manifest of a package gives its dependencies. -/
def namesIn (t : FileTree) (root : Path) : Option (List String) :=
  ((Manifest.load t root).toOption.bind (·.toOption)).map fun m =>
    (m.dependencies ++ m.optionalDependencies).map (·.1)

theorem mem_dependencyNames (h : namesIn t root = some names)
    (loads : Manifest.load t root = .ok (.ok m)) : name ∈ m.dependencyNames ↔ name ∈ names := by
  unfold namesIn at h
  rw [loads] at h
  cases h
  exact Text.mem_sortUnique

theorem loads_of_namesIn (h : namesIn t root = some names) :
    ∃ m, Manifest.load t root = .ok (.ok m) := by
  obtain ⟨m, hm, _⟩ := Option.map_eq_some_iff.1 h
  obtain ⟨loaded, hl, hm⟩ := Option.bind_eq_some_iff.1 hm
  rw [eq_ok_of_toOption hl, eq_ok_of_toOption hm]
  exact ⟨m, rfl⟩

theorem mem_behind {later : List Path} (h : namesIn t root = some names)
    (behind : ∀ name ∈ names, ∀ child ∈ (dependencyRoot? t repository root name).toOption.join,
      child ∈ later) : ∀ m, Manifest.load t root = .ok (.ok m) → ∀ child childManifest,
      Needs t repository root m child childManifest → child ∈ later := by
  rintro m loads child _ ⟨hn, place, _⟩
  apply behind _ ((mem_dependencyNames h loads).1 hn)
  rw [place]
  rfl

theorem placed_of_names (h : namesIn t root = some names)
    (found : ∀ name ∈ names, (Package.installedIn? t root name).isOk = true ∧
      (Package.installedIn? t repository name).isOk = true)
    (loads : Manifest.load t root = .ok (.ok m)) : Placed t repository root m := by
  have seen {folder name} (hf : (Package.installedIn? t folder name).isOk = true) :
      Seen t folder name := by
    cases hi : Package.installedIn? t folder name with
    | error e =>
      rw [hi] at hf
      cases hf
    | ok place => exact seen_of_installedIn? hi
  intro name hn
  obtain ⟨inside, outside⟩ := found name ((mem_dependencyNames h loads).1 hn)
  exact ⟨seen inside, fun _ => seen outside⟩

end

/-- A package in a repository, and the packages that its manifest names. -/
def packageNeeding (name : String) (needed : List String) : String × Entry :=
  let members := needed.map fun n => "\"" ++ n ++ "\": \"1\""
  let text := "\x7b\"dependencies\": \x7b" ++ Text.join ", " members ++ "\x7d\x7d"
  (name, .folder [("package.json", .file (.ofBytes (Text.Utf8.encode text)) true)] .full)

/-- A package needs two others, one of which needs the other one. -/
def shared : FileTree :=
  ⟨.folder [("node_modules", .folder [packageNeeding "p" ["s", "q"], packageNeeding "q" ["s"],
    packageNeeding "s" []] .full)] .full, []⟩

/-- The depth of this package counts both the others, whichever is looked at first. -/
theorem depth_of_shared : ∃ m, Manifest.load shared ⟨.root, ["node_modules", "p"]⟩ = .ok (.ok m) ∧
    depth shared ⟨.root, []⟩ ⟨.root, ["node_modules", "p"]⟩ m = .ok 3 := by
  let root : Path := ⟨.root, []⟩
  let p : Path := ⟨.root, ["node_modules", "p"]⟩
  let q : Path := ⟨.root, ["node_modules", "q"]⟩
  let s : Path := ⟨.root, ["node_modules", "s"]⟩
  have hp : namesIn shared p = some ["s", "q"] := by decide +kernel
  have hq : namesIn shared q = some ["s"] := by decide +kernel
  have hs : namesIn shared s = some [] := by decide +kernel
  have ordered : Ordered shared root [p, q, s] :=
    ⟨mem_behind hp (by decide +kernel), mem_behind hq (by decide +kernel), mem_behind hs nofun,
      trivial⟩
  have placed (other : Path) (k : Manifest) (ho : other ∈ [p, q, s])
      (loads : Manifest.load shared other = .ok (.ok k)) : Placed shared root other k := by
    rcases List.mem_cons.1 ho with rfl | ho
    · exact placed_of_names hp (by decide +kernel) loads
    rcases List.mem_cons.1 ho with rfl | ho
    · exact placed_of_names hq (by decide +kernel) loads
    cases List.mem_singleton.1 ho
    exact placed_of_names hs nofun loads
  obtain ⟨m, loads⟩ := loads_of_namesIn hp
  obtain ⟨mq, loads_q⟩ := loads_of_namesIn hq
  obtain ⟨ms, loads_s⟩ := loads_of_namesIn hs
  have first : p ∈ [p, q, s] := List.mem_cons_self
  have acyclic : ∀ ps, Chain shared root p m ps → ps.Nodup := by
    intro ps hps
    exact (ordered.chain_sublist first loads hps).nodup (by decide)
  have bound : ∀ ps, Chain shared root p m ps → ps.length ≤ 3 := by
    intro ps hps
    exact (ordered.chain_sublist first loads hps).length_le
  have short : ∀ ps, Chain shared root p m ps → ps.length ≤ chainLimit := by
    intro ps hps
    exact Nat.le_trans (bound ps hps) (by decide)
  obtain ⟨longest, returns⟩ := depth_longest shared root p m acyclic short
  obtain ⟨n, hn⟩ := returns.2 fun other k linked => by
    obtain ⟨ho, loads'⟩ := ordered.mem_of_linked first loads linked
    exact placed other k ho loads'
  have through : Chain shared root p m [p, q, s] := by
    have to_q : Needs shared root p m q mq := by
      apply Needs.of ((mem_dependencyNames hp loads).2 (List.mem_cons_of_mem _ List.mem_cons_self))
      · exact eq_ok_of_toOption (by decide +kernel)
      · exact loads_q
    have to_s : Needs shared root q mq s ms := by
      apply Needs.of ((mem_dependencyNames hq loads_q).2 List.mem_cons_self)
      · exact eq_ok_of_toOption (by decide +kernel)
      · exact loads_s
    exact .next to_q (.next to_s .alone)
  obtain ⟨⟨ps, hps, length⟩, least⟩ := longest n hn
  have three : n = 3 := Nat.le_antisymm (length ▸ bound ps hps) (least _ through)
  exact ⟨m, loads, three ▸ hn⟩

/-- A package without packages of its own. -/
def lonely : FileTree :=
  ⟨.folder [("node_modules", .folder [packageNeeding "p" []] .full)] .full, []⟩

theorem follow_below_lonely (names place : List String) :
    lonely.follow ⟨.root, ["node_modules", "p", "node_modules"] ++ names⟩ ≠ .ok place := by
  unfold FileTree.follow
  dsimp only
  split
  · nofun
  split
  · nofun
  · change lonely.followNames _ [] ("node_modules" :: "p" :: "node_modules" :: names) ≠ _
    have ordinary : FileTree.Ordinary "p" := by
      unfold FileTree.Ordinary
      decide +kernel
    rw [FileTree.followNames_folder FileTree.ordinary_nodeModules rfl rfl,
      FileTree.followNames_folder ordinary rfl rfl,
      FileTree.followNames_missing FileTree.ordinary_nodeModules rfl rfl]
    nofun

theorem dependencyRoot?_of_overlong (h : Package.Overlong name) (found : Option Path) :
    dependencyRoot? lonely ⟨.root, []⟩ ⟨.root, ["node_modules", "p"]⟩ name ≠ .ok found := by
  intro hf
  obtain ⟨inside, hi, outside⟩ := bind_ok hf
  cases inside with
  | some child =>
    obtain ⟨_, hp⟩ : ∃ place, lonely.follow ⟨.root, ["node_modules", "p", "node_modules"] ++
        [name, "package.json"]⟩ = .ok place := by
      unfold Package.installedIn? at hi
      rw [h.place_eq] at hi
      obtain ⟨installed, hm, hi⟩ := bind_ok hi
      rw [Package.Overlong.manifest_eq] at hm
      cases installed with
      | false => cases hi
      | true =>
        obtain ⟨place, _, hp, _⟩ := FileTree.exists_of_probe hm
        exact ⟨place, hp⟩
    exact follow_below_lonely _ _ hp
  | none =>
    have seen := seen_of_installedIn? outside _ (h.place_eq _)
    rw [Package.Overlong.manifest_eq] at seen
    exact seen .nameTooLong (by decide) (h.follow_eq rfl rfl)

theorem depth_of_overlong_name (h : Package.Overlong name) :
    let m : Manifest := { dependencies := [(name, "1")] }
    let p : Path := ⟨.root, ["node_modules", "p"]⟩
    (∀ ps, Chain lonely ⟨.root, []⟩ p m ps → ps = [p]) ∧
      ¬ ∃ n, depth lonely ⟨.root, []⟩ p m = .ok n := by
  intro m p
  have named (other : String) : other ∈ m.dependencyNames ↔ other = name :=
    Text.mem_sortUnique.trans List.mem_singleton
  constructor
  · intro ps hps
    cases hps with
    | alone => rfl
    | next needs _ =>
      obtain ⟨hn, place, _⟩ := needs
      cases (named _).1 hn
      exact (dependencyRoot?_of_overlong h _ place).elim
  · rintro ⟨n, hd⟩
    obtain ⟨⟨d, known⟩, hd, _⟩ := bind_ok hd
    obtain ⟨children, _, _, hc, _⟩ := depthFrom_succ rfl List.not_mem_nil hd
    obtain ⟨found, answers, _⟩ := forall₂_of_dependencies hc
    obtain ⟨f, _, he⟩ := exists_right_of_forall₂ answers ((named name).2 rfl)
    obtain ⟨place, hp, _⟩ := bind_ok he
    exact dependencyRoot?_of_overlong h _ hp

/-- Nothing that this package needs is installed, but its depth is not found: the name of its
dependency is one letter too long for the file system to answer. -/
theorem depth_of_overlong :
    let m : Manifest := { dependencies := [(String.ofList (List.replicate 256 'a'), "1")] }
    let p : Path := ⟨.root, ["node_modules", "p"]⟩
    (∀ ps, Chain lonely ⟨.root, []⟩ p m ps → ps = [p]) ∧
      ¬ ∃ n, depth lonely ⟨.root, []⟩ p m = .ok n :=
  depth_of_overlong_name (.of_replicate (by decide) (by decide))

end Risk

end PackageUsage
