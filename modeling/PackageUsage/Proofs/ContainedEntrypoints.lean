import PackageUsage.Proofs.NormalPaths
import PackageUsage.Proofs.RealPlaces
import PackageUsage.Proofs.ReturningProbes

namespace PackageUsage
set_option autoImplicit true

theorem Path.below?_isSome {p q : Path} :
    (p.below? q).isSome = true ↔ p.anchor = q.anchor ∧ q.parts <+: p.parts := by
  rw [below?, ← List.isPrefixOf_iff_prefix]
  split
  · rename_i h
    exact iff_of_true rfl h
  · rename_i h
    exact iff_of_false nofun h

theorem Path.exists_of_name {p : Path} (h : p.name ≠ "") :
    ∃ a front n, p = ⟨a, front ++ [n]⟩ ∧ p.name = n := by
  obtain ⟨a, names⟩ := p
  rcases List.eq_nil_or_concat' names with rfl | ⟨front, n, rfl⟩
  · exact (h rfl).elim
  · exact ⟨a, front, n, rfl, List.getLastD_concat⟩

namespace FileTree

/-- The last name of a path is that of a link. -/
def IsLink (t : FileTree) (p : Path) : Prop :=
  ∃ folder target, t.follow p.parent = .ok folder ∧
    t.top.at? (folder ++ [p.name]) = some (.link target)

variable {t : FileTree}

theorem exists_follow_of_probe {property : Entry → Bool} (h : t.probe p property = .ok true) :
    ∃ q, t.follow p = .ok q := by
  obtain ⟨q, _, hf, _⟩ := exists_of_probe h
  exact ⟨q, hf⟩

theorem doesExist_of_follow (h : t.follow p = .ok q) : t.doesExist p = .ok true := by
  obtain ⟨_, followed⟩ := follow_eq_ok.1 h
  obtain ⟨_, _, leads⟩ := followFrom_eq_ok.1 followed
  obtain ⟨e, there⟩ := (leads.solid .top).exists_entry
  have entry : t.entryAt p = .ok e := by
    rw [entryAt, h]
    simp only [bind, Except.bind, there]
  rw [doesExist, probe, entry]

/-- If nothing is at a path that has a real form, the names of the path lead nowhere. -/
theorem not_leads_of_doesExist (h : t.doesExist p = .ok false) (hr : t.resolve p = .ok r)
    (few : k ≤ linkLimit) : ¬ Leads t [] (t.absoluteNames p) k q := by
  intro leads
  have followed : t.followFrom linkLimit [] (t.absoluteNames p) = .ok q :=
    followFrom_eq_ok.2 ⟨k, few, leads⟩
  have accepted := (refusal?_toString p).2 (resolve_eq_ok hr).1
  by_cases short : (Text.nameBytes? p.toString).getD 0 < pathLimit
  · have there := doesExist_of_follow (follow_eq_ok.2 ⟨⟨accepted, short⟩, followed⟩)
    cases h.symm.trans there
  · have long : t.follow p = .error .nameTooLong := by
      rw [follow, accepted]
      exact if_pos (Nat.not_lt.1 short)
    cases h.symm.trans (probe_of_silent long (by decide) fun _ => true)

theorem not_link (h : ¬ t.IsLink ⟨a, front ++ [n]⟩) (hf : t.follow ⟨a, front⟩ = .ok folder)
    (target : String) : t.top.at? (folder ++ [n]) ≠ some (.link target) := by
  intro there
  have parent : Path.parent ⟨a, front ++ [n]⟩ = ⟨a, front⟩ :=
    congrArg (Path.mk a) List.dropLast_concat
  have last : Path.name ⟨a, front ++ [n]⟩ = n := List.getLastD_concat
  exact h ⟨folder, target, parent ▸ hf, last.symm ▸ there⟩

theorem Leads.eq_concat (h : Leads t folder [n] k q) (plain : Path.Plain n)
    (direct : ∀ target, t.top.at? (folder ++ [n]) ≠ some (.link target)) :
    t.Searches folder ∧ q = folder ++ [n] := by
  obtain ⟨i, next, target, j, move, more, _⟩ := h.first
  refine ⟨move.searches plain.given, ?_⟩
  cases move with
  | stay _ hn _ => exact (hn.elim plain.given plain.dot).elim
  | up _ => exact (plain.parent rfl).elim
  | down _ _ _ _ =>
    cases more
    rfl
  | link _ _ there => exact (direct _ there).elim

theorem Searches.isFolder (h : t.Searches place) : t.IsFolder place := by
  obtain ⟨entries, access, there, _⟩ := h
  exact ⟨entries, access, there⟩

theorem Solid.last (h : Solid t (folder ++ [n])) : Leads t folder [n] 0 (folder ++ [n]) := by
  generalize he : folder ++ [n] = place at h
  cases h with
  | top => cases List.append_ne_nil_of_right_ne_nil folder (List.cons_ne_nil n []) he
  | inside _ searched ordinary there plain =>
    obtain ⟨rfl, same⟩ := List.append_inj' he rfl
    cases same
    exact Moves.leads (.down searched ordinary there plain) .here

end FileTree

namespace Entrypoint
open FileTree
variable {t : FileTree} {root : Path}

/-- A path leads to a place inside a folder, all links on the way followed. -/
def Inside (t : FileTree) (root path : Path) : Prop :=
  ∃ place folder, t.follow path = .ok place ∧ t.resolve root = .ok folder ∧
    ((placePath place).below? folder).isSome = true

theorem isWithin_eq_true (h : isWithin t path root = .ok true) :
    ∃ p r, t.resolve path = .ok p ∧ t.resolve root = .ok r ∧ (p.below? r).isSome = true := by
  cases hp : t.resolve path with
  | error e =>
    simp only [isWithin, hp] at h
    split at h
    · cases h
    · cases h
  | ok p =>
    cases hr : t.resolve root with
    | error e =>
      simp only [isWithin, hp, hr] at h
      split at h
      · cases h
      · cases h
    | ok r =>
      simp only [isWithin, hp, hr] at h
      exact ⟨p, r, rfl, rfl, Except.ok.inj h⟩

theorem probe_eq_some (h : probe t name suffixes = .ok (some path)) :
    ∃ suffix ∈ suffixes, path = suffixed name suffix ∧ t.isFile path = .ok true := by
  induction suffixes with
  | nil => cases h
  | cons suffix rest ih =>
    obtain ⟨found, hf, h⟩ := bind_ok h
    cases found with
    | true =>
      cases h
      exact ⟨suffix, List.mem_cons_self, rfl, hf⟩
    | false =>
      obtain ⟨other, hm, same, there⟩ := ih h
      exact ⟨other, List.mem_cons_of_mem _ hm, same, there⟩

theorem suffixed_concat (a : Anchor) (front : List String) (n suffix : String) :
    suffixed ⟨a, front ++ [n]⟩ suffix = ⟨a, front ++ [n ++ suffix]⟩ := by
  have last : Path.name ⟨a, front ++ [n]⟩ = n := List.getLastD_concat
  rw [suffixed, last, List.dropLast_concat]

/-- A name that a file is found under with a suffix: it is checked, and nothing has it. -/
structure Extended (t : FileTree) (root name : Path) : Prop where
  within : isWithin t name root = .ok true
  nothing : t.doesExist name = .ok false
  named : name.name ≠ ""

theorem resolveFrom_eq_some (h : resolveFrom t root fuel entry = .ok (some path)) :
    ∃ name, Tried t root entry name ∧ (path = name ∧ isWithin t name root = .ok true ∧
        t.isFile name = .ok true ∨
      Extended t root name ∧ ∃ suffix ∈ probeSuffixes, path = suffixed name suffix ∧
        t.isFile path = .ok true) := by
  induction fuel generalizing entry with
  | zero => cases h
  | succ fuel ih =>
    obtain ⟨within, hwithin, h⟩ := bind_ok h
    cases within with
    | false => cases h
    | true =>
      obtain ⟨folder, hfolder, h⟩ := bind_ok h
      cases folder with
      | true =>
        obtain ⟨name, tried, found⟩ := ih h
        exact ⟨name, .index hwithin hfolder tried, found⟩
      | false =>
        refine ⟨root.join entry, .here, ?_⟩
        obtain ⟨file, hfile, h⟩ := bind_ok h
        cases file with
        | true =>
          cases h
          exact .inl ⟨rfl, hwithin, hfile⟩
        | false =>
          rw [if_neg Bool.false_ne_true] at h
          split at h
          · cases h
          · rename_i hname
            rw [Bool.or_eq_true, not_or, Bool.not_eq_true, Bool.not_eq_true] at hname
            have named : (root.join entry).name ≠ "" := of_decide_eq_false hname.1
            have nothing := doesExist_of_neither hfolder hfile
            exact .inr ⟨⟨hwithin, nothing, named⟩, probe_eq_some h⟩

theorem inside_of_isWithin (h : isWithin t path root = .ok true) (hf : t.follow path = .ok place) :
    Inside t root path := by
  obtain ⟨p, r, hp, hr, below⟩ := isWithin_eq_true h
  cases hp.symm.trans (resolve_of_follow hf)
  exact ⟨place, r, hf, hr, below⟩

theorem plain_suffixed (hs : suffix ∈ probeSuffixes) (n : String) : Path.Plain (n ++ suffix) := by
  have letter : ∀ suffix ∈ probeSuffixes, 's' ∈ suffix.toList := by decide
  refine Path.plain_of_mem (c := 's') ?_ (by decide)
  rw [String.toList_append]
  exact List.mem_append_right _ (letter suffix hs)

/-- A name with a suffix is where the name alone would be, if neither is that of a link. Unless the
package itself would be there, the place is inside it. -/
theorem inside_suffixed (h : Extended t root name) (hs : suffix ∈ probeSuffixes)
    (found : t.isFile (suffixed name suffix) = .ok true)
    (direct : ¬ t.IsLink (suffixed name suffix)) (plain : ¬ t.IsLink name)
    (there : t.doesExist root = .ok true) : Inside t root (suffixed name suffix) := by
  obtain ⟨within, nothing, named⟩ := h
  obtain ⟨p, r, hp, hr, below⟩ := isWithin_eq_true within
  obtain ⟨a, front, n, rfl, last⟩ := Path.exists_of_name named
  rw [suffixed_concat] at found direct ⊢
  rw [last] at named
  obtain ⟨q, hq⟩ := exists_follow_of_probe found
  obtain ⟨folder, i, j, hf, before, behind, few⟩ := follow_front hq
  obtain ⟨searched, rfl⟩ := behind.eq_concat (plain_suffixed hs n) (not_link direct hf)
  -- The folder is reached, so that what has the name without a suffix would be found in it.
  have nowhere {q : List String} : ¬ Leads t folder [n] 0 q := by
    intro leads
    have whole := before.append leads
    rw [← absoluteNames_append] at whole
    exact not_leads_of_doesExist nothing hp (Nat.le_trans (Nat.le_add_right i j) few) whole
  have given : ¬ (n = "" ∨ n = ".") := by
    rintro (empty | dot)
    · exact named empty
    · have stays := Moves.stay searched.isFolder (.inr dot) fun _ => searched
      exact nowhere (stays.leads .here)
  have parent : n ≠ ".." := by
    rintro rfl
    exact nowhere (Moves.leads (.up searched) .here)
  obtain rfl := resolve_concat before given parent (not_link plain hf) hp
  obtain ⟨anchor, begins⟩ := Path.below?_isSome.1 below
  refine ⟨folder ++ [n ++ suffix], r, hq, hr, Path.below?_isSome.2 ⟨anchor, ?_⟩⟩
  rcases List.prefix_concat_iff.1 begins with same | inside
  -- The name itself would be that of the package, which exists. Nothing has the name, though.
  · obtain ⟨top, hroot⟩ := exists_follow_of_probe there
    cases hr.symm.trans (resolve_of_follow hroot)
    obtain ⟨_, followed⟩ := follow_eq_ok.1 hroot
    obtain ⟨_, _, leads⟩ := followFrom_eq_ok.1 followed
    have solid := leads.solid .top
    change top = folder ++ [n] at same
    rw [same] at solid
    exact (nowhere solid.last).elim
  · exact inside.trans (List.prefix_append folder [n ++ suffix])

/-- The file of an entrypoint is inside the package, unless it is found under a name that adds a
suffix and a link has that name or the one without the suffix, or nothing is where the package is
to be. -/
theorem resolve_inside (t : FileTree) (root : Path) (entry : String)
    (h : resolve t root entry = .ok (some path)) :
    t.isFile path = .ok true ∧ (Inside t root path ∨
      ∃ name suffix, Tried t root (.ofString entry) name ∧ Extended t root name ∧
        suffix ∈ probeSuffixes ∧ path = suffixed name suffix ∧
        (t.IsLink path ∨ t.IsLink name ∨ t.doesExist root ≠ .ok true)) := by
  obtain ⟨name, tried, ⟨rfl, within, file⟩ | ⟨extended, suffix, hs, rfl, file⟩⟩ :=
    resolveFrom_eq_some h
  · obtain ⟨place, hf⟩ := exists_follow_of_probe file
    exact ⟨file, .inl (inside_of_isWithin within hf)⟩
  · refine ⟨file, ?_⟩
    by_cases direct : t.IsLink (suffixed name suffix)
    · exact .inr ⟨name, suffix, tried, extended, hs, rfl, .inl direct⟩
    by_cases plain : t.IsLink name
    · exact .inr ⟨name, suffix, tried, extended, hs, rfl, .inr (.inl plain)⟩
    by_cases there : t.doesExist root = .ok true
    · exact .inl (inside_suffixed extended hs file direct plain there)
    · exact .inr ⟨name, suffix, tried, extended, hs, rfl, .inr (.inr there)⟩

/-- A link in the package that leads to another file in it. -/
theorem resolve_link_inside :
    let file : Entry := .file (.ofBytes .empty) true
    let t : FileTree :=
      ⟨.folder [("pkg", .folder [("m.js", .link "../pkg/n.js"), ("n.js", file)] .full)] .full, []⟩
    let path : Path := ⟨.root, ["pkg", "m.js"]⟩
    resolve t ⟨.root, ["pkg"]⟩ "m.js" = .ok (some path) ∧ Inside t ⟨.root, ["pkg"]⟩ path := by
  intro file t path
  have found : (resolve t ⟨.root, ["pkg"]⟩ "m.js").toOption = some (some path) := by
    decide +kernel
  have resolved := eq_ok_of_toOption found
  refine ⟨resolved, ?_⟩
  obtain ⟨_, inside | ⟨name, suffix, tried, _, hs, same, _⟩⟩ := resolve_inside t _ "m.js" resolved
  · exact inside
  have looked : name = path := by
    have folder : (t.isFolder path).toOption = some false := by decide +kernel
    cases tried with
    | here => decide +kernel
    | index _ isFolder _ =>
      have joined : Path.join ⟨.root, ["pkg"]⟩ (.ofString "m.js") = path := by decide +kernel
      rw [joined] at isFolder
      rw [isFolder] at folder
      cases folder
  subst looked
  have differs : ∀ suffix ∈ probeSuffixes, path ≠ suffixed path suffix := by decide +kernel
  exact (differs suffix hs same).elim

/-- A link whose name adds a suffix leads out of the package, though under its own name it is not
taken. -/
theorem resolve_link_outside :
    let file : Entry := .file (.ofBytes .empty) true
    let t : FileTree :=
      ⟨.folder [("o.js", file), ("pkg", .folder [("m.js", .link "../o.js")] .full)] .full, []⟩
    let path : Path := ⟨.root, ["pkg", "m.js"]⟩
    resolve t ⟨.root, ["pkg"]⟩ "m" = .ok (some path) ∧ t.follow path = .ok ["o.js"] ∧
      t.resolve ⟨.root, ["pkg"]⟩ = .ok ⟨.root, ["pkg"]⟩ ∧ ¬ Inside t ⟨.root, ["pkg"]⟩ path ∧
      resolve t ⟨.root, ["pkg"]⟩ "m.js" = .ok none := by
  intro file t path
  have found : (resolve t ⟨.root, ["pkg"]⟩ "m").toOption = some (some path) := by decide +kernel
  have refused : (resolve t ⟨.root, ["pkg"]⟩ "m.js").toOption = some none := by decide +kernel
  have outside : (t.follow path).toOption = some ["o.js"] := by decide +kernel
  have package : (t.resolve ⟨.root, ["pkg"]⟩).toOption = some ⟨.root, ["pkg"]⟩ := by
    decide +kernel
  have leads := eq_ok_of_toOption outside
  have real := eq_ok_of_toOption package
  refine ⟨eq_ok_of_toOption found, leads, real, ?_, eq_ok_of_toOption refused⟩
  rintro ⟨place, folder, hp, hr, below⟩
  cases leads.symm.trans hp
  cases real.symm.trans hr
  exact absurd below (by decide)

end Entrypoint

end PackageUsage
