import PackageUsage.Proofs.ContainedEntrypoints

namespace PackageUsage
set_option autoImplicit true
open FileError (Cause)

theorem Path.join_of_isAbsolute {q : Path} (h : q.isAbsolute = true) (p : Path) : p.join q = q :=
  if_pos h

theorem Path.join_relative (p : Path) (names : List String) :
    p.join ⟨.relative, names⟩ = ⟨p.anchor, p.parts ++ names⟩ := rfl

theorem Path.nil_join (q : Path) : Path.join ⟨.relative, []⟩ q = q := by
  obtain ⟨a, names⟩ := q
  cases a with
  | relative => rfl
  | root => rfl
  | doubleRoot => rfl

namespace FileTree
variable {t : FileTree}

/-- A path as it is written from the top. -/
def inFull (t : FileTree) (p : Path) : Path :=
  if p.isAbsolute then p else ⟨.root, t.workingFolder ++ p.parts⟩

theorem isAbsolute_inFull (t : FileTree) (p : Path) : (t.inFull p).isAbsolute = true := by
  rw [inFull]
  split
  · assumption
  · rfl

theorem inFull_relative (t : FileTree) (names : List String) :
    t.inFull ⟨.relative, names⟩ = ⟨.root, t.workingFolder ++ names⟩ := rfl

theorem absoluteNames_inFull (t : FileTree) (p : Path) :
    t.absoluteNames (t.inFull p) = t.absoluteNames p := by
  rw [absoluteNames, isAbsolute_inFull, if_pos rfl, inFull, absoluteNames]
  split
  · rfl
  · rfl

theorem inFull_join (t : FileTree) (root entry : Path) :
    t.inFull (root.join entry) = (t.inFull root).join entry := by
  obtain ⟨a, names⟩ := root
  obtain ⟨b, more⟩ := entry
  cases b with
  | relative =>
    cases a with
    | relative => exact congrArg (Path.mk .root) (List.append_assoc ..).symm
    | root => rfl
    | doubleRoot => rfl
  | root => rfl
  | doubleRoot => rfl

/-- The working folder is there. -/
def Working (t : FileTree) : Prop := t.isFolder ⟨.root, t.workingFolder⟩ = .ok true

theorem Working.accepted (h : t.Working) : ∀ n ∈ t.workingFolder, refusal? n = none := by
  obtain ⟨q, hf⟩ := exists_follow_of_probe h
  exact (refusal?_toString _).1 (follow_eq_ok.1 hf).1.accepted

theorem Working.parts_inFull (h : t.Working) (p : Path) :
    (∀ n ∈ (t.inFull p).parts, refusal? n = none) ↔ ∀ n ∈ p.parts, refusal? n = none := by
  rw [inFull]
  split
  · exact Iff.rfl
  · rw [List.forall_mem_append]
    exact and_iff_right h.accepted

theorem Fits.of_inFull {p : Path} (h : Fits (t.inFull p).toString) : Fits p.toString := by
  obtain ⟨a, names⟩ := p
  cases a with
  | relative =>
    by_cases given : names = []
    · rw [given]
      exact fits_anchor .relative
    have written : ∃ before, Path.toString ⟨.root, t.workingFolder ++ names⟩ =
        before ++ "/" ++ Path.toString ⟨.relative, names⟩ := by
      have whole : Path.toString ⟨.relative, names⟩ = Text.join "/" names := by
        rw [Path.toString, if_neg fun none => given none.2]
        exact String.empty_append
      have apart : Anchor.root ≠ .relative := by decide
      rw [whole, Path.toString, if_neg fun none => apart none.1]
      by_cases top : t.workingFolder = []
      · exact ⟨"", by rw [top]; rfl⟩
      · refine ⟨"/" ++ Text.join "/" t.workingFolder, ?_⟩
        rw [Text.join_append top given]
        simp only [String.append_assoc]
        rfl
    rw [inFull_relative] at h
    obtain ⟨before, written⟩ := written
    rw [written] at h
    exact h.of_slash.2
  | root => exact h
  | doubleRoot => exact h

/-- A path leads where it leads when it is written in full, unless it is then too long. -/
theorem Working.follow_inFull (h : t.Working) (p : Path) :
    t.follow (t.inFull p) = t.follow p ∨ t.follow (t.inFull p) = .error .nameTooLong ∨
      ∃ cause cause', t.follow (t.inFull p) = .error cause ∧ t.follow p = .error cause' ∧
        cause.isRefusal = true ∧ cause'.isRefusal = true := by
  have same : refusal? (t.inFull p).toString = none ↔ refusal? p.toString = none := by
    rw [refusal?_toString, refusal?_toString, h.parts_inFull]
  have refused {s : Path} {cause : Cause} (hs : refusal? s.toString = some cause) :
      t.follow s = .error cause := by
    rw [follow, hs]
  cases hf : refusal? (t.inFull p).toString with
  | some cause =>
    cases hp : refusal? p.toString with
    | some cause' =>
      exact .inr (.inr ⟨cause, cause', refused hf, refused hp, isRefusal_of_refusal? hf,
        isRefusal_of_refusal? hp⟩)
    | none => cases hf.symm.trans (same.2 hp)
  | none =>
    by_cases short : (Text.nameBytes? (t.inFull p).toString).getD 0 < pathLimit
    · have fits : Fits (t.inFull p).toString := ⟨hf, short⟩
      left
      rw [fits.follow, fits.of_inFull.follow, absoluteNames_inFull]
    · right
      left
      rw [follow, hf]
      exact if_pos (Nat.not_lt.1 short)

theorem probe_of_isRefusal {p : Path} (h : t.follow p = .error cause)
    (refused : cause.isRefusal = true) (property : Entry → Bool) :
    t.probe p property = .ok false := by
  have failed : t.entryAt p = .error cause := by
    rw [entryAt, h]
    rfl
  rw [probe, failed]
  split
  · rename_i he
    cases he
  · rename_i he
    cases he
    cases refused
  · rename_i he
    cases he
    cases refused
  · rfl

theorem probe_congr {p p' : Path} (h : t.follow p' = t.follow p) (property : Entry → Bool) :
    (t.probe p' property).toOption = (t.probe p property).toOption := by
  have entry : t.entryAt p' = t.entryAt p := by rw [entryAt, entryAt, h]
  rw [probe, probe, entry]
  split
  · rfl
  · rfl
  · rfl
  · rfl

/-- A question is not answered because a name or a path is too long. -/
def TooLong (x : Except FileError α) : Prop := ∃ e, x = .error e ∧ e.cause = .nameTooLong

theorem Working.probe_inFull (h : t.Working) (p : Path) (property : Entry → Bool) :
    (t.probe (t.inFull p) property).toOption = (t.probe p property).toOption ∨
      TooLong (t.probe (t.inFull p) property) := by
  rcases h.follow_inFull p with same | long | ⟨cause, cause', hf, hp, refused, refused'⟩
  · exact .inl (probe_congr same property)
  · exact .inr ⟨_, probe_of_silent long (by decide) property, rfl⟩
  · left
    rw [probe_of_isRefusal hf refused, probe_of_isRefusal hp refused']

theorem Working.resolve_inFull (h : t.Working) (p : Path) :
    t.resolve (t.inFull p) = t.resolve p ∨ ∃ e e', t.resolve (t.inFull p) = .error e ∧
      t.resolve p = .error e' ∧ e.cause.isRefusal = true ∧ e'.cause.isRefusal = true := by
  have same := h.parts_inFull p
  have refused {s : Path} {cause : Cause} (hs : s.parts.findSome? refusal? = some cause) :
      t.resolve s = .error ⟨cause, s.toString⟩ ∧ cause.isRefusal = true := by
    obtain ⟨n, _, hn⟩ := List.exists_of_findSome?_eq_some hs
    refine ⟨?_, isRefusal_of_refusal? hn⟩
    rw [resolve, hs]
  cases hf : (t.inFull p).parts.findSome? refusal? with
  | some cause =>
    cases hp : p.parts.findSome? refusal? with
    | some cause' =>
      obtain ⟨failed, no⟩ := refused hf
      obtain ⟨failed', no'⟩ := refused hp
      exact .inr ⟨_, _, failed, failed', no, no'⟩
    | none =>
      rw [List.findSome?_eq_none_iff.2 (same.2 (List.findSome?_eq_none_iff.1 hp))] at hf
      cases hf
  | none =>
    have hp : p.parts.findSome? refusal? = none :=
      List.findSome?_eq_none_iff.2 (same.1 (List.findSome?_eq_none_iff.1 hf))
    left
    rw [resolve, resolve, hf, hp, absoluteNames_inFull]

end FileTree

namespace Entrypoint
open FileTree
variable {t : FileTree}

theorem isWithin_inFull (h : t.Working) (path root : Path) :
    isWithin t (t.inFull path) (t.inFull root) = isWithin t path root := by
  rcases h.resolve_inFull path with hp | ⟨e, e', hf, hp, refused, refused'⟩
  · rcases h.resolve_inFull root with hr | ⟨e, e', hf, hr, refused, refused'⟩
    · simp only [isWithin, hp, hr]
    · simp only [isWithin, hp, hf, hr, refused, refused', ↓reduceIte]
  · simp only [isWithin, hf, hp, refused, refused', ↓reduceIte]
    rfl

/-- The file that is found, if any. -/
def found (x : Except FileError (Option Path)) : Option Path := x.toOption.join

/-- What is found is the same file, written in full, unless a path in full is too long. -/
def Alike (t : FileTree) (x' x : Except FileError (Option Path)) : Prop :=
  TooLong x' ∨ found x' = (found x).map t.inFull

theorem Alike.bind {x' x : Except FileError α} {f' f : α → Except FileError (Option Path)}
    (h : x'.toOption = x.toOption ∨ TooLong x')
    (k : ∀ a, x' = .ok a → x = .ok a → Alike t (f' a) (f a)) : Alike t (x' >>= f') (x >>= f) := by
  rcases h with same | ⟨e, rfl, long⟩
  · cases x with
    | ok a =>
      obtain rfl := eq_ok_of_toOption same
      exact k a rfl rfl
    | error e =>
      cases x' with
      | ok a => cases same
      | error e' => exact .inr rfl
  · exact .inl ⟨e, rfl, long⟩

theorem name_inFull {path : Path} (given : path.parts ≠ []) : (t.inFull path).name = path.name := by
  obtain ⟨a, names⟩ := path
  rcases List.eq_nil_or_concat' names with rfl | ⟨front, n, rfl⟩
  · exact (given rfl).elim
  cases a with
  | relative =>
    rw [inFull_relative, ← List.append_assoc]
    exact List.getLastD_concat.trans List.getLastD_concat.symm
  | root => rfl
  | doubleRoot => rfl

theorem suffixed_inFull {path : Path} (given : path.parts ≠ []) (suffix : String) :
    suffixed (t.inFull path) suffix = t.inFull (suffixed path suffix) := by
  rw [suffixed, suffixed, name_inFull given]
  obtain ⟨a, names⟩ := path
  cases a with
  | relative =>
    rw [inFull_relative, inFull_relative, List.dropLast_append_of_ne_nil given, List.append_assoc]
  | root => rfl
  | doubleRoot => rfl

theorem alike_probe (h : t.Working) {path : Path} (given : path.parts ≠ [])
    (suffixes : List String) :
    Alike t (probe t (t.inFull path) suffixes) (probe t path suffixes) := by
  induction suffixes with
  | nil => exact .inr rfl
  | cons suffix rest ih =>
    have same := suffixed_inFull (t := t) given suffix
    have asked := h.probe_inFull (suffixed path suffix) (!·.isFolder)
    rw [← same] at asked
    refine Alike.bind asked fun file _ _ => ?_
    cases file with
    | true => exact .inr (congrArg some same)
    | false => exact ih

theorem child_inFull (path : Path) (name : String) :
    (t.inFull path).child name = t.inFull (path.child name) :=
  (inFull_join t path (.ofString name)).symm

/-- A folder of the package leads on to its index. -/
def LeadsOn (t : FileTree) (root path : Path) : Prop :=
  isWithin t path root = .ok true ∧ t.isFolder path = .ok true

theorem parts_ne_nil {path : Path} (h : path.name ≠ "") : path.parts ≠ [] := by
  obtain ⟨a, front, n, rfl, _⟩ := Path.exists_of_name h
  exact List.append_ne_nil_of_right_ne_nil front (List.cons_ne_nil n [])

theorem name_inFull_of_isFolder (h : t.Working) {path : Path}
    (other : t.isFolder (t.inFull path) = .ok false) : (t.inFull path).name = path.name := by
  by_cases given : path.parts = []
  · obtain ⟨a, names⟩ := path
    cases given
    cases a with
    | relative =>
      -- A path without names is the working folder, whose name in full is another one.
      rw [inFull_relative, List.append_nil] at other
      cases other.symm.trans h
    | root => rfl
    | doubleRoot => rfl
  · exact name_inFull given

theorem alike_step (h : t.Working) {root entry entry' : Path}
    (same : (t.inFull root).join entry' = t.inFull (root.join entry))
    (next : LeadsOn t root (root.join entry) →
      Alike t (resolveFrom t (t.inFull root) fuel ((t.inFull (root.join entry)).child "index"))
        (resolveFrom t root fuel ((root.join entry).child "index"))) :
    Alike t (resolveFrom t (t.inFull root) (fuel + 1) entry')
      (resolveFrom t root (fuel + 1) entry) := by
  rw [resolveFrom, resolveFrom, same, isWithin_inFull h]
  generalize root.join entry = path at next
  cases within : isWithin t path root with
  | error e => exact .inr rfl
  | ok inside =>
    cases inside with
    | false => exact .inr rfl
    | true =>
      change Alike t (t.probe (t.inFull path) (·.isFolder) >>= _) (t.probe path (·.isFolder) >>= _)
      refine Alike.bind (h.probe_inFull path (·.isFolder)) fun folder other hf => ?_
      cases folder with
      | true => exact next ⟨within, hf⟩
      | false =>
        change Alike t (t.probe (t.inFull path) (!·.isFolder) >>= _)
          (t.probe path (!·.isFolder) >>= _)
        refine Alike.bind (h.probe_inFull path (!·.isFolder)) fun file _ _ => ?_
        cases file with
        | true => exact .inr rfl
        | false =>
          rw [name_inFull_of_isFolder h other, if_neg Bool.false_ne_true, if_neg Bool.false_ne_true]
          split
          · exact .inr rfl
          · rename_i hname
            rw [Bool.or_eq_true, not_or, Bool.not_eq_true, Bool.not_eq_true] at hname
            exact alike_probe h (parts_ne_nil (of_decide_eq_false hname.1)) probeSuffixes

theorem child_index (p : Path) : p.child "index" = ⟨p.anchor, p.parts ++ ["index"]⟩ :=
  Path.child_of_name (by decide) (by decide) (by decide) p

/-- The searches are alike if what a folder leads on to is not read against the package again. -/
theorem alike_resolveFrom (h : t.Working) {root entry entry' : Path}
    (once : (root.join entry).isAbsolute = true ∨ root = ⟨.relative, []⟩)
    (same : (t.inFull root).join entry' = t.inFull (root.join entry)) (fuel : Nat) :
    Alike t (resolveFrom t (t.inFull root) fuel entry') (resolveFrom t root fuel entry) := by
  induction fuel generalizing entry entry' with
  | zero => exact .inr rfl
  | succ fuel ih =>
    refine alike_step h same fun _ => ?_
    generalize root.join entry = path at once
    -- The index is joined to the root once more, which then changes nothing.
    have index : root.join (path.child "index") = path.child "index" := by
      rcases once with absolute | rfl
      · rw [child_index]
        exact Path.join_of_isAbsolute (q := ⟨path.anchor, path.parts ++ ["index"]⟩) absolute root
      · exact Path.nil_join _
    apply ih
    · rw [index, child_index]
      exact once
    · rw [index, child_inFull]
      exact Path.join_of_isAbsolute (isAbsolute_inFull t _) _

theorem resolveFrom_of_leadsOn {root entry : Path} (h : LeadsOn t root (root.join entry))
    (fuel : Nat) : resolveFrom t root (fuel + 1) entry =
      resolveFrom t root fuel ((root.join entry).child "index") := by
  obtain ⟨within, isFolder⟩ := h
  rw [resolveFrom, within]
  change t.isFolder _ >>= _ = _
  rw [isFolder]
  rfl

/-- What is looked for once a folder has led on is read against the package again. -/
theorem again_of_tried {front names : List String} (h : Tried t ⟨.relative, front⟩ entry name)
    (he : entry = ⟨.relative, front ++ names ++ ["index"]⟩) :
    ∃ more, name = ⟨.relative, front ++ front ++ more ++ ["index"]⟩ := by
  induction h generalizing names with
  | here =>
    refine ⟨names, ?_⟩
    rw [he, Path.join_relative]
    simp only [List.append_assoc]
  | @index entry path _ _ _ ih =>
    have next : (Path.join ⟨.relative, front⟩ entry).child "index" =
        ⟨.relative, front ++ (front ++ names ++ ["index"]) ++ ["index"]⟩ := by
      rw [he, child_index, Path.join_relative]
    exact ih next

theorem again_of_resolveFrom {front names : List String}
    (h : resolveFrom t ⟨.relative, front⟩ fuel ⟨.relative, front ++ names ++ ["index"]⟩ =
      .ok (some file)) :
    ∃ more, file = ⟨.relative, front ++ front ++ more⟩ ∧ t.isFile file = .ok true := by
  obtain ⟨name, tried, outcome⟩ := resolveFrom_eq_some h
  obtain ⟨more, rfl⟩ := again_of_tried tried rfl
  rcases outcome with ⟨rfl, _, isFile⟩ | ⟨_, suffix, _, rfl, isFile⟩
  · exact ⟨more ++ ["index"], by rw [List.append_assoc], isFile⟩
  · refine ⟨more ++ ["index" ++ suffix], ?_, isFile⟩
    rw [suffixed_concat, ← List.append_assoc]

theorem again_of_found {front : List String} {entry : Path}
    (relative : (Path.join ⟨.relative, front⟩ entry).isAbsolute = false)
    (leads : LeadsOn t ⟨.relative, front⟩ (Path.join ⟨.relative, front⟩ entry))
    (h : found (resolveFrom t ⟨.relative, front⟩ fuel entry) = some file) :
    ∃ more, file = ⟨.relative, front ++ front ++ more⟩ ∧
      t.doesExist ⟨.relative, front ++ front⟩ = .ok true := by
  have index : ∃ names, (Path.join ⟨.relative, front⟩ entry).child "index" =
      ⟨.relative, front ++ names ++ ["index"]⟩ := by
    obtain ⟨a, names⟩ := entry
    cases a with
    | relative => exact ⟨names, child_index _⟩
    | root => cases relative
    | doubleRoot => cases relative
  cases fuel with
  | zero => cases h
  | succ fuel =>
    obtain ⟨names, index⟩ := index
    rw [resolveFrom_of_leadsOn leads, index] at h
    obtain ⟨more, rfl, isFile⟩ :=
      again_of_resolveFrom (eq_ok_of_toOption (Option.join_eq_some_iff.1 h))
    obtain ⟨q, hf⟩ := exists_follow_of_probe isFile
    obtain ⟨_, _, _, again, _⟩ := follow_front hf
    exact ⟨more, rfl, doesExist_of_follow again⟩

/-- An entrypoint is the same file however the folder of the package is written, if it is not that
of a folder or is written in full, or if the package is the working folder. The index of any other
folder is only found where the path of the package leads from the package itself. -/
theorem found_inFull (t : FileTree) (front : List String) (entry : String)
    (working : t.Working)
    (short : ¬ TooLong (resolve t ⟨.root, t.workingFolder ++ front⟩ entry)) :
    let root : Path := ⟨.relative, front⟩
    let path := root.join (.ofString entry)
    (path.isAbsolute = true ∨ front = [] ∨ ¬ LeadsOn t root path →
      found (resolve t ⟨.root, t.workingFolder ++ front⟩ entry) =
        (found (resolve t root entry)).map t.inFull) ∧
    (path.isAbsolute = false → LeadsOn t root path →
      ∀ file, found (resolve t root entry) = some file →
        ∃ more, file = ⟨.relative, front ++ front ++ more⟩ ∧
          t.doesExist ⟨.relative, front ++ front⟩ = .ok true) := by
  intro root path
  have same : (t.inFull root).join (.ofString entry) = t.inFull path :=
    (inFull_join t root (.ofString entry)).symm
  constructor
  · intro condition
    have alike : Alike t (resolve t (t.inFull root) entry) (resolve t root entry) := by
      rw [← or_assoc] at condition
      rcases condition with once | stays
      · refine alike_resolveFrom working (once.imp_right ?_) same _
        rintro rfl
        rfl
      · exact alike_step working same fun leads => (stays leads).elim
    exact alike.resolve_left short
  · intro relative leads file h
    exact again_of_found relative leads h

/-- A name with a suffix is found from the working folder and in full. -/
theorem found_inFull_suffix :
    let t : FileTree := ⟨.folder [("w", .folder [("p", .folder
      [("m.js", .file (.ofBytes .empty) true)] .full)] .full)] .full, ["w"]⟩
    t.Working ∧ ¬ TooLong (resolve t ⟨.root, ["w", "p"]⟩ "m") ∧
      found (resolve t ⟨.relative, ["p"]⟩ "m") = some ⟨.relative, ["p", "m.js"]⟩ ∧
      found (resolve t ⟨.root, ["w", "p"]⟩ "m") =
        (found (resolve t ⟨.relative, ["p"]⟩ "m")).map t.inFull := by
  intro t
  have folder : (t.isFolder ⟨.root, ["w"]⟩).toOption = some true := by decide +kernel
  have working : t.Working := eq_ok_of_toOption folder
  have whole : (resolve t ⟨.root, ["w", "p"]⟩ "m").toOption =
      some (some ⟨.root, ["w", "p", "m.js"]⟩) := by decide +kernel
  have short : ¬ TooLong (resolve t ⟨.root, ["w", "p"]⟩ "m") := by
    rintro ⟨e, failed, _⟩
    rw [failed] at whole
    cases whole
  have stays : ¬ LeadsOn t ⟨.relative, ["p"]⟩ (Path.join ⟨.relative, ["p"]⟩ (.ofString "m")) := by
    rintro ⟨_, isFolder⟩
    have other : (t.isFolder (Path.join ⟨.relative, ["p"]⟩ (.ofString "m"))).toOption =
        some false := by decide +kernel
    rw [isFolder] at other
    cases other
  exact ⟨working, short, by decide +kernel,
    (found_inFull t ["p"] "m" working short).1 (.inr (.inr stays))⟩

/-- The index of a folder is found in full, but not from the working folder. -/
theorem found_inFull_index :
    let t : FileTree := ⟨.folder [("w", .folder [("p", .folder [("l", .folder
      [("index.js", .file (.ofBytes .empty) true)] .full)] .full)] .full)] .full, ["w"]⟩
    t.isFolder ⟨.root, t.workingFolder⟩ = .ok true ∧
      found (resolve t ⟨.root, t.workingFolder ++ ["p"]⟩ "l") =
        some ⟨.root, ["w", "p", "l", "index.js"]⟩ ∧
      found (resolve t ⟨.relative, ["p"]⟩ "l") = none := by
  intro t
  have folder : (t.isFolder ⟨.root, ["w"]⟩).toOption = some true := by decide +kernel
  exact ⟨eq_ok_of_toOption folder, by decide +kernel, by decide +kernel⟩

end Entrypoint

end PackageUsage
