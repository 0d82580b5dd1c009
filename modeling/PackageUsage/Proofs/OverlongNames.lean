import PackageUsage.Proofs.FollowedLinks
import PackageUsage.Proofs.NormalPaths
import PackageUsage.Proofs.ReturningProbes
import PackageUsage.Proofs.SpecifierNames

namespace PackageUsage
set_option autoImplicit true
namespace Text

theorem readFrom_of_unmarked (h : CodePoint.mark ∉ cs) (acc : List Nat) :
    CodePoint.readFrom false acc cs = acc.reverse ++ cs.map Char.toNat := by
  induction cs generalizing acc with
  | nil => simp [CodePoint.readFrom]
  | cons c cs ih =>
    rw [List.mem_cons, not_or] at h
    unfold CodePoint.readFrom
    simp [Ne.symm h.1, ih h.2]

theorem codePoint_nameBytes?_of_ascii {c : Char} (h : c.toNat < 128) :
    CodePoint.nameBytes? c.toNat = some 1 := by
  have small : c.val ≤ 127 := Nat.le_of_lt_succ h
  unfold CodePoint.nameBytes? CodePoint.character Char.utf8Size
  simp [CodePoint.isHalf_toNat, small]

theorem nameBytes?_of_ascii (h : ∀ c ∈ s.toList, c.toNat < 128) :
    nameBytes? s = some s.length := by
  have unmarked : CodePoint.mark ∉ s.toList := fun hm => absurd (h _ hm) (by decide)
  unfold nameBytes? codePoints
  rw [readFrom_of_unmarked unmarked, ← String.length_toList, List.reverse_nil, List.nil_append]
  generalize s.toList = cs at h
  clear unmarked
  induction cs with
  | nil => rfl
  | cons c cs ih =>
    obtain ⟨hc, hcs⟩ := List.forall_mem_cons.1 h
    obtain ⟨sizes, hs, total⟩ := Option.map_eq_some_iff.1 (ih hcs)
    rw [List.map_cons, List.mapM_cons, codePoint_nameBytes?_of_ascii hc, hs]
    change some (1 + sizes.foldr (· + ·) 0) = _
    rw [total, List.length_cons, Nat.add_comm]

end Text

namespace FileTree

theorem ordinary_nodeModules : Ordinary "node_modules" := by
  unfold Ordinary
  decide +kernel

theorem followNames_folder {t : FileTree} (ordinary : Ordinary s)
    (hp : t.top.at? place = some (.folder entries .full))
    (hs : entries.lookup s = some (.folder held access)) :
    t.followNames goOn place (s :: rest) = t.followNames goOn (place ++ [s]) rest := by
  have there := Entry.at?_concat_eq_some.2 ⟨entries, .full, hp, hs⟩
  exact followNames_of_moves (.down ⟨entries, .full, hp, rfl⟩ ordinary there rfl) rest

theorem followNames_missing {t : FileTree} (ordinary : Ordinary s)
    (hp : t.top.at? place = some (.folder entries .full)) (hs : entries.lookup s = none) :
    t.followNames goOn place (s :: rest) = .error .missing := by
  have nothing : t.top.at? (place ++ [s]) = none := by
    rw [Entry.at?_append, hp]
    exact (Option.bind_fun_some _).trans hs
  rw [followNames_ordinary ⟨entries, .full, hp, rfl⟩ ordinary, nothing]

theorem followNames_overlong {t : FileTree} (named : s ≠ "" ∧ s ≠ "." ∧ s ≠ "..")
    (hp : t.top.at? place = some (.folder entries .full))
    (long : nameLimit < (Text.nameBytes? s).getD 0) :
    t.followNames goOn place (s :: rest) = .error .nameTooLong := by
  rw [followNames, hp]
  dsimp only
  rw [if_neg named.1, if_neg (by decide), if_neg named.2.1, if_neg named.2.2, if_pos long]

end FileTree

/-- A name of so many small ASCII letters that no file can have it, but not so many that no path
can. -/
structure Package.Overlong (name : String) : Prop where
  letters : ∀ c ∈ name.toList, 97 ≤ c.toNat ∧ c.toNat ≤ 122
  long : 255 < name.length
  fits : name.length < 4000

namespace Package.Overlong

theorem of_replicate (long : 255 < n) (fits : n < 4000) :
    Overlong (String.ofList (List.replicate n 'a')) := by
  have length : (String.ofList (List.replicate n 'a')).length = n := by
    rw [← String.length_toList, String.toList_ofList, List.length_replicate]
  constructor
  · intro c hc
    rw [String.toList_ofList] at hc
    rw [(List.mem_replicate.1 hc).2]
    decide
  · rwa [length]
  · rwa [length]

theorem ne (h : Overlong name) (s : String) (short : s.length ≤ 255) : name ≠ s := by
  rintro rfl
  exact Nat.not_lt.2 short h.long

theorem not_mem {c : Char} (h : Overlong name) (hc : c.toNat < 97) : c ∉ name.toList := by
  intro hm
  exact Nat.not_lt.2 (h.letters c hm).1 hc

theorem not_blank (h : Overlong name) (hc : c ∈ name.toList) : ¬ Text.isBlank c = true := by
  obtain ⟨low, high⟩ := h.letters c hc
  simp only [Text.isBlank, Bool.or_eq_true, Bool.and_eq_true, decide_eq_true_eq, beq_iff_eq]
  omega

theorem strip_eq (h : Overlong name) : Text.strip name = name := by
  have start : name.toList.dropWhile Text.isBlank = name.toList := by
    rw [List.dropWhile_eq_self_iff]
    intro positive
    exact h.not_blank (List.getElem_mem positive)
  have finish : name.toList.reverse.dropWhile Text.isBlank = name.toList.reverse := by
    rw [List.dropWhile_eq_self_iff]
    intro positive
    exact h.not_blank (List.mem_reverse.1 (List.getElem_mem positive))
  unfold Text.strip Text.dropEnd
  rw [start, finish, List.reverse_reverse, String.ofList_toList]

theorem startsWith_eq {p : String} (h : Overlong name)
    (hp : (p.toList.any fun c => decide (c.toNat < 97)) = true) :
    Text.startsWith name p = false := by
  obtain ⟨c, hc, other⟩ := List.any_eq_true.1 hp
  unfold Text.startsWith
  rw [Bool.eq_false_iff, ne_eq, List.isPrefixOf_iff_prefix]
  intro start
  exact h.not_mem (of_decide_eq_true other) (start.subset hc)

theorem place_eq (h : Overlong name) (folder : Path) : Package.place folder name =
    .ok ⟨folder.anchor, folder.parts ++ ["node_modules", name]⟩ := by
  have inside : folder.child "node_modules" = ⟨folder.anchor, folder.parts ++ ["node_modules"]⟩ :=
    Path.child_of_name (by decide) (by decide) (by decide) folder
  have named : (folder.child "node_modules").child name =
      ⟨folder.anchor, folder.parts ++ ["node_modules", name]⟩ := by
    rw [inside, Path.child_of_name (h.not_mem (by decide)) (h.ne "" (by decide))
      (h.ne "." (by decide)), List.append_assoc]
    rfl
  unfold Package.place pathPieces
  dsimp only
  rw [h.strip_eq, if_neg (h.ne "" (by decide)), h.startsWith_eq (by decide),
    if_neg Bool.false_ne_true, ← named]
  rfl

theorem manifest_eq (folder : Path) (name : String) :
    (⟨folder.anchor, folder.parts ++ ["node_modules", name]⟩ : Path).child manifestName =
      ⟨folder.anchor, folder.parts ++ ["node_modules", name, "package.json"]⟩ := by
  unfold manifestName
  rw [Path.child_of_name (by decide) (by decide) (by decide), List.append_assoc]
  rfl

theorem nameBytes?_eq (h : Overlong name) : Text.nameBytes? name = some name.length := by
  apply Text.nameBytes?_of_ascii
  intro c hc
  exact Nat.lt_of_le_of_lt (h.letters c hc).2 (by decide)

theorem toList_manifest (name : String) :
    (Path.toString ⟨.root, ["node_modules", name, "package.json"]⟩).toList =
      "/node_modules/".toList ++ (name.toList ++ "/package.json".toList) := by
  have text : Path.toString ⟨.root, ["node_modules", name, "package.json"]⟩ =
      "/" ++ ("node_modules" ++ "/" ++ name ++ "/" ++ "package.json") := rfl
  rw [text]
  simp only [String.toList_append, List.append_assoc]
  rfl

theorem refusal?_manifest (h : Overlong name) :
    FileTree.refusal? (Path.toString ⟨.root, ["node_modules", name, "package.json"]⟩) = none ∧
      Text.nameBytes? (Path.toString ⟨.root, ["node_modules", name, "package.json"]⟩) =
        some (name.length + 27) := by
  have characters := toList_manifest name
  generalize Path.toString ⟨.root, ["node_modules", name, "package.json"]⟩ = written at characters
  let plain (c : Char) : Bool := c.toNat < 128 && c != '\x00'
  have start : "/node_modules/".toList.all plain = true := by decide
  have finish : "/package.json".toList.all plain = true := by decide
  have ascii : ∀ c ∈ written.toList, c.toNat < 128 ∧ c ≠ '\x00' := by
    have accepted {c : Char} (hc : plain c = true) : c.toNat < 128 ∧ c ≠ '\x00' := by
      simpa [plain] using hc
    intro c hc
    rw [characters, List.mem_append, List.mem_append] at hc
    rcases hc with before | hc | behind
    · exact accepted (List.all_eq_true.1 start c before)
    · obtain ⟨low, high⟩ := h.letters c hc
      refine ⟨Nat.lt_of_le_of_lt high (by decide), ?_⟩
      rintro rfl
      exact absurd low (by decide)
    · exact accepted (List.all_eq_true.1 finish c behind)
  have length : written.length = name.length + 27 := by
    have before : "/node_modules/".toList.length = 14 := rfl
    have behind : "/package.json".toList.length = 13 := rfl
    have letters : name.toList.length = name.length := String.length_toList
    rw [← String.length_toList, characters, List.length_append, List.length_append]
    omega
  have bytes := Text.nameBytes?_of_ascii fun c hc => (ascii c hc).1
  rw [length] at bytes
  have whole : Text.hasChar written '\x00' = false := by
    unfold Text.hasChar
    rw [Bool.eq_false_iff, ne_eq, List.contains_iff_mem]
    exact fun hc => (ascii _ hc).2 rfl
  unfold FileTree.refusal?
  rw [bytes, whole]
  exact ⟨rfl, rfl⟩

theorem follow_eq (h : Overlong name) {t : FileTree} (ht : t.top = .folder entries .full)
    (he : entries.lookup "node_modules" = some (.folder packages .full)) :
    t.follow ⟨.root, ["node_modules", name, "package.json"]⟩ = .error .nameTooLong := by
  obtain ⟨accepted, bytes⟩ := h.refusal?_manifest
  have fits : ¬ FileTree.pathLimit ≤ name.length + 27 := by
    have := h.fits
    unfold FileTree.pathLimit
    omega
  unfold FileTree.follow
  dsimp only
  rw [accepted, bytes]
  dsimp only [Option.getD_some]
  rw [if_neg fits]
  have top : t.top.at? [] = some (.folder entries .full) := congrArg some ht
  have inside : t.top.at? ["node_modules"] = some (.folder packages .full) := by
    rw [ht, Entry.at?, Entry.get?, he]
    rfl
  have long : FileTree.nameLimit < (Text.nameBytes? name).getD 0 := by
    rw [h.nameBytes?_eq]
    exact h.long
  have named : name ≠ "" ∧ name ≠ "." ∧ name ≠ ".." :=
    ⟨h.ne "" (by decide), h.ne "." (by decide), h.ne ".." (by decide)⟩
  change t.followNames _ [] ["node_modules", name, "package.json"] = _
  rw [FileTree.followNames_folder FileTree.ordinary_nodeModules top he]
  exact FileTree.followNames_overlong named inside long

/-- There is no answer to whether a package of so long a name is installed at the top. -/
theorem installedIn?_eq (h : Overlong name) {t : FileTree} (ht : t.top = .folder entries .full)
    (he : entries.lookup "node_modules" = some (.folder packages .full)) :
    installedIn? t ⟨.root, []⟩ name =
      .error ⟨.nameTooLong, Path.toString ⟨.root, ["node_modules", name, "package.json"]⟩⟩ := by
  have place : place ⟨.root, []⟩ name = .ok ⟨.root, ["node_modules", name]⟩ := h.place_eq _
  have manifest : (⟨.root, ["node_modules", name]⟩ : Path).child manifestName =
      ⟨.root, ["node_modules", name, "package.json"]⟩ := manifest_eq ⟨.root, []⟩ name
  unfold installedIn? FileTree.isFile
  rw [place]
  dsimp only
  rw [manifest, FileTree.probe_of_silent (h.follow_eq ht he) (by decide)]
  rfl

theorem package?_eq (h : Overlong name) : Specifier.package? name = some name := by
  have short (s : String) (hs : s ∈ Specifier.builtinModules) : s.length ≤ 255 := by
    revert s
    decide
  have external : Specifier.External name := by
    refine ⟨h.ne "" (by decide), h.startsWith_eq (by decide), ?_, h.startsWith_eq (by decide)⟩
    exact fun builtin => Nat.not_lt.2 (short name builtin) h.long
  rw [Specifier.package?_eq_some_iff, h.strip_eq, Text.split_eq_singleton (h.not_mem (by decide))]
  exact .bare external (h.startsWith_eq (by decide))

end Package.Overlong

end PackageUsage
