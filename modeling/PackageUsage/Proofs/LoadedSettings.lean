import PackageUsage.Proofs.SoundSettings

namespace PackageUsage
set_option autoImplicit true

namespace Settings

/-- The paths at which files with settings are looked for. -/
def asked (t : FileTree) (s : Sources) : List Path :=
  [s.home.child userFileName, Path.child ⟨.root, t.workingFolder⟩ folderFileName] ++
    s.file.toList.map Path.ofString

/-- The values that are of a kind. A truth value is a whole number as well. -/
inductive HasForm : Setting.Form → Value → Prop
  | text : HasForm .text (.text s)
  | flag : HasForm .whole (.flag b)
  | whole : HasForm .whole (.whole n)
  | real : HasForm .real (.real x)

/-- All that a table gives for settings is of their kinds. -/
def Typed (t : Table) : Prop := ∀ s v, (Setting.key s, v) ∈ t → HasForm s.form v

/-- The files, and what is given directly, give settings values of their kinds. -/
structure TypedSources (t : FileTree) (s : Sources) : Prop where
  files : ∀ path ∈ asked t s, ∀ label table, ofFile t s.refusal path label = .ok table → Typed table
  overrides : ∀ x v, (Setting.key x, v) ∈ s.overrides → v = .nothing ∨ HasForm x.form v

theorem key_injective (h : Setting.key s = Setting.key s') : s = s' := by
  have listed (s : Setting) : s ∈ Setting.all := by cases s <;> decide
  have distinct : ∀ s ∈ Setting.all, ∀ s' ∈ Setting.all, s.key = s'.key → s = s' := by
    decide +kernel
  exact distinct s (listed s) s' (listed s') h

theorem mem_set {p : String × Value} (h : p ∈ Table.set k v t) : p = (k, v) ∨ p ∈ t := by
  induction t with
  | nil => exact .inl (List.mem_singleton.1 h)
  | cons q rest ih =>
    unfold Table.set at h
    split at h
    · rename_i same
      rcases List.mem_cons.1 h with rfl | h
      · exact .inl (by rw [same])
      · exact .inr (List.mem_cons_of_mem _ h)
    · rcases List.mem_cons.1 h with rfl | h
      · exact .inr List.mem_cons_self
      · exact (ih h).imp_right (List.mem_cons_of_mem _)

theorem mem_update {p : String × Value} (h : p ∈ Table.update t others) : p ∈ t ∨ p ∈ others := by
  unfold Table.update at h
  induction others generalizing t with
  | nil => exact .inl h
  | cons q others ih =>
    rcases ih h with here | there
    · rcases mem_set here with rfl | here
      · exact .inr List.mem_cons_self
      · exact .inl here
    · exact .inr (List.mem_cons_of_mem _ there)

theorem Typed.update (h : Typed t) (h' : Typed others) : Typed (Table.update t others) :=
  fun s v hm => (mem_update hm).elim (h s v) (h' s v)

theorem Typed.set (h : Typed t) (hv : ∀ s, Setting.key s = k → HasForm s.form v) :
    Typed (Table.set k v t) := by
  intro s w hm
  rcases mem_set hm with same | there
  · cases same
    exact hv s rfl
  · exact h s w there

theorem typed_nil : Typed [] := nofun

theorem Typed.filter (h : Typed t) (p : String × Value → Bool) : Typed (t.filter p) :=
  fun s v hm => h s v (List.mem_filter.1 hm).1

theorem typed_withSwitches (h : Typed t) : Typed (withSwitches t) := by
  have level {t : Table} (v : Verbosity) (h : Typed t) :
      Typed (Table.set Setting.verbosity.key (.text v.text) t) := by
    apply h.set
    intro s same
    cases key_injective same
    exact .text
  unfold withSwitches
  dsimp only
  split
  · apply level
    split
    · exact level _ (h.filter _)
    · exact h.filter _
  · split
    · exact level _ (h.filter _)
    · exact h.filter _

theorem typed_ofOverrides (h : ∀ x v, (Setting.key x, v) ∈ t → v = .nothing ∨ HasForm x.form v) :
    Typed (ofOverrides t) := by
  apply typed_withSwitches
  intro s v hm
  obtain ⟨given, some⟩ := List.mem_filter.1 hm
  rcases h s v given with rfl | form
  · cases some
  · exact form

theorem hasForm_of_read (h : Setting.Form.read (Setting.form s) text = .ok (some v)) :
    HasForm s.form v := by
  cases hf : s.form with
  | flag => cases s <;> cases hf
  | list => cases s <;> cases hf
  | text =>
    rw [hf] at h
    cases h
    exact .text
  | whole =>
    rw [hf] at h
    unfold Setting.Form.read at h
    dsimp only at h
    cases hn : Text.Number.whole text with
    | error e =>
      rw [hn] at h
      cases h
    | ok n =>
      rw [hn] at h
      cases h
      exact .whole
  | real =>
    rw [hf] at h
    unfold Setting.Form.read at h
    dsimp only at h
    split at h
    · cases h
      exact .real
    · cases h

theorem ofVariable_ok (h : ofVariable environment s = .ok (some (k, v))) :
    k = s.key ∧ HasForm s.form v := by
  unfold ofVariable at h
  split at h
  · cases h
  · split at h
    · rename_i read hr
      cases read with
      | none => cases h
      | some w =>
        cases h
        exact ⟨rfl, hasForm_of_read hr⟩
    · cases h

theorem typed_ofEnvironment (h : ofEnvironment environment = .ok t) : Typed t := by
  unfold ofEnvironment at h
  rcases mapM_cases (ofVariable environment) Setting.all with ⟨bs, he, answers⟩ | ⟨e, he, _⟩
  · rw [he] at h
    cases h
    intro s v hm
    rw [List.mem_filterMap] at hm
    obtain ⟨given, hm, rfl⟩ := hm
    obtain ⟨s', _, read⟩ := exists_left_of_forall₂ answers hm
    obtain ⟨same, form⟩ := ofVariable_ok read
    cases key_injective same
    exact form
  · rw [he] at h
    cases h

theorem typed_ofFileIfThere
    (files : ∀ table, ofFile t refusal path label = .ok table → Typed table)
    (h : ofFileIfThere t refusal path label = .ok table) : Typed table := by
  obtain ⟨there, _, h⟩ := bind_ok h
  cases there with
  | true => exact files table h
  | false =>
    cases h
    exact typed_nil

theorem typed_ofNamedFile
    (files : ∀ table, ofFile t refusal (Path.ofString written) "explicit" = .ok table → Typed table)
    (h : ofNamedFile t refusal written = .ok table) : Typed table := by
  obtain ⟨there, _, h⟩ := bind_ok h
  cases there with
  | true => exact files table h
  | false => cases h

/-- The settings in the file that the user has named, if there is one. -/
def ofNamed (t : FileTree) (s : Sources) : Attempt Table :=
  match s.file with
  | some written => ofNamedFile t s.refusal written
  | none => .ok []

theorem merge_eq (t : FileTree) (s : Sources) : merge t s = (do
    let user ← ofFileIfThere t s.refusal (s.home.child userFileName) "global"
    let folder ←
      ofFileIfThere t s.refusal (Path.child ⟨.root, t.workingFolder⟩ folderFileName) "project"
    let named ← ofNamed t s
    let environment ← Attempt.fault (ofEnvironment s.environment)
    pure ([user, folder, named, environment, ofOverrides s.overrides].foldl Table.update [])) := by
  unfold merge ofNamed
  cases s.file with
  | none => rfl
  | some written => rfl

section
variable {t : FileTree} {s : Sources}

theorem user_mem_asked : s.home.child userFileName ∈ asked t s := by simp [asked]

theorem folder_mem_asked : Path.child ⟨.root, t.workingFolder⟩ folderFileName ∈ asked t s := by
  simp [asked]

theorem named_mem_asked (h : s.file = some written) : Path.ofString written ∈ asked t s := by
  simp [asked, h]

theorem typed_ofNamed (h : TypedSources t s) (hn : ofNamed t s = .ok table) :
    Typed table := by
  unfold ofNamed at hn
  split at hn
  · rename_i written named
    exact typed_ofNamedFile (h.files _ (named_mem_asked named) "explicit") hn
  · cases hn
    exact typed_nil

/-- Values of the declared kinds stay so when they are put together. -/
theorem typed_merge (h : TypedSources t s) (hm : merge t s = .ok values) : Typed values := by
  rw [merge_eq] at hm
  obtain ⟨user, hu, hm⟩ := bind_ok hm
  obtain ⟨folder, hf, hm⟩ := bind_ok hm
  obtain ⟨named, hn, hm⟩ := bind_ok hm
  obtain ⟨environment, he, hm⟩ := bind_ok hm
  cases hm
  have typedUser := typed_ofFileIfThere (h.files _ user_mem_asked "global") hu
  have typedFolder := typed_ofFileIfThere (h.files _ folder_mem_asked "project") hf
  have typedNamed := typed_ofNamed h hn
  have typedEnvironment : Typed environment := by
    cases ho : ofEnvironment s.environment with
    | error e =>
      rw [ho] at he
      cases he
    | ok table =>
      rw [ho] at he
      cases he
      exact typed_ofEnvironment ho
  have typedOverrides := typed_ofOverrides h.overrides
  exact ((((typed_nil.update typedUser).update typedFolder).update typedNamed).update
    typedEnvironment).update typedOverrides

theorem ofFile_error (h : ofFile t refusal path label = .error e) : IsConfigurationFault e := by
  unfold ofFile at h
  dsimp only at h
  split at h
  · cases h
    exact rfl
  · split at h
    · cases h
    · cases h
      exact rfl

/-- A failure to look for a file: its path is too long, or a folder on the way may not be
searched. -/
def IsUnanswered (t : FileTree) (path : Path) (e : Failure) : Prop :=
  ∃ cause ∈ FileTree.silentCauses, e = .file ⟨cause, path.toString⟩ ∧ t.follow path = .error cause

theorem doesExist_error (h : Attempt.file (t.doesExist path) = .error e) :
    IsUnanswered t path e := by
  cases hd : t.doesExist path with
  | ok b =>
    rw [hd] at h
    cases h
  | error e' =>
    rw [hd] at h
    cases h
    obtain ⟨cause, silent, rfl, failed⟩ := FileTree.probe_error hd
    exact ⟨cause, silent, rfl, failed⟩

theorem ofFileIfThere_error (h : ofFileIfThere t refusal path label = .error e) :
    IsConfigurationFault e ∨ IsUnanswered t path e := by
  rcases bind_error h with h | ⟨there, _, h⟩
  · exact .inr (doesExist_error h)
  · cases there with
    | true => exact .inl (ofFile_error h)
    | false => cases h

theorem ofNamedFile_error (h : ofNamedFile t refusal written = .error e) :
    IsConfigurationFault e ∨ IsUnanswered t (Path.ofString written) e := by
  rcases bind_error h with h | ⟨there, _, h⟩
  · exact .inr (doesExist_error h)
  · cases there with
    | true => exact .inl (ofFile_error h)
    | false =>
      cases h
      exact .inl rfl

theorem ofVariable_error (h : ofVariable environment x = .error f) :
    f.family? = some .configuration := by
  unfold ofVariable at h
  split at h
  · cases h
  · split at h
    · cases h
    · cases h
      rfl

theorem ofEnvironment_error (h : Attempt.fault (ofEnvironment environment) = .error e) :
    IsConfigurationFault e := by
  unfold ofEnvironment at h
  rcases mapM_cases (ofVariable environment) Setting.all with ⟨_, he, _⟩ | ⟨f, he, x, _, hx⟩
  · rw [he] at h
    cases h
  · rw [he] at h
    cases h
    exact ofVariable_error hx

/-- All that goes wrong before values are put together is a fault of the configuration, but for
paths of which it is not told whether a file is there. -/
theorem merge_error (h : merge t s = .error e) :
    IsConfigurationFault e ∨ ∃ path ∈ asked t s, IsUnanswered t path e := by
  rw [merge_eq] at h
  rcases bind_error h with h | ⟨user, _, h⟩
  · exact (ofFileIfThere_error h).imp_right fun silent => ⟨_, user_mem_asked, silent⟩
  rcases bind_error h with h | ⟨folder, _, h⟩
  · exact (ofFileIfThere_error h).imp_right fun silent => ⟨_, folder_mem_asked, silent⟩
  rcases bind_error h with h | ⟨named, _, h⟩
  · unfold ofNamed at h
    split at h
    · rename_i written named
      exact (ofNamedFile_error h).imp_right fun silent => ⟨_, named_mem_asked named, silent⟩
    · cases h
  rcases bind_error h with h | ⟨environment, _, h⟩
  · exact .inl (ofEnvironment_error h)
  · cases h

end

section
variable {t : Table}

theorem isWritable_of_mem (short : (Value.table t).isWritable = true) (h : (k, v) ∈ t) :
    v.isWritable = true := by
  change Value.areEntriesWritable t = true at short
  induction t with
  | nil => cases h
  | cons p rest ih =>
    obtain ⟨name, w⟩ := p
    unfold Value.areEntriesWritable at short
    rw [Bool.and_eq_true] at short
    rcases List.mem_cons.1 h with same | behind
    · cases same
      exact short.1
    · exact ih behind short.2

theorem Typed.whole (h : Typed t) (form : s.form = .whole) (default : number? {} s = some a)
    (own : a.whole? = some n) : ∃ a n, amountIn? t s = some a ∧ a.whole? = some n := by
  unfold amountIn?
  cases hl : t.lookup s.key with
  | none => exact ⟨a, n, default, own⟩
  | some v =>
    have kind := h s v (mem_of_lookup hl)
    rw [form] at kind
    cases kind with
    | flag => exact ⟨_, _, rfl, rfl⟩
    | whole => exact ⟨_, _, rfl, rfl⟩

theorem Typed.real (h : Typed t) (form : s.form = .real)
    (default : number? {} s = some (.real x)) : ∃ x, amountIn? t s = some (.real x) := by
  unfold amountIn?
  cases hl : t.lookup s.key with
  | none => exact ⟨x, default⟩
  | some v =>
    have kind := h s v (mem_of_lookup hl)
    rw [form] at kind
    cases kind with
    | real => exact ⟨_, rfl⟩

theorem Typed.kinds (h : Typed t) : Kinds t := by
  constructor
  · simp only [Limit.all, List.forall_mem_cons]
    exact ⟨h.whole rfl rfl rfl, h.whole rfl rfl rfl, h.whole rfl rfl rfl, h.whole rfl rfl rfl,
      List.forall_mem_nil _⟩
  · simp only [weightSettings, List.forall_mem_cons]
    exact ⟨h.real rfl rfl, h.real rfl rfl, h.real rfl rfl, List.forall_mem_nil _⟩

theorem Typed.exists_rule (h : Typed t) (hc : c ∈ checks) (found : Flaw t c p) :
    ∃ rule, p = .broken rule := by
  have weight {s : Setting} (hc : .weight s ∈ checks) : ∃ x, amountIn? t s = some (.real x) := by
    apply h.kinds.weights
    simpa [checks] using hc
  cases found with
  | profileKind given other =>
    have kind : HasForm .text _ := h .profile _ (mem_of_lookup given)
    cases kind
    exact absurd rfl (other _)
  | profileBlank => exact ⟨_, rfl⟩
  | @limitKind l none =>
    have listed : l ∈ Limit.all := by simpa [checks] using hc
    obtain ⟨a, _, given, _⟩ := h.kinds.limits l listed
    cases none.symm.trans given
  | limitRange => exact ⟨_, rfl⟩
  | weightKind none =>
    obtain ⟨x, given⟩ := weight hc
    cases none.symm.trans given
  | weightNegative => exact ⟨_, rfl⟩
  | weightInfinite => exact ⟨_, rfl⟩
  | weightLarge given _ large =>
    obtain ⟨x, real⟩ := weight hc
    cases given.symm.trans real
    cases large
  | sumLarge usage impact confidence large =>
    obtain ⟨x, hx⟩ := h.kinds.weights .usageWeight (by simp [weightSettings])
    obtain ⟨y, hy⟩ := h.kinds.weights .impactWeight (by simp [weightSettings])
    obtain ⟨z, hz⟩ := h.kinds.weights .confidenceWeight (by simp [weightSettings])
    cases usage.symm.trans hx
    cases impact.symm.trans hy
    cases confidence.symm.trans hz
    cases large
  | sumZero => exact ⟨_, rfl⟩
  | verbosity => exact ⟨_, rfl⟩

theorem Typed.orderly (h : Typed t) (short : (Value.table t).isWritable = true) : Orderly t := by
  cases hu : (unknownKeys t).head? with
  | some key =>
    have first := firstUnknown_of_head? hu
    obtain ⟨v, hv⟩ := exists_of_mem_keys first.mem
    exact .unknown first hv (isWritable_of_mem short (mem_of_lookup hv))
  | none =>
    have known := known_of_head? hu
    by_cases flawed : ∃ p, First (Flaw t) checks p
    · obtain ⟨p, first⟩ := flawed
      obtain ⟨c, hc, found⟩ := first.exists_mem
      obtain ⟨rule, rfl⟩ := h.exists_rule hc found
      exact .refused known first short
    · refine .accepted known (fun c hc p found => ?_) h.kinds
      exact flawed (exists_first hc found)

end

/-- Something lawful comes of all sources just if it is told of each path that is looked for whether
a file is there and the values put together are orderly. They are if every source gives values of
the declared kinds, and no whole number in them is too long to be written. -/
theorem load_lawful_iff (t : FileTree) (s : Sources) :
    (Lawful (load t s) ↔ (∀ e, merge t s ≠ .error (.file e)) ∧
      ∀ values, merge t s = .ok values → Orderly values) ∧
    (∀ e, merge t s = .error (.file e) →
      ∃ path ∈ asked t s, ∃ cause ∈ FileTree.silentCauses,
        e = ⟨cause, path.toString⟩ ∧ t.follow path = .error cause) ∧
    (TypedSources t s → ∀ values, merge t s = .ok values →
      (Value.table values).isWritable = true → Orderly values) := by
  refine ⟨?_, ?_, ?_⟩
  · unfold load
    cases hm : merge t s with
    | ok values =>
      change Lawful (check values) ↔ _
      rw [check_lawful_iff]
      constructor
      · intro orderly
        refine ⟨nofun, fun _ same => ?_⟩
        cases same
        exact orderly
      · exact fun h => h.2 values rfl
    | error e =>
      change IsConfigurationFault e ↔ _
      constructor
      · intro fault
        refine ⟨fun _ same => ?_, nofun⟩
        cases same
        exact fault
      · intro h
        rcases merge_error hm with fault | ⟨path, _, _, _, rfl, _⟩
        · exact fault
        · exact absurd rfl (h.1 _)
  · intro e h
    rcases merge_error h with fault | ⟨path, looked, cause, silent, same, failed⟩
    · cases fault
    · cases same
      exact ⟨path, looked, cause, silent, rfl, failed⟩
  · exact fun sources values hm short => (typed_merge sources hm).orderly short

/-- No files with settings, and a variable that gives one of them. -/
def variableTree : FileTree where
  top := .folder [("home", .folder [] .full), ("proj", .folder [] .full)] .full
  workingFolder := ["proj"]

def variableSources : Sources where
  home := ⟨.root, ["home"]⟩
  environment := [(Setting.variableName .topSymbols, "3")]
  refusal _ := "no TOML document"

theorem typed_variableSources : TypedSources variableTree variableSources where
  files := by
    intro path hp label table h
    have missing : ∀ path ∈ asked variableTree variableSources,
        (variableTree.read path).toOption.isNone = true := by decide +kernel
    have none := missing path hp
    unfold ofFile at h
    cases read : variableTree.read path with
    | error e =>
      rw [read] at h
      cases h
    | ok source =>
      rw [read] at none
      cases none
  overrides := nofun

theorem load_lawful_variable : Lawful (load variableTree variableSources) := by
  have short : (merge variableTree variableSources).toOption.any
      (fun t => (Value.table t).isWritable) = true := by decide +kernel
  obtain ⟨lawful, _, orderly⟩ := load_lawful_iff variableTree variableSources
  cases hm : merge variableTree variableSources with
  | error e =>
    rw [hm] at short
    cases short
  | ok values =>
    rw [hm] at short
    apply lawful.2
    refine ⟨fun e failed => ?_, fun other same => ?_⟩
    · cases hm.symm.trans failed
    · cases hm.symm.trans same
      exact orderly typed_variableSources values hm short

/-- A folder with a settings file that gives a number by a word. -/
def wordedTree : FileTree where
  top := .folder [("home", .folder [] .full), ("proj", .folder [("depshear.toml", .file (.ofBytes
    (Text.Utf8.encode "min_usage_percent_for_recommendations = \"many\"\n")) true)] .full)] .full
  workingFolder := ["proj"]

def wordedSources : Sources where
  home := ⟨.root, ["home"]⟩
  refusal _ := "no TOML document"

def worded : Table := [(Setting.leastUsage.key, .text "many")]

/-- Whether a table gives one setting only, by a text. -/
def isTextOnly (key text : String) : Table → Bool
  | [(k, .text s)] => k == key && s == text
  | _ => false

theorem eq_of_isTextOnly (h : isTextOnly key text t = true) : t = [(key, .text text)] := by
  unfold isTextOnly at h
  split at h
  · rw [Bool.and_eq_true, beq_iff_eq, beq_iff_eq] at h
    rw [h.1, h.2]
  · cases h

theorem merge_worded : merge wordedTree wordedSources = .ok worded := by
  have given : (merge wordedTree wordedSources).toOption.any
      (isTextOnly Setting.leastUsage.key "many") = true := by decide +kernel
  cases hm : merge wordedTree wordedSources with
  | error e =>
    rw [hm] at given
    cases given
  | ok t =>
    rw [hm] at given
    exact congrArg Except.ok (eq_of_isTextOnly given)

theorem known_worded : AllKnown worded := by
  unfold AllKnown
  decide +kernel

/-- A word in the place of a number is refused by no rule: it cannot be compared with the ends of
the range. -/
theorem word_not_lawful :
    load wordedTree wordedSources = .error (.setting (.notNumber .leastUsage)) ∧
      ¬ Lawful (load wordedTree wordedSources) := by
  have failed : load wordedTree wordedSources = .error (.setting (.notNumber .leastUsage)) := by
    unfold load
    rw [merge_worded]
    exact check_of_known known_worded
  rw [failed]
  exact ⟨rfl, id⟩

end Settings
end PackageUsage
