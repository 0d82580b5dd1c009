import PackageUsage.Proofs.FollowedLinks
import PackageUsage.Proofs.WalkedFolders
import PackageUsage.Proofs.WrittenNames

namespace PackageUsage
set_option autoImplicit true
open FileError (Cause)

namespace Entry

mutual

/-- The characters in the targets of the links below a place that have not been met. -/
def unmet (met : List String → Bool) (place : List String) : Entry → Nat
  | folder entries _ => unmets met place entries
  | link target => if met place then 0 else target.length + 2
  | file .. => 0

def unmets (met : List String → Bool) (place : List String) : List (String × Entry) → Nat
  | [] => 0
  | (n, e) :: rest => unmet met (place ++ [n]) e + unmets met place rest

end

theorem unmet_none (e : Entry) (place : List String) :
    unmet (fun _ => false) place e = e.linkLength := by
  induction e using folderInduction generalizing place with
  | other e he =>
    cases e with
    | folder entries access => cases he
    | file source readable => rfl
    | link target => rfl
  | folder entries access ih =>
    rw [unmet, linkLength]
    induction entries with
    | nil => rfl
    | cons first rest ihrest =>
      obtain ⟨n, e⟩ := first
      rw [unmets, linkLengths, ih n e List.mem_cons_self,
        ihrest fun m x hm => ih m x (List.mem_cons_of_mem _ hm)]

variable {met met' : List String → Bool}

theorem unmet_mono (more : ∀ link, met link = true → met' link = true) (e : Entry)
    (place : List String) : unmet met' place e ≤ unmet met place e := by
  induction e using folderInduction generalizing place with
  | other e he =>
    cases e with
    | folder entries access => cases he
    | file source readable => exact Nat.le_refl _
    | link target =>
      rw [unmet, unmet]
      cases hm : met place with
      | true => exact Nat.le_of_eq (by rw [more place hm])
      | false =>
        split
        · exact Nat.zero_le _
        · exact Nat.le_refl _
  | folder entries access ih =>
    rw [unmet, unmet]
    induction entries with
    | nil => exact Nat.le_refl _
    | cons first rest ihrest =>
      obtain ⟨n, e⟩ := first
      exact Nat.add_le_add (ih n e List.mem_cons_self _)
        (ihrest fun m x hm => ih m x (List.mem_cons_of_mem _ hm))

theorem unmets_mono (more : ∀ link, met link = true → met' link = true)
    (entries : List (String × Entry)) (place : List String) :
    unmets met' place entries ≤ unmets met place entries :=
  unmet_mono more (.folder entries .full) place

theorem unmet_add_le {e : Entry} (h : e.at? names = some (.link target))
    (new : met (place ++ names) = false) (now : met' (place ++ names) = true)
    (more : ∀ link, met link = true → met' link = true) :
    unmet met' place e + (target.length + 2) ≤ unmet met place e := by
  induction names generalizing e place with
  | nil =>
    cases h
    rw [List.append_nil] at new now
    rw [unmet, unmet, new, now]
    exact Nat.le_of_eq (Nat.zero_add _)
  | cons n names ih =>
    obtain ⟨inner, there, below⟩ := Option.bind_eq_some_iff.1 h
    clear h
    rw [List.append_cons] at new now
    cases e with
    | folder entries access =>
      rw [unmet, unmet]
      change entries.lookup n = some inner at there
      have hm := mem_of_lookup there
      clear there
      induction entries with
      | nil => cases hm
      | cons first rest ihrest =>
        obtain ⟨m, x⟩ := first
        rw [unmets, unmets]
        rcases List.mem_cons.1 hm with he | hm
        · cases he
          have here := ih below new now
          have behind := unmets_mono more rest place
          omega
        · have here := unmet_mono more x (place ++ [m])
          have behind := ihrest hm
          omega
    | file source readable => cases there
    | link target => cases there

end Entry

namespace FileTree
variable {t : FileTree}

/-- A place that no link stands on the way to, in folders where names can be looked up. -/
inductive Solid (t : FileTree) : List String → Prop
  | top : Solid t []
  | inside : Solid t place → t.Searches place → Ordinary n → t.top.at? (place ++ [n]) = some e →
      e.isLink = false → Solid t (place ++ [n])

theorem Solid.dropLast (h : Solid t place) : Solid t place.dropLast := by
  cases h with
  | top => exact .top
  | inside before _ _ _ _ =>
    rw [List.dropLast_concat]
    exact before

theorem Solid.exists_entry (h : Solid t place) : ∃ e, t.top.at? place = some e := by
  cases h with
  | top => exact ⟨t.top, rfl⟩
  | inside _ _ _ there _ => exact ⟨_, there⟩

theorem seen?_concat (seen : t.top.seen? place = t.top.at? place) (searched : t.Searches place)
    (n : String) : t.top.seen? (place ++ [n]) = t.top.at? (place ++ [n]) := by
  obtain ⟨entries, access, there, allowed⟩ := searched
  rw [Entry.seen?_append, Entry.at?_append, seen, there]
  exact if_pos allowed

theorem Solid.seen (h : Solid t place) : t.top.seen? place = t.top.at? place := by
  induction h with
  | top => rfl
  | inside _ searched _ _ _ ih => exact seen?_concat ih searched _

theorem Moves.solid (h : Moves t place n i next target) (hs : Solid t place) : Solid t next := by
  cases h with
  | stay _ _ _ => exact hs
  | up _ => exact hs.dropLast
  | down searched ordinary there plain => exact .inside hs searched ordinary there plain
  | link _ _ _ =>
    rw [linkStart]
    split
    · exact .top
    · exact hs

theorem Leads.solid (h : Leads t place names k q) (hs : Solid t place) : Solid t q := by
  induction h with
  | here => exact hs
  | move first _ ih => exact ih (first.solid hs)

theorem Solid.leads (h : Solid t place) : Leads t [] place 0 place := by
  induction h with
  | top => exact .here
  | inside _ searched ordinary there plain ih =>
    exact ih.append (Moves.leads (.down searched ordinary there plain) .here)

theorem Solid.follow (h : Solid t place) : t.follow (placePath place) ≠ .error .tooManyLinks := by
  intro passed
  rw [FileTree.follow] at passed
  split at passed
  · rename_i cause refused
    cases passed
    rw [refusal?] at refused
    split at refused
    · cases refused
    split at refused
    · cases refused
    · cases refused
  split at passed
  · cases passed
  · have reached : t.followFrom linkLimit [] place = .ok place :=
      followFrom_eq_ok.2 ⟨0, Nat.zero_le _, h.leads⟩
    cases passed.symm.trans reached

namespace Step

/-- The names among some steps. -/
def names : List Step → List String
  | [] => []
  | .name n :: rest => n :: names rest
  | .linkEnd _ :: rest => names rest

theorem names_append (steps more : List Step) :
    names (steps ++ more) = names steps ++ names more := by
  induction steps with
  | nil => rfl
  | cons first rest ih =>
    cases first with
    | name n => exact congrArg (n :: ·) ih
    | linkEnd link => exact ih

theorem names_map_name (pieces : List String) : names (pieces.map .name) = pieces := by
  induction pieces with
  | nil => rfl
  | cons n rest ih => exact congrArg (n :: ·) ih

end Step

/-- The place that a link leads to, and the links passed on the way. -/
def LinkLeads (t : FileTree) (link : List String) (k : Nat) (q : List String) : Prop :=
  ∃ folder n, link = folder ++ [n] ∧ Leads t folder [n] k q

/-- What is known of links is so. A link being looked into comes to its end where it leads, in fewer
links than it passes from its start. -/
structure Sound (t : FileTree) (known : Links) (place : List String) (steps : List Step) :
    Prop where
  found : known.lookup link = some (some q) → ∃ k, LinkLeads t link k q
  opened : known.lookup link = some none → .linkEnd link ∈ steps
  ends : ∀ before link behind, steps = before ++ .linkEnd link :: behind → ∃ i k q, i < k ∧
    Leads t place (Step.names before) i q ∧ LinkLeads t link k q

theorem LinkLeads.leads (h : LinkLeads t (place ++ [n]) k q) : Leads t place [n] k q := by
  obtain ⟨folder, m, he, h⟩ := h
  obtain ⟨rfl, same⟩ := List.append_inj' he rfl
  cases same
  exact h

theorem Sound.name (h : Sound t known place (.name n :: rest)) (hn : Leads t place [n] k next) :
    Sound t known next rest where
  found := h.found
  opened := fun hl => (List.mem_cons.1 (h.opened hl)).resolve_left nofun
  ends := by
    intro before link behind he
    obtain ⟨i, k, q, fewer, leads, target⟩ :=
      h.ends (.name n :: before) link behind (congrArg (Step.name n :: ·) he)
    obtain ⟨mid, a, b, rfl, first, more⟩ := leads.cons_split
    obtain ⟨_, rfl⟩ := hn.unique first
    exact ⟨b, k, q, Nat.lt_of_le_of_lt (Nat.le_add_left _ _) fewer, more, target⟩

theorem Sound.linkEnd (h : Sound t known place (.linkEnd link :: rest)) :
    Sound t ((link, some place) :: known) place rest where
  found := by
    intro other q hl
    rw [List.lookup_cons] at hl
    split at hl
    · rename_i same
      obtain rfl := beq_iff_eq.1 same
      cases hl
      obtain ⟨_, k, _, _, leads, target⟩ := h.ends [] _ rest rfl
      cases leads
      exact ⟨k, target⟩
    · exact h.found hl
  opened := by
    intro other hl
    rw [List.lookup_cons] at hl
    split at hl
    · cases hl
    · rename_i differs
      refine (List.mem_cons.1 (h.opened hl)).resolve_left ?_
      rintro ⟨⟩
      rw [beq_self_eq_true] at differs
      cases differs
  ends := by
    intro before other behind he
    exact h.ends (.linkEnd link :: before) other behind (congrArg (Step.linkEnd link :: ·) he)

theorem eq_of_linkEnd {pieces : List String} {rest before behind : List Step}
    (h : pieces.map .name ++ .linkEnd here :: rest = before ++ .linkEnd link :: behind) :
    before = pieces.map .name ∧ link = here ∨
      ∃ more, before = pieces.map .name ++ .linkEnd here :: more ∧
        rest = more ++ .linkEnd link :: behind := by
  induction pieces generalizing before with
  | nil =>
    cases before with
    | nil =>
      cases h
      exact .inl ⟨rfl, rfl⟩
    | cons first more =>
      cases h
      exact .inr ⟨more, rfl, rfl⟩
  | cons n pieces ih =>
    cases before with
    | nil => cases h
    | cons first before =>
      obtain ⟨rfl, he⟩ := List.cons.inj h
      rcases ih he with ⟨rfl, same⟩ | ⟨more, rfl, rest⟩
      · exact .inl ⟨rfl, same⟩
      · exact .inr ⟨more, rfl, rest⟩

theorem Sound.link (h : Sound t known place (.name n :: rest))
    (first : Moves t place n 1 next target) (leads : Leads t next target i mid) :
    Sound t ((place ++ [n], none) :: known) next
      (target.map .name ++ .linkEnd (place ++ [n]) :: rest) where
  found := by
    intro other q hl
    rw [List.lookup_cons] at hl
    split at hl
    · cases hl
    · exact h.found hl
  opened := by
    intro other hl
    rw [List.lookup_cons] at hl
    apply List.mem_append_right
    split at hl
    · rename_i same
      obtain rfl := beq_iff_eq.1 same
      exact List.mem_cons_self
    · exact List.mem_cons_of_mem _ ((List.mem_cons.1 (h.opened hl)).resolve_left nofun)
  ends := by
    intro before link behind he
    rcases eq_of_linkEnd he with ⟨rfl, rfl⟩ | ⟨more, rfl, after⟩
    · rw [Step.names_map_name]
      exact ⟨i, i + 1, mid, Nat.lt_succ_self i, leads, place, n, rfl, first.leads leads⟩
    · obtain ⟨j, k, q, fewer, whole, goal⟩ :=
        h.ends (.name n :: more) link behind (congrArg (Step.name n :: ·) after)
      rw [Step.names_append, Step.names_map_name]
      cases whole with
      | move first' more =>
        obtain ⟨rfl, rfl, rfl⟩ := first.unique first'
        exact ⟨_, k, q, Nat.lt_of_le_of_lt (Nat.le_add_right _ _) fewer, more, goal⟩

/-- A link that can be followed is not met while it is looked into. -/
theorem Sound.not_opened (h : Sound t known place (.name n :: rest)) :
    known.lookup (place ++ [n]) ≠ some none := by
  intro hl
  have inside := (List.mem_cons.1 (h.opened hl)).resolve_left nofun
  obtain ⟨before, behind, he⟩ := List.append_of_mem inside
  obtain ⟨i, k, q, fewer, leads, target⟩ :=
    h.ends (.name n :: before) _ behind (congrArg (Step.name n :: ·) he)
  obtain ⟨mid, a, b, rfl, first, _⟩ := leads.cons_split
  -- The link begins here, and would come to its end in fewer links than it passes.
  obtain ⟨rfl, _⟩ := target.leads.unique first
  exact absurd fewer (Nat.not_lt.2 (Nat.le_add_right _ _))

theorem realFrom_name (named : ¬ (n = "" ∨ n = ".")) (parent : n ≠ "..")
    (plain : ∀ target, t.top.at? (place ++ [n]) ≠ some (.link target)) :
    t.realFrom (fuel + 1) known place (.name n :: rest) =
      t.realFrom fuel known (place ++ [n]) rest := by
  rw [realFrom, if_neg named, if_neg parent]
  dsimp only
  split
  · rename_i target seen
    exact (plain target (Entry.at?_of_seen? seen)).elim
  · rfl

theorem realFrom_move (h : Moves t place n 0 next []) :
    t.realFrom (fuel + 1) known place (.name n :: rest) = t.realFrom fuel known next rest := by
  cases h with
  | stay _ hn _ =>
    rw [realFrom]
    exact if_pos hn
  | up _ => rfl
  | down _ ordinary he plain =>
    refine realFrom_name ordinary.1 ordinary.2.1 fun target there => ?_
    cases he.symm.trans there
    cases plain

theorem realFrom_link (h : Moves t place n 1 next target) (hs : Solid t place) :
    t.realFrom (fuel + 1) known place (.name n :: rest) =
      match known.lookup (place ++ [n]) with
      | some (some q) => t.realFrom fuel known q rest
      | some none => writtenOn (place ++ [n]) rest
      | none => t.realFrom fuel ((place ++ [n], none) :: known) next
          (target.map .name ++ .linkEnd (place ++ [n]) :: rest) := by
  rw [realFrom]
  cases h with
  | link searched ordinary he =>
    rw [if_neg ordinary.1, if_neg ordinary.2.1]
    dsimp only
    rw [seen?_concat hs.seen searched, he]
    rfl

/-- The characters in the targets of the links of which nothing is known. -/
def unknown (t : FileTree) (known : Links) : Nat :=
  t.top.unmet (fun link => (known.lookup link).isSome) []

theorem unknown_nil (t : FileTree) : t.unknown [] = t.top.linkLength :=
  Entry.unmet_none t.top []

theorem lookup_isSome_cons (known : Links) (link : List String) (goal : Option (List String)) :
    ∀ other, (known.lookup other).isSome = true →
      (((link, goal) :: known).lookup other).isSome = true := by
  intro other h
  rw [List.lookup_cons]
  split
  · rfl
  · exact h

theorem unknown_cons_le (t : FileTree) (known : Links) (link : List String)
    (goal : Option (List String)) : t.unknown ((link, goal) :: known) ≤ t.unknown known :=
  Entry.unmet_mono (lookup_isSome_cons known link goal) t.top []

/-- A link that is opened puts no more steps before the rest than it is long. -/
theorem length_add_unknown_le (h : Moves t place n 1 next target)
    (new : known.lookup (place ++ [n]) = none) :
    target.length + 1 + t.unknown ((place ++ [n], none) :: known) ≤ t.unknown known := by
  cases h with
  | @link _ written _ _ there =>
    have pieces : (targetNames written).2.length ≤ written.length + 1 :=
      Text.length_split_le '/' written
    have less : t.unknown ((place ++ [n], none) :: known) + (written.length + 2) ≤
        t.unknown known := by
      refine Entry.unmet_add_le there ?_ ?_ (lookup_isSome_cons known _ none)
      · rw [List.nil_append, new]
        rfl
      · rw [List.nil_append, List.lookup_cons, beq_self_eq_true]
        rfl
    omega

/-- Steps that can be followed are walked to where they lead, whatever comes after them. -/
theorem realFrom_append (h : Leads t place (Step.names steps) k q) (hs : Solid t place)
    (sound : Sound t known place steps) (more : List Step)
    (enough : (steps ++ more).length + t.unknown known < fuel) :
    ∃ fuel' known', more.length + t.unknown known' < fuel' ∧
      t.realFrom fuel known place (steps ++ more) = t.realFrom fuel' known' q more := by
  -- Each step takes one from the fuel. A link that is opened pays for the steps that it adds with
  -- the characters of its target, which are counted once.
  induction fuel generalizing known place steps k with
  | zero => cases enough
  | succ fuel ih =>
    cases steps with
    | nil =>
      cases h
      exact ⟨fuel + 1, known, enough, rfl⟩
    | cons first rest =>
      rw [List.cons_append, List.length_cons] at enough
      cases first with
      | linkEnd link =>
        have fewer := t.unknown_cons_le known link (some place)
        exact ih h hs sound.linkEnd (by omega)
      | name n =>
        rw [List.cons_append]
        obtain ⟨_, _, _, _, here, behind⟩ := h.cons_split
        obtain ⟨i, next, target, j, move, leads, _⟩ := h.first
        rcases move.cost with ⟨rfl, rfl⟩ | rfl
        · rw [realFrom_move move]
          exact ih leads (move.solid hs) (sound.name (move.leads .here)) (by omega)
        · rw [realFrom_link move hs]
          cases hl : known.lookup (place ++ [n]) with
          | none =>
            -- The names of the target come first, then the end of the link, then what was to come.
            have fewer := length_add_unknown_le move hl
            obtain ⟨_, _, _, _, inside, _⟩ := leads.split
            have opened : Leads t next
                (Step.names (target.map .name ++ .linkEnd (place ++ [n]) :: rest)) j q := by
              rw [Step.names_append, Step.names_map_name]
              exact leads
            have walked := ih opened (move.solid hs) (sound.link move inside) (by
              simp only [List.length_append, List.length_cons, List.length_map] at enough ⊢
              omega)
            rw [List.append_assoc] at walked
            exact walked
          | some goal =>
            cases goal with
            | none => exact (sound.not_opened hl).elim
            | some place' =>
              obtain ⟨_, target⟩ := sound.found hl
              obtain ⟨_, rfl⟩ := target.leads.unique here
              exact ih behind (here.solid hs) (sound.name here) (by omega)

theorem sound_nil (t : FileTree) (place names : List String) :
    Sound t [] place (names.map .name) where
  found := nofun
  opened := nofun
  ends := by
    intro before link behind he
    have inside : Step.linkEnd link ∈ names.map Step.name := by
      rw [he]
      exact List.mem_append_right _ List.mem_cons_self
    obtain ⟨_, _, same⟩ := List.mem_map.1 inside
    cases same

theorem exists_realFrom (h : Leads t [] front k q) (rest : List String) :
    ∃ fuel known, rest.length < fuel ∧
      t.realFrom (t.realSteps (front ++ rest)) [] [] ((front ++ rest).map .name) =
        t.realFrom fuel known q (rest.map .name) := by
  rw [← Step.names_map_name front] at h
  have enough : (front.map Step.name ++ rest.map Step.name).length + t.unknown [] <
      t.realSteps (front ++ rest) := by
    rw [unknown_nil, ← List.map_append, List.length_map]
    exact Nat.lt_succ_self _
  obtain ⟨fuel, known, more, walked⟩ := realFrom_append h .top (sound_nil t [] front) _ enough
  rw [List.length_map] at more
  refine ⟨fuel, known, by omega, ?_⟩
  rw [List.map_append]
  exact walked

theorem resolve_eq_ok {p : Path} (h : t.resolve p = .ok q) :
    (∀ n ∈ p.parts, refusal? n = none) ∧
      q = t.realFrom (t.realSteps (t.absoluteNames p)) [] [] ((t.absoluteNames p).map .name) := by
  rw [resolve] at h
  split at h
  · cases h
  rename_i accepted
  dsimp only at h
  split at h
  · cases h
  · cases h
    exact ⟨List.findSome?_eq_none_iff.1 accepted, rfl⟩

theorem resolve_of_follow {p : Path} (h : t.follow p = .ok q) :
    t.resolve p = .ok (placePath q) := by
  obtain ⟨fits, followed⟩ := follow_eq_ok.1 h
  obtain ⟨k, _, leads⟩ := followFrom_eq_ok.1 followed
  have accepted : p.parts.findSome? refusal? = none :=
    List.findSome?_eq_none_iff.2 ((refusal?_toString p).1 fits.accepted)
  obtain ⟨fuel, known, more, walked⟩ := exists_realFrom leads []
  rw [List.append_nil] at walked
  have real : t.realFrom (t.realSteps (t.absoluteNames p)) [] []
      ((t.absoluteNames p).map .name) = placePath q := by
    rw [walked]
    cases fuel with
    | zero => cases more
    | succ fuel => rfl
  rw [resolve, accepted]
  dsimp only
  rw [real]
  split
  · rename_i passed
    exact ((leads.solid .top).follow passed).elim
  · rfl

theorem absoluteNames_append (t : FileTree) (a : Anchor) (front rest : List String) :
    t.absoluteNames ⟨a, front ++ rest⟩ = t.absoluteNames ⟨a, front⟩ ++ rest := by
  cases a with
  | relative => exact (List.append_assoc ..).symm
  | root => rfl
  | doubleRoot => rfl

theorem resolve_concat {front : List String} (h : Leads t [] (t.absoluteNames ⟨a, front⟩) k folder)
    (named : ¬ (n = "" ∨ n = ".")) (parent : n ≠ "..")
    (plain : ∀ target, t.top.at? (folder ++ [n]) ≠ some (.link target))
    (hr : t.resolve ⟨a, front ++ [n]⟩ = .ok q) : q = placePath (folder ++ [n]) := by
  obtain ⟨_, rfl⟩ := resolve_eq_ok hr
  obtain ⟨fuel, known, more, walked⟩ := exists_realFrom h [n]
  rw [absoluteNames_append, walked]
  obtain _ | _ | fuel := fuel
  · cases more
  · exact (Nat.lt_irrefl _ more).elim
  · exact realFrom_name named parent plain

theorem follow_front {front : List String} (h : t.follow ⟨a, front ++ rest⟩ = .ok q) :
    ∃ mid i j, t.follow ⟨a, front⟩ = .ok mid ∧ Leads t [] (t.absoluteNames ⟨a, front⟩) i mid ∧
      Leads t mid rest j q ∧ i + j ≤ linkLimit := by
  obtain ⟨fits, followed⟩ := follow_eq_ok.1 h
  obtain ⟨k, few, leads⟩ := followFrom_eq_ok.1 followed
  rw [absoluteNames_append] at leads
  obtain ⟨mid, i, j, rfl, before, behind⟩ := leads.split
  have reached : t.followFrom linkLimit [] (t.absoluteNames ⟨a, front⟩) = .ok mid :=
    followFrom_eq_ok.2 ⟨i, Nat.le_trans (Nat.le_add_right i j) few, before⟩
  exact ⟨mid, i, j, follow_eq_ok.2 ⟨fits.front, reached⟩, before, behind, few⟩

end FileTree

end PackageUsage
