import Mathlib.Data.List.Induction
import Mathlib.Logic.Relation
import PackageUsage.Proofs.NormalPaths

namespace PackageUsage.Path.Normal
set_option autoImplicit true

/-- Names that lead from any folder back to it. -/
inductive Idle : List String → Prop
  | empty : Idle [""]
  | dot : Idle ["."]
  | thereAndBack (plain : Plain n) : Idle [n, ".."]

/-- The same way with fewer names. Nothing is above the root. -/
inductive Shortens (absolute : Bool) : List String → List String → Prop
  | idle (h : Idle names) (front rest : List String) :
      Shortens absolute (front ++ names ++ rest) (front ++ rest)
  | top (h : absolute = true) (rest : List String) : Shortens absolute (".." :: rest) rest

theorem Shortens.append (h : Shortens absolute xs ys) (more : List String) :
    Shortens absolute (xs ++ more) (ys ++ more) := by
  cases h with
  | idle h front rest =>
    rw [List.append_assoc, List.append_assoc front rest]
    exact .idle h front (rest ++ more)
  | top h => exact .top h _

theorem Idle.foldl_push (h : Idle names) (absolute : Bool) (stack : List String) :
    names.foldl (push absolute) stack = stack := by
  cases h with
  | empty => rw [List.foldl_cons, List.foldl_nil, push.eq_def, if_pos (.inl rfl)]
  | dot => rw [List.foldl_cons, List.foldl_nil, push.eq_def, if_pos (.inr rfl)]
  | thereAndBack plain =>
    rw [List.foldl_cons, push_plain plain, List.foldl_cons, push_parent plain, List.foldl_nil]

theorem Idle.foldl_push_between (h : Idle names) (front rest : List String) (absolute : Bool)
    (stack : List String) : (front ++ names ++ rest).foldl (push absolute) stack =
      (front ++ rest).foldl (push absolute) stack := by
  rw [List.foldl_append, List.foldl_append, h.foldl_push, List.foldl_append]

theorem Shortens.collapse_eq (h : Shortens absolute xs ys) :
    collapse absolute xs = collapse absolute ys := by
  cases h with
  | idle h front rest => exact congrArg List.reverse (h.foldl_push_between front rest absolute [])
  | top h rest =>
    subst h
    rfl

/-- A way that is shortened without a start at the root is the same one from any folder. -/
theorem Shortens.foldl_push (h : Shortens false xs ys) (absolute : Bool) (stack : List String) :
    xs.foldl (push absolute) stack = ys.foldl (push absolute) stack := by
  cases h with
  | idle h front rest => exact h.foldl_push_between front rest absolute stack
  | top h => cases h

theorem shortens_push (h : Settled absolute stack) (n : String) :
    Relation.ReflTransGen (Shortens absolute) (stack.reverse ++ [n])
      (push absolute stack n).reverse := by
  have leaves (names : List String) (hn : Idle names) (front : List String) :
      Relation.ReflTransGen (Shortens absolute) (front ++ names) front := by
    have step : Shortens absolute (front ++ names ++ []) (front ++ []) := .idle hn front []
    simp only [List.append_nil] at step
    exact .single step
  by_cases empty : n = "" ∨ n = "."
  · rw [push.eq_def, if_pos empty]
    rcases empty with rfl | rfl
    · exact leaves _ .empty _
    · exact leaves _ .dot _
  by_cases parent : n = ".."
  · subst parent
    cases h with
    | nil =>
      -- A relative path keeps its way up, and at the root there is none.
      cases absolute with
      | false => exact .refl
      | true => exact .single (.top rfl [])
    | name plain settled =>
      rw [push_parent plain, List.reverse_cons, List.append_assoc]
      exact leaves _ (.thereAndBack plain) _
    | up relative all =>
      have settled := Settled.up relative (List.forall_mem_cons.2 ⟨rfl, all⟩)
      rw [push_of_settled settled, List.reverse_cons, List.reverse_cons, List.reverse_cons]
  · rw [not_or] at empty
    rw [push_plain ⟨empty.1, empty.2, parent⟩, List.reverse_cons]

theorem shortens_collapse (absolute : Bool) (names : List String) :
    Relation.ReflTransGen (Shortens absolute) names (collapse absolute names) := by
  induction names using List.reverseRecOn with
  | nil => exact .refl
  | append_singleton names n ih =>
    have settled : Settled absolute (names.foldl (push absolute) []) :=
      settled_foldl_push names .nil
    have before := ih.lift (· ++ [n]) fun _ _ h => h.append [n]
    have last := shortens_push settled n
    unfold collapse at before ⊢
    rw [List.foldl_concat]
    exact before.trans last

theorem foldl_push_collapse (names : List String) (absolute : Bool) (stack : List String) :
    (collapse false names).foldl (push absolute) stack = names.foldl (push absolute) stack := by
  have shorter := shortens_collapse false names
  generalize collapse false names = rest at shorter ⊢
  induction shorter with
  | refl => rfl
  | tail _ step ih => rw [← step.foldl_push, ih]

/-- Names have one normal form exactly if they come to each other by steps that shorten the way or
undo such a step. -/
theorem collapse_eq_iff : collapse absolute xs = collapse absolute ys ↔
    Relation.EqvGen (Shortens absolute) xs ys := by
  constructor
  · intro same
    have joined (names : List String) :
        Relation.EqvGen (Shortens absolute) names (collapse absolute names) := by
      apply Relation.EqvGen.reflTransGen_le_eqvGen
      exact shortens_collapse absolute names
    have left := joined xs
    rw [same] at left
    exact .trans _ _ _ left (.symm _ _ (joined ys))
  · intro joined
    induction joined with
    | rel xs ys h => exact h.collapse_eq
    | refl xs => rfl
    | symm xs ys _ ih => exact ih.symm
    | trans xs ys zs _ _ first second => exact first.trans second

end PackageUsage.Path.Normal
