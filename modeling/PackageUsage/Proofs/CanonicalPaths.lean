import PackageUsage.Proofs.ShortenedPaths
import PackageUsage.Proofs.SpecifiedFiles

namespace PackageUsage
set_option autoImplicit true

namespace Modules
open PackageUsage.Path Path.Normal

/-- A path with its backslashes as slashes. -/
def slashed (path : String) : String := path.map fun c => if c = '\\' then '/' else c

/-- Two paths that lead to the same place from wherever they start, as far as their text tells. -/
structure SamePlace (path other : String) : Prop where
  start : anchorOf (slashed path).toList = anchorOf (slashed other).toList
  names : Relation.EqvGen (Shortens (anchorOf (slashed path).toList != .relative))
    (Text.split '/' (slashed path)) (Text.split '/' (slashed other))

theorem normalize_eq_iff : normalize path = normalize other ↔ SamePlace path other := by
  have written (s : String) : normalize s = (form (slashed s)).toString :=
    Path.Normal.normalize_eq (slashed s)
  rw [written, written]
  constructor
  · intro same
    have forms := toString_injective (isNormal_form _) (isNormal_form _) same
    obtain ⟨start, names⟩ := Path.mk.inj forms
    refine ⟨start, collapse_eq_iff.1 ?_⟩
    rw [names, start]
  · intro same
    have names := collapse_eq_iff.2 same.names
    unfold form
    dsimp only
    rw [names, same.start]

theorem normalize_normalize (path : String) : normalize (normalize path) = normalize path := by
  obtain ⟨p, clean, written⟩ := exists_clean path
  rw [written]
  exact normalize_of_clean clean

theorem normalize_of_mem_candidates (h : c ∈ candidates path) : normalize c = c := by
  obtain ⟨attempt, _, rfl⟩ := List.mem_map.1 (List.mem_eraseDups.1 h)
  exact normalize_normalize attempt

theorem candidates_congr (same : normalize path = normalize other) :
    candidates path = candidates other := by
  unfold candidates
  rw [same]

theorem head?_candidates (path : String) : (candidates path).head? = some (normalize path) := by
  unfold candidates
  rw [head?_eraseDups]
  exact congrArg some (normalize_normalize path)

end Modules

namespace Resolver
open Modules

theorem resolveModule_specified (facts : RepositoryFacts) (history : List Question)
    (importer specifier : String) :
    (((ofFacts facts).answerAll history).2.resolveModule importer specifier).1 =
      (candidates (specified importer specifier)).find? fun c =>
        ((Index.ofFacts facts).file? c).isSome := by
  rw [(coherent_answerAll facts history).resolveModule, Index.find?, specified,
    candidates_congr (normalize_normalize _)]

/-- A normal form is its own, and the same for paths to the same place only. The files tried for a
path are those tried for its normal form, which is the first of them; they are normal and different.
So specifiers of paths with one normal form refer to the same file, whatever was asked before. -/
theorem normalize_canonical (facts : RepositoryFacts) (history history' : List Question) :
    (∀ path, normalize (normalize path) = normalize path ∧
      (∀ other, normalize path = normalize other ↔ SamePlace path other) ∧
      candidates path = candidates (normalize path) ∧ (candidates path).Nodup ∧
      (candidates path).head? = some (normalize path) ∧
      ∀ c ∈ candidates path, normalize c = c) ∧
    ∀ importer specifier importer' specifier',
      specified importer specifier = specified importer' specifier' →
        let found := (((ofFacts facts).answerAll history).2.resolveModule importer specifier).1
        found = (((ofFacts facts).answerAll history').2.resolveModule importer' specifier').1 ∧
          ∀ file, found = some file → ∃ f ∈ facts.files, normalize f.path = file := by
  constructor
  · intro path
    have settled := normalize_normalize path
    refine ⟨settled, fun _ => normalize_eq_iff, candidates_congr settled.symm, nodup_eraseDups _,
      head?_candidates path, ?_⟩
    intro c hc
    exact normalize_of_mem_candidates hc
  · intro importer specifier importer' specifier' same
    dsimp only
    constructor
    · rw [resolveModule_specified, resolveModule_specified, same]
    · intro file found
      rw [(coherent_answerAll facts history).resolveModule] at found
      obtain ⟨entry, inside, rfl⟩ := List.mem_map.1 (Index.mem_of_find? found)
      obtain ⟨f, hf, rfl⟩ := List.mem_map.1 inside
      exact ⟨f, hf, rfl⟩

/-- Written with slashes or backslashes and with detours, from different folders, and after another
question, two specifiers refer to one file. -/
theorem normalize_canonical_of_detour :
    let facts : RepositoryFacts := { files := [{ path := "lib/index.ts" }] }
    let history := [Question.module "b/view.ts" "../lib/index.js"]
    specified "a/main.ts" "../lib" = specified "b\\c\\view.ts" "./..//.\\../x/../lib/" ∧
      "lib/index.ts" ∈ candidates "lib" ∧ normalize "lib/index.ts" = "lib/index.ts" ∧
      (((ofFacts facts).answerAll history).2.resolveModule "a/main.ts" "../lib").1 =
        some "lib/index.ts" ∧
      (((ofFacts facts).answerAll []).2.resolveModule "b\\c\\view.ts"
        "./..//.\\../x/../lib/").1 = some "lib/index.ts" ∧
      ∃ f ∈ facts.files, normalize f.path = "lib/index.ts" := by
  intro facts history
  have path : specified "a/main.ts" "../lib" = "lib" := by decide +kernel
  have detour : specified "b\\c\\view.ts" "./..//.\\../x/../lib/" = "lib" := by decide +kernel
  have same := path.trans detour.symm
  have tried : (attempts "lib").find? (fun c => ((Index.ofFacts facts).file? c).isSome) =
      some "lib/index.ts" := by decide +kernel
  have listed : "lib/index.ts" ∈ candidates "lib" :=
    List.mem_eraseDups.2 (List.mem_of_find?_eq_some tried)
  have found : (((ofFacts facts).answerAll history).2.resolveModule "a/main.ts" "../lib").1 =
      some "lib/index.ts" := by
    rw [resolveModule_specified, path]
    exact (find?_eraseDups (attempts "lib") _).trans tried
  obtain ⟨paths, files⟩ := normalize_canonical facts history []
  obtain ⟨agree, scanned⟩ := files _ _ _ _ same
  obtain ⟨_, _, _, _, _, normal⟩ := paths "lib"
  exact ⟨same, listed, normal _ listed, found, agree.symm.trans found, scanned _ found⟩

end Resolver

end PackageUsage
