import RuleWeaver.Proofs.Outcomes
import RuleWeaver.Staging

/-!
# What a package consists of

The source files that are read next to a types file are those of its folder, committed texts included
(`mem_sources_iff`).
-/

namespace RuleWeaver

namespace Staging

variable {w : Staging} {folder p : Path} {s : Text}

/-- Whether a source file with a text stands in a folder. -/
def Holds (w : Staging) (folder p : Path) (s : Text) : Prop :=
  ∃ paths, w.entries folder = .ok paths ∧ p ∈ paths ∧ isPackageFile p ∧ w.read p = .ok (some s)

/-- **The source files of a folder** are read, except those at some paths. -/
theorem mem_sources_iff {excluded : List Path} {files : List (Path × Text)} (h : w.sources folder excluded = .ok files) :
    (p, s) ∈ files ↔ w.Holds folder p s ∧ ∀ q ∈ excluded, ¬ q.same p := by
  obtain ⟨paths, hpaths, h⟩ := exists_of_bind_eq_ok h
  obtain ⟨texts, htexts, h⟩ := exists_of_bind_eq_ok h
  cases h
  have hmem : (p, s) ∈ List.filterMap (fun (e : Path × Option Text) => e.2.map (e.1, ·))
      ((paths.filter fun p => isPackageFile p && !excluded.any p.same).zip texts) ↔
        (p, some s) ∈ (paths.filter fun p => isPackageFile p && !excluded.any p.same).zip texts := by
    rw [List.mem_filterMap]
    constructor
    · rintro ⟨⟨q, t⟩, hq, e⟩
      obtain ⟨u, rfl, e⟩ := Option.map_eq_some_iff.1 e
      cases e
      exact hq
    · exact fun hp => ⟨_, hp, rfl⟩
  refine hmem.trans ?_
  rw [mem_zip_of_mapM htexts, List.mem_filter, Bool.and_eq_true, Bool.not_eq_true']
  have hsame : excluded.any p.same = false ↔ ∀ q ∈ excluded, ¬ q.same p := by
    rw [List.any_eq_false]
    refine forall₂_congr fun q _ => ?_
    simp only [Path.same, decide_eq_true_eq]
    exact not_congr eq_comm
  rw [hsame]
  constructor
  · rintro ⟨⟨hp, hfile, hexcluded⟩, hread⟩
    exact ⟨⟨paths, hpaths, hp, hfile, hread⟩, hexcluded⟩
  · rintro ⟨⟨paths', hpaths', hp, hfile, hread⟩, hexcluded⟩
    cases hpaths.symm.trans hpaths'
    exact ⟨⟨hp, hfile, hexcluded⟩, hread⟩

/-- A dry run never fails to commit. -/
lemma exists_commitAll (h : w.dryRun = true) (texts : List (Path × Text)) :
    ∃ writes w', w.commitAll texts = (.ok writes, w') := by
  induction texts generalizing w with
  | nil => exact ⟨[], w, rfl⟩
  | cons e texts ih =>
    obtain ⟨path, text⟩ := e
    obtain ⟨writes, w', hrest⟩ := ih (w := w.remember path text) (by rw [remember_dryRun, h])
    refine ⟨.simulated path text :: writes, w', ?_⟩
    simp only [commitAll, commit, h, if_true, hrest, Except.map]

end Staging

end RuleWeaver
