import RuleWeaver.Staging
import RuleWeaver.Proofs.Path
import Mathlib.Data.List.Sort

/-!
# Listing a folder

The paths of a listing are sorted, and of those with the same parts the first is kept.  So a listing is told by which path comes
first among those with its parts (`Staging.dropRepeats_mergeSort_congr`), wherever the others stand.
-/

namespace RuleWeaver.Staging

open scoped List

variable {l l' : List Path} {p q : Path}

/-- The order of a listing. -/
def IsBefore (p q : Path) : Prop := p.le q ∧ ¬ p.same q

lemma mem_of_mem_dropRepeats (h : p ∈ dropRepeats l) : p ∈ l := by
  fun_induction dropRepeats l with
  | case1 => exact h
  | case2 => exact h
  | case3 q r rest hsame ih =>
    rcases List.mem_cons.1 (ih h) with rfl | h
    · exact List.mem_cons_self
    · exact List.mem_cons_of_mem _ (List.mem_cons_of_mem _ h)
  | case4 q r rest hsame ih =>
    rcases List.mem_cons.1 h with rfl | h
    · exact List.mem_cons_self
    · exact List.mem_cons_of_mem _ (ih h)

lemma isBefore_of_isBefore_of_le {r : Path} (h : IsBefore p q) (hr : q.le r) : IsBefore p r := by
  refine ⟨Path.partsLe_trans h.1 hr, fun hsame => h.2 (Path.same_of_le h.1 ?_)⟩
  have hrp : r.le p := Path.le_of_same (Path.same_iff.2 (Path.same_iff.1 hsame).symm)
  exact Path.partsLe_trans hr hrp

/-- The paths behind the first of a sorted list, when the second has other parts. -/
lemma isBefore_of_pairwise {r : Path} {rest : List Path} (h : (p :: q :: rest).Pairwise fun a b => a.le b) (hne : ¬ p.same q)
    (hr : r ∈ q :: rest) : IsBefore p r := by
  obtain ⟨hp, hrest⟩ := List.pairwise_cons.1 h
  have hpq : IsBefore p q := ⟨hp q List.mem_cons_self, hne⟩
  rcases List.mem_cons.1 hr with rfl | hr
  · exact hpq
  · exact isBefore_of_isBefore_of_le hpq ((List.pairwise_cons.1 hrest).1 r hr)

lemma pairwise_dropRepeats (h : l.Pairwise fun a b => a.le b) : (dropRepeats l).Pairwise IsBefore := by
  fun_induction dropRepeats l with
  | case1 => exact .nil
  | case2 p => exact List.pairwise_singleton _ p
  | case3 p q rest hsame ih => exact ih (h.sublist (List.Sublist.cons_cons p (List.sublist_cons_self q rest)))
  | case4 p q rest hsame ih =>
    exact List.pairwise_cons.2 ⟨fun r hr => isBefore_of_pairwise h hsame (mem_of_mem_dropRepeats hr), ih (List.pairwise_cons.1 h).2⟩

/-- Of the paths with the same parts the first stays. -/
lemma mem_dropRepeats_iff (h : l.Pairwise fun a b => a.le b) : p ∈ dropRepeats l ↔ l.find? (·.same p) = some p := by
  fun_induction dropRepeats l with
  | case1 => exact iff_of_false List.not_mem_nil (fun h => nomatch h)
  | case2 q =>
    rw [List.mem_singleton, List.find?_singleton]
    constructor
    · rintro rfl
      exact if_pos (Path.same_iff.2 rfl)
    · intro hfind
      split at hfind
      · exact (Option.some.inj hfind).symm
      · cases hfind
  | case3 q r rest hsame ih =>
    rw [ih (h.sublist (List.Sublist.cons_cons q (List.sublist_cons_self r rest)))]
    have hsame' : r.same p = q.same p := by
      rw [Bool.eq_iff_iff, Path.same_iff, Path.same_iff, Path.same_iff.1 hsame]
    cases hq : q.same p <;> simp [hsame', hq]
  | case4 q r rest hsame ih =>
    rw [List.mem_cons, ih (List.pairwise_cons.1 h).2]
    cases hq : q.same p with
    | false =>
      rw [List.find?_cons_of_neg (p := fun x : Path => x.same p) (Bool.eq_false_iff.1 hq)]
      refine or_iff_right ?_
      rintro rfl
      rw [Path.same_iff.2 rfl] at hq
      cases hq
    | true =>
      rw [List.find?_cons_of_pos (p := fun x : Path => x.same p) hq]
      refine ⟨?_, fun hfind => .inl (Option.some.inj hfind).symm⟩
      rintro (rfl | hfind)
      · rfl
      · have hqp := isBefore_of_pairwise h hsame (List.mem_of_find?_eq_some hfind)
        exact absurd hq hqp.2

lemma path_le_trans (a b c : Path) : a.le b → b.le c → a.le c := Path.partsLe_trans

lemma path_le_total (a b : Path) : a.le b || b.le a := Bool.or_eq_true _ _ ▸ Path.partsLe_total _ _

/-- Sorting keeps the first of the paths with the same parts first. -/
lemma find?_mergeSort : (l.mergeSort Path.le).find? (·.same p) = l.find? (·.same p) := by
  have hsorted : (l.filter (·.same p)).Pairwise fun a b => a.le b := by
    refine List.pairwise_of_forall_mem_list fun a ha b hb => Path.le_of_same (Path.same_iff.2 ?_)
    rw [Path.same_iff.1 (List.mem_filter.1 ha).2, Path.same_iff.1 (List.mem_filter.1 hb).2]
  have hsub : l.filter (·.same p) <+ (l.mergeSort Path.le).filter (·.same p) := by
    have h := (List.sublist_mergeSort path_le_trans path_le_total hsorted List.filter_sublist).filter (·.same p)
    rwa [List.filter_filter, List.filter_congr fun a _ => Bool.and_self _] at h
  have hlength : (l.filter (·.same p)).length = ((l.mergeSort Path.le).filter (·.same p)).length :=
    ((List.mergeSort_perm l Path.le).symm.filter _).length_eq
  rw [← List.head?_filter, ← List.head?_filter, hsub.eq_of_length hlength]

/-- **A listing** is told by the first path of each kind. -/
theorem dropRepeats_mergeSort_congr (h : ∀ p, l.find? (·.same p) = some p ↔ l'.find? (·.same p) = some p) :
    dropRepeats (l.mergeSort Path.le) = dropRepeats (l'.mergeSort Path.le) := by
  have hsorted : ∀ l : List Path, (l.mergeSort Path.le).Pairwise fun a b => a.le b :=
    List.pairwise_mergeSort path_le_trans path_le_total
  have hirrefl : Std.Irrefl IsBefore := ⟨fun p hp => hp.2 (Path.same_iff.2 rfl)⟩
  have hantisymm : Std.Antisymm IsBefore := ⟨fun p q hpq hqp => absurd (Path.same_of_le hpq.1 hqp.1) hpq.2⟩
  refine (pairwise_dropRepeats (hsorted l)).eq_of_mem_iff (pairwise_dropRepeats (hsorted l')) fun p => ?_
  rw [mem_dropRepeats_iff (hsorted l), mem_dropRepeats_iff (hsorted l'), find?_mergeSort, find?_mergeSort, h]

end RuleWeaver.Staging
