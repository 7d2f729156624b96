import RuleWeaver.Generator.Basic
import RuleWeaver.Proofs.Below
import RuleWeaver.Proofs.Outcomes

/-!
# What is discovered

The types files that are discovered are files below the root, each under a path that leads to its place
(`Generator.isBelow_of_discover`), and no two of them stand at the same place (`Generator.nodup_of_discover`).
-/

namespace RuleWeaver

open Disk (placeOf)

namespace Search

variable {s : Search} {d : Disk} {place : Place} {f : FoundFile}

/-- What is found at the place of a file. -/
def entry? (s : Search) (d : Disk) (root place : Place) : Option FoundFile :=
  let names := place.drop root.length
  let relative := Text.join ['/'] names
  if Disk.below root place && s.suffix.isSuffixOf (names.getLast?.getD []) && s.filter.all (Glob.accepts · relative) &&
      isVisible d s.gitignore root place
  then some ⟨s.root.join relative, relative⟩ else none

lemma files_eq (s : Search) (d : Disk) (root : Place) :
    s.files d root = (d.files.filterMap fun e => s.entry? d root e.1).mergeSort fun a b => Path.le a.path b.path := rfl

/-- Whether a path was found for a file: it leads through the names behind the root, of which the last has the suffix. -/
structure IsFound (s : Search) (d : Disk) (path : Path) (names : List Text) : Prop extends d.IsBelow s.root path names where
  mem_places : placeOf path ∈ d.places
  suffix : s.suffix <:+ names.getLast?.getD []

lemma isFound_of_entry? (hd : d.IsTree) (hroot : d.IsOpen s.root) (hplace : place ∈ d.places)
    (h : s.entry? d (placeOf s.root) place = some f) : ∃ names, s.IsFound d f.path names ∧ placeOf f.path = place := by
  unfold entry? at h
  dsimp only at h
  split at h
  · next hfound =>
    obtain rfl := Option.some.inj h
    simp only [Bool.and_eq_true] at hfound
    obtain ⟨⟨⟨hbelow, hsuffix⟩, -⟩, -⟩ := hfound
    obtain ⟨names, rfl⟩ := Disk.prefix_of_below hbelow
    rw [List.drop_left] at hsuffix ⊢
    have hne : names ≠ [] := by
      rintro rfl
      rw [List.append_nil] at hplace
      have hfolder := hroot.isFolder_placeOf
      rw [hd.isFile _ hplace] at hfolder
      cases hfolder
    have hfolder : d.isFolder (placeOf s.root ++ names.dropLast) := by
      refine Disk.isFolder_of_mem_places hplace ((List.prefix_append_right_inj _).2 (List.dropLast_prefix _)) fun e => ?_
      have hlength := congrArg List.length (List.append_cancel_left e)
      rw [List.length_dropLast] at hlength
      have := List.length_pos_of_ne_nil hne
      omega
    have hisBelow := Disk.isBelow_join hroot (fun n hn => hd.isName (List.mem_append_left _ hplace) hbelow hn) hne hfolder
    exact ⟨names, ⟨hisBelow, hisBelow.placeOf_eq ▸ hplace, List.isSuffixOf_iff_suffix.1 hsuffix⟩, hisBelow.placeOf_eq⟩
  · cases h

lemma exists_isFound (hd : d.IsTree) (hroot : d.IsOpen s.root) (h : f ∈ s.files d (placeOf s.root)) :
    ∃ names, s.IsFound d f.path names := by
  rw [files_eq, List.mem_mergeSort, List.mem_filterMap] at h
  obtain ⟨e, he, hentry⟩ := h
  obtain ⟨names, hfound, -⟩ := isFound_of_entry? hd hroot (List.mem_map_of_mem he) hentry
  exact ⟨names, hfound⟩

/-- Every place is found once. -/
lemma nodup_files (hd : d.IsTree) (hnodup : d.places.Nodup) (hroot : d.IsOpen s.root) :
    ((s.files d (placeOf s.root)).map fun f => placeOf f.path).Nodup := by
  have hsublist : ∀ entries : List (Place × Contents), (∀ e ∈ entries, e.1 ∈ d.places) →
      ((entries.filterMap fun e => s.entry? d (placeOf s.root) e.1).map fun f => placeOf f.path).Sublist (entries.map (·.1)) := by
    intro entries hentries
    induction entries with
    | nil => exact .slnil
    | cons e entries ih =>
      obtain ⟨he, hentries⟩ := List.forall_mem_cons.1 hentries
      rw [List.filterMap_cons]
      cases hentry : s.entry? d (placeOf s.root) e.1 with
      | none => exact (ih hentries).cons _
      | some f =>
        obtain ⟨-, -, hplace⟩ := isFound_of_entry? hd hroot he hentry
        rw [List.map_cons, hplace]
        exact (ih hentries).cons_cons _
  rw [files_eq, ((List.mergeSort_perm _ _).map _).nodup_iff]
  exact hnodup.sublist (hsublist d.files fun e he => List.mem_map_of_mem he)

end Search

namespace Generator

variable {g : Generator} {d : Disk} {root : Path} {filter : Option Text} {files : List FoundFile}

/-- A discovery that succeeds lists what a search finds below a folder. -/
lemma exists_search_of_discover (h : g.discover d root filter = .ok files) : ∃ s : Search,
    s.root = root ∧ s.suffix = g.config.naming.typesFileSuffix ∧ d.IsOpen root ∧ files = s.files d (placeOf root) := by
  obtain ⟨pattern, -, h⟩ := exists_of_bind_eq_ok h
  refine ⟨⟨root, g.config.naming.typesFileSuffix, g.config.respectGitignore, pattern⟩, rfl, rfl, ?_⟩
  unfold Search.runAllowingNone at h
  dsimp only at h
  split at h
  · next place hlocate =>
    split at h
    · next hfolder =>
      obtain ⟨hroot, rfl⟩ := Disk.isOpen_of_locate hlocate hfolder
      exact ⟨hroot, (Except.ok.inj h).symm⟩
    · cases h
  · cases h

/-- What is found in the order of the paths is discovered. -/
lemma discover_eq_ok {place : Place} (hlocate : d.locate root = .ok place) (hfolder : d.isFolder place)
    (hfound : (d.files.filterMap fun e =>
      Search.entry? ⟨root, g.config.naming.typesFileSuffix, g.config.respectGitignore, none⟩ d place e.1) = files)
    (hsorted : files.Pairwise fun a b => Path.le a.path b.path) : g.discover d root none = .ok files := by
  change Search.runAllowingNone ⟨root, g.config.naming.typesFileSuffix, g.config.respectGitignore, none⟩ d = _
  rw [Search.runAllowingNone]
  simp only [hlocate, hfolder, if_true, Search.files_eq, hfound]
  exact congrArg Except.ok (List.mergeSort_of_pairwise hsorted)

/-- The types files that are found stand below the folder that is searched. -/
lemma isBelow_of_discover (hd : d.IsTree) (h : g.discover d root filter = .ok files) :
    d.IsOpen root ∧ ∀ f ∈ files, ∃ names, d.IsBelow root f.path names := by
  obtain ⟨s, rfl, -, hroot, rfl⟩ := exists_search_of_discover h
  refine ⟨hroot, fun f hf => ?_⟩
  obtain ⟨names, hfound⟩ := Search.exists_isFound hd hroot hf
  exact ⟨names, hfound.toIsBelow⟩

/-- No two types files that are found stand at the same place. -/
lemma nodup_of_discover (hd : d.IsTree) (hnodup : d.places.Nodup) (h : g.discover d root filter = .ok files) :
    (files.map fun f => placeOf f.path).Nodup := by
  obtain ⟨s, rfl, -, hroot, rfl⟩ := exists_search_of_discover h
  exact Search.nodup_files hd hnodup hroot

end Generator

end RuleWeaver
