import RuleWeaver.Proofs.Below
import RuleWeaver.Proofs.Outcomes
import RuleWeaver.Staging

/-!
# What writing leaves alone

A text that is written goes to the place of its path, and the folders on the way are made.  Everything else stays:
`Disk.WritesOnly` says so of disks and `Staging.WritesOnly` of staging areas, for any number of texts
(`Staging.writesOnly_commitAll`).  So a file at another place is read as before (`Staging.WritesOnly.read_eq`).
-/

namespace RuleWeaver

namespace Disk

open RuleWeaver.Path (segments IsName)

variable {d d' d'' : Disk} {place x y : Place} {places others : List Place} {p : Path} {text : Text} {s : List Text} {c : Contents}
  {n : Text}

/-! ### Proper places -/

lemma isProper_nil : IsProper [] := fun _ hn => nomatch hn

lemma isProper_cons : IsProper (n :: place) ↔ (n = ['/'] ∨ IsName n) ∧ ∀ m ∈ place, IsName m := by
  unfold IsProper
  by_cases hn : n = ['/']
  · have hroot : root.isPrefixOf (n :: place) := by simp [root, List.isPrefixOf, hn]
    rw [if_pos hroot]
    exact (and_iff_right (.inl hn)).symm
  · have hroot : ¬ root.isPrefixOf (n :: place) := by simp [root, List.isPrefixOf, Ne.symm hn]
    rw [if_neg hroot, List.forall_mem_cons, or_iff_right hn]

lemma IsProper.of_prefix (h : IsProper y) (hx : x <+: y) : IsProper x := by
  obtain ⟨rest, rfl⟩ := hx
  cases x with
  | nil => exact isProper_nil
  | cons a x =>
    obtain ⟨ha, hrest⟩ := isProper_cons.1 h
    exact isProper_cons.2 ⟨ha, fun n hn => hrest n (List.mem_append_left _ hn)⟩

lemma IsProper.concat (h : IsProper place) (hn : IsName n) : IsProper (place ++ [n]) := by
  cases place with
  | nil => exact isProper_cons.2 ⟨.inr hn, fun _ hm => nomatch hm⟩
  | cons a place =>
    obtain ⟨ha, hplace⟩ := isProper_cons.1 h
    exact isProper_cons.2 ⟨ha, List.forall_mem_append.2 ⟨hplace, List.forall_mem_singleton.2 hn⟩⟩

/-- A segment leads into a folder, or to where the way led already. -/
lemma step_cases (place : Place) (hn : '/' ∉ n) : (IsName n ∧ step place n = place ++ [n]) ∨ step place n <+: place := by
  rcases Path.isName_or hn with hname | hpart
  · exact .inl ⟨hname, step_of_isName place hname⟩
  have hstep : step place n = (Path.part? n).toList.foldl stepPart place := by
    refine (foldl_step [n] place).trans ?_
    rw [Path.partsOf_cons, Path.partsOf_nil, List.append_nil]
  refine .inr ?_
  rw [hstep]
  rcases hpart with hpart | hpart <;> rw [hpart]
  · exact List.prefix_rfl
  · change (if place = root then place else place.dropLast) <+: place
    split
    · exact List.prefix_rfl
    · exact List.dropLast_prefix _

lemma IsProper.step (h : IsProper place) (hn : '/' ∉ n) : IsProper (step place n) := by
  rcases step_cases place hn with ⟨hname, hstep⟩ | hprefix
  · exact hstep ▸ h.concat hname
  · exact h.of_prefix hprefix

/-- Where a path starts, with nothing but texts without separators to follow. -/
lemma isProper_start (p : Path) : IsProper (start p).1 ∧ ∀ s ∈ (start p).2, '/' ∉ s := by
  refine ⟨?_, fun s hs => Path.notMem_of_mem_segments ((start_suffix p).1.subset hs)⟩
  unfold start
  split
  · exact isProper_cons.2 ⟨.inl rfl, fun _ hn => nomatch hn⟩
  · exact isProper_nil

/-- **The place of a path** is proper. -/
theorem isProper_placeOf (p : Path) : IsProper (placeOf p) := by
  have hfold : ∀ s : List Text, (∀ n ∈ s, '/' ∉ n) → ∀ place, IsProper place → IsProper (s.foldl Disk.step place) := by
    intro s hs
    induction s with
    | nil => exact fun place h => h
    | cons n s ih =>
      obtain ⟨hn, hs⟩ := List.forall_mem_cons.1 hs
      exact fun place h => ih hs _ (h.step hn)
  exact hfold _ (isProper_start p).2 _ (isProper_start p).1

/-! ### Trees that hold one file at each place -/

/-- Whether a disk is a tree that holds one file at each place. -/
structure IsExactTree (d : Disk) : Prop extends IsTree d where
  nodup : d.places.Nodup

lemma isFolder_addFolder : (d.addFolder y).isFolder x ↔ d.isFolder x ∨ x <+: y := by
  by_cases hx : x = []
  · subst hx
    exact iff_of_true rfl (.inl rfl)
  have hplaces : (d.addFolder y).places = d.places := rfl
  rw [isFolder_iff hx, isFolder_iff hx, hplaces]
  simp only [addFolder, List.mem_append, List.mem_singleton, or_and_right, exists_or, exists_eq_left]
  exact or_right_comm

lemma IsExactTree.addFolder (hd : d.IsExactTree) (hproper : IsProper y) (hfile : y ∉ d.places)
    (habove : ∀ x, x <+: y → x = y ∨ d.isFolder x) : (d.addFolder y).IsExactTree where
  isProper x hx := by
    rcases List.mem_append.1 hx with hx | hx
    · exact hd.isProper x (List.mem_append_left _ hx)
    · rcases List.mem_append.1 hx with hx | hx
      · exact hd.isProper x (List.mem_append_right _ hx)
      · exact List.mem_singleton.1 hx ▸ hproper
  isFile x hx := by
    replace hx : x ∈ d.places := hx
    have hnot := hd.isFile x hx
    refine Bool.eq_false_iff.2 fun hfolder => ?_
    rcases isFolder_addFolder.1 hfolder with hfolder | hprefix
    · exact Bool.eq_false_iff.1 hnot hfolder
    rcases habove x hprefix with rfl | hfolder
    · exact hfile hx
    · exact Bool.eq_false_iff.1 hnot hfolder
  nodup := hd.nodup

lemma IsExactTree.put (hd : d.IsExactTree) (hproper : IsProper place) (hne : place ≠ []) (habove : d.isFolder place.dropLast)
    (hfolder : d.isFolder place = false) : (d.put place c).IsExactTree where
  isProper x hx := by
    rw [List.mem_append, mem_places_put, put_folders, or_right_comm, ← List.mem_append] at hx
    rcases hx with hx | rfl
    · exact hd.isProper x hx
    · exact hproper
  isFile x hx := by
    rw [isFolder_put habove hne]
    rcases mem_places_put.1 hx with hx | rfl
    · exact hd.isFile x hx
    · exact hfolder
  nodup := by
    rw [places_put]
    split
    · exact hd.nodup
    · next hnew =>
      refine List.nodup_append.2 ⟨hd.nodup, List.pairwise_singleton _ _, fun a ha b hb e => hnew ?_⟩
      rwa [← List.mem_singleton.1 hb, ← e]

/-! ### Writing -/

/-- Whether a disk comes from another by writing files to some places only, and making folders. -/
structure WritesOnly (places : List Place) (d d' : Disk) : Prop where
  isExactTree : d.IsExactTree → d'.IsExactTree
  isFolder : ∀ x, d.isFolder x → d'.isFolder x
  file? : ∀ x ∉ places, d'.file? x = d.file? x

namespace WritesOnly

lemma refl (places : List Place) (d : Disk) : WritesOnly places d d := ⟨id, fun _ => id, fun _ _ => rfl⟩

lemma trans (h : WritesOnly places d d') (h' : WritesOnly others d' d'') : WritesOnly (places ++ others) d d'' where
  isExactTree hd := h'.isExactTree (h.isExactTree hd)
  isFolder x hx := h'.isFolder x (h.isFolder x hx)
  file? x hx := by
    rw [List.mem_append, not_or] at hx
    rw [h'.file? x hx.2, h.file? x hx.1]

lemma mono (hsub : places ⊆ others) (h : WritesOnly places d d') : WritesOnly others d d' :=
  ⟨h.isExactTree, h.isFolder, fun x hx => h.file? x fun hmem => hx (hsub hmem)⟩

end WritesOnly

/-- Folders that are made stand where nothing stood. -/
lemma writesOnly_makeFolders (hplace : IsProper place) (hs : ∀ n ∈ s, '/' ∉ n) (h : d.makeFolders place s = .ok d') :
    WritesOnly [] d d' := by
  induction s generalizing d place with
  | nil =>
    cases h
    exact .refl _ _
  | cons n s ih =>
    obtain ⟨hn, hs⟩ := List.forall_mem_cons.1 hs
    obtain ⟨_, hrequire, h⟩ := exists_of_bind_eq_ok h
    have hfolder := requireFolder_eq_ok_iff.1 hrequire
    dsimp only at h
    cases hfile : d.file? (step place n) with
    | some c =>
      rw [hfile] at h
      cases s <;> cases h
    | none =>
      rw [hfile] at h
      change (if d.isFolder (step place n) then d else d.addFolder (step place n)).makeFolders (step place n) s = .ok d' at h
      split at h
      · exact ih (hplace.step hn) hs h
      · have hadd : WritesOnly [] d (d.addFolder (step place n)) := by
          refine ⟨fun hd => ?_, fun x hx => isFolder_addFolder.2 (.inl hx), fun _ _ => rfl⟩
          refine hd.addFolder (hplace.step hn) (fun hmem => ?_) fun x hx => ?_
          · rw [← isSome_file?_iff, hfile] at hmem
            cases hmem
          · rcases step_cases place hn with ⟨-, hstep⟩ | hprefix
            · rw [hstep, List.prefix_concat_iff] at hx
              rw [hstep]
              exact hx.imp_right (isFolder_above hfolder)
            · exact .inr (isFolder_above hfolder (hx.trans hprefix))
        exact hadd.trans (ih (hplace.step hn) hs h)

/-- A text that is written is put at the place of its path. -/
lemma exists_of_write (h : d.write p text = .ok d') : d' = d.put (placeOf p) (.text text) ∧ placeOf p ≠ [] ∧
    d.isFolder (placeOf p).dropLast ∧ d.isFolder (placeOf p) = false := by
  rw [write] at h
  by_cases hp : p = []
  · rw [if_pos hp] at h
    cases h
  rw [if_neg hp] at h
  obtain ⟨folder, hfollow, h⟩ := exists_of_bind_eq_ok h
  obtain ⟨_, hrequire, h⟩ := exists_of_bind_eq_ok h
  split at h
  · next name hlast =>
    split at h
    · cases h
    · next hfolder =>
      cases h
      obtain ⟨last, hlast, hpart⟩ := Option.bind_eq_some_iff.1 hlast
      have hplace : placeOf p = folder ++ [name] := by
        obtain ⟨ahead, hahead⟩ := List.getLast?_eq_some_iff.1 hlast
        change (start p).2 = _ at hahead
        change (start p).2.foldl step (start p).1 = _
        change d.follow (start p).1 (start p).2.dropLast = _ at hfollow
        rw [hahead, List.dropLast_concat] at hfollow
        obtain ⟨rfl, -⟩ := follow_eq_ok_iff.1 hfollow
        rw [hahead, List.foldl_append, foldl_step [last], Path.partsOf_cons, hpart]
        rfl
      rw [hplace, List.dropLast_concat]
      exact ⟨rfl, List.append_ne_nil_of_right_ne_nil _ (List.cons_ne_nil _ _), requireFolder_eq_ok_iff.1 hrequire,
        Bool.eq_false_iff.2 hfolder⟩
  · cases h

lemma writesOnly_write (h : d.write p text = .ok d') : WritesOnly [placeOf p] d d' := by
  obtain ⟨rfl, hne, habove, hfolder⟩ := exists_of_write h
  refine ⟨fun hd => hd.put (isProper_placeOf p) hne habove hfolder, fun x hx => (isFolder_put habove hne).trans hx, fun x hx => ?_⟩
  rw [file?_put, if_neg fun e => hx (List.mem_singleton.2 e)]

/-- A file at another place is read as before. -/
lemma WritesOnly.read_eq (h : WritesOnly places d d') (hlocate : d.locate p = .ok (placeOf p)) (hfile : placeOf p ∈ d.places)
    (hp : placeOf p ∉ places) : d'.read p = d.read p := by
  obtain ⟨c, hc⟩ := Option.isSome_iff_exists.1 (isSome_file?_iff.2 hfile)
  rw [Disk.read_eq (locate_mono h.isFolder hlocate), Disk.read_eq hlocate, h.file? _ hp, hc]
  cases c <;> rfl

end Disk

namespace Staging

open Disk (placeOf)

variable {d d' : Disk} {w w' w'' : Staging} {p q : Path} {text : Text} {texts : List (Path × Text)} {places others : List Place}
  {write : Write}

lemma writesOnly_store (h : store d p text = .ok d') : d.WritesOnly [placeOf p] d' := by
  unfold store at h
  dsimp only at h
  split at h
  · exact Disk.writesOnly_write (ok_of_mapError_eq_ok h)
  · obtain ⟨d₁, hfolders, h⟩ := exists_of_bind_eq_ok h
    have hstart := Disk.isProper_start p.parent
    exact (Disk.writesOnly_makeFolders hstart.1 hstart.2 (ok_of_mapError_eq_ok hfolders)).trans
      (Disk.writesOnly_write (ok_of_mapError_eq_ok h))

lemma placeOf_eq_of_same (h : p.same q) : placeOf p = placeOf q := by
  rw [Disk.placeOf_eq, Disk.placeOf_eq, Path.same_iff.1 h]

/-- A text that is remembered stands for its own path alone. -/
lemma committed?_remember (h : ¬ p.same q) : (w.remember p text).committed? q = w.committed? q := by
  unfold remember
  split
  · have hkey : ∀ e : Path × Text, (if e.1.same p then (e.1, text) else e).1 = e.1 := fun e => by split <;> rfl
    unfold committed?
    simp only [List.find?_map, Function.comp_def, hkey, Option.map_map]
    cases hfind : w.texts.find? fun e => e.1.same q with
    | none => rfl
    | some e =>
      have hsame := List.find?_some hfind
      have hne : ¬ e.1.same p := fun hp => h (Path.same_iff.2 ((Path.same_iff.1 hp).symm.trans (Path.same_iff.1 hsame)))
      simp [hne]
  · unfold committed?
    rw [List.find?_append]
    cases w.texts.find? fun e => e.1.same q with
    | none => simp [h]
    | some e => rfl

/-- Whether a staging area comes from another by committing to some places only. -/
structure WritesOnly (places : List Place) (w w' : Staging) : Prop where
  disk : w.disk.WritesOnly places w'.disk
  committed? : ∀ p, placeOf p ∉ places → w'.committed? p = w.committed? p

namespace WritesOnly

lemma refl (places : List Place) (w : Staging) : WritesOnly places w w := ⟨.refl _ _, fun _ _ => rfl⟩

lemma trans (h : WritesOnly places w w') (h' : WritesOnly others w' w'') : WritesOnly (places ++ others) w w'' where
  disk := h.disk.trans h'.disk
  committed? p hp := by
    rw [List.mem_append, not_or] at hp
    rw [h'.committed? p hp.2, h.committed? p hp.1]

lemma mono (hsub : places ⊆ others) (h : WritesOnly places w w') : WritesOnly others w w' :=
  ⟨h.disk.mono hsub, fun p hp => h.committed? p fun hmem => hp (hsub hmem)⟩

/-- **A file at another place** is read as before. -/
theorem read_eq (h : WritesOnly places w w') (hlocate : w.disk.locate p = .ok (placeOf p)) (hfile : placeOf p ∈ w.disk.places)
    (hp : placeOf p ∉ places) : w'.read p = w.read p := by
  unfold read
  rw [h.committed? p hp, h.disk.read_eq hlocate hfile hp]

end WritesOnly

lemma writesOnly_commit (h : w.commit p text = .ok (write, w')) : WritesOnly [placeOf p] w w' := by
  have hsame : ∀ q, placeOf q ∉ [placeOf p] → ¬ p.same q := fun q hq hsame =>
    hq (List.mem_singleton.2 (placeOf_eq_of_same hsame).symm)
  unfold commit at h
  split at h
  · cases h
    exact ⟨remember_disk w p text ▸ .refl _ _, fun q hq => committed?_remember (hsame q hq)⟩
  · obtain ⟨disk, hstore, e⟩ := exists_of_map_eq_ok h
    obtain rfl := (Prod.mk.inj e).2
    refine ⟨?_, fun q hq => committed?_remember (hsame q hq)⟩
    rw [remember_disk]
    exact writesOnly_store hstore

/-- **Committing texts** writes to their places only. -/
theorem writesOnly_commitAll (w : Staging) (texts : List (Path × Text)) :
    WritesOnly (texts.map fun e => placeOf e.1) w (w.commitAll texts).2 := by
  induction texts generalizing w with
  | nil => exact .refl _ _
  | cons e texts ih =>
    obtain ⟨p, text⟩ := e
    unfold commitAll
    split
    · exact .refl _ _
    · next write w₁ hcommit => exact (writesOnly_commit hcommit).trans (ih w₁)

end Staging

end RuleWeaver
