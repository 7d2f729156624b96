import RuleWeaver.Proofs.Disk

/-!
# Files below a folder

`Disk.IsBelow` holds of the paths that names below a folder make.  Such paths lead to their place
(`Disk.IsBelow.locate_eq`), two of them lead to the same place just when they have the same parts
(`Disk.IsBelow.same_iff`), and a file beside one of them is one again (`Disk.IsBelow.beside`).
-/

namespace RuleWeaver.Disk

open RuleWeaver.Path (partsOf segments IsName)

variable {d : Disk} {place : Place} {root p q : Path} {n : Text} {names names' : List Text}

/-! ### Trees -/

/-- Whether every name on a place can be the name of a file, that of the root apart. -/
def IsProper (place : Place) : Prop := ∀ n ∈ if Disk.root.isPrefixOf place then place.drop 1 else place, IsName n

instance (place : Place) : Decidable (IsProper place) := inferInstanceAs (Decidable (∀ n ∈ _, IsName n))

/-- Whether a disk is a tree of files and folders: its names are names, and no file is a folder. -/
structure IsTree (d : Disk) : Prop where
  isProper : ∀ x ∈ d.places ++ d.folders, IsProper x
  isFile : ∀ x ∈ d.places, d.isFolder x = false

lemma IsTree.isName (hd : d.IsTree) (h : place ++ names ∈ d.places ++ d.folders) (hbelow : below place (place ++ names))
    (hn : n ∈ names) : IsName n := by
  have hproper := hd.isProper _ h
  unfold IsProper at hproper
  cases place with
  | nil =>
    have hroot : Disk.root.isPrefixOf ([] ++ names) = false := by simpa [below] using hbelow
    rw [if_neg (Bool.eq_false_iff.1 hroot)] at hproper
    exact hproper n hn
  | cons a place =>
    refine hproper n ?_
    split
    · exact List.mem_append_right _ hn
    · exact List.mem_append_right _ hn

lemma IsTree.isName_of_mem_names (hd : d.IsTree) (hn : n ∈ d.names place) : IsName n := by
  obtain ⟨x, hx, hbelow, hget⟩ := mem_names_iff.1 hn
  obtain ⟨rest, rfl⟩ := prefix_of_below hbelow
  rw [List.getElem?_append_right le_rfl, Nat.sub_self] at hget
  exact hd.isName hx hbelow (List.mem_of_getElem? hget)

lemma below_append_cons (hn : IsName n) (names : List Text) : below place (place ++ n :: names) := by
  cases place with
  | nil =>
    have hroot : n ≠ ['/'] := by
      rintro rfl
      exact hn.2 List.mem_cons_self
    simp [below, Disk.root, List.isPrefixOf, Ne.symm hroot]
  | cons a place => exact (below_iff (List.cons_ne_nil _ _)).2 (List.prefix_append _ _)

lemma mem_names_of_mem (hn : IsName n) (h : place ++ n :: names ∈ d.places ++ d.folders) : n ∈ d.names place :=
  mem_names_iff.2 ⟨_, h, below_append_cons hn names, by simp⟩

/-- A folder in a folder is listed there. -/
lemma mem_names_of_isFolder (hn : IsName n) (h : d.isFolder (place ++ [n])) : n ∈ d.names place := by
  rcases (isFolder_iff (List.append_ne_nil_of_right_ne_nil _ (List.cons_ne_nil _ _))).1 h with
    ⟨f, hf, rest, rfl⟩ | ⟨f, hf, ⟨rest, rfl⟩, -⟩
  · exact mem_names_of_mem hn (List.mem_append_right _ (List.append_assoc place [n] rest ▸ hf))
  · exact mem_names_of_mem hn (List.mem_append_left _ (List.append_assoc place [n] rest ▸ hf))

/-! ### Open folders -/

/-- Whether a path leads to a folder, through folders all the way. -/
structure IsOpen (d : Disk) (p : Path) : Prop where
  ne_nil : p ≠ []
  isFolder : ∀ a, a <+: p.parts → d.isFolder (placeOfParts a)

lemma IsOpen.isFolder_placeOf (h : d.IsOpen p) : d.isFolder (placeOf p) := placeOf_eq p ▸ h.isFolder _ List.prefix_rfl

lemma IsOpen.locate_eq (h : d.IsOpen p) : d.locate p = .ok (placeOf p) :=
  locate_eq_ok h.ne_nil (fun a ha _ => h.isFolder a ha) (.inl h.isFolder_placeOf)

lemma IsOpen.list_eq (h : d.IsOpen p) : d.list p = .ok (d.names (placeOf p)) := by
  rw [list, h.locate_eq]
  change (d.requireFolder _ >>= fun _ => _) = _
  rw [requireFolder_eq_ok_iff.2 h.isFolder_placeOf]
  rfl

lemma IsOpen.congr {d' : Disk} (hfolder : ∀ x, d'.isFolder x = d.isFolder x) (h : d.IsOpen p) : d'.IsOpen p :=
  ⟨h.ne_nil, fun a ha => hfolder _ ▸ h.isFolder a ha⟩

lemma isOpen_of_locate (h : d.locate p = .ok place) (hfolder : d.isFolder place) : d.IsOpen p ∧ place = placeOf p := by
  obtain ⟨hp, rfl, hall⟩ := isFolder_of_locate h
  refine ⟨⟨hp, fun a ha => ?_⟩, rfl⟩
  by_cases hne : a = p.parts
  · rw [hne, ← placeOf_eq]
    exact hfolder
  · exact hall a ha hne

/-! ### Paths below a folder -/

/-- Whether a path leads from a folder to a file through folders with some names. -/
structure IsBelow (d : Disk) (root p : Path) (names : List Text) : Prop where
  parts : p.parts = root.parts ++ names.map .name
  isName : ∀ n ∈ names, IsName n
  ne_nil : names ≠ []
  last : (segments p).getLast? = names.getLast?
  isFolder : d.isFolder (placeOf root ++ names.dropLast)

namespace IsBelow

lemma placeOf_eq (h : d.IsBelow root p names) : placeOf p = placeOf root ++ names := by
  rw [Disk.placeOf_eq, h.parts, placeOfParts_append, foldl_stepPart_names, ← Disk.placeOf_eq]

/-- **Paths below a folder** lead to the same place just when they have the same parts. -/
theorem same_iff (hp : d.IsBelow root p names) (hq : d.IsBelow root q names') : p.same q ↔ placeOf p = placeOf q := by
  rw [Path.same_iff, hp.placeOf_eq, hq.placeOf_eq, hp.parts, hq.parts, List.append_cancel_left_eq, List.append_cancel_left_eq]
  exact (List.map_injective_iff.2 fun _ _ => Path.Part.name.inj).eq_iff

lemma parts_parent (h : d.IsBelow root p names) : p.parent.parts = root.parts ++ names.dropLast.map .name := by
  rw [Path.parts_parent, h.parts, List.dropLast_append_of_ne_nil (by simpa using h.ne_nil), List.map_dropLast]

lemma placeOf_parent (h : d.IsBelow root p names) : placeOf p.parent = placeOf root ++ names.dropLast := by
  rw [Disk.placeOf_eq, h.parts_parent, placeOfParts_append, foldl_stepPart_names, ← Disk.placeOf_eq]

lemma isFolder_above {a : List Path.Part} (hroot : d.IsOpen root) (h : d.IsBelow root p names)
    (ha : a <+: root.parts ++ names.dropLast.map .name) : d.isFolder (placeOfParts a) := by
  obtain ⟨t, ht⟩ := ha
  rcases List.append_eq_append_iff.1 ht with ⟨b, hb, -⟩ | ⟨b, rfl, hb⟩
  · exact hroot.isFolder a ⟨b, hb.symm⟩
  · obtain ⟨u, v, huv, rfl, -⟩ := List.map_eq_append_iff.1 hb
    rw [placeOfParts_append, foldl_stepPart_names, ← Disk.placeOf_eq]
    exact Disk.isFolder_above h.isFolder ((List.prefix_append_right_inj _).2 ⟨v, huv.symm⟩)

lemma isOpen_parent (hroot : d.IsOpen root) (h : d.IsBelow root p names) : d.IsOpen p.parent := by
  refine ⟨fun hnil => ?_, fun a ha => isFolder_above hroot h (h.parts_parent ▸ ha)⟩
  have hparts := h.parts_parent
  rw [hnil] at hparts
  exact hroot.ne_nil (Path.parts_eq_nil_iff.1 (List.append_eq_nil_iff.1 hparts.symm).1)

lemma ne_nil_path (hroot : d.IsOpen root) (h : d.IsBelow root p names) : p ≠ [] := by
  intro hnil
  have hparts := h.parts
  rw [hnil] at hparts
  exact hroot.ne_nil (Path.parts_eq_nil_iff.1 (List.append_eq_nil_iff.1 hparts.symm).1)

/-- **A path below a folder** leads to its place. -/
theorem locate_eq (hroot : d.IsOpen root) (h : d.IsBelow root p names) : d.locate p = .ok (placeOf p) := by
  refine locate_eq_ok (h.ne_nil_path hroot) (fun a ha hne => isFolder_above hroot h ?_) (.inr fun s hs => ?_)
  · rw [h.parts, ← List.dropLast_append_getLast h.ne_nil, List.map_append, ← List.append_assoc] at ha hne
    exact (List.prefix_concat_iff.1 ha).resolve_left hne
  · rw [h.last] at hs
    have hname := (h.isName s (List.mem_of_getLast? hs)).1
    by_contra hidle
    rw [Path.part?_eq_none_iff.2 (by simpa using hidle)] at hname
    cases hname

/-- A file beside a path. -/
lemma beside (hroot : d.IsOpen root) (h : d.IsBelow root p names) (hn : IsName n) :
    d.IsBelow root (p.parent.join n) (names.dropLast ++ [n]) where
  parts := by
    rw [Path.parts_join (h.isOpen_parent hroot).ne_nil (Path.head?_ne_slash hn.2), h.parts_parent, Path.segments_of_notMem hn.2,
      Path.partsOf_cons, hn.1, List.map_append, List.append_assoc]
    rfl
  isName m hm := by
    rcases List.mem_append.1 hm with hm | hm
    · exact h.isName m (List.mem_of_mem_dropLast hm)
    · exact List.mem_singleton.1 hm ▸ hn
  ne_nil := List.append_ne_nil_of_right_ne_nil _ (List.cons_ne_nil _ _)
  last := by
    rw [Path.getLast?_segments_join, Path.segments_of_notMem hn.2, List.getLast?_concat]
    rfl
  isFolder := by
    rw [List.dropLast_concat]
    exact h.isFolder

/-- Beside a path there is a file, or a folder if the text there is no name. -/
lemma beside_cases (hroot : d.IsOpen root) (h : d.IsBelow root p names) (hn : '/' ∉ n) :
    (∃ names', d.IsBelow root (p.parent.join n) names') ∨ d.IsOpen (p.parent.join n) := by
  rcases Path.isName_or hn with hname | hpart
  · exact .inl ⟨_, h.beside hroot hname⟩
  have hparent := h.isOpen_parent hroot
  have hparts : (p.parent.join n).parts = p.parent.parts ++ (Path.part? n).toList := by
    rw [Path.parts_join hparent.ne_nil (Path.head?_ne_slash hn), Path.segments_of_notMem hn, Path.partsOf_cons,
      Path.partsOf_nil, List.append_nil]
  refine .inr ⟨fun hnil => ?_, fun a ha => ?_⟩
  · rw [hnil] at hparts
    exact hparent.ne_nil (Path.parts_eq_nil_iff.1 (List.append_eq_nil_iff.1 hparts.symm).1)
  rw [hparts] at ha
  rcases hpart with hpart | hpart <;> rw [hpart] at ha
  · exact hparent.isFolder a (by simpa using ha)
  rcases List.prefix_concat_iff.1 ha with rfl | ha
  · -- The text is `..`, which leads up.
    rw [placeOfParts_append, ← Disk.placeOf_eq, List.foldl_cons, List.foldl_nil, stepPart]
    split
    · exact hparent.isFolder_placeOf
    · exact Disk.isFolder_above hparent.isFolder_placeOf (List.dropLast_prefix _)
  · exact hparent.isFolder a ha

end IsBelow

/-- The paths that names make from a folder. -/
lemma isBelow_join (hroot : d.IsOpen root) (hname : ∀ n ∈ names, IsName n) (hne : names ≠ [])
    (hfolder : d.isFolder (placeOf root ++ names.dropLast)) : d.IsBelow root (root.join (Text.join ['/'] names)) names where
  parts := Path.parts_join_names hroot.ne_nil hname
  isName := hname
  ne_nil := hne
  last := by
    rw [Path.getLast?_segments_join, Path.segments_join hne fun n hn => (hname n hn).2]
  isFolder := hfolder

end RuleWeaver.Disk
