import RuleWeaver.Disk
import RuleWeaver.Proofs.Path

/-!
# Where paths lead

The place of a path is found part by part (`Disk.placeOf_eq`), and a path can be followed when every place on the way is a folder
(`Disk.locate_eq_ok`).  A file that is put into a folder makes no new folders (`Disk.isFolder_put`), so it changes what is
read at its own place alone.
-/

namespace RuleWeaver

namespace Disk

open RuleWeaver.Path (partsOf segments IsName)

variable {d : Disk} {place folder x : Place} {p : Path} {s : List Text} {c : Contents} {n : Text} {texts : List (Path × Text)}

/-! ### Places -/

/-- Where a part of a path leads to from a folder. -/
def stepPart (place : Place) : Path.Part → Place
  | .root => root
  | .here => place
  | .up => if place = root then place else place.dropLast
  | .name s => place ++ [s]

def placeOfParts (parts : List Path.Part) : Place := parts.foldl stepPart []

lemma placeOfParts_append (a b : List Path.Part) : placeOfParts (a ++ b) = b.foldl stepPart (placeOfParts a) :=
  List.foldl_append

lemma foldl_step (s : List Text) (place : Place) : s.foldl step place = (partsOf s).foldl stepPart place := by
  induction s generalizing place with
  | nil => rfl
  | cons segment s ih =>
    rw [List.foldl_cons, ih, Path.partsOf_cons, List.foldl_append]
    congr 1
    unfold step Path.part?
    split
    · rfl
    · split <;> rfl

lemma step_of_isName (place : Place) (hn : IsName n) : step place n = place ++ [n] := by
  have h := foldl_step [n] place
  rw [Path.partsOf_cons, hn.1] at h
  exact h

lemma foldl_stepPart_names (place : Place) (names : List Text) :
    (names.map Path.Part.name).foldl stepPart place = place ++ names := by
  induction names generalizing place with
  | nil => rw [List.map_nil, List.foldl_nil, List.append_nil]
  | cons n names ih => rw [List.map_cons, List.foldl_cons, ih, stepPart, List.append_assoc, List.singleton_append]

/-- The segments that are followed are the last ones. -/
lemma start_suffix (p : Path) : (start p).2 <:+ segments p ∧ (start p).2 ≠ [] := by
  unfold start
  split
  · next h => exact ⟨h ▸ List.suffix_cons _ _, List.cons_ne_nil _ _⟩
  · exact ⟨List.suffix_rfl, Text.split_ne_nil⟩

/-- The parts of the beginning of a path, with those of the segments to follow. -/
lemma parts_eq_append (p : Path) : ∃ lead, p.parts = lead ++ partsOf (start p).2 ∧ placeOfParts lead = (start p).1 ∧
    ∀ a, a <+: lead → a = [] ∨ a = lead := by
  unfold start
  split
  · next second rest h =>
    refine ⟨[.root], ?_, rfl, fun a ha => ?_⟩
    · rw [Path.parts, h]
      rfl
    · obtain rfl | ⟨b, rfl, hb⟩ := List.prefix_cons_iff.1 ha
      · exact .inl rfl
      · exact .inr (congrArg _ (List.prefix_nil.1 hb))
  · next hnot =>
    obtain ⟨first, rest, h⟩ : ∃ first rest, segments p = first :: rest := List.exists_cons_of_ne_nil Text.split_ne_nil
    rw [Path.parts, h]
    simp only
    split
    · next hfirst =>
      have hrest : rest = [] := by
        cases rest with
        | nil => rfl
        | cons second rest => exact absurd h (hfirst ▸ hnot second rest)
      subst hfirst hrest
      exact ⟨[], rfl, rfl, fun a ha => .inl (List.prefix_nil.1 ha)⟩
    split
    · next hdot =>
      refine ⟨[.here], ?_, rfl, fun a ha => ?_⟩
      · rw [hdot]
        rfl
      · obtain rfl | ⟨b, rfl, hb⟩ := List.prefix_cons_iff.1 ha
        · exact .inl rfl
        · exact .inr (congrArg _ (List.prefix_nil.1 hb))
    · exact ⟨[], (Path.partsOf_cons _ _).symm, rfl, fun a ha => .inl (List.prefix_nil.1 ha)⟩

/-- **The place of a path** is found part by part. -/
theorem placeOf_eq (p : Path) : placeOf p = placeOfParts p.parts := by
  obtain ⟨lead, hparts, hlead, -⟩ := parts_eq_append p
  rw [hparts, placeOfParts_append, hlead, ← foldl_step]
  rfl

lemma getLast?_placeOf (h : p.fileName? = some n) : (placeOf p).getLast? = some n := by
  unfold Path.fileName? at h
  split at h
  · next m hlast =>
    obtain rfl := Option.some.inj h
    obtain ⟨ahead, hahead⟩ := List.getLast?_eq_some_iff.1 hlast
    rw [placeOf_eq, hahead, placeOfParts_append]
    exact List.getLast?_concat
  · cases h

/-! ### Following a path -/

lemma requireFolder_eq_ok_iff : d.requireFolder place = .ok () ↔ d.isFolder place := by
  unfold requireFolder
  split
  · next h => exact iff_of_true rfl h
  · next h =>
    refine iff_of_false ?_ h
    split <;> exact fun h => nomatch h

/-- Segments can be followed when every place on the way is a folder. -/
lemma follow_eq_ok_iff : d.follow place s = .ok x ↔
    x = s.foldl step place ∧ ∀ a, a <+: s → a ≠ s → d.isFolder (a.foldl step place) := by
  induction s generalizing place with
  | nil =>
    refine ⟨fun h => ⟨(Except.ok.inj h).symm, fun a ha hne => absurd (List.prefix_nil.1 ha) hne⟩, fun h => ?_⟩
    rw [h.1]
    rfl
  | cons segment s ih =>
    have hstep : d.follow place (segment :: s) = .ok x ↔ d.isFolder place ∧ d.follow (step place segment) s = .ok x := by
      rw [follow, ← requireFolder_eq_ok_iff]
      cases h : d.requireFolder place with
      | error e => exact iff_of_false (fun h => nomatch h) fun h => nomatch h.1
      | ok => exact (and_iff_right rfl).symm
    rw [hstep, ih]
    constructor
    · rintro ⟨hfolder, rfl, hall⟩
      refine ⟨rfl, fun a ha hne => ?_⟩
      rcases List.prefix_cons_iff.1 ha with rfl | ⟨b, rfl, hb⟩
      · exact hfolder
      · exact hall b hb fun e => hne (e ▸ rfl)
    · rintro ⟨rfl, hall⟩
      refine ⟨hall [] List.nil_prefix (List.cons_ne_nil _ _).symm, rfl, fun a ha hne => ?_⟩
      exact hall (segment :: a) (List.prefix_cons_inj _ |>.2 ha) fun e => hne (List.cons.inj e).2

/-- A path that can be followed goes through folders. -/
lemma isFolder_of_locate (h : d.locate p = .ok place) : p ≠ [] ∧ place = placeOf p ∧
    ∀ a, a <+: p.parts → a ≠ p.parts → d.isFolder (placeOfParts a) := by
  unfold locate at h
  split at h
  · cases h
  · next hp =>
    obtain ⟨rfl, hall⟩ := follow_eq_ok_iff.1 h
    refine ⟨hp, rfl, fun a ha hne => ?_⟩
    obtain ⟨lead, hparts, hlead, hshort⟩ := parts_eq_append p
    have hbehind : ∀ b, b <+: partsOf (start p).2 → b ≠ partsOf (start p).2 → d.isFolder (placeOfParts (lead ++ b)) := by
      rintro b ⟨t, ht⟩ hne
      obtain ⟨u, v, huv, rfl, rfl⟩ := List.filterMap_eq_append_iff.1 ht.symm
      rw [placeOfParts_append, hlead]
      refine (foldl_step u (start p).1).symm ▸ hall u ⟨v, huv.symm⟩ fun e => hne ?_
      rw [e]
      rfl
    rw [hparts] at ha hne
    obtain ⟨t, ht⟩ := ha
    rcases List.append_eq_append_iff.1 ht with ⟨b, hb, -⟩ | ⟨b, rfl, hb⟩
    · rcases hshort a ⟨b, hb.symm⟩ with rfl | rfl
      · rfl
      · refine (List.append_nil a).symm ▸ hbehind [] List.nil_prefix fun e => hne (e ▸ (List.append_nil a).symm)
    · exact hbehind b ⟨t, hb.symm⟩ fun e => hne (e ▸ rfl)

/-- A path can be followed when the places on the way are folders. -/
lemma locate_eq_ok (hp : p ≠ []) (hall : ∀ a, a <+: p.parts → a ≠ p.parts → d.isFolder (placeOfParts a))
    (hend : d.isFolder (placeOf p) ∨ ∀ segment ∈ (segments p).getLast?, Path.isIdle segment = false) :
    d.locate p = .ok (placeOf p) := by
  obtain ⟨lead, hparts, hlead, -⟩ := parts_eq_append p
  rw [locate, if_neg hp]
  change d.follow (start p).1 (start p).2 = _
  refine follow_eq_ok_iff.2 ⟨rfl, fun a ⟨b, hab⟩ hne => ?_⟩
  rw [foldl_step, ← hlead, ← placeOfParts_append]
  by_cases hidle : partsOf b = []
  · have hplace : lead ++ partsOf a = p.parts := by rw [hparts, ← hab, Path.partsOf_append, hidle, List.append_nil]
    rw [hplace, ← placeOf_eq]
    refine hend.resolve_right fun hlast => ?_
    have hb : b ≠ [] := by
      rintro rfl
      exact hne (by rw [← hab, List.append_nil])
    have hmem : b.getLast hb ∈ (segments p).getLast? := by
      obtain ⟨t, ht⟩ := (start_suffix p).1
      rw [← ht, ← hab, ← List.append_assoc, List.getLast?_append_of_ne_nil _ hb]
      exact List.getLast?_eq_some_getLast hb
    have := Path.part?_eq_none_iff.1 (List.filterMap_eq_nil_iff.1 hidle _ (List.getLast_mem hb))
    rw [hlast _ hmem] at this
    cases this
  · refine hall _ ?_ fun e => hidle ?_
    · rw [hparts, ← hab, Path.partsOf_append]
      exact (List.prefix_append_right_inj _).2 (List.prefix_append _ _)
    · rw [hparts, ← hab, Path.partsOf_append] at e
      exact List.self_eq_append_right.1 (List.append_cancel_left e)

/-! ### Folders -/

/-- The places of the files. -/
def places (d : Disk) : List Place := d.files.map (·.1)

lemma below_iff (hne : folder ≠ []) : below folder x ↔ folder <+: x := by
  simp [below, hne]

lemma prefix_of_below (h : below folder x) : folder <+: x := by
  rw [below, Bool.and_eq_true, List.isPrefixOf_iff_prefix] at h
  exact h.1

lemma isFolder_iff (hne : x ≠ []) : d.isFolder x ↔ (∃ f ∈ d.folders, x <+: f) ∨ ∃ f ∈ d.places, x <+: f ∧ f ≠ x := by
  simp [isFolder, places, hne, below_iff hne]

lemma isFolder_above (h : d.isFolder x) (hahead : folder <+: x) : d.isFolder folder := by
  by_cases hne : folder = []
  · rw [hne]
    rfl
  have hx : x ≠ [] := by
    rintro rfl
    exact hne (List.prefix_nil.1 hahead)
  rw [isFolder_iff hx] at h
  refine (isFolder_iff hne).2 (h.imp ?_ ?_)
  · rintro ⟨f, hf, hx⟩
    exact ⟨f, hf, hahead.trans hx⟩
  · rintro ⟨f, hf, hx, hfx⟩
    refine ⟨f, hf, hahead.trans hx, ?_⟩
    rintro rfl
    exact hfx (hahead.eq_of_length_le hx.length_le)

/-- A file stands in a folder. -/
lemma isFolder_of_mem_places (h : x ∈ d.places) (hahead : folder <+: x) (hne : folder ≠ x) : d.isFolder folder := by
  by_cases hnil : folder = []
  · rw [hnil]
    rfl
  · exact (isFolder_iff hnil).2 (.inr ⟨x, h, hahead, hne.symm⟩)

lemma mem_names_iff : n ∈ d.names folder ↔ ∃ x ∈ d.places ++ d.folders, below folder x ∧ x[folder.length]? = some n := by
  simp only [names, Text.mem_toSet, List.mem_filterMap, places]
  refine exists_congr fun x => and_congr_right fun _ => ?_
  split
  · next h => rw [and_iff_right h]
  · next h => simp [h]

/-! ### Putting files -/

lemma isSome_file?_iff : (d.file? x).isSome ↔ x ∈ d.places := by
  simp [file?, places]

lemma put_folders : (d.put place c).folders = d.folders := by
  unfold put
  split <;> rfl

lemma places_put : (d.put place c).places = if place ∈ d.places then d.places else d.places ++ [place] := by
  have hkeys : (d.files.map fun f => if f.1 = place then (place, c) else f).map (·.1) = d.places := by
    rw [List.map_map]
    refine List.map_congr_left fun f _ => ?_
    by_cases hf : f.1 = place <;> simp [hf]
  unfold put
  simp only [isSome_file?_iff]
  split
  · exact hkeys
  · exact List.map_append

lemma mem_places_put : x ∈ (d.put place c).places ↔ x ∈ d.places ∨ x = place := by
  rw [places_put]
  split
  · next h =>
    refine ⟨.inl, ?_⟩
    rintro (hx | rfl)
    · exact hx
    · exact h
  · rw [List.mem_append, List.mem_singleton]

/-- What is read after a file was put. -/
lemma file?_put : (d.put place c).file? x = if x = place then some c else d.file? x := by
  have hself : ∀ files : List (Place × Contents), (files.lookup place).isSome →
      (files.map fun f => if f.1 = place then (place, c) else f).lookup place = some c := by
    intro files h
    induction files with
    | nil => cases h
    | cons f files ih =>
      obtain ⟨y, b⟩ := f
      by_cases hy : y = place
      · simp [hy]
      · have hne : (place == y) = false := beq_false_of_ne (Ne.symm hy)
        simp only [List.map_cons, hy, if_false, List.lookup_cons, hne] at h ⊢
        exact ih h
  have hother : ∀ files : List (Place × Contents), x ≠ place →
      (files.map fun f => if f.1 = place then (place, c) else f).lookup x = files.lookup x := by
    intro files hx
    induction files with
    | nil => rfl
    | cons f files ih =>
      obtain ⟨y, b⟩ := f
      by_cases hy : y = place
      · have hne : (x == place) = false := beq_false_of_ne hx
        simp only [List.map_cons, hy, if_true, List.lookup_cons, hne, ih]
      · simp only [List.map_cons, hy, if_false, List.lookup_cons, ih]
  unfold put file?
  split
  · next h =>
    split
    · next hx => rw [hx]; exact hself d.files h
    · next hx => exact hother d.files hx
  · next h =>
    rw [List.lookup_append]
    by_cases hx : x = place
    · subst hx
      simp [Option.not_isSome_iff_eq_none.1 h]
    · have hne : (x == place) = false := beq_false_of_ne hx
      rw [if_neg hx, List.lookup_cons, hne, List.lookup_nil, Option.or_none]

/-- A file that is put into a folder makes no new folders. -/
lemma isFolder_put (h : d.isFolder place.dropLast) (hne : place ≠ []) : (d.put place c).isFolder x = d.isFolder x := by
  by_cases hx : x = []
  · rw [hx]
    rfl
  rw [Bool.eq_iff_iff, isFolder_iff hx, isFolder_iff hx, put_folders]
  simp only [mem_places_put]
  constructor
  · rintro (hf | ⟨f, hf | rfl, hahead, hfx⟩)
    · exact .inl hf
    · exact .inr ⟨f, hf, hahead, hfx⟩
    · refine (isFolder_iff hx).1 (isFolder_above h ?_)
      rw [← List.dropLast_append_getLast hne, List.prefix_concat_iff, List.dropLast_append_getLast] at hahead
      exact hahead.resolve_left hfx.symm
  · rintro (hf | ⟨f, hf, hahead⟩)
    · exact .inl hf
    · exact .inr ⟨f, .inl hf, hahead⟩

lemma read_eq (h : d.locate p = .ok place) : d.read p =
    match d.file? place with
    | some (.text s) => .ok s
    | some (.binary _) => .error .invalidText
    | none => .error (if d.isFolder place then .isADirectory else .notFound) := by
  rw [read, h]
  rfl

/-- A path whose last segment is a name can be written, if no folder stands in its place. -/
lemma write_eq_ok {text : Text} (h : d.locate p = .ok place) (hlast : (segments p).getLast? = some n) (hn : IsName n)
    (hfolder : d.isFolder place = false) : d.write p text = .ok (d.put place (.text text)) := by
  obtain ⟨hp, -, -⟩ := isFolder_of_locate h
  rw [locate, if_neg hp] at h
  change d.follow (start p).1 (start p).2 = .ok place at h
  obtain ⟨hsuffix, hsegments⟩ := start_suffix p
  have hn' : (start p).2.getLast? = some n := by
    obtain ⟨t, ht⟩ := hsuffix
    rw [← hlast, ← ht, List.getLast?_append_of_ne_nil _ hsegments]
  obtain ⟨a, ha⟩ := List.getLast?_eq_some_iff.1 hn'
  rw [ha] at h
  obtain ⟨hplace, hall⟩ := follow_eq_ok_iff.1 h
  have hfollow : d.follow (start p).1 a = .ok (a.foldl step (start p).1) := by
    refine follow_eq_ok_iff.2 ⟨rfl, fun b hb _ => hall b (hb.trans (List.prefix_append _ _)) ?_⟩
    rintro rfl
    exact absurd hb.length_le (by simp)
  have hrequire : d.requireFolder (a.foldl step (start p).1) = .ok () :=
    requireFolder_eq_ok_iff.2 (hall a (List.prefix_append _ _) (by simp))
  have hstep : step (a.foldl step (start p).1) n = a.foldl step (start p).1 ++ [n] := step_of_isName _ hn
  rw [List.foldl_append, List.foldl_cons, List.foldl_nil, hstep] at hplace
  rw [write, if_neg hp]
  simp only [ha, List.dropLast_concat, hfollow, List.getLast?_concat, hn.1, Option.bind_some]
  change (d.requireFolder _ >>= fun _ => _) = _
  rw [hrequire]
  change (if _ then _ else _) = _
  rw [← hplace, if_neg (Bool.eq_false_iff.1 hfolder)]
  rfl

/-- A path can be followed as long as folders stay folders. -/
lemma locate_mono {d' : Disk} (h : ∀ x, d.isFolder x → d'.isFolder x) (hp : d.locate p = .ok place) : d'.locate p = .ok place := by
  obtain ⟨hne, -, -⟩ := isFolder_of_locate hp
  rw [locate, if_neg hne] at hp ⊢
  change d.follow (start p).1 (start p).2 = _ at hp
  change d'.follow (start p).1 (start p).2 = _
  rw [follow_eq_ok_iff] at hp ⊢
  exact ⟨hp.1, fun a ha hne => h _ (hp.2 a ha hne)⟩

lemma locate_congr {d' : Disk} (h : ∀ x, d'.isFolder x = d.isFolder x) (hp : d.locate p = .ok place) : d'.locate p = .ok place :=
  locate_mono (fun x hx => h x ▸ hx) hp

/-! ### Putting several files -/

lemma put_of_mem (h : place ∈ d.places) :
    d.put place c = { d with files := d.files.map fun f => if f.1 = place then (place, c) else f } :=
  if_pos (isSome_file?_iff.2 h)

lemma put_of_notMem (h : place ∉ d.places) : d.put place c = { d with files := d.files ++ [(place, c)] } :=
  if_neg fun hsome => h (isSome_file?_iff.1 hsome)

lemma mem_places_put_self : place ∈ (d.put place c).places := mem_places_put.2 (.inr rfl)

/-- A file that is put again replaces the one before. -/
lemma put_put {b : Contents} : (d.put place b).put place c = d.put place c := by
  rw [put_of_mem mem_places_put_self]
  by_cases h : place ∈ d.places
  · rw [put_of_mem h, put_of_mem h]
    simp only [List.map_map, Disk.mk.injEq, and_true]
    refine List.map_congr_left fun f _ => ?_
    by_cases hf : f.1 = place <;> simp [hf]
  · rw [put_of_notMem h, put_of_notMem h]
    simp only [List.map_append, List.map_cons, if_true, List.map_nil, Disk.mk.injEq, and_true, List.append_cancel_right_eq]
    conv_rhs => rw [← List.map_id d.files]
    refine List.map_congr_left fun f hf => if_neg ?_
    rintro rfl
    exact h (List.mem_map_of_mem hf)

/-- A file that is replaced can be replaced after another file is put. -/
lemma put_comm {b : Contents} (h : place ∈ d.places) (hne : x ≠ place) :
    (d.put place b).put x c = (d.put x c).put place b := by
  rw [put_of_mem (mem_places_put.2 (.inl h))]
  by_cases hx : x ∈ d.places
  · rw [put_of_mem (mem_places_put.2 (.inl hx)), put_of_mem h, put_of_mem hx]
    simp only [List.map_map, Disk.mk.injEq, and_true]
    refine List.map_congr_left fun f _ => ?_
    by_cases hf : f.1 = place
    · simp [hf, hne.symm]
    · by_cases hf' : f.1 = x <;> simp [hf, hf', hne]
  · have hx' : x ∉ (d.put place b).places := fun hmem => (mem_places_put.1 hmem).elim hx hne
    rw [put_of_notMem hx', put_of_mem h, put_of_notMem hx]
    simp [hne]

/-- The disk with texts put at the places of their paths, one after the other. -/
def overridden (d : Disk) (texts : List (Path × Text)) : Disk :=
  texts.foldl (fun d e => d.put (placeOf e.1) (.text e.2)) d

lemma overridden_append (a b : List (Path × Text)) : d.overridden (a ++ b) = (d.overridden a).overridden b := List.foldl_append

lemma overridden_concat (texts : List (Path × Text)) (p : Path) (t : Text) :
    d.overridden (texts ++ [(p, t)]) = (d.overridden texts).put (placeOf p) (.text t) := by
  rw [overridden_append]
  rfl

lemma mem_places_overridden : x ∈ (d.overridden texts).places ↔ x ∈ d.places ∨ ∃ e ∈ texts, placeOf e.1 = x := by
  induction texts using List.reverseRecOn with
  | nil => simp [overridden]
  | append_singleton texts e ih =>
    rw [overridden_concat, mem_places_put, ih, or_assoc]
    refine or_congr_right ?_
    simp [or_and_right, exists_or, eq_comm]

lemma folders_overridden : (d.overridden texts).folders = d.folders := by
  induction texts using List.reverseRecOn with
  | nil => rfl
  | append_singleton texts e ih => rw [overridden_concat, put_folders, ih]

lemma file?_overridden (h : ∀ e ∈ texts, placeOf e.1 ≠ x) : (d.overridden texts).file? x = d.file? x := by
  induction texts using List.reverseRecOn with
  | nil => rfl
  | append_singleton texts e ih =>
    rw [List.forall_mem_append, List.forall_mem_singleton] at h
    rw [overridden_concat, file?_put, if_neg h.2.symm, ih h.1]

lemma isFolder_overridden (h : ∀ e ∈ texts, placeOf e.1 ≠ [] ∧ d.isFolder (placeOf e.1).dropLast) :
    (d.overridden texts).isFolder x = d.isFolder x := by
  induction texts using List.reverseRecOn generalizing x with
  | nil => rfl
  | append_singleton texts e ih =>
    rw [List.forall_mem_append, List.forall_mem_singleton] at h
    have hfolder := h.2.2
    rw [← ih h.1] at hfolder
    rw [overridden_concat, isFolder_put hfolder h.2.1, ih h.1]

/-- Replacing a text is putting it once more. -/
lemma overridden_replace {f : Path × Text → Path × Text} {t : Text} (hmem : ∃ e ∈ texts, placeOf e.1 = place)
    (hf : ∀ e ∈ texts, placeOf (f e).1 = placeOf e.1 ∧ (f e).2 = if placeOf e.1 = place then t else e.2) :
    d.overridden (texts.map f) = (d.overridden texts).put place (.text t) := by
  induction texts using List.reverseRecOn with
  | nil => obtain ⟨e, he, -⟩ := hmem; cases he
  | append_singleton texts e ih =>
    obtain ⟨p, s⟩ := e
    rw [List.forall_mem_append, List.forall_mem_singleton] at hf
    obtain ⟨hf, hplace, htext⟩ := hf
    rw [List.map_append, List.map_singleton, overridden_append, overridden_concat]
    change (d.overridden (texts.map f)).put (placeOf (f (p, s)).1) (.text (f (p, s)).2) = _
    rw [hplace, htext]
    by_cases hearlier : ∃ e ∈ texts, placeOf e.1 = place
    · rw [ih hearlier hf]
      by_cases hp : placeOf p = place
      · simp only [hp, if_true, put_put]
      · rw [if_neg hp]
        exact put_comm (mem_places_overridden.2 (.inr hearlier)) hp
    · have hp : placeOf p = place := by
        obtain ⟨e, he, hplace⟩ := hmem
        rcases List.mem_append.1 he with he | he
        · exact absurd ⟨e, he, hplace⟩ hearlier
        · rw [List.mem_singleton.1 he] at hplace
          exact hplace
      have hsame : d.overridden (texts.map f) = d.overridden texts := by
        refine List.foldl_map.trans (List.foldl_ext _ _ _ fun d e he => ?_)
        obtain ⟨hplace, htext⟩ := hf e he
        rw [hplace, htext, if_neg fun h => hearlier ⟨e, he, h⟩]
      rw [hsame, if_pos hp, hp, put_put]

end Disk

end RuleWeaver
