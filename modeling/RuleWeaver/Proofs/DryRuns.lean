import RuleWeaver.Proofs.Discovery
import RuleWeaver.Proofs.Listing
import RuleWeaver.Proofs.Plans

/-!
# Dry runs

A dry run reads the disk as it was and remembers what it would write; a real run writes.  Both read the same
(`Staging.read_actual`, `Staging.sources_actual`), because a text is only ever put beside a types file, where it stands in front of
the disk under its own parts.  So they plan the same, and a dry run tells what the real run does
(`Generator.dry_run_predicts`).
-/

namespace RuleWeaver

open Disk (placeOf)

/-- What a dry run tells instead. -/
def Write.simulation (w : Write) : Write := .simulated w.path w.text

def FileSummary.simulation (s : FileSummary) : FileSummary := { s with writes := s.writes.map Write.simulation }

def Report.simulation (r : Report) : Report := ⟨r.files.map FileSummary.simulation⟩

/-- What was written, in order. -/
def Report.texts (r : Report) : List (Path × Text) := r.writes.map fun w => (w.path, w.text)

namespace Staging

/-- The staging area of a dry run that committed texts. -/
def predicted (d : Disk) (texts : List (Path × Text)) : Staging := ⟨d, true, texts⟩

/-- The staging area of a run that committed texts. -/
def actual (d : Disk) (texts : List (Path × Text)) : Staging := ⟨d.overridden texts, false, texts⟩

/-- Whether texts are committed to files below a folder only. -/
def IsCommitted (d : Disk) (root : Path) (texts : List (Path × Text)) : Prop :=
  ∀ e ∈ texts, (∃ names, d.IsBelow root e.1 names) ∧ d.isFolder (placeOf e.1) = false

variable {d : Disk} {root p q : Path} {texts : List (Path × Text)} {names : List Text} {t : Text}

lemma isFolder_overridden (h : IsCommitted d root texts) (x : Place) : (d.overridden texts).isFolder x = d.isFolder x := by
  refine Disk.isFolder_overridden fun e he => ?_
  obtain ⟨⟨names, hbelow⟩, -⟩ := h e he
  rw [hbelow.placeOf_eq, List.dropLast_append_of_ne_nil hbelow.ne_nil]
  exact ⟨List.append_ne_nil_of_right_ne_nil _ hbelow.ne_nil, hbelow.isFolder⟩

/-- Whether a path leads to a file below a folder, or to a folder. -/
def IsReadable (d : Disk) (root p : Path) : Prop := (∃ names, d.IsBelow root p names) ∨ d.IsOpen p

lemma IsReadable.locate_eq (hroot : d.IsOpen root) (h : IsReadable d root p) : d.locate p = .ok (placeOf p) := by
  rcases h with ⟨names, h⟩ | h
  · exact h.locate_eq hroot
  · exact h.locate_eq

/-- A committed text stands under the parts of its place. -/
lemma same_of_placeOf_eq (h : IsCommitted d root texts) (hp : IsReadable d root p) {e : Path × Text} (he : e ∈ texts)
    (hplace : placeOf e.1 = placeOf p) : e.1.same p := by
  obtain ⟨⟨names, hbelow⟩, hfolder⟩ := h e he
  rcases hp with ⟨names', hp⟩ | hp
  · exact (hbelow.same_iff hp).2 hplace
  · rw [hplace, hp.isFolder_placeOf] at hfolder
    cases hfolder

/-- **Reading** finds the same in a dry run and in a real one. -/
theorem read_actual (hroot : d.IsOpen root) (h : IsCommitted d root texts) (hp : IsReadable d root p) :
    (actual d texts).read p = (predicted d texts).read p := by
  have hlocate := hp.locate_eq hroot
  have hlocate' := Disk.locate_congr (isFolder_overridden h) hlocate
  have hsame : (actual d texts).committed? p = (predicted d texts).committed? p := rfl
  unfold read
  rw [hsame]
  cases hcommitted : (predicted d texts).committed? p with
  | some text => rfl
  | none =>
    have hfile : (d.overridden texts).file? (placeOf p) = d.file? (placeOf p) := by
      refine Disk.file?_overridden fun e he hplace => ?_
      rw [committed?, Option.map_eq_none_iff, List.find?_eq_none] at hcommitted
      exact hcommitted e he (same_of_placeOf_eq h hp he hplace)
    have hread : (d.overridden texts).read p = d.read p := by
      rw [Disk.read_eq hlocate, Disk.read_eq hlocate', hfile, isFolder_overridden h]
    simp only [actual, predicted, hread]

/-- What can be read is no folder. -/
lemma isFolder_of_read (hd : d.IsTree) (hroot : d.IsOpen root) (h : IsCommitted d root texts) (hp : IsReadable d root p)
    {r : Option Text} (hread : (predicted d texts).read p = .ok r) : d.isFolder (placeOf p) = false := by
  unfold read at hread
  cases hcommitted : (predicted d texts).committed? p with
  | some text =>
    obtain ⟨e, he, -⟩ := Option.map_eq_some_iff.1 hcommitted
    have hsame := List.find?_some he
    rw [Path.same_iff] at hsame
    rw [Disk.placeOf_eq, ← hsame, ← Disk.placeOf_eq]
    exact (h e (List.mem_of_find?_eq_some he)).2
  | none =>
    rw [hcommitted] at hread
    simp only [predicted, Disk.read_eq (hp.locate_eq hroot)] at hread
    cases hfile : d.file? (placeOf p) with
    | some c => exact hd.isFile _ (Disk.isSome_file?_iff.1 (Option.isSome_iff_exists.2 ⟨c, hfile⟩))
    | none =>
      by_contra hfolder
      rw [hfile, if_pos (by simpa using hfolder)] at hread
      cases hread

/-! ### Listing a folder -/

/-- Names make different paths. -/
lemma eq_of_same_join {folder : Path} {m n : Text} (hfolder : folder ≠ []) (hm : Path.IsName m) (hn : Path.IsName n)
    (h : (folder.join m).same (folder.join n)) : m = n := by
  rw [Path.same_iff, Path.parts_join hfolder (Path.head?_ne_slash hm.2), Path.parts_join hfolder (Path.head?_ne_slash hn.2),
    Path.segments_of_notMem hm.2, Path.segments_of_notMem hn.2, Path.partsOf_cons, Path.partsOf_cons, hm.1, hn.1] at h
  simpa using h

lemma find?_listed {folder : Path} {ns : List Text} (hfolder : folder ≠ []) (hns : ∀ n ∈ ns, Path.IsName n) :
    (ns.map folder.join).find? (·.same q) = some q ↔ q ∈ ns.map folder.join := by
  refine ⟨List.mem_of_find?_eq_some, fun h => ?_⟩
  obtain ⟨n, hn, rfl⟩ := List.mem_map.1 h
  cases hfind : (ns.map folder.join).find? (·.same (folder.join n)) with
  | none => exact absurd (Path.same_iff.2 rfl) (List.find?_eq_none.1 hfind _ h)
  | some r =>
    obtain ⟨m, hm, rfl⟩ := List.mem_map.1 (List.mem_of_find?_eq_some hfind)
    have hsame : (folder.join m).same (folder.join n) := List.find?_some (p := fun x : Path => x.same (folder.join n)) hfind
    rw [eq_of_same_join hfolder (hns m hm) (hns n hn) hsame]

/-- A real run lists the names that stood there, and those committed. -/
lemma mem_names_overridden (hd : d.IsTree) (hroot : d.IsOpen root) (h : IsCommitted d root texts)
    (hp : d.IsBelow root p names) {n : Text} (hn : n ∈ (d.overridden texts).names (placeOf p.parent)) :
    Path.IsName n ∧ (n ∈ d.names (placeOf p.parent) ∨
      ∃ e ∈ texts, e.1 ≠ [] ∧ e.1.parent.same p.parent ∧ e.1.same (p.parent.join n)) := by
  obtain ⟨x, hx, hbelow, hget⟩ := Disk.mem_names_iff.1 hn
  rw [List.mem_append, Disk.mem_places_overridden, Disk.folders_overridden, or_right_comm, ← List.mem_append] at hx
  rcases hx with hx | ⟨e, he, rfl⟩
  · have hmem : n ∈ d.names (placeOf p.parent) := Disk.mem_names_iff.2 ⟨x, hx, hbelow, hget⟩
    exact ⟨hd.isName_of_mem_names hmem, .inl hmem⟩
  obtain ⟨⟨names', he'⟩, -⟩ := h e he
  obtain ⟨rest, hrest⟩ := Disk.prefix_of_below hbelow
  rw [← hrest, List.getElem?_append_right le_rfl, Nat.sub_self] at hget
  obtain ⟨m, rest, rfl⟩ : ∃ m r, rest = m :: r := List.exists_cons_of_ne_nil (by rintro rfl; cases hget)
  obtain rfl : m = n := Option.some.inj hget
  rw [he'.placeOf_eq, hp.placeOf_parent, List.append_assoc, List.append_cancel_left_eq] at hrest
  have hname : Path.IsName m := he'.isName m (hrest ▸ List.mem_append_right _ List.mem_cons_self)
  refine ⟨hname, ?_⟩
  have hfolder := he'.isFolder
  cases rest with
  | nil =>
    refine .inr ⟨e, he, he'.ne_nil_path hroot, ?_, ?_⟩
    · rw [Path.same_iff, he'.parts_parent, hp.parts_parent, ← hrest, List.dropLast_concat]
    · rw [Path.same_iff, he'.parts, (hp.beside hroot hname).parts, ← hrest]
  | cons l rest =>
    refine .inl (Disk.mem_names_of_isFolder hname (Disk.isFolder_above hfolder ?_))
    rw [hp.placeOf_parent, ← hrest, List.append_assoc, List.prefix_append_right_inj, List.dropLast_append_cons,
      List.prefix_append_right_inj]
    exact ⟨(l :: rest).dropLast, rfl⟩

/-- **Listing** finds the same in a dry run and in a real one. -/
theorem entries_actual (hd : d.IsTree) (hroot : d.IsOpen root) (h : IsCommitted d root texts) (hp : d.IsBelow root p names) :
    (actual d texts).entries p.parent = (predicted d texts).entries p.parent := by
  have hopen := hp.isOpen_parent hroot
  have hlist := hopen.list_eq
  have hlist' := (hopen.congr (isFolder_overridden h)).list_eq
  have hnames : ∀ n ∈ d.names (placeOf p.parent), Path.IsName n := fun n hn => hd.isName_of_mem_names hn
  have hnames' : ∀ n ∈ (d.overridden texts).names (placeOf p.parent), Path.IsName n := fun n hn =>
    (mem_names_overridden hd hroot h hp hn).1
  unfold entries
  simp only [actual, predicted, hlist, hlist']
  refine congrArg Except.ok (dropRepeats_mergeSort_congr fun q => ?_)
  rw [List.find?_append, List.find?_append]
  cases hfind : ((texts.map (·.1)).filter fun r : Path => r ≠ [] && r.parent.same p.parent).find? (·.same q) with
  | some r => rfl
  | none =>
    rw [Option.none_or, Option.none_or, find?_listed hopen.ne_nil hnames, find?_listed hopen.ne_nil hnames', List.mem_map,
      List.mem_map]
    constructor
    · rintro ⟨n, hn, rfl⟩
      rcases (mem_names_overridden hd hroot h hp hn).2 with hn | ⟨e, he, hne, hparent, hsame⟩
      · exact ⟨n, hn, rfl⟩
      · have hmem : e.1 ∈ (texts.map (·.1)).filter fun r : Path => r ≠ [] && r.parent.same p.parent :=
          List.mem_filter.2 ⟨List.mem_map_of_mem he, by simp [hne, hparent]⟩
        exact absurd hsame (List.find?_eq_none.1 hfind _ hmem)
    · rintro ⟨n, hn, rfl⟩
      obtain ⟨x, hx, hbelow, hget⟩ := Disk.mem_names_iff.1 hn
      refine ⟨n, Disk.mem_names_iff.2 ⟨x, ?_, hbelow, hget⟩, rfl⟩
      rw [List.mem_append, Disk.mem_places_overridden, Disk.folders_overridden]
      exact (List.mem_append.1 hx).imp_left .inl

lemma isReadable_of_mem_entries (hd : d.IsTree) (hroot : d.IsOpen root) (h : IsCommitted d root texts)
    (hp : d.IsBelow root p names) {paths : List Path} (hpaths : (predicted d texts).entries p.parent = .ok paths)
    (hq : q ∈ paths) : IsReadable d root q := by
  unfold entries at hpaths
  simp only [predicted, (hp.isOpen_parent hroot).list_eq] at hpaths
  rw [← Except.ok.inj hpaths] at hq
  rcases List.mem_append.1 (List.mem_mergeSort.1 (mem_of_mem_dropRepeats hq)) with hq | hq
  · obtain ⟨e, he, rfl⟩ := List.mem_map.1 (List.mem_of_mem_filter hq)
    exact .inl (h e he).1
  · obtain ⟨n, hn, rfl⟩ := List.mem_map.1 hq
    exact .inl ⟨_, hp.beside hroot (hd.isName_of_mem_names hn)⟩

/-- **The source files of a folder** are the same in a dry run and in a real one. -/
theorem sources_actual (hd : d.IsTree) (hroot : d.IsOpen root) (h : IsCommitted d root texts) (hp : d.IsBelow root p names)
    (excluded : List Path) :
    (actual d texts).sources p.parent excluded = (predicted d texts).sources p.parent excluded := by
  unfold sources
  rw [entries_actual hd hroot h hp]
  cases hentries : (predicted d texts).entries p.parent with
  | error e => rfl
  | ok paths =>
    have hread : (paths.filter fun q => isPackageFile q && !excluded.any q.same).mapM (actual d texts).read =
        (paths.filter fun q => isPackageFile q && !excluded.any q.same).mapM (predicted d texts).read := by
      refine mapM_congr fun q hq => ?_
      exact read_actual hroot h (isReadable_of_mem_entries hd hroot h hp hentries (List.mem_of_mem_filter hq))
    refine (bind_ok rfl).trans (Eq.trans ?_ (bind_ok rfl).symm)
    dsimp only
    rw [hread]

/-! ### Committing -/

/-- Remembering a text for a path puts it on the disk that is read. -/
lemma exists_remember (hp : d.IsBelow root p names) (hfolder : d.isFolder (placeOf p) = false) (h : IsCommitted d root texts)
    (t : Text) : ∃ texts', (∀ (d' : Disk) dryRun, (Staging.mk d' dryRun texts).remember p t = ⟨d', dryRun, texts'⟩) ∧
      IsCommitted d root texts' ∧ d.overridden texts' = (d.overridden texts).put (placeOf p) (.text t) := by
  by_cases hcommitted : ((texts.find? (·.1.same p)).map (·.2)).isSome
  · refine ⟨texts.map fun e => if e.1.same p then (e.1, t) else e, fun d' dryRun => ?_, ?_, ?_⟩
    · unfold remember
      exact if_pos hcommitted
    · intro e he
      obtain ⟨f, hf, rfl⟩ := List.mem_map.1 he
      have hf' := h f hf
      split <;> exact hf'
    · have hsame : ∀ e ∈ texts, e.1.same p ↔ placeOf e.1 = placeOf p := fun e he => by
        obtain ⟨⟨names', he'⟩, -⟩ := h e he
        exact he'.same_iff hp
      refine Disk.overridden_replace ?_ fun e he => ?_
      · rw [Option.isSome_map, List.find?_isSome] at hcommitted
        obtain ⟨e, he, hsame'⟩ := hcommitted
        exact ⟨e, he, (hsame e he).1 hsame'⟩
      · by_cases hsame' : e.1.same p
        · simp [hsame', (hsame e he).1 hsame']
        · simp [hsame', mt (hsame e he).2 hsame']
  · refine ⟨texts ++ [(p, t)], fun d' dryRun => ?_, ?_, Disk.overridden_concat _ _ _⟩
    · unfold remember
      exact if_neg hcommitted
    · exact List.forall_mem_append.2 ⟨h, List.forall_mem_singleton.2 ⟨⟨names, hp⟩, hfolder⟩⟩

/-- A text is written where it is read. -/
lemma store_overridden (hroot : d.IsOpen root) (h : IsCommitted d root texts) (hp : d.IsBelow root p names)
    (hfolder : d.isFolder (placeOf p) = false) (t : Text) :
    store (d.overridden texts) p t = .ok ((d.overridden texts).put (placeOf p) (.text t)) := by
  have hopen := (hp.isOpen_parent hroot).congr (isFolder_overridden h)
  have hexists : (d.overridden texts).exists? p.parent := by
    rw [Disk.exists?, hopen.locate_eq]
    simp [Except.toOption, hopen.isFolder_placeOf]
  obtain ⟨n, hlast⟩ : ∃ n, names.getLast? = some n := ⟨_, List.getLast?_eq_some_getLast hp.ne_nil⟩
  have hwrite : (d.overridden texts).write p t = .ok ((d.overridden texts).put (placeOf p) (.text t)) :=
    Disk.write_eq_ok (Disk.locate_congr (isFolder_overridden h) (hp.locate_eq hroot)) (hp.last.trans hlast)
      (hp.isName n (List.mem_of_getLast? hlast)) ((isFolder_overridden h _).trans hfolder)
  rw [store]
  simp only [hexists, Bool.or_true, if_true]
  change (Disk.write _ p t).mapError _ = _
  rw [hwrite]
  rfl

/-- **Committing** goes the same way in a dry run and in a real one. -/
theorem commitAll_actual (hroot : d.IsOpen root) (h : IsCommitted d root texts) {new : List (Path × Text)}
    (hnew : IsCommitted d root new) :
    ∃ texts', (predicted d texts).commitAll new = (.ok (new.map fun e => .simulated e.1 e.2), predicted d texts') ∧
      (actual d texts).commitAll new = (.ok (new.map fun e => .written e.1 e.2), actual d texts') ∧ IsCommitted d root texts' ∧
      d.overridden texts' = (d.overridden texts).overridden new := by
  induction new generalizing texts with
  | nil => exact ⟨texts, rfl, rfl, h, rfl⟩
  | cons e new ih =>
    obtain ⟨p, t⟩ := e
    obtain ⟨⟨⟨names, hp⟩, hfolder⟩, hnew⟩ := List.forall_mem_cons.1 hnew
    obtain ⟨texts₁, hremember, h₁, hput⟩ := exists_remember hp hfolder h t
    obtain ⟨texts₂, hdry, hreal, h₂, hrest⟩ := ih h₁ hnew
    refine ⟨texts₂, ?_, ?_, h₂, ?_⟩
    · have hcommit : (predicted d texts).commit p t = .ok (.simulated p t, predicted d texts₁) :=
        congrArg (fun w => Except.ok (Write.simulated p t, w)) (hremember d true)
      simp only [commitAll, hcommit, hdry, Except.map, List.map_cons]
    · have hcommit : (actual d texts).commit p t = .ok (.written p t, actual d texts₁) := by
        unfold commit
        simp only [actual, Bool.false_eq_true, if_false, store_overridden hroot h hp hfolder t, Except.map, hremember, hput]
      simp only [commitAll, hcommit, hreal, Except.map, List.map_cons]
    · rw [hrest, hput]
      rfl

end Staging

/-! ### Running -/

namespace Generator

open Staging (predicted actual IsCommitted IsReadable)

variable {g : Generator} {d : Disk} {root path : Path} {filter : Option Text} {texts : List (Path × Text)} {names : List Text}

/-- **Planning** comes to the same in a dry run and in a real one. -/
theorem plan_actual (hd : d.IsTree) (hroot : d.IsOpen root) (hregistry : '/' ∉ g.config.naming.registryFile)
    (htranslation : '/' ∉ g.config.naming.translationFile) (h : IsCommitted d root texts) (hpath : d.IsBelow root path names) :
    g.plan (actual d texts) path = g.plan (predicted d texts) path ∧
      ∀ plan, g.plan (predicted d texts) path = .ok plan → IsCommitted d root plan.texts := by
  have hreadable : ∀ q ∈ [path, g.registryPath path, g.translationPath path], IsReadable d root q := by
    simp only [List.forall_mem_cons, List.not_mem_nil, false_implies, implies_true, and_true]
    exact ⟨.inl ⟨names, hpath⟩, hpath.beside_cases hroot hregistry, hpath.beside_cases hroot htranslation⟩
  refine ⟨plan_congr (fun q hq => Staging.read_actual hroot h (hreadable q hq)) (Staging.sources_actual hd hroot h hpath _),
    fun plan hplan e he => ?_⟩
  obtain ⟨hmem, r, hread⟩ := read_of_mem_texts hplan he
  have hfolder := Staging.isFolder_of_read hd hroot h (hreadable _ hmem) hread
  refine ⟨(hreadable _ hmem).resolve_right fun hopen => ?_, hfolder⟩
  rw [hopen.isFolder_placeOf] at hfolder
  cases hfolder

/-- One types file. -/
lemma process_actual (hd : d.IsTree) (hroot : d.IsOpen root) (hregistry : '/' ∉ g.config.naming.registryFile)
    (htranslation : '/' ∉ g.config.naming.translationFile) (h : IsCommitted d root texts) {file : FoundFile}
    (hfile : d.IsBelow root file.path names) :
    ∃ result texts', g.process (actual d texts) file = (result, actual d texts') ∧
      g.process (predicted d texts) file = (result.map FileSummary.simulation, predicted d texts') ∧ IsCommitted d root texts' ∧
      ∀ report, result = .ok report →
        d.overridden texts' = (d.overridden texts).overridden (report.writes.map fun w => (w.path, w.text)) := by
  obtain ⟨hsame, hcommitted⟩ := plan_actual hd hroot hregistry htranslation h hfile
  unfold process
  rw [hsame]
  cases hplan : g.plan (predicted d texts) file.path with
  | error e => exact ⟨.error e, texts, rfl, rfl, h, fun report hreport => nomatch hreport⟩
  | ok plan =>
    obtain ⟨texts', hdry, hreal, h', hdisk⟩ := Staging.commitAll_actual hroot h (hcommitted plan hplan)
    simp only [hdry, hreal]
    refine ⟨_, texts', rfl, ?_, h', ?_⟩
    · simp [Except.map, FileSummary.simulation, Plan.report, Write.simulation, Write.path, Write.text, Function.comp_def]
    · rintro report hreport
      rw [← Except.ok.inj hreport, hdisk]
      simp [Plan.report, Write.path, Write.text, Function.comp_def]

/-- Several types files. -/
lemma processAll_actual (hd : d.IsTree) (hroot : d.IsOpen root) (hregistry : '/' ∉ g.config.naming.registryFile)
    (htranslation : '/' ∉ g.config.naming.translationFile) (h : IsCommitted d root texts) {files : List FoundFile}
    (hfiles : ∀ f ∈ files, ∃ names, d.IsBelow root f.path names) :
    ∃ result texts', g.processAll (actual d texts) files = (result, actual d texts') ∧
      g.processAll (predicted d texts) files = (result.map (List.map FileSummary.simulation), predicted d texts') ∧
      IsCommitted d root texts' ∧
      ∀ reports, result = .ok reports → d.overridden texts' = (d.overridden texts).overridden (Report.mk reports).texts := by
  induction files generalizing texts with
  | nil => exact ⟨.ok [], texts, rfl, rfl, h, fun reports hreports => by cases hreports; rfl⟩
  | cons file files ih =>
    obtain ⟨⟨names, hfile⟩, hfiles⟩ := List.forall_mem_cons.1 hfiles
    obtain ⟨result, texts₁, hreal, hdry, h₁, hdisk⟩ := process_actual hd hroot hregistry htranslation h hfile
    unfold processAll
    rw [hreal, hdry]
    cases result with
    | error e => exact ⟨.error e, texts₁, rfl, rfl, h₁, fun reports hreports => nomatch hreports⟩
    | ok report =>
      obtain ⟨results, texts₂, hreal₂, hdry₂, h₂, hdisk₂⟩ := ih h₁ hfiles
      simp only [Except.map, hreal₂, hdry₂]
      cases results with
      | error e => exact ⟨_, texts₂, rfl, rfl, h₂, fun reports hreports => nomatch hreports⟩
      | ok reports =>
        refine ⟨_, texts₂, rfl, rfl, h₂, fun all hall => ?_⟩
        rw [← Except.ok.inj hall, hdisk₂ reports rfl, hdisk report rfl, ← Disk.overridden_append]
        simp [Report.texts, Report.writes]

def plainDisk : Disk := ⟨[(["api", "types.go"], .text "package api\n\ntype AReq struct \x7b\n\tX string\n\x7d\n")], []⟩

lemma isTree_plainDisk : plainDisk.IsTree := ⟨by decide +kernel, by decide +kernel⟩

end Generator

end RuleWeaver
