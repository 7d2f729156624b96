import RuleWeaver.Proofs.Discovery
import RuleWeaver.Proofs.Plans
import RuleWeaver.Proofs.Registry.Parts

/-!
# Runs that fail

Planning only reads, and nothing is written for a types file before its whole plan is made.  So a run that fails, but not in
writing, leaves exactly what the files in front of the failing one leave (`run_stops_at_failing_file`).
-/

namespace RuleWeaver

/-- Whether an error comes from writing. -/
def Error.isWriteFault : Error → Bool
  | .createDirectory .. | .writeFile .. => true
  | _ => false

/-! ### Writing -/

namespace Staging

variable {d : Disk} {w w' : Staging} {path : Path} {text : Text} {texts : List (Path × Text)} {e : Error}

lemma isWriteFault_of_store (h : store d path text = .error e) : e.isWriteFault := by
  have hwrite : ∀ {d' : Disk}, (d'.write path text).mapError (Error.writeFile path) = .error e → e.isWriteFault := fun h => by
    obtain ⟨cause, rfl⟩ := exists_of_mapError_eq_error h
    rfl
  unfold store at h
  dsimp only at h
  split at h
  · exact hwrite h
  · rcases error_of_bind_eq_error h with h | ⟨d', -, h⟩
    · obtain ⟨cause, rfl⟩ := exists_of_mapError_eq_error h
      rfl
    · exact hwrite h

lemma isWriteFault_of_commit (h : w.commit path text = .error e) : e.isWriteFault := by
  unfold commit at h
  split at h
  · cases h
  · exact isWriteFault_of_store (error_of_map_eq_error h)

lemma isWriteFault_of_commitAll (h : w.commitAll texts = (.error e, w')) : e.isWriteFault := by
  induction texts generalizing w with
  | nil => cases h
  | cons f texts ih =>
    obtain ⟨path, text⟩ := f
    unfold commitAll at h
    split at h
    · next hcommit =>
      cases h
      exact isWriteFault_of_commit hcommit
    · next write w₁ _ =>
      obtain ⟨hwrites, rfl⟩ := Prod.mk.inj h
      exact ih (Prod.ext (error_of_map_eq_error hwrites) rfl)

end Staging

/-! ### Planning -/

/-- The errors that end the planning of a types file. -/
inductive IsPlanError (g : Generator) (path : Path) : Error → Prop
  /-- A file of the package, or its folder, cannot be read. -/
  | unreadable (file : Path) (cause : FileFault) : IsPlanError g path (.unreadable file cause)
  /-- The types file, the registry file or the translation file does not parse. -/
  | source (file : Path) (e : Source.SyntaxError)
      (h : file = path ∨ file = g.registryPath path ∨ file = g.translationPath path) : IsPlanError g path (.source file e)
  /-- There is no place for messages in the translation file. -/
  | anchor (anchor : Text) : IsPlanError g path (.merge (g.translationPath path) (.anchorNotFound anchor))
  /-- The new text of the registry file or the translation file is refused. -/
  | merged (file : Path) (e : FormatError) (h : file = g.registryPath path ∨ file = g.translationPath path) :
      IsPlanError g path (.merge file (.format e))
  /-- The new text of the types file is refused. -/
  | typed (e : FormatError) : IsPlanError g path (.format path e)

lemma IsPlanError.not_isWriteFault {g : Generator} {path : Path} {e : Error} (h : IsPlanError g path e) :
    e.isWriteFault = false := by
  cases h <;> rfl

namespace Generator

variable {g : Generator} {w w' : Staging} {path file root : Path} {filter : Option Text} {e : Error}

lemma isPlanError_of_read (h : w.read file = .error e) : IsPlanError g path e := by
  unfold Staging.read at h
  split at h
  · cases h
  · split at h
    · cases h
    · cases h
    · cases h
      exact .unreadable _ _

lemma isPlanError_of_sources {folder : Path} {excluded : List Path} (h : w.sources folder excluded = .error e) :
    IsPlanError g path e := by
  rcases error_of_bind_eq_error h with h | ⟨paths, -, h⟩
  · unfold Staging.entries at h
    split at h
    · cases h
    · cases h
    · cases h
      exact .unreadable _ _
  · rcases error_of_bind_eq_error h with h | ⟨texts, -, h⟩
    · obtain ⟨p, -, h⟩ := exists_of_mapM_eq_error h
      exact isPlanError_of_read h
    · cases h

lemma isPlanError_of_finish {existing : Option Text} {r : Rendering}
    (hfile : file = g.registryPath path ∨ file = g.translationPath path) (h : g.finish file existing r = .error e) :
    IsPlanError g path e := by
  unfold finish at h
  split at h
  · cases h
  · split at h
    · cases h
      exact .merged _ _ hfile
    · cases h

lemma isPlanError_of_planTranslation {package : Text} {required : Requirements}
    (h : g.planTranslation w (g.translationPath path) package required = .error e) : IsPlanError g path e := by
  unfold planTranslation at h
  split at h
  · cases h
  rcases error_of_bind_eq_error h with h | ⟨existing, -, h⟩
  · exact isPlanError_of_read h
  rcases error_of_bind_eq_error h with h | ⟨r, -, h⟩
  · unfold translationRendering at h
    split at h
    · cases h
    split at h
    · cases h
    split at h
    · cases h
    split at h
    · cases h
      exact .source _ _ (.inr (.inr rfl))
    · split at h
      · cases h
        exact .anchor _
      · cases h
  rcases error_of_bind_eq_error h with h | ⟨f, -, h⟩
  · exact isPlanError_of_finish (.inr rfl) h
  · cases h

lemma isPlanError_of_planTypes {source : Text} {tree : Source.Tree} {types : List Text} {elsewhere : Bool}
    (h : g.planTypes path source tree types elsewhere = .error e) : IsPlanError g path e := by
  unfold planTypes at h
  split at h
  · cases h
  · split at h
    · cases h
      exact .typed _
    · cases h

lemma isPlanError_of_planScan {source : Text} {scan : Scan} (h : g.planScan w path source scan = .error e) :
    IsPlanError g path e := by
  rcases error_of_bind_eq_error h with h | ⟨others, -, h⟩
  · exact isPlanError_of_sources h
  rcases error_of_bind_eq_error h with h | ⟨existing, -, h⟩
  · exact isPlanError_of_read h
  rcases error_of_bind_eq_error h with h | ⟨r, -, h⟩
  · unfold registryRendering at h
    split at h
    · cases h
    split at h
    · cases h
    split at h
    · cases h
      exact .source _ _ (.inr (.inl rfl))
    · split at h <;> cases h
  rcases error_of_bind_eq_error h with h | ⟨registry, -, h⟩
  · exact isPlanError_of_finish (.inl rfl) h
  rcases error_of_bind_eq_error h with h | ⟨translation, -, h⟩
  · exact isPlanError_of_planTranslation h
  rcases error_of_bind_eq_error h with h | ⟨types, -, h⟩
  · exact isPlanError_of_planTypes h
  · cases h

/-- **What planning fails with.** -/
theorem isPlanError_of_plan (h : g.plan w path = .error e) : IsPlanError g path e := by
  rcases error_of_bind_eq_error h with h | ⟨source, -, h⟩
  · exact isPlanError_of_read h
  cases source with
  | none =>
    cases h
    exact .unreadable _ _
  | some source =>
    rcases error_of_bind_eq_error h with h | ⟨scan, -, h⟩
    · obtain ⟨cause, rfl⟩ := exists_of_mapError_eq_error h
      exact .source _ _ (.inl rfl)
    · split at h
      · cases h
      · exact isPlanError_of_planScan h

/-! ### Processing -/

/-- A types file that fails, but not in writing, leaves everything as it is. -/
lemma process_eq_error {found : FoundFile} (h : g.process w found = (.error e, w')) (hw : e.isWriteFault = false) :
    w' = w ∧ IsPlanError g found.path e := by
  unfold process at h
  split at h
  · next hplan =>
    cases h
    exact ⟨rfl, isPlanError_of_plan hplan⟩
  · next plan _ =>
    have hwrites := error_of_map_eq_error (Prod.mk.inj h).1
    rw [Staging.isWriteFault_of_commitAll (Prod.ext hwrites rfl)] at hw
    cases hw

/-- The file that ends a run, with the files in front of it. -/
lemma processAll_eq_error {files : List FoundFile} (h : g.processAll w files = (.error e, w')) (hw : e.isWriteFault = false) :
    ∃ k, ∃ hk : k < files.length, ∃ reports, g.processAll w (files.take k) = (.ok reports, w') ∧
      g.process w' files[k] = (.error e, w') ∧ IsPlanError g files[k].path e := by
  induction files generalizing w with
  | nil => cases h
  | cons found files ih =>
    unfold processAll at h
    split at h
    · next w₁ hprocess =>
      cases h
      obtain ⟨rfl, herror⟩ := process_eq_error hprocess hw
      exact ⟨0, Nat.zero_lt_succ _, [], rfl, hprocess, herror⟩
    · next report w₁ hprocess =>
      have hrest := error_of_map_eq_error (Prod.mk.inj h).1
      obtain ⟨k, hk, reports, htake, hfails⟩ := ih (Prod.ext hrest (Prod.mk.inj h).2)
      refine ⟨k + 1, Nat.succ_lt_succ hk, report :: reports, ?_, hfails⟩
      rw [List.take_succ_cons, processAll, hprocess]
      simp only [htake]
      rfl

/-- A folder with a types file that declares nothing, and one that breaks off. -/
def brokenDisk : Disk :=
  ⟨[(["api", "a_types.go"], .text "package api\n"), (["api", "types.go"], .text "package api\n\nfunc\n")], []⟩

def brokenStaging : Staging := .new brokenDisk false

/-- A generator that leaves texts as they are. -/
def copyingGenerator : Generator := .ofConfig { Config.default with format := ⟨.gofmt, copyTool⟩ }

def brokenFiles : List FoundFile := [⟨"api/a_types.go", "a_types.go"⟩, ⟨"api/types.go", "types.go"⟩]

lemma discover_brokenDisk : copyingGenerator.discover brokenDisk "api" none = .ok brokenFiles := by
  have hlocate : brokenDisk.locate "api" = .ok ["api".toList] := by decide +kernel
  exact discover_eq_ok hlocate (by decide +kernel) (by decide +kernel) (by decide +kernel)

lemma exists_error_parse : ∃ e, Source.parse "package api\n\nfunc\n" = .error e := by
  have hnone : (Source.parse "package api\n\nfunc\n").toOption = none := by decide +kernel
  cases hparse : Source.parse "package api\n\nfunc\n" with
  | error e => exact ⟨e, rfl⟩
  | ok tree => rw [hparse] at hnone; cases hnone

lemma exists_processAll_brokenFiles :
    ∃ e, copyingGenerator.processAll brokenStaging brokenFiles = (.error (.source "api/types.go" e), brokenStaging) := by
  have hread : brokenStaging.read "api/a_types.go" = .ok (some "package api\n") := by decide +kernel
  have hbroken : brokenStaging.read "api/types.go" = .ok (some "package api\n\nfunc\n") := by decide +kernel
  have hparse : Source.parse "package api\n" = .ok ⟨⟨"api", ⟨0, 11⟩⟩, [], []⟩ := ok_of_toOption (by decide +kernel)
  obtain ⟨e, herror⟩ := exists_error_parse
  have hskipped : copyingGenerator.plan brokenStaging "api/a_types.go" = .ok .skipped := by
    rw [plan, hread]
    show (((Scan.ofSource _ "package api\n").mapError _ >>= _ : Except Error Plan)) = _
    rw [Scan.ofSource, hparse]
    rfl
  have hfails : copyingGenerator.plan brokenStaging "api/types.go" = .error (.source "api/types.go" e) := by
    rw [plan, hbroken]
    show (((Scan.ofSource _ "package api\n\nfunc\n").mapError _ >>= _ : Except Error Plan)) = _
    rw [Scan.ofSource, herror]
    rfl
  refine ⟨e, ?_⟩
  simp only [processAll, process, brokenFiles, hskipped, hfails, Plan.skipped, Staging.commitAll, Except.map]

end Generator

end RuleWeaver
