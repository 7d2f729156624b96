import RuleWeaver.Generator.Basic
import RuleWeaver.Proofs.Staging

/-!
# What a plan is made from

`Planning` holds everything that goes into the plan for a types file with candidates; a plan that succeeds either skips the
file or comes from one (`plan_cases`).
-/

namespace RuleWeaver

namespace Generator

/-- The registry file beside a types file. -/
def registryPath (g : Generator) (path : Path) : Path := path.parent.join g.config.naming.registryFile

/-- The translation file beside a types file. -/
def translationPath (g : Generator) (path : Path) : Path := path.parent.join g.config.naming.translationFile

end Generator

/-- What is read for a plan. -/
structure PlanInput where
  source : Text
  scan : Scan
  /-- The other source files of the folder, generated ones apart. -/
  others : List (Path × Text)
  /-- The registry file. -/
  existing : Option Text

namespace PlanInput

/-- What the registry file and the rest of the package declare. -/
def registered (i : PlanInput) : Registry :=
  ((i.existing.map Registry.ofSource).getD .empty).withFunctions ((i.others.map (·.2)).flatMap Detection.functions)

def required (i : PlanInput) (g : Generator) : Requirements :=
  Requirements.collect i.scan.candidates g.config.features.customValidation

def additions (i : PlanInput) (g : Generator) : Additions :=
  Additions.compute i.scan.candidates i.scan.methodTypes (i.required g) i.registered

end PlanInput

/-- How a plan for a types file with candidates comes about. -/
structure Planning (g : Generator) (w : Staging) (path : Path) (plan : Plan) extends PlanInput where
  rendering : Rendering
  registry : PlannedFile
  translation : Option PlannedFile
  types : Option Text
  read_types : w.read path = .ok (some source)
  scanned : Scan.ofSource g.config.naming.requestSuffix source = .ok scan
  candidates : scan.candidates ≠ []
  sources : w.sources path.parent [path, g.registryPath path, g.translationPath path] = .ok others
  read_registry : w.read (g.registryPath path) = .ok existing
  rendered : registryRendering (g.registryPath path) existing scan.package (toPlanInput.additions g) toPlanInput.registered
    (toPlanInput.required g) = .ok rendering
  finished : g.finish (g.registryPath path) existing rendering = .ok registry
  translated : g.planTranslation w (g.translationPath path) scan.package (toPlanInput.required g) = .ok translation
  typed : g.planTypes path source scan.tree (toPlanInput.additions g).methods
    ((others.map (·.2) ++ registry.final?.toList ++ (translation.bind (·.final?)).toList).any declaresValidator) = .ok types
  texts : plan.texts = registry.toWrite (g.registryPath path) ++ (translation.getD .none).toWrite (g.translationPath path) ++
    (types.map (path, ·)).toList

namespace Generator

variable {g : Generator} {w w' : Staging} {path : Path} {plan : Plan} {file : FoundFile} {report : FileSummary}

/-- **How plans come about.** -/
theorem plan_cases (h : g.plan w path = .ok plan) :
    (plan = .skipped ∧ ∃ source scan, w.read path = .ok (some source) ∧
      Scan.ofSource g.config.naming.requestSuffix source = .ok scan ∧ scan.candidates = []) ∨
    Nonempty (Planning g w path plan) := by
  obtain ⟨source, hsource, h⟩ := exists_of_bind_eq_ok h
  cases source with
  | none => cases h
  | some source =>
    obtain ⟨scan, hscan, h⟩ := exists_of_bind_eq_ok h
    replace hscan := ok_of_mapError_eq_ok hscan
    split at h
    · next hnone =>
      cases h
      exact .inl ⟨rfl, source, scan, hsource, hscan, List.isEmpty_iff.1 hnone⟩
    · next hsome =>
      obtain ⟨others, hothers, h⟩ := exists_of_bind_eq_ok h
      obtain ⟨existing, hexisting, h⟩ := exists_of_bind_eq_ok h
      obtain ⟨rendering, hrendering, h⟩ := exists_of_bind_eq_ok h
      obtain ⟨registry, hregistry, h⟩ := exists_of_bind_eq_ok h
      obtain ⟨translation, htranslation, h⟩ := exists_of_bind_eq_ok h
      obtain ⟨types, htypes, h⟩ := exists_of_bind_eq_ok h
      cases h
      exact .inr ⟨⟨⟨source, scan, others, existing⟩, rendering, registry, translation, types, hsource, hscan,
        fun hnone => hsome (List.isEmpty_iff.2 hnone), hothers, hexisting, hrendering, hregistry, htranslation, htypes, rfl⟩⟩

/-- A plan succeeds when each of its steps does. -/
theorem exists_planning {i : PlanInput} {rendering : Rendering} {registry : PlannedFile} {translation : Option PlannedFile}
    {types : Option Text} (hread : w.read path = .ok (some i.source))
    (hscan : Scan.ofSource g.config.naming.requestSuffix i.source = .ok i.scan) (hcandidates : i.scan.candidates ≠ [])
    (hsources : w.sources path.parent [path, g.registryPath path, g.translationPath path] = .ok i.others)
    (hexisting : w.read (g.registryPath path) = .ok i.existing)
    (hrendering : registryRendering (g.registryPath path) i.existing i.scan.package (i.additions g) i.registered (i.required g) =
      .ok rendering)
    (hregistry : g.finish (g.registryPath path) i.existing rendering = .ok registry)
    (htranslation : g.planTranslation w (g.translationPath path) i.scan.package (i.required g) = .ok translation)
    (htypes : g.planTypes path i.source i.scan.tree (i.additions g).methods
      ((i.others.map (·.2) ++ registry.final?.toList ++ (translation.bind (·.final?)).toList).any declaresValidator) = .ok types) :
    ∃ plan, g.plan w path = .ok plan ∧ ∃ P : Planning g w path plan, P.toPlanInput = i ∧ P.rendering = rendering := by
  have hsome : ¬ i.scan.candidates.isEmpty := fun h => hcandidates (List.isEmpty_iff.1 h)
  have hscan' : (Scan.ofSource g.config.naming.requestSuffix i.source).mapError (Error.source path) = .ok i.scan := by
    rw [hscan]
    rfl
  refine ⟨_, (bind_ok hread).trans <| (bind_ok hscan').trans <| (if_neg hsome).trans <| (bind_ok hsources).trans <|
    (bind_ok hexisting).trans <| (bind_ok hrendering).trans <| (bind_ok hregistry).trans <| (bind_ok htranslation).trans <|
    (bind_ok htypes).trans rfl, ?_⟩
  exact ⟨⟨i, rendering, registry, translation, types, hread, hscan, hcandidates, hsources, hexisting, hrendering, hregistry,
    htranslation, htypes, rfl⟩, rfl, rfl⟩

/-- What a plan depends on. -/
theorem plan_congr (hread : ∀ q ∈ [path, g.registryPath path, g.translationPath path], w'.read q = w.read q)
    (hsources : w'.sources path.parent [path, g.registryPath path, g.translationPath path] =
      w.sources path.parent [path, g.registryPath path, g.translationPath path]) : g.plan w' path = g.plan w path := by
  simp only [List.forall_mem_cons, List.not_mem_nil, false_implies, implies_true, and_true] at hread
  obtain ⟨hpath, hregistry, htranslation⟩ := hread
  have hscan : ∀ source scan, g.planScan w' path source scan = g.planScan w path source scan := by
    intro source scan
    unfold registryPath at hregistry hsources
    unfold translationPath at htranslation hsources
    simp only [planScan, planTranslation, hsources, hregistry, htranslation]
  simp only [plan, hpath, hscan]

lemma eq_of_mem_toWrite {f : PlannedFile} {p : Path × Text} (h : p ∈ f.toWrite path) : p.1 = path := by
  obtain ⟨t, -, rfl⟩ := Option.map_eq_some_iff.1 (Option.mem_toList.1 h)
  rfl

/-- What is written was read before. -/
theorem read_of_mem_texts (h : g.plan w path = .ok plan) {p : Path × Text} (hp : p ∈ plan.texts) :
    p.1 ∈ [path, g.registryPath path, g.translationPath path] ∧ ∃ r, w.read p.1 = .ok r := by
  rcases plan_cases h with ⟨rfl, -⟩ | hplanning
  · cases hp
  obtain ⟨P⟩ := hplanning
  rw [P.texts, List.mem_append, List.mem_append] at hp
  rcases hp with (hp | hp) | hp
  · obtain hp := eq_of_mem_toWrite hp
    rw [hp]
    exact ⟨by simp, _, P.read_registry⟩
  · have htranslated := P.translated
    unfold planTranslation at htranslated
    split at htranslated
    · rw [← Except.ok.inj htranslated] at hp
      cases hp
    · obtain ⟨r, hread, -⟩ := exists_of_bind_eq_ok htranslated
      rw [eq_of_mem_toWrite hp]
      exact ⟨by simp, r, hread⟩
  · obtain ⟨t, -, rfl⟩ := Option.map_eq_some_iff.1 (Option.mem_toList.1 hp)
    exact ⟨by simp, _, P.read_types⟩

/-- What a file that is processed was planned to become. -/
lemma exists_plan_of_process (h : g.process w file = (.ok report, w')) :
    ∃ plan writes, g.plan w file.path = .ok plan ∧ w.commitAll plan.texts = (.ok writes, w') ∧
      report = plan.report file.relative writes := by
  unfold process at h
  split at h
  · cases h
  · next plan hplan =>
    obtain ⟨writes, hwrites, rfl⟩ := exists_of_map_eq_ok (Prod.mk.inj h).1
    exact ⟨plan, writes, hplan, Prod.ext hwrites (Prod.mk.inj h).2, rfl⟩

end Generator

end RuleWeaver
