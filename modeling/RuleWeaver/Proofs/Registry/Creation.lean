import RuleWeaver.Proofs.Detection.Keys
import RuleWeaver.Proofs.Registry.Requirements
import RuleWeaver.Proofs.Registry.Sections
import RuleWeaver.Registry.Render

/-!
# Created registries

A registry file that did not exist is complete and free of duplicates (`created_registry`): it is read back as the rule map,
the `init` function and the functions that the package lacks, and exactly the required tags are found in it.
-/

namespace RuleWeaver

open Source Text
open Detection (FitsNowhere Piece)
open Requirements (collect)

variable {package name tag : Text} {imports : List NewImport} {entries : List (Text × Text)} {fs : List NewFunction}
  {f g : NewFunction} {names taken tags : List Text} {candidates : List Candidate} {custom : Bool} {required : Requirements}

/-! ### One function for each name -/

lemma firstOfEachName_sublist : (firstOfEachName taken fs).Sublist fs := by
  induction fs generalizing taken with
  | nil => exact List.Sublist.slnil
  | cons f fs ih =>
    unfold firstOfEachName
    split
    · exact ih.cons f
    · exact ih.cons_cons f

lemma nodup_firstOfEachName : ((firstOfEachName taken fs).map (·.name)).Nodup := by
  induction fs generalizing taken with
  | nil => exact List.nodup_nil
  | cons f fs ih =>
    unfold firstOfEachName
    split
    · exact ih
    · refine List.nodup_cons.2 ⟨fun hmem => ?_, ih⟩
      exact (mem_names_firstOfEachName.1 hmem).2 List.mem_cons_self

/-- Of the functions with one name the first one is kept. -/
lemma eq_or_of_mem_firstOfEachName {R : NewFunction → NewFunction → Prop} (hR : fs.Pairwise R)
    (hf : f ∈ firstOfEachName taken fs) (hg : g ∈ fs) (hname : g.name = f.name) : f = g ∨ R f g := by
  induction fs generalizing taken with
  | nil => cases hg
  | cons x fs ih =>
    obtain ⟨hx, hfs⟩ := List.pairwise_cons.1 hR
    have hnot : f.name ∉ taken := (mem_names_firstOfEachName.1 (List.mem_map_of_mem hf)).2
    rw [firstOfEachName] at hf
    split at hf
    · next hc =>
      -- the function in front has a name that is taken, so it is not the other one
      have hne : g ≠ x := by
        rintro rfl
        exact hnot (hname ▸ List.contains_iff_mem.1 hc)
      exact ih hfs hf ((List.mem_cons.1 hg).resolve_left hne)
    · rcases List.mem_cons.1 hf with rfl | hf
      · rcases List.mem_cons.1 hg with rfl | hg
        · exact .inl rfl
        · exact .inr (hx g hg)
      · have htaken := (mem_names_firstOfEachName.1 (List.mem_map_of_mem hf)).2
        have hne : g ≠ x := by
          rintro rfl
          exact htaken (hname ▸ List.mem_cons_self)
        exact ih hfs hf ((List.mem_cons.1 hg).resolve_left hne)

/-- Whether functions are those that tags need beyond the functions with given names: one for each name, in the order of the
smallest tags that use the names. -/
structure AreNeeded (tags names : List Text) (fs : List NewFunction) : Prop where
  nodup : (fs.map (·.name)).Nodup
  mem_names : ∀ name, name ∈ fs.map (·.name) ↔ name ∉ names ∧ ∃ tag ∈ tags, Rule.defaultFunction tag = name
  mem_tags : ∀ f ∈ fs, f.tag ∈ tags ∧ Rule.defaultFunction f.tag = f.name
  smallest : ∀ f ∈ fs, ∀ tag ∈ tags, Rule.defaultFunction tag = f.name → le f.tag tag
  ordered : fs.Pairwise fun f g => le f.tag g.tag ∧ f.tag ≠ g.tag

lemma boundFunction_empty : (Registry.empty.withFunctions names).boundFunction tag = Rule.defaultFunction tag := rfl

lemma isImplemented_empty (h : isPlainTag tag) :
    (Registry.empty.withFunctions names).isImplemented tag ↔ Rule.defaultFunction tag ∈ names := by
  have hdot : '.' ∉ Rule.defaultFunction tag := by
    have hlocal := isLocalName_defaultFunction h
    generalize Rule.defaultFunction tag = name at hlocal ⊢
    rcases name with _ | ⟨c, s⟩
    · cases hlocal
    · rw [Snippet.isLocalName, Bool.and_eq_true] at hlocal
      rw [List.mem_cons, not_or]
      constructor
      · rintro rfl
        exact absurd hlocal.1 (by decide)
      · exact fun hmem => absurd (List.all_eq_true.1 hlocal.2 _ hmem) (by decide)
  have hfunctions : Rule.defaultFunction tag ∈ (Registry.empty.withFunctions names).functions ↔ Rule.defaultFunction tag ∈ names := by
    rw [Registry.withFunctions, mem_foldl_insert]
    simp [Registry.empty]
  rw [Registry.isImplemented, boundFunction_empty, Bool.or_eq_true, List.contains_iff_mem, List.contains_iff_mem, hfunctions,
    or_iff_right hdot]

/-- The functions that are added where there is no registry are those that are needed. -/
lemma areNeeded_compute {types : List Text} (hascending : IsAscending required.tags) (htags : ∀ tag ∈ required.tags, isPlainTag tag) :
    AreNeeded required.tags names (Additions.compute candidates types required (Registry.empty.withFunctions names)).functions := by
  obtain ⟨all, hall⟩ : ∃ all : List NewFunction,
      all = (required.tags.filter fun tag => !(Registry.empty.withFunctions names).isImplemented tag).map fun tag =>
        ⟨tag, (Registry.empty.withFunctions names).boundFunction tag⟩ := ⟨_, rfl⟩
  have hfs : ∀ f, f ∈ all ↔ f.tag ∈ required.tags ∧ Rule.defaultFunction f.tag = f.name ∧ f.name ∉ names := by
    intro f
    rw [hall, List.mem_map]
    simp only [List.mem_filter, Bool.not_eq_true', boundFunction_empty]
    constructor
    · rintro ⟨tag, ⟨htag, himplemented⟩, rfl⟩
      exact ⟨htag, rfl, fun hmem => by simp [(isImplemented_empty (htags tag htag)).2 hmem] at himplemented⟩
    · rintro ⟨htag, hname, hnot⟩
      refine ⟨f.tag, ⟨htag, ?_⟩, by rw [hname]⟩
      rw [Bool.eq_false_iff, ne_eq, isImplemented_empty (htags f.tag htag), hname]
      exact hnot
  have hpairwise : all.Pairwise fun f g => le f.tag g.tag ∧ f.tag ≠ g.tag := by
    rw [hall]
    exact List.pairwise_map.2 (List.Pairwise.filter _ hascending)
  rw [Additions.functions_compute, ← hall]
  have hmem : ∀ f ∈ firstOfEachName [] all, f.tag ∈ required.tags ∧ Rule.defaultFunction f.tag = f.name ∧ f.name ∉ names :=
    fun f hf => (hfs f).1 (firstOfEachName_sublist.mem hf)
  refine ⟨nodup_firstOfEachName, fun name => ?_, fun f hf => ⟨(hmem f hf).1, (hmem f hf).2.1⟩, fun f hf tag htag hname => ?_,
    hpairwise.sublist firstOfEachName_sublist⟩
  · rw [mem_names_firstOfEachName, List.mem_map]
    constructor
    · rintro ⟨⟨f, hf, rfl⟩, -⟩
      obtain ⟨htag, hname, hnot⟩ := (hfs f).1 hf
      exact ⟨hnot, f.tag, htag, hname⟩
    · rintro ⟨hnot, tag, htag, hname⟩
      exact ⟨⟨⟨tag, name⟩, (hfs ⟨tag, name⟩).2 ⟨htag, hname, hnot⟩, rfl⟩, List.not_mem_nil⟩
  · have hother : (⟨tag, f.name⟩ : NewFunction) ∈ all := (hfs ⟨tag, f.name⟩).2 ⟨htag, hname, (hmem f hf).2.2⟩
    rcases eq_or_of_mem_firstOfEachName hpairwise hf hother rfl with heq | hbefore
    · rw [heq]
      exact Text.le_total.elim id id
    · exact hbefore.1

/-! ### Names of functions -/

lemma lex_of_all_isNameChar {c : Char} {s : Text} (hc : isNameStart c) (hs : s.all isNameChar) :
    lex (c :: s) = [⟨wordKind (c :: s), c :: s⟩] := by
  have hrun : run isNameChar s = s.length := by
    rw [run, List.takeWhile_eq_self_iff.2 (List.all_eq_true.1 hs)]
  have hblank : isBlank c = false := not_isBlank_of_isPathChar (by rw [isPathChar, isNameChar, hc]; rfl)
  rw [lex]
  simp [munch, hblank, hc, hrun, lex_nil]

/-- The function of a plain tag has a name. -/
lemma isName_defaultFunction (h : isPlainTag tag) : IsName (Rule.defaultFunction tag) := by
  obtain ⟨s, hs⟩ : ∃ s, Rule.defaultFunction tag = 'v' :: 'a' :: 'l' :: s := by
    unfold Rule.defaultFunction
    cases hseeded : Rule.seeded.lookup tag with
    | some name =>
      obtain ⟨l₁, l₂, hmem, -⟩ := List.lookup_eq_some_iff.1 hseeded
      have hval : ∀ e ∈ Rule.seeded, e.2 = 'v' :: 'a' :: 'l' :: e.2.drop 3 := by decide +kernel
      exact ⟨_, hval (tag, name) (by rw [hmem]; simp)⟩
    | none =>
      rcases tag with _ | ⟨c, t⟩
      · exact ⟨_, rfl⟩
      · exact ⟨_, rfl⟩
  have hlocal := isLocalName_defaultFunction h
  rw [hs, Snippet.isLocalName, Bool.and_eq_true] at hlocal
  have hall : ('a' :: 'l' :: s).all isNameChar :=
    List.all_eq_true.2 fun d hd => isNameChar_of_isWord (List.all_eq_true.1 hlocal.2 d hd)
  rw [IsName, hs, lex_of_all_isNameChar (by decide) hall]
  rfl

/-- The functions that are added are read one behind the other. -/
lemma isSection_functionTexts (h : ∀ f ∈ fs, IsAddable f ∧ IsName f.name) :
    IsSection (functionBlocks [] (functionTexts fs)) (fs.map fun f => .function ⟨f.name, none, none⟩) := by
  induction fs with
  | nil => exact .nil
  | cons f fs ih =>
    obtain ⟨haddable, hname⟩ := h f List.mem_cons_self
    have hrest := ih fun g hg => h g (List.mem_cons_of_mem f hg)
    exact (IsSection.newline.append (isSection_functionText haddable hname)).append hrest

/-! ### Calls that register rules -/

/-- How a call begins that registers a rule. -/
def registrationHead : List Piece := [.text "RegisterValidation(", .gap, .text "\""]

lemma registrations_eq_nil {s : Text} (h : FitsNowhere registrationHead (commentsBlanked s) []) :
    Detection.registrations s = [] := by
  have hnone : ∀ b u, Detection.readShape? registrationHead u = none → Detection.readRegistration? b u = none := by
    intro b u hu
    unfold Detection.readRegistration?
    cases hcall : Detection.readShape? [.text "RegisterValidation(", .gap] u with
    | none => rfl
    | some rest =>
      have hsplit : registrationHead = [.text "RegisterValidation(", .gap] ++ [.text "\""] := rfl
      rw [hsplit, Detection.readShape?_append_pieces, hcall, Option.bind_some, Detection.readShape?] at hu
      have hquote : strip? "\"" rest = none := by
        cases hstrip : strip? "\"" rest with
        | none => rfl
        | some t =>
          rw [hstrip, Option.bind_some, Detection.readShape?] at hu
          cases hu
      have hplain : Detection.readPlainString? rest = none := by rw [Detection.readPlainString?, hquote]; rfl
      simp only [hplain, bind, Option.bind_some, Option.bind_none]
  have hall : Detection.findAll Detection.readRegistration? true (commentsBlanked s ++ []) =
      Detection.findAll Detection.readRegistration? (Detection.freshBehind true (commentsBlanked s)) [] :=
    Detection.findAll_append_of_none fun u v huv hv => hnone _ _ (h u v huv hv)
  rw [List.append_nil, Detection.findAll_nil] at hall
  exact hall

lemma fitsNowhere_of_no_R {a b : Text} (h : 'R' ∉ a) : FitsNowhere registrationHead a b := Detection.fitsNowhere_of_not_mem h

/-- A call does not begin where its parenthesis is missing. -/
lemma fitsNowhere_of_no_paren {a b : Text} {c : Char} (ha : '(' ∉ a) (hc : c ∉ "RegisterValidation(".toList) :
    FitsNowhere registrationHead a (c :: b) := by
  intro u v huv _
  have hstrip : strip? "RegisterValidation(" v = none := by
    by_contra hsome
    obtain ⟨rest, hrest⟩ := Option.ne_none_iff_exists'.1 hsome
    refine ha ?_
    rw [huv, strip?_eq_some_iff.1 hrest]
    exact List.mem_append_right _ (List.mem_append_left _ (by decide))
  rw [registrationHead, Detection.readShape?, strip?_append_cons hc, hstrip]
  rfl

/-- A function whose parameters begin with a name is no call with a quoted argument. -/
lemma fitsNowhere_of_head {a b : Text} {c : Char} (ha : '(' ∉ a) (hc : Unicode.isSpace c = false) (hquote : c ≠ '\"') :
    FitsNowhere registrationHead a ('(' :: c :: b) := by
  intro u v huv _
  have hv : '(' ∉ v := fun hmem => ha (huv ▸ List.mem_append_right u hmem)
  rw [registrationHead, Detection.readShape?, Option.bind_eq_none_iff]
  intro rest hrest
  have hsplit : v ++ '(' :: c :: b = "RegisterValidation".toList ++ '(' :: rest := by
    rw [strip?_eq_some_iff.1 hrest]
    rfl
  have hrest : rest = c :: b := by
    have hdrop : ∀ w z : Text, '(' ∉ w → (w ++ '(' :: z).dropWhile (· ≠ '(') = '(' :: z := by
      intro w z hw
      rw [List.dropWhile_append_of_pos fun d hd => by simpa using fun e : d = '(' => hw (e ▸ hd),
        List.dropWhile_cons_of_neg (by simp)]
    have hbehind := congrArg (List.dropWhile (· ≠ '(')) hsplit
    rw [hdrop _ _ hv, hdrop _ _ (by decide)] at hbehind
    exact (List.cons.inj hbehind).2.symm
  have hgap : Detection.skipGap (c :: b) = c :: b := by simp [Detection.skipGap, hc]
  rw [hrest, Detection.readShape?, hgap, Detection.readShape?]
  simp [strip?, Ne.symm hquote]

/-- No rule is registered by a call in a function that is added. -/
lemma fitsNowhere_functionText {b : Text} (hf : IsAddable f) :
    FitsNowhere registrationHead (commentsBlanked ((Snippet.knownFunction? f.name).getD (Snippet.stub f.tag f.name))) b := by
  cases hknown : Snippet.knownFunction? f.name with
  | some text =>
    rw [Option.getD_some]
    refine fitsNowhere_of_no_R ?_
    unfold Snippet.knownFunction? at hknown
    split at hknown
    · cases hknown
      unfold Snippet.mobileFunction Snippet.lines
      simp only [List.flatMap_cons, List.flatMap_nil]
      repeat rw [String.toList_ofList]
      decide +kernel
    split at hknown
    · cases hknown
      unfold Snippet.idCardFunction Snippet.lines
      simp only [List.flatMap_cons, List.flatMap_nil]
      repeat rw [String.toList_ofList]
      decide +kernel
    · cases hknown
  | none =>
    have hline := Snippet.newline_not_mem_of_isLocalName hf.2
    have hspaces : ∀ {s : Text}, '\n' ∉ s → 'R' ∉ blanked s := fun hs hmem => absurd (eq_space_of_mem_blanked hs hmem) (by decide)
    have hcomment : 'R' ∉ blanked ('/' :: '/' :: Snippet.stubComment f.tag f.name) ++ ['\n'] ++ "func ".toList := by
      rw [List.mem_append, List.mem_append, not_or, not_or]
      exact ⟨⟨hspaces (by simpa using Snippet.not_mem_stubComment hf.1 hline), by decide⟩, by decide⟩
    have hname : '(' ∉ f.name := fun hmem =>
      absurd (List.all_eq_true.1 (Snippet.all_isPathChar_of_isLocalName hf.2) _ hmem) (by decide)
    have hbody : 'R' ∉ "(fl validator.FieldLevel) bool \x7b\n\t".toList ++
        (blanked ('/' :: '/' :: Snippet.stubNote f.tag) ++ "\n\treturn true\n\x7d\n".toList) := by
      rw [List.mem_append, List.mem_append, not_or, not_or]
      exact ⟨by decide, hspaces (by simpa using Snippet.not_mem_stubNote hf.1), by decide⟩
    have hsplit : commentsBlanked (Snippet.stub f.tag f.name) =
        (blanked ('/' :: '/' :: Snippet.stubComment f.tag f.name) ++ ['\n'] ++ "func ".toList) ++ (f.name ++
          ("(fl validator.FieldLevel) bool \x7b\n\t".toList ++
            (blanked ('/' :: '/' :: Snippet.stubNote f.tag) ++ "\n\treturn true\n\x7d\n".toList))) := by
      rw [Snippet.commentsBlanked_stub hf.1 hf.2]
      simp only [List.append_assoc]
      rfl
    rw [Option.getD_none, hsplit]
    exact .append (fitsNowhere_of_no_R hcomment)
      (.append (fitsNowhere_of_head (c := 'f') hname (by decide) (by decide)) (fitsNowhere_of_no_R hbody))

/-- The imports of a registry file that did not exist. -/
def newImports (fs : List NewFunction) : List NewImport :=
  ⟨none, Snippet.validatorPath⟩ :: (if needsRegexp fs then [⟨none, "regexp"⟩] else [])

lemma isImportLine_newImports : ∀ l ∈ newImports fs, IsImportLine l := by
  intro l hl n hn
  unfold newImports at hl
  split at hl
  · simp only [List.mem_cons, List.not_mem_nil, or_false] at hl
    rcases hl with rfl | rfl <;> cases hn
  · rw [List.mem_singleton.1 hl] at hn
    cases hn

lemma fitsNowhere_head {b : Text} (hp : IsName package) :
    FitsNowhere registrationHead (headCode package (newImports fs) ++ (Snippet.ruleMapHead ++ ['\x7b', '\n'])) b := by
  have hpackage : '(' ∉ "package ".toList ++ package := by
    rw [List.mem_append, not_or]
    exact ⟨by decide, fun hmem => absurd (List.all_eq_true.1 hp.all_isPathChar _ hmem) (by decide)⟩
  have hline : ∀ l ∈ newImports fs, 'R' ∉ lineText l := by
    intro l hl
    have hvalidator : 'R' ∉ lineText ⟨none, Snippet.validatorPath⟩ := by decide +kernel
    have hregexp : 'R' ∉ lineText ⟨none, "regexp"⟩ := by decide +kernel
    unfold newImports at hl
    split at hl
    · rcases List.mem_cons.1 hl with rfl | hl
      · exact hvalidator
      · exact List.mem_singleton.1 hl ▸ hregexp
    · exact List.mem_singleton.1 hl ▸ hvalidator
  have himports : 'R' ∉ renderImports (newImports fs) := by
    have hgap : 'R' ∉ groupGap (newImports fs) '\n' := by
      rcases groupGap_cases (newImports fs) '\n' with e | e <;> rw [e] <;> decide
    have hstandard : 'R' ∉ (standardLines (newImports fs)).flatMap lineText := fun h => by
      obtain ⟨l, hl, hmem⟩ := List.mem_flatMap.1 h
      exact hline l (mem_of_mem_standardLines hl) hmem
    have hother : 'R' ∉ (otherLines (newImports fs)).flatMap lineText := fun h => by
      obtain ⟨l, hl, hmem⟩ := List.mem_flatMap.1 h
      exact hline l (mem_of_mem_otherLines hl) hmem
    rw [renderImports_eq]
    simp only [List.mem_append, not_or]
    exact ⟨by decide, hstandard, hgap, hother, by decide⟩
  have hrest : 'R' ∉ '\n' :: '\n' :: (renderImports (newImports fs) ++ ('\n' :: (blanked Snippet.ruleMapComment ++ ['\n']) ++
      (Snippet.ruleMapHead ++ ['\x7b', '\n']))) := by
    have hmap : 'R' ∉ '\n' :: (blanked Snippet.ruleMapComment ++ ['\n']) ++ (Snippet.ruleMapHead ++ ['\x7b', '\n']) := by
      decide +kernel
    rw [List.mem_cons, List.mem_cons, List.mem_append, not_or, not_or, not_or]
    exact ⟨by decide, by decide, himports, hmap⟩
  have hsplit : headCode package (newImports fs) ++ (Snippet.ruleMapHead ++ ['\x7b', '\n']) =
      ("package ".toList ++ package) ++ ('\n' :: '\n' :: (renderImports (newImports fs) ++
        ('\n' :: (blanked Snippet.ruleMapComment ++ ['\n']) ++ (Snippet.ruleMapHead ++ ['\x7b', '\n'])))) := by
    have hbreaks : "\n\n".toList = ['\n', '\n'] := by decide
    unfold headCode
    generalize Snippet.ruleMapHead = head
    generalize blanked Snippet.ruleMapComment = comment
    rw [hbreaks]
    simp only [List.append_assoc, List.cons_append, List.nil_append]
  rw [hsplit]
  exact .append (fitsNowhere_of_no_paren hpackage (by decide)) (fitsNowhere_of_no_R hrest)

lemma fitsNowhere_registerAll {b : Text} : FitsNowhere registrationHead (commentsBlanked Snippet.registerAll) b := by
  obtain ⟨u, hu, hnone⟩ : ∃ u, commentsBlanked Snippet.registerAll = u ++ ['\x7d', '\n'] ∧
      Detection.endOfShape? registrationHead 0 u = none := by
    refine ⟨(commentsBlanked Snippet.registerAll).dropLast.dropLast, ?_, ?_⟩
    · unfold Snippet.registerAll Snippet.lines
      simp only [List.flatMap_cons, List.flatMap_nil]
      repeat rw [String.toList_ofList]
      decide +kernel
    · unfold Snippet.registerAll Snippet.lines
      simp only [List.flatMap_cons, List.flatMap_nil]
      repeat rw [String.toList_ofList]
      decide +kernel
  have hbrace : ∀ p, Piece.text p ∈ registrationHead → '\x7d' ∉ p := by
    intro p hp
    simp only [registrationHead, List.mem_cons, List.not_mem_nil, or_false, Piece.text.injEq, reduceCtorEq, false_or] at hp
    rcases hp with rfl | rfl <;> decide
  rw [hu]
  exact .append ((Detection.endOfShape?_eq_none_iff.1 hnone).before (by decide) hbrace) (fitsNowhere_of_no_R (by decide))

lemma fitsNowhere_entries {b : Text} (htags : ∀ e ∈ entries, isPlainTag e.1) (he : AreEntries entries) :
    FitsNowhere registrationHead (entries.flatMap fun e => GrowingMap.renderEntry e.1 (.name e.2)) ('\x7d' :: b) := by
  refine fitsNowhere_of_no_paren (fun hmem => ?_) (by decide)
  obtain ⟨⟨tag, function⟩, hentry, hmem⟩ := List.mem_flatMap.1 hmem
  have htag : '(' ∉ quote tag := by
    have hplain := htags _ hentry
    rw [quote, flatMap_quoteChar_of_isPlainTag hplain, List.mem_cons, List.mem_append, not_or, not_or]
    rw [isPlainTag, Bool.and_eq_true] at hplain
    exact ⟨by decide, fun h => absurd (List.all_eq_true.1 hplain.2 _ h) (by decide), by decide⟩
  have hfunction : '(' ∉ function :=
    GrowingMap.not_mem_of_isPathChar (all_isPathChar_of_isFunctionName (he _ hentry)) (by decide)
  simp [GrowingMap.renderEntry, EntryValue.render, htag, hfunction] at hmem

/-- No rule is registered by a call in a registry file that did not exist. -/
lemma registrations_registryText (hp : IsName package) (htags : ∀ e ∈ entries, isPlainTag e.1) (he : AreEntries entries)
    (hfs : ∀ f ∈ fs, IsAddable f) :
    Detection.registrations (registryText package (newImports fs) entries [] (functionTexts fs)) = [] := by
  have hblocks : ∀ gs : List NewFunction, (∀ f ∈ gs, IsAddable f) →
      FitsNowhere registrationHead (commentsBlanked (functionBlocks [] (functionTexts gs))) [] := by
    intro gs hgs
    induction gs with
    | nil =>
      have hnil : commentsBlanked (functionBlocks [] (functionTexts [])) = [] := by
        rw [commentsBlanked_eq]
        exact congrArg codeOf lex_nil
      rw [hnil]
      exact Detection.fitsNowhere_nil
    | cons f gs ih =>
      have hf := hgs f List.mem_cons_self
      have hsplit : functionBlocks [] (functionTexts (f :: gs)) =
          '\n' :: (((Snippet.knownFunction? f.name).getD (Snippet.stub f.tag f.name)) ++ functionBlocks [] (functionTexts gs)) := rfl
      rw [hsplit, (declares_of_isAddable hf).commentsBlanked_append]
      exact .append (a := ['\n']) (fitsNowhere_of_no_R (by decide))
        (.append (fitsNowhere_functionText hf) (ih fun g hg => hgs g (List.mem_cons_of_mem f hg)))
  apply registrations_eq_nil
  rw [commentsBlanked_registryText hp isImportLine_newImports he, Snippet.declares_registerAll.commentsBlanked_append,
    ← List.append_assoc]
  refine .append (fitsNowhere_head hp) (.append (fitsNowhere_entries htags he) ?_)
  refine .append (a := ['\x7d', '\n']) (fitsNowhere_of_no_R (by decide)) ?_
  exact .append (a := ['\n']) (fitsNowhere_of_no_R (by decide)) (.append fitsNowhere_registerAll (hblocks fs hfs))

/-! ### The file -/

/-- The import specs that a file begins with are those of its tree. -/
lemma importSpecs_of_parse {s : Text} {tree : Tree} (h : parse s = .ok tree) :
    importSpecs s = tree.imports.flatMap (·.specs) := by
  obtain ⟨-, -, p, c, is, c', ds, hclause, himports, -, rfl⟩ := parse_eq_ok h
  rw [importSpecs, hclause]
  simp only [himports, Tree.withComments, List.flatMap_map]

lemma foundRules_of_isPlainTag (h : ∀ e ∈ entries, isPlainTag e.1) :
    foundRules entries = entries.map fun (tag, function) => ⟨tag, some function⟩ := by
  have hall : entries.filter (·.1 ≠ []) = entries := List.filter_eq_self.2 fun e he => by
    have hne : e.1 ≠ [] := by
      rintro hnil
      have := h e he
      rw [hnil] at this
      cases this
    exact decide_eq_true hne
  rw [foundRules, hall]
  refine List.map_congr_left fun e he => ?_
  dsimp only
  rw [flatMap_quoteChar_of_isPlainTag (h e he)]

/-- What is found in a registry file that did not exist. -/
lemma ofSource_registryText (hp : IsName package) (htags : ∀ e ∈ entries, isPlainTag e.1) (he : AreEntries entries)
    (hfs : ∀ f ∈ fs, IsAddable f) :
    (Registry.ofSource (registryText package (newImports fs) entries [] (functionTexts fs))).tags = toSet (entries.map Prod.fst) ∧
      (Registry.ofSource (registryText package (newImports fs) entries [] (functionTexts fs))).bindings = entries ∧
      (Registry.ofSource (registryText package (newImports fs) entries [] (functionTexts fs))).registrations = [] := by
  have hpath : ∀ l ∈ newImports fs, FitsNowhere Detection.ruleMapHead (l.path.flatMap quoteChar) [] := by
    have hclosed : ∀ path ∈ [Snippet.validatorPath, "regexp".toList], '=' ∉ path.flatMap quoteChar := by decide +kernel
    intro l hl
    refine Detection.fitsNowhere_of_missing (p := ['=']) (by simp [Detection.ruleMapHead]) (c := '=') (by decide) (hclosed l.path ?_)
    unfold newImports at hl
    split at hl
    · rcases List.mem_cons.1 hl with rfl | hl
      · exact List.mem_cons_self
      · rw [List.mem_singleton.1 hl]
        exact List.mem_cons_of_mem _ List.mem_cons_self
    · rw [List.mem_singleton.1 hl]
      exact List.mem_cons_self
  obtain ⟨m, hmap, hentries⟩ : ∃ m, Detection.findMap? Detection.ruleMapHead
      (registryText package (newImports fs) entries [] (functionTexts fs)) = some m ∧
        m.entries (registryText package (newImports fs) entries [] (functionTexts fs)) = foundRules entries :=
    findMap?_registryText hp isImportLine_newImports hpath he
  have hcalls := registrations_registryText hp htags he hfs
  rw [foundRules_of_isPlainTag htags] at hentries
  simp only [Registry.ofSource, hmap, hcalls, Option.map_some, Option.getD_some, hentries, List.map_map, List.map_nil,
    List.append_nil, List.filterMap_map, List.filterMap_nil]
  refine ⟨rfl, ?_, trivial⟩
  exact List.filterMap_some

lemma importOf?_regexp_isSome_iff {kept functions : List Text} {tree : Tree} (hp : IsName package)
    (htree : parse (registryText package (newImports fs) entries kept functions) = .ok tree) :
    (tree.importOf? "regexp").isSome ↔ needsRegexp fs := by
  have hlines : (importSpecs (registryText package (newImports fs) entries kept functions)).map ImportSpec.line =
      orderedLines (newImports fs) := importSpecs_registryText hp isImportLine_newImports
  rw [importSpecs_of_parse htree] at hlines
  have hmem : ∀ l, l ∈ newImports fs ↔ ∃ s ∈ tree.imports.flatMap (·.specs), s.line = l := by
    intro l
    rw [← mem_orderedLines, ← hlines, List.mem_map]
  have hne : Snippet.validatorPath ≠ "regexp".toList := by decide +kernel
  rw [Tree.importOf?, List.find?_isSome]
  constructor
  · rintro ⟨s, hs, hpath⟩
    have hline : s.line ∈ newImports fs := (hmem s.line).2 ⟨s, hs, rfl⟩
    have hpath : s.line.path = "regexp".toList := of_decide_eq_true hpath
    unfold newImports at hline
    split at hline
    · assumption
    · rw [List.mem_singleton.1 hline] at hpath
      exact absurd hpath hne
  · intro hneeds
    obtain ⟨s, hs, hline⟩ := (hmem ⟨none, "regexp"⟩).1 (by simp [newImports, hneeds])
    exact ⟨s, hs, decide_eq_true (congrArg NewImport.path hline)⟩

/-- The functions of a registry file stand in its text. -/
lemma isInfix_registryText {functions : List Text} {t : Text} (ht : t ∈ functions) :
    t <:+: registryText package imports entries [] functions := by
  obtain ⟨before, behind, rfl⟩ := List.append_of_mem ht
  have hblocks : t <:+: functionBlocks [] (before ++ t :: behind) := by
    refine ⟨before.flatMap ('\n' :: ·) ++ ['\n'], behind.flatMap ('\n' :: ·), ?_⟩
    simp [functionBlocks]
  have htail : t <:+: registryTail [] (before ++ t :: behind) := by
    rw [registryTail_eq]
    exact hblocks.trans (List.suffix_append ('\n' :: '\n' :: Snippet.registerAll) _).isInfix
  rw [registryText_eq]
  exact htail.trans ((List.suffix_append _ _).isInfix.trans (List.suffix_append _ _).isInfix)

/-- **A created registry is complete.**  Where there is no registry and the functions with the given names are declared by the
rest of the package, the file that is made is read as the rule map, the `init` function, and one function for each required
name that is missing, in the order of the smallest tags.  Exactly the required tags are found in it, each bound to its
function, and regular expressions are imported if a function that uses them is there. -/
theorem created_registry (hp : IsName package)
    (htags : ∀ tag ∈ (collect candidates custom).tags, tag.all fun c => c.isAlphanum || c = '_' || c = '-')
    (names types : List Text) (file : Text) :
    let required := collect candidates custom
    let registry := Registry.empty.withFunctions names
    let additions := Additions.compute candidates types required registry
    ∃ text tree, registryRendering file none package additions registry required = .ok (.created text) ∧
      parse text = .ok tree ∧ IsAscending required.tags ∧ AreNeeded required.tags names additions.functions ∧
      tree.decls.map (·.kind.shape) = .vars ["registerValidation"] :: .function ⟨"init", none, none⟩ ::
        additions.functions.map (fun f => .function ⟨f.name, none, none⟩) ∧
      (Registry.ofSource text).tags = required.tags ∧
      (Registry.ofSource text).bindings = required.tags.map (fun tag => (tag, Rule.defaultFunction tag)) ∧
      (Registry.ofSource text).registrations = [] ∧
      ((tree.importOf? "regexp").isSome ↔
        ∃ f ∈ additions.functions, ∃ body, Snippet.knownFunction? f.name = some body ∧ body <:+: text) := by
  intro required registry additions
  have hplain : ∀ tag ∈ required.tags, isPlainTag tag := by
    intro tag htag
    have hne : tag ≠ [] := Requirements.ne_nil_of_mem_tags_collect htag
    rw [isPlainTag, htags tag htag, Bool.and_true, Bool.not_eq_true']
    exact List.isEmpty_eq_false_iff.2 hne
  have hneeded : AreNeeded required.tags names additions.functions := areNeeded_compute Requirements.isAscending_collect hplain
  have haddable : ∀ f ∈ additions.functions, IsAddable f ∧ IsName f.name := by
    intro f hf
    obtain ⟨htag, hname⟩ := hneeded.mem_tags f hf
    have hf := hplain f.tag htag
    rw [← hname]
    exact ⟨⟨newline_not_mem_of_isPlainTag hf, hname ▸ isLocalName_defaultFunction hf⟩, isName_defaultFunction hf⟩
  have hbindings : additions.bindings.map (fun b => (b.tag, b.function)) =
      required.tags.map fun tag => (tag, Rule.defaultFunction tag) := by
    have hall : required.tags.filter (fun tag => !registry.tags.contains tag) = required.tags :=
      List.filter_eq_self.2 fun tag _ => rfl
    rw [Additions.bindings_compute, hall, List.map_map]
    rfl
  obtain ⟨entries, hentries⟩ : ∃ entries, entries = required.tags.map fun tag => (tag, Rule.defaultFunction tag) := ⟨_, rfl⟩
  have hentry : ∀ e ∈ entries, isPlainTag e.1 ∧ isFunctionName e.2 := by
    intro e he
    rw [hentries] at he
    obtain ⟨tag, htag, rfl⟩ := List.mem_map.1 he
    exact ⟨hplain tag htag, isFunctionName_of_isLocalName (isLocalName_defaultFunction (hplain tag htag))⟩
  have htext : newRegistry package additions =
      registryText package (newImports additions.functions) entries [] (functionTexts additions.functions) := by
    rw [newRegistry, hbindings, hentries]
    rfl
  obtain ⟨tree, htree, hshapes⟩ := exists_parse_registryText hp (@isImportLine_newImports additions.functions)
    (fun e he => (hentry e he).2) (isSection_functionTexts haddable)
  obtain ⟨hfound, hbound, hcalls⟩ := ofSource_registryText hp (fun e he => (hentry e he).1) (fun e he => (hentry e he).2)
    fun f hf => (haddable f hf).1
  have hkeys : entries.map Prod.fst = required.tags := by
    rw [hentries, List.map_map]
    exact List.map_id _
  rw [hkeys] at hfound
  rw [← htext] at htree hfound hbound hcalls
  refine ⟨newRegistry package additions, tree, rfl, htree, Requirements.isAscending_collect, hneeded, hshapes, ?_, hbound.trans hentries, hcalls, ?_⟩
  · rw [hfound]
    exact isAscending_toSet.ext Requirements.isAscending_collect fun tag => mem_toSet
  · rw [htext] at htree
    rw [importOf?_regexp_isSome_iff hp htree, needsRegexp, List.any_eq_true]
    refine exists_congr fun f => and_congr_right fun hf => ?_
    rw [Option.isSome_iff_exists]
    refine exists_congr fun body => (and_iff_left_of_imp fun hbody => ?_).symm
    rw [htext]
    refine isInfix_registryText (List.mem_map.2 ⟨f, hf, ?_⟩)
    rw [hbody, Option.getD_some]

/-! ### Tags that share a function -/

/-- A type whose rules share functions with each other, with a seeded rule and with the rest of the package. -/
def sharingTypes : List Candidate := [⟨"AReq", [⟨"X", "validate:\"zip,a_b,Mobile,a-b\""⟩]⟩]

def sharingEntries : List (Text × Text) := [("Mobile", "validateMobile"), ("a-b", "validateA_b"), ("a_b", "validateA_b"),
  ("idcard", "validateIdCard"), ("mobile", "validateMobile"), ("zip", "validateZip")]

/-- Two tags with one function get one, and a function that the package has is not made again. -/
theorem created_registry_of_sharingTypes :
    ∃ text tree, registryRendering "r.go" none "types" (Additions.compute sharingTypes [] (collect sharingTypes true)
        (Registry.empty.withFunctions ["validateZip"])) (Registry.empty.withFunctions ["validateZip"]) (collect sharingTypes true) =
          .ok (.created text) ∧
      parse text = .ok tree ∧ tree.decls.map (·.kind.shape) = [.vars ["registerValidation"], .function ⟨"init", none, none⟩,
        .function ⟨"validateMobile", none, none⟩, .function ⟨"validateA_b", none, none⟩, .function ⟨"validateIdCard", none, none⟩] ∧
      (Registry.ofSource text).bindings = sharingEntries := by
  have hp : IsName "types" := by unfold IsName; decide +kernel
  have htags : ∀ tag ∈ (collect sharingTypes true).tags, tag.all fun c => c.isAlphanum || c = '_' || c = '-' := by decide +kernel
  have hrequired : (collect sharingTypes true).tags.map (fun tag => (tag, Rule.defaultFunction tag)) = sharingEntries := by
    decide +kernel
  have hfunctions : (Additions.compute sharingTypes [] (collect sharingTypes true) (Registry.empty.withFunctions ["validateZip"])).functions =
      [⟨"Mobile", "validateMobile"⟩, ⟨"a-b", "validateA_b"⟩, ⟨"idcard", "validateIdCard"⟩] := by decide +kernel
  obtain ⟨text, tree, hrendering, htree, -, -, hshapes, -, hbindings, -⟩ := created_registry hp htags ["validateZip"] [] "r.go"
  rw [hfunctions] at hshapes
  exact ⟨text, tree, hrendering, htree, hshapes, hbindings.trans hrequired⟩

end RuleWeaver
