import RuleWeaver.Proofs.Detection.Braces
import RuleWeaver.Proofs.Document.Edits
import RuleWeaver.Proofs.Registry.Parts
import RuleWeaver.Registry.Render
import RuleWeaver.Translation.Render

/-!
# Updates only add

What merging makes of a registry or translation file that exists.  New text goes into the old one, in front of the bracket
that closes the map literal, behind the imports and at the end; all that may go is white space in front of that bracket
(`OnlyAdds`).  The bracket itself is written as a brace, so this is the case exactly if it was one
(`updates_only_add_iff`).
-/

namespace RuleWeaver

open Source (Tree parse)
open Detection (findMap? ruleMapHead messageMapHead)

variable {existing updated package file appended : Text} {tree : Tree} {m : MapBraces} {additions : Additions}
  {entries : List (Text × EntryValue)} {others functions : List Text} {close : Char}

/-- Whether the bracket that ends a map literal is a brace. -/
def MapBraces.EndsInBrace (m : MapBraces) (s : Text) : Prop := ∃ u v, s = u ++ '}' :: v ∧ u.width = m.closing

/-- What becomes of a text when the map literal in it, which ends in a bracket at an offset, gains entries and ends in a
brace.  A comma goes in front of the entries if need be, and other pieces go in elsewhere; white space in front of the
bracket goes. -/
def IsGrown (closing : Nat) (close : Char) (entries : List (Text × EntryValue)) (others : List Text)
    (appended old new : Text) : Prop :=
  ∃ (front blanks behind front' behind' : Text) (others₁ others₂ comma : List Text), old = front ++ (blanks ++ close :: behind) ∧
    (front ++ blanks).width = closing ∧ blanks.all Unicode.isSpace ∧
    new = front' ++ (GrowingMap.bodyText entries ++ '}' :: (behind' ++ appended)) ∧ others = others₁ ++ others₂ ∧
    (comma = [] ∨ comma = [","]) ∧ Inserted (others₁ ++ comma) front front' ∧ Inserted others₂ behind behind'

/-- Whether a text gains pieces and loses nothing: entries at the closing brace of a map literal, where white space may go,
and other pieces elsewhere. -/
def OnlyAdds (closing : Nat) (entries : List (Text × EntryValue)) (others : List Text) (appended old new : Text) : Prop :=
  if entries = [] then ∃ t, Inserted others old t ∧ new = t ++ appended
  else IsGrown closing '}' entries others appended old new

lemma IsGrown.endsInBrace (h : IsGrown m.closing '}' entries others appended existing updated) : m.EndsInBrace existing := by
  obtain ⟨front, blanks, behind, -, -, -, -, -, rfl, hwidth, -⟩ := h
  exact ⟨front ++ blanks, behind, by simp, hwidth⟩

lemma IsGrown.onlyAdds_iff (h : IsGrown m.closing close entries others appended existing updated) (he : entries ≠ []) :
    OnlyAdds m.closing entries others appended existing updated ↔ m.EndsInBrace existing := by
  rw [OnlyAdds, if_neg he]
  refine ⟨endsInBrace, ?_⟩
  rintro ⟨u, v, hu, hwidth⟩
  obtain ⟨front, blanks, behind, front', behind', others₁, others₂, comma, rfl, hw, hrest⟩ := h
  obtain ⟨rfl, e⟩ := Text.append_inj_of_width (u := front ++ blanks) (by simpa using hu) (hw.trans hwidth.symm)
  obtain ⟨rfl, rfl⟩ := List.cons.inj e
  exact ⟨front, blanks, behind, front', behind', others₁, others₂, comma, rfl, hw, hrest⟩

/-! ### Map literals that gain entries -/

section Maps

open Document (render)

variable {a body behind : Text} {es ends : List Edit}

lemma body_enclosed : MapBraces.body ⟨a.width, a.width + 1 + body.width⟩ (a ++ '{' :: (body ++ close :: behind)) = body := by
  have hsplit : a ++ '{' :: (body ++ close :: behind) = (a ++ ['{']) ++ (body ++ close :: behind) := by simp
  have hwidth : (a ++ ['{']).width = a.width + 1 := Text.width_append _ _
  rw [MapBraces.body, hsplit, ← hwidth, Text.slice_width_append]

/-- The edit that puts more entries into a map literal. -/
def growEdit (m : MapBraces) (s : Text) (entries : List (Text × EntryValue)) : Edit :=
  ⟨⟨m.opening, m.closing + 1⟩, .map ⟨m.body s, entries⟩⟩

/-- **What becomes of a map literal.** -/
theorem isGrown_render (hs : existing = a ++ '{' :: (body ++ close :: behind)) (hopening : m.opening = a.width)
    (hclosing : m.closing = a.width + 1 + body.width) (hclose : close ∈ ['}', ')', ']'])
    (hes : ∀ e ∈ es, e.IsInsertion existing) (ho : Document.IsOrdered es) (hends : ∀ e ∈ ends, e.IsAtEnd existing) :
    IsGrown m.closing close entries (pieces es) (pieces ends).flatten existing
      (render ⟨existing, growEdit m existing entries :: (es ++ ends)⟩) := by
  have hsize : Text.width [close] = 1 := by
    revert hclose
    simp only [List.mem_cons, List.not_mem_nil, or_false]
    rintro (rfl | rfl | rfl) <;> rfl
  have hspan : (growEdit m existing entries).span = ⟨a.width, (a ++ ('{' :: (body ++ [close]))).width⟩ := by
    have hbrace : ('{' : Char).utf8Size = 1 := rfl
    simp only [growEdit, hopening, hclosing, Text.width_append, Text.width_cons, hbrace, hsize, Source.Span.mk.injEq, true_and]
    omega
  have hm : m = ⟨a.width, a.width + 1 + body.width⟩ := by rw [← hclosing, ← hopening]
  have hnode : (growEdit m existing entries).node.render =
      '{' :: (GrowingMap.renderBody body ++ (GrowingMap.bodyText entries ++ ['}'])) := by
    rw [growEdit, hm, hs, body_enclosed]
    exact render_growingMap
  obtain ⟨es₁, es₂, t₁, t₂, rfl, hrender, hins₁, hins₂⟩ :=
    Document.render_replacement (a := '{' :: (body ++ [close])) (b := behind) (by rw [hs]; simp) hspan hes ho hends
  obtain ⟨kept, blanks, comma, rfl, hblanks, hcomma, hins⟩ := inserted_renderBody body
  refine ⟨a ++ '{' :: kept, blanks, behind, t₁ ++ '{' :: GrowingMap.renderBody (kept ++ blanks), t₂, pieces es₁, pieces es₂,
    comma, by rw [hs]; simp, ?_, hblanks, ?_, Document.pieces_append, hcomma, hins₁.append (hins.prepend (a := ['{'])), hins₂⟩
  · have hbrace : ('{' : Char).utf8Size = 1 := rfl
    simp only [hclosing, Text.width_append, Text.width_cons, hbrace]
    omega
  · rw [hrender, hnode]
    simp

end Maps

/-! ### Registries -/

/-- The entries that a rule map gains. -/
def Additions.newEntries (additions : Additions) : List (Text × EntryValue) :=
  additions.bindings.map fun b => (b.tag, .name b.function)

/-- Whether an update adds to a registry what is missing: entries, at most one import of regular expressions, and functions
at the end. -/
def AddsToRegistry (m : MapBraces) (additions : Additions) (old new : Text) : Prop :=
  ∃ imports appended, imports.length ≤ 1 ∧ imports ⊆ importTexts ⟨none, "regexp"⟩ ∧
    Appendix (functionTexts additions.functions) appended ∧ OnlyAdds m.closing additions.newEntries imports appended old new

/-- The import of regular expressions that a registry gains. -/
def importEdits (existing : Text) (tree : Tree) (additions : Additions) : List Edit :=
  if needsRegexp additions.functions ∧ (tree.importOf? "regexp").isNone then [importEdit existing tree ⟨none, "regexp"⟩] else []

lemma importEdits_cases (existing : Text) (tree : Tree) (additions : Additions) : importEdits existing tree additions = [] ∨
    importEdits existing tree additions = [importEdit existing tree ⟨none, "regexp"⟩] := by
  unfold importEdits
  split
  · exact .inr rfl
  · exact .inl rfl

/-- The edits that a registry is merged by: in the rule map, in the imports and at the end. -/
lemma mergeRegistry_edits (existing : Text) (tree : Tree) (m : MapBraces) (additions : Additions) : ∃ ends,
    mergeRegistry existing tree m additions = Document.render ⟨existing,
      (if additions.bindings.isEmpty then [] else [growEdit m existing additions.newEntries]) ++
        (importEdits existing tree additions ++ ends)⟩ ∧
    (∀ e ∈ ends, e.IsAtEnd existing) ∧ Appendix (functionTexts additions.functions) (pieces ends).flatten := by
  let grown : Document := ⟨existing, if additions.bindings.isEmpty then [] else [growEdit m existing additions.newEntries]⟩
  have hgrown : (if additions.bindings.isEmpty then Document.ofText existing
      else (Document.ofText existing).replace ⟨m.opening, m.closing + 1⟩
        (.map ⟨m.body existing, additions.bindings.map fun b => (b.tag, .name b.function)⟩)) = grown := by
    unfold grown
    split <;> rfl
  have hwith : (if needsRegexp additions.functions ∧ (tree.importOf? "regexp").isNone then grown.withImport tree ⟨none, "regexp"⟩
      else grown) = { grown with edits := grown.edits ++ importEdits existing tree additions } := by
    unfold importEdits
    split
    · exact withImport_eq
    · simp
  obtain ⟨ends, happend, hends, happendix⟩ :=
    foldl_append_eq { grown with edits := grown.edits ++ importEdits existing tree additions } (functionTexts additions.functions)
  refine ⟨ends, ?_, hends, happendix⟩
  unfold mergeRegistry
  simp only
  rw [hgrown, hwith, happend, List.append_assoc]

lemma mergeRegistry_eq (existing : Text) (tree : Tree) (m : MapBraces) (additions : Additions) : ∃ imports ends,
    mergeRegistry existing tree m additions = Document.render ⟨existing,
      (if additions.bindings.isEmpty then [] else [growEdit m existing additions.newEntries]) ++ (imports ++ ends)⟩ ∧
    (imports = [] ∨ imports = [importEdit existing tree ⟨none, "regexp"⟩]) ∧ (∀ e ∈ ends, e.IsAtEnd existing) ∧
    Appendix (functionTexts additions.functions) (pieces ends).flatten := by
  obtain ⟨ends, hrender, hends, happendix⟩ := mergeRegistry_edits existing tree m additions
  exact ⟨_, ends, hrender, importEdits_cases existing tree additions, hends, happendix⟩

/-- How a registry comes to be updated. -/
lemma updated_eq {registry : Registry} {required : Requirements}
    (h : registryRendering file (some existing) package additions registry required = .ok (.updated updated)) :
    ∃ tree m, parse existing = .ok tree ∧ registry.ruleMap = some m ∧ updated = mergeRegistry existing tree m additions := by
  simp only [registryRendering] at h
  split at h
  · cases h
  split at h
  · cases h
  next tree htree =>
  split at h
  · next m hm =>
    cases h
    exact ⟨tree, m, htree, hm, rfl⟩
  · cases h

/-- An update of a registry only adds exactly if no entry is missing or the rule map ends in a brace. -/
lemma addsToRegistry_iff (htree : parse existing = .ok tree) (hm : findMap? ruleMapHead existing = some m) :
    AddsToRegistry m additions existing (mergeRegistry existing tree m additions) ↔
      additions.bindings = [] ∨ m.EndsInBrace existing := by
  obtain ⟨imports, ends, hrender, himports, hends, happendix⟩ := mergeRegistry_eq existing tree m additions
  have hes : ∀ e ∈ imports, e.IsInsertion existing := by
    rcases himports with rfl | rfl
    · simp
    · simpa using importEdit_isInsertion htree
  have ho : Document.IsOrdered imports := by
    rcases himports with rfl | rfl <;> simp [Document.IsOrdered]
  have hlength : (pieces imports).length ≤ 1 := by
    rcases himports with rfl | rfl <;> simp
  have hsubset : pieces imports ⊆ importTexts ⟨none, "regexp"⟩ := by
    rcases himports with rfl | rfl
    · simp
    · simpa using importEdit_mem
  by_cases hb : additions.bindings = []
  · obtain ⟨t, ht, hins⟩ := Document.render_insertions hes ho hends
    refine iff_of_true ⟨pieces imports, _, hlength, hsubset, happendix, ?_⟩ (.inl hb)
    rw [OnlyAdds, if_pos (by simp [Additions.newEntries, hb]), hrender, hb]
    exact ⟨t, hins, ht⟩
  · have hne : additions.newEntries ≠ [] := by simpa [Additions.newEntries] using hb
    obtain ⟨a, body, close, behind, hs, hclose, hopening, hclosing⟩ :=
      Detection.findMap?_eq_some ruleMapHead.dropLast hm
    have hgrown : IsGrown m.closing close additions.newEntries (pieces imports) (pieces ends).flatten existing
        (mergeRegistry existing tree m additions) := by
      rw [hrender, if_neg (by simpa using hb)]
      exact isGrown_render hs hopening hclosing hclose hes ho hends
    constructor
    · rintro ⟨imports', appended, -, -, -, hadds⟩
      rw [OnlyAdds, if_neg hne] at hadds
      exact .inr hadds.endsInBrace
    · rintro (h | h)
      · exact absurd h hb
      · exact ⟨_, _, hlength, hsubset, happendix, (hgrown.onlyAdds_iff hne).2 h⟩

/-! ### Translations -/

/-- Whether an update adds to a translation file the messages for some tags: entries of the message map or, without one,
statements in front of the brace that closes the function. -/
def AddsToTranslation (l : Language) (missing : List Text) (old new : Text) : Prop :=
  match findMap? messageMapHead old with
  | some m => OnlyAdds m.closing (messageEntries l missing) [] [] old new
  | none =>
    ∃ tree body front behind lead, parse old = .ok tree ∧
      (tree.function? "registerCustomTranslations").bind (·.body) = some body ∧ front.width + 1 = body.stop ∧
      old = front ++ '}' :: behind ∧ (lead = [] ∨ lead = ['\n']) ∧
      new = front ++ (lead ++ missing.flatMap (fun tag => Snippet.translationCalls tag (l.message tag)) ++ '}' :: behind)

/-- An update of a translation file only adds exactly if there is no message map or the map ends in a brace. -/
lemma addsToTranslation_iff {l : Language} {missing : List Text}
    (h : translationRendering file (some existing) package l missing (Translations.ofSource existing) =
      .ok (.updated updated)) :
    AddsToTranslation l missing existing updated ↔
      ∀ m, findMap? messageMapHead existing = some m → m.EndsInBrace existing := by
  simp only [translationRendering, Translations.ofSource] at h
  split at h
  · cases h
  next hmissing =>
  unfold AddsToTranslation
  split at h
  · next m hm =>
    cases h
    obtain ⟨a, body, close, behind, hs, hclose, hopening, hclosing⟩ :=
      Detection.findMap?_eq_some messageMapHead.dropLast hm
    have hne : messageEntries l missing ≠ [] := by simpa [messageEntries] using hmissing
    have hgrown : IsGrown m.closing close (messageEntries l missing) [] [] existing
        (Document.render ⟨existing, [growEdit m existing (messageEntries l missing)]⟩) :=
      isGrown_render hs hopening hclosing hclose (by simp) List.Pairwise.nil (by simp)
    rw [hm]
    simp only [Option.some.injEq, forall_eq']
    exact hgrown.onlyAdds_iff hne
  · next hm =>
    rw [hm]
    simp only [reduceCtorEq, false_implies, implies_true, iff_true]
    split at h
    · cases h
    next tree htree =>
    split at h
    · cases h
    next body hbody =>
    cases h
    obtain ⟨f, hf, hb⟩ := Option.bind_eq_some_iff.1 hbody
    obtain ⟨front, behind, hs, hwidth⟩ := Source.parse_body htree (List.mem_of_find?_eq_some hf) hb
    have hclose : body.stop - 1 = front.width := by omega
    refine ⟨tree, body, front, behind, if (Text.slice existing 0 (body.stop - 1)).getLast? = some '\n' then [] else "\n",
      htree, hbody, hwidth, hs, ?_, ?_⟩
    · split
      · exact .inl rfl
      · exact .inr rfl
    · have hs' : existing = front ++ '}' :: behind := hs
      rw [hclose]
      subst hs'
      rw [Document.render_insertAt]
      rfl

/-- **When updates only add.**  What is there stays in place, white space in front of the closing bracket of a map literal
apart, exactly if that bracket is a brace or nothing goes into the literal. -/
theorem updates_only_add_iff (additions : Additions) (names missing : List Text) (required : Requirements) (l : Language) :
    (registryRendering file (some existing) package additions ((Registry.ofSource existing).withFunctions names) required =
        .ok (.updated updated) →
      ∃ m, findMap? ruleMapHead existing = some m ∧
        (AddsToRegistry m additions existing updated ↔ additions.bindings = [] ∨ m.EndsInBrace existing)) ∧
    (translationRendering file (some existing) package l missing (Translations.ofSource existing) = .ok (.updated updated) →
      (AddsToTranslation l missing existing updated ↔
        ∀ m, findMap? messageMapHead existing = some m → m.EndsInBrace existing)) := by
  refine ⟨fun h => ?_, addsToTranslation_iff⟩
  obtain ⟨tree, m, htree, hm, rfl⟩ := updated_eq h
  exact ⟨m, hm, addsToRegistry_iff htree hm⟩

/-! ### A literal that ends in a parenthesis -/

lemma endsInBrace_iff {s : Text} : m.EndsInBrace s ↔ ((s.splitAt? m.closing).bind fun p => p.2.head?) = some '}' := by
  constructor
  · rintro ⟨u, v, rfl, hu⟩
    rw [← hu, Text.splitAt?_width_append]
    rfl
  · intro h
    obtain ⟨⟨u, v⟩, hsplit, hv⟩ := Option.bind_eq_some_iff.1 h
    obtain ⟨w, rfl⟩ : ∃ w, v = '}' :: w := by
      rcases v with _ | ⟨c, w⟩
      · cases hv
      · cases hv
        exact ⟨w, rfl⟩
    exact ⟨u, w, (Text.append_of_splitAt? hsplit).symm, Text.width_of_splitAt? hsplit⟩

instance {s : Text} : Decidable (m.EndsInBrace s) := decidable_of_iff _ endsInBrace_iff.symm

/-- A registry with an empty rule map. -/
def emptyRuleMap : Text := "package p\nvar registerValidation = map[string]validator.Func\x7b\x7d\n"

/-- A translation file whose message map ends in a parenthesis. -/
def parenthesizedMessages : Text := "package p\nvar translationMessages = map[string]string\x7b)\n"

/-- The update of a rule map only adds, while that of a message map in front of a parenthesis writes a brace instead. -/
theorem update_replaces_parenthesis :
    (∃ m updated, registryRendering "r.go" (some emptyRuleMap) "p" ⟨[], [⟨"zip", "checkZip"⟩], [], []⟩
        ((Registry.ofSource emptyRuleMap).withFunctions []) ⟨[], []⟩ = .ok (.updated updated) ∧
      AddsToRegistry m ⟨[], [⟨"zip", "checkZip"⟩], [], []⟩ emptyRuleMap updated) ∧
    ∃ updated, translationRendering "t.go" (some parenthesizedMessages) "p" .en ["mobile"]
        (Translations.ofSource parenthesizedMessages) = .ok (.updated updated) ∧
      ¬ AddsToTranslation .en ["mobile"] parenthesizedMessages updated := by
  constructor
  · obtain ⟨updated, hupdated⟩ : ∃ updated, registryRendering "r.go" (some emptyRuleMap) "p"
        ⟨[], [⟨"zip", "checkZip"⟩], [], []⟩ ((Registry.ofSource emptyRuleMap).withFunctions []) ⟨[], []⟩ =
          .ok (.updated updated) := by
      obtain ⟨tree, htree⟩ := Option.isSome_iff_exists.1 (show (parse emptyRuleMap).toOption.isSome by
        unfold emptyRuleMap
        repeat rw [String.toList_ofList]
        decide +kernel)
      have hmap : ((Registry.ofSource emptyRuleMap).withFunctions []).ruleMap = some ⟨60, 61⟩ := by
        unfold emptyRuleMap
        repeat rw [String.toList_ofList]
        decide +kernel
      simp only [registryRendering, ok_of_toOption htree, hmap]
      exact ⟨_, rfl⟩
    obtain ⟨m, hm, hadds⟩ := (updates_only_add_iff ⟨[], [⟨"zip", "checkZip"⟩], [], []⟩ [] [] ⟨[], []⟩ .en).1 hupdated
    have hm' : findMap? ruleMapHead emptyRuleMap = some ⟨60, 61⟩ := by
      unfold emptyRuleMap
      repeat rw [String.toList_ofList]
      decide +kernel
    obtain rfl : m = ⟨60, 61⟩ := Option.some.inj (hm.symm.trans hm')
    exact ⟨_, updated, hupdated, hadds.2 (.inr (by decide +kernel))⟩
  · have hm : findMap? messageMapHead parenthesizedMessages = some ⟨53, 54⟩ := by
      unfold parenthesizedMessages
      repeat rw [String.toList_ofList]
      decide +kernel
    obtain ⟨updated, hupdated⟩ : ∃ updated, translationRendering "t.go" (some parenthesizedMessages) "p" .en ["mobile"]
        (Translations.ofSource parenthesizedMessages) = .ok (.updated updated) := by
      simp only [translationRendering, Translations.ofSource, hm]
      exact ⟨_, rfl⟩
    refine ⟨updated, hupdated, fun h => ?_⟩
    have := ((updates_only_add_iff ⟨[], [], [], []⟩ [] ["mobile"] ⟨[], []⟩ .en).2 hupdated).1 h _ hm
    revert this
    unfold parenthesizedMessages
    repeat rw [String.toList_ofList]
    decide +kernel

end RuleWeaver
