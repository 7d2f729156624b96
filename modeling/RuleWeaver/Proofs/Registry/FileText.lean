import RuleWeaver.Proofs.Detection.Maps
import RuleWeaver.Proofs.Document.Imports
import RuleWeaver.Registry.Rebuild

/-!
# The text of a registry file

A registry file is a head, a rule map and a tail of functions.  Its lexemes are those of its parts, and the imports that
are read from it are those it is put together from (`importSpecs_registryText`).
-/

namespace RuleWeaver

open Source Text

variable {imports : List NewImport} {entries : List (Text × Text)} {kept functions : List Text} {package x : Text}

/-- A registry file up to the brace that opens the rule map. -/
def registryHead (package : Text) (imports : List NewImport) : Text :=
  "package " ++ package ++ "\n\n" ++ renderImports imports ++ ("\n" ++ Snippet.ruleMapComment ++ "\n" ++ Snippet.ruleMapHead)

/-- A rule map with its braces. -/
def mapText (entries : List (Text × Text)) : Text :=
  GrowingMap.render ⟨[], entries.map fun (tag, function) => (tag, .name function)⟩

/-- A registry file behind the rule map. -/
def registryTail (kept functions : List Text) : Text :=
  "\n\n" ++ Snippet.registerAll ++ ((kept.map fun s => Node.function (s ++ "\n")).flatMap Node.render ++
    (functions.map Node.function).flatMap Node.render)

lemma registryText_eq :
    registryText package imports entries kept functions =
      registryHead package imports ++ (mapText entries ++ registryTail kept functions) := by
  unfold registryText renderNodes registryHead mapText registryTail
  simp only [List.flatMap_append, List.flatMap_cons, List.flatMap_nil, Node.render, List.append_nil, List.append_assoc]

/-- The comment above the rule map and its beginning. -/
def mapHead : Text := "\n" ++ Snippet.ruleMapComment ++ "\n" ++ Snippet.ruleMapHead

lemma lex_mapHead_append (h : x.head? = some '\x7b') : lex (mapHead ++ x) = lex mapHead ++ lex x := by
  have hw : isWhole mapHead := by
    decide +kernel
  have hlast : (lex mapHead).getLast? = some ⟨.ident, "Func"⟩ := by
    decide +kernel
  refine lex_append hw fun l hl => ?_
  rw [hlast] at hl
  cases hl
  obtain ⟨x', rfl⟩ := List.head?_eq_some_iff.1 h
  rfl

lemma lex_package_append (hp : IsName package) :
    lex ("package " ++ package ++ "\n\n" ++ x) =
      [⟨.packageWord, "package"⟩, ⟨.blank, [' ']⟩, ⟨.ident, package⟩, ⟨.newline, ['\n']⟩, ⟨.newline, ['\n']⟩] ++ lex x := by
  have hword : lex "package " = [⟨.packageWord, "package"⟩, ⟨.blank, [' ']⟩] := by
    decide +kernel
  have hname : IsImportName package := ⟨.ident, .inl rfl, hp⟩
  obtain ⟨c, u, rfl, hc⟩ := hname.exists_cons
  have hw : isWhole (c :: u) := by
    rw [isWhole, hp]
    rfl
  have hbreaks : ("\n\n".toList : Text) ++ x = '\n' :: '\n' :: x := rfl
  have hlast : ([⟨.packageWord, "package"⟩, ⟨.blank, [' ']⟩] : List Lexeme).getLast?.all
      (·.precedes (c :: u ++ '\n' :: '\n' :: x)) := by
    simp [Lexeme.precedes, Lexeme.separates, hc]
  rw [List.append_assoc, List.append_assoc, hbreaks, lex_append_of_eq hword (by rfl) hlast, lex_append_newline hw, hp,
    lex_newline]
  rfl

lemma lex_registryHead_append (hp : IsName package) (hi : ∀ l ∈ imports, IsImportLine l) (h : x.head? = some '\x7b') :
    lex (registryHead package imports ++ x) =
      [⟨.packageWord, "package"⟩, ⟨.blank, [' ']⟩, ⟨.ident, package⟩, ⟨.newline, ['\n']⟩, ⟨.newline, ['\n']⟩] ++
        (groupLexemes imports ++ (lex mapHead ++ lex x)) := by
  have : registryHead package imports ++ x =
      "package " ++ package ++ "\n\n" ++ (renderImports imports ++ (mapHead ++ x)) := by
    unfold registryHead mapHead
    simp only [List.append_assoc]
  rw [this, lex_package_append hp, lex_renderImports hi, lex_mapHead_append h]

lemma mapText_nil : mapText [] = "\x7b\n\x7d" := by
  rw [mapText, GrowingMap.render, GrowingMap.renderBody_nil]
  rfl

lemma mapText_head? : (mapText entries ++ x).head? = some '\x7b' := rfl

/-- **The imports of a registry file** are those it is put together from. -/
theorem importSpecs_registryText (hp : IsName package) (hi : ∀ l ∈ imports, IsImportLine l) :
    (importSpecs (registryText package imports entries kept functions)).map ImportSpec.line = orderedLines imports := by
  have hlines : ∀ l ∈ orderedLines imports, IsImportLine l := fun l hl => hi l (mem_orderedLines.1 hl)
  obtain ⟨hgroup, hbehind⟩ := statementPart_groupLexemes hi
  have hvar : (statementPart false (lex mapHead)).head? = some ⟨.varWord, "var"⟩ := by
    decide +kernel
  obtain ⟨ls, hls⟩ := List.head?_eq_some_iff.1 hvar
  have key : statementLexemes false (lex (registryText package imports entries kept functions)) =
      headLexemes package (orderedLines imports) ++ ⟨.varWord, "var"⟩ ::
        (ls ++ statementLexemes (endingBehind false (lex mapHead)) (lex (mapText entries ++ registryTail kept functions))) := by
    have hpart : statementPart false [⟨.packageWord, "package"⟩, ⟨.blank, [' ']⟩, ⟨.ident, package⟩, ⟨.newline, ['\n']⟩,
        ⟨.newline, ['\n']⟩] = [⟨.packageWord, "package"⟩, ⟨.ident, package⟩, .impliedSemi] := rfl
    have hend : endingBehind false [⟨.packageWord, "package"⟩, ⟨.blank, [' ']⟩, ⟨.ident, package⟩, ⟨.newline, ['\n']⟩,
        ⟨.newline, ['\n']⟩] = false := rfl
    rw [registryText_eq, lex_registryHead_append hp hi mapText_head?, statementLexemes_append, statementLexemes_append,
      statementLexemes_append, hpart, hend, hgroup, hbehind, hls, headLexemes]
    simp only [List.cons_append, List.nil_append, List.append_assoc]
  exact importSpecs_of_head hlines key (by decide) (by decide)

end RuleWeaver
