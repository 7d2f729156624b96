import RuleWeaver.Proofs.Source.ImportSection

/-!
# Groups of imports

The text and the lexemes of a group of imports that is written.
-/

namespace RuleWeaver

open Source Text

variable {l : NewImport} {lines : List NewImport} {y : Text}

lemma mem_eraseRepsBy_loop {α : Type} [BEq α] [LawfulBEq α] {a b : α} {as acc : List α} :
    b ∈ List.eraseRepsBy.loop (· == ·) a as acc ↔ b = a ∨ b ∈ as ∨ b ∈ acc := by
  induction as generalizing a acc with
  | nil => simp [List.eraseRepsBy.loop, or_comm]
  | cons c as ih =>
    simp only [List.eraseRepsBy.loop]
    split
    · next h =>
      obtain rfl : a = c := by simpa using h
      rw [ih, List.mem_cons]
      tauto
    · rw [ih, List.mem_cons, List.mem_cons]
      tauto

lemma mem_eraseReps {α : Type} [BEq α] [LawfulBEq α] {b : α} {as : List α} : b ∈ as.eraseReps ↔ b ∈ as := by
  rcases as with _ | ⟨a, as⟩
  · rfl
  · simp [List.eraseReps, List.eraseRepsBy, mem_eraseRepsBy_loop]

/-- Import lines in order, each once. -/
def sortedLines (lines : List NewImport) : List NewImport := (lines.mergeSort NewImport.le).eraseReps

def standardLines (lines : List NewImport) : List NewImport := (sortedLines lines).filter (·.isStandard)

def otherLines (lines : List NewImport) : List NewImport := (sortedLines lines).filter (!·.isStandard)

/-- Import lines in the order in which they are written. -/
def orderedLines (lines : List NewImport) : List NewImport := standardLines lines ++ otherLines lines

/-- What stands between the two parts of a group. -/
def groupGap {α : Type} (lines : List NewImport) (x : α) : List α :=
  if standardLines lines ≠ [] ∧ otherLines lines ≠ [] then [x] else []

lemma groupGap_cases {α : Type} (lines : List NewImport) (x : α) : groupGap lines x = [] ∨ groupGap lines x = [x] := by
  unfold groupGap
  split
  · exact .inr rfl
  · exact .inl rfl

lemma mem_sortedLines : l ∈ sortedLines lines ↔ l ∈ lines := by
  rw [sortedLines, mem_eraseReps, List.mem_mergeSort]

lemma mem_of_mem_standardLines (h : l ∈ standardLines lines) : l ∈ lines := mem_sortedLines.1 (List.mem_filter.1 h).1

lemma mem_of_mem_otherLines (h : l ∈ otherLines lines) : l ∈ lines := mem_sortedLines.1 (List.mem_filter.1 h).1

lemma mem_orderedLines : l ∈ orderedLines lines ↔ l ∈ lines := by
  simp only [orderedLines, standardLines, otherLines, List.mem_append, List.mem_filter, mem_sortedLines]
  cases l.isStandard <;> simp

/-- An import line with its line break. -/
def lineText (l : NewImport) : Text := "\t" ++ l.render ++ "\n"

lemma lex_flatMap_lines (h : ∀ l ∈ lines, IsImportLine l) :
    lex (lines.flatMap lineText ++ y) = lines.flatMap lineLexemes ++ lex y := by
  induction lines with
  | nil => rfl
  | cons l lines ih =>
    have hl := h l List.mem_cons_self
    rw [List.flatMap_cons, List.flatMap_cons, List.append_assoc, List.append_assoc,
      ← ih fun m hm => h m (List.mem_cons_of_mem _ hm), ← lex_line hl]
    simp [lineText]

lemma statementPart_flatMap_lines (h : ∀ l ∈ lines, IsImportLine l) :
    statementPart false (lines.flatMap lineLexemes) = (lines.flatMap fun l => specLexemes l ++ [.impliedSemi]) ∧
      endingBehind false (lines.flatMap lineLexemes) = false := by
  induction lines with
  | nil => exact ⟨rfl, rfl⟩
  | cons l lines ih =>
    have hl := h l List.mem_cons_self
    have ih := ih fun m hm => h m (List.mem_cons_of_mem _ hm)
    rw [List.flatMap_cons, List.flatMap_cons, statementPart_append, endingBehind_append, endingBehind_lineLexemes hl,
      statementPart_lineLexemes hl, ih.1]
    exact ⟨rfl, ih.2⟩

lemma renderImports_eq :
    renderImports lines = "import (\n".toList ++ ((standardLines lines).flatMap lineText ++ (groupGap lines '\n' ++
      ((otherLines lines).flatMap lineText ++ ")\n".toList))) := by
  have hif : (if standardLines lines ≠ [] ∧ otherLines lines ≠ [] then "\n" else "").toList = groupGap lines '\n' := by
    unfold groupGap
    split <;> rfl
  unfold renderImports
  dsimp only
  rw [← sortedLines, ← standardLines, ← otherLines, hif,
    show lineText = fun l : NewImport => "\t" ++ l.render ++ "\n" from rfl]
  simp only [List.append_assoc]

/-- The lexemes of a group of imports. -/
def groupLexemes (lines : List NewImport) : List Lexeme :=
  [⟨.importWord, "import"⟩, ⟨.blank, [' ']⟩, ⟨.lparen, ['(']⟩, ⟨.newline, ['\n']⟩] ++
    (standardLines lines).flatMap lineLexemes ++ groupGap lines ⟨.newline, ['\n']⟩ ++
    (otherLines lines).flatMap lineLexemes ++ [⟨.rparen, [')']⟩, ⟨.newline, ['\n']⟩]

lemma lex_renderImports (h : ∀ l ∈ lines, IsImportLine l) :
    lex (renderImports lines ++ y) = groupLexemes lines ++ lex y := by
  have hopen : lex "import (\n" = [⟨.importWord, "import"⟩, ⟨.blank, [' ']⟩, ⟨.lparen, ['(']⟩, ⟨.newline, ['\n']⟩] := by
    decide +kernel
  have hclose : lex ")\n" = [⟨.rparen, [')']⟩, ⟨.newline, ['\n']⟩] := by
    decide +kernel
  have hgap : ∀ z, lex (groupGap lines '\n' ++ z) = groupGap lines ⟨.newline, ['\n']⟩ ++ lex z := by
    intro z
    unfold groupGap
    split
    · exact lex_newline
    · rfl
  have hstandard : ∀ l ∈ standardLines lines, IsImportLine l := fun l hl => h l (mem_of_mem_standardLines hl)
  have hother : ∀ l ∈ otherLines lines, IsImportLine l := fun l hl => h l (mem_of_mem_otherLines hl)
  rw [renderImports_eq, groupLexemes]
  simp only [List.append_assoc]
  rw [lex_append_of_eq hopen (by rfl) (by rfl), lex_flatMap_lines hstandard, hgap, lex_flatMap_lines hother,
    lex_append_of_eq hclose (by rfl) (by rfl)]

lemma statementPart_groupLexemes (h : ∀ l ∈ lines, IsImportLine l) :
    statementPart false (groupLexemes lines) =
        [⟨.importWord, "import"⟩, ⟨.lparen, ['(']⟩] ++
          ((orderedLines lines).flatMap fun l => specLexemes l ++ [.impliedSemi]) ++ [⟨.rparen, [')']⟩, .impliedSemi] ∧
      endingBehind false (groupLexemes lines) = false := by
  have hstandard : ∀ l ∈ standardLines lines, IsImportLine l := fun l hl => h l (mem_of_mem_standardLines hl)
  have hother : ∀ l ∈ otherLines lines, IsImportLine l := fun l hl => h l (mem_of_mem_otherLines hl)
  have h₁ := statementPart_flatMap_lines hstandard
  have h₂ := statementPart_flatMap_lines hother
  have hopen : statementPart false
      [⟨.importWord, "import"⟩, ⟨.blank, [' ']⟩, ⟨.lparen, ['(']⟩, ⟨.newline, ['\n']⟩] =
        [⟨.importWord, "import"⟩, ⟨.lparen, ['(']⟩] ∧
      endingBehind false [⟨.importWord, "import"⟩, ⟨.blank, [' ']⟩, ⟨.lparen, ['(']⟩, ⟨.newline, ['\n']⟩] = false :=
    ⟨rfl, rfl⟩
  have hgap : statementPart false (groupGap lines ⟨.newline, ['\n']⟩) = [] ∧
      endingBehind false (groupGap lines ⟨.newline, ['\n']⟩) = false := by
    rcases groupGap_cases lines (⟨.newline, ['\n']⟩ : Lexeme) with e | e <;> rw [e] <;> exact ⟨rfl, rfl⟩
  have hclose : statementPart false [⟨.rparen, [')']⟩, ⟨.newline, ['\n']⟩] = [⟨.rparen, [')']⟩, .impliedSemi] ∧
      endingBehind false [⟨.rparen, [')']⟩, ⟨.newline, ['\n']⟩] = false := ⟨rfl, rfl⟩
  simp only [groupLexemes, statementPart_append, endingBehind_append, hopen, h₁, h₂, hgap, hclose, orderedLines,
    List.flatMap_append, List.nil_append, List.append_assoc, and_true]

end RuleWeaver
