import RuleWeaver.Proofs.Layout
import RuleWeaver.Proofs.Source.Files

/-!
# Layout keeps the code

Layout takes white space away in front of line breaks and at the beginning of a text.  Neither ends a statement or takes
one's end away (`statementLexemes_laidOut`), so the text that is laid out has the tree of the old one, and its tokens are
those of the old one, but for line breaks and for blanks at the end of comments (`layout_keeps_code`).
-/

namespace RuleWeaver

open Source (Lexeme Token Tree lex tokens tokenize parse lineBreak TidiedTo isWhole isBalanced statementLexemes)

variable {n out s : Text} {e : Bool} {L M lead : List Lexeme} {stack : List Source.Kind}

/-! ### White space at the beginning and at the end -/

lemma AreBlank.not_isSignificant (h : AreBlank lead) : ∀ l ∈ lead, l.kind.isSignificant = false := by
  intro l hl
  rcases h l hl with hk | rfl
  · rw [hk]
    rfl
  · rfl

lemma AreBlank.isBalanced_append (h : AreBlank lead) : isBalanced stack (lead ++ M) = isBalanced stack M := by
  refine Source.isBalanced_append (Source.isBalanced_of_unbracketed fun l hl => ?_)
  rcases h l hl with hk | rfl
  · rw [hk]
    exact ⟨rfl, rfl⟩
  · exact ⟨rfl, rfl⟩

lemma AreBlank.filter_isText (h : AreBlank lead) : lead.filter (·.kind.isText) = [] := by
  refine List.filter_eq_nil_iff.2 fun l hl => ?_
  rcases h l hl with hk | rfl
  · rw [hk]
    decide
  · decide

lemma statementLexemes_lineBreak : statementLexemes e (L ++ [lineBreak]) = statementLexemes e L := by
  rw [Source.statementLexemes_append, statementLexemes, statementLexemes]
  cases Source.endingBehind e L <;> rfl

/-- Statements end where they ended before layout. -/
lemma statementLexemes_laidOut (hn : isWhole n) (hlex : lex (closed n) = lead ++ M) (hlead : AreBlank lead)
    (h : TidiedTo M (lex out)) : statementLexemes false (lex out) = statementLexemes false (lex n) := by
  have hclosed : statementLexemes false (lex (closed n)) = statementLexemes false (lex n) := by
    rcases lex_closed hn with e | e <;> rw [e]
    exact statementLexemes_lineBreak
  obtain ⟨hfront, hending⟩ := Source.statementPart_of_forall_not_isSignificant hlead.not_isSignificant
  rw [h.statementLexemes_eq, ← hclosed, hlex, Source.statementLexemes_append, hfront, hending, List.nil_append]

/-! ### Tokens -/

/-- Whether a token stays as it is wherever it stands, but for spaces and tabs at the end of a line comment. -/
def Source.Token.Trims (t u : Token) : Prop := t.lexeme.Trims u.lexeme

lemma map_lexeme_filter {ts : List Token} (h : tokenize s = .ok ts) :
    (ts.filter (·.kind ≠ .newline)).map Token.lexeme = (lex s).filter (·.kind.isText) := by
  rw [(Source.tokenize_eq_ok_iff.1 h).2.2, List.filter_filter, ← Source.map_lexeme_tokens, List.filter_map]
  refine congrArg (List.map Token.lexeme) (List.filter_congr fun t _ => ?_)
  show _ = t.kind.isText
  cases t.kind <;> rfl

lemma isBalanced_of_layout (h : layout s = .ok out) : isBalanced [] (lex out) := by
  obtain ⟨tree, ts, -, htokens, -⟩ := exists_of_layout h
  obtain ⟨hn, lead, M, hlex, hlead, htidied, -⟩ := layout_eq_ok h
  obtain ⟨-, hbalanced, -⟩ := Source.tokenize_eq_ok_iff.1 htokens
  rw [htidied.isBalanced_eq, ← hlead.isBalanced_append, ← hlex]
  rcases lex_closed hn with e | e <;> rw [e]
  · exact hbalanced
  · rw [Source.isBalanced_append hbalanced]
    rfl

/-- What is laid out has tokens. -/
lemma tokenize_of_layout (h : layout s = .ok out) : tokenize out = .ok ((tokens out).filter (·.kind ≠ .blank)) := by
  obtain ⟨-, -, -, -, -, -, -, hwhole⟩ := layout_eq_ok h
  exact Source.tokenize_eq_ok_iff.2 ⟨hwhole, isBalanced_of_layout h, rfl⟩

/-- What is laid out has the tree of the text, but for the offsets. -/
lemma exists_tree_of_layout (h : layout s = .ok out) :
    ∃ tree tree', parse (unixText s) = .ok tree ∧ parse out = .ok tree' ∧ tree'.unplaced = tree.unplaced := by
  obtain ⟨tree, -, hparse, -, -⟩ := exists_of_layout h
  obtain ⟨hn, lead, M, hlex, hlead, htidied, -, hwhole⟩ := layout_eq_ok h
  have hcode : (Source.statementTokens (unixText s)).map Token.lexeme = (Source.statementTokens out).map Token.lexeme := by
    rw [Source.map_lexeme_statementTokens, Source.map_lexeme_statementTokens, statementLexemes_laidOut hn hlex hlead htidied]
  obtain ⟨tree', hparse', hlike⟩ := Source.exists_parse_of_alike (P := Eq) hparse hwhole (isBalanced_of_layout h)
    (.of_sameCode (.of_lexemes hcode))
  exact ⟨tree, tree', hparse, hparse', hlike.unplaced_eq.symm⟩

/-- **Layout keeps the code.**  What is laid out parses.  Its tokens are those of the text with single characters for line
breaks, but for the line breaks and for blanks at the end of line comments, and so is its tree, but for the offsets. -/
theorem layout_keeps_code (h : layout s = .ok out) :
    ∃ (ts us : List Token) (tree tree' : Tree), tokenize (unixText s) = .ok ts ∧ tokenize out = .ok us ∧
      List.Forall₂ Token.Trims (ts.filter (·.kind ≠ .newline)) (us.filter (·.kind ≠ .newline)) ∧
      parse (unixText s) = .ok tree ∧ parse out = .ok tree' ∧ tree'.unplaced = tree.unplaced := by
  obtain ⟨-, ts, -, htokens, -⟩ := exists_of_layout h
  obtain ⟨hn, lead, M, hlex, hlead, htidied, -⟩ := layout_eq_ok h
  obtain ⟨tree, tree', hparse, hparse', hunplaced⟩ := exists_tree_of_layout h
  have htokens' := tokenize_of_layout h
  have htext : (lex (unixText s)).filter (·.kind.isText) = M.filter (·.kind.isText) := by
    have hclosed : (lex (closed (unixText s))).filter (·.kind.isText) = (lex (unixText s)).filter (·.kind.isText) := by
      rcases lex_closed hn with e | e <;> rw [e]
      simp [List.filter_append, lineBreak, Source.Kind.isText]
    rw [← hclosed, hlex, List.filter_append, hlead.filter_isText, List.nil_append]
  refine ⟨ts, _, tree, tree', htokens, htokens', ?_, hparse, hparse', hunplaced⟩
  have htrims := htidied.trims
  rw [← htext, ← map_lexeme_filter htokens, ← map_lexeme_filter htokens'] at htrims
  exact (List.forall₂_map_right_iff.1 (List.forall₂_map_left_iff.1 htrims)).imp fun _ _ h => h

/-- A text with blanks at the end of lines, one of which is inside a raw string. -/
def raggedCode : Text := "\r\npackage a \r\n\r\n\r\n// c \t\r\nvar x = \x60 \n\n\n\x60 "

/-- That text, laid out. -/
def tidyCode : Text := "package a\n\n// c\nvar x = \x60 \n\n\n\x60\n"

/-- The code of that text stays. -/
theorem layout_keeps_ragged_code : layout raggedCode = .ok tidyCode ∧
    ∃ (ts us : List Token) (tree tree' : Tree), tokenize (unixText raggedCode) = .ok ts ∧ tokenize tidyCode = .ok us ∧
      List.Forall₂ Token.Trims (ts.filter (·.kind ≠ .newline)) (us.filter (·.kind ≠ .newline)) ∧
      parse (unixText raggedCode) = .ok tree ∧ parse tidyCode = .ok tree' ∧ tree'.unplaced = tree.unplaced := by
  have h : layout raggedCode = .ok tidyCode := by
    apply ok_of_toOption
    unfold raggedCode tidyCode
    repeat rw [String.toList_ofList]
    decide +kernel
  exact ⟨h, layout_keeps_code h⟩

end RuleWeaver
