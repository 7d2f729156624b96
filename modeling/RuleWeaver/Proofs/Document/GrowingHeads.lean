import RuleWeaver.Proofs.Document.Edits
import RuleWeaver.Proofs.Document.Imports
import RuleWeaver.Proofs.Source.Heads
import RuleWeaver.Proofs.Source.Preamble

/-!
# Heads that gain an import

An import that is added goes behind a token of the head of a file, and the head with the import is again the head of a file
(`exists_grownHead`).  It has the imports that it had, and the new one.
-/

namespace RuleWeaver

open Source Text

variable {s p t y : Text} {tree : Tree} {F B N : List Lexeme} {e : Bool} {new : List NewImport} {edits : List Edit} {head : List Lexeme}

/-! ### The lexemes of an import -/

/-- The lexemes of what a head gains: nothing, or an import on a line of a group, or one behind line breaks. -/
inductive IsAddedImport : List NewImport → Text → List Lexeme → Prop
  | nothing : IsAddedImport [] [] []
  | grouped (path : Text) : IsAddedImport [⟨none, path⟩] ('\n' :: '\t' :: quote path)
      [⟨.newline, ['\n']⟩, ⟨.blank, ['\t']⟩, ⟨.string, quote path⟩]
  | single (path : Text) : IsAddedImport [⟨none, path⟩] ('\n' :: ("import ".toList ++ quote path))
      [⟨.newline, ['\n']⟩, ⟨.importWord, "import"⟩, ⟨.blank, [' ']⟩, ⟨.string, quote path⟩]
  | first (path : Text) : IsAddedImport [⟨none, path⟩] ('\n' :: '\n' :: ("import ".toList ++ quote path))
      [⟨.newline, ['\n']⟩, ⟨.newline, ['\n']⟩, ⟨.importWord, "import"⟩, ⟨.blank, [' ']⟩, ⟨.string, quote path⟩]

namespace IsAddedImport

lemma lex_append (h : IsAddedImport new t N) : lex (t ++ y) = N ++ lex y := by
  have hword : lex "import ".toList = [⟨.importWord, "import"⟩, ⟨.blank, [' ']⟩] := by decide +kernel
  have himport : ∀ p, lex ("import ".toList ++ (quote p ++ y)) =
      [⟨.importWord, "import"⟩, ⟨.blank, [' ']⟩, ⟨.string, quote p⟩] ++ lex y := by
    intro p
    rw [lex_append_of_eq hword (by rfl) (by rfl), lex_quote_append]
    rfl
  cases h with
  | nothing => rfl
  | grouped =>
    rw [List.cons_append, List.cons_append, lex_newline, lex_blank rfl (by rfl), lex_quote_append]
    rfl
  | single =>
    rw [List.cons_append, List.append_assoc, lex_newline, himport]
    rfl
  | first =>
    rw [List.cons_append, List.cons_append, List.append_assoc, lex_newline, lex_newline, himport]
    rfl

/-- What is added begins on a new line. -/
lemma exists_newline (h : IsAddedImport new t N) : t = [] ∧ N = [] ∨ ∃ u M, t = '\n' :: u ∧ N = ⟨.newline, ['\n']⟩ :: M := by
  cases h with
  | nothing => exact .inl ⟨rfl, rfl⟩
  | grouped | single | first => exact .inr ⟨_, _, rfl, rfl⟩

lemma isBalanced (h : IsAddedImport new t N) : isBalanced [] N := by
  cases h <;> rfl

lemma endingBehind (h : IsAddedImport new t N) : Source.endingBehind true N = true := by
  cases h <;> rfl

lemma isSound (h : IsAddedImport new t N) : ∀ l ∈ N, l.isSound := by
  cases h <;> simp [Lexeme.isSound]

lemma eq_nil (h : IsAddedImport new t []) : new = [] := by
  cases h
  rfl

/-- Behind the end of a line of imports, it is a line of its own. -/
lemma importLines (h : IsAddedImport new t N) (hne : N ≠ []) {K L : List Lexeme} :
    importLines none (K ++ (statementPart true N ++ L)) = importLines none K ++ (new ++ importLines none L) := by
  have hpath : ∀ p : Text, (⟨.string, quote p⟩ : Lexeme).kind.isPath := fun _ => rfl
  cases h with
  | nothing => exact absurd rfl hne
  | grouped p =>
    have hN : statementPart true [⟨.newline, ['\n']⟩, ⟨.blank, ['\t']⟩, ⟨.string, quote p⟩] = [.impliedSemi, ⟨.string, quote p⟩] := rfl
    rw [hN, List.cons_append, importLines_semi rfl, List.singleton_append, importLines_path (hpath p), Text.unquote_quote]
    rfl
  | single p =>
    have hN : statementPart true [⟨.newline, ['\n']⟩, ⟨.importWord, "import"⟩, ⟨.blank, [' ']⟩, ⟨.string, quote p⟩] =
        [.impliedSemi, ⟨.importWord, "import"⟩, ⟨.string, quote p⟩] := rfl
    rw [hN, List.cons_append, importLines_semi rfl, List.cons_append, importLines_other rfl (by decide), List.singleton_append,
      importLines_path (hpath p), Text.unquote_quote]
    rfl
  | first p =>
    have hN : statementPart true [⟨.newline, ['\n']⟩, ⟨.newline, ['\n']⟩, ⟨.importWord, "import"⟩, ⟨.blank, [' ']⟩,
        ⟨.string, quote p⟩] = [.impliedSemi, ⟨.importWord, "import"⟩, ⟨.string, quote p⟩] := rfl
    rw [hN, List.cons_append, importLines_semi rfl, List.cons_append, importLines_other rfl (by decide), List.singleton_append,
      importLines_path (hpath p), Text.unquote_quote]
    rfl

end IsAddedImport

/-! ### The place of an import -/

/-- Where imports go into a head, with the lexemes of the head in front and behind. -/
structure GrownHead (head : List Lexeme) (edits : List Edit) (new : List NewImport) where
  front : List Lexeme
  behind : List Lexeme
  added : List Lexeme
  head_eq : head = front ++ behind
  areAt : Document.AreAt (joined front).width edits
  isAdded : IsAddedImport new (pieces edits).flatten added
  isHead : IsHead (front ++ (added ++ behind))
  /-- It has the imports that it had, and the new ones. -/
  lines : ∃ a b, importLines none (statementPart false head) = a ++ b ∧
    importLines none (statementPart false (front ++ (added ++ behind))) = a ++ (new ++ b)

/-- An import behind the end of a line of imports is one more. -/
lemma exists_importLines_of_isAdded (h : IsAddedImport new t N) (hend : Source.endingBehind false F = true)
    (hlast : B ≠ [] → ∃ K l, statementPart false F = K ++ [l] ∧ l.kind.isPath) :
    ∃ a b, importLines none (statementPart false (F ++ B)) = a ++ b ∧
      importLines none (statementPart false (F ++ (N ++ B))) = a ++ (new ++ b) := by
  by_cases hN : N = []
  · subst hN
    exact ⟨_, [], (List.append_nil _).symm, by simp [h.eq_nil]⟩
  · refine ⟨importLines none (statementPart false F), importLines none (statementPart true B), ?_, ?_⟩
    · rw [statementPart_append, hend]
      by_cases hB : B = []
      · subst hB
        simp [statementPart, importLines]
      · obtain ⟨K, l, hK, hl⟩ := hlast hB
        have hname : ¬ (l.kind = .ident ∨ l.kind = .dot) := by
          rcases isPath_iff.1 hl with h | h <;> rw [h] <;> decide
        rw [hK, List.append_assoc, List.singleton_append, importLines_append hname]
    · rw [statementPart_append, statementPart_append, hend, h.endingBehind, h.importLines hN]

/-- The spec that ends a group gets another one behind it. -/
lemma isHead_behind_spec {us vs A C : List Kind} {l : Lexeme} {path : Text}
    (hF : (statementPart false F).map Lexeme.kind = A ++ us ++ [l.kind]) (hend : Source.endingBehind false F = true)
    (hB : (statementPart true B).map Lexeme.kind = vs ++ C) (hending : Source.endingBehind false (F ++ B) = true)
    (hcode : IsHeadCode (A ++ (us ++ l.kind :: .semi :: .string :: vs) ++ C)) :
    IsHead (F ++ ([⟨.newline, ['\n']⟩, ⟨.blank, ['\t']⟩, ⟨.string, quote path⟩] ++ B)) where
  ending := by
    rw [endingBehind_append, hend] at hending ⊢
    exact hending
  code := by
    have hN : statementPart true [⟨.newline, ['\n']⟩, ⟨.blank, ['\t']⟩, ⟨.string, quote path⟩] =
        [.impliedSemi, ⟨.string, quote path⟩] := rfl
    rw [statementPart_append, statementPart_append, hend, hN, List.map_append, List.map_append, hF,
      show Source.endingBehind true [⟨.newline, ['\n']⟩, ⟨.blank, ['\t']⟩, ⟨.string, quote path⟩] = true from rfl, hB]
    convert hcode using 1
    simp [Lexeme.impliedSemi]

/-- An import goes behind the last token of a head. -/
lemma isHead_behind_head {path : Text} (h : IsHead F) (hN : (statementPart true N) =
    [.impliedSemi, ⟨.importWord, "import"⟩, ⟨.string, quote path⟩]) (hend : Source.endingBehind true N = true) : IsHead (F ++ (N ++ [])) := by
  rw [List.append_nil]
  exact h.append_import (k := .string) rfl (by rw [hN]; rfl) hend

/-- Nothing may go behind a head. -/
def GrownHead.self (h : IsHead head) : GrownHead head [] [] where
  front := head
  behind := []
  added := []
  head_eq := (List.append_nil _).symm
  areAt := List.forall_mem_nil _
  isAdded := .nothing
  isHead := by simpa using h
  lines := ⟨_, [], (List.append_nil _).symm, by simp⟩

lemma areAt_of_span {n : ℕ} {e : Edit} (h : e.span = ⟨n, n⟩) : Document.AreAt n [e] := by
  intro e' he
  rw [List.mem_singleton.1 he, h]

/-- An import goes behind the last path of a group. -/
lemma exists_grownHead_of_group {hd : Head s tree} (k : hd.Cut) {g : ImportDecl} {spec : ImportSpec}
    (hgroup : tree.imports.reverse.find? (·.grouped) = some g) (hlast : g.specs.getLast? = some spec) (p : Text) :
    Nonempty (GrownHead k.lexemes [importEdit s tree ⟨none, p⟩] [⟨none, p⟩]) := by
  have hending := k.endingBehind_lexemes
  have hpieces : (pieces [importEdit s tree ⟨none, p⟩]).flatten = '\n' :: '\t' :: quote p := by
    rw [pieces, List.map_singleton, List.flatten_singleton, importEdit, hgroup]
    rfl
  obtain ⟨A, w, o, G, C, l, hts, hstart, hw, ho, hstop, hl, hread, hcode⟩ :=
    hd.exists_group (List.mem_reverse.1 (List.mem_of_find?_eq_some hgroup)) (List.find?_some hgroup)
  have hstatements : k.statements = A ++ w :: o :: (G ++ C) := by
    have h := k.statementTokens_eq
    rw [hts, show A ++ w :: o :: (G ++ (C ++ l :: hd.rest)) = (A ++ w :: o :: (G ++ C)) ++ l :: hd.rest by simp] at h
    exact (List.append_inj_left' h rfl).symm
  obtain ⟨us, t, vs, rfl, htstop, htpath, hinsert⟩ := hread.last spec hlast
  have htends := endsStatement_of_isPath htpath
  have htsemi : t.kind ≠ .semi := by
    intro hk
    rw [hk] at htpath
    cases htpath
  -- what stands around the path
  obtain ⟨F₁, F₂, hF, hsig, hD₁, hD₂⟩ := k.exists_split
    (show k.statements = (A ++ w :: o :: us) ++ t :: (vs ++ C) by rw [hstatements]; simp) htsemi
  have hhead : k.lexemes = (F₁ ++ [t]).map Token.lexeme ++ F₂.map Token.lexeme := by
    rw [Head.Cut.lexemes, hF]
    simp
  have hend : Source.endingBehind false ((F₁ ++ [t]).map Token.lexeme) = true := by
    rw [List.map_append, endingBehind_append, List.map_singleton, endingBehind_cons_of_isSignificant (l := t.lexeme) hsig]
    exact htends
  have hwidth : t.stop = (joined ((F₁ ++ [t]).map Token.lexeme)).width := by
    refine stop_of_tokens_eq (show tokens s = _ ++ t :: (F₂ ++ k.behind) from ?_)
    rw [k.tokens_eq, ← List.singleton_append (x := k.last), ← List.append_assoc, hF]
    simp
  have hadded := IsAddedImport.grouped p
  rw [← hpieces] at hadded
  refine ⟨⟨(F₁ ++ [t]).map Token.lexeme, F₂.map Token.lexeme, _, hhead, areAt_of_span ?_, hadded, ?_, ?_⟩⟩
  · rw [← hwidth, htstop, importEdit, hgroup]
    simp only [hlast]
  · have hFkinds : (statementPart false ((F₁ ++ [t]).map Token.lexeme)).map Lexeme.kind =
        (A ++ [w, o]).map (·.kind) ++ us.map (·.kind) ++ [t.lexeme.kind] := by
      rw [← hD₁]
      simp [Function.comp_def]
    have hBkinds : (statementPart true (F₂.map Token.lexeme)).map Lexeme.kind = vs.map (·.kind) ++ C.map (·.kind) := by
      rw [← htends, ← hD₂]
      simp [Function.comp_def]
    refine isHead_behind_spec hFkinds hend hBkinds (hhead ▸ hending) ?_
    have := hcode _ (hinsert .string rfl)
    simpa [hw, ho] using this
  · rw [hhead]
    exact exists_importLines_of_isAdded hadded hend fun _ => ⟨(A ++ w :: o :: us).map Token.lexeme, t.lexeme, by rw [← hD₁]; simp, htpath⟩

/-- Without a group an import goes behind everything else. -/
lemma exists_grownHead_behind {hd : Head s tree} (k : hd.Cut) (hgroup : tree.imports.reverse.find? (·.grouped) = none) {p : Text}
    (hadded : IsAddedImport [⟨none, p⟩] (importEdit s tree ⟨none, p⟩).node.render N)
    (hN : statementPart true N = [.impliedSemi, ⟨.importWord, "import"⟩, ⟨.string, quote p⟩]) :
    Nonempty (GrownHead k.lexemes [importEdit s tree ⟨none, p⟩] [⟨none, p⟩]) := by
  have hwidth : tree.headEnd = (joined k.lexemes).width := by
    rw [← k.stop, Head.Cut.lexemes]
    exact stop_of_tokens_eq k.tokens_eq
  have hspan : (importEdit s tree ⟨none, p⟩).span = ⟨(joined k.lexemes).width, (joined k.lexemes).width⟩ := by
    rw [← hwidth, Tree.headEnd, importEdit, hgroup]
    cases tree.importsEnd? <;> rfl
  have hlines := exists_importLines_of_isAdded (B := []) hadded k.endingBehind_lexemes fun h => absurd rfl h
  rw [List.append_nil] at hlines
  refine ⟨⟨k.lexemes, [], N, (List.append_nil _).symm, areAt_of_span hspan, ?_, isHead_behind_head k.isHead hN hadded.endingBehind, hlines⟩⟩
  rw [pieces, List.map_singleton, List.flatten_singleton]
  exact hadded

lemma exists_grownHead_without_group {hd : Head s tree} (k : hd.Cut) (hgroup : tree.imports.reverse.find? (·.grouped) = none) (p : Text) :
    Nonempty (GrownHead k.lexemes [importEdit s tree ⟨none, p⟩] [⟨none, p⟩]) := by
  cases hlast : tree.importsEnd? with
  | some stop =>
    have hnode : (importEdit s tree ⟨none, p⟩).node.render = '\n' :: ("import ".toList ++ quote p) := by
      rw [importEdit, hgroup]
      simp only [hlast]
      rfl
    exact exists_grownHead_behind k hgroup (by rw [hnode]; exact .single p) rfl
  | none =>
    have hnode : (importEdit s tree ⟨none, p⟩).node.render = '\n' :: '\n' :: ("import ".toList ++ quote p) := by
      rw [importEdit, hgroup]
      simp only [hlast]
      rfl
    exact exists_grownHead_behind k hgroup (by rw [hnode]; exact .first p) rfl

/-- **A head may gain an import**, if its groups hold imports. -/
theorem exists_grownHead {hd : Head s tree} (k : hd.Cut) (hgroups : ∀ i ∈ tree.imports, i.grouped → i.specs ≠ []) (p : Text) :
    Nonempty (GrownHead k.lexemes [importEdit s tree ⟨none, p⟩] [⟨none, p⟩]) := by
  cases hgroup : tree.imports.reverse.find? (·.grouped) with
  | some g =>
    have hg : g ∈ tree.imports := List.mem_reverse.1 (List.mem_of_find?_eq_some hgroup)
    exact exists_grownHead_of_group k hgroup (List.getLast?_eq_some_getLast (hgroups g hg (List.find?_some hgroup))) p
  | none => exact exists_grownHead_without_group k hgroup p

/-! ### Grown heads -/

namespace GrownHead

variable {R : List Lexeme}

/-- The text of the head with what it gains. -/
def text (g : GrownHead head edits new) : Text := joined g.front ++ ((pieces edits).flatten ++ joined g.behind)

/-- The lexemes of the head with what it gains. -/
def lexemes (g : GrownHead head edits new) : List Lexeme := g.front ++ (g.added ++ g.behind)

/-- In front of a line break, the text has those lexemes. -/
lemma lex_text (g : GrownHead head edits new) (hs : lex s = head ++ R) (hw : isWhole s) :
    lex (g.text ++ '\n' :: y) = g.lexemes ++ lex ('\n' :: y) := by
  have hhead : IsLexed head := (isLexed_of_lex hs hw).left
  rcases g.isAdded.exists_newline with ⟨ht, hN⟩ | ⟨u, M, ht, -⟩
  · rw [text, ht, List.nil_append, ← joined_append, ← g.head_eq, hhead.lex_append_newline, lexemes, hN, List.nil_append, ← g.head_eq,
      lex_newline]
  · rw [g.head_eq] at hhead
    have hsplit : g.text ++ '\n' :: y = joined g.front ++ '\n' :: (u ++ (joined g.behind ++ '\n' :: y)) := by
      rw [text, ht]
      simp
    rw [hsplit, hhead.left.lex_append_newline, ← lex_newline, ← List.cons_append, ← ht, g.isAdded.lex_append,
      hhead.right.lex_append_newline, lexemes]
    simp

/-- The head with what it gains has the imports that it had, and the new ones. -/
lemma exists_importLines (g : GrownHead head edits new) :
    ∃ a b, importLines none (statementPart false head) = a ++ b ∧ importLines none (statementPart false g.lexemes) = a ++ (new ++ b) :=
  g.lines

/-- What is added has no open brackets. -/
lemma isBalanced_eq (g : GrownHead head edits new) {stack : List Kind} : isBalanced stack (g.lexemes ++ R) = isBalanced stack (head ++ R) := by
  have h : isBalanced stack (g.front ++ (g.added ++ (g.behind ++ R))) = isBalanced stack (g.front ++ (g.behind ++ R)) :=
    isBalanced_congr fun _ => isBalanced_append g.isAdded.isBalanced
  rw [lexemes, List.append_assoc, List.append_assoc, h, ← List.append_assoc, ← g.head_eq]

lemma isSound (g : GrownHead head edits new) (h : ∀ l ∈ head, l.isSound) : ∀ l ∈ g.lexemes, l.isSound := by
  intro l hl
  simp only [lexemes, List.mem_append] at hl
  rcases hl with hl | hl | hl
  · exact h l (by rw [g.head_eq]; exact List.mem_append_left _ hl)
  · exact g.isAdded.isSound l hl
  · exact h l (by rw [g.head_eq]; exact List.mem_append_right _ hl)

end GrownHead

end RuleWeaver
