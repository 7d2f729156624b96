import RuleWeaver.Proofs.Source.Blanking
import RuleWeaver.Proofs.Source.Twins

/-!
# Parsing without comments

With its comments blanked, statements of a text end where they did (`twins_endStatements`).  What is parsed is the same tree
without comment blocks (`parse_commentsBlanked`).
-/

namespace RuleWeaver.Source

variable {s t : Text} {n size : Nat} {e : Bool} {ts : List Token} {tree : Tree}

/-! ### Statement ends -/

lemma endStatements_lineBreaks : endStatements size false (lineBreaks n t ++ ts) = endStatements size false ts ∧
    ('\n' ∈ t → ∃ m, endStatements size true (lineBreaks n t ++ ts) = .impliedSemi m :: endStatements size false ts) := by
  induction t generalizing n with
  | nil => exact ⟨rfl, fun h => by cases h⟩
  | cons c t ih =>
    obtain ⟨hfalse, htrue⟩ := ih (n := n + c.utf8Size)
    have hbreak : (⟨.newline, ['\n'], n⟩ : Token).breaksLine = true := rfl
    rw [lineBreaks]
    split
    · rw [List.cons_append, endStatements, endStatements, hbreak, if_pos rfl, if_pos rfl, if_pos rfl, hfalse]
      exact ⟨rfl, fun _ => ⟨n, rfl⟩⟩
    · next hc => exact ⟨hfalse, fun h => htrue ((List.mem_cons.1 h).resolve_left (Ne.symm hc))⟩

/-- Without comments statements end where they did, but for the offset. -/
lemma twins_endStatements (h : ∀ t ∈ ts, t.kind = .lineComment → '\n' ∉ t.text) :
    Twins (endStatements size e ts) (endStatements size e (ts.flatMap Token.uncommented)) := by
  induction ts generalizing e with
  | nil => exact List.forall₂_same.2 fun t _ => .refl t
  | cons t ts ih =>
    have ih := fun e => ih (e := e) fun u hu => h u (List.mem_cons_of_mem _ hu)
    rw [List.flatMap_cons, Token.uncommented, endStatements]
    by_cases hc : t.kind.isComment
    · rw [if_pos hc, if_pos hc]
      by_cases hbreak : '\n' ∈ t.text
      · have hblock : t.breaksLine = true := by
          have hk : t.kind ≠ .lineComment := fun hk => h t List.mem_cons_self hk hbreak
          revert hc hk
          unfold Token.breaksLine
          cases t.kind <;> simp [Kind.isComment, hbreak]
        rw [if_pos hblock]
        cases e with
        | false =>
          rw [if_neg Bool.false_ne_true, endStatements_lineBreaks.1]
          exact ih false
        | true =>
          obtain ⟨m, hm⟩ := endStatements_lineBreaks.2 hbreak
          rw [if_pos rfl, hm]
          exact .cons ⟨rfl, fun hk => absurd rfl hk⟩ (ih false)
      · have hflat : t.breaksLine = false := by
          revert hc
          unfold Token.breaksLine
          cases t.kind <;> simp [Kind.isComment, hbreak]
        rw [hflat, if_neg Bool.false_ne_true, lineBreaks_eq_nil hbreak, List.nil_append]
        exact ih e
    · rw [if_neg hc, if_neg hc, List.singleton_append, endStatements]
      split
      · split
        · exact .cons (.refl _) (ih false)
        · exact ih false
      · exact .cons (.refl t) (ih _)

/-! ### Parsing -/

lemma filter_uncommented : (ts.flatMap Token.uncommented).filter (·.kind.isSignificant) = ts.filter (·.kind.isSignificant) := by
  induction ts with
  | nil => rfl
  | cons t ts ih =>
    rw [List.flatMap_cons, List.filter_append, ih, Token.uncommented]
    split
    · next hc =>
      have hk : ¬ t.kind.isSignificant := by
        revert hc
        cases t.kind <;> simp [Kind.isComment, Kind.isSignificant]
      have hbreaks : (lineBreaks t.start t.text).filter (·.kind.isSignificant) = [] :=
        List.filter_eq_nil_iff.2 fun u hu => by simp [kind_of_mem_lineBreaks hu, Kind.isSignificant]
      rw [hbreaks, List.nil_append, List.filter_cons, if_neg hk]
    · rw [← List.filter_append, List.singleton_append]

lemma commentStart_of_no_comment {start breaks : Nat} (h : ∀ t ∈ ts, ¬ t.kind.isComment) :
    commentStart start breaks ts = start := by
  induction ts generalizing breaks with
  | nil => rfl
  | cons t ts ih =>
    have ih := @ih (breaks + 1) fun u hu => h u (List.mem_cons_of_mem _ hu)
    rw [commentStart, if_neg (h t List.mem_cons_self), ih]
    split
    · split <;> rfl
    · rfl

/-- The tree without comment blocks. -/
def Tree.withoutComments (t : Tree) : Tree where
  package := t.package
  imports := t.imports.map fun i => { i with commentStart := i.span.start }
  decls := t.decls.map fun d => { d with commentStart := d.span.start }

lemma withComments_of_no_comment (h : ∀ t ∈ ts, ¬ t.kind.isComment) : tree.withComments ts = tree.withoutComments := by
  have hstart : ∀ offset, commentStartAt ts offset = offset := fun offset =>
    commentStart_of_no_comment fun t ht => h t ((List.takeWhile_sublist _).mem (List.mem_reverse.1 ht))
  simp only [Tree.withComments, Tree.withoutComments, hstart]

lemma withoutComments_withComments : (tree.withComments ts).withoutComments = tree.withoutComments := by
  simp [Tree.withComments, Tree.withoutComments, Function.comp_def]

/-- Brackets are matched among the tokens that carry meaning. -/
lemma isBalanced_significant : isBalanced [] (lex s) =
    isBalanced [] ((((tokens s).filter (·.kind ≠ .blank)).filter (·.kind.isSignificant)).map Token.lexeme) := by
  have hfilter : ((tokens s).filter (·.kind ≠ .blank)).filter (·.kind.isSignificant) = (tokens s).filter (·.kind.isSignificant) := by
    rw [List.filter_filter]
    refine List.filter_congr fun t _ => ?_
    cases t.kind <;> rfl
  have hmap := List.filter_map (f := Token.lexeme) (l := tokens s) (p := fun l => l.kind.isSignificant)
  rw [map_lexeme_tokens] at hmap
  rw [hfilter, show ((tokens s).filter (·.kind.isSignificant)).map Token.lexeme = (lex s).filter (·.kind.isSignificant) from hmap.symm]
  refine (isBalanced_filter fun l hl => ?_).symm
  revert hl
  cases l.kind <;> decide

lemma tokenize_commentsBlanked (h : tokenize s = .ok ts) :
    tokenize (commentsBlanked s) = .ok (ts.flatMap Token.uncommented) := by
  obtain ⟨hw, hb, rfl⟩ := tokenize_eq_ok_iff.1 h
  have htokens := tokens_commentsBlanked (s := s)
  refine tokenize_eq_ok_iff.2 ⟨?_, ?_, htokens.symm⟩
  · rw [isWhole_iff]
    intro l hl
    rw [← map_lexeme_tokens] at hl
    obtain ⟨t, ht, rfl⟩ := List.mem_map.1 hl
    by_cases hk : t.kind = .blank
    · simp [Lexeme.isSound, hk]
    · have hmem : t ∈ (tokens (commentsBlanked s)).filter (·.kind ≠ .blank) := List.mem_filter.2 ⟨ht, by simpa using hk⟩
      rw [htokens] at hmem
      rcases mem_uncommented hmem with hk | ⟨hmem, -⟩
      · simp [Lexeme.isSound, hk]
      · exact isWhole_iff.1 hw _ (lexeme_mem_lex (List.mem_filter.1 hmem).1)
  · rw [isBalanced_significant, htokens, filter_uncommented, ← isBalanced_significant]
    exact hb

/-- **Parsing sees the same behind comments.**  With its comments blanked, a file has the same tree without comment blocks. -/
theorem parse_commentsBlanked (h : parse s = .ok tree) : parse (commentsBlanked s) = .ok tree.withoutComments := by
  obtain ⟨all, bare, hall, hbare, rfl⟩ := parse_eq_ok_iff.1 h
  obtain ⟨hw, -, hts⟩ := tokenize_eq_ok_iff.1 hall
  have htwins : Twins (endStatements s.width false all) (endStatements s.width false (all.flatMap Token.uncommented)) := by
    refine twins_endStatements fun t ht hk => ?_
    rw [hts] at ht
    obtain ⟨u, hu, hflat⟩ := exists_lineComment (l := t.lexeme) (lexeme_mem_lex (List.mem_filter.1 ht).1) hk
    rw [show t.text = '/' :: '/' :: u from hu]
    simpa using hflat
  have hfile : Cursor.file ⟨0, endStatements (commentsBlanked s).width false (all.flatMap Token.uncommented)⟩ = .ok bare := by
    rw [width_commentsBlanked]
    exact file_of_twins (c := ⟨0, _⟩) htwins hbare
  have hcomment : ∀ t ∈ all.flatMap Token.uncommented, ¬ t.kind.isComment := by
    intro t ht
    rcases mem_uncommented ht with hk | ⟨-, hk⟩
    · rw [hk]
      decide
    · exact hk
  refine parse_eq_ok_iff.2 ⟨_, bare, tokenize_commentsBlanked hall, hfile, ?_⟩
  rw [withComments_of_no_comment hcomment, withoutComments_withComments]

/-- A file with comments of both kinds: one has a character of two bytes, one goes over two lines, one ends a statement. -/
def annotatedFile : Text :=
  "package a // é\n\n/* one\n   two */\nimport \"b\" /* c\n */ // d\n// T\ntype T struct \x7b\n\tX int // x\n\x7d\n"

def annotatedTree : Tree where
  package := ⟨"a", ⟨0, 9⟩⟩
  imports := [⟨[⟨none, "b", ⟨41, 44⟩⟩], ⟨34, 44⟩, 17, false⟩]
  decls := [⟨.types [⟨"T", some [⟨["X"], none, false⟩]⟩], ⟨64, 93⟩, 59⟩]

/-- That file has its tree without comments, too. -/
theorem annotatedFile_commentsBlanked : parse annotatedFile = .ok annotatedTree ∧
    parse (commentsBlanked annotatedFile) = .ok annotatedTree.withoutComments ∧ annotatedTree.withoutComments ≠ annotatedTree := by
  have h : parse annotatedFile = .ok annotatedTree := by
    apply ok_of_toOption
    unfold annotatedFile
    repeat rw [String.toList_ofList]
    decide +kernel
  exact ⟨h, parse_commentsBlanked h, by decide⟩

end RuleWeaver.Source
