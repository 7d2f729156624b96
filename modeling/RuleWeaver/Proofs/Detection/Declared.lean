import RuleWeaver.Proofs.Detection.Functions
import RuleWeaver.Proofs.Source.Gaps

/-!
# Functions that are declared

A function of a tree whose declaration begins a line is found in the text, whatever white space and comments stand between
its keyword, its name and its parameters (`hasFunctionHead_of_mem_decls`).
-/

namespace RuleWeaver.Source

open Unicode (isWord)
open Text (run)

variable {s name : Text} {l m : Lexeme} {ls g zs : List Lexeme} {c d' : Cursor} {f : Function}

/-! ### Keywords -/

/-- The keyword of a function is its text, and no name stands directly behind it. -/
lemma funcWord_of_lex (h : lex s = l :: ls) (hk : l.kind = .funcWord) :
    l.text = "func" ∧ (joined ls).head?.all (!isNameChar ·) := by
  obtain ⟨hkind, -, hnext⟩ := word_of_lex h (by rw [hk]; rfl)
  refine ⟨?_, hnext⟩
  rw [hk] at hkind
  revert hkind
  fun_cases wordKind l.text <;> simp_all

/-! ### Heads in a tree -/

/-- The tokens that a function without receiver has in front of its parameters. -/
lemma Cursor.function_head {body : Option Span} (h : c.function = .ok (⟨name, none, body⟩, d')) :
    ∃ t o rest, c.ahead = t :: o :: rest ∧ t.kind = .ident ∧ t.text = name ∧ (o.kind = .lparen ∨ o.kind = .lbracket) ∧
      d'.size ≤ rest.length := by
  obtain ⟨receiver, d, t, d₂, d₃, parameters, d₄, body', hreceiver, hname, hgroup, hparameters, hbody, hfunction⟩ :=
    Cursor.function_eq_ok_iff.1 h
  obtain ⟨rfl, rfl, rfl⟩ := Function.mk.inj hfunction
  -- there is no receiver, so the name is next
  obtain ⟨-, -, x, -, -, hnone⟩ | ⟨-, -, rfl⟩ := Cursor.receiver?_eq_ok_iff.1 hreceiver
  · cases hnone
  obtain ⟨hahead, hkind, -⟩ := Cursor.expect_eq_ok_iff.1 hname
  obtain ⟨o, rest, ho, hopens⟩ : ∃ o rest, d₂.ahead = o :: rest ∧ (o.kind = .lparen ∨ o.kind = .lbracket) := by
    unfold Cursor.groupIf at hgroup
    split at hgroup
    · next hk =>
      obtain ⟨o, rest, ho, hkind⟩ := Cursor.kind?_eq_some (of_decide_eq_true hk)
      exact ⟨o, rest, ho, .inr hkind⟩
    · cases hgroup
      unfold Cursor.parameters at hparameters
      split at hparameters
      · next hk =>
        obtain ⟨o, rest, ho, hkind⟩ := Cursor.kind?_eq_some hk
        exact ⟨o, rest, ho, .inl hkind⟩
      · exact absurd hparameters Cursor.unmet_ne_ok
  refine ⟨t, o, rest, by rw [hahead, ho], hkind, rfl, hopens, ?_⟩
  have h₃ : d₃.size ≤ d₂.size := Cursor.groupIf_size_le hgroup
  have h₄ : d₄.size < d₃.size := Cursor.parameters_shorter hparameters
  have h₅ : d'.size ≤ d₄.size := Cursor.functionBody_size_le hbody
  have hsize : d₂.size = rest.length + 1 := by rw [Cursor.size, ho, List.length_cons]
  omega

/-- The lexemes of a declaration begin with its keyword. -/
lemma Decl.StandsAt.begins {d : Decl} {front body behind ts : List Token} {last keyword : Token}
    (hat : d.StandsAt s front body last behind) (hk : keyword.kind ≠ .semi)
    (hpart : (keyword :: ts).map Token.lexeme = statementPart false ((body ++ [last]).map Token.lexeme)) :
    ∃ xs, (body ++ [last]).map Token.lexeme = keyword.lexeme :: xs ∧ ts.map Token.lexeme = statementPart keyword.kind.endsStatement xs := by
  rw [List.map_cons] at hpart
  obtain ⟨g, xs, hxs, hg, hpart⟩ := statementPart_eq_cons hpart.symm hk
  obtain rfl : g = [] := by
    rcases g with _ | ⟨l, g⟩
    · rfl
    · rw [List.cons_append, List.map_eq_cons_iff] at hxs
      obtain ⟨u, us, hu, rfl, -⟩ := hxs
      have hfirst := hat.first u (by rw [hu]; rfl)
      have hnot := hg u.lexeme List.mem_cons_self
      rw [Token.lexeme_kind, hfirst] at hnot
      cases hnot
  exact ⟨xs, hxs, hpart⟩

/-- The lexemes that a function without receiver begins with. -/
lemma Decl.StandsAt.opensFunction {d : Decl} {front body behind : List Token} {last : Token} {span : Option Span}
    (hat : d.StandsAt s front body last behind) (hkind : d.kind = .function ⟨name, none, span⟩) :
    ∃ (keyword t o : Lexeme) (g g' tail : List Lexeme), (body ++ [last]).map Token.lexeme = keyword :: (g ++ t :: (g' ++ o :: tail)) ∧
      IsGapCode g ∧ IsGapCode g' ∧ keyword.kind = .funcWord ∧ t = ⟨.ident, name⟩ ∧ (o.kind = .lparen ∨ o.kind = .lbracket) := by
  obtain ⟨c, d', ts, hread, hahead, hpart, -⟩ := hat.read
  rw [hkind] at hread
  obtain ⟨hk, hfunction⟩ := keyword_of_declKind hread
  obtain ⟨keyword, us, hus, hkeyword⟩ := Cursor.kind?_eq_some hk
  have hadvance : c.advance.ahead = us := by rw [Cursor.advance, hus]
  obtain ⟨t, o, rest, hrest, ht, hname, ho, hsize⟩ := Cursor.function_head hfunction
  rw [hadvance] at hrest
  -- these three tokens stand in front of what is left
  obtain ⟨us, rfl⟩ : ∃ us, ts = keyword :: t :: o :: us := by
    rw [hus, hrest] at hahead
    have hlength := congrArg List.length hahead
    simp only [List.length_cons, List.length_append, Cursor.size] at hlength hsize
    have hfront : [keyword, t, o] <+: keyword :: t :: o :: rest := ⟨rest, rfl⟩
    obtain ⟨us, h⟩ := List.prefix_of_prefix_length_le hfront ⟨_, hahead.symm⟩ (by simp only [List.length_cons, List.length_nil]; omega)
    exact ⟨us, h.symm⟩
  have hlexeme : t.lexeme = ⟨.ident, name⟩ := by rw [Token.lexeme, ht, hname]
  have hokind : o.lexeme.kind = .lparen ∨ o.lexeme.kind = .lbracket := ho
  obtain ⟨xs, hxs, hpart⟩ := hat.begins (by rw [hkeyword]; decide) hpart
  simp only [List.map_cons] at hpart
  obtain ⟨g, ys, rfl, hg, hpart⟩ := statementPart_eq_cons hpart.symm (by rw [Token.lexeme_kind, ht]; decide)
  obtain ⟨g', zs, rfl, hg', -⟩ := statementPart_eq_cons hpart.symm (by rcases hokind with h | h <;> rw [h] <;> decide)
  exact ⟨keyword.lexeme, t.lexeme, o.lexeme, g, g', zs, hxs, hg, hg', hkeyword, hlexeme, hokind⟩

/-! ### Lines -/

/-- Whether a declaration begins a line. -/
def Decl.BeginsLine (d : Decl) (s : Text) : Prop := Detection.freshBehind true (Text.slice s 0 d.span.start)

instance {d : Decl} : Decidable (d.BeginsLine s) := inferInstanceAs (Decidable (_ = true))

lemma freshBehind_blanked {fresh : Bool} : Detection.freshBehind fresh (blanked s) = Detection.freshBehind fresh s := by
  induction s generalizing fresh with
  | nil => rfl
  | cons x s ih =>
    rw [blanked, List.flatMap_cons, Detection.freshBehind_append, ← blanked, ih, Detection.freshBehind_cons]
    split
    · next h => rw [h]; rfl
    · next h =>
      obtain ⟨n, hn⟩ : ∃ n, x.utf8Size = n + 1 := ⟨_, (Nat.succ_pred_eq_of_pos x.utf8Size_pos).symm⟩
      rw [hn, List.replicate_succ', Detection.freshBehind_append]
      simp [h]

/-- Blanking comments keeps the beginnings of lines. -/
lemma freshBehind_codeOf {fresh : Bool} : Detection.freshBehind fresh (codeOf ls) = Detection.freshBehind fresh (joined ls) := by
  induction ls generalizing fresh with
  | nil => rfl
  | cons l ls ih =>
    have hl : Detection.freshBehind fresh l.code = Detection.freshBehind fresh l.text := by
      unfold Lexeme.code
      split
      · exact freshBehind_blanked
      · rfl
    rw [codeOf_cons, joined_cons, Detection.freshBehind_append, Detection.freshBehind_append, ih, hl]

end RuleWeaver.Source

namespace RuleWeaver

open Source

variable {s name : Text} {tree : Tree} {d : Decl} {span : Option Span}

/-- A declaration in the code of its file. -/
lemma Source.Decl.StandsAt.exists_code {front body behind : List Token} {last : Token}
    (hat : d.StandsAt s front body last behind) :
    lex s = front.map Token.lexeme ++ ((body ++ [last]).map Token.lexeme ++ behind.map Token.lexeme) ∧
      (codeOf (front.map Token.lexeme)).width = d.span.start ∧
      (Detection.freshBehind true (codeOf (front.map Token.lexeme)) ↔ d.BeginsLine s) := by
  have hlex : lex s = front.map Token.lexeme ++ ((body ++ [last]).map Token.lexeme ++ behind.map Token.lexeme) := by
    have hmap := congrArg (List.map Token.lexeme) hat.tokens
    rw [map_lexeme_tokens] at hmap
    rw [hmap]
    simp
  have hslice : Text.slice s 0 d.span.start = joined (front.map Token.lexeme) := by
    have hs : s = joined (front.map Token.lexeme) ++ joined ((body ++ [last]).map Token.lexeme ++ behind.map Token.lexeme) := by
      rw [← joined_append, ← hlex, joined_lex]
    have hcut := Text.slice_width_append (a := []) (b := joined (front.map Token.lexeme))
      (c := joined ((body ++ [last]).map Token.lexeme ++ behind.map Token.lexeme))
    rw [List.nil_append, ← hs, Text.width_nil, Nat.zero_add] at hcut
    rw [hat.span]
    exact hcut
  refine ⟨hlex, ?_, ?_⟩
  · rw [width_codeOf, hat.span]
  · rw [freshBehind_codeOf, ← hslice, Decl.BeginsLine]

/-- The head of a function without receiver in the code of its file: white space alone is between its parts. -/
lemma exists_code_of_function (htree : parse s = .ok tree) (hd : d ∈ tree.decls) (hkind : d.kind = .function ⟨name, none, span⟩) :
    ∃ (u g g' : Text) (b : Char) (rest : Text), commentsBlanked s = u ++ ("func".toList ++ (g ++ (name ++ (g' ++ b :: rest)))) ∧
      u.width = d.span.start ∧ (Detection.freshBehind true u ↔ d.BeginsLine s) ∧ g ≠ [] ∧ g.all Unicode.isSpace ∧
      g'.all Unicode.isSpace ∧ (b = '(' ∨ b = '[') ∧ name.all isNameChar := by
  obtain ⟨front, body, last, behind, hat⟩ := exists_standsAt htree hd
  obtain ⟨hlex, hwidth, hfresh⟩ := hat.exists_code
  obtain ⟨keyword, t, o, g, g', tail, hlexemes, hg, hg', hkeyword, rfl, ho⟩ := hat.opensFunction hkind
  obtain ⟨rest, hrest⟩ : ∃ rest, rest = tail ++ behind.map Token.lexeme := ⟨_, rfl⟩
  have hlex : lex s = front.map Token.lexeme ++ keyword :: (g ++ ⟨.ident, name⟩ :: (g' ++ o :: rest)) := by
    rw [hlex, hlexemes, hrest]
    simp
  have hmem : ∀ l ∈ keyword :: (g ++ ⟨.ident, name⟩ :: (g' ++ o :: rest)), l ∈ lex s := by
    intro l hl
    rw [hlex]
    exact List.mem_append_right _ hl
  obtain ⟨hfunc, hbehind⟩ := funcWord_of_lex (lex_joined_right hlex) hkeyword
  have hident : lex s = (front.map Token.lexeme ++ keyword :: g) ++ ⟨.ident, name⟩ :: (g' ++ o :: rest) := by
    rw [hlex]
    simp
  obtain ⟨-, hname, -⟩ := word_of_lex (lex_joined_right hident) rfl
  -- white space or a comment keeps the name from the keyword
  have hne : g ≠ [] := by
    rintro rfl
    have htext : name ≠ [] := text_ne_nil (hmem ⟨.ident, name⟩ (by simp))
    obtain ⟨c, u, rfl⟩ := List.exists_cons_of_ne_nil htext
    have hc : isNameChar c := List.all_eq_true.1 hname c List.mem_cons_self
    simp [hc] at hbehind
  obtain ⟨b, hb, hotext⟩ : ∃ b, (b = '(' ∨ b = '[') ∧ o.text = [b] := by
    have ho' : o ∈ lex s := hmem o (by simp)
    rcases ho with h | h
    · exact ⟨'(', .inl rfl, text_of_bracket ho' (by rw [h]; rfl)⟩
    · exact ⟨'[', .inr rfl, text_of_bracket ho' (by rw [h]; rfl)⟩
  have hcode : ∀ l : Lexeme, l.kind.isComment = false → l.code = l.text := fun l hl => by simp [Lexeme.code, hl]
  have hgap : ∀ g, IsGapCode g → (∀ l ∈ g, l ∈ lex s) → (codeOf g).all Unicode.isSpace := fun g hg hl =>
    all_isSpace_codeOf_gap hl hg
  refine ⟨codeOf (front.map Token.lexeme), codeOf g, codeOf g', b, codeOf rest, ?_, hwidth, hfresh,
    codeOf_ne_nil (fun l hl => hmem l (by simp [hl])) hne, hgap g hg fun l hl => hmem l (by simp [hl]),
    hgap g' hg' fun l hl => hmem l (by simp [hl]), hb, hname⟩
  rw [commentsBlanked_eq, hlex, codeOf_append, codeOf_cons, hcode keyword (by rw [hkeyword]; rfl), hfunc, codeOf_append, codeOf_cons,
    hcode ⟨.ident, name⟩ rfl, codeOf_append, codeOf_cons, hcode o (by rcases ho with h | h <;> rw [h] <;> rfl), hotext]
  rfl

/-- **A function that begins a line is found.** -/
theorem hasFunctionHead_of_mem_decls (htree : parse s = .ok tree) (hd : d ∈ tree.decls) (hkind : d.kind = .function ⟨name, none, span⟩)
    (hname : Detection.IsFoundName name) (hline : d.BeginsLine s) : Detection.HasFunctionHead name s := by
  obtain ⟨u, g, g', b, rest, hcode, -, hfresh, hne, hg, hg', hb, -⟩ := exists_code_of_function htree hd hkind
  exact ⟨u, _, rest, hcode, hfresh.2 hline, g, g', b, hne, hg, hname, hg', hb, rfl⟩

end RuleWeaver
