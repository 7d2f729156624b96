import RuleWeaver.Proofs.AddedMethods.Code
import RuleWeaver.Proofs.Document.GrowingHeads

/-!
# Methods that are added

A types file that gains methods, and the validator that they use, is read as what it was with these declarations in front and
behind (`MethodsAdded`).  A method that is put behind a declaration that is open at the end of the file is taken for a part of
that declaration, so this holds of files that end where a statement ends (`addMethods_adds_iff`).
-/

namespace RuleWeaver

open Source Text

variable {s t app : Text} {tree : Tree} {types : List Text} {elsewhere : Bool} {name : Option Text} {H K L : List Lexeme}
  {ks : List DeclKind} {edits : List Edit} {new : List NewImport}

/-! ### The text with what is added -/

/-- A text with the validator declared behind its head. -/
def GrownHead.declaring (g : GrownHead H edits new) (name : Option Text) (behind : Text) : Text :=
  g.text ++ (("\n\n" ++ validatorText name) ++ behind)

lemma GrownHead.inserted_declaring (g : GrownHead H edits new) (name : Option Text) (behind : Text) :
    Inserted [(pieces edits).flatten, "\n\n" ++ validatorText name] (joined H ++ behind) (g.declaring name behind) := by
  have hcut : joined H ++ behind = joined g.front ++ (joined g.behind ++ behind) := by
    conv_lhs => rw [g.head_eq, joined_append, List.append_assoc]
  rw [hcut, declaring, text, List.append_assoc, List.append_assoc]
  exact .piece _ _ (.piece _ _ (.same behind))

lemma inserted_behind (s app : Text) : Inserted [app] s (s ++ app) := by
  have h : Inserted [app] (s ++ []) (s ++ (app ++ [])) := .single
  rwa [List.append_nil, List.append_nil] at h

lemma toSet_eq_nil : toSet types = [] ↔ types = [] := by
  simp only [List.eq_nil_iff_forall_not_mem, mem_toSet]

/-- What is made of a file for which the validator is declared. -/
lemma addMethods_of_declared (s : Text) (types : List Text) (h : (elsewhere || tree.hasVar "validate") = true) :
    ∃ app, Appendix ((toSet types).map Snippet.validateMethod) app ∧
      addMethods s tree types elsewhere = if types = [] then none else some (s ++ app) := by
  obtain ⟨ends, hends, hat, happ⟩ := foldl_append_eq (.ofText s) ((toSet types).map Snippet.validateMethod)
  rw [List.foldl_map] at hends
  refine ⟨_, happ, ?_⟩
  have hnil : ends = [] ↔ types = [] := by
    rw [← toSet_eq_nil]
    constructor
    · rintro rfl
      rcases happ.exists_newline with ⟨hfs, -⟩ | ⟨-, u, hu⟩
      · exact List.map_eq_nil_iff.1 hfs
      · cases hu
    · intro htypes
      rw [htypes] at hends
      simpa [Document.ofText] using hends
  unfold addMethods
  dsimp only
  rw [if_pos h, hends]
  by_cases htypes : types = []
  · rw [if_pos htypes, hnil.2 htypes]
    rfl
  · have hedits : Document.hasEdits ⟨s, ends⟩ := by simp [Document.hasEdits, hnil, htypes]
    have hrender : Document.render ⟨s, ends⟩ = s ++ (pieces ends).flatten := by
      have := @Document.render_at s [] s [] ends rfl (List.forall_mem_nil _) hat
      simpa using this
    rw [if_neg htypes, ← hrender]
    exact if_pos hedits

/-- How the validator is declared: behind the head, which may gain an import. -/
lemma declareValidator_eq (s : Text) (tree : Tree) : ∃ edits name, declareValidator (.ofText s) tree =
      ⟨s, edits ++ [⟨⟨tree.headEnd, tree.headEnd⟩, .text ("\n\n" ++ validatorText name)⟩]⟩ ∧
    (edits = [] ∧ validatorName? tree = some name ∨ edits = [importEdit s tree ⟨none, Snippet.validatorPath⟩] ∧ name = none) := by
  have hnone : Snippet.validatorDeclaration = validatorText none := by
    unfold Snippet.validatorDeclaration validatorText validatorCall
    repeat rw [String.toList_ofList]
    rfl
  unfold declareValidator
  cases hname : validatorName? tree with
  | none => exact ⟨_, none, by rw [withImport_eq, hnone]; rfl, .inr ⟨rfl, rfl⟩⟩
  | some name =>
    rcases name with _ | n
    · exact ⟨[], none, by rw [hnone]; rfl, .inl ⟨rfl, rfl⟩⟩
    · refine ⟨[], some n, ?_, .inl ⟨rfl, rfl⟩⟩
      dsimp only
      by_cases hdot : n = "."
      · rw [if_pos hdot, ← validatorText_dot hdot]
        rfl
      · rw [if_neg hdot, ← validatorText_name hdot]
        rfl

lemma exists_spec_of_validatorName? (h : validatorName? tree = some name) :
    ⟨name, Snippet.validatorPath⟩ ∈ tree.importLines ∧ name ≠ some "_".toList := by
  rw [validatorName?] at h
  have hne := List.find?_some h
  have hmem := List.mem_of_find?_eq_some h
  obtain ⟨spec, hspec, rfl⟩ := List.mem_map.1 hmem
  obtain ⟨hspec, hpath⟩ := List.mem_filter.1 hspec
  have hpath : spec.path = Snippet.validatorPath := of_decide_eq_true hpath
  exact ⟨List.mem_map.2 ⟨spec, hspec, by rw [ImportSpec.line, hpath]⟩, of_decide_eq_true hne⟩

lemma isImportName_of_mem_importLines (h : parse s = .ok tree) {line : NewImport} (hline : line ∈ tree.importLines) :
    ∀ n ∈ line.name, IsImportName n := by
  obtain ⟨spec, hspec, rfl⟩ := List.mem_map.1 hline
  exact (parse_names h).2 spec hspec

/-- **What is made of a file for which no validator is declared.**  The validator is declared behind a head that has an import
under the name that the declaration uses, and methods go to the end. -/
theorem addMethods_of_undeclared (types : List Text) (hs : parse s = .ok tree) (hgroups : ∀ i ∈ tree.imports, i.grouped → i.specs ≠ [])
    (h : (elsewhere || tree.hasVar "validate") = false) {hd : Head s tree} (k : hd.Cut) :
    ∃ (edits : List Edit) (new : List NewImport) (g : GrownHead k.lexemes edits new) (name : Option Text) (app : Text),
      (∀ n ∈ name, IsImportName n) ∧ name ≠ some "_".toList ∧
      (⟨name, Snippet.validatorPath⟩ ∈ new ∨ ⟨name, Snippet.validatorPath⟩ ∈ tree.importLines) ∧
      Appendix ((toSet types).map Snippet.validateMethod) app ∧
      addMethods s tree types elsewhere =
        some (g.declaring name (joined (k.behind.map Token.lexeme)) ++ app) := by
  obtain ⟨edits, name, hdeclare, hcases⟩ := declareValidator_eq s tree
  obtain ⟨new, g, hnames, hblank, hline⟩ : ∃ (new : List NewImport) (_ : GrownHead k.lexemes edits new),
      (∀ n ∈ name, IsImportName n) ∧ name ≠ some "_".toList ∧
      (⟨name, Snippet.validatorPath⟩ ∈ new ∨ ⟨name, Snippet.validatorPath⟩ ∈ tree.importLines) := by
    rcases hcases with ⟨rfl, hname⟩ | ⟨rfl, rfl⟩
    · obtain ⟨hmem, hne⟩ := exists_spec_of_validatorName? hname
      exact ⟨[], .self k.isHead, isImportName_of_mem_importLines hs hmem, hne, .inr hmem⟩
    · obtain ⟨g⟩ := exists_grownHead k hgroups Snippet.validatorPath
      exact ⟨_, g, by simp, by simp, .inl List.mem_cons_self⟩
  obtain ⟨ends, hends, hat, happ⟩ := foldl_append_eq (declareValidator (.ofText s) tree) ((toSet types).map Snippet.validateMethod)
  rw [List.foldl_map, hdeclare] at hends
  rw [hdeclare] at hat
  refine ⟨edits, new, g, name, _, hnames, hblank, hline, happ, ?_⟩
  unfold GrownHead.declaring GrownHead.text
  generalize ("\n\n".toList ++ validatorText name) = declaration at hdeclare hends ⊢
  have hwidth : tree.headEnd = (joined g.front ++ joined g.behind).width := by
    rw [← joined_append, ← g.head_eq, ← k.stop, Head.Cut.lexemes]
    exact stop_of_tokens_eq k.tokens_eq
  have hcut : s = joined g.front ++ (joined g.behind ++ joined (k.behind.map Token.lexeme)) := by
    conv_lhs => rw [← joined_lex (s := s), k.lex_eq, g.head_eq]
    simp
  rw [hwidth] at hends
  have hrender := Document.render_at_both hcut g.areAt
    (show Document.AreAt (joined g.front ++ joined g.behind).width [⟨⟨(joined g.front ++ joined g.behind).width,
      (joined g.front ++ joined g.behind).width⟩, .text declaration⟩] from fun e he => by rw [List.mem_singleton.1 he])
    (List.cons_ne_nil _ _) hat
  have hedits : Document.hasEdits ⟨s, edits ++ ([⟨⟨(joined g.front ++ joined g.behind).width,
      (joined g.front ++ joined g.behind).width⟩, .text declaration⟩] ++ ends)⟩ := by
    simp [Document.hasEdits]
  unfold addMethods
  dsimp only
  rw [if_neg (Bool.eq_false_iff.1 h), hdeclare, hwidth, hends]
  dsimp only
  rw [List.append_assoc, if_pos hedits, hrender]
  simp [pieces, Node.render]

/-! ### Reading the text -/

lemma GrownHead.lex_declaring {hd : Head s tree} {k : hd.Cut} (g : GrownHead k.lexemes edits new) (hw : isWhole s)
    (hname : ∀ n ∈ name, IsImportName n) : lex (g.declaring name (joined (k.behind.map Token.lexeme))) =
      (g.lexemes ++ [⟨.newline, ['\n']⟩, ⟨.newline, ['\n']⟩]) ++ (validatorLexemes name ++ k.behind.map Token.lexeme) := by
  have hbreaks : ∀ y : Text, ("\n\n".toList ++ validatorText name) ++ y = '\n' :: '\n' :: (validatorText name ++ y) := fun _ => rfl
  rw [declaring, hbreaks, g.lex_text k.lex_eq hw, lex_newline, lex_newline, lex_validatorText_append hname,
    lex_joined_right k.lex_eq]
  simp

/-- It is a head with the declaration and the code of the file behind it. -/
lemma GrownHead.headed {hd : Head s tree} {k : hd.Cut} (g : GrownHead k.lexemes edits new) (hs : parse s = .ok tree)
    (hname : ∀ n ∈ name, IsImportName n) : Headed (g.declaring name (joined (k.behind.map Token.lexeme)))
      (statementPart false g.lexemes) (validatorCode name ++ k.semi.lexeme :: hd.rest.map Token.lexeme) := by
  have hw : isWhole s := (parse_eq_ok hs).1
  have hlex := g.lex_declaring hw hname
  obtain ⟨hpart, hending⟩ := statementPart_validatorLexemes name
  obtain ⟨hbalanced, hsound⟩ := isBalanced_validatorLexemes name
  have hend : endingBehind false g.lexemes = true := g.isHead.ending
  refine ⟨?_, ?_, ⟨.impliedSemi, rfl, ?_⟩, g.isHead.code⟩
  · have hall := isWhole_iff.1 hw
    rw [k.lex_eq] at hall
    rw [isWhole, hlex, List.all_append, List.all_append, List.all_append, hsound, Bool.true_and, Bool.and_eq_true, Bool.and_eq_true]
    refine ⟨⟨List.all_eq_true.2 (g.isSound fun l hl => hall l (List.mem_append_left _ hl)), rfl⟩, ?_⟩
    exact List.all_eq_true.2 fun l hl => hall l (List.mem_append_right _ hl)
  · have hb : isBalanced [] (lex s) := (parse_eq_ok hs).2.1
    have hmid : ∀ stack, isBalanced stack ([⟨.newline, ['\n']⟩, ⟨.newline, ['\n']⟩] ++ (validatorLexemes name ++ k.behind.map Token.lexeme)) =
        isBalanced stack (k.behind.map Token.lexeme) := by
      intro stack
      rw [isBalanced_append (by rfl), isBalanced_append hbalanced]
    rw [hlex, List.append_assoc, isBalanced_congr hmid, g.isBalanced_eq, ← k.lex_eq]
    exact hb
  · have hbreaks : ∀ M : List Lexeme, statementLexemes true ([⟨.newline, ['\n']⟩, ⟨.newline, ['\n']⟩] ++ M) =
        .impliedSemi :: statementLexemes false M := fun _ => rfl
    rw [hlex, List.append_assoc, statementLexemes_append, hend, hbreaks, statementLexemes_append, hpart, hending, k.map_behind]

/-- Where the declaration of the validator stands first, that is where it is read. -/
lemma exists_parse_declaring {G Q : List Lexeme} {l : Lexeme} (h : Headed t (statementPart false G) (validatorCode name ++ l :: L))
    (hL : ReadsAs (validatorCode name ++ l :: L) ks) (hl : l.kind = .semi) (hname : ∀ n ∈ name, IsImportName n)
    (hlex : lex t = (G ++ [⟨.newline, ['\n']⟩, ⟨.newline, ['\n']⟩]) ++ (validatorLexemes name ++ Q)) (hend : endingBehind false G = true) :
    ∃ tree, parse t = .ok tree ∧ tree.decls.map (·.kind.shape) = ks ∧ tree.importLines = importLines none (statementPart false G) ∧
      ∃ d, tree.decls.head? = some d ∧ slice t d.span.start d.span.stop = validatorText name := by
  obtain ⟨tree, htree, hdecls, hlines, c, ds, hc, ⟨A, hA⟩, hds, hcore⟩ := h.exists_parse hL
  refine ⟨tree, htree, hdecls, hlines, ?_⟩
  obtain ⟨semi, -, hcode⟩ := h.lexemes
  have hpart : statementPart false (G ++ [⟨.newline, ['\n']⟩, ⟨.newline, ['\n']⟩]) = statementPart false G ++ [.impliedSemi] := by
    rw [statementPart_append, hend]
    rfl
  have hending : endingBehind false (G ++ [⟨.newline, ['\n']⟩, ⟨.newline, ['\n']⟩]) = false := by
    rw [endingBehind_append]
    rfl
  have hlength : A.length = (statementPart false (G ++ [⟨.newline, ['\n']⟩, ⟨.newline, ['\n']⟩])).length := by
    have hall := congrArg List.length ((map_lexeme_statementTokens (s := t)).trans hcode)
    have hahead := congrArg List.length hc
    rw [← hA] at hall
    simp only [hpart, List.length_map, List.length_append, List.length_cons, List.length_nil] at hall hahead ⊢
    omega
  obtain ⟨x, hx, hslice⟩ := slice_of_validator hname hlex hending hA.symm hlength hc hl hds
  have hhead : tree.decls.head?.map Decl.core = some x.core := by
    rw [← List.head?_map, hcore, List.head?_map, hx]
    rfl
  obtain ⟨d, hd, hcore⟩ := Option.map_eq_some_iff.1 hhead
  refine ⟨d, hd, ?_⟩
  rw [show d.span = x.span from congrArg Prod.snd hcore]
  exact hslice

/-- Whether the code of a text ends where a statement ends. -/
def EndsInStatement (s : Text) : Prop := ∀ t ∈ (statementTokens s).getLast?, t.kind = .semi

lemma endsInStatement_iff {hd : Head s tree} (k : hd.Cut)
    (hL : L = hd.rest.map Token.lexeme ∨ ∃ K, L = K ++ k.semi.lexeme :: hd.rest.map Token.lexeme) :
    EndsInStatement s ↔ ∀ l ∈ L.getLast?, l.kind = .semi := by
  have hsemi := k.semi_kind
  rw [EndsInStatement, k.statementTokens_eq]
  rcases hL with rfl | ⟨K, rfl⟩ <;> cases hlast : hd.rest.getLast? <;>
    simp [List.getLast?_append, List.getLast?_cons, List.getLast?_map, hlast, hsemi]

/-- Methods may be put at the end of a file. -/
lemma headed_appendix (h : Headed t H L) (happ : Appendix (types.map Snippet.validateMethod) app)
    (htypes : ∀ type ∈ types, IsName type) :
    Headed (t ++ app) H (L ++ types.flatMap fun type => methodCode type ++ [.impliedSemi]) := by
  rw [← statementPart_appendix happ htypes]
  exact h.append (isSection_appendix happ htypes) (happ.exists_newline.imp And.right And.right)

/-- Behind code that ends where a statement ends, they are all read. -/
lemma readsAs_appendix (h : ReadsAs L ks) (hend : types = [] ∨ ∀ l ∈ L.getLast?, l.kind = .semi)
    (happ : Appendix (types.map Snippet.validateMethod) app) (htypes : ∀ type ∈ types, IsName type) :
    ReadsAs (L ++ types.flatMap fun type => methodCode type ++ [.impliedSemi]) (ks ++ types.map methodShape) := by
  rcases hend with rfl | hend
  · simpa using h
  · rw [← statementPart_appendix happ htypes]
    exact h.append hend (.of_isSection (isSection_appendix happ htypes))

/-- Behind other code, they are not. -/
lemma endsInStatement_of_parse (hL : ReadsAs L ks) (h : Headed t H (L ++ types.flatMap fun type => methodCode type ++ [.impliedSemi]))
    (hs : parse t = .ok tree) (hdecls : tree.decls.map (·.kind.shape) = ks ++ types.map methodShape) :
    types = [] ∨ ∀ l ∈ L.getLast?, l.kind = .semi := by
  refine or_iff_not_imp_left.2 fun hne => ?_
  by_contra hopen
  push Not at hopen
  obtain ⟨type, types, rfl⟩ := List.exists_cons_of_ne_nil hne
  have hlt := Headed.length_lt hL hopen h ⟨⟨.funcWord, "func"⟩, rfl, rfl⟩ hs
  have hlength := congrArg List.length hdecls
  rw [List.length_map, List.length_append, List.length_map] at hlength
  rw [countP_methodCode, hlength] at hlt
  exact lt_irrefl _ hlt

/-! ### The declarations of the text -/

/-- Whether a file is read as another one that has gained methods, and the declaration of the validator if it is needed. -/
structure MethodsAdded (tree : Tree) (types : List Text) (declared : Bool) (out : Text) (tree' : Tree) : Prop where
  decls : ∃ ms, IsAscending ms ∧ (∀ type, type ∈ ms ↔ type ∈ types) ∧ tree'.decls.map (·.kind.shape) =
    (if declared then [] else [.vars ["validate"]]) ++ (tree.decls.map (·.kind.shape) ++ ms.map methodShape)
  imports : tree.importLines.Sublist tree'.importLines
  /-- The declaration uses the name of an import that is there. -/
  validator : declared = false → ∃ name, ⟨name, Snippet.validatorPath⟩ ∈ tree'.importLines ∧ name ≠ some "_".toList ∧
    ∃ d, tree'.decls.head? = some d ∧ slice out d.span.start d.span.stop = validatorText name

lemma decls_eq_of_added {out : Text} {tree' : Tree} {declared : Bool} (h : MethodsAdded tree types declared out tree') :
    tree'.decls.map (·.kind.shape) = ((if declared then [] else [.vars ["validate"]]) ++ tree.decls.map (·.kind.shape)) ++
      (toSet types).map methodShape := by
  obtain ⟨ms, hms, hmem, hdecls⟩ := h.decls
  rw [hdecls, ← List.append_assoc, show ms = toSet types from hms.ext isAscending_toSet fun type => by rw [hmem, mem_toSet]]

/-- What is read when the validator was declared. -/
lemma methodsAdded_of_declared (hs : parse s = .ok tree) (htypes : ∀ type ∈ types, IsName type)
    (happ : Appendix ((toSet types).map Snippet.validateMethod) app) :
    (∃ tree', parse (s ++ app) = .ok tree' ∧ MethodsAdded tree types true (s ++ app) tree') ↔ types = [] ∨ EndsInStatement s := by
  obtain ⟨hd⟩ := exists_head hs
  obtain ⟨k⟩ := hd.exists_cut
  have hset : ∀ type ∈ toSet types, IsName type := fun type htype => htypes type (mem_toSet.1 htype)
  have hbase := k.headed hs
  have hall := headed_appendix hbase happ hset
  rw [endsInStatement_iff k (.inl rfl), ← toSet_eq_nil]
  constructor
  · rintro ⟨tree', htree', hadded⟩
    exact endsInStatement_of_parse hd.decls hall htree' (by simpa using decls_eq_of_added hadded)
  · intro hend
    obtain ⟨tree', htree', hdecls, hlines, -⟩ := hall.exists_parse (readsAs_appendix hd.decls hend happ hset)
    obtain ⟨u, hu, -, hlines', -⟩ := hbase.exists_parse hd.decls
    obtain rfl : tree = u := by rwa [hs, Except.ok.injEq] at hu
    refine ⟨tree', htree', ⟨toSet types, isAscending_toSet, fun _ => mem_toSet, by simpa using hdecls⟩, ?_, fun h => by cases h⟩
    rw [hlines, hlines']

/-- What is read when the validator was not declared. -/
lemma methodsAdded_of_undeclared {hd : Head s tree} {k : hd.Cut} (g : GrownHead k.lexemes edits new) (hs : parse s = .ok tree)
    (htypes : ∀ type ∈ types, IsName type) (happ : Appendix ((toSet types).map Snippet.validateMethod) app)
    (hname : ∀ n ∈ name, IsImportName n) (hblank : name ≠ some "_".toList)
    (hline : ⟨name, Snippet.validatorPath⟩ ∈ new ∨ ⟨name, Snippet.validatorPath⟩ ∈ tree.importLines) {out : Text}
    (hout : out = g.declaring name (joined (k.behind.map Token.lexeme)) ++ app) :
    (∃ tree', parse out = .ok tree' ∧ MethodsAdded tree types false out tree') ↔ types = [] ∨ EndsInStatement s := by
  have hset : ∀ type ∈ toSet types, IsName type := fun type htype => htypes type (mem_toSet.1 htype)
  have hbase := g.headed hs hname
  have hreads : ReadsAs (validatorCode name ++ k.semi.lexeme :: hd.rest.map Token.lexeme)
      (.vars ["validate"] :: tree.decls.map (·.kind.shape)) := readsAs_validator hd.decls k.semi_kind
  have hall := headed_appendix hbase happ hset
  rw [endsInStatement_iff k (.inr ⟨_, rfl⟩), ← toSet_eq_nil, hout]
  constructor
  · rintro ⟨tree', htree', hadded⟩
    exact endsInStatement_of_parse hreads hall htree' (by simpa using decls_eq_of_added hadded)
  · intro hend
    have hlex := (isSection_appendix happ hset).lex_behind hbase.whole (happ.exists_newline.imp And.right And.right)
    have hreads := readsAs_appendix hreads hend happ hset
    rw [List.append_assoc, List.cons_append] at hall hreads
    obtain ⟨tree', htree', hdecls, hlines, hfirst⟩ := exists_parse_declaring hall hreads k.semi_kind hname
      (by rw [hlex.1, g.lex_declaring (parse_eq_ok hs).1 hname, List.append_assoc, List.append_assoc (validatorLexemes name)])
      g.isHead.ending
    obtain ⟨u, hu, -, hlines', -⟩ := (k.headed hs).exists_parse hd.decls
    obtain rfl : tree = u := by rwa [hs, Except.ok.injEq] at hu
    obtain ⟨a, b, ha, hb⟩ := g.exists_importLines
    rw [← hlines'] at ha
    rw [← hlines] at hb
    refine ⟨tree', htree', ⟨toSet types, isAscending_toSet, fun _ => mem_toSet, by simpa using hdecls⟩, ?_, fun _ => ⟨name, ?_, hblank, hfirst⟩⟩
    · rw [ha, hb]
      exact (List.Sublist.refl a).append (List.sublist_append_right new b)
    · rw [hb]
      rcases hline with h | h
      · simp [h]
      · rw [ha] at h
        simp only [List.mem_append] at h ⊢
        tauto

/-- **Methods are added, and nothing else.**  A file stays as it is when no method is missing and the validator is declared.
Otherwise text is put into it, and what comes out is read as the file with what it lacked, if its code ends where a statement
ends.  The end of a text is taken for the end of a declaration even behind an operator; the methods are then lost in it. -/
theorem addMethods_adds_iff (hs : parse s = .ok tree) (hgroups : ∀ i ∈ tree.imports, i.grouped → i.specs ≠ [])
    (htypes : ∀ type ∈ types, IsName type) :
    (addMethods s tree types elsewhere = none ↔ types = [] ∧ (elsewhere || tree.hasVar "validate") = true) ∧
    ∀ out, addMethods s tree types elsewhere = some out → (∃ ps, Inserted ps s out) ∧
      ((∃ tree', parse out = .ok tree' ∧ MethodsAdded tree types (elsewhere || tree.hasVar "validate") out tree') ↔
        types = [] ∨ EndsInStatement s) := by
  cases hdeclared : elsewhere || tree.hasVar "validate" with
  | true =>
    obtain ⟨app, happ, heq⟩ := addMethods_of_declared s types hdeclared
    rw [heq]
    refine ⟨by by_cases h : types = [] <;> simp [h], fun out hout => ?_⟩
    by_cases hnil : types = []
    · rw [if_pos hnil] at hout
      cases hout
    · rw [if_neg hnil, Option.some.injEq] at hout
      subst hout
      exact ⟨⟨[app], inserted_behind s app⟩, methodsAdded_of_declared hs htypes happ⟩
  | false =>
    obtain ⟨hd⟩ := exists_head hs
    obtain ⟨k⟩ := hd.exists_cut
    obtain ⟨edits, new, g, name, app, hname, hblank, hline, happ, heq⟩ := addMethods_of_undeclared types hs hgroups hdeclared k
    rw [heq]
    refine ⟨by simp, fun out hout => ?_⟩
    rw [Option.some.injEq] at hout
    have hins := (g.inserted_declaring name (joined (k.behind.map Token.lexeme))).append (inserted_behind [] app)
    rw [List.append_nil, List.nil_append, ← joined_append, ← k.lex_eq, joined_lex, hout] at hins
    exact ⟨⟨_, hins⟩, methodsAdded_of_undeclared g hs htypes happ hname hblank hline hout.symm⟩

/-- A file whose last declaration ends behind an operator. -/
def openFile : Text := "package types\n\nvar x = 1 +\n"

def openTree : Tree := ⟨⟨"types", ⟨0, 13⟩⟩, [], [⟨.vars ["x"], ⟨15, 26⟩, 15⟩]⟩

/-- A method that is put behind it is not read. -/
theorem open_declaration_takes_method : parse openFile = .ok openTree ∧ (∀ i ∈ openTree.imports, i.grouped → i.specs ≠ []) ∧
    (∀ type ∈ ["AReq".toList], IsName type) ∧ ∃ out, addMethods openFile openTree ["AReq"] true = some out ∧
      ¬ ∃ tree', parse out = .ok tree' ∧ MethodsAdded openTree ["AReq"] true out tree' := by
  have hparse : parse openFile = .ok openTree := by
    apply ok_of_toOption
    unfold openFile
    repeat rw [String.toList_ofList]
    decide +kernel
  have hname : ∀ type ∈ ["AReq".toList], IsName type := by
    intro type htype
    rw [List.mem_singleton.1 htype, IsName]
    decide +kernel
  have hlast : (statementTokens openFile).getLast?.map (·.kind) = some .operator := by
    unfold openFile
    repeat rw [String.toList_ofList]
    decide +kernel
  obtain ⟨hnone, hsome⟩ := @addMethods_adds_iff openFile openTree ["AReq"] true hparse (List.forall_mem_nil _) hname
  refine ⟨hparse, List.forall_mem_nil _, hname, ?_⟩
  obtain ⟨out, hout⟩ : ∃ out, addMethods openFile openTree ["AReq"] true = some out :=
    Option.ne_none_iff_exists'.1 fun h => List.cons_ne_nil _ _ (hnone.1 h).1
  refine ⟨out, hout, fun hadded => ?_⟩
  obtain ⟨t, ht, hkind⟩ := Option.map_eq_some_iff.1 hlast
  have hsemi := ((hsome out hout).2.1 hadded).resolve_left (List.cons_ne_nil _ _) t ht
  rw [hkind] at hsemi
  cases hsemi

end RuleWeaver
