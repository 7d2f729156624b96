import RuleWeaver.Proofs.Document.EmptyGroups
import RuleWeaver.Proofs.Registry.Merging
import RuleWeaver.Proofs.Source.Headed

/-!
# Imports of an updated registry

The functions that are put at the end of a registry use the package of regular expressions under its own name.  An update keeps
all imports in order and adds that one if none has its path; whether the name is bound then depends on the name that an import
of the path has already (`updated_registry_names_regexp_iff`).
-/

namespace RuleWeaver

open Source Text

variable {s t y : Text} {tree tree' : Tree} {head H M P R R' : List Lexeme} {l : Lexeme} {edits : List Edit} {new : List NewImport}

/-! ### Exchanging the head of a file -/

namespace Source

/-- Two ways to cut lexemes at one offset. -/
lemma append_inj_of_width {A B C D : List Lexeme} (h : lex s = A ++ B) (h' : lex s = C ++ D)
    (hw : (joined A).width = (joined C).width) : A = C ∧ B = D := by
  have empty : ∀ {X Y Z : List Lexeme}, lex s = (X ++ Y) ++ Z → (joined X).width = (joined (X ++ Y)).width → Y = [] := by
    intro X Y Z hs hw
    rcases Y with _ | ⟨y, Y⟩
    · rfl
    · have hpos : y.text.width ≠ 0 := fun h0 =>
        text_ne_nil (s := s) (by rw [hs]; simp) (Text.width_eq_zero_iff.1 h0)
      simp only [joined_append, joined_cons, Text.width_append] at hw
      omega
  rcases List.append_eq_append_iff.1 (h.symm.trans h') with ⟨a, rfl, rfl⟩ | ⟨a, rfl, rfl⟩
  · obtain rfl := empty h' hw
    simp
  · obtain rfl := empty h hw.symm
    simp

/-- What stands first past statement ends. -/
lemma Cursor.pastSemis_kind? (c : Cursor) : c.pastSemis.kind? = ((c.ahead.map (·.kind)).dropWhile (· = .semi)).head? := by
  rw [Cursor.kind?, Cursor.pastSemis, List.dropWhile_map, List.head?_map]
  rfl

lemma head?_dropWhile_append_cons {k : Kind} (hk : k ≠ .semi) (K L L' : List Kind) :
    ((K ++ k :: L).dropWhile (· = .semi)).head? = ((K ++ k :: L').dropWhile (· = .semi)).head? := by
  induction K with
  | nil => simp [hk]
  | cons j K ih =>
    by_cases hj : j = .semi
    · simpa [hj] using ih
    · simp [hj]

/-- The head of a file ends in the preamble. -/
lemma endsInPreamble_headEnd (h : parse s = .ok tree) : EndsInPreamble s tree.headEnd := by
  obtain ⟨hpackage, himports⟩ := parse_endsInPreamble h
  rw [Tree.headEnd]
  cases hend : tree.importsEnd? with
  | none => exact hpackage
  | some stop =>
    obtain ⟨i, hi, rfl⟩ := Option.map_eq_some_iff.1 hend
    exact (himports i (List.mem_of_getLast? hi)).1

/-- The head stands in front of every brace. -/
lemma Head.Cut.exists_behind {hd : Head s tree} (k : hd.Cut) (h : parse s = .ok tree) (hs : lex s = P ++ l :: R) (hl : l.kind = .lbrace) :
    ∃ M, P = k.lexemes ++ M := by
  obtain ⟨L₁, t, L₂, htokens, hstop, -, hall, -⟩ := endsInPreamble_headEnd h
  have hlex : lex s = (L₁ ++ [t]).map Token.lexeme ++ L₂.map Token.lexeme := by
    rw [← map_lexeme_tokens, htokens]
    simp
  have hwidth : (joined k.lexemes).width = (joined ((L₁ ++ [t]).map Token.lexeme)).width := by
    rw [← stop_of_tokens_eq htokens, hstop, ← k.stop, Head.Cut.lexemes]
    exact (stop_of_tokens_eq k.tokens_eq).symm
  obtain ⟨hhead, -⟩ := append_inj_of_width k.lex_eq hlex hwidth
  rcases List.append_eq_append_iff.1 (k.lex_eq.symm.trans hs) with ⟨M, hM, -⟩ | ⟨M, hM, hR⟩
  · exact ⟨M, hM⟩
  · rcases M with _ | ⟨m, M⟩
    · exact ⟨[], by simpa using hM.symm⟩
    · obtain ⟨rfl, -⟩ := List.cons.inj hR
      have hmem : l ∈ (L₁ ++ [t]).map Token.lexeme := by
        rw [← hhead, hM]
        simp
      obtain ⟨u, hu, rfl⟩ := List.mem_map.1 hmem
      have hpreamble := hall u hu (by rw [show u.kind = .lbrace from hl]; rfl)
      rw [show u.kind = .lbrace from hl] at hpreamble
      cases hpreamble

/-- **What stands behind a head has no influence on the imports**, as far as it is that of a file up to a brace. -/
theorem importLines_of_head {hd : Head s tree} (k : hd.Cut) (ht : parse t = .ok tree') (hH : IsHead H)
    (hs : lex s = k.lexemes ++ (M ++ l :: R)) (ht' : lex t = H ++ (M ++ l :: R')) (hl : l.kind = .lbrace) :
    tree'.importLines = importLines none (statementPart false H) := by
  have hsig : l.kind.isSignificant := by rw [hl]; rfl
  have hsemi : l.kind ≠ .semi := by rw [hl]; decide
  have hcode : ∀ X : List Lexeme, ∃ Y, statementLexemes true (M ++ l :: X) = statementPart true M ++ l :: Y := by
    intro X
    rw [statementLexemes_append, statementLexemes, statementPart_cons_of_isSignificant hsig]
    exact ⟨_, by rw [List.cons_append]⟩
  obtain ⟨Y, hY⟩ := hcode R
  obtain ⟨Y', hY'⟩ := hcode R'
  -- a statement end stands behind the head
  have hbehind := k.map_behind
  rw [List.append_cancel_left (k.lex_eq.symm.trans hs), hY] at hbehind
  obtain ⟨m, K, hK⟩ : ∃ m K, statementPart true M = m :: K := by
    refine List.exists_cons_of_ne_nil fun hnil => ?_
    rw [hnil, List.nil_append] at hbehind
    obtain ⟨rfl, -⟩ := List.cons.inj hbehind
    exact hsemi k.semi_kind
  rw [hK, List.cons_append] at hbehind hY'
  obtain ⟨hm, hrest⟩ := List.cons.inj hbehind
  obtain ⟨hw, hb, -⟩ := parse_eq_ok ht
  have hstatements : statementLexemes false (lex t) = statementPart false H ++ m :: (K ++ l :: Y') := by
    rw [ht', statementLexemes_append, hH.ending, hY']
  obtain ⟨c, hc, -, hread⟩ := parse_of_head hw hb hstatements hH.code (by rw [hm]; exact k.semi_kind)
  refine (hread ?_ |>.2 tree' ht).2
  -- no import begins the declarations of the file, and what begins them is the same
  obtain ⟨ds, hds, -⟩ := hd.decls ⟨0, hd.rest⟩ rfl
  have hkind := kind?_of_decls hds
  have hkinds : ∀ {d : Cursor} {X : List Lexeme}, d.ahead.map Token.lexeme = K ++ l :: X →
      d.ahead.map (·.kind) = K.map Lexeme.kind ++ l.kind :: X.map Lexeme.kind := by
    intro d X hd
    have := congrArg (List.map Lexeme.kind) hd
    simpa [Function.comp_def] using this
  rw [Cursor.pastSemis_kind?, hkinds (d := ⟨0, hd.rest⟩) hrest.symm] at hkind
  rw [Cursor.pastSemis_kind?, hkinds hc, head?_dropWhile_append_cons hsemi _ _ (Y.map Lexeme.kind)]
  exact hkind

end Source

/-! ### The text of an update -/

/-- In front of a brace, a head with what it gains has its lexemes. -/
lemma GrownHead.lex_append_lbrace (g : GrownHead head edits new) (hs : lex s = head ++ (M ++ ⟨.lbrace, ['{']⟩ :: R)) (hw : isWhole s) :
    lex (joined g.front ++ ((pieces edits).flatten ++ (joined (g.behind ++ M) ++ '{' :: y))) =
      g.lexemes ++ (M ++ ⟨.lbrace, ['{']⟩ :: lex y) := by
  rw [g.head_eq, List.append_assoc, ← List.append_assoc g.behind] at hs
  have hfront := (isLexed_of_lex hs hw).left
  have hbehind := (isLexed_of_lex hs hw).right
  rcases g.isAdded.exists_newline with ⟨ht, hN⟩ | ⟨u, N, ht, -⟩
  · rw [← List.append_assoc] at hs
    have h := lex_joined_append (d := '{') (z := y) (by decide) hs rfl
      fun l hl => (List.mem_append.1 hl).elim (hfront.2 l) (hbehind.left.2 l)
    rw [lex_lbrace] at h
    rw [ht, GrownHead.lexemes, hN]
    simpa using h
  · have h := lex_joined_append (d := '{') (z := y) (by decide) hbehind.1 rfl hbehind.left.2
    rw [lex_lbrace] at h
    rw [ht, List.cons_append, hfront.lex_append_newline, ← lex_newline, ← List.cons_append, ← ht, g.isAdded.lex_append, h,
      GrownHead.lexemes]
    simp

section Merging

variable {existing updated file package : Text} {m : MapBraces} {additions : Additions} {required : Requirements} {names : List Text}

/-- Up to the brace of its rule map, an updated registry is the old one with the import that it gains. -/
lemma RuleMapCode.exists_mergeRegistry_eq (k : RuleMapCode existing tree m) (htree : parse existing = .ok tree) (additions : Additions) :
    ∃ y, mergeRegistry existing tree m additions =
      joined k.front ++ ((pieces (importEdits existing tree additions)).flatten ++ (joined k.between ++ '{' :: y)) := by
  obtain ⟨ends, hrender, hends, -⟩ := mergeRegistry_edits existing tree m additions
  have hat := k.areAt_imports htree (importEdits_cases existing tree additions)
  rw [hrender]
  by_cases hb : additions.bindings = []
  · refine ⟨joined k.body ++ '}' :: (joined k.behind ++ (pieces ends).flatten), ?_⟩
    rw [hb]
    refine (Document.render_at k.existing_eq hat hends).trans ?_
    simp
  · rw [if_neg (by simpa using hb), List.singleton_append, k.render_growing hat hends]
    exact ⟨_, rfl⟩

/-- The imports that a registry gains. -/
def gainedImports (tree : Tree) (additions : Additions) : List NewImport :=
  if needsRegexp additions.functions ∧ (tree.importOf? "regexp").isNone then [⟨none, "regexp"⟩] else []

/-- The head of a registry gains the imports of an update. -/
lemma exists_grownHead_of_importEdits (additions : Additions) {hd : Head existing tree} (c : hd.Cut) (htree : parse existing = .ok tree)
    (hp : IsPlaced existing tree m) :
    Nonempty (GrownHead c.lexemes (importEdits existing tree additions) (gainedImports tree additions)) := by
  unfold importEdits gainedImports
  split
  · exact exists_grownHead_at_token c htree "regexp" hp.imports
  · exact ⟨.self c.isHead⟩

/-- The import goes in where the head that gains it is cut. -/
lemma RuleMapCode.exists_mergeRegistry_eq_grown (k : RuleMapCode existing tree m) (htree : parse existing = .ok tree)
    (g : GrownHead head (importEdits existing tree additions) new) (hfront : k.front ++ k.between = head ++ M) :
    ∃ y, mergeRegistry existing tree m additions =
      joined g.front ++ ((pieces (importEdits existing tree additions)).flatten ++ (joined (g.behind ++ M) ++ '{' :: y)) := by
  obtain ⟨y, hmerged⟩ := k.exists_mergeRegistry_eq htree additions
  refine ⟨y, hmerged.trans ?_⟩
  have hcut : k.front ++ k.between = g.front ++ (g.behind ++ M) := by rw [hfront, ← List.append_assoc, ← g.head_eq]
  rcases importEdits_cases existing tree additions with hnone | hsome
  · have hpieces : (pieces (importEdits existing tree additions)).flatten = [] := by rw [hnone]; rfl
    have h := congrArg joined hcut
    simp only [joined_append] at h
    rw [hpieces, List.nil_append, List.nil_append, ← List.append_assoc, h]
    simp
  · have hat := k.areAt_imports htree (.inr hsome) _ (by rw [hsome]; exact List.mem_singleton_self _)
    have hat' := g.areAt _ (by rw [hsome]; exact List.mem_singleton_self _)
    have hwidth : (joined k.front).width = (joined g.front).width := congrArg Span.start (hat.symm.trans hat')
    have hlex : lex existing = g.front ++ ((g.behind ++ M) ++ ⟨.lbrace, ['{']⟩ :: (k.body ++ ⟨.rbrace, ['}']⟩ :: k.behind)) := by
      rw [← List.append_assoc, ← hcut, k.lexemes, List.append_assoc]
    obtain ⟨hcommon, -⟩ := append_inj_of_width k.lexemes hlex hwidth
    rw [hcommon] at hcut
    rw [hcommon, List.append_cancel_left hcut]

/-- **An update keeps the imports in order** and adds the one that it lacks. -/
theorem importLines_of_merge (htree : parse existing = .ok tree) (hm : Detection.findMap? Detection.ruleMapHead existing = some m)
    (hp : IsPlaced existing tree m) (htree' : parse (mergeRegistry existing tree m additions) = .ok tree') :
    ∃ a b, tree.importLines = a ++ b ∧ tree'.importLines = a ++ (gainedImports tree additions ++ b) := by
  obtain ⟨hd⟩ := exists_head htree
  obtain ⟨c⟩ := hd.exists_cut
  obtain ⟨k⟩ := exists_ruleMapCode htree hm hp
  obtain ⟨g⟩ := exists_grownHead_of_importEdits additions c htree hp
  have hlexemes : lex existing = (k.front ++ k.between) ++ ⟨.lbrace, ['{']⟩ :: (k.body ++ ⟨.rbrace, ['}']⟩ :: k.behind) := by
    rw [k.lexemes, List.append_assoc]
  obtain ⟨M, hM⟩ := c.exists_behind htree hlexemes rfl
  have hs : lex existing = c.lexemes ++ (M ++ ⟨.lbrace, ['{']⟩ :: (k.body ++ ⟨.rbrace, ['}']⟩ :: k.behind)) := by
    rw [hlexemes, hM, List.append_assoc]
  obtain ⟨y, htext⟩ := k.exists_mergeRegistry_eq_grown htree g hM
  have hlex : lex (mergeRegistry existing tree m additions) = g.lexemes ++ (M ++ ⟨.lbrace, ['{']⟩ :: lex y) := by
    rw [htext]
    exact g.lex_append_lbrace hs (parse_eq_ok htree).1
  obtain ⟨u, hu, -, hlines, -⟩ := (c.headed htree).exists_parse hd.decls
  obtain rfl : tree = u := by rwa [htree, Except.ok.injEq] at hu
  rw [hlines, importLines_of_head c htree' g.isHead hs hlex rfl]
  exact g.exists_importLines

/-- Whether a file has the package of regular expressions under its own name. -/
def Source.Tree.NamesRegexp (tree : Tree) : Prop :=
  ∃ line ∈ tree.importLines, line.path = "regexp" ∧ (line.name = none ∨ line.name = some "regexp".toList)

/-- **When an update brings along the import that its functions use.**  The imports of a registry stay in order.  The functions
of seeded rules refer to the package of regular expressions by its own name; the updated registry has it under that name exactly
if the old one did or had no import of its path at all.  An import of the path under another name keeps the missing one out. -/
theorem updated_registry_names_regexp_iff
    (h : registryRendering file (some existing) package additions ((Registry.ofSource existing).withFunctions names) required =
      .ok (.updated updated)) (hneeds : needsRegexp additions.functions) (htree : parse existing = .ok tree)
    (htree' : parse updated = .ok tree')
    (hplaced : ∀ m, Detection.findMap? Detection.ruleMapHead existing = some m → IsPlaced existing tree m) :
    tree.importLines.Sublist tree'.importLines ∧
      (tree'.NamesRegexp ↔ tree.importOf? "regexp" = none ∨ tree.NamesRegexp) := by
  obtain ⟨u, m, hu, hm, rfl⟩ := updated_eq h
  obtain rfl : tree = u := by rwa [htree, Except.ok.injEq] at hu
  obtain ⟨a, b, hold, hnew⟩ := importLines_of_merge htree hm (hplaced m hm) htree'
  refine ⟨?_, ?_⟩
  · rw [hold, hnew]
    exact (List.Sublist.refl a).append (List.sublist_append_right _ b)
  · have hmem : ∀ line, line ∈ tree'.importLines ↔ line ∈ gainedImports tree additions ∨ line ∈ tree.importLines := by
      intro line
      rw [hold, hnew]
      simp only [List.mem_append]
      tauto
    by_cases hpath : tree.importOf? "regexp" = none
    · have hgains : gainedImports tree additions = [⟨none, "regexp"⟩] := if_pos ⟨hneeds, Option.isNone_iff_eq_none.2 hpath⟩
      refine iff_of_true ⟨⟨none, "regexp"⟩, (hmem _).2 (.inl ?_), rfl, .inl rfl⟩ (.inl hpath)
      rw [hgains]
      exact List.mem_singleton_self _
    · have hgains : gainedImports tree additions = [] := if_neg fun h => hpath (Option.isNone_iff_eq_none.1 h.2)
      simp only [Tree.NamesRegexp, hmem, hgains, List.not_mem_nil, false_or, hpath]

end Merging

/-! ### An import under another name -/

lemma namesRegexp_iff {tree : Tree} : tree.NamesRegexp ↔
    tree.importLines.any fun l => l.path = "regexp".toList && (l.name.isNone || l.name = some "regexp".toList) := by
  simp [Tree.NamesRegexp]

instance {tree : Tree} : Decidable tree.NamesRegexp := decidable_of_iff _ namesRegexp_iff.symm

/-- A registry that has the package of regular expressions under another name. -/
def aliasedRegistry : Text := "package types\n\nimport re \"regexp\"\n\nvar registerValidation = map[string]validator.Func\x7b\n\x7d\n"

def aliasedTree : Tree :=
  ⟨⟨"types", ⟨0, 13⟩⟩, [⟨[⟨some "re", "regexp", ⟨22, 33⟩⟩], ⟨15, 33⟩, 15, false⟩], [⟨.vars ["registerValidation"], ⟨35, 88⟩, 35⟩]⟩

/-- What it lacks. -/
def aliasedAdditions : Additions :=
  ⟨[⟨"idcard", "validateIdCard"⟩, ⟨"mobile", "validateMobile"⟩], [⟨"idcard", "validateIdCard"⟩, ⟨"mobile", "validateMobile"⟩], [], []⟩

lemma parse_aliasedRegistry : parse aliasedRegistry = .ok aliasedTree := by
  apply ok_of_toOption
  unfold aliasedRegistry
  repeat rw [String.toList_ofList]
  decide +kernel

lemma findMap?_aliasedRegistry : Detection.findMap? Detection.ruleMapHead aliasedRegistry = some ⟨85, 87⟩ := by
  unfold aliasedRegistry
  repeat rw [String.toList_ofList]
  decide +kernel

lemma isPlaced_aliasedRegistry : IsPlaced aliasedRegistry aliasedTree ⟨85, 87⟩ := by
  have hopening : (tokens aliasedRegistry).any fun t => t.kind = .lbrace && t.start = 85 := by
    unfold aliasedRegistry
    repeat rw [String.toList_ofList]
    decide +kernel
  have himport : (tokens aliasedRegistry).any fun t => t.kind.isSignificant && t.stop = 33 := by
    unfold aliasedRegistry
    repeat rw [String.toList_ofList]
    decide +kernel
  simp only [List.any_eq_true, Bool.and_eq_true, decide_eq_true_eq] at hopening himport
  exact ⟨hopening, himport⟩

/-- The edits that it is updated by. -/
def aliasedEdits : List Edit :=
  [⟨⟨85, 88⟩, .map ⟨"\n", aliasedAdditions.newEntries⟩⟩, ⟨⟨89, 89⟩, .function Snippet.idCardFunction⟩,
    ⟨⟨89, 89⟩, .function Snippet.mobileFunction⟩]

lemma mergeRegistry_aliasedRegistry :
    mergeRegistry aliasedRegistry aliasedTree ⟨85, 87⟩ aliasedAdditions = Document.renderFrom aliasedRegistry 0 aliasedEdits := by
  have hedits : mergeRegistry aliasedRegistry aliasedTree ⟨85, 87⟩ aliasedAdditions = Document.render ⟨aliasedRegistry, aliasedEdits⟩ := by
    congr 1
  rw [hedits, Document.render, List.mergeSort_of_pairwise (by decide +kernel)]

lemma exists_parse_updatedAlias : ∃ tree', parse (mergeRegistry aliasedRegistry aliasedTree ⟨85, 87⟩ aliasedAdditions) = .ok tree' := by
  have hparses : (parse (Document.renderFrom aliasedRegistry 0 aliasedEdits)).toOption.isSome := by
    unfold aliasedRegistry
    repeat rw [String.toList_ofList]
    decide +kernel
  obtain ⟨tree', htree'⟩ := Option.isSome_iff_exists.1 hparses
  exact ⟨tree', by rw [mergeRegistry_aliasedRegistry]; exact ok_of_toOption htree'⟩

lemma registryRendering_aliasedRegistry :
    registryRendering "r.go" (some aliasedRegistry) "types" aliasedAdditions
      ((Registry.ofSource aliasedRegistry).withFunctions []) Requirements.seeded =
        .ok (.updated (mergeRegistry aliasedRegistry aliasedTree ⟨85, 87⟩ aliasedAdditions)) := by
  have hmap : ((Registry.ofSource aliasedRegistry).withFunctions []).ruleMap = some ⟨85, 87⟩ := findMap?_aliasedRegistry
  simp only [registryRendering, parse_aliasedRegistry, hmap]
  rfl

/-- The functions that are put behind it use a name that no import binds. -/
theorem alias_keeps_import_out :
    Additions.compute [] [] Requirements.seeded ((Registry.ofSource aliasedRegistry).withFunctions []) = aliasedAdditions ∧
    ∃ updated tree', registryRendering "r.go" (some aliasedRegistry) "types" aliasedAdditions
        ((Registry.ofSource aliasedRegistry).withFunctions []) Requirements.seeded = .ok (.updated updated) ∧
      needsRegexp aliasedAdditions.functions ∧ parse aliasedRegistry = .ok aliasedTree ∧ parse updated = .ok tree' ∧
      (∀ m, Detection.findMap? Detection.ruleMapHead aliasedRegistry = some m → IsPlaced aliasedRegistry aliasedTree m) ∧
      ¬ tree'.NamesRegexp := by
  have hadditions : Additions.compute [] [] Requirements.seeded ((Registry.ofSource aliasedRegistry).withFunctions []) =
      aliasedAdditions := by
    unfold aliasedRegistry
    repeat rw [String.toList_ofList]
    decide +kernel
  have hneeds : needsRegexp aliasedAdditions.functions := by decide +kernel
  obtain ⟨tree', htree'⟩ := exists_parse_updatedAlias
  have hplaced : ∀ m, Detection.findMap? Detection.ruleMapHead aliasedRegistry = some m → IsPlaced aliasedRegistry aliasedTree m := by
    intro m hm
    obtain rfl : (⟨85, 87⟩ : MapBraces) = m := Option.some.inj (findMap?_aliasedRegistry.symm.trans hm)
    exact isPlaced_aliasedRegistry
  obtain ⟨-, hnames⟩ := updated_registry_names_regexp_iff registryRendering_aliasedRegistry hneeds parse_aliasedRegistry htree' hplaced
  refine ⟨hadditions, _, tree', registryRendering_aliasedRegistry, hneeds, parse_aliasedRegistry, htree', hplaced, fun h => ?_⟩
  exact absurd (hnames.1 h) (by decide +kernel)

end RuleWeaver
