import RuleWeaver.Proofs.Registry.Declarations
import RuleWeaver.Proofs.Registry.Merging
import RuleWeaver.Proofs.Source.Outlines

/-!
# The entries of a rule map

`DeclaresRuleMap` says that a file declares the rule map, in whatever form a variable can be declared, with a literal of some
entries.  Merging keeps them (`DeclaresRuleMap.merge`).  Rebuilding makes a literal of its own
(`declaresRuleMap_registryText`), so an entry stays exactly if what is gathered from the file has it
(`rendering_keeps_entries_iff`).
-/

namespace RuleWeaver

open Source Text

variable {s existing merged file package v : Text} {es es' : List (Text × Text)} {L L' body grown : List Lexeme} {l : Lexeme}
  {tree : Tree} {m : MapBraces} {additions : Additions} {registry : Registry} {required : Requirements} {stack : List Kind}

/-! ### Entries -/

/-- Whether a text can be the value of an entry: a name, qualified or not. -/
def isEntryName (v : Text) : Bool := !v.isEmpty && v.all Detection.isQualified

/-- Whether code is that of some entries, each a literal and a name, with a comma behind the last one or without. -/
inductive EntryCode : List (Text × Text) → List Lexeme → Prop
  | nil : EntryCode [] []
  | last (key : Lexeme) (value : Text) (hk : key.kind = .string ∨ key.kind = .rawString) (hv : isEntryName value) :
    EntryCode [(unquote key.text, value)] (key :: ⟨.operator, [':']⟩ :: lex value)
  | cons (key : Lexeme) (value : Text) {es : List (Text × Text)} {L : List Lexeme} (hk : key.kind = .string ∨ key.kind = .rawString)
    (hv : isEntryName value) (h : EntryCode es L) :
    EntryCode ((unquote key.text, value) :: es) (key :: ⟨.operator, [':']⟩ :: (lex value ++ ⟨.comma, [',']⟩ :: L))

/-- Classes of the code of entries. -/
def Source.Kind.isEntryPart (k : Kind) : Bool := k.isWordlike || k = .string || k = .rawString || k = .operator || k = .comma

lemma isEntryName_of_isFunctionName (h : isFunctionName v) : isEntryName v := by
  rcases v with _ | ⟨c, v⟩
  · cases h
  · rw [isFunctionName, Bool.and_eq_true] at h
    have hc : Detection.isQualified c := by rw [Detection.isQualified, Detection.isWord_of_start h.1, Bool.true_or]
    simp [isEntryName, hc, h.2]

namespace EntryCode

lemma isPathChar_of_isEntryName (h : isEntryName v) : v.all isPathChar := by
  rw [isEntryName, Bool.and_eq_true] at h
  rw [List.all_eq_true] at h ⊢
  exact fun c hc => isPathChar_of_isQualified (h.2 c hc)

/-- The code of entries has no brackets, and no white space in its names. -/
lemma of_mem (h : EntryCode es L) (hl : l ∈ L) :
    l.kind.isEntryPart ∧ (l.kind.isWordlike → l.text ≠ [] ∧ ∀ c ∈ l.text, Unicode.isSpace c = false) := by
  have hkey : ∀ key : Lexeme, key.kind = .string ∨ key.kind = .rawString →
      key.kind.isEntryPart ∧ (key.kind.isWordlike → key.text ≠ [] ∧ ∀ c ∈ key.text, Unicode.isSpace c = false) := by
    rintro key (hk | hk) <;> rw [hk] <;> exact ⟨rfl, fun h => by cases h⟩
  have hvalue : ∀ v, isEntryName v → ∀ l ∈ lex v,
      l.kind.isEntryPart ∧ (l.kind.isWordlike → l.text ≠ [] ∧ ∀ c ∈ l.text, Unicode.isSpace c = false) := by
    intro v hv l hl
    have hword := isWordlike_of_mem_lex (isPathChar_of_isEntryName hv) hl
    refine ⟨by rw [Kind.isEntryPart, hword]; rfl, fun _ => ⟨text_ne_nil hl, fun c hc => ?_⟩⟩
    have hmem : c ∈ v := by
      rw [← joined_lex (s := v)]
      exact List.mem_flatMap.2 ⟨l, hl, hc⟩
    rw [isEntryName, Bool.and_eq_true] at hv
    have hq := List.all_eq_true.1 hv.2 c hmem
    rw [Detection.isQualified, Bool.or_eq_true, decide_eq_true_eq] at hq
    rcases hq with hq | rfl
    · by_contra hs
      rw [Bool.not_eq_false] at hs
      rw [Detection.not_isWord_of_isSpace hs] at hq
      cases hq
    · decide
  have hpart : ∀ l : Lexeme, l = ⟨.operator, [':']⟩ ∨ l = ⟨.comma, [',']⟩ →
      l.kind.isEntryPart ∧ (l.kind.isWordlike → l.text ≠ [] ∧ ∀ c ∈ l.text, Unicode.isSpace c = false) := by
    rintro l (rfl | rfl) <;> exact ⟨rfl, fun h => by cases h⟩
  induction h with
  | nil => cases hl
  | last key value hk hv =>
    rw [List.mem_cons, List.mem_cons] at hl
    rcases hl with rfl | rfl | hl
    · exact hkey _ hk
    · exact hpart _ (.inl rfl)
    · exact hvalue _ hv _ hl
  | cons key value hk hv h ih =>
    rw [List.mem_cons, List.mem_cons, List.mem_append, List.mem_cons] at hl
    rcases hl with rfl | rfl | hl | rfl | hl
    · exact hkey _ hk
    · exact hpart _ (.inl rfl)
    · exact hvalue _ hv _ hl
    · exact hpart _ (.inr rfl)
    · exact ih hl

lemma getLast?_value (hv : isEntryName v) : ∃ l ∈ (lex v).getLast?, l.kind.isWordlike := by
  have hne : lex v ≠ [] := by
    intro h
    have : v = [] := by rw [← joined_lex (s := v), h, joined_nil]
    rw [this] at hv
    cases hv
  refine ⟨_, List.getLast?_eq_getLast_of_ne_nil hne, ?_⟩
  exact isWordlike_of_mem_lex (isPathChar_of_isEntryName hv) (List.getLast_mem hne)

/-- More entries go behind a comma. -/
lemma append (h : EntryCode es L) (hlast : ∀ l ∈ L.getLast?, l.kind = .comma) (h' : EntryCode es' L') :
    EntryCode (es ++ es') (L ++ L') := by
  induction h with
  | nil => exact h'
  | last key value hk hv =>
    obtain ⟨l, hl, hword⟩ := getLast?_value hv
    rw [Option.mem_def] at hl
    have hlast := hlast l (by simp [List.getLast?_cons, hl])
    rw [hlast] at hword
    cases hword
  | @cons key value es L hk hv h ih =>
    have ih := ih fun l hl => hlast l (by
      rw [Option.mem_def] at hl
      simp [List.getLast?_cons, List.getLast?_append, hl])
    have := EntryCode.cons key value hk hv ih
    simpa using this

/-- A comma goes behind the last entry. -/
lemma comma (h : EntryCode es L) (hlast : ∃ l ∈ L.getLast?, l.kind ≠ .comma) : EntryCode es (L ++ [⟨.comma, [',']⟩]) := by
  induction h with
  | nil => simp at hlast
  | last key value hk hv =>
    have := EntryCode.cons key value hk hv .nil
    simpa using this
  | @cons key value es L hk hv h ih =>
    have hlast : ∃ l ∈ L.getLast?, l.kind ≠ .comma := by
      obtain ⟨l, hl, hne⟩ := hlast
      rcases List.eq_nil_or_concat L with rfl | ⟨K, m, rfl⟩
      · rw [← List.cons_append, ← List.cons_append, List.getLast?_concat, Option.mem_def, Option.some.injEq] at hl
        exact absurd (by rw [← hl]) hne
      · refine ⟨l, ?_, hne⟩
        rw [List.concat_eq_append] at hl ⊢
        simpa [List.getLast?_cons, List.getLast?_append] using hl
    have := EntryCode.cons key value hk hv (ih hlast)
    simpa using this

/-- Entries are read as they are written. -/
lemma written (h : ∀ e ∈ es, isEntryName e.2) :
    EntryCode es (significant ((es.map fun (tag, function) => (tag, EntryValue.name function)).flatMap GrowingMap.entryLexemes)) := by
  induction es with
  | nil => exact .nil
  | cons e es ih =>
    obtain ⟨tag, function⟩ := e
    have hv := h _ List.mem_cons_self
    have hvalue : significant (lex function) = lex function := by
      refine significant_eq_self fun l hl => ?_
      have hword := isWordlike_of_mem_lex (isPathChar_of_isEntryName hv) hl
      revert hword
      cases l.kind <;> simp [Kind.isWordlike, Kind.isSignificant]
    have hcode := EntryCode.cons ⟨.string, quote tag⟩ function (.inl rfl) hv (ih fun e he => h e (List.mem_cons_of_mem _ he))
    rw [unquote_quote] at hcode
    rw [List.map_cons, List.flatMap_cons, significant_append]
    have hentry : significant (GrowingMap.entryLexemes (tag, .name function)) =
        ⟨.string, quote tag⟩ :: ⟨.operator, [':']⟩ :: (lex function ++ [⟨.comma, [',']⟩]) := by
      rw [GrowingMap.entryLexemes, significant_append, significant_append, show GrowingMap.valueLexemes (.name function) = lex function
        from rfl, hvalue]
      rfl
    rw [hentry]
    simpa using hcode

end EntryCode

/-! ### The declaration -/

/-- Names with commas between them. -/
def nameList (names : List Text) : List Lexeme := (names.map fun n => ⟨.ident, n⟩).intersperse ⟨.comma, [',']⟩

/-- Whether code can be one type or value: its brackets match, and nothing that ends one stands outside them. -/
def IsOperand (L : List Lexeme) : Prop :=
  isBalanced [] L ∧ ∀ A l B, L = A ++ l :: B → isBalanced [] A → l.kind ≠ .comma ∧ l.kind ≠ .semi ∧ l.kind ≠ .assign

/-- Whether code is the type of a map literal: a map type or the name of a type. -/
def IsMapType (L : List Lexeme) : Prop :=
  (∃ key value, L = ⟨.ident, "map"⟩ :: ⟨.lbracket, ['[']⟩ :: (key ++ ⟨.rbracket, [']']⟩ :: value) ∧ isBalanced [] key ∧
    IsOperand value) ∨ ∃ name, isEntryName name ∧ L = lex name

/-- Whether code is that of a declaration of variables from behind its first word up to the brace of a map literal that
the rule map is initialised with.  The declaration can be a group with other variables in front, and it can declare other
variables together with the rule map and give types. -/
inductive OpensRuleMap : List Lexeme → Prop
  | mk (specs : List Lexeme) (before after : List Text) (type : List Lexeme) (values : List (List Lexeme)) (mapType : List Lexeme)
    (hspecs : specs = [] ∨ ∃ S, specs = ⟨.lparen, ['(']⟩ :: S ∧ isBalanced [] S ∧ ∀ l ∈ S.getLast?, l.kind = .semi)
    (htype : IsOperand type) (hlength : values.length = before.length) (hvalues : ∀ v ∈ values, IsOperand v)
    (hmap : IsMapType mapType) :
    OpensRuleMap (specs ++ (nameList (before ++ "registerValidation".toList :: after) ++ (type ++ ⟨.assign, ['=']⟩ ::
      (values.flatMap (· ++ [⟨.comma, [',']⟩]) ++ mapType))))

/-- Whether a file declares the rule map, outside all braces, with a literal of some entries. -/
def DeclaresRuleMap (s : Text) (es : List (Text × Text)) : Prop :=
  ∃ front lit behind outer word decl, lex s = front ++ ⟨.lbrace, ['{']⟩ :: (lit ++ ⟨.rbrace, ['}']⟩ :: behind) ∧
    Outlines front (outer ++ word :: decl) ∧ word.kind = .varWord ∧ isBalanced [] outer ∧
    OpensRuleMap (statementPart false decl) ∧ EntryCode es (significant lit)

/-! ### Merging -/

lemma EntryCode.isUnbracketed (h : EntryCode es (significant L)) : ∀ l ∈ L, l.kind.isOpen = false ∧ l.kind.isClose = false := by
  intro l hl
  by_cases hsig : l.kind.isSignificant
  · have := (h.of_mem (List.mem_filter.2 ⟨hl, hsig⟩)).1
    revert this
    cases l.kind <;> simp [Kind.isEntryPart, Kind.isWordlike, Kind.isOpen, Kind.isClose]
  · revert hsig
    cases l.kind <;> simp [Kind.isSignificant, Kind.isOpen, Kind.isClose]

/-- A literal that gains entries has them behind its own. -/
lemma EntryCode.growth (h : EntryCode es (significant body)) (hentries : ∀ b ∈ additions.bindings, isFunctionName b.function)
    (hgrowth : Growth additions.newEntries body grown) : ∃ es', EntryCode (es ++ es') (significant grown) := by
  cases hgrowth with
  | none => exact ⟨[], by simpa using h⟩
  | @some _ K J' htrim hcomma =>
    have hK : significant body = significant K := by
      obtain ⟨w, hw, hspace⟩ := htrim.exists_joined
      refine htrim.significant_eq hw fun l hl hk => ?_
      have hword : l.kind.isWordlike := hk ▸ wordKind_isWordlike _
      have hsig : l.kind.isSignificant := by
        revert hword
        cases l.kind <;> simp [Kind.isWordlike, Kind.isSignificant]
      obtain ⟨hne, hnone⟩ := (h.of_mem (List.mem_filter.2 ⟨hl, hsig⟩)).2 hword
      refine ⟨_, List.getLast_mem_getLast? hne, fun hmem => ?_⟩
      have := List.all_eq_true.1 hspace _ hmem
      rw [hnone _ (List.getLast_mem hne)] at this
      cases this
    rw [hK] at h
    have hwritten : EntryCode (additions.bindings.map fun b => (b.tag, b.function))
        (significant (additions.newEntries.flatMap GrowingMap.entryLexemes)) := by
      have := @EntryCode.written (additions.bindings.map fun b => (b.tag, b.function)) (by
        intro e he
        obtain ⟨b, hb, rfl⟩ := List.mem_map.1 he
        exact isEntryName_of_isFunctionName (hentries b hb))
      rwa [List.map_map] at this
    have hnewline : significant (J' ++ ⟨.newline, ['\n']⟩ :: additions.newEntries.flatMap GrowingMap.entryLexemes) =
        significant J' ++ significant (additions.newEntries.flatMap GrowingMap.entryLexemes) := by
      rw [significant_append, significant_cons_neg (by rfl)]
    refine ⟨additions.bindings.map fun b => (b.tag, b.function), ?_⟩
    rw [hnewline]
    rcases hcomma.significant_eq with ⟨hJ, hlast⟩ | ⟨hJ, hlast⟩
    · rw [hJ]
      refine h.append (fun l hl => ?_) hwritten
      refine (hlast l hl).resolve_right fun hbrace => ?_
      have hpart := (h.of_mem (List.mem_of_getLast? hl)).1
      rw [hbrace] at hpart
      cases hpart
    · rw [hJ]
      refine (h.comma hlast).append (fun l hl => ?_) hwritten
      rw [List.getLast?_concat] at hl
      cases hl
      rfl

/-- Brackets between braces that gain entries still match. -/
lemma Growth.isBalanced (h : Growth additions.newEntries body grown) (hb : isBalanced [] body)
    (hentries : ∀ b ∈ additions.bindings, isFunctionName b.function) : isBalanced [] grown := by
  cases h with
  | none => exact hb
  | @some _ K J' htrim hcomma =>
    have hflat := GrowingMap.isBalanced_of_flat (GrowingMap.isFlat_entries (GrowingMap.arePlain (Additions.isEntry_of_mem hentries)))
    have hJ : Source.isBalanced [] J' := by rwa [hcomma.isBalanced_eq, ← htrim.isBalanced_eq]
    rw [isBalanced_append hJ]
    simpa [Source.isBalanced, Kind.isOpen, Kind.isClose] using hflat

/-- Code with two groups: one in front of the other, one inside the other, or the same one twice. -/
lemma groups_cases {o o₂ : Lexeme} {X X₂ Y Y₂ : List Lexeme} (h : X ++ o :: Y = X₂ ++ o₂ :: Y₂) :
    (∃ Z, X₂ = X ++ o :: Z ∧ Y = Z ++ o₂ :: Y₂) ∨ (X = X₂ ∧ o = o₂ ∧ Y = Y₂) ∨ ∃ Z, X = X₂ ++ o₂ :: Z ∧ Y₂ = Z ++ o :: Y := by
  rcases List.append_eq_append_iff.1 h with ⟨Z, hX, e⟩ | ⟨Z, hX, e⟩
  · rcases Z with _ | ⟨z, Z⟩
    · obtain ⟨rfl, rfl⟩ := List.cons.inj e
      exact .inr (.inl ⟨by simpa using hX.symm, rfl, rfl⟩)
    · obtain ⟨rfl, rfl⟩ := List.cons.inj e
      exact .inl ⟨Z, hX, rfl⟩
  · rcases Z with _ | ⟨z, Z⟩
    · obtain ⟨rfl, rfl⟩ := List.cons.inj e
      exact .inr (.inl ⟨by simpa using hX, rfl, rfl⟩)
    · obtain ⟨rfl, rfl⟩ := List.cons.inj e
      exact .inr (.inr ⟨Z, hX, rfl⟩)

/-- **Merging keeps the entries of a rule map.** -/
theorem DeclaresRuleMap.merge (h : DeclaresRuleMap existing es) (M : Merge existing merged m additions)
    (hentries : ∀ b ∈ additions.bindings, isFunctionName b.function) : ∃ es', DeclaresRuleMap merged (es ++ es') := by
  obtain ⟨front, lit, behind, outer, word, decl, hlex, hout, hword, houter, hopens, hcode⟩ := h
  have hfront : ∀ l ∈ M.front, l.kind ≠ .lbrace ∧ l.kind ≠ .rbrace ∧ l.kind ≠ .varWord := by
    intro l hl
    have := M.preamble l hl
    revert this
    cases l.kind <;> simp [Kind.isSignificant, Kind.isPreamble]
  have himports : ∀ l ∈ M.imports, (l.kind ≠ .lbrace ∧ l.kind ≠ .rbrace) ∧ l.kind.isOpen = false ∧ l.kind.isClose = false := by
    intro l hl
    have := M.pieces l hl
    revert this
    cases l.kind <;> simp [Kind.isImportPiece, Kind.isOpen, Kind.isClose]
  have hgrown := M.growth.isBalanced M.balanced hentries
  -- the place of the import is in front of the declaration
  obtain ⟨F, rfl, hF⟩ : ∃ F, front = M.front ++ F ∧ M.between ++ ⟨.lbrace, ['{']⟩ :: (M.body ++ ⟨.rbrace, ['}']⟩ :: M.behind) =
      F ++ ⟨.lbrace, ['{']⟩ :: (lit ++ ⟨.rbrace, ['}']⟩ :: behind) := by
    rw [M.lex_existing] at hlex
    rcases List.append_eq_append_iff.1 hlex with ⟨w, hw, e⟩ | ⟨w, hw, e⟩
    · exact ⟨w, hw, e⟩
    · rcases w with _ | ⟨l, w⟩
      · exact ⟨[], by simpa using hw.symm, by simpa using e.symm⟩
      · obtain ⟨rfl, -⟩ := List.cons.inj e
        exact absurd rfl (hfront ⟨.lbrace, ['{']⟩ (by rw [hw]; simp)).1
  obtain ⟨out', e, hout'⟩ := (Outlines.append_iff fun l hl => ⟨(hfront l hl).1, (hfront l hl).2.1⟩).1 hout
  obtain ⟨outer', rfl, rfl⟩ : ∃ outer', outer = M.front ++ outer' ∧ out' = outer' ++ word :: decl := by
    rcases List.append_eq_append_iff.1 e with ⟨w, hw, e⟩ | ⟨w, hw, e⟩
    · rcases w with _ | ⟨l, w⟩
      · exact ⟨[], by simpa using hw.symm, by simpa using e.symm⟩
      · obtain ⟨rfl, -⟩ := List.cons.inj e
        exact absurd hword (hfront word (by rw [hw]; simp)).2.2
    · exact ⟨w, hw, e⟩
  -- an import changes nothing
  suffices key : ∀ F' lit' behind' es', M.between ++ ⟨.lbrace, ['{']⟩ :: (M.grown ++ ⟨.rbrace, ['}']⟩ :: (M.behind ++ lex M.appended)) =
      F' ++ ⟨.lbrace, ['{']⟩ :: (lit' ++ ⟨.rbrace, ['}']⟩ :: behind') → Outlines F' (outer' ++ word :: decl) →
      EntryCode (es ++ es') (significant lit') → DeclaresRuleMap merged (es ++ es') by
    rcases groups_cases hF with ⟨Z, rfl, hZ⟩ | ⟨rfl, -, hZ⟩ | ⟨Z, hbetween, hZ⟩
    · -- the literal stands behind the braces that gain entries
      obtain ⟨inner, close, rest, rfl, hclose, hinner, hgroup⟩ := hout'.exists_group rfl
      rw [List.append_assoc, List.cons_append] at hZ
      obtain ⟨-, rfl, hbehind⟩ := eq_of_closed hZ M.balanced hinner rfl (by rw [hclose]; rfl)
      exact ⟨[], key (M.between ++ ⟨.lbrace, ['{']⟩ :: (M.grown ++ ⟨.rbrace, ['}']⟩ :: rest)) lit (behind ++ lex M.appended) []
        (by rw [hbehind]; simp) (hgroup _ hgrown) (by simpa using hcode)⟩
    · -- the literal gains entries
      obtain ⟨hbody, -, -⟩ := eq_of_closed hZ M.balanced (isBalanced_of_unbracketed hcode.isUnbracketed) rfl rfl
      rw [← hbody] at hcode
      obtain ⟨es', hes'⟩ := hcode.growth hentries M.growth
      exact ⟨es', key _ _ _ es' rfl hout' hes'⟩
    · -- the literal stands in front of the braces that gain entries
      have hnot : ∀ l ∈ lit, l.kind ≠ .lbrace := by
        intro l hl hbrace
        have := (hcode.isUnbracketed l hl).1
        rw [hbrace] at this
        cases this
      rcases groups_cases hZ with ⟨W, rfl, hW⟩ | ⟨-, e, -⟩ | ⟨W, rfl, -⟩
      · exact ⟨[], key F lit (W ++ ⟨.lbrace, ['{']⟩ :: (M.grown ++ ⟨.rbrace, ['}']⟩ :: (M.behind ++ lex M.appended))) []
          (by rw [hbetween]; simp) hout' (by simpa using hcode)⟩
      · cases e
      · exact absurd rfl (hnot ⟨.lbrace, ['{']⟩ (by simp))
  intro F' lit' behind' es' hlex' hout₂ hcode'
  refine ⟨M.front ++ (M.imports ++ F'), lit', behind', M.front ++ (M.imports ++ outer'), word, decl, ?_, ?_, hword, ?_, hopens, hcode'⟩
  · rw [M.lex_merged, hlex', List.append_assoc, List.append_assoc]
  · rw [List.append_assoc, List.append_assoc]
    refine (Outlines.append_iff fun l hl => ⟨(hfront l hl).1, (hfront l hl).2.1⟩).2 ⟨_, rfl, ?_⟩
    exact (Outlines.append_iff fun l hl => (himports l hl).1).2 ⟨_, rfl, hout₂⟩
  · rw [isBalanced_congr fun stack => isBalanced_append (isBalanced_of_unbracketed fun l hl => (himports l hl).2)]
    exact houter

/-! ### Rebuilding -/

lemma isOperand_of_unbracketed (h : ∀ l ∈ L, (l.kind.isOpen = false ∧ l.kind.isClose = false) ∧
    l.kind ≠ .comma ∧ l.kind ≠ .semi ∧ l.kind ≠ .assign) : IsOperand L := by
  refine ⟨isBalanced_of_unbracketed fun l hl => (h l hl).1, ?_⟩
  rintro A l B rfl -
  exact (h l (by simp)).2

/-- The type of the rule map in a registry file. -/
def ruleMapType : List Lexeme :=
  [⟨.ident, "map"⟩, ⟨.lbracket, ['[']⟩, ⟨.ident, "string"⟩, ⟨.rbracket, [']']⟩, ⟨.ident, "validator"⟩, ⟨.dot, ['.']⟩,
    ⟨.ident, "Func"⟩]

lemma isMapType_ruleMapType : IsMapType ruleMapType :=
  .inl ⟨[⟨.ident, "string"⟩], [⟨.ident, "validator"⟩, ⟨.dot, ['.']⟩, ⟨.ident, "Func"⟩], rfl, rfl,
    isOperand_of_unbracketed (by decide)⟩

lemma opensRuleMap_of_specs {specs : List Lexeme} (h : specs = [] ∨ specs = [⟨.lparen, ['(']⟩]) :
    OpensRuleMap (specs ++ ⟨.ident, "registerValidation"⟩ :: ⟨.assign, ['=']⟩ :: ruleMapType) := by
  have hspecs : specs = [] ∨ ∃ S, specs = ⟨.lparen, ['(']⟩ :: S ∧ isBalanced [] S ∧ ∀ l ∈ S.getLast?, l.kind = .semi :=
    h.imp_right fun h => ⟨[], h, rfl, by simp⟩
  exact .mk specs [] [] [] [] ruleMapType hspecs (isOperand_of_unbracketed (by simp)) rfl (by simp) isMapType_ruleMapType

lemma kind_ne_of_mem_groupLexemes {imports : List NewImport} (hi : ∀ l ∈ imports, IsImportLine l) :
    ∀ l ∈ groupLexemes imports, l.kind ≠ .lbrace ∧ l.kind ≠ .rbrace := by
  have hline : ∀ i ∈ imports, ∀ l ∈ lineLexemes i, l.kind ≠ .lbrace ∧ l.kind ≠ .rbrace := by
    intro i hmem l hl
    have hi := hi i hmem
    obtain ⟨_ | n, path⟩ := i
    · revert l
      simp [lineLexemes]
    · obtain ⟨k, hk, hlex⟩ := hi n rfl
      revert l
      rcases hk with rfl | rfl <;> simp [lineLexemes, hlex]
  intro l hl
  simp only [groupLexemes, List.mem_append, List.mem_flatMap] at hl
  rcases hl with (((hl | ⟨i, hi, hl⟩) | hl) | ⟨i, hi, hl⟩) | hl
  · revert l
    decide
  · exact hline i (mem_of_mem_standardLines hi) l hl
  · rcases groupGap_cases imports (⟨.newline, ['\n']⟩ : Lexeme) with e | e
    · rw [e] at hl
      cases hl
    · rw [e] at hl
      rw [List.mem_singleton.1 hl]
      decide
  · exact hline i (mem_of_mem_otherLines hi) l hl
  · revert l
    decide

/-- A registry file declares the rule map with the entries it is put together from. -/
lemma declaresRuleMap_registryText {imports : List NewImport} {entries : List (Text × Text)} {kept functions : List Text}
    (hp : IsName package) (hi : ∀ l ∈ imports, IsImportLine l) (he : AreEntries entries) :
    DeclaresRuleMap (registryText package imports entries kept functions) entries := by
  have hhead : lex mapHead = (lex mapHead).take 3 ++ ⟨.varWord, "var"⟩ :: (lex mapHead).drop 4 := by decide +kernel
  have hkinds : ∀ l ∈ lex mapHead, l.kind ≠ .lbrace ∧ l.kind ≠ .rbrace := by decide +kernel
  have hdecl : statementPart false ((lex mapHead).drop 4) = ⟨.ident, "registerValidation"⟩ :: ⟨.assign, ['=']⟩ :: ruleMapType := by
    decide +kernel
  have houter : isBalanced [] ((lex mapHead).take 3) := by decide +kernel
  refine ⟨headTokens package imports, ⟨.newline, ['\n']⟩ ::
      (entries.map fun (tag, function) => (tag, EntryValue.name function)).flatMap GrowingMap.entryLexemes,
    lex (registryTail kept functions), [⟨.packageWord, "package"⟩, ⟨.blank, [' ']⟩, ⟨.ident, package⟩, ⟨.newline, ['\n']⟩,
      ⟨.newline, ['\n']⟩] ++ (groupLexemes imports ++ (lex mapHead).take 3), ⟨.varWord, "var"⟩, (lex mapHead).drop 4, ?_, ?_, rfl,
    ?_, ?_, ?_⟩
  · rw [registryText_eq, lex_registryHead_append hp hi mapText_head?, mapText, GrowingMap.lex_render_append he.isEntry,
      GrowingMap.mapLexemes, headTokens]
    simp
  · rw [List.append_assoc, List.append_assoc, ← hhead]
    refine Outlines.self fun l hl => ?_
    rw [headTokens, List.mem_append, List.mem_append] at hl
    rcases hl with hl | hl | hl
    · revert l
      simp
    · exact kind_ne_of_mem_groupLexemes hi l hl
    · exact hkinds l hl
  · rw [isBalanced_append (by rfl), isBalanced_append (adds_group hi).balanced]
    exact houter
  · rw [hdecl]
    exact opensRuleMap_of_specs (.inl rfl)
  · rw [significant_cons_neg (by rfl)]
    exact EntryCode.written fun e he' => isEntryName_of_isFunctionName (he e he')

/-- What is gathered for the rule map is in ascending order of tags. -/
lemma isSorted_gathered : (gathered existing tree additions registry).entries.IsSorted := by
  have hregister : ∀ (rs : List InitRegistration) (g : Gathered), g.entries.IsSorted → (rs.foldl Gathered.register g).entries.IsSorted := by
    intro rs
    induction rs with
    | nil => exact fun g h => h
    | cons r rs ih =>
      refine fun g h => ih _ ?_
      obtain ⟨name, -, e⟩ | ⟨text, -, -, e⟩ | ⟨text, name, -, -, -, e⟩ := g.register_cases r <;> rw [e]
      · exact h.putNew
      · exact h
      · exact h.putNew
  have hdeclare : ∀ (ds : List Decl) (g : Gathered), g.entries.IsSorted →
      (ds.foldl (Gathered.declare existing) g).entries.IsSorted := by
    intro ds
    induction ds with
    | nil => exact fun g h => h
    | cons d ds ih =>
      refine fun g h => ih _ ?_
      unfold Gathered.declare
      dsimp only
      split
      · split <;> exact h
      · split
        · split
          · exact hregister _ g h
          · exact h
        · exact h
      · exact h
  exact hdeclare _ _ (@Table.IsSorted.foldl [] (Text × Text) Prod.fst Prod.snd registry.bindings List.Pairwise.nil)

/-- Whether a rebuilt registry binds a tag to a function: what is gathered from calls comes first, required rules add to it. -/
def Rebinds (existing : Text) (tree : Tree) (additions : Additions) (registry : Registry) (required : Requirements)
    (e : Text × Text) : Prop :=
  (gathered existing tree additions registry).entries.lookup e.1 = some e.2 ∨
    (gathered existing tree additions registry).entries.lookup e.1 = none ∧ (∃ r ∈ required.rules, r.tag = e.1) ∧
      registry.boundFunction e.1 = e.2

lemma mem_rebuilt_entries {e : Text × Text} : e ∈ (RegistryParts.rebuilt existing tree additions registry required).entries ↔
    Rebinds existing tree additions registry required e := by
  obtain ⟨tag, function⟩ := e
  have hsorted : Table.IsSorted (RegistryParts.rebuilt existing tree additions registry required).entries :=
    isSorted_gathered.foldl
  have hlookup : (RegistryParts.rebuilt existing tree additions registry required).entries.lookup tag =
      ((gathered existing tree additions registry).entries.lookup tag).or
        ((required.rules.map fun r => (r.tag, registry.boundFunction r.tag)).lookup tag) := Table.lookup_foldl isSorted_gathered
  have hrequired : ∀ rs : List Requirement, (rs.map fun r => (r.tag, registry.boundFunction r.tag)).lookup tag = some function ↔
      (∃ r ∈ rs, r.tag = tag) ∧ registry.boundFunction tag = function := by
    intro rs
    induction rs with
    | nil => simp
    | cons r rs ih =>
      rw [List.map_cons, Table.lookup_cons_eq]
      by_cases hr : tag = r.tag
      · simp [hr]
      · simp [hr, ih, Ne.symm hr]
  rw [Table.mem_iff_lookup hsorted, hlookup, Rebinds]
  cases (gathered existing tree additions registry).entries.lookup tag with
  | none => simpa using hrequired required.rules
  | some v => simp

lemma declaresRuleMap_groupedRegistry : DeclaresRuleMap groupedRegistry [("zip", "checkZip")] := by
  obtain ⟨front, lit, behind, outer, decl, hlex, hfront, hkinds, houter, hdecl, hlit⟩ : ∃ front lit behind outer decl : List Lexeme,
      lex groupedRegistry = front ++ ⟨.lbrace, ['{']⟩ :: (lit ++ ⟨.rbrace, ['}']⟩ :: behind) ∧
      front = outer ++ ⟨.varWord, "var"⟩ :: decl ∧ (∀ l ∈ front, l.kind ≠ .lbrace ∧ l.kind ≠ .rbrace) ∧ isBalanced [] outer ∧
      statementPart false decl = [⟨.lparen, ['(']⟩] ++ ⟨.ident, "registerValidation"⟩ :: ⟨.assign, ['=']⟩ :: ruleMapType ∧
      significant lit = ⟨.string, quote "zip"⟩ :: ⟨.operator, [':']⟩ :: (lex "checkZip" ++ [⟨.comma, [',']⟩]) :=
    ⟨(lex groupedRegistry).take 21, ((lex groupedRegistry).drop 22).take 9, (lex groupedRegistry).drop 32,
      (lex groupedRegistry).take 5, ((lex groupedRegistry).drop 6).take 15, by
      unfold groupedRegistry
      repeat rw [String.toList_ofList]
      decide +kernel⟩
  have hcode := EntryCode.cons ⟨.string, quote "zip"⟩ "checkZip" (.inl rfl) (by decide) .nil
  rw [unquote_quote] at hcode
  refine ⟨front, lit, behind, outer, ⟨.varWord, "var"⟩, decl, hlex, ?_, rfl, houter, ?_, ?_⟩
  · rw [← hfront]
    exact Outlines.self hkinds
  · rw [hdecl]
    exact opensRuleMap_of_specs (.inr rfl)
  · rw [hlit]
    exact hcode

end RuleWeaver
