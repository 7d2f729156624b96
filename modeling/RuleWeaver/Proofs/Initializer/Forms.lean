import RuleWeaver.Proofs.Initializer.Depths
import RuleWeaver.Proofs.Source.Literals
import RuleWeaver.Proofs.Source.Nesting

/-!
# Forms of registrations

How registrations are written (`IsForm`): a call of `RegisterValidation` by itself, assigned to the blank name, assigned to a
variable that the next statement checks, or in the header of that check.  Written on lines of their own (`Written`), all of them
are found, and nothing is left (`extraction_finds_forms`).
-/

namespace RuleWeaver

open Source

/-! ### How registrations are written -/

/-- Names with dots between them. -/
def chainCode : List Text → List Lexeme
  | [] => []
  | [name] => [⟨.ident, name⟩]
  | name :: names => ⟨.ident, name⟩ :: ⟨.dot, ['.']⟩ :: chainCode names

/-- Lexemes between parentheses. -/
def inParens (ls : List Lexeme) : List Lexeme := ⟨.lparen, ['(']⟩ :: (ls ++ [⟨.rparen, [')']⟩])

/-- Lexemes between braces. -/
def inBraces (ls : List Lexeme) : List Lexeme := ⟨.lbrace, ['{']⟩ :: (ls ++ [⟨.rbrace, ['}']⟩])

/-- Whether lexemes begin and end with code. -/
def isTight (ls : List Lexeme) : Bool := ls.head?.any (·.kind.isSignificant) && ls.getLast?.any (·.kind.isSignificant)

/-- How a function is written that is registered: as a chain of names, or as a function literal. -/
inductive WritesFunction : List Lexeme → FunctionArgument → Prop
  | named {ls : List Lexeme} (names : List Text) (htrim : isTight ls) (hcode : significant ls = chainCode names) (hne : names ≠ []) :
    WritesFunction ls (.named (joined ls))
  | literal {ls params body : List Lexeme} (htrim : isTight ls)
    (hcode : significant ls = ⟨.funcWord, "func"⟩ :: (inParens params ++ ⟨.ident, "bool"⟩ :: inBraces body))
    (hparams : isBalanced [] params) (hbody : isBalanced [] body) : WritesFunction ls (.literal (joined ls))

/-- How a call is written that makes a registration.  Behind the function there may be a comma. -/
inductive WritesCall : List Lexeme → InitRegistration → Prop
  | intro {front argument behind : List Lexeme} {tag : Text} {function : FunctionArgument} (receiver : List Text)
    (hreceiver : receiver ≠ [])
    (hfront : significant front = (chainCode receiver ++ [⟨.dot, ['.']⟩, ⟨.ident, "RegisterValidation"⟩]) ++
      [⟨.lparen, ['(']⟩, ⟨.string, Text.quote tag⟩, ⟨.comma, [',']⟩])
    (hargument : WritesFunction argument function)
    (hbehind : significant behind = [⟨.rparen, [')']⟩] ∨ significant behind = [⟨.comma, [',']⟩, ⟨.rparen, [')']⟩]) :
    WritesCall (front ++ (argument ++ behind)) ⟨tag, function⟩

/-- The comparison of a variable with `nil`, and a block behind it. -/
def checkCode (x : Text) (body : List Lexeme) : List Lexeme :=
  ⟨.ident, x⟩ :: ⟨.operator, "!="⟩ :: ⟨.ident, "nil"⟩ :: inBraces body

/-- How a registration is written, in one statement or in two. -/
inductive IsForm : List (List Lexeme) → InitRegistration → Prop
  | plain {call : List Lexeme} {r : InitRegistration} (hcall : WritesCall call r) : IsForm [call] r
  | blank {front call : List Lexeme} {r : InitRegistration} (hfront : significant front = [⟨.ident, "_"⟩, ⟨.assign, "="⟩])
    (hcall : WritesCall call r) : IsForm [front ++ call] r
  | checked {front call check : List Lexeme} {r : InitRegistration} (x : Text) (body : List Lexeme) (hx : x ≠ "_")
    (hfront : significant front = [⟨.ident, x⟩, ⟨.operator, ":="⟩]) (hcall : WritesCall call r)
    (hcheck : significant check = ⟨.ident, "if"⟩ :: checkCode x body) (hbody : isBalanced [] body) :
    IsForm [front ++ call, check] r
  | guarded {front call check : List Lexeme} {r : InitRegistration} (x : Text) (body : List Lexeme) (hx : x ≠ "_")
    (hfront : significant front = [⟨.ident, "if"⟩, ⟨.ident, x⟩, ⟨.operator, ":="⟩]) (hcall : WritesCall call r)
    (hcheck : significant check = ⟨.semi, [';']⟩ :: checkCode x body) (hbody : isBalanced [] body) :
    IsForm [front ++ (call ++ check)] r

/-- Statements on lines of their own.  No line break ends one of them early, and behind each there is a line break. -/
inductive OnLines : List Lexeme → List (List Lexeme) → Prop
  | nil {gap : List Lexeme} (hgap : significant gap = []) : OnLines gap []
  | cons {run rest : List Lexeme} {runs : List (List Lexeme)} (hrun : isUnbroken 0 false (run.map (·.kind)))
    (hrest : (rest.filter (·.kind.isCounted)).head?.any (·.kind = .newline)) (h : OnLines rest runs) :
    OnLines (run ++ rest) (run :: runs)

/-- Registrations, one behind the other, each in one of the forms and on lines of its own. -/
def Written (ls : List Lexeme) (rs : List InitRegistration) : Prop :=
  ∃ groups, List.Forall₂ IsForm groups rs ∧ OnLines ls groups.flatten

/-! ### Statements of the forms -/

section Code

variable {ls flat inner params body : List Lexeme} {o c : Lexeme} {k : Kind} {stack : List Kind} {names : List Text} {x : Text}
  {r : InitRegistration} {function : FunctionArgument}

/-- What a statement is when it stands alone: its brackets match, a line break behind it ends it, and no semicolon does before,
because it has a header or none outside brackets. -/
structure IsWholeStatement (code : List Lexeme) : Prop where
  isBalanced : isBalanced [] code
  head : code.head?.any (·.kind ≠ .semi)
  last : code.getLast?.any (·.kind.endsStatement)
  semis : code.head?.any (·.text = "if".toList) ∨ isEnclosed .semi 0 (code.map (·.kind))

/-- The classes of names and operators, of which heads of statements are made. -/
def Source.Kind.isFlat (k : Kind) : Bool := k = .ident ∨ k = .dot ∨ k = .assign ∨ k = .operator

lemma Source.Kind.unbracketed_of_isFlat (h : k.isFlat) : k.isOpen = false ∧ k.isClose = false := by
  revert h
  cases k <;> decide

lemma isBalanced_of_isFlat (h : ∀ l ∈ flat, l.kind.isFlat) : isBalanced [] flat :=
  isBalanced_of_unbracketed fun l hl => Kind.unbracketed_of_isFlat (h l hl)

lemma isSolid_of_isFlat (hk : k.isFlat = false) (h : ∀ l ∈ flat, l.kind.isFlat) : IsSolid k (flat.map (·.kind)) := by
  induction flat with
  | nil => exact .nil
  | cons l flat ih =>
    obtain ⟨hl, hflat⟩ := List.forall_mem_cons.1 h
    obtain ⟨ho, hc⟩ := Kind.unbracketed_of_isFlat hl
    exact .cons (by rintro rfl; simp [hl] at hk) ho hc (ih hflat)

lemma isFlat_chainCode : ∀ l ∈ chainCode names, l.kind.isFlat := by
  fun_induction chainCode names with
  | case1 => simp
  | case2 name => simp [Kind.isFlat]
  | case3 name names _ ih => simpa [Kind.isFlat] using ih

lemma isBalanced_group (hclose : o.kind.closer? = some c.kind) (h : isBalanced [] inner) : isBalanced [] (o :: (inner ++ [c])) := by
  obtain ⟨ho, hc, hco⟩ := isOpen_of_closer? hclose
  simp [isBalanced, ho, isBalanced_append h, hc, hco, hclose]

lemma isBalanced_inParens (h : isBalanced [] inner) : isBalanced [] (inParens inner) := isBalanced_group rfl h

lemma isBalanced_inBraces (h : isBalanced [] inner) : isBalanced [] (inBraces inner) := isBalanced_group rfl h

lemma isSolid_inParens (ho : k.isOpen = false) (hc : k.isClose = false) (h : isBalanced [] inner) :
    IsSolid k ((inParens inner).map (·.kind)) := by
  simpa [inParens] using IsSolid.group (o := .lparen) (c := .rparen) rfl rfl ho hc h

lemma isSolid_inBraces (ho : k.isOpen = false) (hc : k.isClose = false) (h : isBalanced [] inner) :
    IsSolid k ((inBraces inner).map (·.kind)) := by
  simpa [inBraces] using IsSolid.group (o := .lbrace) (c := .rbrace) rfl rfl ho hc h

lemma getLast?_append_inBraces {A B : List Lexeme} : (A ++ inBraces B).getLast? = some ⟨.rbrace, ['}']⟩ := by
  rw [inBraces, ← List.cons_append, ← List.append_assoc, List.getLast?_concat]

/-- A function that is registered is one argument. -/
lemma WritesFunction.isSolid (h : WritesFunction ls function) :
    isBalanced [] (significant ls) ∧ IsSolid .comma ((significant ls).map (·.kind)) := by
  cases h with
  | named names htrim hcode hne =>
    rw [hcode]
    exact ⟨isBalanced_of_isFlat isFlat_chainCode, isSolid_of_isFlat rfl isFlat_chainCode⟩
  | literal htrim hcode hparams hbody =>
    rw [hcode]
    constructor
    · have hrest : isBalanced [] (inParens _ ++ ⟨.ident, "bool"⟩ :: inBraces _) :=
        (isBalanced_append (isBalanced_inParens hparams)).trans (isBalanced_inBraces hbody)
      exact hrest
    · rw [List.map_cons, List.map_append, List.map_cons]
      exact .cons (by decide) rfl rfl ((isSolid_inParens rfl rfl hparams).append
        (.cons (by decide) rfl rfl (isSolid_inBraces rfl rfl hbody)))

/-- A call is a chain of names with a group behind it. -/
lemma WritesCall.exists_group (h : WritesCall ls r) : ∃ callee inner, significant ls = callee ++ inParens inner ∧ callee ≠ [] ∧
    (∀ l ∈ callee, l.kind.isFlat) ∧ isBalanced [] inner := by
  cases h with
  | @intro front argument behind tag function receiver hreceiver hfront hargument hbehind =>
    obtain ⟨trailing, htrailing, hbalanced⟩ : ∃ trailing, significant behind = trailing ++ [⟨.rparen, [')']⟩] ∧ isBalanced [] trailing := by
      rcases hbehind with hbehind | hbehind
      · exact ⟨[], hbehind, rfl⟩
      · exact ⟨[⟨.comma, [',']⟩], hbehind, rfl⟩
    refine ⟨chainCode receiver ++ [⟨.dot, ['.']⟩, ⟨.ident, "RegisterValidation"⟩],
      ⟨.string, Text.quote tag⟩ :: ⟨.comma, [',']⟩ :: (significant argument ++ trailing), ?_, by simp, ?_, ?_⟩
    · rw [significant_append, significant_append, hfront, htrailing]
      simp [inParens]
    · rw [List.forall_mem_append]
      exact ⟨isFlat_chainCode, by simp [Kind.isFlat]⟩
    · exact (isBalanced_append hargument.isSolid.1).trans hbalanced

/-- A chain with a group behind it is a whole statement. -/
lemma isWholeStatement_of_group (flat : List Lexeme) (hne : flat ≠ []) (hflat : ∀ l ∈ flat, l.kind.isFlat) (hclose : o.kind.closer? = some c.kind)
    (hends : c.kind.endsStatement) (h : isBalanced [] inner) : IsWholeStatement (flat ++ o :: (inner ++ [c])) := by
  obtain ⟨l, flat, rfl⟩ := List.exists_cons_of_ne_nil hne
  obtain ⟨ho, hc, -⟩ := isOpen_of_closer? hclose
  refine ⟨(isBalanced_append (isBalanced_of_isFlat hflat)).trans (isBalanced_group hclose h), ?_, ?_, .inr ?_⟩
  · have hl := hflat l List.mem_cons_self
    rw [List.cons_append, List.head?_cons, Option.any_some, decide_eq_true_eq]
    rintro hk
    rw [hk] at hl
    cases hl
  · rw [← List.cons_append, ← List.append_assoc, List.getLast?_concat]
    exact hends
  · have hsolid := (isSolid_of_isFlat (k := .semi) rfl hflat).append (IsSolid.group (k := .semi) ho hc rfl rfl h)
    simpa using (hsolid 0).2

/-- A registration is written in whole statements. -/
lemma IsForm.isWholeStatement {group : List (List Lexeme)} (h : IsForm group r) : ∀ run ∈ group, IsWholeStatement (significant run) := by
  have hcall : ∀ {call}, WritesCall call r → ∀ flat, (∀ l ∈ flat, l.kind.isFlat) → IsWholeStatement (flat ++ significant call) := by
    intro call hcall flat hflat
    obtain ⟨callee, inner, hcode, hne, hcallee, hinner⟩ := hcall.exists_group
    rw [hcode, ← List.append_assoc]
    exact isWholeStatement_of_group _ (by simp [hne]) (List.forall_mem_append.2 ⟨hflat, hcallee⟩) rfl rfl hinner
  cases h with
  | plain h => simpa using hcall h [] (by simp)
  | blank hfront h =>
    rw [List.forall_mem_singleton, significant_append, hfront]
    exact hcall h _ (by simp [Kind.isFlat])
  | @checked front call check _ x body hx hfront h hcheck hbody =>
    rw [List.forall_mem_cons, List.forall_mem_singleton, significant_append, hfront, hcheck]
    exact ⟨hcall h _ (by simp [Kind.isFlat]), isWholeStatement_of_group
      [⟨.ident, "if"⟩, ⟨.ident, x⟩, ⟨.operator, "!="⟩, ⟨.ident, "nil"⟩] (by simp) (by simp [Kind.isFlat]) rfl rfl hbody⟩
  | @guarded front call check _ x body hx hfront h hcheck hbody =>
    rw [List.forall_mem_singleton, significant_append, significant_append, hfront, hcheck]
    have hcheckCode := isWholeStatement_of_group [⟨.ident, x⟩, ⟨.operator, "!="⟩, ⟨.ident, "nil"⟩] (o := ⟨.lbrace, ['{']⟩)
      (c := ⟨.rbrace, ['}']⟩) (by simp) (by simp [Kind.isFlat]) rfl rfl hbody
    refine ⟨?_, rfl, ?_, .inl rfl⟩
    · rw [← List.append_assoc, isBalanced_append (hcall h _ (by simp [Kind.isFlat])).isBalanced]
      exact hcheckCode.isBalanced
    · rw [show [⟨.ident, "if"⟩, ⟨.ident, x⟩, ⟨.operator, ":="⟩] ++ (significant call ++ ⟨.semi, [';']⟩ :: checkCode x body) =
        ([⟨.ident, "if"⟩, ⟨.ident, x⟩, ⟨.operator, ":="⟩] ++ significant call ++
          [⟨.semi, [';']⟩, ⟨.ident, x⟩, ⟨.operator, "!="⟩, ⟨.ident, "nil"⟩]) ++ inBraces body by simp [checkCode],
        getLast?_append_inBraces]
      rfl

end Code

/-! ### How statements are read -/

section Reading

variable {s source x : Text} {n depth : Nat} {ls A B : List Lexeme} {ts callee function trailing : List Token} {o tag comma close t : Token}
  {names : List Text} {r : InitRegistration} {p : Text × InitRegistration}

/-- Whether lexemes stand at an offset of a text. -/
def StandsIn (s : Text) (n : Nat) (ls : List Lexeme) : Prop := ∃ u v, s = u ++ (joined ls ++ v) ∧ u.width = n

namespace StandsIn

lemma left (h : StandsIn s n (A ++ B)) : StandsIn s n A := by
  obtain ⟨u, v, hs, hu⟩ := h
  exact ⟨u, joined B ++ v, by rw [hs, joined_append, List.append_assoc], hu⟩

lemma right (h : StandsIn s n (A ++ B)) : StandsIn s (n + (joined A).width) B := by
  obtain ⟨u, v, hs, hu⟩ := h
  exact ⟨u ++ joined A, v, by rw [hs, joined_append]; simp, by rw [Text.width_append, hu]⟩

lemma slice (h : StandsIn s n ls) : Text.slice s n (n + (joined ls).width) = joined ls := by
  obtain ⟨u, v, rfl, rfl⟩ := h
  exact Text.slice_width_append

end StandsIn

/-- The tokens of the code of lexemes at an offset. -/
def codeAt (n : Nat) (ls : List Lexeme) : List Token := codeTokens (place n ls)

@[simp] lemma codeAt_append : codeAt n (A ++ B) = codeAt n A ++ codeAt (n + (joined A).width) B := by
  rw [codeAt, place_append, codeTokens_append]
  rfl

@[simp] lemma map_lexeme_codeAt : (codeAt n ls).map Token.lexeme = significant ls := by
  have h := List.filter_map (f := Token.lexeme) (l := place n ls) (p := fun l => l.kind.isSignificant)
  rw [map_lexeme_place] at h
  exact h.symm

@[simp] lemma map_kind_codeAt : (codeAt n ls).map (·.kind) = (significant ls).map (·.kind) := by
  rw [← map_lexeme_codeAt (n := n), List.map_map]
  rfl

lemma any_head?_codeAt {p : Lexeme → Bool} : (codeAt n ls).head?.any (p ·.lexeme) = (significant ls).head?.any p := by
  rw [← map_lexeme_codeAt (n := n), List.head?_map, Option.any_map]

lemma any_getLast?_codeAt {p : Lexeme → Bool} : (codeAt n ls).getLast?.any (p ·.lexeme) = (significant ls).getLast?.any p := by
  rw [← map_lexeme_codeAt (n := n), List.getLast?_map, Option.any_map]

/-- The code of lexemes that begin and end with code reaches from one end to the other. -/
lemma exists_ends_codeAt (h : isTight ls) : ∃ first last, (codeAt n ls).head? = some first ∧ (codeAt n ls).getLast? = some last ∧
    first.start = n ∧ last.stop = n + (joined ls).width := by
  rw [isTight, Bool.and_eq_true, Option.any_eq_true, Option.any_eq_true] at h
  obtain ⟨⟨l, hl, hsig⟩, m, hm, hsig'⟩ := h
  obtain ⟨xs, rfl⟩ : ∃ xs, ls = l :: xs := ⟨ls.tail, List.eq_cons_of_mem_head? hl⟩
  obtain ⟨ys, hys⟩ := List.getLast?_eq_some_iff.1 hm
  refine ⟨⟨l.kind, l.text, n⟩, ⟨m.kind, m.text, n + (joined ys).width⟩, ?_, ?_, rfl, ?_⟩
  · rw [codeAt, codeTokens, place_cons, List.filter_cons_of_pos (by exact hsig)]
    rfl
  · rw [hys, codeAt_append]
    have hlast : codeAt (n + (joined ys).width) [m] = [⟨m.kind, m.text, n + (joined ys).width⟩] := by
      simp [codeAt, codeTokens, hsig']
    rw [hlast, List.getLast?_concat]
  · rw [hys, joined_append, Text.width_append]
    simp [Token.stop, Nat.add_assoc]

/-! Chains and functions. -/

lemma isChain_of_chainCode (hne : names ≠ []) (h : ts.map Token.lexeme = chainCode names) : Statement.isChain ts := by
  fun_induction chainCode names generalizing ts with
  | case1 => exact absurd rfl hne
  | case2 name =>
    obtain ⟨t, rfl, ht⟩ := List.map_eq_singleton_iff.1 h
    simpa [Statement.isChain] using congrArg Lexeme.kind ht
  | case3 name names hnames ih =>
    obtain ⟨t, us, rfl, ht, hus⟩ := List.map_eq_cons_iff.1 h
    obtain ⟨d, vs, rfl, hd, hvs⟩ := List.map_eq_cons_iff.1 hus
    have htk : t.kind = .ident := congrArg Lexeme.kind ht
    have hdk : d.kind = .dot := congrArg Lexeme.kind hd
    simpa [Statement.isChain, htk, hdk] using ih hnames hvs

lemma isChain_concat {d : Token} (h : Statement.isChain ts) (hd : d.kind = .dot) (ht : t.kind = .ident) :
    Statement.isChain (ts ++ [d, t]) := by
  fun_induction Statement.isChain ts with
  | case1 u =>
    have hu : u.kind = .ident := of_decide_eq_true h
    simp [Statement.isChain, hu, hd, ht]
  | case2 u v us ih =>
    simp only [Bool.and_eq_true, decide_eq_true_eq] at h
    simpa [Statement.isChain, h.1] using ih h.2
  | case3 => cases h

lemma kind_of_isChain (h : Statement.isChain ts) (ht : t ∈ ts) : t.kind = .ident ∨ t.kind = .dot := by
  fun_induction Statement.isChain ts with
  | case1 u =>
    rw [List.mem_singleton.1 ht]
    exact .inl (of_decide_eq_true h)
  | case2 u v us ih =>
    simp only [Bool.and_eq_true, decide_eq_true_eq] at h
    rcases List.mem_cons.1 ht with rfl | ht
    · exact .inl h.1.1
    rcases List.mem_cons.1 ht with rfl | ht
    · exact .inr h.1.2
    · exact ih h.2 ht
  | case3 => cases ht

/-- The function of an argument is read as it is written. -/
lemma WritesFunction.argumentFunction? {function : FunctionArgument} (h : WritesFunction ls function) (hs : StandsIn s n ls) :
    Statement.argumentFunction? s (codeAt n ls) = some function := by
  have hslice := hs.slice
  cases h with
  | @named names htrim hcode hne =>
    obtain ⟨first, last, hfirst, hlast, hstart, hstop⟩ := exists_ends_codeAt (n := n) htrim
    have hchain : Statement.isChain (codeAt n ls) := isChain_of_chainCode hne (by rw [map_lexeme_codeAt, hcode])
    have hfunc : first.kind ≠ .funcWord := by
      rcases kind_of_isChain hchain (List.mem_of_mem_head? hfirst) with hk | hk <;> rw [hk] <;> decide
    rw [Statement.argumentFunction?, hfirst, hlast]
    simp only [hstart, hstop, hslice]
    rw [if_neg hfunc, if_pos hchain]
  | @literal params body htrim hcode hparams hbody =>
    obtain ⟨first, last, hfirst, hlast, hstart, hstop⟩ := exists_ends_codeAt (n := n) htrim
    have hfunc : first.kind = .funcWord := by
      have hhead : ((codeAt n ls).map Token.lexeme).head? = some ⟨.funcWord, "func"⟩ := by rw [map_lexeme_codeAt, hcode]; rfl
      rw [List.head?_map, hfirst] at hhead
      exact congrArg Lexeme.kind (Option.some.inj hhead)
    have hbrace : last.kind = .rbrace := by
      have hend : ((codeAt n ls).map Token.lexeme).getLast? = some ⟨.rbrace, ['}']⟩ := by
        rw [map_lexeme_codeAt, hcode]
        rw [show ⟨.funcWord, "func"⟩ :: (inParens params ++ ⟨.ident, "bool"⟩ :: inBraces body) =
          (⟨.funcWord, "func"⟩ :: (inParens params ++ [⟨.ident, "bool"⟩])) ++ inBraces body by simp, getLast?_append_inBraces]
      rw [List.getLast?_map, hlast] at hend
      exact congrArg Lexeme.kind (Option.some.inj hend)
    rw [Statement.argumentFunction?, hfirst, hlast]
    simp only [hstart, hstop, hslice]
    rw [if_pos hfunc, if_pos hbrace]

/-! Calls. -/

lemma splitArguments_two (htag : tag.kind = .string) (hcomma : comma.kind = .comma) (hne : function ≠ [])
    (hsolid : IsSolid .comma (function.map (·.kind))) (htrailing : trailing = [] ∨ ∃ t : Token, trailing = [t] ∧ t.kind = .comma) :
    Statement.splitArguments 0 [] (tag :: comma :: (function ++ trailing)) = [[tag], function] := by
  have hdepth : Kind.depthBehind 0 .string = 0 := rfl
  obtain ⟨hzero, henclosed⟩ := hsolid 0
  rw [splitArguments_cons, if_neg (by simp [htag]), htag, hdepth, splitArguments_cons, if_pos ⟨hcomma, rfl⟩,
    splitArguments_append henclosed, hzero]
  rcases htrailing with rfl | ⟨t, rfl, ht⟩
  · simp [Statement.splitArguments, hne]
  · simp [Statement.splitArguments, ht]

lemma registration?_call (hchain : Statement.isChain callee) (hlength : 3 ≤ callee.length)
    (hlast : callee.getLast?.any (Statement.isName · "RegisterValidation")) (ho : o.kind = .lparen) (htag : tag.kind = .string)
    (hcomma : comma.kind = .comma) (hclose : close.kind = .rparen) (hne : function ≠ [])
    (hsolid : IsSolid .comma (function.map (·.kind))) (hbalanced : isBalanced [] (function.map Token.lexeme))
    (htrailing : trailing = [] ∨ ∃ t : Token, trailing = [t] ∧ t.kind = .comma) :
    Statement.registration? s (callee ++ o :: (tag :: comma :: (function ++ trailing) ++ [close])) =
      (Statement.argumentFunction? s function).map (⟨Text.unquote tag.text, ·⟩) := by
  have hcallee : (callee ++ o :: (tag :: comma :: (function ++ trailing) ++ [close])).takeWhile (·.kind ≠ .lparen) = callee := by
    rw [List.takeWhile_append_of_pos, List.takeWhile_cons_of_neg (by simp [ho]), List.append_nil]
    intro t ht
    rcases kind_of_isChain hchain ht with hk | hk <;> simp [hk]
  have hinner : isBalanced [] ((tag :: comma :: (function ++ trailing)).map Token.lexeme) := by
    have hrest : isBalanced [] (trailing.map Token.lexeme) := by
      rcases htrailing with rfl | ⟨t, rfl, ht⟩
      · rfl
      · simp [isBalanced, ht, Kind.isOpen, Kind.isClose]
    simpa [isBalanced, htag, hcomma, Kind.isOpen, Kind.isClose, isBalanced_append hbalanced] using hrest
  have hgroup : Statement.isGroup (o :: (tag :: comma :: (function ++ trailing) ++ [close])) :=
    isGroup_of_isBalanced (by rw [ho]; rfl) (by rw [hclose]; rfl) hinner
  simp only [Statement.registration?]
  rw [hcallee, List.drop_left, if_pos ⟨hlength, hgroup, hchain, hlast⟩, List.drop_succ_cons, List.drop_zero, List.dropLast_concat,
    splitArguments_two htag hcomma hne hsolid htrailing]
  simp [htag]

/-- A call is read as it is written. -/
lemma WritesCall.registration? (h : WritesCall ls r) (hs : StandsIn s n ls) : Statement.registration? s (codeAt n ls) = some r := by
  cases h with
  | @intro front argument behind tag function receiver hreceiver hfront hargument hbehind =>
    have hfunction := hargument.argumentFunction? hs.right.left
    obtain ⟨callee, us, hsplit, hcallee, hus⟩ := List.map_eq_append_iff.1 (map_lexeme_codeAt.trans hfront)
    obtain ⟨chain, vs, rfl, hchain, hvs⟩ := List.map_eq_append_iff.1 hcallee
    obtain ⟨d, vs, rfl, hd, hvs⟩ := List.map_eq_cons_iff.1 hvs
    obtain ⟨name, rfl, hname⟩ := List.map_eq_singleton_iff.1 hvs
    obtain ⟨o, us, rfl, ho, hus⟩ := List.map_eq_cons_iff.1 hus
    obtain ⟨string, us, rfl, hstring, hus⟩ := List.map_eq_cons_iff.1 hus
    obtain ⟨comma, rfl, hcomma⟩ := List.map_eq_singleton_iff.1 hus
    obtain ⟨trailing, close, hend, htrailing, hclose⟩ : ∃ (trailing : List Token) (close : Token),
        codeAt (n + (joined front).width + (joined argument).width) behind = trailing ++ [close] ∧
          (trailing = [] ∨ ∃ t : Token, trailing = [t] ∧ t.kind = .comma) ∧ close.kind = .rparen := by
      rcases hbehind with hbehind | hbehind
      · obtain ⟨close, hcode, hclose⟩ := List.map_eq_singleton_iff.1 (map_lexeme_codeAt.trans hbehind)
        exact ⟨[], close, hcode, .inl rfl, congrArg Lexeme.kind hclose⟩
      · obtain ⟨t, ws, hcode, ht, hws⟩ := List.map_eq_cons_iff.1 (map_lexeme_codeAt.trans hbehind)
        obtain ⟨close, rfl, hclose⟩ := List.map_eq_singleton_iff.1 hws
        exact ⟨[t], close, hcode, .inr ⟨t, rfl, congrArg Lexeme.kind ht⟩, congrArg Lexeme.kind hclose⟩
    have hreceiverChain : Statement.isChain chain := isChain_of_chainCode hreceiver hchain
    have hlength : 3 ≤ (chain ++ [d, name]).length := by
      have hpos : chain ≠ [] := by
        rintro rfl
        cases hreceiverChain
      have := List.length_pos_iff.2 hpos
      rw [List.length_append, List.length_cons, List.length_singleton]
      omega
    have hlast : (chain ++ [d, name]).getLast?.any (Statement.isName · "RegisterValidation") := by
      have hkind : name.kind = .ident := congrArg Lexeme.kind hname
      have htext : name.text = "RegisterValidation" := congrArg Lexeme.text hname
      rw [List.getLast?_append, List.getLast?_cons_cons, List.getLast?_singleton, Option.some_or, Option.any_some, Statement.isName]
      simp [hkind, htext]
    have hne : codeAt (n + (joined front).width) argument ≠ [] := by
      intro hnil
      rw [hnil] at hfunction
      cases hfunction
    have hcall : Statement.registration? s ((chain ++ [d, name]) ++
        o :: (string :: comma :: (codeAt (n + (joined front).width) argument ++ trailing) ++ [close])) = _ := registration?_call
      (isChain_concat hreceiverChain (congrArg Lexeme.kind hd) (congrArg Lexeme.kind hname)) hlength hlast (congrArg Lexeme.kind ho)
      (congrArg Lexeme.kind hstring) (congrArg Lexeme.kind hcomma) hclose hne (by rw [map_kind_codeAt]; exact hargument.isSolid.2)
      (by rw [map_lexeme_codeAt]; exact hargument.isSolid.1) htrailing
    have htag : string.text = Text.quote tag := congrArg Lexeme.text hstring
    rw [hfunction, htag, Text.unquote_quote] at hcall
    rw [codeAt_append, codeAt_append, hsplit, hend]
    simpa using hcall

/-! Checks and headers. -/

lemma isCheck_of_checkCode {body : List Lexeme} (h : ts.map Token.lexeme = checkCode x body) (hbody : isBalanced [] body) :
    Statement.isCheck x ts := by
  obtain ⟨name, ts, rfl, hname, h⟩ := List.map_eq_cons_iff.1 h
  obtain ⟨op, ts, rfl, hop, h⟩ := List.map_eq_cons_iff.1 h
  obtain ⟨value, ts, rfl, hvalue, h⟩ := List.map_eq_cons_iff.1 h
  obtain ⟨o, ts, rfl, ho, h⟩ := List.map_eq_cons_iff.1 h
  obtain ⟨inner, ts, rfl, hinner, h⟩ := List.map_eq_append_iff.1 h
  obtain ⟨close, rfl, hclose⟩ := List.map_eq_singleton_iff.1 h
  have hbrace : o.kind = .lbrace := congrArg Lexeme.kind ho
  have hend : close.kind = .rbrace := congrArg Lexeme.kind hclose
  have hgroup : Statement.isGroup (o :: (inner ++ [close])) :=
    isGroup_of_isBalanced (by rw [hbrace]; rfl) (by rw [hend]; rfl) (by rw [hinner]; exact hbody)
  obtain ⟨hk, ht⟩ := Lexeme.mk.inj hname
  obtain ⟨hk', ht'⟩ := Lexeme.mk.inj hop
  obtain ⟨hk'', ht''⟩ := Lexeme.mk.inj hvalue
  simp [Statement.isCheck, Statement.isName, hk, ht, hk', ht', hk'', ht'', hbrace, hgroup]

lemma assigned?_cons {name op : Token} {call : List Token} (hx : x ≠ "_") (hname : name.lexeme = ⟨.ident, x⟩)
    (hop : op.lexeme = ⟨.operator, ":="⟩) (h : Statement.registration? s call = some r) :
    Statement.assigned? s (name :: op :: call) = some (x, r) := by
  obtain ⟨hk, ht⟩ := Lexeme.mk.inj hname
  obtain ⟨hk', ht'⟩ := Lexeme.mk.inj hop
  simp only [Statement.assigned?]
  rw [if_pos ⟨hk, .inr ⟨hk', ht'⟩, by rw [ht]; exact hx⟩, h, ht]
  rfl

lemma guarded?_cons {first semi : Token} {call check : List Token} (hfirst : first.lexeme = ⟨.ident, "if"⟩) (hsemi : semi.kind = .semi)
    (hassigned : Statement.assigned? s call = some (x, r)) (hsolid : IsSolid .semi (call.map (·.kind))) (hcheck : Statement.isCheck x check) :
    Statement.guarded? s (first :: (call ++ semi :: check)) = some r := by
  obtain ⟨hk, ht⟩ := Lexeme.mk.inj hfirst
  obtain ⟨hzero, henclosed⟩ := hsolid 0
  have hname : Statement.isName first "if" := by simp [Statement.isName, hk, ht]
  have hheader : Statement.splitHeader? 0 (call ++ semi :: check) = some (call, check) := by
    rw [splitHeader?_append henclosed, hzero, splitHeader?_cons, if_pos ⟨by rw [hsemi]; rfl, hsemi⟩]
    simp
  simp only [Statement.guarded?]
  rw [if_pos hname, hheader]
  simp only [hassigned]
  rw [if_pos hcheck]

lemma plain?_of_registration {statement : Statement} (h : Statement.registration? s statement = some r) : statement.plain? s = some r := by
  obtain ⟨t, u, us, rfl, hu⟩ := second_of_registration h
  rw [Statement.plain?, if_neg (by simp [hu]), h]

lemma single?_of_plain {statement : Statement} (h : statement.plain? s = some r) : statement.single? s = some r := by
  rw [Statement.single?, h]
  rfl

lemma single?_of_guarded {statement : Statement} (hsecond : ∃ t u us, statement = t :: u :: us ∧ u.kind = .ident)
    (h : statement.guarded? s = some r) : statement.single? s = some r := by
  have hplain : statement.plain? s = none := by
    rw [Option.eq_none_iff_forall_ne_some]
    intro r' hr'
    obtain ⟨t, u, us, rfl, hu⟩ := hsecond
    obtain ⟨t', u', us', hs, hu'⟩ := second_of_plain hr'
    cases hs
    simp [hu] at hu'
  rw [Statement.single?, hplain, h]
  rfl

/-- Whether a statement is read off lexemes of a text. -/
def Reads (s : Text) (run : List Lexeme) (statement : Statement) : Prop := ∃ n, StandsIn s n run ∧ statement = codeAt n run

/-- A registration is read as it is written, from one statement or from two. -/
lemma IsForm.reads {group : List (List Lexeme)} (h : IsForm group r) :
    (∃ run, group = [run] ∧ ∀ u, Reads s run u → u.single? s = some r) ∨
      ∃ run check, group = [run, check] ∧ ∀ u v, Reads s run u → Reads s check v → ∃ x, u.IsPair s v x r := by
  cases h with
  | @plain call _ hcall =>
    refine .inl ⟨call, rfl, ?_⟩
    rintro _ ⟨n, hs, rfl⟩
    exact single?_of_plain (plain?_of_registration (hcall.registration? hs))
  | @blank front call _ hfront hcall =>
    refine .inl ⟨front ++ call, rfl, ?_⟩
    rintro _ ⟨n, hs, rfl⟩
    obtain ⟨name, us, hcode, hname, hus⟩ := List.map_eq_cons_iff.1 ((map_lexeme_codeAt (n := n)).trans hfront)
    obtain ⟨op, rfl, hop⟩ := List.map_eq_singleton_iff.1 hus
    have hassign : op.kind = .assign ∧ name.text = "_".toList := ⟨congrArg Lexeme.kind hop, congrArg Lexeme.text hname⟩
    rw [codeAt_append, hcode]
    refine single?_of_plain ?_
    rw [List.cons_append, List.singleton_append, Statement.plain?, if_pos hassign, hcall.registration? hs.right]
  | @checked front call check _ x body hx hfront hcall hcheck hbody =>
    refine .inr ⟨front ++ call, check, rfl, ?_⟩
    rintro _ _ ⟨n, hs, rfl⟩ ⟨m, -, rfl⟩
    obtain ⟨name, us, hcode, hname, hus⟩ := List.map_eq_cons_iff.1 ((map_lexeme_codeAt (n := n)).trans hfront)
    obtain ⟨op, rfl, hop⟩ := List.map_eq_singleton_iff.1 hus
    obtain ⟨first, vs, hcode', hfirst, hvs⟩ := List.map_eq_cons_iff.1 ((map_lexeme_codeAt (n := m)).trans hcheck)
    refine ⟨x, ?_, ?_⟩
    · rw [codeAt_append, hcode]
      exact assigned?_cons hx hname hop (hcall.registration? hs.right)
    · obtain ⟨hk, ht⟩ := Lexeme.mk.inj hfirst
      rw [hcode', Statement.isErrorCheck, Statement.isName, isCheck_of_checkCode hvs hbody]
      simp [hk, ht]
  | @guarded front call check _ x body hx hfront hcall hcheck hbody =>
    refine .inl ⟨front ++ (call ++ check), rfl, ?_⟩
    rintro _ ⟨n, hs, rfl⟩
    obtain ⟨first, us, hcode, hfirst, hus⟩ := List.map_eq_cons_iff.1 ((map_lexeme_codeAt (n := n)).trans hfront)
    obtain ⟨name, us, rfl, hname, hus⟩ := List.map_eq_cons_iff.1 hus
    obtain ⟨op, rfl, hop⟩ := List.map_eq_singleton_iff.1 hus
    obtain ⟨semi, vs, hcode', hsemi, hvs⟩ := List.map_eq_cons_iff.1
      ((map_lexeme_codeAt (n := n + (joined front).width + (joined call).width)).trans hcheck)
    have hassigned := assigned?_cons hx hname hop (hcall.registration? hs.right.left)
    have hsolid : IsSolid .semi ((name :: op :: codeAt (n + (joined front).width) call).map (·.kind)) := by
      obtain ⟨callee, inner, hcallCode, -, hcallee, hinner⟩ := hcall.exists_group
      rw [List.map_cons, List.map_cons, map_kind_codeAt, hcallCode, List.map_append, show name.kind = _ from congrArg Lexeme.kind hname,
        show op.kind = _ from congrArg Lexeme.kind hop]
      exact .cons Kind.noConfusion rfl rfl (.cons Kind.noConfusion rfl rfl
        ((isSolid_of_isFlat rfl hcallee).append (isSolid_inParens rfl rfl hinner)))
    rw [codeAt_append, codeAt_append, hcode, hcode']
    exact single?_of_guarded ⟨first, name, _, rfl, congrArg Lexeme.kind hname⟩
      (guarded?_cons hfirst (congrArg Lexeme.kind hsemi) hassigned hsolid (isCheck_of_checkCode hvs hbody))

/-- Registrations that are written one behind the other are all taken out. -/
lemma sorts_of_forms {groups : List (List (List Lexeme))} {rs : List InitRegistration} {ss : List Statement}
    (h : List.Forall₂ IsForm groups rs) (hreads : List.Forall₂ (Reads s) groups.flatten ss) :
    ∃ ms, Sorts s ss ms [] ∧ ms.map (·.registration) = rs := by
  induction h generalizing ss with
  | nil =>
    cases hreads
    exact ⟨[], .nil, rfl⟩
  | @cons group r groups rs hform _ ih =>
    rcases hform.reads (s := s) with ⟨run, rfl, hsingle⟩ | ⟨run, check, rfl, hpair⟩
    · obtain ⟨u, ss, hu, hss, rfl⟩ := List.forall₂_cons_left_iff.1 hreads
      obtain ⟨ms, hsorts, hms⟩ := ih hss
      exact ⟨⟨r, [u]⟩ :: ms, .single (hsingle u hu) hsorts, by rw [List.map_cons, hms]⟩
    · obtain ⟨u, ss, hu, hss, rfl⟩ := List.forall₂_cons_left_iff.1 hreads
      obtain ⟨v, ss, hv, hrest, rfl⟩ := List.forall₂_cons_left_iff.1 hss
      obtain ⟨x, hx⟩ := hpair u v hu hv
      obtain ⟨ms, hsorts, hms⟩ := ih hrest
      have hnone : u.single? s = none := by
        rw [Option.eq_none_iff_forall_ne_some]
        intro r' hr'
        have := hx.1
        rw [assigned_of_single hr'] at this
        cases this
      exact ⟨⟨r, [u, v]⟩ :: ms, .pair hnone hx hsorts, by rw [List.map_cons, hms]⟩

end Reading

/-! ### Bodies of registrations -/

section Body

variable {s u v body : Text} {n : Nat} {ls : List Lexeme} {runs : List (List Lexeme)} {d : Decl} {f : Function} {rs : List InitRegistration}

lemma OnLines.isBalanced (h : OnLines ls runs) (hruns : ∀ run ∈ runs, IsWholeStatement (significant run)) : isBalanced [] ls := by
  induction h with
  | @nil gap hgap =>
    rw [← isBalanced_significant_eq, hgap]
    rfl
  | @cons run rest runs _ _ _ ih =>
    obtain ⟨hrun, hruns⟩ := List.forall_mem_cons.1 hruns
    rw [isBalanced_append (isBalanced_significant_eq.symm.trans hrun.isBalanced)]
    exact ih hruns

lemma map_kind_place : (place n ls).map (·.kind) = ls.map (·.kind) := by
  induction ls generalizing n with
  | nil => rfl
  | cons l ls ih => simp [ih]

/-- A statement on its lines is cut as it stands. -/
lemma IsWholeStatement.splitBody {run : List Lexeme} {rest : List Token} (h : IsWholeStatement (significant run))
    (hunbroken : isUnbroken 0 false (run.map (·.kind))) (hrest : (rest.filter (·.kind.isCounted)).head?.any (·.kind = .newline)) :
    Statement.splitBody 0 [] ((place n run ++ rest).filter (·.kind ≠ .blank)) =
      codeAt n run :: Statement.splitBody 0 [] (rest.filter (·.kind ≠ .blank)) := by
  have hdepth : depthAfter 0 ((codeAt n run).map (·.kind)) = 0 := by
    rw [map_kind_codeAt]
    exact depthAfter_of_isBalanced h.isBalanced
  have hhead : ∀ t ∈ (codeAt n run).head?, t.kind ≠ .semi := by
    have hany := (any_head?_codeAt (n := n)).trans h.head
    intro t ht
    rw [show (codeAt n run).head? = some t from ht, Option.any_some] at hany
    exact of_decide_eq_true hany
  have hsemi : Statement.opensHeader (codeAt n run) ∨ isEnclosed .semi 0 ((codeAt n run).map (·.kind)) := by
    rw [map_kind_codeAt]
    refine h.semis.imp_left fun hif => ?_
    obtain ⟨t, ht, htext⟩ := (Option.any_eq_true _ _).1 ((any_head?_codeAt (n := n)).trans hif)
    have hname : t.text = "if".toList := of_decide_eq_true htext
    simp [Statement.opensHeader, ht, hname]
  have hlast : (codeAt n run).getLast?.any (·.kind.endsStatement) := any_getLast?_codeAt.trans h.last
  have hsplit : Statement.splitBody 0 [] ((place n run ++ rest).filter (·.kind ≠ .blank)) =
      Statement.splitBody (depthAfter 0 ((codeAt n run).map (·.kind))) (codeAt n run) (rest.filter (·.kind ≠ .blank)) :=
    splitBody_append (by rw [map_kind_place]; exact hunbroken) (fun _ => hhead) hsemi
  rw [hsplit, hdepth, splitBody_newline hlast hrest]

/-- Statements on lines of their own are cut as they stand. -/
lemma OnLines.reads (h : OnLines ls runs) (hruns : ∀ run ∈ runs, IsWholeStatement (significant run)) (hs : StandsIn s n ls) :
    List.Forall₂ (Reads s) runs (Statement.splitBody 0 [] ((place n ls).filter (·.kind ≠ .blank))) := by
  induction h generalizing n with
  | @nil gap hgap =>
    rw [splitBody_gap]
    · exact .nil
    · intro t ht
      rw [significant, List.filter_eq_nil_iff] at hgap
      have hmem : t.lexeme ∈ (place n gap).map Token.lexeme := List.mem_map_of_mem ht
      rw [map_lexeme_place] at hmem
      simpa using hgap _ hmem
  | @cons run rest runs hunbroken hrest _ ih =>
    obtain ⟨hrun, hruns⟩ := List.forall_mem_cons.1 hruns
    have hnewline : ((place (n + (joined run).width) rest).filter (·.kind.isCounted)).head?.any (·.kind = .newline) := by
      have hmap := List.filter_map (f := Token.lexeme) (l := place (n + (joined run).width) rest) (p := fun l => l.kind.isCounted)
      rw [map_lexeme_place] at hmap
      rw [hmap, List.head?_map, Option.any_map] at hrest
      exact hrest
    rw [place_append, hrun.splitBody hunbroken hnewline]
    exact .cons ⟨n, hs.left, rfl⟩ (ih hruns hs.right)

lemma isWholeStatement_of_forms {groups : List (List (List Lexeme))} (h : List.Forall₂ IsForm groups rs) :
    ∀ run ∈ groups.flatten, IsWholeStatement (significant run) := by
  induction h with
  | nil => simp
  | cons hform _ ih =>
    rw [List.flatten_cons, List.forall_mem_append]
    exact ⟨hform.isWholeStatement, ih⟩

/-- **Every form of registrations is found.**  Where the body of a function is nothing but registrations, each written in one of
the forms and on lines of its own, an extraction answers with exactly these, in order, and leaves nothing. -/
theorem extraction_finds_forms (hs : s = u ++ '{' :: (body ++ '}' :: v)) (hb : f.body = some ⟨u.width, u.width + 1 + body.width + 1⟩)
    (hw : isWhole body) (hwritten : Written (lex body) rs) (hne : rs ≠ []) : extractRegistrations? s d f = some ⟨none, rs⟩ := by
  obtain ⟨groups, hforms, hlines⟩ := hwritten
  have hruns := isWholeStatement_of_forms hforms
  have hwidth : (u ++ ['{']).width = u.width + 1 := by
    rw [Text.width_append]
    rfl
  have hs' : s = (u ++ ['{']) ++ (body ++ '}' :: v) := by rw [hs, List.append_assoc, List.singleton_append]
  have hstands : StandsIn s (u.width + 1) (lex body) := ⟨u ++ ['{'], '}' :: v, by rw [joined_lex]; exact hs', hwidth⟩
  obtain ⟨ms, hsorts, rfl⟩ := sorts_of_forms hforms (hlines.reads hruns hstands)
  have htokens := tokensBetween?_of_text hs' hw (hlines.isBalanced hruns)
  rw [hwidth] at htokens
  rw [extractRegistrations?_of_sorts hb htokens hsorts, remainder, if_neg (by simpa using hne), if_pos rfl]

/-- The body of a function that registers in all four forms. -/
def mixedFormsBody : Text :=
  ("\n\tv.RegisterValidation(\"zip\", validateZip)\n\t_ = a.b.RegisterValidation(\"odd\", c.Odd,)\n" : Text) ++
    "\terr := v.RegisterValidation(\"even\", func(fl F) bool \x7b\n\t\tn := fl.Int(); return n%2 == 0\n\t\x7d)\n" ++
    "\tif err != nil \x7b\n\t\tpanic(err)\n\t\x7d\n\tif e := v.RegisterValidation(\"nil\", isNil); e != nil \x7b\n\t\x7d // late\n"

def evenLiteral : Text := "func(fl F) bool \x7b\n\t\tn := fl.Int(); return n%2 == 0\n\t\x7d"

def mixedFormsRegistrations : List InitRegistration :=
  [⟨"zip", .named "validateZip"⟩, ⟨"odd", .named "c.Odd"⟩, ⟨"even", .literal evenLiteral⟩, ⟨"nil", .named "isNil"⟩]

lemma WritesFunction.named_lex {name : Text} (names : List Text) (htrim : isTight (lex name))
    (hcode : significant (lex name) = chainCode names) (hne : names ≠ []) : WritesFunction (lex name) (.named name) := by
  have h := WritesFunction.named names htrim hcode hne
  rwa [joined_lex] at h

lemma writesFunction_evenLiteral : WritesFunction (lex evenLiteral) (.literal evenLiteral) := by
  have h : isTight (lex evenLiteral) ∧ significant (lex evenLiteral) = ⟨.funcWord, "func"⟩ ::
      (inParens (significant (lex "fl F")) ++ ⟨.ident, "bool"⟩ :: inBraces (significant (lex "n := fl.Int(); return n%2 == 0"))) ∧
      isBalanced [] (significant (lex "fl F")) ∧ isBalanced [] (significant (lex "n := fl.Int(); return n%2 == 0")) := by
    unfold evenLiteral
    repeat rw [String.toList_ofList]
    decide +kernel
  have hwritten := WritesFunction.literal h.1 h.2.1 h.2.2.1 h.2.2.2
  rwa [joined_lex] at hwritten

lemma written_mixedFormsBody : Written (lex mixedFormsBody) mixedFormsRegistrations := by
  have hzip : WritesCall (lex "\n\tv.RegisterValidation(\"zip\", " ++ (lex "validateZip" ++ lex ")")) ⟨"zip", .named "validateZip"⟩ := by
    refine .intro ["v"] (by simp) ?_ (.named_lex ["validateZip"] ?_ ?_ (by simp)) (.inl ?_)
    all_goals
      repeat rw [String.toList_ofList]
      decide +kernel
  have hodd : WritesCall (lex "a.b.RegisterValidation(\"odd\", " ++ (lex "c.Odd" ++ lex ",)")) ⟨"odd", .named "c.Odd"⟩ := by
    refine .intro ["a", "b"] (by simp) ?_ (.named_lex ["c", "Odd"] ?_ ?_ (by simp)) (.inr ?_)
    all_goals
      repeat rw [String.toList_ofList]
      decide +kernel
  have heven : WritesCall (lex "v.RegisterValidation(\"even\", " ++ (lex evenLiteral ++ lex ")")) ⟨"even", .literal evenLiteral⟩ := by
    refine .intro ["v"] (by simp) ?_ writesFunction_evenLiteral (.inl ?_)
    all_goals
      repeat rw [String.toList_ofList]
      decide +kernel
  have hnil : WritesCall (lex "v.RegisterValidation(\"nil\", " ++ (lex "isNil" ++ lex ")")) ⟨"nil", .named "isNil"⟩ := by
    refine .intro ["v"] (by simp) ?_ (.named_lex ["isNil"] ?_ ?_ (by simp)) (.inl ?_)
    all_goals
      repeat rw [String.toList_ofList]
      decide +kernel
  have hblank : significant (lex "\n\t_ = ") = [⟨.ident, "_"⟩, ⟨.assign, "="⟩] := by
    repeat rw [String.toList_ofList]
    decide +kernel
  have hassign : significant (lex "\n\terr := ") = [⟨.ident, "err"⟩, ⟨.operator, ":="⟩] := by
    repeat rw [String.toList_ofList]
    decide +kernel
  have hcheck : significant (lex "\n\tif err != nil \x7b\n\t\tpanic(err)\n\t\x7d") =
      ⟨.ident, "if"⟩ :: checkCode "err" (lex "panic(err)") ∧ isBalanced [] (lex "panic(err)") := by
    repeat rw [String.toList_ofList]
    decide +kernel
  have hheader : significant (lex "\n\tif e := ") = [⟨.ident, "if"⟩, ⟨.ident, "e"⟩, ⟨.operator, ":="⟩] ∧
      significant (lex "; e != nil \x7b\n\t\x7d // late") = ⟨.semi, [';']⟩ :: checkCode "e" [] := by
    repeat rw [String.toList_ofList]
    decide +kernel
  refine ⟨_, .cons (.plain hzip) (.cons (.blank hblank hodd) (.cons (.checked "err" _ (by simp) hassign heven hcheck.1 hcheck.2)
    (.cons (.guarded "e" [] (by simp) hheader.1 hnil hheader.2 rfl) .nil))), ?_⟩
  have hlex : lex mixedFormsBody =
      (lex "\n\tv.RegisterValidation(\"zip\", " ++ (lex "validateZip" ++ lex ")")) ++
        ((lex "\n\t_ = " ++ (lex "a.b.RegisterValidation(\"odd\", " ++ (lex "c.Odd" ++ lex ",)"))) ++
          ((lex "\n\terr := " ++ (lex "v.RegisterValidation(\"even\", " ++ (lex evenLiteral ++ lex ")"))) ++
            (lex "\n\tif err != nil \x7b\n\t\tpanic(err)\n\t\x7d" ++
              ((lex "\n\tif e := " ++ ((lex "v.RegisterValidation(\"nil\", " ++ (lex "isNil" ++ lex ")")) ++
                lex "; e != nil \x7b\n\t\x7d // late")) ++ lex "\n")))) := by
    unfold mixedFormsBody evenLiteral
    repeat rw [String.toList_ofList]
    decide +kernel
  rw [hlex]
  unfold evenLiteral
  refine .cons ?_ ?_ (.cons ?_ ?_ (.cons ?_ ?_ (.cons ?_ ?_ (.cons ?_ ?_ (.nil ?_)))))
  all_goals
    repeat rw [String.toList_ofList]
    decide +kernel

def mixedFormsFile : Text := "package a\n\nfunc init() ".toList ++ '{' :: (mixedFormsBody ++ '}' :: ['\n'])

def mixedFormsFunction : Function := ⟨"init", none, some ⟨23, 303⟩⟩

def mixedFormsDecl : Decl := ⟨.function mixedFormsFunction, ⟨11, 303⟩, 11⟩

/-- All of its registrations are found, and nothing is left. -/
theorem mixedForms_are_found : parse mixedFormsFile = .ok ⟨⟨"a", ⟨0, 9⟩⟩, [], [mixedFormsDecl]⟩ ∧
    extractRegistrations? mixedFormsFile mixedFormsDecl mixedFormsFunction = some ⟨none, mixedFormsRegistrations⟩ := by
  have hparse : parse mixedFormsFile = .ok ⟨⟨"a", ⟨0, 9⟩⟩, [], [mixedFormsDecl]⟩ := by
    apply ok_of_toOption
    unfold mixedFormsFile mixedFormsBody
    repeat rw [String.toList_ofList]
    decide +kernel
  have hbody : mixedFormsFunction.body = some ⟨Text.width "package a\n\nfunc init() ",
      Text.width "package a\n\nfunc init() " + 1 + mixedFormsBody.width + 1⟩ ∧ isWhole mixedFormsBody := by
    unfold mixedFormsBody
    repeat rw [String.toList_ofList]
    decide +kernel
  exact ⟨hparse, extraction_finds_forms rfl hbody.1 hbody.2 written_mixedFormsBody (by simp [mixedFormsRegistrations])⟩

end Body

end RuleWeaver
