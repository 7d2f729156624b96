import RuleWeaver.Proofs.Source.Sections

/-!
# How written declarations are read

The declarations that are written have few forms: functions and methods with one result, and variables with a call or a map
literal.  Each is read as what it declares, whatever stands in its groups.
-/

namespace RuleWeaver.Source

variable {b : Nat} {rest : List Token}

/-- Lexemes as tokens of which nothing but the code matters. -/
def unplaced (ls : List Lexeme) : List Token := ls.map fun l => ⟨l.kind, l.text, 0⟩

lemma map_lexeme_unplaced {ls : List Lexeme} : (unplaced ls).map Token.lexeme = ls := by
  rw [unplaced, List.map_map]
  exact List.map_id ls

/-! ### Functions -/

section Functions

variable {result o close o' close' : Token}

/-- A function with one result, behind its receiver if it has one. -/
lemma function_of_receiver {c : Cursor} {receiver : Option Receiver} (fname : Token) (params inner : List Token)
    (hreceiver : c.receiver? = .ok (receiver, ⟨b, fname :: o :: (params ++ close :: (result :: o' :: (inner ++ close' :: rest)))⟩))
    (hname : fname.kind = .ident) (ho : o.kind = .lparen)
    (hparams : cutGroup? 0 (params ++ close :: (result :: o' :: (inner ++ close' :: rest))) =
      some (params, close, result :: o' :: (inner ++ close' :: rest)))
    (hresult : result.kind = .ident) (ho' : o'.kind = .lbrace)
    (hinner : cutGroup? 0 (inner ++ close' :: rest) = some (inner, close', rest)) :
    c.function = .ok (⟨fname.text, receiver, some ⟨o'.start, close'.stop⟩⟩, ⟨close'.stop, rest⟩) := by
  have hbody : (Cursor.mk close.stop (result :: o' :: (inner ++ close' :: rest))).functionBody =
      .ok (some ⟨o'.start, close'.stop⟩, ⟨close'.stop, rest⟩) := by
    have hk : (Cursor.mk close.stop (result :: o' :: (inner ++ close' :: rest))).kind? = some .ident := by
      simp [Cursor.kind?, hresult]
    have hliteral : ¬ (Cursor.mk close.stop (result :: o' :: (inner ++ close' :: rest))).atTypeLiteral := by
      simp [Cursor.atTypeLiteral, hk]
    rw [functionBody_advance hk (by decide) hliteral rfl rfl]
    refine functionBody_brace (g := ⟨inner, o'.start, close'.stop⟩) (by simp [Cursor.kind?, Cursor.advance, ho']) ?_
    simp only [Cursor.group, Cursor.advance, hinner]
  simp [Cursor.function, hreceiver, bind, Except.bind, Cursor.expect, hname, Cursor.groupIf, Cursor.kind?, ho, Cursor.parameters,
    Cursor.group, hparams, hbody, pure, Except.pure]

/-- A function without receiver, with one result. -/
lemma declKind_of_function (word fname : Token) (params inner : List Token) (hword : word.kind = .funcWord)
    (hname : fname.kind = .ident) (ho : o.kind = .lparen)
    (hparams : cutGroup? 0 (params ++ close :: (result :: o' :: (inner ++ close' :: rest))) =
      some (params, close, result :: o' :: (inner ++ close' :: rest)))
    (hresult : result.kind = .ident) (ho' : o'.kind = .lbrace)
    (hinner : cutGroup? 0 (inner ++ close' :: rest) = some (inner, close', rest)) :
    (Cursor.mk b (word :: fname :: o :: (params ++ close :: (result :: o' :: (inner ++ close' :: rest))))).declKind =
      .ok (.function ⟨fname.text, none, some ⟨o'.start, close'.stop⟩⟩, ⟨close'.stop, rest⟩) := by
  have hreceiver : ∀ d : Cursor, d.kind? = some .ident → d.receiver? = .ok (none, d) := by
    intro d hd
    simp [Cursor.receiver?, hd]
  have hfunction := function_of_receiver (b := word.stop) fname params inner
    (hreceiver _ (by simp [Cursor.kind?, hname])) hname ho hparams hresult ho' hinner
  simp [Cursor.declKind, Cursor.kind?, Cursor.advance, hword, hfunction, Except.map]

/-- A method on a pointer, with one result. -/
lemma declKind_of_method (word ro self star type rclose fname : Token) (params inner : List Token) (hword : word.kind = .funcWord)
    (hro : ro.kind = .lparen) (hself : self.kind = .ident) (hstar : star.kind = .star) (htype : type.kind = .ident)
    (hrclose : rclose.kind = .rparen) (hname : fname.kind = .ident) (ho : o.kind = .lparen)
    (hparams : cutGroup? 0 (params ++ close :: (result :: o' :: (inner ++ close' :: rest))) =
      some (params, close, result :: o' :: (inner ++ close' :: rest)))
    (hresult : result.kind = .ident) (ho' : o'.kind = .lbrace)
    (hinner : cutGroup? 0 (inner ++ close' :: rest) = some (inner, close', rest)) :
    (Cursor.mk b (word :: ro :: self :: star :: type :: rclose :: fname :: o ::
      (params ++ close :: (result :: o' :: (inner ++ close' :: rest))))).declKind =
      .ok (.function ⟨fname.text, some ⟨type.text, true⟩, some ⟨o'.start, close'.stop⟩⟩, ⟨close'.stop, rest⟩) := by
  have hreceiver : ∀ (n : Nat) (ts : List Token), (Cursor.mk n (ro :: self :: star :: type :: rclose :: ts)).receiver? =
      .ok (some ⟨type.text, true⟩, ⟨rclose.stop, ts⟩) := by
    intro n ts
    simp [Cursor.receiver?, Cursor.kind?, hro, Cursor.group, cutGroup?, hself, hstar, htype, hrclose, Kind.isOpen, Kind.isClose,
      Cursor.receiver, Except.map]
  have hfunction := function_of_receiver fname params inner (hreceiver word.stop _) hname ho hparams hresult ho' hinner
  simp [Cursor.declKind, Cursor.kind?, Cursor.advance, hword, hfunction, Except.map]

end Functions

/-! ### Variables -/

section Variables

variable {vname : Token}

lemma declaredNames_of_one (hname : vname.kind = .ident) (h : (Cursor.mk vname.stop rest).kind? ≠ some .comma) :
    (Cursor.mk b (vname :: rest)).declaredNames = .ok ([vname.text], ⟨vname.stop, rest⟩) := by
  have hexpect : (Cursor.mk b (vname :: rest)).expect .ident .valueName = .ok (vname, ⟨vname.stop, rest⟩) := by
    simp [Cursor.expect, hname]
  rw [Cursor.declaredNames]
  split <;> rename_i e <;> rw [hexpect] at e <;> cases e
  rw [if_neg h]

/-- A variable with a value. -/
lemma declKind_of_value {c : Cursor} (word assign : Token) (value : List Token) (hword : word.kind = .varWord)
    (hname : vname.kind = .ident) (hassign : assign.kind = .assign)
    (hvalue : (Cursor.mk assign.stop value).skipStatement = .ok c) :
    (Cursor.mk b (word :: vname :: assign :: value)).declKind = .ok (.vars [vname.text], c) := by
  have hskip : ∀ n, (Cursor.mk n (assign :: value)).skipStatement = .ok c := by
    intro n
    rw [skipStatement_advance (k := .assign) (by simp [Cursor.kind?, hassign]) rfl, Cursor.advance, hvalue]
  have hnames : ∀ n, (Cursor.mk n (vname :: assign :: value)).declaredNames = .ok ([vname.text], ⟨vname.stop, assign :: value⟩) :=
    fun n => declaredNames_of_one hname (by simp [Cursor.kind?, hassign])
  simp [Cursor.declKind, Cursor.kind?, Cursor.advance, hword, oneOrGroup, hname, valueItem, Cursor.valueSpec, bind,
    Except.bind, hnames, hskip, Except.map, pure, Except.pure]

/-- A call without arguments is passed. -/
lemma skipStatement_of_call {o close semi : Token} (f : List Token) (hf : ∀ t ∈ f, t.kind.isPassed) (ho : o.kind = .lparen)
    (hclose : close.kind = .rparen) (hsemi : semi.kind = .semi) :
    (Cursor.mk b (f ++ o :: close :: semi :: rest)).skipStatement = .ok ⟨close.stop, semi :: rest⟩ := by
  induction f generalizing b with
  | nil =>
    have hgroup : (Cursor.mk b (o :: close :: semi :: rest)).group = .ok (⟨[], o.start, close.stop⟩, ⟨close.stop, semi :: rest⟩) := by
      simp [Cursor.group, cutGroup?, hclose, Kind.isOpen, Kind.isClose]
    rw [List.nil_append, skipStatement_group (k := .lparen) (by simp [Cursor.kind?, ho]) rfl hgroup,
      skipStatement_stop (.inr (.inl (by simp [Cursor.kind?, hsemi])))]
  | cons t f ih =>
    rw [List.cons_append, skipStatement_advance (k := t.kind) (by simp [Cursor.kind?]) (hf t List.mem_cons_self), Cursor.advance]
    exact ih fun u hu => hf u (List.mem_cons_of_mem _ hu)

end Variables

end RuleWeaver.Source
