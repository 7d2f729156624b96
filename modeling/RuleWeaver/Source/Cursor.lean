import RuleWeaver.Source.Brackets

/-!
# Cursors

How declarations are read: a reader takes a cursor, which holds the tokens ahead, and answers with what it read and a
cursor further on.  The lemmas named `shorter` and `size_le` say that it is further on, which is why reading ends.
-/

namespace RuleWeaver.Source

/-- A fault at an offset; without one it is at the end of the text. -/
structure Failure where
  offset : Option Nat
  fault : Fault

/-- Where a reader stands: the offset behind the last token read, and the tokens ahead. -/
structure Cursor where
  behind : Nat
  ahead : List Token

namespace Cursor

def size (c : Cursor) : Nat := c.ahead.length

/-- The class of the next token. -/
def kind? (c : Cursor) : Option Kind := c.ahead.head?.map (·.kind)

/-- The class of the token `n` places further on. -/
def kindAt? (c : Cursor) (n : Nat) : Option Kind := c.ahead[n]?.map (·.kind)

/-- Past the next token. -/
def advance (c : Cursor) : Cursor :=
  match c.ahead with
  | [] => c
  | t :: ts => ⟨t.stop, ts⟩

/-- The failure to find something here. -/
def unmet {α : Type} (c : Cursor) (goal : Goal) : Except Failure α :=
  match c.ahead with
  | [] => .error ⟨none, .unmet goal .endOfFile⟩
  | t :: _ => .error ⟨some t.start, .unmet goal (if t.text = [] then .newline else .text t.text)⟩

/-- Reads a token of a class. -/
def expect (c : Cursor) (kind : Kind) (goal : Goal) : Except Failure (Token × Cursor) :=
  match c.ahead with
  | [] => c.unmet goal
  | t :: ts => if t.kind = kind then .ok (t, ⟨t.stop, ts⟩) else c.unmet goal

/-- Past the statement ends. -/
def pastSemis (c : Cursor) : Cursor := { c with ahead := c.ahead.dropWhile (·.kind = .semi) }

/-- Past the end of a declaration, which the end of the text is too. -/
def endDeclaration (c : Cursor) : Except Failure Cursor :=
  match c.ahead with
  | [] => .ok c
  | t :: ts => if t.kind = .semi then .ok ⟨t.stop, ts⟩ else c.unmet .declarationEnd

theorem pastSemis_size_le (c : Cursor) : c.pastSemis.size ≤ c.size :=
  (List.dropWhile_sublist _).length_le

theorem advance_size_lt {c : Cursor} {k : Kind} (h : c.kind? = some k) : c.advance.size < c.size := by
  rcases c with ⟨b, _ | ⟨t, ts⟩⟩
  · simp [kind?] at h
  · simp [advance, size]

theorem advance_size_le (c : Cursor) : c.advance.size ≤ c.size := by
  rcases c with ⟨b, _ | ⟨t, ts⟩⟩ <;> simp [advance, size]

theorem unmet_ne_ok {α : Type} {c : Cursor} {goal : Goal} {a : α} : c.unmet goal ≠ .ok a := by
  unfold unmet
  split <;> simp

theorem expect_shorter {c c' : Cursor} {kind : Kind} {goal : Goal} {t : Token}
    (h : c.expect kind goal = .ok (t, c')) : c'.size < c.size := by
  unfold expect at h
  split at h
  · exact absurd h unmet_ne_ok
  · split at h
    · cases h
      simp_all [size]
    · exact absurd h unmet_ne_ok

theorem endDeclaration_size_le {c c' : Cursor} (h : c.endDeclaration = .ok c') : c'.size ≤ c.size := by
  unfold endDeclaration at h
  split at h
  · cases h
    exact Nat.le_refl _
  · split at h
    · cases h
      simp_all [size]
    · exact absurd h unmet_ne_ok

end Cursor

/-! ### Groups -/

/-- Cuts behind the bracket that closes the group around the tokens: those inside, the bracket, those behind it.
`depth` counts the groups opened since. -/
def cutGroup? : Nat → List Token → Option (List Token × Token × List Token)
  | _, [] => none
  | depth, t :: ts =>
    let deeper (d : Nat) := (cutGroup? d ts).map fun (inner, close, rest) => (t :: inner, close, rest)
    if t.kind.isOpen then deeper (depth + 1)
    else if t.kind.isClose then
      match depth with
      | 0 => some ([], t, ts)
      | d + 1 => deeper d
    else deeper depth

theorem cutGroup?_shorter {d : Nat} {ts inner rest : List Token} {close : Token}
    (h : cutGroup? d ts = some (inner, close, rest)) : rest.length < ts.length := by
  induction ts generalizing d inner with
  | nil => simp [cutGroup?] at h
  | cons t ts ih =>
    simp only [cutGroup?] at h
    have step : ∀ d', (cutGroup? d' ts).map (fun (i, c, r) => (t :: i, c, r)) = some (inner, close, rest) →
        rest.length < (t :: ts).length := by
      intro d' h'
      obtain ⟨⟨i, c, r⟩, h'', e⟩ := Option.map_eq_some_iff.1 h'
      cases e
      exact Nat.lt_succ_of_lt (ih h'')
    split at h
    · exact step _ h
    · split at h
      · split at h
        · cases h
          simp
        · exact step _ h
      · exact step _ h

/-- A bracketed group: the tokens inside and the span with its brackets. -/
structure Group where
  inner : List Token
  span : Span

/-- Reads the group the next token opens. -/
def Cursor.group (c : Cursor) : Except Failure (Group × Cursor) :=
  match c.ahead with
  | [] => .error ⟨none, .groupNotClosed⟩
  | t :: ts =>
    match cutGroup? 0 ts with
    | some (inner, close, rest) => .ok (⟨inner, t.start, close.stop⟩, ⟨close.stop, rest⟩)
    | none => .error ⟨some t.start, .groupNotClosed⟩

theorem Cursor.group_shorter {c c' : Cursor} {g : Group} (h : c.group = .ok (g, c')) : c'.size < c.size := by
  unfold group at h
  split at h
  · cases h
  · next t ts e =>
    split at h
    · next inner close rest e' =>
      cases h
      have := cutGroup?_shorter e'
      simp only [size, e, List.length_cons]
      omega
    · cases h

/-- A reader of one item, each a step ahead. -/
structure ItemReader (α : Type) where
  read : Cursor → Except Failure (α × Cursor)
  shorter : ∀ {c a c'}, read c = .ok (a, c') → c'.size < c.size

/-- Reads items up to and with a closing parenthesis. -/
def ItemReader.untilParen {α : Type} (item : ItemReader α) (goal : Goal) (c : Cursor) :
    Except Failure (List α × Cursor) :=
  match c.pastSemis.kind? with
  | none => c.pastSemis.unmet goal
  | some .rparen => .ok ([], c.pastSemis.advance)
  | some _ =>
    match h : item.read c.pastSemis with
    | .error e => .error e
    | .ok (a, c') =>
      have : c'.size < c.size := Nat.lt_of_lt_of_le (item.shorter h) c.pastSemis_size_le
      (item.untilParen goal c').map fun (as, c'') => (a :: as, c'')
termination_by c.size

theorem ItemReader.untilParen_size_le {α : Type} (item : ItemReader α) (goal : Goal) {c c' : Cursor} {as : List α}
    (h : item.untilParen goal c = .ok (as, c')) : c'.size ≤ c.size := by
  fun_induction item.untilParen goal c generalizing as with
  | case1 c => exact absurd h Cursor.unmet_ne_ok
  | case2 c =>
    cases h
    exact Nat.le_trans (Cursor.advance_size_le _) c.pastSemis_size_le
  | case3 => cases h
  | case4 c k _ _ a c₁ e hlt ih =>
    cases e' : item.untilParen goal c₁ with
    | error => simp [e', Except.map] at h
    | ok r =>
      simp only [e', Except.map, Except.ok.injEq] at h
      cases h
      have := ih e'
      omega

/-- Reads either a parenthesised group of items or a single item; the answer tells which. -/
def oneOrGroup {α : Type} (one many : ItemReader α) (goal : Goal) (c : Cursor) :
    Except Failure ((List α × Bool) × Cursor) :=
  if c.kind? = some .lparen then (many.untilParen goal c.advance).map fun (as, c') => ((as, true), c')
  else (one.read c).map fun (a, c') => (([a], false), c')

theorem oneOrGroup_size_le {α : Type} {one many : ItemReader α} {goal : Goal} {c c' : Cursor}
    {r : List α × Bool} (h : oneOrGroup one many goal c = .ok (r, c')) : c'.size ≤ c.size := by
  unfold oneOrGroup at h
  split at h
  · cases e : many.untilParen goal c.advance with
    | error => simp [e, Except.map] at h
    | ok p =>
      simp only [e, Except.map, Except.ok.injEq] at h
      cases h
      exact Nat.le_trans (many.untilParen_size_le goal e) (Cursor.advance_size_le _)
  · cases e : one.read c with
    | error => simp [e, Except.map] at h
    | ok p =>
      simp only [e, Except.map, Except.ok.injEq] at h
      cases h
      exact Nat.le_of_lt (one.shorter e)

end RuleWeaver.Source
