import RuleWeaver.Detection.Maps
import RuleWeaver.Document.Node
import RuleWeaver.Proofs.Detection.Functions
import RuleWeaver.Proofs.Source.Comments
import RuleWeaver.Proofs.Source.LineBreaks
import RuleWeaver.Proofs.Source.Literals
import RuleWeaver.Proofs.Source.Names

/-!
# Finding map literals

A map literal that is written is found between its braces (`findMap?_written`), with the entries that were written
(`literalEntries_written`).
-/

namespace RuleWeaver

open Source (Lexeme Kind lex joined isPathChar isWhole isNameChar isNumberChar)
open Detection (isQualified readMapEntry? findAll)

/-- Whether a text can name a function in a map: it is read up to its end. -/
def isFunctionName : Text → Bool
  | [] => false
  | c :: s => (c.isAlpha || c = '_') && s.all isQualified

variable {f s y : Text} {c : Char} {fresh : Bool} {k : Text} {v : EntryValue} {es : List (Text × EntryValue)}

lemma isPathChar_of_isQualified (h : isQualified c) : isPathChar c := by
  unfold isQualified at h
  unfold isPathChar
  rw [Bool.or_eq_true] at h ⊢
  exact h.imp Source.isNameChar_of_isWord id

lemma all_isPathChar_of_isFunctionName (h : isFunctionName f) : f.all isPathChar := by
  rcases f with _ | ⟨c, s⟩
  · cases h
  · rw [isFunctionName, Bool.and_eq_true] at h
    rw [List.all_cons, Bool.and_eq_true]
    constructor
    · have hstart := h.1
      rw [Bool.or_eq_true, decide_eq_true_eq] at hstart
      rcases hstart with hc | hc <;> simp [isPathChar, isNameChar, Source.isNameStart, hc]
    · rw [List.all_eq_true] at h ⊢
      exact fun d hd => isPathChar_of_isQualified (h.2 d hd)

lemma readName?_of_isFunctionName (h : isFunctionName f) (hc : isQualified c = false) :
    Detection.readName? isQualified (f ++ c :: y) = some (f, c :: y) := by
  rcases f with _ | ⟨d, s⟩
  · cases h
  · rw [isFunctionName, Bool.and_eq_true] at h
    have hall : ∀ e ∈ s, isQualified e := List.all_eq_true.1 h.2
    rw [List.cons_append, Detection.readName?, if_pos h.1, Text.takeWhile_append_cons hc, Text.dropWhile_append_cons hc,
      List.takeWhile_eq_self_iff.2 hall, List.dropWhile_eq_nil_iff.2 hall]
    rfl

/-! ### Lexemes of a map literal -/

lemma isFunctionName_of_readName? (h : Detection.readName? isQualified s = some (f, y)) : isFunctionName f := by
  rcases s with _ | ⟨c, s⟩
  · cases h
  · rw [Detection.readName?] at h
    split at h
    · next hc =>
      cases h
      rw [isFunctionName, hc, Bool.true_and]
      exact List.all_eq_true.2 fun d hd => List.mem_takeWhile_imp hd
    · cases h

namespace GrowingMap

/-- The lexemes of a value. -/
def valueLexemes : EntryValue → List Lexeme
  | .name n => lex n
  | .string s => [⟨.string, Text.quote s⟩]

/-- The lexemes of an entry on its line. -/
def entryLexemes (e : Text × EntryValue) : List Lexeme :=
  [⟨.blank, ['\t']⟩, ⟨.string, Text.quote e.1⟩, ⟨.operator, [':']⟩, ⟨.blank, [' ']⟩] ++ valueLexemes e.2 ++
    [⟨.comma, [',']⟩, ⟨.newline, ['\n']⟩]

/-- Whether an entry is found as it is written. -/
def IsEntry (e : Text × EntryValue) : Prop :=
  match e.2 with
  | .name n => isFunctionName n
  | .string s => e.1 ≠ [] ∧ '\"' ∉ s

/-- Whether an entry is split up as it is written: its name, if it has one, has only characters of names. -/
def IsPlain (e : Text × EntryValue) : Prop :=
  match e.2 with
  | .name n => n ≠ [] ∧ n.all isPathChar
  | .string _ => True

lemma IsEntry.isPlain {e : Text × EntryValue} (h : IsEntry e) : IsPlain e := by
  obtain ⟨k, v⟩ := e
  cases v with
  | name n =>
    refine ⟨?_, all_isPathChar_of_isFunctionName h⟩
    rintro rfl
    cases h
  | string s => trivial

lemma arePlain (h : ∀ e ∈ es, IsEntry e) : ∀ e ∈ es, IsPlain e := fun e he => (h e he).isPlain

lemma lex_comma_append : lex (",\n".toList ++ y) = [⟨.comma, [',']⟩, ⟨.newline, ['\n']⟩] ++ lex y := by
  have hcomma : lex (',' :: '\n' :: y) = ⟨.comma, [',']⟩ :: lex ('\n' :: y) := Source.lex_cons (u := []) (by rfl)
  rw [show (",\n".toList : Text) ++ y = ',' :: '\n' :: y from rfl, hcomma, Source.lex_newline]
  rfl

lemma lex_value_append (h : IsPlain (k, v)) :
    lex (v.render ++ (",\n".toList ++ y)) = valueLexemes v ++ ([⟨.comma, [',']⟩, ⟨.newline, ['\n']⟩] ++ lex y) := by
  cases v with
  | name n =>
    have := Source.lex_path_append (y := '\n' :: y) h.2 (d := ',') (by decide) (by decide)
    rw [← lex_comma_append]
    exact this
  | string s => rw [EntryValue.render, Source.lex_quote_append, lex_comma_append, valueLexemes, List.singleton_append]

lemma value_head (h : IsPlain (k, v)) : (v.render ++ y).head?.all (!Source.isBlank ·) := by
  cases v with
  | name n =>
    obtain ⟨hne, hall⟩ := h
    rcases n with _ | ⟨c, n⟩
    · exact absurd rfl hne
    · rw [List.all_cons, Bool.and_eq_true] at hall
      simp [EntryValue.render, Source.not_isBlank_of_isPathChar hall.1]
  | string s => rfl

lemma lex_entry_append (h : IsPlain (k, v)) : lex (renderEntry k v ++ y) = entryLexemes (k, v) ++ lex y := by
  have hcolon : ∀ z : Text, z.head?.all (!Source.isBlank ·) → lex (": ".toList ++ z) =
      [⟨.operator, [':']⟩, ⟨.blank, [' ']⟩] ++ lex z := by
    intro z hz
    have : lex (':' :: ' ' :: z) = ⟨.operator, [':']⟩ :: lex (' ' :: z) := Source.lex_cons (u := []) (by rfl)
    rw [show (": ".toList : Text) ++ z = ':' :: ' ' :: z from rfl, this, Source.lex_blank rfl hz]
    rfl
  rw [renderEntry]
  simp only [List.append_assoc]
  rw [show ("\t".toList : Text) ++ (Text.quote k ++ (": ".toList ++ (v.render ++ (",\n".toList ++ y)))) =
      '\t' :: (Text.quote k ++ (": ".toList ++ (v.render ++ (",\n".toList ++ y)))) from rfl,
    Source.lex_blank rfl (by rfl), Source.lex_quote_append, hcolon _ (value_head h), lex_value_append h]
  simp [entryLexemes]

lemma lex_entries_append (h : ∀ e ∈ es, IsPlain e) :
    lex (es.flatMap (fun (key, value) => renderEntry key value) ++ y) = es.flatMap entryLexemes ++ lex y := by
  induction es with
  | nil => rfl
  | cons e es ih =>
    rw [List.flatMap_cons, List.flatMap_cons, List.append_assoc, List.append_assoc,
      lex_entry_append (h e List.mem_cons_self), ih fun e he => h e (List.mem_cons_of_mem _ he)]

/-- The lexemes of a map literal without the bodies of its values. -/
def mapLexemes (es : List (Text × EntryValue)) : List Lexeme :=
  ⟨.lbrace, ['\x7b']⟩ :: ⟨.newline, ['\n']⟩ :: (es.flatMap entryLexemes ++ [⟨.rbrace, ['\x7d']⟩])

/-- Whether a lexeme neither is a comment or a bracket nor has a fault. -/
def isFlat (l : Lexeme) : Bool := l.isSound && !l.kind.isComment && !l.kind.isOpen && !l.kind.isClose

lemma isFlat_of_isWordlike {l : Lexeme} (h : l.kind.isWordlike) : isFlat l := by
  rw [isFlat, Source.Lexeme.isSound_of_isWordlike h]
  revert h
  cases l.kind <;> simp [Kind.isWordlike, Kind.isComment, Kind.isOpen, Kind.isClose]

lemma isFlat_entryLexemes {e : Text × EntryValue} (h : IsPlain e) : (entryLexemes e).all isFlat := by
  obtain ⟨k, v⟩ := e
  have hvalue : (valueLexemes v).all isFlat := by
    cases v with
    | name n => exact List.all_eq_true.2 fun l hl => isFlat_of_isWordlike (Source.isWordlike_of_mem_lex h.2 hl)
    | string s => rfl
  rw [entryLexemes, List.all_append, List.all_append, hvalue]
  rfl

lemma isFlat_entries (h : ∀ e ∈ es, IsPlain e) : (es.flatMap entryLexemes).all isFlat := by
  rw [List.all_flatMap]
  exact List.all_eq_true.2 fun e he => isFlat_entryLexemes (h e he)

lemma isBalanced_of_flat {flat : List Lexeme} (h : flat.all isFlat) : Source.isBalanced [] flat := by
  refine Source.isBalanced_of_unbracketed fun l hl => ?_
  have := List.all_eq_true.1 h l hl
  simp only [isFlat, Bool.and_eq_true, Bool.not_eq_true'] at this
  exact ⟨this.1.2, this.2⟩

/-! ### The braces -/

/-- What stands between the braces of a map literal with some entries. -/
def bodyText (es : List (Text × EntryValue)) : Text := '\n' :: es.flatMap fun (key, value) => renderEntry key value

lemma renderBody_nil : renderBody [] = [] := by
  have h : Source.lastCodeToken? [] = none := by simp [Source.lastCodeToken?, Source.tokens]
  have h' : Text.trimEnd [] = [] := rfl
  simp only [renderBody, h', h]

lemma render_eq : render ⟨[], es⟩ = '\x7b' :: (bodyText es ++ ['\x7d']) := by
  rw [render, renderBody_nil]
  rfl

lemma lex_render_append (h : ∀ e ∈ es, IsEntry e) : lex (render ⟨[], es⟩ ++ y) = mapLexemes es ++ lex y := by
  have hopen : ∀ z, lex ('\x7b' :: z) = ⟨.lbrace, ['\x7b']⟩ :: lex z := fun z => Source.lex_cons (u := []) (by rfl)
  have hclose : lex ('\x7d' :: y) = ⟨.rbrace, ['\x7d']⟩ :: lex y := Source.lex_cons (u := []) (by rfl)
  rw [render_eq, bodyText]
  simp only [List.cons_append, List.append_assoc, List.nil_append]
  rw [hopen, Source.lex_newline, lex_entries_append (arePlain h), hclose]
  simp [mapLexemes]

lemma lex_bodyText (h : ∀ e ∈ es, IsEntry e) : lex (bodyText es) = ⟨.newline, ['\n']⟩ :: es.flatMap entryLexemes := by
  have := lex_entries_append (y := []) (arePlain h)
  rw [List.append_nil, Source.lex_nil, List.append_nil] at this
  rw [bodyText, Source.lex_newline, this]

lemma closing_of_flat {source : Text} {n o d : Nat} {ls rest : List Lexeme} (h : ls.all isFlat) :
    Source.closing source n d (Source.place o (ls ++ rest)) =
      Source.closing source n d (Source.place (o + (joined ls).width) rest) := by
  induction ls generalizing o with
  | nil => rfl
  | cons l ls ih =>
    rw [List.all_cons, Bool.and_eq_true] at h
    obtain ⟨hl, hls⟩ := h
    simp only [isFlat, Source.Lexeme.isSound, Bool.and_eq_true, decide_eq_true_eq, Bool.not_eq_true'] at hl
    rw [List.cons_append, Source.place_cons, Source.closing]
    simp only [hl, if_false, Bool.false_eq_true]
    rw [ih hls, Source.joined_cons, Text.width_append, Nat.add_assoc]

/-- The bracket that closes a written map literal. -/
lemma closingOffset_render (h : ∀ e ∈ es, IsEntry e) {a : Text} :
    Source.closingOffset (a ++ (render ⟨[], es⟩ ++ y)) a.width = .ok (a.width + 1 + (bodyText es).width) := by
  have hflat : (⟨.newline, ['\n']⟩ :: es.flatMap entryLexemes : List Lexeme).all isFlat := by
    rw [List.all_cons, isFlat_entries (arePlain h)]
    rfl
  have hwidth : (joined (⟨.newline, ['\n']⟩ :: es.flatMap entryLexemes : List Lexeme)).width = (bodyText es).width := by
    rw [← lex_bodyText h, Source.joined_lex]
  rw [Source.closingOffset, Text.dropBytes_width_append, lex_render_append h]
  show Source.closing _ _ 0 (Source.place a.width (⟨.lbrace, ['\x7b']⟩ ::
    (⟨.newline, ['\n']⟩ :: (es.flatMap entryLexemes ++ [⟨.rbrace, ['\x7d']⟩]) ++ lex y))) = _
  rw [Source.place_cons, Source.closing]
  simp only [Kind.isOpen, reduceCtorEq, if_false, if_true]
  rw [List.cons_append, List.append_assoc, ← List.cons_append, closing_of_flat hflat, hwidth]
  simp [Source.closing, Kind.isOpen, Kind.isClose]
  rfl

lemma codeOf_mapLexemes (h : ∀ e ∈ es, IsEntry e) : Source.codeOf (mapLexemes es) = '\x7b' :: (bodyText es ++ ['\x7d']) := by
  have hjoined : joined (mapLexemes es) = render ⟨[], es⟩ := by
    have := congrArg joined (lex_render_append (y := []) h)
    rw [Source.joined_append, Source.joined_lex, Source.joined_lex, List.append_nil, List.append_nil] at this
    exact this.symm
  rw [Source.codeOf_of_no_comment, hjoined, render_eq]
  intro l hl
  rw [mapLexemes, List.mem_cons, List.mem_cons, List.mem_append, List.mem_singleton] at hl
  rcases hl with rfl | rfl | hl | rfl
  · rfl
  · rfl
  · have := List.all_eq_true.1 (isFlat_entries (arePlain h)) l hl
    simp only [isFlat, Bool.and_eq_true, Bool.not_eq_true'] at this
    exact this.1.1.2
  · rfl

/-! ### The entries -/

/-- What is found of an entry. -/
def foundEntries (e : Text × EntryValue) : List FoundEntry :=
  if e.1 = [] then []
  else
    match e.2 with
    | .name n => [⟨e.1.flatMap Text.quoteChar, some n⟩]
    | .string _ => [⟨e.1.flatMap Text.quoteChar, none⟩]

lemma findAll_entry_fresh {b : Bool} : findAll readMapEntry? fresh s = findAll readMapEntry? b s := by
  rcases s with _ | ⟨c, s⟩
  · simp
  · have h : readMapEntry? fresh (c :: s) = readMapEntry? b (c :: s) := rfl
    cases e : readMapEntry? b (c :: s) with
    | none => rw [Detection.findAll_of_none (h.trans e), Detection.findAll_of_none e]
    | some p =>
      obtain ⟨x, rest⟩ := p
      by_cases hle : rest.length ≤ s.length
      · rw [Detection.findAll_of_some (h.trans e) hle, Detection.findAll_of_some e hle]
      · rw [findAll, findAll, h, e]

lemma mapEntry_of_ne (hc : c ≠ '\"') : readMapEntry? fresh (c :: s) = none := by
  unfold readMapEntry?
  simp [Text.strip?, Ne.symm hc]

/-- Nothing is found in a text without quotes. -/
lemma findAll_entry_of_no_quote (h : '\"' ∉ s) : findAll readMapEntry? fresh (s ++ y) = findAll readMapEntry? true y := by
  induction s generalizing fresh with
  | nil => exact findAll_entry_fresh
  | cons c s ih =>
    rw [List.mem_cons, not_or] at h
    rw [List.cons_append, Detection.findAll_of_none (mapEntry_of_ne (Ne.symm h.1)), ih h.2]

lemma readShape?_colon {z : Text} (hz : Detection.skipGap z = z) :
    Detection.readShape? [.gap, .text ":", .gap] (':' :: ' ' :: z) = some z := by
  have hcolon : Detection.skipGap (':' :: ' ' :: z) = ':' :: ' ' :: z := rfl
  have hblank : Detection.skipGap (' ' :: z) = Detection.skipGap z := rfl
  have hlead : Text.strip? ":" (':' :: ' ' :: z) = some (' ' :: z) := rfl
  rw [Detection.readShape?, hcolon, Detection.readShape?, hlead, Option.bind_some, Detection.readShape?, hblank, hz,
    Detection.readShape?]

/-- An entry is read from its key on. -/
lemma mapEntry_key {t z : Text} (h : Source.quoted '\"' (t ++ '\"' :: (": ".toList ++ z)) = (true, t.length + 1))
    (ht : t ≠ []) (hz : Detection.skipGap z = z) :
    readMapEntry? fresh ('\"' :: (t ++ '\"' :: (": ".toList ++ z))) =
      match Detection.readName? isQualified z with
      | some (name, rest) => some (⟨t, some name⟩, rest)
      | none => some (⟨t, none⟩, z) := by
  have hlead : Text.strip? "\"" ('\"' :: (t ++ '\"' :: (": ".toList ++ z))) = some (t ++ '\"' :: (": ".toList ++ z)) := rfl
  have hlen : t.length + 1 ≠ 1 := by
    have := List.length_pos_iff.2 ht
    omega
  have htake : (t ++ '\"' :: (": ".toList ++ z)).take t.length = t := List.take_left' rfl
  have hdrop : (t ++ '\"' :: (": ".toList ++ z)).drop (t.length + 1) = ':' :: ' ' :: z := by
    rw [← List.drop_drop, List.drop_left' rfl]
    rfl
  unfold readMapEntry?
  simp only [hlead, h, hlen, hdrop, readShape?_colon hz, Option.bind_eq_bind, Option.bind_some,
    Bool.not_true, Bool.false_or, decide_false, Bool.false_eq_true, if_false, Nat.add_sub_cancel, htake]
  cases Detection.readName? isQualified z with
  | none => rfl
  | some p => rfl

lemma mapEntry_open (h : (Source.quoted '\"' s).1 = false) : readMapEntry? fresh ('\"' :: s) = none := by
  have hlead : Text.strip? "\"" ('\"' :: s) = some s := rfl
  unfold readMapEntry?
  simp only [hlead, h, Option.bind_eq_bind, Option.bind_some, Bool.not_false, Bool.true_or, if_true]
  rfl

/-- A literal without a colon behind it is no key. -/
lemma mapEntry_value {t : Text} (h : Source.quoted '\"' (t ++ '\"' :: ',' :: s) = (true, t.length + 1)) :
    readMapEntry? fresh ('\"' :: (t ++ '\"' :: ',' :: s)) = none := by
  have hlead : Text.strip? "\"" ('\"' :: (t ++ '\"' :: ',' :: s)) = some (t ++ '\"' :: ',' :: s) := rfl
  have hdrop : (t ++ '\"' :: ',' :: s).drop (t.length + 1) = ',' :: s := by
    rw [← List.drop_drop, List.drop_left' rfl]
    rfl
  have hshape : Detection.readShape? [.gap, .text ":", .gap] (',' :: s) = none := rfl
  unfold readMapEntry?
  simp only [hlead, h, hdrop, hshape, Option.bind_eq_bind, Option.bind_some, Option.bind_none]
  split <;> rfl

lemma quoted_of_line {u : Text} (hq : '\"' ∉ u) (hb : '\\' ∉ u) : (Source.quoted '\"' (u ++ '\n' :: y)).1 = false := by
  rw [Source.quoted_append_newline]
  induction u with
  | nil => rfl
  | cons c u ih =>
    rw [List.mem_cons, not_or] at hq hb
    rw [Source.quoted_cons (Ne.symm hb.1), if_neg (Ne.symm hq.1)]
    split
    · rfl
    · exact ih hq.2 hb.2

lemma not_mem_of_isPathChar (hs : s.all isPathChar) (hc : isPathChar c = false) : c ∉ s := by
  intro h
  rw [List.all_eq_true.1 hs c h] at hc
  cases hc

lemma not_mem_quoted (h : '\"' ∉ s) : '\"' ∉ s.flatMap Text.quoteChar := by
  rw [List.mem_flatMap]
  rintro ⟨c, hc, hmem⟩
  have hne : c ≠ '\"' := by
    rintro rfl
    exact h hc
  unfold Text.quoteChar at hmem
  split at hmem
  all_goals simp_all [eq_comm]

/-- What stands behind the colon of an entry holds no key. -/
lemma findAll_value (h : IsEntry (k, v)) :
    findAll readMapEntry? fresh (v.render ++ (",\n".toList ++ y)) = findAll readMapEntry? true y := by
  cases v with
  | name n =>
    have hn : isFunctionName n := h
    have hq : '\"' ∉ n ++ ",\n".toList := by
      rw [List.mem_append, not_or]
      exact ⟨not_mem_of_isPathChar (all_isPathChar_of_isFunctionName hn) (by decide), by decide⟩
    rw [EntryValue.render, ← List.append_assoc, findAll_entry_of_no_quote hq]
  | string s =>
    have hq : '\"' ∉ s.flatMap Text.quoteChar := not_mem_quoted h.2
    have hquoted := Source.quoted_flatMap_quoteChar (s := s) (y := ',' :: '\n' :: y)
    generalize ht : s.flatMap Text.quoteChar = t at hq hquoted
    have hrender : (EntryValue.string s).render ++ (",\n".toList ++ y) = '\"' :: (t ++ '\"' :: ',' :: '\n' :: y) := by
      rw [EntryValue.render, Text.quote, ht, List.cons_append, List.append_assoc]
      rfl
    have hend : (Source.quoted '\"' (',' :: '\n' :: y)).1 = false := quoted_of_line (u := [',']) (by decide) (by decide)
    rw [hrender, Detection.findAll_of_none (mapEntry_value hquoted), findAll_entry_of_no_quote hq,
      Detection.findAll_of_none (mapEntry_open hend), Detection.findAll_of_none (mapEntry_of_ne (by decide)),
      Detection.findAll_of_none (mapEntry_of_ne (by decide))]
    exact findAll_entry_fresh

lemma skipGap_value (h : IsEntry (k, v)) : Detection.skipGap (v.render ++ y) = v.render ++ y := by
  cases v with
  | name n =>
    have hn : isFunctionName n := h
    rcases n with _ | ⟨c, n⟩
    · cases hn
    · rw [isFunctionName, Bool.and_eq_true] at hn
      simp [EntryValue.render, Detection.skipGap, Detection.not_isSpace_of_start hn.1]
  | string s => rfl

/-- **An entry is found as it is written.** -/
lemma findAll_entry (h : IsEntry (k, v)) :
    findAll readMapEntry? fresh (renderEntry k v ++ y) = foundEntries (k, v) ++ findAll readMapEntry? true y := by
  have hrender : renderEntry k v ++ y = '\t' :: '\"' :: (k.flatMap Text.quoteChar ++ '\"' :: (": ".toList ++
      (v.render ++ (",\n".toList ++ y)))) := by
    rw [renderEntry, Text.quote]
    simp only [List.append_assoc, List.cons_append]
    rfl
  rw [hrender, Detection.findAll_of_none (mapEntry_of_ne (by decide))]
  by_cases hk : k = []
  · subst hk
    have hname : ∃ n, v = .name n ∧ isFunctionName n := by
      cases v with
      | name n => exact ⟨n, rfl, h⟩
      | string s => exact absurd rfl h.1
    obtain ⟨n, rfl, hn⟩ := hname
    have hempty : readMapEntry? (decide ('\t' = '\n')) ('\"' :: '\"' :: (": ".toList ++
        ((EntryValue.name n).render ++ (",\n".toList ++ y)))) = none := rfl
    have hopen : (Source.quoted '\"' (": ".toList ++ ((EntryValue.name n).render ++ (",\n".toList ++ y)))).1 = false := by
      have hall := all_isPathChar_of_isFunctionName hn
      have hq : '\"' ∉ ": ".toList ++ (n ++ ",".toList) := by
        simp [not_mem_of_isPathChar hall (show isPathChar '\"' = false by decide)]
      have hb : '\\' ∉ ": ".toList ++ (n ++ ",".toList) := by
        simp [not_mem_of_isPathChar hall (show isPathChar '\\' = false by decide)]
      have := quoted_of_line (y := y) hq hb
      rwa [List.append_assoc, List.append_assoc] at this
    rw [List.flatMap_nil, List.nil_append, Detection.findAll_of_none hempty,
      Detection.findAll_of_none (mapEntry_open hopen), findAll_entry_of_no_quote (by decide), findAll_value h]
    rfl
  · have ht : k.flatMap Text.quoteChar ≠ [] := by
      rcases k with _ | ⟨c, k⟩
      · exact absurd rfl hk
      · have : Text.quoteChar c ≠ [] := by
          unfold Text.quoteChar
          split <;> simp
        simp [this]
    have hkey : readMapEntry? (decide ('\t' = '\n')) _ = _ :=
      mapEntry_key Source.quoted_flatMap_quoteChar ht (skipGap_value (y := ",\n".toList ++ y) h)
    have hle : ∀ z : Text, z.length ≤ (v.render ++ (",\n".toList ++ y)).length →
        z.length ≤ (k.flatMap Text.quoteChar ++ '\"' :: (": ".toList ++ (v.render ++ (",\n".toList ++ y)))).length := by
      intro z hz
      rw [List.length_append, List.length_cons, List.length_append]
      omega
    cases v with
    | name n =>
      have hn : isFunctionName n := h
      have hread : Detection.readName? isQualified ((EntryValue.name n).render ++ (",\n".toList ++ y)) =
          some (n, ",\n".toList ++ y) := readName?_of_isFunctionName hn (by decide)
      rw [hread] at hkey
      rw [Detection.findAll_of_some hkey (hle _ (by simp only [List.length_append]; omega)), foundEntries, if_neg hk,
        findAll_entry_of_no_quote (by decide)]
      rfl
    | string m =>
      have hread : Detection.readName? isQualified ((EntryValue.string m).render ++ (",\n".toList ++ y)) = none := rfl
      rw [hread] at hkey
      rw [Detection.findAll_of_some hkey (hle _ (Nat.le_refl _)), foundEntries, if_neg hk, findAll_value h]
      rfl

/-- **The entries of a map literal** are found as they are written. -/
theorem literalEntries_bodyText (h : ∀ e ∈ es, IsEntry e) :
    Detection.literalEntries (bodyText es) = es.flatMap foundEntries := by
  have hcode : Source.commentsBlanked (bodyText es) = bodyText es := by
    refine Source.commentsBlanked_of_no_comment fun l hl => ?_
    rw [lex_bodyText h] at hl
    rcases List.mem_cons.1 hl with rfl | hl
    · rfl
    · have := List.all_eq_true.1 (isFlat_entries (arePlain h)) l hl
      simp only [isFlat, Bool.and_eq_true, Bool.not_eq_true'] at this
      exact this.1.1.2
  rw [Detection.literalEntries, hcode, bodyText, Detection.findAll_of_none (mapEntry_of_ne (by decide)),
    findAll_entry_fresh (b := true)]
  suffices key : findAll readMapEntry? true (es.flatMap (fun (key, value) => renderEntry key value) ++ []) =
      es.flatMap foundEntries by rwa [List.append_nil] at key
  clear hcode
  induction es with
  | nil => simp
  | cons e es ih =>
    obtain ⟨k, v⟩ := e
    rw [List.flatMap_cons, List.flatMap_cons, List.append_assoc, findAll_entry (h _ List.mem_cons_self),
      ih fun e he => h e (List.mem_cons_of_mem _ he)]

/-! ### The literal in its file -/

variable {shape : List Detection.Piece} {a u head : Text} {ls : List Lexeme}

/-- **A written map literal is found**, where nothing in front of it looks like its beginning. -/
theorem findMap?_written (h : ∀ e ∈ es, IsEntry e) (hlex : lex (a ++ (render ⟨[], es⟩ ++ y)) = ls ++ lex (render ⟨[], es⟩ ++ y))
    (hcode : Source.codeOf ls = u ++ head) (hu : ∀ z, Detection.FitsNowhere shape u (head ++ z))
    (hhead : ∀ z, Detection.readShape? shape (head ++ '\x7b' :: z) = some z) :
    Detection.findMap? shape (a ++ (render ⟨[], es⟩ ++ y)) =
      some ⟨a.width, a.width + 1 + (bodyText es).width⟩ := by
  obtain ⟨z, hz⟩ : ∃ z, Source.codeOf (lex (render ⟨[], es⟩ ++ y)) = '\x7b' :: z := by
    rw [lex_render_append h]
    exact ⟨_, rfl⟩
  have ha : joined ls = a := by
    have := congrArg joined hlex
    rw [Source.joined_append, Source.joined_lex, Source.joined_lex] at this
    exact (List.append_cancel_right this).symm
  have hwidth : u.width + head.width = a.width := by
    rw [← Text.width_append, ← hcode, Source.width_codeOf, ha]
  have hblanked : Source.commentsBlanked (a ++ (render ⟨[], es⟩ ++ y)) = u ++ (head ++ '\x7b' :: z) := by
    rw [Source.commentsBlanked_eq, hlex, Source.codeOf_append, hcode, hz, List.append_assoc]
  obtain ⟨c, s, hcons⟩ : ∃ c s, head ++ '\x7b' :: z = c :: s := List.exists_cons_of_ne_nil (by simp)
  have hbrace : ('\x7b' : Char).utf8Size = 1 := rfl
  have hend : Detection.endOfShape? shape 0 (u ++ (head ++ '\x7b' :: z)) = some (a.width + 1) := by
    rw [Detection.endOfShape?_append (hu _), hcons, Detection.endOfShape?, ← hcons, hhead]
    simp only [Text.width_append, Text.width_cons, hbrace, Option.some.injEq]
    omega
  rw [Detection.findMap?, hblanked, hend]
  simp only [Option.bind_eq_bind, Option.bind_some, Nat.add_sub_cancel, closingOffset_render h]
  rfl

/-- The text between the braces of a written map literal. -/
lemma body_written : MapBraces.body ⟨a.width, a.width + 1 + (bodyText es).width⟩ (a ++ (render ⟨[], es⟩ ++ y)) = bodyText es := by
  have hsplit : a ++ (render ⟨[], es⟩ ++ y) = (a ++ ['\x7b']) ++ (bodyText es ++ ('\x7d' :: y)) := by
    rw [render_eq]
    simp only [List.append_assoc, List.cons_append, List.nil_append]
  have hwidth : (a ++ ['\x7b']).width = a.width + 1 := Text.width_append _ _
  rw [MapBraces.body, hsplit, ← hwidth, Text.slice_width_append]

end GrowingMap

end RuleWeaver
