import RuleWeaver.Detection.Functions
import RuleWeaver.Proofs.Detection.Scanning
import RuleWeaver.Proofs.Source.Comments

/-!
# Finding functions

Functions are found at the beginnings of lines (`mem_functions_iff`), and no reading of one goes on past a text that begins
with another one.
-/

namespace RuleWeaver.Detection

open Unicode (isSpace isWord)

variable {fresh : Bool} {a b s t rest name : Text} {c : Char}

/-- The characters that lines of a text begin with. -/
def lineHeads (fresh : Bool) : Text → List Char
  | [] => []
  | c :: s => if fresh then c :: lineHeads (c = '\n') s else lineHeads (c = '\n') s

@[simp] lemma lineHeads_append : lineHeads fresh (a ++ b) = lineHeads fresh a ++ lineHeads (freshBehind fresh a) b := by
  induction a generalizing fresh with
  | nil => rfl
  | cons c a ih =>
    simp only [List.cons_append, lineHeads, freshBehind_cons, ih]
    split <;> simp

lemma lineHeads_subset : lineHeads fresh a ⊆ a := by
  induction a generalizing fresh with
  | nil => exact List.nil_subset _
  | cons c a ih =>
    simp only [lineHeads]
    split
    · exact List.cons_subset_cons c ih
    · exact fun x hx => List.mem_cons_of_mem _ (ih hx)

/-- A text on one line begins at most one line. -/
lemma lineHeads_of_no_break (h : '\n' ∉ a) : lineHeads false a = [] := by
  induction a with
  | nil => rfl
  | cons c a ih =>
    rw [List.mem_cons, not_or] at h
    have hc : decide (c = '\n') = false := by simpa using Ne.symm h.1
    simp only [lineHeads, hc, Bool.false_eq_true, if_false]
    exact ih h.2

lemma freshBehind_of_no_break (h : '\n' ∉ a) (hfresh : fresh = false ∨ a ≠ []) : freshBehind fresh a = false := by
  induction a generalizing fresh with
  | nil => simpa using hfresh
  | cons c a ih =>
    rw [List.mem_cons, not_or] at h
    rw [freshBehind_cons]
    exact ih h.2 (.inl (by simpa using Ne.symm h.1))

lemma mem_lineHeads_of_fresh {u : Text} (h : freshBehind fresh u) : c ∈ lineHeads fresh (u ++ c :: t) := by
  rw [lineHeads_append, h]
  simp [lineHeads]

/-- Where no line begins with the first letter of `func`, no function is found. -/
lemma findAll_readFunction?_of_not_mem (h : 'f' ∉ lineHeads fresh a) :
    findAll readFunction? fresh (a ++ b) = findAll readFunction? (freshBehind fresh a) b := by
  refine findAll_append_of_none ?_
  rintro u (_ | ⟨c, v⟩) e hv
  · exact absurd rfl hv
  · unfold readFunction?
    split
    · next hf =>
      have hc : 'f' ≠ c := by
        rintro rfl
        exact h (by rw [e]; exact mem_lineHeads_of_fresh hf)
      simp [readShape?, Text.strip?, hc]
    · rfl

lemma readName?_eq_some {more : Char → Bool} (h : readName? more s = some (name, rest)) :
    s = name ++ rest ∧ name ≠ [] := by
  unfold readName? at h
  split at h
  · cases h
  · split at h
    · cases h
      simp
    · cases h

/-- Whether a text begins, behind a line break and other white space, with the head of a function. -/
def OpensFunction (b : Text) : Prop :=
  ∃ b' e y, b = '\n' :: b' ∧ skipGap b' = "func ".toList ++ e :: y ∧ (e.isAlpha || e = '_') = true

lemma isWord_of_start (h : (c.isAlpha || c = '_') = true) : isWord c := by
  rw [Bool.or_eq_true, decide_eq_true_eq] at h
  rcases h with h | rfl
  · exact isWord_of_isAlphanum (by rw [Char.isAlphanum, h, Bool.true_or])
  · decide

lemma not_isSpace_of_start (h : (c.isAlpha || c = '_') = true) : isSpace c = false := by
  by_contra hs
  have := not_isWord_of_isSpace (by simpa using hs)
  rw [isWord_of_start h] at this
  cases this

/-- Reads the name of a function in front of its parameters. -/
def readNamed? (s : Text) : Option (Text × Text) :=
  (readName? isWord s).bind fun p =>
    match skipGap p.2 with
    | '(' :: rest => some (p.1, rest)
    | '[' :: rest => some (p.1, rest)
    | _ => none

lemma readFunction?_eq :
    readFunction? fresh s = if fresh then ((Text.strip? "func" s).bind skipSpace?).bind readNamed? else none := by
  unfold readFunction?
  split
  · simp only [readShape?, Option.bind_eq_bind, Option.bind_assoc]
    cases Text.strip? "func" s with
    | none => rfl
    | some u =>
      simp only [Option.bind_some]
      cases skipSpace? u with
      | none => rfl
      | some u => rfl
  · rfl

/-- No parameters stand behind white space in front of a function. -/
lemma OpensFunction.readNamed? (h : OpensFunction b) (hs : s.all isSpace) : readNamed? (skipGap (s ++ b)) = none := by
  obtain ⟨b', e, y, rfl, hb, he⟩ := h
  have hskip : skipGap (s ++ '\n' :: b') = "func ".toList ++ e :: y := by
    rw [skipGap_append_of_all hs, ← hb]
    rfl
  have hname : readName? isWord ("func ".toList ++ e :: y) = some ("func".toList, ' ' :: e :: y) := rfl
  have hgap : skipGap (' ' :: e :: y) = e :: y := by
    have hsp : isSpace ' ' = true := by decide
    simp [skipGap, hsp, not_isSpace_of_start he]
  rw [hskip, Detection.readNamed?, hname, Option.bind_some]
  dsimp only
  rw [hgap]
  split
  · next h =>
    cases h
    exact absurd he (by decide)
  · next h =>
    cases h
    exact absurd he (by decide)
  · rfl

lemma readName?_append_cons {more : Char → Bool} (hs : s ≠ []) (hc : more c = false) :
    readName? more (s ++ c :: t) = (readName? more s).map fun (name, rest) => (name, rest ++ c :: t) := by
  rcases s with _ | ⟨d, s⟩
  · exact absurd rfl hs
  · simp only [List.cons_append, readName?, Text.takeWhile_append_cons hc, Text.dropWhile_append_cons hc]
    split <;> rfl

lemma OpensFunction.readNamed?_append (h : OpensFunction b) (hs : s ≠ []) :
    Detection.readNamed? (s ++ b) = (Detection.readNamed? s).map fun (name, rest) => (name, rest ++ b) := by
  obtain ⟨b', e, y, rfl, hb, he⟩ := h
  have hopens : OpensFunction ('\n' :: b') := ⟨b', e, y, rfl, hb, he⟩
  unfold Detection.readNamed?
  rw [readName?_append_cons hs (by decide)]
  cases readName? isWord s with
  | none => rfl
  | some p =>
    obtain ⟨name, rest⟩ := p
    simp only [Option.map_some, Option.bind_some]
    by_cases hrest : rest.all isSpace
    · have hskip : skipGap (rest ++ '\n' :: b') = "func ".toList ++ e :: y := by
        rw [skipGap_append_of_all hrest, ← hb]
        rfl
      rw [hskip, skipGap_of_all hrest]
      rfl
    · rw [skipGap_append (by simpa using hrest)]
      have hne := skipGap_ne_nil (a := rest) (by simpa using hrest)
      generalize skipGap rest = v at hne
      rcases v with _ | ⟨d, v⟩
      · exact absurd rfl hne
      · by_cases h₁ : d = '('
        · subst h₁
          rfl
        by_cases h₂ : d = '['
        · subst h₂
          rfl
        · simp [h₁, h₂]

/-- Readings of functions end before another function. -/
lemma endsBefore_readFunction? (h : OpensFunction b) : EndsBefore readFunction? b := by
  intro fresh a ha
  have hb : ∃ b', b = '\n' :: b' := ⟨_, h.choose_spec.choose_spec.choose_spec.1⟩
  obtain ⟨b', rfl⟩ := hb
  rw [readFunction?_eq, readFunction?_eq, Text.strip?_append_cons (by decide)]
  split
  · cases Text.strip? "func" a with
    | none => rfl
    | some u =>
      simp only [Option.map_some, Option.bind_some]
      rcases u with _ | ⟨c, u⟩
      · exact h.readNamed? (s := []) rfl
      simp only [List.cons_append, skipSpace?]
      split
      · by_cases hu : u.all isSpace
        · rw [Option.bind_some, Option.bind_some, h.readNamed? hu, skipGap_of_all hu]
          rfl
        · have hu : u.all isSpace = false := by simpa using hu
          rw [Option.bind_some, Option.bind_some, skipGap_append hu, h.readNamed?_append (skipGap_ne_nil hu)]
      · rfl
  · rfl

/-! ### The heads of functions -/

/-- Whether a name can be found: it begins with an ASCII letter or an underscore and has only word characters. -/
def IsFoundName (name : Text) : Prop := ∃ c t, name = c :: t ∧ (c.isAlpha || c = '_') ∧ t.all isWord

lemma IsFoundName.all_isWord (h : IsFoundName name) : name.all isWord := by
  obtain ⟨c, t, rfl, hc, ht⟩ := h
  rw [List.all_cons, isWord_of_start hc, ht]
  rfl

lemma IsFoundName.not_mem (h : IsFoundName name) (hc : isWord c = false) : c ∉ name := by
  intro hmem
  have hword := List.all_eq_true.1 h.all_isWord c hmem
  rw [hc] at hword
  cases hword

/-- The head of a function at the beginning of a text, with what stands behind the bracket that opens its parameters. -/
def FunctionHead (name s rest : Text) : Prop :=
  ∃ w w' d, w ≠ [] ∧ w.all isSpace ∧ IsFoundName name ∧ w'.all isSpace ∧ (d = '(' ∨ d = '[') ∧
    s = "func".toList ++ (w ++ (name ++ (w' ++ d :: rest)))

lemma isSpace_of_bracket (h : c = '(' ∨ c = '[') : isSpace c = false ∧ isWord c = false := by
  rcases h with rfl | rfl <;> decide

lemma readName?_isWord (hname : IsFoundName name) (hs : ∀ c ∈ s.head?, isWord c = false) :
    readName? isWord (name ++ s) = some (name, s) := by
  obtain ⟨c, t, rfl, hc, ht⟩ := hname
  have hall : ∀ d ∈ t, isWord d := List.all_eq_true.1 ht
  rw [List.cons_append, readName?, if_pos hc]
  rcases s with _ | ⟨d, s⟩
  · rw [List.append_nil, List.takeWhile_eq_self_iff.2 hall, List.dropWhile_eq_nil_iff.2 hall]
  · have hd : isWord d = false := hs d rfl
    rw [Text.takeWhile_append_cons hd, Text.dropWhile_append_cons hd, List.takeWhile_eq_self_iff.2 hall,
      List.dropWhile_eq_nil_iff.2 hall]
    rfl

lemma isFoundName_of_readName? (h : readName? isWord s = some (name, rest)) : IsFoundName name := by
  unfold readName? at h
  split at h
  · cases h
  · next c t =>
    split at h
    · next hc =>
      cases h
      exact ⟨c, t.takeWhile isWord, rfl, hc, List.all_takeWhile⟩
    · cases h

lemma readNamed?_eq_some : readNamed? s = some (name, rest) ↔
    ∃ w d, IsFoundName name ∧ w.all isSpace ∧ (d = '(' ∨ d = '[') ∧ s = name ++ (w ++ d :: rest) := by
  rw [readNamed?, Option.bind_eq_some_iff]
  constructor
  · rintro ⟨⟨n, t⟩, hname, h⟩
    obtain ⟨rfl, -⟩ := readName?_eq_some hname
    obtain ⟨w, hw, ht⟩ := exists_gap t
    obtain ⟨d, hd, hgap, rfl⟩ : ∃ d, (d = '(' ∨ d = '[') ∧ skipGap t = d :: rest ∧ n = name := by
      dsimp only at h
      split at h
      · next e =>
        cases h
        exact ⟨'(', .inl rfl, e, rfl⟩
      · next e =>
        cases h
        exact ⟨'[', .inr rfl, e, rfl⟩
      · cases h
    exact ⟨w, d, isFoundName_of_readName? hname, hw, hd, by rw [← hgap, ← ht]⟩
  · rintro ⟨w, d, hname, hw, hd, rfl⟩
    obtain ⟨hspace, hword⟩ := isSpace_of_bracket hd
    refine ⟨(name, w ++ d :: rest), readName?_isWord hname fun c hc => ?_, ?_⟩
    · obtain ⟨e, t, he, hnot⟩ := exists_cons_not_isWord (s := rest) hw hword
      rw [he] at hc
      cases hc
      exact hnot
    · dsimp only
      rw [skipGap_gap hw hspace]
      rcases hd with rfl | rfl <;> rfl

/-- **What a function is read from.** -/
theorem readFunction?_eq_some : readFunction? fresh s = some (name, rest) ↔ fresh = true ∧ FunctionHead name s rest := by
  rw [readFunction?_eq]
  cases fresh with
  | false => simp
  | true =>
    simp only [if_true, true_and, Option.bind_eq_some_iff, Text.strip?_eq_some_iff, readNamed?_eq_some]
    constructor
    · rintro ⟨t, ⟨u, rfl, hu⟩, w', d, hname, hw', hd, rfl⟩
      rcases u with _ | ⟨c, u⟩
      · cases hu
      · simp only [skipSpace?] at hu
        split at hu
        · next hc =>
          obtain ⟨w, hw, e⟩ := exists_gap u
          refine ⟨c :: w, w', d, List.cons_ne_nil _ _, by simp [hc, hw], hname, hw', hd, ?_⟩
          rw [e, Option.some.inj hu]
          rfl
        · cases hu
    · rintro ⟨w, w', d, hne, hw, hname, hw', hd, rfl⟩
      obtain ⟨c, w, rfl⟩ := List.exists_cons_of_ne_nil hne
      rw [List.all_cons, Bool.and_eq_true] at hw
      obtain ⟨e, t, rfl, he, ht⟩ := hname
      refine ⟨_, ⟨_, rfl, ?_⟩, w', d, ⟨e, t, rfl, he, ht⟩, hw', hd, rfl⟩
      rw [List.cons_append, skipSpace?, if_pos hw.1, List.cons_append, skipGap_gap hw.2 (not_isSpace_of_start he)]

lemma consumes_readFunction? : Consumes readFunction? := by
  intro fresh s name rest h
  obtain ⟨-, w, w', d, -, -, -, -, hd, rfl⟩ := readFunction?_eq_some.1 h
  refine ⟨"func".toList ++ (w ++ (name ++ w')), d, by simp only [List.append_assoc], ?_⟩
  rintro rfl
  rcases hd with hd | hd <;> cases hd

lemma FunctionHead.head? (h : FunctionHead name s rest) : s.head? = some 'f' := by
  obtain ⟨w, w', d, -, -, -, -, -, rfl⟩ := h
  rfl

/-- A name with parameters behind it is not the keyword of a function. -/
lemma not_functionHead {name' rest' : Text} {d : Char} (hname : IsFoundName name) (hw : t.all isSpace) (hd : d = '(' ∨ d = '[') :
    ¬ FunctionHead name' (name ++ (t ++ d :: rest)) rest' := by
  rintro ⟨w, w', d', hne, hws, hname', -, -, h⟩
  obtain ⟨hspace, hword⟩ := isSpace_of_bracket hd
  obtain ⟨c, u, rfl⟩ := List.exists_cons_of_ne_nil hne
  rw [List.all_cons, Bool.and_eq_true] at hws
  have hkeyword : ∀ y ∈ "func".toList, isWord y := List.all_eq_true.1 (by decide)
  have htake := congrArg (List.takeWhile isWord) h
  obtain ⟨e, z, he, hnot⟩ := exists_cons_not_isWord (s := rest) hw hword
  rw [he, Text.takeWhile_append_cons hnot, List.takeWhile_eq_self_iff.2 (List.all_eq_true.1 hname.all_isWord),
    List.cons_append, Text.takeWhile_append_cons (not_isWord_of_isSpace hws.1), List.takeWhile_eq_self_iff.2 hkeyword] at htake
  rw [htake, List.append_cancel_left_eq] at h
  obtain ⟨f, v, rfl, hf, -⟩ := hname'
  have hall : (c :: u).all isSpace := by simp [hws.1, hws.2]
  have hgap : d :: rest = f :: (v ++ (w' ++ d' :: rest')) := by
    rw [← skipGap_gap hw hspace, h]
    exact skipGap_gap hall (not_isSpace_of_start hf)
  rw [← (List.cons.inj hgap).1] at hf
  rcases hd with rfl | rfl <;> exact absurd hf (by decide)

lemma exists_append_of_not_mem (hc : c ∉ a) (h : a ++ b = s ++ c :: t) : ∃ b', b = b' ++ c :: t := by
  rcases List.append_eq_append_iff.1 h with ⟨x, -, hb⟩ | ⟨_ | ⟨d, x⟩, ha, hb⟩
  · exact ⟨x, hb⟩
  · exact ⟨[], hb.symm⟩
  · obtain ⟨rfl, -⟩ := List.cons.inj hb
    exact absurd (by rw [ha]; simp) hc

/-- No head of a function stands at a line that begins inside of another one. -/
lemma readsApart_readFunction? : ReadsApart readFunction? := by
  intro fresh u v name rest h hu hv
  by_contra hsome
  obtain ⟨⟨name', rest'⟩, hread⟩ := Option.ne_none_iff_exists'.1 hsome
  obtain ⟨-, w, w', d, -, hw, hname, hw', hd, hhead⟩ := readFunction?_eq_some.1 h
  obtain ⟨hfresh, hinner⟩ := readFunction?_eq_some.1 hread
  obtain ⟨u, b, rfl⟩ : ∃ t b, u = t ++ [b] := ⟨_, _, (List.dropLast_append_getLast hu).symm⟩
  obtain rfl : b = '\n' := by simpa [freshBehind_append] using hfresh
  obtain ⟨hspace, -⟩ := isSpace_of_bracket hd
  have hblank : ∀ {x z : Text}, x.all isSpace → v ++ rest = x ++ z → x = [] := by
    rintro (_ | ⟨e, x⟩) z hx hz
    · rfl
    · have hf := hinner.head?
      rw [hz] at hf
      obtain rfl : e = 'f' := Option.some.inj hf
      exact absurd (List.all_eq_true.1 hx 'f' List.mem_cons_self) (by decide)
  -- the line break stands in the white space behind the keyword, or in that behind the name
  rw [List.append_assoc, List.singleton_append] at hhead
  obtain ⟨b, hb⟩ := exists_append_of_not_mem (by decide) hhead.symm
  rcases List.append_eq_append_iff.1 hb with ⟨x, -, hx⟩ | ⟨_ | ⟨e, x⟩, hwx, hx⟩
  · have hbreak : '\n' ∉ name := hname.not_mem (by decide)
    obtain ⟨y, hy⟩ := exists_append_of_not_mem hbreak hx
    rcases List.append_eq_append_iff.1 hy with ⟨z, -, hz⟩ | ⟨_ | ⟨e, z⟩, hwz, hz⟩
    · have hlength := congrArg List.length hz
      have := List.length_pos_iff.2 hv
      simp only [List.length_append, List.length_cons] at hlength
      omega
    · rw [← (List.cons.inj hz).1] at hspace
      exact absurd hspace (by decide)
    · rw [hwz, List.all_append, List.all_cons, Bool.and_eq_true, Bool.and_eq_true] at hw'
      have hz := (List.cons.inj hz).2
      rw [hblank hw'.2.2 hz] at hz
      have hf := hinner.head?
      rw [hz] at hf
      obtain rfl : d = 'f' := Option.some.inj hf
      rcases hd with hd | hd <;> cases hd
  · obtain ⟨f, t, rfl, hf, -⟩ := hname
    obtain rfl : '\n' = f := (List.cons.inj hx).1
    exact absurd hf (by decide)
  · rw [hwx, List.all_append, List.all_cons, Bool.and_eq_true, Bool.and_eq_true] at hw
    have hx : v ++ rest = x ++ (name ++ (w' ++ d :: rest)) := (List.cons.inj hx).2
    rw [hblank hw.2.2 hx, List.nil_append] at hx
    rw [hx] at hinner
    exact not_functionHead hname hw' hd hinner

/-- Whether the head of a function begins a line of a text, comments apart. -/
def HasFunctionHead (name s : Text) : Prop :=
  ∃ u v rest, Source.commentsBlanked s = u ++ v ∧ freshBehind true u ∧ FunctionHead name v rest

/-- **The functions that are found** are those of the heads that begin lines. -/
theorem mem_functions_iff : name ∈ functions s ↔ HasFunctionHead name s := by
  rw [functions, Text.mem_toSet, mem_findAll_iff consumes_readFunction? readsApart_readFunction?]
  simp only [readFunction?_eq_some]
  rfl

/-! ### The functions of a text -/

open Source (commentsBlanked isWhole lex codeOf)

/-- The names of the functions of a text in source order. -/
def functionNames (s : Text) : List Text := findAll readFunction? true (commentsBlanked s)

@[simp] lemma functionNames_nil : functionNames [] = [] := by
  rw [functionNames, Source.commentsBlanked_eq, Source.lex_nil]
  exact findAll_nil

lemma mem_functions : name ∈ functions s ↔ name ∈ functionNames s := Text.mem_toSet

lemma findAll_readFunction?_newline :
    findAll readFunction? fresh ('\n' :: s) = findAll readFunction? true s :=
  findAll_readFunction?_of_not_mem (a := ['\n']) (by cases fresh <;> decide)

/-- The functions of a whole text that another one with functions follows. -/
lemma functionNames_append (ha : isWhole a) (hb : OpensFunction (commentsBlanked ('\n' :: b))) :
    functionNames (a ++ '\n' :: b) = functionNames a ++ functionNames ('\n' :: b) := by
  have hcode : ∀ z, commentsBlanked ('\n' :: z) = '\n' :: commentsBlanked z := by
    intro z
    rw [Source.commentsBlanked_eq, Source.lex_newline]
    rfl
  have hlex : commentsBlanked (a ++ '\n' :: b) = commentsBlanked a ++ commentsBlanked ('\n' :: b) := by
    rw [Source.commentsBlanked_eq, Source.lex_append ha fun _ _ => Source.precedes_newline, Source.codeOf_append]
    rfl
  rw [functionNames, hlex, findAll_append consumes_readFunction? (endsBefore_readFunction? hb), functionNames,
    functionNames, hcode, findAll_readFunction?_newline, findAll_readFunction?_newline]

/-- Whether a text declares one function, with its comment above it. -/
structure Declares (s name : Text) : Prop where
  isName : ∃ c t, name = c :: t ∧ (c.isAlpha || c = '_') ∧ t.all isWord
  closed : Source.IsClosed s
  code : ∃ lead body, commentsBlanked s = lead ++ ("func ".toList ++ (name ++ '(' :: body)) ∧ lead.all isSpace ∧
    freshBehind true lead ∧ 'f' ∉ lineHeads false body ∧ freshBehind false body

lemma Declares.commentsBlanked_append (h : Declares s name) :
    commentsBlanked ('\n' :: (s ++ t)) = '\n' :: (commentsBlanked s ++ commentsBlanked t) := by
  rw [Source.commentsBlanked_eq, Source.lex_newline, Source.codeOf_cons, ← Source.commentsBlanked_eq,
    Source.commentsBlanked_append (h.closed t)]
  rfl

lemma Declares.opensFunction (h : Declares s name) : OpensFunction (commentsBlanked ('\n' :: (s ++ t))) := by
  obtain ⟨lead, body, hcode, hlead, -⟩ := h.code
  obtain ⟨c, u, rfl, hc, -⟩ := h.isName
  refine ⟨_, c, u ++ '(' :: body ++ commentsBlanked t, h.commentsBlanked_append, ?_, hc⟩
  have hf : isSpace 'f' = false := by decide
  rw [hcode, List.append_assoc, skipGap_append_of_all hlead]
  simp [skipGap, hf]

lemma Declares.readFunction? (h : Declares s name) {body : Text} :
    Detection.readFunction? true ("func ".toList ++ (name ++ '(' :: body)) = some (name, body) := by
  obtain ⟨c, u, rfl, hc, hu⟩ := h.isName
  have hspace : skipSpace? (' ' :: (c :: u ++ '(' :: body)) = some (c :: u ++ '(' :: body) := by
    have hsp : isSpace ' ' = true := by decide
    simp [skipSpace?, skipGap, hsp, not_isSpace_of_start hc]
  have hall : ∀ d ∈ u, isWord d := List.all_eq_true.1 hu
  have hparen : isWord '(' = false := by decide
  have hname : readName? isWord (c :: u ++ '(' :: body) = some (c :: u, '(' :: body) := by
    rw [List.cons_append, readName?, if_pos hc, Text.takeWhile_append_cons hparen, Text.dropWhile_append_cons hparen,
      List.takeWhile_eq_self_iff.2 hall, List.dropWhile_eq_nil_iff.2 hall]
    rfl
  have hlead : Text.strip? "func" ("func ".toList ++ (c :: u ++ '(' :: body)) = some (' ' :: (c :: u ++ '(' :: body)) := rfl
  rw [readFunction?_eq, if_pos rfl, hlead, Option.bind_some, hspace, Option.bind_some, readNamed?, hname]
  rfl

/-- **A function that is written is found.** -/
lemma Declares.functionNames_append (h : Declares s name) :
    functionNames ('\n' :: (s ++ t)) = name :: functionNames t := by
  obtain ⟨lead, body, hcode, hlead, hfresh, hbody, hend⟩ := h.code
  have hf : 'f' ∉ lineHeads true lead := fun hmem =>
    absurd (List.all_eq_true.1 hlead 'f' (lineHeads_subset hmem)) (by decide)
  obtain ⟨z, hz⟩ : ∃ z, "func ".toList ++ (name ++ '(' :: (body ++ commentsBlanked t)) = 'f' :: z := ⟨_, rfl⟩
  have hread : Detection.readFunction? true _ = some (name, body ++ commentsBlanked t) := h.readFunction?
  rw [hz] at hread
  have hle : (body ++ commentsBlanked t).length ≤ z.length := by
    have := congrArg List.length hz
    simp only [List.length_append, List.length_cons] at this ⊢
    have hfunc : "func ".toList.length = 5 := rfl
    omega
  rw [functionNames, h.commentsBlanked_append, findAll_readFunction?_newline, hcode]
  simp only [List.append_assoc, List.cons_append]
  rw [findAll_readFunction?_of_not_mem hf, hfresh, hz, findAll_of_some hread hle, findAll_readFunction?_of_not_mem hbody, hend]
  rfl

end RuleWeaver.Detection
