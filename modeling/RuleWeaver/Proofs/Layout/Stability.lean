import RuleWeaver.Proofs.Layout.Code

/-!
# Layout that is stable

A text whose lines are as layout leaves them is laid out as it is (`layout_of_areLines`), so layout of what is laid out
changes nothing but its line breaks: a carriage return that stood in front of a line break of two characters, or in front of
blanks at the end of a line, now stands in front of the line break, and goes only when the text is laid out again
(`layout_stable_iff`).
-/

namespace RuleWeaver

open Source (Lexeme Token Tree lex tokenize parse joined lineBreak IsLexed TidiedTo Tidied isWhole)
open Relation (ReflTransGen)

variable {n out s : Text} {ts : List Token} {A L L' : List Lexeme} {b : Bool} {c : Char}

/-! ### Lines that stay -/

/-- Lines as layout leaves them are laid out as they are. -/
lemma layoutLines_of_areLines (htokens : tokenize n = .ok ts) (hlex : lex n = A ++ L) (hL : IsLexed L) (h : AreLines b L)
    (afterBlank first : Bool) (hb : b = true → (afterBlank || first) = false) :
    layoutLines (keptSpans ts) (joined A).width afterBlank first (physicalLines (joined L)) = joined L := by
  induction h generalizing A afterBlank first with
  | nil => rfl
  | @line b X L hX hne htrim h ih =>
    have hrun := layoutLines_run (y := joined L) htokens hlex fun l hl => ⟨hX l hl, isLexed_form hL (by simp [hl])⟩
    have hrest := ih (A := A ++ (X ++ [lineBreak])) (by rw [hlex]; simp) (IsLexed.right (A := X ++ [lineBreak]) (by simpa using hL))
      false false fun _ => rfl
    have hjoined : joined (X ++ lineBreak :: L) = joined X ++ '\n' :: joined L := by simp [lineBreak]
    rw [hjoined, hrun, htrim, if_neg hne, width_joined_line, hrest]
  | @empty L h ih =>
    have hrun := layoutLines_run (y := joined L) (C := []) htokens (by simpa using hlex) (by simp)
    have hrest := ih (A := A ++ [lineBreak]) (by rw [hlex]; simp) (IsLexed.right (A := [lineBreak]) hL) true false fun h => by cases h
    have hwidth := width_joined_line (A := A) (C := [])
    have hjoined : joined (lineBreak :: L) = joined [] ++ '\n' :: joined L := rfl
    rw [List.nil_append] at hwidth
    rw [hjoined, hrun, if_pos (show trimBlanks (joined []) = [] from rfl), hb rfl, hwidth, hrest]
    rfl

/-- A text whose lines are as layout leaves them is laid out as it is. -/
theorem layout_of_areLines {tree : Tree} (hparse : parse n = .ok tree) (htokens : tokenize n = .ok ts) (hunix : unixText n = n)
    (hlines : AreLines false (lex n)) (hend : endWithBreak n = n) : layout n = .ok n := by
  have hlexed := Source.isLexed_lex (Source.tokenize_eq_ok_iff.1 htokens).1
  have hlayout := layoutLines_of_areLines (A := []) htokens rfl hlexed hlines false true fun h => by cases h
  rw [Source.joined_lex] at hlayout
  unfold layout
  rw [show Text.replaceAll "\r\n" "\n" n = n from hunix]
  simp only [hparse, htokens]
  exact congrArg Except.ok ((congrArg endWithBreak hlayout).trans hend)

lemma endWithBreak_endWithBreak : endWithBreak (endWithBreak s) = endWithBreak s := by
  have hlast : ∀ x ∈ ((s.reverse.dropWhile (· = '\n')).reverse).getLast?, x ≠ '\n' := by
    intro x hx
    rw [List.getLast?_reverse] at hx
    have hfirst := List.head?_dropWhile_not (· = '\n') s.reverse
    rw [Option.mem_def.1 hx] at hfirst
    simpa using hfirst
  exact endWithBreak_append hlast

/-! ### Carriage returns -/

/-- A part that does not occur is not replaced. -/
lemma Text.replaceAll_eq_self {part new : Text} (h : Text.hasPart part s = false) : Text.replaceAll part new s = s := by
  induction s with
  | nil => rw [Text.replaceAll]
  | cons c s ih =>
    rw [Text.hasPart, Bool.or_eq_false_iff] at h
    rw [Text.replaceAll]
    split
    · next rest hrest =>
      rw [Text.strip?_eq_some_iff.1 hrest] at h
      exact absurd h.1 (by simp)
    · rw [ih h.2]

lemma unixText_cons (h : Text.strip? "\r\n" (c :: s) = none) : unixText (c :: s) = c :: unixText s := by
  rw [unixText, Text.replaceAll]
  split
  · next hrest => rw [h] at hrest; cases hrest
  · rfl

lemma unixText_break : unixText ('\r' :: '\n' :: s) = '\n' :: unixText s := by
  rw [unixText, Text.replaceAll]
  rfl

/-- Layout begins by taking carriage returns away. -/
lemma count_unixText : (unixText s).count '\r' ≤ s.count '\r' ∧
    (Text.hasPart "\r\n" s → (unixText s).count '\r' < s.count '\r') := by
  induction hk : s.length using Nat.strong_induction_on generalizing s with
  | _ k ih =>
  cases s with
  | nil => exact ⟨by rw [unixText, Text.replaceAll], nofun⟩
  | cons c s =>
    cases hstrip : Text.strip? "\r\n" (c :: s) with
    | none =>
      obtain ⟨hle, hlt⟩ := ih s.length (by simp [← hk]) rfl
      rw [unixText_cons hstrip, List.count_cons, List.count_cons]
      refine ⟨by omega, fun h => ?_⟩
      have hpart : Text.hasPart "\r\n" s := by
        rw [Text.hasPart, Bool.or_eq_true] at h
        refine h.resolve_left fun hp => ?_
        obtain ⟨t, ht⟩ := List.isPrefixOf_iff_prefix.1 hp
        rw [Text.strip?_eq_some_iff.2 ht.symm] at hstrip
        cases hstrip
      have := hlt hpart
      omega
    | some rest =>
      obtain ⟨rfl, rfl⟩ : c = '\r' ∧ s = '\n' :: rest := List.cons.inj (Text.strip?_eq_some_iff.1 hstrip)
      obtain ⟨hle, -⟩ := ih rest.length (by rw [← hk, List.length_cons, List.length_cons]; omega) rfl
      have hbreak : (unixText ('\r' :: '\n' :: rest)).count '\r' = (unixText rest).count '\r' := by
        rw [unixText_break, List.count_cons_of_ne (by decide)]
      have hcount : List.count '\r' ('\r' :: '\n' :: rest) = rest.count '\r' + 1 := by
        rw [List.count_cons_self, List.count_cons_of_ne (by decide)]
      have hlt : (unixText ('\r' :: '\n' :: rest)).count '\r' < List.count '\r' ('\r' :: '\n' :: rest) := by
        omega
      exact ⟨Nat.le_of_lt hlt, fun _ => hlt⟩

/-- Tidying takes characters away. -/
lemma Source.Tidied.sublist (h : Tidied L L') : (joined L').Sublist (joined L) := by
  obtain ⟨A, B, htight⟩ := h
  simp only [Source.joined_append]
  refine .append (.refl _) (.append ?_ (.refl _))
  cases htight with
  | comment t w hw => simp
  | blanks t w => simp
  | blank | line => simp

lemma Source.TidiedTo.sublist (h : TidiedTo L L') : (joined L').Sublist (joined L) := by
  induction h with
  | refl => exact .refl _
  | tail _ h ih => exact h.sublist.trans ih

/-- Layout adds no carriage return. -/
lemma count_layout_le (h : layout s = .ok out) : out.count '\r' ≤ (unixText s).count '\r' := by
  obtain ⟨-, lead, M, hlex, -, htidied, -, -⟩ := layout_eq_ok h
  have hout := htidied.sublist
  rw [Source.joined_lex] at hout
  calc out.count '\r' ≤ (joined M).count '\r' := hout.count_le _
    _ ≤ (closed (unixText s)).count '\r' := by
      rw [← Source.joined_lex (s := closed (unixText s)), hlex, Source.joined_append, List.count_append]
      omega
    _ = (unixText s).count '\r' := by
      unfold closed
      split
      · rfl
      · simp

/-- **When layout is stable.**  What is laid out stays as it is when it is laid out again if and only if no carriage return
stands in front of a line break in it. -/
theorem layout_stable_iff (h : layout s = .ok out) : layout out = .ok out ↔ Text.hasPart "\r\n" out = false := by
  constructor
  · intro hout
    by_contra hpart
    rw [Bool.not_eq_false] at hpart
    exact absurd (count_layout_le hout) (Nat.not_le.2 (count_unixText.2 hpart))
  · intro hpart
    obtain ⟨-, tree', -, hparse, -⟩ := exists_tree_of_layout h
    have htokens := tokenize_of_layout h
    obtain ⟨-, -, -, -, -, -, hlines, -⟩ := layout_eq_ok h
    obtain ⟨-, ts, -, -, rfl⟩ := exists_of_layout h
    exact layout_of_areLines hparse htokens (Text.replaceAll_eq_self hpart) hlines endWithBreak_endWithBreak

/-- Of two carriage returns in front of a line break each layout takes one away. -/
theorem layout_leaves_carriage_return :
    layout "package a\r\r\n" = .ok "package a\r\n" ∧ layout "package a\r\n" ≠ .ok "package a\r\n" := by
  have h : layout "package a\r\r\n" = .ok "package a\r\n" := by
    apply ok_of_toOption
    repeat rw [String.toList_ofList]
    decide +kernel
  refine ⟨h, fun hstable => ?_⟩
  have hpart := (layout_stable_iff h).1 hstable
  revert hpart
  decide

end RuleWeaver
