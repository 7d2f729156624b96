import RuleWeaver.Detection.Maps
import RuleWeaver.Proofs.Detection.Scanning
import RuleWeaver.Proofs.Source.Comments
import RuleWeaver.Proofs.Source.Reading

/-!
# Where the braces of a map literal stand

A map literal is found at an opening brace of the text, which may stand inside a literal, and ends in the first bracket that
leaves no group open, of whatever class (`findMap?_eq_some`).
-/

namespace RuleWeaver

open Source (Lexeme lex joined place)
open Detection (Piece readShape? endOfShape? skipGap skipSpace?)

namespace Source

variable {s u v : Text} {x : Char} {ls : List Lexeme}

/-- A character of a text whose comments are blanked stands at its offset in the text. -/
lemma char_of_commentsBlanked (hx : x ≠ ' ') (hx' : x ≠ '\n') (h : commentsBlanked s = u ++ x :: v) :
    ∃ u' v', s = u' ++ x :: v' ∧ u'.width = u.width := by
  obtain ⟨xs, l, ys, p, q, hls, -, ht, rfl, rfl⟩ := exists_lexeme_of_codeOf hx hx' h
  refine ⟨joined xs ++ p, q ++ joined ys, ?_, ?_⟩
  · rw [← joined_lex (s := s), hls]
    simp [ht]
  · rw [Text.width_append, Text.width_append, width_codeOf]

/-! ### Closing brackets -/

lemma closing_eq_ok {source : Text} {opening depth n k : Nat} (h : closing source opening depth (place n ls) = .ok k) :
    ∃ xs l ys, ls = xs ++ l :: ys ∧ l.kind.isClose ∧ k = n + (joined xs).width := by
  induction ls generalizing depth n with
  | nil => cases h
  | cons l ls ih =>
    have step : ∀ depth, closing source opening depth (place (n + l.text.width) ls) = .ok k →
        ∃ xs l' ys, l :: ls = xs ++ l' :: ys ∧ l'.kind.isClose ∧ k = n + (joined xs).width := by
      intro depth h
      obtain ⟨xs, l', ys, rfl, hclose, rfl⟩ := ih h
      exact ⟨l :: xs, l', ys, rfl, hclose, by simp [Nat.add_assoc]⟩
    rw [place_cons, closing] at h
    dsimp only at h
    split at h
    · cases h
    split at h
    · exact step _ h
    split at h
    · next hclose =>
      split at h
      · cases h
        exact ⟨[], l, ls, rfl, hclose, rfl⟩
      · exact step _ h
    · exact step _ h

lemma lex_lbrace : lex ('{' :: s) = ⟨.lbrace, ['{']⟩ :: lex s := lex_cons (u := []) (by rfl)

lemma lex_rbrace : lex ('}' :: s) = ⟨.rbrace, ['}']⟩ :: lex s := lex_cons (u := []) (by rfl)

/-- What is enclosed by an opening brace and the bracket that closes it. -/
lemma closingOffset_eq_ok {k : Nat} (h : closingOffset (u ++ '{' :: v) u.width = .ok k) :
    ∃ (body : Text) (close : Char) (rest : Text), v = body ++ close :: rest ∧ close ∈ ['}', ')', ']'] ∧
      k = u.width + 1 + body.width := by
  rw [closingOffset, Text.dropBytes_width_append, lex_lbrace, place_cons] at h
  replace h : closing (u ++ '{' :: v) u.width 1 (place (u.width + 1) (lex v)) = .ok k := h
  obtain ⟨xs, l, ys, hls, hclose, rfl⟩ := closing_eq_ok h
  have hl : l ∈ lex v := by rw [hls]; simp
  obtain ⟨b, hb, hmem⟩ : ∃ b, l.kind.bracket? = some b ∧ b ∈ ['}', ')', ']'] := by
    cases hk : l.kind <;> rw [hk] at hclose <;> cases hclose <;> exact ⟨_, rfl, by decide⟩
  refine ⟨joined xs, b, joined ys, ?_, hmem, rfl⟩
  rw [← joined_lex (s := v), hls]
  simp [text_of_bracket hl hb]

end Source

namespace Detection

variable {ps qs : List Piece} {s rest p : Text}

lemma readShape?_suffix (h : readShape? ps s = some rest) : rest <:+ s := by
  induction ps generalizing s with
  | nil =>
    cases h
    exact List.suffix_rfl
  | cons piece ps ih =>
    cases piece with
    | text t =>
      obtain ⟨u, hu, h⟩ := Option.bind_eq_some_iff.1 h
      rw [Text.strip?_eq_some_iff.1 hu]
      exact (ih h).trans (List.suffix_append _ _)
    | gap => exact (ih h).trans (List.dropWhile_suffix _)
    | space =>
      obtain ⟨u, hu, h⟩ := Option.bind_eq_some_iff.1 h
      refine (ih h).trans ?_
      rcases s with _ | ⟨c, s⟩
      · cases hu
      · rw [skipSpace?] at hu
        split at hu
        · cases hu
          exact (List.dropWhile_suffix _).trans (List.suffix_cons _ _)
        · cases hu

/-- A shape fits where it fits first, and nowhere in front. -/
lemma endOfShape?_eq_some {m n : Nat} (h : endOfShape? ps m s = some n) :
    ∃ u v rest, s = u ++ (v ++ rest) ∧ readShape? ps (v ++ rest) = some rest ∧ n = m + u.width + v.width ∧
      FitsNowhere ps u (v ++ rest) := by
  induction s generalizing m with
  | nil => cases h
  | cons c s ih =>
    rw [endOfShape?] at h
    split at h
    · next rest e =>
      cases h
      obtain ⟨v, hv⟩ := readShape?_suffix e
      refine ⟨[], v, rest, hv.symm, by rw [hv]; exact e, ?_, fitsNowhere_nil⟩
      rw [← hv, Text.width_append]
      simp
    · next e =>
      obtain ⟨u, v, rest, rfl, hread, rfl, hnone⟩ := ih h
      refine ⟨c :: u, v, rest, rfl, hread, by simp [Nat.add_assoc], ?_⟩
      rintro (_ | ⟨d, a⟩) b hab hb
      · obtain rfl : c :: u = b := hab
        exact e
      · exact hnone a b (List.cons.inj hab).2 hb

lemma closingOffset_of_findMap? {m : MapBraces} (h : findMap? ps s = some m) :
    Source.closingOffset s m.opening = .ok m.closing := by
  obtain ⟨n, -, h⟩ := Option.bind_eq_some_iff.1 h
  obtain ⟨k, hk, h⟩ := Option.bind_eq_some_iff.1 h
  cases h
  cases e : Source.closingOffset s (n - 1) with
  | error => simp [e, Except.toOption] at hk
  | ok k' => simpa [e, Except.toOption] using hk

/-- **Where a map literal is found.** -/
theorem findMap?_eq_some (ps : List Piece) {m : MapBraces} (h : findMap? (ps ++ [.text "\x7b"]) s = some m) :
    ∃ (a body : Text) (close : Char) (behind : Text), s = a ++ '{' :: (body ++ close :: behind) ∧
      close ∈ ['}', ')', ']'] ∧ m.opening = a.width ∧ m.closing = a.width + 1 + body.width := by
  obtain ⟨n, hn, h⟩ := Option.bind_eq_some_iff.1 h
  obtain ⟨k, hk, h⟩ := Option.bind_eq_some_iff.1 h
  cases h
  obtain ⟨u, v, rest, hs, hread, rfl, -⟩ := endOfShape?_eq_some hn
  rw [readShape?_append_pieces] at hread
  obtain ⟨t, ht, hread⟩ := Option.bind_eq_some_iff.1 hread
  have ht' : t = '{' :: rest := by
    obtain ⟨r, hr, hrest⟩ := Option.bind_eq_some_iff.1 hread
    cases hrest
    exact Text.strip?_eq_some_iff.1 hr
  subst ht'
  obtain ⟨w, hw⟩ := readShape?_suffix ht
  have hv : v = w ++ ['{'] := by
    have : v ++ rest = (w ++ ['{']) ++ rest := by simpa using hw.symm
    exact List.append_cancel_right this
  subst hv
  have hs : Source.commentsBlanked s = (u ++ w) ++ '{' :: rest := by simpa using hs
  obtain ⟨a, b, rfl, ha⟩ := Source.char_of_commentsBlanked (by decide) (by decide) hs
  have hbrace : Text.width ['{'] = 1 := rfl
  have hwidth : 0 + u.width + Text.width (w ++ ['{']) - 1 = a.width := by
    rw [ha, Text.width_append, Text.width_append, hbrace]
    omega
  rw [hwidth] at hk
  cases hk' : Source.closingOffset (a ++ '{' :: b) a.width with
  | error => simp [hk', Except.toOption] at hk
  | ok k' =>
    obtain rfl : k' = k := by simpa [hk', Except.toOption] using hk
    obtain ⟨body, close, behind, rfl, hclose, rfl⟩ := Source.closingOffset_eq_ok hk'
    exact ⟨a, body, close, behind, rfl, hclose, hwidth, rfl⟩

end Detection

end RuleWeaver
