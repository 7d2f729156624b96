import RuleWeaver.Proofs.Detection.Maps
import RuleWeaver.Proofs.Document.Insertions
import RuleWeaver.Proofs.Source.Reading

/-!
# The edits that are made

An import goes behind what the tree has of imports (`importEdit_isInsertion`), functions go to the end of a text
(`foldl_append_eq`), and the body of a map literal gains at most a comma (`inserted_renderBody`).
-/

namespace RuleWeaver

open Text (IsBoundary)
open Source (Tree parse tokens Token lastCodeToken?)
open Document (pieces_nil pieces_cons pieces_append)

variable {s t part : Text} {tree : Tree} {d : Document}

/-! ### Imports -/

/-- The edit that adds an import. -/
def importEdit (source : Text) (tree : Tree) (line : NewImport) : Edit :=
  let edit (offset : Nat) (node : Node) : Edit := ⟨⟨offset, offset⟩, node⟩
  match tree.imports.reverse.find? (·.grouped) with
  | some group =>
    edit (match group.specs.getLast? with
      | some spec => spec.span.stop
      | none => Document.behindParen source group.span) (.importSpec line)
  | none =>
    match tree.importsEnd? with
    | some stop => edit stop (.text ("\nimport " ++ line.render))
    | none => edit tree.package.span.stop (.text ("\n\nimport " ++ line.render))

lemma withImport_eq {line : NewImport} : d.withImport tree line = { d with edits := d.edits ++ [importEdit d.source tree line] } := by
  cases hgroup : tree.imports.reverse.find? (·.grouped) with
  | some group =>
    cases hlast : group.specs.getLast? <;>
      simp [Document.withImport, importEdit, hgroup, hlast, Document.insertAt, Document.replace]
  | none =>
    cases hend : tree.importsEnd? <;>
      simp [Document.withImport, importEdit, hgroup, hend, Document.insertAt, Document.replace]

lemma isBoundary_behindParen {i : Source.ImportDecl} (h : i.IsIn s) : IsBoundary s (Document.behindParen s i.span) := by
  unfold Document.behindParen
  split
  · next before rest e =>
    obtain ⟨u, v, hs, hu⟩ := h.start
    have hprefix : Text.slice (u ++ v) u.width i.span.stop <+: v := Text.slice_prefix
    rw [hu, ← hs, Text.cut?_eq_some e] at hprefix
    obtain ⟨w, rfl⟩ := hprefix
    refine ⟨u ++ (before ++ "(".toList), rest ++ w, by rw [hs]; simp, ?_⟩
    rw [Text.width_append, Text.width_append, hu, Nat.add_assoc]
    rfl
  · exact h.stop

/-- **An import goes where the text can be cut.** -/
lemma importEdit_isInsertion {line : NewImport} (h : parse s = .ok tree) : (importEdit s tree line).IsInsertion s := by
  obtain ⟨hpackage, himports⟩ := Source.parse_isBoundary h
  unfold importEdit
  dsimp only
  split
  · next group e =>
    have hgroup := himports group (List.mem_reverse.1 (List.mem_of_find?_eq_some e))
    refine ⟨rfl, ?_⟩
    dsimp only
    split
    · next spec e' => exact hgroup.specs spec (List.mem_of_getLast? e')
    · exact isBoundary_behindParen hgroup
  · split
    · next stop e =>
      obtain ⟨i, hi, rfl⟩ := Option.map_eq_some_iff.1 e
      exact ⟨rfl, (himports i (List.mem_of_getLast? hi)).stop⟩
    · exact ⟨rfl, hpackage⟩

/-- How an import that is added is written. -/
def importTexts (line : NewImport) : List Text :=
  ["\n\t".toList ++ line.render, "\nimport ".toList ++ line.render, "\n\nimport ".toList ++ line.render]

lemma importEdit_mem {line : NewImport} : (importEdit s tree line).node.render ∈ importTexts line := by
  unfold importEdit
  dsimp only
  split
  · exact List.mem_cons_self
  · split <;> simp [importTexts, Node.render]

/-! ### Functions at the end -/

/-- What is put at the end of a text: functions, each behind an empty line, from the beginning of a line on. -/
def Appendix (functions : List Text) (t : Text) : Prop :=
  ∃ lead, (lead = [] ∨ lead = ['\n'] ∧ functions ≠ []) ∧ t = lead ++ functions.flatMap ('\n' :: ·)

lemma foldl_append_of_any {fs : List Text} (h : d.edits.any (·.span.start = d.source.width)) :
    fs.foldl (fun d s => d.append (.function s)) d =
      { d with edits := d.edits ++ fs.map fun s => ⟨⟨d.source.width, d.source.width⟩, .function s⟩ } := by
  induction fs generalizing d with
  | nil => simp
  | cons f fs ih =>
    have happend : d.append (.function f) =
        { d with edits := d.edits ++ [⟨⟨d.source.width, d.source.width⟩, .function f⟩] } := by
      unfold Document.append
      simp only [h, Bool.true_or, if_true]
      rfl
    rw [List.foldl_cons, happend, ih (by simp)]
    simp

/-- **Functions are appended at the end.** -/
lemma foldl_append_eq (d : Document) (fs : List Text) : ∃ ends, fs.foldl (fun d s => d.append (.function s)) d =
    { d with edits := d.edits ++ ends } ∧ (∀ e ∈ ends, e.IsAtEnd d.source) ∧ Appendix fs (pieces ends).flatten := by
  have htexts : ∀ fs : List Text, (pieces (fs.map fun s => ⟨⟨d.source.width, d.source.width⟩, .function s⟩)).flatten =
      fs.flatMap ('\n' :: ·) := by
    intro fs
    rw [List.flatMap_def, pieces, List.map_map]
    rfl
  rcases fs with _ | ⟨f, fs⟩
  · exact ⟨[], by simp, by simp, [], .inl rfl, rfl⟩
  obtain ⟨lead, hlead, happend⟩ : ∃ lead, (lead = [] ∨ lead = [⟨⟨d.source.width, d.source.width⟩, .text ['\n']⟩]) ∧
      d.append (.function f) =
        { d with edits := d.edits ++ (lead ++ [⟨⟨d.source.width, d.source.width⟩, .function f⟩]) } := by
    unfold Document.append
    dsimp only
    split
    · exact ⟨[], .inl rfl, rfl⟩
    · exact ⟨_, .inr rfl, by simp [Document.insertAt, Document.replace]⟩
  refine ⟨lead ++ (f :: fs).map fun s => ⟨⟨d.source.width, d.source.width⟩, .function s⟩, ?_, ?_, (pieces lead).flatten, ?_, ?_⟩
  · rw [List.foldl_cons, happend, foldl_append_of_any (by simp)]
    simp
  · intro e he
    rcases List.mem_append.1 he with he | he
    · rcases hlead with rfl | rfl
      · cases he
      · rw [List.mem_singleton.1 he]
        rfl
    · obtain ⟨g, -, rfl⟩ := List.mem_map.1 he
      rfl
  · rcases hlead with rfl | rfl
    · exact .inl rfl
    · exact .inr ⟨rfl, by simp⟩
  · rw [pieces_append, List.flatten_append, htexts]

/-! ### Map literals -/

lemma render_growingMap {body : Text} {entries : List (Text × EntryValue)} : GrowingMap.render ⟨body, entries⟩ =
    '{' :: (GrowingMap.renderBody body ++ (GrowingMap.bodyText entries ++ ['}'])) := by
  unfold GrowingMap.render GrowingMap.bodyText
  simp only [List.append_assoc, List.cons_append]
  rfl

lemma mem_of_lastCodeToken? {t : Token} (h : lastCodeToken? s = some t) : t ∈ tokens s := by
  suffices key : ∀ (ts : List Token) (last : Option Token), ts.foldl
      (fun last t => if t.kind = .stray then none else if t.kind.isSignificant then some t else last) last = some t →
      t ∈ ts ∨ last = some t by
    exact (key _ none h).resolve_right (by simp)
  intro ts
  induction ts with
  | nil => exact fun last h => .inr h
  | cons u ts ih =>
    intro last h
    rw [List.foldl_cons] at h
    rcases ih _ h with h | h
    · exact .inl (List.mem_cons_of_mem _ h)
    · split at h
      · cases h
      split at h
      · cases h
        exact .inl List.mem_cons_self
      · exact .inr h

/-- **The body of a map literal gains at most a comma**, and loses white space at its end. -/
lemma inserted_renderBody (body : Text) : ∃ (kept blanks : Text) (comma : List Text), body = kept ++ blanks ∧
    blanks.all Unicode.isSpace ∧ (comma = [] ∨ comma = [","]) ∧ Inserted comma kept (GrowingMap.renderBody body) := by
  have hbody := (Text.trimEnd_append_spaceAtEnd (a := body)).symm
  have hblanks := Text.all_spaceAtEnd (a := body)
  unfold GrowingMap.renderBody
  dsimp only
  generalize Text.trimEnd body = kept at hbody
  generalize Text.spaceAtEnd body = blanks at hbody hblanks
  split
  · next last e =>
    split
    · exact ⟨kept, blanks, [], hbody, hblanks, .inl rfl, .same kept⟩
    · obtain ⟨a, b, rfl, ha⟩ := (Token.isIn_of_mem_tokens (mem_of_lastCodeToken? e)).2
      refine ⟨a ++ b, blanks, [","], hbody, hblanks, .inr rfl, ?_⟩
      have hslice : Text.slice (a ++ b) 0 last.stop = a := by
        simpa [ha] using Text.slice_width_append (a := []) (b := a) (c := b)
      rw [hslice, ← ha, Text.dropBytes_width_append, List.append_assoc]
      exact .single
  · exact ⟨kept, blanks, [], hbody, hblanks, .inl rfl, .same kept⟩

end RuleWeaver
