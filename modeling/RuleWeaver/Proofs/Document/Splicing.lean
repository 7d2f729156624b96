import RuleWeaver.Proofs.Document.Insertions

/-!
# Edits made at once

Rendering goes through the edits one by one, in the order of their offsets.  Where no edit reaches into the range of another,
the outcome is that of making all of them at once (`render_eq_splice`): in front of each character stands what is put at its
offset, and the character itself stays unless it is replaced.
-/

namespace RuleWeaver.Document

open Text (IsBoundary)

variable {s t u v w x y : Text} {es fs : List Edit} {e f : Edit} {n m : Nat} {d : Document}

/-! ### All edits at once -/

/-- The nodes that edits put at an offset, in the order of the edits. -/
def putAt (es : List Edit) (n : Nat) : List Text := pieces (es.filter (·.span.start = n))

/-- Whether an edit takes away what stands at an offset. -/
def isReplaced (es : List Edit) (n : Nat) : Bool := es.any fun e => e.span.start ≤ n ∧ n < e.span.stop

/-- A text at an offset after all edits: in front of each character stands what is put at its offset, and the character itself
stays unless it is replaced. -/
def splice (es : List Edit) (n : Nat) : Text → Text
  | [] => (putAt es n).flatten
  | c :: s => (putAt es n).flatten ++ ((if isReplaced es n then [] else [c]) ++ splice es (n + c.utf8Size) s)

/-- What edits leave of a text at an offset. -/
def remaining (es : List Edit) (n : Nat) : Text → Text
  | [] => []
  | c :: s => (if isReplaced es n then [] else [c]) ++ remaining es (n + c.utf8Size) s

/-- What edits put at the offsets of a text at an offset, in the order of the text. -/
def putThrough (es : List Edit) (n : Nat) : Text → List Text
  | [] => putAt es n
  | c :: s => putAt es n ++ putThrough es (n + c.utf8Size) s

/-- Whether edits can be made at once: their ranges can be cut out of the text, the ranges that they take away do not overlap,
and none puts a node inside such a range. -/
structure AreApart (s : Text) (es : List Edit) : Prop where
  ranges : ∀ e ∈ es, e.span.start ≤ e.span.stop ∧ IsBoundary s e.span.start ∧ IsBoundary s e.span.stop
  disjoint : (es.filter fun e => e.span.start < e.span.stop).Pairwise fun e f =>
    e.span.stop ≤ f.span.start ∨ f.span.stop ≤ e.span.start
  outside : ∀ e ∈ es, e.span.start = e.span.stop → ∀ f ∈ es, ¬ (f.span.start < e.span.start ∧ e.span.start < f.span.stop)

/-- Whether one of two edits ends where the other begins, or in front of that. -/
def Apart (e f : Edit) : Prop := e.span.stop ≤ f.span.start ∨ f.span.stop ≤ e.span.start

lemma Apart.symm (h : Apart e f) : Apart f e := Or.symm h

lemma AreApart.pairwise (h : AreApart s es) : es.Pairwise Apart := by
  have hdisjoint := h.disjoint
  rw [List.pairwise_filter] at hdisjoint
  refine hdisjoint.imp_of_mem fun {e f} he hf hapart => ?_
  have hle := (h.ranges e he).1
  have hle' := (h.ranges f hf).1
  unfold Apart
  by_cases hlt : e.span.start < e.span.stop
  · by_cases hlt' : f.span.start < f.span.stop
    · exact hapart (decide_eq_true hlt) (decide_eq_true hlt')
    · have := h.outside f hf (by omega) e he
      omega
  · have := h.outside e he (by omega) f hf
    omega

lemma AreApart.perm (h : AreApart s es) (hperm : fs.Perm es) : AreApart s fs where
  ranges := fun e he => h.ranges e (hperm.mem_iff.1 he)
  disjoint := ((hperm.filter _).pairwise_iff fun hapart => Or.symm hapart).2 h.disjoint
  outside := fun e he heq f hf => h.outside e (hperm.mem_iff.1 he) heq f (hperm.mem_iff.1 hf)

/-! ### What a splice is made of -/

@[simp] lemma putAt_cons : putAt (e :: es) n = if e.span.start = n then e.node.render :: putAt es n else putAt es n := by
  unfold putAt
  by_cases h : e.span.start = n <;> simp [h]

lemma putAt_eq_nil (h : ∀ e ∈ es, e.span.start ≠ n) : putAt es n = [] := by
  rw [putAt, List.filter_eq_nil_iff.2 fun e he => by simpa using h e he]
  rfl

lemma isReplaced_iff : isReplaced es n ↔ ∃ e ∈ es, e.span.start ≤ n ∧ n < e.span.stop := by
  simp [isReplaced]

lemma splice_congr (h : ∀ m, n ≤ m → putAt es m = putAt fs m ∧ isReplaced es m = isReplaced fs m) :
    splice es n s = splice fs n s := by
  induction s generalizing n with
  | nil => rw [splice, splice, (h n (Nat.le_refl n)).1]
  | cons c s ih =>
    rw [splice, splice, (h n (Nat.le_refl n)).1, (h n (Nat.le_refl n)).2, ih fun m hm => h m (by omega)]

/-- What is in front of all edits stays. -/
lemma splice_append_kept (h : ∀ e ∈ es, n + x.width ≤ e.span.start) : splice es n (x ++ y) = x ++ splice es (n + x.width) y := by
  induction x generalizing n with
  | nil => rfl
  | cons c x ih =>
    have hc := c.utf8Size_pos
    simp only [Text.width_cons] at h
    have hput : putAt es n = [] := putAt_eq_nil fun e he => by
      have := h e he
      omega
    have hreplaced : isReplaced es n = false := Bool.eq_false_iff.2 fun hr => by
      obtain ⟨e, he, hle, -⟩ := isReplaced_iff.1 hr
      have := h e he
      omega
    rw [List.cons_append, splice, hput, hreplaced, ih fun e he => by rw [Nat.add_assoc]; exact h e he, Text.width_cons,
      Nat.add_assoc]
    rfl

/-- Of what is replaced nothing is left. -/
lemma splice_append_replaced (hx : x ≠ []) (hreplaced : ∀ m, n ≤ m → m < n + x.width → isReplaced es m)
    (hput : ∀ m, n < m → m < n + x.width → putAt es m = []) :
    splice es n (x ++ y) = (putAt es n).flatten ++ splice es (n + x.width) y := by
  induction x generalizing n with
  | nil => exact absurd rfl hx
  | cons c x ih =>
    have hc := c.utf8Size_pos
    simp only [Text.width_cons] at hreplaced hput
    rw [List.cons_append, splice, if_pos (hreplaced n (Nat.le_refl n) (by omega)), List.nil_append, Text.width_cons, ← Nat.add_assoc]
    by_cases hnil : x = []
    · subst hnil
      rfl
    · have hwidth : 0 < Text.width x := Nat.pos_of_ne_zero (mt Text.width_eq_zero_iff.1 hnil)
      rw [ih hnil (fun m hm hlt => hreplaced m (by omega) (by omega)) (fun m hm hlt => hput m (by omega) (by omega)),
        hput (n + c.utf8Size) (by omega) (by omega)]
      rfl

/-- An edit that is done has no effect behind its range. -/
lemma splice_cons_done (hstart : e.span.start < n) (hstop : e.span.stop ≤ n) : splice (e :: es) n s = splice es n s := by
  refine splice_congr fun m hm => ⟨?_, ?_⟩
  · rw [putAt_cons, if_neg (by omega)]
  · have hout : ¬ (e.span.start ≤ m ∧ m < e.span.stop) := by omega
    simp [isReplaced, hout]

/-- An edit that takes nothing away puts its node in front of the others at its offset. -/
lemma splice_cons_insertion (hstart : e.span.start = n) (hstop : e.span.stop = n) :
    splice (e :: es) n s = e.node.render ++ splice es n s := by
  have hlater : ∀ {c : Char} {s : Text}, splice (e :: es) (n + c.utf8Size) s = splice es (n + c.utf8Size) s := fun {c s} => by
    have := c.utf8Size_pos
    exact splice_cons_done (by omega) (by omega)
  have hreplaced : isReplaced (e :: es) n = isReplaced es n := by simp [isReplaced, hstop]
  cases s with
  | nil => simp [splice, hstart]
  | cons c s => simp [splice, hstart, hlater, hreplaced]

/-- **The first edit.**  What is in front of it stays, its node stands in place of its range, and the nodes that are put at its
offset behind it follow at once. -/
lemma splice_cons (hn : n + w.width = e.span.start) (hx : e.span.start + x.width = e.span.stop)
    (hes : ∀ f ∈ es, e.span.start ≤ f.span.start ∧ f.span.start ≤ f.span.stop ∧ Apart e f) :
    splice (e :: es) n (w ++ (x ++ y)) =
      w ++ (e.node.render ++ ((pieces (es.filter (·.span.start < e.span.stop))).flatten ++ splice es e.span.stop y)) := by
  have hfront : ∀ f ∈ e :: es, n + w.width ≤ f.span.start := by
    intro f hf
    rw [hn]
    rcases List.mem_cons.1 hf with rfl | hf
    · exact Nat.le_refl _
    · exact (hes f hf).1
  rw [splice_append_kept hfront, hn]
  refine congrArg (w ++ ·) ?_
  by_cases hnil : x = []
  · -- nothing is taken away
    subst hnil
    have hstop : e.span.stop = e.span.start := by simpa using hx.symm
    have hfilter : es.filter (·.span.start < e.span.stop) = [] := List.filter_eq_nil_iff.2 fun f hf => by
      have := (hes f hf).1
      simp only [decide_eq_true_eq]
      omega
    rw [hfilter, hstop, List.nil_append, splice_cons_insertion rfl hstop]
    rfl
  · have hwidth : 0 < x.width := Nat.pos_of_ne_zero (mt Text.width_eq_zero_iff.1 hnil)
    have hfilter : es.filter (·.span.start < e.span.stop) = es.filter (·.span.start = e.span.start) := by
      refine List.filter_congr fun f hf => ?_
      obtain ⟨hle, hle', hapart⟩ := hes f hf
      unfold Apart at hapart
      refine decide_eq_decide.2 ?_
      omega
    have hput : ∀ m, e.span.start < m → m < e.span.start + x.width → putAt (e :: es) m = [] := by
      intro m hm hlt
      refine putAt_eq_nil fun f hf => ?_
      rcases List.mem_cons.1 hf with rfl | hf
      · omega
      · obtain ⟨hle, hle', hapart⟩ := hes f hf
        unfold Apart at hapart
        omega
    have hreplaced : ∀ m, e.span.start ≤ m → m < e.span.start + x.width → isReplaced (e :: es) m := fun m hm hlt =>
      isReplaced_iff.2 ⟨e, List.mem_cons_self, hm, by omega⟩
    rw [splice_append_replaced hnil hreplaced hput, hx, splice_cons_done (by omega) (Nat.le_refl _), hfilter, putAt_cons, if_pos rfl,
      List.flatten_cons, List.append_assoc]
    rfl

/-! ### Rendering -/

/-- Edits in order are rendered as if they were made at once.  Those that begin in front of the cursor are put at the beginning
of a range that is done. -/
lemma renderFrom_eq_splice (hranges : ∀ e ∈ es, e.span.start ≤ e.span.stop ∧ IsBoundary (u ++ v) e.span.start ∧
    IsBoundary (u ++ v) e.span.stop) (ho : IsOrdered es) (hapart : es.Pairwise Apart)
    (hdone : ∀ e ∈ es, e.span.start < u.width → e.span.stop ≤ u.width) :
    renderFrom (u ++ v) u.width es = (pieces (es.filter (·.span.start < u.width))).flatten ++ splice es u.width v := by
  induction es generalizing u v with
  | nil =>
    have hkept := @splice_append_kept v [] [] u.width (List.forall_mem_nil _)
    rw [List.append_nil] at hkept
    rw [renderFrom, Nat.min_eq_left (by rw [Text.width_append]; omega), Text.dropBytes_width_append, hkept]
    simp [splice, putAt]
  | cons e es ih =>
    obtain ⟨hle, hstart, hstop⟩ := hranges e List.mem_cons_self
    have hranges := fun f hf => hranges f (List.mem_cons_of_mem _ hf)
    have hdone' := fun f hf => hdone f (List.mem_cons_of_mem _ hf)
    obtain ⟨hfirst, ho⟩ := List.pairwise_cons.1 ho
    obtain ⟨happ, hapart⟩ := List.pairwise_cons.1 hapart
    by_cases hlt : e.span.start < u.width
    · have hle' := hdone e List.mem_cons_self hlt
      rw [renderFrom_cons_done es (Nat.le_of_lt hlt) hle', ih hranges ho hapart hdone', List.filter_cons_of_pos (by simpa using hlt),
        splice_cons_done hlt hle', pieces_cons, List.flatten_cons, List.append_assoc]
    · have hle' : u.width ≤ e.span.start := Nat.not_lt.1 hlt
      obtain ⟨w, z, rfl, hw⟩ := hstart.cut hle'
      rw [← List.append_assoc] at hstop
      obtain ⟨x, y, rfl, hx⟩ := hstop.cut (by rw [Text.width_append]; omega)
      have hbehind : (u ++ w ++ x).width = e.span.stop := by rw [Text.width_append, hx]
      have hnone : (e :: es).filter (·.span.start < u.width) = [] := List.filter_eq_nil_iff.2 fun f hf => by
        simp only [decide_eq_true_eq]
        rcases List.mem_cons.1 hf with rfl | hf
        · exact hlt
        · have := hfirst f hf
          omega
      have hassoc : u ++ (w ++ (x ++ y)) = (u ++ w ++ x) ++ y := by simp
      rw [Text.width_append] at hx
      rw [renderFrom_cons es (hw.trans (Text.width_append u w).symm) hle, hnone, splice_cons hw.symm (by omega) fun f hf =>
        ⟨hfirst f hf, (hranges f hf).1, happ f hf⟩, hassoc, ← hbehind, ih ?_ ho hapart ?_]
      · simp [pieces]
      · rw [← hassoc]
        exact hranges
      · intro f hf hlt
        rw [hbehind] at hlt ⊢
        have := happ f hf
        unfold Apart at this
        omega

/-- Edits at one offset keep their order when edits are put in the order of their offsets. -/
lemma filter_mergeSort : (es.mergeSort fun a b => a.span.start ≤ b.span.start).filter (·.span.start = n) =
    es.filter (·.span.start = n) := by
  have hat : ∀ e ∈ es.filter (·.span.start = n), e.span.start = n := fun e he => of_decide_eq_true (List.mem_filter.1 he).2
  have hordered : (es.filter (·.span.start = n)).Pairwise fun a b => decide (a.span.start ≤ b.span.start) = true :=
    List.pairwise_of_forall_mem_list fun a ha b hb => decide_eq_true (Nat.le_of_eq ((hat a ha).trans (hat b hb).symm))
  have hsub := (List.sublist_mergeSort start_le_trans start_le_total hordered List.filter_sublist).filter (·.span.start = n)
  rw [List.filter_filter, List.filter_congr fun a _ => Bool.and_self _] at hsub
  exact (hsub.eq_of_length ((List.mergeSort_perm _ _).symm.filter _).length_eq).symm

lemma splice_perm (hperm : fs.Perm es) (hsame : ∀ n, fs.filter (·.span.start = n) = es.filter (·.span.start = n)) :
    splice fs n s = splice es n s := by
  refine splice_congr fun m _ => ⟨by rw [putAt, hsame, putAt], ?_⟩
  rw [Bool.eq_iff_iff, isReplaced_iff, isReplaced_iff]
  exact exists_congr fun e => and_congr_left' hperm.mem_iff

lemma render_eq (h : AreApart s es) : render ⟨s, es⟩ = splice es 0 s := by
  have hperm := List.mergeSort_perm es fun a b => a.span.start ≤ b.span.start
  have hsorted := h.perm hperm
  have hordered : IsOrdered (es.mergeSort fun a b => a.span.start ≤ b.span.start) :=
    (List.pairwise_mergeSort start_le_trans start_le_total es).imp of_decide_eq_true
  have hrender := @renderFrom_eq_splice [] s _ hsorted.ranges hordered hsorted.pairwise fun e _ hlt => absurd hlt (Nat.not_lt_zero _)
  rw [List.filter_eq_nil_iff.2 fun e _ => by simp] at hrender
  exact hrender.trans (splice_perm hperm fun n => filter_mergeSort)

/-! ### What stays and what is put in -/

lemma inserted_splice : Inserted (putThrough es n s) (remaining es n s) (splice es n s) := by
  induction s generalizing n with
  | nil =>
    have h := (Inserted.same []).flatten_append (putAt es n)
    rwa [List.append_nil, List.append_nil] at h
  | cons c s ih => exact ih.prepend.flatten_append (putAt es n)

/-- Each node is put at one offset of the text, if edits begin where the text can be cut. -/
lemma putThrough_perm (h : ∀ e ∈ es, n ≤ e.span.start → ∃ m, e.span.start = n + m ∧ IsBoundary s m) :
    (putThrough es n s).Perm (pieces (es.filter (n ≤ ·.span.start))) := by
  induction s generalizing n with
  | nil =>
    have hend : es.filter (n ≤ ·.span.start) = es.filter (·.span.start = n) := by
      refine List.filter_congr fun e he => decide_eq_decide.2 ⟨fun hle => ?_, fun heq => Nat.le_of_eq heq.symm⟩
      obtain ⟨m, hm, hb⟩ := h e he hle
      have : m ≤ 0 := hb.le_width
      omega
    rw [hend, putThrough, putAt]
  | cons c s ih =>
    have hc := c.utf8Size_pos
    have hcut : ∀ e ∈ es, n ≤ e.span.start → e.span.start = n ∨ ∃ m, e.span.start = n + c.utf8Size + m ∧ IsBoundary s m := by
      intro e he hle
      obtain ⟨m, hm, u, v, hcut, rfl⟩ := h e he hle
      rcases u with _ | ⟨d, u⟩
      · exact .inl hm
      · rw [List.cons_append, List.cons.injEq] at hcut
        obtain ⟨rfl, rfl⟩ := hcut
        exact .inr ⟨Text.width u, by rw [hm, Text.width_cons, Nat.add_assoc], u, v, rfl, rfl⟩
    have hhere : (es.filter (n ≤ ·.span.start)).filter (·.span.start = n) = es.filter (·.span.start = n) := by
      rw [List.filter_filter]
      refine List.filter_congr fun e _ => ?_
      rw [← Bool.decide_and, decide_eq_decide]
      omega
    have hbehind : (es.filter (n ≤ ·.span.start)).filter (fun e => !decide (e.span.start = n)) =
        es.filter (n + c.utf8Size ≤ ·.span.start) := by
      rw [List.filter_filter]
      refine List.filter_congr fun e he => ?_
      rw [← decide_not, ← Bool.decide_and, decide_eq_decide]
      refine ⟨fun ⟨hne, hle⟩ => ?_, fun hle => by omega⟩
      obtain ⟨m, hm, -⟩ := (hcut e he hle).resolve_left hne
      omega
    have hrest := ih fun e he hle => (hcut e he (by omega)).resolve_left (by omega)
    rw [putThrough, putAt, ← hhere]
    rw [← hbehind] at hrest
    refine (hrest.append_left _).trans ?_
    rw [← pieces_append]
    exact (List.filter_append_perm _ _).map _

/-- **Rendering makes all edits at once.**  Where the ranges that are taken away do not overlap and nothing is put inside one of
them, each range is cut out and each node stands at the start of its range, nodes with one start in the order they were added.
What is outside the ranges is there once and in its order, between the nodes.  The order in which edits with different starts are
added does not matter. -/
theorem render_eq_splice (d : Document) (h : AreApart d.source d.edits) :
    d.render = splice d.edits 0 d.source ∧
      (∃ ps, ps.Perm (pieces d.edits) ∧ Inserted ps (remaining d.edits 0 d.source) d.render) ∧
      ∀ es : List Edit, es.Perm d.edits → (∀ n, es.filter (·.span.start = n) = d.edits.filter (·.span.start = n)) →
        render ⟨d.source, es⟩ = d.render := by
  have hrender : d.render = splice d.edits 0 d.source := render_eq h
  have hperm : (putThrough d.edits 0 d.source).Perm (pieces d.edits) := by
    have hall : d.edits.filter (0 ≤ ·.span.start) = d.edits := List.filter_eq_self.2 fun e _ => by simp
    have hput := putThrough_perm fun e he (_ : 0 ≤ e.span.start) =>
      ⟨e.span.start, (Nat.zero_add _).symm, (h.ranges e he).2.1⟩
    rwa [hall] at hput
  refine ⟨hrender, ⟨putThrough d.edits 0 d.source, hperm, ?_⟩, fun es hperm hsame => ?_⟩
  · rw [hrender]
    exact inserted_splice
  · rw [hrender, render_eq (h.perm hperm), splice_perm hperm hsame]

/-! ### Edits that touch -/

/-- Insertions on either side of a range that is replaced, and two at the end of the file, the later offsets first. -/
def touchingEdits : Document where
  source := "a old;"
  edits := [⟨⟨6, 6⟩, .text "\n"⟩, ⟨⟨5, 5⟩, .text ")"⟩, ⟨⟨2, 5⟩, .text "new"⟩, ⟨⟨6, 6⟩, .function "f"⟩, ⟨⟨2, 2⟩, .text "("⟩]

/-- Nodes with one start stand in the order they were added, that of the replaced range among them. -/
theorem touchingEdits_render : AreApart touchingEdits.source touchingEdits.edits ∧ touchingEdits.render = "a new();\n\nf" := by
  have hboundary : ∀ n ∈ [2, 5, 6], IsBoundary touchingEdits.source n := by
    intro n hn
    refine ⟨touchingEdits.source.take n, touchingEdits.source.drop n, (List.take_append_drop _ _).symm, ?_⟩
    revert n
    decide
  have hapart : AreApart touchingEdits.source touchingEdits.edits := by
    refine ⟨fun e he => ?_, by decide, by decide⟩
    have hspan : ∀ e ∈ touchingEdits.edits, e.span.start ≤ e.span.stop ∧ e.span.start ∈ [2, 5, 6] ∧ e.span.stop ∈ [2, 5, 6] := by
      decide
    obtain ⟨hle, hstart, hstop⟩ := hspan e he
    exact ⟨hle, hboundary _ hstart, hboundary _ hstop⟩
  exact ⟨hapart, (render_eq_splice touchingEdits hapart).1.trans (by decide)⟩

end RuleWeaver.Document
