import RuleWeaver.Document.Basic
import RuleWeaver.Proofs.Detection.Scanning
import RuleWeaver.Proofs.Source.Offsets

/-!
# Documents with insertions

Rendering a document whose edits take nothing away puts their nodes into the text (`renderFrom_insertions`).  One edit that
does take something away splits the others into those in front of it and those behind (`render_replacement`).
-/

namespace RuleWeaver

open Text (IsBoundary)

variable {a b s t u v : Text} {ps qs : List Text} {p : Text}

/-- Whether a text is another one with pieces put in, in their order. -/
inductive Inserted : List Text → Text → Text → Prop
  | same (s : Text) : Inserted [] s s
  | piece (a p : Text) {ps : List Text} {s t : Text} (h : Inserted ps s t) : Inserted (p :: ps) (a ++ s) (a ++ (p ++ t))

namespace Inserted

lemma prepend (h : Inserted ps s t) : Inserted ps (a ++ s) (a ++ t) := by
  cases h with
  | same => exact same _
  | piece b p h =>
    rw [← List.append_assoc, ← List.append_assoc]
    exact piece (a ++ b) p h

lemma append (h : Inserted ps s t) (h' : Inserted qs u v) : Inserted (ps ++ qs) (s ++ u) (t ++ v) := by
  induction h with
  | same s => exact h'.prepend
  | piece a p h ih =>
    rw [List.append_assoc, List.append_assoc, List.append_assoc]
    exact piece a p ih

/-- Pieces in front of everything else. -/
lemma flatten_append (h : Inserted qs s t) (ps : List Text) : Inserted (ps ++ qs) s (ps.flatten ++ t) := by
  induction ps with
  | nil => exact h
  | cons p ps ih =>
    rw [List.flatten_cons, List.append_assoc]
    exact piece [] p ih

lemma single : Inserted [p] (a ++ b) (a ++ (p ++ b)) := piece a p (same b)

/-- What was there is still there, in order. -/
theorem sublist (h : Inserted ps s t) : s.Sublist t := by
  induction h with
  | same s => exact List.Sublist.refl s
  | piece a p h ih => exact (List.Sublist.refl a).append (ih.trans (List.sublist_append_right p _))

end Inserted

/-! ### Edits that take nothing away -/

/-- Whether an edit puts a node into a text and takes nothing away. -/
structure Edit.IsInsertion (source : Text) (e : Edit) : Prop where
  stop : e.span.stop = e.span.start
  boundary : IsBoundary source e.span.start

/-- Whether an edit puts a node at the end of a text. -/
def Edit.IsAtEnd (source : Text) (e : Edit) : Prop := e.span = ⟨source.width, source.width⟩

lemma Edit.IsAtEnd.isInsertion {source : Text} {e : Edit} (h : e.IsAtEnd source) : e.IsInsertion source :=
  ⟨by rw [h], by rw [h]; exact Text.isBoundary_width⟩

/-- The texts that edits put in. -/
def pieces (es : List Edit) : List Text := es.map (·.node.render)

namespace Document

variable {es ends : List Edit} {e m : Edit}

@[simp] lemma pieces_nil : pieces [] = [] := rfl

@[simp] lemma pieces_cons : pieces (e :: es) = e.node.render :: pieces es := rfl

@[simp] lemma pieces_append : pieces (es ++ ends) = pieces es ++ pieces ends := List.map_append

/-- An edit that is not done yet is rendered behind the text in front of it. -/
lemma renderFrom_cons {w : Text} (es : List Edit) (hstart : e.span.start = (u ++ w).width) (hle : e.span.start ≤ e.span.stop) :
    renderFrom (u ++ (w ++ v)) u.width (e :: es) = w ++ (e.node.render ++ renderFrom (u ++ (w ++ v)) e.span.stop es) := by
  rw [Text.width_append] at hstart
  rw [renderFrom, Nat.max_eq_right (by omega), List.append_assoc]
  split
  · rw [hstart, Text.slice_width_append]
  · obtain rfl : w = [] := Text.width_eq_zero_iff.1 (by omega)
    rfl

/-- An edit whose range is done is rendered at once. -/
lemma renderFrom_cons_done {n : Nat} (es : List Edit) (hstart : e.span.start ≤ n) (hstop : e.span.stop ≤ n) :
    renderFrom s n (e :: es) = e.node.render ++ renderFrom s n es := by
  rw [renderFrom, if_neg (Nat.not_lt.2 hstart), Nat.max_eq_left hstop]
  rfl

/-- How an insertion is rendered: at its place, or at once when what stands there is done. -/
lemma renderFrom_insertion (es : List Edit) (he : e.IsInsertion (u ++ v)) :
    ∃ w t, v = w ++ t ∧ (u ++ w).width = max u.width e.span.start ∧
      renderFrom (u ++ v) u.width (e :: es) = w ++ (e.node.render ++ renderFrom ((u ++ w) ++ t) (u ++ w).width es) := by
  by_cases hlt : u.width < e.span.start
  · obtain ⟨w, t, rfl, hstart⟩ := he.boundary.cut (Nat.le_of_lt hlt)
    refine ⟨w, t, rfl, ?_, ?_⟩
    · rw [Nat.max_eq_right (Nat.le_of_lt hlt), hstart, Text.width_append]
    · rw [renderFrom_cons es (hstart.trans (Text.width_append u w).symm) (Nat.le_of_eq he.stop.symm), he.stop, hstart,
        ← Text.width_append, List.append_assoc]
  · refine ⟨[], v, rfl, ?_, ?_⟩
    · rw [Nat.max_eq_left (Nat.not_lt.1 hlt), List.append_nil]
    · rw [renderFrom_cons_done es (Nat.not_lt.1 hlt) (he.stop ▸ Nat.not_lt.1 hlt), List.append_nil]
      rfl

lemma renderFrom_ends (h : ∀ e ∈ ends, e.IsAtEnd (u ++ v)) : renderFrom (u ++ v) u.width ends = v ++ (pieces ends).flatten := by
  have hle : u.width ≤ (u ++ v).width := by
    rw [Text.width_append]
    exact Nat.le_add_right _ _
  induction ends generalizing u v with
  | nil =>
    rw [renderFrom, Nat.min_eq_left hle, Text.dropBytes_width_append]
    simp
  | cons e ends ih =>
    have he : e.IsInsertion (u ++ v) := (h e List.mem_cons_self).isInsertion
    obtain ⟨w, t, rfl, hw, hrender⟩ := renderFrom_insertion ends he
    have ht : t = [] := by
      rw [h e List.mem_cons_self, Nat.max_eq_right hle, ← List.append_assoc, Text.width_append (u ++ w)] at hw
      rw [← Text.width_eq_zero_iff]
      omega
    have hends : ∀ e ∈ ends, e.IsAtEnd ((u ++ w) ++ t) := by
      rw [List.append_assoc]
      exact fun e he => h e (List.mem_cons_of_mem _ he)
    rw [hrender, ih hends (by simp), ht]
    simp

/-- **Insertions put their nodes into the text.** -/
theorem renderFrom_insertions (u v : Text) (hes : ∀ e ∈ es, e.IsInsertion (u ++ v)) (h : ∀ e ∈ ends, e.IsAtEnd (u ++ v)) :
    ∃ t, renderFrom (u ++ v) u.width (es ++ ends) = t ++ (pieces ends).flatten ∧ Inserted (pieces es) v t := by
  induction es generalizing u v with
  | nil => exact ⟨v, renderFrom_ends h, .same v⟩
  | cons e es ih =>
    obtain ⟨w, t, rfl, -, hrender⟩ := renderFrom_insertion (es ++ ends) (hes e List.mem_cons_self)
    rw [← List.append_assoc] at hes h
    obtain ⟨t', hrest, hins⟩ := ih _ _ (fun e he => hes e (List.mem_cons_of_mem _ he)) h
    refine ⟨w ++ (e.node.render ++ t'), ?_, .piece w _ hins⟩
    rw [List.cons_append, hrender, hrest]
    simp

/-- Insertions in front of an edit that puts a node in place of a part of the text. -/
lemma renderFrom_replacement (u : Text) (hes : ∀ e ∈ es, e.IsInsertion (u ++ (v ++ (a ++ b))) ∧ e.span.start ≤ (u ++ v).width)
    (hm : m.span = ⟨(u ++ v).width, (u ++ v ++ a).width⟩) :
    ∃ t, renderFrom (u ++ (v ++ (a ++ b))) u.width (es ++ m :: ends) =
        t ++ (m.node.render ++ renderFrom ((u ++ v ++ a) ++ b) (u ++ v ++ a).width ends) ∧ Inserted (pieces es) v t := by
  induction es generalizing u v with
  | nil =>
    refine ⟨v, ?_, .same v⟩
    have hle : (u ++ v).width ≤ (u ++ v ++ a).width := by
      rw [Text.width_append (u ++ v)]
      exact Nat.le_add_right _ _
    rw [List.nil_append, renderFrom_cons ends (congrArg Source.Span.start hm) (by rw [hm]; exact hle), hm]
    simp only [List.append_assoc]
  | cons e es ih =>
    obtain ⟨he, hle⟩ := hes e List.mem_cons_self
    obtain ⟨w, t, e₁, hw, hrender⟩ := renderFrom_insertion (es ++ m :: ends) he
    have hwv : w.width ≤ v.width := by
      rw [Text.width_append] at hw hle
      omega
    obtain ⟨x, rfl, rfl⟩ := Text.append_eq_append_of_le e₁.symm hwv
    have e₂ : u ++ (w ++ x ++ (a ++ b)) = (u ++ w) ++ (x ++ (a ++ b)) := by simp
    have e₃ : u ++ (w ++ x) = (u ++ w) ++ x := by simp
    rw [e₂, e₃] at hes
    rw [e₃] at hm
    obtain ⟨t', hrest, hins⟩ := ih _ (fun e he => hes e (List.mem_cons_of_mem _ he)) hm
    refine ⟨w ++ (e.node.render ++ t'), ?_, .piece w _ hins⟩
    rw [List.cons_append, hrender, hrest, e₃]
    simp

/-! ### Documents -/

/-- Whether edits stand in the order of their offsets. -/
def IsOrdered (es : List Edit) : Prop := es.Pairwise fun a b => a.span.start ≤ b.span.start

lemma start_le_trans (a b c : Edit) (h : decide (a.span.start ≤ b.span.start) = true)
    (h' : decide (b.span.start ≤ c.span.start) = true) : decide (a.span.start ≤ c.span.start) = true :=
  decide_eq_true (Nat.le_trans (of_decide_eq_true h) (of_decide_eq_true h'))

lemma start_le_total (a b : Edit) : (decide (a.span.start ≤ b.span.start) || decide (b.span.start ≤ a.span.start)) = true := by
  simpa using Nat.le_total a.span.start b.span.start

lemma isOrdered_append_ends (hes : ∀ e ∈ es, e.IsInsertion s) (ho : IsOrdered es) (h : ∀ e ∈ ends, e.IsAtEnd s) :
    IsOrdered (es ++ ends) := by
  refine List.pairwise_append.2 ⟨ho, ?_, fun e he f hf => ?_⟩
  · refine List.pairwise_of_forall_mem_list fun e he f hf => ?_
    rw [h e he, h f hf]
  · rw [h f hf]
    exact (hes e he).boundary.le_width

/-- **What insertions make of a text.** -/
theorem render_insertions (hes : ∀ e ∈ es, e.IsInsertion s) (ho : IsOrdered es) (h : ∀ e ∈ ends, e.IsAtEnd s) :
    ∃ t, render ⟨s, es ++ ends⟩ = t ++ (pieces ends).flatten ∧ Inserted (pieces es) s t := by
  have hsorted : (es ++ ends).mergeSort (fun a b => a.span.start ≤ b.span.start) = es ++ ends := by
    refine List.mergeSort_of_pairwise ((isOrdered_append_ends hes ho h).imp fun h => ?_)
    exact decide_eq_true h
  rw [render, hsorted]
  exact renderFrom_insertions [] s hes h

/-- **What insertions and one replacement make of a text.** -/
theorem render_replacement (hs : s = u ++ (a ++ b)) (hm : m.span = ⟨u.width, (u ++ a).width⟩)
    (hes : ∀ e ∈ es, e.IsInsertion s) (ho : IsOrdered es) (h : ∀ e ∈ ends, e.IsAtEnd s) :
    ∃ es₁ es₂ t₁ t₂, es = es₁ ++ es₂ ∧ render ⟨s, m :: (es ++ ends)⟩ = t₁ ++ (m.node.render ++ (t₂ ++ (pieces ends).flatten)) ∧
      Inserted (pieces es₁) u t₁ ∧ Inserted (pieces es₂) b t₂ := by
  have hsorted : (es ++ ends).mergeSort (fun a b => a.span.start ≤ b.span.start) = es ++ ends := by
    refine List.mergeSort_of_pairwise ((isOrdered_append_ends hes ho h).imp fun h => ?_)
    exact decide_eq_true h
  obtain ⟨l₁, l₂, hsort, hrest, hbefore⟩ := List.mergeSort_cons start_le_trans start_le_total m (es ++ ends)
  rw [hsorted] at hrest
  have hlt : ∀ e ∈ l₁, e.span.start < u.width := by
    intro e he
    have := hbefore e he
    rw [hm] at this
    simpa using this
  have hu : u.width ≤ s.width := by
    rw [hs, Text.width_append]
    exact Nat.le_add_right _ _
  -- nothing that goes to the end stands in front of the replacement
  obtain ⟨es₂, rfl, rfl⟩ : ∃ es₂, es = l₁ ++ es₂ ∧ l₂ = es₂ ++ ends := by
    rcases List.append_eq_append_iff.1 hrest with ⟨l, rfl, e⟩ | ⟨l, rfl, e⟩
    · rcases l with _ | ⟨x, l⟩
      · exact ⟨[], by simp, by simpa using e.symm⟩
      · have hx := hlt x (by simp)
        rw [h x (by rw [e]; simp)] at hx
        exact absurd hx (Nat.not_lt.2 hu)
    · exact ⟨l, rfl, e⟩
  have hes₁ : ∀ e ∈ l₁, e.IsInsertion ([] ++ (u ++ (a ++ b))) ∧ e.span.start ≤ Text.width ([] ++ u) := by
    rw [List.nil_append, ← hs]
    exact fun e he => ⟨hes e (List.mem_append_left _ he), Nat.le_of_lt (hlt e he)⟩
  obtain ⟨t₁, hrender, hins₁⟩ := renderFrom_replacement [] hes₁ hm
  have hs' : ([] ++ u ++ a) ++ b = s := by rw [hs, List.nil_append, List.append_assoc]
  obtain ⟨t₂, hrender₂, hins₂⟩ := renderFrom_insertions ([] ++ u ++ a) b
    (by rw [hs']; exact fun e he => hes e (List.mem_append_right _ he)) (by rw [hs']; exact h)
  refine ⟨l₁, es₂, t₁, t₂, rfl, ?_, hins₁, hins₂⟩
  rw [render, hsort, ← hrender₂, ← hrender]
  simp [hs]

/-! ### Insertions at one place -/

/-- Whether edits put nodes at one offset and take nothing away. -/
def AreAt (n : Nat) (es : List Edit) : Prop := ∀ e ∈ es, e.span = ⟨n, n⟩

lemma AreAt.isInsertion (h : AreAt u.width es) : ∀ e ∈ es, e.IsInsertion (u ++ v) := by
  intro e he
  refine ⟨by rw [h e he], ?_⟩
  rw [h e he]
  exact Text.isBoundary_width_append

lemma AreAt.isOrdered {n : Nat} (h : AreAt n es) : IsOrdered es :=
  List.pairwise_of_forall_mem_list fun e he f hf => by rw [h e he, h f hf]

/-- Insertions at one place stand there in their order. -/
lemma renderFrom_at {x : Text} (hne : es ≠ []) (h : AreAt (u ++ x).width es) :
    renderFrom (u ++ (x ++ v)) u.width (es ++ ends) =
      x ++ ((pieces es).flatten ++ renderFrom ((u ++ x) ++ v) (u ++ x).width ends) := by
  induction es generalizing u x with
  | nil => exact absurd rfl hne
  | cons e es ih =>
    have hspan := h e List.mem_cons_self
    have he : e.IsInsertion (u ++ (x ++ v)) := by
      rw [← List.append_assoc]
      exact h.isInsertion e List.mem_cons_self
    obtain ⟨w, t, hw, hwidth, hrender⟩ := renderFrom_insertion (es ++ ends) he
    have hle : u.width ≤ (u ++ x).width := by
      rw [Text.width_append]
      omega
    rw [hspan, Nat.max_eq_right hle] at hwidth
    obtain ⟨hux, rfl⟩ := Text.append_inj_of_width (u := u ++ x) (v := v) (by rw [List.append_assoc, hw, List.append_assoc]) hwidth.symm
    obtain rfl : x = w := List.append_cancel_left hux
    rw [List.cons_append, hrender, pieces_cons, List.flatten_cons, List.append_assoc e.node.render]
    by_cases hes : es = []
    · subst hes
      simp
    · have hrest : AreAt ((u ++ x) ++ []).width es := by
        rw [List.append_nil]
        exact fun e he => h e (List.mem_cons_of_mem _ he)
      have := ih (u := u ++ x) (x := []) hes hrest
      rw [List.nil_append, List.append_nil, List.nil_append] at this
      rw [this]

/-- **What insertions at one place make of a text.** -/
theorem render_at (hs : s = u ++ v) (hes : AreAt u.width es) (h : ∀ e ∈ ends, e.IsAtEnd s) :
    render ⟨s, es ++ ends⟩ = u ++ ((pieces es).flatten ++ (v ++ (pieces ends).flatten)) := by
  subst hs
  by_cases hne : es = []
  · subst hne
    obtain ⟨t, ht, hins⟩ := render_insertions (List.forall_mem_nil _) List.Pairwise.nil h
    cases hins
    rw [ht]
    simp
  · have hsorted : (es ++ ends).mergeSort (fun a b => a.span.start ≤ b.span.start) = es ++ ends := by
      refine List.mergeSort_of_pairwise ((isOrdered_append_ends hes.isInsertion hes.isOrdered h).imp fun h => ?_)
      exact decide_eq_true h
    have hat := @renderFrom_at [] v es ends u hne hes
    simp only [List.nil_append] at hat
    rw [render, hsorted]
    refine hat.trans ?_
    rw [renderFrom_ends h]

/-- What insertions at two places make of a text. -/
theorem render_at_both {fs : List Edit} {w : Text} (hs : s = u ++ (v ++ w)) (hes : AreAt u.width es) (hfs : AreAt (u ++ v).width fs)
    (hne : fs ≠ []) (h : ∀ e ∈ ends, e.IsAtEnd s) :
    render ⟨s, es ++ (fs ++ ends)⟩ = u ++ ((pieces es).flatten ++ (v ++ ((pieces fs).flatten ++ (w ++ (pieces ends).flatten)))) := by
  have hs' : s = (u ++ v) ++ w := by rw [hs, List.append_assoc]
  by_cases hnil : es = []
  · subst hnil
    rw [List.nil_append, render_at hs' hfs h]
    simp
  · have hfsInsertion : ∀ e ∈ fs, e.IsInsertion s := hs' ▸ hfs.isInsertion
    have hesInsertion : ∀ e ∈ es, e.IsInsertion s := hs ▸ hes.isInsertion
    have ho : IsOrdered (es ++ fs) := by
      refine List.pairwise_append.2 ⟨hes.isOrdered, hfs.isOrdered, fun e he f hf => ?_⟩
      rw [hes e he, hfs f hf, Text.width_append]
      exact Nat.le_add_right _ _
    have hsorted : (es ++ (fs ++ ends)).mergeSort (fun a b => a.span.start ≤ b.span.start) = es ++ (fs ++ ends) := by
      rw [← List.append_assoc]
      refine List.mergeSort_of_pairwise ((isOrdered_append_ends (fun e he => ?_) ho h).imp fun h => decide_eq_true h)
      exact (List.mem_append.1 he).elim (hesInsertion e) (hfsInsertion e)
    have hat := @renderFrom_at [] (v ++ w) es (fs ++ ends) u hnil hes
    have hat' := @renderFrom_at u w fs ends v hne hfs
    simp only [List.nil_append] at hat
    rw [render, hsorted, hs]
    refine hat.trans ?_
    rw [hat', renderFrom_ends (hs' ▸ h)]

/-- A replacement goes between what stands in front of it and what stands behind it. -/
lemma mergeSort_replacement (ho : IsOrdered (es ++ ends)) (hes : ∀ e ∈ es, e.span.start < m.span.start)
    (h : ∀ e ∈ ends, m.span.start ≤ e.span.start) :
    (m :: (es ++ ends)).mergeSort (fun a b => a.span.start ≤ b.span.start) = es ++ m :: ends := by
  obtain ⟨l₁, l₂, hsort, hrest, hbefore⟩ := List.mergeSort_cons start_le_trans start_le_total m (es ++ ends)
  have hpairwise := List.pairwise_mergeSort start_le_trans start_le_total (m :: (es ++ ends))
  rw [hsort] at hpairwise
  have hbehind : ∀ e ∈ l₂, m.span.start ≤ e.span.start := fun e he =>
    of_decide_eq_true ((List.pairwise_cons.1 (List.pairwise_append.1 hpairwise).2.1).1 e he)
  rw [List.mergeSort_of_pairwise (ho.imp fun h => decide_eq_true h)] at hrest
  rw [hsort]
  rcases List.append_eq_append_iff.1 hrest with ⟨l, rfl, rfl⟩ | ⟨l, rfl, rfl⟩
  · rcases l with _ | ⟨x, l⟩
    · rw [List.append_nil, List.nil_append]
    · have := hbefore x (by simp)
      simp only [Bool.not_eq_true', decide_eq_false_iff_not] at this
      exact absurd (h x (by simp)) this
  · rcases l with _ | ⟨x, l⟩
    · rw [List.append_nil, List.nil_append]
    · exact absurd (hes x (by simp)) (Nat.not_lt.2 (hbehind x (by simp)))

/-- A replacement, with nothing but insertions at the end behind it. -/
lemma renderFrom_replaced (hm : m.span = ⟨(u ++ v).width, (u ++ v ++ a).width⟩)
    (h : ∀ e ∈ ends, e.IsAtEnd (u ++ (v ++ (a ++ b)))) :
    renderFrom (u ++ (v ++ (a ++ b))) u.width (m :: ends) = v ++ (m.node.render ++ (b ++ (pieces ends).flatten)) := by
  obtain ⟨t, ht, hins⟩ := @renderFrom_replacement a b v [] ends m u (by simp) hm
  cases hins
  have hs : u ++ (v ++ (a ++ b)) = (u ++ v ++ a) ++ b := by simp
  rw [hs] at h
  rw [← renderFrom_ends h, ← ht]
  rfl

/-- **What insertions at one place and a replacement behind them make of a text.** -/
theorem render_at_replacement (hs : s = u ++ (v ++ (a ++ b))) (hv : v ≠ []) (hes : AreAt u.width es)
    (hm : m.span = ⟨(u ++ v).width, (u ++ v ++ a).width⟩) (h : ∀ e ∈ ends, e.IsAtEnd s) :
    render ⟨s, m :: (es ++ ends)⟩ =
      u ++ ((pieces es).flatten ++ (v ++ (m.node.render ++ (b ++ (pieces ends).flatten)))) := by
  have hpos : 0 < v.width := Nat.pos_of_ne_zero (mt Text.width_eq_zero_iff.1 hv)
  have hstart : m.span.start = u.width + v.width := by rw [hm, Text.width_append]
  have hbefore : ∀ e ∈ es, e.span.start < m.span.start := by
    intro e he
    rw [hes e he, hstart]
    exact Nat.lt_add_of_pos_right hpos
  have hbehind : ∀ e ∈ ends, m.span.start ≤ e.span.start := by
    intro e he
    rw [h e he, hstart, hs]
    simp only [Text.width_append]
    omega
  have hinsertions : ∀ e ∈ es, e.IsInsertion s := by
    rw [hs]
    exact hes.isInsertion
  rw [render, mergeSort_replacement (isOrdered_append_ends hinsertions hes.isOrdered h) hbefore hbehind]
  subst hs
  by_cases hne : es = []
  · subst hne
    have hs : u ++ (v ++ (a ++ b)) = [] ++ ((u ++ v) ++ (a ++ b)) := by simp
    rw [hs] at h ⊢
    have hrender := renderFrom_replaced (u := []) (v := u ++ v) hm h
    refine hrender.trans ?_
    simp
  · have hat := @renderFrom_at [] (v ++ (a ++ b)) es (m :: ends) u hne hes
    simp only [List.nil_append] at hat
    rw [renderFrom_replaced hm h] at hat
    exact hat

/-- What a node in place of a part of a text makes of it. -/
lemma render_replace {node : Node} : ((ofText (u ++ (a ++ b))).replace ⟨u.width, (u ++ a).width⟩ node).render =
    u ++ (node.render ++ b) := by
  obtain ⟨es₁, es₂, t₁, t₂, hes, hrender, hins₁, hins₂⟩ :=
    @render_replacement a b _ u [] [] ⟨⟨u.width, (u ++ a).width⟩, node⟩ rfl rfl (List.forall_mem_nil _) List.Pairwise.nil
      (List.forall_mem_nil _)
  obtain ⟨rfl, rfl⟩ := List.append_eq_nil_iff.1 hes.symm
  cases hins₁
  cases hins₂
  simp only [List.append_nil, pieces_nil, List.flatten_nil] at hrender
  exact hrender

/-- What one node makes of a text. -/
lemma render_insertAt {node : Node} : ((ofText (u ++ v)).insertAt u.width node).render = u ++ (node.render ++ v) := by
  have h := @render_replace [] v u node
  rwa [List.append_nil, List.nil_append] at h

end Document

end RuleWeaver
