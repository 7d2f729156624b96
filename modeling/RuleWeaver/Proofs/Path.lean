import RuleWeaver.Path
import RuleWeaver.Proofs.Text.Splitting
import Mathlib.Data.List.DropRight
import Mathlib.Data.List.Infix

/-!
# Paths by their parts

What a path means is the list of its parts.  Going up takes the last part away (`Path.parts_parent`), and a name seen from a
folder adds itself (`Path.parts_join`), however the paths are written.
-/

namespace RuleWeaver

namespace Path

variable {p q folder : Path} {segment n : Text} {names : List Text}

/-! ### Segments -/

lemma segments_append_cons (a b : Path) : segments (a ++ '/' :: b) = segments a ++ segments b :=
  Text.split_append_cons (by decide)

lemma segments_of_notMem (h : '/' ∉ n) : segments n = [n] :=
  Text.split_of_forall fun _ hc => decide_eq_false fun hslash => h (hslash ▸ hc)

lemma segments_join (hnames : names ≠ []) (h : ∀ n ∈ names, '/' ∉ n) : segments (Text.join ['/'] names) = names :=
  Text.split_join hnames (fun n hn _ hc => decide_eq_false fun hslash => h n hn (hslash ▸ hc)) (by decide)

lemma notMem_of_mem_segments (h : segment ∈ segments p) : '/' ∉ segment := fun hslash =>
  of_decide_eq_false (Text.not_of_mem_split h hslash) rfl

/-- The parts that segments behind the first stand for. -/
def partsOf (segments : List Text) : List Part := segments.filterMap part?

lemma partsOf_append (a b : List Text) : partsOf (a ++ b) = partsOf a ++ partsOf b := List.filterMap_append

@[simp] lemma partsOf_nil : partsOf [] = [] := rfl

lemma partsOf_cons (segment : Text) (segments : List Text) :
    partsOf (segment :: segments) = (part? segment).toList ++ partsOf segments := by
  unfold partsOf
  rw [List.filterMap_cons]
  cases part? segment <;> rfl

lemma part?_eq_none_iff : part? segment = none ↔ isIdle segment := by
  unfold part?
  split
  · next h => simp [h]
  · next h =>
    simp only [h, Bool.false_eq_true, iff_false]
    split <;> exact Option.some_ne_none _

lemma partsOf_append_idle (segments : List Text) (h : isIdle segment) : partsOf (segments ++ [segment]) = partsOf segments := by
  rw [partsOf_append, partsOf_cons, part?_eq_none_iff.2 h, partsOf_nil, Option.toList_none, List.append_nil, List.append_nil]

@[simp] lemma partsOf_dropIdle (segments : List Text) : partsOf (dropIdle segments) = partsOf segments := by
  induction segments using List.reverseRecOn with
  | nil => rfl
  | append_singleton segments s ih =>
    change partsOf (List.rdropWhile isIdle (segments ++ [s])) = _
    rw [List.rdropWhile_concat]
    split
    · next hidle => exact ih.trans (partsOf_append_idle segments hidle).symm
    · rfl

/-- Taking the last segment that says something away takes the last part away. -/
lemma partsOf_dropIdle_dropLast {segments : List Text} (h : dropIdle segments ≠ []) :
    partsOf segments ≠ [] ∧ partsOf (dropIdle (dropIdle segments).dropLast) = (partsOf segments).dropLast := by
  obtain ⟨t, ht⟩ : ∃ t, part? ((dropIdle segments).getLast h) = some t := by
    rw [← Option.ne_none_iff_exists', Ne, part?_eq_none_iff]
    exact List.rdropWhile_last_not isIdle segments h
  have hlast : partsOf segments = partsOf (dropIdle segments).dropLast ++ [t] := by
    rw [← partsOf_dropIdle segments]
    conv_lhs => rw [← List.dropLast_append_getLast h, partsOf_append]
    rw [partsOf_cons, ht, partsOf_nil, Option.toList_some, List.append_nil]
  rw [hlast]
  refine ⟨List.append_ne_nil_of_right_ne_nil _ (List.cons_ne_nil _ _), ?_⟩
  rw [partsOf_dropIdle, List.dropLast_concat]

lemma partsOf_segments_join {segments : List Text} (h : ∀ s ∈ segments, '/' ∉ s) :
    partsOf (Path.segments (Text.join ['/'] segments)) = partsOf segments := by
  by_cases hnil : segments = []
  · rw [hnil]
    rfl
  · rw [segments_join hnil h]

/-! ### Parts -/

lemma segments_slash (p : Path) : segments ('/' :: p) = [] :: segments p := rfl

lemma parts_slash (p : Path) : parts ('/' :: p) = .root :: partsOf (segments p) := by
  unfold parts
  rw [segments_slash]
  simp only [if_true, Text.split_ne_nil, segments, if_false, List.singleton_append]
  rfl

lemma parts_dotSlash (p : Path) : parts ('.' :: '/' :: p) = .here :: partsOf (segments p) := rfl

/-- Whether the first segment says something wherever it stands. -/
def IsPlain (p : Path) : Prop := ∃ s rest, segments p = s :: rest ∧ isIdle s = false

lemma parts_of_isPlain (h : p.IsPlain) : p.parts = partsOf (segments p) := by
  obtain ⟨s, rest, hsegments, hidle⟩ := h
  have hne : s ≠ [] ∧ s ≠ "." := by
    simpa [isIdle] using hidle
  unfold parts
  rw [hsegments]
  simp only [hne.1, hne.2, if_false]
  exact (partsOf_cons _ _).symm

/-- How a path can begin. -/
lemma splitLead_cases (p : Path) : p = [] ∨ (∃ rest, p = '/' :: rest) ∨ p = ['.'] ∨ (∃ rest, p = '.' :: '/' :: rest) ∨
    (splitLead p = ([], p) ∧ p.IsPlain) := by
  unfold splitLead
  split
  · exact .inr (.inl ⟨_, rfl⟩)
  · exact .inr (.inr (.inl rfl))
  · exact .inr (.inr (.inr (.inl ⟨_, rfl⟩)))
  · next hslash hdot hdotSlash =>
    cases p with
    | nil => exact .inl rfl
    | cons c rest =>
      refine .inr (.inr (.inr (.inr ⟨rfl, ?_⟩)))
      have hc : c ≠ '/' := fun e => hslash rest (e ▸ rfl)
      obtain ⟨w, ws, hrest⟩ : ∃ w ws, segments rest = w :: ws := List.exists_cons_of_ne_nil Text.split_ne_nil
      refine ⟨c :: w, ws, ?_, ?_⟩
      · rw [segments] at hrest
        simp only [segments, Text.split, hc, hrest, decide_false, Bool.false_eq_true, if_false]
      · by_contra hidle
        have hdotted : c :: w = ".".toList := by simpa [isIdle] using hidle
        obtain ⟨rfl, rfl⟩ := List.cons.inj hdotted
        obtain rfl | ⟨d, t, rfl, hd⟩ := Text.eq_nil_or_of_split_eq_nil_cons hrest
        · exact hdot rfl
        · obtain rfl := of_decide_eq_true hd
          exact hdotSlash t rfl

lemma exists_cons_of_prefix_cons {s : Text} {rest a : List Text} (h : a <+: s :: rest) (ha : a ≠ []) :
    ∃ b, a = s :: b ∧ b <+: rest := by
  obtain rfl | ⟨b, rfl, hb⟩ := List.prefix_cons_iff.1 h
  · exact absurd rfl ha
  · exact ⟨b, rfl, hb⟩

/-- **Going up** takes the last part away. -/
theorem parts_parent (p : Path) : p.parent.parts = p.parts.dropLast := by
  have hahead : ∀ body : Text, dropIdle (dropIdle (segments body)).dropLast <+: segments body := fun body =>
    List.IsPrefix.trans (List.rdropWhile_prefix _ _) (List.IsPrefix.trans (List.dropLast_prefix _) (List.rdropWhile_prefix _ _))
  have hslash : ∀ body : Text, ∀ s ∈ dropIdle (dropIdle (segments body)).dropLast, '/' ∉ s := fun body s hs =>
    notMem_of_mem_segments ((hahead body).subset hs)
  rcases splitLead_cases p with rfl | ⟨rest, rfl⟩ | rfl | ⟨rest, rfl⟩ | ⟨hlead, hplain⟩
  · rfl
  · rw [parts_slash, parent]
    simp only [splitLead]
    split
    · next hnone =>
      rw [← partsOf_dropIdle, hnone]
      rfl
    · next hsome =>
      obtain ⟨hne, hup⟩ := partsOf_dropIdle_dropLast hsome
      rw [List.singleton_append, parts_slash, partsOf_segments_join (hslash rest), hup, List.dropLast_cons_of_ne_nil hne]
  · rfl
  · rw [parts_dotSlash, parent]
    simp only [splitLead]
    split
    · next hnone =>
      have hparts : partsOf (segments rest) = partsOf (segments ('/' :: rest)) := rfl
      rw [hparts, ← partsOf_dropIdle, hnone]
      rfl
    · next hsome =>
      obtain ⟨hne, hup⟩ := partsOf_dropIdle_dropLast hsome
      have hjoin : ∀ a : List Text, a <+: segments ('/' :: rest) → (∀ s ∈ a, '/' ∉ s) →
          parts (['.'] ++ Text.join ['/'] a) = .here :: partsOf a := by
        intro a ha hnames
        by_cases hnil : a = []
        · rw [hnil]
          rfl
        obtain ⟨b, rfl, -⟩ := exists_cons_of_prefix_cons ha hnil
        cases b with
        | nil => rfl
        | cons n b =>
          refine (parts_dotSlash _).trans (congrArg (Part.here :: ·) ?_)
          exact (partsOf_segments_join fun s hs => hnames s (List.mem_cons_of_mem _ hs)).trans rfl
      rw [hjoin _ (hahead _) (hslash _), hup]
      exact (List.dropLast_cons_of_ne_nil hne).symm
  · rw [parts_of_isPlain hplain, parent, hlead]
    simp only
    split
    · next hnone =>
      rw [← partsOf_dropIdle, hnone]
      rfl
    · next hsome =>
      obtain ⟨-, hup⟩ := partsOf_dropIdle_dropLast hsome
      rw [List.nil_append, ← hup, ← partsOf_segments_join (hslash p)]
      by_cases hnil : dropIdle (dropIdle (segments p)).dropLast = []
      · rw [hnil]
        rfl
      · obtain ⟨s, rest, hsegments, hidle⟩ := hplain
        obtain ⟨b, hb, -⟩ := exists_cons_of_prefix_cons ((hahead p).trans (by rw [hsegments])) hnil
        exact parts_of_isPlain ⟨s, b, (segments_join hnil (hslash p)).trans hb, hidle⟩

lemma segments_eq_singleton_nil_iff : segments p = [[]] ↔ p = [] := by
  refine ⟨fun h => ?_, by rintro rfl; rfl⟩
  obtain rfl | ⟨c, t, rfl, hc⟩ := Text.eq_nil_or_of_split_eq_nil_cons h
  · rfl
  · rw [segments, Text.split, if_pos hc] at h
    exact absurd (List.cons.inj h).2 Text.split_ne_nil

lemma parts_append_slash (p q : Path) : parts (p ++ '/' :: q) = parts (p ++ ['/']) ++ partsOf (segments q) := by
  obtain ⟨s, rest, hsegments⟩ : ∃ s rest, segments p = s :: rest := List.exists_cons_of_ne_nil Text.split_ne_nil
  have hslash : segments (p ++ ['/']) = s :: (rest ++ [[]]) := (segments_append_cons p []).trans (by rw [hsegments]; rfl)
  have hq : rest ++ segments q ≠ [] := List.append_ne_nil_of_right_ne_nil _ Text.split_ne_nil
  unfold parts
  rw [segments_append_cons, hsegments, hslash, List.cons_append]
  simp only [hq, List.append_ne_nil_of_right_ne_nil, ne_eq, List.cons_ne_nil, not_false_eq_true, if_false]
  rw [List.append_assoc]
  congr 1
  exact (partsOf_append _ _).trans (congrArg (· ++ _) (partsOf_append_idle rest rfl).symm)

/-- A separator at the end says nothing. -/
lemma parts_append_slash_nil (h : p ≠ []) : parts (p ++ ['/']) = parts p := by
  obtain ⟨s, rest, hsegments⟩ : ∃ s rest, segments p = s :: rest := List.exists_cons_of_ne_nil Text.split_ne_nil
  have hslash : segments (p ++ ['/']) = s :: (rest ++ [[]]) := (segments_append_cons p []).trans (by rw [hsegments]; rfl)
  have hrest : s = [] → rest ≠ [] := by
    rintro rfl rfl
    exact h (segments_eq_singleton_nil_iff.1 hsegments)
  unfold parts
  rw [hsegments, hslash]
  simp only [List.append_ne_nil_of_right_ne_nil, ne_eq, List.cons_ne_nil, not_false_eq_true, if_false]
  congr 1
  · by_cases hs : s = []
    · simp only [hs, hrest hs, if_true, if_false]
    · simp only [hs, if_false]
  · exact partsOf_append_idle rest rfl

/-- A path seen from a folder continues the path of the folder. -/
lemma exists_join_eq (hfolder : folder ≠ []) (hp : p.head? ≠ some '/') :
    ∃ q, q ++ '/' :: p = folder.join p ∧ parts (q ++ ['/']) = folder.parts := by
  unfold join
  rw [if_neg hp]
  by_cases hlast : folder.getLast? = some '/'
  · obtain ⟨q, rfl⟩ := List.getLast?_eq_some_iff.1 hlast
    refine ⟨q, ?_, rfl⟩
    rw [if_pos (by simp), List.append_assoc, List.singleton_append]
  · exact ⟨folder, by rw [if_neg (by simp [hlast, hfolder])], parts_append_slash_nil hfolder⟩

/-- **Seen from a folder** a path adds its parts. -/
theorem parts_join (hfolder : folder ≠ []) (hp : p.head? ≠ some '/') :
    (folder.join p).parts = folder.parts ++ partsOf (segments p) := by
  obtain ⟨q, hq, hparts⟩ := exists_join_eq hfolder hp
  rw [← hq, parts_append_slash, hparts]

/-- Seen from a folder a path ends as it does. -/
lemma getLast?_segments_join (folder p : Path) : (segments (folder.join p)).getLast? = (segments p).getLast? := by
  by_cases hp : p.head? = some '/'
  · rw [join, if_pos hp]
  by_cases hfolder : folder = []
  · subst hfolder
    rw [join, if_neg hp]
    rfl
  obtain ⟨q, hq, -⟩ := exists_join_eq hfolder hp
  rw [← hq, segments_append_cons]
  exact List.getLast?_append_of_ne_nil _ Text.split_ne_nil

lemma parts_eq_nil_iff : p.parts = [] ↔ p = [] := by
  refine ⟨fun h => ?_, fun h => h ▸ rfl⟩
  rcases splitLead_cases p with rfl | ⟨rest, rfl⟩ | rfl | ⟨rest, rfl⟩ | ⟨-, hplain⟩
  · rfl
  · rw [parts_slash] at h
    cases h
  · cases h
  · cases h
  · rw [parts_of_isPlain hplain] at h
    obtain ⟨s, rest, hsegments, hidle⟩ := hplain
    rw [hsegments, partsOf, List.filterMap_eq_nil_iff] at h
    rw [part?_eq_none_iff.1 (h s List.mem_cons_self)] at hidle
    cases hidle

/-! ### Names -/

/-- Whether a text can be the name of a file. -/
def IsName (n : Text) : Prop := part? n = some (.name n) ∧ '/' ∉ n

instance (n : Text) : Decidable (IsName n) := inferInstanceAs (Decidable (_ ∧ _))

/-- What else a text without separators can stand for. -/
lemma isName_or (h : '/' ∉ n) : IsName n ∨ part? n = none ∨ part? n = some .up := by
  unfold IsName part?
  split
  · exact .inr (.inl rfl)
  split
  · exact .inr (.inr rfl)
  · exact .inl ⟨rfl, h⟩

lemma partsOf_names (h : ∀ n ∈ names, IsName n) : partsOf names = names.map .name := by
  rw [partsOf, ← List.filterMap_eq_map]
  exact List.filterMap_congr fun n hn => (h n hn).1

lemma head?_ne_slash (h : '/' ∉ n) : n.head? ≠ some '/' := fun hslash => h (List.mem_of_head? hslash)

lemma head?_join_ne_slash (h : ∀ n ∈ names, IsName n) : (Text.join ['/'] names).head? ≠ some '/' := by
  cases names with
  | nil => exact fun h => nomatch h
  | cons n names =>
    obtain ⟨hn, hslash⟩ := h n List.mem_cons_self
    have hne : n ≠ [] := by
      rintro rfl
      cases hn
    obtain ⟨c, t, rfl⟩ := List.exists_cons_of_ne_nil hne
    have hc : c ≠ '/' := fun e => hslash (e ▸ List.mem_cons_self)
    cases names <;> simpa [Text.join] using hc

/-- Names seen from a folder. -/
lemma parts_join_names (hfolder : folder ≠ []) (h : ∀ n ∈ names, IsName n) :
    (folder.join (Text.join ['/'] names)).parts = folder.parts ++ names.map .name := by
  rw [parts_join hfolder (head?_join_ne_slash h), partsOf_segments_join fun n hn => (h n hn).2, partsOf_names h]

lemma isName_of_suffix {ending : Text} (hn : '/' ∉ n) (hlength : 2 < ending.length) (h : ending <:+ n) : IsName n := by
  have hlong := hlength.trans_le h.length_le
  refine (isName_or hn).resolve_right ?_
  unfold part? isIdle
  rintro (hpart | hpart)
  · split at hpart
    · next hidle =>
      rcases (by simpa using hidle : n = [] ∨ n = ".".toList) with rfl | rfl <;> exact absurd hlong (by decide)
    · split at hpart <;> cases hpart
  · split at hpart
    · cases hpart
    · split at hpart
      · next hup =>
        subst hup
        exact absurd hlong (by decide)
      · cases hpart

/-! ### The last name of a path -/

/-- The last segment of a path ends with everything without separators that the path ends with. -/
lemma exists_last_segment (p : Path) : ∃ n, (segments p).getLast? = some n ∧ '/' ∉ n ∧ ∀ ending, '/' ∉ ending →
    (ending <:+ p ↔ ending <:+ n) := by
  by_cases hp : '/' ∈ p
  · obtain ⟨a, b, hab⟩ := List.append_of_mem hp
    obtain ⟨n, hlast, hn, hending⟩ := exists_last_segment b
    refine ⟨n, ?_, hn, fun ending hslash => ?_⟩
    · rw [hab, segments_append_cons, ← hlast]
      exact List.getLast?_append_of_ne_nil _ Text.split_ne_nil
    · have hb : '/' :: b <:+ p := hab ▸ List.suffix_append a _
      rw [← hending ending hslash]
      refine ⟨fun h => ?_, fun h => (h.trans (List.suffix_cons _ _)).trans hb⟩
      -- an ending that is longer has the separator
      rcases List.suffix_or_suffix_of_suffix h hb with h | h
      · rcases List.suffix_cons_iff.1 h with rfl | h
        · exact absurd List.mem_cons_self hslash
        · exact h
      · exact absurd (h.subset List.mem_cons_self) hslash
  · exact ⟨p, by rw [segments_of_notMem hp]; rfl, hp, fun _ _ => Iff.rfl⟩
termination_by p.length
decreasing_by
  rw [hab, List.length_append, List.length_cons]
  omega

lemma fileName?_of_getLast? (hn : IsName n) (h : (segments p).getLast? = some n) : p.fileName? = some n := by
  obtain ⟨ahead, hahead⟩ := List.getLast?_eq_some_iff.1 h
  have hparts : p.parts.getLast? = some (.name n) := by
    cases ahead with
    | nil =>
      have hidle : isIdle n = false := by
        rw [← Bool.not_eq_true, ← part?_eq_none_iff, hn.1]
        exact Option.some_ne_none _
      rw [parts_of_isPlain ⟨n, [], hahead, hidle⟩, hahead]
      simp [partsOf, hn.1]
    | cons first ahead =>
      unfold parts
      rw [hahead, List.cons_append]
      change (_ ++ partsOf (ahead ++ [n])).getLast? = _
      rw [partsOf_append, partsOf_cons, hn.1, ← List.append_assoc]
      exact List.getLast?_concat
  rw [fileName?, hparts]

/-! ### The order of paths -/

lemma Part.le_total (a b : Part) : a.le b ∨ b.le a := by
  cases a <;> cases b <;> first | exact Text.le_total | exact .inl rfl | exact .inr rfl

lemma Part.le_trans {a b c : Part} (h : a.le b) (h' : b.le c) : a.le c := by
  cases a <;> cases b <;> cases c <;> first | exact Text.le_trans h h' | simp_all [Part.le]

lemma Part.le_antisymm {a b : Part} (h : a.le b) (h' : b.le a) : a = b := by
  cases a <;> cases b <;> first | exact congrArg _ (Text.le_antisymm h h') | simp_all [Part.le]

lemma partsLe_total (a b : List Part) : partsLe a b ∨ partsLe b a := by
  induction a generalizing b with
  | nil => exact .inl rfl
  | cons x a ih =>
    cases b with
    | nil => exact .inr rfl
    | cons y b =>
      by_cases h : x = y
      · simpa [partsLe, h] using ih b
      · simpa [partsLe, h, Ne.symm h] using Part.le_total x y

lemma partsLe_antisymm {a b : List Part} (h : partsLe a b) (h' : partsLe b a) : a = b := by
  induction a generalizing b with
  | nil =>
    cases b with
    | nil => rfl
    | cons y b => cases h'
  | cons x a ih =>
    cases b with
    | nil => cases h
    | cons y b =>
      by_cases hxy : x = y
      · subst hxy
        simp only [partsLe, if_true] at h h'
        rw [ih h h']
      · simp only [partsLe, hxy, Ne.symm hxy, if_false] at h h'
        exact absurd (Part.le_antisymm h h') hxy

lemma partsLe_trans {a b c : List Part} (h : partsLe a b) (h' : partsLe b c) : partsLe a c := by
  induction a generalizing b c with
  | nil => rfl
  | cons x a ih =>
    cases b with
    | nil => cases h
    | cons y b =>
      cases c with
      | nil => cases h'
      | cons z c =>
        simp only [partsLe] at h h' ⊢
        by_cases hxy : x = y
        · subst hxy
          by_cases hyz : x = z
          · simp only [hyz, if_true] at h h' ⊢
            exact ih h h'
          · simp only [hyz, if_false] at h' ⊢
            exact h'
        · simp only [hxy, if_false] at h
          by_cases hyz : y = z
          · subst hyz
            simpa only [hxy, if_false] using h
          · simp only [hyz, if_false] at h'
            have hxz : x ≠ z := fun e => hxy (Part.le_antisymm h (e ▸ h'))
            simpa only [hxz, if_false] using Part.le_trans h h'

lemma same_iff : p.same q ↔ p.parts = q.parts := decide_eq_true_iff

lemma same_of_le (h : p.le q) (h' : q.le p) : p.same q := same_iff.2 (partsLe_antisymm h h')

lemma le_of_same (h : p.same q) : p.le q := by
  rw [same_iff] at h
  unfold le
  rw [h]
  exact (partsLe_total _ _).elim id id

end Path

end RuleWeaver
