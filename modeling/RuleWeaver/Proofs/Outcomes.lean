import Mathlib.Tactic.Lemma
import Mathlib.Tactic.Common

/-!
# Outcomes

What computations that may fail give, put together from what their parts give: sequences of them, their results and errors
changed, and several of them one after the other.
-/

namespace RuleWeaver

variable {ε ε' α β : Type} {x : Except ε α}

lemma ok_of_toOption {a : α} (h : x.toOption = some a) : x = .ok a := by
  cases x with
  | error => cases h
  | ok => cases h; rfl

/-- What a sequence of computations that succeeds does. -/
lemma exists_of_bind_eq_ok {f : α → Except ε β} {b : β} (h : (x >>= f) = .ok b) :
    ∃ a, x = .ok a ∧ f a = .ok b := by
  cases x with
  | error => cases h
  | ok a => exact ⟨a, rfl, h⟩

lemma bind_ok {f : α → Except ε β} {a : α} (h : x = .ok a) : (x >>= f) = f a := by
  rw [h]
  rfl

lemma exists_of_map_eq_ok {f : α → β} {b : β} (h : x.map f = .ok b) :
    ∃ a, x = .ok a ∧ f a = b := by
  cases x with
  | error => cases h
  | ok a => exact ⟨a, rfl, Except.ok.inj h⟩

/-- What a sequence of computations that fails does. -/
lemma error_of_bind_eq_error {f : α → Except ε β} {e : ε} (h : (x >>= f) = .error e) :
    x = .error e ∨ ∃ a, x = .ok a ∧ f a = .error e := by
  cases x with
  | error => exact .inl (congrArg Except.error (Except.error.inj h))
  | ok a => exact .inr ⟨a, rfl, h⟩

lemma error_of_map_eq_error {f : α → β} {e : ε} (h : x.map f = .error e) : x = .error e := by
  cases x with
  | error => exact congrArg Except.error (Except.error.inj h)
  | ok a => cases h

lemma exists_of_mapError_eq_error {f : ε → ε'} {e : ε'} (h : x.mapError f = .error e) :
    ∃ c, f c = e := by
  cases x with
  | error c => exact ⟨c, Except.error.inj h⟩
  | ok => cases h

lemma ok_of_mapError_eq_ok {f : ε → ε'} {a : α} (h : x.mapError f = .ok a) : x = .ok a := by
  cases x with
  | error => cases h
  | ok => exact congrArg Except.ok (Except.ok.inj h)

/-- Of several computations that fail one does. -/
lemma exists_of_mapM_eq_error {f : α → Except ε β} {xs : List α} {e : ε} (h : xs.mapM f = .error e) :
    ∃ x ∈ xs, f x = .error e := by
  induction xs with
  | nil => cases h
  | cons a xs ih =>
    rw [List.mapM_cons] at h
    rcases error_of_bind_eq_error h with h | ⟨b, -, h⟩
    · exact ⟨a, List.mem_cons_self, h⟩
    · rcases error_of_bind_eq_error h with h | ⟨bs, -, h⟩
      · obtain ⟨x, hx, hfails⟩ := ih h
        exact ⟨x, List.mem_cons_of_mem _ hx, hfails⟩
      · cases h

lemma mapM_congr {f f' : α → Except ε β} {xs : List α} (h : ∀ x ∈ xs, f x = f' x) : xs.mapM f = xs.mapM f' := by
  induction xs with
  | nil => rfl
  | cons a xs ih =>
    obtain ⟨ha, hxs⟩ := List.forall_mem_cons.1 h
    rw [List.mapM_cons, List.mapM_cons, ha, ih hxs]

/-- What each of several computations that succeed gives. -/
lemma mem_zip_of_mapM {f : α → Except ε β} {xs : List α} {ys : List β} {x : α} {y : β}
    (h : xs.mapM f = .ok ys) : (x, y) ∈ xs.zip ys ↔ x ∈ xs ∧ f x = .ok y := by
  induction xs generalizing ys with
  | nil =>
    cases h
    simp
  | cons a xs ih =>
    rw [List.mapM_cons] at h
    obtain ⟨b, hb, h⟩ := exists_of_bind_eq_ok h
    obtain ⟨bs, hbs, h⟩ := exists_of_bind_eq_ok h
    cases h
    rw [List.zip_cons_cons, List.mem_cons, List.mem_cons, ih hbs, Prod.mk.injEq]
    constructor
    · rintro (⟨rfl, rfl⟩ | ⟨hx, hy⟩)
      · exact ⟨.inl rfl, hb⟩
      · exact ⟨.inr hx, hy⟩
    · rintro ⟨rfl | hx, hy⟩
      · exact .inl ⟨rfl, Except.ok.inj (hy.symm.trans hb)⟩
      · exact .inr ⟨hx, hy⟩

end RuleWeaver
