import RuleWeaver.Text.Words

/-!
# Patterns for paths

A pattern is a list of pieces, each matching a run of neighbouring characters of a relative path.  The two notations
for patterns, that of filters and that of ignore files, are read elsewhere.

* `Glob.mem_restsAfterRun`: what may remain behind a run is the text without a beginning from the set;
* `Glob.mem_restsAfterFolders`: what may remain behind folders is the text itself or what follows a `/`.
-/

namespace RuleWeaver.Glob

/-- The characters in the ranges, or all others. -/
structure CharSet where
  ranges : List (Char × Char)
  negated : Bool
deriving DecidableEq, Repr

namespace CharSet

def has (set : CharSet) (c : Char) : Bool := (set.ranges.any fun (low, high) => low ≤ c && c ≤ high) != set.negated

def single (c : Char) : CharSet := ⟨[(c, c)], false⟩

def all : CharSet := ⟨[], true⟩

/-- All characters but the separator of paths. -/
def inName : CharSet := ⟨[('/', '/')], true⟩

end CharSet

inductive Piece
  /-- One character. -/
  | one (set : CharSet)
  /-- Any number of characters. -/
  | run (set : CharSet)
  /-- Any number of whole folder names, each with its separator. -/
  | folders
  /-- A separator and any number of folder names behind it. -/
  | between
  /-- A separator and anything behind it. -/
  | below
deriving DecidableEq, Repr

abbrev Pattern := List Piece

/-- What may remain of a text behind a run of characters from a set. -/
def restsAfterRun (set : CharSet) : Text → List Text
  | [] => [[]]
  | c :: s => (c :: s) :: if set.has c then restsAfterRun set s else []

/-- What follows each separator of a text. -/
def restsAfterSeparator : Text → List Text
  | [] => []
  | c :: s => if c = '/' then s :: restsAfterSeparator s else restsAfterSeparator s

/-- What may remain of a text behind folder names. -/
def restsAfterFolders (s : Text) : List Text := s :: restsAfterSeparator s

/-- Whether a pattern matches a whole text. -/
def accepts : Pattern → Text → Bool
  | [], s => s.isEmpty
  | .one set :: p, s =>
    match s with
    | [] => false
    | c :: s => set.has c && accepts p s
  | .run set :: p, s => (restsAfterRun set s).any (accepts p)
  | .folders :: p, s => (restsAfterFolders s).any (accepts p)
  | .between :: p, s =>
    match s with
    | '/' :: s => (restsAfterFolders s).any (accepts p)
    | _ => false
  | .below :: p, s =>
    match s with
    | '/' :: s => (restsAfterRun .all s).any (accepts p)
    | _ => false

theorem mem_restsAfterRun {set : CharSet} {s r : Text} :
    r ∈ restsAfterRun set s ↔ ∃ a, s = a ++ r ∧ ∀ c ∈ a, set.has c := by
  induction s with
  | nil =>
    rw [restsAfterRun, List.mem_singleton]
    exact ⟨fun h => ⟨[], by simp [h]⟩, fun ⟨_, e, _⟩ => (List.append_eq_nil_iff.1 e.symm).2⟩
  | cons c s ih =>
    constructor
    · intro h
      rcases List.mem_cons.1 h with rfl | h
      · exact ⟨[], by simp⟩
      · split at h
        · next hc =>
          obtain ⟨a, rfl, ha⟩ := ih.1 h
          exact ⟨c :: a, by simp, by simpa [hc] using ha⟩
        · cases h
    · rintro ⟨a, e, ha⟩
      cases a with
      | nil =>
        rw [← show c :: s = r from e]
        exact List.mem_cons_self
      | cons d a =>
        obtain ⟨rfl, rfl⟩ := List.cons.inj e
        have hd : set.has c := ha c List.mem_cons_self
        exact List.mem_cons_of_mem _ (by
          rw [if_pos hd]
          exact ih.2 ⟨a, rfl, fun x hx => ha x (List.mem_cons_of_mem _ hx)⟩)

theorem mem_restsAfterSeparator {s r : Text} : r ∈ restsAfterSeparator s ↔ ∃ a, s = a ++ '/' :: r := by
  induction s with
  | nil => simp [restsAfterSeparator]
  | cons c s ih =>
    simp only [restsAfterSeparator]
    constructor
    · intro h
      split at h
      · next hc =>
        rcases List.mem_cons.1 h with rfl | h
        · exact ⟨[], by simp [hc]⟩
        · obtain ⟨a, rfl⟩ := ih.1 h
          exact ⟨c :: a, rfl⟩
      · obtain ⟨a, rfl⟩ := ih.1 h
        exact ⟨c :: a, rfl⟩
    · rintro ⟨a, e⟩
      cases a with
      | nil =>
        obtain ⟨rfl, rfl⟩ := List.cons.inj e
        simp
      | cons d a =>
        obtain ⟨rfl, rfl⟩ := List.cons.inj e
        have h := ih.2 ⟨a, rfl⟩
        split
        · exact List.mem_cons_of_mem _ h
        · exact h

theorem mem_restsAfterFolders {s r : Text} : r ∈ restsAfterFolders s ↔ r = s ∨ ∃ a, s = a ++ '/' :: r := by
  rw [restsAfterFolders, List.mem_cons, mem_restsAfterSeparator]

end RuleWeaver.Glob
