import RuleWeaver.Text.Basic

/-!
# TOML values

The values of a TOML document, and how tables grow.  A key may be set once; a table may be opened once by a header, and
what was written in one of the three ways (header, dotted key, braces) may not be extended in another.
-/

namespace RuleWeaver.Toml

/-- How a table came about. -/
inductive Origin
  /-- It is written in braces. -/
  | inline
  /-- It has a header. -/
  | header
  /-- It stands on the way to a table with a header. -/
  | implied
  /-- It stands on the way to the last part of a dotted key. -/
  | dotted
deriving DecidableEq, Repr

/-- A value.  Numbers and dates are kept as they are written. -/
inductive Value
  | string (s : Text)
  | boolean (b : Bool)
  | number (literal : Text)
  | moment (literal : Text)
  | array (items : List Value)
  /-- A list of tables, each opened by a header of its own. -/
  | tables (items : List (List (Text × Value)))
  | table (origin : Origin) (entries : List (Text × Value))
deriving Repr

structure Table where
  origin : Origin
  entries : List (Text × Value)
deriving Repr

namespace Table

/-- A document before anything is read. -/
def root : Table := ⟨.header, []⟩

def get? (t : Table) (key : Text) : Option Value := t.entries.lookup key

/-- Sets the value of a key, in the place of the key if it is there. -/
def set (t : Table) (key : Text) (v : Value) : Table :=
  if (t.get? key).isSome then { t with entries := t.entries.map fun e => if e.1 = key then (key, v) else e }
  else { t with entries := t.entries ++ [(key, v)] }

/-- Changes the table at the end of a path.  `dotted` tells whether the path is part of a dotted key; missing tables on
the way are made. -/
def update (dotted : Bool) (change : Table → Option Table) : List Text → Table → Option Table
  | [], t => change t
  | key :: path, t =>
    match t.get? key with
    | none =>
      (update dotted change path ⟨if dotted then .dotted else .implied, []⟩).map fun s =>
        t.set key (.table s.origin s.entries)
    | some (.table origin entries) =>
      if origin = .inline ∨ (dotted ∧ origin = .header) then none
      else (update dotted change path ⟨origin, entries⟩).map fun s => t.set key (.table s.origin s.entries)
    | some (.tables items) =>
      match items.getLast? with
      | none => none
      | some entries =>
        (update dotted change path ⟨.header, entries⟩).map fun s => t.set key (.tables (items.dropLast ++ [s.entries]))
    | some _ => none

/-- Sets a key that is not there yet, in the table at the end of a dotted path. -/
def insert (path : List Text) (key : Text) (v : Value) (t : Table) : Option Table :=
  update true
    (fun t => if (t.origin = .dotted) = (path = []) ∨ (t.get? key).isSome then none else some (t.set key v)) path t

/-- Opens the table of a header. -/
def openTable (path : List Text) (key : Text) (t : Table) : Option Table :=
  update false
    (fun t =>
      match t.get? key with
      | none => some (t.set key (.table .header []))
      | some (.table .implied entries) => some (t.set key (.table .header entries))
      | some _ => none) path t

/-- Opens one more table of the list that a header names. -/
def openElement (path : List Text) (key : Text) (t : Table) : Option Table :=
  update false
    (fun t =>
      match t.get? key with
      | none => some (t.set key (.tables [[]]))
      | some (.tables items) => some (t.set key (.tables (items ++ [[]])))
      | some _ => none) path t

end Table

end RuleWeaver.Toml
