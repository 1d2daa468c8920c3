import Famicom.Toml.Scalar

/-!
# Tables

A table holds values by their keys and remembers how it came about, because that decides what may
still be added to it: a header may open a table that so far was only passed through on the way to
another one, and dotted keys may add to tables that dotted keys have made. No key is given two
values.

* `Table.find?_set`: a table that was set holds the new value for the key and the old ones for all
  others.
-/

namespace Famicom.Toml

/-- A key, as a list of characters. -/
abbrev Key := List Char

/-- How a table came about. -/
inductive Origin where
  /-- By a header of its own; also the document itself. -/
  | header
  /-- On the way to a table that a header names. -/
  | implied
  /-- On the way to the value of a dotted key. -/
  | dotted
  /-- Between braces; nothing can be added. -/
  | inline
  deriving DecidableEq, Repr

/-- A table of values. -/
structure Table (V : Type) where
  origin : Origin
  entries : List (Key × V)

/-- A value of a document. -/
inductive Value where
  | scalar (s : Scalar)
  | array (items : List Value)
  | table (table : Table Value)
  /-- The tables of one header between doubled brackets, and the one of them that is still open. -/
  | tables (closed : List (Table Value)) (last : Table Value)

mutual

/-- Whether all scalars of a value can be read. -/
def Value.isReadable : Value → Bool
  | .scalar s => s.isReadable
  | .array items => allReadable items
  | .table t => tableReadable t
  | .tables closed last => tablesReadable closed && tableReadable last

/-- Whether all scalars of some values can be read. -/
def allReadable : List Value → Bool
  | [] => true
  | value :: rest => value.isReadable && allReadable rest

/-- Whether all scalars of a table can be read. -/
def tableReadable : Table Value → Bool
  | ⟨_, entries⟩ => entriesReadable entries

/-- Whether all scalars of some entries can be read. -/
def entriesReadable : List (Key × Value) → Bool
  | [] => true
  | (_, value) :: rest => value.isReadable && entriesReadable rest

/-- Whether all scalars of some tables can be read. -/
def tablesReadable : List (Table Value) → Bool
  | [] => true
  | t :: rest => tableReadable t && tablesReadable rest

end

namespace Table

/-- A table without entries. -/
def empty {V : Type} (origin : Origin) : Table V := ⟨origin, []⟩

/-- The value of a key. -/
def find? {V : Type} (table : Table V) (key : Key) : Option V := table.entries.lookup key

/-- The entries with another value for a key; a new key comes last. -/
def replace {V : Type} (key : Key) (value : V) : List (Key × V) → List (Key × V)
  | [] => [(key, value)]
  | (k, v) :: rest => if key = k then (key, value) :: rest else (k, v) :: replace key value rest

/-- Set the value of a key. -/
def set {V : Type} (table : Table V) (key : Key) (value : V) : Table V :=
  { table with entries := replace key value table.entries }

theorem lookup_replace {V : Type} (key k : Key) (value : V) (entries : List (Key × V)) :
    (replace key value entries).lookup k = if k = key then some value else entries.lookup k := by
  induction entries with
  | nil =>
    by_cases hk : k = key
    · simp [replace, hk]
    · have hb : (k == key) = false := by simpa using hk
      simp [replace, hk, List.lookup_cons, hb]
  | cons entry rest ih =>
    obtain ⟨other, v⟩ := entry
    by_cases ho : key = other
    · subst ho
      by_cases hk : k = key
      · simp [replace, hk]
      · have hb : (k == key) = false := by simpa using hk
        simp [replace, hk, List.lookup_cons, hb]
    · by_cases hk : k = other
      · have hne : ¬ k = key := fun h => ho (h.symm.trans hk)
        simp [replace, ho, hk, Ne.symm ho]
      · have hb : (k == other) = false := by simpa using hk
        simp only [replace, ho, if_false, List.lookup_cons, hb, ih]

/-- A table that was set holds the new value for the key and the old ones for all others. -/
theorem find?_set {V : Type} (table : Table V) (key k : Key) (value : V) :
    (table.set key value).find? k = if k = key then some value else table.find? k :=
  lookup_replace key k value table.entries

/-- Add a key that the table does not have. -/
def add? {V : Type} (table : Table V) (key : Key) (value : V) : Option (Table V) :=
  match table.find? key with
  | some _ => none
  | none => some { table with entries := table.entries ++ [(key, value)] }

/-- Whether the way of a header, or of a dotted key, may pass through a table of an origin. -/
def passable (dotted : Bool) : Origin → Bool
  | .header => !dotted
  | .implied | .dotted => true
  | .inline => false

/-- Change the table at the end of a path, and make the tables on the way that are missing. Of an
array of tables the path passes through the last. -/
def change? (dotted : Bool) (change : Table Value → Option (Table Value)) :
    List Key → Table Value → Option (Table Value)
  | [], table => change table
  | key :: path, table =>
    match table.find? key with
    | none => do
      let child ← change? dotted change path (.empty (if dotted then .dotted else .implied))
      return table.set key (.table child)
    | some (.table child) => do
      if passable dotted child.origin then
        let child ← change? dotted change path child
        return table.set key (.table child)
      else none
    | some (.tables closed last) => do
      let last ← change? dotted change path last
      return table.set key (.tables closed last)
    | some _ => none

/-- Give a value to a dotted key. All but the last part of the key must lead through tables, the
last of which dotted keys have made. -/
def assign? (table : Table Value) (path : List Key) (key : Key) (value : Value) :
    Option (Table Value) :=
  table.change? true
    (fun child =>
      if (child.origin == .dotted) = path.isEmpty then none else child.add? key value)
    path

/-- Open the table of a header. -/
def openTable? (table : Table Value) (path : List Key) (key : Key) : Option (Table Value) :=
  table.change? false
    (fun parent =>
      match parent.find? key with
      | none => parent.add? key (.table (.empty .header))
      | some (.table child) =>
        if child.origin = .implied then
          some (parent.set key (.table { child with origin := .header }))
        else none
      | some _ => none)
    path

/-- Open one more table of a header between doubled brackets. -/
def openItem? (table : Table Value) (path : List Key) (key : Key) : Option (Table Value) :=
  table.change? false
    (fun parent =>
      match parent.find? key with
      | none => parent.add? key (.tables [] (.empty .header))
      | some (.tables closed last) =>
        some (parent.set key (.tables (closed ++ [last]) (.empty .header)))
      | some _ => none)
    path

end Table

end Famicom.Toml
