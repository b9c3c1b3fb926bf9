import FeedFiler.Toml.Basic

/-!
# Tables being written

The statements of a TOML text fill tables one after the other. Which statements may still touch a
table depends on how the table came about: its own header, a header or key below it, or a dotted key
through it.
-/

namespace FeedFiler.Toml

/-- How a table came about. -/
inductive Origin where
  /-- By its own header, or as a value between braces. -/
  | header
  /-- By the header of a table below it. -/
  | below
  /-- By a dotted key through it. -/
  | dotted
deriving DecidableEq, Repr

/-- What stands under a key of a table that is being written. -/
inductive Draft where
  /-- A value that is complete. -/
  | value (v : Toml)
  | table (origin : Origin) (entries : List (String × Draft))
  /-- The elements of an array of tables. -/
  | tables (elements : List (List (String × Draft)))

namespace Draft

/-- The entries of a table in the order of the text. -/
abbrev Entries := List (String × Draft)

/-- Gives a key a value: at the key's place, or at the end if the key is new. -/
def put : Entries → String → Draft → Entries
  | [], key, draft => [(key, draft)]
  | (k, d) :: rest, key, draft =>
    if k = key then (key, draft) :: rest else (k, d) :: put rest key draft

/-- The entries of the other keys. -/
def remove (entries : Entries) (key : String) : Entries := entries.filter fun (k, _) => k ≠ key

/-- Changes the last of some elements. -/
def changeLast (change : Entries → Option Entries) : List Entries → Option (List Entries)
  | [] => none
  | [last] => (change last).map fun last => [last]
  | first :: rest => (changeLast change rest).map fun rest => first :: rest

/-- Changes the table at a path. Tables that the path misses come about below a header; an array of
tables stands for its last element. -/
def changeAt (change : Entries → Option Entries) : List String → Entries → Option Entries
  | [], entries => change entries
  | key :: path, entries =>
    match entries.lookup key with
    | none => (changeAt change path []).map fun sub => put entries key (.table .below sub)
    | some (.value _) => none
    | some (.table origin sub) =>
      (changeAt change path sub).map fun sub => put entries key (.table origin sub)
    | some (.tables elements) =>
      (changeLast (changeAt change path) elements).map fun elements => put entries key (.tables elements)

/-- Opens the table of a header. It is new, or came about only below other headers; then its place
is that of its own header. -/
def openTable (key : String) (entries : Entries) : Option Entries :=
  match entries.lookup key with
  | none => some (put entries key (.table .header []))
  | some (.table .below sub) => some (put (remove entries key) key (.table .header sub))
  | some _ => none

/-- Opens the next element of an array of tables. -/
def openElement (key : String) (entries : Entries) : Option Entries :=
  match entries.lookup key with
  | none => some (put entries key (.tables [[]]))
  | some (.tables elements) => some (put entries key (.tables (elements ++ [[]])))
  | some _ => none

/-- Gives a key that is new in its table a value. -/
def assignKey (key : String) (value : Toml) (entries : Entries) : Option Entries :=
  match entries.lookup key with
  | none => some (put entries key (.value value))
  | some _ => none

/-- Gives a key below some dotted ones a value. The tables on the way have no header of their own,
and the last of them came about by a dotted key. -/
def assignDotted (key : String) (value : Toml) : List String → Entries → Option Entries
  | [], entries => assignKey key value entries
  | first :: path, entries =>
    match entries.lookup first with
    | none => (assignDotted key value path []).map fun sub => put entries first (.table .dotted sub)
    | some (.table .dotted sub) =>
      (assignDotted key value path sub).map fun sub => put entries first (.table .dotted sub)
    | some (.table .below sub) =>
      if path.isEmpty then none
      else (assignDotted key value path sub).map fun sub => put entries first (.table .below sub)
    | some (.tables elements) =>
      if path.isEmpty then none
      else (changeLast (assignDotted key value path) elements).map fun elements =>
        put entries first (.tables elements)
    | some _ => none

/-- Gives a key, dotted or not, a value. -/
def assign (keys : List String) (value : Toml) (entries : Entries) : Option Entries :=
  match keys.reverse with
  | [] => none
  | key :: path => assignDotted key value path.reverse entries

/-- `change` for the last key of a path, in the table of the other keys. -/
def changeLastKey (change : String → Entries → Option Entries) (path : List String)
    (entries : Entries) : Option Entries :=
  match path.reverse with
  | [] => none
  | key :: parents => changeAt (change key) parents.reverse entries

mutual
/-- The finished value. -/
def toToml : Draft → Toml
  | .value v => v
  | .table _ entries => .table (finish entries)
  | .tables elements => .array (finishAll elements)

/-- The finished entries of a table. -/
def finish : List (String × Draft) → List (String × Toml)
  | [] => []
  | (key, draft) :: rest => (key, toToml draft) :: finish rest

/-- The finished elements of an array of tables. -/
def finishAll : List (List (String × Draft)) → List Toml
  | [] => []
  | entries :: rest => .table (finish entries) :: finishAll rest
end

end Draft

/-- What a line of a TOML text says. -/
inductive Statement where
  /-- `[path]`: the keys after it belong to the table at the path. -/
  | table (path : List String)
  /-- `[[path]]`: the keys after it belong to a new element of the array at the path. -/
  | element (path : List String)
  /-- `keys = value` -/
  | pair (keys : List String) (value : Toml)

/-- A table as far as its statements have been carried out, and the path of the last header. -/
structure Draft.State where
  entries : Draft.Entries := []
  path : List String := []

/-- Carries out a statement. -/
def Statement.run (state : Draft.State) : Statement → Option Draft.State
  | .table path =>
    (Draft.changeLastKey Draft.openTable path state.entries).map fun entries => { entries, path }
  | .element path =>
    (Draft.changeLastKey Draft.openElement path state.entries).map fun entries => { entries, path }
  | .pair keys value =>
    (Draft.changeAt (Draft.assign keys value) state.path state.entries).map fun entries =>
      { state with entries }

/-- The table that statements write. -/
def ofStatements? (statements : List Statement) : Option (List (String × Toml)) :=
  (statements.foldlM Statement.run {}).map fun state => Draft.finish state.entries

end FeedFiler.Toml
