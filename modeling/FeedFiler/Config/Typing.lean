import FeedFiler.Text.Quoted
import FeedFiler.Toml.Basic
import FeedFiler.Value

/-!
# Typed tables

A table of the configuration is read into a structure field by field. The first fault in the order
of the keys is the table's fault; only after all keys are fields looked for that the table lacks.
-/

namespace FeedFiler.Config

/-- Why a table cannot be read. -/
inductive Malformation where
  /-- A value of another type than expected. -/
  | wrongType (found : Toml) (expected : String)
  /-- A value that is no word, where the words of a choice are expected. -/
  | noWord
  /-- A choice as a table, but without an entry. -/
  | noChoice
  /-- A choice as a table with more than one entry. -/
  | manyChoices
  /-- A table with entries below a word. -/
  | filledTable
  /-- An array with items below a word. -/
  | filledArray
  /-- A value below a word that could not be empty. -/
  | filled (found : Toml)
  | missingField (field : String)
  /-- A field that is given under two of its names. -/
  | duplicateField (field : String)
  /-- A structure given as an array that ends before a field without a default. -/
  | tooShort (length : Nat) (expected : String) (fields : Nat)
  /-- A structure given as an array with more items than fields. -/
  | tooLong (length : Nat)

/-- A double with a point in any case, if it is finite. -/
def pointedText (x : Float) : String :=
  let text := Value.floatText x
  if x.isFinite ∧ ¬ '.' ∈ text.toList then text ++ ".0" else text

/-- How a value of the wrong type is described. -/
def describe : Toml → String
  | .string s => "string " ++ Text.quote s
  | .integer n => "integer `" ++ (Value.int n).display ++ "`"
  | .float x => "floating point `" ++ pointedText x ++ "`"
  | .boolean b => "boolean `" ++ (if b then "true" else "false") ++ "`"
  | .moment m => "string " ++ Text.quote (String.ofList m.chars)
  | .array _ => "sequence"
  | .table _ => "map"

/-- The name of a value's type. -/
def typeName : Toml → String
  | .string _ => "string"
  | .integer _ => "integer"
  | .float _ => "float"
  | .boolean _ => "boolean"
  | .moment _ => "datetime"
  | .array _ => "array"
  | .table _ => "table"

namespace Malformation

/-- The text of a malformation. -/
def message : Malformation → String
  | .wrongType found expected => "invalid type: " ++ describe found ++ ", expected " ++ expected
  | .noWord => "invalid type: unit variant, expected string only"
  | .noChoice => "wanted exactly 1 element, found 0 elements"
  | .manyChoices => "wanted exactly 1 element, more than 1 element"
  | .filledTable => "expected empty table"
  | .filledArray => "expected empty array"
  | .filled found => "expected table, found " ++ typeName found
  | .missingField field => "missing field `" ++ field ++ "`"
  | .duplicateField field => "duplicate field `" ++ field ++ "`"
  | .tooShort length expected fields =>
    "invalid length " ++ toString length ++ ", expected " ++ expected ++ " with " ++ toString fields ++
      (if fields = 1 then " element" else " elements")
  | .tooLong length => "invalid length " ++ toString length ++ ", expected fewer elements in array"

end Malformation

/-- The result of reading a value. -/
abbrev Typed (α : Type) := Except Malformation α

/-! ## Scalars and lists -/

/-- A text. A date or time counts as its text. -/
def readText : Toml → Typed String
  | .string s => .ok s
  | .moment m => .ok (String.ofList m.chars)
  | v => .error (.wrongType v "a string")

/-- A word of a choice: a text, or the only key of a table, over an empty table or array. -/
def readWord : Toml → Typed String
  | .string s => .ok s
  | .table [] => .error .noChoice
  | .table [(word, value)] =>
    match value with
    | .table [] | .array [] => .ok word
    | .table _ => .error .filledTable
    | .array _ => .error .filledArray
    | v => .error (.filled v)
  | .table _ => .error .manyChoices
  | _ => .error .noWord

/-- A double; a whole number counts as one. -/
def readFloat : Toml → Typed Float
  | .float x => .ok x
  | .integer n => .ok (Float.ofInt n.toInt)
  | v => .error (.wrongType v "f64")

/-- An array of things that are read alike. -/
def readList {α : Type} (read : Toml → Typed α) : Toml → Typed (List α)
  | .array items => items.mapM read
  | v => .error (.wrongType v "a sequence")

/-! ## Structures -/

/-- A field of a structure: its name, other names for it, whether it lacks a default, and how its
value is stored. -/
structure Field (σ : Type) where
  name : String
  aliases : List String := []
  required : Bool := false
  store : Toml → σ → Typed σ

/-- How a table is read as a structure. -/
structure Shape (σ : Type) where
  /-- What the structure is called in faults. -/
  title : String
  /-- The fields in the order in which they are declared. -/
  fields : List (Field σ)
  /-- The structure with all its defaults. -/
  start : σ

namespace Field

/-- A field that `read` gives a value and `set` stores. -/
def of {σ α : Type} (name : String) (read : Toml → Typed α) (set : σ → α → σ)
    (aliases : List String := []) (required : Bool := false) : Field σ :=
  { name, aliases, required, store := fun v s => (read v).map (set s) }

/-- The field has this name. -/
def answers {σ : Type} (field : Field σ) (key : String) : Bool :=
  field.name == key || field.aliases.contains key

end Field

namespace Shape

variable {σ : Type}

/-- Reads one entry of a table. Keys that no field answers to are passed over. -/
def readEntry (shape : Shape σ) (state : σ × List String) (entry : String × Toml) :
    Typed (σ × List String) :=
  match shape.fields.find? (·.answers entry.1) with
  | none => .ok state
  | some field =>
    if state.2.contains field.name then .error (.duplicateField field.name)
    else (field.store entry.2 state.1).map fun s => (s, field.name :: state.2)

/-- Reads the entries of a table. -/
def readEntries (shape : Shape σ) (entries : List (String × Toml)) : Typed σ := do
  let (value, seen) ← entries.foldlM shape.readEntry (shape.start, [])
  match shape.fields.find? fun field => field.required && !seen.contains field.name with
  | some field => .error (.missingField field.name)
  | none => .ok value

/-- Reads the fields in their order from the items of an array. Items beyond the fields are passed
over. -/
def readFirst (shape : Shape σ) (items : List Toml) : Typed σ := do
  let value ← (items.zip shape.fields).foldlM (fun s (v, field) => field.store v s) shape.start
  match shape.fields.zipIdx.find? fun (field, i) => field.required && items.length ≤ i with
  | some (_, i) => .error (.tooShort i shape.title shape.fields.length)
  | none => .ok value

/-- Reads the fields in their order from the items of an array, of which there may be no more than
fields. -/
def readItems (shape : Shape σ) (items : List Toml) : Typed σ := do
  let value ← shape.readFirst items
  if shape.fields.length < items.length then .error (.tooLong items.length) else .ok value

/-- Reads a structure. -/
def read (shape : Shape σ) : Toml → Typed σ
  | .table entries => shape.readEntries entries
  | .array items => shape.readItems items
  | v => .error (.wrongType v shape.title)

end Shape

end FeedFiler.Config
