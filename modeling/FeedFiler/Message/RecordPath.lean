import FeedFiler.Json.Document
import FeedFiler.Message.RuleError
import FeedFiler.Number.Reading
import FeedFiler.Text.Blank
import FeedFiler.Text.Cut

/-!
# Record paths

A path such as `a>b[2]>c` leads through the objects and arrays of a message to an array. A part that
ends in a bracket takes an element of an array; of the other parts the last one selects the array and
the ones before it descend into objects.
-/

namespace FeedFiler

/-- One step of a path. -/
inductive PathStep where
  /-- Go on in an object. -/
  | object (name : String)
  /-- Select an array. -/
  | array (name : String)
  /-- Select an array, and go on in one of its elements. -/
  | element (name : String) (index : Nat)
deriving DecidableEq, Repr

/-- The text of a step. -/
def PathStep.text : PathStep → String
  | .object name => "OBJECT " ++ name
  | .array name => "ARRAY " ++ name
  | .element name index => "INDEXED_ARRAY " ++ name ++ "[" ++ String.ofList (natChars index) ++ "]"

/-- A compiled path. -/
structure RecordPath where
  /-- The path as it is written. -/
  source : String
  steps : List PathStep
deriving DecidableEq, Repr

namespace RecordPath

/-- Why one part of a path is refused. -/
def unbalanced (part : List Char) : String := "unbalanced ']' in '" ++ String.ofList part ++ "'"

/-- Why an index is refused. -/
def badIndex (index : List Char) : String := "bad index '" ++ String.ofList index ++ "'"

/-- The step of one part of a path. -/
def stepOf (last : Bool) (part : List Char) : Except String PathStep :=
  if part.getLast? = some ']' then
    match Text.cut? ['['] part.dropLast with
    | none => .error (unbalanced part)
    | some (name, index) =>
      match readIndex? (Text.trim index) with
      | none => .error (badIndex index)
      | some i =>
        if name.isEmpty then .error "index without a field name"
        else .ok (.element (String.ofList name) i)
  else if part.isEmpty then .error "empty step"
  else if last then .ok (.array (String.ofList part))
  else .ok (.object (String.ofList part))

/-- The steps of the parts of a path. -/
def stepsOf : List (List Char) → Except String (List PathStep)
  | [] => .ok []
  | part :: parts => do
    let step ← stepOf parts.isEmpty part
    let steps ← stepsOf parts
    return step :: steps

/-- The path that a text writes. -/
def compile (source : String) : Except RuleError RecordPath :=
  match stepsOf (Text.splitAt '>' source.toList) with
  | .ok steps => .ok { source, steps }
  | .error reason => .error (.invalidPath source reason)

/-- The object under a key. -/
def objectAt? (doc : Document) (name : String) : Option Document := (doc.get? name).bind Json.object?

/-- The array under a key. -/
def arrayAt? (doc : Document) (name : String) : Option (List Json) := (doc.get? name).bind Json.array?

/-- Follows steps from an object, and keeps the array that was last selected. -/
def follow : List PathStep → Document → Option (List Json) → Option (List Json)
  | [], _, list => list
  | .object name :: steps, doc, list => (objectAt? doc name).bind fun sub => follow steps sub list
  | .array name :: steps, doc, _ => (arrayAt? doc name).bind fun items => follow steps doc (some items)
  | .element name index :: steps, doc, _ => do
    let items ← arrayAt? doc name
    let item ← items[index]?
    let sub ← item.object?
    follow steps sub (some items)

/-- The array that the path selects in a message; empty if a step finds nothing of its kind. -/
def resolve (p : RecordPath) (message : Document) : List Json := (follow p.steps message none).getD []

end RecordPath

end FeedFiler
