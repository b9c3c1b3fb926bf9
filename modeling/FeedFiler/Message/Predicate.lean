import FeedFiler.Config.Route
import FeedFiler.Json.Document
import FeedFiler.Message.RuleError
import FeedFiler.Number.Reading
import FeedFiler.Text.Blank

/-!
# Predicates

A predicate admits or rejects a message by its top-level members. Missing members and members of the
wrong type are rejected.
-/

namespace FeedFiler

/-- A compiled predicate. -/
inductive Predicate where
  /-- The member is this text. -/
  | equals (key value : String)
  /-- The point of two members lies inside a polygon. -/
  | inside (latKey lngKey : String) (ring : List (Point Float))
  /-- The member is one of some texts. -/
  | memberOf (key : String) (values : List String)

namespace Predicate

/-- The word for the kind of a predicate. -/
def word : Predicate → String
  | .equals .. => "="
  | .inside .. => "inside"
  | .memberOf .. => "in"

/-- The text of a member. Numbers are not converted. -/
def textOf? (message : Document) (key : String) : Option String :=
  (message.get? key).bind Json.string?

/-- The number of a member, which may be written in a text with blanks around it. -/
def numberOf? (message : Document) (key : String) : Option Float :=
  match message.get? key with
  | some (.number n) => some n.toFloat
  | some (.string s) => readFloat? (Text.trim s.toList)
  | _ => none

/-- The predicate admits the message. -/
def evaluate (p : Predicate) (message : Document) : Bool :=
  match p with
  | .equals key value => textOf? message key == some value
  | .inside latKey lngKey ring =>
    match numberOf? message latKey, numberOf? message lngKey with
    | some lat, some lng => Polygon.inside ⟨lat, lng⟩ ring
    | _, _ => false
  | .memberOf key values =>
    match textOf? message key with
    | some s => values.contains s
    | none => false

/-- The key of a filter that needs one. -/
def keyOf (f : FilterEntry) : Except RuleError String :=
  match f.key with
  | some key =>
    if key.isEmpty then .error (.invalidFilter ("'" ++ f.test ++ "' filter needs a key")) else .ok key
  | none => .error (.invalidFilter ("'" ++ f.test ++ "' filter needs a key"))

/-- The predicate of a filter, or what is wrong with the filter. -/
def ofEntry (f : FilterEntry) : Except RuleError Predicate :=
  if f.test = "=" then do
    let key ← keyOf f
    match f.value with
    | some value => .ok (.equals key value)
    | none => .error (.invalidFilter "'=' filter needs a value")
  else if f.test = "inside" then
    if f.points.length < 3 then
      .error (.invalidFilter
        ("'inside' filter needs at least 3 points, got " ++ toString f.points.length))
    else .ok (.inside f.latKey f.lngKey f.points)
  else if f.test = "in" then (keyOf f).map fun key => .memberOf key f.values
  else .error (.unknownTest f.test)

end Predicate

end FeedFiler
