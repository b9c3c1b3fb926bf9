import FeedFiler.Message.RecordPath

/-!
# Reshaping

Which documents of a message are stored: the message itself, or one document for each object of a
list in it.
-/

namespace FeedFiler

/-- How a message becomes the documents that are stored. -/
inductive Reshape where
  /-- The message as it is. -/
  | whole
  /-- The elements of a list member, each with the other members. -/
  | flatten (key : String)
  /-- The elements of the list at a path, each with some members of the message. -/
  | extract (path : RecordPath) (mergeBase : List String)

namespace Reshape

/-- The word for a way of reshaping. -/
def word : Reshape → String
  | .whole => "whole"
  | .flatten _ => "flatten"
  | .extract .. => "records_data"

/-- The objects among some elements, each written over a base. -/
def mergeEach (base : Document) (elements : List Json) : List Document :=
  elements.filterMap fun element => element.object?.map base.insertAll

/-- The members of a message with some keys, in the order of the keys. -/
def select (message : Document) (keys : List String) : Document :=
  Document.ofMembers (keys.filterMap fun key => (message.get? key).map fun value => (key, value))

/-- The documents of a message. -/
def apply (r : Reshape) (message : Document) : List Document :=
  match r with
  | .whole => [message]
  | .flatten key =>
    match (message.get? key).bind Json.array? with
    | some elements => mergeEach (message.erase key) elements
    | none => []
  | .extract path mergeBase => mergeEach (select message mergeBase) (path.resolve message)

end Reshape

end FeedFiler
