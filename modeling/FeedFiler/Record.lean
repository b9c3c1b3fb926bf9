import Std.Data.ExtTreeMap
import FeedFiler.Value

/-!
# Records

A record is what one repeating element of a feed gives: named fields with scalar values, in the
order of their names.
-/

namespace FeedFiler

/-- Named scalar values. -/
structure Record where
  fields : Std.ExtTreeMap String Value
deriving DecidableEq

namespace Record

/-- No field. -/
def empty : Record := ⟨∅⟩

/-- The value of a field. -/
def get? (r : Record) (field : String) : Option Value := r.fields[field]?

/-- The text of a field that holds a text. -/
def text? (r : Record) (field : String) : Option String := (r.get? field).bind Value.text?

/-- The field occurs. -/
def contains (r : Record) (field : String) : Bool := r.fields.contains field

/-- Gives a field a value. -/
def insert (r : Record) (field : String) (value : Value) : Record := ⟨r.fields.insert field value⟩

/-- The number of fields. -/
def size (r : Record) : Nat := r.fields.size

/-- The fields in the order of their names. -/
def toList (r : Record) : List (String × Value) := r.fields.toList

/-- Writes fields one after the other. -/
def insertAll (r : Record) (fields : List (String × Value)) : Record :=
  fields.foldl (fun r (field, value) => r.insert field value) r

/-- The record of some fields; of a repeated one the last counts. -/
def ofList (fields : List (String × Value)) : Record := empty.insertAll fields

/-- The fields of both records; where both have a field, that of `other`. -/
def merge (r other : Record) : Record := r.insertAll other.toList

/-- The record as a JSON object. -/
def toDocument (r : Record) : Document := r.toList.map fun (field, value) => (field, value.toJson)

/-- The record of a document's scalar members, and the names of the others in their order. -/
def ofDocument (doc : Document) : Record × List String :=
  doc.foldl (fun (r, dropped) (field, value) =>
    match Value.ofJson? value with
    | some v => (r.insert field v, dropped)
    | none => (r, dropped ++ [field])) (empty, [])

/-- The record that written members give if each of them, repeated ones included, is a scalar. -/
def ofMembers? (members : List (String × Json)) : Option Record :=
  members.foldlM (fun r (field, value) => (Value.firstFit? value).map (r.insert field)) empty

@[ext] theorem ext {r s : Record} (h : ∀ field, r.get? field = s.get? field) : r = s := by
  obtain ⟨r⟩ := r
  obtain ⟨s⟩ := s
  exact congrArg Record.mk (Std.ExtTreeMap.ext_getElem? h)

theorem get?_empty (field : String) : empty.get? field = none := by simp [empty, get?]

theorem get?_insert (r : Record) (field other : String) (value : Value) :
    (r.insert field value).get? other = if field = other then some value else r.get? other := by
  simp [insert, get?, Std.ExtTreeMap.getElem?_insert]

/-- Of the values that are written under one name, the last one counts. -/
theorem get?_insertAll (r : Record) (fields : List (String × Value)) (field : String) :
    (r.insertAll fields).get? field = (fields.reverse.lookup field).or (r.get? field) := by
  induction fields generalizing r with
  | nil => rfl
  | cons f fields ih =>
      obtain ⟨name, value⟩ := f
      rw [List.reverse_cons, List.lookup_append, Option.or_assoc]
      refine (ih (r.insert name value)).trans (congrArg _ ?_)
      rw [get?_insert]
      by_cases h : field = name
      · simp [h]
      · simp [Ne.symm h, List.lookup_cons, beq_false_of_ne h]

end Record

end FeedFiler
