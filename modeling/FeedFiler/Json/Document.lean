import FeedFiler.Json.Basic

/-!
# Documents

A document is a JSON object: keys with values, in the order in which the keys were first written.
Writing a key again changes its value and not its place.
-/

namespace FeedFiler

/-- A JSON object. -/
abbrev Document := List (String × Json)

namespace Document

/-- The value of a key. -/
def get? (doc : Document) (key : String) : Option Json := doc.lookup key

/-- The keys in their order. -/
def keys (doc : Document) : List String := doc.map (·.1)

/-- The key occurs. -/
def contains (doc : Document) (key : String) : Bool := doc.any (·.1 == key)

/-- No key occurs twice. -/
def Distinct (doc : Document) : Prop := doc.keys.Nodup

/-- Gives a key a value: in its place if it occurs, at the end if not. -/
def insert : Document → String → Json → Document
  | [], key, value => [(key, value)]
  | (k, v) :: rest, key, value =>
    if k = key then (k, value) :: rest else (k, v) :: insert rest key value

/-- The document without a key; the others keep their order. -/
def erase (doc : Document) (key : String) : Document := doc.filter (·.1 ≠ key)

/-- Writes members into a document one after the other. -/
def insertAll (doc : Document) (members : List (String × Json)) : Document :=
  members.foldl (fun doc (key, value) => insert doc key value) doc

/-- The document that some members write: a repeated key has its first place and its last value. -/
def ofMembers (members : List (String × Json)) : Document := insertAll [] members

@[simp] theorem get?_nil (key : String) : get? [] key = none := rfl

theorem get?_cons (k : String) (v : Json) (rest : Document) (key : String) :
    get? ((k, v) :: rest) key = if key = k then some v else get? rest key := by
  by_cases h : key = k
  · simp [get?, h]
  · simp [get?, List.lookup_cons, beq_false_of_ne h, h]

theorem get?_insert (doc : Document) (key other : String) (value : Json) :
    get? (insert doc key value) other = if other = key then some value else get? doc other := by
  induction doc with
  | nil => simp [insert, get?_cons]
  | cons member rest ih =>
    obtain ⟨k, v⟩ := member
    by_cases hk : k = key
    · subst hk
      by_cases h : other = k <;> simp [insert, get?_cons, h]
    · by_cases h : other = k
      · have : other ≠ key := fun e => hk (h ▸ e)
        simp [insert, get?_cons, h, hk]
      · simp [insert, hk, get?_cons, h, ih]

/-- Writing a key adds it at the end, or leaves the keys as they are. -/
theorem keys_insert (doc : Document) (key : String) (value : Json) :
    keys (insert doc key value) = if key ∈ keys doc then keys doc else keys doc ++ [key] := by
  induction doc with
  | nil => simp [insert, keys]
  | cons member rest ih =>
    obtain ⟨k, v⟩ := member
    by_cases hk : k = key
    · simp [insert, hk, keys]
    · have hk' : key ≠ k := fun e => hk e.symm
      simp only [insert, hk, ↓reduceIte, keys, List.map_cons, List.mem_cons, hk', false_or] at ih ⊢
      by_cases h : key ∈ List.map (·.1) rest <;> simp_all

theorem Distinct.insert {doc : Document} (h : doc.Distinct) (key : String) (value : Json) :
    (insert doc key value).Distinct := by
  unfold Distinct at h ⊢
  rw [keys_insert]
  split
  · exact h
  · next hk => exact List.nodup_append.2 ⟨h, by simp, by simp; exact fun a ha e => hk (e ▸ ha)⟩

theorem Distinct.insertAll {doc : Document} (h : doc.Distinct) (members : List (String × Json)) :
    (insertAll doc members).Distinct := by
  induction members generalizing doc with
  | nil => exact h
  | cons member rest ih => exact ih (h.insert _ _)

theorem ofMembers_distinct (members : List (String × Json)) : (ofMembers members).Distinct :=
  (show Distinct [] from List.nodup_nil).insertAll members

end Document

namespace Json

mutual
/-- The value with the repeated members of each of its objects merged. -/
def settle : Json → Json
  | .array items => .array (settleItems items)
  | .object members => .object (Document.ofMembers (settleMembers members))
  | value => value

/-- `settle` on every item. -/
def settleItems : List Json → List Json
  | [] => []
  | item :: rest => settle item :: settleItems rest

/-- `settle` on the value of every member. -/
def settleMembers : List (String × Json) → List (String × Json)
  | [] => []
  | (key, value) :: rest => (key, settle value) :: settleMembers rest
end

end Json

/-- The document that written members make, repeated ones merged at every depth. -/
def Document.settle (members : List (String × Json)) : Document :=
  Document.ofMembers (Json.settleMembers members)

end FeedFiler
