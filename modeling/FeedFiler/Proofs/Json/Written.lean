import FeedFiler.Proofs.Json.Accepted
import FeedFiler.Proofs.Json.Members

/-!
# What a text writes

A text writes a value whose objects may have a key more than once. Reading the text merges the members of each
object, so that under a key stands what is written last.
-/

namespace FeedFiler

namespace Json

/-- The value that a text writes, with the members of its objects as they are written, repetitions
included. -/
def written? (text : String) : Option Json := readWholeText (readValue maxDepth) text.toList

theorem parse?_eq (text : String) : parse? text = (written? text).map settle := rfl

theorem written?_render {v : Json} (hd : v.depth ≤ maxDepth) (hf : v.FloatsReadBack) :
    written? v.render = some v := by
  have hend : EndsNumber [] := nofun
  have hread := readValue_chars v hd hf [] hend
  have hskip := skipSpace_chars hf []
  rw [List.append_nil] at hread hskip
  rw [written?, render, String.toList_ofList, readWholeText, hskip, hread]
  rfl

theorem object?_settle (v : Json) : v.settle.object? = v.object?.map Document.settle := by
  cases v <;> rfl

theorem settleItems_eq_map (items : List Json) : settleItems items = items.map settle := by
  induction items with
  | nil => rfl
  | cons item items ih => rw [settleItems, ih, List.map_cons]

theorem settleMembers_eq_map (members : List (String × Json)) :
    settleMembers members = members.map fun (key, value) => (key, value.settle) := by
  induction members with
  | nil => rfl
  | cons member members ih => rw [settleMembers, ih, List.map_cons]

end Json

namespace Document

theorem last?_settleMembers (members : List (String × Json)) (key : String) :
    last? (Json.settleMembers members) key = (last? members key).map Json.settle := by
  induction members with
  | nil => rfl
  | cons member members ih =>
      obtain ⟨name, value⟩ := member
      rw [Json.settleMembers, last?_cons, last?_cons, ih, Option.map_or]
      split <;> rfl

theorem get?_settle (members : List (String × Json)) (key : String) :
    get? (settle members) key = (last? members key).map Json.settle := by
  rw [settle, ofMembers, get?_insertAll_eq, last?_settleMembers]
  exact Option.or_none

end Document

end FeedFiler
