import FeedFiler.Proofs.Feed.Pages

/-!
# Records from leaves

A record is written leaf by leaf. What it holds under a name is what was written there last: by a leaf of
that name, or by a mapping whose tag is that of the leaf.
-/

namespace FeedFiler

theorem mapM_except_map {α β γ ε : Type} (f : α → Except ε β) (g : β → γ) (as : List α) :
    as.mapM (fun a => (f a).map g) = (as.mapM f).map (List.map g) := by
  induction as with
  | nil => rfl
  | cons a as ih =>
      simp only [List.mapM_cons, ih]
      cases f a with
      | error e => rfl
      | ok b => cases as.mapM f <;> rfl

namespace MarkupParser
open Markup

/-- The leaves of the records of a page. -/
def leavesOf (p : MarkupParser) (page : List Char) : Except Fault (List (List Leaf)) :=
  (sections p.tagRecord.toList 0 page).mapM fun (span, record) => Markup.leaves span record

/-- The field that is derived from a leaf, if its tag has a mapping and its text converts. -/
def derived? (p : MarkupParser) (leaf : Leaf) : Option (String × Value) :=
  (TagMapping.find? p.mappings (String.ofList leaf.tag)).bind fun mapping =>
    (mapping.convert? leaf.text).map (mapping.target, ·)

/-- The value that a leaf gives a field, if it gives it one. -/
def write? (p : MarkupParser) (field : String) (leaf : Leaf) : Option Value :=
  (((p.derived? leaf).filter (·.1 = field)).map Prod.snd).or
    (if String.ofList leaf.tag = field then some (.text (String.ofList leaf.text)) else none)

variable (p : MarkupParser) (page : List Char)

/-! ## Leaves of a page -/

theorem parseText_eq : p.parseText page = (p.leavesOf page).map (List.map p.recordOf) := by
  rw [leavesOf, ← mapM_except_map]
  rfl

variable {p page} {leaves : List (List Leaf)}

theorem length_leavesOf (h : p.leavesOf page = .ok leaves) : leaves.length = (p.spans page).length := by
  rw [← (mapM_eq_ok.1 h).length_eq]
  simp [spans, Markup.spans]

/-- The leaves of a record are read off the page from the record's start on, at which its opening tag
stands. -/
theorem leaves_of_leavesOf (h : p.leavesOf page = .ok leaves) {i : Nat} {span : Span} {found : List Leaf}
    (hs : (p.spans page)[i]? = some span) (hl : leaves[i]? = some found) :
    Markup.leaves span (page.drop span.start) = .ok found ∧
      Text.StandsAt p.opening page span.start := by
  obtain ⟨hlt, rfl⟩ := List.getElem?_eq_some_iff.1 hs
  obtain ⟨hlt', rfl⟩ := List.getElem?_eq_some_iff.1 hl
  have hsections : i < (sections p.tagRecord.toList 0 page).length := by
    simpa [spans, Markup.spans] using hlt
  have hspan : (p.spans page)[i] = (sections p.tagRecord.toList 0 page)[i].1 := by
    simp [spans, Markup.spans]
  have hread : Markup.leaves (sections p.tagRecord.toList 0 page)[i].1
      (sections p.tagRecord.toList 0 page)[i].2 = .ok leaves[i] := (mapM_eq_ok.1 h).get hsections hlt'
  rw [(follow_sections p.tagRecord.toList page 0).2 _ (List.getElem_mem hsections), ← hspan] at hread
  exact ⟨hread, ((follow_spans p.tagRecord.toList page).getElem hlt).1.standsAt⟩

/-! ## Fields of a record -/

theorem get?_store (p : MarkupParser) (r : Record) (leaf : Leaf) (field : String) :
    (p.store r leaf).get? field =
      (((p.derived? leaf).filter (·.1 = field)).map Prod.snd).or
        (if String.ofList leaf.tag = field then some (.text (String.ofList leaf.text)) else r.get? field) := by
  rw [store, derived?]
  cases TagMapping.find? p.mappings (String.ofList leaf.tag) with
  | none => exact Record.get?_insert r _ field _
  | some mapping =>
      cases hc : mapping.convert? leaf.text with
      | none =>
          simp only [hc, Option.bind_some]
          exact Record.get?_insert r _ field _
      | some value =>
          simp only [hc, Option.bind_some, Option.map_some]
          rw [Record.get?_insert, Record.get?_insert]
          by_cases ht : mapping.target = field <;> simp [ht, Option.filter_some]

theorem recordOf_concat (p : MarkupParser) (found : List Leaf) (leaf : Leaf) :
    p.recordOf (found ++ [leaf]) = p.store (p.recordOf found) leaf := by
  rw [recordOf, recordOf, List.foldl_append]
  rfl

/-- A field holds what was written there last. -/
theorem get?_recordOf (p : MarkupParser) (found : List Leaf) (field : String) :
    (p.recordOf found).get? field = (found.filterMap (p.write? field)).getLast? := by
  induction found using List.reverseRecOn with
  | nil => exact Record.get?_empty field
  | append_singleton found leaf ih =>
      rw [recordOf_concat, get?_store, ih, List.filterMap_append, List.getLast?_append]
      simp only [List.filterMap_cons, List.filterMap_nil, write?]
      cases (p.derived? leaf).filter (·.1 = field) with
      | some derived => rfl
      | none =>
          split
          · rfl
          · rfl

end MarkupParser

end FeedFiler
