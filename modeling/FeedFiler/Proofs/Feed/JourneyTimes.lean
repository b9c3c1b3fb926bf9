import FeedFiler.Feed.JourneyTimes
import FeedFiler.Proofs.Record.Reading

/-!
# What journey times keep

The record of an object holds the texts and the numbers that are written last under their keys, and its
document has them again. Only whole numbers above the signed ones of 64 bits are rounded to doubles.
-/

namespace FeedFiler

theorem Text.decode?_toUTF8 (s : String) : Text.decode? s.toUTF8 = some s := dif_pos s.isValidUTF8

/-! ## Numbers -/

/-- The number is a whole one above the signed ones of 64 bits. -/
def Number.Exceeds : Number → Prop
  | .whole w => 9223372036854775807 < w.val
  | .float _ _ => False

instance : (n : Number) → Decidable n.Exceeds
  | .whole w => inferInstanceAs (Decidable (_ < w.val))
  | .float _ _ => inferInstanceAs (Decidable False)

theorem WholeNumber.ofInt64_of_toInt64? {w : WholeNumber} {i : Int64} (h : w.toInt64? = some i) :
    ofInt64 i = w ∧ i.toInt = w.val := by
  rw [toInt64?, int64OfInt?] at h
  split at h
  · next hfits =>
      cases h
      have hval : (Int64.ofInt w.val).toInt = w.val := Int64.toInt_ofInt_of_le hfits.1 (by omega)
      obtain ⟨val, lower, upper⟩ := w
      exact ⟨by simp only [ofInt64, hval], hval⟩
  · cases h

theorem WholeNumber.toInt64?_eq_none_iff {w : WholeNumber} :
    w.toInt64? = none ↔ 9223372036854775807 < w.val := by
  have hlow := w.lower
  rw [toInt64?, int64OfInt?, ite_eq_right_iff]
  simp only [reduceCtorEq, imp_false, not_and, Int.not_le]
  exact ⟨fun h => h hlow, fun h _ => h⟩

theorem WholeNumber.exists_toInt64? {w : WholeNumber} (h : w.val ≤ 9223372036854775807) :
    ∃ i, w.toInt64? = some i := by
  rw [← Option.isSome_iff_exists, Option.isSome_iff_ne_none, ne_eq, toInt64?_eq_none_iff]
  omega

namespace Value

theorem exists_ofJson?_number (n : Number) : ∃ v, ofJson? (.number n) = some v := by
  rw [ofJson?]
  split
  · exact ⟨_, rfl⟩
  · exact ⟨_, rfl⟩

/-- A number is the same in JSON again unless it exceeds the signed ones. -/
theorem toJson_of_number {n : Number} {v : Value} (h : ofJson? (.number n) = some v) :
    v.toJson = .number n ↔ ¬ n.Exceeds := by
  cases n with
  | float x hx =>
      cases h
      have hkept : toJson (.float x) = .number (.float x hx) := dif_pos hx
      exact iff_of_true hkept not_false
  | whole w =>
      rw [Number.Exceeds, ← WholeNumber.toInt64?_eq_none_iff]
      simp only [ofJson?, Number.toInt64?] at h
      cases hi : w.toInt64? with
      | some i =>
          simp only [hi, Option.some.injEq] at h
          subst h
          rw [toJson, Json.ofInt64, (WholeNumber.ofInt64_of_toInt64? hi).1]
          simp
      | none =>
          simp only [hi, Option.some.injEq] at h
          subst h
          rw [toJson, Json.ofFloat]
          split <;> simp

end Value

/-! ## Payloads -/

namespace JourneyTimes

/-- The record of an object. -/
def recordOf (members : List (String × Json)) : Record := (Record.ofDocument (Document.settle members)).1

/-- Each object of an array gives a record. -/
theorem parse_eq {payload : ByteArray} {text : String} {items : List Json}
    (htext : Text.decode? payload = some text) (hitems : Json.written? text = some (.array items)) :
    parse payload = (items.filterMap Json.object?).map recordOf := by
  have hparse : Json.parse? text = some (.array (items.map Json.settle)) := by
    rw [Json.parse?_eq, hitems, Option.map_some, Json.settle, Json.settleItems_eq_map]
  have hread : (Text.decode? payload).bind Json.parse? = some (.array (items.map Json.settle)) := by
    rw [htext, Option.bind_some, hparse]
  rw [parse, hread]
  simp only [recordsOf, List.filterMap_map, List.map_filterMap]
  congr 1
  funext item
  rw [Function.comp_apply, Json.object?_settle, Option.map_map]
  rfl

theorem get?_recordOf (members : List (String × Json)) (key : String) :
    (recordOf members).get? key = (Document.last? members key).bind Value.ofJson? := by
  rw [recordOf, Record.get?_ofDocument (Document.settle_distinct members).1, Document.get?_settle, Option.bind_map]
  congr 1
  funext value
  exact Value.ofJson?_settle value

/-- **Texts and numbers are kept.** Each object of an array that is the payload gives a record. What is written
last under a key stands in the record's document under the same key if it is a text, and if it is a number,
exactly if it is no whole number above the signed ones of 64 bits. A whole number up to there is a whole number
in the record, the same one; one above is rounded to a double. -/
theorem scalars_kept {payload : ByteArray} {text : String} {items : List Json}
    (htext : Text.decode? payload = some text) (hitems : Json.written? text = some (.array items)) :
    List.Forall₂ (fun members r => ∀ key,
        (∀ s, Document.last? members key = some (.string s) → Document.get? r.toDocument key = some (.string s)) ∧
        (∀ n, Document.last? members key = some (.number n) →
          (Document.get? r.toDocument key = some (.number n) ↔ ¬ n.Exceeds)) ∧
        ∀ w, Document.last? members key = some (.number (.whole w)) →
          (w.val ≤ 9223372036854775807 → ∃ i, r.get? key = some (.int i) ∧ i.toInt = w.val) ∧
          (9223372036854775807 < w.val → r.get? key = some (.float (Float.ofInt w.val))))
      (items.filterMap Json.object?) (parse payload) := by
  rw [parse_eq htext hitems, List.forall₂_map_right_iff, List.forall₂_same]
  intro members _ key
  simp only [Record.get?_toDocument, get?_recordOf]
  refine ⟨fun s hs => ?_, fun n hn => ?_, fun w hw => ⟨fun hle => ?_, fun hlt => ?_⟩⟩
  · rw [hs]
    rfl
  · obtain ⟨v, hv⟩ := Value.exists_ofJson?_number n
    rw [hn, Option.bind_some, hv, Option.map_some, Option.some_inj]
    exact Value.toJson_of_number hv
  · obtain ⟨i, hi⟩ := WholeNumber.exists_toInt64? hle
    refine ⟨i, ?_, (WholeNumber.ofInt64_of_toInt64? hi).2⟩
    simp only [hw, Option.bind_some, Value.ofJson?, Number.toInt64?, hi]
  · have hnone := WholeNumber.toInt64?_eq_none_iff.2 hlt
    simp only [hw, Option.bind_some, Value.ofJson?, Number.toInt64?, hnone, Number.toFloat]

/-- Two links with something else between them. The first one says twice how long it takes. -/
def linkItems : List Json :=
  [.object [("id", .string "x"), ("period", .number (.whole ⟨5, by decide, by decide⟩)),
      ("period", .number (.whole ⟨9223372036854775807, by decide, by decide⟩)),
      ("normal", .number (.float 129.39 (by decide +kernel)))],
    .null, .object [("id", .number (.whole ⟨18446744073709551614, by decide, by decide⟩))]]

theorem floatsReadBack_linkItems : (Json.array linkItems).FloatsReadBack := by
  simp only [linkItems, Json.FloatsReadBack, Json.ItemsReadBack, Json.MembersReadBack, and_true, true_and]
  decide +kernel

theorem scalars_kept_links :
    let text := (Json.array linkItems).render
    Text.decode? text.toUTF8 = some text ∧ Json.written? text = some (.array linkItems) ∧
    ∃ r₁ r₂, parse text.toUTF8 = [r₁, r₂] ∧ Document.get? r₁.toDocument "id" = some (.string "x") ∧
      (∃ i, r₁.get? "period" = some (.int i) ∧ i.toInt = 9223372036854775807) ∧
      Document.get? r₁.toDocument "normal" = some (.number (.float 129.39 (by decide +kernel))) ∧
      r₂.get? "id" = some (.float (Float.ofInt 18446744073709551614)) := by
  intro text
  have htext : Text.decode? text.toUTF8 = some text := Text.decode?_toUTF8 text
  have hitems : Json.written? text = some (.array linkItems) :=
    Json.written?_render (by decide) floatsReadBack_linkItems
  have hkept := scalars_kept htext hitems
  rw [show linkItems.filterMap Json.object? = [_, _] from rfl, List.forall₂_cons_left_iff] at hkept
  obtain ⟨r₁, rest, hfirst, hrest, hparse⟩ := hkept
  rw [List.forall₂_cons_left_iff] at hrest
  obtain ⟨r₂, rest, hsecond, hend, rfl⟩ := hrest
  cases hend
  refine ⟨htext, hitems, r₁, r₂, hparse, (hfirst "id").1 _ rfl, ?_, ?_, ?_⟩
  · exact ((hfirst "period").2.2 _ rfl).1 (by decide)
  · exact ((hfirst "normal").2.1 _ rfl).2 not_false
  · exact ((hsecond "id").2.2 _ rfl).2 (by decide)

/-- A whole number that is no double. -/
def oddNumber : WholeNumber := ⟨9223372036854775809, by decide, by decide⟩

/-- A number above the signed ones comes out as another one. -/
theorem identifier_rounded :
    let text := "[\x7b\"id\":9223372036854775809\x7d]"
    Json.written? text = some (.array [.object [("id", .number (.whole oddNumber))]]) ∧
    ∃ r, parse text.toUTF8 = [r] ∧ r.get? "id" = some (.float 9223372036854775808) ∧
      Document.get? r.toDocument "id" ≠ some (.number (.whole oddNumber)) := by
  intro text
  have hrender : (Json.array [.object [("id", .number (.whole oddNumber))]]).render = text := by decide +kernel
  have hwritten : Json.written? text = some (.array [.object [("id", .number (.whole oddNumber))]]) := by
    rw [← hrender]
    exact Json.written?_render (by decide) ⟨⟨trivial, trivial⟩, trivial⟩
  have hget : (recordOf [("id", .number (.whole oddNumber))]).get? "id" = some (.float 9223372036854775808) := by
    rw [get?_recordOf]
    decide +kernel
  refine ⟨hwritten, _, parse_eq (Text.decode?_toUTF8 text) hwritten, hget, ?_⟩
  rw [Record.get?_toDocument, hget, Option.map_some, ne_eq, Option.some_inj,
    Value.toJson_of_number (n := .whole oddNumber) (by decide +kernel)]
  decide +kernel

end JourneyTimes

end FeedFiler
