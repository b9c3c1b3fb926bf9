import FeedFiler.Proofs.Json.Accepted
import FeedFiler.Proofs.Number.Finite
import FeedFiler.Record

/-!
# Records in JSON

A record whose doubles are finite is read back from its JSON object. Only such records are read, whether
each member has to be a scalar or the others are left out.
-/

namespace FeedFiler

/-! ## Values -/

theorem WholeNumber.toInt64?_ofInt64 (n : Int64) : (ofInt64 n).toInt64? = some n := by
  have hlow := n.le_toInt
  have hhigh := Int.le_sub_one_of_lt n.toInt_lt
  rw [toInt64?, int64OfInt?]
  exact (if_pos ⟨hlow, hhigh⟩).trans (congrArg some (Int64.ofInt_toInt n))

namespace Value

/-- The value has a JSON number if it is a double. -/
def IsFinite : Value → Prop
  | .float x => x.isFinite = true
  | _ => True

theorem ofJson?_toJson {v : Value} (h : v.IsFinite) : ofJson? v.toJson = some v := by
  cases v with
  | int n => simp [toJson, Json.ofInt64, ofJson?, Number.toInt64?, WholeNumber.toInt64?_ofInt64]
  | float x =>
      rw [toJson, Json.ofFloat, dif_pos (show x.isFinite = true from h)]
      rfl
  | text s => rfl

/-- A double is only read where there is no signed integer of 64 bits, and such numbers are small enough. -/
theorem isFinite_of_ofJson? {json : Json} {v : Value} (h : ofJson? json = some v) : v.IsFinite := by
  cases json with
  | string s => cases h; trivial
  | number n =>
      cases hn : n.toInt64? with
      | some i =>
          simp only [ofJson?, hn, Option.some.injEq] at h
          subst h
          trivial
      | none =>
          simp only [ofJson?, hn, Option.some.injEq] at h
          subst h
          exact Number.isFinite_toFloat hn
  | _ => cases h

theorem depth_toJson (v : Value) : v.toJson.depth = 0 := by
  cases v with
  | float x => rw [toJson, Json.ofFloat]; split <;> rfl
  | _ => rfl

end Value

/-! ## Fields -/

namespace Record

/-- The doubles of the record have JSON numbers. -/
def Finite (r : Record) : Prop := ∀ field v, r.get? field = some v → v.IsFinite

theorem finite_empty : empty.Finite := fun field v h => by simp [get?_empty] at h

theorem Finite.insert {r : Record} (h : r.Finite) {v : Value} (hv : v.IsFinite) (field : String) :
    (r.insert field v).Finite := by
  intro other w hw
  rw [get?_insert] at hw
  split at hw
  · cases hw
    exact hv
  · exact h other w hw

theorem Finite.insertAll {r : Record} (h : r.Finite) {fields : List (String × Value)}
    (hv : ∀ f ∈ fields, f.2.IsFinite) : (r.insertAll fields).Finite := by
  induction fields generalizing r with
  | nil => exact h
  | cons f fields ih =>
      obtain ⟨hf, hv⟩ := List.forall_mem_cons.1 hv
      exact ih (h.insert hf f.1) hv

theorem mem_toList_iff {r : Record} {field : String} {v : Value} :
    (field, v) ∈ r.toList ↔ r.get? field = some v :=
  Std.ExtTreeMap.mem_toList_iff_getElem?_eq_some

theorem Finite.of_mem {r : Record} (h : r.Finite) {f : String × Value} (hf : f ∈ r.toList) : f.2.IsFinite :=
  h f.1 f.2 (mem_toList_iff.1 hf)

theorem get?_ofList (fields : List (String × Value)) (field : String) :
    (ofList fields).get? field = (Std.ExtTreeMap.ofList fields)[field]? := by
  have h (r : Record) :
      (r.insertAll fields).fields = fields.foldl (fun m f => m.insert f.1 f.2) r.fields := by
    induction fields generalizing r with
    | nil => rfl
    | cons f fields ih => exact ih (r.insert f.1 f.2)
  rw [get?, ofList, h, Std.ExtTreeMap.ofList_eq_foldl]
  rfl

/-- The fields of a record write the record. -/
theorem ofList_toList (r : Record) : ofList r.toList = r := by
  ext1 field
  rw [get?_ofList]
  cases h : r.get? field with
  | some v =>
      exact Std.ExtTreeMap.getElem?_ofList_of_mem Std.ReflCmp.compare_self Std.ExtTreeMap.distinct_keys_toList
        (mem_toList_iff.2 h)
  | none =>
      refine Std.ExtTreeMap.getElem?_ofList_of_contains_eq_false ?_
      rw [Bool.eq_false_iff, ne_eq, List.contains_iff_mem, List.mem_map]
      rintro ⟨⟨_, v⟩, hm, rfl⟩
      rw [mem_toList_iff, h] at hm
      cases hm

/-! ## JSON objects -/

/-- The members of finite fields are read one by one. -/
theorem foldlM_toJson {fields : List (String × Value)} (h : ∀ f ∈ fields, f.2.IsFinite) (r : Record) :
    (fields.map fun (field, value) => (field, value.toJson)).foldlM
      (fun r (field, value) => (Value.firstFit? value).map (r.insert field)) r =
        some (r.insertAll fields) := by
  induction fields generalizing r with
  | nil => rfl
  | cons f fields ih =>
      obtain ⟨field, v⟩ := f
      obtain ⟨hv, h⟩ := List.forall_mem_cons.1 h
      rw [List.map_cons, List.foldlM_cons]
      simp only [Value.firstFit?_eq_ofJson?, Value.ofJson?_toJson hv] at ih ⊢
      exact ih h (r.insert field v)

/-- A record whose doubles are finite is read back from its members. -/
theorem ofMembers?_toDocument {r : Record} (h : r.Finite) : ofMembers? r.toDocument = some r :=
  (foldlM_toJson (fun _ => h.of_mem) empty).trans (congrArg some r.ofList_toList)

theorem finite_of_ofMembers? {members : List (String × Json)} {r : Record} (h : ofMembers? members = some r) :
    r.Finite := by
  have hs := finite_empty
  rw [ofMembers?] at h
  generalize empty = s at h hs
  induction members generalizing s with
  | nil => cases h; exact hs
  | cons member members ih =>
      rw [List.foldlM_cons] at h
      obtain ⟨s', hs', h⟩ := Option.bind_eq_some_iff.1 h
      obtain ⟨v, hv, rfl⟩ := Option.map_eq_some_iff.1 hs'
      rw [Value.firstFit?_eq_ofJson?] at hv
      exact ih _ h (hs.insert (Value.isFinite_of_ofJson? hv) _)

theorem finite_ofDocument (doc : Document) : (ofDocument doc).1.Finite := by
  have hs : (empty, ([] : List String)).1.Finite := finite_empty
  rw [ofDocument]
  generalize (empty, []) = s at hs ⊢
  induction doc generalizing s with
  | nil => exact hs
  | cons member doc ih =>
      refine ih _ ?_
      simp only
      split
      · next v hv => exact hs.insert (Value.isFinite_of_ofJson? hv) _
      · exact hs

/-- A record is nested no deeper than one object. -/
theorem depth_toDocument_le (r : Record) : (Json.object r.toDocument).depth ≤ 1 := by
  refine Nat.succ_le_succ (Json.membersDepth_le_iff.2 fun member hm => ?_)
  obtain ⟨f, -, rfl⟩ := List.mem_map.1 hm
  exact Nat.le_of_eq f.2.depth_toJson

end Record

end FeedFiler
