import FeedFiler.Proofs.Json.Spelling
import FeedFiler.Proofs.Json.Written
import FeedFiler.Proofs.Record

/-!
# Two ways of reading a record

A text can be read as a record, if each member is a scalar, or as a document, of which a record takes the
scalars and leaves the other members out. The two agree wherever no member is left out.
-/

namespace FeedFiler

theorem Value.ofJson?_settle (value : Json) : ofJson? value.settle = ofJson? value := by
  cases value <;> rfl

namespace Record

/-- The record that a text writes, if each of its members is a scalar. -/
def parse? (text : String) : Option Record := (Json.parseMembers? text).bind ofMembers?

/-- The fields that the scalars among some members write. -/
def scalars (members : List (String × Json)) : List (String × Value) :=
  members.filterMap fun (field, value) => (Value.ofJson? value).map (field, ·)

/-- The names of the other members. -/
def others (members : List (String × Json)) : List String :=
  (members.filter fun member => (Value.ofJson? member.2).isNone).map Prod.fst

variable {members : List (String × Json)} {field : String} {value : Json} {v : Value} {r : Record}

theorem scalars_cons_of_some (h : Value.ofJson? value = some v) (members : List (String × Json)) :
    scalars ((field, value) :: members) = (field, v) :: scalars members := by
  simp [scalars, h]

theorem scalars_cons_of_none (h : Value.ofJson? value = none) (members : List (String × Json)) :
    scalars ((field, value) :: members) = scalars members := by
  simp [scalars, h]

theorem others_cons_of_some (h : Value.ofJson? value = some v) (members : List (String × Json)) :
    others ((field, value) :: members) = others members := by
  simp [others, h]

theorem others_cons_of_none (h : Value.ofJson? value = none) (members : List (String × Json)) :
    others ((field, value) :: members) = field :: others members := by
  simp [others, h]

theorem ofDocument_eq (doc : Document) : ofDocument doc = (ofList (scalars doc), others doc) := by
  rw [ofDocument]
  change _ = ((empty, ([] : List String)).1.insertAll (scalars doc), (empty, ([] : List String)).2 ++ others doc)
  generalize (empty, ([] : List String)) = s
  induction doc generalizing s with
  | nil => exact Prod.ext rfl (List.append_nil _).symm
  | cons member doc ih =>
      obtain ⟨field, value⟩ := member
      rw [List.foldl_cons]
      cases hv : Value.ofJson? value with
      | some v =>
          simp only [hv]
          rw [ih, scalars_cons_of_some hv, others_cons_of_some hv]
          rfl
      | none =>
          simp only [hv]
          rw [ih, scalars_cons_of_none hv, others_cons_of_none hv, List.append_assoc]
          rfl

theorem ofMembers?_eq (members : List (String × Json)) :
    ofMembers? members = if others members = [] then some (ofList (scalars members)) else none := by
  rw [ofMembers?, ofList]
  generalize empty = r
  induction members generalizing r with
  | nil => rfl
  | cons member members ih =>
      obtain ⟨field, value⟩ := member
      rw [List.foldlM_cons]
      simp only [Value.firstFit?_eq_ofJson?] at ih ⊢
      cases hv : Value.ofJson? value with
      | some v =>
          rw [scalars_cons_of_some hv, others_cons_of_some hv]
          exact ih (r.insert field v)
      | none =>
          rw [others_cons_of_none hv, if_neg (List.cons_ne_nil _ _)]
          rfl

theorem ofMembers?_eq_some_iff : ofMembers? members = some r ↔ ofDocument members = (r, []) := by
  rw [ofMembers?_eq, ofDocument_eq, Prod.mk.injEq, and_comm]
  split
  · next h => rw [Option.some_inj, and_iff_right h]
  · next h => exact iff_of_false nofun fun hm => h hm.1

/-! ## Members of nested objects -/

theorem scalars_settleMembers (members : List (String × Json)) :
    scalars (Json.settleMembers members) = scalars members := by
  simp only [Json.settleMembers_eq_map, scalars, List.filterMap_map, Function.comp_def, Value.ofJson?_settle]

theorem others_settleMembers (members : List (String × Json)) :
    others (Json.settleMembers members) = others members := by
  simp only [Json.settleMembers_eq_map, others, List.filter_map, List.map_map, Function.comp_def, Value.ofJson?_settle]

/-- Merging the members of nested objects changes neither the scalars nor the names of the others. -/
theorem ofDocument_settleMembers (members : List (String × Json)) :
    ofDocument (Json.settleMembers members) = ofDocument members := by
  rw [ofDocument_eq, ofDocument_eq, scalars_settleMembers, others_settleMembers]

theorem ofDocument_settle (h : Document.Distinct members) :
    ofDocument (Document.settle members) = ofDocument members := by
  have hd : Document.Distinct (Json.settleMembers members) := by
    rw [Document.Distinct, Document.keys_settleMembers]
    exact h
  rw [Document.settle, Document.ofMembers_of_distinct hd, ofDocument_settleMembers]

/-! ## Fields and members -/

theorem lookup_scalars {doc : Document} (h : doc.Distinct) (key : String) :
    (scalars doc).reverse.lookup key = (doc.get? key).bind Value.ofJson? := by
  induction doc with
  | nil => rfl
  | cons member doc ih =>
      obtain ⟨name, value⟩ := member
      obtain ⟨hname, hd⟩ := List.nodup_cons.1 h
      have hrest := ih hd
      rw [Document.get?_cons]
      by_cases hk : key = name
      · -- The key does not occur again.
        rw [hk, Document.get?_eq_none_iff.2 hname] at hrest
        subst hk
        cases hv : Value.ofJson? value with
        | some v => simp [scalars_cons_of_some hv, List.lookup_append, hrest, hv]
        | none => simp [scalars_cons_of_none hv, hrest, hv]
      · rw [if_neg hk, ← hrest]
        cases hv : Value.ofJson? value with
        | some v => simp [scalars_cons_of_some hv, List.lookup_append, List.lookup_cons, beq_false_of_ne hk]
        | none => rw [scalars_cons_of_none hv]

/-- A field holds what the member of its name is as a value. -/
theorem get?_ofDocument {doc : Document} (h : doc.Distinct) (key : String) :
    (ofDocument doc).1.get? key = (doc.get? key).bind Value.ofJson? := by
  rw [ofDocument_eq, ofList, get?_insertAll, lookup_scalars h, get?_empty, Option.or_none]

theorem keys_toDocument (r : Record) : Document.keys r.toDocument = r.toList.map Prod.fst := by
  rw [Document.keys, toDocument, List.map_map]
  rfl

theorem distinct_toDocument (r : Record) : Document.Distinct r.toDocument := by
  rw [Document.Distinct, keys_toDocument, List.Nodup, List.pairwise_map]
  refine Std.ExtTreeMap.distinct_keys_toList.imp fun hne he => hne ?_
  rw [he]
  exact Std.ReflCmp.compare_self

theorem get?_toDocument (r : Record) (key : String) :
    Document.get? r.toDocument key = (r.get? key).map Value.toJson := by
  cases h : r.get? key with
  | some v =>
      refine (Document.get?_eq_some_iff r.distinct_toDocument).2 (List.mem_map.2 ⟨(key, v), ?_, rfl⟩)
      exact mem_toList_iff.2 h
  | none =>
      refine Document.get?_eq_none_iff.2 fun hm => ?_
      rw [keys_toDocument, List.mem_map] at hm
      obtain ⟨⟨_, v⟩, hv, rfl⟩ := hm
      rw [mem_toList_iff, h] at hv
      cases hv

/-! ## Agreement -/

theorem ofDocument_toDocument_iff : ofDocument r.toDocument = (r, []) ↔ r.Finite := by
  constructor
  · intro h
    have hf := finite_ofDocument r.toDocument
    rwa [h] at hf
  · intro h
    exact ofMembers?_eq_some_iff.1 (ofMembers?_toDocument h)

/-- **Both readings agree.** A text whose members have distinct keys is read as a record exactly if the record of
its document leaves no member out, and then it is the same record. A number is taken the same way by both: it
becomes a whole number if it is spelled as one and fits 64 signed bits, or else the double of the digits that
count. A record is read back from its document, and nothing is left out, exactly if its doubles are finite. -/
theorem readings_agree :
    (∀ (text : String) (members : Document), Json.parseMembers? text = some members → members.Distinct →
      ∃ doc, Document.parse? text = some doc ∧ ((parse? text).isSome ↔ (ofDocument doc).2 = []) ∧
        ∀ r, parse? text = some r → (ofDocument doc).1 = r) ∧
    (∀ (s rest : List Char) (p : Json.Spelling) (n : Number), Json.readSpelling s = some (p, rest) →
      Json.readNumber s = some (n, rest) → Value.ofJson? (.number n) = some (.ofSpelling p) ∧
        Value.firstFit? (.number n) = some (.ofSpelling p)) ∧
    ∀ r : Record, ofDocument r.toDocument = (r, []) ↔ r.Finite := by
  refine ⟨fun text members hm hd => ⟨Document.settle members, ?_, ?_, fun r hr => ?_⟩, fun s rest p n hp hn => ?_,
    fun r => ofDocument_toDocument_iff⟩
  · rw [Document.parse?, hm, Option.map_some]
  · rw [parse?, hm, Option.bind_some, ofDocument_settle hd, Option.isSome_iff_exists]
    constructor
    · rintro ⟨r, hr⟩
      rw [ofMembers?_eq_some_iff.1 hr]
    · intro hnone
      exact ⟨(ofDocument members).1, ofMembers?_eq_some_iff.2 (Prod.ext rfl hnone)⟩
  · rw [parse?, hm, Option.bind_some] at hr
    rw [ofDocument_settle hd, ofMembers?_eq_some_iff.1 hr]
  · rw [Json.readNumber_eq, hp, Option.bind_some, Option.map_eq_some_iff] at hn
    obtain ⟨m, hm, he⟩ := hn
    cases he
    have hv := Value.ofJson?_of_spelling hm
    exact ⟨hv, (Value.firstFit?_eq_ofJson? _).trans hv⟩

/-- Numbers at the edge of the signed range and behind it, and a text. -/
def edgeText : String :=
  "\x7b\"a\":9223372036854775807,\"b\":9223372036854775808,\"c\":1e3,\"d\":\"-0\"\x7d"

/-- A whole number beyond all that are kept exactly. -/
def hugeSpelling : Json.Spelling := ⟨false, "18446744073709551616".toList, [], none⟩

theorem readings_agree_edge :
    (∃ members doc r, Json.parseMembers? edgeText = some members ∧ Document.Distinct members ∧
      Document.parse? edgeText = some doc ∧ parse? edgeText = some r ∧ ofDocument doc = (r, []) ∧
      r.get? "a" = some (.int 9223372036854775807) ∧ r.get? "b" = some (.float 9223372036854775808) ∧
      r.get? "c" = some (.float 1000) ∧ r.get? "d" = some (.text "-0")) ∧
    ∃ n, Json.readSpelling "18446744073709551616".toList = some (hugeSpelling, []) ∧
      Json.readNumber "18446744073709551616".toList = some (n, []) ∧
      Value.ofJson? (.number n) = some (.ofSpelling hugeSpelling) := by
  obtain ⟨hagree, hspelling, -⟩ := readings_agree
  constructor
  · obtain ⟨members, hm⟩ := Option.isSome_iff_exists.1 (by decide +kernel : (Json.parseMembers? edgeText).isSome = true)
    have hd : Document.Distinct members := by
      have hall : (Json.parseMembers? edgeText).all (fun members => decide (Document.Distinct members)) = true := by
        decide +kernel
      rw [hm, Option.all_some, decide_eq_true_eq] at hall
      exact hall
    obtain ⟨doc, hdoc, hnone, hsame⟩ := hagree edgeText members hm hd
    obtain ⟨r, hr⟩ := Option.isSome_iff_exists.1 (by decide +kernel : (parse? edgeText).isSome = true)
    have hget : (parse? edgeText).all (fun r => r.get? "a" == some (.int 9223372036854775807) &&
        r.get? "b" == some (.float 9223372036854775808) && r.get? "c" == some (.float 1000) &&
        r.get? "d" == some (.text "-0")) = true := by decide +kernel
    rw [hr] at hget
    simp only [Option.all_some, Bool.and_eq_true, beq_iff_eq] at hget
    obtain ⟨⟨⟨ha, hb⟩, hc⟩, htext⟩ := hget
    exact ⟨members, doc, r, hm, hd, hdoc, hr, Prod.ext (hsame r hr) (hnone.1 (by rw [hr]; rfl)), ha, hb, hc, htext⟩
  · have hread : Json.readSpelling "18446744073709551616".toList = some (hugeSpelling, []) := by rfl
    have hn : Json.readNumber "18446744073709551616".toList =
        some (.float 18446744073709551616 (by decide +kernel), []) := by decide +kernel
    exact ⟨_, hread, hn, (hspelling _ _ _ _ hread hn).1⟩

end Record

end FeedFiler
