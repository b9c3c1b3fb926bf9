import FeedFiler.Proofs.Json.Numbers

/-!
# Printed JSON reads back

The text of a document is read as the same document, if no object of it has a key twice, it is nested
no deeper than the reader allows, and the text of each of its doubles is read as the same double.
-/

namespace FeedFiler.Json

open Text (Reader)

/-! ## Strings -/

theorem hexValue?_hexDigit : ∀ n < 16, hexValue? (hexDigit n) = some n := by decide

theorem readHex4_control {n : Nat} (h : n < 0x20) (rest : List Char) :
    readHex4 ('0' :: '0' :: hexDigit (n / 16) :: hexDigit (n % 16) :: rest) = some (n, rest) := by
  have h0 : hexValue? '0' = some 0 := by decide
  have h1 := hexValue?_hexDigit (n / 16) (by omega)
  have h2 := hexValue?_hexDigit (n % 16) (by omega)
  simp only [readHex4, h0, h1, h2, Option.bind_eq_bind, Option.bind_some]
  congr 2
  omega

theorem readNumbered_control {c : Char} (h : c.toNat < 0x20) (rest : List Char) :
    readNumbered ('0' :: '0' :: hexDigit (c.toNat / 16) :: hexDigit (c.toNat % 16) :: rest) =
      some (c, rest) := by
  have h1 : ¬ (0xD800 ≤ c.toNat ∧ c.toNat < 0xDC00) := by omega
  have h2 : ¬ (0xDC00 ≤ c.toNat ∧ c.toNat < 0xE000) := by omega
  simp only [readNumbered, readHex4_control h, Option.bind_eq_bind, Option.bind_some, if_neg h1,
    if_neg h2, Char.ofNat_toNat]

/-- A character is written as an escape that reads as it, or as itself where that is allowed. -/
theorem escape_cases (c : Char) :
    (∃ t, escape c = '\\' :: t ∧ ∀ rest, readEscape (t ++ rest) = some (c, rest)) ∨
      (escape c = [c] ∧ c ≠ '"' ∧ c ≠ '\\' ∧ ¬ c.toNat < 0x20) := by
  by_cases h1 : c = '"'
  · subst h1; exact .inl ⟨['"'], rfl, fun _ => rfl⟩
  by_cases h2 : c = '\\'
  · subst h2; exact .inl ⟨['\\'], rfl, fun _ => rfl⟩
  by_cases h3 : c = '\x08'
  · subst h3; exact .inl ⟨['b'], rfl, fun _ => rfl⟩
  by_cases h4 : c = '\x0c'
  · subst h4; exact .inl ⟨['f'], rfl, fun _ => rfl⟩
  by_cases h5 : c = '\n'
  · subst h5; exact .inl ⟨['n'], rfl, fun _ => rfl⟩
  by_cases h6 : c = '\r'
  · subst h6; exact .inl ⟨['r'], rfl, fun _ => rfl⟩
  by_cases h7 : c = '\t'
  · subst h7; exact .inl ⟨['t'], rfl, fun _ => rfl⟩
  simp only [escape, if_neg h1, if_neg h2, if_neg h3, if_neg h4, if_neg h5, if_neg h6, if_neg h7]
  by_cases h8 : c.toNat < 0x20
  · rw [if_pos h8]
    exact .inl ⟨_, rfl, readNumbered_control h8⟩
  · rw [if_neg h8]
    exact .inr ⟨rfl, h1, h2, h8⟩

theorem readStringBody_escape (c : Char) (rest : List Char) :
    readStringBody (escape c ++ rest) =
      (readStringBody rest).map fun (cs, rest) => (c :: cs, rest) := by
  rcases escape_cases c with ⟨t, he, hr⟩ | ⟨he, hq, hb, hc⟩
  · rw [he, List.cons_append, readStringBody, if_neg (by decide), if_pos rfl]
    split
    · next h => rw [hr rest] at h; cases h
    · next h => rw [hr rest] at h; cases h; rfl
  · rw [he, List.singleton_append, readStringBody, if_neg hq, if_neg hb, if_neg hc]

theorem readStringBody_flatMap (cs rest : List Char) :
    readStringBody (cs.flatMap escape ++ '"' :: rest) = some (cs, rest) := by
  induction cs with
  | nil => rw [List.flatMap_nil, List.nil_append, readStringBody, if_pos rfl]
  | cons c cs ih => rw [List.flatMap_cons, List.append_assoc, readStringBody_escape, ih]; rfl

theorem readString_stringChars (s : String) (rest : List Char) :
    readString (stringChars s ++ rest) = some (s, rest) := by
  simp only [stringChars, List.cons_append, List.append_assoc, List.nil_append, readString,
    readStringBody_flatMap, Option.map_some, String.ofList_toList]

/-! ## What is asked of a value -/

mutual
/-- The number of arrays and objects that stand within each other. -/
def depth : Json → Nat
  | .array items => itemsDepth items + 1
  | .object members => membersDepth members + 1
  | _ => 0

/-- The greatest depth of some values. -/
def itemsDepth : List Json → Nat
  | [] => 0
  | item :: items => max (depth item) (itemsDepth items)

/-- The greatest depth of the values of some members. -/
def membersDepth : List (String × Json) → Nat
  | [] => 0
  | (_, value) :: members => max (depth value) (membersDepth members)
end

mutual
/-- No object has a key twice, at any depth. -/
def Distinct : Json → Prop
  | .array items => ItemsDistinct items
  | .object members => Document.Distinct members ∧ MembersDistinct members
  | _ => True

/-- `Distinct` of every item. -/
def ItemsDistinct : List Json → Prop
  | [] => True
  | item :: items => Distinct item ∧ ItemsDistinct items

/-- `Distinct` of the value of every member. -/
def MembersDistinct : List (String × Json) → Prop
  | [] => True
  | (_, value) :: members => Distinct value ∧ MembersDistinct members
end

mutual
/-- The text of each double is read as the same double. -/
def FloatsReadBack : Json → Prop
  | .number (.float x h) => readNumber (floatChars x) = some (.float x h, [])
  | .array items => ItemsReadBack items
  | .object members => MembersReadBack members
  | _ => True

/-- `FloatsReadBack` of every item. -/
def ItemsReadBack : List Json → Prop
  | [] => True
  | item :: items => FloatsReadBack item ∧ ItemsReadBack items

/-- `FloatsReadBack` of the value of every member. -/
def MembersReadBack : List (String × Json) → Prop
  | [] => True
  | (_, value) :: members => FloatsReadBack value ∧ MembersReadBack members
end

/-! ## First characters -/

theorem skipSpace_cons {c : Char} (h : isSpace c = false) (s : List Char) :
    skipSpace (c :: s) = c :: s := by
  simp [skipSpace, h]

theorem readNumber_numberChars : {n : Number} → FloatsReadBack (.number n) →
    readNumber (numberChars n) = some (n, [])
  | .whole w, _ => readNumber_intChars w
  | .float _ _, h => by simpa only [FloatsReadBack, numberChars] using h

/-- The text of a value starts with a character that is neither a space nor a closing bracket. -/
theorem chars_head {v : Json} (hv : FloatsReadBack v) :
    ∃ c cs, v.chars = c :: cs ∧ isSpace c = false ∧ c ≠ ']' := by
  cases v with
  | null => exact ⟨_, _, rfl, by decide⟩
  | bool b => cases b <;> exact ⟨_, _, rfl, by decide⟩
  | string s => exact ⟨_, _, rfl, by decide⟩
  | array items => exact ⟨_, _, rfl, by decide⟩
  | object members => exact ⟨_, _, rfl, by decide⟩
  | number n =>
      have hn := readNumber_numberChars hv
      cases hc : numberChars n with
      | nil => rw [hc] at hn; cases hn
      | cons c cs =>
          rw [hc] at hn
          refine ⟨c, cs, by rw [chars, hc], ?_⟩
          rcases head_of_readNumber hn with rfl | hd
          · decide
          · constructor
            · cases hs : isSpace c with
              | false => rfl
              | true =>
                  simp only [isSpace, Bool.or_eq_true, beq_iff_eq] at hs
                  rcases hs with ((rfl | rfl) | rfl) | rfl <;> cases hd
            · rintro rfl
              cases hd

theorem readValue_number {n : Number} (hn : readNumber (numberChars n) = some (n, [])) (room : Nat)
    {rest : List Char} (hr : EndsNumber rest) :
    readValue room (numberChars n ++ rest) = some (.number n, rest) := by
  have happ := readNumber_append hn hr
  cases hc : numberChars n with
  | nil => rw [hc] at hn; cases hn
  | cons c cs =>
      rw [hc] at hn happ
      have hne : c ≠ 'n' ∧ c ≠ 't' ∧ c ≠ 'f' ∧ c ≠ '"' ∧ c ≠ '[' ∧ c ≠ '\x7b' := by
        rcases head_of_readNumber hn with rfl | hd
        · decide
        · refine ⟨?_, ?_, ?_, ?_, ?_, ?_⟩ <;> (rintro rfl; cases hd)
      obtain ⟨h1, h2, h3, h4, h5, h6⟩ := hne
      rw [List.cons_append] at happ ⊢
      rw [readValue.eq_def]
      simp only [h1, h2, h3, h4, h5, h6, ↓reduceIte, happ, Option.map_some,
        List.nil_append]

theorem length_le_itemChars (items : List Json) : items.length ≤ (itemChars items).length + 1 := by
  induction items with
  | nil => simp
  | cons item items ih =>
      cases items with
      | nil => simp
      | cons next items =>
          simp only [itemChars, List.length_cons, List.length_append] at ih ⊢
          omega

theorem length_le_memberChars (members : List (String × Json)) :
    members.length ≤ (memberChars members).length + 1 := by
  induction members with
  | nil => simp
  | cons member members ih =>
      cases members with
      | nil => simp
      | cons next members =>
          simp only [memberChars, List.length_cons, List.length_append] at ih ⊢
          omega

theorem skipSpace_chars {v : Json} (hv : FloatsReadBack v) (rest : List Char) :
    skipSpace (v.chars ++ rest) = v.chars ++ rest := by
  obtain ⟨c, cs, hc, hs, -⟩ := chars_head hv
  rw [hc, List.cons_append, skipSpace_cons hs]

theorem skipSpace_stringChars (s : String) (rest : List Char) :
    skipSpace (stringChars s ++ rest) = stringChars s ++ rest :=
  skipSpace_cons (by decide) _

/-! ## Steps of the readers -/

section
variable {item : Reader Json} {s rest : List Char} {bound : Nat} {v : Json}

theorem readArray_nil : readArray item (']' :: s) = some ([], s) := by
  rw [readArray, skipSpace_cons (by decide)]
  rfl

theorem readArray_cons {c : Char} (hs : isSpace c = false) (hc : c ≠ ']') :
    readArray item (c :: s) = readItems item ((c :: s).length + 1) (c :: s) := by
  rw [readArray, skipSpace_cons hs]
  split
  · next h => exact absurd (List.cons.inj h).1 hc
  · rfl

theorem readItems_last (hs : skipSpace s = s) (hv : item s = some (v, ']' :: rest)) :
    readItems item (bound + 1) s = some ([v], rest) := by
  simp [readItems, hs, hv, skipSpace_cons (c := ']') (by decide)]

theorem readItems_cons (hs : skipSpace s = s) (hv : item s = some (v, ',' :: rest)) :
    readItems item (bound + 1) s =
      (readItems item bound rest).map fun (items, s) => (v :: items, s) := by
  cases h : readItems item bound rest <;>
    simp [readItems, hs, hv, h, skipSpace_cons (c := ',') (by decide)]

theorem readObject_nil : readObject item ('\x7d' :: s) = some ([], s) := by
  rw [readObject, skipSpace_cons (by decide)]
  rfl

theorem readObject_cons : readObject item ('"' :: s) = readMembers item (('"' :: s).length + 1) ('"' :: s) := by
  rw [readObject, skipSpace_cons (by decide)]
  rfl

theorem readMembers_last {key : String} (hs : skipSpace s = s)
    (hv : item s = some (v, '\x7d' :: rest)) :
    readMembers item (bound + 1) (stringChars key ++ ':' :: s) = some ([(key, v)], rest) := by
  simp [readMembers, skipSpace_stringChars, readString_stringChars, skipSpace_cons (c := ':') (by decide),
    hs, hv, skipSpace_cons (c := '\x7d') (by decide)]

theorem readMembers_cons {key : String} (hs : skipSpace s = s) (hv : item s = some (v, ',' :: rest)) :
    readMembers item (bound + 1) (stringChars key ++ ':' :: s) =
      (readMembers item bound rest).map fun (members, s) => ((key, v) :: members, s) := by
  cases h : readMembers item bound rest <;>
    simp [readMembers, skipSpace_stringChars, readString_stringChars, skipSpace_cons (c := ':') (by decide),
      hs, hv, h, skipSpace_cons (c := ',') (by decide)]

/-- An array is read if its items are, whatever the bound that is large enough for their number. -/
theorem readArray_itemChars {items : List Json} (hv : ItemsReadBack items) (rest : List Char)
    (h : ∀ bound, items ≠ [] → items.length ≤ bound →
      readItems item bound (itemChars items ++ ']' :: rest) = some (items, rest)) :
    readArray item (itemChars items ++ ']' :: rest) = some (items, rest) := by
  cases items with
  | nil => exact readArray_nil
  | cons first items =>
      have hl := length_le_itemChars (first :: items)
      have h := h ((itemChars (first :: items) ++ ']' :: rest).length + 1) (by simp)
        (by simp only [List.length_append] at hl ⊢; omega)
      obtain ⟨c, cs, hc, hs, hb⟩ := chars_head hv.1
      obtain ⟨cs', hc'⟩ : ∃ cs', itemChars (first :: items) = c :: cs' := by
        cases items with
        | nil => exact ⟨cs, hc⟩
        | cons next items => exact ⟨cs ++ ',' :: itemChars (next :: items), by simp [itemChars, hc]⟩
      rw [hc'] at h ⊢
      exact (readArray_cons hs hb).trans h

/-- An object is read if its members are, whatever the bound that is large enough for their
number. -/
theorem readObject_memberChars {members : List (String × Json)} (rest : List Char)
    (h : ∀ bound, members ≠ [] → members.length ≤ bound →
      readMembers item bound (memberChars members ++ '\x7d' :: rest) = some (members, rest)) :
    readObject item (memberChars members ++ '\x7d' :: rest) = some (members, rest) := by
  cases members with
  | nil => exact readObject_nil
  | cons first members =>
      have hl := length_le_memberChars (first :: members)
      have h := h ((memberChars (first :: members) ++ '\x7d' :: rest).length + 1) (by simp)
        (by simp only [List.length_append] at hl ⊢; omega)
      obtain ⟨cs, hc⟩ : ∃ cs, memberChars (first :: members) = '"' :: cs := by
        cases members with
        | nil => exact ⟨_, rfl⟩
        | cons next members => exact ⟨_, rfl⟩
      rw [hc] at h ⊢
      exact readObject_cons.trans h

end

/-! ## Values -/

mutual
theorem readValue_chars : (v : Json) → {room : Nat} → v.depth ≤ room → FloatsReadBack v →
    (rest : List Char) → EndsNumber rest → readValue room (v.chars ++ rest) = some (v, rest)
  | .null, _, _, _, _, _ => by simp [chars, readValue.eq_def, readWord, Text.expectWord]
  | .bool true, _, _, _, _, _ => by simp [chars, readValue.eq_def, readWord, Text.expectWord]
  | .bool false, _, _, _, _, _ => by simp [chars, readValue.eq_def, readWord, Text.expectWord]
  | .number _, room, _, hv, _, hr => readValue_number (readNumber_numberChars hv) room hr
  | .string s, _, _, _, _, _ => by
      simp [chars, stringChars, readValue.eq_def, readStringBody_flatMap]
  | .array items, room, hd, hv, rest, _ => by
      obtain ⟨room, rfl⟩ : ∃ r, room = r + 1 := ⟨room - 1, by simp only [depth] at hd; omega⟩
      simp only [depth, Nat.add_le_add_iff_right] at hd
      have h := readArray_itemChars hv rest fun bound hne hb =>
        readItems_itemChars items hne hb hd hv rest
      simp [chars, readValue.eq_def, h]
  | .object members, room, hd, hv, rest, _ => by
      obtain ⟨room, rfl⟩ : ∃ r, room = r + 1 := ⟨room - 1, by simp only [depth] at hd; omega⟩
      simp only [depth, Nat.add_le_add_iff_right] at hd
      have h := readObject_memberChars rest fun bound hne hb =>
        readMembers_memberChars members hne hb hd hv rest
      simp [chars, readValue.eq_def, h]

theorem readItems_itemChars : (items : List Json) → {room bound : Nat} → items ≠ [] →
    items.length ≤ bound → itemsDepth items ≤ room → ItemsReadBack items → (rest : List Char) →
    readItems (readValue room) bound (itemChars items ++ ']' :: rest) = some (items, rest)
  | [], _, _, hne, _, _, _, _ => absurd rfl hne
  | [item], _, bound + 1, _, _, hd, hv, rest => by
      simp only [itemsDepth, Nat.max_le] at hd
      have hi := readValue_chars item hd.1 hv.1 (']' :: rest) (endsNumber_cons (by decide))
      exact readItems_last (skipSpace_chars hv.1 _) hi
  | item :: next :: items, _, bound + 1, _, hb, hd, hv, rest => by
      rw [itemsDepth, Nat.max_le] at hd
      have hn := readItems_itemChars (next :: items) (by simp) (Nat.le_of_succ_le_succ hb) hd.2 hv.2 rest
      have hi := readValue_chars item hd.1 hv.1
        (',' :: (itemChars (next :: items) ++ ']' :: rest)) (endsNumber_cons (by decide))
      rw [itemChars, List.append_assoc, List.cons_append, readItems_cons (skipSpace_chars hv.1 _) hi,
        hn]
      · rfl
      · rintro ⟨⟩

theorem readMembers_memberChars : (members : List (String × Json)) → {room bound : Nat} →
    members ≠ [] → members.length ≤ bound → membersDepth members ≤ room → MembersReadBack members →
    (rest : List Char) →
    readMembers (readValue room) bound (memberChars members ++ '\x7d' :: rest) = some (members, rest)
  | [], _, _, hne, _, _, _, _ => absurd rfl hne
  | [(key, value)], _, bound + 1, _, _, hd, hv, rest => by
      simp only [membersDepth, Nat.max_le] at hd
      have hi := readValue_chars value hd.1 hv.1 ('\x7d' :: rest) (endsNumber_cons (by decide))
      rw [memberChars, List.append_assoc, List.cons_append]
      exact readMembers_last (skipSpace_chars hv.1 _) hi
  | (key, value) :: next :: members, _, bound + 1, _, hb, hd, hv, rest => by
      rw [membersDepth, Nat.max_le] at hd
      have hn := readMembers_memberChars (next :: members) (by simp) (Nat.le_of_succ_le_succ hb)
        hd.2 hv.2 rest
      have hi := readValue_chars value hd.1 hv.1
        (',' :: (memberChars (next :: members) ++ '\x7d' :: rest)) (endsNumber_cons (by decide))
      rw [memberChars, List.append_assoc, List.append_assoc, List.cons_append, List.cons_append,
        readMembers_cons (skipSpace_chars hv.1 _) hi, hn]
      · rfl
      · rintro ⟨⟩
end

end FeedFiler.Json

namespace FeedFiler

/-! ## Documents -/

theorem Document.insert_of_notMem {doc : Document} {key : String} (h : key ∉ doc.keys) (value : Json) :
    doc.insert key value = doc ++ [(key, value)] := by
  induction doc with
  | nil => rfl
  | cons member doc ih =>
      obtain ⟨k, v⟩ := member
      simp only [Document.keys, List.map_cons, List.mem_cons, not_or] at h ih
      rw [Document.insert, if_neg (Ne.symm h.1), ih h.2]
      rfl

theorem Document.insertAll_of_distinct {members : List (String × Json)} {doc : Document}
    (h : Document.Distinct (doc ++ members)) : doc.insertAll members = doc ++ members := by
  induction members generalizing doc with
  | nil => exact (List.append_nil doc).symm
  | cons member members ih =>
      obtain ⟨key, value⟩ := member
      have hk : key ∉ doc.keys := by
        simp only [Document.Distinct, Document.keys, List.map_append, List.map_cons] at h
        intro hm
        exact (List.nodup_append.1 h).2.2 _ hm _ List.mem_cons_self rfl
      have hc : doc ++ (key, value) :: members = doc ++ [(key, value)] ++ members := by simp
      rw [hc] at h ⊢
      rw [← ih h, ← Document.insert_of_notMem hk]
      rfl

theorem Document.ofMembers_of_distinct {doc : Document} (h : doc.Distinct) :
    Document.ofMembers doc = doc :=
  Document.insertAll_of_distinct (show Document.Distinct ([] ++ doc) from h)

mutual
theorem Json.settle_of_distinct : (v : Json) → Json.Distinct v → v.settle = v
  | .null, _ => rfl
  | .bool _, _ => rfl
  | .number _, _ => rfl
  | .string _, _ => rfl
  | .array items, h => by rw [Json.settle, Json.settleItems_of_distinct items h]
  | .object members, h => by
      simp only [Json.Distinct] at h
      rw [Json.settle, Json.settleMembers_of_distinct members h.2, Document.ofMembers_of_distinct h.1]

theorem Json.settleItems_of_distinct : (items : List Json) → Json.ItemsDistinct items →
    Json.settleItems items = items
  | [], _ => rfl
  | item :: items, h => by
      rw [Json.settleItems, Json.settle_of_distinct item h.1, Json.settleItems_of_distinct items h.2]

theorem Json.settleMembers_of_distinct : (members : List (String × Json)) →
    Json.MembersDistinct members → Json.settleMembers members = members
  | [], _ => rfl
  | (key, value) :: members, h => by
      rw [Json.settleMembers, Json.settle_of_distinct value h.1,
        Json.settleMembers_of_distinct members h.2]
end

/-- A document whose text can be read back: it has no key twice at any depth, is nested no deeper than
the reader allows, and the text of each of its doubles is read as the same double. -/
structure Document.Legible (doc : Document) : Prop where
  distinct : (Json.object doc).Distinct
  depth_le : (Json.object doc).depth ≤ Json.maxDepth
  floats : (Json.object doc).FloatsReadBack

/-- The text of an object is read as its members, if it is nested no deeper than the reader allows. -/
theorem Json.parseMembers?_render {members : List (String × Json)}
    (hd : (Json.object members).depth ≤ Json.maxDepth) (hf : (Json.object members).FloatsReadBack) :
    Json.parseMembers? (Json.object members).render = some members := by
  have hroom : Json.membersDepth members ≤ Json.maxDepth - 1 := Nat.le_sub_one_of_lt hd
  have hm : Json.readDocument (Json.object members).chars = some (members, []) := by
    show Json.readObject (Json.readValue (Json.maxDepth - 1)) (Json.memberChars members ++ ['\x7d']) = _
    exact Json.readObject_memberChars [] fun _ hne hb =>
      Json.readMembers_memberChars members hne hb hroom hf []
  have hs : Json.skipSpace (Json.object members).chars = (Json.object members).chars :=
    Json.skipSpace_cons (by decide) _
  rw [Json.parseMembers?, Json.render, String.toList_ofList, Json.readWholeText, hs, hm]
  rfl

theorem Document.parse?_render {doc : Document} (h : doc.Legible) :
    Document.parse? doc.render = some doc := by
  rw [Document.parse?, Document.render, Json.parseMembers?_render h.depth_le h.floats, Option.map_some,
    Document.settle, Json.settleMembers_of_distinct doc h.distinct.2,
    Document.ofMembers_of_distinct h.distinct.1]

end FeedFiler
