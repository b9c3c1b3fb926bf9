import FeedFiler.Proofs.Json.RoundTrip

/-!
# What the reader accepts

A value that was read is nested no deeper than there was room for. Merging the repeated members of its
objects leaves no key twice, and nothing deeper.
-/

namespace FeedFiler

namespace Json

open Text (Reader)

/-! ## Depth -/

theorem itemsDepth_le_iff {items : List Json} {room : Nat} :
    itemsDepth items ≤ room ↔ ∀ item ∈ items, item.depth ≤ room := by
  induction items with
  | nil => simp [itemsDepth]
  | cons item items ih => rw [itemsDepth, Nat.max_le, ih, List.forall_mem_cons]

theorem membersDepth_le_iff {members : List (String × Json)} {room : Nat} :
    membersDepth members ≤ room ↔ ∀ member ∈ members, member.2.depth ≤ room := by
  induction members with
  | nil => simp [membersDepth]
  | cons member members ih => rw [membersDepth, Nat.max_le, ih, List.forall_mem_cons]

theorem membersReadBack_iff {members : List (String × Json)} :
    MembersReadBack members ↔ ∀ member ∈ members, member.2.FloatsReadBack := by
  induction members with
  | nil => simp [MembersReadBack]
  | cons member members ih => rw [MembersReadBack, ih, List.forall_mem_cons]

section
variable {item : Reader Json} {room bound : Nat}

theorem depth_of_readItems (h : ∀ s v rest, item s = some (v, rest) → v.depth ≤ room) {s rest : List Char}
    {items : List Json} (hr : readItems item bound s = some (items, rest)) : itemsDepth items ≤ room := by
  induction bound generalizing s items with
  | zero => cases hr
  | succ bound ih =>
      simp only [readItems, Option.bind_eq_bind, Option.bind_eq_some_iff] at hr
      obtain ⟨⟨first, after⟩, hfirst, hr⟩ := hr
      have hf := h _ _ _ hfirst
      simp only at hr
      split at hr
      · obtain ⟨⟨more, after⟩, hmore, hr⟩ := Option.bind_eq_some_iff.1 hr
        cases hr
        exact Nat.max_le.2 ⟨hf, ih hmore⟩
      · cases hr
        exact Nat.max_le.2 ⟨hf, Nat.zero_le _⟩
      · cases hr

theorem depth_of_readMembers (h : ∀ s v rest, item s = some (v, rest) → v.depth ≤ room) {s rest : List Char}
    {members : List (String × Json)} (hr : readMembers item bound s = some (members, rest)) :
    membersDepth members ≤ room := by
  induction bound generalizing s members with
  | zero => cases hr
  | succ bound ih =>
      simp only [readMembers, Option.bind_eq_bind, Option.bind_eq_some_iff] at hr
      obtain ⟨⟨key, after⟩, -, hr⟩ := hr
      simp only at hr
      split at hr
      · obtain ⟨⟨value, after⟩, hvalue, hr⟩ := Option.bind_eq_some_iff.1 hr
        have hv := h _ _ _ hvalue
        simp only at hr
        split at hr
        · obtain ⟨⟨more, after⟩, hmore, hr⟩ := Option.bind_eq_some_iff.1 hr
          cases hr
          exact Nat.max_le.2 ⟨hv, ih hmore⟩
        · cases hr
          exact Nat.max_le.2 ⟨hv, Nat.zero_le _⟩
        · cases hr
      · cases hr

theorem depth_of_readArray (h : ∀ s v rest, item s = some (v, rest) → v.depth ≤ room) {s rest : List Char}
    {items : List Json} (hr : readArray item s = some (items, rest)) : itemsDepth items ≤ room := by
  rw [readArray] at hr
  split at hr
  · cases hr
    exact Nat.zero_le _
  · exact depth_of_readItems h hr

theorem depth_of_readObject (h : ∀ s v rest, item s = some (v, rest) → v.depth ≤ room) {s rest : List Char}
    {members : List (String × Json)} (hr : readObject item s = some (members, rest)) :
    membersDepth members ≤ room := by
  rw [readObject] at hr
  split at hr
  · cases hr
    exact Nat.zero_le _
  · exact depth_of_readMembers h hr

end

theorem eq_of_map {α : Type} {f : α → Json} {o : Option (α × List Char)} {v : Json} {rest : List Char}
    (h : (o.map fun p => (f p.1, p.2)) = some (v, rest)) : ∃ a, o = some (a, rest) ∧ v = f a := by
  obtain ⟨⟨a, s⟩, ho, he⟩ := Option.map_eq_some_iff.1 h
  cases he
  exact ⟨a, ho, rfl⟩

theorem eq_of_readWord {word s rest : List Char} {value v : Json}
    (h : readWord word value s = some (v, rest)) : v = value := by
  obtain ⟨s', -, he⟩ := Option.map_eq_some_iff.1 h
  cases he
  rfl

/-- A value that was read is nested no deeper than there was room for. -/
theorem depth_of_readValue {room : Nat} {s rest : List Char} {v : Json}
    (hr : readValue room s = some (v, rest)) : v.depth ≤ room := by
  induction room using Nat.strongRecOn generalizing s v rest with
  | ind room ih =>
      rw [readValue.eq_def] at hr
      cases s with
      | nil => cases hr
      | cons c s =>
          simp only at hr
          repeat' split at hr
          · cases eq_of_readWord hr
            exact Nat.zero_le _
          · cases eq_of_readWord hr
            exact Nat.zero_le _
          · cases eq_of_readWord hr
            exact Nat.zero_le _
          · obtain ⟨cs, -, rfl⟩ := eq_of_map (f := fun cs => .string (String.ofList cs)) hr
            exact Nat.zero_le _
          · cases hr
          · next room =>
              obtain ⟨items, hi, rfl⟩ := eq_of_map hr
              exact Nat.succ_le_succ (depth_of_readArray (fun _ _ _ => ih room (Nat.lt_succ_self _)) hi)
          · cases hr
          · next room =>
              obtain ⟨members, hm, rfl⟩ := eq_of_map hr
              exact Nat.succ_le_succ (depth_of_readObject (fun _ _ _ => ih room (Nat.lt_succ_self _)) hm)
          · obtain ⟨n, -, rfl⟩ := eq_of_map hr
            exact Nat.zero_le _

theorem depth_of_readDocument {s rest : List Char} {members : List (String × Json)}
    (h : readDocument s = some (members, rest)) : membersDepth members ≤ maxDepth - 1 := by
  rw [readDocument.eq_def] at h
  split at h
  · exact depth_of_readObject (fun _ _ _ => depth_of_readValue) h
  · cases h

theorem depth_of_parseMembers? {text : String} {members : List (String × Json)}
    (h : parseMembers? text = some members) : membersDepth members ≤ maxDepth - 1 := by
  rw [parseMembers?, readWholeText] at h
  split at h
  · next value rest hr =>
      split at h
      · cases h
        exact depth_of_readDocument hr
      · cases h
  · cases h

/-! ## Merged members -/

theorem membersDepth_insert_le {doc : Document} {value : Json} {room : Nat} (h : membersDepth doc ≤ room)
    (hv : value.depth ≤ room) (key : String) : membersDepth (doc.insert key value) ≤ room := by
  induction doc with
  | nil => exact Nat.max_le.2 ⟨hv, Nat.zero_le _⟩
  | cons member doc ih =>
      obtain ⟨k, v⟩ := member
      obtain ⟨hm, hd⟩ := Nat.max_le.1 h
      rw [Document.insert]
      split
      · exact Nat.max_le.2 ⟨hv, hd⟩
      · exact Nat.max_le.2 ⟨hm, ih hd⟩

theorem membersDistinct_insert {doc : Document} {value : Json} (h : MembersDistinct doc) (hv : value.Distinct)
    (key : String) : MembersDistinct (doc.insert key value) := by
  induction doc with
  | nil => exact ⟨hv, trivial⟩
  | cons member doc ih =>
      obtain ⟨k, v⟩ := member
      rw [Document.insert]
      split
      · exact ⟨hv, h.2⟩
      · exact ⟨h.1, ih h.2⟩

theorem membersDepth_insertAll_le {members : List (String × Json)} {doc : Document} {room : Nat}
    (h : membersDepth doc ≤ room) (hm : membersDepth members ≤ room) :
    membersDepth (doc.insertAll members) ≤ room := by
  induction members generalizing doc with
  | nil => exact h
  | cons member members ih =>
      obtain ⟨hv, hm⟩ := Nat.max_le.1 hm
      exact ih (membersDepth_insert_le h hv member.1) hm

theorem membersDistinct_insertAll {members : List (String × Json)} {doc : Document}
    (h : MembersDistinct doc) (hm : MembersDistinct members) : MembersDistinct (doc.insertAll members) := by
  induction members generalizing doc with
  | nil => exact h
  | cons member members ih => exact ih (membersDistinct_insert h hm.1 member.1) hm.2

mutual
theorem settle_distinct : (v : Json) → v.settle.Distinct
  | .null => trivial
  | .bool _ => trivial
  | .number _ => trivial
  | .string _ => trivial
  | .array items => settleItems_distinct items
  | .object members =>
      ⟨Document.ofMembers_distinct _, membersDistinct_insertAll trivial (settleMembers_distinct members)⟩

theorem settleItems_distinct : (items : List Json) → ItemsDistinct (settleItems items)
  | [] => trivial
  | item :: items => ⟨settle_distinct item, settleItems_distinct items⟩

theorem settleMembers_distinct : (members : List (String × Json)) → MembersDistinct (settleMembers members)
  | [] => trivial
  | (_, value) :: members => ⟨settle_distinct value, settleMembers_distinct members⟩
end

mutual
theorem depth_settle_le : (v : Json) → v.settle.depth ≤ v.depth
  | .null => Nat.le_refl _
  | .bool _ => Nat.le_refl _
  | .number _ => Nat.le_refl _
  | .string _ => Nat.le_refl _
  | .array items => Nat.succ_le_succ (itemsDepth_settle_le items)
  | .object members =>
      Nat.succ_le_succ (membersDepth_insertAll_le (Nat.zero_le _) (membersDepth_settle_le members))

theorem itemsDepth_settle_le : (items : List Json) → itemsDepth (settleItems items) ≤ itemsDepth items
  | [] => Nat.le_refl _
  | item :: items => by
      rw [settleItems, itemsDepth, itemsDepth]
      have := depth_settle_le item
      have := itemsDepth_settle_le items
      omega

theorem membersDepth_settle_le : (members : List (String × Json)) →
    membersDepth (settleMembers members) ≤ membersDepth members
  | [] => Nat.le_refl _
  | (_, value) :: members => by
      rw [settleMembers, membersDepth, membersDepth]
      have := depth_settle_le value
      have := membersDepth_settle_le members
      omega
end

end Json

namespace Document

theorem mem_keys_of_insertAll {doc : Document} {members : List (String × Json)} {key : String}
    (h : key ∈ (doc.insertAll members).keys) : key ∈ doc.keys ∨ key ∈ keys members := by
  induction members generalizing doc with
  | nil => exact .inl h
  | cons member members ih =>
      have hi : (doc.insert member.1 member.2).keys ⊆ doc.keys ++ [member.1] := by
        rw [keys_insert]
        split
        · exact List.subset_append_left _ _
        · exact List.Subset.refl _
      rcases ih h with h | h
      · rcases List.mem_append.1 (hi h) with h | h
        · exact .inl h
        · exact .inr (List.mem_singleton.1 h ▸ List.mem_cons_self)
      · exact .inr (List.mem_cons_of_mem _ h)

theorem keys_settleMembers : (members : List (String × Json)) →
    keys (Json.settleMembers members) = keys members
  | [] => rfl
  | (key, _) :: members => congrArg (key :: ·) (keys_settleMembers members)

theorem mem_keys_of_settle {members : List (String × Json)} {key : String} (h : key ∈ keys (settle members)) :
    key ∈ keys members := by
  rcases mem_keys_of_insertAll h with h | h
  · cases h
  · rwa [keys_settleMembers] at h

theorem settle_distinct (members : List (String × Json)) : (Json.object (settle members)).Distinct :=
  Json.settle_distinct (.object members)

theorem membersDepth_settle_le (members : List (String × Json)) :
    Json.membersDepth (settle members) ≤ Json.membersDepth members :=
  Json.membersDepth_insertAll_le (Nat.zero_le _) (Json.membersDepth_settle_le members)

end Document

end FeedFiler
