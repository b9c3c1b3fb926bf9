import FeedFiler.Message.Reshape
import FeedFiler.Proofs.Json.Members
import FeedFiler.Proofs.Json.RoundTrip
import FeedFiler.Proofs.Message.PathGrammar

/-!
# What a message is reshaped to

Both ways of merging write each object of a list over a base: the message without the list, or chosen members of
the message. The object's members win, the keys of the base keep their places, and the new keys follow.
-/

namespace FeedFiler

open Document (get?_eq_none_iff isSome_get?_iff)

/-! ## Distinct keys inside of a value -/

namespace Json

theorem distinct_of_mem_items {items : List Json} (h : ItemsDistinct items) : ∀ item ∈ items, item.Distinct := by
  induction items with
  | nil => simp
  | cons item items ih =>
      rw [List.forall_mem_cons]
      exact ⟨h.1, ih h.2⟩

theorem distinct_of_get? {doc : Document} (h : MembersDistinct doc) {key : String} {value : Json}
    (hg : doc.get? key = some value) : value.Distinct := by
  induction doc with
  | nil => cases hg
  | cons member doc ih =>
      obtain ⟨k, v⟩ := member
      rw [Document.get?_cons] at hg
      split at hg
      · cases hg
        exact h.1
      · exact ih h.2 hg

theorem object?_eq_some {value : Json} {members : Document} :
    value.object? = some members ↔ value = .object members := by
  cases value <;> simp [object?]

theorem array?_eq_some {value : Json} {items : List Json} : value.array? = some items ↔ value = .array items := by
  cases value <;> simp [array?]

end Json

namespace RecordPath

variable {doc : Document} {name : String}

theorem distinct_of_objectAt? (h : (Json.object doc).Distinct) {sub : Document} (hs : objectAt? doc name = some sub) :
    (Json.object sub).Distinct := by
  obtain ⟨value, hg, ho⟩ := Option.bind_eq_some_iff.1 hs
  exact Json.object?_eq_some.1 ho ▸ Json.distinct_of_get? h.2 hg

theorem distinct_of_arrayAt? (h : (Json.object doc).Distinct) {items : List Json}
    (ha : arrayAt? doc name = some items) : Json.ItemsDistinct items := by
  obtain ⟨value, hg, ho⟩ := Option.bind_eq_some_iff.1 ha
  have hv := Json.distinct_of_get? h.2 hg
  rwa [Json.array?_eq_some.1 ho] at hv

/-- The values in a list that a path selects have no key twice. -/
theorem distinct_of_follow {steps : List PathStep} {list : Option (List Json)} {items : List Json}
    (h : (Json.object doc).Distinct) (hlist : ∀ kept, list = some kept → Json.ItemsDistinct kept)
    (hf : follow steps doc list = some items) : Json.ItemsDistinct items := by
  -- The list that is kept is always one of the document's own, so its values are distinct inside too.
  induction steps generalizing doc list with
  | nil => exact hlist items hf
  | cons step steps ih =>
      cases step with
      | object name =>
          obtain ⟨sub, hs, hf⟩ := Option.bind_eq_some_iff.1 hf
          exact ih (distinct_of_objectAt? h hs) hlist hf
      | array name =>
          obtain ⟨kept, ha, hf⟩ := Option.bind_eq_some_iff.1 hf
          exact ih h (fun _ he => Option.some.inj he ▸ distinct_of_arrayAt? h ha) hf
      | element name index =>
          obtain ⟨kept, ha, hf⟩ := Option.bind_eq_some_iff.1 hf
          obtain ⟨item, hi, hf⟩ := Option.bind_eq_some_iff.1 hf
          obtain ⟨sub, hs, hf⟩ := Option.bind_eq_some_iff.1 hf
          have hkept := distinct_of_arrayAt? h ha
          have hsub := Json.distinct_of_mem_items hkept item (List.mem_of_getElem? hi)
          rw [Json.object?_eq_some.1 hs] at hsub
          exact ih hsub (fun _ he => Option.some.inj he ▸ hkept) hf

theorem distinct_resolve (p : RecordPath) (h : (Json.object doc).Distinct) : Json.ItemsDistinct (p.resolve doc) := by
  rw [resolve]
  cases hf : follow p.steps doc none with
  | none => trivial
  | some items => exact distinct_of_follow h (fun _ he => by cases he) hf

end RecordPath

namespace Reshape

variable {message base e doc : Document} {field key : String} {elements : List Json} {mergeBase : List String}

/-! ## Merging -/

/-- The document has the members of an object and the other members of a base. The keys of the base come first,
in their order, and then the object's new ones in theirs. -/
structure IsMerged (base e doc : Document) : Prop where
  keys : doc.keys = base.keys ++ e.keys.filter (· ∉ base.keys)
  own : ∀ key ∈ e.keys, doc.get? key = e.get? key
  others : ∀ key ∉ e.keys, doc.get? key = base.get? key

theorem isMerged_insertAll (base : Document) (he : e.Distinct) : IsMerged base e (base.insertAll e) := by
  refine ⟨he.keys_insertAll base, fun key hk => ?_, fun key hk => ?_⟩
  · obtain ⟨value, hv⟩ := Option.isSome_iff_exists.1 (isSome_get?_iff.2 hk)
    rw [he.get?_insertAll, hv, Option.some_or]
  · rw [he.get?_insertAll, get?_eq_none_iff.2 hk, Option.none_or]

/-- There is only one such document. -/
theorem IsMerged.eq_insertAll (h : IsMerged base e doc) (hb : base.Distinct) (he : e.Distinct) :
    doc = base.insertAll e := by
  have hm := isMerged_insertAll base he
  refine Document.eq_of_get? (hb.insertAll e) (h.keys.trans hm.keys.symm) fun key => ?_
  by_cases hk : key ∈ e.keys
  · rw [h.own key hk, hm.own key hk]
  · rw [h.others key hk, hm.others key hk]

/-- The documents are those of the objects among some elements, in their order: each depends on its object and
the base only. -/
structure MergesEach (base : Document) (elements : List Json) (docs : List Document) : Prop where
  each : docs = (elements.filterMap Json.object?).map base.insertAll
  merged : ∀ e ∈ elements.filterMap Json.object?, ∀ doc, doc = base.insertAll e ↔ IsMerged base e doc

theorem mergesEach (hb : base.Distinct) (h : Json.ItemsDistinct elements) :
    MergesEach base elements (mergeEach base elements) := by
  refine ⟨(List.map_filterMap ..).symm, fun e he doc => ?_⟩
  obtain ⟨item, hi, ho⟩ := List.mem_filterMap.1 he
  have hd := Json.distinct_of_mem_items h item hi
  rw [Json.object?_eq_some.1 ho] at hd
  exact ⟨fun hdoc => hdoc ▸ isMerged_insertAll base hd.1, fun hm => hm.eq_insertAll hb hd.1⟩

/-! ## The two bases -/

/-- The members of a message under some keys, as often as the keys are mentioned. -/
def mentioned (message : Document) (keys : List String) : List (String × Json) :=
  keys.filterMap fun key => (message.get? key).map fun value => (key, value)

theorem get?_of_mem_mentioned {keys : List String} {member : String × Json} (h : member ∈ mentioned message keys) :
    message.get? member.1 = some member.2 := by
  obtain ⟨key, -, hk⟩ := List.mem_filterMap.1 h
  obtain ⟨value, hv, rfl⟩ := Option.map_eq_some_iff.1 hk
  exact hv

theorem keys_mentioned (message : Document) (keys : List String) :
    Document.keys (mentioned message keys) = keys.filter (· ∈ message.keys) := by
  induction keys with
  | nil => rfl
  | cons key keys ih =>
      rw [mentioned, List.filterMap_cons, List.filter_cons]
      cases hg : message.get? key with
      | none =>
          rw [if_neg (by simpa using get?_eq_none_iff.1 hg)]
          exact ih
      | some value =>
          rw [if_pos (decide_eq_true (isSome_get?_iff.1 (by rw [hg]; rfl)))]
          exact congrArg (key :: ·) ih

theorem keys_select (message : Document) (keys : List String) :
    (select message keys).keys = (keys.filter (· ∈ message.keys)).eraseDups := by
  have hkeys := Document.keys_insertAll [] (mentioned message keys)
  rw [keys_mentioned] at hkeys
  simpa [select, Document.ofMembers, mentioned] using hkeys

theorem get?_select (message : Document) (keys : List String) (key : String) :
    (select message keys).get? key = if key ∈ keys then message.get? key else none := by
  have hmem : key ∈ Document.keys (mentioned message keys) ↔ key ∈ keys ∧ key ∈ message.keys := by
    rw [keys_mentioned, List.mem_filter, decide_eq_true_eq]
  cases hg : message.get? key with
  | none =>
      rw [ite_self, get?_eq_none_iff, keys_select]
      intro hm
      have hkey := List.mem_filter.1 (List.mem_eraseDups.1 hm)
      exact get?_eq_none_iff.1 hg (of_decide_eq_true hkey.2)
  | some value =>
      have hvalue : ∀ member ∈ mentioned message keys, member.1 = key → member.2 = value := by
        rintro ⟨k, v⟩ hm rfl
        exact Option.some.inj ((get?_of_mem_mentioned hm).symm.trans hg)
      refine (Document.get?_insertAll hvalue []).trans ?_
      simp only [hmem, isSome_get?_iff.1 (Option.isSome_of_eq_some hg), and_true]
      rfl

/-- To leave one member out is to select all the others. -/
theorem select_others (h : message.Distinct) (field : String) :
    select message (message.keys.filter (· ≠ field)) = message.erase field := by
  refine Document.eq_of_get? (h.erase field) ?_ fun key => ?_
  · rw [keys_select, Document.keys_erase, Document.eraseDups_of_nodup ((h.filter _).filter _),
      List.filter_eq_self]
    exact fun key hk => decide_eq_true (List.mem_of_mem_filter hk)
  · rw [get?_select, Document.get?_erase]
    by_cases hk : key = field
    · simp [hk]
    · cases hg : message.get? key with
      | none => simp
      | some value => simp [hk, isSome_get?_iff.1 (Option.isSome_of_eq_some hg)]

/-! ## The results -/

theorem apply_flatten (h : message.get? field = some (.array elements)) :
    (Reshape.flatten field).apply message = mergeEach (message.erase field) elements := by
  rw [apply, h]
  rfl

theorem apply_flatten_eq_nil (h : ∀ elements, message.get? field ≠ some (.array elements)) :
    (Reshape.flatten field).apply message = [] := by
  rw [apply]
  cases hv : (message.get? field).bind Json.array? with
  | none => rfl
  | some elements =>
      obtain ⟨value, hg, ha⟩ := Option.bind_eq_some_iff.1 hv
      exact absurd (Json.array?_eq_some.1 ha ▸ hg) (h elements)

/-- **Reshaping merges each object of a list with a base.** The base is the message without the list, or the members
of the message under the chosen keys in the order of their first mention. An output has the members of its
object, the other members of the base, and no more; the keys of the base come first. The list itself is in an
output only if the object brings a member of that name. Without a list there is no output. -/
theorem reshape_merges (h : (Json.object message).Distinct) :
    (∀ field elements, message.get? field = some (.array elements) →
      ∃ base, base.keys = message.keys.filter (· ≠ field) ∧
        (∀ key, base.get? key = if key = field then none else message.get? key) ∧
        MergesEach base elements ((Reshape.flatten field).apply message) ∧
        ∀ e doc, IsMerged base e doc → (field ∈ doc.keys ↔ field ∈ e.keys)) ∧
    (∀ path mergeBase,
      ∃ base, base.keys = (mergeBase.filter (· ∈ message.keys)).eraseDups ∧
        (∀ key, base.get? key = if key ∈ mergeBase then message.get? key else none) ∧
        MergesEach base (path.resolve message) ((Reshape.extract path mergeBase).apply message)) ∧
    (∀ field, (∀ elements, message.get? field ≠ some (.array elements)) →
      (Reshape.flatten field).apply message = []) ∧
    ∀ path mergeBase, RecordPath.follow path.steps message none = none →
      (Reshape.extract path mergeBase).apply message = [] := by
  refine ⟨fun field elements hf => ?_, fun path mergeBase => ?_, fun field => apply_flatten_eq_nil,
    fun path mergeBase hf => ?_⟩
  · have hitems := Json.distinct_of_get? h.2 hf
    refine ⟨message.erase field, Document.keys_erase message field, Document.get?_erase message field, ?_,
      fun e doc hm => ?_⟩
    · rw [apply_flatten hf]
      exact mergesEach (h.1.erase field) hitems
    · have hfield : field ∉ (message.erase field).keys := by simp [Document.keys_erase]
      simp [hm.keys, hfield]
  · exact ⟨select message mergeBase, keys_select message mergeBase, get?_select message mergeBase,
      mergesEach (Document.ofMembers_distinct _) (path.distinct_resolve h)⟩
  · rw [apply, RecordPath.resolve, hf]
    rfl

/-- Two objects in a list, with a value between them that is none. -/
def pairMessage : Document :=
  [("a", .bool true),
    ("f", .array [.object [("n", .null), ("a", .bool false)], .bool true, .object [("f", .null)]]),
    ("z", .null)]

theorem distinct_pairMessage : (Json.object pairMessage).Distinct := by
  refine ⟨by decide, trivial, ⟨⟨by decide, trivial, trivial, trivial⟩, trivial, ⟨by decide, trivial, trivial⟩,
    trivial⟩, trivial, trivial⟩

theorem reshape_merges_pair :
    (Json.object pairMessage).Distinct ∧
    (Reshape.flatten "f").apply pairMessage =
      [[("a", .bool false), ("z", .null), ("n", .null)], [("a", .bool true), ("z", .null), ("f", .null)]] ∧
    ∃ base, base.keys = ["a", "z"] ∧
      IsMerged base [("n", .null), ("a", .bool false)] [("a", .bool false), ("z", .null), ("n", .null)] ∧
      IsMerged base [("f", .null)] [("a", .bool true), ("z", .null), ("f", .null)] := by
  have hdocs : (Reshape.flatten "f").apply pairMessage =
      [[("a", .bool false), ("z", .null), ("n", .null)], [("a", .bool true), ("z", .null), ("f", .null)]] := rfl
  obtain ⟨base, hkeys, -, ⟨heach, hmerged⟩, -⟩ := (reshape_merges distinct_pairMessage).1 "f" _ rfl
  rw [hdocs] at heach
  obtain ⟨hfirst, hrest⟩ := List.cons.inj heach
  obtain ⟨hsecond, -⟩ := List.cons.inj hrest
  refine ⟨distinct_pairMessage, hdocs, base, hkeys.trans (by decide), ?_, ?_⟩
  · exact (hmerged _ List.mem_cons_self _).1 hfirst
  · exact (hmerged _ (List.mem_cons_of_mem _ List.mem_cons_self) _).1 hsecond

/-- **Spreading a list member is a special case of extracting.** The path is the name of the member, and all other
keys of the message are chosen in their order. -/
theorem flatten_eq_extract (hname : RecordPath.IsName field.toList) (hmark : '>' ∉ field.toList) :
    ∃ path, RecordPath.compile field = .ok path ∧ ∀ message : Document, message.Distinct →
      (Reshape.flatten field).apply message =
        (Reshape.extract path (message.keys.filter (· ≠ field))).apply message := by
  have hpath : RecordPath.compile field = .ok ⟨field, [.array field]⟩ := by
    have hmeans := RecordPath.Means.array hname
    rw [String.ofList_toList] at hmeans
    have hparts : field.toList.splitOn '>' = [field.toList] := List.splitOn_eq_singleton hmark
    exact RecordPath.compile_eq_ok_iff.2 ⟨rfl, hparts ▸ .cons hmeans .nil⟩
  refine ⟨_, hpath, fun message h => ?_⟩
  rw [apply, apply, select_others h, RecordPath.resolve]
  simp only [RecordPath.follow, RecordPath.arrayAt?]
  cases (message.get? field).bind Json.array? <;> rfl

theorem flatten_eq_extract_pair :
    RecordPath.IsName "f".toList ∧ '>' ∉ "f".toList ∧ pairMessage.Distinct ∧
    ∃ path, RecordPath.compile "f" = .ok path ∧
      (Reshape.flatten "f").apply pairMessage = (Reshape.extract path ["a", "z"]).apply pairMessage ∧
      (Reshape.extract path ["a", "z"]).apply pairMessage =
        [[("a", .bool false), ("z", .null), ("n", .null)], [("a", .bool true), ("z", .null), ("f", .null)]] := by
  have hname : RecordPath.IsName "f".toList := ⟨by decide, by decide⟩
  obtain ⟨path, hpath, happly⟩ := flatten_eq_extract hname (by decide)
  have hkeys : pairMessage.keys.filter (· ≠ "f") = ["a", "z"] := by decide
  have hsame := happly pairMessage distinct_pairMessage.1
  rw [hkeys] at hsame
  refine ⟨hname, by decide, distinct_pairMessage.1, path, hpath, hsame, ?_⟩
  rw [← hsame]
  rfl

end Reshape

end FeedFiler
