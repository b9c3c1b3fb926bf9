import FeedFiler.Json.Document

/-!
# The members of a document

A document is told by its keys and the value under each of them. Writing members into a document keeps the keys
that it has in their places, and adds the others behind them in the order in which they are first written.
-/

namespace FeedFiler.Document

variable {doc other : Document} {members : List (String × Json)} {key : String} {value : Json}

instance (doc : Document) : Decidable doc.Distinct := inferInstanceAs (Decidable doc.keys.Nodup)

@[simp] theorem keys_nil : keys [] = [] := rfl

@[simp] theorem keys_cons (key : String) (value : Json) (doc : Document) :
    keys ((key, value) :: doc) = key :: keys doc := rfl

theorem get?_eq_none_iff : doc.get? key = none ↔ key ∉ doc.keys := by
  induction doc with
  | nil => simp
  | cons member doc ih =>
      obtain ⟨k, v⟩ := member
      rw [get?_cons, keys_cons, List.mem_cons, not_or]
      by_cases hk : key = k
      · simp [hk]
      · rw [if_neg hk, ih]
        exact (and_iff_right hk).symm

theorem isSome_get?_iff : (doc.get? key).isSome ↔ key ∈ doc.keys := by
  rw [Option.isSome_iff_ne_none, ne_eq, get?_eq_none_iff, Decidable.not_not]

theorem mem_keys_of_mem (h : (key, value) ∈ doc) : key ∈ doc.keys :=
  List.mem_map_of_mem h

theorem mem_of_get? (h : doc.get? key = some value) : (key, value) ∈ doc := by
  induction doc with
  | nil => cases h
  | cons member doc ih =>
      obtain ⟨k, v⟩ := member
      rw [get?_cons] at h
      split at h
      · next hk =>
          cases h
          exact hk ▸ List.mem_cons_self
      · exact List.mem_cons_of_mem _ (ih h)

theorem get?_eq_some_iff (h : doc.Distinct) : doc.get? key = some value ↔ (key, value) ∈ doc := by
  refine ⟨mem_of_get?, fun hm => ?_⟩
  induction doc with
  | nil => cases hm
  | cons member doc ih =>
      obtain ⟨k, v⟩ := member
      obtain ⟨hk, hd⟩ := List.nodup_cons.1 h
      rw [get?_cons]
      rcases List.mem_cons.1 hm with he | hrest
      · cases he
        rw [if_pos rfl]
      · rw [if_neg, ih hd hrest]
        rintro rfl
        exact hk (mem_keys_of_mem hrest)

/-- Keys and values tell documents apart. -/
theorem eq_of_get? (h : doc.Distinct) (hkeys : other.keys = doc.keys)
    (hget : ∀ key, other.get? key = doc.get? key) : other = doc := by
  induction doc generalizing other with
  | nil => exact List.map_eq_nil_iff.1 hkeys
  | cons member doc ih =>
      obtain ⟨k, v⟩ := member
      obtain ⟨hk, hd⟩ := List.nodup_cons.1 h
      obtain ⟨⟨k', v'⟩, rest, rfl, rfl, hrest⟩ := List.map_eq_cons_iff.1 hkeys
      have hv := hget k'
      rw [get?_cons, get?_cons, if_pos rfl, if_pos rfl] at hv
      rw [Option.some.inj hv, ih hd hrest fun key => ?_]
      by_cases he : key = k'
      · have hnone : get? rest k' = none := get?_eq_none_iff.2 fun hm => hk (hrest ▸ hm)
        rw [he, hnone, get?_eq_none_iff.2 hk]
      · have hg := hget key
        rwa [get?_cons, get?_cons, if_neg he, if_neg he] at hg

/-! ## Leaving a key out -/

theorem erase_cons (name : String) (value : Json) (doc : Document) (key : String) :
    erase ((name, value) :: doc) key = if name = key then erase doc key else (name, value) :: erase doc key := by
  by_cases h : name = key <;> simp [erase, h]

theorem keys_erase (doc : Document) (key : String) : (doc.erase key).keys = doc.keys.filter (· ≠ key) := by
  rw [erase, keys, keys, List.filter_map]
  rfl

theorem get?_erase (doc : Document) (key name : String) :
    (doc.erase key).get? name = if name = key then none else doc.get? name := by
  induction doc with
  | nil => simp [erase]
  | cons member doc ih =>
      obtain ⟨k, v⟩ := member
      rw [erase_cons, get?_cons]
      by_cases hk : k = key
      · rw [if_pos hk, ih]
        by_cases hn : name = key <;> simp [hk, hn]
      · rw [if_neg hk, get?_cons, ih]
        by_cases hn : name = k
        · simp [hn, hk]
        · simp [hn]

theorem Distinct.erase (h : doc.Distinct) (key : String) : (doc.erase key).Distinct := by
  rw [Distinct, keys_erase]
  exact h.filter _

/-! ## Writing members -/

theorem insertAll_cons (doc : Document) (key : String) (value : Json) (members : List (String × Json)) :
    doc.insertAll ((key, value) :: members) = (doc.insert key value).insertAll members := rfl

/-- A key that is written with one value only has that value. -/
theorem get?_insertAll (h : ∀ member ∈ members, member.1 = key → member.2 = value) (doc : Document) :
    (doc.insertAll members).get? key = if key ∈ keys members then some value else doc.get? key := by
  induction members generalizing doc with
  | nil => rfl
  | cons member members ih =>
      obtain ⟨k, v⟩ := member
      rw [List.forall_mem_cons] at h
      rw [insertAll_cons, ih h.2, get?_insert]
      by_cases hk : key = k
      · have hv : v = value := h.1 hk.symm
        simp [hk, hv]
      · simp [hk]

/-- The keys that are new stand behind the others, in the order of their first writing. -/
theorem keys_insertAll (doc : Document) (members : List (String × Json)) :
    (doc.insertAll members).keys = doc.keys ++ ((keys members).filter (· ∉ doc.keys)).eraseDups := by
  induction members generalizing doc with
  | nil => simp [insertAll]
  | cons member members ih =>
      obtain ⟨k, v⟩ := member
      rw [insertAll_cons, ih, keys_insert, keys_cons, List.filter_cons]
      by_cases hk : k ∈ doc.keys
      · simp [hk]
      · have hnew : (keys members).filter (· ∉ doc.keys ++ [k]) =
            ((keys members).filter (· ∉ doc.keys)).filter fun name => !name == k := by
          rw [List.filter_filter]
          exact List.filter_congr fun name _ => by by_cases hn : name = k <;> simp [hn]
        rw [if_neg hk, hnew, if_pos (decide_eq_true hk), List.eraseDups_cons, List.append_assoc,
          List.singleton_append]

theorem eraseDups_of_nodup {names : List String} (h : names.Nodup) : names.eraseDups = names := by
  induction names with
  | nil => rfl
  | cons name names ih =>
      obtain ⟨hname, hnames⟩ := List.nodup_cons.1 h
      have hkeep : (names.filter fun n => !n == name) = names :=
        List.filter_eq_self.2 fun n hn => by simpa using ne_of_mem_of_not_mem hn hname
      rw [List.eraseDups_cons, hkeep, ih hnames]

theorem Distinct.keys_insertAll (h : Distinct members) (doc : Document) :
    (doc.insertAll members).keys = doc.keys ++ (keys members).filter (· ∉ doc.keys) := by
  rw [Document.keys_insertAll, eraseDups_of_nodup (h.filter _)]

/-- The value that is written last under a key. -/
def last? (members : List (String × Json)) (key : String) : Option Json := members.reverse.lookup key

theorem last?_cons (name : String) (value : Json) (members : List (String × Json)) (key : String) :
    last? ((name, value) :: members) key = (last? members key).or (if key = name then some value else none) := by
  rw [last?, List.reverse_cons, List.lookup_append]
  exact congrArg _ (get?_cons name value [] key)

theorem last?_of_distinct (h : Distinct members) (key : String) : last? members key = get? members key := by
  have hr : Distinct members.reverse := ((List.reverse_perm members).map _).nodup_iff.2 h
  refine Option.ext fun value => ?_
  rw [get?_eq_some_iff h, ← List.mem_reverse, ← get?_eq_some_iff hr]
  rfl

theorem get?_insertAll_eq (doc : Document) (members : List (String × Json)) (key : String) :
    (doc.insertAll members).get? key = (last? members key).or (doc.get? key) := by
  induction members generalizing doc with
  | nil => rfl
  | cons member members ih =>
      obtain ⟨name, value⟩ := member
      rw [insertAll_cons, ih, last?_cons, Option.or_assoc, get?_insert]
      split <;> rfl

theorem Distinct.get?_insertAll (h : Distinct members) (doc : Document) (key : String) :
    (doc.insertAll members).get? key = (get? members key).or (doc.get? key) := by
  rw [get?_insertAll_eq, last?_of_distinct h]

end FeedFiler.Document
