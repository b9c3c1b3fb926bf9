import FeedFiler.Proofs.Feed.Wrapping

/-!
# What derived fields hold

Each text of a tag that converts writes the derived field, and a text that does not convert leaves it as it
is. So the field follows the last text that converts, which need not be the one that the record holds.
-/

namespace FeedFiler
open Markup

/-- If the last of some texts does not convert, none of them does. -/
def TagMapping.Settles (m : TagMapping) (texts : List (List Char)) : Prop :=
  ∀ text, texts.getLast? = some text → m.convert? text = none → ∀ other ∈ texts, m.convert? other = none

theorem TagMapping.getLast?_filterMap_eq_iff (m : TagMapping) (texts : List (List Char)) :
    (texts.filterMap m.convert?).getLast? = texts.getLast?.bind m.convert? ↔ m.Settles texts := by
  cases texts using List.reverseRecOn with
  | nil => exact ⟨fun _ _ h => (nomatch h), fun _ => rfl⟩
  | append_singleton front last =>
      simp only [Settles, List.filterMap_append, List.getLast?_append, List.getLast?_singleton,
        Option.some_or, Option.bind_some, Option.some.injEq, forall_eq']
      cases hc : m.convert? last with
      | some value => simp [hc]
      | none => simp [hc, or_imp, forall_and]

theorem TagMapping.source_of_find? {mappings : List TagMapping} {tag : String} {m : TagMapping}
    (h : find? mappings tag = some m) : m.source = tag := by
  simpa using List.find?_some h

namespace MarkupParser

/-- The texts of the leaves with a name. -/
def textsOf (tag : String) (found : List Leaf) : List (List Char) :=
  (found.filter (String.ofList ·.tag = tag)).map Leaf.text

variable (p : MarkupParser) {found : List Leaf} {field : String} {m : TagMapping}

/-- The mapping is the one that counts for its tag. -/
def InForce (m : TagMapping) : Prop := TagMapping.find? p.mappings m.source = some m

instance : Decidable (p.InForce m) := inferInstanceAs (Decidable (_ = _))

/-- No mapping in force but `m` may write a field. -/
def Unshared (m : TagMapping) (field : String) : Prop :=
  ∀ m', p.InForce m' → m'.target = field → m' = m

variable {p}

theorem mem_of_inForce (hm : p.InForce m) : m ∈ p.mappings :=
  List.mem_reverse.1 (List.mem_of_find?_eq_some hm)

theorem inForce_of_find? {tag : String} (h : TagMapping.find? p.mappings tag = some m) : p.InForce m :=
  (congrArg _ (TagMapping.source_of_find? h)).trans h

/-- A field that only one mapping may write is derived from the tag of that mapping. -/
theorem filter_derived? (hm : p.InForce m) (hu : p.Unshared m field) (leaf : Leaf) :
    (p.derived? leaf).filter (·.1 = field) =
      if String.ofList leaf.tag = m.source ∧ m.target = field then
        (m.convert? leaf.text).map (field, ·)
      else none := by
  split
  · next h =>
      obtain ⟨hs, rfl⟩ := h
      rw [derived?, hs, show TagMapping.find? p.mappings m.source = some m from hm, Option.bind_some]
      cases m.convert? leaf.text <;> simp
  · next h =>
      refine Option.filter_eq_none_iff.2 fun write hd ht => h ?_
      obtain ⟨target, value⟩ := write
      obtain ⟨m', hf, rfl, -⟩ := derived?_eq_some.1 hd
      simp only [decide_eq_true_eq] at ht
      have he := hu m' (inForce_of_find? hf) ht
      subst he
      exact ⟨(TagMapping.source_of_find? hf).symm, ht⟩

/-- The derived field holds what the last text that converts is converted to. -/
theorem get?_target (hm : p.InForce m) (hu : p.Unshared m m.target)
    (ht : ∀ leaf ∈ found, String.ofList leaf.tag ≠ m.target) :
    (p.recordOf found).get? m.target = ((textsOf m.source found).filterMap m.convert?).getLast? := by
  rw [get?_recordOf, textsOf, List.filterMap_map, List.filterMap_filter]
  congr 1
  refine List.filterMap_congr fun leaf hleaf => ?_
  rw [write?, filter_derived? hm hu, if_neg (ht leaf hleaf), Option.or_none]
  simp only [and_true, decide_eq_true_eq, Function.comp_apply]
  split
  · rw [Option.map_map, Function.comp_def, Option.map_id']
  · rfl

/-- The field of the tag holds its last text, if nothing else is written there. -/
theorem get?_source (hm : p.InForce m) (hu : p.Unshared m m.source)
    (ht : ∀ leaf ∈ found, String.ofList leaf.tag ≠ m.target) :
    (p.recordOf found).get? m.source =
      (textsOf m.source found).getLast?.map fun text => .text (String.ofList text) := by
  rw [get?_recordOf, textsOf, ← List.getLast?_map, List.map_map, ← List.filterMap_eq_map,
    List.filterMap_filter]
  congr 1
  refine List.filterMap_congr fun leaf hleaf => ?_
  have hd : ¬ (String.ofList leaf.tag = m.source ∧ m.target = m.source) := fun ⟨hs, h⟩ =>
    ht leaf hleaf (hs.trans h.symm)
  rw [write?, filter_derived? hm hu, if_neg hd]
  simp only [Option.map_none, Option.none_or, decide_eq_true_eq]
  rfl

theorem textsOf_eq_nil (h : (p.recordOf found).get? m.source = none) : textsOf m.source found = [] := by
  rw [get?_recordOf, List.getLast?_eq_none_iff, List.filterMap_eq_nil_iff] at h
  rw [textsOf, List.map_eq_nil_iff, List.filter_eq_nil_iff]
  intro leaf hleaf ht
  have hw := h leaf hleaf
  rw [write?, if_pos (by simpa using ht), Option.or_eq_none_iff] at hw
  cases hw.2

/-- **A derived field follows the last text that converts.** Whenever the records of a page can be read, take
a mapping in force whose target is neither a tag that stands in a record nor the target of another mapping.
The target holds what the last text of the source that converts is converted to, and a record without the
source has no target. If no other mapping writes the source, it holds its last text; the target then matches
it exactly if there is no earlier text that converts where the last one does not. -/
theorem derived_field_follows (p : MarkupParser) (page : List Char) {rs : List Record}
    (h : p.parseText page = .ok rs) :
    ∃ leaves, p.leavesOf page = .ok leaves ∧ rs = leaves.map p.recordOf ∧
      ∀ found ∈ leaves, ∀ m, p.InForce m → p.Unshared m m.target →
        (∀ leaf ∈ found, String.ofList leaf.tag ≠ m.target) →
        (p.recordOf found).get? m.target = ((textsOf m.source found).filterMap m.convert?).getLast? ∧
        ((p.recordOf found).get? m.source = none → (p.recordOf found).get? m.target = none) ∧
        (p.Unshared m m.source →
          (p.recordOf found).get? m.source =
            (textsOf m.source found).getLast?.map (fun text => .text (String.ofList text)) ∧
          ((∀ text, (p.recordOf found).get? m.source = some (.text text) →
              (p.recordOf found).get? m.target = m.convert? text.toList) ↔
            m.Settles (textsOf m.source found))) := by
  rw [parseText_eq] at h
  cases hleaves : p.leavesOf page with
  | error fault =>
      rw [hleaves] at h
      cases h
  | ok leaves =>
      rw [hleaves] at h
      cases h
      refine ⟨leaves, rfl, rfl, fun found _ m hm hu ht => ?_⟩
      have htarget := get?_target hm hu ht
      refine ⟨htarget, fun hs => by rw [htarget, textsOf_eq_nil hs]; rfl, fun hus => ?_⟩
      have hsource := get?_source hm hus ht
      refine ⟨hsource, ?_⟩
      rw [← m.getLast?_filterMap_eq_iff, htarget, hsource]
      cases hl : (textsOf m.source found).getLast? with
      | none =>
          rw [List.getLast?_eq_none_iff] at hl
          simp [hl]
      | some last => simp [String.toList_ofList]

/-- Derives a number from one of the tags. -/
def numberMapping : TagMapping := ⟨"a", "n", .int⟩

/-- Records in which a number is derived. -/
def numberParser : MarkupParser where
  tagRecord := "r"
  mappings := [numberMapping]

theorem unshared_numberMapping (field : String) : numberParser.Unshared numberMapping field :=
  fun _ hm _ => List.mem_singleton.1 (mem_of_inForce hm)

theorem derived_field_follows_second :
    ∃ r, numberParser.parseText "<r><a>x</a><a>2</a></r>".toList = .ok [r] ∧
      r.get? numberMapping.target = some (.int 2) ∧ r.get? numberMapping.source = some (.text "2") ∧
      ∀ text, r.get? numberMapping.source = some (.text text) →
        r.get? numberMapping.target = numberMapping.convert? text.toList := by
  have hread : numberParser.leavesOf "<r><a>x</a><a>2</a></r>".toList =
      .ok [[⟨['a'], ['x']⟩, ⟨['a'], ['2']⟩]] := by decide +kernel
  have hparse := numberParser.parseText_eq "<r><a>x</a><a>2</a></r>".toList
  rw [hread] at hparse
  obtain ⟨leaves, hleaves, -, hfollows⟩ := derived_field_follows numberParser _ hparse
  rw [hread] at hleaves
  cases hleaves
  obtain ⟨htarget, -, hsource⟩ := hfollows _ List.mem_cons_self numberMapping (by decide)
    (unshared_numberMapping _) (by decide)
  obtain ⟨hsource, hmatch⟩ := hsource (unshared_numberMapping _)
  have hsettles : numberMapping.Settles (textsOf numberMapping.source [⟨['a'], ['x']⟩, ⟨['a'], ['2']⟩]) := by
    intro text ht hc
    cases ht
    exact absurd hc (by decide)
  exact ⟨_, hparse, htarget.trans (by decide), hsource.trans (by decide), hmatch.2 hsettles⟩

/-- A text that does not convert leaves what an earlier one was converted to. -/
theorem derived_field_outdated :
    numberParser.InForce numberMapping ∧ numberParser.Unshared numberMapping numberMapping.target ∧
    numberParser.Unshared numberMapping numberMapping.source ∧
    ∃ found r, numberParser.leavesOf "<r><a>1</a><a>x</a></r>".toList = .ok [found] ∧
      (∀ leaf ∈ found, String.ofList leaf.tag ≠ numberMapping.target) ∧
      numberParser.parseText "<r><a>1</a><a>x</a></r>".toList = .ok [r] ∧
      r.get? numberMapping.source = some (.text "x") ∧
      numberMapping.convert? "x".toList = none ∧ r.get? numberMapping.target = some (.int 1) := by
  have hread : numberParser.leavesOf "<r><a>1</a><a>x</a></r>".toList =
      .ok [[⟨['a'], ['1']⟩, ⟨['a'], ['x']⟩]] := by decide +kernel
  have hparse := numberParser.parseText_eq "<r><a>1</a><a>x</a></r>".toList
  rw [hread] at hparse
  have hforce : numberParser.InForce numberMapping := by decide
  refine ⟨hforce, unshared_numberMapping _, unshared_numberMapping _, _, _, hread, by decide, hparse, ?_,
    by decide, ?_⟩
  · exact (get?_source hforce (unshared_numberMapping _) (by decide)).trans (by decide)
  · exact (get?_target hforce (unshared_numberMapping _) (by decide)).trans (by decide)

end MarkupParser

end FeedFiler
