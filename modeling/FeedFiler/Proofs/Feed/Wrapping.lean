import FeedFiler.Proofs.Feed.Records

/-!
# What the fields of a record stand for

However malformed a page is, a field of a record is a text of its span that stands between an opening tag
and a closing tag of one name, or it is derived from such a text by the mapping of its tag.
-/

namespace FeedFiler.Markup
open Text

variable {s current inner : List Char} {leaves : List Leaf} {room : Nat} {stop : Stop}

/-! ## Wrapped texts -/

/-- Somewhere in `s` an opening tag, a text, and a closing tag up to the end of its name stand one directly
behind the other. Both tags have the same name, and the opening one does not close itself. -/
def Wraps (s name text : List Char) : Prop :=
  ∃ attrs ending, (attrs = [] ∨ attrs.head? = some ' ') ∧ '>' ∉ attrs ∧
    (name ++ attrs).getLast? ≠ some '/' ∧ (ending = ' ' ∨ ending = '>') ∧
    '<' :: (name ++ attrs ++ '>' :: (text ++ '<' :: '/' :: (name ++ [ending]))) <:+: s

/-- A leaf stands in `s`. -/
structure Leaf.StandsIn (leaf : Leaf) (s : List Char) : Prop where
  space : ' ' ∉ leaf.tag
  closes : '>' ∉ leaf.tag
  opens : '<' ∉ leaf.text
  wraps : Wraps s leaf.tag leaf.text

/-- The part of a page from an opening tag to the closing one. -/
def Span.chars (span : Span) (page : List Char) : List Char :=
  (page.drop span.start).take (span.stop - span.start)

/-! ## Names -/

theorem nameOf_append_dropWhile (inner : List Char) : nameOf inner ++ inner.dropWhile (· ≠ ' ') = inner :=
  List.takeWhile_append_dropWhile

theorem head?_dropWhile (inner : List Char) :
    inner.dropWhile (· ≠ ' ') = [] ∨ (inner.dropWhile (· ≠ ' ')).head? = some ' ' := by
  have hc := List.head?_dropWhile_not (· ≠ ' ') inner
  cases h : inner.dropWhile (· ≠ ' ') with
  | nil => exact .inl rfl
  | cons c rest =>
      rw [h] at hc
      simp only [List.head?_cons, ne_eq, decide_not, Bool.not_eq_false', decide_eq_true_eq] at hc
      exact .inr (congrArg some hc)

theorem space_notMem_nameOf (inner : List Char) : ' ' ∉ nameOf inner := by
  intro h
  simpa using List.mem_takeWhile_imp h

theorem closes_notMem_nameOf (h : '>' ∉ inner) : '>' ∉ nameOf inner :=
  fun hm => h ((List.takeWhile_prefix _).subset hm)

/-- A name ends at a space or at the end of its tag. -/
theorem exists_ending (inner rest : List Char) :
    ∃ ending, (ending = ' ' ∨ ending = '>') ∧ nameOf inner ++ [ending] <+: inner ++ '>' :: rest := by
  have hn := nameOf_append_dropWhile inner
  rcases head?_dropWhile inner with h | h
  · rw [h, List.append_nil] at hn
    rw [hn]
    exact ⟨'>', .inr rfl, List.prefix_append_right_inj _ |>.2 (List.prefix_append ['>'] rest)⟩
  · obtain ⟨attrs, ha⟩ := List.head?_eq_some_iff.1 h
    rw [ha] at hn
    refine ⟨' ', .inl rfl, attrs ++ '>' :: rest, ?_⟩
    calc nameOf inner ++ [' '] ++ (attrs ++ '>' :: rest)
        = nameOf inner ++ ' ' :: attrs ++ '>' :: rest := by simp
      _ = inner ++ '>' :: rest := by rw [hn]

/-! ## The scan of a record -/

/-- The text `front` ends in a tag that does not close itself, without its last character. -/
def EndsInTag (front name : List Char) : Prop :=
  ∃ lead inner, front = lead ++ '<' :: inner ∧ '>' ∉ inner ∧ inner.getLast? ≠ some '/' ∧ nameOf inner = name

theorem EndsInTag.standsIn {front text inner rest : List Char} (h : EndsInTag front current)
    (ht : '<' ∉ text) (hn : nameOf inner = '/' :: current) {n : Nat}
    (hr : text.length + 2 + (nameOf inner).length < n) :
    (⟨current, text⟩ : Leaf).StandsIn (front ++ ('>' :: (text ++ '<' :: (inner ++ '>' :: rest))).take n) := by
  obtain ⟨lead, tag, rfl, hcloses, hself, rfl⟩ := h
  obtain ⟨ending, he, hp⟩ := exists_ending inner rest
  refine ⟨space_notMem_nameOf tag, closes_notMem_nameOf hcloses, ht, tag.dropWhile (· ≠ ' '), ending,
    head?_dropWhile tag, fun hm => hcloses ((List.dropWhile_suffix _).subset hm), ?_, he, ?_⟩
  · rwa [nameOf_append_dropWhile]
  · rw [hn] at hp hr
    have htake : '>' :: (text ++ '<' :: '/' :: (nameOf tag ++ [ending])) <+:
        ('>' :: (text ++ '<' :: (inner ++ '>' :: rest))).take n := by
      refine List.prefix_take_iff.2 ⟨?_, ?_⟩
      · simpa using hp
      · simp only [List.length_cons, List.length_append, List.length_nil] at hr ⊢
        omega
    rw [nameOf_append_dropWhile, List.append_assoc, List.cons_append, ← List.cons_append]
    exact (List.prefix_append_right_inj _ |>.2 htake).isInfix.trans (List.suffix_append lead _).isInfix

/-- A scan that finds a leaf has room left. -/
theorem lt_of_scan {others : List Leaf} (h : scan room s current = .ok (others, stop)) {leaf : Leaf}
    (hm : leaf ∈ others) : 0 < room := by
  obtain ⟨-, hend⟩ | ⟨_, _, -, hr, -⟩ | ⟨_, _, _, -, -, -, hr, -⟩ := scan_cases room s current
  · rw [hend] at h
    cases h
    cases hm
  · exact Nat.zero_lt_of_lt hr
  · exact Nat.zero_lt_of_lt hr

/-- If a leaf is found behind a tag, the record goes on behind the tag. -/
theorem take_of_scan {before : List Char} {others : List Leaf}
    (h : scan (room - (before.length + 1 + inner.length)) s current = .ok (others, stop)) {leaf : Leaf}
    (hm : leaf ∈ others) : (before ++ '<' :: (inner ++ s)).take room =
      before ++ '<' :: inner ++ s.take (room - (before.length + 1 + inner.length)) := by
  obtain ⟨k, hk⟩ := Nat.exists_eq_add_of_le (Nat.le_of_lt (Nat.lt_of_sub_pos (lt_of_scan h hm)))
  have hsplit : before ++ '<' :: (inner ++ s) = (before ++ '<' :: inner) ++ s := by simp
  have hlen : before.length + 1 + inner.length = (before ++ '<' :: inner).length := by
    simp only [List.length_cons, List.length_append]
    omega
  rw [hk, Nat.add_sub_cancel_left, hsplit, hlen, List.take_length_add_append]

/-- What a scan finds behind a tag stands in the record. -/
theorem standsIn_of_scan {front : List Char} (hf : EndsInTag front current)
    (h : scan room ('>' :: s) current = .ok (leaves, stop)) :
    ∀ leaf ∈ leaves, leaf.StandsIn (front ++ ('>' :: s).take room) := by
  induction hl : s.length using Nat.strongRecOn generalizing s front current room leaves with
  | _ n ih =>
  subst hl
  obtain ⟨-, hend⟩ | ⟨_, _, -, -, -, hend⟩ | ⟨before, inner, after, hs, hopen, hclose, hr, htag⟩ :=
    scan_cases room ('>' :: s) current
  · rw [hend] at h
    cases h
    exact nofun
  · rw [hend] at h
    cases h
    exact nofun
  rw [htag] at h
  obtain ⟨rfl, -⟩ | ⟨hself, hname, hnext⟩ := onTag_eq_ok h
  · exact nofun
  have hrest : ∀ others, scan (room - (before.length + 1 + inner.length)) ('>' :: after) (nameOf inner) =
      .ok (others, stop) → ∀ leaf ∈ others, leaf.StandsIn (front ++ ('>' :: s).take room) := by
    intro others ho leaf hm
    have hfront : EndsInTag (front ++ (before ++ '<' :: inner)) (nameOf inner) :=
      ⟨front ++ before, inner, by simp, hclose, hself, rfl⟩
    have hlt : after.length < s.length := by
      have := congrArg List.length hs
      simp only [List.length_append, List.length_cons] at this
      omega
    rw [hs, take_of_scan ho hm, ← List.append_assoc]
    exact ih after.length hlt hfront ho rfl leaf hm
  rcases hnext with hnext | ⟨c, text, others, rfl, hn, rfl, hnext⟩
  · exact hrest leaves hnext
  · obtain ⟨rfl, rfl⟩ := List.cons.inj hs
    simp only [List.mem_cons, not_or] at hopen
    intro leaf hm
    rcases List.mem_cons.1 hm with rfl | hm
    · refine hf.standsIn hopen.2 hn ?_
      simpa [Nat.add_assoc, Nat.add_comm, Nat.add_left_comm] using hname
    · exact hrest others hnext leaf hm

/-- The leaves of a record stand in its span. -/
theorem standsIn_of_leaves {tag page : List Char} {span : Span}
    (ho : StandsAt (openTag tag) page span.start) (h : Markup.leaves span (page.drop span.start) = .ok leaves) :
    ∀ leaf ∈ leaves, leaf.StandsIn (span.chars page) := by
  obtain ⟨rest, hrest⟩ := ho
  obtain ⟨⟨found, stop⟩, hscan⟩ : ∃ r, scan (span.stop - span.start) (page.drop span.start) [] = .ok r := by
    rw [Markup.leaves] at h
    cases hscan : scan (span.stop - span.start) (page.drop span.start) [] with
    | error fault => rw [hscan] at h; cases h
    | ok r => exact ⟨r, rfl⟩
  rw [Markup.leaves, hscan] at h
  cases h
  rw [Span.chars]
  obtain ⟨-, hend⟩ | ⟨_, _, -, -, -, hend⟩ | ⟨before, inner, after, hs, hopen, hclose, hr, htag⟩ :=
    scan_cases (span.stop - span.start) (page.drop span.start) []
  · rw [hend] at hscan
    cases hscan
    exact List.forall_mem_nil _
  · rw [hend] at hscan
    cases hscan
    exact List.forall_mem_nil _
  rw [htag] at hscan
  obtain ⟨rfl, -⟩ | ⟨hself, hname, hnext⟩ := onTag_eq_ok hscan
  · exact List.forall_mem_nil _
  -- The record begins with its own opening tag, before which nothing stands that could be a text.
  have hbefore : before = [] := by
    cases before with
    | nil => rfl
    | cons c before =>
        rw [← hrest, openTag] at hs
        exact absurd (List.mem_cons.2 (.inl (List.cons.inj hs).1)) hopen
  subst hbefore
  rcases hnext with hnext | ⟨c, text, others, hnil, -⟩
  · intro leaf hm
    rw [hs, take_of_scan hnext hm]
    exact standsIn_of_scan ⟨[], inner, rfl, hclose, hself, rfl⟩ hnext leaf hm
  · cases hnil

end FeedFiler.Markup

namespace FeedFiler.MarkupParser
open Markup

/-! ## Fields -/

/-- The parser without its mappings. -/
def plain (p : MarkupParser) : MarkupParser := { p with mappings := [] }

variable (p : MarkupParser) {found : List Leaf} {field : String} {value : Value}

theorem get?_plain_store (r : Record) (leaf : Leaf) (field : String) :
    (p.plain.store r leaf).get? field =
      if String.ofList leaf.tag = field then some (.text (String.ofList leaf.text)) else r.get? field :=
  get?_store p.plain r leaf field

theorem write?_plain (field : String) (leaf : Leaf) : p.plain.write? field leaf =
    if String.ofList leaf.tag = field then some (.text (String.ofList leaf.text)) else none := rfl

variable {p}

/-- A field of a record without derived fields is a leaf. -/
theorem exists_leaf_of_plain (h : (p.plain.recordOf found).get? field = some value) :
    ∃ leaf ∈ found, field = String.ofList leaf.tag ∧ value = .text (String.ofList leaf.text) := by
  rw [get?_recordOf] at h
  obtain ⟨leaf, hm, hw⟩ := List.mem_filterMap.1 (List.mem_of_getLast? h)
  rw [write?_plain] at hw
  split at hw
  · next ht =>
      cases hw
      exact ⟨leaf, hm, ht.symm, rfl⟩
  · cases hw

theorem isSome_plain_of_mem {leaf : Leaf} (h : leaf ∈ found) :
    ((p.plain.recordOf found).get? (String.ofList leaf.tag)).isSome = true := by
  rw [get?_recordOf, List.getLast?_isSome]
  refine List.ne_nil_of_mem (a := .text (String.ofList leaf.text)) (List.mem_filterMap.2 ⟨leaf, h, ?_⟩)
  rw [write?_plain, if_pos rfl]

/-- A field that is not the one that the leaves alone give is derived from one of them. -/
theorem plain_or_derived (h : (p.recordOf found).get? field = some value) :
    (p.plain.recordOf found).get? field = some value ∨
      ∃ leaf ∈ found, p.derived? leaf = some (field, value) := by
  induction found using List.reverseRecOn with
  | nil => exact .inl h
  | append_singleton found leaf ih =>
      rw [recordOf_concat, get?_store] at h
      rw [recordOf_concat, get?_plain_store]
      cases hd : (p.derived? leaf).filter (·.1 = field) with
      | some derived =>
          rw [hd] at h
          cases h
          obtain ⟨hleaf, ht⟩ := Option.filter_eq_some_iff.1 hd
          simp only [decide_eq_true_eq] at ht
          subst ht
          exact .inr ⟨leaf, List.mem_append_right _ (List.mem_singleton_self leaf), hleaf⟩
      | none =>
          rw [hd, Option.map_none, Option.none_or] at h
          split at h
          · next ht => exact .inl (by rw [if_pos ht, h])
          · next ht =>
              rw [if_neg ht]
              refine (ih h).imp_right fun ⟨leaf', hm, hleaf⟩ => ?_
              exact ⟨leaf', List.mem_append_left _ hm, hleaf⟩

theorem derived?_eq_some {leaf : Leaf} : p.derived? leaf = some (field, value) ↔
    ∃ mapping, TagMapping.find? p.mappings (String.ofList leaf.tag) = some mapping ∧
      mapping.target = field ∧ mapping.convert? leaf.text = some value := by
  simp only [derived?, Option.bind_eq_some_iff, Option.map_eq_some_iff, Prod.mk.injEq]
  constructor
  · rintro ⟨mapping, hm, value', hc, ht, rfl⟩
    exact ⟨mapping, hm, ht, hc⟩
  · rintro ⟨mapping, hm, ht, hc⟩
    exact ⟨mapping, hm, value, hc, ht, rfl⟩

/-- **The scanner invents nothing.** Whenever the records of a page can be read, so they can without the
mappings, record by record. Each field of a record that is read without them is a leaf that stands in the
span of the record. With them, each field is still that field, or it is the target of the mapping of a tag
that is a field of the record and of which a leaf stands in the span, with the value that the leaf's text
is converted to. -/
theorem nothing_invented (p : MarkupParser) (page : List Char) {rs : List Record}
    (h : p.parseText page = .ok rs) :
    ∃ plains, p.plain.parseText page = .ok plains ∧ plains.length = rs.length ∧
      rs.length = (p.spans page).length ∧
      ∀ (i : Nat) (span : Span) (plain r : Record), (p.spans page)[i]? = some span →
        plains[i]? = some plain → rs[i]? = some r →
        (∀ field value, plain.get? field = some value → ∃ leaf : Leaf, leaf.StandsIn (span.chars page) ∧
          field = String.ofList leaf.tag ∧ value = .text (String.ofList leaf.text)) ∧
        ∀ field value, r.get? field = some value → plain.get? field = some value ∨
          ∃ (leaf : Leaf) (mapping : TagMapping), leaf.StandsIn (span.chars page) ∧
            (plain.get? (String.ofList leaf.tag)).isSome = true ∧
            TagMapping.find? p.mappings (String.ofList leaf.tag) = some mapping ∧
            mapping.target = field ∧ mapping.convert? leaf.text = some value := by
  rw [parseText_eq] at h
  cases hleaves : p.leavesOf page with
  | error fault =>
      rw [hleaves] at h
      cases h
  | ok leaves =>
      rw [hleaves] at h
      cases h
      have hplain : p.plain.leavesOf page = .ok leaves := hleaves
      refine ⟨leaves.map p.plain.recordOf, by rw [parseText_eq, hplain]; rfl, by simp, ?_, ?_⟩
      · rw [List.length_map, length_leavesOf hleaves]
      intro i span plain r hspan hplains hrs
      rw [List.getElem?_map, Option.map_eq_some_iff] at hplains hrs
      obtain ⟨found, hfound, rfl⟩ := hplains
      obtain ⟨_, hfound', rfl⟩ := hrs
      rw [hfound] at hfound'
      cases hfound'
      obtain ⟨hread, hopens⟩ := leaves_of_leavesOf hleaves hspan hfound
      have hstands := standsIn_of_leaves hopens hread
      refine ⟨fun field value hv => ?_, fun field value hv => ?_⟩
      · obtain ⟨leaf, hm, hleaf⟩ := exists_leaf_of_plain hv
        exact ⟨leaf, hstands leaf hm, hleaf⟩
      · refine (plain_or_derived hv).imp_right fun ⟨leaf, hm, hd⟩ => ?_
        obtain ⟨mapping, hmapping⟩ := derived?_eq_some.1 hd
        exact ⟨leaf, mapping, hstands leaf hm, isSome_plain_of_mem hm, hmapping⟩

/-- A record with a tag that ends late, one that is closed by another name, and one that is never closed. -/
def garbledPage : List Char := "<r><a x='<1'>7</a ></b><c>1</d><b>2<</r>".toList

/-- Derives a number from one of the tags. -/
def garbledParser : MarkupParser where
  tagRecord := "r"
  mappings := [⟨"a", "number", .int⟩]

theorem nothing_invented_garbled :
    ∃ plain r, garbledParser.plain.parseText garbledPage = .ok [plain] ∧
      garbledParser.parseText garbledPage = .ok [r] ∧ plain.get? "number" = none ∧
      r.get? "number" = some (.int 7) ∧
      ∃ (leaf : Leaf) (mapping : TagMapping), leaf.StandsIn (Span.chars ⟨0, 36⟩ garbledPage) ∧
        (plain.get? (String.ofList leaf.tag)).isSome = true ∧
        TagMapping.find? garbledParser.mappings (String.ofList leaf.tag) = some mapping ∧
        mapping.target = "number" ∧ mapping.convert? leaf.text = some (.int 7) := by
  have hspans : garbledParser.spans garbledPage = [⟨0, 36⟩] := by decide +kernel
  have hnumber : (garbledParser.parseText garbledPage).map (List.map (·.get? "number")) =
      .ok [some (.int 7)] := by decide +kernel
  have hplain : (garbledParser.plain.parseText garbledPage).map (List.map (·.get? "number")) =
      .ok [none] := by decide +kernel
  cases h : garbledParser.parseText garbledPage with
  | error fault =>
      rw [h] at hnumber
      cases hnumber
  | ok rs =>
      obtain ⟨plains, hplains, hlen, hlen', hfields⟩ := nothing_invented garbledParser garbledPage h
      rw [hspans] at hlen' hfields
      match rs, plains, hlen, hlen' with
      | [r], [plain], _, _ =>
          rw [h] at hnumber
          rw [hplains] at hplain
          simp only [Except.map, List.map_cons, List.map_nil, Except.ok.injEq, List.cons.injEq,
            and_true] at hnumber hplain
          refine ⟨plain, r, hplains, rfl, hplain, hnumber, ?_⟩
          refine ((hfields 0 _ plain r rfl rfl rfl).2 "number" _ hnumber).resolve_left fun he => ?_
          rw [hplain] at he
          cases he

end FeedFiler.MarkupParser
