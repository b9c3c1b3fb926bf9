import FeedFiler.Proofs.Feed.Elements

/-!
# Pages of well-formed records

A page of well-formed records with anything but an opening record tag between them gives one record
for each body, with the fields that its leaves write. Of fields with the same name the last one counts.
-/

namespace FeedFiler

namespace Markup
open Text

variable {tag name attrs lead rest : List Char}

/-! ## No closing tag in a body -/

theorem skips_closeTag_open (hn : IsName name) (ha : '<' ∉ attrs) :
    Skips (closeTag tag) ('<' :: (name ++ attrs)) := by
  have hm : '<' ∉ name ++ attrs := by simp [hn.opens, ha]
  refine (skips_of_notMem hm).cons fun rest hp => ?_
  obtain ⟨c, cs, rfl, hc⟩ := hn.head
  exact hc (List.cons_prefix_cons.1 (List.cons_prefix_cons.1 hp).2).1.symm

theorem skips_closeTag_close (ht : IsName tag) (hn : IsName name) (hne : name ≠ tag) :
    Skips (closeTag tag) (closeTag name) := by
  have hm : '<' ∉ '/' :: name ++ ['>'] := by
    simp [hn.opens]
  refine (skips_of_notMem hm).cons fun rest hp => hne ?_
  obtain ⟨r, hr⟩ := hp
  -- both names end at the first `>`
  have hr' : tag ++ '>' :: r = name ++ '>' :: rest := by simpa [closeTag] using hr
  have hcut := cut?_char ht.closes r
  rw [hr', cut?_char hn.closes rest] at hcut
  cases hcut
  rfl

mutual
theorem Element.skips (ht : IsName tag) : (element : Element) → element.WellFormed tag →
    Skips (closeTag tag) element.chars
  | .selfClosing name attrs, ⟨hn, _, ha⟩ => by
      have hm : '<' ∉ attrs ++ ['/', '>'] := by simp [ha.opens]
      rw [Element.chars, List.append_assoc]
      exact skips_closeTag_open hn hm
  | .full name attrs content, ⟨hn, hne, ha, _, hc⟩ => by
      have hm : '<' ∉ attrs ++ ['>'] := by simp [ha.opens]
      have ho : Skips (closeTag tag) ('<' :: (name ++ (attrs ++ ['>']))) := skips_closeTag_open hn hm
      have hs := ho.append ((content.skips ht hc).append (skips_closeTag_close ht hn hne))
      simpa [Element.chars] using hs

theorem Content.skips (ht : IsName tag) : (content : Content) → content.WellFormed tag →
    Skips (closeTag tag) content.chars
  | .plain _, h => skips_of_notMem h
  | .child _ element others, ⟨h, he, ho⟩ =>
      (skips_of_notMem h).append ((element.skips ht he).append (others.skips ht ho))
end

theorem skips_openTag_close (ht : IsName tag) : Skips (openTag tag) (closeTag tag) := by
  have hm : '<' ∉ '/' :: tag ++ ['>'] := by
    simp [ht.opens]
  refine (skips_of_notMem hm).cons fun rest hp => ?_
  obtain ⟨c, cs, rfl, hc⟩ := ht.head
  exact hc (List.cons_prefix_cons.1 (List.cons_prefix_cons.1 hp).2).1

/-! ## What stands between records -/

/-- The opening tag of a record does not begin in `lead`, if a tag or nothing follows. -/
def Leads (tag lead : List Char) : Prop :=
  ∀ rest, (∀ c, rest.head? = some c → c = '<') →
    cut? (openTag tag) (lead ++ rest) = (cut? (openTag tag) rest).map fun p => (lead ++ p.1, p.2)

theorem leads_of_no_opening (ht : IsName tag) (h : ¬ openTag tag <:+: lead) : Leads tag lead := by
  intro rest hr
  induction lead with
  | nil => simp
  | cons c lead ih =>
      rw [List.infix_cons_iff, not_or] at h
      rw [List.cons_append, cut?_cons_of_not_standsAt, ih h.2, Option.map_map]
      · rfl
      · intro hp
        -- an opening tag that begins here has the next tag's first character in it
        rcases List.prefix_or_prefix_of_prefix hp (List.prefix_append (c :: lead) rest) with hi | ⟨x, hx⟩
        · exact h.1 hi
        · rw [← hx] at hp
          cases x with
          | nil => exact h.1 ⟨[], by simpa using hx.symm⟩
          | cons d x =>
              obtain ⟨y, rfl⟩ := (List.prefix_append_right_inj (c :: lead)).1 hp
              have hm : '<' ∈ tag ++ ['>'] := by
                have ht : lead ++ d :: x = tag ++ ['>'] := (List.cons.inj hx).2
                rw [← ht, hr d rfl]
                exact List.mem_append_right lead List.mem_cons_self
              simp [ht.opens] at hm

theorem Leads.closed (ht : IsName tag) (h : Leads tag lead) : Leads tag (closeTag tag ++ lead) := by
  intro rest hr
  rw [List.append_assoc, skips_openTag_close ht, h rest hr, Option.map_map]
  simp [Function.comp_def]

/-! ## Pages -/

/-- The text of a page: what stands in front of the first record, and for each record its body and what
stands behind it. -/
def pageChars (tag lead : List Char) (records : List (Content × List Char)) : List Char :=
  lead ++ records.flatMap fun (body, behind) => openTag tag ++ body.chars ++ closeTag tag ++ behind

theorem pageChars_cons (tag lead : List Char) (body : Content) (behind : List Char)
    (records : List (Content × List Char)) :
    pageChars tag lead ((body, behind) :: records) =
      lead ++ (openTag tag ++ body.chars ++ pageChars tag (closeTag tag ++ behind) records) := by
  simp [pageChars]

/-- The sections of a page are its records, and each gives the leaves of its body. -/
theorem leaves_sections (ht : IsName tag) {records : List (Content × List Char)}
    (hw : ∀ r ∈ records, r.1.WellFormed tag) (hb : ∀ r ∈ records, Leads tag r.2)
    (hl : Leads tag lead) (offset : Nat) :
    (sections tag offset (pageChars tag lead records)).map (fun p => leaves p.1 p.2) =
      records.map fun r => .ok r.1.leaves := by
  induction records generalizing lead offset with
  | nil =>
      have hopen : cut? (openTag tag) (pageChars tag lead []) = none := by
        rw [pageChars, List.flatMap_nil, hl [] nofun]
        rfl
      rw [sections_of_not_open offset hopen]
      rfl
  | cons record records ih =>
      obtain ⟨body, behind⟩ := record
      simp only [List.forall_mem_cons] at hw hb
      have hopen : cut? (openTag tag) (pageChars tag lead ((body, behind) :: records)) =
          some (lead, body.chars ++ pageChars tag (closeTag tag ++ behind) records) := by
        rw [pageChars_cons, hl _ (by simp [openTag]), List.append_assoc, cut?_self_append,
          Option.map_some, List.append_nil]
      have hdrop : (pageChars tag lead ((body, behind) :: records)).drop lead.length =
          openTag tag ++ body.chars ++ pageChars tag (closeTag tag ++ behind) records := by
        rw [pageChars_cons, List.drop_left]
      have hpage : pageChars tag (closeTag tag ++ behind) records =
          closeTag tag ++ pageChars tag behind records := by
        simp [pageChars]
      have hskip : Skips (closeTag tag) (openTag tag ++ body.chars) :=
        (skips_closeTag_open ht (by simp)).append (body.skips ht hw.1)
      have hclose : cut? (closeTag tag) ((pageChars tag lead ((body, behind) :: records)).drop
          lead.length) = some (openTag tag ++ body.chars, pageChars tag behind records) := by
        rw [hdrop, hpage]
        exact hskip.cut?_append _
      rw [sections_of_closed offset hopen hclose, List.map_cons, List.map_cons, hdrop,
        List.drop_left, ih hw.2 hb.2 (hb.1.closed ht), hpage]
      exact congrArg (· :: _) (leaves_record ht hw.1 _ _)

end Markup

/-! ## Fields -/

namespace MarkupParser
open Markup

/-- The fields that a leaf writes: its text under its name, and what a mapping for the name derives
from the text. -/
def writes (p : MarkupParser) (leaf : Leaf) : List (String × Value) :=
  (String.ofList leaf.tag, .text (String.ofList leaf.text)) ::
    ((TagMapping.find? p.mappings (String.ofList leaf.tag)).bind fun mapping =>
      (mapping.convert? leaf.text).map (mapping.target, ·)).toList

theorem store_eq (p : MarkupParser) (r : Record) (leaf : Leaf) :
    p.store r leaf = r.insertAll (p.writes leaf) := by
  simp only [store, writes]
  cases TagMapping.find? p.mappings (String.ofList leaf.tag) with
  | none => rfl
  | some mapping =>
      simp only [Option.bind_some]
      cases mapping.convert? leaf.text <;> rfl

theorem recordOf_eq (p : MarkupParser) (leaves : List Leaf) :
    p.recordOf leaves = Record.empty.insertAll (leaves.flatMap p.writes) := by
  rw [recordOf, Record.insertAll, List.foldl_flatMap]
  congr 1
  funext r leaf
  exact p.store_eq r leaf

/-- **Nested elements are flattened.** A page of well-formed records, with anything between them that
does not open a record, gives one record for each body, in the order of the page. Each field has the
last value that is written to it when the leaves of the body, up to the first element that closes
itself, are gone through in their order. -/
theorem parseText_pageChars (p : MarkupParser) {lead : List Char}
    {records : List (Content × List Char)} (ht : IsName p.tagRecord.toList)
    (hw : ∀ r ∈ records, r.1.WellFormed p.tagRecord.toList)
    (hb : ∀ r ∈ records, ¬ openTag p.tagRecord.toList <:+: r.2)
    (hl : ¬ openTag p.tagRecord.toList <:+: lead) :
    ∃ rs, p.parseText (pageChars p.tagRecord.toList lead records) = .ok rs ∧
      List.Forall₂ (fun r record => ∀ field,
        r.get? field = (record.1.leaves.flatMap p.writes).reverse.lookup field) rs records := by
  have hs := leaves_sections ht hw (fun r hr => leads_of_no_opening ht (hb r hr))
    (leads_of_no_opening ht hl) 0
  rw [← List.forall₂_eq_eq_eq, List.forall₂_map_left_iff, List.forall₂_map_right_iff] at hs
  refine ⟨records.map fun r => p.recordOf r.1.leaves, ?_, ?_⟩
  · refine mapM_eq_ok.2 (List.forall₂_map_right_iff.2 (hs.imp ?_))
    intro part record h
    show (leaves part.1 part.2).map p.recordOf = _
    rw [h]
    rfl
  · rw [List.forall₂_map_left_iff, List.forall₂_same]
    intro record _ field
    rw [recordOf_eq, Record.get?_insertAll, Record.get?_empty, Option.or_none]

/-- A leaf in an element, a leaf with the name of a derived field, and a leaf behind an element that
closes itself. -/
def stopBody : Content :=
  .child ['\n'] (.full ['s', 't', 'o', 'p'] [' ', 'i', 'd', '=', '7']
      (.child [] (.full ['t', 'e', 'm', 'p'] [] (.plain ['1', '2'])) (.plain [])))
    (.child [] (.full ['h', 'e', 'a', 't'] [] (.plain ['x']))
      (.child [' '] (.selfClosing ['e', 'n', 'd'] [' '])
        (.child [] (.full ['l', 'a', 's', 't'] [] (.plain [])) (.plain []))))

/-- Reads stops, and derives a number from the temperature. -/
def stopParser : MarkupParser where
  tagRecord := "r"
  mappings := [⟨"temp", "heat", .int⟩]

theorem parseText_stopBody :
    ∃ r, stopParser.parseText (pageChars stopParser.tagRecord.toList ['<', 'r'] [(stopBody, ['>'])]) =
      .ok [r] ∧ r.get? "temp" = some (.text "12") ∧ r.get? "heat" = some (.text "x") ∧
        r.get? "last" = none := by
  obtain ⟨rs, hrs, hf⟩ := @parseText_pageChars stopParser ['<', 'r'] [(stopBody, ['>'])]
    (by decide) (by decide) (by decide) (by decide)
  rcases hf with _ | ⟨hr, ⟨⟩⟩
  refine ⟨_, hrs, (hr "temp").trans ?_, (hr "heat").trans ?_, (hr "last").trans ?_⟩
  · decide +kernel
  · decide +kernel
  · decide +kernel

end MarkupParser

end FeedFiler
