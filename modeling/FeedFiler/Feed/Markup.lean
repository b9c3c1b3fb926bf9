import FeedFiler.Feed.TagMapping
import FeedFiler.Record
import FeedFiler.Text.Cut
import FeedFiler.Text.Utf8

/-!
# Flat markup

A page of markup holds records, the stretches between an opening record tag and the next closing
one. Every element of a record that directly wraps text is a leaf, however deep it stands; a leaf
gives the record a field. The scan compares each tag with the one before it and builds no tree:
`<a>` directly followed by `</a>` is a leaf. A self-closing element ends the scan of its record.

Positions are counted in characters, so that a cut never falls inside one.
-/

namespace FeedFiler.Markup

/-- The tag that opens a record. -/
def openTag (tag : List Char) : List Char := '<' :: tag ++ ['>']

/-- The tag that closes a record. -/
def closeTag (tag : List Char) : List Char := '<' :: '/' :: tag ++ ['>']

/-! ## Spans -/

/-- Where a record stands in its page. -/
structure Span where
  /-- Where its opening tag begins. -/
  start : Nat
  /-- Where its closing tag begins. -/
  stop : Nat
deriving DecidableEq, Repr

/-- A closing tag never begins where an opening tag of the same name begins. -/
theorem not_closeTag_of_openTag {tag s : List Char} (h : openTag tag <+: s) : ¬ closeTag tag <+: s := by
  intro hc
  obtain ⟨t, ht⟩ := List.prefix_of_prefix_length_le h hc (by simp [openTag, closeTag])
  have hl : t.length = 1 := by
    have := congrArg List.length ht
    simp [openTag, closeTag] at this
    omega
  have he : '<' :: tag ++ ['>'] = '<' :: '/' :: tag := (List.append_inj' ht hl).1
  have := congrArg (List.count '>') he
  simp at this

/-- What is left of a page at a record's closing tag is shorter than the page before the record. -/
theorem length_section_lt {tag rest before after inner after' : List Char}
    (h : Text.cut? (openTag tag) rest = some (before, after))
    (h' : Text.cut? (closeTag tag) (rest.drop before.length) = some (inner, after')) :
    ((rest.drop before.length).drop inner.length).length < rest.length := by
  have hr := Text.eq_of_cut? h
  have hs := Text.eq_of_cut? h'
  have hopen : openTag tag <+: rest.drop before.length := by rw [hr]; simp
  have hpos : 0 < inner.length := by
    refine List.length_pos_iff.2 fun hi => not_closeTag_of_openTag hopen ⟨after', ?_⟩
    simpa [hi] using hs.symm
  have := Text.length_of_cut? h
  have : 0 < (openTag tag).length := by simp [openTag]
  simp only [List.length_drop]
  omega

/-- The spans of the records of a page, each with the page from its start on. A record begins at the
first opening tag that is left and ends at the first closing tag from there on; the search goes on at
that closing tag. -/
def sections (tag : List Char) (offset : Nat) (rest : List Char) : List (Span × List Char) :=
  match h : Text.cut? (openTag tag) rest with
  | none => []
  | some (before, _) =>
    let record := rest.drop before.length
    match h' : Text.cut? (closeTag tag) record with
    | none => []
    | some (inner, _) =>
      have := length_section_lt h h'
      let start := offset + before.length
      (⟨start, start + inner.length⟩, record) ::
        sections tag (start + inner.length) (record.drop inner.length)
termination_by rest.length
decreasing_by assumption

/-- The spans of the records of a page. -/
def spans (tag page : List Char) : List Span := (sections tag 0 page).map (·.1)

/-! ## Leaves -/

/-- An element that directly wraps text. -/
structure Leaf where
  tag : List Char
  text : List Char
deriving DecidableEq, Repr

/-- Why the scan of a record ends. -/
inductive Stop where
  /-- No further tag begins and has its name within the record. -/
  | finished
  /-- An element closes itself. -/
  | selfClosed
  /-- A tag has no end in the page. -/
  | unterminated
deriving DecidableEq, Repr

/-- A text that would end before it begins. -/
inductive Fault where
  /-- The record's own opening tag reads as the closing tag of an element without a name. -/
  | noTextBefore
deriving DecidableEq, Repr

/-- The leaves from a position of a record on, and why there are no more. `room` is the distance to
the record's closing tag, `s` is the page from the position on, and `current` is the name of the tag
that was last read; the position is that of the tag's end, or of the record's opening tag. -/
def scan (room : Nat) (s current : List Char) : Except Fault (List Leaf × Stop) :=
  match h : Text.cut? ['<'] s with
  | none => .ok ([], .finished)
  | some (before, after) =>
    if room ≤ before.length then .ok ([], .finished)
    else
      match h' : Text.cut? ['>'] after with
      | none => .ok ([], .unterminated)
      | some (inner, after') =>
        have : ('>' :: after').length < s.length := by
          have := Text.length_of_cut? h
          have := Text.length_of_cut? h'
          simp at *; omega
        let name := inner.takeWhile (· ≠ ' ')
        if inner.getLast? = some '/' then .ok ([], .selfClosed)
        else if room ≤ before.length + 1 + name.length then .ok ([], .finished)
        else
          let next := scan (room - (before.length + 1 + inner.length)) ('>' :: after') name
          if name = '/' :: current then
            match before with
            | [] => .error .noTextBefore
            | _ :: text => next.map fun (leaves, stop) => (⟨current, text⟩ :: leaves, stop)
          else next
termination_by s.length

/-- The leaves of a record, given its length and the page from its start on. -/
def leaves (span : Span) (record : List Char) : Except Fault (List Leaf) :=
  (scan (span.stop - span.start) record []).map (·.1)

end FeedFiler.Markup

namespace FeedFiler

/-! ## Records -/

/-- How a page of markup is read: the tag of its records and the derived fields. -/
structure MarkupParser where
  tagRecord : String
  mappings : List TagMapping := []

namespace MarkupParser

/-- Gives a record the field of a leaf, and the field that is derived from it. -/
def store (p : MarkupParser) (r : Record) (leaf : Markup.Leaf) : Record :=
  let tag := String.ofList leaf.tag
  let r := r.insert tag (.text (String.ofList leaf.text))
  match TagMapping.find? p.mappings tag with
  | none => r
  | some mapping =>
    match mapping.convert? leaf.text with
    | none => r
    | some value => r.insert mapping.target value

/-- The record of some leaves. -/
def recordOf (p : MarkupParser) (leaves : List Markup.Leaf) : Record := leaves.foldl p.store Record.empty

/-- The records of a page. -/
def parseText (p : MarkupParser) (page : List Char) : Except Markup.Fault (List Record) :=
  (Markup.sections p.tagRecord.toList 0 page).mapM fun (span, record) =>
    (Markup.leaves span record).map p.recordOf

/-- The records of a payload, read as UTF-8. -/
def parse (p : MarkupParser) (payload : ByteArray) : Except Markup.Fault (List Record) :=
  p.parseText (Text.decodeLossy payload.toList)

end MarkupParser

end FeedFiler
