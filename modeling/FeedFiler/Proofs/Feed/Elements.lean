import Mathlib.Data.List.Forall2
import Mathlib.Data.List.ReduceOption
import Mathlib.Data.List.TakeWhile
import FeedFiler.Proofs.Feed.Spans

/-!
# Records of nested elements

A page whose records are well-formed markup is read as it is meant: each record has the fields of its
leaves, however deep they stand, up to the first element that closes itself.
-/

namespace FeedFiler.Markup
open Text

/-! ## Elements -/

/-- A name of an element. -/
structure IsName (name : List Char) : Prop where
  ne_nil : name ≠ []
  opens : '<' ∉ name
  closes : '>' ∉ name
  slash : '/' ∉ name
  space : ' ' ∉ name

/-- What may stand behind the name in a tag. -/
structure IsAttrs (attrs : List Char) : Prop where
  head : attrs = [] ∨ attrs.head? = some ' '
  opens : '<' ∉ attrs
  closes : '>' ∉ attrs

mutual
/-- An element. -/
inductive Element where
  | full (name attrs : List Char) (content : Content)
  | selfClosing (name attrs : List Char)

/-- What stands between two tags: text, with elements in it. -/
inductive Content where
  | plain (text : List Char)
  | child (text : List Char) (element : Element) (others : Content)
end

mutual
/-- The text of an element. -/
def Element.chars : Element → List Char
  | .full name attrs content =>
    '<' :: (name ++ attrs ++ '>' :: (content.chars ++ closeTag name))
  | .selfClosing name attrs => '<' :: (name ++ attrs ++ ['/', '>'])

/-- The text of what stands between two tags. -/
def Content.chars : Content → List Char
  | .plain text => text
  | .child text element others => text ++ (element.chars ++ others.chars)
end

mutual
/-- Names and attributes are what they may be, and no element has the name of a record. -/
def Element.WellFormed (tag : List Char) : Element → Prop
  | .full name attrs content => IsName name ∧ name ≠ tag ∧ IsAttrs attrs ∧
      attrs.getLast? ≠ some '/' ∧ content.WellFormed tag
  | .selfClosing name attrs => IsName name ∧ name ≠ tag ∧ IsAttrs attrs

/-- No text begins a tag, and all elements are well-formed. -/
def Content.WellFormed (tag : List Char) : Content → Prop
  | .plain text => '<' ∉ text
  | .child text element others => '<' ∉ text ∧ element.WellFormed tag ∧ others.WellFormed tag
end

instance (name : List Char) : Decidable (IsName name) :=
  decidable_of_iff (name ≠ [] ∧ '<' ∉ name ∧ '>' ∉ name ∧ '/' ∉ name ∧ ' ' ∉ name)
    ⟨fun ⟨h1, h2, h3, h4, h5⟩ => ⟨h1, h2, h3, h4, h5⟩, fun ⟨h1, h2, h3, h4, h5⟩ => ⟨h1, h2, h3, h4, h5⟩⟩

instance (attrs : List Char) : Decidable (IsAttrs attrs) :=
  decidable_of_iff ((attrs = [] ∨ attrs.head? = some ' ') ∧ '<' ∉ attrs ∧ '>' ∉ attrs)
    ⟨fun ⟨h1, h2, h3⟩ => ⟨h1, h2, h3⟩, fun ⟨h1, h2, h3⟩ => ⟨h1, h2, h3⟩⟩

mutual
/-- Whether an element is well-formed. -/
def Element.decideWellFormed (tag : List Char) : (element : Element) → Decidable (element.WellFormed tag)
  | .full name attrs content =>
    have := content.decideWellFormed tag
    inferInstanceAs (Decidable (IsName name ∧ name ≠ tag ∧ IsAttrs attrs ∧
      attrs.getLast? ≠ some '/' ∧ content.WellFormed tag))
  | .selfClosing name attrs =>
    inferInstanceAs (Decidable (IsName name ∧ name ≠ tag ∧ IsAttrs attrs))

/-- Whether what stands between two tags is well-formed. -/
def Content.decideWellFormed (tag : List Char) : (content : Content) → Decidable (content.WellFormed tag)
  | .plain text => inferInstanceAs (Decidable ('<' ∉ text))
  | .child text element others =>
    have := element.decideWellFormed tag
    have := others.decideWellFormed tag
    inferInstanceAs (Decidable ('<' ∉ text ∧ element.WellFormed tag ∧ others.WellFormed tag))
end

instance (tag : List Char) (content : Content) : Decidable (content.WellFormed tag) :=
  content.decideWellFormed tag

mutual
/-- The leaves in the order of the document, and nothing in the place of each element that closes
itself. -/
def Element.marks : Element → List (Option Leaf)
  | .full name _ (.plain text) => [some ⟨name, text⟩]
  | .full _ _ content => content.marks
  | .selfClosing _ _ => [none]

/-- The marks of all elements. -/
def Content.marks : Content → List (Option Leaf)
  | .plain _ => []
  | .child _ element others => element.marks ++ others.marks
end

/-- The leaves before the first element that closes itself. -/
def Content.leaves (content : Content) : List Leaf :=
  (content.marks.takeWhile Option.isSome).reduceOption

def Element.name : Element → List Char
  | .full name _ _ => name
  | .selfClosing name _ => name

/-- The text behind the last element. -/
def Content.lastText : Content → List Char
  | .plain text => text
  | .child _ _ others => others.lastText

/-- The name of the last tag, if `current` is that of the tag before. -/
def Content.lastName (current : List Char) : Content → List Char
  | .plain _ => current
  | .child _ element others => others.lastName ('/' :: element.name)

/-! ## Names -/

variable {tag name attrs text rest current : List Char}

namespace IsName

theorem head (h : IsName name) : ∃ c cs, name = c :: cs ∧ c ≠ '/' := by
  cases name with
  | nil => exact absurd rfl h.ne_nil
  | cons c cs => exact ⟨c, cs, rfl, fun he => h.slash (he ▸ List.mem_cons_self)⟩

theorem ne_slash (h : IsName name) (other : List Char) : name ≠ '/' :: other := by
  intro he
  exact h.slash (he ▸ List.mem_cons_self)

theorem nameOf_append (h : IsName name) (ha : IsAttrs attrs) : nameOf (name ++ attrs) = name := by
  have hn : ∀ c ∈ name, (c ≠ ' ' : Bool) = true := by
    intro c hc
    exact decide_eq_true fun he => h.space (he ▸ hc)
  have ht : attrs.takeWhile (· ≠ ' ') = [] := by
    rcases ha.head with rfl | hs
    · rfl
    · obtain ⟨cs, rfl⟩ := List.head?_eq_some_iff.1 hs
      rfl
  rw [nameOf, List.takeWhile_append_of_pos hn, ht, List.append_nil]

theorem nameOf_slash (h : IsName name) : nameOf ('/' :: name) = '/' :: name := by
  rw [nameOf, List.takeWhile_cons_of_pos (by decide), List.takeWhile_eq_self_iff.2]
  intro c hc
  exact decide_eq_true fun he => h.space (he ▸ hc)

theorem getLast?_ne (h : IsName name) : name.getLast? ≠ some '/' := by
  intro hl
  exact h.slash (List.mem_of_getLast? hl)

end IsName

/-! ## The scan of one tag -/

/-- The tag that follows some text. -/
theorem scan_text {inner : List Char} (ht : '<' ∉ text) (hi : '>' ∉ inner) (room : Nat)
    (rest current : List Char) :
    scan (text.length + 2 + inner.length + room) ('>' :: (text ++ '<' :: (inner ++ '>' :: rest))) current =
      onTag (text.length + 2 + inner.length + room) ('>' :: text) inner current
        (scan room ('>' :: rest) (nameOf inner)) := by
  have hb : '<' ∉ '>' :: text := by
    simp only [List.mem_cons, not_or]
    exact ⟨by decide, ht⟩
  have hr : text.length + 2 + inner.length + room - (('>' :: text).length + 1 + inner.length) = room := by
    simp only [List.length_cons]
    omega
  rw [← List.cons_append, scan_of_tag (cut?_char hb _)
    (by simp only [List.length_cons]; omega) (cut?_char hi _), hr]

theorem scan_openTag (hn : IsName name) (ha : IsAttrs attrs) (hl : attrs.getLast? ≠ some '/')
    (ht : '<' ∉ text) {room : Nat} (hr : 0 < room) (rest current : List Char) :
    scan (text.length + 2 + (name ++ attrs).length + room)
      ('>' :: (text ++ '<' :: (name ++ attrs ++ '>' :: rest))) current = scan room ('>' :: rest) name := by
  have hi : '>' ∉ name ++ attrs := by
    simp [hn.closes, ha.closes]
  have hg : (name ++ attrs).getLast? ≠ some '/' := by
    rw [List.getLast?_append]
    cases hattrs : attrs.getLast? with
    | none => exact hn.getLast?_ne
    | some c => rwa [hattrs] at hl
  rw [scan_text ht hi, hn.nameOf_append ha, onTag, if_neg hg, hn.nameOf_append ha, if_neg,
    if_neg (hn.ne_slash current)]
  simp only [List.length_cons, List.length_append]
  omega

theorem scan_selfClosing (hn : IsName name) (ha : IsAttrs attrs) (ht : '<' ∉ text) (room : Nat)
    (rest current : List Char) :
    scan (text.length + 2 + (name ++ attrs ++ ['/']).length + room)
      ('>' :: (text ++ '<' :: (name ++ attrs ++ ['/'] ++ '>' :: rest))) current =
        .ok ([], .selfClosed) := by
  have hi : '>' ∉ name ++ attrs ++ ['/'] := by
    simp [hn.closes, ha.closes]
  rw [scan_text ht hi, onTag, if_pos List.getLast?_concat]

theorem scan_closeTag (hn : IsName name) (ht : '<' ∉ text) {room : Nat} (hr : 0 < room)
    (rest current : List Char) :
    scan (text.length + (closeTag name).length + room) ('>' :: (text ++ (closeTag name ++ rest))) current =
      if name = current then
        (scan room ('>' :: rest) ('/' :: name)).map fun (leaves, stop) => (⟨name, text⟩ :: leaves, stop)
      else scan room ('>' :: rest) ('/' :: name) := by
  have hi : '>' ∉ '/' :: name := by
    simp only [List.mem_cons, not_or]
    exact ⟨by decide, hn.closes⟩
  have hg : ('/' :: name).getLast? ≠ some '/' := by
    obtain ⟨c, cs, rfl, -⟩ := hn.head
    rw [List.getLast?_cons_cons]
    exact hn.getLast?_ne
  have hlen : text.length + (closeTag name).length + room =
      text.length + 2 + ('/' :: name).length + room := by
    simp only [closeTag, List.length_append, List.length_cons, List.length_nil]
    omega
  have hc : closeTag name ++ rest = '<' :: ('/' :: name ++ '>' :: rest) := by simp [closeTag]
  rw [hlen, hc, scan_text ht hi, hn.nameOf_slash, onTag, if_neg hg, hn.nameOf_slash, if_neg]
  · by_cases he : name = current
    · rw [if_pos (congrArg _ he), if_pos he, he]
    · rw [if_neg fun h => he (List.cons.inj h).2, if_neg he]
  · simp only [List.length_cons]
    omega

/-! ## The scan of elements -/

/-- What a scan gives that meets some marks and then goes on with `next`. -/
def after (next : Except Fault (List Leaf × Stop)) : List (Option Leaf) → Except Fault (List Leaf × Stop)
  | [] => next
  | none :: _ => .ok ([], .selfClosed)
  | some leaf :: marks => (after next marks).map fun (leaves, stop) => (leaf :: leaves, stop)

theorem after_append (next : Except Fault (List Leaf × Stop)) (marks marks' : List (Option Leaf)) :
    after next (marks ++ marks') = after (after next marks') marks := by
  induction marks with
  | nil => rfl
  | cons mark marks ih =>
      cases mark with
      | none => rfl
      | some leaf => rw [List.cons_append, after, after, ih]

theorem after_finished (marks : List (Option Leaf)) :
    (after (.ok ([], .finished)) marks).map (·.1) =
      .ok (marks.takeWhile Option.isSome).reduceOption := by
  induction marks with
  | nil => rfl
  | cons mark marks ih =>
      cases mark with
      | none => rfl
      | some leaf =>
          rw [after, List.takeWhile_cons_of_pos rfl, List.reduceOption_cons_of_some]
          cases ha : after (.ok ([], .finished)) marks with
          | error e =>
              rw [ha] at ih
              cases ih
          | ok r =>
              rw [ha] at ih
              exact congrArg Except.ok (congrArg (leaf :: ·) (Except.ok.inj ih))

theorem Content.lastName_slash : (content : Content) → (name : List Char) →
    ∃ other, content.lastName ('/' :: name) = '/' :: other
  | .plain _, name => ⟨name, rfl⟩
  | .child _ element others, _ => others.lastName_slash element.name

theorem Content.lastText_notMem : (content : Content) → content.WellFormed tag → '<' ∉ content.lastText
  | .plain _, h => h
  | .child _ _ others, h => others.lastText_notMem h.2.2

theorem Element.length_chars (name attrs : List Char) (content : Content) :
    (Element.full name attrs content).chars.length =
      2 + (name ++ attrs).length + (content.chars.length + (closeTag name).length) := by
  simp only [Element.chars, List.length_cons, List.length_append]
  omega

mutual
/-- A scan that meets an element behind some text finds its marks and goes on behind it. -/
theorem scan_element : (element : Element) → element.WellFormed tag → {text : List Char} → '<' ∉ text →
    {room : Nat} → 0 < room → (rest current : List Char) →
    scan (text.length + element.chars.length + room) ('>' :: (text ++ (element.chars ++ rest))) current =
      after (scan room ('>' :: rest) ('/' :: element.name)) element.marks
  | .selfClosing name attrs, h, text, ht, room, _, rest, current => by
      have hs := scan_selfClosing h.1 h.2.2 ht room rest current
      simpa [Element.chars, Element.marks, after, Nat.add_assoc, Nat.add_comm, Nat.add_left_comm] using hs
  | .full name attrs content, h, text, ht, room, hr, rest, current => by
      obtain ⟨hn, -, ha, hl, hc⟩ := h
      have hroom : 0 < (closeTag name).length + room := by omega
      have hroom' : 0 < content.chars.length + ((closeTag name).length + room) := by omega
      have hopen := scan_openTag hn ha hl ht hroom' (content.chars ++ (closeTag name ++ rest)) current
      have hcontent := scan_content content hc hroom (closeTag name ++ rest) name
      have hclose := scan_closeTag hn (content.lastText_notMem hc) hr rest (content.lastName name)
      rw [hcontent, ← Nat.add_assoc content.lastText.length, hclose] at hopen
      have hmarks : after (if name = content.lastName name then
            (scan room ('>' :: rest) ('/' :: name)).map fun (leaves, stop) =>
              (⟨name, content.lastText⟩ :: leaves, stop)
          else scan room ('>' :: rest) ('/' :: name)) content.marks =
            after (scan room ('>' :: rest) ('/' :: name)) (Element.full name attrs content).marks := by
        cases content with
        | plain text => exact if_pos rfl
        | child text element others =>
            -- the tag before the closing tag is the closing one of the last child
            obtain ⟨other, ho⟩ := others.lastName_slash element.name
            rw [Content.lastName, ho, if_neg (hn.ne_slash other)]
            rfl
      have hlen : text.length + (Element.full name attrs content).chars.length + room =
          text.length + 2 + (name ++ attrs).length +
            (content.chars.length + ((closeTag name).length + room)) := by
        rw [Element.length_chars]
        omega
      have hs : text ++ ((Element.full name attrs content).chars ++ rest) =
          text ++ '<' :: (name ++ attrs ++ '>' :: (content.chars ++ (closeTag name ++ rest))) := by
        simp [Element.chars]
      rw [hlen, hs, hopen, hmarks]
      rfl

/-- A scan that meets content finds its marks and goes on at the text behind its last element. -/
theorem scan_content : (content : Content) → content.WellFormed tag → {room : Nat} → 0 < room →
    (rest current : List Char) →
    scan (content.chars.length + room) ('>' :: (content.chars ++ rest)) current =
      after (scan (content.lastText.length + room) ('>' :: (content.lastText ++ rest))
        (content.lastName current)) content.marks
  | .plain _, _, _, _, _, _ => rfl
  | .child text element others, h, room, hr, rest, current => by
      have hroom : 0 < others.chars.length + room := by omega
      have helement := scan_element element h.2.1 h.1 hroom (others.chars ++ rest) current
      have hothers := scan_content others h.2.2 hr rest ('/' :: element.name)
      rw [hothers, ← after_append] at helement
      simpa [Content.chars, Content.marks, Content.lastText, Content.lastName, Nat.add_assoc] using helement
end

/-- The leaves of a record are those of its body. -/
theorem leaves_record (ht : IsName tag) {body : Content} (hb : body.WellFormed tag) (start : Nat)
    (rest : List Char) :
    leaves ⟨start, start + (openTag tag ++ body.chars).length⟩
      (openTag tag ++ body.chars ++ (closeTag tag ++ rest)) = .ok body.leaves := by
  have hroom : start + (openTag tag ++ body.chars).length - start =
      0 + 1 + tag.length + (body.chars.length + 1) := by
    simp only [openTag, List.length_append, List.length_cons, List.length_nil]
    omega
  have hs : openTag tag ++ body.chars ++ (closeTag tag ++ rest) =
      [] ++ '<' :: (tag ++ '>' :: (body.chars ++ (closeTag tag ++ rest))) := by
    simp [openTag]
  have hname : nameOf tag = tag := by
    have := ht.nameOf_append ⟨.inl rfl, by simp, by simp⟩
    rwa [List.append_nil] at this
  -- behind the last text of the body the record ends
  have hend : scan (body.lastText.length + 1) ('>' :: (body.lastText ++ (closeTag tag ++ rest)))
      (body.lastName tag) = .ok ([], .finished) := by
    have hl : '<' ∉ '>' :: body.lastText := by
      simp only [List.mem_cons, not_or]
      exact ⟨by decide, body.lastText_notMem hb⟩
    exact scan_of_le (cut?_char hl _) (Nat.le_refl _) _
  have hpos : ([] : List Char).length < 0 + 1 + tag.length + (body.chars.length + 1) := by
    rw [List.length_nil]
    omega
  rw [leaves, hroom, hs, scan_of_tag (cut?_char (List.not_mem_nil) _) hpos
    (cut?_char ht.closes _), onTag, if_neg ht.getLast?_ne, hname, if_neg (by simp),
    if_neg (ht.ne_slash [])]
  simp only [List.length_nil, Nat.add_sub_cancel_left]
  rw [scan_content body hb Nat.one_pos, hend, after_finished]
  rfl

end FeedFiler.Markup
