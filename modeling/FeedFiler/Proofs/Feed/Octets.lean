import FeedFiler.Config
import FeedFiler.Feed
import FeedFiler.Proofs.Feed.Records
import FeedFiler.Proofs.Text.Octets

/-!
# Reading a page by its octets

The same reader, with positions counted in octets: it looks for tags in the UTF-8 form of a page, and each
octet and each slice that it takes is checked. It agrees with the reader of characters, so a page gives all
its records unless the record's opening tag reads as a closing one.
-/

namespace FeedFiler.Markup
open Text

/-! ## Checked accesses -/

/-- An access that is not allowed. -/
inductive Violation where
  /-- The page has no such octet. -/
  | index (i : Nat)
  /-- The slice ends before it begins, or it cuts a character, or it leaves the page. -/
  | slice (start stop : Nat)
deriving DecidableEq, Repr

/-- The octet in front of a place. -/
def octetBefore (page : List UInt8) : Nat → Except Violation UInt8
  | 0 => .error (.index 0)
  | i + 1 => match page[i]? with
    | some b => .ok b
    | none => .error (.index i)

/-- The octets between two places. -/
def slice (page : List UInt8) (start stop : Nat) : Except Violation (List UInt8) :=
  if start ≤ stop ∧ AtChar page start ∧ AtChar page stop then .ok ((page.drop start).take (stop - start))
  else .error (.slice start stop)

/-- The first place of an octet from a place on. -/
def findOctet? (page : List UInt8) (b : UInt8) (start : Nat) : Option Nat :=
  if start ≤ page.length then (find? [b] (page.drop start)).map (start + ·) else none

/-- The first place of a text from a place on. -/
def findText? (page mark : List UInt8) (start : Nat) : Option Nat :=
  if AtChar page start then (find? mark (page.drop start)).map (start + ·) else none

theorem findOctet?_eq_some {page : List UInt8} {b : UInt8} {start i : Nat}
    (h : findOctet? page b start = some i) : start ≤ i ∧ page[i]? = some b := by
  rw [findOctet?] at h
  split at h
  · obtain ⟨j, hj, rfl⟩ := Option.map_eq_some_iff.1 h
    obtain ⟨rest, hr⟩ := prefix_of_find? hj
    refine ⟨Nat.le_add_right _ _, ?_⟩
    rw [List.drop_drop] at hr
    have := congrArg (·[0]?) hr
    simpa using this.symm
  · cases h

theorem findText?_eq_some {page mark : List UInt8} {start i : Nat} (h : findText? page mark start = some i) :
    start ≤ i ∧ mark <+: page.drop i := by
  rw [findText?] at h
  split at h
  · obtain ⟨j, hj, rfl⟩ := Option.map_eq_some_iff.1 h
    refine ⟨Nat.le_add_right _ _, ?_⟩
    have hp := prefix_of_find? hj
    rwa [List.drop_drop] at hp
  · cases h

/-! ## The reader -/

/-- The name and the text of a leaf, and why there are no more. -/
abbrev OctetLeaves := List (List UInt8 × List UInt8) × Stop

/-- What a scan finds that meets a tag at `opens` with its end at `closes`, given what it finds behind the
tag. The scan is at `cursor`, the record ends at `stop`, and `current` is the tag that was read last. -/
def takeTag (page : List UInt8) (stop cursor opens closes : Nat) (current : List UInt8)
    (next : List UInt8 → Except Violation OctetLeaves) : Except Violation OctetLeaves := do
  if (← octetBefore page closes) = '/'.toUInt8 then
    let _ ← slice page opens (closes + 1)
    return ([], .selfClosed)
  let nameEnd := ((findOctet? page ' '.toUInt8 opens).filter (· < closes)).getD closes
  if stop ≤ nameEnd then return ([], .finished)
  let tag ← slice page (opens + 1) nameEnd
  if tag = '/'.toUInt8 :: current then
    let text ← slice page (cursor + 1) opens
    let (leaves, why) ← next tag
    return ((current, text) :: leaves, why)
  next tag

/-- The leaves of a record from `cursor` on. -/
def scanOctets (page : List UInt8) (stop cursor : Nat) (current : List UInt8) : Except Violation OctetLeaves :=
  if cursor < stop then
    match h : findOctet? page '<'.toUInt8 cursor with
    | none => .ok ([], .finished)
    | some opens =>
      if stop ≤ opens then .ok ([], .finished)
      else
        match h' : findOctet? page '>'.toUInt8 opens with
        | none => .ok ([], .unterminated)
        | some closes =>
          have : page.length - closes < page.length - cursor := by
            obtain ⟨hle, ho⟩ := findOctet?_eq_some h
            obtain ⟨hle', hc⟩ := findOctet?_eq_some h'
            obtain ⟨hlt, -⟩ := List.getElem?_eq_some_iff.1 hc
            have hne : opens ≠ closes := by
              rintro rfl
              rw [ho] at hc
              exact absurd hc (by decide)
            omega
          takeTag page stop cursor opens closes current fun tag => scanOctets page stop closes tag
  else .ok ([], .finished)
termination_by page.length - cursor

theorem length_left_lt {tag : List Char} {page : List UInt8} {cursor start stop : Nat}
    (h : findText? page (octets (openTag tag)) cursor = some start)
    (h' : findText? page (octets (closeTag tag)) start = some stop) :
    page.length - stop < page.length - cursor := by
  obtain ⟨hle, ho⟩ := findText?_eq_some h
  obtain ⟨hle', hc⟩ := findText?_eq_some h'
  have hne : start ≠ stop := by
    rintro rfl
    have hlen : (octets (openTag tag)).length ≤ (octets (closeTag tag)).length := by
      simp [openTag, closeTag]
    have hp := octets_prefix_iff.1 (List.prefix_of_prefix_length_le ho hc hlen)
    exact not_closeTag_of_openTag hp (List.prefix_refl _)
  have hlen := hc.length_le
  simp only [closeTag, octets_cons, List.length_append, List.length_drop, List.cons_append,
    String.length_utf8EncodeChar] at hlen
  have := Char.utf8Size_pos '<'
  omega

/-- The leaves of the records of a page from `cursor` on. -/
def readOctets (tag : List Char) (page : List UInt8) (cursor : Nat) : Except Violation (List OctetLeaves) :=
  if cursor < page.length then
    match h : findText? page (octets (openTag tag)) cursor with
    | none => .ok []
    | some start =>
      match h' : findText? page (octets (closeTag tag)) start with
      | none => .ok []
      | some stop =>
        have := length_left_lt h h'
        do
          let record ← scanOctets page stop start []
          let records ← readOctets tag page stop
          return record :: records
  else .ok []
termination_by page.length - cursor

/-! ## Searches in the octets of a text -/

variable {front before inner after s current : List Char} {room stop : Nat}

theorem findOctet?_octets {c : Char} (hc : String.utf8EncodeChar c = [c.toUInt8]) (front s : List Char) :
    findOctet? (octets (front ++ s)) c.toUInt8 (size front) =
      (cut? [c] s).map fun p => size (front ++ p.1) := by
  have hmark : [c.toUInt8] = octets [c] := by simp [hc]
  rw [findOctet?, if_pos (by simp [size]), drop_octets, hmark, find?_octets (List.cons_ne_nil c []),
    Option.map_map]
  simp [Function.comp_def]

theorem findText?_octets {mark : List Char} (hm : mark ≠ []) (front s : List Char) :
    findText? (octets (front ++ s)) (octets mark) (size front) =
      (cut? mark s).map fun p => size (front ++ p.1) := by
  rw [findText?, if_pos (atChar_append front s), drop_octets, find?_octets hm, Option.map_map]
  simp [Function.comp_def]

theorem slice_octets (front s rest : List Char) :
    slice (octets (front ++ s ++ rest)) (size front) (size (front ++ s)) = .ok (octets s) := by
  have hstart : AtChar (octets (front ++ s ++ rest)) (size front) := by
    rw [List.append_assoc]
    exact atChar_append front (s ++ rest)
  rw [slice, if_pos ⟨by simp, hstart, atChar_append (front ++ s) rest⟩, List.append_assoc, drop_octets,
    octets_append, size_append, Nat.add_sub_cancel_left, size, List.take_left]

theorem octetBefore_append {a : List UInt8} (ha : a ≠ []) (b : List UInt8) :
    octetBefore (a ++ b) a.length = .ok (a.getLast ha) := by
  rcases List.eq_nil_or_concat a with rfl | ⟨a, last, rfl⟩
  · exact absurd rfl ha
  · simp [octetBefore]

/-- The octet in front of a place tells whether a character of one octet stands there. -/
theorem octetBefore_octets {c : Char} (hc : String.utf8EncodeChar c = [c.toUInt8]) (front s : List Char)
    (hf : front ≠ []) : ∃ last, octetBefore (octets (front ++ s)) (size front) = .ok last ∧
      (last = c.toUInt8 ↔ front.getLast? = some c) := by
  have hne : octets front ≠ [] := fun h => hf (octets_inj.1 h)
  refine ⟨(octets front).getLast hne, by rw [octets_append]; exact octetBefore_append hne _, ?_⟩
  rw [← getLast?_octets_iff hc, List.getLast?_eq_some_getLast hne, Option.some.injEq]

/-! ## One tag -/

/-- A result of the reader of characters and the one of the reader of octets: both have found the same, or
both have met a text that ends before it begins. -/
inductive Agrees {α β : Type} (form : α → β) : Except Fault α → Except Violation β → Prop where
  | ok (found : α) : Agrees form (.ok found) (.ok (form found))
  | fault (fault : Fault) (i : Nat) : Agrees form (.error fault) (.error (.slice (i + 1) i))

/-- Leaves in octets. -/
def formOf (found : List Leaf × Stop) : OctetLeaves :=
  (found.1.map fun leaf => (octets leaf.tag, octets leaf.text), found.2)

theorem nameEnd_octets (hs : s = before ++ '<' :: (inner ++ '>' :: after)) :
    ((findOctet? (octets (front ++ s)) ' '.toUInt8 (size (front ++ before))).filter
      (· < size (front ++ (before ++ '<' :: inner)))).getD (size (front ++ (before ++ '<' :: inner))) =
        size (front ++ (before ++ '<' :: nameOf inner)) := by
  have hpage : front ++ s = front ++ before ++ '<' :: (inner ++ '>' :: after) := by simp [hs]
  rw [hpage, findOctet?_octets (c := ' ') rfl]
  by_cases hm : ' ' ∈ inner
  · obtain ⟨name, attrs, rfl, hn⟩ := List.eq_append_cons_of_mem hm
    have hname : nameOf (name ++ ' ' :: attrs) = name := by
      rw [nameOf, List.takeWhile_append_of_pos, List.takeWhile_cons_of_neg (by simp), List.append_nil]
      exact fun c hc => by simpa using ne_of_mem_of_not_mem hc hn
    have hcut : cut? [' '] ('<' :: (name ++ ' ' :: attrs ++ '>' :: after)) =
        some ('<' :: name, attrs ++ '>' :: after) := by
      simpa using cut?_char (s := '<' :: name) (by simpa using hn) (attrs ++ '>' :: after)
    have := Char.utf8Size_pos ' '
    rw [hcut, Option.map_some, Option.filter_some, if_pos, hname, Option.getD_some, List.append_assoc]
    simp only [size_append, size_cons, decide_eq_true_eq]
    omega
  · have hname : nameOf inner = inner := by
      rw [nameOf, List.takeWhile_eq_self_iff]
      exact fun c hc => by simpa using ne_of_mem_of_not_mem hc hm
    have hskip : Skips [' '] ('<' :: inner) := skips_of_notMem (by simpa using hm)
    have hcut := hskip ('>' :: after)
    rw [List.cons_append] at hcut
    rw [hcut, hname, Option.map_map, Option.filter_eq_none_iff.2, Option.getD_none]
    intro i hi
    obtain ⟨p, -, rfl⟩ := Option.map_eq_some_iff.1 hi
    simp

section
variable (front current) (hs : s = before ++ '<' :: (inner ++ '>' :: after))
include hs

theorem octetBefore_closes : ∃ last,
    octetBefore (octets (front ++ s)) (size (front ++ (before ++ '<' :: inner))) = .ok last ∧
      (last = '/'.toUInt8 ↔ inner.getLast? = some '/') := by
  have hpage : front ++ s = front ++ (before ++ '<' :: inner) ++ '>' :: after := by simp [hs]
  obtain ⟨last, hlast, hslash⟩ := octetBefore_octets (c := '/') rfl
    (front ++ (before ++ '<' :: inner)) ('>' :: after) (by simp)
  rw [← hpage] at hlast
  refine ⟨last, hlast, hslash.trans ?_⟩
  rcases List.eq_nil_or_concat inner with rfl | ⟨inner, d, rfl⟩
  · simp
  · rw [List.concat_eq_append, ← List.cons_append, ← List.append_assoc, ← List.append_assoc,
      List.getLast?_concat, List.getLast?_concat]

theorem slice_tag : slice (octets (front ++ s)) (size (front ++ before))
    (size (front ++ (before ++ '<' :: inner)) + 1) = .ok (octets ('<' :: inner ++ ['>'])) := by
  have hslice := slice_octets (front ++ before) ('<' :: inner ++ ['>']) after
  have hpage : front ++ before ++ ('<' :: inner ++ ['>']) ++ after = front ++ s := by simp [hs]
  have hstop : front ++ before ++ ('<' :: inner ++ ['>']) = front ++ (before ++ '<' :: inner) ++ ['>'] := by
    simp
  rwa [hpage, hstop, size_append _ ['>']] at hslice

theorem slice_name : slice (octets (front ++ s)) (size (front ++ before) + 1)
    (size (front ++ (before ++ '<' :: nameOf inner))) = .ok (octets (nameOf inner)) := by
  obtain ⟨attrs, ha⟩ : nameOf inner <+: inner := List.takeWhile_prefix _
  have hslice := slice_octets (front ++ before ++ ['<']) (nameOf inner) (attrs ++ '>' :: after)
  have hpage : front ++ before ++ ['<'] ++ nameOf inner ++ (attrs ++ '>' :: after) = front ++ s := by
    rw [hs, List.append_assoc, ← List.append_assoc (nameOf inner), ha]
    simp
  have hstop : front ++ before ++ ['<'] ++ nameOf inner = front ++ (before ++ '<' :: nameOf inner) := by simp
  rwa [hpage, hstop, size_append _ ['<']] at hslice

/-- What is found at a tag, if the readers agree on what is found behind it. -/
theorem Agrees.takeTag (hb : ∀ c ∈ before.head?, c = '>') (hr : room ≤ s.length)
    (hstop : stop - size front = size (s.take room)) {next : Except Fault (List Leaf × Stop)}
    {next' : List UInt8 → Except Violation OctetLeaves}
    (hnext : Agrees formOf next (next' (octets (nameOf inner)))) :
    Agrees formOf (onTag room before inner current next)
      (takeTag (octets (front ++ s)) stop (size front) (size (front ++ before))
        (size (front ++ (before ++ '<' :: inner))) (octets current) next') := by
  obtain ⟨last, hlast, hslash⟩ := octetBefore_closes front hs
  have hname : octets (nameOf inner) = '/'.toUInt8 :: octets current ↔ nameOf inner = '/' :: current :=
    octets_inj (t := '/' :: current)
  have hfinished : stop ≤ size (front ++ (before ++ '<' :: nameOf inner)) ↔
      room ≤ before.length + 1 + (nameOf inner).length := by
    obtain ⟨attrs, ha⟩ : nameOf inner <+: inner := List.takeWhile_prefix _
    have hp : before ++ '<' :: nameOf inner <+: s := by
      refine ⟨attrs ++ '>' :: after, ?_⟩
      conv => rhs; rw [hs, ← ha]
      simp
    rw [size_append, ← Nat.sub_le_iff_le_add', hstop, size_take_le_iff hp hr]
    simp only [List.length_append, List.length_cons]
    omega
  simp only [Markup.takeTag, hlast, nameEnd_octets hs, slice_tag front hs, slice_name front hs, onTag, bind,
    Except.bind, hslash, hfinished, hname]
  split
  · exact Agrees.ok ([], Stop.selfClosed)
  split
  · exact Agrees.ok ([], Stop.finished)
  split
  · cases before with
    | nil =>
        have hslice : slice (octets (front ++ s)) (size front + 1) (size (front ++ [])) =
            .error (.slice (size front + 1) (size front)) := by
          rw [List.append_nil, slice, if_neg fun h => absurd h.1 (Nat.not_succ_le_self _)]
        simp only [hslice]
        exact .fault _ _
    | cons c text =>
        obtain rfl := hb c rfl
        have hslice := slice_octets (front ++ ['>']) text ('<' :: (inner ++ '>' :: after))
        have hpage : front ++ ['>'] ++ text ++ '<' :: (inner ++ '>' :: after) = front ++ s := by simp [hs]
        have hstop : front ++ ['>'] ++ text = front ++ '>' :: text := by simp
        rw [hpage, hstop, size_append _ ['>']] at hslice
        simp only [show size front + 1 = size front + size ['>'] from rfl, hslice]
        generalize next' (octets (nameOf inner)) = found at hnext
        cases hnext with
        | ok found => exact Agrees.ok (⟨current, text⟩ :: found.1, found.2)
        | fault fault i => exact .fault fault i
  · exact hnext

end

/-! ## Records -/

theorem scanOctets_of_notMem (hn : '<' ∉ s.take room) (hr : room ≤ s.length)
    (hstop : stop - size front = size (s.take room)) (current : List UInt8) :
    scanOctets (octets (front ++ s)) stop (size front) current = .ok ([], .finished) := by
  rw [scanOctets]
  split
  · split
    · rfl
    · next opens ho =>
      rw [findOctet?_octets (c := '<') rfl] at ho
      obtain ⟨⟨before, after⟩, hc, rfl⟩ := Option.map_eq_some_iff.1 ho
      have hs : s = before ++ '<' :: after := by simpa using eq_of_cut? hc
      -- the next tag begins at the record's end or behind it
      have hle : room ≤ before.length := by
        refine Nat.le_of_not_lt fun hlt => hn ?_
        obtain ⟨k, rfl⟩ := Nat.exists_eq_add_of_lt hlt
        rw [hs, Nat.add_assoc, List.take_length_add_append, List.take_succ_cons]
        simp
      have hbefore : before <+: s := ⟨'<' :: after, hs.symm⟩
      rw [if_pos]
      rw [size_append, ← Nat.sub_le_iff_le_add', hstop]
      exact (size_take_le_iff hbefore hr).2 hle
  · rfl

theorem scanOctets_of_tag (hs : s = before ++ '<' :: (inner ++ '>' :: after)) (ho : '<' ∉ before)
    (hc : '>' ∉ inner) (hlt : before.length < room) (hr : room ≤ s.length)
    (hstop : stop - size front = size (s.take room)) (current : List UInt8) :
    scanOctets (octets (front ++ s)) stop (size front) current =
      takeTag (octets (front ++ s)) stop (size front) (size (front ++ before))
        (size (front ++ (before ++ '<' :: inner))) current
        fun tag => scanOctets (octets (front ++ s)) stop (size (front ++ (before ++ '<' :: inner))) tag := by
  have hopens : findOctet? (octets (front ++ s)) '<'.toUInt8 (size front) = some (size (front ++ before)) := by
    rw [findOctet?_octets (c := '<') rfl, hs, cut?_char ho]
    rfl
  have hcloses : findOctet? (octets (front ++ s)) '>'.toUInt8 (size (front ++ before)) =
      some (size (front ++ (before ++ '<' :: inner))) := by
    have hpage : front ++ s = front ++ before ++ ('<' :: inner ++ '>' :: after) := by simp [hs]
    rw [hpage, findOctet?_octets (c := '>') rfl, cut?_char (by simpa using hc), Option.map_some,
      List.append_assoc]
  have hbefore : before <+: s := ⟨_, hs.symm⟩
  have hin : ¬ stop ≤ size (front ++ before) := by
    rw [size_append, ← Nat.sub_le_iff_le_add', hstop, size_take_le_iff hbefore hr]
    exact Nat.not_le.2 hlt
  rw [scanOctets, if_pos]
  · split
    · next h => rw [hopens] at h; cases h
    · next h =>
      rw [hopens] at h
      cases h
      rw [if_neg hin]
      split
      · next h => rw [hcloses] at h; cases h
      · next h =>
        rw [hcloses] at h
        cases h
        rfl
  · simp only [size_append] at hin
    omega

/-- The readers agree on a record, from any place on at which a tag ends or the record begins. -/
theorem agrees_scan (hs : ∀ c ∈ s.head?, c = '<' ∨ c = '>') (hr : room ≤ s.length) (hm : '>' ∈ s.drop room)
    (hstop : stop - size front = size (s.take room)) :
    Agrees formOf (scan room s current) (scanOctets (octets (front ++ s)) stop (size front) (octets current)) := by
  induction hl : s.length using Nat.strongRecOn generalizing s front room current with
  | _ n ih =>
  subst hl
  obtain ⟨hn, hend⟩ | ⟨_, _, -, -, -, hend⟩ | ⟨before, inner, after, hs', ho, hc, hlt, htag⟩ :=
    scan_cases room s current
  · rw [hend, scanOctets_of_notMem hn hr hstop]
    exact Agrees.ok ([], Stop.finished)
  · exact absurd rfl (stop_ne_unterminated hm hend)
  rw [htag, scanOctets_of_tag hs' ho hc hlt hr hstop]
  have hsplit : s = (before ++ '<' :: inner) ++ '>' :: after := by simp [hs']
  have hlen : (before ++ '<' :: inner).length = before.length + 1 + inner.length := by
    simp only [List.length_append, List.length_cons]
    omega
  have hshort : ('>' :: after).length < s.length := by
    rw [hsplit, List.length_append, hlen]
    omega
  refine Agrees.takeTag front current hs' (fun c hb => ?_) hr hstop ?_
  · cases before with
    | nil => cases hb
    | cons d before =>
        cases hb
        refine (hs c (by simp [hs'])).resolve_left fun h => ho ?_
        simp [h]
  rw [← hlen, show front ++ s = (front ++ (before ++ '<' :: inner)) ++ '>' :: after by simp [hs']]
  refine ih _ hshort (by simp) ?_ (closes_mem_drop hsplit hm) ?_ rfl
  · rw [hsplit, List.length_append] at hr
    omega
  · rw [size_append, Nat.sub_add_eq, hstop, hsplit, List.take_append]
    rcases Nat.le_total room (before ++ '<' :: inner).length with hle | hle
    · rw [Nat.sub_eq_zero_of_le hle]
      have := (size_take_le_iff (List.prefix_refl _) hle).2 hle
      simp only [List.take_zero, List.append_nil, size_nil]
      omega
    · rw [List.take_of_length_le hle, size_append]
      omega

/-! ## Pages -/

variable {tag rest : List Char}

theorem Agrees.cons {found : Except Fault (List Leaf × Stop)} {found' : Except Violation OctetLeaves}
    {others : Except Fault (List (List Leaf × Stop))} {others' : Except Violation (List OctetLeaves)}
    (h : Agrees formOf found found') (ho : Agrees (List.map formOf) others others') :
    Agrees (List.map formOf) (do return (← found) :: (← others)) (do return (← found') :: (← others')) := by
  cases h with
  | fault fault i => exact .fault fault i
  | ok found =>
      cases ho with
      | fault fault i => exact .fault fault i
      | ok others => exact Agrees.ok (found :: others)

/-- What a scan finds in each record of a page. -/
def scans (tag : List Char) (offset : Nat) (rest : List Char) : Except Fault (List (List Leaf × Stop)) :=
  (sections tag offset rest).mapM fun (span, record) => scan (span.stop - span.start) record []

theorem findText?_openTag (tag front rest : List Char) :
    findText? (octets (front ++ rest)) (octets (openTag tag)) (size front) =
      (cut? (openTag tag) rest).map fun p => size (front ++ p.1) :=
  findText?_octets (List.cons_ne_nil _ _) front rest

theorem findText?_closeTag (h : cut? (openTag tag) rest = some (before, after)) (front : List Char) :
    findText? (octets (front ++ rest)) (octets (closeTag tag)) (size (front ++ before)) =
      (cut? (closeTag tag) (rest.drop before.length)).map fun p => size (front ++ before ++ p.1) := by
  have hpage : front ++ rest = front ++ before ++ rest.drop before.length := by
    rw [eq_of_cut? h]
    simp
  rw [hpage]
  exact findText?_octets (List.cons_ne_nil _ _) (front ++ before) (rest.drop before.length)

theorem readOctets_of_not_open (h : cut? (openTag tag) rest = none) (front : List Char) :
    readOctets tag (octets (front ++ rest)) (size front) = .ok [] := by
  have hopens := findText?_openTag tag front rest
  rw [h] at hopens
  rw [readOctets]
  split
  · split
    · rfl
    · next he => rw [hopens] at he; cases he
  · rfl

theorem readOctets_of_not_closed (h : cut? (openTag tag) rest = some (before, after))
    (h' : cut? (closeTag tag) (rest.drop before.length) = none) (front : List Char) :
    readOctets tag (octets (front ++ rest)) (size front) = .ok [] := by
  have hopens := findText?_openTag tag front rest
  have hcloses := findText?_closeTag h front
  rw [h] at hopens
  rw [h'] at hcloses
  rw [readOctets]
  split
  · split
    · rfl
    · next he =>
      rw [hopens] at he
      cases he
      split
      · rfl
      · next he => rw [hcloses] at he; cases he
  · rfl

theorem readOctets_of_closed (h : cut? (openTag tag) rest = some (before, after))
    (h' : cut? (closeTag tag) (rest.drop before.length) = some (inner, after')) (front : List Char) :
    readOctets tag (octets (front ++ rest)) (size front) = (do
      let record ← scanOctets (octets (front ++ rest)) (size (front ++ before ++ inner))
        (size (front ++ before)) []
      let records ← readOctets tag (octets (front ++ rest)) (size (front ++ before ++ inner))
      return record :: records) := by
  have hopens := findText?_openTag tag front rest
  have hcloses := findText?_closeTag h front
  rw [h] at hopens
  rw [h'] at hcloses
  have hin : size front < (octets (front ++ rest)).length := by
    have hrest : 0 < rest.length := by
      have := length_of_cut? h
      simp only [openTag, List.length_append, List.length_cons] at this
      omega
    exact size_lt_size (List.prefix_append front rest) (by simpa using hrest)
  rw [readOctets, if_pos hin]
  split
  · next he => rw [hopens] at he; cases he
  · next he =>
    rw [hopens] at he
    cases he
    split
    · next he => rw [hcloses] at he; cases he
    · next he =>
      rw [hcloses] at he
      cases he
      rfl

/-- The readers agree on a page. -/
theorem agrees_read (tag front rest : List Char) (offset : Nat) :
    Agrees (List.map formOf) (scans tag offset rest) (readOctets tag (octets (front ++ rest)) (size front)) := by
  induction hl : rest.length using Nat.strongRecOn generalizing front rest offset with
  | _ n ih =>
  subst hl
  cases h : cut? (openTag tag) rest with
  | none =>
      rw [scans, sections_of_not_open offset h, readOctets_of_not_open h]
      exact Agrees.ok []
  | some p =>
  obtain ⟨before, after⟩ := p
  cases h' : cut? (closeTag tag) (rest.drop before.length) with
  | none =>
      rw [scans, sections_of_not_closed offset h h', readOctets_of_not_closed h h']
      exact Agrees.ok []
  | some p' =>
  obtain ⟨inner, after'⟩ := p'
  rw [scans, sections_of_closed offset h h', List.mapM_cons, readOctets_of_closed h h']
  have hrest := eq_of_cut? h
  have hrecord := eq_of_cut? h'
  refine Agrees.cons ?_ ?_
  · have hpage : front ++ rest = (front ++ before) ++ rest.drop before.length := by
      rw [hrest]
      simp
    dsimp only
    rw [hpage, Nat.add_sub_cancel_left]
    refine agrees_scan (fun c hc => ?_) ?_ ?_ ?_
    · rw [hrest, List.append_assoc, List.drop_left] at hc
      exact .inl (Option.some.inj hc).symm
    · rw [hrecord, List.append_assoc, List.length_append]
      exact Nat.le_add_right _ _
    · rw [hrecord, List.append_assoc, List.drop_left]
      simp [closeTag]
    · rw [hrecord, List.append_assoc inner, List.take_left, size_append, Nat.add_sub_cancel_left]
  · have hpage : front ++ rest = front ++ before ++ inner ++ (rest.drop before.length).drop inner.length := by
      have hinner : inner ++ (rest.drop before.length).drop inner.length = rest.drop before.length := by
        rw [hrecord]
        simp
      rw [List.append_assoc (front ++ before), hinner, hrest]
      simp
    rw [hpage]
    exact ih _ (length_section_lt h h') _ _ _ rfl

/-! ## Which pages are read -/

theorem two_lt_of_readsAsClosing {page : List Char} {start stop : Nat} (h : ReadsAsClosing tag)
    (ho : StandsAt (openTag tag) page start) (hc : StandsAt (closeTag tag) page stop) (hle : start ≤ stop) :
    2 < stop - start := by
  obtain ⟨attrs, rfl⟩ := h.prefix
  obtain ⟨rest, hr⟩ := ho
  obtain ⟨k, rfl⟩ := Nat.exists_eq_add_of_le hle
  rw [StandsAt, ← List.drop_drop, ← hr] at hc
  -- The first three characters of the opening tag are not those of a closing one.
  have hne : k ≠ 0 ∧ k ≠ 1 ∧ k ≠ 2 := by
    refine ⟨?_, ?_, ?_⟩ <;> rintro rfl <;> simp [openTag, closeTag] at hc
  omega

variable {page : List Char} {part : Span × List Char}

/-- A section is the page from an opening tag on, and a closing tag stands at its end. -/
theorem standsAt_of_mem_sections (h : part ∈ sections tag 0 page) : part.2 = page.drop part.1.start ∧
    StandsAt (openTag tag) page part.1.start ∧ StandsAt (closeTag tag) page part.1.stop ∧
      part.1.start ≤ part.1.stop := by
  have hspan : part.1 ∈ spans tag page := List.mem_map_of_mem h
  obtain ⟨i, hi, he⟩ := List.getElem_of_mem hspan
  obtain ⟨hopens, hcloses⟩ := (follow_spans tag page).getElem hi
  rw [he] at hopens hcloses
  exact ⟨(follow_sections tag page 0).2 part h, hopens.standsAt, hcloses.standsAt, hcloses.le⟩

/-- A record cannot be read exactly if its opening tag reads as a closing one. -/
theorem scan_section_eq_error_iff (h : part ∈ sections tag 0 page) :
    (∃ fault, scan (part.1.stop - part.1.start) part.2 [] = .error fault) ↔ ReadsAsClosing tag := by
  obtain ⟨hrecord, hopens, hcloses, hle⟩ := standsAt_of_mem_sections h
  obtain ⟨rest, hr⟩ := id hopens
  rw [hrecord, ← hr, scan_eq_error_iff]
  exact and_iff_left_of_imp fun ht => two_lt_of_readsAsClosing ht hopens hcloses hle

/-- The closing tag of a record ends each tag that begins in the record. -/
theorem stop_of_section {found : List Leaf × Stop} (h : part ∈ sections tag 0 page)
    (hf : scan (part.1.stop - part.1.start) part.2 [] = .ok found) : found.2 ≠ .unterminated := by
  obtain ⟨hrecord, -, hcloses, hle⟩ := standsAt_of_mem_sections h
  obtain ⟨rest, hr⟩ := hcloses
  refine stop_ne_unterminated ?_ hf
  rw [hrecord, List.drop_drop, Nat.add_sub_cancel' hle, ← hr]
  simp [closeTag]

theorem exists_mapM_eq_ok {α β ε : Type} {f : α → Except ε β} {as : List α}
    (h : ∀ a ∈ as, ∃ b, f a = .ok b) : ∃ bs, as.mapM f = .ok bs := by
  induction as with
  | nil => exact ⟨[], rfl⟩
  | cons a as ih =>
      obtain ⟨⟨b, hb⟩, has⟩ := List.forall_mem_cons.1 h
      obtain ⟨bs, hbs⟩ := ih has
      exact ⟨b :: bs, by rw [List.mapM_cons, hb, hbs]; rfl⟩

theorem exists_scans_eq_ok (h : ¬ (ReadsAsClosing tag ∧ spans tag page ≠ [])) :
    ∃ found, scans tag 0 page = .ok found ∧ found.length = (spans tag page).length ∧
      ∀ f ∈ found, f.2 ≠ .unterminated := by
  obtain ⟨found, hfound⟩ : ∃ found, scans tag 0 page = .ok found := by
    refine exists_mapM_eq_ok fun part hp => ?_
    have hne : spans tag page ≠ [] := List.ne_nil_of_mem (List.mem_map_of_mem hp)
    cases hscan : scan (part.1.stop - part.1.start) part.2 [] with
    | ok found => exact ⟨found, hscan⟩
    | error fault => exact absurd ⟨(scan_section_eq_error_iff hp).1 ⟨fault, hscan⟩, hne⟩ h
  have hforall := mapM_eq_ok.1 hfound
  refine ⟨found, hfound, ?_, fun f hf => ?_⟩
  · rw [← hforall.length_eq, spans, List.length_map]
  · obtain ⟨i, hi, rfl⟩ := List.getElem_of_mem hf
    have hi' : i < (sections tag 0 page).length := hforall.length_eq ▸ hi
    exact stop_of_section (List.getElem_mem hi') (hforall.get hi' hi)

theorem scans_eq_error (h : ReadsAsClosing tag) (hne : spans tag page ≠ []) :
    scans tag 0 page = .error .noTextBefore := by
  cases hs : sections tag 0 page with
  | nil => exact absurd (by rw [spans, hs]; rfl) hne
  | cons part parts =>
      obtain ⟨fault, hf⟩ := (scan_section_eq_error_iff (by rw [hs]; exact List.mem_cons_self)).2 h
      cases fault
      rw [scans, hs, List.mapM_cons]
      dsimp only
      rw [hf]
      rfl

end FeedFiler.Markup

namespace FeedFiler.MarkupParser
open Markup Text

theorem leavesOf_eq (p : MarkupParser) (page : List Char) :
    p.leavesOf page = (scans p.tagRecord.toList 0 page).map (List.map Prod.fst) := by
  rw [scans, ← mapM_except_map]
  rfl

/-- **Every access of the reader is allowed unless the record's opening tag reads as a closing one.** Read by
its octets, with each of them and each slice checked, a payload's page then gives the same leaves as by its
characters, and the records of these leaves, one for each span; and each tag that begins in a record has an
end. A page with a record whose opening tag reads as a closing one is not read: the text in front of the tag
would end before it begins. -/
theorem parse_checked (p : MarkupParser) (payload : ByteArray) :
    (¬ (ReadsAsClosing p.tagRecord.toList ∧ p.spans (decodeLossy payload.toList) ≠ []) →
      ∃ found : List (List Leaf × Stop),
        readOctets p.tagRecord.toList (octets (decodeLossy payload.toList)) 0 = .ok (found.map formOf) ∧
        (∀ f ∈ found, f.2 ≠ .unterminated) ∧
        found.length = (p.spans (decodeLossy payload.toList)).length ∧
        p.parse payload = .ok (found.map fun f => p.recordOf f.1)) ∧
    (ReadsAsClosing p.tagRecord.toList ∧ p.spans (decodeLossy payload.toList) ≠ [] →
      ∃ i, readOctets p.tagRecord.toList (octets (decodeLossy payload.toList)) 0 =
          .error (.slice (i + 1) i) ∧
        p.parse payload = .error .noTextBefore) := by
  have hagrees := agrees_read p.tagRecord.toList [] (decodeLossy payload.toList) 0
  rw [List.nil_append, size_nil] at hagrees
  refine ⟨fun h => ?_, fun ⟨ht, hs⟩ => ?_⟩
  · obtain ⟨found, hfound, hlen, hstops⟩ := exists_scans_eq_ok h
    rw [hfound] at hagrees
    generalize hread : readOctets _ _ _ = read at hagrees
    cases hagrees
    refine ⟨found, rfl, hstops, hlen, ?_⟩
    rw [parse, parseText_eq, leavesOf_eq, hfound]
    simp [Except.map]
  · have herror := scans_eq_error ht hs
    rw [herror] at hagrees
    generalize hread : readOctets _ _ _ = read at hagrees
    cases hagrees with
    | fault fault i =>
        refine ⟨i, rfl, ?_⟩
        rw [parse, parseText_eq, leavesOf_eq, herror]
        rfl

/-- A record with characters of several octets. -/
def snowPayload : ByteArray := "é<r><☃ á='>'>é</☃></r>☃".toUTF8

theorem parse_checked_snow : ∃ found r,
    readOctets ['r'] (octets (decodeLossy snowPayload.toList)) 0 = .ok [formOf found] ∧
      found.2 ≠ .unterminated ∧ parse { tagRecord := "r" } snowPayload = .ok [r] := by
  have hclosing : ¬ ReadsAsClosing ['r'] := by decide
  have hlen : (spans { tagRecord := "r" } (decodeLossy snowPayload.toList)).length = 1 := by decide +kernel
  obtain ⟨found, hread, hstops, hfound, hparse⟩ :=
    (parse_checked { tagRecord := "r" } snowPayload).1 fun h => hclosing h.1
  rw [hlen] at hfound
  obtain ⟨found, rfl⟩ := List.length_eq_one_iff.1 hfound
  exact ⟨found, _, hread, hstops found List.mem_cons_self, hparse⟩

/-- A feed whose record tag begins with a slash and a blank. -/
def slashEntry : FeedEntry where
  feedType := "feed_xml_flat"
  address := "a"
  tagRecord := some "/ x"

/-- Such a feed passes every check of its configuration and cannot read a page with a record. -/
theorem slashEntry_not_read : slashEntry.validate "f" = .ok () ∧
    ∃ p, ofEntry "f" slashEntry = .ok p ∧
      p.parse "</ x>1<// x>".toUTF8 = .error .noTextBefore ∧
      readOctets p.tagRecord.toList (octets (decodeLossy "</ x>1<// x>".toUTF8.toList)) 0 =
        .error (.slice 1 0) := by
  refine ⟨rfl, _, rfl, ?_, ?_⟩
  · decide +kernel
  · decide +kernel

end FeedFiler.MarkupParser
