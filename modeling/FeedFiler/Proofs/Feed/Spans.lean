import Mathlib.Data.List.Forall2
import Mathlib.Data.List.Infix
import FeedFiler.Proofs.Feed.Scan

/-!
# Records of a page

The spans of a page are where its records are, and a record is read off its own span: what stands
around it in the page makes no difference.
-/

namespace FeedFiler.Markup
open Text

variable {tag page mark s before after : List Char}

/-! ## Spans that follow one another -/

/-- The first place of a mark at or after `start`. -/
structure FirstFrom (mark s : List Char) (start i : Nat) : Prop where
  le : start ≤ i
  standsAt : StandsAt mark s i
  not_before : ∀ j, start ≤ j → j < i → ¬ StandsAt mark s j

theorem firstFrom_of_cut? {start : Nat} (h : cut? mark (s.drop start) = some (before, after)) :
    FirstFrom mark s start (start + before.length) where
  le := Nat.le_add_right _ _
  standsAt := standsAt_drop.1 (standsAt_of_cut? h)
  not_before := by
    intro j hs hj
    obtain ⟨k, rfl⟩ := Nat.exists_eq_add_of_le hs
    intro hm
    exact not_standsAt_of_cut? h (by omega) (standsAt_drop.2 hm)

/-- The spans of a page from a place on: each begins at the first opening tag and ends at the first
closing tag, and no record stands behind the last one. -/
inductive Follow (tag page : List Char) : Nat → List Span → Prop where
  | done {start : Nat} (h : ∀ i j, start ≤ i → i ≤ j → StandsAt (openTag tag) page i →
      ¬ StandsAt (closeTag tag) page j) : Follow tag page start []
  | next {start : Nat} {span : Span} {spans : List Span}
      (opens : FirstFrom (openTag tag) page start span.start)
      (closes : FirstFrom (closeTag tag) page span.start span.stop)
      (others : Follow tag page span.stop spans) : Follow tag page start (span :: spans)

theorem follow_sections (tag page : List Char) (start : Nat) :
    Follow tag page start ((sections tag start (page.drop start)).map (·.1)) ∧
      ∀ p ∈ sections tag start (page.drop start), p.2 = page.drop p.1.start := by
  induction hl : (page.drop start).length using Nat.strongRecOn generalizing start with
  | _ n ih =>
      subst hl
      cases h : cut? (openTag tag) (page.drop start) with
      | none =>
          rw [sections_of_not_open start h]
          refine ⟨.done fun i j hi _ ho => ?_, nofun⟩
          obtain ⟨k, rfl⟩ := Nat.exists_eq_add_of_le hi
          exact absurd (standsAt_drop.2 ho) (cut?_eq_none_iff.1 h k)
      | some p =>
          obtain ⟨before, after⟩ := p
          have hopen := firstFrom_of_cut? h
          cases h' : cut? (closeTag tag) ((page.drop start).drop before.length) with
          | none =>
              rw [sections_of_not_closed start h h']
              refine ⟨.done fun i j hi hij ho hc => ?_, nofun⟩
              -- an opening tag stands at `i`, so the first one stands no later
              have hb : start + before.length ≤ i :=
                Nat.le_of_not_lt fun hb => hopen.not_before i hi hb ho
              rw [List.drop_drop] at h'
              obtain ⟨k, rfl⟩ := Nat.exists_eq_add_of_le (Nat.le_trans hb hij)
              exact cut?_eq_none_iff.1 h' k (standsAt_drop.2 hc)
          | some p' =>
              obtain ⟨inner, after'⟩ := p'
              have hlt := length_section_lt h h'
              rw [sections_of_closed start h h']
              simp only [List.drop_drop] at h' hlt ⊢
              obtain ⟨hf, hr⟩ := ih _ hlt _ rfl
              refine ⟨.next hopen (firstFrom_of_cut? h') hf, ?_⟩
              intro p hp
              rcases List.mem_cons.1 hp with rfl | hp
              · rfl
              · exact hr p hp

theorem follow_spans (tag page : List Char) : Follow tag page 0 (spans tag page) :=
  (follow_sections tag page 0).1

/-! ## What follows from the order of the spans -/

theorem start_lt_stop {span : Span} {start : Nat}
    (opens : FirstFrom (openTag tag) page start span.start)
    (closes : FirstFrom (closeTag tag) page span.start span.stop) : span.start < span.stop := by
  refine Nat.lt_of_le_of_ne closes.le fun he => ?_
  have hc := closes.standsAt
  rw [← he] at hc
  exact not_closeTag_of_openTag opens.standsAt hc

theorem stop_lt_start {stop next : Nat} (closes : StandsAt (closeTag tag) page stop)
    (opens : FirstFrom (openTag tag) page stop next) : stop < next := by
  refine Nat.lt_of_le_of_ne opens.le fun he => ?_
  rw [he] at closes
  exact not_closeTag_of_openTag opens.standsAt closes

theorem stop_lt_length {stop : Nat} (h : StandsAt (closeTag tag) page stop) : stop < page.length := by
  have := h.length_le
  simp only [closeTag, List.length_drop, List.length_cons, List.length_append] at this
  omega

namespace Follow

variable {start : Nat} {all : List Span}

/-- Each span begins at the first opening tag after the span before, and ends at the first closing
tag. -/
theorem getElem (h : Follow tag page start all) {i : Nat} (hi : i < all.length) :
    FirstFrom (openTag tag) page ((start :: all.map Span.stop).getD i 0) all[i].start ∧
      FirstFrom (closeTag tag) page all[i].start all[i].stop := by
  induction h generalizing i with
  | done => exact absurd hi (Nat.not_lt_zero i)
  | next opens closes _ ih =>
      cases i with
      | zero => exact ⟨opens, closes⟩
      | succ i => exact ih (Nat.lt_of_succ_lt_succ hi)

theorem stop_lt_start (h : Follow tag page start all) {i : Nat} (hi : i + 1 < all.length) :
    all[i].stop < all[i + 1].start := by
  induction h generalizing i with
  | done => exact absurd hi (Nat.not_lt_zero _)
  | next _ closes others ih =>
      cases i with
      | zero =>
          cases others with
          | done => exact absurd hi (Nat.lt_irrefl 1)
          | next opens _ _ => exact Markup.stop_lt_start closes.standsAt opens
      | succ i => exact ih (Nat.lt_of_succ_lt_succ hi)

theorem length_le (h : Follow tag page start all) (hs : start ≤ page.length) :
    start + all.length ≤ page.length := by
  induction h with
  | done => exact hs
  | next opens closes _ ih =>
      have := start_lt_stop opens closes
      have := ih (Nat.le_of_lt (stop_lt_length closes.standsAt))
      have := opens.le
      rw [List.length_cons]
      omega

/-- An opening tag begins a record, stands in one, or has no closing tag behind it. -/
theorem covers (h : Follow tag page start all) {i : Nat} (hi : start ≤ i)
    (ho : StandsAt (openTag tag) page i) :
    (∃ span ∈ all, i = span.start ∨ span.start < i ∧ i < span.stop) ∨
      ∀ j, i ≤ j → ¬ StandsAt (closeTag tag) page j := by
  induction h with
  | done h => exact .inr fun j hj => h i j hi hj ho
  | @next start span spans opens closes _ ih =>
      rcases Nat.lt_trichotomy i span.stop with hlt | rfl | hgt
      · have hs : span.start ≤ i := Nat.le_of_not_lt fun hs => opens.not_before i hi hs ho
        left
        refine ⟨span, List.mem_cons_self, ?_⟩
        omega
      · exact absurd closes.standsAt (not_closeTag_of_openTag ho)
      · rcases ih (Nat.le_of_lt hgt) with ⟨s, hs, hi⟩ | hn
        · exact .inl ⟨s, List.mem_cons_of_mem span hs, hi⟩
        · exact .inr hn

end Follow

/-! ## A record is read off its span -/

/-- The page cut down to a span and the closing tag behind it. -/
def Span.cut (tag page : List Char) (span : Span) : List Char :=
  (page.drop span.start).take (span.stop - span.start + (closeTag tag).length)

theorem not_standsAt_closeTag (tag : List Char) (i : Nat) :
    ¬ StandsAt (openTag tag) (closeTag tag) i := by
  intro h
  match i with
  | 0 => exact not_closeTag_of_openTag h (List.prefix_refl _)
  | 1 => exact absurd (List.cons_prefix_cons.1 h).1 (by decide)
  | i + 2 =>
      have := h.length_le
      simp only [openTag, closeTag, List.length_drop, List.length_cons, List.length_append] at this
      omega

section
variable {span : Span} (ho : StandsAt (openTag tag) page span.start)
  (hc : FirstFrom (closeTag tag) page span.start span.stop)
include hc

theorem Span.cut_eq : span.cut tag page =
    (page.drop span.start).take (span.stop - span.start) ++ closeTag tag := by
  obtain ⟨rest, hr⟩ := hc.standsAt
  have hd : (page.drop span.start).drop (span.stop - span.start) = closeTag tag ++ rest := by
    rw [List.drop_drop, Nat.add_sub_cancel' hc.le, hr]
  rw [Span.cut, List.take_add, hd, List.take_left]

theorem Span.length_take :
    ((page.drop span.start).take (span.stop - span.start)).length = span.stop - span.start := by
  have := stop_lt_length hc.standsAt
  simp only [List.length_take, List.length_drop]
  omega

theorem Span.scan_cut (current : List Char) :
    scan (span.stop - span.start) (span.cut tag page) current =
      scan (span.stop - span.start) (page.drop span.start) current := by
  have hl : (span.cut tag page).getLast? = some '>' := by
    rw [span.cut_eq hc, closeTag, ← List.append_assoc, List.getLast?_concat]
  have hr : span.stop - span.start < (span.cut tag page).length := by
    rw [span.cut_eq hc, List.length_append, span.length_take hc, closeTag]
    simp
  have ha := scan_append hl hr
    ((page.drop span.start).drop (span.stop - span.start + (closeTag tag).length)) current
  rw [Span.cut, List.take_append_drop] at ha
  exact ha.symm

include ho

/-- A page cut down to a span is one record. -/
theorem Span.sections_cut : sections tag 0 (span.cut tag page) =
    [(⟨0, span.stop - span.start⟩, span.cut tag page)] := by
  have hlen := span.length_take hc
  have hlt : span.start < span.stop := by
    refine Nat.lt_of_le_of_ne hc.le fun he => not_closeTag_of_openTag ho ?_
    rw [he]
    exact hc.standsAt
  have ho' : StandsAt (openTag tag) (span.cut tag page) 0 := by
    refine List.prefix_of_prefix_length_le ho (List.take_prefix _ _) ?_
    show _ ≤ (span.cut tag page).length
    rw [span.cut_eq hc]
    simp only [List.length_append, openTag, closeTag, List.length_cons, hlen]
    omega
  have hc' : StandsAt (closeTag tag) (span.cut tag page) (span.stop - span.start) := by
    rw [StandsAt, span.cut_eq hc, List.drop_left' hlen]
  have hn : ∀ j, j < span.stop - span.start → ¬ StandsAt (closeTag tag) (span.cut tag page) j := by
    intro j hj h
    refine hc.not_before (span.start + j) (Nat.le_add_right _ _) (by omega) (standsAt_drop.1 ?_)
    exact h.trans (List.IsPrefix.drop (List.take_prefix _ _) j)
  rw [sections_of_closed 0 (cut?_of_first ho' (by simp)) (cut?_of_first hc' hn)]
  have hd : (span.cut tag page).drop (span.stop - span.start) = closeTag tag := by
    rw [span.cut_eq hc, List.drop_left' hlen]
  have ht : ((span.cut tag page).take (span.stop - span.start)).length = span.stop - span.start := by
    rw [span.cut_eq hc, List.take_left' hlen, hlen]
  simp only [List.take_zero, List.length_nil, List.drop_zero, Nat.add_zero, Nat.zero_add, ht, hd]
  rw [sections_of_not_open _ (cut?_eq_none_iff.2 (not_standsAt_closeTag tag))]

end

end FeedFiler.Markup

namespace FeedFiler

theorem mapM_eq_ok {α β ε : Type} {f : α → Except ε β} {as : List α} {bs : List β} :
    as.mapM f = .ok bs ↔ List.Forall₂ (fun a b => f a = .ok b) as bs := by
  induction as generalizing bs with
  | nil => cases bs <;> simp [pure, Except.pure]
  | cons a as ih =>
      rw [List.mapM_cons, List.forall₂_cons_left_iff]
      cases ha : f a with
      | error e => simp [bind, Except.bind]
      | ok b =>
          cases has : as.mapM f with
          | error e =>
              simp only [has, reduceCtorEq, false_iff] at ih
              simp [bind, Except.bind, ih]
          | ok bs' => simp [bind, Except.bind, pure, Except.pure, ← ih, has, eq_comm]

namespace MarkupParser
open Markup Text

variable (p : MarkupParser) (page : List Char)

/-- The tag that opens a record. -/
def opening : List Char := openTag p.tagRecord.toList

/-- The tag that closes a record. -/
def closing : List Char := closeTag p.tagRecord.toList

/-- The spans of the records of a page. -/
def spans : List Span := Markup.spans p.tagRecord.toList page

/-- The record of a span is the only one of the page cut down to the span. -/
theorem parseText_cut {rs : List Record} (h : p.parseText page = .ok rs) {i : Nat}
    (hi : i < (p.spans page).length) (hr : i < rs.length) :
    p.parseText ((p.spans page)[i].cut p.tagRecord.toList page) = .ok [rs[i]] := by
  have hs : i < (sections p.tagRecord.toList 0 page).length := by
    simpa [spans, Markup.spans] using hi
  have hspan : (p.spans page)[i] = (sections p.tagRecord.toList 0 page)[i].1 := by
    simp [spans, Markup.spans]
  have hrecord : (sections p.tagRecord.toList 0 page)[i].2 = page.drop (p.spans page)[i].start := by
    rw [hspan]
    exact (follow_sections p.tagRecord.toList page 0).2 _ (List.getElem_mem hs)
  have hread := (mapM_eq_ok.1 h).get hs hr
  simp only [List.get_eq_getElem, leaves, hrecord, ← hspan] at hread
  obtain ⟨ho, hc⟩ := (follow_spans p.tagRecord.toList page).getElem hi
  have ho' : StandsAt (openTag p.tagRecord.toList) page (p.spans page)[i].start := ho.standsAt
  have hc' : FirstFrom (closeTag p.tagRecord.toList) page (p.spans page)[i].start
      (p.spans page)[i].stop := hc
  refine mapM_eq_ok.2 ?_
  rw [Span.sections_cut ho' hc']
  refine .cons ?_ .nil
  simp only [leaves, Nat.sub_zero]
  rw [Span.scan_cut hc']
  exact hread

/-- **A page is cut into records that do not reach into each other.** Whatever the tag of the records
and the page are: each record begins at the first opening tag behind the record before and ends at the
first closing tag from there on, every opening tag begins a record, stands in one or has no closing tag
behind it, and each record is the one record of the page cut down to its span. -/
theorem records_apart :
    (p.spans page).length ≤ page.length ∧
    (∀ (i : Nat) (hi : i < (p.spans page).length),
      FirstFrom p.opening page ((0 :: (p.spans page).map Span.stop).getD i 0)
        (p.spans page)[i].start ∧
      FirstFrom p.closing page (p.spans page)[i].start (p.spans page)[i].stop ∧
      (p.spans page)[i].start < (p.spans page)[i].stop ∧
      ∀ hj : i + 1 < (p.spans page).length, (p.spans page)[i].stop < (p.spans page)[i + 1].start) ∧
    (∀ i, StandsAt p.opening page i →
      (∃ span ∈ p.spans page, i = span.start ∨ span.start < i ∧ i < span.stop) ∨
        ∀ j, i ≤ j → ¬ StandsAt p.closing page j) ∧
    ∀ rs, p.parseText page = .ok rs → rs.length = (p.spans page).length ∧
      ∀ (i : Nat) (hi : i < (p.spans page).length) (hr : i < rs.length),
        p.parseText ((p.spans page)[i].cut p.tagRecord.toList page) = .ok [rs[i]] := by
  have hf := follow_spans p.tagRecord.toList page
  refine ⟨?_, ?_, ?_, ?_⟩
  · have := hf.length_le (Nat.zero_le _)
    rw [Nat.zero_add] at this
    exact this
  · intro i hi
    obtain ⟨ho, hc⟩ := hf.getElem hi
    exact ⟨ho, hc, start_lt_stop ho hc, fun hj => hf.stop_lt_start hj⟩
  · intro i ho
    exact hf.covers (Nat.zero_le i) ho
  · intro rs h
    refine ⟨?_, fun i hi hr => p.parseText_cut page h hi hr⟩
    rw [← (mapM_eq_ok.1 h).length_eq]
    simp [spans, Markup.spans]

/-- A page with two records; the second has an opening tag in it, and one is never closed. -/
def pairPage : List Char := "<r><a>1</a></r>,<r><r></r><r>".toList

theorem records_apart_pair :
    ∃ r r', MarkupParser.parseText { tagRecord := "r" } pairPage = .ok [r, r'] ∧
      MarkupParser.parseText { tagRecord := "r" } "<r><a>1</a></r>".toList = .ok [r] ∧
      MarkupParser.parseText { tagRecord := "r" } "<r><r></r>".toList = .ok [r'] := by
  have hs : MarkupParser.spans { tagRecord := "r" } pairPage = [⟨0, 11⟩, ⟨16, 22⟩] := by
    decide +kernel
  cases h : MarkupParser.parseText { tagRecord := "r" } pairPage with
  | error fault => exact absurd h (by cases fault; decide +kernel)
  | ok rs =>
      obtain ⟨-, -, -, hrs⟩ := records_apart { tagRecord := "r" } pairPage
      obtain ⟨hlen, hcut⟩ := hrs rs h
      simp only [hs, List.length_cons, List.length_nil] at hlen hcut
      match rs, hlen with
      | [r, r'], _ => exact ⟨r, r', rfl, hcut 0 (by decide) (by simp), hcut 1 (by decide) (by simp)⟩

end MarkupParser

end FeedFiler
