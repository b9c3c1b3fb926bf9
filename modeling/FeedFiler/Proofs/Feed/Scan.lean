import FeedFiler.Feed.Markup
import FeedFiler.Proofs.Text.Cut

/-!
# The readers of a page, step by step

What the search for records and the scan of a record do next, for each thing that they may meet.
-/

namespace FeedFiler.Markup
open Text

variable {tag rest s before after inner after' : List Char}

/-! ## One section -/

theorem sections_of_not_open (offset : Nat) (h : cut? (openTag tag) rest = none) :
    sections tag offset rest = [] := by
  rw [sections]
  split
  · rfl
  · next hc => rw [h] at hc; cases hc

theorem sections_of_not_closed (offset : Nat) (h : cut? (openTag tag) rest = some (before, after))
    (h' : cut? (closeTag tag) (rest.drop before.length) = none) : sections tag offset rest = [] := by
  rw [sections]
  split
  · rfl
  · next hc =>
      rw [h] at hc
      cases hc
      dsimp only
      split
      · rfl
      · next hc' => rw [h'] at hc'; cases hc'

theorem sections_of_closed (offset : Nat) (h : cut? (openTag tag) rest = some (before, after))
    (h' : cut? (closeTag tag) (rest.drop before.length) = some (inner, after')) :
    sections tag offset rest =
      (⟨offset + before.length, offset + before.length + inner.length⟩, rest.drop before.length) ::
        sections tag (offset + before.length + inner.length)
          ((rest.drop before.length).drop inner.length) := by
  rw [sections]
  split
  · next hc => rw [h] at hc; cases hc
  · next hc =>
      rw [h] at hc
      cases hc
      dsimp only
      split
      · next hc' => rw [h'] at hc'; cases hc'
      · next hc' =>
          rw [h'] at hc'
          cases hc'
          rfl

/-! ## One tag of a scan -/

/-- The name of a tag, up to the first space. -/
def nameOf (inner : List Char) : List Char := inner.takeWhile (· ≠ ' ')

/-- What a scan finds that meets a tag, given what it finds behind the tag. -/
def onTag (room : Nat) (before inner current : List Char)
    (next : Except Fault (List Leaf × Stop)) : Except Fault (List Leaf × Stop) :=
  if inner.getLast? = some '/' then .ok ([], .selfClosed)
  else if room ≤ before.length + 1 + (nameOf inner).length then .ok ([], .finished)
  else if nameOf inner = '/' :: current then
    match before with
    | [] => .error .noTextBefore
    | _ :: text => next.map fun (leaves, stop) => (⟨current, text⟩ :: leaves, stop)
  else next

variable {room : Nat}

theorem scan_of_notMem (room : Nat) (h : '<' ∉ s) (current : List Char) :
    scan room s current = .ok ([], .finished) := by
  have hc := cut?_char_eq_none h
  rw [scan]
  split
  · rfl
  · next he => rw [hc] at he; cases he

theorem scan_of_le (h : cut? ['<'] s = some (before, after)) (hr : room ≤ before.length)
    (current : List Char) : scan room s current = .ok ([], .finished) := by
  rw [scan]
  split
  · rfl
  · next he =>
      rw [h] at he
      cases he
      rw [if_pos hr]

theorem scan_of_unterminated (h : cut? ['<'] s = some (before, after)) (hr : before.length < room)
    (h' : cut? ['>'] after = none) (current : List Char) :
    scan room s current = .ok ([], .unterminated) := by
  rw [scan]
  split
  · next he => rw [h] at he; cases he
  · next he =>
      rw [h] at he
      cases he
      rw [if_neg (Nat.not_le.2 hr)]
      split
      · rfl
      · next he => rw [h'] at he; cases he

theorem scan_of_tag (h : cut? ['<'] s = some (before, after)) (hr : before.length < room)
    (h' : cut? ['>'] after = some (inner, after')) (current : List Char) :
    scan room s current = onTag room before inner current
      (scan (room - (before.length + 1 + inner.length)) ('>' :: after') (nameOf inner)) := by
  rw [scan]
  split
  · next he => rw [h] at he; cases he
  · next he =>
      rw [h] at he
      cases he
      rw [if_neg (Nat.not_le.2 hr)]
      split
      · next he => rw [h'] at he; cases he
      · next he =>
          rw [h'] at he
          cases he
          cases before <;> rfl

/-- A scan ends at once, or the next tag begins within the record and has no end, or it has one. -/
theorem scan_cases (room : Nat) (s current : List Char) :
    '<' ∉ s.take room ∧ scan room s current = .ok ([], .finished) ∨
    (∃ before after, s = before ++ '<' :: after ∧ before.length < room ∧ '>' ∉ after ∧
      scan room s current = .ok ([], .unterminated)) ∨
    ∃ before inner after', s = before ++ '<' :: (inner ++ '>' :: after') ∧ '<' ∉ before ∧ '>' ∉ inner ∧
      before.length < room ∧ scan room s current = onTag room before inner current
        (scan (room - (before.length + 1 + inner.length)) ('>' :: after') (nameOf inner)) := by
  by_cases hm : '<' ∈ s
  · obtain ⟨before, after, hc⟩ := cut?_char_of_mem hm
    have hs : s = before ++ '<' :: after := by simpa using eq_of_cut? hc
    by_cases hr : room ≤ before.length
    · refine .inl ⟨fun ht => notMem_of_cut?_char hc ?_, scan_of_le hc hr current⟩
      rw [hs, List.take_append_of_le_length hr] at ht
      exact List.mem_of_mem_take ht
    by_cases hi : '>' ∈ after
    · obtain ⟨inner, after', hc'⟩ := cut?_char_of_mem hi
      have ha : after = inner ++ '>' :: after' := by simpa using eq_of_cut? hc'
      exact .inr (.inr ⟨before, inner, after', ha ▸ hs, notMem_of_cut?_char hc, notMem_of_cut?_char hc',
        Nat.not_le.1 hr, scan_of_tag hc (Nat.not_le.1 hr) hc' current⟩)
    · exact .inr (.inl ⟨before, after, hs, Nat.not_le.1 hr, hi,
        scan_of_unterminated hc (Nat.not_le.1 hr) (cut?_char_eq_none hi) current⟩)
  · exact .inl ⟨fun ht => hm (List.mem_of_mem_take ht), scan_of_notMem room hm current⟩

/-- What a tag adds to what is found behind it: nothing, with the end of the scan, or at most a leaf. -/
theorem onTag_eq_ok {next : Except Fault (List Leaf × Stop)} {leaves : List Leaf} {stop : Stop}
    (h : onTag room before inner current next = .ok (leaves, stop)) :
    (leaves = [] ∧ stop ≠ .unterminated) ∨
    inner.getLast? ≠ some '/' ∧ before.length + 1 + (nameOf inner).length < room ∧
      (next = .ok (leaves, stop) ∨ ∃ c text others, before = c :: text ∧ nameOf inner = '/' :: current ∧
        leaves = ⟨current, text⟩ :: others ∧ next = .ok (others, stop)) := by
  unfold onTag at h
  split at h
  · cases h
    exact .inl ⟨rfl, nofun⟩
  next hl =>
  split at h
  · cases h
    exact .inl ⟨rfl, nofun⟩
  next hr =>
  refine .inr ⟨hl, Nat.not_le.1 hr, ?_⟩
  split at h
  · next hn =>
      split at h
      · cases h
      · next c text =>
          cases next with
          | error fault => cases h
          | ok found =>
              cases h
              exact .inr ⟨c, text, found.1, rfl, hn, rfl, rfl⟩
  · exact .inl h

/-! ## How a scan ends -/

/-- A scan that goes on at the end of a tag finds no text that ends before it begins. -/
theorem exists_scan_eq_ok (room : Nat) (s current : List Char) :
    ∃ found, scan room ('>' :: s) current = .ok found := by
  induction hl : s.length using Nat.strongRecOn generalizing s room current with
  | _ n ih =>
  subst hl
  obtain ⟨-, hend⟩ | ⟨_, _, -, -, -, hend⟩ | ⟨before, inner, after', hs, -, -, -, htag⟩ :=
    scan_cases room ('>' :: s) current
  · exact ⟨_, hend⟩
  · exact ⟨_, hend⟩
  obtain ⟨c, text, rfl⟩ : ∃ c text, before = c :: text := by
    cases before with
    | nil => cases (List.cons.inj hs).1
    | cons c text => exact ⟨c, text, rfl⟩
  have hlt : after'.length < s.length := by
    have := congrArg List.length hs
    simp only [List.length_append, List.length_cons] at this
    omega
  obtain ⟨found, hnext⟩ := ih after'.length hlt (room - ((c :: text).length + 1 + inner.length)) after'
    (nameOf inner) rfl
  rw [htag, hnext, onTag]
  split
  · exact ⟨_, rfl⟩
  split
  · exact ⟨_, rfl⟩
  split
  · exact ⟨_, rfl⟩
  · exact ⟨_, rfl⟩

theorem closes_mem_drop {front : List Char} (hs : s = front ++ '>' :: after) (h : '>' ∈ s.drop room) :
    '>' ∈ ('>' :: after).drop (room - front.length) := by
  rcases Nat.le_total room front.length with hle | hle
  · rw [Nat.sub_eq_zero_of_le hle]
    exact List.mem_cons_self
  · rwa [hs, List.drop_append, List.drop_of_length_le hle, List.nil_append] at h

/-- No tag lacks an end if there is one behind the record. -/
theorem stop_ne_unterminated {leaves : List Leaf} {stop : Stop} (hm : '>' ∈ s.drop room)
    (h : scan room s current = .ok (leaves, stop)) : stop ≠ .unterminated := by
  induction hl : s.length using Nat.strongRecOn generalizing s room current leaves with
  | _ n ih =>
  subst hl
  obtain ⟨-, hend⟩ | ⟨before, after, rfl, hr, hn, -⟩ | ⟨before, inner, after', hs, -, -, -, htag⟩ :=
    scan_cases room s current
  · rw [hend] at h
    cases h
    nofun
  · obtain ⟨k, rfl⟩ := Nat.exists_eq_add_of_lt hr
    rw [Nat.add_assoc, List.drop_length_add_append, List.drop_succ_cons] at hm
    exact absurd (List.mem_of_mem_drop hm) hn
  have hs' : s = (before ++ '<' :: inner) ++ '>' :: after' := by simpa using hs
  have hmem := closes_mem_drop hs' hm
  have hlen : (before ++ '<' :: inner).length = before.length + 1 + inner.length := by
    simp only [List.length_append, List.length_cons]
    omega
  rw [hlen] at hmem
  have hlt : ('>' :: after').length < s.length := by
    rw [hs', List.length_append, hlen]
    omega
  rw [htag] at h
  obtain ⟨-, hstop⟩ | ⟨-, -, hnext | ⟨_, _, _, -, -, -, hnext⟩⟩ := onTag_eq_ok h
  · exact hstop
  · exact ih _ hlt hmem hnext rfl
  · exact ih _ hlt hmem hnext rfl

/-- The opening tag of a record reads as the closing tag of an element without a name. -/
def ReadsAsClosing (tag : List Char) : Prop :=
  nameOf (tag.takeWhile (· ≠ '>')) = ['/'] ∧ (tag.takeWhile (· ≠ '>')).getLast? ≠ some '/'

instance (tag : List Char) : Decidable (ReadsAsClosing tag) := inferInstanceAs (Decidable (_ ∧ _))

theorem ReadsAsClosing.prefix (h : ReadsAsClosing tag) : ['/', ' '] <+: tag := by
  obtain ⟨hname, hlast⟩ := h
  refine List.IsPrefix.trans ?_ (List.takeWhile_prefix (· ≠ '>'))
  generalize tag.takeWhile (· ≠ '>') = inner at hname hlast
  obtain ⟨attrs, rfl⟩ : ['/'] <+: inner := hname ▸ List.takeWhile_prefix _
  cases attrs with
  | nil => exact absurd rfl hlast
  | cons c attrs =>
      by_cases hc : c = ' '
      · simp [hc]
      · simp [nameOf, hc] at hname

/-- The text of a record ends before it begins if the record's own opening tag reads as a closing tag, and
never else. -/
theorem scan_eq_error_iff (room : Nat) (tag rest : List Char) :
    (∃ fault, scan room (openTag tag ++ rest) [] = .error fault) ↔ ReadsAsClosing tag ∧ 2 < room := by
  have hopen : cut? ['<'] (openTag tag ++ rest) = some ([], tag ++ '>' :: rest) := by
    simpa [openTag] using cut?_char List.not_mem_nil (tag ++ '>' :: rest)
  have hok (found : List Leaf × Stop) : ¬ ∃ fault, (.ok found : Except Fault _) = .error fault := by
    rintro ⟨fault, hf⟩
    cases hf
  rcases Nat.eq_zero_or_pos room with rfl | hr
  · rw [scan_of_le hopen (Nat.zero_le _)]
    exact iff_of_false (hok _) fun h => Nat.not_lt_zero _ h.2
  obtain ⟨after, hclose⟩ := exists_cut?_char '>' tag rest
  obtain ⟨found, hnext⟩ := exists_scan_eq_ok (room - (([] : List Char).length + 1 +
    (tag.takeWhile (· ≠ '>')).length)) after (nameOf (tag.takeWhile (· ≠ '>')))
  rw [scan_of_tag hopen hr hclose, hnext, onTag, ReadsAsClosing]
  split
  · next hl => exact iff_of_false (hok _) fun h => h.1.2 hl
  next hl =>
  split
  · next hle =>
      refine iff_of_false (hok _) fun h => ?_
      rw [h.1.1] at hle
      exact absurd h.2 (Nat.not_lt.2 hle)
  next hlt =>
  split
  · next hname =>
      rw [hname] at hlt
      exact iff_of_true ⟨_, rfl⟩ ⟨⟨hname, hl⟩, Nat.not_le.1 hlt⟩
  · next hname => exact iff_of_false (hok _) fun h => hname h.1.1

/-! ## How far a scan looks -/

/-- A scan looks no further than the end of a tag that is behind the record. -/
theorem scan_append {a : List Char} (hl : a.getLast? = some '>') (hr : room < a.length)
    (b current : List Char) : scan room (a ++ b) current = scan room a current := by
  induction hn : a.length using Nat.strongRecOn generalizing room a current with
  | _ n ih =>
      subst hn
      by_cases hm : '<' ∈ a
      · obtain ⟨before, after, hc⟩ := cut?_char_of_mem hm
        have hc' := cut?_char_append hc b
        by_cases hb : room ≤ before.length
        · rw [scan_of_le hc hb, scan_of_le hc' hb]
        · -- the text ends with the end of a tag, so the tag that begins here has an end in it
          have ha : after.getLast? = some '>' := by
            rw [getLast?_of_cut?_char hc] at hl
            cases after with
            | nil => cases hl
            | cons c after => exact hl
          obtain ⟨inner, after', hi⟩ := cut?_char_of_mem (List.mem_of_getLast? ha)
          rw [getLast?_of_cut?_char hi] at ha
          have hlen := length_of_cut? hc
          have hlen' := length_of_cut? hi
          simp only [List.length_singleton] at hlen hlen'
          rw [scan_of_tag hc (Nat.not_le.1 hb) hi, scan_of_tag hc' (Nat.not_le.1 hb) (cut?_char_append hi b)]
          congr 1
          exact ih _ (by simp only [List.length_cons]; omega) ha
            (by simp only [List.length_cons]; omega) (nameOf inner) rfl
      · rw [scan_of_notMem room hm]
        by_cases hb : '<' ∈ b
        · obtain ⟨before, after, hc⟩ := cut?_char_of_mem hb
          have hc' : cut? ['<'] (a ++ b) = some (a ++ before, after) := by
            rw [skips_of_notMem hm, hc]
            rfl
          exact scan_of_le hc' (by rw [List.length_append]; omega) current
        · exact scan_of_notMem room (by simp [hm, hb]) current

end FeedFiler.Markup
