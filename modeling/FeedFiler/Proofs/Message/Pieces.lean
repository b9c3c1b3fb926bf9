import Mathlib.Data.List.Basic
import Mathlib.Data.List.TakeWhile
import Mathlib.Tactic.SplitIfs
import FeedFiler.Message.Template
import FeedFiler.Proofs.Text.Cut

/-!
# The pieces of a template

How a template is cut does not depend on a record: filling it from left to right is filling its pieces. The
pieces written one after the other are the template, and no other pieces that follow the same rules are. So
the text of a value is never looked at for placeholders, and a template that leaves no placeholder open can be
filled on its own.
-/

namespace FeedFiler.Template

open Text (cut? Skips)

/-- A part of a template. -/
inductive Piece where
  | literal (text : List Char)
  | placeholder (inner : List Char)
deriving DecidableEq, Repr

/-- The pieces of a template. A mark that opens a placeholder and has no closing one behind it is
text. -/
def pieces (template : List Char) : List Piece :=
  match h : cut? openMark template with
  | none => [.literal template]
  | some (before, after) =>
    match h' : cut? closeMark after with
    | none => [.literal template]
    | some (inner, rest) =>
      have := length_lt_of_cut? h h'
      .literal before :: .placeholder inner :: pieces rest
termination_by template.length

/-- What a piece gives for a record. -/
def Piece.expand (record : Document) : Piece → List Char
  | .literal text => text
  | .placeholder inner => fill record (fillingOf inner)

/-- The text that writes a piece. -/
def Piece.chars : Piece → List Char
  | .literal text => text
  | .placeholder inner => openMark ++ inner ++ closeMark

/-- The template that writes some pieces. -/
def written (ps : List Piece) : List Char := ps.flatMap Piece.chars

/-- The brace is not doubled in the text, nor is it by the one that follows. -/
def Clear (brace : Char) (text : List Char) : Prop :=
  ¬ [brace, brace] <:+: text ∧ text.getLast? ≠ some brace

/-- A mark that opens a placeholder has no closing one behind it. -/
def StaysOpen (text : List Char) : Prop :=
  ∀ before after, text = before ++ openMark ++ after → ¬ closeMark <:+: after

/-- The rules of the pieces: literals and placeholders take turns, a placeholder opens and closes at the first
place where it can, and in the last literal none is closed. -/
inductive IsCut : List Piece → Prop
  | last {text : List Char} (htext : StaysOpen text) : IsCut [.literal text]
  | cons {text inner : List Char} {ps : List Piece} (htext : Clear '\x7b' text) (hinner : Clear '\x7d' inner)
      (hps : IsCut ps) : IsCut (.literal text :: .placeholder inner :: ps)

/-! ## Doubled braces -/

theorem Clear.tail {brace c : Char} {text : List Char} (h : Clear brace (c :: text)) : Clear brace text := by
  refine ⟨fun hi => h.1 (List.infix_cons hi), fun hl => h.2 ?_⟩
  rw [List.getLast?_cons, hl]
  rfl

theorem eq_of_doubled {brace c d : Char} {text : List Char} (h : [brace, brace] <+: c :: d :: text) :
    brace = c ∧ brace = d := by
  obtain ⟨hc, hnext⟩ := List.cons_prefix_cons.1 h
  exact ⟨hc, (List.cons_prefix_cons.1 hnext).1⟩

/-- A doubled brace behind such a text is the first one. -/
theorem Clear.skips {brace : Char} {text : List Char} (h : Clear brace text) : Skips [brace, brace] text := by
  induction text with
  | nil => exact Text.skips_nil _
  | cons c text ih =>
      refine (ih h.tail).cons fun rest hp => ?_
      cases text with
      | nil => exact h.2 ((List.cons_prefix_cons.1 hp).1 ▸ rfl)
      | cons d text =>
          obtain ⟨rfl, rfl⟩ := eq_of_doubled hp
          exact h.1 (List.infix_append [] [brace, brace] text)

/-- Doubled braces do not reach over another character. -/
theorem infix_of_infix_append_cons {brace c : Char} {s t : List Char} (hc : brace ≠ c)
    (h : [brace, brace] <:+: s ++ c :: t) : [brace, brace] <:+: s ∨ [brace, brace] <:+: t := by
  induction s with
  | nil =>
      rcases List.infix_cons_iff.1 h with hp | ht
      · exact absurd (List.cons_prefix_cons.1 hp).1 hc
      · exact .inr ht
  | cons d s ih =>
      rcases List.infix_cons_iff.1 h with hp | hrest
      · cases s with
        | nil => exact absurd (eq_of_doubled hp).2 hc
        | cons e s =>
            obtain ⟨rfl, rfl⟩ := eq_of_doubled hp
            exact .inl (List.infix_append [] [brace, brace] s)
      · exact (ih hrest).imp_left List.infix_cons

theorem clear_of_cut? {brace : Char} {s before after : List Char}
    (h : cut? [brace, brace] s = some (before, after)) : Clear brace before := by
  have hs := Text.eq_of_cut? h
  constructor
  · rintro ⟨front, rest, rfl⟩
    refine Text.not_standsAt_of_cut? h (i := front.length) (by simp) ?_
    rw [Text.StandsAt, hs]
    simp
  · intro hl
    obtain ⟨front, rfl⟩ := List.getLast?_eq_some_iff.1 hl
    refine Text.not_standsAt_of_cut? h (i := front.length) (by simp) ?_
    rw [Text.StandsAt, hs]
    simp

/-! ## Cutting -/

variable {s text inner rest : List Char} {ps qs : List Piece}

theorem pieces_of_not_opened (h : cut? openMark s = none) : pieces s = [.literal s] := by
  rw [pieces.eq_def]
  split
  · rfl
  · next ho => rw [h] at ho; cases ho

theorem pieces_of_not_closed {after : List Char} (ho : cut? openMark s = some (text, after))
    (hc : cut? closeMark after = none) : pieces s = [.literal s] := by
  rw [pieces.eq_def]
  split
  · rfl
  · next ho' =>
      rw [ho] at ho'
      cases ho'
      split
      · rfl
      · next hc' => rw [hc] at hc'; cases hc'

theorem pieces_of_closed {after : List Char} (ho : cut? openMark s = some (text, after))
    (hc : cut? closeMark after = some (inner, rest)) :
    pieces s = .literal text :: .placeholder inner :: pieces rest := by
  rw [pieces.eq_def]
  split
  · next ho' => rw [ho] at ho'; cases ho'
  · next ho' =>
      rw [ho] at ho'
      cases ho'
      split
      · next hc' => rw [hc] at hc'; cases hc'
      · next hc' =>
          rw [hc] at hc'
          cases hc'
          rfl

/-- A template with a closed placeholder is cut around it. -/
theorem pieces_closed (htext : Clear '\x7b' text) (hinner : Clear '\x7d' inner) (rest : List Char) :
    pieces (text ++ (openMark ++ (inner ++ (closeMark ++ rest)))) =
      .literal text :: .placeholder inner :: pieces rest :=
  pieces_of_closed (htext.skips.cut?_append _) (hinner.skips.cut?_append rest)

theorem pieces_of_staysOpen (h : StaysOpen s) : pieces s = [.literal s] := by
  cases ho : cut? openMark s with
  | none => exact pieces_of_not_opened ho
  | some p =>
      obtain ⟨before, after⟩ := p
      exact pieces_of_not_closed ho (Text.cut?_eq_none_iff_not_infix.2 (h _ _ (Text.eq_of_cut? ho)))

theorem staysOpen_of_not_opened (h : cut? openMark s = none) : StaysOpen s := by
  rintro before after rfl
  exact absurd (List.infix_append before openMark after) (Text.cut?_eq_none_iff_not_infix.1 h)

/-- It is enough that the first opening mark has no closing one behind it. -/
theorem staysOpen_of_not_closed {after : List Char} (ho : cut? openMark s = some (text, after))
    (hc : cut? closeMark after = none) : StaysOpen s := by
  intro front back hs hclose
  refine Text.cut?_eq_none_iff_not_infix.1 hc (hclose.trans ?_)
  have hle : text.length ≤ front.length := by
    refine Nat.le_of_not_lt fun hlt => Text.not_standsAt_of_cut? ho hlt ?_
    rw [Text.StandsAt, hs, List.append_assoc, List.drop_left]
    exact List.prefix_append openMark back
  have hback : back = s.drop (front.length + openMark.length) := by
    rw [hs, ← List.length_append, List.drop_left]
  have hafter : after = s.drop (text.length + openMark.length) := by
    rw [Text.eq_of_cut? ho, ← List.length_append, List.drop_left]
  rw [hback, hafter]
  exact (List.drop_suffix_drop_left s (by omega)).isInfix

/-- A template is one literal, or begins with a literal and a placeholder. -/
theorem pieces_cases (s : List Char) :
    StaysOpen s ∨ ∃ text inner rest, s = text ++ (openMark ++ (inner ++ (closeMark ++ rest))) ∧
      Clear '\x7b' text ∧ Clear '\x7d' inner := by
  cases ho : cut? openMark s with
  | none => exact .inl (staysOpen_of_not_opened ho)
  | some p =>
      obtain ⟨text, after⟩ := p
      cases hc : cut? closeMark after with
      | none => exact .inl (staysOpen_of_not_closed ho hc)
      | some p =>
          obtain ⟨inner, rest⟩ := p
          refine .inr ⟨text, inner, rest, ?_, clear_of_cut? ho, clear_of_cut? hc⟩
          rw [Text.eq_of_cut? ho, Text.eq_of_cut? hc]
          simp

theorem written_pieces (s : List Char) : IsCut (pieces s) ∧ written (pieces s) = s := by
  induction hn : s.length using Nat.strongRecOn generalizing s with
  | ind n ih =>
      rcases pieces_cases s with h | ⟨text, inner, rest, rfl, htext, hinner⟩
      · rw [pieces_of_staysOpen h]
        exact ⟨.last h, by simp [written, Piece.chars]⟩
      · have hlt : rest.length < n := by
          rw [← hn]
          simp [openMark]
          omega
        obtain ⟨hcut, hrest⟩ := ih rest.length hlt rest rfl
        rw [pieces_closed htext hinner]
        refine ⟨.cons htext hinner hcut, ?_⟩
        rw [written, List.flatMap_cons, List.flatMap_cons, ← written, hrest]
        simp [Piece.chars]

/-- Pieces that follow the rules are the pieces of what they write. -/
theorem IsCut.pieces_written (h : IsCut ps) : pieces (written ps) = ps := by
  induction h with
  | last htext => simpa [written, Piece.chars] using pieces_of_staysOpen htext
  | cons htext hinner hps ih =>
      rw [written, List.flatMap_cons, List.flatMap_cons, ← written, Piece.chars, Piece.chars,
        List.append_assoc, List.append_assoc, pieces_closed htext hinner, ih]

/-! ## Filling -/

/-- The field that a placeholder names: its text before the first bar. -/
def fieldOf (inner : List Char) : String := String.ofList (inner.takeWhile (· ≠ '|'))

/-- A placeholder without a bar asks for its field. -/
theorem fillingOf_of_notMem (h : '|' ∉ inner) : fillingOf inner = .field (fieldOf inner) := by
  have hall : ∀ c ∈ inner, decide (c ≠ '|') = true := fun c hc => decide_eq_true fun he => h (he ▸ hc)
  rw [fillingOf, Text.cut?_char_eq_none h, fieldOf, List.takeWhile_eq_self_iff.2 hall]

/-- A placeholder with a bar asks for what a function makes of its field, or for its own text. -/
theorem fillingOf_of_mem (h : '|' ∈ inner) : fillingOf inner =
    if afterLastBar inner = ['i', 'n', 't'] then .int (fieldOf inner)
    else if afterLastBar inner = ['y', 'y', 'y', 'y'] then .year (fieldOf inner)
    else if afterLastBar inner = ['M', 'M'] then .month (fieldOf inner)
    else if afterLastBar inner = ['d', 'd'] then .day (fieldOf inner)
    else .verbatim inner := by
  obtain ⟨before, after, hc⟩ := Text.cut?_char_of_mem h
  rw [fillingOf, hc, fieldOf, Text.takeWhile_of_cut?_char hc]

/-- What a placeholder is filled with depends on its field only. -/
theorem expand_placeholder_congr {record other : Document}
    (h : record.get? (fieldOf inner) = other.get? (fieldOf inner)) :
    Piece.expand record (.placeholder inner) = Piece.expand other (.placeholder inner) := by
  by_cases hbar : '|' ∈ inner
  · simp only [Piece.expand, fillingOf_of_mem hbar]
    split_ifs <;> simp only [fill, h]
  · simp only [Piece.expand, fillingOf_of_notMem hbar, fill, h]

/-! ## One template after the other -/

/-- Text in front of a template, as part of its first literal. -/
def prepend (text : List Char) : List Piece → List Piece
  | .literal first :: ps => .literal (text ++ first) :: ps
  | ps => .literal text :: ps

theorem pieces_clear_append (h : Clear '\x7b' text) (s : List Char) :
    pieces (text ++ s) = prepend text (pieces s) := by
  have hskip : cut? openMark (text ++ s) = (cut? openMark s).map fun p => (text ++ p.1, p.2) := h.skips s
  cases ho : cut? openMark s with
  | none =>
      rw [ho] at hskip
      rw [pieces_of_not_opened ho, pieces_of_not_opened hskip]
      rfl
  | some p =>
      obtain ⟨before, after⟩ := p
      rw [ho] at hskip
      cases hc : cut? closeMark after with
      | none =>
          rw [pieces_of_not_closed ho hc, pieces_of_not_closed hskip hc]
          rfl
      | some p =>
          rw [pieces_of_closed ho hc, pieces_of_closed hskip hc]
          rfl

theorem flatMap_prepend (record : Document) (text : List Char) (ps : List Piece) :
    (prepend text ps).flatMap (Piece.expand record) = text ++ ps.flatMap (Piece.expand record) := by
  cases ps with
  | nil => simp [prepend, Piece.expand]
  | cons piece ps => cases piece <;> simp [prepend, Piece.expand]

theorem IsCut.flatMap_pieces_append (h : IsCut ps)
    (hlast : ∀ text, ps.getLast? = some (.literal text) → Clear '\x7b' text)
    (record : Document) (s : List Char) :
    (pieces (written ps ++ s)).flatMap (Piece.expand record) =
      ps.flatMap (Piece.expand record) ++ (pieces s).flatMap (Piece.expand record) := by
  induction h with
  | @last text htext =>
      have hw : written [.literal text] = text := by simp [written, Piece.chars]
      rw [hw, pieces_clear_append (hlast text rfl), flatMap_prepend]
      simp [Piece.expand]
  | @cons text inner ps htext hinner hps ih =>
      have hne : ps ≠ [] := by cases hps <;> simp
      have hrest := ih fun final hf => hlast final (by
        rw [List.getLast?_cons_cons, List.getLast?_cons, hf]; rfl)
      have hw : written (.literal text :: .placeholder inner :: ps) ++ s =
          text ++ (openMark ++ (inner ++ (closeMark ++ (written ps ++ s)))) := by
        simp [written, Piece.chars]
      rw [hw, pieces_closed htext hinner, List.flatMap_cons, List.flatMap_cons, hrest]
      simp

/-! ## What a template expands to -/

@[simp] theorem Piece.expand_literal (record : Document) (text : List Char) :
    Piece.expand record (.literal text) = text := rfl

/-- Filling a template from left to right is filling its pieces. -/
theorem expandFrom_eq (record : Document) (out s : List Char) :
    expandFrom record out s = out ++ (pieces s).flatMap (Piece.expand record) := by
  fun_induction expandFrom record out s with
  | case1 out s ho =>
      rw [pieces_of_not_opened ho]
      simp
  | case2 out s before after ho hc =>
      rw [pieces_of_not_closed ho hc]
      simp
  | case3 out s before after ho inner rest hc hlt ih =>
      rw [pieces_of_closed ho hc, ih]
      simp [Piece.expand]

theorem expand_eq (template : String) (record : Document) :
    expand template record = String.ofList ((pieces template.toList).flatMap (Piece.expand record)) := by
  rw [expand, expandFrom_eq, List.nil_append]

theorem IsCut.expand_eq (h : IsCut ps) {template : String} (hw : template.toList = written ps)
    (record : Document) : expand template record = String.ofList (ps.flatMap (Piece.expand record)) := by
  rw [Template.expand_eq, hw, h.pieces_written]

/-- A string stands in the text as it is, whatever braces it has. -/
theorem expand_placeholder_string {record : Document} {value : String} (hbar : '|' ∉ inner)
    (hfield : record.get? (fieldOf inner) = some (.string value)) :
    Piece.expand record (.placeholder inner) = value.toList := by
  simp only [Piece.expand, fillingOf_of_notMem hbar, fill, hfield, fieldChars]

theorem expand_congr {template : String} {record other : Document}
    (h : ∀ inner, .placeholder inner ∈ pieces template.toList →
      record.get? (fieldOf inner) = other.get? (fieldOf inner)) :
    expand template record = expand template other := by
  rw [expand_eq, expand_eq]
  refine congrArg String.ofList (List.flatMap_congr fun piece hpiece => ?_)
  cases piece with
  | literal text => rfl
  | placeholder inner => exact expand_placeholder_congr (h inner hpiece)

theorem expand_append {template : String} (h : ∀ text, (pieces template.toList).getLast? = some (.literal text) →
    Clear '\x7b' text) (next : String) (record : Document) :
    expand (template ++ next) record = expand template record ++ expand next record := by
  obtain ⟨hcut, hwritten⟩ := written_pieces template.toList
  have happend := hcut.flatMap_pieces_append h record next.toList
  rw [hwritten] at happend
  rw [expand_eq, expand_eq, expand_eq, String.toList_append, happend, String.ofList_append]

/-- **A template has its pieces before any record is seen.** There are exactly one list of pieces that follows
the rules and writes the template, and for every record the template expands to the literals as they are and to
what the placeholders are filled with. A string that fills a placeholder is not expanded again, records that
agree on the fields of the placeholders expand alike, and behind a last literal that can open no placeholder
any further template expands on its own. -/
theorem template_pieces (template : String) :
    ∃ ps, IsCut ps ∧ written ps = template.toList ∧
      (∀ qs, IsCut qs → written qs = template.toList → qs = ps) ∧
      (∀ record, expand template record = String.ofList (ps.flatMap (Piece.expand record))) ∧
      (∀ record inner value, .placeholder inner ∈ ps → '|' ∉ inner →
        record.get? (fieldOf inner) = some (.string value) →
        Piece.expand record (.placeholder inner) = value.toList) ∧
      (∀ record other : Document,
        (∀ inner, .placeholder inner ∈ ps → record.get? (fieldOf inner) = other.get? (fieldOf inner)) →
        expand template record = expand template other) ∧
      ∀ text, ps.getLast? = some (.literal text) → ¬ openMark <:+: text → text.getLast? ≠ some '\x7b' →
        ∀ next record, expand (template ++ next) record = expand template record ++ expand next record := by
  obtain ⟨hcut, hwritten⟩ := written_pieces template.toList
  refine ⟨pieces template.toList, hcut, hwritten, fun qs hqs hq => ?_, expand_eq template,
    fun record inner value _ => expand_placeholder_string, fun record other => expand_congr,
    fun text hlast hopen hbrace => expand_append fun final hfinal => ?_⟩
  · rw [← hq, hqs.pieces_written]
  · rw [hlast] at hfinal
    cases hfinal
    exact ⟨hopen, hbrace⟩

/-- A placeholder that begins with a brace, one with a function, and a last literal of one brace. -/
def bracedTemplate : String := "x\x7b\x7b\x7ba\x7d\x7d/\x7b\x7bb|int\x7d\x7d\x7d"

theorem isCut_bracedTemplate : IsCut [.literal ['x'], .placeholder ['\x7b', 'a'], .literal ['/'],
    .placeholder ['b', '|', 'i', 'n', 't'], .literal ['\x7d']] :=
  .cons ⟨by decide, by decide⟩ ⟨by decide, by decide⟩
    (.cons ⟨by decide, by decide⟩ ⟨by decide, by decide⟩ (.last (staysOpen_of_not_opened (by decide))))

/-- A text that looks like a placeholder, and a number. -/
def bracedRecord : Document :=
  [("\x7ba", .string "\x7b\x7bb\x7d\x7d"), ("b", .number (.whole ⟨3, by decide, by decide⟩))]

theorem template_pieces_braced :
    expand bracedTemplate bracedRecord = "x\x7b\x7bb\x7d\x7d/3\x7d" ∧
      expand (bracedTemplate ++ "\x7b\x7bc") bracedRecord =
        "x\x7b\x7bb\x7d\x7d/3\x7d" ++ expand "\x7b\x7bc" bracedRecord := by
  obtain ⟨ps, -, -, hunique, hexpand, -, -, happend⟩ := template_pieces bracedTemplate
  obtain rfl := hunique _ isCut_bracedTemplate (by decide)
  have hfilled : expand bracedTemplate bracedRecord = "x\x7b\x7bb\x7d\x7d/3\x7d" :=
    (hexpand bracedRecord).trans (by decide +kernel)
  exact ⟨hfilled, by rw [happend _ rfl (by decide) (by decide), hfilled]⟩

end FeedFiler.Template
