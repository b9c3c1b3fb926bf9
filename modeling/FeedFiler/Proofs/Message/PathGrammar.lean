import Mathlib.Data.List.Forall2
import FeedFiler.Message.RecordPath
import FeedFiler.Proofs.Number.Digits
import FeedFiler.Proofs.Text.Cut
import FeedFiler.Proofs.Text.Trim

/-!
# The paths that compile

A path compiles exactly if each of its parts is a name, or a name with an index in brackets. Each part gives
one step, the last one a step that selects an array, and the steps written as a path compile to themselves.
-/

namespace FeedFiler

/-- The step goes on below what it finds, so another step can follow. -/
def PathStep.Descends : PathStep → Prop
  | .array _ => False
  | _ => True

/-- The step selects an array, so it can be the last one. -/
def PathStep.Selects : PathStep → Prop
  | .object _ => False
  | _ => True

/-- The part of a path that writes a step. -/
def PathStep.chars : PathStep → List Char
  | .object name => name.toList
  | .array name => name.toList
  | .element name index => name.toList ++ '[' :: (natChars index ++ [']'])

namespace RecordPath

/-- The path that writes some steps. -/
def written (steps : List PathStep) : String :=
  String.ofList (['>'].intercalate (steps.map PathStep.chars))

/-! ## The grammar of a part -/

/-- The text between brackets is an index: digits behind an optional plus sign, with blanks around them, of
a number of 64 bits. -/
inductive IsIndex : List Char → Nat → Prop
  | of {front sign digits back : List Char} (hfront : Text.IsBlanks front) (hback : Text.IsBlanks back)
      (hsign : sign = [] ∨ sign = ['+']) (hne : digits ≠ []) (hdigits : ∀ c ∈ digits, c.isDigit = true)
      (hlt : Nat.ofDigitChars 10 digits 0 < 2 ^ 64) :
      IsIndex (front ++ (sign ++ digits) ++ back) (Nat.ofDigitChars 10 digits 0)

/-- The part is a name that does not end in a bracket. -/
def IsName (part : List Char) : Prop := part ≠ [] ∧ part.getLast? ≠ some ']'

/-- The part is a name with an index in brackets. -/
inductive IsIndexed : List Char → List Char → Nat → Prop
  | of {name text : List Char} {index : Nat} (hne : name ≠ []) (hname : '[' ∉ name)
      (hindex : IsIndex text index) : IsIndexed (name ++ '[' :: (text ++ [']'])) name index

/-- A path can have this part. -/
def IsPart (part : List Char) : Prop := IsName part ∨ ∃ name index, IsIndexed part name index

/-- What a part means: of the parts without an index the last one selects an array, and the others descend
into objects. -/
inductive Means : Bool → List Char → PathStep → Prop
  | object {name : List Char} (h : IsName name) : Means false name (.object (String.ofList name))
  | array {name : List Char} (h : IsName name) : Means true name (.array (String.ofList name))
  | element {last : Bool} {part name : List Char} {index : Nat} (h : IsIndexed part name index) :
      Means last part (.element (String.ofList name) index)

/-! ## Reading a part -/

theorem readIndex?_trim_eq_some_iff {text : List Char} {index : Nat} :
    readIndex? (Text.trim text) = some index ↔ IsIndex text index := by
  constructor
  · intro h
    obtain ⟨sign, digits, htrim, hsign, hread, hlt⟩ := readIndex?_eq_some_iff.1 h
    obtain ⟨hne, hdigits, rfl⟩ := readNat?_eq_some_iff.1 hread
    obtain ⟨front, back, htext, hfront, hback⟩ := Text.exists_eq_append_trim text
    rw [htrim] at htext
    rw [natOfDigits_eq_ofDigitChars] at hlt ⊢
    exact htext ▸ .of hfront hback hsign hne hdigits hlt
  · rintro (@⟨front, sign, digits, back, hfront, hback, hsign, hne, hdigits, hlt⟩)
    have hall : ∀ c ∈ sign ++ digits, Text.isBlank c = false := by
      intro c hc
      rcases List.mem_append.1 hc with hs | hd
      · rcases hsign with rfl | rfl
        · cases hs
        · rw [List.mem_singleton.1 hs]
          decide
      · exact Text.isBlank_of_isDigit (hdigits c hd)
    rw [Text.trim_append_blanks hfront hback, Text.trim_eq_self (fun c hc => hall c (List.mem_of_mem_head? hc))
      fun c hc => hall c (List.mem_of_mem_getLast? hc)]
    exact readIndex?_eq_some_iff.2 ⟨sign, digits, rfl, hsign,
      readNat?_eq_some_iff.2 ⟨hne, hdigits, natOfDigits_eq_ofDigitChars digits⟩, hlt⟩

theorem IsIndexed.getLast? {part name : List Char} {index : Nat} (h : IsIndexed part name index) :
    part.getLast? = some ']' := by
  obtain ⟨-, -, -⟩ := h
  rw [← List.cons_append, ← List.append_assoc, List.getLast?_concat]

theorem stepOf_indexed {last : Bool} {part name : List Char} {index : Nat} (h : IsIndexed part name index) :
    stepOf last part = .ok (.element (String.ofList name) index) := by
  have hl := h.getLast?
  obtain ⟨hne, hname, hindex⟩ := h
  rw [stepOf, if_pos hl, ← List.cons_append, ← List.append_assoc, List.dropLast_concat,
    Text.cut?_char hname]
  simp only [readIndex?_trim_eq_some_iff.2 hindex, List.isEmpty_iff, if_neg hne]

theorem stepOf_name {last : Bool} {name : List Char} (h : IsName name) :
    stepOf last name =
      .ok (if last then .array (String.ofList name) else .object (String.ofList name)) := by
  rw [stepOf, if_neg h.2, if_neg (by simpa using h.1)]
  cases last <;> rfl

/-- What is read from a part is what the part means. -/
theorem stepOf_eq_ok_iff {last : Bool} {part : List Char} {step : PathStep} :
    stepOf last part = .ok step ↔ Means last part step := by
  constructor
  · intro h
    by_cases hl : part.getLast? = some ']'
    · obtain ⟨body, rfl⟩ := List.getLast?_eq_some_iff.1 hl
      rw [stepOf, if_pos hl, List.dropLast_concat] at h
      cases hc : Text.cut? ['['] body with
      | none => simp [hc] at h
      | some p =>
          obtain ⟨name, text⟩ := p
          cases hi : readIndex? (Text.trim text) with
          | none => simp [hc, hi] at h
          | some index =>
              simp only [hc, hi, List.isEmpty_iff] at h
              split at h
              · cases h
              · next hne =>
                  cases h
                  have hbody := Text.eq_of_cut? hc
                  rw [List.append_assoc, List.singleton_append] at hbody
                  rw [hbody, List.append_assoc, List.cons_append]
                  exact .element (.of hne (Text.notMem_of_cut?_char hc) (readIndex?_trim_eq_some_iff.1 hi))
    · by_cases hne : part = []
      · simp [stepOf, hne] at h
      · rw [stepOf_name ⟨hne, hl⟩] at h
        cases h
        cases last
        · exact .object ⟨hne, hl⟩
        · exact .array ⟨hne, hl⟩
  · rintro (h | h | h)
    · exact stepOf_name h
    · exact stepOf_name h
    · exact stepOf_indexed h

theorem exists_means_iff {last : Bool} {part : List Char} :
    (∃ step, Means last part step) ↔ IsPart part := by
  constructor
  · rintro ⟨step, h | h | h⟩
    · exact .inl h
    · exact .inl h
    · exact .inr ⟨_, _, h⟩
  · rintro (h | ⟨name, index, h⟩)
    · cases last
      · exact ⟨_, .object h⟩
      · exact ⟨_, .array h⟩
    · exact ⟨_, .element h⟩

theorem Means.descends {part : List Char} {step : PathStep} (h : Means false part step) : step.Descends := by
  cases h <;> trivial

theorem Means.selects {part : List Char} {step : PathStep} (h : Means true part step) : step.Selects := by
  cases h <;> trivial

/-! ## Writing a part -/

theorem isIndex_natChars {index : Nat} (h : index < 2 ^ 64) : IsIndex (natChars index) index := by
  have hvalue : Nat.ofDigitChars 10 (natChars index) 0 = index := Nat.ofDigitChars_ten_toDigits
  have hindex := @IsIndex.of [] [] (natChars index) [] (List.forall_mem_nil _) (List.forall_mem_nil _) (.inl rfl)
    Nat.toDigits_ne_nil (fun _ => isDigit_of_mem_natChars) (hvalue.symm ▸ h)
  rwa [List.nil_append, List.nil_append, List.append_nil, hvalue] at hindex

theorem IsIndex.lt {text : List Char} {index : Nat} (h : IsIndex text index) : index < 2 ^ 64 := by
  cases h
  assumption

/-- The written form of a step means the step. -/
theorem Means.chars {last : Bool} {part : List Char} {step : PathStep} (h : Means last part step) :
    Means last step.chars step := by
  rcases h with h | h | h
  · simpa [PathStep.chars] using Means.object h
  · simpa [PathStep.chars] using Means.array h
  · obtain ⟨hne, hname, hindex⟩ := h
    rw [PathStep.chars, String.toList_ofList]
    exact .element (.of hne hname (isIndex_natChars hindex.lt))

theorem Means.notMem_chars {last : Bool} {part : List Char} {step : PathStep} (h : Means last part step)
    (hpart : '>' ∉ part) : '>' ∉ step.chars := by
  cases h with
  | object h => rwa [PathStep.chars, String.toList_ofList]
  | array h => rwa [PathStep.chars, String.toList_ofList]
  | @element _ _ name index h =>
      have hname : '>' ∉ name := by
        cases h
        exact fun hm => hpart (List.mem_append_left _ hm)
      have hdigits : '>' ∉ natChars index := fun hm => by cases isDigit_of_mem_natChars hm
      simp [PathStep.chars, hname, hdigits]

/-! ## The parts of a path -/

/-- What the parts of a path mean, one after the other. -/
inductive Spells : List (List Char) → List PathStep → Prop
  | nil : Spells [] []
  | cons {part : List Char} {parts : List (List Char)} {step : PathStep} {steps : List PathStep}
      (hstep : Means parts.isEmpty part step) (hsteps : Spells parts steps) :
      Spells (part :: parts) (step :: steps)

theorem stepsOf_eq_ok_iff {parts : List (List Char)} {steps : List PathStep} :
    stepsOf parts = .ok steps ↔ Spells parts steps := by
  induction parts generalizing steps with
  | nil =>
      constructor
      · intro h
        cases h
        exact .nil
      · rintro ⟨⟩
        rfl
  | cons part parts ih =>
      simp only [stepsOf, bind, Except.bind, pure, Except.pure]
      constructor
      · intro h
        cases hstep : stepOf parts.isEmpty part with
        | error reason => rw [hstep] at h; cases h
        | ok step =>
            cases hsteps : stepsOf parts with
            | error reason => rw [hstep, hsteps] at h; cases h
            | ok rest =>
                rw [hstep, hsteps] at h
                cases h
                exact .cons (stepOf_eq_ok_iff.1 hstep) (ih.1 hsteps)
      · rintro (_ | ⟨hstep, hsteps⟩)
        rw [stepOf_eq_ok_iff.2 hstep, ih.2 hsteps]

theorem exists_spells_iff {parts : List (List Char)} :
    (∃ steps, Spells parts steps) ↔ ∀ part ∈ parts, IsPart part := by
  induction parts with
  | nil => exact ⟨fun _ => List.forall_mem_nil _, fun _ => ⟨[], .nil⟩⟩
  | cons part parts ih =>
      rw [List.forall_mem_cons, ← ih, ← @exists_means_iff parts.isEmpty]
      constructor
      · rintro ⟨_, _ | ⟨hstep, hsteps⟩⟩
        exact ⟨⟨_, hstep⟩, _, hsteps⟩
      · rintro ⟨⟨step, hstep⟩, steps, hsteps⟩
        exact ⟨step :: steps, .cons hstep hsteps⟩

/-- The last part means the last step, and the parts before it the steps before it. -/
theorem Spells.exists_last {parts : List (List Char)} {steps : List PathStep} (h : Spells parts steps)
    (hne : parts ≠ []) : ∃ front last before step, parts = front ++ [last] ∧ steps = before ++ [step] ∧
      List.Forall₂ (Means false) front before ∧ Means true last step := by
  induction h with
  | nil => exact absurd rfl hne
  | @cons part parts step steps hstep hsteps ih =>
      cases parts with
      | nil =>
          cases hsteps
          exact ⟨[], part, [], step, rfl, rfl, .nil, hstep⟩
      | cons next parts =>
          obtain ⟨front, last, before, final, hparts, hsteps, hbefore, hfinal⟩ := ih (List.cons_ne_nil _ _)
          exact ⟨part :: front, last, step :: before, final, by rw [hparts, List.cons_append],
            by rw [hsteps, List.cons_append], .cons hstep hbefore, hfinal⟩

theorem descends_of_mem {parts : List (List Char)} {steps : List PathStep}
    (h : List.Forall₂ (Means false) parts steps) : ∀ step ∈ steps, step.Descends := by
  induction h with
  | nil => exact List.forall_mem_nil _
  | cons hstep _ ih => exact List.forall_mem_cons.2 ⟨hstep.descends, ih⟩

theorem Spells.chars {parts : List (List Char)} {steps : List PathStep} (h : Spells parts steps) :
    Spells (steps.map PathStep.chars) steps := by
  induction h with
  | nil => exact .nil
  | @cons part parts step steps hstep hsteps ih =>
      refine .cons ?_ ih
      have hempty : (steps.map PathStep.chars).isEmpty = parts.isEmpty := by cases hsteps <;> rfl
      exact hempty ▸ hstep.chars

theorem Spells.notMem_chars {parts : List (List Char)} {steps : List PathStep} (h : Spells parts steps)
    (hparts : ∀ part ∈ parts, '>' ∉ part) : ∀ part ∈ steps.map PathStep.chars, '>' ∉ part := by
  induction h with
  | nil => exact List.forall_mem_nil _
  | cons hstep hsteps ih =>
      obtain ⟨hpart, hparts⟩ := List.forall_mem_cons.1 hparts
      exact List.forall_mem_cons.2 ⟨hstep.notMem_chars hpart, ih hparts⟩

/-! ## Compiling -/

theorem compile_eq_ok_iff {source : String} {p : RecordPath} :
    compile source = .ok p ↔ p.source = source ∧ Spells (source.toList.splitOn '>') p.steps := by
  obtain ⟨text, steps⟩ := p
  rw [compile, Text.splitAt_eq_splitOn, ← stepsOf_eq_ok_iff]
  cases stepsOf (source.toList.splitOn '>') with
  | error reason => simp
  | ok found => simp [eq_comm]

theorem compile_written {parts : List (List Char)} {steps : List PathStep} (h : Spells parts steps)
    (hne : parts ≠ []) (hparts : ∀ part ∈ parts, '>' ∉ part) :
    compile (written steps) = .ok ⟨written steps, steps⟩ := by
  have hsteps : steps.map PathStep.chars ≠ [] := by cases h <;> simp_all
  refine compile_eq_ok_iff.2 ⟨rfl, ?_⟩
  rw [written, String.toList_ofList, List.splitOn_intercalate '>' (h.notMem_chars hparts) hsteps]
  exact h.chars

/-- **A path compiles exactly if its parts are parts of the grammar.** Each part then gives one step in its
place: the last one a step that selects an array, the others steps that descend. The steps written as a path
compile to the same steps. -/
theorem compile_grammar (source : String) :
    ((∃ p, compile source = .ok p) ↔ ∀ part ∈ source.toList.splitOn '>', IsPart part) ∧
    ∀ p, compile source = .ok p →
      p.source = source ∧
      (∃ front last before step, source.toList.splitOn '>' = front ++ [last] ∧ p.steps = before ++ [step] ∧
        List.Forall₂ (Means false) front before ∧ Means true last step ∧
        (∀ s ∈ before, s.Descends) ∧ step.Selects) ∧
      compile (written p.steps) = .ok ⟨written p.steps, p.steps⟩ := by
  have hne : source.toList.splitOn '>' ≠ [] := List.splitOn_ne_nil _ _
  constructor
  · rw [← exists_spells_iff]
    constructor
    · rintro ⟨p, hp⟩
      exact ⟨p.steps, (compile_eq_ok_iff.1 hp).2⟩
    · rintro ⟨steps, hsteps⟩
      exact ⟨⟨source, steps⟩, compile_eq_ok_iff.2 ⟨rfl, hsteps⟩⟩
  · intro p hp
    obtain ⟨hsource, hsteps⟩ := compile_eq_ok_iff.1 hp
    obtain ⟨front, last, before, step, hparts, hsplit, hbefore, hstep⟩ := hsteps.exists_last hne
    exact ⟨hsource, ⟨front, last, before, step, hparts, hsplit, hbefore, hstep, descends_of_mem hbefore,
      hstep.selects⟩,
      compile_written hsteps hne fun part hpart =>
        Text.notMem_of_mem_splitAt part (Text.splitAt_eq_splitOn _ _ ▸ hpart)⟩

/-- An index with a sign, zeros and blanks is written as digits, and a bracket in a name stays. -/
theorem compile_grammar_spelled :
    (∃ p, compile "a>b[ +07 ]>c]d" = .ok p ∧ written p.steps = "a>b[7]>c]d") ∧
      compile "a>b[7]>c]d" = .ok ⟨"a>b[7]>c]d", [.object "a", .element "b" 7, .array "c]d"]⟩ := by
  have h : compile "a>b[ +07 ]>c]d" =
      .ok ⟨"a>b[ +07 ]>c]d", [.object "a", .element "b" 7, .array "c]d"]⟩ := by decide +kernel
  have hwritten : written [.object "a", .element "b" 7, .array "c]d"] = "a>b[7]>c]d" := by decide +kernel
  exact ⟨⟨_, h, hwritten⟩, hwritten ▸ ((compile_grammar _).2 _ h).2.2⟩

end RecordPath

end FeedFiler
