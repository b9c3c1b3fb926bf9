import FeedFiler.Text.Cut

/-!
# Where a text is cut

`cut?` finds the first place at which its mark stands, and fails only if the mark stands nowhere. A
text in which the mark cannot begin is passed over, whatever follows it.
-/

namespace FeedFiler.Text

variable {mark s t before after : List Char}

/-- The mark stands at a place of a text. -/
def StandsAt (mark s : List Char) (i : Nat) : Prop := mark <+: s.drop i

theorem standsAt_drop {i j : Nat} : StandsAt mark (s.drop i) j ↔ StandsAt mark s (i + j) := by
  rw [StandsAt, StandsAt, List.drop_drop]

theorem cut?_cons_of_standsAt {c : Char} (h : mark <+: c :: s) :
    cut? mark (c :: s) = some ([], (c :: s).drop mark.length) := by
  rw [cut?, if_pos (List.isPrefixOf_iff_prefix.2 h)]

theorem cut?_cons_of_not_standsAt {c : Char} (h : ¬ mark <+: c :: s) :
    cut? mark (c :: s) = (cut? mark s).map fun p => (c :: p.1, p.2) := by
  rw [cut?, if_neg fun hp => h (List.isPrefixOf_iff_prefix.1 hp)]

theorem cut?_self_append (mark s : List Char) : cut? mark (mark ++ s) = some ([], s) := by
  cases mark with
  | nil =>
      cases s with
      | nil => rfl
      | cons c s => exact cut?_cons_of_standsAt List.nil_prefix
  | cons c mark =>
      have h : cut? (c :: mark) (c :: (mark ++ s)) = _ :=
        cut?_cons_of_standsAt (List.prefix_append (c :: mark) s)
      rw [← List.cons_append, List.drop_left] at h
      exact h

theorem cut?_eq_none_iff : cut? mark s = none ↔ ∀ i, ¬ StandsAt mark s i := by
  induction s with
  | nil => cases mark <;> simp [cut?, StandsAt]
  | cons c s ih =>
      by_cases hp : mark <+: c :: s
      · rw [cut?_cons_of_standsAt hp]
        refine iff_of_false (by simp) ?_
        intro h
        exact h 0 hp
      · rw [cut?_cons_of_not_standsAt hp, Option.map_eq_none_iff, ih]
        constructor
        · intro h i
          cases i with
          | zero => exact hp
          | succ i => exact h i
        · intro h i
          exact h (i + 1)

/-- A text that holds its mark nowhere is not cut. -/
theorem cut?_eq_none_iff_not_infix : cut? mark s = none ↔ ¬ mark <:+: s := by
  rw [cut?_eq_none_iff]
  constructor
  · rintro h ⟨front, rest, rfl⟩
    refine h front.length ?_
    rw [StandsAt, List.append_assoc, List.drop_left]
    exact List.prefix_append mark rest
  · exact fun h i hi => h (hi.isInfix.trans (List.drop_suffix i s).isInfix)

/-- The mark stands where the text is cut, and nowhere before. -/
theorem standsAt_of_cut? (h : cut? mark s = some (before, after)) : StandsAt mark s before.length := by
  rw [StandsAt, eq_of_cut? h, List.append_assoc, List.drop_left]
  exact List.prefix_append mark after

theorem not_standsAt_of_cut? (h : cut? mark s = some (before, after)) {i : Nat} (hi : i < before.length) :
    ¬ StandsAt mark s i := by
  induction s generalizing before i with
  | nil =>
      rw [cut?] at h
      split at h <;> cases h
      exact absurd hi (Nat.not_lt_zero i)
  | cons c s ih =>
      by_cases hp : mark <+: c :: s
      · rw [cut?_cons_of_standsAt hp] at h
        cases h
        exact absurd hi (Nat.not_lt_zero i)
      · rw [cut?_cons_of_not_standsAt hp] at h
        obtain ⟨⟨b, a⟩, hb, he⟩ := Option.map_eq_some_iff.1 h
        cases he
        cases i with
        | zero => exact hp
        | succ i => exact ih hb (Nat.lt_of_succ_lt_succ hi)

theorem cut?_of_first {i : Nat} (h : StandsAt mark s i) (hn : ∀ j, j < i → ¬ StandsAt mark s j) :
    cut? mark s = some (s.take i, s.drop (i + mark.length)) := by
  cases hc : cut? mark s with
  | none => exact absurd h (cut?_eq_none_iff.1 hc i)
  | some p =>
      obtain ⟨before, after⟩ := p
      have hi : i = before.length := by
        rcases Nat.lt_trichotomy i before.length with hlt | he | hgt
        · exact absurd h (not_standsAt_of_cut? hc hlt)
        · exact he
        · exact absurd (standsAt_of_cut? hc) (hn before.length hgt)
      subst hi
      rw [← List.drop_drop]
      simp [eq_of_cut? hc]

/-! ## Passing over a text -/

/-- The mark begins at no place of `s`, whatever follows. -/
def Skips (mark s : List Char) : Prop :=
  ∀ rest, cut? mark (s ++ rest) = (cut? mark rest).map fun p => (s ++ p.1, p.2)

theorem skips_nil (mark : List Char) : Skips mark [] := by
  intro rest
  simp

theorem Skips.append (h : Skips mark s) (h' : Skips mark t) : Skips mark (s ++ t) := by
  intro rest
  rw [List.append_assoc, h, h', Option.map_map]
  simp [Function.comp_def]

theorem Skips.cons {c : Char} (h : Skips mark s) (hc : ∀ rest, ¬ mark <+: c :: (s ++ rest)) :
    Skips mark (c :: s) := by
  intro rest
  rw [List.cons_append, cut?_cons_of_not_standsAt (hc rest), h, Option.map_map]
  rfl

/-- A text without the first character of the mark. -/
theorem skips_of_notMem {c : Char} (h : c ∉ s) : Skips (c :: mark) s := by
  induction s with
  | nil => exact skips_nil _
  | cons d s ih =>
      simp only [List.mem_cons, not_or] at h
      refine (ih h.2).cons fun rest hp => h.1 ?_
      exact (List.cons_prefix_cons.1 hp).1

theorem Skips.cut?_append (h : Skips mark s) (rest : List Char) :
    cut? mark (s ++ (mark ++ rest)) = some (s, rest) := by
  rw [h, cut?_self_append, Option.map_some, List.append_nil]

/-! ## Cutting at a single character -/

variable {c : Char}

theorem cut?_char (h : c ∉ s) (rest : List Char) : cut? [c] (s ++ c :: rest) = some (s, rest) :=
  (skips_of_notMem h).cut?_append rest

/-- A text with `c` behind it is cut at the first `c`. -/
theorem exists_cut?_char (c : Char) (s rest : List Char) :
    ∃ after, cut? [c] (s ++ c :: rest) = some (s.takeWhile (· ≠ c), after) := by
  induction s with
  | nil => exact ⟨rest, cut?_char List.not_mem_nil rest⟩
  | cons d s ih =>
      by_cases hd : d = c
      · subst hd
        exact ⟨s ++ d :: rest, by simpa using cut?_char List.not_mem_nil (s ++ d :: rest)⟩
      · obtain ⟨after, ha⟩ := ih
        refine ⟨after, ?_⟩
        have hskip : ¬ [c] <+: d :: (s ++ c :: rest) := fun h => hd (List.cons_prefix_cons.1 h).1.symm
        rw [List.cons_append, cut?_cons_of_not_standsAt hskip, ha, List.takeWhile_cons_of_pos (by simpa using hd)]
        rfl

theorem cut?_char_eq_none (h : c ∉ s) : cut? [c] s = none := by
  have hs : cut? [c] (s ++ []) = _ := skips_of_notMem h []
  rwa [List.append_nil] at hs

theorem cut?_char_of_mem (h : c ∈ s) : ∃ before after, cut? [c] s = some (before, after) := by
  cases hc : cut? [c] s with
  | some p => exact ⟨p.1, p.2, rfl⟩
  | none =>
      obtain ⟨before, after, rfl⟩ := List.append_of_mem h
      refine absurd ?_ (cut?_eq_none_iff.1 hc before.length)
      rw [StandsAt, List.drop_left]
      exact List.prefix_append [c] after

theorem notMem_of_cut?_char (h : cut? [c] s = some (before, after)) : c ∉ before := by
  intro hm
  obtain ⟨u, v, hu⟩ := List.append_of_mem hm
  refine not_standsAt_of_cut? h (i := u.length) (by rw [hu]; simp) ?_
  rw [StandsAt, eq_of_cut? h, hu]
  simp

/-- The text before the first place of a character. -/
theorem takeWhile_append_cons (h : c ∉ s) (t : List Char) : (s ++ c :: t).takeWhile (· ≠ c) = s := by
  have hs : ∀ d ∈ s, decide (d ≠ c) = true := fun d hd => decide_eq_true fun he => h (he ▸ hd)
  rw [List.takeWhile_append_of_pos hs]
  simp

theorem takeWhile_of_cut?_char (h : cut? [c] s = some (before, after)) : s.takeWhile (· ≠ c) = before := by
  rw [eq_of_cut? h, List.append_assoc, List.singleton_append, takeWhile_append_cons (notMem_of_cut?_char h)]

theorem cut?_char_append (h : cut? [c] s = some (before, after)) (t : List Char) :
    cut? [c] (s ++ t) = some (before, after ++ t) := by
  rw [eq_of_cut? h]
  simp only [List.append_assoc, List.singleton_append]
  exact cut?_char (notMem_of_cut?_char h) (after ++ t)

theorem getLast?_of_cut?_char (h : cut? [c] s = some (before, after)) :
    s.getLast? = (c :: after).getLast? := by
  rw [eq_of_cut? h, List.append_assoc, List.singleton_append, List.getLast?_append]
  cases hl : (c :: after).getLast? with
  | none => exact absurd (List.getLast?_eq_none_iff.1 hl) (List.cons_ne_nil c after)
  | some d => rfl

/-! ## The parts between the places of a character -/

theorem splitAt_eq_splitOn (c : Char) (s : List Char) : splitAt c s = s.splitOn c := by
  induction s with
  | nil => rfl
  | cons d s ih =>
      rw [splitAt, ih, List.splitOn_cons_eq_if_modifyHead]
      by_cases hd : d = c
      · rw [if_pos hd, if_pos (beq_iff_eq.2 hd)]
      · rw [if_neg hd, if_neg (by simpa using hd)]
        cases hs : s.splitOn c with
        | nil => exact absurd hs (List.splitOn_ne_nil c s)
        | cons part parts => rfl

theorem splitAt_ne_nil (c : Char) (s : List Char) : splitAt c s ≠ [] := by
  rw [splitAt_eq_splitOn]
  exact List.splitOn_ne_nil c s

theorem splitAt_of_notMem (h : c ∉ s) : splitAt c s = [s] := by
  rw [splitAt_eq_splitOn, List.splitOn_eq_singleton h]

theorem intercalate_splitAt (c : Char) (s : List Char) : [c].intercalate (splitAt c s) = s := by
  rw [splitAt_eq_splitOn, List.intercalate_splitOn]

theorem splitAt_append (c : Char) (s t : List Char) :
    splitAt c (s ++ c :: t) = splitAt c s ++ splitAt c t := by
  induction s with
  | nil => simp [splitAt]
  | cons x s ih =>
      rw [List.cons_append, splitAt, splitAt, ih]
      split
      · rfl
      · cases hs : splitAt c s with
        | nil => exact absurd hs (splitAt_ne_nil c s)
        | cons part parts => rfl

theorem notMem_of_mem_splitAt : ∀ part ∈ splitAt c s, c ∉ part := by
  induction s with
  | nil => simp [splitAt]
  | cons x s ih =>
      rw [splitAt]
      split
      · rw [List.forall_mem_cons]
        exact ⟨List.not_mem_nil, ih⟩
      · next hx =>
          cases hs : splitAt c s with
          | nil => exact absurd hs (splitAt_ne_nil c s)
          | cons part parts =>
              rw [hs, List.forall_mem_cons] at ih
              rw [List.forall_mem_cons]
              refine ⟨?_, ih.2⟩
              simp only [List.mem_cons, not_or]
              exact ⟨Ne.symm hx, ih.1⟩

end FeedFiler.Text
