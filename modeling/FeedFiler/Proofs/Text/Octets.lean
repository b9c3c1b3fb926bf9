import FeedFiler.Proofs.Text.Cut

/-!
# Places in the UTF-8 form of a text

The octets of a mark stand in the octets of a text only where the mark stands in the text. So a search for
octets ends between two characters, and at the same place as the search for characters.
-/

namespace FeedFiler.Text

variable {mark s t front before after : List Char} {i k : Nat} {c : Char}

/-- The UTF-8 form of a text. -/
def octets (s : List Char) : List UInt8 := s.flatMap String.utf8EncodeChar

/-- The number of octets of a text. -/
def size (s : List Char) : Nat := (octets s).length

@[simp] theorem octets_nil : octets [] = [] := rfl

@[simp] theorem octets_cons (c : Char) (s : List Char) : octets (c :: s) = String.utf8EncodeChar c ++ octets s :=
  rfl

@[simp] theorem octets_append (s t : List Char) : octets (s ++ t) = octets s ++ octets t := List.flatMap_append

@[simp] theorem size_nil : size [] = 0 := rfl

@[simp] theorem size_cons (c : Char) (s : List Char) : size (c :: s) = c.utf8Size + size s := by
  simp [size]

@[simp] theorem size_append (s t : List Char) : size (s ++ t) = size s + size t := by
  simp [size]

theorem size_lt_size (h : s <+: t) (hl : s.length < t.length) : size s < size t := by
  obtain ⟨rest, rfl⟩ := h
  cases rest with
  | nil => simp at hl
  | cons c rest =>
      have := c.utf8Size_pos
      simp only [size_append, size_cons]
      omega

/-- Of two prefixes of a text, the one with fewer octets is the shorter one. -/
theorem size_take_le_iff (h : t <+: s) (hk : k ≤ s.length) : size (s.take k) ≤ size t ↔ k ≤ t.length := by
  have hlen : (s.take k).length = k := List.length_take_of_le hk
  rcases List.prefix_or_prefix_of_prefix (List.take_prefix k s) h with hp | hp
  · refine iff_of_true ?_ (hlen ▸ hp.length_le)
    obtain ⟨rest, rfl⟩ := hp
    rw [size_append]
    exact Nat.le_add_right _ _
  · rcases Nat.lt_or_ge t.length k with hlt | hle
    · exact iff_of_false (Nat.not_le.2 (size_lt_size hp (by rwa [hlen]))) (Nat.not_le.2 hlt)
    · rw [← hp.eq_of_length_le (by rwa [hlen])]
      exact iff_of_true (Nat.le_refl _) hle

/-! ## Octets of a mark -/

theorem octets_prefix_iff : octets mark <+: octets s ↔ mark <+: s := by
  constructor
  · rintro ⟨rest, h⟩
    refine List.isPrefix_of_utf8Encode_append_eq_utf8Encode rest.toByteArray ?_
    rw [List.utf8Encode, List.utf8Encode, ← List.toByteArray_append]
    exact congrArg List.toByteArray h
  · rintro ⟨rest, rfl⟩
    rw [octets_append]
    exact List.prefix_append _ _

theorem octets_inj : octets s = octets t ↔ s = t := by
  refine ⟨fun h => ?_, fun h => h ▸ rfl⟩
  have hs : s <+: t := octets_prefix_iff.1 (h ▸ List.prefix_refl _)
  have ht : t <+: s := octets_prefix_iff.1 (h ▸ List.prefix_refl _)
  exact hs.eq_of_length_le ht.length_le

/-- A place between two characters, or at an end. -/
def AtChar (page : List UInt8) (i : Nat) : Prop :=
  i = page.length ∨ ∃ b ∈ page[i]?, b.IsUTF8FirstByte

instance (page : List UInt8) (i : Nat) : Decidable (AtChar page i) :=
  decidable_of_iff (i = page.length ∨ (page[i]?.any fun b => decide b.IsUTF8FirstByte) = true)
    (or_congr_right (by cases page[i]? <;> simp))

/-- The places between the characters of a text are where its prefixes end. -/
theorem atChar_octets_iff : AtChar (octets s) i ↔ ∃ k ≤ s.length, i = size (s.take k) := by
  induction s generalizing i with
  | nil => simp [AtChar]
  | cons c s ih =>
      rw [octets_cons]
      by_cases hi : i < c.utf8Size
      · have hfirst : AtChar (String.utf8EncodeChar c ++ octets s) i ↔ i = 0 := by
          have hlt : i < (String.utf8EncodeChar c).length := by simpa using hi
          simp only [AtChar, List.length_append, String.length_utf8EncodeChar,
            List.getElem?_append_left hlt, List.getElem?_eq_getElem hlt, Option.mem_some_iff,
            exists_eq_left', UInt8.isUTF8FirstByte_getElem_utf8EncodeChar]
          omega
        rw [hfirst]
        constructor
        · rintro rfl
          exact ⟨0, Nat.zero_le _, rfl⟩
        · rintro ⟨k, -, rfl⟩
          cases k with
          | zero => rfl
          | succ k =>
              rw [List.take_succ_cons, size_cons] at hi
              omega
      · obtain ⟨j, rfl⟩ := Nat.exists_eq_add_of_le (Nat.not_lt.1 hi)
        have hshift : AtChar (String.utf8EncodeChar c ++ octets s) (c.utf8Size + j) ↔
            AtChar (octets s) j := by
          rw [AtChar, AtChar, List.getElem?_append_right (by simp)]
          simp [String.length_utf8EncodeChar]
        rw [hshift, ih]
        constructor
        · rintro ⟨k, hk, rfl⟩
          exact ⟨k + 1, by simpa using hk, by simp⟩
        · rintro ⟨k, hk, he⟩
          cases k with
          | zero =>
              have := c.utf8Size_pos
              simp only [List.take_zero, size_nil] at he
              omega
          | succ k =>
              refine ⟨k, by simpa using hk, ?_⟩
              simpa using he

theorem atChar_append (s t : List Char) : AtChar (octets (s ++ t)) (size s) :=
  atChar_octets_iff.2 ⟨s.length, by simp, by simp⟩

theorem drop_octets (s t : List Char) : (octets (s ++ t)).drop (size s) = octets t := by
  rw [octets_append, size, List.drop_left]

/-- The octets of a mark stand where the mark stands. -/
theorem octets_prefix_drop_iff (hm : mark ≠ []) :
    octets mark <+: (octets s).drop i ↔ ∃ k ≤ s.length, i = size (s.take k) ∧ StandsAt mark s k := by
  have hstands : ∀ k, octets mark <+: (octets s).drop (size (s.take k)) ↔ StandsAt mark s k := by
    intro k
    have hd := drop_octets (s.take k) (s.drop k)
    rw [List.take_append_drop] at hd
    rw [hd, octets_prefix_iff]
    rfl
  constructor
  · intro h
    -- the first octet of the mark begins a character
    have hchar : AtChar (octets s) i := by
      cases mark with
      | nil => exact absurd rfl hm
      | cons c mark =>
          have hpos : 0 < (String.utf8EncodeChar c).length := by simpa using c.utf8Size_pos
          obtain ⟨rest, h⟩ := h
          have hfirst : (octets s)[i]? = some (String.utf8EncodeChar c)[0] := by
            have hzero := congrArg (·[0]?) h
            simp only [octets_cons, List.append_assoc, List.getElem?_drop, Nat.add_zero] at hzero
            rw [← hzero, List.getElem?_append_left hpos, List.getElem?_eq_getElem hpos]
          refine .inr ⟨_, hfirst, UInt8.isUTF8FirstByte_getElem_zero_utf8EncodeChar⟩
    obtain ⟨k, hk, rfl⟩ := atChar_octets_iff.1 hchar
    exact ⟨k, hk, rfl, (hstands k).1 h⟩
  · rintro ⟨k, -, rfl, h⟩
    exact (hstands k).2 h

/-! ## Searches -/

/-- The first place at which some octets stand. -/
def find? (mark page : List UInt8) : Option Nat :=
  (List.range (page.length + 1)).find? fun i => mark.isPrefixOf (page.drop i)

/-- A search for octets ends where the search for characters does. -/
theorem find?_octets (hm : mark ≠ []) :
    find? (octets mark) (octets s) = (cut? mark s).map fun p => size p.1 := by
  cases hc : cut? mark s with
  | none =>
      rw [find?, Option.map_none, List.find?_range_eq_none]
      intro i _
      rw [Bool.not_eq_true', Bool.eq_false_iff, ne_eq, List.isPrefixOf_iff_prefix, octets_prefix_drop_iff hm]
      rintro ⟨k, -, -, h⟩
      exact cut?_eq_none_iff.1 hc k h
  | some p =>
      obtain ⟨before, after⟩ := p
      have htake : s.take before.length = before := by
        rw [eq_of_cut? hc, List.append_assoc, List.take_left]
      have hle : before.length ≤ s.length := by
        have := length_of_cut? hc
        omega
      rw [find?, Option.map_some, List.find?_range_eq_some]
      refine ⟨?_, ?_, fun j hj => ?_⟩
      · rw [List.isPrefixOf_iff_prefix, octets_prefix_drop_iff hm]
        exact ⟨before.length, hle, by rw [htake], standsAt_of_cut? hc⟩
      · rw [List.mem_range, Nat.lt_succ_iff, eq_of_cut? hc]
        simp [size]
      · rw [Bool.not_eq_true', Bool.eq_false_iff, ne_eq, List.isPrefixOf_iff_prefix, octets_prefix_drop_iff hm]
        rintro ⟨k, hk, rfl, h⟩
        have hbefore : before <+: s := htake ▸ List.take_prefix _ _
        have hlt : k < before.length := by
          refine Nat.lt_of_not_le fun hge => ?_
          have := (size_take_le_iff (List.take_prefix k s) hle).2 (by simpa [hk] using hge)
          rw [htake] at this
          exact absurd hj (Nat.not_lt.2 this)
        exact not_standsAt_of_cut? hc hlt h

theorem prefix_of_find? {mark page : List UInt8} (h : find? mark page = some i) : mark <+: page.drop i := by
  have hp := List.find?_some h
  exact List.isPrefixOf_iff_prefix.1 hp

/-- The last octet of a text tells whether the text ends with a character of one octet. -/
theorem getLast?_octets_iff {b : UInt8} (hc : String.utf8EncodeChar c = [b]) :
    (octets s).getLast? = some b ↔ s.getLast? = some c := by
  rcases List.eq_nil_or_concat s with rfl | ⟨s, d, rfl⟩
  · simp
  rw [List.concat_eq_append, octets_append, List.getLast?_concat, octets_cons, octets_nil, List.append_nil,
    List.getLast?_append, List.getLast?_eq_some_getLast String.utf8EncodeChar_ne_nil, Option.some_or, Option.some.injEq,
    Option.some.injEq]
  constructor
  · intro h
    -- an octet that begins a character ends it only if it is the only one
    have hfirst : ((String.utf8EncodeChar d).getLast String.utf8EncodeChar_ne_nil).IsUTF8FirstByte := by
      rw [h]
      have := UInt8.isUTF8FirstByte_getElem_zero_utf8EncodeChar (c := c)
      simpa only [hc, List.getElem_singleton] using this
    rw [List.getLast_eq_getElem, UInt8.isUTF8FirstByte_getElem_utf8EncodeChar] at hfirst
    have hlen : (String.utf8EncodeChar d).length = 1 := by
      have := d.utf8Size_pos
      rw [String.length_utf8EncodeChar] at hfirst ⊢
      omega
    obtain ⟨b', hb⟩ := List.length_eq_one_iff.1 hlen
    have hb' : b' = b := by simpa [hb] using h
    have hd : octets [d] = octets [c] := by simp [hb, hc, hb']
    exact (List.cons.inj (octets_inj.1 hd)).1
  · rintro rfl
    simp [hc]

/-! ## The order of octets -/

theorem octets_cons_of_lt (hc : c.toNat < 128) (s : List Char) : octets (c :: s) = c.val.toUInt8 :: octets s := by
  have hsize : c.utf8Size = 1 := Char.utf8Size_eq_one_iff.2 (UInt32.le_iff_toNat_le.2 (Nat.le_of_lt_succ hc))
  rw [octets_cons, String.utf8EncodeChar_eq_singleton hsize]
  rfl

theorem toNat_toUInt8 (hc : c.toNat < 128) : c.val.toUInt8.toNat = c.toNat := by
  rw [UInt32.toNat_toUInt8]
  exact Nat.mod_eq_of_lt (Nat.lt_trans hc (by decide))

/-- Texts in ASCII have octets in the order of the texts. -/
theorem octets_lt_octets (hs : ∀ c ∈ s, c.toNat < 128) (ht : ∀ c ∈ t, c.toNat < 128) (h : s < t) :
    octets s < octets t := by
  induction s generalizing t with
  | nil =>
      cases t with
      | nil => exact absurd h (List.lt_irrefl _)
      | cons d t =>
          rw [octets_cons_of_lt (ht d List.mem_cons_self)]
          exact List.nil_lt_cons _ _
  | cons c s ih =>
      cases t with
      | nil => exact absurd h (List.not_lt_nil _)
      | cons d t =>
          obtain ⟨hc, hs'⟩ := List.forall_mem_cons.1 hs
          obtain ⟨hd, ht'⟩ := List.forall_mem_cons.1 ht
          rw [octets_cons_of_lt hc, octets_cons_of_lt hd, List.cons_lt_cons_iff]
          rcases List.cons_lt_cons_iff.1 h with hlt | ⟨rfl, hlt⟩
          · refine .inl (UInt8.lt_iff_toNat_lt.2 ?_)
            rw [toNat_toUInt8 hc, toNat_toUInt8 hd]
            exact hlt
          · exact .inr ⟨rfl, ih hs' ht' hlt⟩

end FeedFiler.Text
