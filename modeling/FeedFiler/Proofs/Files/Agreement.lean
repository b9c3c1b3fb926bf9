import FeedFiler.Proofs.Files.Walking

/-!
# Trees that agree on some targets

Writers that have targets of their own share a tree. A writer makes directories above its targets, but only up
to some entry: the directories from there on, through which the name of a file leads, must be there. So what
matters to a writer is what stands at its targets and on the way to them from these entries on, and where files
are in the way. What a writer with unrelated targets does changes neither.
-/

namespace FeedFiler

open FileTree

/-- Neither of the locations is above the other one. -/
def Abreast (p q : Location) : Prop := p <+: q ∨ q <+: p → p = q

instance (p q : Location) : Decidable (Abreast p q) :=
  inferInstanceAs (Decidable (p <+: q ∨ q <+: p → p = q))

theorem Abreast.symm {p q : Location} (h : Abreast p q) : Abreast q p := fun hm => (h hm.symm).symm

theorem Abreast.eq_of_between {p q l : Location} (h : Abreast p q) (hq : q <+: l) (hl : l <+: p) : l = p := by
  obtain rfl : p = q := h (.inr (hq.trans hl))
  exact hl.eq_of_length_le hq.length_le

namespace FileTree

/-- The targets of a writer, each with the entry up to which the writer makes directories. -/
abbrev Targets := Location → Location → Prop

/-- The location is a target or on the way to one, from the entry on. -/
def Held (own : Targets) (l : Location) : Prop := ∃ e p, own e p ∧ e <+: l ∧ l <+: p

/-- The location is one of the targets or above one. -/
def OnWay (own : Targets) (l : Location) : Prop := ∃ e p, own e p ∧ l <+: p

/-- The trees are the same for one who writes to these targets. -/
structure Agree (own : Targets) (s t : FileTree) : Prop where
  current : t.current = s.current
  held : ∀ l, Held own l → t.get? l = s.get? l
  ways : ∀ l, OnWay own l → (t.HoldsFile l ↔ s.HoldsFile l)

/-- None of the targets is one of the others or above one of them, and none of the directories that are made for
one of them is on the way to another one from its entry on. -/
def Unrelated (own other : Targets) : Prop :=
  ∀ e p e' p', own e p → other e' p' → (¬ p <+: p' ∧ ¬ p' <+: p) ∧ Abreast e e'

/-- What an operation of one who appends to these targets may do to a tree. -/
inductive Change (own : Targets) (t : FileTree) : FileTree → Prop where
  | none : Change own t t
  /-- A directory above an entry is made. -/
  | dir {l e p : Location} (nonempty : l ≠ []) (free : t.get? l = none) (target : own e p)
      (above : l <+: e) (proper : l ≠ e) : Change own t (t.put l .dir)
  /-- The file at a target is written. -/
  | file {e p : Location} (content : ByteArray) (nonempty : p ≠ []) (target : own e p)
      (noDir : t.get? p ≠ some .dir) : Change own t (t.put p (.file content))

variable {own other : Targets} {s t t' : FileTree} {p l : Location}

theorem Agree.refl (own : Targets) (t : FileTree) : Agree own t t :=
  ⟨rfl, fun _ _ => rfl, fun _ _ => .rfl⟩

theorem Agree.trans (h : Agree own s t) (h' : Agree own t t') : Agree own s t' := by
  refine ⟨h'.current.trans h.current, ?_, ?_⟩
  · intro l hl
    rw [h'.held l hl, h.held l hl]
  · intro l hl
    rw [h'.ways l hl, h.ways l hl]

theorem Held.onWay (h : Held own l) : OnWay own l := by
  obtain ⟨e, p, hown, -, hl⟩ := h
  exact ⟨e, p, hown, hl⟩

theorem holdsFile_congr (h : t'.get? p = t.get? p) : t'.HoldsFile p ↔ t.HoldsFile p := by
  rw [HoldsFile, HoldsFile, h]

theorem not_holdsFile_of_none (h : t.get? p = none) : ¬ t.HoldsFile p := by
  rintro ⟨content, hf⟩
  rw [h] at hf
  cases hf

theorem not_holdsFile_of_dir (h : t.get? p = some .dir) : ¬ t.HoldsFile p := by
  rintro ⟨content, hf⟩
  rw [h] at hf
  cases hf

theorem holdsFile_put_dir (hp : p ≠ []) (hn : t.get? p = none) (q : Location) :
    (t.put p .dir).HoldsFile q ↔ t.HoldsFile q := by
  by_cases hq : q = p
  · subst hq
    refine iff_of_false (not_holdsFile_of_dir ?_) (not_holdsFile_of_none hn)
    rw [get?_put hp, if_pos rfl]
  · apply holdsFile_congr
    rw [get?_put hp, if_neg hq]

theorem Change.keepsDirs (h : Change own t t') : t.KeepsDirs t' := by
  cases h with
  | none => exact .refl t
  | dir nonempty free target above proper => exact keepsDirs_put nonempty fun _ => rfl
  | file content nonempty target noDir => exact keepsDirs_put nonempty fun hd => absurd hd noDir

/-- What one writer does changes nothing for another one whose targets are unrelated. -/
theorem Change.agree (hu : Unrelated own other) (h : Change own t t') : Agree other t t' := by
  cases h with
  | none => exact .refl other t
  | @dir l e p nonempty free target above proper =>
      refine ⟨rfl, ?_, fun l' _ => holdsFile_put_dir nonempty free l'⟩
      rintro l' ⟨e', p', htarget', hentry, -⟩
      rw [get?_put nonempty, if_neg]
      -- A directory that is made for one of them and held by the other one would be the entry of both.
      rintro rfl
      exact proper ((hu e p e' p' target htarget').2.eq_of_between hentry above)
  | @file e p content nonempty target noDir =>
      have hget : ∀ l, OnWay other l → (t.put p (.file content)).get? l = t.get? l := by
        rintro l ⟨e', p', htarget', hl⟩
        rw [get?_put nonempty, if_neg]
        rintro rfl
        exact (hu e l e' p' target htarget').1.1 hl
      exact ⟨rfl, fun l hl => hget l hl.onWay, fun l hl => holdsFile_congr (hget l hl)⟩

end FileTree

end FeedFiler
