import FeedFiler.Proofs.Files.Filing

/-!
# Unrelated writes

Two requests whose files and versions before are unrelated commute: carried out in either order, or with their
operations in any order, they leave the same files and have the same results. They may need the same
directories, find directories or files in their way, and fail. But the name of a file must not lead into a
directory that the other request makes.
-/

namespace FeedFiler

open FileTree

/-- Two writes that share the files, and what is left to do of each. -/
structure TwoWrites where
  files : FileTree
  first : Writing
  second : Writing

/-- Which of the two writes has a turn. -/
inductive Writer where
  | first
  | second
deriving DecidableEq

/-- The files that a request may write: its own and the version before. -/
def FileTree.written (t : FileTree) (r : WriteRequest) : List Location :=
  [t.locate r.path, t.locate (prevPath r.path)]

/-- None of the locations is one of the others or above one of them. -/
def Apart (locs others : List Location) : Prop := ∀ p ∈ locs, ∀ q ∈ others, ¬ p <+: q ∧ ¬ q <+: p

instance (locs others : List Location) : Decidable (Apart locs others) :=
  inferInstanceAs (Decidable (∀ p ∈ locs, ∀ q ∈ others, ¬ p <+: q ∧ ¬ q <+: p))

variable {mode₁ mode₂ : StoreMode} {r₁ r₂ r : WriteRequest} {s t t' u : FileTree} {w w₁ w₂ : Writing}
  {p l : Location}

namespace TwoWrites

def start (r₁ r₂ : WriteRequest) (t : FileTree) : TwoWrites := ⟨t, .start r₁, .start r₂⟩

/-- The next operation of one of the writes. -/
def turn (mode₁ mode₂ : StoreMode) (r₁ r₂ : WriteRequest) (x : TwoWrites) : Writer → TwoWrites
  | .first =>
    let (files, first) := Writing.step mode₁ r₁ x.files x.first
    { x with files, first }
  | .second =>
    let (files, second) := Writing.step mode₂ r₂ x.files x.second
    { x with files, second }

def run (mode₁ mode₂ : StoreMode) (r₁ r₂ : WriteRequest) (t : FileTree) (schedule : List Writer) : TwoWrites :=
  schedule.foldl (turn mode₁ mode₂ r₁ r₂) (start r₁ r₂ t)

end TwoWrites

/-! ## What a write leaves to an unrelated one -/

namespace Aim

variable {a : Aim s.current r₁.entry} {b : Aim s.current r₂.entry}

/-- The file and the version before. -/
def files {cur : Location} (a : Aim cur r.entry) : List Location :=
  [a.file, a.folder ++ [prevPath r.base]]

theorem own_iff {a : Aim s.current r.entry} : a.Own l ↔ ∃ p ∈ a.files, p <+: l := by
  simp [Own, Inside, files, file]

theorem prefix_folder (a : Aim s.current r.entry) (hp : p <+: a.target) (hne : p ≠ a.target) :
    p <+: a.folder := by
  rw [target_eq] at hp hne
  exact ((List.prefix_concat_iff.1 hp).resolve_left hne).trans (List.prefix_append _ _)

section

variable (h : Apart a.files b.files)
include h

theorem not_own_of_own (hl : a.Own l) : ¬ b.Own l := by
  rw [own_iff] at hl ⊢
  obtain ⟨p, hp, hpl⟩ := hl
  rintro ⟨q, hq, hql⟩
  rcases List.prefix_or_prefix_of_prefix hpl hql with he | he
  · exact (h p hp q hq).1 he
  · exact (h p hp q hq).2 he

theorem not_own_of_folder (hp : p <+: b.folder) : ¬ a.Own p := by
  rw [own_iff]
  rintro ⟨q, hq, hqp⟩
  exact (h q hq _ List.mem_cons_self).1 ((hqp.trans hp).trans (List.prefix_append _ _))

theorem not_kept_of_makes (hm : Abreast a.target b.target) (hp : a.Makes s p) : ¬ b.Kept p := by
  obtain ⟨-, habove, hne⟩ := above_of_makes hp
  rintro (hown | ⟨htarget, -⟩)
  · obtain ⟨q, hq, hqp⟩ := own_iff.1 hown
    exact (h _ List.mem_cons_self q hq).2
      ((hqp.trans (a.prefix_folder habove hne)).trans (List.prefix_append _ _))
  · exact hne (hm.eq_of_between htarget habove)

/-- **Nothing that one request does disturbs the other one.** -/
theorem Acts.spared (hm : Abreast a.target b.target) (hact : a.Acts t t') : b.Spared t t' := by
  rcases hact with hadds | hwithin
  · cases hadds with
    | none => exact .refl b t
    | dir makes free => exact spared_put (above_of_makes makes).1 free (not_kept_of_makes h hm makes)
  · refine ⟨⟨hwithin.current, fun p hp hne => ?_⟩, fun l hl => hwithin.entries l ?_⟩
    · exact .inl (hwithin.get? (not_own_of_folder h (b.prefix_folder hp hne)))
    · rcases hl with hown | ⟨-, hfolder⟩
      · exact fun hal => not_own_of_own h hal hown
      · exact not_own_of_folder h hfolder

end

/-! ## Two requests -/

/-- The two requests are under way, beginning with `s`, and nothing has changed elsewhere but that directories
have been made which one of them makes. -/
structure UnderWay (a : Aim s.current r₁.entry) (b : Aim s.current r₂.entry) (mode₁ mode₂ : StoreMode)
    (t : FileTree) (w₁ w₂ : Writing) : Prop where
  first : a.Course mode₁ t w₁
  second : b.Course mode₂ t w₂
  current : t.current = s.current
  elsewhere : ∀ l, ¬ a.Own l → ¬ b.Own l →
    t.entries[l]? = s.entries[l]? ∨ (a.Makes s l ∨ b.Makes s l) ∧ t.entries[l]? = some .dir

/-- Two requests that write unrelated files. -/
structure Independent (a : Aim s.current r₁.entry) (b : Aim s.current r₂.entry) : Prop where
  rooted : s.Rooted
  apart : Apart a.files b.files
  abreast : Abreast a.target b.target
  first : a.Reaches
  second : b.Reaches

theorem Independent.symm (h : Independent a b) : Independent b a :=
  ⟨h.rooted, fun q hq p hp => (h.apart p hp q hq).symm, h.abreast.symm, h.second, h.first⟩

namespace UnderWay

variable (h : UnderWay a b mode₁ mode₂ t w₁ w₂)
include h

theorem symm : UnderWay b a mode₂ mode₁ t w₂ w₁ :=
  ⟨h.second, h.first, h.current, fun l hb ha => (h.elsewhere l ha hb).imp_right fun hm => ⟨hm.1.symm, hm.2⟩⟩

theorem step (hi : Independent a b) :
    UnderWay a b mode₁ mode₂ (Writing.step mode₁ r₁ t w₁).1 (Writing.step mode₁ r₁ t w₁).2 w₂ := by
  obtain ⟨hact, hnext⟩ := h.first.step hi.rooted hi.first
  have hspared := hact.spared hi.apart hi.abreast
  refine ⟨hnext, h.second.keep hspared, hspared.current.trans h.current, fun l ha hb => ?_⟩
  have hbefore := h.elsewhere l ha hb
  rcases hact with hadds | hwithin
  · generalize (Writing.step mode₁ r₁ t w₁).1 = t' at hadds
    cases hadds with
    | none => exact hbefore
    | @dir p makes free =>
        rw [getElem?_put]
        by_cases hp : p = l
        · subst hp
          exact .inr ⟨.inl makes, if_pos rfl⟩
        · rwa [if_neg hp]
  · rwa [hwithin.entries l ha]

theorem alone (hi : Independent a b) (halone : Writing.Alone mode₁ r₁ (t, w₁) (u, w)) :
    UnderWay a b mode₁ mode₂ u w w₂ := by
  have hrun {x y : FileTree × Writing} (hxy : Writing.Alone mode₁ r₁ x y)
      (hx : UnderWay a b mode₁ mode₂ x.1 x.2 w₂) : UnderWay a b mode₁ mode₂ y.1 y.2 w₂ := by
    induction hxy with
    | refl => exact hx
    | tail _ he ih =>
        subst he
        exact ih.step hi
  exact hrun halone h

end UnderWay

theorem underWay_start (a : Aim s.current r₁.entry) (b : Aim s.current r₂.entry) (mode₁ mode₂ : StoreMode) :
    UnderWay a b mode₁ mode₂ s (.start r₁) (.start r₂) :=
  ⟨a.course_start mode₁, b.course_start mode₂, rfl, fun _ _ _ => .inl rfl⟩

variable {result₁ result₂ result₁' result₂' : Except StoreError String}

/-- The end depends on the beginning alone. -/
theorem UnderWay.eq_of_finished (hs : s.Rooted)
    (h : UnderWay a b mode₁ mode₂ t (.finished result₁) (.finished result₂))
    (h' : UnderWay a b mode₁ mode₂ t' (.finished result₁') (.finished result₂')) : t' = t := by
  obtain ⟨-, hown, hmade⟩ := h.first.finished hs
  obtain ⟨-, hown', hmade'⟩ := h'.first.finished hs
  obtain ⟨-, hother, hmadeOther⟩ := h.second.finished hs
  obtain ⟨-, hother', hmadeOther'⟩ := h'.second.finished hs
  have hdir {v : FileTree} {l : Location} (hl : a.Makes s l ∨ b.Makes s l)
      (ha : ∀ p, a.Makes s p → v.get? p = some .dir) (hb : ∀ p, b.Makes s p → v.get? p = some .dir) :
      v.entries[l]? = some .dir := by
    have hnil : l ≠ [] := hl.elim (fun hm => (above_of_makes hm).1) fun hm => (above_of_makes hm).1
    have hget := hl.elim (ha l) (hb l)
    simpa [get?, hnil] using hget
  have hentries : t'.entries = t.entries := by
    refine Std.ExtTreeMap.ext_getElem? fun l => ?_
    by_cases hal : a.Own l
    · rw [← hown.entries l (.inl hal), ← hown'.entries l (.inl hal)]
    by_cases hbl : b.Own l
    · rw [← hother.entries l (.inl hbl), ← hother'.entries l (.inl hbl)]
    by_cases hm : a.Makes s l ∨ b.Makes s l
    · rw [hdir hm hmade hmadeOther, hdir hm hmade' hmadeOther']
    · rw [(h.elsewhere l hal hbl).resolve_right fun hd => hm hd.1,
        (h'.elsewhere l hal hbl).resolve_right fun hd => hm hd.1]
  have hcurrent : t'.current = t.current := h'.current.trans h.current.symm
  cases t
  cases t'
  cases hentries
  cases hcurrent
  rfl

end Aim

/-! ## Turns -/

namespace Writing

theorem left_step_le (mode : StoreMode) (r : WriteRequest) (t : FileTree) (w : Writing) :
    (step mode r t w).2.left ≤ w.left - 1 := by
  cases hw : w.result? with
  | none =>
      have := left_step hw mode r t
      omega
  | some result =>
      cases w with
      | finished result => exact Nat.zero_le _
      | _ => cases hw

theorem finished_of_left (h : w.left = 0) : ∃ result, w = .finished result := by
  cases w with
  | finished result => exact ⟨result, rfl⟩
  | _ => simp [left] at h

end Writing

namespace TwoWrites

/-- Enough turns for both bring both to their end. -/
theorem left_foldl (mode₁ mode₂ : StoreMode) (r₁ r₂ : WriteRequest) (x : TwoWrites) (schedule : List Writer) :
    (schedule.foldl (turn mode₁ mode₂ r₁ r₂) x).first.left ≤ x.first.left - schedule.count .first ∧
      (schedule.foldl (turn mode₁ mode₂ r₁ r₂) x).second.left ≤ x.second.left - schedule.count .second := by
  induction schedule generalizing x with
  | nil => exact ⟨Nat.le_refl _, Nat.le_refl _⟩
  | cons writer schedule ih =>
      have hi := ih (turn mode₁ mode₂ r₁ r₂ x writer)
      rw [List.foldl_cons]
      cases writer with
      | first =>
          have hleft : (turn mode₁ mode₂ r₁ r₂ x .first).first.left ≤ x.first.left - 1 :=
            Writing.left_step_le mode₁ r₁ x.files x.first
          have hsecond : (turn mode₁ mode₂ r₁ r₂ x .first).second = x.second := rfl
          rw [hsecond] at hi
          simp only [List.count_cons_self, List.count_cons_of_ne (show Writer.first ≠ .second by decide)]
          omega
      | second =>
          have hleft : (turn mode₁ mode₂ r₁ r₂ x .second).second.left ≤ x.second.left - 1 :=
            Writing.left_step_le mode₂ r₂ x.files x.second
          have hfirst : (turn mode₁ mode₂ r₁ r₂ x .second).first = x.first := rfl
          rw [hfirst] at hi
          simp only [List.count_cons_self, List.count_cons_of_ne (show Writer.second ≠ .first by decide)]
          omega

theorem underWay_foldl {a : Aim s.current r₁.entry} {b : Aim s.current r₂.entry} (hi : a.Independent b)
    (x : TwoWrites) (h : a.UnderWay b mode₁ mode₂ x.files x.first x.second) (schedule : List Writer) :
    let y := schedule.foldl (turn mode₁ mode₂ r₁ r₂) x
    a.UnderWay b mode₁ mode₂ y.files y.first y.second := by
  induction schedule generalizing x with
  | nil => exact h
  | cons writer schedule ih =>
      refine ih _ ?_
      cases writer with
      | first => exact h.step hi
      | second => exact (h.symm.step hi.symm).symm

end TwoWrites

theorem WriteRequest.Descends.exists_reaches (h : r.Descends) (t : FileTree) : ∃ a : Aim t.current r.entry,
    t.written r = a.files ∧ t.locate r.entry.path = a.target ∧ a.Reaches := by
  obtain ⟨absolute, a, hloc, hentry, hpath⟩ := h.exists_aim t.current
  have hprev := hpath.prevPath
  refine ⟨a, ?_, ?_, Aim.reachesFile_of_hasParts hloc hpath, Aim.holds_of_hasParts hloc hprev⟩
  · rw [written, Aim.locate_of_hasParts hloc hpath, Aim.locate_of_hasParts hloc hprev, Aim.files, Aim.file]
  · rw [hentry.locate, Aim.target, hloc]

/-- **Unrelated writes commute.** Two requests that descend, each in either mode, none of whose files and
versions before is one of the other's or above one of them, and neither of whose directories lies in one that the
name of the other's file leads through: whichever of them is carried out first, they leave the same files and have
the same results, and so they do when their operations are carried out in any order. Each of them comes to its end
with a number of turns that does not depend on the other one. -/
theorem unrelated_writes_commute (t : FileTree) (mode₁ mode₂ : StoreMode) (r₁ r₂ : WriteRequest)
    (ht : t.Rooted) (h₁ : r₁.Descends) (h₂ : r₂.Descends) (hapart : Apart (t.written r₁) (t.written r₂))
    (habreast : Abreast (t.locate r₁.entry.path) (t.locate r₂.entry.path)) :
    let one := t.store mode₁ r₁
    let two := t.store mode₂ r₂
    let both := one.1.store mode₂ r₂
    both.2 = two.2 ∧ two.1.store mode₁ r₁ = (both.1, one.2) ∧
    ∀ schedule, let x := TwoWrites.run mode₁ mode₂ r₁ r₂ t schedule
      ((∃ result, x.first = .finished result) → (∃ result, x.second = .finished result) →
        x = ⟨both.1, .finished one.2, .finished two.2⟩) ∧
      ((Writing.start r₁).left ≤ schedule.count .first → ∃ result, x.first = .finished result) ∧
      ((Writing.start r₂).left ≤ schedule.count .second → ∃ result, x.second = .finished result) := by
  intro one two both
  obtain ⟨a, hfilesA, htargetA, ha⟩ := h₁.exists_reaches t
  obtain ⟨b, hfilesB, htargetB, hb⟩ := h₂.exists_reaches t
  rw [hfilesA, hfilesB] at hapart
  rw [htargetA, htargetB] at habreast
  have hi : a.Independent b := ⟨ht, hapart, habreast, ha, hb⟩
  have hstart := a.underWay_start b mode₁ mode₂
  have hboth : a.UnderWay b mode₁ mode₂ both.1 (.finished one.2) (.finished both.2) :=
    ((hstart.alone hi (Writing.alone_store mode₁ r₁ t)).symm.alone hi.symm
      (Writing.alone_store mode₂ r₂ one.1)).symm
  have hswapped : a.UnderWay b mode₁ mode₂ (two.1.store mode₁ r₁).1 (.finished (two.1.store mode₁ r₁).2)
      (.finished two.2) :=
    (hstart.symm.alone hi.symm (Writing.alone_store mode₂ r₂ t)).symm.alone hi
      (Writing.alone_store mode₁ r₁ two.1)
  refine ⟨(hboth.second.finished ht).1, ?_, fun schedule => ?_⟩
  · rw [← hboth.eq_of_finished ht hswapped, ← (hswapped.first.finished ht).1]
  · have hrun := TwoWrites.underWay_foldl hi (TwoWrites.start r₁ r₂ t) hstart schedule
    have hleft := TwoWrites.left_foldl mode₁ mode₂ r₁ r₂ (TwoWrites.start r₁ r₂ t) schedule
    refine ⟨?_, fun hn => Writing.finished_of_left ?_, fun hn => Writing.finished_of_left ?_⟩
    · rintro ⟨result₁, hr₁⟩ ⟨result₂, hr₂⟩
      rw [TwoWrites.run] at hr₁ hr₂ ⊢
      simp only [hr₁, hr₂] at hrun
      rw [← hboth.eq_of_finished ht hrun, ← (hrun.first.finished ht).1, ← (hrun.second.finished ht).1, ← hr₁,
        ← hr₂]
    · exact Nat.le_zero.1 (hleft.1.trans (Nat.sub_eq_zero_of_le hn).le)
    · exact Nat.le_zero.1 (hleft.2.trans (Nat.sub_eq_zero_of_le hn).le)

/-- Turn by turn, one request replaces what is a directory further down, and the other one makes a directory beside
it. -/
theorem unrelated_writes_commute_beside_directory :
    let t := (((({} : FileTree).put ["d"] .dir).put ["d", "f"] .dir).put ["d", "f", "x"] .dir).put
      ["d", "f", "x", "y"] (.file "0".toUTF8)
    let r₁ : WriteRequest := ⟨"d", "f/x", "1"⟩
    let r₂ : WriteRequest := ⟨"d/e", "y", "2"⟩
    let x := TwoWrites.run .overwrite .append r₁ r₂ t (List.replicate 9 [.first, .second]).flatten
    let both := ((t.store .append r₂).1.store .overwrite r₁).1
    t.Rooted ∧ Apart (t.written r₁) (t.written r₂) ∧ Abreast (t.locate r₁.entry.path) (t.locate r₂.entry.path) ∧
      x = ⟨both, .finished (.ok "d/f/x"), .finished (.ok "d/e/y")⟩ ∧
      both.fileAt? ["d", "f", "x"] = some "1".toUTF8 ∧ both.fileAt? ["d", "f", "x.prev", "y"] = some "0".toUTF8 ∧
      both.fileAt? ["d", "e", "y"] = some "2\n".toUTF8 := by
  intro t r₁ r₂ x both
  have ht : t.Rooted := by decide +kernel
  have hapart : Apart (t.written r₁) (t.written r₂) := by decide +kernel
  have habreast : Abreast (t.locate r₁.entry.path) (t.locate r₂.entry.path) := by decide +kernel
  obtain ⟨-, hswap, hturns⟩ := unrelated_writes_commute t .overwrite .append r₁ r₂ ht (by decide +kernel)
    (by decide +kernel) hapart habreast
  obtain ⟨hend, hfirst, hsecond⟩ := hturns (List.replicate 9 [.first, .second]).flatten
  have hone : (t.store .overwrite r₁).2 = .ok "d/f/x" := by decide +kernel
  have htwo : (t.store .append r₂).2 = .ok "d/e/y" := by decide +kernel
  have hx := hend (hfirst (by decide +kernel)) (hsecond (by decide +kernel))
  rw [hone, htwo, ← congrArg Prod.fst hswap] at hx
  exact ⟨ht, hapart, habreast, hx, by decide +kernel, by decide +kernel, by decide +kernel⟩

/-- Two plain paths that are unrelated, one of which leads into a directory that its request does not make: the
request fails, unless the other one comes first. A name at the root leaves the directory aside that its request
makes, and that may be where the other one writes. -/
theorem unrelated_writes_interfere :
    let t : FileTree := {}
    let inside : WriteRequest := ⟨"d", "x/y", "1"⟩
    let beside : WriteRequest := ⟨"d/x", "z", "2"⟩
    let away : WriteRequest := ⟨"d/x", "/y", "1"⟩
    let there : WriteRequest := ⟨"d", "x", "2"⟩
    t.Rooted ∧ (PlainPath inside.path ∧ PlainPath beside.path ∧ Apart (t.written inside) (t.written beside) ∧
      (t.store .append inside).2 = .error (.file "d/x/y" .notFound) ∧
      ((t.store .append beside).1.store .append inside).2 = .ok "d/x/y") ∧
    PlainPath away.path ∧ PlainPath there.path ∧ Apart (t.written away) (t.written there) ∧
      (t.store .append there).2 = .ok "d/x" ∧
      ((t.store .append away).1.store .append there).2 = .error (.file "d/x" .isDirectory) := by
  decide +kernel

end FeedFiler
