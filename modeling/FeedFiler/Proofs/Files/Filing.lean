import FeedFiler.Proofs.Files.Preparing

/-!
# One request among others

When a request has its directory, its operations depend on what it writes and on the directories that the name
of its file leads through alone. Together with the making of the directory this says how a request comes to its
end while others have their turns: as when it is carried out at once on the tree that was there when it began.
-/

namespace FeedFiler

open FileTree

/-- The write has its directory. -/
inductive Writing.Late : Writing → Prop where
  | file : Late (.ascend [])
  | rotate : Late .rotate
  | replace : Late .replace
  | finished (result : Except StoreError String) : Late (.finished result)

namespace FileTree

variable {path name : String} {names : List String} {absolute : Bool}

theorem HasParts.prevPath (h : HasParts path absolute (names ++ [name]) false) :
    HasParts (prevPath path) absolute (names ++ [FeedFiler.prevPath name]) false := by
  have hparts : partsOf path = (front absolute ++ names) ++ [name] := by
    rw [h.parts, ← List.append_assoc]
    exact List.append_nil _
  refine ⟨(plainName_prevPath path).1, ?_, ?_⟩
  · rw [partsOf_prevPath hparts, ← List.append_assoc]
    exact (List.append_nil _).symm
  · rw [List.forall_mem_append, List.forall_mem_singleton]
    exact ⟨fun n hn => h.plain n (List.mem_append_left _ hn), plainName_prevPath name⟩

end FileTree

namespace Aim

variable {s t t' u : FileTree} {r : WriteRequest} {a : Aim s.current r.entry} {w : Writing}
  {path name : String} {mode : StoreMode} {result : Except StoreError String}

/-! ## What the request writes -/

/-- The version before is to stand in the folder too. -/
structure Reaches {cur : Location} (a : Aim cur r.entry) : Prop extends ReachesFile a where
  prev : a.Holds (prevPath r.path) (prevPath r.base)

theorem Ready.walk_inner (hr : a.Reaches) (ht : a.Ready t) (hu : a.Ready u) (hsame : Alike a.Kept t u) :
    u.walk a.loc (a.dirs ++ r.inner) = t.walk a.loc (a.dirs ++ r.inner) := by
  have hinner : u.walk (a.loc ++ a.dirs) r.inner = t.walk (a.loc ++ a.dirs) r.inner := by
    refine walk_congr hr.plain fun ns hne hns => hsame.get? (.inr ⟨a.target_isPrefix_inner hne hns, ?_⟩)
    exact (List.prefix_append_right_inj _).2 hns
  rw [walk_append, walk_append, ht.walk, hu.walk]
  exact hinner

theorem Holds.samePlace (h : a.Holds path name) (hr : a.Reaches) (ht : a.Ready t) (hu : a.Ready u)
    (hsame : Alike a.Kept t u) (hname : a.Own (a.folder ++ [name])) : SamePlace a.Own t u path := by
  by_cases hf : Fits path
  · have hplace (v : FileTree) (hv : a.Ready v) : v.place path =
        (v.walk a.loc (a.dirs ++ r.inner)).bind fun parent =>
          if maxName < name.utf8ByteSize then .error .nameTooLong else .ok (.entry (parent ++ [name]) false) := by
      rw [h.place hf v hv.current, placeOf_concat]
    refine ⟨by rw [hplace t ht, hplace u hu, ht.walk_inner hr hu hsame], fun {l slash} he => ?_⟩
    rw [hplace t ht, walk_append, ht.walk] at he
    cases hw : t.walk (a.loc ++ a.dirs) r.inner with
    | error cause =>
        simp only [Except.bind, hw] at he
        cases he
    | ok parent =>
        obtain rfl : parent = a.folder := walk_eq hr.plain hw
        simp only [Except.bind, hw] at he
        split at he
        · cases he
        · cases he
          exact hname
  · obtain ⟨cause, -, he⟩ := unplaced_of_not_fits h.ne_empty hf
    refine ⟨by rw [he, he], fun {l slash} hp => ?_⟩
    rw [he] at hp
    cases hp

theorem closedBelow_own (a : Aim s.current r.entry) : ClosedBelow a.Own :=
  fun _ _ h hl => h.imp (·.trans hl) (·.trans hl)

theorem wayGrows_of_within (h : Within a.Own t t') : a.WayGrows t t' :=
  ⟨h.current, fun _ hp hne => .inl (h.get? fun hown => a.not_kept_of_above hp hne (.inl hown))⟩

theorem Ready.keep (h : a.Ready t) (hg : a.WayGrows t t') : a.Ready t' :=
  ⟨hg.current.trans h.current, hg.walk List.prefix_rfl h.walk⟩

/-! ## Operations with the directory -/

/-- Two trees and what is left to do become the same here and there. Only what the request writes changes. -/
structure Lockstep (a : Aim s.current r.entry) (t u : FileTree) (x y : FileTree × Writing) : Prop where
  same : y.2 = x.2
  late : x.2.Late
  left : Within a.Own t x.1
  right : Within a.Own u y.1
  alike : Alike a.Own x.1 y.1

/-- What others leave as it is stays the same in both trees. -/
theorem Lockstep.kept {x y : FileTree × Writing} (h : a.Lockstep t u x y) (hsame : Alike a.Kept t u) :
    Alike a.Kept x.1 y.1 := by
  refine ⟨h.alike.current, fun l hl => ?_⟩
  by_cases hown : a.Own l
  · exact h.alike.entries l hown
  · rw [h.left.entries l hown, h.right.entries l hown, hsame.entries l hl]

section

variable (hr : a.Reaches) (ht : a.Ready t) (hu : a.Ready u) (hsame : Alike a.Kept t u)
include hr ht hu hsame

theorem samePlace_path : SamePlace a.Own t u r.path := hr.path.samePlace hr ht hu hsame (.inl List.prefix_rfl)

theorem lockstep_finish (mode : StoreMode) :
    a.Lockstep t u (Writing.finish mode r t) (Writing.finish mode r u) := by
  have hplace := samePlace_path hr ht hu hsame
  have hown : Alike a.Own t u := hsame.mono fun _ => .inl
  have htogether : Together a.Own t u (t.storeFile mode r) (u.storeFile mode r) := by
    cases mode with
    | overwrite => exact hplace.change hown _
    | append => exact hplace.change hown _
  rw [Writing.finish, Writing.finish, Writing.fill, Writing.fill]
  generalize t.storeFile mode r = x, u.storeFile mode r = y at htogether
  cases htogether with
  | error cause => exact ⟨rfl, .finished _, .refl _ t, .refl _ u, hown⟩
  | ok left right alike => exact ⟨rfl, .finished _, left, right, alike⟩

/-- **With the directory there, each operation depends on what others leave as it is alone.** -/
theorem lockstep (hw : w.Late) (mode : StoreMode) :
    a.Lockstep t u (Writing.step mode r t w) (Writing.step mode r u w) := by
  have hpath := samePlace_path hr ht hu hsame
  have hpathPrev := hr.prev.samePlace hr ht hu hsame (.inr List.prefix_rfl)
  have hown : Alike a.Own t u := hsame.mono fun _ => .inl
  cases hw with
  | finished result => exact ⟨rfl, .finished result, .refl _ t, .refl _ u, hown⟩
  | replace => exact lockstep_finish hr ht hu hsame mode
  | rotate =>
      obtain ⟨hl, hr, halike⟩ := Together.attempt (f := fun t => t.rename r.path (prevPath r.path)) hown
        (hpath.rename hown a.closedBelow_own hpathPrev)
      exact ⟨rfl, .replace, hl, hr, halike⟩
  | file =>
      cases mode with
      | append => exact lockstep_finish hr ht hu hsame .append
      | overwrite =>
          obtain ⟨hl, hr, halike⟩ := Together.attempt (f := fun t => t.remove (prevPath r.path)) hown
            (hpathPrev.remove hown)
          exact ⟨rfl, .rotate, hl, hr, halike⟩

end

/-! ## The course of a request -/

/-- How far the request has come, beginning with `s`, when the tree is `t`. -/
inductive Course (a : Aim s.current r.entry) (mode : StoreMode) (t : FileTree) (w : Writing) : Prop where
  | preparing (phase : a.Preparing t w) (spared : a.Spared s t)
  | abandoned (failure : a.Abandoned t w) (spared : a.Spared s t)
  /-- It has come as far as when it is carried out at once. -/
  | filing {u : FileTree} (alone : Writing.Alone mode r (s, .start r) (u, w)) (late : w.Late)
      (ready : a.Ready t) (aloneReady : a.Ready u) (alike : Alike a.Kept t u)
      (made : ∀ p, a.Makes s p → t.get? p = some .dir)

/-- What an operation of the request does to the tree. -/
def Acts (a : Aim s.current r.entry) (t t' : FileTree) : Prop := a.Adds t t' ∨ Within a.Own t t'

theorem course_start (a : Aim s.current r.entry) (mode : StoreMode) : a.Course mode s (.start r) :=
  .preparing a.preparing_start (.refl a s)

theorem Spared.alike (h : a.Spared s t) (h' : a.Spared s u) : Alike a.Kept t u :=
  ⟨h'.current.trans h.current.symm, fun l hl => (h'.kept l hl).trans (h.kept l hl).symm⟩

/-- A request that gets its directory among others gets it when it is carried out at once. -/
theorem Preparing.filing (h : a.Preparing t (.ascend [])) (hs : s.Rooted) (hg : a.Spared s t)
    (mode : StoreMode) : ∃ u, Writing.Alone mode r (s, .start r) (u, .ascend []) ∧ a.Ready t ∧ a.Ready u ∧
      Alike a.Kept t u ∧ ∀ p, a.Makes s p → t.get? p = some .dir := by
  obtain ⟨hfits, hready⟩ := h.ready hg
  obtain ⟨u, w', halone, hg', ⟨rfl, hp⟩ | ⟨hinders, -⟩⟩ := a.preparing_start.exists_alone hs (.refl a s) mode
  · exact ⟨u, halone, hready, (hp.ready hg').2, hg.alike hg', fun p hm => hready.made hg hm⟩
  · exact absurd hinders (hready.not_hinders hg hfits)

theorem course_filing (hr : a.Reaches)
    (halone : Writing.Alone mode r (s, .start r) (u, w)) (hw : w.Late) (ht : a.Ready t) (hu : a.Ready u)
    (hsame : Alike a.Kept t u) (hmade : ∀ p, a.Makes s p → t.get? p = some .dir) :
    a.Acts t (Writing.step mode r t w).1 ∧
      a.Course mode (Writing.step mode r t w).1 (Writing.step mode r t w).2 := by
  have hlock := a.lockstep hr ht hu hsame hw mode
  have hleft := a.wayGrows_of_within hlock.left
  have hnext : Writing.Alone mode r (s, .start r)
      ((Writing.step mode r u w).1, (Writing.step mode r t w).2) := by
    refine halone.tail ?_
    rw [← hlock.same]
  refine ⟨.inr hlock.left, .filing hnext hlock.late (ht.keep hleft)
    (hu.keep (a.wayGrows_of_within hlock.right)) (hlock.kept hsame) fun p hp => ?_⟩
  obtain ⟨-, habove, hne⟩ := above_of_makes hp
  exact hleft.dir habove hne (hmade p hp)

/-- **Each operation makes a directory or writes what the request writes, and goes on with the request.** -/
theorem Course.step (h : a.Course mode t w) (hs : s.Rooted)
    (hr : a.Reaches) :
    a.Acts t (Writing.step mode r t w).1 ∧
      a.Course mode (Writing.step mode r t w).1 (Writing.step mode r t w).2 := by
  cases h with
  | abandoned failure spared =>
      cases failure with
      | failed hinders made => exact ⟨.inl .none, .abandoned (.failed hinders made) spared⟩
  | filing alone late ready aloneReady alike made =>
      exact course_filing hr alone late ready aloneReady alike made
  | preparing phase spared =>
      by_cases hw : w = .ascend []
      · subst hw
        obtain ⟨u, halone, ht, hu, hsame, hmade⟩ := phase.filing hs spared mode
        exact course_filing hr halone .file ht hu hsame hmade
      · obtain ⟨hadds, hnext⟩ := phase.prepares hs spared mode hw
        have hg := spared.trans hadds.spared
        exact ⟨.inl hadds, hnext.elim (.preparing · hg) (.abandoned · hg)⟩

/-- Others may have a turn. -/
theorem Course.keep (h : a.Course mode t w) (hg : a.Spared t t') : a.Course mode t' w := by
  have hmade (hm : ∀ p, a.Makes s p → t.get? p = some .dir) (p : Location) (hp : a.Makes s p) :
      t'.get? p = some .dir := by
    obtain ⟨-, habove, hne⟩ := above_of_makes hp
    exact hg.dir habove hne (hm p hp)
  cases h with
  | preparing phase spared => exact .preparing (phase.keep hg.toWayGrows) (spared.trans hg)
  | abandoned failure spared =>
      cases failure with
      | failed hinders made => exact .abandoned (.failed hinders (hmade made)) (spared.trans hg)
  | filing alone late ready aloneReady alike made =>
      refine .filing alone late (ready.keep hg.toWayGrows) aloneReady ⟨?_, fun l hl => ?_⟩ (hmade made)
      · rw [alike.current, hg.current]
      · rw [alike.entries l hl, hg.kept l hl]

/-- **A request that is finished has the result that it has at once, has written the same, and has made its
directories.** -/
theorem Course.finished (h : a.Course mode t (.finished result)) (hs : s.Rooted) :
    result = (s.store mode r).2 ∧ Alike a.Kept t (s.store mode r).1 ∧
      ∀ p, a.Makes s p → t.get? p = some .dir := by
  have hstore {u : FileTree} {result : Except StoreError String}
      (halone : Writing.Alone mode r (s, .start r) (u, .finished result)) : s.store mode r = (u, result) := by
    rw [← storeUnder_calm, storeUnder, halone.complete_eq, Writing.complete_finished]
  cases h with
  | preparing phase spared => cases phase
  | filing alone late ready aloneReady alike made =>
      rw [hstore alone]
      exact ⟨rfl, alike, made⟩
  | abandoned failure spared =>
      cases failure with
      | failed hinders made =>
          obtain ⟨u, w', halone, hg, ⟨rfl, hp⟩ | ⟨hinders', -⟩⟩ :=
            a.preparing_start.exists_alone hs (.refl a s) mode
          · obtain ⟨hfits, hready⟩ := hp.ready hg
            exact absurd hinders (hready.not_hinders hg hfits)
          · rw [hstore halone, hinders.unique hinders']
            exact ⟨rfl, spared.alike hg, made⟩

end Aim

end FeedFiler
