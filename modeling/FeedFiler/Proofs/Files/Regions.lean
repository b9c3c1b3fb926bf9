import Mathlib.Data.List.Basic
import FeedFiler.Proofs.Files.Inside

/-!
# Operations on a part of a tree

An operation whose paths name entries in one part of the tree depends on that part alone. In two trees that
are the same there it succeeds or fails alike, leaves them the same there, and changes nothing elsewhere.
-/

namespace FeedFiler.FileTree

variable {part : Location → Prop} {t t' u : FileTree} {loc l source target : Location}
  {path other : String}

/-- The trees are the same in the part. -/
structure Alike (part : Location → Prop) (t u : FileTree) : Prop where
  current : u.current = t.current
  entries : ∀ l, part l → u.entries[l]? = t.entries[l]?

/-- Nothing changes but in the part. -/
def Within (part : Location → Prop) : FileTree → FileTree → Prop := Alike fun l => ¬ part l

/-- What stands below an entry of the part belongs to the part. -/
def ClosedBelow (part : Location → Prop) : Prop := ∀ l l', part l → l <+: l' → part l'

namespace Alike

theorem refl (part : Location → Prop) (t : FileTree) : Alike part t t := ⟨rfl, fun _ _ => rfl⟩

theorem trans (h : Alike part t u) (h' : Alike part u t') : Alike part t t' :=
  ⟨h'.current.trans h.current, fun l hl => (h'.entries l hl).trans (h.entries l hl)⟩

theorem mono {smaller : Location → Prop} (h : Alike part t u) (hp : ∀ l, smaller l → part l) :
    Alike smaller t u :=
  ⟨h.current, fun l hl => h.entries l (hp l hl)⟩

theorem get? (h : Alike part t u) (hl : part l) : u.get? l = t.get? l := by
  rw [FileTree.get?, FileTree.get?, h.entries l hl]

end Alike

/-! ## Entries -/

theorem Alike.put (h : Alike part t u) (loc : Location) (node : FileNode) :
    Alike part (t.put loc node) (u.put loc node) := by
  refine ⟨h.current, fun l hl => ?_⟩
  rw [getElem?_put, getElem?_put, h.entries l hl]

theorem Alike.drop (h : Alike part t u) (loc : Location) : Alike part (t.drop loc) (u.drop loc) := by
  refine ⟨h.current, fun l hl => ?_⟩
  rw [getElem?_drop, getElem?_drop, h.entries l hl]

theorem within_put (h : part loc) (t : FileTree) (node : FileNode) : Within part t (t.put loc node) := by
  refine ⟨rfl, fun l hl => ?_⟩
  rw [getElem?_put, if_neg]
  rintro rfl
  exact hl h

theorem within_drop (h : part loc) (t : FileTree) : Within part t (t.drop loc) := by
  refine ⟨rfl, fun l hl => ?_⟩
  rw [getElem?_drop, if_neg]
  rintro rfl
  exact hl h

/-! ## Moving -/

theorem Alike.move (h : Alike part t u) (hpart : ClosedBelow part) (hs : part source) :
    Alike part (t.move source target) (u.move source target) := by
  classical
  refine ⟨h.current, fun l hl => ?_⟩
  rw [getElem?_move, getElem?_move]
  -- Only entries of the part go to a location of the part.
  have honly (v : FileTree) : v.entries.toList.filterMap (landing (destination source target) l) =
      (v.entries.filter fun l' _ => decide (part l')).toList.filterMap
        (landing (destination source target) l) := by
    rw [Std.ExtTreeMap.toList_filter, List.filterMap_filter]
    refine List.filterMap_congr fun item _ => ?_
    by_cases hp : part item.1
    · rw [if_pos (decide_eq_true hp)]
    · rw [if_neg (by simpa using hp), landing, if_neg]
      rw [destination]
      split
      · next hsource => exact absurd (hpart _ _ hs (List.isPrefixOf_iff_prefix.1 hsource)) hp
      · rintro rfl
        exact hp hl
  have hsame : (u.drop target).entries.filter (fun l' _ => decide (part l')) =
      (t.drop target).entries.filter fun l' _ => decide (part l') := by
    refine Std.ExtTreeMap.ext_getElem? fun l' => ?_
    rw [Std.ExtTreeMap.getElem?_filter', Std.ExtTreeMap.getElem?_filter']
    by_cases hp : part l'
    · rw [(h.drop target).entries l' hp]
    · simp [hp]
  rw [honly, honly (t.drop target), hsame]

theorem within_move (hpart : ClosedBelow part) (hs : part source) (ht : part target) (t : FileTree) :
    Within part t (t.move source target) :=
  ⟨rfl, fun l hl => getElem?_move_elsewhere (fun h => hl (hpart _ l hs h)) fun h => hl (hpart _ l ht h)⟩

theorem Alike.hasBelow (h : Alike part t u) (hpart : ClosedBelow part) (hl : part loc) :
    u.hasBelow loc = t.hasBelow loc := by
  rw [Bool.eq_iff_iff, FileTree.hasBelow, FileTree.hasBelow, List.any_eq_true, List.any_eq_true]
  refine exists_congr fun item => and_congr_left fun hbelow => ?_
  rw [Bool.and_eq_true, List.isPrefixOf_iff_prefix] at hbelow
  rw [Std.ExtTreeMap.mem_toList_iff_getElem?_eq_some, Std.ExtTreeMap.mem_toList_iff_getElem?_eq_some,
    h.entries _ (hpart _ _ hl hbelow.1)]

/-! ## Operations -/

/-- The path names the same in both trees, and no entry elsewhere. -/
structure SamePlace (part : Location → Prop) (t u : FileTree) (path : String) : Prop where
  same : u.place path = t.place path
  inside : ∀ {l slash}, t.place path = .ok (.entry l slash) → part l

/-- What an operation gives for two trees: it fails for one cause, or it changes the part alone, and alike. -/
inductive Together (part : Location → Prop) (t u : FileTree) :
    Except FileError FileTree → Except FileError FileTree → Prop where
  | error (cause : FileError) : Together part t u (.error cause) (.error cause)
  | ok {t' u' : FileTree} (left : Within part t t') (right : Within part u u') (alike : Alike part t' u') :
      Together part t u (.ok t') (.ok u')

variable (h : SamePlace part t u path) (hsame : Alike part t u)
include h hsame

theorem SamePlace.remove : Together part t u (t.remove path) (u.remove path) := by
  rw [FileTree.remove, FileTree.remove, h.same]
  cases hp : t.place path with
  | error cause => exact .error cause
  | ok place =>
      cases place with
      | known loc => exact .error .busy
      | entry loc slash =>
          have hloc := h.inside hp
          simp only [bind, Except.bind, hsame.get? hloc]
          cases t.get? loc with
          | none => exact .error .notFound
          | some node =>
              cases node with
              | dir => exact .error .isDirectory
              | file content =>
                  cases slash with
                  | true => exact .error .notDirectory
                  | false => exact .ok (within_drop hloc t) (within_drop hloc u) (hsame.drop loc)

theorem SamePlace.change (edit : ByteArray → ByteArray) :
    Together part t u (t.change path edit) (u.change path edit) := by
  rw [FileTree.change, FileTree.change, h.same]
  cases hp : t.place path with
  | error cause => exact .error cause
  | ok place =>
      cases place with
      | known loc => exact .error .isDirectory
      | entry loc slash =>
          have hloc := h.inside hp
          have hput (content : ByteArray) : Together part t u (.ok (t.put loc (.file content)))
              (.ok (u.put loc (.file content))) :=
            .ok (within_put hloc t _) (within_put hloc u _) (hsame.put loc _)
          simp only [bind, Except.bind, hsame.get? hloc]
          cases slash with
          | true => exact .error .isDirectory
          | false =>
              cases t.get? loc with
              | none => exact hput _
              | some node =>
                  cases node with
                  | dir => exact .error .isDirectory
                  | file content => exact hput _

theorem SamePlace.rename (hpart : ClosedBelow part) (h' : SamePlace part t u other) :
    Together part t u (t.rename path other) (u.rename path other) := by
  rw [FileTree.rename, FileTree.rename, h.same, h'.same]
  cases hp : t.place path with
  | error cause => exact .error cause
  | ok place =>
      cases hp' : t.place other with
      | error cause => exact .error cause
      | ok place' =>
          cases place with
          | known loc => exact .error .busy
          | entry source slash =>
              cases place' with
              | known loc => exact .error .busy
              | entry target slash' =>
                  have hs := h.inside hp
                  have ht := h'.inside hp'
                  have hmove : Together part t u (.ok (t.move source target)) (.ok (u.move source target)) :=
                    .ok (within_move hpart hs ht t) (within_move hpart hs ht u) (hsame.move hpart hs)
                  simp only [bind, Except.bind, hsame.get? hs, hsame.get? ht, hsame.hasBelow hpart ht]
                  cases t.get? source with
                  | none => exact .error .notFound
                  | some node =>
                      cases node with
                      | file content =>
                          simp only
                          split
                          · exact .error .notDirectory
                          · split
                            · exact .error .isDirectory
                            · exact .ok ((within_drop hs t).trans (within_put ht _ _))
                                ((within_drop hs u).trans (within_put ht _ _)) ((hsame.drop source).put target _)
                      | dir =>
                          simp only
                          split
                          · exact .error .intoItself
                          · cases t.get? target with
                            | none => exact hmove
                            | some node =>
                                cases node with
                                | file content => exact .error .notDirectory
                                | dir =>
                                    simp only
                                    split
                                    · exact .ok (.refl _ t) (.refl _ u) hsame
                                    · split
                                      · exact .error .notEmpty
                                      · exact hmove

omit h in
/-- An operation that may fail leaves the trees alike. -/
theorem Together.attempt {f : FileTree → Except FileError FileTree} (h : Together part t u (f t) (f u)) :
    Within part t (t.attempt f) ∧ Within part u (u.attempt f) ∧ Alike part (t.attempt f) (u.attempt f) := by
  rw [FileTree.attempt, FileTree.attempt]
  generalize f t = left, f u = right at h
  cases h with
  | error cause => exact ⟨.refl _ t, .refl _ u, hsame⟩
  | ok left right alike => exact ⟨left, right, alike⟩

end FeedFiler.FileTree
