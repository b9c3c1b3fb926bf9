import Mathlib.Data.List.ModifyLast
import Mathlib.Data.List.TakeWhile
import FeedFiler.Proofs.Files.PlainPaths

/-!
# The path of the version before

The version before stands beside its file, under the file's name with a suffix. There is a place for it
as long as name and path are not too long with the suffix.
-/

namespace FeedFiler.FileTree

variable {t t' : FileTree} {path : String} {loc l : Location} {names : List String} {name : String}

/-! ## The path of the version before -/

/-- The path is still one that can be used when the suffix of the version before is added. -/
def LeavesRoom (path : String) : Prop :=
  (prevPath path).utf8ByteSize < maxPath ∧
    ∀ name ∈ partsOf (prevPath path), name.utf8ByteSize ≤ maxName

instance (path : String) : Decidable (LeavesRoom path) :=
  inferInstanceAs (Decidable (_ ∧ ∀ name ∈ partsOf (prevPath path), name.utf8ByteSize ≤ maxName))

/-- The location of the version before. -/
def prevLocation (loc : Location) : Location := loc.modifyLast prevPath

theorem prevLocation_concat (loc : Location) (name : String) :
    prevLocation (loc ++ [name]) = loc ++ [prevPath name] :=
  List.modifyLast_concat _ _ _

theorem utf8ByteSize_prevPath (path : String) : (prevPath path).utf8ByteSize = path.utf8ByteSize + 5 := by
  rw [prevPath, String.utf8ByteSize_append]
  rfl

theorem toList_prevPath (path : String) :
    (prevPath path).toList = path.toList ++ ['.', 'p', 'r', 'e', 'v'] := by
  simp [prevPath]

theorem prevPath_inj {path other : String} (h : prevPath path = prevPath other) : path = other := by
  rw [← String.toList_inj] at h ⊢
  rw [toList_prevPath, toList_prevPath] at h
  exact List.append_cancel_right h

theorem prevPath_ne (path : String) : prevPath path ≠ path := by
  intro h
  have hs := utf8ByteSize_prevPath path
  rw [h] at hs
  omega

theorem plainName_prevPath (name : String) : PlainName (prevPath name) := by
  have hlast (c : Char) (cs : List Char) (hc : c ≠ 'v') : (prevPath name).toList ≠ cs ++ [c] := by
    intro h
    rw [toList_prevPath] at h
    have := congrArg List.getLast? h
    simp at this
    exact hc this.symm
  refine ⟨fun h => ?_, fun h => ?_, fun h => ?_⟩
  · have hs := utf8ByteSize_prevPath name
    rw [h, String.utf8ByteSize_empty] at hs
    omega
  · exact hlast '.' [] (by decide) (by rw [h]; rfl)
  · exact hlast '.' ['.'] (by decide) (by rw [h]; rfl)

/-- Where a path begins. -/
def startOf (cur : Location) (path : String) : Location := base cur ((partsOf path).head? = some "")

theorem startOf_eq (cur : Location) (path : String) :
    startOf cur path = if (partsOf path).head? = some "" then [] else cur := by
  rw [startOf, base]
  simp only [decide_eq_true_eq]

theorem partsOf_prevPath (hp : partsOf path = names ++ [name]) :
    partsOf (prevPath path) = names ++ [prevPath name] := by
  have hpath : prevPath path = "/".intercalate (names ++ [prevPath name]) := by
    rw [← intercalate_partsOf path, hp]
    cases names with
    | nil => rw [List.nil_append, List.nil_append, String.intercalate_singleton, String.intercalate_singleton]
    | cons first names =>
        rw [String.intercalate_append_of_ne_nil (List.cons_ne_nil _ _) (List.cons_ne_nil _ _),
          String.intercalate_append_of_ne_nil (List.cons_ne_nil _ _) (List.cons_ne_nil _ _),
          String.intercalate_singleton, String.intercalate_singleton, prevPath, String.append_assoc]
        rfl
  have hslash : ∀ n ∈ names ++ [name], '/' ∉ n.toList := fun n hn => notMem_of_mem_partsOf n (hp ▸ hn)
  rw [hpath, partsOf_intercalate (List.append_ne_nil_of_right_ne_nil _ (List.cons_ne_nil _ _))]
  rw [List.forall_mem_append, List.forall_mem_singleton] at hslash ⊢
  refine ⟨hslash.1, ?_⟩
  rw [toList_prevPath, List.mem_append, not_or]
  exact ⟨hslash.2, by decide⟩

theorem startOf_prevPath (hp : partsOf path = names ++ [name]) (hn : PlainName name) (cur : Location) :
    startOf cur (prevPath path) = startOf cur path := by
  rw [startOf, startOf, partsOf_prevPath hp, hp]
  cases names with
  | nil => simp [hn.1, (plainName_prevPath name).1]
  | cons first names => rfl

/-! ## Its place -/

theorem walk_unique {a b : Location} (h : t.walk loc names = .ok a) (h' : t'.walk loc names = .ok b) :
    a = b := by
  induction names generalizing loc with
  | nil =>
      cases h
      cases h'
      rfl
  | cons name names ih =>
      rw [walk] at h h'
      split at h
      · next hn =>
          rw [if_pos hn] at h'
          exact ih h h'
      · next hn =>
          rw [if_neg hn] at h'
          split at h
          · next hp =>
              rw [if_pos hp] at h'
              exact ih h h'
          · next hp =>
              rw [if_neg hp] at h'
              split at h
              · cases h
              · next hl =>
                  rw [if_neg hl] at h'
                  split at h
                  · cases h
                  · cases h
                  · split at h'
                    · cases h'
                    · cases h'
                    · exact ih h h'

theorem le_maxName_of_walk (h : t.walk loc names = .ok l) : ∀ n ∈ names, n.utf8ByteSize ≤ maxName := by
  induction names generalizing loc with
  | nil => simp
  | cons name names ih =>
      rw [List.forall_mem_cons]
      rw [walk] at h
      split at h
      · next hn =>
          refine ⟨?_, ih h⟩
          rcases hn with rfl | rfl <;> decide
      · split at h
        · next hn =>
            subst hn
            exact ⟨by decide, ih h⟩
        · split at h
          · cases h
          · next hl =>
              split at h
              · cases h
              · cases h
              · exact ⟨Nat.not_lt.1 hl, ih h⟩

theorem place_of_concat (hf : Fits path) (hp : partsOf path = names ++ [name]) (hn : PlainName name)
    (t : FileTree) :
    t.place path = (t.walk (startOf t.current path) names).bind fun parent =>
      if maxName < name.utf8ByteSize then .error .nameTooLong else .ok (.entry (parent ++ [name]) false) := by
  have hne : path ≠ "" := by
    rintro rfl
    have hempty : [] ++ [""] = names ++ [name] := hp
    exact hn.1 (List.singleton_inj.1 (List.append_inj' hempty rfl).2).symm
  rw [place_of_fits hf hne, ← startOf_eq]
  simp only [hp, List.reverse_append, List.reverse_singleton, List.singleton_append]
  rw [List.dropWhile_cons_of_neg (by simpa using hn.1), List.takeWhile_cons_of_neg (by simpa using hn.1)]
  simp only [hn.2.1, hn.2.2, or_self, if_false, List.reverse_reverse, List.isEmpty_nil, Bool.not_true]

theorem fits_of_place {p : Place} (h : t.place path = .ok p) : Fits path := by
  by_contra hf
  have hne : path ≠ "" := by
    rintro rfl
    cases h
  obtain ⟨cause, -, he⟩ := unplaced_of_not_fits hne hf
  rw [he t] at h
  cases h

/-- A path that names an entry ends in the entry's name, with or without slashes behind it. -/
theorem exists_of_place {slash : Bool} (h : t.place path = .ok (.entry loc slash)) :
    ∃ last before parent, (partsOf path).reverse.dropWhile (· = "") = last :: before ∧
      slash = !((partsOf path).reverse.takeWhile (· = "")).isEmpty ∧ last ≠ "." ∧ last ≠ ".." ∧
        t.walk (startOf t.current path) before.reverse = .ok parent ∧ last.utf8ByteSize ≤ maxName ∧
          loc = parent ++ [last] := by
  have hne : path ≠ "" := by
    rintro rfl
    cases h
  rw [place_of_fits (fits_of_place h) hne, ← startOf_eq] at h
  split at h
  · cases h
  · next last before hd =>
      split at h
      · cases hw : t.walk (startOf t.current path) (partsOf path) <;> rw [hw] at h <;> cases h
      · next hdots =>
          rw [not_or] at hdots
          cases hw : t.walk (startOf t.current path) before.reverse with
          | error cause =>
              rw [hw] at h
              cases h
          | ok parent =>
              rw [hw, Except.bind] at h
              split at h
              · cases h
              · next hl =>
                  cases h
                  exact ⟨last, before, parent, hd, rfl, hdots.1, hdots.2, hw, Nat.not_lt.1 hl, rfl⟩

/-- A place does not depend on the tree, as long as there is one. -/
theorem place_unique {a b : Location} {slash slash' : Bool} (hc : t'.current = t.current)
    (h : t.place path = .ok (.entry a slash)) (h' : t'.place path = .ok (.entry b slash')) : a = b := by
  obtain ⟨last, before, parent, hd, -, -, -, hw, -, rfl⟩ := exists_of_place h
  obtain ⟨last', before', parent', hd', -, -, -, hw', -, rfl⟩ := exists_of_place h'
  rw [hd] at hd'
  cases hd'
  rw [hc] at hw'
  rw [walk_unique hw hw']

/-- Without a slash behind it, the name of the entry is the last part of the path. -/
theorem exists_of_place_noSlash (h : t.place path = .ok (.entry loc false)) :
    ∃ names name parent, partsOf path = names ++ [name] ∧ PlainName name ∧
      t.walk (startOf t.current path) names = .ok parent ∧ loc = parent ++ [name] := by
  obtain ⟨last, before, parent, hd, hslash, hdot, hdots, hw, -, rfl⟩ := exists_of_place h
  have hnil : (partsOf path).reverse.takeWhile (· = "") = [] := by simpa using hslash
  have hrev : (partsOf path).reverse = last :: before := by
    rw [← List.takeWhile_append_dropWhile (p := fun part => decide (part = ""))
      (l := (partsOf path).reverse), hnil, hd, List.nil_append]
  refine ⟨before.reverse, last, parent, ?_, ⟨?_, hdot, hdots⟩, hw, rfl⟩
  · rw [← List.reverse_cons, ← hrev, List.reverse_reverse]
  · rintro rfl
    rw [hrev] at hnil
    simp at hnil

theorem leavesRoom_of_place {slash : Bool} (h : t.place (prevPath path) = .ok (.entry loc slash)) :
    LeavesRoom path := by
  obtain ⟨last, before, parent, hd, -, -, -, hw, hl, -⟩ := exists_of_place h
  refine ⟨(fits_of_place h).2, fun n hn => ?_⟩
  rw [← List.mem_reverse, ← List.takeWhile_append_dropWhile (p := fun part => decide (part = ""))
    (l := (partsOf (prevPath path)).reverse), hd, List.mem_append, List.mem_cons] at hn
  rcases hn with hn | rfl | hn
  · have hempty : n = "" := by simpa using List.mem_takeWhile_imp hn
    rw [hempty]
    decide
  · exact hl
  · exact le_maxName_of_walk hw n (List.mem_reverse.2 hn)

section Suffix

variable (h : t.place path = .ok (.entry loc false))
include h

theorem place_prevPath (hr : LeavesRoom path) :
    t.place (prevPath path) = .ok (.entry (prevLocation loc) false) := by
  obtain ⟨names, name, parent, hp, hn, hw, rfl⟩ := exists_of_place_noSlash h
  have hprev := partsOf_prevPath hp
  have hf : Fits (prevPath path) := by
    refine ⟨?_, hr.1⟩
    rw [toList_prevPath, List.mem_append, not_or]
    exact ⟨(fits_of_place h).1, by decide⟩
  have hsize : (prevPath name).utf8ByteSize ≤ maxName := hr.2 _ (by simp [hprev])
  rw [place_of_concat hf hprev (plainName_prevPath name), startOf_prevPath hp hn, hw, prevLocation_concat]
  exact if_neg (Nat.not_lt.2 hsize)

theorem place_prevPath_of_not_leavesRoom (hr : ¬ LeavesRoom path) :
    ∃ cause, t.place (prevPath path) = .error cause := by
  obtain ⟨names, name, parent, hp, hn, hw, rfl⟩ := exists_of_place_noSlash h
  have hprev := partsOf_prevPath hp
  by_cases hf : Fits (prevPath path)
  · refine ⟨.nameTooLong, ?_⟩
    have hsize : maxName < (prevPath name).utf8ByteSize := by
      by_contra hle
      refine hr ⟨hf.2, ?_⟩
      rw [hprev, List.forall_mem_append, List.forall_mem_singleton]
      exact ⟨le_maxName_of_walk hw, Nat.not_lt.1 hle⟩
    rw [place_of_concat hf hprev (plainName_prevPath name), startOf_prevPath hp hn, hw]
    exact if_pos hsize
  · have hne : prevPath path ≠ "" := (plainName_prevPath path).1
    obtain ⟨cause, -, he⟩ := unplaced_of_not_fits hne hf
    exact ⟨cause, he t⟩

end Suffix

theorem prevLocation_ne (h : loc ≠ []) : prevLocation loc ≠ loc := by
  rcases List.eq_nil_or_concat loc with rfl | ⟨parent, name, rfl⟩
  · exact absurd rfl h
  · rw [List.concat_eq_append, prevLocation_concat]
    intro he
    exact prevPath_ne name (List.singleton_inj.1 (List.append_inj' he rfl).2)

theorem prevLocation_inj (h : loc ≠ []) (h' : l ≠ []) (he : prevLocation loc = prevLocation l) :
    loc = l := by
  rcases List.eq_nil_or_concat loc with rfl | ⟨parent, name, rfl⟩
  · exact absurd rfl h
  · rcases List.eq_nil_or_concat l with rfl | ⟨parent', name', rfl⟩
    · exact absurd rfl h'
    · rw [List.concat_eq_append, List.concat_eq_append, prevLocation_concat, prevLocation_concat] at he
      obtain ⟨hp, hn⟩ := List.append_inj' he rfl
      rw [hp, prevPath_inj (List.singleton_inj.1 hn)]

/-! ## Names without room -/

/-- The name can be used from everywhere, but leaves no room for the suffix. -/
structure FillsRoom (name : String) : Prop where
  place (t : FileTree) : t.place name = .ok (.entry (t.current ++ [name]) false)
  not_leavesRoom : ¬ LeavesRoom name

/-- A name that is not too long, but that is with the suffix. -/
def longName : String := String.ofList (List.replicate 251 'a')

theorem utf8ByteSize_longName : longName.utf8ByteSize = 251 := by decide +kernel

theorem notMem_longName {c : Char} (hc : c ≠ 'a') : c ∉ longName.toList := by
  have hlist : longName.toList = List.replicate 251 'a' := String.toList_ofList
  rw [hlist]
  exact fun h => hc (List.eq_of_mem_replicate h)

theorem fillsRoom_longName : FillsRoom longName := by
  have hparts : partsOf longName = [] ++ [longName] := partsOf_of_notMem (notMem_longName (by decide))
  have hne (short : String) (hs : short.utf8ByteSize ≠ 251) : longName ≠ short := by
    rintro rfl
    exact hs utf8ByteSize_longName
  have hplain : PlainName longName := ⟨hne "" (by decide), hne "." (by decide), hne ".." (by decide)⟩
  have hfits : Fits longName := ⟨notMem_longName (by decide), by rw [utf8ByteSize_longName]; decide⟩
  refine ⟨fun t => ?_, fun h => ?_⟩
  · have hstart : startOf t.current longName = t.current := by
      rw [startOf_eq, if_neg]
      simpa [hparts] using hplain.1
    rw [place_of_concat hfits hparts hplain, hstart, utf8ByteSize_longName]
    rfl
  · have hsize := h.2 (prevPath longName) (by simp [partsOf_prevPath hparts])
    rw [utf8ByteSize_prevPath, utf8ByteSize_longName] at hsize
    exact absurd hsize (by decide)

end FeedFiler.FileTree
