import FeedFiler.Proofs.Files.PreviousPath

/-!
# Making a file the version before

A file whose path leaves room for the suffix takes the place of the version before, unless a directory
stands in the way. No other file is touched.
-/

namespace FeedFiler.FileTree

variable {t t' : FileTree} {path name : String} {loc l : Location}

/-! ## Removing and renaming -/

theorem get?_drop (h : loc ≠ []) : (t.drop loc).get? l = if l = loc then none else t.get? l := by
  cases l with
  | nil => simp [get?, Ne.symm h]
  | cons name l =>
      simp only [get?, drop, List.isEmpty_cons, Bool.false_eq_true, ↓reduceIte,
        Std.ExtTreeMap.getElem?_erase, Std.LawfulEqOrd.compare_eq_iff_eq]
      simp only [eq_comm]

theorem getElem?_drop (t : FileTree) (loc : Location) :
    (t.drop loc).entries[l]? = if loc = l then none else t.entries[l]? := by
  simp only [drop, Std.ExtTreeMap.getElem?_erase, Std.LawfulEqOrd.compare_eq_iff_eq]

theorem remove_eq_ok : t.remove path = .ok t' ↔ ∃ loc content, t.place path = .ok (.entry loc false) ∧
    t.get? loc = some (.file content) ∧ t' = t.drop loc := by
  simp only [remove, bind, Except.bind, pure, Except.pure, throw, throwThe, MonadExceptOf.throw]
  cases t.place path with
  | error e => simp
  | ok place =>
      cases place with
      | known loc => simp
      | entry loc slash =>
          cases h : t.get? loc with
          | none => simp [h]
          | some node =>
              cases node with
              | dir => simp [h]
              | file c => cases slash <;> simp [h, eq_comm]

theorem get?_insertMany {map : Std.ExtTreeMap Location FileNode} {node : FileNode}
    {items : List (Location × FileNode)} (h : ∀ item ∈ items, item.1 = loc → item.2 = node)
    (hm : (∃ item ∈ items, item.1 = loc) ∨ map[loc]? = some node) :
    (map.insertMany items)[loc]? = some node := by
  induction items generalizing map with
  | nil =>
      rw [Std.ExtTreeMap.insertMany_nil]
      exact hm.resolve_left (by simp)
  | cons item items ih =>
      obtain ⟨l, n⟩ := item
      rw [List.forall_mem_cons] at h
      rw [Std.ExtTreeMap.insertMany_cons]
      refine ih h.2 ?_
      rw [Std.ExtTreeMap.getElem?_insert]
      simp only [Std.LawfulEqOrd.compare_eq_iff_eq]
      by_cases hl : l = loc
      · exact .inr (by rw [if_pos hl]; exact congrArg some (h.1 hl))
      · rw [if_neg hl]
        simpa [hl] using hm

/-- What is moved stands at its new location. -/
theorem get?_move {source target : Location} {node : FileNode} (hs : source ≠ []) (ht : target ≠ [])
    (hne : source ≠ target) (h : t.get? source = some node) : (t.move source target).get? target = some node := by
  have hmem : (source, node) ∈ (t.drop target).entries.toList := by
    rw [Std.ExtTreeMap.mem_toList_iff_getElem?_eq_some]
    have := get?_drop (t := t) (l := source) ht
    rw [if_neg hne, h] at this
    simpa [get?, hs] using this
  have hget : (t.move source target).get? target = (t.move source target).entries[target]? := by
    simp [get?, ht]
  rw [hget, move, Std.ExtTreeMap.ofList_eq_insertMany_empty]
  refine get?_insertMany ?_ (.inl ⟨(target, node), List.mem_map.2 ⟨(source, node), hmem, ?_⟩, rfl⟩)
  · rintro ⟨l, n⟩ hm hl
    obtain ⟨⟨l', n'⟩, hm', he⟩ := List.mem_map.1 hm
    cases he
    simp only at hl
    split at hl
    · next hp =>
        -- Nothing else comes to stand where the source itself does.
        obtain ⟨rest, rfl⟩ := List.isPrefixOf_iff_prefix.1 hp
        have hnil : rest = [] := by simpa using hl
        rw [hnil, List.append_nil, Std.ExtTreeMap.mem_toList_iff_getElem?_eq_some] at hm'
        rw [Std.ExtTreeMap.mem_toList_iff_getElem?_eq_some] at hmem
        exact Option.some.inj (hm'.symm.trans hmem)
    · subst hl
      rw [Std.ExtTreeMap.mem_toList_iff_getElem?_eq_some] at hm'
      simp [drop] at hm'
  · simp

/-- All that renaming can do: a file takes another place where no directory stands, and a directory is moved,
though not into itself, or stays where it is. -/
theorem rename_inv {other : String} (h : t.rename path other = .ok t') :
    ∃ source slash target slash', t.place path = .ok (.entry source slash) ∧
      t.place other = .ok (.entry target slash') ∧
        ((∃ content, slash = false ∧ t.get? source = some (.file content) ∧ t.get? target ≠ some .dir ∧
            t' = (t.drop source).put target (.file content)) ∨
          t.get? source = some .dir ∧ (source <+: target → source = target) ∧
            (t' = t ∧ source = target ∨ t' = t.move source target ∧ source ≠ target)) := by
  simp only [rename, bind, Except.bind, pure, Except.pure, throw, throwThe, MonadExceptOf.throw] at h
  split at h
  · cases h
  · next place hs =>
      split at h
      · cases h
      · next place' ht =>
          split at h
          · next source slash target slash' =>
              refine ⟨source, slash, target, slash', hs, ht, ?_⟩
              cases hg : t.get? source with
              | none =>
                  rw [hg] at h
                  cases h
              | some node =>
                  rw [hg] at h
                  cases node with
                  | file content =>
                      left
                      simp only at h
                      split at h
                      · cases h
                      · next hslash =>
                          split at h
                          · cases h
                          · next hd =>
                              cases h
                              rw [Bool.or_eq_true, not_or, Bool.not_eq_true] at hslash
                              refine ⟨content, hslash.1, rfl, fun hdir => ?_, rfl⟩
                              rw [hdir] at hd
                              exact hd rfl
                  | dir =>
                      right
                      simp only at h
                      split at h
                      · cases h
                      · next hinto =>
                          refine ⟨rfl, fun hp => ?_, ?_⟩
                          · simpa [hp] using hinto
                          · split at h
                            · next hn =>
                                cases h
                                refine .inr ⟨rfl, ?_⟩
                                rintro rfl
                                rw [hg] at hn
                                cases hn
                            · cases h
                            · split at h
                              · next he =>
                                  cases h
                                  exact .inl ⟨rfl, he⟩
                              · next hne =>
                                  split at h
                                  · cases h
                                  · cases h
                                    exact .inr ⟨rfl, hne⟩
          · cases h

/-- A file is renamed to where no directory stands; what else is renamed is a directory. -/
theorem rename_cases {other : String} (h : t.rename path other = .ok t') :
    ∃ source slash target slash', t.place path = .ok (.entry source slash) ∧
      t.place other = .ok (.entry target slash') ∧
        ((∃ content, t.get? source = some (.file content) ∧ t.get? target ≠ some .dir ∧
            t' = (t.drop source).put target (.file content)) ∨
          t.get? source = some .dir ∧ t'.get? target = some .dir ∧ t'.current = t.current) := by
  obtain ⟨source, slash, target, slash', hs, ht, ⟨content, -, hf, hd, rfl⟩ | ⟨hg, -, hcase⟩⟩ := rename_inv h
  · exact ⟨source, slash, target, slash', hs, ht, .inl ⟨content, hf, hd, rfl⟩⟩
  · refine ⟨source, slash, target, slash', hs, ht, .inr ⟨hg, ?_⟩⟩
    rcases hcase with ⟨rfl, he⟩ | ⟨rfl, hne⟩
    · exact ⟨he ▸ hg, rfl⟩
    · exact ⟨get?_move (place_entry_ne_nil hs) (place_entry_ne_nil ht) hne hg, rfl⟩

theorem rename_of_file {other : String} {source target : Location} {content : ByteArray}
    (hs : t.place path = .ok (.entry source false)) (ht : t.place other = .ok (.entry target false))
    (hf : t.get? source = some (.file content)) (hd : t.get? target ≠ some .dir) :
    t.rename path other = .ok ((t.drop source).put target (.file content)) := by
  have hdir : (t.get? target).any FileNode.isDir = false := by
    cases hg : t.get? target with
    | none => rfl
    | some node =>
        cases node with
        | dir => exact absurd hg hd
        | file c => rfl
  simp only [rename, bind, Except.bind, hs, ht, hf, hdir]
  rfl

/-! ## Rotating -/

theorem attempt_of_ok {f : FileTree → Except FileError FileTree} (h : f t = .ok t') :
    t.attempt f = t' := by
  rw [attempt, h]

theorem attempt_of_error {f : FileTree → Except FileError FileTree} {cause : FileError}
    (h : f t = .error cause) : t.attempt f = t := by
  rw [attempt, h]

/-- Both trees have the same directories. -/
def SameDirs (t t' : FileTree) : Prop := t.KeepsDirs t' ∧ t'.KeepsDirs t

theorem SameDirs.refl (t : FileTree) : t.SameDirs t := ⟨.refl t, .refl t⟩

theorem SameDirs.trans {t'' : FileTree} (h : t.SameDirs t') (h' : t'.SameDirs t'') : t.SameDirs t'' :=
  ⟨h.1.trans h'.1, h'.2.trans h.2⟩

theorem sameDirs_drop (h : loc ≠ []) (hd : t.get? loc ≠ some .dir) : t.SameDirs (t.drop loc) := by
  refine ⟨⟨rfl, fun l hl => ?_⟩, ⟨rfl, fun l hl => ?_⟩⟩
  · rw [get?_drop h, if_neg]
    · exact hl
    · rintro rfl
      exact hd hl
  · rw [get?_drop h] at hl
    split at hl
    · cases hl
    · exact hl

theorem sameDirs_put (h : loc ≠ []) (hd : t.get? loc ≠ some .dir) (content : ByteArray) :
    t.SameDirs (t.put loc (.file content)) := by
  refine ⟨keepsDirs_put h fun hl => absurd hl hd, ⟨rfl, fun l hl => ?_⟩⟩
  rw [get?_put h] at hl
  split at hl
  · cases hl
  · exact hl

theorem sameDirs_attempt_remove (t : FileTree) (path : String) :
    t.SameDirs (t.attempt fun t => t.remove path) := by
  cases hr : t.remove path with
  | error cause =>
      rw [attempt_of_error hr]
      exact .refl t
  | ok t' =>
      obtain ⟨loc, content, hp, hg, rfl⟩ := remove_eq_ok.1 hr
      rw [attempt_of_ok hr]
      exact sameDirs_drop (place_entry_ne_nil hp) fun h => by rw [hg] at h; cases h

/-- No directory comes or goes, unless a directory was made the version before. -/
theorem rotate_cases (t : FileTree) (path : String) :
    t.SameDirs (t.rotate path) ∨
      ∃ target slash, t.place (prevPath path) = .ok (.entry target slash) ∧
        (t.rotate path).get? target = some .dir ∧ (t.rotate path).current = t.current := by
  have hsame := sameDirs_attempt_remove t (prevPath path)
  rw [rotate]
  generalize t.attempt (fun t => t.remove (prevPath path)) = t₁ at hsame
  cases hr : t₁.rename path (prevPath path) with
  | error cause =>
      rw [attempt_of_error hr]
      exact .inl hsame
  | ok t₂ =>
      rw [attempt_of_ok hr]
      obtain ⟨source, slash, target, slash', hs, ht, ⟨content, hf, hd, rfl⟩ | ⟨-, hd, hc⟩⟩ := rename_cases hr
      · left
        have hdrop := sameDirs_drop (place_entry_ne_nil hs) fun h => by rw [hf] at h; cases h
        refine hsame.trans (hdrop.trans (sameDirs_put (place_entry_ne_nil ht) (fun h => hd ?_) content))
        exact hdrop.2.dirs _ h
      · exact .inr ⟨target, slash', hsame.2.place ht, hd, hc.trans hsame.1.current⟩

section Rotation

variable (h : t.place path = .ok (.entry loc false))
include h

/-- A path without room for the suffix is not rotated. -/
theorem rotate_of_not_leavesRoom (hr : ¬ LeavesRoom path) : t.rotate path = t := by
  obtain ⟨cause, hc⟩ := place_prevPath_of_not_leavesRoom h hr
  have hremove : t.remove (prevPath path) = .error cause := by
    simp only [remove, bind, Except.bind, hc]
  have hrename : t.rename path (prevPath path) = .error cause := by
    simp only [rename, bind, Except.bind, h, hc]
  rw [rotate, attempt_of_error (f := fun t => t.remove (prevPath path)) hremove,
    attempt_of_error (f := fun t => t.rename path (prevPath path)) hrename]

variable (hr : LeavesRoom path)
include hr

/-- What was the version before is gone, if there was one. -/
theorem get?_attempt_remove (hp : t.get? (prevLocation loc) ≠ some .dir) (l : Location) :
    (t.attempt fun t => t.remove (prevPath path)).get? l =
      if l = prevLocation loc then none else t.get? l := by
  have hprev := place_prevPath h hr
  cases ht : t.remove (prevPath path) with
  | ok t' =>
      obtain ⟨l', content, hl', -, rfl⟩ := remove_eq_ok.1 ht
      rw [hprev] at hl'
      cases hl'
      rw [attempt_of_ok ht, get?_drop (place_entry_ne_nil hprev)]
  | error cause =>
      -- Only a file that is missing could not be removed.
      have hnone : t.get? (prevLocation loc) = none := by
        cases hg : t.get? (prevLocation loc) with
        | none => rfl
        | some node =>
            cases node with
            | dir => exact absurd hg hp
            | file content =>
                rw [remove_eq_ok.2 ⟨_, content, hprev, hg, rfl⟩] at ht
                cases ht
      rw [attempt_of_error ht]
      split
      · next he => rw [he, hnone]
      · rfl

variable (hd : t.get? loc ≠ some .dir)
include hd

/-- A directory in the place of the version before stays there. -/
theorem rotate_of_dir (hp : t.get? (prevLocation loc) = some .dir) : t.rotate path = t := by
  have hprev := place_prevPath h hr
  have hremove : (t.attempt fun t => t.remove (prevPath path)) = t := by
    cases ht : t.remove (prevPath path) with
    | error cause => exact attempt_of_error ht
    | ok t' =>
        obtain ⟨l, content, hl, hg, -⟩ := remove_eq_ok.1 ht
        rw [hprev] at hl
        cases hl
        rw [hp] at hg
        cases hg
  rw [rotate, hremove]
  cases ht : t.rename path (prevPath path) with
  | error cause => exact attempt_of_error ht
  | ok t' =>
      obtain ⟨source, slash, target, slash', hs, htarget, hcase⟩ := rename_cases ht
      rw [h] at hs
      rw [hprev] at htarget
      cases hs
      cases htarget
      rcases hcase with ⟨content, -, hnd, -⟩ | ⟨hdir, -⟩
      · exact absurd hp hnd
      · exact absurd hdir hd

/-- **The file becomes the version before, and what was the version before is gone.** -/
theorem get?_rotate (hp : t.get? (prevLocation loc) ≠ some .dir) (l : Location) : (t.rotate path).get? l =
    if l = prevLocation loc then t.get? loc else if l = loc then none else t.get? l := by
  have hloc := place_entry_ne_nil h
  have hprev := place_prevPath h hr
  have hne := prevLocation_ne hloc
  have hsame := sameDirs_attempt_remove t (prevPath path)
  have hremove := get?_attempt_remove h hr hp
  rw [rotate]
  generalize t.attempt (fun t => t.remove (prevPath path)) = t₁ at hsame hremove
  have hg₁ : t₁.get? loc = t.get? loc := by rw [hremove, if_neg (Ne.symm hne)]
  have hp₁ : t₁.get? (prevLocation loc) = none := by rw [hremove, if_pos rfl]
  cases hg : t.get? loc with
  | none =>
      have hrename : (t₁.attempt fun t => t.rename path (prevPath path)) = t₁ := by
        cases ht : t₁.rename path (prevPath path) with
        | error cause => exact attempt_of_error ht
        | ok t' =>
            obtain ⟨source, slash, target, slash', hs, -, hcase⟩ := rename_cases ht
            rw [hsame.1.place h] at hs
            cases hs
            rw [hg₁, hg] at hcase
            simp at hcase
      rw [hrename, hremove]
      split
      · rfl
      · split
        · next he => rw [he, hg]
        · rfl
  | some node =>
      cases node with
      | dir => exact absurd hg hd
      | file content =>
          have hrename := rename_of_file (hsame.1.place h) (hsame.1.place hprev) (hg₁.trans hg)
            (fun hdir => by rw [hp₁] at hdir; cases hdir)
          rw [attempt_of_ok (f := fun t => t.rename path (prevPath path)) hrename,
            get?_put (place_entry_ne_nil hprev), get?_drop hloc]
          split
          · rfl
          · next hl => rw [hremove, if_neg hl]

end Rotation

/-! ## One write in place of a file -/

theorem exists_of_isOk {ε α : Type} {x : Except ε α} (h : x.isOk = true) : ∃ a, x = .ok a := by
  cases x with
  | ok a => exact ⟨a, rfl⟩
  | error e => cases h

/-- The content of the file at a location. -/
def fileAt? (t : FileTree) (loc : Location) : Option ByteArray :=
  match t.get? loc with
  | some (.file content) => some content
  | _ => none

theorem fileAt?_eq_some {content : ByteArray} :
    t.fileAt? loc = some content ↔ t.get? loc = some (.file content) := by
  rw [fileAt?]
  split
  · next c hg => simp [hg]
  · next hg => exact iff_of_false nofun fun h => hg content h

theorem get?_of_ne_dir (h : t.get? loc ≠ some .dir) : t.get? loc = (t.fileAt? loc).map .file := by
  rw [fileAt?]
  cases hg : t.get? loc with
  | none => rfl
  | some node =>
      cases node with
      | dir => exact absurd hg h
      | file content => rfl

theorem fileAt?_of_get? (h : t'.get? l = t.get? loc) : t'.fileAt? l = t.fileAt? loc := by
  rw [fileAt?, fileAt?, h]

theorem fileAt?_congr (h : ∀ content, t'.get? loc = some (.file content) ↔ t.get? loc = some (.file content)) :
    t'.fileAt? loc = t.fileAt? loc :=
  Option.ext fun content => by rw [fileAt?_eq_some, fileAt?_eq_some, h]

theorem isDir_of_place {slash : Bool} (h : t.place path = .ok (.entry loc slash)) :
    t.isDir path = true ↔ t.get? loc = some .dir := by
  rw [isDir, h]
  show (t.get? loc).any FileNode.isDir = true ↔ _
  cases t.get? loc with
  | none => simp
  | some node => cases node <;> simp [FileNode.isDir]

theorem KeepsDirs.isDir (h : t.KeepsDirs t') (hd : t.isDir path = true) : t'.isDir path = true := by
  cases hp : t.place path with
  | error cause =>
      rw [FileTree.isDir, hp] at hd
      cases hd
  | ok p =>
      cases p with
      | known loc => rw [FileTree.isDir, h.place hp]
      | entry loc slash => exact (isDir_of_place (h.place hp)).2 (h.dirs loc ((isDir_of_place hp).1 hd))

/-- The request has put its content in the place of the file at a location. -/
structure Replaces (t t' : FileTree) (r : WriteRequest) (loc : Location) : Prop where
  keepsDirs : t.KeepsDirs t'
  place : t'.place r.path = .ok (.entry loc false)
  written : t'.fileAt? loc = some r.content.toUTF8
  kept : LeavesRoom r.path → t'.fileAt? (prevLocation loc) = t.fileAt? loc
  others : ∀ l, l ≠ loc → (LeavesRoom r.path → l ≠ prevLocation loc) → t'.fileAt? l = t.fileAt? l

theorem Replaces.of_addsDirs {t₀ : FileTree} {r : WriteRequest} (hadds : t₀.AddsDirs t)
    (h : t.Replaces t' r loc) : t₀.Replaces t' r loc := by
  have hfile (l : Location) : t.fileAt? l = t₀.fileAt? l := fileAt?_congr (hadds.files l)
  refine ⟨hadds.toKeepsDirs.trans h.keepsDirs, h.place, h.written, fun hr => ?_, fun l hl hp => ?_⟩
  · rw [h.kept hr, hfile]
  · rw [h.others l hl hp, hfile]

/-- A write that succeeds has replaced the file, unless the version before is now a directory. -/
theorem replaces_of_write {r : WriteRequest} (h : (t.rotate r.path).write r.path r.content.toUTF8 = .ok t')
    (hp : t'.isDir (prevPath r.path) = false) : ∃ loc, t.Replaces t' r loc := by
  obtain ⟨loc, hplace₂, hdir₂, rfl⟩ := change_eq_ok.1 h
  have hloc := place_entry_ne_nil hplace₂
  have hput := sameDirs_put hloc hdir₂ r.content.toUTF8
  have hne := prevLocation_ne hloc
  have hprev₂ (hr : LeavesRoom r.path) : (t.rotate r.path).get? (prevLocation loc) ≠ some .dir := by
    intro hdir
    have hprev := hput.1.place (place_prevPath hplace₂ hr)
    rw [(isDir_of_place hprev).2 (hput.1.dirs _ hdir)] at hp
    cases hp
  have hsame : t.SameDirs (t.rotate r.path) := by
    refine (rotate_cases t r.path).resolve_right ?_
    rintro ⟨target, slash, hplace, hdir, hc⟩
    have hr := leavesRoom_of_place hplace
    rw [place_unique hc hplace (place_prevPath hplace₂ hr)] at hdir
    exact hprev₂ hr hdir
  have hplace := hsame.2.place hplace₂
  have hdir : t.get? loc ≠ some .dir := fun hg => hdir₂ (hsame.1.dirs loc hg)
  refine ⟨loc, hsame.1.trans hput.1, hput.1.place hplace₂, ?_, fun hr => ?_, fun l hl hpl => ?_⟩
  · rw [fileAt?_eq_some, get?_put hloc, if_pos rfl]
  · have hprev : t.get? (prevLocation loc) ≠ some .dir := fun hg => hprev₂ hr (hsame.1.dirs _ hg)
    refine fileAt?_of_get? ?_
    rw [get?_put hloc, if_neg hne, get?_rotate hplace hr hdir hprev, if_pos rfl]
  · refine fileAt?_of_get? ?_
    rw [get?_put hloc, if_neg hl]
    by_cases hr : LeavesRoom r.path
    · have hprev : t.get? (prevLocation loc) ≠ some .dir := fun hg => hprev₂ hr (hsame.1.dirs _ hg)
      rw [get?_rotate hplace hr hdir hprev, if_neg (hpl hr), if_neg hl]
    · rw [rotate_of_not_leavesRoom hplace hr]

/-- **A request that succeeds in place of a file.** -/
theorem replaces_of_store {r : WriteRequest} {result : String} (h : (t.store .overwrite r).2 = .ok result)
    (hp : (t.store .overwrite r).1.isDir (prevPath r.path) = false) :
    ∃ loc, t.Replaces (t.store .overwrite r).1 r loc := by
  have hadds := addsDirs_makeDirs t r.dir
  rw [store] at h hp ⊢
  cases hm : t.makeDirs r.dir with
  | mk t₁ made =>
      rw [hm] at h hp hadds
      cases made with
      | error cause => cases h
      | ok u =>
          simp only [storeFile] at h hp ⊢
          cases hw : (t₁.rotate r.path).write r.path r.content.toUTF8 with
          | error cause =>
              rw [hw] at h
              cases h
          | ok t₂ =>
              rw [hw] at hp
              obtain ⟨loc, hreplaces⟩ := replaces_of_write hw hp
              exact ⟨loc, hreplaces.of_addsDirs hadds⟩

/-! ## One write without a version before -/

theorem path_of_no_dir (name content : String) : (⟨"", name, content⟩ : WriteRequest).path = name := by
  simp [WriteRequest.path, joinPath]

namespace FillsRoom

variable (h : FillsRoom name) (hc : t.current = [])
include h hc

theorem place_of_root : t.place name = .ok (.entry [name] false) := by
  rw [h.place, hc, List.nil_append]

theorem place_prevPath : ∃ cause, t.place (prevPath name) = .error cause :=
  place_prevPath_of_not_leavesRoom (h.place_of_root hc) h.not_leavesRoom

theorem isDir_eq_false (hd : t.get? [name] ≠ some .dir) :
    t.isDir name = false ∧ t.isDir (prevPath name) = false := by
  obtain ⟨cause, hprev⟩ := h.place_prevPath hc
  refine ⟨?_, by rw [isDir, hprev]⟩
  rwa [Bool.eq_false_iff, ne_eq, isDir_of_place (h.place_of_root hc)]

/-- The file is replaced, and that is all. -/
theorem store (hd : t.get? [name] ≠ some .dir) (content : String) :
    t.store .overwrite ⟨"", name, content⟩ = (t.put [name] (.file content.toUTF8), .ok name) := by
  have hplace := h.place_of_root hc
  have hwrite : t.write name content.toUTF8 = .ok (t.put [name] (.file content.toUTF8)) :=
    change_eq_ok.2 ⟨[name], hplace, hd, rfl⟩
  have hmade : t.makeDirs "" = (t, .ok ()) := rfl
  simp only [FileTree.store, hmade, path_of_no_dir, rotate_of_not_leavesRoom hplace h.not_leavesRoom, storeFile, hwrite]

end FillsRoom

end FeedFiler.FileTree
