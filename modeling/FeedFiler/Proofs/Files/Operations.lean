import FeedFiler.Files.Store

/-!
# What operations on files do

For each operation when it succeeds and what it leaves. Making directories and writing files keep all
directories that exist, so that a path that leads somewhere leads to the same place afterwards.
-/

namespace FeedFiler.FileTree

variable {t t' : FileTree} {path : String} {loc l : Location}

/-! ## Entries -/

theorem get?_put (h : loc ≠ []) (node : FileNode) :
    (t.put loc node).get? l = if l = loc then some node else t.get? l := by
  cases l with
  | nil => simp [get?, Ne.symm h]
  | cons name l =>
      simp only [get?, put, List.isEmpty_cons, Bool.false_eq_true, ↓reduceIte,
        Std.ExtTreeMap.getElem?_insert, Std.LawfulEqOrd.compare_eq_iff_eq]
      simp only [eq_comm]

theorem getElem?_put (t : FileTree) (loc : Location) (node : FileNode) :
    (t.put loc node).entries[l]? = if loc = l then some node else t.entries[l]? := by
  simp only [put, Std.ExtTreeMap.getElem?_insert, Std.LawfulEqOrd.compare_eq_iff_eq]

/-- The content of the file at a location, empty if there is none. -/
def contentAt (t : FileTree) (loc : Location) : ByteArray :=
  match t.get? loc with
  | some (.file content) => content
  | _ => .empty

theorem place_entry_ne_nil {slash : Bool} (h : t.place path = .ok (.entry loc slash)) : loc ≠ [] := by
  simp only [place, bind, Except.bind, pure, Except.pure, throw, throwThe, MonadExceptOf.throw] at h
  repeat' split at h
  all_goals try cases h
  all_goals simp

/-! ## When an operation succeeds -/

theorem makeDir_eq_ok : t.makeDir path = .ok t' ↔
    ∃ loc slash, t.place path = .ok (.entry loc slash) ∧ t.get? loc = none ∧ t' = t.put loc .dir := by
  simp only [makeDir, bind, Except.bind, pure, Except.pure, throw, throwThe, MonadExceptOf.throw]
  cases t.place path with
  | error e => simp
  | ok place =>
      cases place with
      | known loc => simp
      | entry loc slash =>
          cases h : t.get? loc with
          | none => simp [h, eq_comm]
          | some node => simp [h]

theorem change_eq_ok {edit : ByteArray → ByteArray} : t.change path edit = .ok t' ↔
    ∃ loc, t.place path = .ok (.entry loc false) ∧ t.get? loc ≠ some .dir ∧
      t' = t.put loc (.file (edit (t.contentAt loc))) := by
  simp only [change, bind, Except.bind, pure, Except.pure, throw, throwThe, MonadExceptOf.throw]
  cases t.place path with
  | error e => simp
  | ok place =>
      cases place with
      | known loc => simp
      | entry loc slash =>
          cases slash with
          | true => simp
          | false =>
              cases h : t.get? loc with
              | none => simp [h, contentAt, eq_comm]
              | some node => cases node <;> simp [h, contentAt, eq_comm]

theorem read_eq_ok {content : ByteArray} : t.read path = .ok content ↔
    ∃ loc, t.place path = .ok (.entry loc false) ∧ t.get? loc = some (.file content) := by
  simp only [read, bind, Except.bind, pure, Except.pure, throw, throwThe, MonadExceptOf.throw]
  cases t.place path with
  | error e => simp
  | ok place =>
      cases place with
      | known loc => simp
      | entry loc slash =>
          cases h : t.get? loc with
          | none => simp [h]
          | some node =>
              cases node with
              | dir => simp [h]
              | file c => cases slash <;> simp [h]

/-! ## Trees that keep their directories -/

/-- All directories of `t` are directories of `t'`. -/
structure KeepsDirs (t t' : FileTree) : Prop where
  current : t'.current = t.current
  dirs : ∀ loc, t.get? loc = some .dir → t'.get? loc = some .dir

theorem KeepsDirs.refl (t : FileTree) : t.KeepsDirs t := ⟨rfl, fun _ h => h⟩

theorem KeepsDirs.trans {t'' : FileTree} (h : t.KeepsDirs t') (h' : t'.KeepsDirs t'') :
    t.KeepsDirs t'' :=
  ⟨h'.current.trans h.current, fun loc hd => h'.dirs loc (h.dirs loc hd)⟩

theorem KeepsDirs.walk (h : t.KeepsDirs t') {names : List String} {loc r : Location}
    (hw : t.walk loc names = .ok r) : t'.walk loc names = .ok r := by
  induction names generalizing loc with
  | nil => exact hw
  | cons name names ih =>
      rw [FileTree.walk] at hw ⊢
      split at hw
      · next hn => rw [if_pos hn]; exact ih hw
      · next hn =>
          rw [if_neg hn]
          split at hw
          · next hp => rw [if_pos hp]; exact ih hw
          · next hp =>
              rw [if_neg hp]
              split at hw
              · cases hw
              · next hl =>
                  rw [if_neg hl]
                  cases hg : t.get? (loc ++ [name]) with
                  | none => rw [hg] at hw; cases hw
                  | some node =>
                      rw [hg] at hw
                      cases node with
                      | file content => cases hw
                      | dir => rw [h.dirs _ hg]; exact ih hw

theorem KeepsDirs.place (h : t.KeepsDirs t') {p : Place} (hp : t.place path = .ok p) :
    t'.place path = .ok p := by
  simp only [FileTree.place, bind, Except.bind, pure, Except.pure, throw, throwThe,
    MonadExceptOf.throw, h.current] at hp ⊢
  split at hp
  · cases hp
  · next h1 =>
      rw [if_neg h1]
      split at hp
      · cases hp
      · next h2 =>
          rw [if_neg h2]
          split at hp
          · cases hp
          · next h3 =>
              rw [if_neg h3]
              split at hp
              · exact hp
              · split at hp
                · next h4 =>
                    rw [if_pos h4]
                    split at hp
                    · cases hp
                    · next hw => rw [h.walk hw]; exact hp
                · next h4 =>
                    rw [if_neg h4]
                    split at hp
                    · cases hp
                    · next hw => rw [h.walk hw]; exact hp

theorem keepsDirs_put (h : loc ≠ []) {node : FileNode} (hn : t.get? loc = some .dir → node = .dir) :
    t.KeepsDirs (t.put loc node) := by
  refine ⟨rfl, fun l hl => ?_⟩
  rw [get?_put h]
  split
  · next he => rw [hn (he ▸ hl)]
  · exact hl

/-- `t'` has nothing that `t` does not have but directories. -/
structure AddsDirs (t t' : FileTree) : Prop extends t.KeepsDirs t' where
  files : ∀ loc content, t'.get? loc = some (.file content) ↔ t.get? loc = some (.file content)

theorem AddsDirs.refl (t : FileTree) : t.AddsDirs t := ⟨.refl t, fun _ _ => .rfl⟩

theorem AddsDirs.trans {t'' : FileTree} (h : t.AddsDirs t') (h' : t'.AddsDirs t'') : t.AddsDirs t'' :=
  ⟨h.toKeepsDirs.trans h'.toKeepsDirs, fun loc content => (h'.files loc content).trans (h.files loc content)⟩

theorem addsDirs_of_makeDir (h : t.makeDir path = .ok t') : t.AddsDirs t' := by
  obtain ⟨loc, slash, hp, hn, rfl⟩ := makeDir_eq_ok.1 h
  have hne := place_entry_ne_nil hp
  refine ⟨keepsDirs_put hne fun _ => rfl, fun l content => ?_⟩
  rw [get?_put hne]
  split
  · next he => simp [he, hn]
  · exact .rfl

theorem addsDirs_makeChain (paths : List String) (t : FileTree) : t.AddsDirs (t.makeChain paths).1 := by
  induction paths generalizing t with
  | nil => exact .refl t
  | cons path above ih =>
      simp only [makeChain]
      split
      · have hc := ih t
        split
        · next above h =>
            rw [h] at hc
            split
            · next hm => exact hc.trans (addsDirs_of_makeDir hm)
            · exact hc
        · next h => rw [h] at hc; exact hc
      · split
        · next hm => exact addsDirs_of_makeDir hm
        · exact .refl t

theorem addsDirs_makeDirs (t : FileTree) (path : String) : t.AddsDirs (t.makeDirs path).1 := by
  rw [makeDirs]
  split
  · exact .refl t
  · exact addsDirs_makeChain _ t

theorem AddsDirs.read (h : t.AddsDirs t') {content : ByteArray} (hr : t.read path = .ok content) :
    t'.read path = .ok content := by
  obtain ⟨loc, hp, hg⟩ := read_eq_ok.1 hr
  exact read_eq_ok.2 ⟨loc, h.place hp, (h.files loc content).2 hg⟩

/-! ## Changing a file -/

theorem keepsDirs_of_change {edit : ByteArray → ByteArray} (h : t.change path edit = .ok t') :
    t.KeepsDirs t' := by
  obtain ⟨loc, hp, hd, rfl⟩ := change_eq_ok.1 h
  exact keepsDirs_put (place_entry_ne_nil hp) fun hg => absurd hg hd

/-- What a change leaves is read at its path. -/
theorem read_of_change {edit : ByteArray → ByteArray} (h : t.change path edit = .ok t') :
    ∃ old, t'.read path = .ok (edit old) ∧
      (t.read path = .ok old ∨ (old = .empty ∧ ∀ content, t.read path ≠ .ok content)) := by
  have hk := keepsDirs_of_change h
  obtain ⟨loc, hp, hd, rfl⟩ := change_eq_ok.1 h
  refine ⟨t.contentAt loc, read_eq_ok.2 ⟨loc, hk.place hp, ?_⟩, ?_⟩
  · rw [get?_put (place_entry_ne_nil hp), if_pos rfl]
  · cases hg : t.get? loc with
    | none =>
        right
        refine ⟨by rw [contentAt, hg], fun content hr => ?_⟩
        obtain ⟨loc', hp', hg'⟩ := read_eq_ok.1 hr
        rw [hp] at hp'
        cases hp'
        rw [hg] at hg'
        cases hg'
    | some node =>
        cases node with
        | dir => exact absurd hg hd
        | file content =>
            left
            exact read_eq_ok.2 ⟨loc, hp, by rw [contentAt, hg]⟩

end FeedFiler.FileTree
