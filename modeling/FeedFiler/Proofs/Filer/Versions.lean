import FeedFiler.Proofs.Files.Rotating
import FeedFiler.Proofs.Filer.Partition

/-!
# The last two versions of a file

A store that replaces keeps of each file what was written last and, beside it, what the file held before
that. When all writes succeed, these are the last two of all contents that the file ever had.
-/

namespace FeedFiler.FileTree

variable {t t' u : FileTree} {requests : List WriteRequest} {loc : Location}

/-- What a file holds in the beginning, if there is one, and then everything that is written to it. -/
def versions (t u : FileTree) (requests : List WriteRequest) (loc : Location) : List ByteArray :=
  (t.fileAt? loc).toList ++ (requestsAt u loc requests).map fun r => r.content.toUTF8

variable {r : WriteRequest}

theorem versions_ne_nil {content : ByteArray} (h : t.fileAt? loc = some content) (u : FileTree)
    (requests : List WriteRequest) : versions t u requests loc ≠ [] := by
  simp [versions, h]

theorem versions_of_eq (hr : u.fileOf? r.path = some loc) (hw : t'.fileAt? loc = some r.content.toUTF8) :
    versions t u (r :: requests) loc = (t.fileAt? loc).toList ++ versions t' u requests loc := by
  simp [versions, requestsAt, hr, hw]

theorem versions_of_ne (hr : u.fileOf? r.path ≠ some loc) (hk : t'.fileAt? loc = t.fileAt? loc) :
    versions t u (r :: requests) loc = versions t' u requests loc := by
  simp [versions, requestsAt, hr, hk]

/-- The requests have replaced their files, one after the other. -/
inductive Rewrites (u : FileTree) : FileTree → List WriteRequest → Prop where
  | nil : Rewrites u u []
  | cons {t t' : FileTree} {r : WriteRequest} {requests : List WriteRequest} {loc : Location}
      (one : t.Replaces t' r loc) (others : Rewrites u t' requests) : Rewrites u t (r :: requests)

namespace Rewrites

theorem keepsDirs (h : Rewrites u t requests) : t.KeepsDirs u := by
  induction h with
  | nil => exact .refl u
  | cons one _ ih => exact one.keepsDirs.trans ih

end Rewrites

theorem rewrites_of_all_true (hu : (storeEach .overwrite requests t).1 = u)
    (hs : ∀ written ∈ (storeEach .overwrite requests t).2, written = true)
    (hd : ∀ r ∈ requests, u.isDir (prevPath r.path) = false) : Rewrites u t requests := by
  induction requests generalizing t with
  | nil =>
      cases hu
      exact .nil
  | cons r requests ih =>
      simp only [storeEach, List.mem_cons, forall_eq_or_imp] at hu hs hd
      obtain ⟨hr, hrest⟩ := hs
      obtain ⟨result, hresult⟩ := exists_of_isOk hr
      have hothers := ih hu hrest hd.2
      have hprev : (t.store .overwrite r).1.isDir (prevPath r.path) = false :=
        Bool.eq_false_iff.2 fun hdir => Bool.eq_false_iff.1 hd.1 (hothers.keepsDirs.isDir hdir)
      obtain ⟨loc, hone⟩ := replaces_of_store hresult hprev
      exact .cons hone hothers

namespace Rewrites

variable (h : Rewrites u t requests)
include h

theorem exists_fileOf? : ∀ r ∈ requests, ∃ loc, u.fileOf? r.path = some loc := by
  induction h with
  | nil => simp
  | cons one others ih =>
      rw [List.forall_mem_cons]
      exact ⟨⟨_, others.keepsDirs.fileOf? (fileOf?_eq_some.2 one.place)⟩, ih⟩

/-- A file holds what was written to it last, or what it held before. -/
theorem fileAt?_eq (hl : ∀ r ∈ requests, u.fileOf? (prevPath r.path) ≠ some loc) :
    u.fileAt? loc = (versions t u requests loc).getLast? := by
  induction h with
  | nil => cases hu : u.fileAt? loc <;> simp [versions, requestsAt, hu]
  | @cons t t' r requests target one others ih =>
      rw [List.forall_mem_cons] at hl
      have hfile := others.keepsDirs.fileOf? (fileOf?_eq_some.2 one.place)
      rw [ih hl.2]
      by_cases he : target = loc
      · subst he
        rw [versions_of_eq hfile one.written,
          List.getLast?_append_of_ne_nil _ (versions_ne_nil one.written u requests)]
      · rw [versions_of_ne (fun h => he (Option.some.inj (hfile.symm.trans h)))]
        refine one.others loc (Ne.symm he) fun hr => ?_
        rintro rfl
        exact hl.1 (fileOf?_eq_some.2 (place_prevPath (fileOf?_eq_some.1 hfile) hr))

/-- The version before is what the file held before the last write. -/
theorem fileAt?_prevLocation (hloc : loc ≠ [])
    (hl : ∀ r ∈ requests, u.fileOf? (prevPath r.path) ≠ some loc)
    (hroom : ∀ r ∈ requests, u.fileOf? r.path = some loc → LeavesRoom r.path)
    (hp : ∀ r ∈ requests, u.fileOf? r.path ≠ some (prevLocation loc)) :
    u.fileAt? (prevLocation loc) =
      if requestsAt u loc requests = [] then t.fileAt? (prevLocation loc)
      else (versions t u requests loc).dropLast.getLast? := by
  induction h with
  | nil => exact (if_pos rfl).symm
  | @cons t t' r requests target one others ih =>
      rw [List.forall_mem_cons] at hl hroom hp
      have hfile := others.keepsDirs.fileOf? (fileOf?_eq_some.2 one.place)
      rw [ih hl.2 hroom.2 hp.2]
      -- The writes behind this one decide, unless there is none: then it is what this one has moved.
      by_cases he : target = loc
      · subst he
        have hat : requestsAt u target (r :: requests) = r :: requestsAt u target requests := by
          rw [requestsAt, List.filter_cons_of_pos (by simpa using hfile), requestsAt]
        rw [hat, if_neg (List.cons_ne_nil _ _), versions_of_eq hfile one.written, one.kept (hroom.1 hfile),
          List.dropLast_append_of_ne_nil (versions_ne_nil one.written u requests)]
        cases hrest : requestsAt u target requests with
        | nil => cases hf : t.fileAt? target <;> simp [versions, hrest, one.written]
        | cons r' rest =>
            have hdrop : (versions t' u requests target).dropLast ≠ [] := by
              simp [versions, hrest, one.written]
            rw [if_neg (List.cons_ne_nil _ _), List.getLast?_append_of_ne_nil _ hdrop]
      · have hne : u.fileOf? r.path ≠ some loc := fun h => he (Option.some.inj (hfile.symm.trans h))
        have hat : requestsAt u loc (r :: requests) = requestsAt u loc requests := by
          rw [requestsAt, List.filter_cons_of_neg (by simpa using hne), requestsAt]
        have hkept : t'.fileAt? loc = t.fileAt? loc := by
          refine one.others loc (Ne.symm he) fun hr => ?_
          rintro rfl
          exact hl.1 (fileOf?_eq_some.2 (place_prevPath (fileOf?_eq_some.1 hfile) hr))
        have hprev : t'.fileAt? (prevLocation loc) = t.fileAt? (prevLocation loc) := by
          refine one.others _ (fun h => hp.1 (h ▸ hfile)) fun _ h => he ?_
          exact (prevLocation_inj hloc (place_entry_ne_nil one.place) h).symm
        rw [hat, hprev, versions_of_ne hne hkept]

end Rewrites

/-- **A store that replaces keeps the last two versions.** When all writes succeed, no version before is a
directory at the end, and no file that is written is the version before of another one: each file holds
the last of its contents, and the version before holds the one before that, or is missing if there is none.
No other file is new or different. A path without room for the suffix has no version before. -/
theorem last_two_versions (t : FileTree) (requests : List WriteRequest) :
    let u := (storeEach .overwrite requests t).1
    (∀ written ∈ (storeEach .overwrite requests t).2, written = true) →
    (∀ r ∈ requests, u.isDir (prevPath r.path) = false) →
    (∀ r ∈ requests, ∀ r' ∈ requests, u.fileOf? r.path ≠ u.fileOf? (prevPath r'.path)) →
    (∀ r ∈ requests, ∃ loc, u.fileOf? r.path = some loc ∧
      u.get? loc = (versions t u requests loc).getLast?.map .file ∧
      ((∀ r' ∈ requests, u.fileOf? r'.path = some loc → LeavesRoom r'.path) →
        ∃ prev, u.fileOf? (prevPath r.path) = some prev ∧
          u.get? prev = (versions t u requests loc).dropLast.getLast?.map .file)) ∧
    ∀ loc, (∀ r ∈ requests, u.fileOf? r.path ≠ some loc ∧ u.fileOf? (prevPath r.path) ≠ some loc) →
      ∀ content, u.get? loc = some (.file content) ↔ t.get? loc = some (.file content) := by
  intro u hs hd hapart
  have hrewrites := rewrites_of_all_true rfl hs hd
  have hnotPrev {loc : Location} {r : WriteRequest} (hr : r ∈ requests) (hloc : u.fileOf? r.path = some loc) :
      ∀ r' ∈ requests, u.fileOf? (prevPath r'.path) ≠ some loc := by
    intro r' hr' he
    exact hapart r hr r' hr' (hloc.trans he.symm)
  refine ⟨fun r hr => ?_, fun loc hloc content => ?_⟩
  · obtain ⟨loc, hloc⟩ := hrewrites.exists_fileOf? r hr
    have hlast := hrewrites.fileAt?_eq (hnotPrev hr hloc)
    have hat : requestsAt u loc requests ≠ [] :=
      List.ne_nil_of_mem (List.mem_filter.2 ⟨hr, decide_eq_true hloc⟩)
    refine ⟨loc, hloc, ?_, fun hroom => ?_⟩
    · have hne : versions t u requests loc ≠ [] := by simp [versions, hat]
      rw [List.getLast?_eq_some_getLast hne] at hlast ⊢
      exact fileAt?_eq_some.1 hlast
    · have hplace := fileOf?_eq_some.1 hloc
      have hplacePrev := place_prevPath hplace (hroom r hr hloc)
      have hdir : u.get? (prevLocation loc) ≠ some .dir := by
        intro hg
        rw [← isDir_of_place hplacePrev, hd r hr] at hg
        cases hg
      refine ⟨prevLocation loc, fileOf?_eq_some.2 hplacePrev, ?_⟩
      rw [get?_of_ne_dir hdir, hrewrites.fileAt?_prevLocation (place_entry_ne_nil hplace) (hnotPrev hr hloc)
        hroom, if_neg hat]
      intro r' hr' he
      exact hapart r' hr' r hr (he.trans (fileOf?_eq_some.2 hplacePrev).symm)
  · have hnil : requestsAt u loc requests = [] := by
      simpa [requestsAt] using fun r hr => (hloc r hr).1
    rw [← fileAt?_eq_some, ← fileAt?_eq_some, hrewrites.fileAt?_eq fun r hr => (hloc r hr).2, versions, hnil]
    cases t.fileAt? loc <;> simp

/-- Two files are written in turn, one of which is there before with a version before. -/
theorem last_two_versions_in_turn :
    let t : FileTree := ((({} : FileTree).put ["d"] .dir).put ["d", "x"] (.file "1".toUTF8)).put
      ["d", "x.prev"] (.file "0".toUTF8)
    let requests : List WriteRequest := [⟨"d", "x", "2"⟩, ⟨"d", "y", "2"⟩, ⟨"d", "x", "3"⟩]
    let s := storeEach .overwrite requests t
    (∀ written ∈ s.2, written = true) ∧ (∀ r ∈ requests, s.1.isDir (prevPath r.path) = false) ∧
      (∀ r ∈ requests, ∀ r' ∈ requests, s.1.fileOf? r.path ≠ s.1.fileOf? (prevPath r'.path)) ∧
      s.1.get? ["d", "x"] = some (.file "3".toUTF8) ∧ s.1.get? ["d", "x.prev"] = some (.file "2".toUTF8) ∧
      s.1.get? ["d", "y"] = some (.file "2".toUTF8) ∧ s.1.get? ["d", "y.prev"] = none := by
  intro t requests s
  have hs : ∀ written ∈ s.2, written = true := by decide +kernel
  have hd : ∀ r ∈ requests, s.1.isDir (prevPath r.path) = false := by decide +kernel
  have hapart : ∀ r ∈ requests, ∀ r' ∈ requests, s.1.fileOf? r.path ≠ s.1.fileOf? (prevPath r'.path) := by
    decide +kernel
  obtain ⟨hkept, -⟩ := last_two_versions t requests hs hd hapart
  have hroom : ∀ r ∈ requests, LeavesRoom r.path := by decide +kernel
  -- What the theorem says of the file at the path of a request.
  have hat (r : WriteRequest) (hr : r ∈ requests) (loc prev : Location) (hl : s.1.fileOf? r.path = some loc)
      (hp : s.1.fileOf? (prevPath r.path) = some prev) :
      s.1.get? loc = (versions t s.1 requests loc).getLast?.map .file ∧
        s.1.get? prev = (versions t s.1 requests loc).dropLast.getLast?.map .file := by
    obtain ⟨loc', hl', hlast, hbefore⟩ := hkept r hr
    obtain ⟨prev', hp', hbefore⟩ := hbefore fun r' hr' _ => hroom r' hr'
    rw [hl] at hl'
    rw [hp] at hp'
    cases hl'
    cases hp'
    exact ⟨hlast, hbefore⟩
  have hx := hat ⟨"d", "x", "3"⟩ (by decide) ["d", "x"] ["d", "x.prev"] (by decide +kernel) (by decide +kernel)
  have hy := hat ⟨"d", "y", "2"⟩ (by decide) ["d", "y"] ["d", "y.prev"] (by decide +kernel) (by decide +kernel)
  have hvx : versions t s.1 requests ["d", "x"] = ["1".toUTF8, "2".toUTF8, "3".toUTF8] := by decide +kernel
  have hvy : versions t s.1 requests ["d", "y"] = ["2".toUTF8] := by decide +kernel
  rw [hvx] at hx
  rw [hvy] at hy
  exact ⟨hs, hd, hapart, hx.1, hx.2, hy.1, hy.2⟩

/-- A name that has no room for the suffix: nothing is left of the version before. -/
theorem last_two_versions_of_long_name :
    ¬ ∀ (t : FileTree) (requests : List WriteRequest),
      let u := (storeEach .overwrite requests t).1
      (∀ written ∈ (storeEach .overwrite requests t).2, written = true) →
      (∀ s ∈ [t, u], ∀ r ∈ requests, s.isDir r.path = false ∧ s.isDir (prevPath r.path) = false) →
      (∀ r ∈ requests, ∀ r' ∈ requests, u.fileOf? r.path ≠ u.fileOf? (prevPath r'.path)) →
      ∀ r ∈ requests, ∀ loc content, u.fileOf? r.path = some loc →
        (versions t u requests loc).dropLast.getLast? = some content →
        u.read (prevPath r.path) = .ok content := by
  intro h
  obtain ⟨name, hlong⟩ : ∃ name, FillsRoom name := ⟨longName, fillsRoom_longName⟩
  let u : FileTree := (({} : FileTree).put [name] (.file "1".toUTF8)).put [name] (.file "2".toUTF8)
  have hs : storeEach .overwrite [⟨"", name, "1"⟩, ⟨"", name, "2"⟩] {} = (u, [true, true]) := by
    simp only [storeEach, hlong.store (t := {}) rfl (by simp [get?]) "1",
      hlong.store (t := ({} : FileTree).put [name] (.file "1".toUTF8)) rfl (by simp [get?_put]) "2"]
    rfl
  have hfile : u.fileOf? name = some [name] := fileOf?_eq_some.2 (hlong.place_of_root rfl)
  obtain ⟨cause, hprev⟩ := hlong.place_prevPath (t := u) rfl
  have hnone : u.fileOf? (prevPath name) = none := by rw [fileOf?, hprev]
  have hread := h {} [⟨"", name, "1"⟩, ⟨"", name, "2"⟩] (by simp [hs])
    (by simp [hs, path_of_no_dir, hlong.isDir_eq_false (t := {}) rfl (by simp [get?]),
      hlong.isDir_eq_false (t := u) rfl (by simp [u, get?_put])])
    (by simp [hs, path_of_no_dir, hfile, hnone]) ⟨"", name, "1"⟩ (List.mem_cons_self ..) [name] "1".toUTF8
    (by simp [hs, path_of_no_dir, hfile]) (by simp [hs, path_of_no_dir, hfile, versions, requestsAt, fileAt?, get?])
  rw [hs, path_of_no_dir] at hread
  obtain ⟨loc, hloc, -⟩ := read_eq_ok.1 hread
  rw [hprev] at hloc
  cases hloc

end FeedFiler.FileTree
