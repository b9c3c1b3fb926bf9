import FeedFiler.Proofs.Files.Rotating
import FeedFiler.Proofs.Filer.Trouble

/-!
# The last good version of a file

A write that replaces makes room for the new content before it is known whether there is any. When the
content cannot be written, the version before is still there. When that happens twice, it may be gone.
-/

namespace FeedFiler

open Writing FileTree

/-- Trouble comes at most when the content is written. Then the file is not opened, or it holds only a
first part of the content. -/
structure Trouble.Spoils (trouble : Trouble) (r : WriteRequest) : Prop where
  only : ∀ t w, w ≠ .replace → trouble t w = none
  leaves : ∀ t t' cause, trouble t .replace = some (t', cause) →
    t' = t ∨ ∃ n, t.write r.path (r.content.toUTF8.extract 0 n) = .ok t'

theorem Trouble.spoils_calm (r : WriteRequest) : Trouble.calm.Spoils r :=
  ⟨fun _ _ _ => rfl, fun _ _ _ h => by cases h⟩

/-- The disk is full: the file is made, but nothing is written to it. -/
def Trouble.fullDisk (path : String) (cause : StoreError) : Trouble := fun t w =>
  match w, t.write path .empty with
  | .replace, .ok t => some (t, cause)
  | _, _ => none

theorem Trouble.spoils_fullDisk (r : WriteRequest) (cause : StoreError) :
    (Trouble.fullDisk r.path cause).Spoils r := by
  refine ⟨fun t w hw => ?_, fun t t' cause' h => .inr ⟨0, ?_⟩⟩
  · cases w with
    | replace => exact absurd rfl hw
    | _ => rfl
  · have hempty : r.content.toUTF8.extract 0 0 = .empty := by simp
    rw [hempty]
    simp only [fullDisk] at h
    split at h
    · next hw =>
        cases h
        exact hw
    · cases h

variable {trouble : Trouble} {mode : StoreMode} {r : WriteRequest} {t t' : FileTree}

/-! ## One write -/

namespace Writing

variable {p q : FileTree × Writing}

theorem alone_finished {result : Except StoreError String} (h : Alone mode r (t, .finished result) q) :
    q = (t, .finished result) := by
  induction h with
  | refl => rfl
  | tail _ hq ih => rw [hq, ih, step]

/-- Operations in front of the content have no trouble. -/
theorem complete_of_alone (hs : trouble.Spoils r) (h : Alone mode r p q)
    (hq : ∀ result, q.2 = .finished result → ∃ dir cause, result = .error (.directory dir cause)) :
    complete trouble mode r p.1 p.2 = complete trouble mode r q.1 q.2 := by
  induction h using Relation.ReflTransGen.head_induction_on with
  | refl => rfl
  | @head p p' hp hrest ih =>
      obtain ⟨t, w⟩ := p
      subst hp
      by_cases hw : w = .replace
      · -- Behind the content, there is no failure of a directory.
        subst hw
        rw [step, finish] at hrest
        obtain ⟨dir, cause, hd⟩ := hq _ (congrArg Prod.snd (alone_finished hrest))
        rw [fill] at hd
        split at hd <;> cases hd
      · have hnone : strike? trouble t w = none := by
          rw [strike?]
          split
          · rfl
          · exact hs.only t w hw
        rw [← ih, ← complete_stepUnder trouble mode r t w, stepUnder, hnone]

end Writing

namespace FileTree

/-- Carries out a request that may go wrong when the content is written. -/
def storeSpoiled (t : FileTree) (trouble : Trouble) (r : WriteRequest) : FileTree × Except StoreError String :=
  match t.makeDirs r.dir with
  | (t, .error cause) => (t, .error (.directory r.dir cause))
  | (t, .ok ()) =>
    match trouble (t.rotate r.path) .replace with
    | some (t, cause) => (t, .error cause)
    | none => fill .overwrite r (t.rotate r.path)

theorem storeUnder_eq_storeSpoiled (hs : trouble.Spoils r) (t : FileTree) :
    t.storeUnder trouble .overwrite r = t.storeSpoiled trouble r := by
  have halone := alone_makeDirs .overwrite r t
  rw [storeUnder, storeSpoiled]
  cases hm : t.makeDirs r.dir with
  | mk t₁ made =>
      rw [hm] at halone
      cases made with
      | error cause =>
          rw [complete_of_alone hs halone fun result h => ⟨r.dir, cause, by cases h; rfl⟩]
          exact complete_finished _
      | ok u =>
          have hreplace : Alone .overwrite r (t, start r) (t₁.rotate r.path, .replace) :=
            halone.trans (Alone.head (Alone.head .refl))
          have hstep : stepUnder trouble .overwrite r (t₁.rotate r.path) .replace =
              match trouble (t₁.rotate r.path) .replace with
              | some (t, cause) => (t, .finished (.error cause))
              | none => finish .overwrite r (t₁.rotate r.path) := rfl
          rw [complete_of_alone hs hreplace fun result h => by cases h]
          rw [← complete_stepUnder, hstep]
          dsimp only
          cases trouble (t₁.rotate r.path) .replace with
          | none => exact complete_finished _
          | some struck => exact complete_finished _

theorem read_storeSpoiled {result : String} (h : (t.storeSpoiled trouble r).2 = .ok result) :
    (t.storeSpoiled trouble r).1.read r.path = .ok r.content.toUTF8 := by
  rw [storeSpoiled] at h ⊢
  cases hm : t.makeDirs r.dir with
  | mk t₁ made =>
      rw [hm] at h
      cases made with
      | error cause => cases h
      | ok u =>
          dsimp only at h ⊢
          cases ht : trouble (t₁.rotate r.path) .replace with
          | some struck =>
              rw [ht] at h
              cases h
          | none =>
              rw [ht] at h
              simp only [fill, storeFile] at h ⊢
              cases hw : (t₁.rotate r.path).write r.path r.content.toUTF8 with
              | error cause =>
                  rw [hw] at h
                  cases h
              | ok t' =>
                  obtain ⟨old, hread, -⟩ := read_of_change hw
                  exact hread

/-- What is written in place of a file that was rotated away, or nothing. -/
def Leaves (t t' : FileTree) (path : String) : Prop := t' = t ∨ ∃ part, t.write path part = .ok t'

theorem Leaves.keepsDirs {path : String} (h : t.Leaves t' path) : t.KeepsDirs t' := by
  rcases h with rfl | ⟨part, h⟩
  · exact .refl _
  · exact keepsDirs_of_change h

theorem leaves_fill (r : WriteRequest) (t : FileTree) : t.Leaves (fill .overwrite r t).1 r.path := by
  simp only [fill, storeFile]
  cases h : t.write r.path r.content.toUTF8 with
  | error cause => exact .inl rfl
  | ok t' => exact .inr ⟨_, h⟩

/-- The content of the file is the version before, whatever is left of the new content. -/
theorem Leaves.read_prevPath {path : String} {content : ByteArray} (hroom : LeavesRoom path)
    (hread : t.read path = .ok content) (h : (t.rotate path).Leaves t' path)
    (hd : t'.isDir (prevPath path) = false) : t'.read (prevPath path) = .ok content := by
  obtain ⟨loc, hplace, hfile⟩ := read_eq_ok.1 hread
  have hprev := place_prevPath hplace hroom
  have hne := prevLocation_ne (place_entry_ne_nil hplace)
  have hdir : t.get? loc ≠ some .dir := by simp [hfile]
  have hprevDir : t.get? (prevLocation loc) ≠ some .dir := by
    intro hg
    rw [rotate_of_dir hplace hroom hdir hg] at h
    have hkept := h.keepsDirs.isDir ((isDir_of_place hprev).2 hg)
    rw [hd] at hkept
    cases hkept
  have hrotate := get?_rotate hplace hroom hdir hprevDir
  have hsame : t.SameDirs (t.rotate path) := by
    refine (rotate_cases t path).resolve_right ?_
    rintro ⟨target, slash, htarget, hg, -⟩
    rw [hprev] at htarget
    cases htarget
    rw [hrotate, if_pos rfl, hfile] at hg
    cases hg
  refine read_eq_ok.2 ⟨prevLocation loc, h.keepsDirs.place (hsame.1.place hprev), ?_⟩
  have hrotated : (t.rotate path).get? (prevLocation loc) = some (.file content) := by
    rw [hrotate, if_pos rfl, hfile]
  rcases h with rfl | ⟨part, hw⟩
  · exact hrotated
  · obtain ⟨loc', hplace', -, rfl⟩ := change_eq_ok.1 hw
    rw [hsame.1.place hplace] at hplace'
    cases hplace'
    rw [get?_put (place_entry_ne_nil hplace), if_neg hne, hrotated]

/-- **One write does not lose what the file holds.** It is still there, or it is the version before. -/
theorem kept_storeSpoiled {content : ByteArray} (hs : trouble.Spoils r) (hroom : LeavesRoom r.path)
    (hread : t.read r.path = .ok content)
    (hd : (t.storeSpoiled trouble r).1.isDir (prevPath r.path) = false) :
    (t.storeSpoiled trouble r).1.read r.path = .ok content ∨
      (t.storeSpoiled trouble r).1.read (prevPath r.path) = .ok content := by
  have hadds := addsDirs_makeDirs t r.dir
  rw [storeSpoiled] at hd ⊢
  cases hm : t.makeDirs r.dir with
  | mk t₁ made =>
      rw [hm] at hd hadds
      cases made with
      | error cause => exact .inl (hadds.read hread)
      | ok u =>
          right
          dsimp only at hd ⊢
          cases ht : trouble (t₁.rotate r.path) .replace with
          | none =>
              rw [ht] at hd
              exact (leaves_fill r _).read_prevPath hroom (hadds.read hread) hd
          | some struck =>
              rw [ht] at hd
              have hleaves : (t₁.rotate r.path).Leaves struck.1 r.path :=
                (hs.leaves _ _ _ ht).imp_right fun ⟨n, hw⟩ => ⟨_, hw⟩
              exact hleaves.read_prevPath hroom (hadds.read hread) hd

end FileTree

/-! ## Some writes -/

variable {trouble : Nat → Trouble} {path : String} {requests : List WriteRequest}

theorem length_storeEachUnder (trouble : Nat → Trouble) (mode : StoreMode) (n : Nat)
    (requests : List WriteRequest) (t : FileTree) :
    (storeEachUnder trouble mode n requests t).2.length = requests.length := by
  induction requests generalizing n t with
  | nil => rfl
  | cons r requests ih => simp only [storeEachUnder, List.length_cons, ih]

theorem suffix_of_forall_false {results : List Bool} (h : ∀ written ∈ results, written = false)
    (hl : 2 ≤ results.length) : [false, false] <:+ results := by
  obtain ⟨n, hn⟩ := Nat.exists_eq_add_of_le' hl
  rw [List.eq_replicate_of_mem h, hn]
  exact ⟨List.replicate n false, List.replicate_append_replicate (n := n) (m := 2)⟩

/-- The file or the version before holds the content of the last write that succeeded. -/
def HoldsLast (path : String) (requests : List WriteRequest) (s : FileTree × List Bool) : Prop :=
  ∀ (n : Nat) (r : WriteRequest), requests[n]? = some r → s.2[n]? = some true →
    (∀ m, n < m → s.2[m]? ≠ some true) →
    s.1.read path = .ok r.content.toUTF8 ∨ s.1.read (prevPath path) = .ok r.content.toUTF8

/-- **The last good version survives one failure.** Some writes to one path may fail when they write the
content. As long as the last two of them have not both failed, the content of the last one that succeeded
is in the file or in the version before. -/
theorem last_version_kept (t : FileTree) (hpath : ∀ r ∈ requests, r.path = path) (hroom : LeavesRoom path)
    (hs : ∀ n r, requests[n]? = some r → (trouble n).Spoils r) :
    let s := storeEachUnder trouble .overwrite 0 requests t
    s.1.isDir (prevPath path) = false → ¬ [false, false] <:+ s.2 → HoldsLast path requests s := by
  intro s hd hlast n r hr hn hlater
  obtain ⟨before, after, rfl, rfl⟩ : ∃ before after, requests = before ++ r :: after ∧ before.length = n := by
    obtain ⟨hlt, rfl⟩ := List.getElem?_eq_some_iff.1 hr
    refine ⟨requests.take n, requests.drop (n + 1), ?_, List.length_take_of_le (Nat.le_of_lt hlt)⟩
    rw [← List.drop_eq_getElem_cons hlt, List.take_append_drop]
  obtain rfl : r.path = path := hpath r (by simp)
  have hlength := length_storeEachUnder trouble .overwrite 0 before t
  have hsplit : s = _ := storeEachUnder_append trouble .overwrite 0 before (r :: after) t
  generalize storeEachUnder trouble .overwrite 0 before t = front at hsplit hlength
  rw [Nat.zero_add, storeEachUnder] at hsplit
  dsimp only at hsplit
  rw [storeUnder_eq_storeSpoiled (hs _ r hr)] at hsplit
  -- The write that succeeded, and what it left.
  obtain ⟨result, hresult⟩ := exists_of_isOk (x := (front.1.storeSpoiled (trouble before.length) r).2)
    (by simpa [hsplit, hlength] using hn)
  have hread := read_storeSpoiled hresult
  generalize front.1.storeSpoiled (trouble before.length) r = good at hsplit hresult hread
  rcases after with - | ⟨next, - | ⟨other, rest⟩⟩
  · left
    rw [hsplit]
    exact hread
  · have hnext : next.path = r.path := hpath next (by simp)
    rw [storeEachUnder, storeUnder_eq_storeSpoiled (hs _ next (by simp))] at hsplit
    rw [hsplit] at hd ⊢
    rw [← hnext] at hroom hread hd ⊢
    exact kept_storeSpoiled (hs _ next (by simp)) hroom hread hd
  · -- All writes after it have failed, so that the last two have.
    have htail := length_storeEachUnder trouble .overwrite (before.length + 1) (next :: other :: rest) good.1
    generalize (storeEachUnder trouble .overwrite (before.length + 1) (next :: other :: rest) good.1).2 = tail
      at hsplit htail
    have hfalse : ∀ written ∈ tail, written = false := by
      intro written hw
      obtain ⟨i, hi⟩ := List.mem_iff_getElem?.1 hw
      have hne := hlater (before.length + (i + 1)) (by omega)
      rw [hsplit, ← hlength, List.getElem?_append_right (Nat.le_add_right ..), Nat.add_sub_cancel_left,
        List.getElem?_cons_succ, hi] at hne
      simpa using hne
    rw [hsplit] at hlast
    refine absurd ?_ hlast
    refine ((suffix_of_forall_false hfalse ?_).trans (List.suffix_cons ..)).trans (List.suffix_append ..)
    rw [htail]
    exact Nat.le_add_left ..

/-- The disk is full from the second write on. -/
def fullDiskLater (path : String) : Nat → Trouble
  | 0 => .calm
  | _ + 1 => .fullDisk path (.file path .busy)

theorem spoils_fullDiskLater (hpath : ∀ r ∈ requests, r.path = path) (n : Nat) (r : WriteRequest)
    (hr : requests[n]? = some r) : (fullDiskLater path n).Spoils r := by
  cases n with
  | zero => exact Trouble.spoils_calm r
  | succ n =>
      rw [← hpath r (List.mem_of_getElem? hr)]
      exact Trouble.spoils_fullDisk r _

/-- The second version is not written any more. -/
theorem last_version_kept_at_full_disk :
    let requests : List WriteRequest := [⟨"d", "x", "1"⟩, ⟨"d", "x", "2"⟩]
    let s := storeEachUnder (fullDiskLater "d/x") .overwrite 0 requests {}
    (∀ r ∈ requests, r.path = "d/x") ∧ LeavesRoom "d/x" ∧
      (∀ n r, requests[n]? = some r → (fullDiskLater "d/x" n).Spoils r) ∧ s.2 = [true, false] ∧
      s.1.isDir (prevPath "d/x") = false ∧ s.1.read "d/x" = .ok .empty ∧
      s.1.read (prevPath "d/x") = .ok "1".toUTF8 := by
  intro requests s
  have hpath : ∀ r ∈ requests, r.path = "d/x" := by decide +kernel
  have hroom : LeavesRoom "d/x" := by decide +kernel
  have hs := spoils_fullDiskLater hpath
  have hresults : s.2 = [true, false] := by decide +kernel
  have hd : s.1.isDir (prevPath "d/x") = false := by decide +kernel
  have hempty : s.1.read "d/x" = .ok .empty := by decide +kernel
  have hkept := last_version_kept {} hpath hroom hs hd (by rw [hresults]; decide) 0 ⟨"d", "x", "1"⟩ rfl
    (by rw [hresults]; rfl) (by rw [hresults]; rintro (- | - | m) hm <;> simp at hm ⊢)
  refine ⟨hpath, hroom, hs, hresults, hd, hempty, hkept.resolve_left ?_⟩
  rw [hempty]
  decide +kernel

theorem FileTree.FillsRoom.storeUnder_fullDisk {name : String} (h : FillsRoom name) (hc : t.current = [])
    (hd : t.get? [name] ≠ some .dir) (content : String) (cause : StoreError) :
    t.storeUnder (.fullDisk name cause) .overwrite ⟨"", name, content⟩ =
      (t.put [name] (.file .empty), .error cause) := by
  have hplace := h.place_of_root hc
  have hs : (Trouble.fullDisk name cause).Spoils ⟨"", name, content⟩ := by
    have := Trouble.spoils_fullDisk ⟨"", name, content⟩ cause
    rwa [path_of_no_dir] at this
  have hmade : t.makeDirs "" = (t, .ok ()) := rfl
  have hwrite : t.write name .empty = .ok (t.put [name] (.file .empty)) :=
    change_eq_ok.2 ⟨[name], hplace, hd, rfl⟩
  rw [storeUnder_eq_storeSpoiled hs]
  simp only [storeSpoiled, hmade, path_of_no_dir, rotate_of_not_leavesRoom hplace h.not_leavesRoom,
    Trouble.fullDisk, hwrite]

theorem FileTree.FillsRoom.storeEachUnder_fullDiskLater {name : String} (h : FillsRoom name) :
    storeEachUnder (fullDiskLater name) .overwrite 0 [⟨"", name, "1"⟩, ⟨"", name, "2"⟩] {} =
      ((({} : FileTree).put [name] (.file "1".toUTF8)).put [name] (.file .empty), [true, false]) := by
  simp only [storeEachUnder, fullDiskLater, storeUnder_calm, h.store (t := {}) rfl (by simp [get?]) "1",
    h.storeUnder_fullDisk (t := ({} : FileTree).put [name] (.file "1".toUTF8)) rfl (by simp [get?_put]) "2"]
  rfl

/-- Two failures in a row lose the last good version, and one does if there is no room for the suffix. -/
theorem last_version_lost :
    (¬ ∀ (trouble : Nat → Trouble) (t : FileTree) (path : String) (requests : List WriteRequest),
      (∀ r ∈ requests, r.path = path) → LeavesRoom path →
      (∀ n r, requests[n]? = some r → (trouble n).Spoils r) →
      let s := storeEachUnder trouble .overwrite 0 requests t
      (∀ u ∈ [t, s.1], u.isDir path = false ∧ u.isDir (prevPath path) = false) → HoldsLast path requests s) ∧
    ¬ ∀ (trouble : Nat → Trouble) (t : FileTree) (path : String) (requests : List WriteRequest),
      (∀ r ∈ requests, r.path = path) → (∀ n r, requests[n]? = some r → (trouble n).Spoils r) →
      let s := storeEachUnder trouble .overwrite 0 requests t
      (∀ u ∈ [t, s.1], u.isDir path = false ∧ u.isDir (prevPath path) = false) →
      ¬ [false, false] <:+ s.2 → HoldsLast path requests s := by
  constructor
  · intro h
    have hpath : ∀ r ∈ [⟨"", "x", "1"⟩, ⟨"", "x", "2"⟩, (⟨"", "x", "3"⟩ : WriteRequest)], r.path = "x" := by
      decide +kernel
    have hkept := h (fullDiskLater "x") {} "x" _ hpath (by decide +kernel) (spoils_fullDiskLater hpath)
      (by decide +kernel) 0 ⟨"", "x", "1"⟩ rfl (by decide +kernel)
    have hresults : (storeEachUnder (fullDiskLater "x") .overwrite 0
        [⟨"", "x", "1"⟩, ⟨"", "x", "2"⟩, ⟨"", "x", "3"⟩] {}).2 = [true, false, false] := by decide +kernel
    rcases hkept (by rw [hresults]; rintro (- | - | - | m) hm <;> simp at hm ⊢) with hread | hread
    · revert hread
      decide +kernel
    · revert hread
      decide +kernel
  · intro h
    obtain ⟨name, hlong⟩ : ∃ name, FillsRoom name := ⟨longName, fillsRoom_longName⟩
    let u : FileTree := (({} : FileTree).put [name] (.file "1".toUTF8)).put [name] (.file .empty)
    have hpath : ∀ r ∈ [⟨"", name, "1"⟩, (⟨"", name, "2"⟩ : WriteRequest)], r.path = name := by
      simp [path_of_no_dir]
    have hkept := h (fullDiskLater name) {} name _ hpath (spoils_fullDiskLater hpath)
    simp only [hlong.storeEachUnder_fullDiskLater] at hkept
    have hlater : ∀ m, 0 < m → [true, false][m]? ≠ some true := by rintro (- | - | m) hm <;> simp at hm ⊢
    have hdirs : ∀ s ∈ [{}, u], s.isDir name = false ∧ s.isDir (prevPath name) = false := by
      rw [List.forall_mem_cons, List.forall_mem_singleton]
      exact ⟨hlong.isDir_eq_false rfl (by simp [get?]), hlong.isDir_eq_false rfl (by simp [u, get?_put])⟩
    rcases hkept hdirs (by decide) 0 ⟨"", name, "1"⟩ rfl rfl hlater with hread | hread
    · obtain ⟨loc, hloc, hfile⟩ := read_eq_ok.1 hread
      rw [hlong.place_of_root rfl] at hloc
      cases hloc
      rw [get?_put (by simp), if_pos rfl] at hfile
      have hne : ByteArray.empty ≠ "1".toUTF8 := by decide +kernel
      exact hne (FileNode.file.inj (Option.some.inj hfile))
    · obtain ⟨loc, hloc, -⟩ := read_eq_ok.1 hread
      obtain ⟨cause, hprev⟩ := hlong.place_prevPath (t := u) rfl
      rw [hprev] at hloc
      cases hloc

end FeedFiler
