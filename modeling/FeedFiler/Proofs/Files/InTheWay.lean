import FeedFiler.Proofs.Files.Inside

/-!
# Files where directories are needed

When a file stands where a directory is needed, the directories above the file are there already. The
directory then cannot be made, and nothing else is made in the attempt.
-/

namespace FeedFiler.FileTree

variable {t : FileTree} {ns names parts : List String} {dir path : String} {absolute : Bool}

/-- A file stands at the path. -/
def FileAt (t : FileTree) (path : String) : Prop :=
  ∃ loc slash, t.place path = .ok (.entry loc slash) ∧ t.HoldsFile loc

/-- A file stands where the directory is needed, or where one above it is. -/
def FileInTheWay (t : FileTree) (dir : String) : Prop := ∃ path ∈ dir :: parents dir, t.FileAt path

/-! ## The names of a path -/

/-- The part names something. -/
def Names (part : String) : Bool := part ≠ "" ∧ part ≠ "."

/-- The parts of a path that name something. A point counts only in front. -/
def named : List String → List String
  | [] => []
  | first :: rest => if first = "" then rest.filter Names else first :: rest.filter Names

theorem namesReversed_eq (path : String) : namesReversed path = (named (partsOf path)).reverse := by
  rw [namesReversed]
  cases partsOf path with
  | nil => rfl
  | cons first rest => rfl

theorem ne_empty_of_mem_named {n : String} (h : n ∈ named parts) : n ≠ "" ∧ n ∈ parts := by
  cases parts with
  | nil => cases h
  | cons first rest =>
      have hrest (hm : n ∈ rest.filter Names) : n ≠ "" ∧ n ∈ first :: rest := by
        obtain ⟨hm, hn⟩ := List.mem_filter.1 hm
        exact ⟨(of_decide_eq_true hn).1, List.mem_cons_of_mem first hm⟩
      rw [named] at h
      split at h
      · exact hrest h
      · next hf =>
          rcases List.mem_cons.1 h with rfl | hm
          · exact ⟨hf, List.mem_cons_self⟩
          · exact hrest hm

theorem named_blank (h : ∀ part ∈ parts, part = "") : named parts = [] := by
  rw [List.eq_nil_iff_forall_not_mem]
  intro n hn
  obtain ⟨hne, hm⟩ := ne_empty_of_mem_named hn
  exact hne (h n hm)

/-- What a path names last is its last part that is not blank. -/
theorem named_append {before blanks : List String} {last : String} (hlast : Names last)
    (hblank : ∀ part ∈ blanks, part = "") : named (before ++ last :: blanks) = named before ++ [last] := by
  have hnone : blanks.filter Names = [] := by
    rw [List.filter_eq_nil_iff]
    intro part hm
    rw [hblank part hm]
    decide
  cases before with
  | nil => simp only [List.nil_append, named, if_neg (of_decide_eq_true hlast).1, hnone]
  | cons first rest =>
      simp only [List.cons_append, named, List.filter_append, List.filter_cons_of_pos hlast, hnone]
      split
      · rfl
      · rfl

/-- Parts that name nothing lead nowhere else. -/
theorem walk_filter (t : FileTree) (loc : Location) (parts : List String) :
    t.walk loc (parts.filter Names) = t.walk loc parts := by
  induction parts generalizing loc with
  | nil => rfl
  | cons part parts ih =>
      by_cases hp : Names part = true
      · have hcons := walk_append t loc [part]
        rw [List.filter_cons_of_pos hp, ← List.singleton_append, hcons, ← List.singleton_append (l := parts),
          hcons]
        exact congrArg _ (funext fun l => ih l)
      · have hblank : part = "" ∨ part = "." := by
          simpa [Names, or_iff_not_imp_left] using hp
        rw [List.filter_cons_of_neg hp, ih, walk, if_pos hblank]

theorem walk_named (t : FileTree) (loc : Location) (parts : List String) :
    t.walk loc (named parts) = t.walk loc parts := by
  cases parts with
  | nil => rfl
  | cons first rest =>
      rw [named]
      split
      · next h => rw [walk_filter, walk, if_pos (.inl h)]
      · have hcons := walk_append t loc [first]
        rw [← List.singleton_append, hcons, ← List.singleton_append (l := rest), hcons]
        exact congrArg _ (funext fun l => walk_filter t l rest)

/-! ## The paths of the directories above -/

theorem suffix_of_mem_above (h : ns ∈ parents.above names) : ns ≠ [] ∧ ns <:+ names := by
  induction names with
  | nil => cases h
  | cons name names ih =>
      rcases List.mem_cons.1 h with rfl | hm
      · exact ⟨List.cons_ne_nil name names, List.suffix_rfl⟩
      · obtain ⟨hne, hs⟩ := ih hm
        exact ⟨hne, hs.trans (List.suffix_cons name names)⟩

theorem exists_of_mem_parents (h : path ∈ parents dir) :
    ∃ ns, ns ≠ [] ∧ ns <+: (named (partsOf dir)).dropLast ∧
      path = upper (dir.toList.head? = some '/') ns := by
  rw [parents, namesReversed_eq, List.tail_reverse] at h
  obtain ⟨ns, hm, rfl⟩ := List.mem_map.1 h
  obtain ⟨hne, hs⟩ := suffix_of_mem_above hm
  have hne' : ns.reverse ≠ [] := mt List.reverse_eq_nil_iff.1 hne
  refine ⟨ns.reverse, hne', ?_, ?_⟩
  · rwa [← List.reverse_suffix, List.reverse_reverse]
  · rw [upper_eq _ hne']
    simp only [decide_eq_true_eq]

theorem head_partsOf (h : dir ≠ "") : (partsOf dir).head? = some "" ↔ dir.toList.head? = some '/' := by
  rw [partsOf]
  cases hd : dir.toList with
  | nil => exact absurd (String.toList_eq_nil_iff.1 hd) h
  | cons c cs =>
      rw [Text.splitAt]
      split
      · next hc => exact iff_of_true rfl (congrArg some hc)
      · next hc =>
          refine iff_of_false ?_ fun he => hc (Option.some.inj he)
          split <;> simp

theorem partsOf_upper (hne : ns ≠ []) (h : ∀ n ∈ ns, '/' ∉ n.toList) :
    partsOf (upper absolute ns) = front absolute ++ ns := by
  refine partsOf_intercalate (List.append_ne_nil_of_right_ne_nil _ hne) ?_
  rw [List.forall_mem_append]
  refine ⟨?_, h⟩
  cases absolute <;> simp [front]

/-- The path of a directory above begins where the path itself begins. -/
theorem startOf_upper (hd : dir ≠ "") (hne : ns ≠ []) (hns : ns <+: named (partsOf dir)) (cur : Location) :
    startOf cur (upper (dir.toList.head? = some '/') ns) = startOf cur dir := by
  have hslash : ∀ n ∈ ns, '/' ∉ n.toList := fun n hn =>
    notMem_of_mem_partsOf n (ne_empty_of_mem_named (hns.subset hn)).2
  obtain ⟨n, more, rfl⟩ := List.exists_cons_of_ne_nil hne
  have hn := (ne_empty_of_mem_named (hns.subset List.mem_cons_self)).1
  rw [startOf_eq, startOf_eq, partsOf_upper hne hslash]
  by_cases hh : dir.toList.head? = some '/'
  · simp [hh, front, (head_partsOf hd).2 hh]
  · simp [hh, front, mt (head_partsOf hd).1 hh, hn]

/-- The walk to a directory above ends where a file stands. -/
theorem walk_of_fileAt (hd : dir ≠ "") (hne : ns ≠ []) (hns : ns <+: named (partsOf dir))
    (h : t.FileAt (upper (dir.toList.head? = some '/') ns)) :
    t.walk (startOf t.current dir) ns = .error .notDirectory := by
  obtain ⟨loc, slash, hp, content, hf⟩ := h
  obtain ⟨last, before, parent, hdrop, -, hdot, hdots, hw, hl, rfl⟩ := exists_of_place hp
  have hslash : ∀ n ∈ ns, '/' ∉ n.toList := fun n hn =>
    notMem_of_mem_partsOf n (ne_empty_of_mem_named (hns.subset hn)).2
  rw [startOf_upper hd hne hns] at hw
  rw [partsOf_upper hne hslash] at hdrop
  rcases List.eq_nil_or_concat ns with rfl | ⟨ns, n, rfl⟩
  · exact absurd rfl hne
  · rw [List.concat_eq_append] at hns hdrop ⊢
    have hn := (ne_empty_of_mem_named (hns.subset (List.mem_append_right ns List.mem_cons_self))).1
    rw [← List.append_assoc, List.reverse_append, List.reverse_singleton, List.singleton_append,
      List.dropWhile_cons_of_neg (by simpa using hn)] at hdrop
    obtain ⟨rfl, rfl⟩ := List.cons.inj hdrop
    rw [List.reverse_reverse, walk_front] at hw
    rw [walk_append, hw, Except.bind, walk_cons ⟨hn, hdot, hdots⟩, if_neg (Nat.not_lt.2 hl), hf]

/-! ## Nothing is made -/

theorem place_of_fileAbove (h : path ∈ parents dir) (hf : t.FileAt path) :
    ∃ cause, cause ≠ .notFound ∧ t.place dir = .error cause := by
  have hd : dir ≠ "" := by
    rintro rfl
    cases h
  by_cases hfits : Fits dir
  · obtain ⟨ns, hne, hns, rfl⟩ := exists_of_mem_parents h
    have hwalk := walk_of_fileAt hd hne (hns.trans (List.dropLast_prefix _)) hf
    have hlonger {names : List String} (hp : ns <+: names) :
        t.walk (startOf t.current dir) names = .error .notDirectory := by
      obtain ⟨more, rfl⟩ := hp
      rw [walk_append, hwalk]
      rfl
    refine ⟨.notDirectory, by simp, ?_⟩
    rw [place_of_fits hfits hd, ← startOf_eq]
    split
    · next hdrop =>
        -- All parts are blank, and so there is nothing above.
        have hblank : ∀ part ∈ partsOf dir, part = "" := by
          intro part hm
          simpa using List.dropWhile_eq_nil_iff.1 hdrop part (List.mem_reverse.2 hm)
        rw [named_blank hblank] at hns
        exact absurd (List.prefix_nil.1 hns) hne
    · next last before hdrop =>
        obtain ⟨blanks, hblank, hlast, hsplit⟩ := exists_blanks hdrop
        split
        · have hall := hlonger (hns.trans (List.dropLast_prefix _))
          rw [walk_named] at hall
          rw [hall]
          rfl
        · next hdots =>
            rw [hsplit, named_append (decide_eq_true ⟨hlast, (not_or.1 hdots).1⟩) hblank,
              List.dropLast_concat] at hns
            have hall := hlonger hns
            rw [walk_named] at hall
            rw [hall]
            rfl
  · obtain ⟨cause, hc, he⟩ := unplaced_of_not_fits hd hfits
    exact ⟨cause, hc, he t⟩

/-- **A directory that a file is in the way of is not made, and neither is anything else.** -/
theorem makeDirs_of_fileInTheWay (h : t.FileInTheWay dir) : ∃ cause, t.makeDirs dir = (t, .error cause) := by
  obtain ⟨path, hp, hf⟩ := h
  have hsettles {cause : FileError} (hm : t.makeDir dir = .error cause) (hc : cause ≠ .notFound)
      (hd : t.isDir dir = false) (hne : dir ≠ "") : t.makeDirs dir = (t, .error cause) := by
    rw [makeDirs, if_neg (by simpa using hne), Writing.makeChain_cons, hm]
    cases cause with
    | notFound => exact absurd rfl hc
    | _ => simp [Writing.settle, hm, hd]
  rcases List.mem_cons.1 hp with rfl | hp
  · obtain ⟨loc, slash, hp, content, hf⟩ := hf
    refine ⟨.alreadyExists, hsettles ?_ (by simp) ?_ (ne_empty_of_place hp)⟩
    · simp [makeDir, hp, hf, bind, Except.bind, throw, throwThe, MonadExceptOf.throw]
    · simp [isDir, hp, hf, FileNode.isDir]
  · obtain ⟨cause, hc, he⟩ := place_of_fileAbove hp hf
    have hd : dir ≠ "" := by
      rintro rfl
      cases hp
    refine ⟨cause, hsettles ?_ hc ?_ hd⟩
    · rw [makeDir, he]
      rfl
    · rw [isDir, he]

end FeedFiler.FileTree
