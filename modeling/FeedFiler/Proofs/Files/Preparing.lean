import FeedFiler.Proofs.Files.Appending
import FeedFiler.Proofs.Files.Regions
import FeedFiler.Proofs.Files.Trouble

/-!
# Making directories among others

While a request makes its directories, others may make directories on its way, but leave what it writes as it
is. It depends on the files that were there in the beginning alone whether the request gets its directory,
and if not, what it fails for.
-/

namespace FeedFiler

namespace FileTree

variable {cur loc l p : Location} {names more : List String} {path : String} {t t' : FileTree}

/-! ## Trees in which everything has a place -/

/-- Everything stands in a directory. -/
def Rooted (t : FileTree) : Prop :=
  ∀ item ∈ t.entries.toList, (t.get? item.1.dropLast).any FileNode.isDir = true

instance (t : FileTree) : Decidable t.Rooted :=
  inferInstanceAs (Decidable (∀ item ∈ t.entries.toList, (t.get? item.1.dropLast).any FileNode.isDir = true))

theorem Rooted.get?_eq_none_of_append (h : t.Rooted) (hn : t.get? p = none) (more : List String) :
    t.get? (p ++ more) = none := by
  induction more using List.reverseRecOn with
  | nil => rwa [List.append_nil]
  | append_singleton more name ih =>
      rw [← List.append_assoc]
      cases hg : t.get? (p ++ more ++ [name]) with
      | none => rfl
      | some node =>
          have hentry : t.entries[p ++ more ++ [name]]? = some node := by simpa [get?] using hg
          have hdir := h _ (Std.ExtTreeMap.mem_toList_iff_getElem?_eq_some.2 hentry)
          rw [List.dropLast_concat, ih] at hdir
          cases hdir

/-! ## Walks -/

/-- A walk leads on when all directories on the way are still there. -/
theorem walk_of_dirs (hp : ∀ n ∈ names, PlainName n) (h : ∀ ns, ns ≠ [] → ns <+: names →
    t.get? (loc ++ ns) = some .dir → t'.get? (loc ++ ns) = some .dir) (hw : t.walk loc names = .ok l) :
    t'.walk loc names = .ok l := by
  induction names generalizing loc with
  | nil => exact hw
  | cons name names ih =>
      rw [List.forall_mem_cons] at hp
      rw [walk_cons hp.1] at hw ⊢
      split at hw
      · cases hw
      · next hl =>
          rw [if_neg hl]
          split at hw
          · cases hw
          · cases hw
          · next hd =>
              rw [h [name] (List.cons_ne_nil _ _) (List.prefix_append [name] names) hd]
              refine ih hp.2 (fun ns _ hns => ?_) hw
              have hi := h (name :: ns) (List.cons_ne_nil _ _) (List.cons_prefix_cons.2 ⟨rfl, hns⟩)
              rwa [List.append_assoc, List.singleton_append]

/-- A walk that ends because something is missing has come to where it is missing. -/
theorem exists_of_walk_notFound (hp : ∀ n ∈ names, PlainName n) (h : t.walk loc names = .error .notFound) :
    ∃ before name, before ++ [name] <+: names ∧ t.walk loc before = .ok (loc ++ before) ∧
      t.get? (loc ++ (before ++ [name])) = none := by
  induction names generalizing loc with
  | nil => cases h
  | cons name names ih =>
      rw [List.forall_mem_cons] at hp
      rw [walk_cons hp.1] at h
      split at h
      · cases h
      · next hl =>
          split at h
          · next hn => exact ⟨[], name, List.prefix_append [name] names, by rw [walk, List.append_nil], hn⟩
          · cases h
          · next hd =>
              obtain ⟨before, last, hpre, hw, hn⟩ := ih hp.2 h
              rw [List.append_assoc, List.singleton_append] at hw hn
              refine ⟨name :: before, last, List.cons_prefix_cons.2 ⟨rfl, hpre⟩, ?_, hn⟩
              rw [walk_cons hp.1, if_neg hl, hd, hw]

/-- A walk along some names leads to a directory. -/
theorem dir_of_walk (hp : ∀ n ∈ names, PlainName n) (hne : names ≠ []) (h : t.walk loc names = .ok l) :
    t.get? (loc ++ names) = some .dir := by
  rcases List.eq_nil_or_concat names with rfl | ⟨ns, name, rfl⟩
  · exact absurd rfl hne
  · rw [List.concat_eq_append] at hp h ⊢
    rw [← List.append_assoc]
    exact get?_of_walk (hp name (List.mem_append_right ns List.mem_cons_self)) h
      fun n hn => hp n (List.mem_append_left [name] hn)

/-- What keeps the directories along the names from being made. -/
def hindrance (t : FileTree) : Location → List String → Option FileError
  | _, [] => none
  | loc, name :: names =>
    if maxName < name.utf8ByteSize then some .nameTooLong
    else if (t.fileAt? (loc ++ [name])).isSome then some (if names = [] then .alreadyExists else .notDirectory)
    else t.hindrance (loc ++ [name]) names

theorem isSome_fileAt? : (t.fileAt? p).isSome = true ↔ t.HoldsFile p := by
  simp only [Option.isSome_iff_exists, fileAt?_eq_some, HoldsFile]

theorem hindrance_congr (h : ∀ ns, ns ≠ [] → ns <+: names →
    (t'.HoldsFile (loc ++ ns) ↔ t.HoldsFile (loc ++ ns))) : t'.hindrance loc names = t.hindrance loc names := by
  induction names generalizing loc with
  | nil => rfl
  | cons name names ih =>
      have hfile : (t'.fileAt? (loc ++ [name])).isSome = (t.fileAt? (loc ++ [name])).isSome := by
        rw [Bool.eq_iff_iff, isSome_fileAt?, isSome_fileAt?]
        exact h [name] (List.cons_ne_nil _ _) (List.prefix_append [name] names)
      rw [hindrance, hindrance, hfile, ih]
      intro ns _ hns
      have hi := h (name :: ns) (List.cons_ne_nil _ _) (List.cons_prefix_cons.2 ⟨rfl, hns⟩)
      rwa [List.append_assoc, List.singleton_append]

theorem hindrance_append (hp : ∀ n ∈ names, PlainName n) (h : t.walk loc names = .ok l) :
    t.hindrance loc (names ++ more) = t.hindrance (loc ++ names) more := by
  induction names generalizing loc with
  | nil => rw [List.nil_append, List.append_nil]
  | cons name names ih =>
      rw [List.forall_mem_cons] at hp
      rw [walk_cons hp.1] at h
      split at h
      · cases h
      · next hl =>
          split at h
          · cases h
          · cases h
          · next hd =>
              rw [List.cons_append, hindrance, if_neg hl, if_neg, ih hp.2 h, List.append_assoc,
                List.singleton_append]
              rw [isSome_fileAt?]
              rintro ⟨content, hf⟩
              rw [hd] at hf
              cases hf

theorem hindrance_of_walk (hp : ∀ n ∈ names, PlainName n) (h : t.walk loc names = .ok l) :
    t.hindrance loc names = none := by
  have happend : t.hindrance loc (names ++ []) = t.hindrance (loc ++ names) [] := hindrance_append hp h
  rwa [List.append_nil] at happend

theorem hindrance_of_walk_error {cause : FileError} (hp : ∀ n ∈ names, PlainName n)
    (h : t.walk loc names = .error cause) (hc : cause ≠ .notFound) (hm : more ≠ []) :
    t.hindrance loc (names ++ more) = some cause := by
  induction names generalizing loc with
  | nil => cases h
  | cons name names ih =>
      rw [List.forall_mem_cons] at hp
      rw [walk_cons hp.1] at h
      rw [List.cons_append, hindrance]
      split at h
      · next hl => rw [if_pos hl, Except.error.inj h]
      · next hl =>
          rw [if_neg hl]
          split at h
          · exact absurd (Except.error.inj h).symm hc
          · next content hf =>
              rw [if_pos (isSome_fileAt?.2 ⟨content, hf⟩), if_neg (List.append_ne_nil_of_right_ne_nil _ hm),
                Except.error.inj h]
          · next hd =>
              rw [if_neg, ih hp.2 h]
              rw [isSome_fileAt?]
              rintro ⟨content, hf⟩
              rw [hd] at hf
              cases hf

/-- A directory that is not made is there, or what it is not made for keeps those below it from being made. -/
theorem hindrance_of_makeDir {cause : FileError} (hp : ∀ n ∈ names, PlainName n)
    (h : Leads cur loc names path) (hc : t.current = cur) (hm : t.makeDir path = .error cause)
    (hcause : cause ≠ .notFound) (hclear : more = [] ∨ (names ≠ [] → ¬ t.HoldsFile (loc ++ names))) :
    t.walk loc names = .ok (loc ++ names) ∨ t.hindrance loc (names ++ more) = some cause := by
  rcases List.eq_nil_or_concat names with rfl | ⟨ns, name, rfl⟩
  · exact .inl (by rw [walk, List.append_nil])
  rw [List.concat_eq_append] at h hp hclear ⊢
  have hps : ∀ n ∈ ns, PlainName n := fun n hn => hp n (List.mem_append_left [name] hn)
  have hn := hp name (List.mem_append_right ns List.mem_cons_self)
  rw [makeDir_of_leads h hc] at hm
  cases hw : t.walk loc ns with
  | error c =>
      rw [hw] at hm
      rw [← Except.error.inj hm] at hcause ⊢
      rw [List.append_assoc]
      exact .inr (hindrance_of_walk_error hps hw hcause (List.cons_ne_nil _ _))
  | ok parent =>
      cases walk_eq hps hw
      rw [List.append_assoc, hindrance_append hps hw, List.singleton_append, hindrance]
      simp only [hw, Except.bind] at hm
      by_cases hl : maxName < name.utf8ByteSize
      · rw [if_pos hl] at hm
        rw [if_pos hl, Except.error.inj hm]
        exact .inr rfl
      · rw [if_neg hl] at hm ⊢
        rw [walk_append, hw, Except.bind, walk_cons hn, if_neg hl, ← List.append_assoc]
        cases hg : t.get? (loc ++ ns ++ [name]) with
        | none =>
            rw [hg] at hm
            cases hm
        | some node =>
            cases node with
            | dir => exact .inl rfl
            | file content =>
                rw [hg] at hm
                obtain rfl : .alreadyExists = cause := Except.error.inj hm
                have hfile : t.HoldsFile (loc ++ ns ++ [name]) := ⟨content, hg⟩
                refine .inr ?_
                rw [if_pos (isSome_fileAt?.2 hfile), if_pos]
                exact hclear.resolve_right fun hno => hno (by simp) (by rwa [← List.append_assoc])

end FileTree

open FileTree

variable {s t t' u : FileTree} {r : WriteRequest} {p l : Location} {ns : List String} {w : Writing}
  {path : String} {above below : List String} {mode : StoreMode} {cause : FileError}

namespace Aim

variable {a : Aim s.current r.entry}

/-! ## What others leave as it is -/

/-- What the request writes: the file, the version before and what stands below one of them. -/
def Own {cur : Location} (a : Aim cur r.entry) : Location → Prop := Inside a.folder r.base

/-- What others must leave as it is: what the request writes, and the directories that the name of the file
leads through, for the request does not make them. -/
def Kept {cur : Location} (a : Aim cur r.entry) (l : Location) : Prop :=
  a.Own l ∨ a.target <+: l ∧ l <+: a.folder

/-- Above the file nothing changes, but that directories may come. -/
structure WayGrows {cur : Location} (a : Aim cur r) (t t' : FileTree) : Prop where
  current : t'.current = t.current
  way : ∀ p, p <+: a.target → p ≠ a.target → t'.get? p = t.get? p ∨ t.get? p = none ∧ t'.get? p = some .dir

/-- The same, and nothing changes elsewhere that others must leave as it is. -/
structure Spared {cur : Location} (a : Aim cur r.entry) (t t' : FileTree) : Prop extends WayGrows a t t' where
  kept : ∀ l, a.Kept l → t'.entries[l]? = t.entries[l]?

theorem WayGrows.trans (h : a.WayGrows t t') (h' : a.WayGrows t' u) : a.WayGrows t u := by
  refine ⟨h'.current.trans h.current, fun p hp hne => ?_⟩
  rcases h.way p hp hne with he | ⟨hn, hd⟩
  · rw [← he]
    exact h'.way p hp hne
  · rcases h'.way p hp hne with he' | ⟨hn', -⟩
    · exact .inr ⟨hn, he'.trans hd⟩
    · rw [hd] at hn'
      cases hn'

theorem Spared.refl (a : Aim s.current r.entry) (t : FileTree) : a.Spared t t :=
  ⟨⟨rfl, fun _ _ _ => .inl rfl⟩, fun _ _ => rfl⟩

theorem Spared.trans (h : a.Spared t t') (h' : a.Spared t' u) : a.Spared t u :=
  ⟨h.toWayGrows.trans h'.toWayGrows, fun l hl => (h'.kept l hl).trans (h.kept l hl)⟩

namespace WayGrows

variable (h : a.WayGrows t t')
include h

theorem dir (hp : p <+: a.target) (hne : p ≠ a.target) (hd : t.get? p = some .dir) :
    t'.get? p = some .dir := by
  rcases h.way p hp hne with he | ⟨-, hd'⟩
  · rw [he, hd]
  · exact hd'

/-- What is missing was missing before. -/
theorem eq_none (hp : p <+: a.target) (hne : p ≠ a.target) (hn : t'.get? p = none) : t.get? p = none := by
  rcases h.way p hp hne with he | ⟨hn', -⟩
  · rw [← he, hn]
  · exact hn'

theorem holdsFile (hp : p <+: a.target) (hne : p ≠ a.target) : t'.HoldsFile p ↔ t.HoldsFile p := by
  rcases h.way p hp hne with he | ⟨hn, hd⟩
  · exact holdsFile_congr he
  · exact iff_of_false (not_holdsFile_of_dir hd) (not_holdsFile_of_none hn)

variable (hns : ns <+: a.dirs)
include hns

theorem walk (hw : t.walk a.loc ns = .ok l) : t'.walk a.loc ns = .ok l :=
  walk_of_dirs (a.plain_of_isPrefix hns)
    (fun _ _ hms => h.dir (prefix_target (hms.trans hns)) (ne_target (hms.trans hns))) hw

theorem blocked : t'.Blocked a.loc ns ↔ t.Blocked a.loc ns :=
  blocked_congr fun _ _ hms => h.holdsFile (prefix_target (hms.trans hns)) (ne_target (hms.trans hns))

theorem hindrance : t'.hindrance a.loc ns = t.hindrance a.loc ns :=
  hindrance_congr fun _ _ hms => h.holdsFile (prefix_target (hms.trans hns)) (ne_target (hms.trans hns))

theorem made (hm : t.Made a.loc ns) : t'.Made a.loc ns := by
  intro ms hms hb
  have hd := hms.trans hns
  exact h.walk hd (hm ms hms (mt (h.blocked hd).2 hb))

end WayGrows

/-! ## Whether the directory is made -/

/-- What the request fails for when its directory is not made. -/
def Hinders (a : Aim s.current r.entry) (cause : FileError) : Prop :=
  r.DirFits ∧ s.hindrance a.loc a.dirs = some cause ∨ ¬ r.DirFits ∧ ∀ t : FileTree, t.place r.dir = .error cause

theorem Hinders.unique {cause' : FileError} (h : a.Hinders cause) (h' : a.Hinders cause') : cause = cause' := by
  rcases h with ⟨hf, he⟩ | ⟨hf, he⟩
  · rcases h' with ⟨-, he'⟩ | ⟨hf', -⟩
    · exact Option.some.inj (he.symm.trans he')
    · exact absurd hf hf'
  · rcases h' with ⟨hf', -⟩ | ⟨-, he'⟩
    · exact absurd hf' hf
    · exact Except.error.inj ((he s).symm.trans (he' s))

/-- No file stands on the way to the directory. -/
def Clear (a : Aim s.current r.entry) : Prop := ∀ ns, ns ≠ [] → ns <+: a.dirs → ¬ s.HoldsFile (a.loc ++ ns)

/-- Where something is missing on the way, there is nothing behind it, and so no file. -/
theorem clear_of_walk_notFound (h : a.WayGrows s t) (hs : s.Rooted) (hns : ns <+: a.dirs)
    (hw : t.walk a.loc ns = .error .notFound) : a.Clear := by
  intro ms hne hms
  obtain ⟨before, name, hpre, hwalk, hnone⟩ := exists_of_walk_notFound (a.plain_of_isPrefix hns) hw
  have hpre := hpre.trans hns
  rcases List.prefix_or_prefix_of_prefix hms hpre with hb | ⟨more, rfl⟩
  · rw [← h.holdsFile (prefix_target hms) (ne_target hms)]
    rcases List.prefix_concat_iff.1 hb with rfl | ⟨more, rfl⟩
    · exact not_holdsFile_of_none hnone
    · have hplain := a.plain_of_isPrefix hms
      exact not_holdsFile_of_dir (dir_of_walk hplain hne (walk_of_append hplain hwalk))
  · have hnone' := h.eq_none (prefix_target hpre) (ne_target hpre) hnone
    rw [← List.append_assoc]
    exact not_holdsFile_of_none (hs.get?_eq_none_of_append hnone' more)

/-! ## The operations that make the directory -/

/-- What is left to do while the directory of the request is made, when the tree is `t`. When some directories
are left to be made `below` one, something was missing, and so no file can stand on the way to them. -/
inductive Preparing (a : Aim s.current r.entry) (t : FileTree) : Writing → Prop where
  /-- The directory has a text that no path may have. -/
  | lost {above : List String} (unfit : ¬ r.DirFits) (nowhere : Unplaced r.dir) :
      Preparing a t (.descend r.dir above [])
  | lostCheck {cause : FileError} (unfit : ¬ r.DirFits) (nowhere : ∀ t : FileTree, t.place r.dir = .error cause) :
      Preparing a t (.check r.dir cause [])
  | descend {ns : List String} {path : String} {above below : List String} (fits : r.DirFits)
      (leads : Leads s.current a.loc ns path) (downs : Downs s.current a.loc ns.dropLast above)
      (ups : Ups s.current a.loc a.dirs ns below) (clear : below = [] ∨ a.Clear) :
      Preparing a t (.descend path above below)
  | check {ns : List String} {path : String} {cause : FileError} {below : List String} (fits : r.DirFits)
      (leads : Leads s.current a.loc ns path) (ups : Ups s.current a.loc a.dirs ns below)
      (clear : below = [] ∨ a.Clear) (made : t.Made a.loc ns)
      (hinders : t.walk a.loc ns = .ok (a.loc ++ ns) ∨ a.Hinders cause) : Preparing a t (.check path cause below)
  | ascend {ns : List String} {below : List String} (fits : r.DirFits)
      (ups : Ups s.current a.loc a.dirs ns below) (clear : below = [] ∨ a.Clear)
      (there : t.walk a.loc ns = .ok (a.loc ++ ns)) : Preparing a t (.ascend below)

/-- The directory has not been made, and all those above it that can be. -/
inductive Abandoned (a : Aim s.current r.entry) (t : FileTree) : Writing → Prop where
  | failed {cause : FileError} (hinders : a.Hinders cause) (made : ∀ p, a.Makes s p → t.get? p = some .dir) :
      Abandoned a t (.finished (.error (.directory r.dir cause)))

/-- What one of these operations does to the tree. -/
inductive Adds (a : Aim s.current r.entry) (t : FileTree) : FileTree → Prop where
  | none : Adds a t t
  | dir {p : Location} (makes : a.Makes s p) (free : t.get? p = none) : Adds a t (t.put p .dir)

theorem above_of_makes (h : a.Makes s p) : p ≠ [] ∧ p <+: a.target ∧ p ≠ a.target := by
  obtain ⟨-, -, ns, hne, hns, rfl, -⟩ := h
  exact ⟨List.append_ne_nil_of_right_ne_nil _ hne, prefix_target hns, ne_target hns⟩

/-- What others must leave as it is lies behind the directory. -/
theorem length_lt_of_kept {cur : Location} {a : Aim cur r.entry} (h : a.Kept p) :
    (a.loc ++ a.dirs).length < p.length := by
  rcases h with (h | h) | ⟨h, -⟩
  all_goals
    have := h.length_le
    simp only [folder, target_eq, List.length_append, List.length_singleton] at this ⊢
    omega

theorem not_kept_of_above (a : Aim s.current r.entry) (hp : p <+: a.target) (hne : p ≠ a.target) : ¬ a.Kept p := by
  intro h
  have hlt := length_lt_of_kept h
  rw [target_eq] at hp hne
  refine hne (hp.eq_of_length_le ?_)
  rw [List.length_append, List.length_singleton]
  omega

theorem kept_of_isPrefix (htarget : a.target <+: l) (hfile : l <+: a.file) : a.Kept l := by
  rcases List.prefix_concat_iff.1 hfile with rfl | hfolder
  · exact .inl (.inl List.prefix_rfl)
  · exact .inr ⟨htarget, hfolder⟩

/-- A directory that is made elsewhere is no harm to the request. -/
theorem spared_put {cur : Location} {a : Aim cur r.entry} (hnil : p ≠ []) (hn : t.get? p = none)
    (hp : ¬ a.Kept p) : a.Spared t (t.put p .dir) := by
  refine ⟨⟨rfl, fun q _ _ => ?_⟩, fun l hl => ?_⟩
  · rw [get?_put hnil]
    by_cases hq : q = p
    · subst hq
      exact .inr ⟨hn, if_pos rfl⟩
    · exact .inl (if_neg hq)
  · rw [getElem?_put, if_neg]
    rintro rfl
    exact hp hl

theorem Adds.spared (h : a.Adds t t') : a.Spared t t' := by
  cases h with
  | none => exact .refl a t
  | dir makes free =>
      obtain ⟨hnil, habove, hne⟩ := above_of_makes makes
      exact spared_put hnil free (a.not_kept_of_above habove hne)

namespace Spared

variable (h : a.Spared s t)
include h

theorem making : a.Making (fun e p => e = a.target ∧ p = a.file) s t := by
  have hget (l : Location) (htarget : a.target <+: l) (hfile : l <+: a.file) : t.get? l = s.get? l := by
    rw [get?, get?, h.kept l (kept_of_isPrefix htarget hfile)]
  refine ⟨h.current, ?_, ?_⟩
  · rintro l ⟨e, p, ⟨rfl, rfl⟩, htarget, hfile⟩
    exact .inl (hget l htarget hfile)
  · rintro l ⟨e, p, ⟨rfl, rfl⟩, hfile⟩
    by_cases htarget : a.target <+: l
    · exact holdsFile_congr (hget l htarget hfile)
    · have habove := (List.prefix_or_prefix_of_prefix hfile a.target_isPrefix_file).resolve_right htarget
      exact h.holdsFile habove (fun he => htarget (he ▸ List.prefix_rfl))

/-- A directory that can be made now is one that the request makes. -/
theorem makes (hf : r.DirFits) (hne : ns ≠ []) (hns : ns <+: a.dirs) (hn : t.get? (a.loc ++ ns) = none)
    (hb : ¬ t.Blocked a.loc ns) : a.Makes s (a.loc ++ ns) :=
  ⟨hf, h.eq_none (prefix_target hns) (ne_target hns) hn, ns, hne, hns, rfl, mt (h.blocked hns).2 hb⟩

end Spared

def Prepares (a : Aim s.current r.entry) (mode : StoreMode) (t : FileTree) (w : Writing) : Prop :=
  a.Adds t (Writing.step mode r t w).1 ∧
    (a.Preparing (Writing.step mode r t w).1 (Writing.step mode r t w).2 ∨
      a.Abandoned (Writing.step mode r t w).1 (Writing.step mode r t w).2)

theorem prepares_of_same {w' : Writing} (he : Writing.step mode r t w = (t, w')) (h : a.Preparing t w') :
    a.Prepares mode t w := by
  rw [Prepares, he]
  exact ⟨.none, .inl h⟩

theorem prepares_of_put {w' : Writing} (he : Writing.step mode r t w = (t.put p .dir, w'))
    (hm : a.Makes s p) (hn : t.get? p = none) (h : a.Preparing (t.put p .dir) w') : a.Prepares mode t w := by
  rw [Prepares, he]
  exact ⟨.dir hm hn, .inl h⟩

section Steps

variable (h : a.Spared s t) (hf : r.DirFits) (hl : Leads s.current a.loc ns path)
  (hu : Ups s.current a.loc a.dirs ns below) (hclear : below = [] ∨ a.Clear)
include h hf hl hu hclear

/-- What a directory is not made for keeps the request from having its directory. -/
theorem hinders_of_makeDir (hm : t.makeDir path = .error cause) (hc : cause ≠ .notFound) :
    t.walk a.loc ns = .ok (a.loc ++ ns) ∨ a.Hinders cause := by
  have hns := hu.isPrefix
  obtain ⟨more, hmore⟩ := id hns
  have hclear' : more = [] ∨ (ns ≠ [] → ¬ t.HoldsFile (a.loc ++ ns)) := by
    refine hclear.imp (fun he => ?_) fun hclear hne => ?_
    · subst he
      cases hu
      simpa using hmore
    · rw [h.holdsFile (prefix_target hns) (ne_target hns)]
      exact hclear ns hne hns
  refine (hindrance_of_makeDir (a.plain_of_isPrefix hns) hl h.current hm hc hclear').imp_right
    fun he => .inl ⟨hf, ?_⟩
  rw [← h.hindrance List.prefix_rfl, ← hmore, he]

theorem prepares_descend (hs : s.Rooted) (hd : Downs s.current a.loc ns.dropLast above) :
    a.Prepares mode t (.descend path above below) := by
  have hns := hu.isPrefix
  rcases makeDir_outcome (a.plain_of_isPrefix hns) hl h.current with
    ⟨hm, hne, hn, hb, hw⟩ | ⟨hm, before, name, rfl, hw⟩ | ⟨cause, hc, hm, hmade⟩
  · exact prepares_of_put (Writing.step_descend_of_ok hm) (h.makes hf hne hns hn hb) hn (.ascend hf hu hclear hw)
  · have hclear' := clear_of_walk_notFound h.toWayGrows hs ((List.prefix_append before [name]).trans hns) hw
    rw [List.dropLast_concat] at hd
    cases hd with
    | root => cases hw
    | @next ns' name' path' above' leads others =>
        have hp : a.Preparing t (.descend path' above' (path :: below)) := by
          refine .descend hf leads ?_ (.next hl hu) (.inr hclear')
          rwa [List.dropLast_concat]
        exact prepares_of_same (by simp only [Writing.step, hm]) hp
  · have hh := hinders_of_makeDir h hf hl hu hclear hm hc
    exact prepares_of_same (Writing.step_descend_of_error hm hc) (.check hf hl hu hclear hmade hh)

theorem prepares_check (hm : t.Made a.loc ns) (hh : t.walk a.loc ns = .ok (a.loc ++ ns) ∨ a.Hinders cause) :
    a.Prepares mode t (.check path cause below) := by
  have hns := hu.isPrefix
  have hdir := isDir_of_leads (a.plain_of_isPrefix hns) hl h.current
  by_cases hw : t.walk a.loc ns = .ok (a.loc ++ ns)
  · exact prepares_of_same (by rw [Writing.step, if_pos (hdir.2 hw)]) (.ascend hf hu hclear hw)
  · rw [Prepares, Writing.step, if_neg (mt hdir.1 hw)]
    have hb : s.Blocked a.loc ns := by
      rw [← h.blocked hns]
      exact by_contra fun hb => hw (hm ns List.prefix_rfl hb)
    exact ⟨.none, .inr (.failed (hh.resolve_left hw) fun p hp => h.making.made ⟨rfl, rfl⟩ hm hns (.inr hb) hp)⟩

end Steps

theorem prepares_ascend (h : a.Spared s t) (hf : r.DirFits) (hu : Ups s.current a.loc a.dirs ns (path :: below))
    (hclear : a.Clear) (hw : t.walk a.loc ns = .ok (a.loc ++ ns)) :
    a.Prepares mode t (.ascend (path :: below)) := by
  cases hu with
  | @next _ name _ _ leads others =>
      have hns := others.isPrefix
      rcases makeDir_outcome (a.plain_of_isPrefix hns) leads h.current with
        ⟨hm, hne, hn, hb, hw'⟩ | ⟨hm, before, name', he, hw'⟩ | ⟨cause, hc, hm, hmade⟩
      · exact prepares_of_put (by rw [Writing.step, hm]) (h.makes hf hne hns hn hb) hn
          (.ascend hf others (.inr hclear) hw')
      · cases (List.append_inj' he rfl).1
        rw [hw] at hw'
        cases hw'
      · have hh := hinders_of_makeDir h hf leads others (.inr hclear) hm hc
        exact prepares_of_same (by rw [Writing.step, hm]) (.check hf leads others (.inr hclear) hmade hh)

/-- **Each operation makes a directory or none, and brings the request nearer to having its directory or to
failing for what hinders it.** -/
theorem Preparing.prepares (h : a.Preparing t w) (hs : s.Rooted) (hg : a.Spared s t) (mode : StoreMode)
    (hw : w ≠ .ascend []) : a.Prepares mode t w := by
  cases h with
  | lost unfit nowhere =>
      obtain ⟨cause, hc, he⟩ := nowhere
      have hm : t.makeDir r.dir = .error cause := by
        rw [makeDir, he t]
        rfl
      exact prepares_of_same (Writing.step_descend_of_error hm hc) (.lostCheck unfit he)
  | @lostCheck cause unfit nowhere =>
      have hdir : t.isDir r.dir = false := by rw [isDir, nowhere t]
      rw [Prepares, Writing.step, hdir, if_neg Bool.false_ne_true]
      exact ⟨.none, .inr (.failed (.inr ⟨unfit, nowhere⟩) fun p hp => absurd hp.1 unfit)⟩
  | descend fits leads downs ups clear => exact prepares_descend hg fits leads ups clear hs downs
  | check fits leads ups clear made hinders => exact prepares_check hg fits leads ups clear made hinders
  | @ascend ns below fits ups clear there =>
      cases below with
      | nil => exact absurd rfl hw
      | cons path below => exact prepares_ascend hg fits ups (clear.resolve_left (List.cons_ne_nil _ _)) there

theorem preparing_start (a : Aim s.current r.entry) : a.Preparing s (Writing.start r) := by
  rw [Writing.start]
  by_cases hd : r.dir = ""
  · rw [if_pos (by simpa using hd)]
    rcases a.dir with ⟨-, hn⟩ | ⟨hne, -⟩
    · have hu : Ups s.current a.loc a.dirs [] [] := by
        rw [hn]
        exact .done
      exact .ascend (.inl hd) hu (.inl rfl) (by rw [walk, List.append_nil])
    · exact absurd hd hne
  · rw [if_neg (by simpa using hd)]
    rcases a.dir with ⟨he, -⟩ | ⟨-, hl⟩
    · exact absurd he hd
    · by_cases hf : Fits r.dir
      · exact .descend (.inr hf) (hl hf).1 (hl hf).2 .done (.inl rfl)
      · exact .lost (not_or.2 ⟨hd, hf⟩) (unplaced_of_not_fits hd hf)

theorem Preparing.keep (h : a.Preparing t w) (hg : a.WayGrows t t') : a.Preparing t' w := by
  cases h with
  | lost unfit nowhere => exact .lost unfit nowhere
  | lostCheck unfit nowhere => exact .lostCheck unfit nowhere
  | descend fits leads downs ups clear => exact .descend fits leads downs ups clear
  | check fits leads ups clear made hinders =>
      exact .check fits leads ups clear (hg.made ups.isPrefix made)
        (hinders.imp_left (hg.walk ups.isPrefix))
  | ascend fits ups clear there => exact .ascend fits ups clear (hg.walk ups.isPrefix there)

/-! ## The directory in the end -/

/-- The directory of the request is there. -/
structure Ready {cur : Location} (a : Aim cur r.entry) (t : FileTree) : Prop where
  current : t.current = cur
  walk : t.walk a.loc a.dirs = .ok (a.loc ++ a.dirs)

theorem Preparing.ready (h : a.Preparing t (.ascend [])) (hg : a.Spared s t) : r.DirFits ∧ a.Ready t := by
  cases h with
  | ascend fits ups clear there =>
      cases ups
      exact ⟨fits, hg.current, there⟩

theorem Ready.made (h : a.Ready t) (hg : a.Spared s t) (hp : a.Makes s p) : t.get? p = some .dir :=
  hg.making.made ⟨rfl, rfl⟩ (made_of_walk (a.plain_of_isPrefix List.prefix_rfl) h.walk) List.prefix_rfl (.inl rfl) hp

theorem Ready.not_hinders (h : a.Ready t) (hg : a.Spared s t) (hf : r.DirFits) : ¬ a.Hinders cause := by
  rintro (⟨-, he⟩ | ⟨hno, -⟩)
  · rw [← hg.hindrance List.prefix_rfl, hindrance_of_walk (a.plain_of_isPrefix List.prefix_rfl) h.walk] at he
    cases he
  · exact hno hf

/-- A request that nobody interrupts has its directory in the end, or has failed. -/
theorem Preparing.exists_alone (h : a.Preparing t w) (hs : s.Rooted) (hg : a.Spared s t) (mode : StoreMode) :
    ∃ u w', Writing.Alone mode r (t, w) (u, w') ∧ a.Spared s u ∧
      (w' = .ascend [] ∧ a.Preparing u w' ∨ a.Abandoned u w') := by
  induction hn : w.left using Nat.strong_induction_on generalizing t w with
  | _ n ih =>
      by_cases hw : w = .ascend []
      · exact ⟨t, w, .refl, hg, .inl ⟨hw, h⟩⟩
      · obtain ⟨hadds, hnext⟩ := h.prepares hs hg mode hw
        have hg' := hg.trans hadds.spared
        rcases hnext with hp | hab
        · have hleft : (Writing.step mode r t w).2.left < n := by
            rw [← hn]
            refine Writing.left_step ?_ mode r t
            cases h <;> rfl
          obtain ⟨u, w', halone, hend⟩ := ih _ hleft hp hg' rfl
          exact ⟨u, w', halone.head, hend⟩
        · exact ⟨_, _, Writing.Alone.head .refl, hg', .inr hab⟩

end Aim

end FeedFiler
