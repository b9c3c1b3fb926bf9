import Mathlib.Data.List.Induction
import FeedFiler.Files.Store
import FeedFiler.Proofs.Files.Walking
import FeedFiler.Proofs.Text.Cut

/-!
# Plain paths

A plain path is made of plain names. Its text and the texts of the directories above it lead along
these names, from the root or from the current directory.
-/

namespace FeedFiler

/-! ## The parts of a path -/

namespace FileTree

variable {t : FileTree} {cur loc : Location} {names : List String} {path : String}

theorem partsOf_append (s t : String) : partsOf (s ++ "/" ++ t) = partsOf s ++ partsOf t := by
  have h : (s ++ "/" ++ t).toList = s.toList ++ '/' :: t.toList := by simp
  rw [partsOf, h, Text.splitAt_append, List.map_append]
  rfl

theorem partsOf_of_notMem {name : String} (h : '/' ∉ name.toList) : partsOf name = [name] := by
  rw [partsOf, Text.splitAt_of_notMem h, List.map_singleton, String.ofList_toList]

theorem notMem_of_mem_partsOf : ∀ part ∈ partsOf path, '/' ∉ part.toList := by
  intro part hp
  obtain ⟨s, hs, rfl⟩ := List.mem_map.1 hp
  rw [String.toList_ofList]
  exact Text.notMem_of_mem_splitAt s hs

theorem intercalate_partsOf (path : String) : "/".intercalate (partsOf path) = path := by
  rw [← String.toList_inj, String.toList_intercalate, partsOf, List.map_map]
  have h : (String.toList ∘ String.ofList) = id := by
    funext s
    exact String.toList_ofList
  rw [h, List.map_id]
  exact Text.intercalate_splitAt '/' path.toList

theorem partsOf_intercalate (hne : names ≠ []) (h : ∀ n ∈ names, '/' ∉ n.toList) :
    partsOf ("/".intercalate names) = names := by
  induction names with
  | nil => exact absurd rfl hne
  | cons name names ih =>
      rw [List.forall_mem_cons] at h
      cases names with
      | nil => rw [String.intercalate_singleton, partsOf_of_notMem h.1]
      | cons next names =>
          rw [String.intercalate_cons_cons, partsOf_append, partsOf_of_notMem h.1,
            ih (List.cons_ne_nil _ _) h.2]
          rfl

/-! ## Places of plain paths -/

/-- The text is one that a path may have. -/
def Fits (path : String) : Prop := '\x00' ∉ path.toList ∧ path.utf8ByteSize < maxPath

/-- The path leads nowhere in any tree. -/
def Unplaced (path : String) : Prop := ∃ cause, cause ≠ .notFound ∧ ∀ t : FileTree, t.place path = .error cause

/-- What stands in front of the first name of a path: a slash if it begins at the root. -/
def front (absolute : Bool) : List String := if absolute then [""] else []

def base (cur : Location) (absolute : Bool) : Location := if absolute then [] else cur

/-- The path is made of plain names, with or without a slash in front of them and behind them. -/
structure HasParts (path : String) (absolute : Bool) (names : List String) (slash : Bool) : Prop where
  ne_empty : path ≠ ""
  parts : partsOf path = front absolute ++ names ++ front slash
  plain : ∀ n ∈ names, PlainName n

variable {absolute slash : Bool}

theorem unplaced_of_not_fits (hne : path ≠ "") (h : ¬ Fits path) : Unplaced path := by
  by_cases hn : '\x00' ∈ path.toList
  · refine ⟨.nulInPath, by simp, fun t => ?_⟩
    simp [place, hn, bind, Except.bind, throw, throwThe, MonadExceptOf.throw]
  · refine ⟨.nameTooLong, by simp, fun t => ?_⟩
    have hs : maxPath ≤ path.utf8ByteSize := by
      rw [Fits, not_and] at h
      exact Nat.not_lt.1 (h hn)
    simp [place, hn, hs, hne, bind, Except.bind, throw, throwThe, MonadExceptOf.throw]

theorem walk_front (t : FileTree) (loc : Location) (absolute : Bool) (names : List String) :
    t.walk loc (front absolute ++ names) = t.walk loc names := by
  cases absolute with
  | false => rfl
  | true =>
      show t.walk loc ("" :: names) = _
      rw [walk, if_pos (.inl rfl)]

theorem place_of_fits (hf : Fits path) (hne : path ≠ "") (t : FileTree) :
    t.place path =
      match (partsOf path).reverse.dropWhile (· = "") with
      | [] => .ok (.known (if (partsOf path).head? = some "" then [] else t.current))
      | last :: before =>
        if last = "." ∨ last = ".." then
          (t.walk (if (partsOf path).head? = some "" then [] else t.current) (partsOf path)).map .known
        else (t.walk (if (partsOf path).head? = some "" then [] else t.current) before.reverse).bind
          fun parent =>
            if maxName < last.utf8ByteSize then .error .nameTooLong
            else .ok (.entry (parent ++ [last]) (!((partsOf path).reverse.takeWhile (· = "")).isEmpty)) := by
  have hn : ¬ path.toList.contains '\x00' = true := by simpa using hf.1
  have he : ¬ path.isEmpty = true := by simpa using hne
  simp only [place, if_neg hn, if_neg he, if_neg (Nat.not_le.2 hf.2)]
  cases (partsOf path).reverse.dropWhile (· = "") with
  | nil => rfl
  | cons last before =>
      simp only
      split
      · rfl
      · simp only [bind]
        congr 1

theorem HasParts.ne_nil (h : HasParts path false names slash) : names ≠ [] := by
  rintro rfl
  cases slash with
  | false => exact Text.splitAt_ne_nil '/' path.toList (List.map_eq_nil_iff.1 h.parts)
  | true => exact h.ne_empty ((intercalate_partsOf path).symm.trans (congrArg _ h.parts))

theorem HasParts.place (h : HasParts path absolute names slash) (hf : Fits path) (t : FileTree) :
    t.place path = t.placeOf (base t.current absolute) slash names := by
  have hstart : (if (partsOf path).head? = some "" then [] else t.current) = base t.current absolute := by
    rw [h.parts]
    cases absolute with
    | true => rfl
    | false =>
        cases names with
        | nil => exact absurd rfl h.ne_nil
        | cons name names =>
            rw [if_neg, base, if_neg Bool.false_ne_true]
            intro he
            exact (h.plain name List.mem_cons_self).1 (Option.some.inj he)
  have hrev : (partsOf path).reverse = front slash ++ names.reverse ++ front absolute := by
    rw [h.parts]
    cases absolute <;> cases slash <;> simp [front]
  rw [place_of_fits hf h.ne_empty, hstart, hrev]
  rcases List.eq_nil_or_concat names with rfl | ⟨ns, name, rfl⟩
  · cases absolute <;> cases slash <;> rfl
  · rw [List.concat_eq_append] at h ⊢
    have hp := h.plain name (List.mem_append_right ns List.mem_cons_self)
    have hd : (front slash ++ (ns ++ [name]).reverse ++ front absolute).dropWhile (· = "") =
        name :: (ns.reverse ++ front absolute) := by
      cases slash <;> simp [front, hp.1]
    have ht : (front slash ++ (ns ++ [name]).reverse ++ front absolute).takeWhile (· = "") =
        front slash := by
      cases slash <;> simp [front, hp.1]
    have hb : (ns.reverse ++ front absolute).reverse = front absolute ++ ns := by
      cases absolute <;> simp [front]
    rw [hd, ht, placeOf_concat]
    simp only [hp.2.1, hp.2.2, or_self, if_false, hb, walk_front]
    cases slash <;> rfl

/-! ## The directories above -/

/-- The path of the directory that some first names lead to. -/
def upper (absolute : Bool) (names : List String) : String := "/".intercalate (front absolute ++ names)

theorem upper_eq (absolute : Bool) (hne : names ≠ []) :
    upper absolute names = (if absolute then "/" else "") ++ "/".intercalate names := by
  cases absolute with
  | false => rw [if_neg Bool.false_ne_true, String.empty_append]; rfl
  | true =>
      show "/".intercalate ([""] ++ names) = _
      rw [String.intercalate_append_of_ne_nil (List.cons_ne_nil _ _) hne, String.intercalate_singleton]
      rfl

theorem HasParts.notMem (h : HasParts path absolute names slash) : ∀ n ∈ names, '/' ∉ n.toList := by
  intro n hn
  have hm : n ∈ partsOf path := by
    rw [h.parts]
    exact List.mem_append_left _ (List.mem_append_right _ hn)
  exact notMem_of_mem_partsOf n hm

theorem HasParts.upper (h : HasParts path absolute names slash) {ns more : List String}
    (hns : names = ns ++ more) (hne : ns ≠ []) : HasParts (upper absolute ns) absolute ns false := by
  have hp : ∀ n ∈ ns, PlainName n := by
    intro n hn
    exact h.plain n (hns ▸ List.mem_append_left more hn)
  have hparts : partsOf (FileTree.upper absolute ns) = front absolute ++ ns := by
    refine partsOf_intercalate (List.append_ne_nil_of_right_ne_nil _ hne) ?_
    rw [List.forall_mem_append]
    constructor
    · cases absolute <;> simp [front]
    · intro n hn
      exact h.notMem n (hns ▸ List.mem_append_left more hn)
  refine ⟨?_, hparts.trans (List.append_nil _).symm, hp⟩
  intro he
  rw [he] at hparts
  obtain ⟨n, ns, rfl⟩ := List.exists_cons_of_ne_nil hne
  cases absolute with
  | false => exact (hp n List.mem_cons_self).1 (List.cons.inj hparts).1.symm
  | true => exact List.cons_ne_nil _ _ (List.cons.inj hparts).2.symm

theorem HasParts.upper_append (h : HasParts path absolute names slash) {ns more : List String}
    (hns : names = ns ++ more) (hne : ns ≠ []) : ∃ rest, path = FileTree.upper absolute ns ++ rest := by
  have hpath : path = "/".intercalate (front absolute ++ ns ++ (more ++ front slash)) := by
    rw [← intercalate_partsOf path, h.parts, hns]
    simp
  cases hm : more ++ front slash with
  | nil =>
      refine ⟨"", ?_⟩
      rw [hpath, hm, List.append_nil, String.append_empty]
      rfl
  | cons m ms =>
      refine ⟨"/" ++ "/".intercalate (m :: ms), ?_⟩
      rw [hpath, hm, String.intercalate_append_of_ne_nil (List.append_ne_nil_of_right_ne_nil _ hne)
        (List.cons_ne_nil _ _), String.append_assoc]
      rfl

theorem HasParts.upper_fits (h : HasParts path absolute names slash) (hf : Fits path)
    {ns more : List String} (hns : names = ns ++ more) (hne : ns ≠ []) :
    Fits (FileTree.upper absolute ns) := by
  obtain ⟨rest, rfl⟩ := h.upper_append hns hne
  constructor
  · intro hm
    exact hf.1 (by rw [String.toList_append]; exact List.mem_append_left _ hm)
  · have := hf.2
    rw [String.utf8ByteSize_append] at this
    omega

theorem HasParts.head (h : HasParts path absolute names slash) :
    path.toList.head? = some '/' ↔ absolute = true := by
  cases absolute with
  | true =>
      refine iff_of_true ?_ rfl
      have hpath : path = "/".intercalate ("" :: (names ++ front slash)) := by
        rw [← intercalate_partsOf path, h.parts]
        rfl
      cases hm : names ++ front slash with
      | nil =>
          rw [hm] at hpath
          exact absurd hpath h.ne_empty
      | cons m ms =>
          rw [hpath, hm, String.intercalate_cons_cons]
          simp
  | false =>
      refine iff_of_false ?_ Bool.false_ne_true
      obtain ⟨n, ns, rfl⟩ := List.exists_cons_of_ne_nil h.ne_nil
      obtain ⟨rest, hr⟩ := h.upper_append (List.singleton_append (l := ns)).symm (List.cons_ne_nil n [])
      have hn := h.notMem n List.mem_cons_self
      have hu : FileTree.upper false [n] = n := String.intercalate_singleton
      rw [hr, hu, String.toList_append]
      cases hc : n.toList with
      | nil =>
          rw [String.toList_eq_nil_iff] at hc
          exact absurd hc (h.plain n List.mem_cons_self).1
      | cons c cs =>
          intro he
          rw [hc] at hn
          exact hn ((Option.some.inj he) ▸ List.mem_cons_self)

theorem HasParts.namesReversed (h : HasParts path absolute names slash) :
    FileTree.namesReversed path = names.reverse := by
  have hkeep (ns : List String) (hp : ∀ n ∈ ns, PlainName n) :
      (ns ++ front slash).filter (fun part => part ≠ "" ∧ part ≠ ".") = ns := by
    rw [List.filter_append, List.filter_eq_self.2]
    · cases slash <;> simp [front]
    · intro n hn
      exact decide_eq_true ⟨(hp n hn).1, (hp n hn).2.1⟩
  cases absolute with
  | true =>
      have hparts : partsOf path = "" :: (names ++ front slash) := h.parts
      rw [FileTree.namesReversed, hparts]
      simp only [↓reduceIte, hkeep names h.plain]
  | false =>
      obtain ⟨n, ns, rfl⟩ := List.exists_cons_of_ne_nil h.ne_nil
      have hp := List.forall_mem_cons.1 h.plain
      have hparts : partsOf path = n :: (ns ++ front slash) := h.parts
      rw [FileTree.namesReversed, hparts]
      simp only [if_neg hp.1.1, hkeep ns hp.2]

/-- In all trees with the current directory `cur`, the paths lead to the directories above the one that
the names lead to, the nearest one first. -/
inductive Downs (cur loc : Location) : List String → List String → Prop where
  | root : Downs cur loc [] []
  | next {ns : List String} {name path : String} {above : List String}
      (leads : Leads cur loc (ns ++ [name]) path) (others : Downs cur loc ns above) :
      Downs cur loc (ns ++ [name]) (path :: above)

theorem HasParts.leads (h : HasParts path absolute names slash) (hf : Fits path) (cur : Location) :
    Leads cur (base cur absolute) names path := by
  refine ⟨slash, fun t hc => ?_⟩
  rw [h.place hf, hc]

theorem HasParts.parents (h : HasParts path absolute names slash) (hf : Fits path) (cur : Location) :
    Downs cur (base cur absolute) names.dropLast (FileTree.parents path) := by
  have habove (ns : List String) (hns : ∃ more, names = ns ++ more) :
      Downs cur (base cur absolute) ns ((FileTree.parents.above ns.reverse).map fun ns =>
        (if path.toList.head? = some '/' then "/" else "") ++ "/".intercalate ns.reverse) := by
    induction ns using List.reverseRecOn with
    | nil => exact .root
    | append_singleton ns name ih =>
        obtain ⟨more, hm⟩ := hns
        have hne : ns ++ [name] ≠ [] := List.append_ne_nil_of_right_ne_nil _ (List.cons_ne_nil _ _)
        have hu := (h.upper hm hne).leads (h.upper_fits hf hm hne) cur
        rw [upper_eq absolute hne] at hu
        rw [List.reverse_append, List.reverse_singleton, List.singleton_append, FileTree.parents.above,
          List.map_cons]
        refine .next ?_ (ih ⟨name :: more, by rw [hm, List.append_assoc]; rfl⟩)
        rw [List.reverse_cons, List.reverse_reverse]
        simp only [h.head]
        exact hu
  have hdrop := habove names.dropLast ⟨names.drop (names.length - 1), by
    rw [List.dropLast_eq_take, List.take_append_drop]⟩
  rw [FileTree.parents, h.namesReversed, List.tail_reverse]
  exact hdrop

/-! ## Plain requests -/

/-- The names of a path, without the slash in front. -/
def pathNames (path : String) : List String :=
  if (partsOf path).head? = some "" then (partsOf path).tail else partsOf path

/-- The path has names, and none of them is empty, `.` or `..`. -/
def PlainPath (path : String) : Prop := pathNames path ≠ [] ∧ ∀ n ∈ pathNames path, PlainName n

instance (path : String) : Decidable (PlainPath path) :=
  inferInstanceAs (Decidable (pathNames path ≠ [] ∧ ∀ n ∈ pathNames path, PlainName n))

/-- Where a plain path leads. -/
def locate (t : FileTree) (path : String) : Location :=
  base t.current ((partsOf path).head? = some "") ++ pathNames path

theorem HasParts.pathNames (h : HasParts path absolute names false) : FileTree.pathNames path = names := by
  have hparts : partsOf path = front absolute ++ names := h.parts.trans (List.append_nil _)
  rw [FileTree.pathNames, hparts]
  cases absolute with
  | true => rfl
  | false =>
      obtain ⟨n, ns, rfl⟩ := List.exists_cons_of_ne_nil h.ne_nil
      rw [if_neg]
      · rfl
      · intro he
        exact (h.plain n List.mem_cons_self).1 (Option.some.inj he)

theorem HasParts.locate (h : HasParts path absolute names false) (t : FileTree) :
    t.locate path = base t.current absolute ++ names := by
  have habs : decide ((partsOf path).head? = some "") = absolute := by
    rw [h.parts]
    cases absolute with
    | true => rfl
    | false =>
        obtain ⟨n, ns, rfl⟩ := List.exists_cons_of_ne_nil h.ne_nil
        refine decide_eq_false fun he => ?_
        exact (h.plain n List.mem_cons_self).1 (Option.some.inj he)
  rw [FileTree.locate, h.pathNames, habs]

theorem PlainPath.hasParts (h : PlainPath path) :
    ∃ absolute, HasParts path absolute (FileTree.pathNames path) false := by
  obtain ⟨hne, hp⟩ := h
  have hempty : path ≠ "" := by
    rintro rfl
    exact hne rfl
  by_cases hh : (partsOf path).head? = some ""
  · refine ⟨true, hempty, ?_, hp⟩
    obtain ⟨rest, hrest⟩ := List.head?_eq_some_iff.1 hh
    rw [FileTree.pathNames, if_pos hh, hrest]
    exact (List.append_nil _).symm
  · refine ⟨false, hempty, ?_, hp⟩
    rw [FileTree.pathNames, if_neg hh]
    exact (List.append_nil _).symm

/-- **A plain path names the entry at its location, if it names anything.** -/
theorem place_of_plainPath (h : PlainPath path) {p : Place} (hp : t.place path = .ok p) :
    p = .entry (t.locate path) false := by
  obtain ⟨absolute, hparts⟩ := h.hasParts
  have hf : Fits path := by
    by_contra hf
    obtain ⟨cause, -, he⟩ := unplaced_of_not_fits hparts.ne_empty hf
    rw [he t] at hp
    cases hp
  rcases List.eq_nil_or_concat (FileTree.pathNames path) with hn | ⟨ns, name, hn⟩
  · exact absurd hn h.1
  · have hplain := hparts.plain
    rw [hparts.locate]
    rw [hparts.place hf] at hp
    rw [hn, List.concat_eq_append] at hplain hp ⊢
    rw [placeOf_concat] at hp
    cases hw : t.walk (base t.current absolute) ns with
    | error cause =>
        rw [hw] at hp
        cases hp
    | ok parent =>
        rw [hw, walk_eq (fun n hm => hplain n (List.mem_append_left [name] hm)) hw, Except.bind] at hp
        split at hp
        · cases hp
        · rw [← Except.ok.inj hp, List.append_assoc]

end FileTree

/-- The path of the file is plain, and the file is to stand in the very directory that the request asks
for. -/
structure WriteRequest.Plain (r : WriteRequest) : Prop where
  path : FileTree.PlainPath r.path
  name : '/' ∉ r.name.toList

instance (r : WriteRequest) : Decidable r.Plain :=
  decidable_of_iff (FileTree.PlainPath r.path ∧ '/' ∉ r.name.toList)
    ⟨fun h => ⟨h.1, h.2⟩, fun h => ⟨h.path, h.name⟩⟩

open FileTree

theorem joinPath_eq {dir : String} (hd : dir ≠ "") :
    ∃ (front : String) (slash : Bool), dir = front ++ (if slash then "/" else "") ∧
      ∀ name, name.toList.head? ≠ some '/' → joinPath dir name = front ++ "/" ++ name := by
  have hj (name : String) (hn : name.toList.head? ≠ some '/') :
      ¬ (name.toList.head? = some '/' ∨ dir.isEmpty = true) := not_or.2 ⟨hn, by simpa using hd⟩
  by_cases hl : dir.toList.getLast? = some '/'
  · obtain ⟨cs, hcs⟩ := List.getLast?_eq_some_iff.1 hl
    have he : dir = String.ofList cs ++ "/" := by
      rw [← String.toList_inj, hcs]
      simp
    exact ⟨String.ofList cs, true, he, fun name hn => by rw [joinPath, if_neg (hj name hn), if_pos hl, ← he]⟩
  · exact ⟨dir, false, String.append_empty.symm, fun name hn => by rw [joinPath, if_neg (hj name hn), if_neg hl]⟩

/-- The parts of the path of a directory, without the slash behind it. The empty path has none. -/
def DirParts (dir : String) (parts : List String) : Prop :=
  dir = "" ∧ parts = [] ∨ dir ≠ "" ∧ ∃ slash, partsOf dir = parts ++ front slash

/-- The parts of a name follow those of the directory it is joined with, unless it begins at the root. -/
theorem exists_partsOf_joinPath (dir : String) : ∃ parts, DirParts dir parts ∧
    ∀ name, name.toList.head? ≠ some '/' → partsOf (joinPath dir name) = parts ++ partsOf name := by
  by_cases hd : dir = ""
  · refine ⟨[], .inl ⟨hd, rfl⟩, fun name _ => ?_⟩
    rw [joinPath, if_pos (.inr (by simp [hd])), List.nil_append]
  · obtain ⟨d, slash, hdir, hp⟩ := joinPath_eq hd
    refine ⟨partsOf d, .inr ⟨hd, slash, ?_⟩, fun name hn => by rw [hp name hn, partsOf_append]⟩
    rw [hdir]
    cases slash with
    | false => rw [if_neg Bool.false_ne_true, String.append_empty, front, if_neg Bool.false_ne_true,
        List.append_nil]
    | true =>
        have := partsOf_append d ""
        rwa [String.append_empty] at this

/-- The path of the file is plain, and the file is to stand below the directory that the request asks for. -/
structure WriteRequest.Descends (r : WriteRequest) : Prop where
  path : PlainPath r.path
  name : r.name.toList.head? ≠ some '/'

instance (r : WriteRequest) : Decidable r.Descends :=
  decidable_of_iff (PlainPath r.path ∧ r.name.toList.head? ≠ some '/')
    ⟨fun h => ⟨h.1, h.2⟩, fun h => ⟨h.path, h.name⟩⟩

theorem head?_ne_of_notMem {name : String} (h : '/' ∉ name.toList) : name.toList.head? ≠ some '/' :=
  fun he => h (List.mem_of_head? he)

theorem WriteRequest.Plain.descends {r : WriteRequest} (h : r.Plain) : r.Descends :=
  ⟨h.path, head?_ne_of_notMem h.name⟩

theorem head?_of_partsOf {name : String} {parts : List String} (h : partsOf name = "" :: parts)
    (hne : parts ≠ []) : name.toList.head? = some '/' := by
  obtain ⟨part, parts, rfl⟩ := List.exists_cons_of_ne_nil hne
  rw [← intercalate_partsOf name, h, String.intercalate_cons_cons]
  simp

/-- A request that descends has plain names up to its directory and behind it, and whatever is joined with the
directory has the same ones in front. -/
theorem WriteRequest.Descends.hasParts {r : WriteRequest} (h : r.Descends) :
    ∃ absolute dirs, HasParts r.path absolute (dirs ++ partsOf r.name) false ∧
      (r.dir = "" ∧ dirs = [] ∨ ∃ slash, HasParts r.dir absolute dirs slash) ∧
        ∀ name, name.toList.head? ≠ some '/' →
          partsOf (joinPath r.dir name) = front absolute ++ dirs ++ partsOf name := by
  obtain ⟨absolute, hpath⟩ := h.path.hasParts
  obtain ⟨parts, hdir, hjoin⟩ := exists_partsOf_joinPath r.dir
  have hparts : front absolute ++ FileTree.pathNames r.path = parts ++ partsOf r.name := by
    rw [← hjoin r.name h.name]
    exact (List.append_nil _).symm.trans hpath.parts.symm
  -- The slash in front of a path is in front of its directory, for the name has none.
  obtain ⟨dirs, rfl⟩ : ∃ dirs, parts = front absolute ++ dirs := by
    cases absolute with
    | false => exact ⟨parts, rfl⟩
    | true =>
        cases parts with
        | nil => exact absurd (head?_of_partsOf hparts.symm h.path.1) h.name
        | cons part parts =>
            obtain ⟨rfl, -⟩ := List.cons.inj hparts
            exact ⟨parts, rfl⟩
  rw [List.append_assoc] at hparts
  rw [List.append_cancel_left hparts] at hpath
  refine ⟨absolute, dirs, hpath, ?_, hjoin⟩
  rcases hdir with ⟨hd, hnil⟩ | ⟨hd, slash, hdparts⟩
  · exact .inl ⟨hd, (List.append_eq_nil_iff.1 hnil).2⟩
  · exact .inr ⟨slash, hd, hdparts, fun n hm => hpath.plain n (List.mem_append_left _ hm)⟩

theorem FileTree.hasParts_of_parts {path name : String} {names : List String} {absolute : Bool}
    (h : partsOf path = front absolute ++ names ++ [name]) (hp : ∀ n ∈ names ++ [name], PlainName n) :
    HasParts path absolute (names ++ [name]) false := by
  refine ⟨?_, ?_, hp⟩
  · rintro rfl
    have hempty : [] ++ [""] = front absolute ++ names ++ [name] := h
    have hname := hp name (List.mem_append_right names List.mem_cons_self)
    exact hname.1 (List.singleton_inj.1 (List.append_inj' hempty rfl).2).symm
  · rw [h, ← List.append_assoc]
    exact (List.append_nil _).symm

/-! ## The name of the file -/

namespace WriteRequest

/-- The first one of the names that lead from the directory to the file. -/
def entry (r : WriteRequest) : WriteRequest := { r with name := (partsOf r.name).headD "" }

/-- The directories that the name of the file leads through. -/
def inner (r : WriteRequest) : List String := (partsOf r.name).dropLast

/-- The name of the file without these directories. -/
def base (r : WriteRequest) : String := (partsOf r.name).getLastD ""

variable {r : WriteRequest}

theorem partsOf_name (r : WriteRequest) : partsOf r.name = r.inner ++ [r.base] := by
  have hne : partsOf r.name ≠ [] := mt List.map_eq_nil_iff.1 (Text.splitAt_ne_nil '/' r.name.toList)
  rw [inner, base, List.getLastD_eq_getLast?, List.getLast?_eq_some_getLast hne, Option.getD_some,
    List.dropLast_concat_getLast hne]

theorem exists_partsOf_name (r : WriteRequest) : ∃ names, partsOf r.name = r.entry.name :: names := by
  rw [entry]
  cases h : partsOf r.name with
  | nil => exact absurd (List.map_eq_nil_iff.1 h) (Text.splitAt_ne_nil '/' r.name.toList)
  | cons name names => exact ⟨names, rfl⟩

/-- A name without slashes leads through no directories. -/
theorem entry_eq_of_notMem (h : '/' ∉ r.name.toList) : r.entry = r := by
  rw [entry, partsOf_of_notMem h]
  rfl

end WriteRequest

end FeedFiler
