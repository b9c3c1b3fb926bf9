import FeedFiler.Proofs.Files.Agreement
import FeedFiler.Proofs.Files.PlainPaths
import FeedFiler.Proofs.Files.Writing

/-!
# Appending among others

A write that appends makes the missing directories and then adds to its file, whose name may lead through
directories that must be there. Whatever writers with unrelated targets do between its operations, the tree
ends as if the request had been carried out at once, and so does the result.
-/

namespace FeedFiler

namespace FileTree

variable {cur loc : Location} {dirs ns : List String} {path : String} {t : FileTree}

/-- In all trees with the current directory `cur`, the paths lead to the directories below the one that
`ns` leads to, on the way along `dirs`, the nearest one first. -/
inductive Ups (cur loc : Location) (dirs : List String) : List String → List String → Prop where
  | done : Ups cur loc dirs dirs []
  | next {ns : List String} {name path : String} {below : List String}
      (leads : Leads cur loc (ns ++ [name]) path) (others : Ups cur loc dirs (ns ++ [name]) below) :
      Ups cur loc dirs ns (path :: below)

theorem Ups.isPrefix {below : List String} (h : Ups cur loc dirs ns below) : ns <+: dirs := by
  induction h with
  | done => exact List.prefix_rfl
  | next leads others ih => exact (List.prefix_append _ _).trans ih

theorem Unplaced.makeDir (h : Unplaced path) (t : FileTree) :
    ∃ cause, cause ≠ .notFound ∧ t.makeDir path = .error cause := by
  obtain ⟨cause, hc, hp⟩ := h
  refine ⟨cause, hc, ?_⟩
  rw [FileTree.makeDir, hp t]
  rfl

theorem Unplaced.isDir (h : Unplaced path) (t : FileTree) : t.isDir path = false := by
  obtain ⟨cause, hc, hp⟩ := h
  rw [FileTree.isDir, hp t]

end FileTree

open FileTree

/-! ## What a request does -/

/-- The directories of a request and the first name behind them, in all trees with the current directory
`cur`. -/
structure Aim (cur : Location) (r : WriteRequest) where
  loc : Location
  dirs : List String
  plain : ∀ n ∈ dirs ++ [r.name], PlainName n
  dir : r.dir = "" ∧ dirs = [] ∨ r.dir ≠ "" ∧
    (Fits r.dir → Leads cur loc dirs r.dir ∧ Downs cur loc dirs.dropLast (parents r.dir))

def Aim.target {cur : Location} {r : WriteRequest} (a : Aim cur r) : Location :=
  a.loc ++ (a.dirs ++ [r.name])

variable {own : Targets} {cur p l : Location} {r : WriteRequest} {s t t' : FileTree} {w : Writing}
  {result : Except StoreError String}

/-- The directories of a request that descends, with the names up to its first entry and up to its file. -/
theorem WriteRequest.Descends.exists_aim (h : r.Descends) (cur : Location) :
    ∃ (absolute : Bool) (a : Aim cur r.entry), a.loc = FileTree.base cur absolute ∧
      HasParts r.entry.path absolute (a.dirs ++ [r.entry.name]) false ∧
      HasParts r.path absolute (a.dirs ++ r.inner ++ [r.base]) false := by
  obtain ⟨absolute, dirs, hpath, hdir, hjoin⟩ := h.hasParts
  obtain ⟨names, hnames⟩ := r.exists_partsOf_name
  have hplain : ∀ n ∈ dirs ++ [r.entry.name], PlainName n := by
    intro n hn
    refine hpath.plain n ?_
    rw [hnames]
    exact ((List.prefix_append_right_inj dirs).2 (List.prefix_append [r.entry.name] names)).subset hn
  have hentry : HasParts r.entry.path absolute (dirs ++ [r.entry.name]) false := by
    have hslash : '/' ∉ r.entry.name.toList := notMem_of_mem_partsOf _ (hnames ▸ List.mem_cons_self)
    refine hasParts_of_parts ?_ hplain
    rw [← partsOf_of_notMem hslash]
    exact hjoin r.entry.name (head?_ne_of_notMem hslash)
  rw [partsOf_name, ← List.append_assoc] at hpath
  refine ⟨absolute, ⟨FileTree.base cur absolute, dirs, hplain, ?_⟩, rfl, hentry, hpath⟩
  rcases hdir with ⟨hd, hn⟩ | ⟨slash, hd⟩
  · exact .inl ⟨hd, hn⟩
  · exact .inr ⟨hd.ne_empty, fun hf => ⟨hd.leads hf cur, hd.parents hf cur⟩⟩

def WriteRequest.DirFits (r : WriteRequest) : Prop := r.dir = "" ∨ Fits r.dir

namespace Aim

/-- The directory in which the file is to stand. -/
def folder {cur : Location} (a : Aim cur r.entry) : Location := a.loc ++ a.dirs ++ r.inner

/-- Where the file is to stand. -/
def file {cur : Location} (a : Aim cur r.entry) : Location := a.folder ++ [r.base]

/-- The path names an entry of the folder of the request, as soon as that is there. -/
structure Holds {cur : Location} (a : Aim cur r.entry) (path name : String) : Prop where
  ne_empty : path ≠ ""
  place : Fits path → ∀ t : FileTree, t.current = cur →
    t.place path = t.placeOf a.loc false (a.dirs ++ r.inner ++ [name])

/-- The file is to stand in the folder, to which plain names lead. -/
structure ReachesFile {cur : Location} (a : Aim cur r.entry) : Prop where
  plain : ∀ n ∈ r.inner, PlainName n
  path : a.Holds r.path r.base

/-- In the tree `s`, the request makes a directory at the location. -/
def Makes (a : Aim cur r) (s : FileTree) (p : Location) : Prop :=
  r.DirFits ∧ s.get? p = none ∧ ∃ ns, ns ≠ [] ∧ ns <+: a.dirs ∧ p = a.loc ++ ns ∧ ¬ s.Blocked a.loc ns

/-- In the tree `s`, the request is carried out. -/
def Succeeds (a : Aim cur r.entry) (s : FileTree) : Prop :=
  r.DirFits ∧ ¬ s.Blocked a.loc a.dirs ∧ Fits r.path ∧ s.walk (a.loc ++ a.dirs) r.inner = .ok a.folder ∧
    r.base.utf8ByteSize ≤ maxName ∧ s.get? a.file ≠ some .dir

/-- Beginning with `s`, some directories of the request have been made. -/
structure Making (own : Targets) (a : Aim cur r) (s t : FileTree) : Prop where
  current : t.current = s.current
  held : ∀ l, Held own l → t.get? l = s.get? l ∨ a.Makes s l ∧ t.get? l = some .dir
  ways : ∀ l, OnWay own l → (t.HoldsFile l ↔ s.HoldsFile l)

/-- Beginning with `s`, the request has been carried out or has failed. -/
structure Done (own : Targets) (a : Aim cur r.entry) (s t : FileTree)
    (result : Except StoreError String) : Prop where
  current : t.current = s.current
  isOk : result.isOk = true ↔ a.Succeeds s
  written : a.Succeeds s →
    t.get? a.file = some (.file (s.contentAt a.file ++ (r.content ++ "\n").toUTF8))
  made : ∀ l, Held own l → a.Makes s l → t.get? l = some .dir
  kept : ∀ l, Held own l → ¬ a.Makes s l → (a.Succeeds s → l ≠ a.file) → t.get? l = s.get? l
  ways : ∀ l, OnWay own l → l ≠ a.file → (t.HoldsFile l ↔ s.HoldsFile l)

/-- What is left to do of the request when the tree is `t`. -/
inductive Stage (a : Aim cur r) (t : FileTree) : Writing → Prop where
  /-- The directory has a text that no path may have. -/
  | lost {path : String} {above below : List String} (unfit : ¬ r.DirFits) (nowhere : Unplaced path) :
      Stage a t (.descend path above below)
  | lostCheck {path : String} {cause : FileError} {below : List String} (unfit : ¬ r.DirFits)
      (nowhere : Unplaced path) : Stage a t (.check path cause below)
  | descend {ns : List String} {path : String} {above below : List String} (fits : r.DirFits)
      (leads : Leads cur a.loc ns path) (downs : Downs cur a.loc ns.dropLast above)
      (ups : Ups cur a.loc a.dirs ns below) : Stage a t (.descend path above below)
  | check {ns : List String} {path : String} {cause : FileError} {below : List String} (fits : r.DirFits)
      (leads : Leads cur a.loc ns path) (made : t.Made a.loc ns) (ups : Ups cur a.loc a.dirs ns below) :
      Stage a t (.check path cause below)
  | ascend {ns : List String} {below : List String} (fits : r.DirFits)
      (there : t.walk a.loc ns = .ok (a.loc ++ ns)) (ups : Ups cur a.loc a.dirs ns below) :
      Stage a t (.ascend below)

/-! ## Directories -/

section

variable {a : Aim cur r} {ns : List String}

theorem plain_of_isPrefix (a : Aim cur r) (h : ns <+: a.dirs) : ∀ n ∈ ns, PlainName n := by
  intro n hn
  exact a.plain n (List.mem_append_left _ (h.subset hn))

theorem target_eq (a : Aim cur r) : a.target = a.loc ++ a.dirs ++ [r.name] :=
  (List.append_assoc a.loc a.dirs [r.name]).symm

theorem prefix_target (h : ns <+: a.dirs) : a.loc ++ ns <+: a.target :=
  (List.prefix_append_right_inj _).2 (h.trans (List.prefix_append _ _))

theorem ne_target (h : ns <+: a.dirs) : a.loc ++ ns ≠ a.target := by
  intro he
  have hl := congrArg List.length (List.append_cancel_left he)
  have := h.length_le
  simp at hl
  omega

/-- The request makes no directory from its first entry on. -/
theorem not_makes_of_isPrefix (h : a.target <+: l) (s : FileTree) : ¬ a.Makes s l := by
  rintro ⟨-, -, ns, -, hns, rfl, -⟩
  have htarget := prefix_target hns
  exact ne_target hns (htarget.eq_of_length_le h.length_le)

end

variable {a : Aim cur r.entry} {ns : List String}

/-- Along the name of the file, everything is below the first entry or that entry itself. -/
theorem target_isPrefix (a : Aim cur r.entry) (hne : ns ≠ []) (hns : ns <+: partsOf r.name) :
    a.target <+: a.loc ++ a.dirs ++ ns := by
  obtain ⟨names, hnames⟩ := r.exists_partsOf_name
  obtain ⟨name, ns, rfl⟩ := List.exists_cons_of_ne_nil hne
  rw [hnames, List.cons_prefix_cons] at hns
  rw [hns.1, target_eq, List.prefix_append_right_inj]
  exact List.prefix_append [r.entry.name] ns

theorem target_isPrefix_inner (a : Aim cur r.entry) (hne : ns ≠ []) (hns : ns <+: r.inner) :
    a.target <+: a.loc ++ a.dirs ++ ns :=
  a.target_isPrefix hne (hns.trans (List.dropLast_prefix _))

theorem target_isPrefix_file (a : Aim cur r.entry) : a.target <+: a.file := by
  have hne : r.inner ++ [r.base] ≠ [] := List.append_ne_nil_of_right_ne_nil _ (List.cons_ne_nil _ _)
  rw [file, folder, List.append_assoc]
  exact a.target_isPrefix hne (r.partsOf_name ▸ List.prefix_rfl)

theorem onWay_of_isPrefix (ho : own a.target a.file) (h : ns <+: a.dirs) : OnWay own (a.loc ++ ns) :=
  ⟨a.target, a.file, ho, (prefix_target h).trans a.target_isPrefix_file⟩

/-- The ways are blocked where they were. -/
theorem Making.blocked (h : a.Making own s t) (ho : own a.target a.file) (hns : ns <+: a.dirs) :
    t.Blocked a.loc ns ↔ s.Blocked a.loc ns := by
  refine blocked_congr fun ms _ hms => ?_
  exact h.ways _ (onWay_of_isPrefix ho (hms.trans hns))

theorem Making.put (h : a.Making own s t) (ho : own a.target a.file) (hf : r.DirFits) (hns : ns <+: a.dirs)
    (hne : ns ≠ []) (hn : t.get? (a.loc ++ ns) = none) (hb : ¬ t.Blocked a.loc ns) :
    a.Making own s (t.put (a.loc ++ ns) .dir) := by
  have hloc : a.loc ++ ns ≠ [] := List.append_ne_nil_of_right_ne_nil _ hne
  refine ⟨h.current, fun p hp => ?_, fun p hp => ?_⟩
  · rw [get?_put hloc]
    split
    · next he =>
        subst he
        refine .inr ⟨⟨hf, ?_, ns, hne, hns, rfl, ?_⟩, rfl⟩
        · rcases h.held _ hp with hs | ⟨-, hd⟩
          · rw [← hs, hn]
          · rw [hn] at hd
            cases hd
        · rwa [← h.blocked ho hns]
    · exact h.held p hp
  · rw [holdsFile_put_dir hloc hn]
    exact h.ways p hp

theorem change_put (ho : own a.target a.file) (hns : ns <+: a.dirs) (hne : ns ≠ [])
    (hn : t.get? (a.loc ++ ns) = none) : Change own t (t.put (a.loc ++ ns) .dir) :=
  .dir (List.append_ne_nil_of_right_ne_nil _ hne) hn ho (prefix_target hns) (ne_target hns)

/-- All directories that can be made have been made, up to a block. -/
theorem Making.made (h : a.Making own s t) (ho : own a.target a.file) (hm : t.Made a.loc ns)
    (hns : ns <+: a.dirs) (hd : ns = a.dirs ∨ s.Blocked a.loc ns) (hp : a.Makes s p) :
    t.get? p = some .dir := by
  obtain ⟨-, -, ms, hne, hms, rfl, hb⟩ := hp
  have hmn : ms <+: ns := by
    rcases hd with rfl | hd
    · exact hms
    · rcases List.prefix_or_prefix_of_prefix hms hns with hs | ⟨rest, rfl⟩
      · exact hs
      · exact absurd ((blocked_append s a.loc ns rest).2 (.inl hd)) hb
  have hw := hm ms hmn (mt (h.blocked ho hms).1 hb)
  rcases List.eq_nil_or_concat ms with rfl | ⟨before, name, rfl⟩
  · exact absurd rfl hne
  · rw [List.concat_eq_append] at hms hw ⊢
    have hpl := a.plain_of_isPrefix hms
    rw [← List.append_assoc]
    exact get?_of_walk (hpl name (List.mem_append_right before List.mem_cons_self)) hw
      fun n hn => hpl n (List.mem_append_left [name] hn)

theorem Making.failed (h : a.Making own s t) (hn : ¬ a.Succeeds s)
    (hm : ∀ p, a.Makes s p → t.get? p = some .dir) {cause : StoreError} :
    a.Done own s t (.error cause) := by
  refine ⟨h.current, iff_of_false nofun hn, fun hs => absurd hs hn, fun p _ hp => hm p hp, ?_, ?_⟩
  · intro p ho hp _
    rcases h.held p ho with he | ⟨hp', -⟩
    · exact he
    · exact absurd hp' hp
  · intro p hp _
    exact h.ways p hp

/-! ## Operations -/

variable {a : Aim s.current r.entry}

/-- How far the request has come, beginning with `s`. -/
inductive Progress (own : Targets) (a : Aim s.current r.entry) (t : FileTree) : Writing → Prop where
  | making {w : Writing} (making : a.Making own s t) (stage : a.Stage t w) : Progress own a t w
  | done {result : Except StoreError String} (done : a.Done own s t result) :
      Progress own a t (.finished result)

theorem progress_start (a : Aim s.current r.entry) (h : Agree own s t) :
    a.Progress own t (Writing.start r) := by
  refine .making ⟨h.current, fun l hl => .inl (h.held l hl), h.ways⟩ ?_
  rw [Writing.start]
  by_cases hd : r.dir = ""
  · rw [if_pos (by simpa using hd)]
    rcases a.dir with ⟨-, hn⟩ | ⟨hne, -⟩
    · have hu : Ups s.current a.loc a.dirs [] [] := by
        rw [hn]
        exact .done
      exact .ascend (.inl hd) (by rw [walk, List.append_nil]) hu
    · exact absurd hd hne
  · rw [if_neg (by simpa using hd)]
    rcases a.dir with ⟨he, -⟩ | ⟨-, hl⟩
    · exact absurd he hd
    · by_cases hf : Fits r.dir
      · exact .descend (.inr hf) (hl hf).1 (hl hf).2 .done
      · exact .lost (not_or.2 ⟨hd, hf⟩) (unplaced_of_not_fits hd hf)

def Steps (own : Targets) (a : Aim s.current r.entry) (t : FileTree) (w : Writing) : Prop :=
  Change own t (Writing.step .append r t w).1 ∧
    a.Progress own (Writing.step .append r t w).1 (Writing.step .append r t w).2

theorem steps_of_stage (h : a.Making own s t) {w' : Writing}
    (he : Writing.step .append r t w = (t, w')) (hs : a.Stage t w') : a.Steps own t w := by
  rw [Steps, he]
  exact ⟨.none, .making h hs⟩

theorem steps_of_put (h : a.Making own s t) (ho : own a.target a.file) {w' : Writing} (hf : r.DirFits)
    (hns : ns <+: a.dirs) (hne : ns ≠ []) (hn : t.get? (a.loc ++ ns) = none) (hb : ¬ t.Blocked a.loc ns)
    (he : Writing.step .append r t w = (t.put (a.loc ++ ns) .dir, w'))
    (hs : a.Stage (t.put (a.loc ++ ns) .dir) w') : a.Steps own t w := by
  rw [Steps, he]
  exact ⟨change_put ho hns hne hn, .making (h.put ho hf hns hne hn hb) hs⟩

theorem steps_descend (h : a.Making own s t) (ho : own a.target a.file) {path : String}
    {above below : List String} (hf : r.DirFits) (hl : Leads s.current a.loc ns path)
    (hd : Downs s.current a.loc ns.dropLast above) (hu : Ups s.current a.loc a.dirs ns below) :
    a.Steps own t (.descend path above below) := by
  have hns := hu.isPrefix
  rcases makeDir_outcome (a.plain_of_isPrefix hns) hl h.current with
    ⟨hm, hne, hn, hb, hw⟩ | ⟨hm, before, name, rfl, hw⟩ | ⟨cause, hc, hm, hmade⟩
  · exact steps_of_put h ho hf hns hne hn hb (Writing.step_descend_of_ok hm) (.ascend hf hw hu)
  · rw [List.dropLast_concat] at hd
    cases hd with
    | root => cases hw
    | @next ns' name' path' above' leads others =>
        have hs : a.Stage t (.descend path' above' (path :: below)) := by
          refine .descend hf leads ?_ (.next hl hu)
          rwa [List.dropLast_concat]
        exact steps_of_stage h (by simp only [Writing.step, hm]) hs
  · exact steps_of_stage h (Writing.step_descend_of_error hm hc) (.check hf hl hmade hu)

theorem steps_ascend (h : a.Making own s t) (ho : own a.target a.file) {path : String} {below : List String}
    (hf : r.DirFits) (hw : t.walk a.loc ns = .ok (a.loc ++ ns))
    (hu : Ups s.current a.loc a.dirs ns (path :: below)) : a.Steps own t (.ascend (path :: below)) := by
  cases hu with
  | @next _ name _ _ leads others =>
      have hns := others.isPrefix
      rcases makeDir_outcome (a.plain_of_isPrefix hns) leads h.current with
        ⟨hm, hne, hn, hb, hw'⟩ | ⟨hm, before, name', he, hw'⟩ | ⟨cause, hc, hm, hmade⟩
      · exact steps_of_put h ho hf hns hne hn hb (by rw [Writing.step, hm]) (.ascend hf hw' others)
      · cases (List.append_inj' he rfl).1
        rw [hw] at hw'
        cases hw'
      · exact steps_of_stage h (by rw [Writing.step, hm]) (.check hf leads hmade others)

theorem steps_check (h : a.Making own s t) (ho : own a.target a.file) {path : String} {cause : FileError}
    {below : List String} (hf : r.DirFits) (hl : Leads s.current a.loc ns path) (hm : t.Made a.loc ns)
    (hu : Ups s.current a.loc a.dirs ns below) : a.Steps own t (.check path cause below) := by
  have hns := hu.isPrefix
  have hdir := isDir_of_leads (a.plain_of_isPrefix hns) hl h.current
  by_cases hb : t.Blocked a.loc ns
  -- The way is blocked in `s` too, for nobody makes or removes a file on it.
  · have hnd : ¬ t.isDir path = true := fun hd =>
      not_blocked_of_walk (a.plain_of_isPrefix hns) (hdir.1 hd) hb
    rw [Steps, Writing.step, if_neg hnd]
    have hbs := (h.blocked ho hns).1 hb
    refine ⟨.none, .done (h.failed ?_ fun p hp => h.made ho hm hns (.inr hbs) hp)⟩
    rintro ⟨-, hn, -⟩
    obtain ⟨rest, hr⟩ := hns
    rw [← hr, blocked_append] at hn
    exact hn (.inl hbs)
  · have hw := hm ns List.prefix_rfl hb
    refine steps_of_stage h (by rw [Writing.step, if_pos (hdir.2 hw)]) (.ascend hf hw hu)

theorem steps_lostCheck (h : a.Making own s t) {path : String} {cause : FileError} {below : List String}
    (hf : ¬ r.DirFits) (hp : Unplaced path) : a.Steps own t (.check path cause below) := by
  rw [Steps, Writing.step, hp.isDir t, if_neg Bool.false_ne_true]
  exact ⟨.none, .done (h.failed (fun hs => hf hs.1) fun p hm => absurd hm.1 hf)⟩

/-- From its first entry on, what the request needs is as it was. -/
theorem Making.get?_of_isPrefix (h : a.Making own s t) (ho : own a.target a.file) (htarget : a.target <+: l)
    (hfile : l <+: a.file) : t.get? l = s.get? l := by
  rcases h.held l ⟨a.target, a.file, ho, htarget, hfile⟩ with he | ⟨hm, -⟩
  · exact he
  · exact absurd hm (not_makes_of_isPrefix htarget s)

theorem Making.walk_inner (h : a.Making own s t) (hr : a.ReachesFile) (ho : own a.target a.file) :
    t.walk (a.loc ++ a.dirs) r.inner = s.walk (a.loc ++ a.dirs) r.inner := by
  refine walk_congr hr.plain fun ns hne hns => h.get?_of_isPrefix ho (a.target_isPrefix_inner hne hns) ?_
  rw [file, folder, List.append_assoc (a.loc ++ a.dirs), List.prefix_append_right_inj]
  exact hns.trans (List.prefix_append _ _)

theorem change_file (h : a.Making own s t) (hr : a.ReachesFile)
    (hw : t.walk a.loc a.dirs = .ok (a.loc ++ a.dirs)) (edit : ByteArray → ByteArray) :
    t.change r.path edit = .ok t' ↔ Fits r.path ∧ t.walk (a.loc ++ a.dirs) r.inner = .ok a.folder ∧
      r.base.utf8ByteSize ≤ maxName ∧ t.get? a.file ≠ some .dir ∧
        t' = t.put a.file (.file (edit (t.contentAt a.file))) := by
  rw [change_eq_ok]
  by_cases hf : Fits r.path
  · rw [hr.path.place hf t h.current, placeOf_concat, walk_append, hw]
    simp only [Except.bind]
    cases hi : t.walk (a.loc ++ a.dirs) r.inner with
    | error cause => simp
    | ok parent =>
        obtain rfl : parent = a.folder := walk_eq hr.plain hi
        by_cases hl : maxName < r.base.utf8ByteSize
        · simp [if_pos hl, Nat.not_le.2 hl]
        · simp [if_neg hl, Nat.not_lt.1 hl, hf, file]
  · obtain ⟨cause, -, hp⟩ := unplaced_of_not_fits hr.path.ne_empty hf
    simp [hp t, hf]

theorem steps_finish (h : a.Making own s t) (hr : a.ReachesFile) (ho : own a.target a.file) (hf : r.DirFits)
    (hw : t.walk a.loc a.dirs = .ok (a.loc ++ a.dirs)) : a.Steps own t (.ascend []) := by
  have hb : ¬ s.Blocked a.loc a.dirs := by
    rw [← h.blocked ho List.prefix_rfl]
    exact not_blocked_of_walk (a.plain_of_isPrefix List.prefix_rfl) hw
  have hmade (p : Location) (hp : a.Makes s p) : t.get? p = some .dir :=
    h.made ho (made_of_walk (a.plain_of_isPrefix List.prefix_rfl) hw) List.prefix_rfl (.inl rfl) hp
  have hget := h.get?_of_isPrefix ho a.target_isPrefix_file List.prefix_rfl
  have hinner := h.walk_inner hr ho
  have hne : a.file ≠ [] := by simp [file]
  rw [Steps, Writing.step, Writing.finish, Writing.fill, storeFile, append]
  cases hc : t.change r.path (· ++ (r.content ++ "\n").toUTF8) with
  | error cause =>
      refine ⟨.none, .done (h.failed ?_ hmade)⟩
      rintro ⟨-, -, hp, hi, hl, hd⟩
      rw [(change_file h hr hw _).2 ⟨hp, hinner ▸ hi, hl, hget ▸ hd, rfl⟩] at hc
      cases hc
  | ok t' =>
      obtain ⟨hp, hi, hl, hd, rfl⟩ := (change_file h hr hw _).1 hc
      have hs : a.Succeeds s := ⟨hf, hb, hp, hinner ▸ hi, hl, hget ▸ hd⟩
      refine ⟨.file _ hne ho hd, .done ⟨h.current, iff_of_true rfl hs, fun _ => ?_, ?_, ?_, ?_⟩⟩
      · rw [get?_put hne, if_pos rfl, contentAt, contentAt, hget]
      · intro l _ hm
        rw [get?_put hne, if_neg]
        · exact hmade l hm
        · rintro rfl
          exact not_makes_of_isPrefix a.target_isPrefix_file s hm
      · intro l hl hm hne'
        rw [get?_put hne, if_neg (hne' hs)]
        rcases h.held l hl with he | ⟨hm', -⟩
        · exact he
        · exact absurd hm' hm
      · intro l hl hne'
        refine (holdsFile_congr ?_).trans (h.ways l hl)
        rw [get?_put hne, if_neg hne']

/-- **Each operation only makes directories above targets or writes a target, and goes on with the request.** -/
theorem Progress.steps (h : a.Progress own t w) (hr : a.ReachesFile) (ho : own a.target a.file) :
    a.Steps own t w := by
  cases h with
  | done hd => exact ⟨.none, .done hd⟩
  | making hm stage =>
      cases stage with
      | lost unfit nowhere =>
          obtain ⟨cause, hc, he⟩ := nowhere.makeDir t
          exact steps_of_stage hm (Writing.step_descend_of_error he hc) (.lostCheck unfit nowhere)
      | lostCheck unfit nowhere => exact steps_lostCheck hm unfit nowhere
      | descend fits leads downs ups => exact steps_descend hm ho fits leads downs ups
      | check fits leads made ups => exact steps_check hm ho fits leads made ups
      | @ascend ns below fits there ups =>
          cases below with
          | cons path below => exact steps_ascend hm ho fits there ups
          | nil =>
              cases ups
              exact steps_finish hm hr ho fits there

/-! ## Others have a turn -/

theorem Stage.keep (h : a.Stage t w) (ho : own a.target a.file) (hk : t.KeepsDirs t') (hg : Agree own t t') :
    a.Stage t' w := by
  cases h with
  | lost unfit nowhere => exact .lost unfit nowhere
  | lostCheck unfit nowhere => exact .lostCheck unfit nowhere
  | descend fits leads downs ups => exact .descend fits leads downs ups
  | @check ns path cause below fits leads made ups =>
      refine .check fits leads ?_ ups
      intro ms hms hb
      refine hk.walk (made ms hms ?_)
      rwa [← blocked_congr fun ls _ hls => hg.ways _ (onWay_of_isPrefix ho ((hls.trans hms).trans ups.isPrefix))]
  | ascend fits there ups => exact .ascend fits (hk.walk there) ups

theorem Progress.keep (h : a.Progress own t w) (ho : own a.target a.file) (hk : t.KeepsDirs t')
    (hg : Agree own t t') : a.Progress own t' w := by
  cases h with
  | making hm stage =>
      refine .making ⟨hg.current.trans hm.current, fun l hl => ?_, fun p hp => ?_⟩ (stage.keep ho hk hg)
      · rw [hg.held l hl]
        exact hm.held l hl
      · exact (hg.ways p hp).trans (hm.ways p hp)
  | done hd =>
      refine .done ⟨hg.current.trans hd.current, hd.isOk, fun hs => ?_, fun l hl hm => ?_,
        fun l hl hm hs => ?_, fun p hp hn => (hg.ways p hp).trans (hd.ways p hp hn)⟩
      · rw [hg.held _ ⟨_, _, ho, a.target_isPrefix_file, List.prefix_rfl⟩]
        exact hd.written hs
      · rw [hg.held l hl]
        exact hd.made l hl hm
      · rw [hg.held l hl]
        exact hd.kept l hl hm hs

/-! ## The end -/

/-- The end of a request depends on the beginning alone. -/
theorem Done.agree {result' : Except StoreError String} (h : a.Done own s t result)
    (h' : a.Done own s t' result') (ho : own a.target a.file) : Agree own t t' := by
  have hheld : ∀ l, Held own l → t'.get? l = t.get? l := by
    intro l hl
    -- What is held is a directory that the request makes, the file that it writes, or as it was.
    by_cases hm : a.Makes s l
    · rw [h'.made l hl hm, h.made l hl hm]
    · by_cases hs : a.Succeeds s ∧ l = a.file
      · obtain ⟨hs, rfl⟩ := hs
        rw [h'.written hs, h.written hs]
      · rw [not_and] at hs
        rw [h'.kept l hl hm hs, h.kept l hl hm hs]
  refine ⟨h'.current.trans h.current.symm, hheld, fun l hl => ?_⟩
  by_cases he : l = a.file
  · subst he
    exact holdsFile_congr (hheld _ ⟨_, _, ho, a.target_isPrefix_file, List.prefix_rfl⟩)
  · rw [h'.ways l hl he, h.ways l hl he]

theorem progress_alone (hr : a.ReachesFile) (ho : own a.target a.file) {q q' : FileTree × Writing}
    (h : Writing.Alone .append r q q') (hq : a.Progress own q.1 q.2) : a.Progress own q'.1 q'.2 := by
  induction h with
  | refl => exact hq
  | tail _ he ih =>
      subst he
      exact (ih.steps hr ho).2

theorem Progress.finished (h : a.Progress own t (.finished result)) (hr : a.ReachesFile)
    (ho : own a.target a.file) :
    Agree own (s.store .append r).1 t ∧ result.isOk = (s.store .append r).2.isOk := by
  have hs : a.Progress own (s.store .append r).1 (.finished (s.store .append r).2) :=
    progress_alone hr ho (Writing.alone_store .append r s) (progress_start a (.refl own s))
  cases h with
  | making hm stage => cases stage
  | done hd =>
      cases hs with
      | making hm stage => cases stage
      | done hd' => exact ⟨hd'.agree hd ho, Bool.eq_iff_iff.2 (hd.isOk.trans hd'.isOk.symm)⟩

end Aim

/-! ## Requests -/

/-- A request is under way: it began with `s`, and the tree is now `t`. -/
def Appending (own : Targets) (r : WriteRequest) (s t : FileTree) (w : Writing) : Prop :=
  ∃ a : Aim s.current r.entry, a.ReachesFile ∧ own a.target a.file ∧ a.Progress own t w

section

variable {absolute : Bool} {path name : String}

theorem Aim.locate_of_hasParts {a : Aim s.current r.entry} (hloc : a.loc = FileTree.base s.current absolute)
    (h : HasParts path absolute (a.dirs ++ r.inner ++ [name]) false) : s.locate path = a.folder ++ [name] := by
  rw [h.locate, Aim.folder, hloc]
  simp only [List.append_assoc]

theorem Aim.holds_of_hasParts {a : Aim cur r.entry} (hloc : a.loc = FileTree.base cur absolute)
    (h : HasParts path absolute (a.dirs ++ r.inner ++ [name]) false) : a.Holds path name := by
  refine ⟨h.ne_empty, fun hf t hc => ?_⟩
  rw [h.place hf, hc, hloc]

theorem Aim.reachesFile_of_hasParts {a : Aim cur r.entry} (hloc : a.loc = FileTree.base cur absolute)
    (h : HasParts r.path absolute (a.dirs ++ r.inner ++ [r.base]) false) : a.ReachesFile := by
  refine ⟨fun n hn => h.plain n ?_, holds_of_hasParts hloc h⟩
  exact List.mem_append_left _ (List.mem_append_right _ hn)

end

/-- The entry up to which a request that descends makes directories, and its file. -/
theorem WriteRequest.Descends.exists_reachesFile (h : r.Descends) (s : FileTree) :
    ∃ a : Aim s.current r.entry, a.ReachesFile ∧ s.locate r.entry.path = a.target ∧ s.locate r.path = a.file := by
  obtain ⟨absolute, a, hloc, hentry, hpath⟩ := h.exists_aim s.current
  refine ⟨a, Aim.reachesFile_of_hasParts hloc hpath, ?_, Aim.locate_of_hasParts hloc hpath⟩
  rw [hentry.locate, Aim.target, hloc]

theorem WriteRequest.Descends.locate_entry_isPrefix (h : r.Descends) (s : FileTree) :
    s.locate r.entry.path <+: s.locate r.path := by
  obtain ⟨a, -, htarget, hfile⟩ := h.exists_reachesFile s
  rw [htarget, hfile]
  exact a.target_isPrefix_file

theorem appending_start (hr : r.Descends) (ho : own (s.locate r.entry.path) (s.locate r.path))
    (h : Agree own s t) : Appending own r s t (Writing.start r) := by
  obtain ⟨a, hreaches, htarget, hfile⟩ := hr.exists_reachesFile s
  rw [htarget, hfile] at ho
  exact ⟨a, hreaches, ho, a.progress_start h⟩

theorem Appending.step (h : Appending own r s t w) :
    Change own t (Writing.step .append r t w).1 ∧
      Appending own r s (Writing.step .append r t w).1 (Writing.step .append r t w).2 := by
  obtain ⟨a, hr, ho, hp⟩ := h
  obtain ⟨hc, hp⟩ := hp.steps hr ho
  exact ⟨hc, a, hr, ho, hp⟩

theorem Appending.keep (h : Appending own r s t w) (hk : t.KeepsDirs t') (hg : Agree own t t') :
    Appending own r s t' w := by
  obtain ⟨a, hr, ho, hp⟩ := h
  exact ⟨a, hr, ho, hp.keep ho hk hg⟩

/-- **A request that is finished has done what it does at once.** -/
theorem Appending.finished (h : Appending own r s t (.finished result)) :
    Agree own (s.store .append r).1 t ∧ result.isOk = (s.store .append r).2.isOk := by
  obtain ⟨a, hr, ho, hp⟩ := h
  exact hp.finished hr ho

end FeedFiler
