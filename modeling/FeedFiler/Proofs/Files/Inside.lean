import FeedFiler.Proofs.Files.Rotating
import FeedFiler.Proofs.Files.Writing

/-!
# Writes inside a directory

A name without a slash names an entry of the directory that it is joined with. A request with such a name
makes the directory, and beyond that it touches nothing but the file, the version before and what stands
below one of them.
-/

namespace FeedFiler.FileTree

variable {t t' : FileTree} {cur loc l : Location} {above : List String} {dir name path other : String}
  {slash : Bool}

/-! ## Where a directory is -/

/-- Where the path of a directory begins. The empty path is the current directory. -/
def startOfDir (cur : Location) (dir : String) : Location := if dir = "" then cur else startOf cur dir

/-- The path leads to the directory at the location. -/
def DirAt (t : FileTree) (dir : String) (loc : Location) : Prop :=
  if dir = "" then loc = t.current else t.walk (startOf t.current dir) (partsOf dir) = .ok loc

theorem walk_blank {names : List String} (h : ∀ n ∈ names, n = "") : t.walk loc names = .ok loc := by
  induction names with
  | nil => rfl
  | cons name names ih =>
      rw [List.forall_mem_cons] at h
      rw [walk, if_pos (.inl h.1), ih h.2]

theorem walk_append_blank {names blanks : List String} (h : ∀ n ∈ blanks, n = "") :
    t.walk loc (names ++ blanks) = t.walk loc names := by
  rw [walk_append]
  cases t.walk loc names with
  | error cause => rfl
  | ok l => exact walk_blank h

theorem dirAt_iff (h : DirParts dir above) :
    t.DirAt dir loc ↔ t.walk (startOfDir t.current dir) above = .ok loc := by
  rw [DirAt, startOfDir]
  rcases h with ⟨rfl, rfl⟩ | ⟨hd, slash, hparts⟩
  · simp [walk, eq_comm]
  · have hblank : ∀ n ∈ front slash, n = "" := by cases slash <;> simp [front]
    rw [if_neg hd, if_neg hd, hparts, walk_append_blank hblank]

/-- What the path of a directory leads to does not depend on the tree, as long as it leads anywhere. -/
theorem DirAt.unique (h : t.DirAt dir loc) (hc : t'.current = t.current) (h' : t'.DirAt dir l) : l = loc := by
  rw [DirAt] at h h'
  by_cases hd : dir = ""
  · rw [if_pos hd] at h h'
    rw [h, h', hc]
  · rw [if_neg hd] at h h'
    rw [hc] at h'
    exact walk_unique h' h

/-- The last part of a path that is not blank, between the parts before it and the blank ones. -/
theorem exists_blanks {last : String} {before : List String}
    (h : (partsOf path).reverse.dropWhile (· = "") = last :: before) :
    ∃ blanks, (∀ part ∈ blanks, part = "") ∧ last ≠ "" ∧ partsOf path = before.reverse ++ last :: blanks := by
  refine ⟨((partsOf path).reverse.takeWhile (· = "")).reverse, fun part hm => ?_, ?_, ?_⟩
  · simpa using List.mem_takeWhile_imp (List.mem_reverse.1 hm)
  · have := List.head?_dropWhile_not (fun part => decide (part = "")) (partsOf path).reverse
    rw [h] at this
    simpa using this
  · rw [← List.reverse_inj]
    simp only [List.reverse_append, List.reverse_cons, List.reverse_reverse, List.append_assoc]
    rw [List.singleton_append, ← h, List.takeWhile_append_dropWhile]

/-- A path that names an entry leads to it if it is a directory. -/
theorem walk_of_place (h : t.place path = .ok (.entry loc slash)) (hd : t.get? loc = some .dir) :
    t.walk (startOf t.current path) (partsOf path) = .ok loc := by
  obtain ⟨last, before, parent, hdrop, -, hdot, hdots, hw, hl, rfl⟩ := exists_of_place h
  obtain ⟨blanks, hblank, hlast, hparts⟩ := exists_blanks hdrop
  rw [hparts, ← List.singleton_append, ← List.append_assoc, walk_append_blank hblank, walk_append, hw,
    Except.bind, walk_cons ⟨hlast, hdot, hdots⟩, if_neg (Nat.not_lt.2 hl), hd]
  rfl

theorem walk_of_known (h : t.place path = .ok (.known loc)) :
    t.walk (startOf t.current path) (partsOf path) = .ok loc := by
  have hne : path ≠ "" := by
    rintro rfl
    cases h
  rw [place_of_fits (fits_of_place h) hne, ← startOf_eq] at h
  split at h
  · next hd =>
      cases h
      exact walk_blank fun n hn => by simpa using List.dropWhile_eq_nil_iff.1 hd n (List.mem_reverse.2 hn)
  · next last before hd =>
      split at h
      · cases hw : t.walk (startOf t.current path) (partsOf path) <;> rw [hw] at h <;> cases h
        rfl
      · -- A path that ends in a plain name does not name a directory that is known to exist.
        cases hw : t.walk (startOf t.current path) before.reverse with
        | error cause =>
            rw [hw] at h
            cases h
        | ok parent =>
            rw [hw, Except.bind] at h
            split at h <;> cases h

theorem dirAt_of_isDir (h : t.isDir path = true) : ∃ loc, t.DirAt path loc := by
  have hne : path ≠ "" := by
    rintro rfl
    cases h
  simp only [DirAt, if_neg hne]
  cases hp : t.place path with
  | error cause =>
      rw [isDir, hp] at h
      cases h
  | ok p =>
      cases p with
      | known loc => exact ⟨loc, walk_of_known hp⟩
      | entry loc slash => exact ⟨loc, walk_of_place hp ((isDir_of_place hp).1 h)⟩

/-! ## Making the directory -/

theorem isDir_of_makeDir (h : t.makeDir path = .ok t') : t'.isDir path = true := by
  obtain ⟨loc, slash, hp, hn, rfl⟩ := makeDir_eq_ok.1 h
  have hne := place_entry_ne_nil hp
  refine (isDir_of_place ((addsDirs_of_makeDir h).place hp)).2 ?_
  rw [get?_put hne, if_pos rfl]

theorem isDir_of_settle (h : (Writing.settle t path).2 = .ok ()) : (Writing.settle t path).1.isDir path = true := by
  rw [Writing.settle] at h ⊢
  split at h
  · next hm => exact isDir_of_makeDir hm
  · by_contra hd
    rw [if_neg hd] at h
    cases h

theorem isDir_of_makeChain {paths : List String} (h : (t.makeChain (path :: paths)).2 = .ok ()) :
    (t.makeChain (path :: paths)).1.isDir path = true := by
  rw [Writing.makeChain_cons] at h ⊢
  split at h
  · split at h
    · exact isDir_of_settle h
    · cases h
  · exact isDir_of_settle h

theorem dirAt_of_makeDirs (h : (t.makeDirs dir).2 = .ok ()) : ∃ loc, (t.makeDirs dir).1.DirAt dir loc := by
  rw [makeDirs] at h ⊢
  split at h
  · next hd => exact ⟨t.current, by rw [if_pos hd, DirAt, if_pos (by simpa using hd)]⟩
  · next hd =>
      rw [if_neg hd]
      exact dirAt_of_isDir (isDir_of_makeChain h)

/-! ## Elsewhere nothing changes -/

theorem remove_elsewhere (h : t.remove path = .ok t') :
    t'.get? l = t.get? l ∨ t.place path = .ok (.entry l false) := by
  obtain ⟨loc, content, hp, -, rfl⟩ := remove_eq_ok.1 h
  rw [get?_drop (place_entry_ne_nil hp)]
  by_cases hl : l = loc
  · exact .inr (hl ▸ hp)
  · exact .inl (if_neg hl)

/-- The entries that go to a location. -/
def landing (dest : Location → Location) (l : Location) (item : Location × FileNode) : Option FileNode :=
  if dest item.1 = l then some item.2 else none

/-- Of several entries that go to one location the last one stays. -/
theorem getElem?_ofList_map (dest : Location → Location) (items : List (Location × FileNode)) :
    (Std.ExtTreeMap.ofList (items.map fun item => (dest item.1, item.2)))[l]? =
      (items.filterMap (landing dest l)).getLast? := by
  rw [Std.ExtTreeMap.ofList_eq_insertMany_empty, Std.ExtTreeMap.getElem?_insertMany_list,
    Std.ExtTreeMap.getElem?_empty, Option.or_none, List.findSomeRev?_eq_findSome?_reverse,
    ← List.head?_filterMap, List.filterMap_reverse, List.head?_reverse, List.filterMap_map]
  simp only [Std.LawfulEqOrd.compare_eq_iff_eq]
  rfl

theorem ofList_toList (entries : Std.ExtTreeMap Location FileNode) : .ofList entries.toList = entries := by
  refine Std.ExtTreeMap.ext_getElem? fun l => ?_
  cases h : entries[l]? with
  | some node =>
      rw [← Std.ExtTreeMap.mem_toList_iff_getElem?_eq_some] at h
      exact Std.ExtTreeMap.getElem?_ofList_of_mem Std.ReflCmp.compare_self Std.ExtTreeMap.distinct_keys_toList h
  | none =>
      refine Std.ExtTreeMap.getElem?_ofList_of_contains_eq_false ?_
      rw [← Bool.not_eq_true, List.contains_iff_mem]
      intro hm
      obtain ⟨item, hitem, rfl⟩ := List.mem_map.1 hm
      have hsome := Std.ExtTreeMap.mem_toList_iff_getElem?_eq_some.1 hitem
      rw [h] at hsome
      cases hsome

def destination (source target l : Location) : Location :=
  if source.isPrefixOf l then target ++ l.drop source.length else l

theorem getElem?_move (t : FileTree) (source target : Location) : (t.move source target).entries[l]? =
    ((t.drop target).entries.toList.filterMap (landing (destination source target) l)).getLast? :=
  getElem?_ofList_map (destination source target) _

theorem getElem?_move_elsewhere {source target : Location} (hs : ¬ source <+: l) (ht : ¬ target <+: l) :
    (t.move source target).entries[l]? = t.entries[l]? := by
  have hstay : landing (destination source target) l = landing id l := by
    funext item
    have : destination source target item.1 = l ↔ item.1 = l := by
      rw [destination]
      split
      · next hsource =>
          refine iff_of_false (fun he => ht ⟨_, he⟩) ?_
          rintro rfl
          exact hs (List.isPrefixOf_iff_prefix.1 hsource)
      · exact .rfl
    simp only [landing, this, id]
  have hlist := getElem?_ofList_map (l := l) id (t.drop target).entries.toList
  rw [show (fun item : Location × FileNode => (id item.1, item.2)) = id from rfl, List.map_id, ofList_toList]
    at hlist
  rw [getElem?_move, hstay, ← hlist, getElem?_drop, if_neg]
  rintro rfl
  exact ht List.prefix_rfl

theorem get?_move_elsewhere {source target : Location} (hs : ¬ source <+: l) (ht : ¬ target <+: l) :
    (t.move source target).get? l = t.get? l := by
  rw [get?, get?, getElem?_move_elsewhere hs ht]

theorem rename_elsewhere (h : t.rename path other = .ok t') :
    ∃ source slash target slash', t.place path = .ok (.entry source slash) ∧
      t.place other = .ok (.entry target slash') ∧
        (slash = true → t.get? source = some .dir ∧ (source <+: target → source = target)) ∧
          ∀ l, ¬ source <+: l → ¬ target <+: l → t'.get? l = t.get? l := by
  obtain ⟨source, slash, target, slash', hs, ht, hcase⟩ := rename_inv h
  refine ⟨source, slash, target, slash', hs, ht, fun hslash => ?_, fun l hls hlt => ?_⟩
  · rcases hcase with ⟨content, hno, -⟩ | ⟨hd, hinto, -⟩
    · rw [hslash] at hno
      cases hno
    · exact ⟨hd, hinto⟩
  · rcases hcase with ⟨content, -, -, -, rfl⟩ | ⟨-, -, ⟨rfl, -⟩ | ⟨rfl, -⟩⟩
    · rw [get?_put (place_entry_ne_nil ht), get?_drop (place_entry_ne_nil hs), if_neg, if_neg]
      · exact fun he => hls (he ▸ List.prefix_rfl)
      · exact fun he => hlt (he ▸ List.prefix_rfl)
    · rfl
    · exact get?_move_elsewhere hls hlt

/-! ## Entries of the directory -/

/-- At or below the entries of a directory that a name and its version before name. -/
def Inside (loc : Location) (name : String) (l : Location) : Prop :=
  loc ++ [name] <+: l ∨ loc ++ [prevPath name] <+: l

theorem ne_empty_of_place {p : Place} (h : t.place path = .ok p) : path ≠ "" := by
  rintro rfl
  cases h

theorem plainName_of_place (hp : partsOf path = above ++ [name]) (h : t.place path = .ok (.entry l false)) :
    PlainName name := by
  obtain ⟨names, last, parent, hparts, hn, -⟩ := exists_of_place_noSlash h
  obtain ⟨-, hlast⟩ := List.append_inj' (hparts.symm.trans hp) rfl
  exact List.singleton_inj.1 hlast ▸ hn

section Child

variable (hdir : DirParts dir above) (hparts : partsOf path = above ++ [name])
include hdir hparts

theorem startOf_of_dirParts (hne : path ≠ "") : startOf cur path = startOfDir cur dir := by
  rw [startOfDir, startOf_eq, hparts]
  rcases hdir with ⟨rfl, rfl⟩ | ⟨hd, slash, hp⟩
  · have hpath : path = name := by
      rw [← intercalate_partsOf path, hparts]
      exact String.intercalate_singleton
    rw [if_pos rfl, if_neg]
    simpa [← hpath] using hne
  · rw [if_neg hd, startOf_eq, hp]
    cases above with
    | cons first above => rfl
    | nil =>
        -- A path without parts in front of its last slash is empty.
        exfalso
        refine hd ?_
        rw [← intercalate_partsOf dir, hp]
        cases slash with
        | false => rfl
        | true => exact String.intercalate_singleton

theorem walk_above (hat : t.DirAt dir loc) (hne : path ≠ "") :
    t.walk (startOf t.current path) above = .ok loc := by
  rw [startOf_of_dirParts hdir hparts hne]
  exact (dirAt_iff hdir).1 hat

/-- What the joined path names is the entry of the directory with that name. -/
theorem eq_of_place (hat : t.DirAt dir loc) (hc : t'.current = t.current) (hn : name ≠ "")
    (h : t'.place path = .ok (.entry l slash)) : slash = false ∧ PlainName name ∧ l = loc ++ [name] := by
  obtain ⟨last, before, parent, hdrop, hslash, hdot, hdots, hw, -, rfl⟩ := exists_of_place h
  have hrev : (partsOf path).reverse = name :: above.reverse := by simp [hparts]
  rw [hrev, List.dropWhile_cons_of_neg (by simpa using hn)] at hdrop
  rw [hrev, List.takeWhile_cons_of_neg (by simpa using hn)] at hslash
  obtain ⟨rfl, rfl⟩ := List.cons.inj hdrop
  rw [List.reverse_reverse, hc] at hw
  rw [walk_unique hw (walk_above hdir hparts hat (ne_empty_of_place h))]
  exact ⟨hslash, ⟨hn, hdot, hdots⟩, rfl⟩

/-- A directory cannot become the version before of an empty name, for that would stand in itself. -/
theorem name_ne_empty_of_rename (hat : t.DirAt dir loc) (h : t.rename path (prevPath path) = .ok t') :
    name ≠ "" := by
  rintro rfl
  obtain ⟨source, slash, target, slash', hs, ht, hinto, -⟩ := rename_elsewhere h
  have hslash : slash = true := by
    obtain ⟨-, -, -, -, hslash, -⟩ := exists_of_place hs
    rw [hslash, hparts]
    simp
  have hsource : source = loc := by
    have hw := walk_of_place hs (hinto hslash).1
    rw [hparts, walk_append_blank (by simp)] at hw
    exact walk_unique hw (walk_above hdir hparts hat (ne_empty_of_place hs))
  have htarget := (eq_of_place hdir (partsOf_prevPath hparts) hat rfl (plainName_prevPath "").1 ht).2.2
  have hne := (hinto hslash).2 ⟨[prevPath ""], by rw [hsource, htarget]⟩
  rw [hsource, htarget] at hne
  simp at hne

theorem get?_rotate_elsewhere (hat : t.DirAt dir loc) (hl : ¬ Inside loc name l) :
    (t.rotate path).get? l = t.get? l := by
  rw [Inside, not_or] at hl
  have hprev (u : FileTree) (hc : u.current = t.current) {target : Location} {slash : Bool}
      (h : u.place (prevPath path) = .ok (.entry target slash)) : target = loc ++ [prevPath name] :=
    (eq_of_place hdir (partsOf_prevPath hparts) hat hc (plainName_prevPath name).1 h).2.2
  -- The file that is removed is none of the directories on the way, so the directory is where it was.
  have hsame := sameDirs_attempt_remove t (prevPath path)
  have hremove : (t.attempt fun t => t.remove (prevPath path)).get? l = t.get? l := by
    cases hr : t.remove (prevPath path) with
    | error cause => rw [attempt_of_error (f := fun t => t.remove (prevPath path)) hr]
    | ok t' =>
        rw [attempt_of_ok (f := fun t => t.remove (prevPath path)) hr]
        refine (remove_elsewhere hr).resolve_right fun hp => hl.2 ?_
        obtain rfl := hprev t rfl hp
        exact List.prefix_rfl
  rw [rotate]
  generalize t.attempt (fun t => t.remove (prevPath path)) = t₁ at hsame hremove
  rw [← hremove]
  cases hr : t₁.rename path (prevPath path) with
  | error cause => rw [attempt_of_error hr]
  | ok t' =>
      have hat₁ : t₁.DirAt dir loc := by
        rw [dirAt_iff hdir, hsame.1.current]
        exact hsame.1.walk ((dirAt_iff hdir).1 hat)
      have hn := name_ne_empty_of_rename hdir hparts hat₁ hr
      obtain ⟨source, slash, target, slash', hs, ht, -, helse⟩ := rename_elsewhere hr
      rw [attempt_of_ok hr]
      rw [(eq_of_place hdir hparts hat hsame.1.current hn hs).2.2, hprev t₁ hsame.1.current ht] at helse
      exact helse l hl.1 hl.2

end Child

/-! ## Storing -/

theorem current_rotate (t : FileTree) (path : String) : (t.rotate path).current = t.current := by
  rcases rotate_cases t path with h | ⟨-, -, -, -, hc⟩
  · exact h.1.current
  · exact hc

theorem storeFile_eq_ok {mode : StoreMode} {r : WriteRequest} (h : t.storeFile mode r = .ok t') :
    ∃ loc content, t.place r.path = .ok (.entry loc false) ∧ t' = t.put loc (.file content) := by
  cases mode <;>
  · obtain ⟨loc, hp, -, rfl⟩ := change_eq_ok.1 h
    exact ⟨loc, _, hp, rfl⟩

/-- The directory cannot be made, or the file is written, with or without making the old one the version before. -/
theorem store_cases (t : FileTree) (mode : StoreMode) (r : WriteRequest) :
    (∃ cause, t.store mode r = ((t.makeDirs r.dir).1, .error cause)) ∨
      (t.makeDirs r.dir).2 = .ok () ∧ ∃ t₀, t.store mode r = Writing.fill mode r t₀ ∧
        (t₀ = (t.makeDirs r.dir).1 ∨ t₀ = (t.makeDirs r.dir).1.rotate r.path) := by
  rw [store]
  cases t.makeDirs r.dir with
  | mk t₁ made =>
      cases made with
      | error cause => exact .inl ⟨_, rfl⟩
      | ok u =>
          right
          cases mode with
          | overwrite => exact ⟨rfl, t₁.rotate r.path, rfl, .inr rfl⟩
          | append => exact ⟨rfl, t₁, rfl, .inl rfl⟩

theorem current_store (t : FileTree) (mode : StoreMode) (r : WriteRequest) :
    (t.store mode r).1.current = t.current := by
  have hmade := (addsDirs_makeDirs t r.dir).current
  rcases store_cases t mode r with ⟨cause, hs⟩ | ⟨-, t₀, hs, ht₀⟩
  · rw [hs, hmade]
  · have hc : t₀.current = t.current := by
      rcases ht₀ with rfl | rfl
      · exact hmade
      · rw [current_rotate, hmade]
    rw [hs, Writing.fill, ← hc]
    split
    · next h =>
        obtain ⟨loc, content, -, rfl⟩ := storeFile_eq_ok h
        rfl
    · rfl

end FeedFiler.FileTree

namespace FeedFiler

open FileTree

/-- The path of the file is the path of the directory and one ordinary name behind it. -/
def WriteRequest.InDir (r : WriteRequest) : Prop :=
  PlainName r.name ∧ ∃ above, DirParts r.dir above ∧ partsOf r.path = above ++ [r.name]

theorem WriteRequest.exists_above {r : WriteRequest} (hn : '/' ∉ r.name.toList) :
    ∃ above, DirParts r.dir above ∧ partsOf r.path = above ++ [r.name] := by
  obtain ⟨above, hdir, hjoin⟩ := exists_partsOf_joinPath r.dir
  refine ⟨above, hdir, ?_⟩
  rw [path, hjoin r.name (head?_ne_of_notMem hn), partsOf_of_notMem hn]

theorem WriteRequest.inDir_iff (r : WriteRequest) : r.InDir ↔ PlainName r.name ∧ '/' ∉ r.name.toList := by
  refine and_congr_right fun _ => ⟨?_, exists_above⟩
  rintro ⟨above, -, hp⟩
  exact notMem_of_mem_partsOf r.name (hp ▸ List.mem_append_right above List.mem_cons_self)

/-- The request makes its directory, and writes the file with its name there if it writes one. Nothing else
changes but the entries of the directory that are named after the file, and what stands below them. -/
structure FileTree.StaysInside (t : FileTree) (mode : StoreMode) (r : WriteRequest) : Prop where
  made : t.AddsDirs (t.makeDirs r.dir).1
  elsewhere : ∀ l, (t.store mode r).1.get? l ≠ (t.makeDirs r.dir).1.get? l →
    ∃ loc, (t.makeDirs r.dir).1.DirAt r.dir loc ∧ Inside loc r.name l
  written : ∀ path, (t.store mode r).2 = .ok path → path = r.path ∧ r.InDir

namespace WriteRequest

variable {r : WriteRequest} {t t' : FileTree} {loc l : Location} {above : List String} {mode : StoreMode}
  {path : String}

theorem fill_elsewhere (hdir : DirParts r.dir above) (hparts : partsOf r.path = above ++ [r.name])
    (hat : t.DirAt r.dir loc) (hc : t'.current = t.current) (hl : ¬ Inside loc r.name l) :
    (Writing.fill mode r t').1.get? l = t'.get? l := by
  rw [Writing.fill]
  split
  · next h =>
      obtain ⟨target, content, hp, rfl⟩ := storeFile_eq_ok h
      have htarget := (eq_of_place hdir hparts hat hc (plainName_of_place hparts hp).1 hp).2.2
      rw [get?_put (place_entry_ne_nil hp), if_neg]
      rintro rfl
      exact hl (.inl (htarget ▸ List.prefix_rfl))
  · rfl

theorem plainName_of_fill (hparts : partsOf r.path = above ++ [r.name])
    (h : (Writing.fill mode r t).2 = .ok path) : path = r.path ∧ PlainName r.name := by
  rw [Writing.fill] at h
  split at h
  · next hs =>
      obtain ⟨target, content, hp, -⟩ := storeFile_eq_ok hs
      exact ⟨(Except.ok.inj h).symm, plainName_of_place hparts hp⟩
  · cases h

/-- **A request whose name has no slash stays inside its directory.** -/
theorem staysInside (hn : '/' ∉ r.name.toList) (mode : StoreMode) (t : FileTree) : t.StaysInside mode r := by
  obtain ⟨above, hdir, hparts⟩ := exists_above hn
  refine ⟨addsDirs_makeDirs t r.dir, fun l hl => ?_, fun path hs => ?_⟩
  · rcases store_cases t mode r with ⟨cause, hs⟩ | ⟨hm, t₀, hs, ht₀⟩
    · rw [hs] at hl
      exact absurd rfl hl
    · obtain ⟨loc, hat⟩ := dirAt_of_makeDirs hm
      refine ⟨loc, hat, by_contra fun hout => hl ?_⟩
      rw [hs]
      rcases ht₀ with rfl | rfl
      · exact fill_elsewhere hdir hparts hat rfl hout
      · rw [fill_elsewhere hdir hparts hat (current_rotate _ _) hout,
          get?_rotate_elsewhere hdir hparts hat hout]
  · rcases store_cases t mode r with ⟨cause, hno⟩ | ⟨-, t₀, hfill, -⟩
    · rw [hno] at hs
      cases hs
    · rw [hfill] at hs
      obtain ⟨hpath, hplain⟩ := plainName_of_fill hparts hs
      exact ⟨hpath, hplain, above, hdir, hparts⟩

/-- Where the request may act, in some tree with the current directory. -/
def Reaches (cur : Location) (r : WriteRequest) (l : Location) : Prop :=
  ∃ (t : FileTree) (loc : Location), t.current = cur ∧ t.DirAt r.dir loc ∧ Inside loc r.name l

/-- A file that the request does not reach stays as it is. -/
theorem fileAt?_store (hn : '/' ∉ r.name.toList) (hl : ¬ r.Reaches t.current l) :
    (t.store mode r).1.fileAt? l = t.fileAt? l := by
  have hstays := staysInside hn mode t
  rw [← fileAt?_congr (hstays.made.files l)]
  refine fileAt?_of_get? (by_contra fun hne => hl ?_)
  obtain ⟨loc, hat, hin⟩ := hstays.elsewhere l hne
  exact ⟨_, loc, hstays.made.current, hat, hin⟩

end WriteRequest

end FeedFiler
