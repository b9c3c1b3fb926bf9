import Mathlib.Tactic.ByContra
import FeedFiler.Proofs.Files.Operations

/-!
# Walking plain paths

A walk along plain names leads through the directories with these names. It never gets past a file or a
name that is too long; otherwise it ends where directories are missing.
-/

namespace FeedFiler.FileTree

/-- A name that is not passed over and does not lead back. -/
def PlainName (name : String) : Prop := name ≠ "" ∧ name ≠ "." ∧ name ≠ ".."

instance (name : String) : Decidable (PlainName name) :=
  inferInstanceAs (Decidable (name ≠ "" ∧ name ≠ "." ∧ name ≠ ".."))

def HoldsFile (t : FileTree) (loc : Location) : Prop := ∃ content, t.get? loc = some (.file content)

/-- One of the names is too long, or stands for a file on the way along them. -/
def Blocked (t : FileTree) : Location → List String → Prop
  | _, [] => False
  | loc, name :: names =>
    maxName < name.utf8ByteSize ∨ t.HoldsFile (loc ++ [name]) ∨ Blocked t (loc ++ [name]) names

variable {t t' : FileTree} {loc l : Location} {names more : List String} {name path : String}

/-! ## Walks -/

theorem walk_cons (h : PlainName name) (t : FileTree) (loc : Location) (names : List String) :
    t.walk loc (name :: names) =
      if maxName < name.utf8ByteSize then .error .nameTooLong
      else match t.get? (loc ++ [name]) with
        | none => .error .notFound
        | some (.file _) => .error .notDirectory
        | some .dir => t.walk (loc ++ [name]) names := by
  have hn : ¬ (name = "" ∨ name = ".") := fun he => he.elim h.1 h.2.1
  rw [walk, if_neg hn]
  exact if_neg h.2.2

theorem walk_append (t : FileTree) (loc : Location) (names more : List String) :
    t.walk loc (names ++ more) = (t.walk loc names).bind fun l => t.walk l more := by
  induction names generalizing loc with
  | nil => rfl
  | cons name names ih =>
      rw [List.cons_append, walk, walk]
      split
      · exact ih loc
      · split
        · exact ih loc.dropLast
        · split
          · rfl
          · cases t.get? (loc ++ [name]) with
            | none => rfl
            | some node =>
                cases node with
                | file content => rfl
                | dir => exact ih (loc ++ [name])

/-- A walk along plain names depends on the entries along them alone. -/
theorem walk_congr (hp : ∀ n ∈ names, PlainName n)
    (h : ∀ ns, ns ≠ [] → ns <+: names → t'.get? (loc ++ ns) = t.get? (loc ++ ns)) :
    t'.walk loc names = t.walk loc names := by
  induction names generalizing loc with
  | nil => rfl
  | cons name names ih =>
      rw [List.forall_mem_cons] at hp
      have hname := h [name] (List.cons_ne_nil _ _) (List.prefix_append [name] names)
      rw [walk_cons hp.1, walk_cons hp.1, hname, ih hp.2]
      intro ns _ hns
      have hi := h (name :: ns) (List.cons_ne_nil _ _) (List.cons_prefix_cons.2 ⟨rfl, hns⟩)
      rwa [List.append_assoc, List.singleton_append]

theorem walk_eq (hp : ∀ n ∈ names, PlainName n) (h : t.walk loc names = .ok l) : l = loc ++ names := by
  induction names generalizing loc with
  | nil =>
      cases h
      exact (List.append_nil _).symm
  | cons name names ih =>
      rw [List.forall_mem_cons] at hp
      rw [walk_cons hp.1] at h
      split at h
      · cases h
      · split at h
        · cases h
        · cases h
        · rw [ih hp.2 h, List.append_assoc, List.singleton_append]

theorem walk_of_not_blocked (hp : ∀ n ∈ names, PlainName n) (h : ¬ t.Blocked loc names) :
    t.walk loc names = .ok (loc ++ names) ∨ t.walk loc names = .error .notFound := by
  induction names generalizing loc with
  | nil => exact .inl (by rw [walk, List.append_nil])
  | cons name names ih =>
      rw [List.forall_mem_cons] at hp
      simp only [Blocked, not_or] at h
      rw [walk_cons hp.1, if_neg h.1]
      cases hg : t.get? (loc ++ [name]) with
      | none => exact .inr rfl
      | some node =>
          cases node with
          | file content => exact absurd ⟨content, hg⟩ h.2.1
          | dir =>
              have hi := ih hp.2 h.2.2
              rw [List.append_assoc, List.singleton_append] at hi
              exact hi

theorem not_blocked_of_walk (hp : ∀ n ∈ names, PlainName n) (h : t.walk loc names = .ok l) :
    ¬ t.Blocked loc names := by
  induction names generalizing loc with
  | nil => exact id
  | cons name names ih =>
      rw [List.forall_mem_cons] at hp
      rw [walk_cons hp.1] at h
      split at h
      · cases h
      · next hl =>
          split at h
          · cases h
          · cases h
          · next hd =>
              rintro (hs | ⟨content, hf⟩ | hb)
              · exact hl hs
              · rw [hd] at hf
                cases hf
              · exact ih hp.2 h hb

theorem blocked_append (t : FileTree) (loc : Location) (names more : List String) :
    t.Blocked loc (names ++ more) ↔ t.Blocked loc names ∨ t.Blocked (loc ++ names) more := by
  induction names generalizing loc with
  | nil => simp [Blocked]
  | cons name names ih => simp [Blocked, ih, or_assoc]

theorem blocked_congr (h : ∀ ns, ns ≠ [] → ns <+: names →
    (t'.HoldsFile (loc ++ ns) ↔ t.HoldsFile (loc ++ ns))) : t'.Blocked loc names ↔ t.Blocked loc names := by
  induction names generalizing loc with
  | nil => exact .rfl
  | cons name names ih =>
      rw [Blocked, Blocked, h [name] (List.cons_ne_nil _ _) (List.prefix_append [name] names), ih]
      intro ns _ hns
      have hi := h (name :: ns) (List.cons_ne_nil _ _) (List.cons_prefix_cons.2 ⟨rfl, hns⟩)
      rwa [List.append_assoc, List.singleton_append]

/-- A walk that leads along some names leads along the first ones of them. -/
theorem walk_of_append (hp : ∀ n ∈ names, PlainName n) (h : t.walk loc (names ++ more) = .ok l) :
    t.walk loc names = .ok (loc ++ names) := by
  rw [walk_append] at h
  cases hw : t.walk loc names with
  | error cause =>
      rw [hw] at h
      cases h
  | ok l' => rw [walk_eq hp hw]

theorem get?_of_walk (hp : PlainName name) (h : t.walk loc (names ++ [name]) = .ok l)
    (hn : ∀ n ∈ names, PlainName n) : t.get? (loc ++ names ++ [name]) = some .dir := by
  have hw := walk_of_append hn h
  rw [walk_append, hw] at h
  change t.walk (loc ++ names) [name] = .ok l at h
  rw [walk_cons hp] at h
  split at h
  · cases h
  · split at h
    · cases h
    · cases h
    · next hd => exact hd

/-- All directories along the names are there, up to the first name that blocks the way. -/
def Made (t : FileTree) (loc : Location) (names : List String) : Prop :=
  ∀ ns, ns <+: names → ¬ t.Blocked loc ns → t.walk loc ns = .ok (loc ++ ns)

theorem made_of_walk (hp : ∀ n ∈ names, PlainName n) (h : t.walk loc names = .ok l) :
    t.Made loc names := by
  rintro ns ⟨rest, rfl⟩ -
  exact walk_of_append (fun n hn => hp n (List.mem_append_left rest hn)) h

theorem made_of_error (hp : ∀ n ∈ names, PlainName n) {cause : FileError}
    (h : t.walk loc names = .error cause) (hc : cause ≠ .notFound) : t.Made loc names := by
  rintro ns ⟨rest, rfl⟩ hb
  rcases walk_of_not_blocked (fun n hn => hp n (List.mem_append_left rest hn)) hb with hw | hw
  · exact hw
  · rw [walk_append, hw] at h
    cases h
    exact absurd rfl hc

theorem Made.of_blocked (h : t.Made loc names) (hb : t.Blocked loc names) (more : List String) :
    t.Made loc (names ++ more) := by
  intro ns hns hn
  rcases List.prefix_or_prefix_of_prefix hns (List.prefix_append names more) with hs | ⟨rest, rfl⟩
  · exact h ns hs hn
  · exact absurd ((blocked_append t loc names rest).2 (.inl hb)) hn

theorem made_concat (h : t.Made loc names)
    (hn : t.Blocked loc (names ++ [name]) ∨ t.walk loc (names ++ [name]) = .ok (loc ++ (names ++ [name]))) :
    t.Made loc (names ++ [name]) := by
  intro ns hns hb
  rcases List.prefix_concat_iff.1 hns with rfl | hs
  · exact hn.resolve_left hb
  · exact h ns hs hb

/-! ## Where a plain path leads -/

def placeOf (t : FileTree) (loc : Location) (slash : Bool) (names : List String) :
    Except FileError Place :=
  match names.reverse with
  | [] => .ok (.known loc)
  | last :: before => do
    let parent ← t.walk loc before.reverse
    if maxName < last.utf8ByteSize then throw .nameTooLong
    return .entry (parent ++ [last]) slash

theorem placeOf_concat (t : FileTree) (loc : Location) (slash : Bool) (names : List String)
    (name : String) : t.placeOf loc slash (names ++ [name]) =
      (t.walk loc names).bind fun parent =>
        if maxName < name.utf8ByteSize then .error .nameTooLong
        else .ok (.entry (parent ++ [name]) slash) := by
  simp only [placeOf, List.reverse_append, List.reverse_singleton, List.singleton_append,
    List.reverse_reverse]
  cases t.walk loc names with
  | error cause => rfl
  | ok parent =>
      by_cases hl : maxName < name.utf8ByteSize
      · simp only [if_pos hl]
        rfl
      · simp only [if_neg hl]
        rfl

/-- In all trees with the current directory `cur`, the path leads along the names from `loc`. -/
def Leads (cur loc : Location) (names : List String) (path : String) : Prop :=
  ∃ slash, ∀ t : FileTree, t.current = cur → t.place path = t.placeOf loc slash names

variable {cur : Location}

theorem makeDir_of_leads (h : Leads cur loc (names ++ [name]) path) (hc : t.current = cur) :
    t.makeDir path = (t.walk loc names).bind fun parent =>
      if maxName < name.utf8ByteSize then .error .nameTooLong
      else if (t.get? (parent ++ [name])).isSome then .error .alreadyExists
      else .ok (t.put (parent ++ [name]) .dir) := by
  obtain ⟨slash, hp⟩ := h
  rw [makeDir, hp t hc, placeOf_concat]
  cases t.walk loc names with
  | error cause => rfl
  | ok parent =>
      simp only [Except.bind]
      by_cases hl : maxName < name.utf8ByteSize
      · simp only [if_pos hl]
        rfl
      · simp only [if_neg hl]
        rfl

theorem isDir_of_leads (hp : ∀ n ∈ names, PlainName n) (h : Leads cur loc names path)
    (hc : t.current = cur) : t.isDir path = true ↔ t.walk loc names = .ok (loc ++ names) := by
  obtain ⟨slash, hpl⟩ := h
  rw [isDir, hpl t hc]
  rcases List.eq_nil_or_concat names with rfl | ⟨ns, name, rfl⟩
  · simp [placeOf, walk]
  · rw [List.concat_eq_append] at hp ⊢
    rw [placeOf_concat, walk_append]
    cases hw : t.walk loc ns with
    | error cause => simp [Except.bind]
    | ok parent =>
        have hn := hp name (List.mem_append_right ns List.mem_cons_self)
        have he := walk_eq (fun n hm => hp n (List.mem_append_left [name] hm)) hw
        simp only [Except.bind, walk_cons hn, he]
        by_cases hl : maxName < name.utf8ByteSize
        · simp [if_pos hl]
        · simp only [if_neg hl]
          cases hg : t.get? (loc ++ ns ++ [name]) with
          | none => simp
          | some node => cases node <;> simp [walk, FileNode.isDir]

/-- A directory is made, or one above it is missing, or nothing more can be made on the way to it. -/
theorem makeDir_outcome (hp : ∀ n ∈ names, PlainName n) (h : Leads cur loc names path)
    (hc : t.current = cur) :
    (t.makeDir path = .ok (t.put (loc ++ names) .dir) ∧ names ≠ [] ∧ t.get? (loc ++ names) = none ∧
      ¬ t.Blocked loc names ∧ (t.put (loc ++ names) .dir).walk loc names = .ok (loc ++ names)) ∨
    (t.makeDir path = .error .notFound ∧
      ∃ before name, names = before ++ [name] ∧ t.walk loc before = .error .notFound) ∨
    ∃ cause, cause ≠ .notFound ∧ t.makeDir path = .error cause ∧ t.Made loc names := by
  rcases List.eq_nil_or_concat names with rfl | ⟨ns, name, rfl⟩
  · obtain ⟨slash, hpl⟩ := h
    refine .inr (.inr ⟨.alreadyExists, by simp, ?_, made_of_walk hp rfl⟩)
    rw [makeDir, hpl t hc]
    rfl
  rw [List.concat_eq_append] at h hp ⊢
  have hps : ∀ n ∈ ns, PlainName n := fun n hn => hp n (List.mem_append_left [name] hn)
  have hn := hp name (List.mem_append_right ns List.mem_cons_self)
  rw [makeDir_of_leads h hc]
  cases hw : t.walk loc ns with
  | error cause =>
      by_cases hcause : cause = .notFound
      · subst hcause
        exact .inr (.inl ⟨rfl, ns, name, rfl, hw⟩)
      · have hb : t.Blocked loc ns := by
          by_contra hb
          rcases walk_of_not_blocked hps hb with he | he
          · rw [hw] at he
            cases he
          · rw [hw] at he
            exact hcause (Except.error.inj he)
        exact .inr (.inr ⟨cause, hcause, rfl, (made_of_error hps hw hcause).of_blocked hb [name]⟩)
  | ok parent =>
      cases walk_eq hps hw
      have hmade (hb : t.Blocked (loc ++ ns) [name]) : t.Made loc (ns ++ [name]) :=
        made_concat (made_of_walk hps hw) (.inl ((blocked_append t loc ns [name]).2 (.inr hb)))
      simp only [Except.bind]
      by_cases hl : maxName < name.utf8ByteSize
      · refine .inr (.inr ⟨.nameTooLong, by simp, if_pos hl, hmade (.inl hl)⟩)
      · rw [if_neg hl, List.append_assoc]
        cases hg : t.get? (loc ++ (ns ++ [name])) with
        | some node =>
            refine .inr (.inr ⟨.alreadyExists, by simp, rfl, ?_⟩)
            rw [← List.append_assoc] at hg
            cases node with
            | file content => exact hmade (.inr (.inl ⟨content, hg⟩))
            | dir =>
                refine made_concat (made_of_walk hps hw) (.inr ?_)
                rw [walk_append, hw, Except.bind, walk_cons hn, if_neg hl, hg]
                rw [List.append_assoc]
                rfl
        | none =>
            have hne : loc ++ (ns ++ [name]) ≠ [] := by simp
            refine .inl ⟨rfl, by simp, rfl, ?_, ?_⟩
            · rw [blocked_append, not_or]
              refine ⟨not_blocked_of_walk hps hw, ?_⟩
              rintro (hs | ⟨content, hf⟩ | hb)
              · exact hl hs
              · rw [List.append_assoc, hg] at hf
                cases hf
              · exact hb
            · have hk : t.KeepsDirs (t.put (loc ++ (ns ++ [name])) .dir) := keepsDirs_put hne fun _ => rfl
              rw [walk_append, hk.walk hw, Except.bind, walk_cons hn, if_neg hl, List.append_assoc,
                get?_put hne, if_pos rfl]
              rfl

end FeedFiler.FileTree
