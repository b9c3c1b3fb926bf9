import Mathlib.Data.List.Nodup
import FeedFiler.Config

/-!
# Entries one by one

Everything a configuration says of an entry can be read off this entry alone: whether it could be read,
what looking it up gives, and where it stands in a report. So entries that agree at a name say the same of
it, and a report mentions each name once.
-/

namespace FeedFiler

/-- What a fault is about: a part of the configuration and its name. -/
def ConfigError.subject? : ConfigError → Option (Component × String)
  | .unreadable .. | .unparsable => none
  | .notFound component name | .missingField component name _ | .invalidValue component name _ _
  | .malformed component name _ | .conflict component name _ _ => some (component, name)

theorem FeedEntry.subject?_of_validate ⦃name : String⦄ ⦃e : FeedEntry⦄ ⦃fault : ConfigError⦄
    (h : e.validate name = .error fault) : fault.subject? = some (.feed, name) := by
  unfold FeedEntry.validate FeedEntry.kind at h
  split at h
  · cases h
    rfl
  · split at h
    · cases h
      rfl
    · split at h
      · cases h
        rfl
      · split at h <;> cases h
        rfl

theorem RouteEntry.subject?_of_mode {name : String} {r : RouteEntry} {fault : ConfigError}
    (h : r.mode name = .error fault) : fault.subject? = some (.route, name) := by
  unfold RouteEntry.mode at h
  split at h
  · cases h
  · split at h <;> cases h
    rfl

theorem RouteEntry.subject?_of_validate ⦃name : String⦄ ⦃r : RouteEntry⦄ ⦃fault : ConfigError⦄
    (h : r.validate name = .error fault) : fault.subject? = some (.route, name) := by
  unfold RouteEntry.validate at h
  split at h
  · cases h
    rfl
  · split at h
    · cases h
      rfl
    · split at h
      · cases h
        rfl
      · split at h
        · cases h
          rfl
        · cases hm : r.mode name with
          | ok mode =>
              rw [hm] at h
              cases h
          | error cause =>
              rw [hm] at h
              cases h
              exact subject?_of_mode hm

namespace Config.Entries

variable {α β γ : Type} {component : Component} {check : String → α → Except ConfigError Unit}
  {entries a b : Entries α} {m : String}

/-! ## Looking at one name -/

theorem nodup_keys_toList (t : Std.ExtTreeMap String β) : (t.toList.map Prod.fst).Nodup :=
  List.pairwise_map.2 (t.distinct_keys_toList.imp fun hn he => hn (by rw [he]; exact Std.ReflCmp.compare_self))

theorem filter_toList (t : Std.ExtTreeMap String β) (m : String) :
    t.toList.filter (·.1 == m) = (t[m]?.map (Prod.mk m)).toList := by
  have hd := nodup_keys_toList t
  have hm : ∀ e, (m, e) ∈ t.toList ↔ t[m]? = some e := fun e => Std.ExtTreeMap.mem_toList_iff_getElem?_eq_some
  generalize t.toList = entries at hd hm
  cases hg : t[m]? with
  | none =>
      refine List.filter_eq_nil_iff.2 fun ⟨name, e⟩ hx he => ?_
      cases eq_of_beq he
      rw [hg] at hm
      cases (hm e).1 hx
  | some e =>
      have hmem := (hm e).2 hg
      obtain ⟨before, after, rfl⟩ := List.append_of_mem hmem
      rw [List.map_append, List.map_cons, List.nodup_middle, List.nodup_cons,
        List.mem_append] at hd
      have hother : ∀ l : List (String × β), m ∉ l.map Prod.fst → l.filter (·.1 == m) = [] := fun l hl =>
        List.filter_eq_nil_iff.2 fun x hx he => hl (eq_of_beq he ▸ List.mem_map_of_mem hx)
      rw [List.filter_append, List.filter_cons_of_pos (by simp), hother _ fun h => hd.1 (.inl h),
        hother _ fun h => hd.1 (.inr h)]
      rfl

/-- What is gathered from entries for a name is what the entry of this name gives. -/
theorem filter_filterMap_toList {t : Std.ExtTreeMap String β} {g : String × β → Option γ} {p : γ → Bool}
    (hp : ∀ x y, g x = some y → p y = (x.1 == m)) :
    (t.toList.filterMap g).filter p = (t[m]?.bind fun e => g (m, e)).toList := by
  have hg : (t.toList.filterMap g).filter p = (t.toList.filter (·.1 == m)).filterMap g := by
    rw [List.filter_filterMap, List.filterMap_filter]
    refine List.filterMap_congr fun x _ => ?_
    cases hx : g x with
    | none => simp
    | some y => simp [Option.filter, hp x y hx]
  rw [hg, filter_toList]
  cases t[m]? with
  | none => rfl
  | some e => cases h : g (m, e) <;> simp [h]

theorem filter_typed (entries : Entries α) (m : String) :
    entries.typed.filter (·.1 == m) =
      (entries[m]?.bind fun entry => entry.toOption.map (Prod.mk m)).toList :=
  filter_filterMap_toList fun x y h => by
    obtain ⟨e, -, rfl⟩ := Option.map_eq_some_iff.1 h
    rfl

/-- What is gathered from the entries that could be read, for a name. -/
theorem filter_filterMap_typed (entries : Entries α) {g : String × α → Option γ} {p : γ → Bool}
    (hp : ∀ x y, g x = some y → p y = (x.1 == m)) :
    (entries.typed.filterMap g).filter p =
      (entries[m]?.bind fun entry => entry.toOption.bind fun e => g (m, e)).toList := by
  rw [typed, List.filterMap_filterMap]
  have h := filter_filterMap_toList (t := entries) (m := m) (p := p)
    (g := fun x => (x.2.toOption.map fun e => (x.1, e)).bind g) fun x y hx => by
      obtain ⟨e, he, hy⟩ := Option.bind_eq_some_iff.1 hx
      obtain ⟨e, -, rfl⟩ := Option.map_eq_some_iff.1 he
      exact hp _ y hy
  rw [h]
  cases entries[m]? with
  | none => rfl
  | some entry => cases h : entry.toOption <;> simp [h]

theorem filter_malformed (entries : Entries α) (m : String) :
    entries.malformed.filter (·.1 == m) =
      (entries[m]?.bind fun entry => match entry with
        | .ok _ => none
        | .error cause => some (m, cause)).toList :=
  filter_filterMap_toList fun x y h => by
    obtain ⟨name, entry⟩ := x
    cases entry <;> cases h
    rfl

theorem filter_usable (check : String → α → Except ConfigError Unit) (entries : Entries α) (m : String) :
    (entries.usable check).filter (· == m) =
      (entries[m]?.bind fun entry => entry.toOption.bind fun e => (check m e).toOption.map fun _ => m).toList :=
  filter_filterMap_typed entries fun x y h => by
    obtain ⟨-, -, rfl⟩ := Option.map_eq_some_iff.1 h
    rfl

/-- The faults that a check finds are about the entry that it looks at. -/
def Names (component : Component) (check : String → α → Except ConfigError Unit) : Prop :=
  ∀ ⦃name : String⦄ ⦃e : α⦄ ⦃fault : ConfigError⦄, check name e = .error fault →
    fault.subject? = some (component, name)

theorem filter_checked (hc : Names component check) (entries : Entries α) (m : String) :
    (entries.typed.filterMap fun (name, e) => match check name e with
      | .ok _ => none
      | .error fault => some fault).filter (·.subject? == some (component, m)) =
      (entries[m]?.bind fun entry => entry.toOption.bind fun e => match check m e with
        | .ok _ => none
        | .error fault => some fault).toList :=
  filter_filterMap_typed entries fun x fault h => by
    obtain ⟨name, e⟩ := x
    cases he : check name e with
    | ok _ => simp [he] at h
    | error cause =>
        simp only [he, Option.some.injEq] at h
        simp [← h, hc he]

theorem filter_unreadable (component : Component) (entries : Entries α) (m : String) :
    (entries.malformed.map fun (name, cause) =>
      ConfigError.malformed component name cause).filter (·.subject? == some (component, m)) =
      (entries.malformed.filter (·.1 == m)).map fun (name, cause) => .malformed component name cause := by
  rw [List.filter_map]
  congr 2
  funext x
  simp [ConfigError.subject?]

theorem filter_faults (hc : Names component check) (entries : Entries α) (m : String) :
    (entries.faults component check).filter (·.subject? == some (component, m)) =
      (entries[m]?.bind fun entry => match entry with
        | .ok e => match check m e with
          | .ok _ => none
          | .error fault => some fault
        | .error cause => some (.malformed component m cause)).toList := by
  have hchecked := filter_checked hc entries m
  have hunreadable := filter_unreadable component entries m
  refine (List.filter_append ..).trans ((congrArg₂ (· ++ ·) hchecked hunreadable).trans ?_)
  rw [filter_malformed]
  cases entries[m]? with
  | none => rfl
  | some entry => cases entry <;> simp [Except.toOption]

/-! ## Agreement at a name -/

/-- Two collections of entries say the same of a name. -/
structure AgreeAt (component : Component) (check : String → α → Except ConfigError Unit) (m : String)
    (a b : Entries α) : Prop where
  typed : a.typed.filter (·.1 == m) = b.typed.filter (·.1 == m)
  malformed : a.malformed.filter (·.1 == m) = b.malformed.filter (·.1 == m)
  find : a.find component m = b.find component m
  usable : (a.usable check).filter (· == m) = (b.usable check).filter (· == m)
  faults : (a.faults component check).filter (·.subject? == some (component, m)) =
    (b.faults component check).filter (·.subject? == some (component, m))

theorem AgreeAt.of_eq (hc : Names component check) (h : a[m]? = b[m]?) : AgreeAt component check m a b where
  typed := by rw [filter_typed, filter_typed, h]
  malformed := by rw [filter_malformed, filter_malformed, h]
  find := by simp only [Entries.find, h]
  usable := by rw [filter_usable, filter_usable, h]
  faults := by rw [filter_faults hc, filter_faults hc, h]

/-! ## Each name once -/

/-- The entries are those of some names, and each name is mentioned exactly once: among the readable or
the unreadable entries, and among the usable ones or in the faults. -/
structure Lists (component : Component) (check : String → α → Except ConfigError Unit) (names : List String)
    (entries : Entries α) : Prop where
  read : ∀ m, (entries.typed.map Prod.fst).count m + (entries.malformed.map Prod.fst).count m =
    if m ∈ names then 1 else 0
  reported : ∀ m, (entries.usable check).count m +
    ((entries.faults component check).map ConfigError.subject?).count (some (component, m)) =
      if m ∈ names then 1 else 0
  subjects : ∀ fault ∈ entries.faults component check, ∃ m ∈ names, fault.subject? = some (component, m)

theorem mem_typed {e : α} : (m, e) ∈ entries.typed ↔ entries[m]? = some (.ok e) := by
  have h : (m, e) ∈ entries.typed ↔ (m, e) ∈ entries.typed.filter (·.1 == m) := by simp
  rw [h, filter_typed]
  cases entries[m]? with
  | none => simp
  | some entry => cases entry <;> simp [Except.toOption, eq_comm]

theorem mem_malformed {cause : Malformation} :
    (m, cause) ∈ entries.malformed ↔ entries[m]? = some (.error cause) := by
  have h : (m, cause) ∈ entries.malformed ↔ (m, cause) ∈ entries.malformed.filter (·.1 == m) := by simp
  rw [h, filter_malformed]
  cases entries[m]? with
  | none => simp
  | some entry => cases entry <;> simp [eq_comm]

theorem exists_subject_of_mem_faults (hc : Names component check) {fault : ConfigError}
    (h : fault ∈ entries.faults component check) :
    ∃ m, entries[m]?.isSome ∧ fault.subject? = some (component, m) := by
  rcases List.mem_append.1 h with h | h
  · obtain ⟨⟨name, e⟩, hx, hf⟩ := List.mem_filterMap.1 h
    cases he : check name e with
    | ok _ => simp [he] at hf
    | error cause =>
        simp only [he, Option.some.injEq] at hf
        exact ⟨name, by rw [mem_typed.1 hx]; rfl, hf ▸ hc he⟩
  · obtain ⟨⟨name, cause⟩, hx, rfl⟩ := List.mem_map.1 h
    exact ⟨name, by rw [mem_malformed.1 hx]; rfl, rfl⟩

theorem count_map_eq_length_filter {f : γ → β} [BEq β] (l : List γ) (x : β) :
    (l.map f).count x = (l.filter (f · == x)).length := by
  rw [List.count, List.countP_map, List.countP_eq_length_filter]
  rfl

theorem lists_of_iff {names : List String} (hc : Names component check)
    (h : ∀ m, entries[m]?.isSome ↔ m ∈ names) : Lists component check names entries where
  read m := by
    rw [count_map_eq_length_filter, count_map_eq_length_filter, filter_typed, filter_malformed]
    simp only [← h m]
    cases entries[m]? with
    | none => rfl
    | some entry => cases entry <;> rfl
  reported m := by
    rw [List.count_eq_length_filter, count_map_eq_length_filter, filter_usable, filter_faults hc]
    simp only [← h m]
    cases entries[m]? with
    | none => rfl
    | some entry =>
        cases entry with
        | error cause => rfl
        | ok e => cases he : check m e <;> simp [Except.toOption, he]
  subjects fault hf := by
    obtain ⟨m, hm, hs⟩ := exists_subject_of_mem_faults hc hf
    exact ⟨m, (h m).1 hm, hs⟩

end Config.Entries

end FeedFiler
