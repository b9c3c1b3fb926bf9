import Mathlib.Data.List.Induction
import FeedFiler.Proofs.Config.Isolation

/-!
# Readable and unreadable entries apart

The tables of a section can be read one after the other into two maps, one of the entries that can be read and
one of the faults of the others. The two maps list and find the same as one map of results.
-/

namespace FeedFiler.Config

open Std (ExtTreeMap)

/-- The entries that could be read, and the faults of the others. -/
structure Parted (α : Type) where
  typed : ExtTreeMap String α := ∅
  malformed : ExtTreeMap String Malformation := ∅

/-- Why an entry could not be read. -/
def Entries.fault? {α : Type} : Typed α → Option Malformation
  | .ok _ => none
  | .error cause => some cause

namespace Parted

variable {α β : Type} {shape : Shape α} {maps : Parted α} {entries : Entries α} {tables : List (String × Toml)}

/-- Reads one more table. -/
def add (shape : Shape α) (maps : Parted α) (table : String × Toml) : Parted α :=
  match shape.read table.2 with
  | .ok e => { maps with typed := maps.typed.insert table.1 e }
  | .error cause => { maps with malformed := maps.malformed.insert table.1 cause }

/-- Reads each table of a section, in the order of the names. -/
def read (shape : Shape α) (tables : ExtTreeMap String Toml) : Parted α := tables.toList.foldl (add shape) {}

/-- The entry of a name. The unreadable ones are looked at first. -/
def find (component : Component) (maps : Parted α) (name : String) : Except ConfigError α :=
  match maps.malformed[name]?, maps.typed[name]? with
  | some cause, _ => .error (.malformed component name cause)
  | none, some e => .ok e
  | none, none => .error (.notFound component name)

/-! ## One table after the other -/

/-- Of each name the maps hold the entry or its fault. -/
structure Holds (maps : Parted α) (found : String → Option (Typed α)) : Prop where
  typed : ∀ m, maps.typed[m]? = (found m).bind Except.toOption
  malformed : ∀ m, maps.malformed[m]? = (found m).bind Entries.fault?

theorem holds_empty : Holds ({} : Parted α) fun _ => none := by
  constructor <;> simp

theorem Holds.add {found : String → Option (Typed α)} (h : Holds maps found) {table : String × Toml}
    (hnew : found table.1 = none) :
    Holds (maps.add shape table) fun m => if m = table.1 then some (shape.read table.2) else found m := by
  have htyped := h.typed table.1
  have hmalformed := h.malformed table.1
  rw [hnew, Option.bind_none] at htyped hmalformed
  unfold Parted.add
  constructor <;> intro m <;> by_cases hm : m = table.1
  · subst hm
    cases shape.read table.2 <;> simp [htyped, Except.toOption]
  · cases shape.read table.2 <;> simp [h.typed, ExtTreeMap.getElem?_insert, hm, Ne.symm hm]
  · subst hm
    cases shape.read table.2 <;> simp [hmalformed, Entries.fault?]
  · cases shape.read table.2 <;> simp [h.malformed, ExtTreeMap.getElem?_insert, hm, Ne.symm hm]

theorem holds_foldl (hd : (tables.map Prod.fst).Nodup) :
    Holds (tables.foldl (add shape) {}) fun m => (tables.lookup m).map shape.read := by
  induction tables using List.reverseRecOn with
  | nil => exact holds_empty
  | append_singleton tables table ih =>
      rw [List.map_append, List.nodup_append] at hd
      have hnew : tables.lookup table.1 = none := lookup_eq_none fun hm => hd.2.2 _ hm _ (by simp) rfl
      have hlookup : (fun m => ((tables ++ [table]).lookup m).map shape.read) = fun m =>
          if m = table.1 then some (shape.read table.2) else (tables.lookup m).map shape.read := by
        funext m
        rw [List.lookup_append, Toml.lookup_cons]
        split
        · next hm =>
            rw [hm, hnew]
            rfl
        · simp
      rw [List.foldl_append, hlookup]
      apply (ih hd.1).add
      rw [hnew]
      rfl

/-! ## All tables of a section -/

theorem lookup_eq_some_of_mem {l : List (String × β)} (hd : (l.map Prod.fst).Nodup) {m : String} {x : β}
    (h : (m, x) ∈ l) : l.lookup m = some x := by
  obtain ⟨before, after, rfl⟩ := List.append_of_mem h
  rw [List.map_append, List.nodup_append] at hd
  refine List.lookup_eq_some_iff.2 ⟨before, after, rfl, fun y hy => ?_⟩
  rw [bne_iff_ne]
  exact (hd.2.2 _ (List.mem_map_of_mem hy) m (by simp)).symm

theorem lookup_toList (t : ExtTreeMap String β) (m : String) : t.toList.lookup m = t[m]? := by
  ext x
  rw [← ExtTreeMap.mem_toList_iff_getElem?_eq_some]
  constructor
  · intro h
    obtain ⟨before, after, hl, -⟩ := List.lookup_eq_some_iff.1 h
    simp [hl]
  · exact lookup_eq_some_of_mem (Entries.nodup_keys_toList t)

theorem holds_read (shape : Shape α) (tables : List (String × Toml)) :
    Holds (read shape (.ofList tables)) fun m => (Entries.read shape tables)[m]? := by
  have h : Holds (read shape (.ofList tables)) _ := holds_foldl (Entries.nodup_keys_toList (.ofList tables))
  simp only [lookup_toList, getElem?_ofList, ← Entries.getElem?_read] at h
  exact h

theorem Holds.toList_typed (h : Holds maps fun m => entries[m]?) : maps.typed.toList = entries.typed := by
  have htyped : maps.typed = entries.filterMap fun _ entry => entry.toOption := by
    apply ExtTreeMap.ext_getElem?
    intro m
    rw [h.typed, ExtTreeMap.getElem?_filterMap']
  rw [htyped, ExtTreeMap.toList_filterMap, Entries.typed]

theorem Holds.toList_malformed (h : Holds maps fun m => entries[m]?) :
    maps.malformed.toList = entries.malformed := by
  have hmalformed : maps.malformed = entries.filterMap fun _ entry => Entries.fault? entry := by
    apply ExtTreeMap.ext_getElem?
    intro m
    rw [h.malformed, ExtTreeMap.getElem?_filterMap']
  rw [hmalformed, ExtTreeMap.toList_filterMap, Entries.malformed]
  congr 1
  funext ⟨name, entry⟩
  cases entry <;> rfl

theorem Holds.find_eq (h : Holds maps fun m => entries[m]?) (component : Component) (name : String) :
    maps.find component name = entries.find component name := by
  rw [find, h.typed, h.malformed, Entries.find]
  cases entries[name]? with
  | none => rfl
  | some entry => cases entry <;> rfl

/-- Two maps that are filled from the tables of a section list the same entries and the same faults as one map
of results, and the same is found in them. -/
theorem read_eq (shape : Shape α) (tables : List (String × Toml)) :
    (read shape (.ofList tables)).typed.toList = (Entries.read shape tables).typed ∧
      (read shape (.ofList tables)).malformed.toList = (Entries.read shape tables).malformed ∧
      ∀ component name, (read shape (.ofList tables)).find component name =
        (Entries.read shape tables).find component name :=
  have h := holds_read shape tables
  ⟨h.toList_typed, h.toList_malformed, h.find_eq⟩

end Parted

end FeedFiler.Config
