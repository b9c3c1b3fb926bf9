import FeedFiler.Toml.Basic

/-!
# Settled values

A moment may be written as a table: the mark as its first key, and the moment's text under it. In a
settled value every such table is the moment, and every other table has its entries in the order of
their keys. Main statements: settled entries are in this order, and their keys are those of the text.
-/

namespace FeedFiler.Toml

/-- The key under which a table holds the text of the moment that it stands for. -/
def Moment.mark : String := "$__toml_private_datetime"

/-- The entries of the table that stands for a moment. -/
def Moment.entries (m : Moment) : List (String × Toml) :=
  [(Moment.mark, .string (String.ofList m.chars))]

/-- The entries of a table; a moment counts as the table that stands for it. -/
def entries? : Toml → Option (List (String × Toml))
  | .table entries => some entries
  | .moment m => some m.entries
  | _ => none

/-- The value under the mark, if a table has the mark as its first key. -/
def marked? : List (String × Toml) → Option Toml
  | [] => none
  | (key, value) :: _ => if key = Moment.mark then some value else none

/-- The moment of the value under the mark. -/
def readMarked : Toml → Option Toml
  | .string s => (Moment.ofText? s).map .moment
  | _ => none

/-- Puts an entry at its key's place in entries that are in the order of their keys. -/
def insertEntry (entry : String × Toml) : List (String × Toml) → List (String × Toml)
  | [] => [entry]
  | first :: rest =>
    if entry.1 < first.1 then entry :: first :: rest else first :: insertEntry entry rest

mutual
/-- The settled value, unless one of its tables has the mark as its first key over no moment. What
else stands in a table with the mark is not looked at. -/
def settle? : Toml → Option Toml
  | .array items => (settleItems? items).map .array
  | .table entries =>
    match marked? entries with
    | some value => readMarked value
    | none => (settleEntries? entries).map .table
  | v => some v

/-- The settled items of an array. -/
def settleItems? : List Toml → Option (List Toml)
  | [] => some []
  | item :: rest => do
    let item ← settle? item
    let rest ← settleItems? rest
    some (item :: rest)

/-- The settled entries of a table that stands for itself. -/
def settleEntries? : List (String × Toml) → Option (List (String × Toml))
  | [] => some []
  | (key, value) :: rest => do
    let value ← settle? value
    let rest ← settleEntries? rest
    some (insertEntry (key, value) rest)
end

/-! ## Lemmas -/

theorem perm_insertEntry (entry : String × Toml) (entries : List (String × Toml)) :
    (insertEntry entry entries).Perm (entry :: entries) := by
  induction entries with
  | nil => exact .refl _
  | cons first rest ih =>
    unfold insertEntry
    split
    · exact .refl _
    · exact (ih.cons first).trans (.swap entry first rest)

theorem ordered_insertEntry {entry : String × Toml} {entries : List (String × Toml)}
    (h : entries.Pairwise fun a b => a.1 ≤ b.1) :
    (insertEntry entry entries).Pairwise fun a b => a.1 ≤ b.1 := by
  induction entries with
  | nil => exact List.pairwise_singleton _ _
  | cons first rest ih =>
    obtain ⟨hf, hr⟩ := List.pairwise_cons.1 h
    unfold insertEntry
    split
    · rename_i hlt
      have hle : entry.1 ≤ first.1 := String.not_lt.1 (String.lt_asymm hlt)
      refine List.pairwise_cons.2 ⟨fun b hb => ?_, h⟩
      rcases List.mem_cons.1 hb with rfl | hb
      · exact hle
      · exact String.le_trans hle (hf b hb)
    · rename_i hge
      refine List.pairwise_cons.2 ⟨fun b hb => ?_, ih hr⟩
      rcases List.mem_cons.1 ((perm_insertEntry entry rest).mem_iff.1 hb) with rfl | hb
      · exact String.not_lt.1 hge
      · exact hf b hb

theorem ordered_of_settleEntries? {entries settled : List (String × Toml)}
    (h : settleEntries? entries = some settled) : settled.Pairwise fun a b => a.1 ≤ b.1 := by
  induction entries generalizing settled with
  | nil =>
    unfold settleEntries? at h
    cases h
    exact .nil
  | cons entry rest ih =>
    unfold settleEntries? at h
    cases hv : settle? entry.2 with
    | none => simp [hv] at h
    | some value =>
      cases hr : settleEntries? rest with
      | none => simp [hv, hr] at h
      | some others =>
        simp only [hv, hr, Option.bind_eq_bind, Option.bind_some, Option.some.injEq] at h
        exact h ▸ ordered_insertEntry (ih hr)

theorem perm_keys_of_settleEntries? {entries settled : List (String × Toml)}
    (h : settleEntries? entries = some settled) :
    (settled.map Prod.fst).Perm (entries.map Prod.fst) := by
  induction entries generalizing settled with
  | nil =>
    unfold settleEntries? at h
    cases h
    exact .refl _
  | cons entry rest ih =>
    unfold settleEntries? at h
    cases hv : settle? entry.2 with
    | none => simp [hv] at h
    | some value =>
      cases hr : settleEntries? rest with
      | none => simp [hv, hr] at h
      | some others =>
        simp only [hv, hr, Option.bind_eq_bind, Option.bind_some, Option.some.injEq] at h
        subst h
        exact ((perm_insertEntry (entry.1, value) others).map Prod.fst).trans ((ih hr).cons entry.1)

end FeedFiler.Toml
