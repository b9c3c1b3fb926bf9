import FeedFiler.Proofs.Config.Filers

/-!
# Entries do not disturb each other

Of a name that occurs twice the first entry in the text counts, and each entry is settled and read for
itself. So a change of one entry, whatever its kind, is seen at this entry's name alone.
-/

namespace FeedFiler

open Toml (settle? settleEntries? insertEntry)

namespace Toml

variable {entry : String × Toml} {entries settled : List (String × Toml)}

theorem lookup_cons (entry : String × Toml) (entries : List (String × Toml)) (name : String) :
    (entry :: entries).lookup name = if name = entry.1 then some entry.2 else entries.lookup name := by
  obtain ⟨key, value⟩ := entry
  rw [List.lookup_cons]
  by_cases h : name = key
  · simp [h]
  · rw [beq_false_of_ne h, if_neg h]

/-- Read from its end, a settled table gives the entry that was put in last. -/
theorem lookup_reverse_insertEntry (h : entries.Pairwise fun a b => a.1 ≤ b.1) (name : String) :
    (insertEntry entry entries).reverse.lookup name =
      if name = entry.1 then some entry.2 else entries.reverse.lookup name := by
  induction entries with
  | nil => exact lookup_cons entry [] name
  | cons first rest ih =>
      obtain ⟨hf, hr⟩ := List.pairwise_cons.1 h
      unfold insertEntry
      split
      · next hlt =>
          rw [List.reverse_cons, List.lookup_append, lookup_cons entry []]
          by_cases hn : name = entry.1
          · -- the entry stands before all others, which have greater keys
            have hnone : (first :: rest).reverse.lookup name = none := by
              refine List.lookup_eq_none_iff.2 fun x hx => ?_
              have hle : first.1 ≤ x.1 := by
                rcases List.mem_cons.1 (List.mem_reverse.1 hx) with rfl | hx
                · exact String.le_refl _
                · exact hf x hx
              rw [bne_iff_ne, hn]
              exact fun he => hle (he ▸ hlt)
            rw [hnone, if_pos hn, if_pos hn, Option.none_or]
          · rw [if_neg hn, if_neg hn, List.lookup_nil, Option.or_none]
      · rw [List.reverse_cons, List.lookup_append, ih hr, List.reverse_cons, List.lookup_append]
        by_cases hn : name = entry.1
        · rw [if_pos hn, if_pos hn, Option.some_or]
        · rw [if_neg hn, if_neg hn]

theorem lookup_reverse_of_settleEntries? (h : settleEntries? entries = some settled) (name : String) :
    settled.reverse.lookup name = (entries.lookup name).bind settle? := by
  induction entries generalizing settled with
  | nil =>
      unfold settleEntries? at h
      cases h
      rfl
  | cons entry rest ih =>
      unfold settleEntries? at h
      cases hv : settle? entry.2 with
      | none => simp [hv] at h
      | some value =>
          cases hr : settleEntries? rest with
          | none => simp [hv, hr] at h
          | some others =>
              simp only [hv, hr, Option.bind_eq_bind, Option.bind_some, Option.some.injEq] at h
              rw [← h, lookup_reverse_insertEntry (ordered_of_settleEntries? hr), ih hr]
              rw [lookup_cons]
              split
              · exact hv.symm
              · rfl

end Toml

namespace Config

theorem getElem?_ofList {β : Type} (l : List (String × β)) (name : String) :
    (Std.ExtTreeMap.ofList l)[name]? = l.reverse.lookup name := by
  rw [Std.ExtTreeMap.ofList_eq_insertMany_empty, Std.ExtTreeMap.getElem?_insertMany_list,
    List.findSomeRev?_eq_findSome?_reverse, Std.ExtTreeMap.getElem?_empty, Option.or_none,
    List.lookup_eq_findSome?]
  congr 1
  funext x
  by_cases h : x.1 = name
  · simp [h]
  · simp [h, Ne.symm h]

theorem Entries.getElem?_read {α : Type} (shape : Shape α) (tables : List (String × Toml)) (name : String) :
    (Entries.read shape tables)[name]? = (tables.reverse.lookup name).map shape.read := by
  rw [Entries.read, getElem?_ofList, ← List.map_reverse]
  induction tables.reverse with
  | nil => rfl
  | cons table tables ih =>
      rw [List.map_cons, List.lookup_cons, List.lookup_cons, ih]
      cases name == table.1 <;> rfl

variable {α : Type} {shape : Shape α} {written settled : List (String × Toml)}

theorem Entries.getElem?_of_settled (h : settleEntries? written = some settled) (m : String) :
    (Entries.read shape settled)[m]? = ((written.lookup m).bind settle?).map shape.read := by
  rw [Entries.getElem?_read, Toml.lookup_reverse_of_settleEntries? h]

theorem Entries.isSome_getElem?_of_settled (h : settleEntries? written = some settled) (m : String) :
    (Entries.read shape settled)[m]?.isSome ↔ m ∈ written.map Prod.fst := by
  rw [Entries.getElem?_read, Option.isSome_map, List.lookup_isSome_iff,
    ← (Toml.perm_keys_of_settleEntries? h).mem_iff]
  simp only [List.mem_reverse, beq_iff_eq, List.mem_map]
  exact ⟨fun ⟨x, hx, he⟩ => ⟨x, hx, he.symm⟩, fun ⟨x, hx, he⟩ => ⟨x, hx, he.symm⟩⟩

/-- The tables of a section as they are written. -/
def tablesIn (entries : List (String × Toml)) (name : String) : List (String × Toml) :=
  ((entries.lookup name).bind Toml.entries?).getD []

theorem settleEntries?_tablesIn {entries tables : List (String × Toml)} {name : String}
    (h : tablesOf entries name = .ok tables) : settleEntries? (tablesIn entries name) = some tables := by
  unfold tablesOf at h
  unfold tablesIn
  cases hv : entries.lookup name with
  | none =>
      rw [hv] at h
      cases h
      simp [settleEntries?]
  | some v =>
      cases he : v.entries? with
      | none => simp [hv, he] at h
      | some written =>
          cases hs : settleEntries? written with
          | none => simp [hv, he, hs] at h
          | some settled =>
              simp only [hv, he, hs, Option.bind_some, Except.ok.injEq] at h
              simpa [he, h] using hs

variable {text text₁ text₂ : String} {d d₁ d₂ : List (String × Toml)} {c c₁ c₂ : Config}

theorem sections_of_parse (hd : Toml.parse? text = some d) (h : parse text = .ok c) :
    ∃ feeds routes, settleEntries? (tablesIn d "feeds") = some feeds ∧
      settleEntries? (tablesIn d "routes") = some routes ∧
      c.feeds = .read FeedEntry.shape feeds ∧ c.routes = .read RouteEntry.shape routes := by
  simp only [parse, hd, ofEntries] at h
  cases hl : sectionOf logShape d "log" with
  | error cause => simp [hl, bind, Except.bind] at h
  | ok log =>
      cases hg : sectionOf globalShape d "global" with
      | error cause => simp [hl, hg, bind, Except.bind] at h
      | ok general =>
          cases hf : tablesOf d "feeds" with
          | error cause => simp [hl, hg, hf, bind, Except.bind] at h
          | ok feeds =>
              cases hr : tablesOf d "routes" with
              | error cause => simp [hl, hg, hf, hr, bind, Except.bind] at h
              | ok routes =>
                  simp only [hl, hg, hf, hr, bind, Except.bind] at h
                  split at h
                  · cases h
                  · cases h
                    exact ⟨feeds, routes, settleEntries?_tablesIn hf, settleEntries?_tablesIn hr, rfl, rfl⟩

/-! ## Isolation -/

/-- Two configurations say the same of the feed and the route of a name. -/
structure AgreeAt (m : String) (a b : Config) : Prop where
  feed : Entries.AgreeAt .feed FeedEntry.validate m a.feeds b.feeds
  route : Entries.AgreeAt .route RouteEntry.validate m a.routes b.routes
  filer : a.filers.filter (·.rule.name == m) = b.filers.filter (·.rule.name == m)

theorem filter_filers (c : Config) (m : String) :
    c.filers.filter (·.rule.name == m) = (c.routes[m]?.bind fun entry => entry.toOption.bind fun r =>
      (Filer.ofEntry m r).toOption).toList :=
  Entries.filter_filterMap_typed c.routes fun (name, r) f h => by
    cases hf : Filer.ofEntry name r with
    | error cause => simp [hf, Except.toOption] at h
    | ok g =>
        simp only [hf, Except.toOption, Option.some.injEq] at h
        rw [← h, (Filer.serves_of_ofEntry hf).2.2.name]

theorem AgreeAt.of_eq {m : String} {a b : Config} (hf : a.feeds[m]? = b.feeds[m]?)
    (hr : a.routes[m]? = b.routes[m]?) : AgreeAt m a b where
  feed := .of_eq FeedEntry.subject?_of_validate hf
  route := .of_eq RouteEntry.subject?_of_validate hr
  filer := by rw [filter_filers, filter_filers, hr]

/-- **Entries do not disturb each other.** Two texts whose feeds and routes differ at one name give
configurations that say the same of every other name. Each name of a table is mentioned exactly once among
the entries of the configuration, and exactly once in its report. -/
theorem isolated_and_listed_once :
    (∀ {n : String} {text₁ text₂ : String} {d₁ d₂ : List (String × Toml)} {c₁ c₂ : Config},
      Toml.parse? text₁ = some d₁ → Toml.parse? text₂ = some d₂ →
      parse text₁ = .ok c₁ → parse text₂ = .ok c₂ →
      (∀ m ≠ n, (tablesIn d₁ "feeds").lookup m = (tablesIn d₂ "feeds").lookup m) →
      (∀ m ≠ n, (tablesIn d₁ "routes").lookup m = (tablesIn d₂ "routes").lookup m) →
      ∀ m ≠ n, AgreeAt m c₁ c₂) ∧
    ∀ {text : String} {d : List (String × Toml)} {c : Config}, Toml.parse? text = some d → parse text = .ok c →
      Entries.Lists .feed FeedEntry.validate ((tablesIn d "feeds").map Prod.fst) c.feeds ∧
      Entries.Lists .route RouteEntry.validate ((tablesIn d "routes").map Prod.fst) c.routes := by
  constructor
  · intro n text₁ text₂ d₁ d₂ c₁ c₂ hd₁ hd₂ h₁ h₂ hfeeds hroutes m hm
    obtain ⟨feeds₁, routes₁, hf₁, hr₁, hcf₁, hcr₁⟩ := sections_of_parse hd₁ h₁
    obtain ⟨feeds₂, routes₂, hf₂, hr₂, hcf₂, hcr₂⟩ := sections_of_parse hd₂ h₂
    apply AgreeAt.of_eq
    · rw [hcf₁, hcf₂, Entries.getElem?_of_settled hf₁, Entries.getElem?_of_settled hf₂, hfeeds m hm]
    · rw [hcr₁, hcr₂, Entries.getElem?_of_settled hr₁, Entries.getElem?_of_settled hr₂, hroutes m hm]
  · intro text d c hd h
    obtain ⟨feeds, routes, hf, hr, hcf, hcr⟩ := sections_of_parse hd h
    constructor
    · rw [hcf]
      exact Entries.lists_of_iff FeedEntry.subject?_of_validate (Entries.isSome_getElem?_of_settled hf)
    · rw [hcr]
      exact Entries.lists_of_iff RouteEntry.subject?_of_validate (Entries.isSome_getElem?_of_settled hr)

/-! A route that cannot be read, beside one that has a filer. -/

@[irreducible] def soundRoute : String := "[routes.a]\nsource_address = 's'\nstore_path = 'd'\nstore_name = 'x'\n"

@[irreducible] def withBrokenRoute : String := soundRoute ++ "[routes.n]\nstore_path = 5\n"

/-- The texts under the keys of a table, if it holds nothing else. -/
def textsOf? : List (String × Toml) → Option (List (String × String))
  | [] => some []
  | (key, .string s) :: entries => (textsOf? entries).map ((key, s) :: ·)
  | _ => none

theorem eq_of_textsOf? {entries : List (String × Toml)} {texts : List (String × String)}
    (h : textsOf? entries = some texts) : entries = texts.map fun x => (x.1, .string x.2) := by
  fun_induction textsOf? entries generalizing texts with
  | case1 =>
      cases h
      rfl
  | case2 key s entries ih =>
      obtain ⟨rest, hrest, rfl⟩ := Option.map_eq_some_iff.1 h
      rw [List.map_cons, ← ih hrest]
  | case3 => cases h

def tableTexts? : Toml → Option (List (String × String))
  | .table entries => textsOf? entries
  | _ => none

theorem eq_of_tableTexts? {v w : Toml} {texts : List (String × String)} (hv : tableTexts? v = some texts)
    (hw : tableTexts? w = some texts) : v = w := by
  cases v <;> try cases hv
  cases w <;> try cases hw
  rw [eq_of_textsOf? hv, eq_of_textsOf? hw]

theorem lookup_eq_none {tables : List (String × Toml)} {m : String} (h : m ∉ tables.map Prod.fst) :
    tables.lookup m = none := by
  refine List.lookup_eq_none_iff.2 fun x hx => ?_
  rw [bne_iff_ne]
  rintro rfl
  exact h (List.mem_map_of_mem hx)

theorem broken_route_isolated :
    ∃ d₁ d₂ c₁ c₂, Toml.parse? soundRoute = some d₁ ∧ Toml.parse? withBrokenRoute = some d₂ ∧
      parse soundRoute = .ok c₁ ∧ parse withBrokenRoute = .ok c₂ ∧
      c₁.filers.map (·.rule.name) = ["a"] ∧ c₁.routes.malformed.map Prod.fst = [] ∧
      c₂.routes.malformed.map Prod.fst = ["n"] ∧ AgreeAt "a" c₁ c₂ ∧
      Entries.Lists .route RouteEntry.validate ["a", "n"] c₂.routes := by
  have hk₁ : (Toml.parse? soundRoute).map (fun d => ((tablesIn d "feeds").map Prod.fst,
      (tablesIn d "routes").map Prod.fst)) = some ([], ["a"]) := by decide +kernel
  have hk₂ : (Toml.parse? withBrokenRoute).map (fun d => ((tablesIn d "feeds").map Prod.fst,
      (tablesIn d "routes").map Prod.fst)) = some ([], ["a", "n"]) := by decide +kernel
  have ht : ((Toml.parse? soundRoute).bind fun d => ((tablesIn d "routes").lookup "a").bind tableTexts?) =
        some [("source_address", "s"), ("store_path", "d"), ("store_name", "x")] ∧
      ((Toml.parse? withBrokenRoute).bind fun d => ((tablesIn d "routes").lookup "a").bind tableTexts?) =
        some [("source_address", "s"), ("store_path", "d"), ("store_name", "x")] := by decide +kernel
  have hc₁ : (parse soundRoute).toOption.map (fun c => (c.filers.map (·.rule.name),
      c.routes.malformed.map Prod.fst)) = some (["a"], []) := by decide +kernel
  have hc₂ : (parse withBrokenRoute).toOption.map (fun c => c.routes.malformed.map Prod.fst) = some ["n"] := by
    decide +kernel
  obtain ⟨d₁, hd₁, hk₁⟩ := Option.map_eq_some_iff.1 hk₁
  obtain ⟨d₂, hd₂, hk₂⟩ := Option.map_eq_some_iff.1 hk₂
  obtain ⟨c₁, hp₁, hc₁⟩ := Option.map_eq_some_iff.1 hc₁
  obtain ⟨c₂, hp₂, hc₂⟩ := Option.map_eq_some_iff.1 hc₂
  rw [Prod.mk.injEq] at hk₁ hk₂ hc₁
  rw [hd₁, hd₂, Option.bind_some, Option.bind_some] at ht
  have ok_of_toOption : ∀ {x : Except ConfigError Config} {c}, x.toOption = some c → x = .ok c := by
    intro x c h
    cases x <;> cases h
    rfl
  have hp₁ := ok_of_toOption hp₁
  have hp₂ := ok_of_toOption hp₂
  refine ⟨d₁, d₂, c₁, c₂, hd₁, hd₂, hp₁, hp₂, hc₁.1, hc₁.2, hc₂, ?_, ?_⟩
  · refine isolated_and_listed_once.1 (n := "n") hd₁ hd₂ hp₁ hp₂ (fun m _ => ?_) (fun m hm => ?_) "a" (by decide)
    · rw [lookup_eq_none (by simp [hk₁.1]), lookup_eq_none (by simp [hk₂.1])]
    · by_cases ha : m = "a"
      · obtain ⟨v, hv, htv⟩ := Option.bind_eq_some_iff.1 ht.1
        obtain ⟨w, hw, htw⟩ := Option.bind_eq_some_iff.1 ht.2
        rw [ha, hv, hw, eq_of_tableTexts? htv htw]
      · rw [lookup_eq_none (by simp [hk₁.2, ha]), lookup_eq_none (by simp [hk₂.2, ha, hm])]
  · rw [← hk₂.2]
    exact (isolated_and_listed_once.2 hd₂ hp₂).2

end Config

end FeedFiler
