import Mathlib.Data.List.Forall2
import FeedFiler.Proofs.Config.Entries
import FeedFiler.Run.Replay

/-!
# Which routes have filers

A route has a filer when its own fields are sound and its filter and path compile. The report on the
routes looks at the fields alone, so it lists some routes that have no filer.
-/

namespace FeedFiler

/-! ## Filters -/

/-- The test of a filter is known, and the options that it needs are given. -/
def FilterEntry.Complete (f : FilterEntry) : Prop :=
  (f.test = "=" ∧ (∃ key ∈ f.key, key ≠ "") ∧ f.value.isSome) ∨
    (f.test = "in" ∧ ∃ key ∈ f.key, key ≠ "") ∨
    (f.test = "inside" ∧ 3 ≤ f.points.length)

instance (f : FilterEntry) : Decidable f.Complete :=
  inferInstanceAs (Decidable (_ ∨ _ ∨ _))

theorem Predicate.isOk_keyOf (f : FilterEntry) : (Predicate.keyOf f).isOk ↔ ∃ key ∈ f.key, key ≠ "" := by
  unfold Predicate.keyOf
  cases f.key with
  | none => simp [Except.isOk, Except.toBool]
  | some key => by_cases h : key = "" <;> simp [Except.isOk, Except.toBool, h]

theorem Predicate.isOk_ofEntry (f : FilterEntry) : (Predicate.ofEntry f).isOk ↔ f.Complete := by
  have hkey := isOk_keyOf f
  unfold Predicate.ofEntry FilterEntry.Complete
  split
  · next ht =>
      cases hk : Predicate.keyOf f with
      | error cause =>
          rw [← hkey]
          simp [hk, ht, bind, Except.bind, Except.isOk, Except.toBool]
      | ok key =>
          rw [← hkey]
          cases f.value <;> simp [hk, ht, bind, Except.bind, Except.isOk, Except.toBool]
  · next hne =>
      split
      · next ht =>
          split
          · next hl => simp [ht, Except.isOk, Except.toBool, hl]
          · next hl => simp [ht, Except.isOk, Except.toBool, Nat.le_of_not_lt hl]
      · next hni =>
          split
          · next ht =>
              rw [← hkey]
              cases Predicate.keyOf f <;> simp [ht, Except.map, Except.isOk, Except.toBool]
          · next ht => simp [hne, hni, ht, Except.isOk, Except.toBool]

/-! ## Routes -/

namespace RouteEntry

/-- The fields of a route are sound in themselves. -/
structure Sound (r : RouteEntry) : Prop where
  source : ∃ address ∈ r.sourceAddress, address ≠ ""
  path : r.storePath.isSome
  name : ∃ template ∈ r.storeName, template ≠ ""
  shape : ¬ (r.flatten.isSome ∧ r.recordsData.isSome)
  mode : r.storeMode = none ∨ r.storeMode = some "write" ∨ r.storeMode = some "append"

/-- The filter and the path of a route compile, if it has them. -/
structure Compiles (r : RouteEntry) : Prop where
  filter : ∀ f ∈ r.sourceFilter, f.Complete
  path : ∀ path ∈ r.recordsData, (RecordPath.compile path).isOk

instance (r : RouteEntry) : Decidable r.Compiles :=
  decidable_of_iff ((∀ f ∈ r.sourceFilter, f.Complete) ∧ ∀ path ∈ r.recordsData, (RecordPath.compile path).isOk)
    ⟨fun h => ⟨h.1, h.2⟩, fun h => ⟨h.filter, h.path⟩⟩

variable {name : String} {r : RouteEntry}

theorem isEmpty_getD_iff {s : Option String} : (s.getD "").isEmpty ↔ ¬ ∃ x ∈ s, x ≠ "" := by
  cases s <;> simp

theorem isOk_mode (name : String) (r : RouteEntry) : (r.mode name).isOk ↔
    r.storeMode = none ∨ r.storeMode = some "write" ∨ r.storeMode = some "append" := by
  unfold mode StoreMode.ofWord?
  cases r.storeMode with
  | none => simp [Except.isOk, Except.toBool]
  | some word =>
      by_cases hw : word = "write"
      · simp [hw, Except.isOk, Except.toBool]
      · by_cases ha : word = "append" <;> simp [hw, ha, Except.isOk, Except.toBool]

theorem isOk_unless {ε α : Type} {p : Prop} [Decidable p] {cause : ε} {x : Except ε α} :
    (if p then .error cause else x).isOk ↔ ¬ p ∧ x.isOk := by
  split <;> simp [*, Except.isOk, Except.toBool]

theorem isOk_validate (name : String) (r : RouteEntry) : (r.validate name).isOk ↔ r.Sound := by
  have hmode : ((r.mode name).map fun _ => ()).isOk ↔ (r.mode name).isOk := by cases r.mode name <;> rfl
  rw [validate, isOk_unless, isOk_unless, isOk_unless, isOk_unless, hmode, isOk_mode, isEmpty_getD_iff,
    isEmpty_getD_iff, not_not, not_not, Option.isNone_iff_eq_none, ← ne_eq, ← Option.isSome_iff_ne_none]
  constructor
  · rintro ⟨source, path, name, shape, mode⟩
    exact ⟨source, path, name, shape, mode⟩
  · rintro ⟨source, path, name, shape, mode⟩
    exact ⟨source, path, name, shape, mode⟩

instance (r : RouteEntry) : Decidable r.Sound := decidable_of_iff _ (isOk_validate "" r)

theorem Sound.validate (h : r.Sound) (name : String) : r.validate name = .ok () := by
  have hok := (isOk_validate name r).2 h
  cases hv : r.validate name with
  | error cause => simp [hv, Except.isOk, Except.toBool] at hok
  | ok _ => rfl

end RouteEntry

namespace FilerRule

variable {name : String} {r : RouteEntry}

theorem isOk_predicateOf (r : RouteEntry) : (predicateOf r).isOk ↔ ∀ f ∈ r.sourceFilter, f.Complete := by
  unfold predicateOf
  cases hf : r.sourceFilter with
  | none => simp [Except.isOk, Except.toBool]
  | some f =>
      have h : ((Predicate.ofEntry f).map some).isOk ↔ (Predicate.ofEntry f).isOk := by
        cases Predicate.ofEntry f <;> rfl
      simp [h, Predicate.isOk_ofEntry]

theorem isOk_reshapeOf (h : r.Sound) :
    (reshapeOf r).isOk ↔ ∀ path ∈ r.recordsData, (RecordPath.compile path).isOk := by
  have hshape := h.shape
  unfold reshapeOf
  cases hf : r.flatten with
  | some key =>
      cases hp : r.recordsData with
      | some path => simp [hf, hp] at hshape
      | none => simp [Except.isOk, Except.toBool]
  | none =>
      cases hp : r.recordsData with
      | some path => cases hc : RecordPath.compile path <;> simp [hc, Except.map, Except.isOk, Except.toBool]
      | none => simp [Except.isOk, Except.toBool]

end FilerRule

namespace Filer

variable {name : String} {r : RouteEntry} {f : Filer}

/-- The filer does what the route says: its texts are those of the route, not defaults. -/
structure Serves (route : String) (r : RouteEntry) (f : Filer) : Prop where
  name : f.rule.name = route
  source : r.sourceAddress = some f.rule.source.text
  predicate : FilerRule.predicateOf r = .ok f.rule.predicate
  reshape : FilerRule.reshapeOf r = .ok f.rule.reshape
  path : r.storePath = some f.rule.storePath
  file : r.storeName = some f.rule.storeName
  mode : r.mode route = .ok f.rule.mode
  counters : f.counters = {}

theorem ofEntry_eq (name : String) (r : RouteEntry) : Filer.ofEntry name r =
    match r.validate name, FilerRule.predicateOf r, FilerRule.reshapeOf r, r.mode name with
    | .error cause, _, _, _ => .error (.entry cause)
    | .ok _, .error cause, _, _ => .error (.rule name cause)
    | .ok _, .ok _, .error cause, _ => .error (.rule name cause)
    | .ok _, .ok _, .ok _, .error cause => .error (.entry cause)
    | .ok _, .ok predicate, .ok reshape, .ok mode => .ok { rule := {
        name
        source := ⟨r.sourceAddress.getD ""⟩
        predicate
        reshape
        storePath := r.storePath.getD ""
        storeName := r.storeName.getD ""
        mode } } := by
  rw [Filer.ofEntry, FilerRule.ofEntry]
  cases r.validate name with
  | error cause => rfl
  | ok _ =>
      cases FilerRule.predicateOf r with
      | error cause => rfl
      | ok predicate =>
          cases FilerRule.reshapeOf r with
          | error cause => rfl
          | ok reshape => cases r.mode name <;> rfl

/-- What becomes of a route: its own fields are at fault, its filter or its path does not compile, or it has
a filer that does what it says. -/
theorem ofEntry_cases (name : String) (r : RouteEntry) :
    (∃ cause, r.validate name = .error cause ∧ Filer.ofEntry name r = .error (.entry cause)) ∨
    (r.Sound ∧ ¬ r.Compiles ∧ ∃ cause, Filer.ofEntry name r = .error (.rule name cause)) ∨
    (r.Sound ∧ r.Compiles ∧ ∃ f, Filer.ofEntry name r = .ok f ∧ Serves name r f) := by
  have hvalid := RouteEntry.isOk_validate name r
  have hpredicate := FilerRule.isOk_predicateOf r
  have hmode := RouteEntry.isOk_mode name r
  rw [ofEntry_eq]
  cases hv : r.validate name with
  | error cause => exact .inl ⟨cause, rfl, rfl⟩
  | ok _ =>
      have hs : r.Sound := hvalid.1 (by rw [hv]; rfl)
      have hreshape := FilerRule.isOk_reshapeOf hs
      refine .inr ?_
      cases hp : FilerRule.predicateOf r with
      | error cause =>
          rw [hp] at hpredicate
          exact .inl ⟨hs, fun hc => Bool.noConfusion (hpredicate.2 hc.filter), cause, rfl⟩
      | ok predicate =>
          cases hr : FilerRule.reshapeOf r with
          | error cause =>
              rw [hr] at hreshape
              exact .inl ⟨hs, fun hc => Bool.noConfusion (hreshape.2 hc.path), cause, rfl⟩
          | ok reshape =>
              cases hm : r.mode name with
              | error cause =>
                  rw [hm] at hmode
                  exact Bool.noConfusion (hmode.2 hs.mode)
              | ok mode =>
                  obtain ⟨address, ha, -⟩ := hs.source
                  obtain ⟨path, hpath⟩ := Option.isSome_iff_exists.1 hs.path
                  obtain ⟨file, hfile, -⟩ := hs.name
                  rw [Option.mem_def] at ha hfile
                  refine .inr ⟨hs, ⟨hpredicate.1 (by rw [hp]; rfl), hreshape.1 (by rw [hr]; rfl)⟩, _, rfl, ?_⟩
                  exact ⟨rfl, by simp [ha], hp, hr, by simp [hpath], by simp [hfile], hm, rfl⟩

theorem serves_of_ofEntry (h : Filer.ofEntry name r = .ok f) : r.Sound ∧ r.Compiles ∧ Serves name r f := by
  rcases ofEntry_cases name r with ⟨cause, -, he⟩ | ⟨-, -, cause, he⟩ | ⟨hs, hc, g, he, hg⟩
  · rw [he] at h
    cases h
  · rw [he] at h
    cases h
  · rw [he] at h
    cases h
    exact ⟨hs, hc, hg⟩

end Filer

/-! ## The filers of a configuration -/

theorem forall₂_filter_filterMap {α β : Type} {R : α → β → Prop} {p : α → Bool} {g : α → Option β} {l : List α}
    (hsome : ∀ x, p x → ∃ y, g x = some y ∧ R x y) (hnone : ∀ x, ¬ p x → g x = none) :
    List.Forall₂ R (l.filter p) (l.filterMap g) := by
  induction l with
  | nil => exact .nil
  | cons x l ih =>
      by_cases hp : p x
      · obtain ⟨y, hy, hr⟩ := hsome x hp
        rw [List.filter_cons_of_pos hp, List.filterMap_cons_some hy]
        exact .cons hr ih
      · rw [List.filter_cons_of_neg hp, List.filterMap_cons_none (hnone x hp)]
        exact ih

theorem map_eq_map_of_forall₂ {α β γ : Type} {f : α → γ} {g : β → γ} {as : List α} {bs : List β}
    (h : List.Forall₂ (fun a b => f a = g b) as bs) : as.map f = bs.map g := by
  rw [← List.forall₂_eq_eq_eq, List.forall₂_map_left_iff, List.forall₂_map_right_iff]
  exact h

namespace Config

variable {c : Config} {m : String} {r : RouteEntry}

/-- The routes that have filers. -/
def runnableRoutes (c : Config) : List (String × RouteEntry) :=
  c.routes.typed.filter fun x => decide (x.2.Sound ∧ x.2.Compiles)

theorem filers_serve (c : Config) :
    List.Forall₂ (fun x f => Filer.Serves x.1 x.2 f) c.runnableRoutes c.filers := by
  refine forall₂_filter_filterMap (fun x hx => ?_) fun x hx => ?_
  · have h := of_decide_eq_true hx
    rcases Filer.ofEntry_cases x.1 x.2 with ⟨cause, he, -⟩ | ⟨-, hn, -⟩ | ⟨-, -, f, he, hf⟩
    · rw [h.1.validate] at he
      cases he
    · exact absurd h.2 hn
    · exact ⟨f, by simp [he, Except.toOption], hf⟩
  · rw [decide_eq_true_iff] at hx
    cases he : Filer.ofEntry x.1 x.2 with
    | error cause => simp [he, Except.toOption]
    | ok f =>
        obtain ⟨hs, hc, -⟩ := Filer.serves_of_ofEntry he
        exact absurd ⟨hs, hc⟩ hx

theorem map_name_filers (c : Config) : c.filers.map (·.rule.name) = c.runnableRoutes.map Prod.fst :=
  (map_eq_map_of_forall₂ ((filers_serve c).imp fun _ _ h => h.name.symm)).symm

theorem usableRoutes_eq (c : Config) :
    c.usableRoutes = (c.routes.typed.filter fun x => decide x.2.Sound).map Prod.fst := by
  have h : List.Forall₂ (fun (x : String × RouteEntry) name => x.1 = id name)
      (c.routes.typed.filter fun x => decide x.2.Sound) c.usableRoutes := by
    refine forall₂_filter_filterMap (fun x hx => ?_) fun x hx => ?_
    · exact ⟨x.1, by simp [(of_decide_eq_true hx).validate, Except.toOption], rfl⟩
    · rw [decide_eq_true_iff, ← RouteEntry.isOk_validate x.1] at hx
      cases hv : x.2.validate x.1 with
      | error cause => simp [hv, Except.toOption]
      | ok _ => simp [hv, Except.isOk, Except.toBool] at hx
  rw [map_eq_map_of_forall₂ h, List.map_id]

/-! ## The report -/

theorem route_eq_ok_iff : c.route m = .ok r ↔ (m, r) ∈ c.routes.typed := by
  rw [Entries.mem_typed, route, Entries.find]
  cases c.routes[m]? with
  | none => simp
  | some entry => cases entry <;> simp

/-- **The filers are those of the usable routes that compile.** They stand in the order of the report.
Any other route without a filer is reported with a fault. -/
theorem filers_are_usable_routes_that_compile (c : Config) :
    c.filers.map (·.rule.name) =
      c.usableRoutes.filter (fun name => (c.route name).toOption.any fun r => decide r.Compiles) ∧
    ∀ m, c.routes[m]?.isSome → m ∉ c.filers.map (·.rule.name) →
      (∃ fault ∈ c.routeFaults, fault.subject? = some (.route, m)) ∨
      (m ∈ c.usableRoutes ∧ ∃ r cause, c.route m = .ok r ∧ ¬ r.Compiles ∧
        Filer.ofEntry m r = .error (.rule m cause)) := by
  constructor
  · rw [map_name_filers, usableRoutes_eq, List.filter_map, List.filter_filter, runnableRoutes]
    refine congrArg (List.map Prod.fst) (List.filter_congr fun x hx => ?_)
    simp [Function.comp, route_eq_ok_iff.2 hx, Except.toOption, and_comm]
  · intro m hm hn
    cases he : c.routes[m]? with
    | none => simp [he] at hm
    | some entry =>
        cases entry with
        | error cause =>
            have hmem := List.mem_map_of_mem (f := fun x : String × Malformation =>
              ConfigError.malformed .route x.1 x.2) (Entries.mem_malformed.2 he)
            exact .inl ⟨_, List.mem_append_right _ hmem, rfl⟩
        | ok r =>
            have hmem := Entries.mem_typed.2 he
            rcases Filer.ofEntry_cases m r with ⟨cause, hv, -⟩ | ⟨hs, hc, cause, ho⟩ | ⟨-, -, f, ho, hf⟩
            · refine .inl ⟨cause, List.mem_append_left _ (List.mem_filterMap.2 ⟨(m, r), hmem, ?_⟩),
                RouteEntry.subject?_of_validate hv⟩
              simp [hv]
            · refine .inr ⟨?_, r, cause, route_eq_ok_iff.2 hmem, hc, ho⟩
              rw [usableRoutes_eq]
              exact List.mem_map_of_mem (f := Prod.fst) (List.mem_filter.2 ⟨hmem, decide_eq_true hs⟩)
            · refine absurd (List.mem_map.2 ⟨f, List.mem_filterMap.2 ⟨(m, r), hmem, ?_⟩, hf.name⟩) hn
              simp [ho, Except.toOption]

@[irreducible] def unknownTest : String :=
  "[routes.r]\nsource_address = 'a'\nstore_path = 'd'\nstore_name = 'n'\nsource_filter.test = '!='\n"

theorem unknownTest_has_no_filer : ∃ c, parse unknownTest = .ok c ∧
    c.filers.map (·.rule.name) = [] ∧ c.usableRoutes = ["r"] ∧
    ∃ r cause, c.route "r" = .ok r ∧ ¬ r.Compiles ∧ Filer.ofEntry "r" r = .error (.rule "r" cause) := by
  have hc : (parse unknownTest).toOption.map (fun c => (c.filers.map (·.rule.name), c.usableRoutes,
      c.routeFaults.length, c.routes["r"]?.isSome)) = some ([], ["r"], 0, true) := by decide +kernel
  cases hp : parse unknownTest with
  | error cause =>
      rw [hp] at hc
      cases hc
  | ok c =>
      simp only [hp, Except.toOption, Option.map_some, Option.some.injEq, Prod.mk.injEq] at hc
      obtain ⟨hfilers, husable, hfaults, hr⟩ := hc
      obtain ⟨-, hleft⟩ := filers_are_usable_routes_that_compile c
      obtain ⟨fault, hf, -⟩ | ⟨-, r, cause, hroute, hcompiles, hfiler⟩ := hleft "r" hr (by simp [hfilers])
      · rw [List.length_eq_zero_iff.1 hfaults] at hf
        cases hf
      · exact ⟨c, rfl, hfilers, husable, r, cause, hroute, hcompiles, hfiler⟩

/-- A route whose filter has an unknown test is listed as usable, without a fault, and has no filer. -/
theorem unknown_test_is_usable :
    (parse unknownTest).toOption.map
        (fun c => (c.usableRoutes, c.routeFaults.map ConfigError.subject?, c.filers.map (·.rule.name))) =
      some (["r"], [], []) := by
  decide +kernel

end Config

end FeedFiler
