import FeedFiler.Proofs.Bus.Wiring
import FeedFiler.Proofs.Config.Filers
import FeedFiler.Proofs.Routing.Accepting

/-!
# Starting the bus of a configuration

The filers of a configuration have distinct names and addresses that are not empty, so the routing table
refuses none of them as long as there are numbers for them. What remains is the queue size: a channel cannot
be made for every size that a configuration may ask for.
-/

namespace FeedFiler

namespace RoutingBuilder

variable {b : RoutingBuilder} {routes more : List (String × Address)}

/-- Routes with new names and addresses that are not empty are all accepted, as long as there are numbers. -/
theorem Accepts.addAll_ok (h : b.Accepts routes) (hn : ((routes ++ more).map Prod.fst).Nodup)
    (ha : ∀ route ∈ more, route.2.isEmpty = false) (hl : (routes ++ more).length ≤ RouteId.count) :
    ∃ result, b.addAll more = .ok result := by
  -- The names must differ from those accepted before as well, so the statement is about both lists.
  induction more generalizing b routes with
  | nil => exact ⟨_, rfl⟩
  | cons route more ih =>
      obtain ⟨name, address⟩ := route
      have hnew : name ∉ routes.map Prod.fst := by
        rw [List.map_append, List.map_cons, List.nodup_middle, List.nodup_cons] at hn
        exact fun hm => hn.1 (List.mem_append_left _ hm)
      have hempty : address.isEmpty = false := ha (name, address) (List.mem_cons_self ..)
      have hroom : routes.length ≠ RouteId.count := by
        rw [List.length_append, List.length_cons] at hl
        omega
      have hanswer := h.answer_eq name address
      rw [answer, if_neg hnew, hempty, if_neg Bool.false_ne_true, if_neg hroom] at hanswer
      rw [RoutingBuilder.addAll]
      cases hadd : b.add name address with
      | mk result b₁ =>
          rw [hadd] at hanswer
          cases hanswer
          rw [List.append_cons] at hn hl
          obtain ⟨rest, hrest⟩ := ih (h.of_ok hadd).2.2 hn
            (fun route hr => ha route (List.mem_cons_of_mem _ hr)) hl
          dsimp only
          rw [hrest]
          exact ⟨_, rfl⟩

end RoutingBuilder

namespace Bus

variable {filers : List Filer} {queueSize : Nat}

/-- Filers with distinct names and addresses that are not empty start, unless their queues are too long. -/
theorem start_spec (hn : (filers.map (·.rule.name)).Nodup) (ha : ∀ f ∈ filers, f.rule.source.isEmpty = false)
    (hl : filers.length ≤ RouteId.count) (queueSize : Nat) (t : FileTree) :
    if filers = [] ∨ queueSize ≤ Channel.maxCapacity then ∃ b, start filers queueSize t = .ok b
    else start filers queueSize t = .error .capacity := by
  have hnames : ((filers.map fun f => (f.rule.name, f.rule.source)).map Prod.fst).Nodup := by
    simpa [Function.comp_def] using hn
  obtain ⟨⟨ids, builder⟩, hadd⟩ :=
    RoutingBuilder.accepts_empty.addAll_ok hnames (by simpa using ha) (by simpa using hl)
  have hsmall : 1 ≤ Channel.maxCapacity := by decide
  rw [start, hadd]
  simp only [Except.mapError, bind, Except.bind]
  split
  · next h => exact ⟨_, if_neg fun hc => h.elim hc.1 fun hle => by omega⟩
  · next h =>
      rw [not_or] at h
      exact if_pos ⟨h.1, by omega⟩

/-- The filers that an envelope for an address goes to, in the order in which they get it. -/
def destinations (b : Bus) (a : Address) : List (Option Filer) :=
  (b.router.table.route a).map fun id => (b.router.handles[id]?).bind fun handle => b.filers[handle.channel]?

theorem destinations_eq {t : FileTree} {b : Bus} (h : start filers queueSize t = .ok b) (a : Address) :
    b.destinations a = (filers.filter fun f => f.rule.source = a).map some := by
  obtain ⟨hfilers, -, hw, -⟩ := wired_of_start h
  have hlook : ∀ x ∈ filers.zipIdx, (b.router.handles[RouteId.ofNat x.2]?).bind
      (fun handle => b.filers[handle.channel]?) = some x.1 := by
    intro x hx
    have hi := List.mem_zipIdx_iff_getElem?.1 hx
    rw [hw.handles x.2 x.1 hi, Option.bind_some, hfilers, hi]
  have hfst : filers = filers.zipIdx.map Prod.fst := (List.zipIdx_map_fst 0 filers).symm
  rw [destinations, hw.route, RoutingBuilder.subscribers, routesOf, List.zipIdx_map, List.filter_map,
    List.map_map, List.map_map]
  conv => rhs; rw [hfst, List.filter_map, List.map_map]
  exact List.map_congr_left fun x hx => hlook x (List.mem_filter.1 hx).1

end Bus

namespace Config

variable {c : Config}

theorem increasing_names_typed {α : Type} (entries : Entries α) :
    (entries.typed.map Prod.fst).Pairwise (· < ·) := by
  rw [Entries.typed, List.pairwise_map, List.pairwise_filterMap]
  refine entries.ordered_keys_toList.imp fun {x y} hlt e he e' he' => ?_
  obtain ⟨_, -, rfl⟩ := Option.map_eq_some_iff.1 he
  obtain ⟨_, -, rfl⟩ := Option.map_eq_some_iff.1 he'
  exact compareOfLessAndEq_eq_lt.1 hlt

theorem increasing_names_filers (c : Config) : (c.filers.map (·.rule.name)).Pairwise (· < ·) := by
  rw [map_name_filers]
  exact (increasing_names_typed c.routes).sublist (List.filter_sublist.map Prod.fst)

theorem isEmpty_source_of_mem_filers {f : Filer} (h : f ∈ c.filers) : f.rule.source.isEmpty = false := by
  obtain ⟨⟨name, r⟩, -, ho⟩ := List.mem_filterMap.1 h
  cases hf : Filer.ofEntry name r with
  | error cause => simp [hf, Except.toOption] at ho
  | ok g =>
      simp only [hf, Except.toOption, Option.some.injEq] at ho
      obtain ⟨hs, -, hserves⟩ := Filer.serves_of_ofEntry hf
      obtain ⟨address, ha, hne⟩ := hs.source
      rw [Option.mem_def, hserves.source, Option.some.injEq, ho] at ha
      simpa [Address.isEmpty, ha] using hne

/-- **The filers of a configuration form a bus.** There is one for each route whose fields are sound and whose
filter and path compile, in the order of the names, and each does what its route says. The bus starts unless
the queues are too long for a channel, and then each address leads to the filers that have it, in the order
of their names. -/
theorem filers_start (c : Config) (hroutes : c.routes.typed.length ≤ RouteId.count) (queueSize : Nat)
    (t : FileTree) :
    List.Forall₂ (fun x f => Filer.Serves x.1 x.2 f) c.runnableRoutes c.filers ∧
    (c.filers.map (·.rule.name)).Pairwise (· < ·) ∧
    if c.filers = [] ∨ queueSize ≤ Channel.maxCapacity then
      ∃ b, Bus.start c.filers queueSize t = .ok b ∧
        ∀ a, b.destinations a = (c.filers.filter fun f => f.rule.source = a).map some
    else Bus.start c.filers queueSize t = .error .capacity := by
  have hnames := increasing_names_filers c
  refine ⟨filers_serve c, hnames, ?_⟩
  have hstart := Bus.start_spec (hnames.imp String.ne_of_lt) (fun f => isEmpty_source_of_mem_filers)
    (Nat.le_trans (List.length_filterMap_le ..) hroutes) queueSize t
  split at hstart
  · next h =>
      obtain ⟨b, hb⟩ := hstart
      rw [if_pos h]
      exact ⟨b, hb, Bus.destinations_eq hb⟩
  · next h =>
      rw [if_neg h]
      exact hstart

/-- Three routes; the second has a filter that does not compile. -/
@[irreducible] def threeRoutes : String :=
  "[routes.a]\nsource_address='x'\nstore_path=''\nstore_name='a'\n" ++
  "[routes.b]\nsource_address='x'\nstore_path=''\nstore_name='b'\n[routes.b.source_filter]\n" ++
  "[routes.c]\nsource_address='x'\nstore_path=''\nstore_name='c'\n"

theorem two_of_threeRoutes_start : ∃ c b, parse threeRoutes = .ok c ∧
    c.routes.typed.length = 3 ∧ c.filers.map (·.rule.name) = ["a", "c"] ∧
    Bus.start c.filers c.queueSize {} = .ok b ∧
    (b.destinations ⟨"x"⟩).map (Option.map (·.rule.name)) = [some "a", some "c"] := by
  have hc : (parse threeRoutes).toOption.map (fun c => (c.routes.typed.length, c.queueSize,
      c.filers.map (·.rule.name), (c.filers.filter fun f => f.rule.source = ⟨"x"⟩).map (·.rule.name))) =
      some (3, 1000, ["a", "c"], ["a", "c"]) := by decide +kernel
  cases hp : parse threeRoutes with
  | error cause =>
      rw [hp] at hc
      cases hc
  | ok c =>
      simp only [hp, Except.toOption, Option.map_some, Option.some.injEq, Prod.mk.injEq] at hc
      obtain ⟨hlength, hsize, hnames, hx⟩ := hc
      have hstart := (filers_start c (by rw [hlength]; decide) c.queueSize {}).2.2
      rw [if_pos (.inr (by rw [hsize]; decide))] at hstart
      obtain ⟨b, hb, hdestinations⟩ := hstart
      refine ⟨c, b, rfl, hlength, hnames, hb, ?_⟩
      have hsome := congrArg (List.map some) hx
      rw [List.map_map] at hsome
      rw [hdestinations, List.map_map]
      exact hsome

/-- A queue size that a configuration accepts, and for which no channel can be made. -/
theorem queues_too_long :
    (parse ("[global]\nqueue_size = 2305843009213693952\n" ++
      "[routes.r]\nsource_address = 'a'\nstore_path = 'd'\nstore_name = 'n'\n")).toOption.map
        (fun c => (c.routes.typed.map Prod.fst, c.filers.map (·.rule.name),
          match Bus.start c.filers c.queueSize {} with
          | .ok _ => none
          | .error cause => some cause)) =
      some (["r"], ["r"], some .capacity) := by
  decide +kernel

end Config

end FeedFiler
