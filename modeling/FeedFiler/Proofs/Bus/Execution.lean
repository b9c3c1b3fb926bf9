import FeedFiler.Proofs.Bus.Refinement
import FeedFiler.Proofs.Bus.Turns

/-!
# What a bus does is what a schedule leads to

A bus that publishes envelopes with waiting for room, and is ended, goes through the states of a schedule
that ends.
-/

namespace FeedFiler.Bus

open Running

/-- Publishes envelopes one after the other, each with waiting for room. -/
def publishEach (b : Bus) (calls : List (Address × Envelope)) : Bus :=
  calls.foldl (fun b (address, e) => (b.publishBlocking address e).2) b

variable {filers : List Filer} {r : Router} {b : Bus} {t : FileTree} {s s' : Running}
  {p : Router.Publication} {e : Envelope} {address : Address} {calls : List (Address × Envelope)}

/-! ## The publisher -/

theorem reaches_serve (ids : List RouteId) : ∀ (s : Running) (allowed delivered : Nat),
    s.publication = some ⟨e, ids, delivered⟩ →
      Reaches s { s with
        router := (Router.serve e ids allowed delivered s.router).2
        publication := some ⟨e, (Router.serve e ids allowed delivered s.router).1.1,
          (Router.serve e ids allowed delivered s.router).1.2⟩ } := by
  induction ids with
  | nil =>
      intro s allowed delivered hp
      rw [Router.serve, ← hp]
      exact .refl s
  | cons id ids ih =>
      intro s allowed delivered hp
      have hpublish := reaches_publish s
      rw [Running.publish, hp] at hpublish
      cases ho : s.router.offer e id with
      | mk delivery r =>
          simp only [ho] at hpublish
          cases delivery with
          | failed =>
              simp only [Router.serve, ho]
              exact hpublish.trans (ih _ allowed delivered rfl)
          | full =>
              simp only [Router.serve, ho]
              rw [← hp]
              exact .refl s
          | sent =>
              cases allowed with
              | zero =>
                  simp only [Router.serve, ho]
                  rw [← hp]
                  exact .refl s
              | succ allowed =>
                  simp only [Router.serve, ho]
                  exact hpublish.trans (ih _ allowed (delivered + 1) rfl)

theorem Shows.advance (h : Shows b.router b.filers b.files s) (hp : s.publication = some p) :
    ∃ s', Reaches s s' ∧ Shows (b.advance p).2.router (b.advance p).2.filers (b.advance p).2.files s' ∧
      s'.publication = (if (b.advance p).1.remaining = [] then none else some (b.advance p).1) ∧
        s'.calls = s.calls ∧ s'.closed = s.closed := by
  obtain ⟨hr, hfilers, hfiles, hsettled⟩ := h
  have hserve := reaches_serve p.remaining s b.allowance p.delivered hp
  rw [hr] at hserve
  cases hs : Router.serve p.envelope p.remaining b.allowance p.delivered b.router with
  | mk served r =>
      obtain ⟨left, delivered⟩ := served
      rw [hs] at hserve
      rw [advance_of_serve hs]
      cases left with
      | nil =>
          exact ⟨_, hserve.trans (reaches_publish _), ⟨rfl, hfilers, hfiles, hsettled⟩, rfl, rfl, rfl⟩
      | cons id ids => exact ⟨_, hserve, ⟨rfl, hfilers, hfiles, hsettled⟩, rfl, rfl, rfl⟩

/-- A bus between two publications, with these still to come. -/
structure Between (filers : List Filer) (b : Bus) (calls : List (Address × Envelope)) (s : Running) : Prop where
  attended : Attended filers [] b
  shows : Shows b.router b.filers b.files s
  calls : s.calls = calls
  publication : s.publication = none
  closed : s.closed = false

/-- A publication is completed if there are enough turns. -/
theorem between_complete (turns : Nat) : ∀ (p : Router.Publication) (b : Bus) (s : Running),
    Enough b p turns → Attended filers [] b → Filed filers p.remaining → Shows b.router b.filers b.files s →
      s.publication = some p → s.closed = false →
        ∃ s', Reaches s s' ∧ Between filers (complete turns p b).2 s.calls s' := by
  induction turns with
  | zero => exact fun p b s he _ _ _ _ _ => absurd rfl he.pos
  | succ turns ih =>
      intro p b s he hb hids h hp hclosed
      obtain ⟨s₁, hreach, h₁, hp₁, hcalls₁, hclosed₁⟩ := h.advance hp
      obtain ⟨served, hremaining, -, hb₁, -⟩ := hb.advance hids
      cases hleft : (b.advance p).1.remaining with
      | nil =>
          rw [if_pos hleft] at hp₁
          rw [complete_of_nil turns hleft]
          exact ⟨s₁, hreach, hb₁, h₁, hcalls₁, hp₁, hclosed₁.trans hclosed⟩
      | cons id ids =>
          rw [if_neg (by rw [hleft]; exact List.cons_ne_nil _ _)] at hp₁
          rw [complete_of_cons turns hleft]
          -- The publisher waits, and the filers work in the meantime.
          obtain ⟨s₂, hwork, h₂⟩ := h₁.waitToServe hb₁ id
          have hids₁ : Filed filers (b.advance p).1.remaining := fun id hid =>
            hids id (hremaining ▸ List.mem_append_right _ hid)
          obtain ⟨s₃, hreach', hbetween⟩ := ih _ _ s₂ (he.advance hb hids hleft) (hb₁.waitToServe id) hids₁ h₂
            (hwork.publication.trans hp₁) (hwork.closed.trans (hclosed₁.trans hclosed))
          rw [hwork.calls, hcalls₁] at hbetween
          exact ⟨s₃, hreach.trans (hwork.reaches.trans hreach'), hbetween⟩

/-- The bus publishes the next envelope as the publisher of the schedule does. -/
theorem Between.publishBlocking (h : Between filers b ((address, e) :: calls) s) :
    ∃ s', Reaches s s' ∧ Between filers (b.publishBlocking address e).2 calls s' := by
  obtain ⟨hb, ⟨hr, hfilers, hfiles, hsettled⟩, hcalls, hp, hclosed⟩ := h
  have hstart := reaches_publish s
  rw [Running.publish, hp, hcalls, hr] at hstart
  have hids : Filed filers (b.router.table.route address) := fun id hid => by
    obtain ⟨i, f, hi, -, he⟩ := (mem_route hb.equipped.wired).1 hid
    exact ⟨i, f, hi, he⟩
  have hb' : Attended filers [] { b with router := (b.router.startPublishing address e).2 } :=
    ⟨hb.equipped.of_eq rfl rfl rfl, hb.length, hb.awake⟩
  obtain ⟨s', hreach, h'⟩ := between_complete _ (b.router.startPublishing address e).1 _
    { s with
      router := (b.router.startPublishing address e).2
      publication := some (b.router.startPublishing address e).1
      calls }
    (.any (Nat.le_refl _)) hb' hids ⟨rfl, hfilers, hfiles, hsettled⟩ rfl hclosed
  exact ⟨s', hstart.trans hreach, h'⟩

theorem Between.publishEach (h : Between filers b calls s) :
    ∃ s', Reaches s s' ∧ Between filers (b.publishEach calls) [] s' := by
  induction calls generalizing b s with
  | nil => exact ⟨s, .refl s, h⟩
  | cons call calls ih =>
      obtain ⟨s₁, hreach, h₁⟩ := h.publishBlocking
      obtain ⟨s₂, hreach', h₂⟩ := ih h₁
      exact ⟨s₂, hreach.trans hreach', h₂⟩

/-! ## The end -/

theorem Equipped.workOff (h : Equipped filers r) (fs : List Filer) (done : List Filer)
    (hl : done.length + fs.length = filers.length) (hs : Shows r (done ++ fs) t s)
    (hdone : ∀ j < done.length, ∀ c, r.channels[j]? = some c → c.queue = []) :
    ∃ s', Works s s' ∧ Shows (Bus.workOff done.length fs r t).2.1 (done ++ (Bus.workOff done.length fs r t).1)
        (Bus.workOff done.length fs r t).2.2 s' ∧ Equipped filers (Bus.workOff done.length fs r t).2.1 ∧
      (Bus.workOff done.length fs r t).1.length = fs.length ∧
        ∀ c ∈ (Bus.workOff done.length fs r t).2.1.channels, c.queue = [] := by
  induction fs generalizing done r t s with
  | nil =>
      refine ⟨s, .refl s, hs, h, rfl, fun c hc => ?_⟩
      obtain ⟨j, hj⟩ := List.getElem?_of_mem hc
      refine hdone j ?_ c hj
      rw [← Nat.add_zero done.length, ← List.length_nil, hl, ← h.length]
      exact (List.getElem?_eq_some_iff.1 hj).1
  | cons f fs ih =>
      rw [List.length_cons] at hl
      obtain ⟨c, hc⟩ := h.exists_channel (i := done.length) (by omega)
      have hf : (done ++ f :: fs)[done.length]? = some f := by simp
      obtain ⟨s₁, hw, h₁⟩ := hs.receive hf hc (List.append_nil c.queue).symm
      have hset : (done ++ f :: fs).set done.length (f.storeAll t (c.queue.map Envelope.toDocument)).1 =
          (done ++ [(f.storeAll t (c.queue.map Envelope.toDocument)).1]) ++ fs := by simp
      rw [hset] at h₁
      have hl' : (done ++ [(f.storeAll t (c.queue.map Envelope.toDocument)).1]).length = done.length + 1 := by
        rw [List.length_append, List.length_singleton]
      obtain ⟨s₂, hw', h₂, he, hlen, hempty⟩ := ih (h.set hc (Nat.zero_le _)) _ (by rw [hl']; omega) h₁
        fun j hj d hd => by
          by_cases he : done.length = j
          · subst he
            rw [List.getElem?_set_self (List.getElem?_eq_some_iff.1 hc).1] at hd
            cases hd
            rfl
          · rw [List.getElem?_set_ne he] at hd
            exact hdone j (by omega) d hd
      rw [hl'] at h₂ he hlen hempty
      simp only [Bus.workOff, Router.takeAll, hc]
      refine ⟨s₂, hw.trans hw', ?_, he, ?_, hempty⟩
      · rw [List.append_cons]
        exact h₂
      · rw [List.length_cons, hlen, List.length_cons]

/-- The bus idles as the filers of the schedule do. -/
theorem Between.drain (h : Between filers b calls s) :
    ∃ s', Reaches s s' ∧ Between filers b.drain calls s' ∧ ∀ c ∈ b.drain.router.channels, c.queue = [] := by
  obtain ⟨hb, hs, hcalls, hp, hclosed⟩ := h
  obtain ⟨s', hw, h', he, hlen, hempty⟩ := hb.equipped.workOff b.filers [] (by simpa using hb.length) hs nofun
  refine ⟨s', hw.reaches, ⟨⟨he, hlen.trans hb.length, ?_⟩, h', hw.calls.trans hcalls,
    hw.publication.trans hp, hw.closed.trans hclosed⟩, hempty⟩
  intro j c hc hq
  exact absurd (hempty c (List.mem_of_getElem? hc)) hq

theorem Settled.isIdle {k : Worker} (h : Settled k) (hu : k.unscheduled = []) : k.isIdle = true := by
  simp only [Worker.isIdle, hu, List.isEmpty_nil, Bool.true_and, List.all_eq_true]
  intro task hm
  rw [h.ended task hm]
  rfl

/-- The filers end one after the other. -/
theorem reaches_conclude (rest : List Worker) : ∀ (done : List Worker) (s : Running),
    s.workers = done ++ rest → s.closed = true → (∀ i, s.router.receive? i = none) →
      (∀ k ∈ rest, Settled k ∧ k.unscheduled = []) →
        Reaches s { s with workers := done ++ rest.map Worker.conclude } := by
  induction rest with
  | nil =>
      intro done s hworkers _ _ _
      rw [List.map_nil, ← hworkers]
      exact .refl s
  | cons k rest ih =>
      intro done s hworkers hclosed hr hsettled
      obtain ⟨hk, hu⟩ := hsettled k List.mem_cons_self
      have hget : s.workers[done.length]? = some k := by simp [hworkers]
      have hset : s.workers.set done.length k.conclude = done ++ [k.conclude] ++ rest := by simp [hworkers]
      have hturn : s.work done.length = { s with workers := done ++ [k.conclude] ++ rest } := by
        simp only [Running.work, hget, hu, hr, hclosed, hk.isIdle hu, Bool.and_self, if_true, hset]
      have hwork := reaches_work s done.length
      rw [hturn] at hwork
      have hrest := ih (done ++ [k.conclude]) { s with workers := done ++ [k.conclude] ++ rest } rfl hclosed hr
        fun k' hk' => hsettled k' (List.mem_cons_of_mem _ hk')
      rw [List.map_cons, List.append_cons]
      exact hwork.trans hrest

theorem Between.shutdown (h : Between filers b [] s) :
    ∃ s', Reaches s s' ∧ s'.result? = some b.shutdown.1 ∧ s'.files = b.shutdown.2 := by
  obtain ⟨s₁, hreach, h₁, hempty⟩ := h.drain
  obtain ⟨hb, ⟨hr, hfilers, hfiles, hsettled⟩, hcalls, hp, hclosed⟩ := h₁
  have hturn : s₁.publish = { s₁ with closed := true } := by simp only [Running.publish, hp, hcalls]
  have hclose := reaches_publish s₁
  rw [hturn] at hclose
  have hnone : ∀ i, s₁.router.receive? i = none := by
    intro i
    rw [hr]
    cases hc : b.drain.router.channels[i]? with
    | none => simp [Router.receive?, hc]
    | some c => exact Router.receive?_nil hc (hempty c (List.mem_of_getElem? hc))
  have hconclude := reaches_conclude s₁.workers [] { s₁ with closed := true } rfl rfl hnone hsettled
  refine ⟨_, hreach.trans (hclose.trans hconclude), ?_, hfiles⟩
  have hall : (s₁.workers.map Worker.conclude).all (fun k => k.snapshot.isSome) = true := by
    simp [Worker.conclude]
  simp only [result?, List.nil_append, hall, Bool.and_self, if_true]
  rw [Bus.shutdown, ← hfilers]
  simp [Worker.conclude, Function.comp_def]

theorem between_start {queueSize : Nat} (h : start filers queueSize t = .ok b)
    (calls : List (Address × Envelope)) : Between filers b calls (b.running calls) := by
  obtain ⟨hfilers, -, hw, hch⟩ := wired_of_start h
  have hnew : ∀ c ∈ b.router.channels, c = { capacity := max queueSize 1 } := by
    rw [hch]
    exact fun c hc => List.eq_of_mem_replicate hc
  refine ⟨⟨⟨hw, ?_, ?_, ?_, ?_⟩, ?_, ?_⟩, ⟨rfl, ?_, rfl, ?_⟩, rfl, rfl, rfl⟩
  · rw [hch, List.length_replicate]
  · intro c hc
    rw [hnew c hc]
  · intro c hc
    rw [hnew c hc]
    exact Nat.lt_of_lt_of_le Nat.one_pos (Nat.le_max_right _ _)
  · intro c hc
    rw [hnew c hc]
    exact Nat.zero_le _
  · rw [hfilers]
  · intro j c hc hq
    rw [hnew c (List.mem_of_getElem? hc)] at hq
    exact absurd rfl hq
  · rw [running, List.map_map]
    exact List.map_id _
  · intro k hk
    obtain ⟨f, -, rfl⟩ := List.mem_map.1 hk
    exact ⟨⟨by simp, by simp⟩, rfl⟩

/-- **What a bus returns, and leaves in the files, is what a schedule leads to.** -/
theorem exists_run_of_shutdown {queueSize : Nat} (h : start filers queueSize t = .ok b)
    (calls : List (Address × Envelope)) :
    ∃ schedule, ((b.running calls).run schedule).result? = some ((b.publishEach calls).shutdown).1 ∧
      ((b.running calls).run schedule).files = ((b.publishEach calls).shutdown).2 := by
  obtain ⟨s₁, hreach, h₁⟩ := (between_start h calls).publishEach
  obtain ⟨s₂, hreach', hresult, hfiles⟩ := h₁.shutdown
  obtain ⟨schedule, rfl⟩ := hreach.trans hreach'
  exact ⟨schedule, hresult, hfiles⟩

/-- **A bus with separate filers returns what they count storing one after the other.** -/
theorem shutdown_publishEach {queueSize : Nat} (h : start filers queueSize t = .ok b)
    (hsep : Separate filers t calls) :
    ((b.publishEach calls).shutdown).1 =
        filers.map (fun f => (f.rule.name, (f.storeAll t (f.messages calls)).1.counters)) ∧
      ∀ f ∈ filers, ∀ p ∈ f.targets t (f.messages calls),
        ((b.publishEach calls).shutdown).2.get? p = (f.storeAll t (f.messages calls)).2.get? p := by
  obtain ⟨schedule, hr, hfiles⟩ := exists_run_of_shutdown h calls
  obtain ⟨made, hs⟩ := (sound_start h calls).run hsep schedule
  obtain ⟨hresult, hagree⟩ := hs.result hsep hr
  refine ⟨hresult, fun f hf p hp => ?_⟩
  rw [← hfiles]
  exact (hagree f hf).held p (hsep.held hf hp)

end FeedFiler.Bus
