import FeedFiler.Proofs.Bus.Execution
import FeedFiler.Proofs.Run.Schedule

/-!
# What an ingest does is what a schedule leads to

An ingest on a bus goes through the states of a schedule: between two files the loops of the filers are where
the filers of the bus are.
-/

namespace FeedFiler.Ingest

open Bus (Running)

/-- The state with another filer in one place. -/
def Underway.put (u : Underway) (i : Nat) (a : Station) : Underway := { u with stations := u.stations.set i a }

variable {filers : List Filer} {feed : Feed} {arrivals : List Arrival} {s s' : Running} {u u' : Underway}
  {a : Station} {i n : Nat} {b : Bus} {t : FileTree} {k : Worker} {e : Envelope} {message : Document}

theorem put_put (u : Underway) (i : Nat) (a a' : Station) : (u.put i a).put i a' = u.put i a' := by
  rw [Underway.put, Underway.put, Underway.put, List.set_set]

theorem put_self (h : u.stations[i]? = some a) : u.put i a = u := by
  obtain ⟨hi, rfl⟩ := List.getElem?_eq_some_iff.1 h
  rw [Underway.put, List.set_getElem_self hi]

theorem proceedUnder_calm (k : Worker) (i n : Nat) (t : FileTree) :
    k.proceedUnder (calm i) n t = k.proceed n t := by
  rw [Worker.proceedUnder]
  split
  · rfl
  · split
    · next w _ =>
        have hs : w.strike? (calm i n) t = none := by cases w <;> rfl
        rw [hs]
    · rfl

/-! ## Turns of one loop -/

theorem leads_act (feed : Feed) (hi : i < u.stations.length) (hp : a.loop.phase ≠ .receiving) :
    Leads feed calm (u.put i a) (u.put i a.act) := by
  have hwork := leads_work feed calm (u.put i a) i
  have hget : (u.put i a).stations[i]? = some a := List.getElem?_set_self hi
  have hturn : (u.put i a).work i = (u.put i a).put i a.act := by
    rw [Underway.work, hget]
    cases ha : a.loop.phase with
    | receiving => exact absurd ha hp
    | _ => simp only [ha]; rfl
  rwa [hturn, put_put] at hwork

/-- The loop looks through its handles and then hears the message. -/
theorem leads_hear (feed : Feed) (hi : i < u.stations.length) (unchecked : List Nat) : ∀ a : Station,
    a.loop.phase = .checking message unchecked →
      ∃ a' : Station, Leads feed calm (u.put i a) (u.put i a') ∧ a'.worker = a.worker.hear message ∧
        a'.loop.due = a.loop.due ∧ a'.loop.phase = .storing := by
  induction unchecked with
  | nil =>
      intro a hp
      refine ⟨a.act, leads_act feed hi (by simp [hp]), ?_, ?_, ?_⟩ <;> simp only [Station.act, Loop.act, hp]
  | cons n unchecked ih =>
      intro a hp
      have hact := leads_act feed (u := u) hi (a := a) (by simp [hp])
      obtain ⟨a', hleads, hw, hd, hp'⟩ := ih a.act (by simp only [Station.act, Loop.act, hp])
      refine ⟨a', hact.trans hleads, ?_, ?_, hp'⟩
      · simpa only [Station.act, Loop.act, hp] using hw
      · simpa only [Station.act, Loop.act, hp] using hd

theorem sees_of_isIdle (h : k.isIdle = true) (n : Nat) : Loop.sees k n = true := by
  simp only [Worker.isIdle, Bool.and_eq_true, List.all_eq_true] at h
  cases hn : k.tasks[n]? with
  | none => simp only [Loop.sees, hn, Option.all_none]
  | some task => simpa only [Loop.sees, hn, Option.all_some] using h.2 task (List.mem_of_getElem? hn)

/-- The loop waits for writes that have ended, and then ends. -/
theorem leads_conclude (feed : Feed) (hi : i < u.stations.length) (left : List Nat) : ∀ a : Station,
    a.loop.phase = .awaiting left → a.worker.isIdle = true →
      ∃ a' : Station, Leads feed calm (u.put i a) (u.put i a') ∧ a'.worker = a.worker.conclude := by
  induction left with
  | nil =>
      intro a hp _
      exact ⟨a.act, leads_act feed hi (by simp [hp]), by simp only [Station.act, Loop.act, hp]⟩
  | cons n left ih =>
      intro a hp hidle
      have hs := sees_of_isIdle hidle n
      have hact := leads_act feed (u := u) hi (a := a) (by simp [hp])
      have hp' : a.act.loop.phase = .awaiting left := by simp only [Station.act, Loop.act, hp, hs, if_true]
      have hw' : a.act.worker = a.worker := by simp only [Station.act, Loop.act, hp]
      obtain ⟨a', hleads, hw⟩ := ih a.act hp' (hw' ▸ hidle)
      exact ⟨a', hact.trans hleads, hw.trans (congrArg Worker.conclude hw')⟩

/-! ## The bus and the ingest -/

/-- The loop is scheduling writes, or ready to receive. -/
structure Station.Rests (a : Station) : Prop where
  due : a.loop.due = []
  phase : a.loop.phase = .storing ∨ a.loop.phase = .receiving ∧ a.worker.unscheduled = []

/-- The ingest is where the running bus is, with these files still to be read. -/
structure Shadows (feed : Feed) (arrivals : List Arrival) (s : Running) (u : Underway) : Prop where
  router : u.router = s.router
  files : u.files = s.files
  publication : u.publication = s.publication
  calls : s.calls = u.envelope.toList.map fun e => (feed.address, e)
  arrivals : u.arrivals = arrivals
  ended : u.ended = none
  workers : u.stations.map Station.worker = s.workers
  rests : ∀ a ∈ u.stations, a.Rests

theorem Shadows.exists_station (h : Shadows feed arrivals s u) (hk : s.workers[i]? = some k) :
    ∃ a, u.stations[i]? = some a ∧ a.worker = k ∧ a.Rests := by
  rw [← h.workers, List.getElem?_map, Option.map_eq_some_iff] at hk
  obtain ⟨a, ha, hw⟩ := hk
  exact ⟨a, ha, hw, h.rests a (List.mem_of_getElem? ha)⟩

theorem Shadows.put (h : Shadows feed arrivals s u) (i : Nat) (ha : a.Rests) :
    Shadows feed arrivals { s with workers := s.workers.set i a.worker } (u.put i a) := by
  refine ⟨h.router, h.files, h.publication, h.calls, h.arrivals, h.ended, ?_, fun a' hm => ?_⟩
  · rw [Underway.put, List.map_set, h.workers]
  · rcases List.mem_or_eq_of_mem_set hm with hm | rfl
    · exact h.rests a' hm
    · exact ha

theorem Shadows.withRouter (h : Shadows feed arrivals s u) (router : Router) :
    Shadows feed arrivals { s with router } { u with router } :=
  ⟨rfl, h.files, h.publication, h.calls, h.arrivals, h.ended, h.workers, h.rests⟩

theorem Shadows.withFiles (h : Shadows feed arrivals s u) (files : FileTree) :
    Shadows feed arrivals { s with files } { u with files } :=
  ⟨h.router, rfl, h.publication, h.calls, h.arrivals, h.ended, h.workers, h.rests⟩

/-- A loop that has nothing to schedule comes to receive. -/
theorem leads_receiving (feed : Feed) (hi : i < u.stations.length) (ha : a.Rests)
    (hu : a.worker.unscheduled = []) :
    ∃ a' : Station, Leads feed calm (u.put i a) (u.put i a') ∧ a'.worker = a.worker ∧ a'.loop.due = [] ∧
      a'.loop.phase = .receiving := by
  rcases ha.phase with hp | ⟨hp, -⟩
  · refine ⟨a.act, leads_act feed hi (by simp [hp]), ?_, ?_, ?_⟩ <;>
      simp only [Station.act, Loop.act, hp, hu, ha.due]
  · exact ⟨a, .refl _ _ _, rfl, ha.due, hp⟩

theorem Shadows.publish (h : Shadows feed arrivals s u) (hc : s.publish.closed = false) :
    Shadows feed arrivals s.publish (u.publish feed) := by
  obtain ⟨hr, hf, hp, hcalls, ha, hn, hw, hrests⟩ := h
  rw [Underway.publish, hn, Option.isSome_none, if_neg Bool.false_ne_true]
  rw [Running.publish] at hc ⊢
  cases hs : s.publication with
  | some p =>
      obtain ⟨e, ids, delivered⟩ := p
      rw [hs] at hp
      cases ids with
      | nil =>
          simp only [hp, hr]
          exact ⟨rfl, hf, rfl, hcalls, ha, rfl, hw, hrests⟩
      | cons id ids =>
          simp only [hp, hr]
          cases ho : s.router.offer e id with
          | mk delivery r =>
              cases delivery with
              | full => exact ⟨hr, hf, hp.trans hs.symm, hcalls, ha, hn, hw, hrests⟩
              | sent => exact ⟨rfl, hf, rfl, hcalls, ha, rfl, hw, hrests⟩
              | failed => exact ⟨rfl, hf, rfl, hcalls, ha, rfl, hw, hrests⟩
  | none =>
      rw [hs] at hp
      cases he : u.envelope with
      | none =>
          rw [he] at hcalls
          simp [hs, hcalls] at hc
      | some e =>
          rw [he] at hcalls
          simp only [hp, hcalls, hr]
          exact ⟨rfl, hf, rfl, rfl, ha, rfl, hw, hrests⟩

theorem Shadows.work (h : Shadows feed arrivals s u) (i : Nat) (hc : s.closed = false) :
    ∃ u', Leads feed calm u u' ∧ Shadows feed arrivals (s.work i) u' := by
  rw [Running.work]
  cases hk : s.workers[i]? with
  | none => exact ⟨u, .refl _ _ u, h⟩
  | some k =>
      obtain ⟨a, ha, rfl, hrests⟩ := h.exists_station hk
      have hi := (List.getElem?_eq_some_iff.1 ha).1
      cases hu : a.worker.unscheduled with
      | cons request requests =>
          -- The loop schedules the next write.
          have hp : a.loop.phase = .storing := hrests.phase.resolve_right fun hp => by simp [hp.2] at hu
          have hact := leads_act feed (u := u) hi (a := a) (by simp [hp])
          rw [put_self ha] at hact
          have hstation : a.act = { a with
              worker := a.worker.schedule
              loop := { a.loop with kept := a.loop.kept ++ [a.worker.tasks.length] } } := by
            simp only [Station.act, Loop.act, hp, hu]
          have hput := h.put i (a := a.act) (by rw [hstation]; exact ⟨hrests.due, .inl hp⟩)
          rw [hstation] at hact hput
          simp only [hu]
          exact ⟨_, hact, hput⟩
      | nil =>
          cases hr : s.router.receive? i with
          | none =>
              simp only [hu, hc, Bool.false_and]
              exact ⟨u, .refl _ _ u, h⟩
          | some received =>
              obtain ⟨e, router⟩ := received
              obtain ⟨a₁, hleads₁, hw₁, hd₁, hp₁⟩ := leads_receiving feed hi hrests hu
              rw [put_self ha] at hleads₁
              -- It receives the envelope, looks through its handles and hears the message.
              have hget : (u.put i a₁).stations[i]? = some a₁ := List.getElem?_set_self hi
              have hreceive := leads_work feed calm (u.put i a₁) i
              have hr' : (u.put i a₁).router.receive? i = some (e, router) := by
                rw [← hr, ← h.router]
                rfl
              have hturn : (u.put i a₁).work i = Underway.put { u with router } i (a₁.receive e) := by
                simp only [Underway.work, hget, hp₁, hr']
                exact congrArg (fun stations => { u with router, stations }) (List.set_set ..)
              rw [hturn] at hreceive
              have hphase : (a₁.receive e).loop.phase = .checking e.toDocument a₁.loop.kept := by
                simp only [Station.receive, Station.act, Loop.act, hp₁]
              have hdue : (a₁.receive e).loop.due = [] := by
                simp only [Station.receive, Station.act, Loop.act, hp₁]
              have hworker : (a₁.receive e).worker = a.worker := by
                rw [← hw₁]
                simp only [Station.receive, Station.act, Loop.act, hp₁]
              obtain ⟨a₂, hleads₂, hw₂, hd₂, hp₂⟩ := leads_hear feed (u := { u with router }) hi
                a₁.loop.kept (a₁.receive e) hphase
              have hput := (h.withRouter router).put i (a := a₂) ⟨hd₂.trans hdue, .inl hp₂⟩
              rw [hw₂, hworker] at hput
              simp only [hu]
              exact ⟨_, (hleads₁.trans hreceive).trans hleads₂, hput⟩

theorem Shadows.write (h : Shadows feed arrivals s u) (i n : Nat) :
    Shadows feed arrivals (s.write i n) (u.write calm i n) := by
  rw [Running.write, Underway.write]
  cases hk : s.workers[i]? with
  | none =>
      have hnone : u.stations[i]? = none := by
        rw [← h.workers, List.getElem?_map, Option.map_eq_none_iff] at hk
        exact hk
      rw [hnone]
      exact h
  | some k =>
      obtain ⟨a, ha, rfl, hrests⟩ := h.exists_station hk
      have hu := a.worker.proceedUnder_unscheduled (calm i) n u.files
      simp only [ha, proceedUnder_calm, h.files] at hu ⊢
      refine (h.put i (a := { a with
        worker := (a.worker.proceed n s.files).1
        results := a.results ++ a.worker.returned n (a.worker.proceed n s.files).1 }) ?_).withFiles _
      exact ⟨hrests.due, hrests.phase.imp_right fun hp => ⟨hp.1, hu.trans hp.2⟩⟩

theorem closed_step {actor : Bus.Actor} (h : (s.step actor).closed = false) : s.closed = false := by
  cases actor with
  | publisher =>
      simp only [Running.step, Running.publish] at h
      split at h
      · exact h
      · split at h <;> exact h
      · split at h
        · cases h
        · exact h
  | filer i =>
      simp only [Running.step, Running.work] at h
      split at h
      · exact h
      · split at h
        · exact h
        · split at h
          · exact h
          · split at h <;> exact h
  | write i n =>
      simp only [Running.step, Running.write] at h
      split at h <;> exact h

theorem Shadows.step (h : Shadows feed arrivals s u) (actor : Bus.Actor) (hc : (s.step actor).closed = false) :
    ∃ u', Leads feed calm u u' ∧ Shadows feed arrivals (s.step actor) u' := by
  cases actor with
  | publisher => exact ⟨_, leads_publish feed calm u, h.publish hc⟩
  | filer i => exact h.work i (closed_step hc)
  | write i n => exact ⟨_, leads_write feed calm u i n, h.write i n⟩

/-- The ingest gets where the bus gets until it is ended. -/
theorem Shadows.reaches (h : Shadows feed arrivals s u) (hr : Bus.Reaches s s') (hc : s'.closed = false) :
    ∃ u', Leads feed calm u u' ∧ Shadows feed arrivals s' u' := by
  obtain ⟨schedule, rfl⟩ := hr
  induction schedule using List.reverseRecOn with
  | nil => exact ⟨u, .refl _ _ u, h⟩
  | append_singleton schedule actor ih =>
      rw [Running.run, List.foldl_append] at hc ⊢
      obtain ⟨u₁, hleads, h₁⟩ := ih (closed_step hc)
      obtain ⟨u₂, hleads', h₂⟩ := h₁.step actor hc
      exact ⟨u₂, hleads.trans hleads', h₂⟩

/-! ## The files -/

/-- The bus of an ingest between two files, with these still to be read. -/
structure BetweenFiles (filers : List Filer) (feed : Feed) (b : Bus) (arrivals : List Arrival) (s : Running)
    (u : Underway) : Prop where
  between : Bus.Between filers b [] s
  shadows : Shadows feed arrivals s u

theorem BetweenFiles.files (h : BetweenFiles filers feed b arrivals s u) : u.files = b.files :=
  h.shadows.files.trans h.between.shows.files

theorem BetweenFiles.envelope (h : BetweenFiles filers feed b arrivals s u) : u.envelope = none := by
  have hcalls := h.shadows.calls
  rw [h.between.calls] at hcalls
  cases he : u.envelope with
  | none => rfl
  | some e => simp [he] at hcalls

theorem BetweenFiles.publication (h : BetweenFiles filers feed b arrivals s u) : u.publication = none :=
  h.shadows.publication.trans h.between.publication

/-- The ingest reads a file, the filers work off their channels, and the envelope is published. -/
theorem BetweenFiles.ingest {arrival : Arrival} (h : BetweenFiles filers feed b (arrival :: arrivals) s u)
    (he : envelopeOf feed b.files arrival = .ok e) :
    ∃ s' u', Leads feed calm u u' ∧
      BetweenFiles filers feed (b.drain.publishBlocking feed.address e).2 arrivals s' u' := by
  have hread := leads_publish feed calm u
  have hturn : u.publish feed = { u with arrivals, envelope := some e } := by
    simp [Underway.publish, h.shadows.ended, h.publication, h.envelope, h.shadows.arrivals, h.files, he]
  rw [hturn] at hread
  have hb : Bus.Between filers b [(feed.address, e)] { s with calls := [(feed.address, e)] } :=
    ⟨h.between.attended, ⟨h.between.shows.router, h.between.shows.filers, h.between.shows.files,
      h.between.shows.settled⟩, rfl, h.between.publication, h.between.closed⟩
  have hu : Shadows feed arrivals { s with calls := [(feed.address, e)] }
      { u with arrivals, envelope := some e } :=
    ⟨h.shadows.router, h.shadows.files, h.shadows.publication, rfl, rfl, h.shadows.ended, h.shadows.workers,
      h.shadows.rests⟩
  obtain ⟨s₁, hdrain, hb₁, -⟩ := hb.drain
  obtain ⟨s₂, hpublish, hb₂⟩ := hb₁.publishBlocking
  obtain ⟨u', hleads, hu'⟩ := hu.reaches (hdrain.trans hpublish) hb₂.closed
  exact ⟨s₂, u', hread.trans hleads, hb₂, hu'⟩

/-- The ingest reads files up to the first that gives no envelope. -/
theorem BetweenFiles.publishAll (h : BetweenFiles filers feed b arrivals s u) :
    ∃ left s' u', Leads feed calm u u' ∧ BetweenFiles filers feed (publishAll feed arrivals b).1 left s' u' ∧
      ((publishAll feed arrivals b).2 = .ok () ∧ left = [] ∨
        ∃ cause arrival rest, (publishAll feed arrivals b).2 = .error cause ∧ left = arrival :: rest ∧
          envelopeOf feed (publishAll feed arrivals b).1.files arrival = .error cause) := by
  induction arrivals generalizing b s u with
  | nil => exact ⟨[], s, u, .refl _ _ u, h, .inl ⟨rfl, rfl⟩⟩
  | cons arrival arrivals ih =>
      rw [Ingest.publishAll]
      cases he : envelopeOf feed b.files arrival with
      | error cause =>
          exact ⟨arrival :: arrivals, s, u, .refl _ _ u, h, .inr ⟨cause, arrival, arrivals, rfl, rfl, he⟩⟩
      | ok e =>
          obtain ⟨s₁, u₁, hleads, h₁⟩ := h.ingest he
          obtain ⟨left, s₂, u₂, hleads', h₂⟩ := ih h₁
          exact ⟨left, s₂, u₂, hleads.trans hleads', h₂⟩

/-! ## The end -/

/-- The filers end one after the other. -/
theorem leads_result (feed : Feed) (rest : List Station) : ∀ (done : List Station) (u : Underway),
    u.stations = done ++ rest → u.ended = some (.ok ()) → (∀ i, u.router.receive? i = none) →
      (∀ a ∈ rest, a.Rests ∧ a.worker.isIdle = true) →
        ∃ ended : List Station, Leads feed calm u { u with stations := done ++ ended } ∧
          ended.map Station.worker = rest.map fun a => a.worker.conclude := by
  induction rest with
  | nil =>
      intro done u hstations _ _ _
      refine ⟨[], ?_, rfl⟩
      rw [← hstations]
      exact .refl _ _ u
  | cons a rest ih =>
      intro done u hstations hn hr hrests
      obtain ⟨ha, hidle⟩ := hrests a List.mem_cons_self
      have hget : u.stations[done.length]? = some a := by simp [hstations]
      have hi := (List.getElem?_eq_some_iff.1 hget).1
      have hu : a.worker.unscheduled = [] := by
        rw [Worker.isIdle, Bool.and_eq_true, List.isEmpty_iff] at hidle
        exact hidle.1
      obtain ⟨a₁, hleads₁, hw₁, hd₁, hp₁⟩ := leads_receiving feed hi ha hu
      rw [put_self hget] at hleads₁
      -- There is nothing to receive any more, so the loop waits for its writes.
      have hwork := leads_work feed calm (u.put done.length a₁) done.length
      have hget₁ : (u.put done.length a₁).stations[done.length]? = some a₁ := List.getElem?_set_self hi
      have hr₁ : (u.put done.length a₁).router.receive? done.length = none := hr done.length
      have hn₁ : (u.put done.length a₁).ended.isSome = true := by rw [Underway.put, hn]; rfl
      have hturn : (u.put done.length a₁).work done.length = u.put done.length a₁.act := by
        simp only [Underway.work, hget₁, hp₁, hr₁, hn₁, if_true]
        exact put_put u done.length a₁ a₁.act
      rw [hturn] at hwork
      have hp₂ : a₁.act.loop.phase = .awaiting a₁.loop.kept := by simp only [Station.act, Loop.act, hp₁, hd₁]
      have hw₂ : a₁.act.worker = a.worker := by simp only [Station.act, Loop.act, hp₁, hd₁, hw₁]
      obtain ⟨a₃, hleads₃, hw₃⟩ := leads_conclude feed hi a₁.loop.kept a₁.act hp₂ (hw₂ ▸ hidle)
      have hset : u.put done.length a₃ = { u with stations := done ++ [a₃] ++ rest } := by
        simp [Underway.put, hstations]
      rw [hset] at hleads₃
      obtain ⟨ended, hleads₄, hended⟩ := ih (done ++ [a₃]) { u with stations := done ++ [a₃] ++ rest } rfl hn hr
        fun a' ha' => hrests a' (List.mem_cons_of_mem _ ha')
      refine ⟨a₃ :: ended, ?_, ?_⟩
      · rw [List.append_cons]
        exact ((hleads₁.trans hwork).trans hleads₃).trans hleads₄
      · rw [List.map_cons, List.map_cons, hended, hw₃, hw₂]

/-- The ingest ends as its bus is ended. -/
theorem BetweenFiles.shutdown (h : BetweenFiles filers feed b [] s u) :
    ∃ u', Leads feed calm u u' ∧ u'.result? = some (.ok b.shutdown.1) ∧ u'.files = b.shutdown.2 := by
  obtain ⟨s₁, hdrain, hb₁, hempty⟩ := h.between.drain
  obtain ⟨u₁, hleads₁, hu₁⟩ := h.shadows.reaches hdrain hb₁.closed
  have h₁ : BetweenFiles filers feed b.drain [] s₁ u₁ := ⟨hb₁, hu₁⟩
  have hclose := leads_publish feed calm u₁
  have hturn : u₁.publish feed = { u₁ with ended := some (.ok ()) } := by
    simp [Underway.publish, hu₁.ended, h₁.publication, h₁.envelope, hu₁.arrivals]
  rw [hturn] at hclose
  have hnone : ∀ i, u₁.router.receive? i = none := by
    intro i
    rw [hu₁.router, hb₁.shows.router]
    cases hc : b.drain.router.channels[i]? with
    | none => simp [Router.receive?, hc]
    | some c => exact Router.receive?_nil hc (hempty c (List.mem_of_getElem? hc))
  obtain ⟨ended, hleads₂, hended⟩ := leads_result feed u₁.stations []
    { u₁ with ended := some (.ok ()) } rfl rfl hnone fun a ha => by
      refine ⟨hu₁.rests a ha, ?_⟩
      have hm : a.worker ∈ s₁.workers := hu₁.workers ▸ List.mem_map_of_mem ha
      obtain ⟨hsettled, hunscheduled⟩ := hb₁.shows.settled _ hm
      exact hsettled.isIdle hunscheduled
  refine ⟨_, hleads₁.trans (hclose.trans hleads₂), ?_, h₁.files⟩
  have hworkers : ended.map Station.worker = s₁.workers.map Worker.conclude := by
    rw [hended, ← hu₁.workers, List.map_map]
    rfl
  have hall : (ended.all fun a => a.worker.snapshot.isSome) = true := by
    have hall : ((ended.map Station.worker).all fun k => k.snapshot.isSome) = true := by
      simp [hworkers, Worker.conclude]
    rwa [List.all_map] at hall
  have hcounters : (ended.filterMap fun a => a.worker.snapshot.map fun counters =>
      (a.worker.filer.rule.name, counters)) = b.shutdown.1 := by
    have hmap := List.filterMap_map (l := ended) (f := Station.worker)
      (g := fun k => k.snapshot.map fun counters => (k.filer.rule.name, counters))
    refine hmap.symm.trans ?_
    rw [hworkers, Bus.shutdown, ← hb₁.shows.filers]
    simp [Worker.conclude, Function.comp_def]
  simp only [Underway.result?, List.nil_append, hall, if_true, hcounters]

theorem betweenFiles_start {queueSize : Nat} (h : Bus.start filers queueSize t = .ok b) (feed : Feed)
    (arrivals : List Arrival) : BetweenFiles filers feed b arrivals (b.running []) (underway b arrivals) := by
  refine ⟨Bus.between_start h [], rfl, rfl, rfl, rfl, rfl, rfl, ?_, fun a ha => ?_⟩
  · rw [underway, List.map_map]
    rfl
  · obtain ⟨f, -, rfl⟩ := List.mem_map.1 ha
    exact ⟨rfl, .inr ⟨rfl, rfl⟩⟩

/-- **What an ingest returns, and leaves in the files, is what a schedule leads to.** -/
theorem exists_run_underway {c : Config} {name : String} (hfeed : feedOf c name = .ok feed)
    (hb : Bus.start c.filers c.queueSize t = .ok b) (arrivals : List Arrival) :
    ∃ schedule, ((underway b arrivals).run feed calm schedule).result? =
        some (Ingest.run c name arrivals t).2 ∧
      ((underway b arrivals).run feed calm schedule).files = (Ingest.run c name arrivals t).1 := by
  suffices h : ∃ u, Leads feed calm (underway b arrivals) u ∧ u.result? = some (Ingest.run c name arrivals t).2 ∧
      u.files = (Ingest.run c name arrivals t).1 by
    obtain ⟨_, ⟨schedule, rfl⟩, h⟩ := h
    exact ⟨schedule, h⟩
  obtain ⟨left, s, u, hleads, h, hend⟩ := (betweenFiles_start hb feed arrivals).publishAll
  simp only [Ingest.run, hfeed, hb]
  cases hp : publishAll feed arrivals b with
  | mk b' outcome =>
      rw [hp] at h hend
      obtain ⟨rfl, rfl⟩ | ⟨cause, arrival, rest, rfl, rfl, he⟩ := hend
      · obtain ⟨u', hleads', hresult, hfiles⟩ := h.shutdown
        exact ⟨u', hleads.trans hleads', hresult, hfiles⟩
      · -- The next turn of the one who ingests finds the file that gives no envelope.
        have hread := leads_publish feed calm u
        have hturn : u.publish feed = { u with ended := some (.error cause) } := by
          simp [Underway.publish, h.shadows.ended, h.publication, h.envelope, h.shadows.arrivals, h.files, he]
        rw [hturn] at hread
        exact ⟨_, hleads.trans hread, rfl, h.files⟩

end FeedFiler.Ingest
