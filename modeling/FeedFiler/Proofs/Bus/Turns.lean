import FeedFiler.Proofs.Bus.Completion
import FeedFiler.Proofs.Bus.Schedule

/-!
# The turns of a bus are a schedule

A filer that receives and stores envelopes in a turn of its own does what turns of the filer and of its
writes do, one after the other.
-/

namespace FeedFiler.Bus

open Running

/-- Some schedule leads from one state to the other. -/
def Reaches (s s' : Running) : Prop := ∃ schedule, s.run schedule = s'

theorem Reaches.refl (s : Running) : Reaches s s := ⟨[], rfl⟩

theorem Reaches.trans {s s' s'' : Running} (h : Reaches s s') (h' : Reaches s' s'') : Reaches s s'' := by
  obtain ⟨schedule, rfl⟩ := h
  obtain ⟨more, rfl⟩ := h'
  exact ⟨schedule ++ more, List.foldl_append⟩

theorem reaches_publish (s : Running) : Reaches s s.publish := ⟨[.publisher], rfl⟩

theorem reaches_work (s : Running) (i : Nat) : Reaches s (s.work i) := ⟨[.filer i], rfl⟩

theorem reaches_write (s : Running) (i n : Nat) : Reaches s (s.write i n) := ⟨[.write i n], rfl⟩

/-- Some turns of filers and writes lead from one state to the other. -/
structure Works (s s' : Running) : Prop where
  reaches : Reaches s s'
  calls : s'.calls = s.calls
  publication : s'.publication = s.publication
  closed : s'.closed = s.closed

theorem Works.refl (s : Running) : Works s s := ⟨.refl s, rfl, rfl, rfl⟩

theorem Works.trans {s s' s'' : Running} (h : Works s s') (h' : Works s' s'') : Works s s'' :=
  ⟨h.reaches.trans h'.reaches, h'.calls.trans h.calls, h'.publication.trans h.publication,
    h'.closed.trans h.closed⟩

/-- The state with another router, another filer in one place, and other files. -/
def Running.put (s : Running) (router : Router) (i : Nat) (k : Worker) (files : FileTree) : Running :=
  { s with router, workers := s.workers.set i k, files }

variable {s : Running} {r r' : Router} {i n : Nat} {k k' : Worker} {t t' : FileTree} {task : WriteTask}
  {request : WriteRequest} {c : Channel} {e : Envelope}

theorem put_put : (s.put r i k t).put r' i k' t' = s.put r' i k' t' := by
  rw [Running.put, Running.put, Running.put, List.set_set]

theorem put_self (h : s.workers[i]? = some k) : s.put s.router i k s.files = s := by
  have hset : s.workers.set i k = s.workers := by
    obtain ⟨hi, rfl⟩ := List.getElem?_eq_some_iff.1 h
    exact List.set_getElem_self hi
  rw [Running.put, hset]

theorem getElem?_workers_put (hi : i < s.workers.length) : (s.put r i k t).workers[i]? = some k :=
  List.getElem?_set_self hi

theorem works_of_put (h : Reaches (s.put r i k t) ((s.put r i k t).put r' i k' t')) :
    Works (s.put r i k t) (s.put r' i k' t') := by
  rw [put_put] at h
  exact ⟨h, rfl, rfl, rfl⟩

/-! ## One write -/

theorem works_proceed (hi : i < s.workers.length) (r : Router) (k : Worker) (n : Nat) (t : FileTree) :
    Works (s.put r i k t) (s.put r i (k.proceed n t).1 (k.proceed n t).2) := by
  have hreach := reaches_write (s.put r i k t) i n
  simp only [Running.write, getElem?_workers_put hi] at hreach
  exact works_of_put hreach

theorem works_schedule (hi : i < s.workers.length) {requests : List WriteRequest}
    (hu : k.unscheduled = request :: requests) : Works (s.put r i k t) (s.put r i k.schedule t) := by
  have hreach := reaches_work (s.put r i k t) i
  simp only [Running.work, getElem?_workers_put hi, hu] at hreach
  exact works_of_put hreach

theorem works_hear (hi : i < s.workers.length) (hu : k.unscheduled = [])
    (hr : r.receive? i = some (e, r')) : Works (s.put r i k t) (s.put r' i (k.hear e.toDocument) t) := by
  have hreach := reaches_work (s.put r i k t) i
  have hr' : (s.put r i k t).router.receive? i = some (e, r') := hr
  simp only [Running.work, getElem?_workers_put hi, hu, hr'] at hreach
  exact works_of_put hreach

/-- The filer of the worker has counted a result. -/
def counted (k : Worker) (written : Bool) : Worker := { k with filer := k.filer.account written }

theorem worker_put_put (stage stage' : WriteStage) :
    (k.put n task stage).put n { task with stage } stage' = k.put n task stage' := by
  rw [Worker.put, Worker.put, Worker.put, List.set_set]

theorem proceed_of_finished (hn : k.tasks[n]? = some task) (result : Except StoreError String) :
    (k.put n task (.writing (.finished result))).proceed n t =
      ((counted k result.isOk).put n task .ended, t) := by
  have hp := Worker.getElem?_put hn task n (.writing (.finished result))
  rw [if_pos rfl] at hp
  simp only [Worker.proceed, hp]
  exact congrArg (·, t) (worker_put_put (k := counted k result.isOk) _ _)

theorem proceed_of_writing (hn : k.tasks[n]? = some task) {left : Writing}
    (hl : ∀ result, left ≠ .finished result) :
    (k.put n task (.writing left)).proceed n t =
      (k.put n task (.writing (left.step k.filer.rule.mode task.request t).2),
        (left.step k.filer.rule.mode task.request t).1) := by
  have hp := Worker.getElem?_put hn task n (.writing left)
  rw [if_pos rfl] at hp
  simp only [Worker.proceed, hp]
  cases left with
  | finished result => exact absurd rfl (hl result)
  | _ =>
      simp only [worker_put_put]
      rfl

theorem works_alone (hi : i < s.workers.length) {left : Writing} {result : Except StoreError String}
    (h : Writing.Alone k.filer.rule.mode task.request (t, left) (t', .finished result))
    (hn : k.tasks[n]? = some task) :
    Works (s.put r i (k.put n task (.writing left)) t)
      (s.put r i ((counted k result.isOk).put n task .ended) t') := by
  generalize hp : (t, left) = p at h
  generalize hq : (t', Writing.finished result) = q at h
  induction h using Relation.ReflTransGen.head_induction_on generalizing t left with
  | refl =>
      cases hp.trans hq.symm
      have hw := works_proceed hi r (k.put n task (.writing (.finished result))) n t'
      rwa [proceed_of_finished hn] at hw
  | head hstep _ ih =>
      cases hp
      -- A finished write has nothing left to do, so that its step leaves it as it is.
      by_cases hl : ∃ result', left = .finished result'
      · obtain ⟨result', rfl⟩ := hl
        exact ih hstep.symm
      · have hw := works_proceed hi r (k.put n task (.writing left)) n t
        rw [proceed_of_writing hn fun result' he => hl ⟨result', he⟩] at hw
        exact hw.trans (ih hstep.symm)

/-! ## Messages -/

/-- All writes that have been scheduled have ended. -/
structure Settled (k : Worker) : Prop where
  ended : ∀ task ∈ k.tasks, task.stage = .ended
  tail : ∀ n, k.tail = some n → n < k.tasks.length

/-- The write that is scheduled next need not wait. -/
theorem schedule_cons (hk : Settled k) {requests : List WriteRequest}
    (hu : k.unscheduled = request :: requests) :
    ∃ new : WriteTask, new.request = request ∧ new.stage = .waiting ∧ k.schedule.tasks = k.tasks ++ [new] ∧
      k.schedule.unscheduled = requests ∧ k.schedule.filer = k.filer ∧ k.schedule.isReleased new = true ∧
        ∀ n, k.schedule.tail = some n → n ≤ k.tasks.length := by
  cases hm : k.filer.rule.mode with
  | overwrite =>
      refine ⟨⟨request, none, .waiting⟩, rfl, rfl, ?_⟩
      simp only [Worker.schedule, hu, hm]
      exact ⟨trivial, trivial, trivial, rfl, fun n hn => Nat.le_of_lt (hk.tail n hn)⟩
  | append =>
      refine ⟨⟨request, k.tail, .waiting⟩, rfl, rfl, ?_⟩
      simp only [Worker.schedule, hu, hm]
      refine ⟨trivial, trivial, trivial, ?_, ?_⟩
      · cases hkt : k.tail with
        | none => rfl
        | some m =>
            have hlt := hk.tail m hkt
            simp only [Worker.isReleased, List.getElem?_append_left hlt, List.getElem?_eq_getElem hlt,
              Option.any_some, hk.ended _ (List.getElem_mem hlt)]
            rfl
      · rintro n ⟨⟩
        exact Nat.le_refl _

theorem settled_put (hk : Settled k) {new : WriteTask} (ht : k'.tasks = k.tasks ++ [new])
    (htail : ∀ n, k'.tail = some n → n ≤ k.tasks.length) :
    Settled (k'.put k.tasks.length new .ended) := by
  have hn : k'.tasks[k.tasks.length]? = some new := by rw [ht, Worker.getElem?_concat, if_pos rfl]
  constructor
  · intro task hm
    obtain ⟨j, hj⟩ := List.getElem?_of_mem hm
    rw [Worker.getElem?_put hn] at hj
    split at hj
    · cases hj
      rfl
    · next hne =>
        rw [ht, Worker.getElem?_concat, if_neg hne] at hj
        exact hk.ended task (List.mem_of_getElem? hj)
  · intro n hn
    rw [Worker.put, List.length_set, ht, List.length_append, List.length_singleton]
    exact Nat.lt_succ_of_le (htail n hn)

theorem works_request (hi : i < s.workers.length) (hk : Settled k) {requests : List WriteRequest}
    (hu : k.unscheduled = request :: requests) (r : Router) (t : FileTree) :
    ∃ k', Works (s.put r i k t) (s.put r i k' (t.store k.filer.rule.mode request).1) ∧ Settled k' ∧
      k'.unscheduled = requests ∧
        k'.filer = k.filer.account (t.store k.filer.rule.mode request).2.isOk := by
  obtain ⟨new, rfl, hwaiting, htasks, hunscheduled, hfiler, hrel, htail⟩ := schedule_cons hk hu
  have hn : k.schedule.tasks[k.tasks.length]? = some new := by rw [htasks, Worker.getElem?_concat, if_pos rfl]
  have hschedule := works_schedule (r := r) (t := t) hi hu
  have hstart := works_proceed hi r k.schedule k.tasks.length t
  have hproceed : k.schedule.proceed k.tasks.length t =
      (k.schedule.put k.tasks.length new (.writing (.start new.request)), t) := by
    simp only [Worker.proceed, hn, hwaiting, if_pos hrel]
  rw [hproceed] at hstart
  have hwrite := works_alone (s := s) (r := r) hi (Writing.alone_store k.schedule.filer.rule.mode _ t) hn
  rw [hfiler] at hwrite
  refine ⟨_, (hschedule.trans hstart).trans hwrite, settled_put hk htasks htail, hunscheduled, ?_⟩
  rw [← hfiler]
  rfl

theorem works_requests (hi : i < s.workers.length) (r : Router) (requests : List WriteRequest) :
    ∀ (k : Worker) (t : FileTree), Settled k → k.unscheduled = requests →
      ∃ k', Works (s.put r i k t) (s.put r i k' (Filer.carryOut requests k.filer t).2.2) ∧ Settled k' ∧
        k'.unscheduled = [] ∧ k'.filer = (Filer.carryOut requests k.filer t).2.1 := by
  induction requests with
  | nil => exact fun k t hk hu => ⟨k, .refl _, hk, hu, rfl⟩
  | cons request requests ih =>
      intro k t hk hu
      obtain ⟨k₁, hw, hk₁, hu₁, hf₁⟩ := works_request hi hk hu r t
      obtain ⟨k₂, hw', hk₂, hu₂, hf₂⟩ := ih k₁ (t.store k.filer.rule.mode request).1 hk₁ hu₁
      rw [hf₁] at hw' hf₂
      exact ⟨k₂, hw.trans hw', hk₂, hu₂, hf₂⟩

/-- A filer receives envelopes and stores them. -/
theorem works_messages (hi : i < s.workers.length) (received left : List Envelope) :
    ∀ (r : Router) (c : Channel) (k : Worker) (t : FileTree), r.channels[i]? = some c →
      c.queue = received ++ left → Settled k → k.unscheduled = [] →
      ∃ k', Works (s.put r i k t) (s.put { r with channels := r.channels.set i { c with queue := left } } i k'
          (k.filer.storeAll t (received.map Envelope.toDocument)).2) ∧ Settled k' ∧
        k'.unscheduled = [] ∧ k'.filer = (k.filer.storeAll t (received.map Envelope.toDocument)).1 := by
  induction received with
  | nil =>
      intro r c k t hc hq hk hu
      have hset : { r with channels := r.channels.set i { c with queue := left } } = r := by
        obtain ⟨hlt, rfl⟩ := List.getElem?_eq_some_iff.1 hc
        rw [← List.nil_append left, ← hq]
        exact congrArg (fun channels => { r with channels }) (List.set_getElem_self hlt)
      rw [hset]
      exact ⟨k, .refl _, hk, hu, rfl⟩
  | cons e received ih =>
      intro r c k t hc hq hk hu
      have hear := works_hear (t := t) hi hu (Router.receive?_cons hc hq)
      have hk₁ : Settled (k.hear e.toDocument) := ⟨hk.ended, hk.tail⟩
      obtain ⟨k₂, hw, hk₂, hu₂, hf₂⟩ := works_requests hi
        { r with channels := r.channels.set i { c with queue := received ++ left } }
        (k.filer.prepare e.toDocument).1 (k.hear e.toDocument) t hk₁ rfl
      obtain ⟨k₃, hw', hk₃, hu₃, hf₃⟩ := ih
        { r with channels := r.channels.set i { c with queue := received ++ left } }
        { c with queue := received ++ left } k₂ _ (List.getElem?_set_self (List.getElem?_eq_some_iff.1 hc).1)
        rfl hk₂ hu₂
      rw [hf₂] at hw' hf₃
      rw [List.set_set] at hw'
      exact ⟨k₃, (hear.trans hw).trans hw', hk₃, hu₃, hf₃⟩

/-! ## Turns -/

/-- The running bus has this router, these filers and these files, and all that was received is stored. -/
structure Shows (r : Router) (filers : List Filer) (t : FileTree) (s : Running) : Prop where
  router : s.router = r
  filers : s.workers.map Worker.filer = filers
  files : s.files = t
  settled : ∀ k ∈ s.workers, Settled k ∧ k.unscheduled = []

variable {filers : List Filer} {f : Filer} {b : Bus} {late : List Nat} {received left : List Envelope}

theorem Shows.receive (h : Shows r filers t s) (hf : filers[i]? = some f) (hc : r.channels[i]? = some c)
    (hq : c.queue = received ++ left) :
    ∃ s', Works s s' ∧ Shows { r with channels := r.channels.set i { c with queue := left } }
      (filers.set i (f.storeAll t (received.map Envelope.toDocument)).1)
      (f.storeAll t (received.map Envelope.toDocument)).2 s' := by
  obtain ⟨rfl, rfl, rfl, hsettled⟩ := h
  rw [List.getElem?_map, Option.map_eq_some_iff] at hf
  obtain ⟨k, hk, rfl⟩ := hf
  obtain ⟨hks, hu⟩ := hsettled k (List.mem_of_getElem? hk)
  obtain ⟨k', hw, hks', hu', hf'⟩ := works_messages (List.getElem?_eq_some_iff.1 hk).1 received left
    s.router c k s.files hc hq hks hu
  rw [put_self hk] at hw
  refine ⟨_, hw, rfl, ?_, rfl, fun k'' hm => ?_⟩
  · rw [← hf']
    exact List.map_set
  · rcases List.mem_or_eq_of_mem_set hm with hm | rfl
    · exact hsettled k'' hm
    · exact ⟨hks', hu'⟩

theorem Shows.takeTurn (h : Shows b.router b.filers b.files s) (hb : Attended filers late b) (i : Nat)
    (ready : List Task) : ∃ s', Works s s' ∧ Shows (Bus.takeTurn { b with ready } i).2.router
      (Bus.takeTurn { b with ready } i).2.filers (Bus.takeTurn { b with ready } i).2.files s' := by
  cases hf : b.filers[i]? with
  | none =>
      rw [takeTurn_none (b := { b with ready }) hf]
      exact ⟨s, .refl s, h⟩
  | some f =>
      obtain ⟨c, hc⟩ := hb.exists_channel hf
      rw [takeTurn_some (b := { b with ready }) hf hc]
      exact h.receive hf hc (List.take_append_drop turnLength c.queue).symm

theorem Shows.takeTurns (h : Shows b.router b.filers b.files s) (hb : Attended filers late b) (n : Nat) :
    ∃ s', Works s s' ∧ Shows (Bus.takeTurns n late b).router (Bus.takeTurns n late b).filers
      (Bus.takeTurns n late b).files s' := by
  induction n, late, b using takeTurns.induct generalizing s with
  | case1 late b => exact ⟨s, .refl s, h⟩
  | case2 n late b hr =>
      simp only [Bus.takeTurns, hr]
      exact ⟨s, .refl s, h⟩
  | case3 n late b ready hr ih =>
      simp only [Bus.takeTurns, hr]
      exact ih h (hb.skip hr)
  | case4 n late b i ready hr usedUp b' ht ih =>
      obtain ⟨s', hw, h'⟩ := h.takeTurn hb i ready
      have hb' := hb.takeTurn hr
      rw [ht] at h' hb'
      simp only [Bus.takeTurns, hr, ht]
      obtain ⟨s'', hw', h''⟩ := ih h' hb'
      exact ⟨s'', hw.trans hw', h''⟩

theorem Shows.rounds (h : Shows b.router b.filers b.files s) (hb : Attended filers [] b) (n : Nat) :
    ∃ s', Works s s' ∧ Shows (Nat.repeat round n b).router (Nat.repeat round n b).filers
      (Nat.repeat round n b).files s' := by
  induction n with
  | zero => exact ⟨s, .refl s, h⟩
  | succ n ih =>
      obtain ⟨s', hw, h'⟩ := ih
      obtain ⟨s'', hw', h''⟩ := h'.takeTurns (hb.rounds n) roundLength
      exact ⟨s'', hw.trans hw', h''⟩

theorem Shows.waitToServe (h : Shows b.router b.filers b.files s) (hb : Attended filers [] b) (id : RouteId) :
    ∃ s', Works s s' ∧ Shows (b.waitToServe id).router (b.waitToServe id).filers
      (b.waitToServe id).files s' := by
  rw [Bus.waitToServe]
  split
  · exact h.rounds hb 1
  · split
    · exact h.rounds hb 1
    · exact h.rounds hb _

end FeedFiler.Bus
