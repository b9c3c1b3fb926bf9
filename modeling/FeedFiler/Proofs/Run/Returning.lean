import FeedFiler.Proofs.Run.Schedule

/-!
# An ingest can come to its end

A filer waits for the one who ingests only when its channel is empty, and the one who ingests waits for a filer
only when its channel is full. So from each state on, some turns lead to the return of the ingest.
-/

namespace FeedFiler.Ingest

open Bus (due)

/-! ## The work of one filer -/

/-- The filer among the files, with what is queued in its channel still to be received. -/
def Station.queued (a : Station) (c : Channel) (files : FileTree) : Filing Loop :=
  { a.filing files with giver := { a.loop with due := c.queue.map Envelope.toDocument } }

/-- Nothing has happened but to one filer, its channel and the files. -/
structure Aside (i : Nat) (s s' : Underway) : Prop where
  arrivals : s'.arrivals = s.arrivals
  envelope : s'.envelope = s.envelope
  publication : s'.publication = s.publication
  ended : s'.ended = s.ended
  stations : ∀ j ≠ i, s'.stations[j]? = s.stations[j]?

/-- A turn of a filing as one of the `i`-th filer. -/
def turnOf (i : Nat) : Filing.Turn → Turn
  | .giver => .filer i
  | .task n => .write i n
  | .others change => .others change

variable {filers : List Filer} {feed : Feed} {total : Nat} {trouble : Nat → Nat → Trouble} {s s' s'' : Underway}
  {f : Filer} {c : Channel} {a : Station} {i : Nat} {sent now : List Envelope} {hungUp : Bool}

theorem Aside.refl (i : Nat) (s : Underway) : Aside i s s := ⟨rfl, rfl, rfl, rfl, fun _ _ => rfl⟩

theorem Aside.trans (h : Aside i s s') (h' : Aside i s' s'') : Aside i s s'' :=
  ⟨h'.arrivals.trans h.arrivals, h'.envelope.trans h.envelope, h'.publication.trans h.publication,
    h'.ended.trans h.ended, fun j hj => (h'.stations j hj).trans (h.stations j hj)⟩

theorem aside_set (router : Router) (files : FileTree) (i : Nat) (a : Station) :
    Aside i s { s with router, stations := s.stations.set i a, files } :=
  ⟨rfl, rfl, rfl, rfl, fun _ hj => List.getElem?_set_ne hj.symm⟩

theorem Attends.queued (h : Attends f sent now hungUp c a) (files : FileTree) :
    (a.queued c files).Sound f (a.messages ++ c.queue.map Envelope.toDocument) := by
  obtain ⟨-, -, -, ⟨⟨heard, ha, hall⟩, hlinked, hhandles, hfits⟩, hidle, hleft⟩ := h
  obtain ⟨worker, ⟨loopDue, kept, phase⟩, received, results⟩ := a
  cases hidle
  refine ⟨⟨heard, ha, ?_⟩, hlinked, hhandles, ?_⟩
  · rw [← hall]
    cases phase <;> simp [Loop.unheard, Station.queued]
  · -- A loop that has left has left an empty channel.
    cases phase with
    | awaiting left => exact ⟨hfits.1, by simp [Station.queued, (hleft rfl).2], hfits.2.2⟩
    | ended => exact ⟨hfits.1, by simp [Station.queued, (hleft rfl).2], hfits.2.2⟩
    | _ => exact hfits

theorem act_due {l : Loop} (hp : l.phase ≠ .receiving) (k : Worker) (messages : List Document) :
    ({ l with due := messages } : Loop).act k = ({ (l.act k).1 with due := messages }, (l.act k).2) := by
  obtain ⟨due, kept, phase⟩ := l
  cases phase with
  | receiving => exact absurd rfl hp
  | checking message unchecked => cases unchecked <;> rfl
  | storing =>
      simp only [Loop.act]
      split <;> rfl
  | awaiting left =>
      cases left with
      | nil => rfl
      | cons n left =>
          simp only [Loop.act]
          split <;> rfl
  | ended => rfl

/-- A turn of a filer's loop that need not wait. -/
theorem work_queued (trouble : Nat → Nat → Trouble) (hc : s.router.channels[i]? = some c)
    (hs : s.stations[i]? = some a) (ha : a.loop.due = [])
    (hp : a.loop.phase = .receiving → c.queue ≠ [] ∨ s.ended.isSome = true) :
    ∃ c' a', (s.work i).router.channels[i]? = some c' ∧ (s.work i).stations[i]? = some a' ∧
      a'.queued c' (s.work i).files = (a.queued c s.files).turn Loop.act (trouble i) .giver ∧
        Aside i s (s.work i) := by
  have hil := (List.getElem?_eq_some_iff.1 hs).1
  have hic := (List.getElem?_eq_some_iff.1 hc).1
  by_cases hr : a.loop.phase = .receiving
  · cases hq : c.queue with
    | cons e rest =>
        have hwork : s.work i = { s with
            router := { s.router with channels := s.router.channels.set i { c with queue := rest } }
            stations := s.stations.set i (a.receive e) } := by
          simp only [Underway.work, hs, hr, Router.receive?_cons hc hq]
        rw [hwork]
        refine ⟨_, _, List.getElem?_set_self hic, List.getElem?_set_self hil, ?_, aside_set _ _ _ _⟩
        obtain ⟨worker, ⟨loopDue, kept, phase⟩, received, results⟩ := a
        cases hr
        cases ha
        simp only [Station.queued, hq]
        rfl
    | nil =>
        have hn := (hp hr).resolve_left (not_not.2 hq)
        have hwork : s.work i = { s with stations := s.stations.set i a.act } := by
          simp only [Underway.work, hs, hr, Router.receive?_nil hc hq, hn, if_true]
        rw [hwork]
        refine ⟨c, _, hc, List.getElem?_set_self hil, ?_, aside_set _ _ _ _⟩
        obtain ⟨worker, ⟨loopDue, kept, phase⟩, received, results⟩ := a
        cases hr
        cases ha
        simp only [Station.queued, hq]
        rfl
  · have hwork : s.work i = { s with stations := s.stations.set i a.act } := by
      rw [Underway.work, hs]
      cases hph : a.loop.phase with
      | receiving => exact absurd hph hr
      | _ => simp only [hph]
    rw [hwork]
    refine ⟨c, _, hc, List.getElem?_set_self hil, ?_, aside_set _ _ _ _⟩
    have hact := act_due hr a.worker (c.queue.map Envelope.toDocument)
    simp only [Filing.turn, Station.queued, Station.filing, hact]
    rfl

theorem turn_queued (feed : Feed) (trouble : Nat → Nat → Trouble) (hc : s.router.channels[i]? = some c)
    (hs : s.stations[i]? = some a) (ha : a.loop.due = [])
    (hn : s.ended.isSome = true) (turn : Filing.Turn) :
    ∃ c' a', (s.turn feed trouble (turnOf i turn)).router.channels[i]? = some c' ∧
      (s.turn feed trouble (turnOf i turn)).stations[i]? = some a' ∧
      a'.queued c' (s.turn feed trouble (turnOf i turn)).files =
          (a.queued c s.files).turn Loop.act (trouble i) turn ∧
        Aside i s (s.turn feed trouble (turnOf i turn)) := by
  cases turn with
  | giver => exact work_queued trouble hc hs ha fun _ => .inr hn
  | task n =>
      have hil := (List.getElem?_eq_some_iff.1 hs).1
      simp only [turnOf, Underway.turn, Underway.write, hs]
      exact ⟨c, _, hc, List.getElem?_set_self hil, rfl, aside_set _ _ _ _⟩
  | others change => exact ⟨c, a, hc, hs, rfl, rfl, rfl, rfl, rfl, fun _ _ => rfl⟩

/-- The turns of a filing are turns of the filer. -/
theorem Sound.run_queued (trouble : Nat → Nat → Trouble) (h : Sound filers feed total s) (hi : filers[i]? = some f)
    (hc : s.router.channels[i]? = some c) (hs : s.stations[i]? = some a) (hn : s.ended.isSome = true)
    (turns : List Filing.Turn) :
    ∃ s' c' a', Leads feed trouble s s' ∧ s'.router.channels[i]? = some c' ∧ s'.stations[i]? = some a' ∧
      a'.queued c' s'.files = (a.queued c s.files).run Loop.act (trouble i) turns ∧ Aside i s s' := by
  induction turns generalizing s c a with
  | nil => exact ⟨s, c, a, .refl _ _ s, hc, hs, rfl, .refl i s⟩
  | cons turn turns ih =>
      have ha : a.loop.due = [] := by
        obtain ⟨c', a', -, hs', hat⟩ := h.attends i f hi
        rw [hs] at hs'
        cases hs'
        exact hat.idle
      obtain ⟨c₁, a₁, hc₁, hs₁, he₁, haside₁⟩ := turn_queued feed trouble hc hs ha hn turn
      obtain ⟨s₂, c₂, a₂, hleads, hc₂, hs₂, he₂, haside₂⟩ :=
        ih (h.turn trouble (turnOf i turn)) hc₁ hs₁ (by rw [haside₁.ended, hn])
      refine ⟨s₂, c₂, a₂, .trans ⟨[turnOf i turn], rfl⟩ hleads, hc₂, hs₂, ?_, haside₁.trans haside₂⟩
      rw [he₂, he₁]
      rfl

/-- After the end of the reading each loop can come to its end. -/
theorem Sound.concludes (trouble : Nat → Nat → Trouble) (h : Sound filers feed total s)
    (hi : filers[i]? = some f) (hn : s.ended.isSome = true) :
    ∃ s' a', Leads feed trouble s s' ∧ s'.stations[i]? = some a' ∧ a'.worker.snapshot.isSome = true ∧
      Aside i s s' := by
  obtain ⟨c, a, hc, hs, hat⟩ := h.attends i f hi
  obtain ⟨turns, hturns⟩ : ∃ turns, ((a.queued c s.files).run Loop.act (trouble i) turns).finalCounters?.isSome =
      true := (hat.queued s.files).resolves
  obtain ⟨s', c', a', hleads, -, hs', he, haside⟩ := h.run_queued trouble hi hc hs hn turns
  rw [← he] at hturns
  exact ⟨s', a', hleads, hs', hturns, haside⟩

/-- A loop that has not left gets on without its writes. -/
theorem rank_act_of_stays {l : Loop} (h : hasLeft l = false) (k : Worker) :
    (l.act k).1.rank (l.act k).2.unscheduled < l.rank k.unscheduled := by
  refine Loop.rank_act (fun hp => ?_) fun n left hp => ?_
  · rw [hasLeft, hp] at h
    cases h
  · rw [hasLeft, hp] at h
    cases h

/-- Before the end of the reading each loop can work off its channel. -/
theorem Sound.empties (trouble : Nat → Nat → Trouble) (h : Sound filers feed total s)
    (hi : filers[i]? = some f) (hn : s.ended = none) :
    ∃ s' c', Leads feed trouble s s' ∧ s'.router.channels[i]? = some c' ∧ c'.queue = [] ∧ Aside i s s' := by
  obtain ⟨c, a, hc, hs, hat⟩ := h.attends i f hi
  induction hrank : (a.queued c s.files).giver.rank a.worker.unscheduled using WellFoundedLT.induction
      generalizing s c a with
  | ind rank ih =>
      subst hrank
      by_cases hq : c.queue = []
      · exact ⟨s, c, .refl _ _ s, hc, hq, .refl i s⟩
      have hstays : hasLeft a.loop = false := by
        rw [Bool.eq_false_iff]
        exact fun hl => hq (hat.left hl).2
      have hlt := rank_act_of_stays (l := (a.queued c s.files).giver) hstays a.worker
      obtain ⟨c₁, a₁, hc₁, hs₁, he₁, haside₁⟩ := work_queued trouble hc hs hat.idle fun _ => .inl hq
      have h₁ := h.work i
      obtain ⟨c₂, a₂, hc₂, hs₂, hat₁⟩ := h₁.attends i f hi
      rw [hc₁] at hc₂
      rw [hs₁] at hs₂
      cases hc₂
      cases hs₂
      have hlt₁ : (a₁.queued c₁ (s.work i).files).giver.rank a₁.worker.unscheduled <
          (a.queued c s.files).giver.rank a.worker.unscheduled := by
        have hworker : a₁.worker = _ := congrArg Filing.worker he₁
        rw [he₁, hworker]
        exact hlt
      obtain ⟨s₂, c₂, hleads, hc₂, hq₂, haside₂⟩ := ih _ hlt₁ h₁ (haside₁.ended.trans hn) c₁ a₁ hc₁ hs₁ hat₁ rfl
      exact ⟨s₂, c₂, (leads_work feed trouble s i).trans hleads, hc₂, hq₂, haside₁.trans haside₂⟩

/-! ## The one who ingests -/

/-- A bound on the turns that the one who ingests still needs if no channel is full. -/
def Underway.left (filers : List Filer) (feed : Feed) (s : Underway) : Nat :=
  if s.ended.isSome then 0
  else 1 + s.arrivals.length * (subscribed filers feed + 3) +
    s.envelope.toList.length * (subscribed filers feed + 2) +
      ((s.publication.map fun p => p.remaining.length + 1).getD 0)

/-- The channel of the next route of the publication, if there is one, has room. -/
def Underway.Unblocked (s : Underway) : Prop := ∀ e id ids delivered,
  s.publication = some ⟨e, id :: ids, delivered⟩ → (s.router.offer e id).1 ≠ .full

theorem left_of_none (hn : s.ended = none) : s.left filers feed =
    1 + s.arrivals.length * (subscribed filers feed + 3) +
      s.envelope.toList.length * (subscribed filers feed + 2) +
        ((s.publication.map fun p => p.remaining.length + 1).getD 0) := by
  rw [Underway.left, hn]
  rfl

theorem left_of_ended (hn : s.ended.isSome = true) : s.left filers feed = 0 := if_pos hn

theorem left_pos (hn : s.ended = none) : 0 < s.left filers feed := by
  rw [left_of_none hn]
  omega

theorem Aside.left (h : Aside i s s') : s'.left filers feed = s.left filers feed := by
  simp only [Underway.left, h.arrivals, h.envelope, h.publication, h.ended]

/-- The one who ingests gets on if the channel of the next route has room. -/
theorem Sound.left_publish (h : Sound filers feed total s) (hn : s.ended = none) (hroom : s.Unblocked) :
    (s.publish feed).left filers feed < s.left filers feed := by
  rw [Underway.publish, hn, Option.isSome_none, if_neg Bool.false_ne_true]
  split
  · next e delivered hp => simp [Underway.left, hn, hp]
  · next e id ids delivered hp =>
      have hne := hroom e id ids delivered hp
      split
      · next ho =>
          rw [ho] at hne
          exact absurd rfl hne
      · simp [Underway.left, hn, hp]
      · simp [Underway.left, hn, hp]
  · next e hp he =>
      have hroute : (s.router.startPublishing feed.address e).1.remaining.length = subscribed filers feed :=
        length_route h.wired feed
      simp [Underway.left, hn, hp, he, hroute]
  · next hp he =>
      split
      · rw [left_of_ended rfl]
        exact left_pos hn
      · next arrival arrivals ha =>
          split
          · rw [left_of_ended rfl]
            exact left_pos hn
          · rw [left_of_none rfl, left_of_none hn, hp, he, ha, List.length_cons, Nat.succ_mul]
            simp only [Option.toList_none, Option.toList_some, List.length_nil, List.length_singleton]
            omega

/-- The filer of the next route can work off its channel. -/
theorem Sound.unblocks (trouble : Nat → Nat → Trouble) (h : Sound filers feed total s) (hn : s.ended = none) :
    ∃ s' i, Leads feed trouble s s' ∧ Aside i s s' ∧ s'.Unblocked := by
  match hp : s.publication with
  | none => exact ⟨s, 0, .refl _ _ s, .refl 0 s, by rw [Underway.Unblocked, hp]; nofun⟩
  | some ⟨e, [], delivered⟩ => exact ⟨s, 0, .refl _ _ s, .refl 0 s, by rw [Underway.Unblocked, hp]; nofun⟩
  | some ⟨e, id :: ids, delivered⟩ =>
      obtain ⟨i, f, hi, rfl⟩ := (h.remaining _ hp).2.1 _ List.mem_cons_self
      obtain ⟨s', c, hleads, hc, hq, haside⟩ := h.empties trouble hi hn
      refine ⟨s', i, hleads, haside, fun e' id' ids' delivered' hp' => ?_⟩
      rw [haside.publication, hp] at hp'
      cases hp'
      obtain ⟨c', a, hc', -, hat⟩ := (h.leads hleads).attends i f hi
      rw [hc] at hc'
      cases hc'
      have hfree : c.free ≠ 0 := by
        rw [Channel.free, hq]
        exact Nat.ne_of_gt hat.capacity
      rw [(h.leads hleads).wired.offer hi hc hat.isOpen e, if_neg hfree]
      nofun

/-- The reading can come to its end. -/
theorem Sound.ends (trouble : Nat → Nat → Trouble) (h : Sound filers feed total s) :
    ∃ s', Leads feed trouble s s' ∧ s'.ended.isSome = true := by
  induction hleft : s.left filers feed using Nat.strongRecOn generalizing s with
  | ind left ih =>
      subst hleft
      by_cases hn : s.ended.isSome = true
      · exact ⟨s, .refl _ _ s, hn⟩
      rw [Option.not_isSome_iff_eq_none] at hn
      obtain ⟨s₁, i, hleads₁, haside, hroom⟩ := h.unblocks trouble hn
      have h₁ := h.leads hleads₁
      have hlt := h₁.left_publish (haside.ended.trans hn) hroom
      obtain ⟨s₂, hleads₂, hended⟩ := ih _ (haside.left ▸ hlt) h₁.publish rfl
      exact ⟨s₂, hleads₁.trans ((leads_publish feed trouble s₁).trans hleads₂), hended⟩

/-! ## The return -/

/-- After the end of the reading the loops can end one after the other. -/
theorem Sound.conclude (trouble : Nat → Nat → Trouble) (h : Sound filers feed total s)
    (hn : s.ended.isSome = true) (k : Nat) :
    ∃ s', Leads feed trouble s s' ∧ s'.ended = s.ended ∧
      ∀ i < k, ∀ a, s'.stations[i]? = some a → a.worker.snapshot.isSome = true := by
  induction k with
  | zero => exact ⟨s, .refl _ _ s, rfl, nofun⟩
  | succ k ih =>
      obtain ⟨s₁, hleads₁, hsame₁, hall⟩ := ih
      have h₁ := h.leads hleads₁
      cases hk : filers[k]? with
      | none =>
          refine ⟨s₁, hleads₁, hsame₁, fun i hi a ha => ?_⟩
          rcases Nat.lt_succ_iff_lt_or_eq.1 hi with hi | rfl
          · exact hall i hi a ha
          · rw [h₁.stations_none hk] at ha
            cases ha
      | some f =>
          obtain ⟨s₂, a₂, hleads₂, hs₂, hsnapshot, haside⟩ := h₁.concludes trouble hk
            (by rw [hsame₁, hn])
          refine ⟨s₂, hleads₁.trans hleads₂, haside.ended.trans hsame₁, fun i hi a ha => ?_⟩
          rcases Nat.lt_succ_iff_lt_or_eq.1 hi with hi | rfl
          · exact hall i hi a (haside.stations i (Nat.ne_of_lt hi) ▸ ha)
          · rw [hs₂] at ha
            cases ha
            exact hsnapshot

/-- **Whatever has happened, an ingest can still return.** -/
theorem Sound.returns (trouble : Nat → Nat → Trouble) (h : Sound filers feed total s) :
    ∃ s', Leads feed trouble s s' ∧ s'.result?.isSome = true := by
  obtain ⟨s₁, hleads₁, hn⟩ := h.ends trouble
  obtain ⟨s₂, hleads₂, hsame, hall⟩ := (h.leads hleads₁).conclude trouble hn filers.length
  refine ⟨s₂, hleads₁.trans hleads₂, ?_⟩
  have hstations := ((h.leads hleads₁).leads hleads₂).stations
  have hsnapshots : (s₂.stations.all fun a => a.worker.snapshot.isSome) = true := by
    rw [List.all_eq_true]
    intro a ha
    obtain ⟨i, hi⟩ := List.getElem?_of_mem ha
    exact hall i (hstations ▸ (List.getElem?_eq_some_iff.1 hi).1) a hi
  rw [Underway.result?, hsame]
  match hended : s₁.ended with
  | none => simp [hended] at hn
  | some (.error cause) => rfl
  | some (.ok ()) =>
      simp only [hsnapshots, if_true]
      rfl

end FeedFiler.Ingest
