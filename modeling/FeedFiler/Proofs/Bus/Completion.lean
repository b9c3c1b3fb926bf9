import FeedFiler.Proofs.Bus.Waiting

/-!
# Completing a publication

A publisher who waits for room serves one route after the other. The turns that it has are enough for all
of them.
-/

namespace FeedFiler.Bus

/-- The routes have filers. -/
def Filed (filers : List Filer) (ids : List RouteId) : Prop :=
  ∀ id ∈ ids, ∃ (i : Nat) (f : Filer), filers[i]? = some f ∧ id = .ofNat i

variable {filers : List Filer} {f : Filer} {r : Router} {b : Bus} {c : Channel} {e : Envelope}
  {p : Router.Publication} {id : RouteId} {ids : List RouteId} {i turns : Nat}

/-! ## Serving routes -/

theorem Equipped.serve_cons (h : Equipped filers r) (hi : filers[i]? = some f)
    (hc : r.channels[i]? = some c) (ids : List RouteId) (allowed delivered : Nat) :
    Router.serve e (.ofNat i :: ids) allowed delivered r =
      if c.free = 0 ∨ allowed = 0 then ((.ofNat i :: ids, delivered), r) else
        Router.serve e ids (allowed - 1) (delivered + 1) (Router.countSend { r with
          channels := r.channels.set i { c with queue := c.queue ++ [e] } } .sent) := by
  have ho := h.wired.offer hi hc (h.isOpen c (List.mem_of_getElem? hc)) e
  by_cases hfree : c.free = 0
  · rw [if_pos hfree] at ho
    simp only [Router.serve, ho, hfree, true_or, if_true]
  · rw [if_neg hfree] at ho
    cases allowed with
    | zero => simp only [Router.serve, ho, or_true, if_true]
    | succ allowed =>
        simp only [Router.serve, ho, hfree, Nat.succ_ne_zero, or_self, if_false, Nat.add_sub_cancel]

/-- The routes that are served are the first ones, and the very first one is if it can be. -/
theorem Equipped.serve (h : Equipped filers r) (hids : Filed filers ids) (allowed delivered : Nat) :
    ∃ served left r', ids = served ++ left ∧
      Router.serve e ids allowed delivered r = ((left, delivered + served.length), r') ∧
      Equipped filers r' ∧ (∀ i rest, left = .ofNat i :: rest → allowed ≠ 0 → HasRoom r i → served ≠ []) := by
  induction ids generalizing r allowed delivered with
  | nil => exact ⟨[], [], r, rfl, rfl, h, nofun⟩
  | cons id ids ih =>
      obtain ⟨i, f, hi, rfl⟩ := hids _ List.mem_cons_self
      obtain ⟨c, hc⟩ := h.exists_channel (List.getElem?_eq_some_iff.1 hi).1
      rw [h.serve_cons hi hc]
      by_cases hstop : c.free = 0 ∨ allowed = 0
      · rw [if_pos hstop]
        refine ⟨[], _, r, rfl, rfl, h, ?_⟩
        rintro j rest hj hallowed ⟨d, hd, hfree⟩
        have hlt := (List.getElem?_eq_some_iff.1 hd).1
        rw [h.length] at hlt
        have he := (ofNat_inj_of_getElem? h.wired.le hi (List.getElem?_eq_getElem hlt)).1 (List.cons.inj hj).1
        subst he
        rw [hc] at hd
        cases hd
        exact absurd hstop (not_or.2 ⟨hfree, hallowed⟩)
      · rw [if_neg hstop]
        have hlt : c.queue.length < c.capacity := by
          have := mt Or.inl hstop
          rw [Channel.free] at this
          omega
        have h' : Equipped filers { r with channels := r.channels.set i { c with queue := c.queue ++ [e] } } := by
          refine h.set hc ?_
          rw [List.length_append, List.length_singleton]
          exact hlt
        have h'' : Equipped filers (Router.countSend { r with
            channels := r.channels.set i { c with queue := c.queue ++ [e] } } .sent) :=
          h'.of_eq rfl rfl rfl
        obtain ⟨served, left, r', rfl, hs, he, -⟩ :=
          ih h'' (fun id hid => hids id (List.mem_cons_of_mem _ hid)) (allowed - 1) (delivered + 1)
        refine ⟨.ofNat i :: served, left, r', rfl, ?_, he, fun _ _ _ _ _ => List.cons_ne_nil _ _⟩
        rw [hs, List.length_cons]
        congr 2
        omega

/-! ## Turns of the publisher -/

theorem attended_call (h : Equipped filers b.router) (hl : b.filers.length = filers.length) :
    Attended filers [] b.call := by
  refine ⟨h, hl, fun j d hd hq => .inl ?_⟩
  have hlt : j < b.filers.length := by
    rw [hl, ← h.length]
    exact (List.getElem?_eq_some_iff.1 hd).1
  by_cases hm : .filer j ∈ b.ready
  · exact List.mem_append_left _ hm
  · refine List.mem_append_right _ (List.mem_map_of_mem (List.mem_filter.2 ⟨List.mem_range.2 hlt, ?_⟩))
    have hd' : b.router.channels[j]? = some d := hd
    simp [holdsEnvelope, hd', hq, hm]

theorem advance_of_serve {left : List RouteId} {delivered : Nat}
    (hs : Router.serve p.envelope p.remaining b.allowance p.delivered b.router = ((left, delivered), r)) :
    b.advance p = (⟨p.envelope, left, delivered⟩, Bus.call { b with
      router := if left.isEmpty then r.countDone delivered else r
      allowance := b.allowance - (delivered - p.delivered) }) := by
  simp only [advance, Router.advanceUpTo, hs]

/-- A turn of the publisher serves some of the routes, and the first one if it may and can. -/
theorem Attended.advance (h : Attended filers [] b) (hids : Filed filers p.remaining) :
    ∃ served, p.remaining = served ++ (b.advance p).1.remaining ∧
      (b.advance p).2.allowance = b.allowance - served.length ∧ Attended filers [] (b.advance p).2 ∧
        ∀ i rest, (b.advance p).1.remaining = .ofNat i :: rest → b.allowance ≠ 0 → HasRoom b.router i →
          served ≠ [] := by
  obtain ⟨served, left, r', hr, hs, he, hroom⟩ := h.equipped.serve (e := p.envelope) hids b.allowance p.delivered
  rw [advance_of_serve hs, Nat.add_sub_cancel_left]
  refine ⟨served, hr, rfl, attended_call ?_ h.length, hroom⟩
  show Equipped filers (if left.isEmpty then r'.countDone _ else r')
  split
  · exact he.of_eq rfl rfl rfl
  · exact he

theorem Attended.waitToServe (h : Attended filers [] b) (id : RouteId) :
    Attended filers [] (b.waitToServe id) := by
  rw [Bus.waitToServe]
  split
  · exact h.round
  · split
    · exact h.round
    · exact h.rounds _

theorem allowance_waitToServe (b : Bus) (id : RouteId) : (b.waitToServe id).allowance = turnLength := by
  rw [waitToServe]
  split
  · rfl
  · split <;> rfl

theorem Attended.hasRoom_waitToServe (h : Attended filers [] b) (hi : filers[i]? = some f)
    (ha : b.allowance ≠ 0) : HasRoom (b.waitToServe (.ofNat i)).router i := by
  simp only [Bus.waitToServe, h.equipped.wired.handles i f hi, if_neg ha]
  exact h.hasRoom_waitFor (List.getElem?_eq_some_iff.1 hi).1

theorem complete_of_nil (turns : Nat) (hleft : (b.advance p).1.remaining = []) :
    complete (turns + 1) p b = ((b.advance p).1.delivered, (b.advance p).2) := by
  simp only [complete, hleft]

theorem complete_of_cons (turns : Nat) (hleft : (b.advance p).1.remaining = id :: ids) :
    complete (turns + 1) p b = complete turns (b.advance p).1 ((b.advance p).2.waitToServe id) := by
  simp only [complete, hleft]

/-- So many turns are enough: two for each route that is left, but one less if the first route has room,
and one more if the turn may be used up. -/
inductive Enough (b : Bus) (p : Router.Publication) : Nat → Prop where
  | any {turns : Nat} (le : 2 * p.remaining.length + 1 ≤ turns) : Enough b p turns
  | allowed {turns : Nat} (allowance : b.allowance ≠ 0) (remaining : p.remaining ≠ [])
      (le : 2 * p.remaining.length ≤ turns) : Enough b p turns
  | room {turns i : Nat} {ids : List RouteId} (allowance : b.allowance ≠ 0)
      (remaining : p.remaining = .ofNat i :: ids) (hasRoom : HasRoom b.router i)
      (le : 2 * p.remaining.length ≤ turns + 1) : Enough b p turns

theorem Enough.pos (h : Enough b p turns) : turns ≠ 0 := by
  cases h with
  | any le => omega
  | allowed allowance remaining le =>
      have := List.length_pos_iff.2 remaining
      omega
  | room allowance remaining hasRoom le =>
      rw [remaining, List.length_cons] at le
      omega

/-- If there are enough turns, there are enough after one of them. -/
theorem Enough.advance (he : Enough b p (turns + 1)) (h : Attended filers [] b)
    (hids : Filed filers p.remaining) (hleft : (b.advance p).1.remaining = id :: ids) :
    Enough ((b.advance p).2.waitToServe id) (b.advance p).1 turns := by
  obtain ⟨served, hr, ha, h', hroom⟩ := h.advance hids
  have hallowance : ((b.advance p).2.waitToServe id).allowance ≠ 0 := by
    rw [allowance_waitToServe]
    decide
  obtain ⟨i, f, hi, rfl⟩ := hids id (hr ▸ List.mem_append_right _ (hleft ▸ List.mem_cons_self))
  have hlen := congrArg List.length hr
  rw [List.length_append] at hlen
  cases served with
  | nil =>
      rw [List.length_nil, Nat.sub_zero] at ha
      rw [List.length_nil, Nat.zero_add] at hlen
      cases he with
      | any le => exact .allowed hallowance (by rw [hleft]; exact List.cons_ne_nil _ _) (by omega)
      | allowed allowance remaining le =>
          exact .room hallowance hleft (h'.hasRoom_waitToServe hi (ha ▸ allowance)) (by omega)
      | room allowance remaining hasRoom le =>
          rw [hr, List.nil_append] at remaining
          exact absurd rfl (hroom _ _ remaining allowance hasRoom)
  | cons first served =>
      rw [List.length_cons] at hlen
      refine .allowed hallowance (by rw [hleft]; exact List.cons_ne_nil _ _) ?_
      cases he with
      | any le => omega
      | allowed allowance remaining le => omega
      | room allowance remaining hasRoom le => omega

end FeedFiler.Bus
