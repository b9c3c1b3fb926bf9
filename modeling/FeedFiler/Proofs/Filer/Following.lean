import FeedFiler.Proofs.Files.Appending
import FeedFiler.Proofs.Filer.Tasks

/-!
# What tasks that append leave at their targets

Others may change the tree between the turns of the tasks, elsewhere than at the targets of the filer. What
the tasks leave at the targets is what the filer leaves there storing the messages one after the other.
-/

namespace FeedFiler

namespace Worker

open FileTree

/-- How far a task is for which all before it have left the tree `s`. -/
inductive UnderWay (own : Targets) (s t : FileTree) : Option WriteTask → Prop where
  | none (agree : Agree own s t) : UnderWay own s t none
  | waiting {task : WriteTask} (stage : task.stage = .waiting) (agree : Agree own s t) :
      UnderWay own s t (some task)
  | writing {task : WriteTask} {w : Writing} (stage : task.stage = .writing w)
      (appending : Appending own task.request s t w) : UnderWay own s t (some task)

/-- Of the requests of the messages so far, the first `m` have been carried out one after the other,
beginning with `s`, the next one may be under way, and those after it are waiting or not scheduled. -/
structure Follows (own : Targets) (f : Filer) (s : FileTree) (messages : List Document) (m : Nat)
    (k : Worker) (t : FileTree) : Prop where
  requests : k.tasks.map WriteTask.request ++ k.unscheduled = f.requests messages
  tail : k.tail = before k.tasks.length
  previous : ∀ n task, k.tasks[n]? = some task → task.previous = before n
  le : m ≤ k.tasks.length
  ended : ∀ n task, k.tasks[n]? = some task → n < m → task.stage = .ended
  waiting : ∀ n task, k.tasks[n]? = some task → m < n → task.stage = .waiting
  underWay : UnderWay own (storeEach .append ((f.requests messages).take m) s).1 t k.tasks[m]?
  filer : k.filer = f.after messages (storeEach .append ((f.requests messages).take m) s).2

variable {own : Targets} {f : Filer} {k : Worker} {s t t' : FileTree} {messages : List Document}
  {m : Nat} {task : WriteTask}

theorem UnderWay.ne_ended {o : Option WriteTask} (h : UnderWay own s t o) (ho : o = some task) :
    task.stage ≠ .ended := by
  cases h with
  | none agree => cases ho
  | waiting stage agree =>
      cases ho
      rw [stage]
      nofun
  | writing stage appending =>
      cases ho
      rw [stage]
      nofun

theorem Follows.chain (h : Follows own f s messages m k t) : Chain f messages m k :=
  ⟨by rw [h.filer, Filer.after_rule], h.requests, h.tail, h.previous, h.le, h.ended,
    fun _ hn => h.underWay.ne_ended hn, h.waiting⟩

theorem Chain.follows (h : Chain f messages m k)
    (underWay : UnderWay own (storeEach .append ((f.requests messages).take m) s).1 t k.tasks[m]?)
    (filer : k.filer = f.after messages (storeEach .append ((f.requests messages).take m) s).2) :
    Follows own f s messages m k t :=
  ⟨h.requests, h.tail, h.previous, h.le, h.ended, h.waiting, underWay, filer⟩

theorem follows_start (h : Agree own s t) : Follows own f s [] 0 { filer := f } t :=
  (chain_start f).follows (.none h) rfl

theorem Follows.hear (h : Follows own f s messages m k t) (hu : k.unscheduled = []) (message : Document) :
    Follows own f s (messages ++ [message]) m (k.hear message) t := by
  refine (h.chain.hear hu message).follows ?_ ?_
  · rw [h.chain.take_concat]
    exact h.underWay
  · rw [h.chain.take_concat, Worker.hear, h.filer, Filer.prepare_after]

theorem Follows.schedule (h : Follows own f s messages m k t) (hm : f.rule.mode = .append) :
    Follows own f s messages m k.schedule t := by
  obtain ⟨-, he⟩ | ⟨r, requests, -, he⟩ := h.chain.schedule_eq hm
  · rwa [he]
  refine (h.chain.schedule hm).follows ?_ (by rw [he]; exact h.filer)
  have hw := h.underWay
  simp only [he, getElem?_concat]
  split
  · next hl =>
      rw [hl, List.getElem?_eq_none (Nat.le_refl _)] at hw
      cases hw with
      | none agree => exact .waiting rfl (by rwa [hl])
  · exact hw

theorem Follows.put (h : Follows own f s messages m k t) (hn : k.tasks[m]? = some task)
    {w : Writing} (hw : Appending own task.request (storeEach .append ((f.requests messages).take m) s).1 t' w) :
    Follows own f s messages m (k.put m task (.writing w)) t' := by
  have hc : Chain f messages m (k.put m task (.writing w)) := h.chain.put hn nofun
  refine hc.follows ?_ h.filer
  rw [getElem?_put hn, if_pos rfl]
  exact .writing rfl hw

/-- The first task that has not ended ends. -/
theorem Follows.finish (h : Follows own f s messages m k t) (hn : k.tasks[m]? = some task)
    {result : Except StoreError String}
    (ha : Appending own task.request (storeEach .append ((f.requests messages).take m) s).1 t
      (.finished result)) :
    Follows own f s messages (m + 1)
      ({ k with filer := k.filer.account result.isOk }.put m task .ended) t := by
  obtain ⟨hg, hok⟩ := ha.finished
  refine (h.chain.finish hn _).follows ?_ ?_
  · have hput := getElem?_put (k := { k with filer := k.filer.account result.isOk }) hn task
    rw [h.chain.take_succ hn, storeEach_append, hput, if_neg (Nat.succ_ne_self m)]
    cases hnext : k.tasks[m + 1]? with
    | none => exact .none hg
    | some next => exact .waiting (h.chain.waiting (m + 1) next hnext (Nat.lt_succ_self m)) hg
  · rw [h.chain.take_succ hn, storeEach_append]
    show k.filer.account result.isOk = _
    rw [h.filer, Filer.account_after, hok]
    rfl

theorem UnderWay.keep {o : Option WriteTask} (h : UnderWay own s t o) (hk : t.KeepsDirs t')
    (hg : Agree own t t') : UnderWay own s t' o := by
  cases h with
  | none agree => exact .none (agree.trans hg)
  | waiting stage agree => exact .waiting stage (agree.trans hg)
  | writing stage appending => exact .writing stage (appending.keep hk hg)

theorem Follows.keep (h : Follows own f s messages m k t) (hk : t.KeepsDirs t') (hg : Agree own t t') :
    Follows own f s messages m k t' :=
  h.chain.follows (h.underWay.keep hk hg) h.filer

theorem store_current (t : FileTree) (r : WriteRequest) : (t.store .append r).1.current = t.current := by
  have hd := (addsDirs_makeDirs t r.dir).current
  rw [FileTree.store]
  split
  · next h =>
      rw [h] at hd
      exact hd
  · next t' h =>
      rw [h] at hd
      simp only [storeFile]
      cases hf : t'.append r.path (r.content ++ "\n").toUTF8 with
      | error cause => exact hd
      | ok t'' => exact (keepsDirs_of_change hf).current.trans hd

theorem storeEach_current (requests : List WriteRequest) (t : FileTree) :
    (storeEach .append requests t).1.current = t.current := by
  induction requests generalizing t with
  | nil => rfl
  | cons r requests ih => exact (ih _).trans (store_current t r)

theorem Follows.conclude (h : Follows own f s messages m k t) : Follows own f s messages m k.conclude t :=
  ⟨h.requests, h.tail, h.previous, h.le, h.ended, h.waiting, h.underWay, h.filer⟩

/-- **A turn of a task keeps the writes in order, and changes what the filer's requests may change.** -/
theorem Follows.proceed (h : Follows own f s messages m k t) (hm : f.rule.mode = .append)
    (hr : ∀ r ∈ f.requests messages, r.Descends ∧ own (s.locate r.entry.path) (s.locate r.path)) (n : Nat) :
    Change own t (k.proceed n t).2 ∧ ∃ m', Follows own f s messages m' (k.proceed n t).1 (k.proceed n t).2 := by
  have hmode : k.filer.rule.mode = .append := by rw [h.filer, Filer.after_rule, hm]
  cases hn : k.tasks[n]? with
  | none =>
      simp only [Worker.proceed, hn]
      exact ⟨.none, m, h⟩
  | some task =>
      cases hs : task.stage with
      | ended =>
          simp only [Worker.proceed, hn, hs]
          exact ⟨.none, m, h⟩
      | waiting =>
          simp only [Worker.proceed, hn, hs]
          refine ⟨.none, m, ?_⟩
          split
          · next hrel =>
              cases h.chain.eq_of_released hn hs hrel
              refine h.put hn ?_
              have hu := h.underWay
              rw [hn] at hu
              cases hu with
              | writing stage appending =>
                  rw [hs] at stage
                  cases stage
              | waiting stage agree =>
                  obtain ⟨hp, ho⟩ := hr _ (List.mem_of_getElem? (h.chain.request hn))
                  refine appending_start hp ?_ agree
                  simpa only [locate, storeEach_current] using ho
          · exact h
      | writing w =>
          cases h.chain.eq_of_writing hn hs
          have hu := h.underWay
          rw [hn] at hu
          cases hu with
          | waiting stage agree =>
              rw [hs] at stage
              cases stage
          | writing stage appending =>
              rw [hs] at stage
              cases stage
              cases w with
              | finished result =>
                  simp only [Worker.proceed, hn, hs]
                  exact ⟨.none, m + 1, h.finish hn appending⟩
              | _ =>
                  simp only [Worker.proceed, hn, hs, hmode]
                  obtain ⟨hc, ha⟩ := appending.step
                  exact ⟨hc, m, h.put hn ha⟩

/-- **When all writes have ended, the filer has counted, and left at its targets, what it does storing the
messages one after the other.** -/
theorem Follows.idle (h : Follows own f s messages m k t) (hm : f.rule.mode = .append)
    (hi : k.isIdle = true) :
    k.filer = (f.storeAll s messages).1 ∧ Agree own (f.storeAll s messages).2 t := by
  obtain ⟨hn, htake⟩ := h.chain.idle hi
  have hu := h.underWay
  have hf := h.filer
  rw [hn, htake] at hu
  rw [htake] at hf
  cases hu with
  | none agree =>
      rw [Filer.storeAll_eq, hm]
      exact ⟨hf, agree⟩

end Worker

end FeedFiler
