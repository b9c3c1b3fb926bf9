import FeedFiler.Proofs.Filer.CallOrder
import FeedFiler.Proofs.Filer.Partition
import FeedFiler.Run.Replay

/-!
# What the counters account for

A filer counts each message when it hears it, and each write when it has returned. Between its return and
its count a write is owed; counters and owed writes together are the writes that have returned, each of them
once. This holds whether the filer waits for its writes or schedules them as tasks.
-/

namespace FeedFiler

/-- How the write of a task ended, if it has returned and is not counted yet. -/
def WriteTask.owed? (task : WriteTask) : Option (Except StoreError String) :=
  match task.stage with
  | .writing w => w.result?
  | _ => none

/-- The write of the task has returned. -/
def WriteTask.hasReturned (task : WriteTask) : Bool := task.stage.isEnded || task.owed?.isSome

theorem WriteTask.hasReturned_writing (task : WriteTask) (w : Writing) :
    { task with stage := .writing w : WriteTask }.hasReturned = w.result?.isSome := rfl

/-- How many writes have been counted that succeeded, or that failed. -/
def FilerCounters.counted (c : FilerCounters) (written : Bool) : Nat := if written then c.stored else c.failed

namespace Filer

theorem counted_account (f : Filer) (b written : Bool) :
    (f.account b).counters.counted written = f.counters.counted written + if b == written then 1 else 0 := by
  cases b <;> cases written <;> rfl

/-- The counters have grown by some messages and by what the writes of their documents returned. -/
structure Accounts (f : Filer) (messages : List Document) (results : List (Except StoreError String))
    (c : FilerCounters) : Prop where
  received : c.received = f.counters.received + messages.length
  filtered : c.filtered = f.counters.filtered + messages.countP fun message => !f.rule.admits message
  written : c.written = f.counters.written + (f.records messages).length
  stored : c.stored = f.counters.stored + results.countP (·.isOk)

theorem length_requests (f : Filer) (messages : List Document) :
    (f.requests messages).length = (f.records messages).length := by
  rw [requests_eq_records, List.length_map]

theorem accounts_after {f : Filer} {messages : List Document} {results : List (Except StoreError String)}
    (hl : results.length = (f.requests messages).length) :
    f.Accounts messages results (f.after messages (results.map (·.isOk))).counters := by
  have hcount (b : Bool) : (results.map (·.isOk)).count b = results.countP (·.isOk == b) := by
    rw [List.count, List.countP_map]
    rfl
  have hsplit : results.length = results.countP (·.isOk) + results.countP (!·.isOk) := by
    simpa using List.length_eq_countP_add_countP (p := (·.isOk)) (l := results)
  refine ⟨rfl, rfl, ?_, ?_⟩
  · rw [← length_requests, ← hl, hsplit]
    simp only [FilerCounters.written, Filer.after, FilerCounters.after, hcount, beq_true, beq_false]
    omega
  · simp only [Filer.after, FilerCounters.after, hcount, beq_true]

/-! ## Waiting for the writes -/

/-- What becomes of the writes of a filer: of the first, the second, and so on. -/
abbrev Outcomes := Nat → FileTree → WriteRequest → FileTree × Except StoreError String

/-- Carries out requests, the first of which is the `n`-th write; what the writes return. -/
def resultsOf (outcomes : Outcomes) : Nat → List WriteRequest → FileTree →
    FileTree × List (Except StoreError String)
  | _, [], t => (t, [])
  | n, r :: requests, t =>
    let (t, result) := outcomes n t r
    let (t, results) := resultsOf outcomes (n + 1) requests t
    (t, result :: results)

/-- Carries out requests one after the other, and counts how many succeed. -/
def carryOutWith (outcomes : Outcomes) : Nat → List WriteRequest → Filer → FileTree → Nat × Filer × FileTree
  | _, [], f, t => (0, f, t)
  | n, r :: requests, f, t =>
    let (t, result) := outcomes n t r
    let (count, f, t) := carryOutWith outcomes (n + 1) requests (f.account result.isOk) t
    ((if result.isOk then 1 else 0) + count, f, t)

/-- Stores messages one after the other; how many documents of each were written. -/
def storeEachWith (outcomes : Outcomes) : Nat → List Document → Filer → FileTree → List Nat × Filer × FileTree
  | _, [], f, t => ([], f, t)
  | n, message :: messages, f, t =>
    let (requests, f) := f.prepare message
    let (count, f, t) := carryOutWith outcomes n requests f t
    let (counts, f, t) := storeEachWith outcomes (n + requests.length) messages f t
    (count :: counts, f, t)

variable {f : Filer} {mode : StoreMode}

theorem carryOutWith_store (hm : f.rule.mode = mode) (n : Nat) (requests : List WriteRequest) (t : FileTree) :
    carryOutWith (fun _ t r => t.store mode r) n requests f t = carryOut requests f t := by
  induction requests generalizing f n t with
  | nil => rfl
  | cons r requests ih =>
      have hrule (written : Bool) : (f.account written).rule.mode = mode := by cases written <;> exact hm
      simp only [carryOutWith, carryOut, hm, ih (hrule _)]

/-- The filer's own way of storing is the one in which the files alone decide. -/
theorem storeEachWith_store (hm : f.rule.mode = mode) (n : Nat) (messages : List Document) (t : FileTree) :
    Replay.storeMessages messages f t =
      let r := storeEachWith (fun _ t r => t.store mode r) n messages f t
      (r.1.sum, r.2) := by
  induction messages generalizing f n t with
  | nil => rfl
  | cons message messages ih =>
      have hstore : f.store t message = carryOutWith (fun _ t r => t.store mode r) n
          (f.prepare message).1 (f.prepare message).2 t :=
        (carryOutWith_store (f := (f.prepare message).2) hm ..).symm
      have hrule : (f.store t message).2.1.rule.mode = mode := by
        have h := congrArg (·.1.rule.mode) (store_after f [] [] message t)
        exact h.trans hm
      rw [hstore] at hrule
      simp only [Replay.storeMessages, storeEachWith, hstore, ih hrule (n + (f.prepare message).1.length),
        List.sum_cons]

variable (f : Filer) (outcomes : Outcomes) (messages : List Document) (results : List Bool)

theorem resultsOf_append (n : Nat) (requests more : List WriteRequest) (t : FileTree) :
    resultsOf outcomes n (requests ++ more) t =
      ((resultsOf outcomes (n + requests.length) more (resultsOf outcomes n requests t).1).1,
        (resultsOf outcomes n requests t).2 ++
          (resultsOf outcomes (n + requests.length) more (resultsOf outcomes n requests t).1).2) := by
  induction requests generalizing n t with
  | nil => rfl
  | cons r requests ih =>
      simp only [List.cons_append, resultsOf, ih, List.length_cons, Nat.add_assoc, Nat.add_comm 1]

theorem length_resultsOf (n : Nat) (requests : List WriteRequest) (t : FileTree) :
    (resultsOf outcomes n requests t).2.length = requests.length := by
  induction requests generalizing n t with
  | nil => rfl
  | cons r requests ih => simp only [resultsOf, List.length_cons, ih]

theorem carryOutWith_after (n : Nat) (requests : List WriteRequest) (t : FileTree) :
    carryOutWith outcomes n requests (f.after messages results) t =
      ((resultsOf outcomes n requests t).2.countP (·.isOk),
        f.after messages (results ++ (resultsOf outcomes n requests t).2.map (·.isOk)),
        (resultsOf outcomes n requests t).1) := by
  induction requests generalizing n results t with
  | nil => simp [carryOutWith, resultsOf]
  | cons r requests ih =>
      simp only [carryOutWith, resultsOf, account_after, ih, List.countP_cons, List.map_cons,
        List.append_assoc, List.singleton_append, Nat.add_comm]

theorem storeEachWith_after (more : List Document) (n : Nat) (t : FileTree) :
    ∃ counts, storeEachWith outcomes n more (f.after messages results) t =
      (counts, f.after (messages ++ more) (results ++ (resultsOf outcomes n (f.requests more) t).2.map (·.isOk)),
        (resultsOf outcomes n (f.requests more) t).1) ∧
      counts.sum = (resultsOf outcomes n (f.requests more) t).2.countP (·.isOk) := by
  -- The filer between two messages is one that has stored the messages so far, which is what `after` says.
  induction more generalizing n messages results t with
  | nil => exact ⟨[], by simp [storeEachWith, requests, resultsOf], rfl⟩
  | cons message more ih =>
      have hr : f.requests (message :: more) = f.rule.requests message ++ f.requests more := rfl
      obtain ⟨counts, heq, hsum⟩ := ih (messages ++ [message])
        (results ++ (resultsOf outcomes n (f.rule.requests message) t).2.map (·.isOk))
        (n + (f.rule.requests message).length) (resultsOf outcomes n (f.rule.requests message) t).1
      refine ⟨(resultsOf outcomes n (f.rule.requests message) t).2.countP (·.isOk) :: counts, ?_, ?_⟩
      · rw [hr, resultsOf_append]
        simp only [storeEachWith, prepare_after, carryOutWith_after, heq, List.map_append, List.append_assoc,
          List.singleton_append]
      · rw [hr, resultsOf_append, List.sum_cons, hsum, List.countP_append]

/-- Whatever becomes of the writes, the counters account for them, and the counts that were returned add up
to those that succeeded. -/
theorem accounts_storeEachWith (t : FileTree) :
    let r := storeEachWith outcomes 0 messages f t
    let results := (resultsOf outcomes 0 (f.requests messages) t).2
    f.Accounts messages results r.2.1.counters ∧ r.1.sum = results.countP (·.isOk) := by
  obtain ⟨counts, heq, hsum⟩ := storeEachWith_after f outcomes [] [] messages 0 t
  have hstart : f.after [] [] = f := rfl
  rw [hstart, List.nil_append, List.nil_append] at heq
  rw [heq]
  exact ⟨accounts_after (length_resultsOf ..), hsum⟩

end Filer

namespace Worker

/-! ## Counting what the tasks return -/

/-- What the `n`-th write returned in a turn. -/
def returned (n : Nat) (before after : Worker) : List (Nat × Except StoreError String) :=
  match (before.tasks[n]?).bind WriteTask.owed?, (after.tasks[n]?).bind WriteTask.owed? with
  | none, some result => [(n, result)]
  | _, _ => []

/-- How many writes have succeeded, or failed, and are not counted yet. -/
def owed (k : Worker) (written : Bool) : Nat :=
  k.tasks.countP fun task => task.owed?.any (·.isOk == written)

/-- The worker has heard the messages, and its writes have returned the results, each of them once. Those that
are not owed have been counted. -/
structure Accounted (f : Filer) (messages : List Document) (results : List (Nat × Except StoreError String))
    (k : Worker) : Prop where
  rule : k.filer.rule = f.rule
  requests : k.tasks.map WriteTask.request ++ k.unscheduled = f.requests messages
  received : k.filer.counters.received = f.counters.received + messages.length
  filtered : k.filer.counters.filtered =
    f.counters.filtered + messages.countP fun message => !f.rule.admits message
  counted : ∀ written, k.filer.counters.counted written + k.owed written =
    f.counters.counted written + results.countP (·.2.isOk == written)
  once : ∀ n, (results.map Prod.fst).count n = if (k.tasks[n]?).any WriteTask.hasReturned then 1 else 0

variable {f : Filer} {messages : List Document} {results : List (Nat × Except StoreError String)} {k : Worker}
  {n : Nat} {task : WriteTask} {t : FileTree} {trouble : Nat → Trouble}

theorem accounted_start (f : Filer) : Accounted f [] [] { filer := f } :=
  ⟨rfl, rfl, rfl, rfl, fun _ => rfl, fun _ => rfl⟩

theorem Accounted.hear (h : Accounted f messages results k) (hu : k.unscheduled = []) (message : Document) :
    Accounted f (messages ++ [message]) results (k.hear message) := by
  refine ⟨h.rule, ?_, ?_, ?_, h.counted, h.once⟩
  · rw [requests_concat, ← h.requests, hu, List.append_nil, ← h.rule]
    rfl
  · rw [List.length_append, ← Nat.add_assoc, ← h.received]
    rfl
  · rw [List.countP_append, ← Nat.add_assoc, ← h.filtered, ← h.rule, List.countP_singleton]
    cases hm : k.filer.rule.admits message <;> simp [Worker.hear, Filer.prepare, hm]

/-- Scheduling does nothing, or it adds a waiting task, which waits for the last append or for nobody. -/
theorem schedule_cases (k : Worker) : (k.unscheduled = [] ∧ k.schedule = k) ∨
    ∃ r requests previous tail, k.unscheduled = r :: requests ∧
      k.schedule = { k with
        unscheduled := requests
        tasks := k.tasks ++ [{ request := r, previous }]
        tail } ∧
      (previous = none ∨ previous = k.tail) ∧ (tail = k.tail ∨ tail = some k.tasks.length) := by
  unfold Worker.schedule
  cases hu : k.unscheduled with
  | nil => exact .inl ⟨rfl, rfl⟩
  | cons r requests =>
      refine .inr ⟨r, requests, ?_⟩
      cases k.filer.rule.mode with
      | append => exact ⟨k.tail, some k.tasks.length, rfl, rfl, .inr rfl, .inr rfl⟩
      | overwrite => exact ⟨none, k.tail, rfl, rfl, .inl rfl, .inl rfl⟩

theorem Accounted.schedule (h : Accounted f messages results k) : Accounted f messages results k.schedule := by
  obtain ⟨-, he⟩ | ⟨r, requests, previous, tail, hu, he, -, -⟩ := schedule_cases k
  · rwa [he]
  have howed (written : Bool) : k.schedule.owed written = k.owed written := by
    simp [he, owed, List.countP_append, WriteTask.owed?]
  refine ⟨?_, ?_, ?_, ?_, fun written => ?_, fun n => ?_⟩
  · rw [he]
    exact h.rule
  · rw [← h.requests, he, hu]
    simp
  · rw [he]
    exact h.received
  · rw [he]
    exact h.filtered
  · rw [howed, he]
    exact h.counted written
  · rw [h.once, he, getElem?_concat]
    by_cases hn : n = k.tasks.length
    · simp [hn, WriteTask.hasReturned, WriteStage.isEnded, WriteTask.owed?]
    · rw [if_neg hn]

theorem Accounted.conclude (h : Accounted f messages results k) : Accounted f messages results k.conclude :=
  ⟨h.rule, h.requests, h.received, h.filtered, h.counted, h.once⟩

theorem countP_set_add {α : Type} {l : List α} {a : α} (hn : l[n]? = some a) (b : α) (p : α → Bool) :
    (l.set n b).countP p + (if p a then 1 else 0) = l.countP p + if p b then 1 else 0 := by
  induction l generalizing n with
  | nil => cases hn
  | cons first l ih =>
      cases n with
      | zero =>
          cases hn
          simp only [List.set_cons_zero, List.countP_cons]
          omega
      | succ n =>
          have := ih hn
          simp only [List.set_cons_succ, List.countP_cons]
          omega

theorem owed_put (hn : k.tasks[n]? = some task) (stage : WriteStage) (written : Bool) :
    (k.put n task stage).owed written + (if task.owed?.any (·.isOk == written) then 1 else 0) =
      k.owed written + if ({ task with stage : WriteTask }).owed?.any (·.isOk == written) then 1 else 0 :=
  countP_set_add hn _ _

theorem returned_put (hn : k.tasks[n]? = some task) (filer : Filer) (stage : WriteStage) :
    k.returned n ({ k with filer }.put n task stage) =
      match task.owed?, ({ task with stage : WriteTask }).owed? with
      | none, some result => [(n, result)]
      | _, _ => [] := by
  rw [returned, getElem?_put (k := { k with filer }) hn, if_pos rfl, hn]
  rfl

theorem returned_self (k : Worker) (n : Nat) : k.returned n k = [] := by
  rw [returned]
  cases (k.tasks[n]?).bind WriteTask.owed? <;> rfl

/-- A task whose write has not returned gets on with it. -/
theorem Accounted.put (h : Accounted f messages results k) (hn : k.tasks[n]? = some task)
    (hr : task.hasReturned = false) (w : Writing) :
    Accounted f messages (results ++ k.returned n (k.put n task (.writing w))) (k.put n task (.writing w)) := by
  have howed : task.owed? = none := by
    rw [WriteTask.hasReturned, Bool.or_eq_false_iff] at hr
    simpa using hr.2
  have hreturned : k.returned n (k.put n task (.writing w)) = (w.result?.map (Prod.mk n)).toList := by
    refine (returned_put hn k.filer (.writing w)).trans ?_
    rw [howed]
    cases hw : w.result? <;> simp [WriteTask.owed?, hw]
  have hcount (written : Bool) : (k.put n task (.writing w)).owed written =
      k.owed written + (k.returned n (k.put n task (.writing w))).countP (·.2.isOk == written) := by
    have hput := owed_put hn (.writing w) written
    rw [howed] at hput
    rw [hreturned]
    cases hw : w.result? <;> simp_all [WriteTask.owed?, List.countP_singleton]
  -- If the write returns in this turn, it is owed from now on; nothing is counted yet.
  refine ⟨h.rule, (congrArg (· ++ k.unscheduled) (requests_put hn _)).trans h.requests, h.received, h.filtered,
    fun written => ?_, fun j => ?_⟩
  · rw [hcount, List.countP_append, ← Nat.add_assoc, ← Nat.add_assoc, ← h.counted]
    rfl
  · rw [List.map_append, List.count_append, h.once, getElem?_put hn, hreturned]
    by_cases hj : j = n
    · subst hj
      cases hw : w.result? <;> simp [hn, hr, hw, WriteTask.hasReturned_writing]
    · cases w.result? <;> simp [hj, Ne.symm hj]

/-- A write that has returned is counted. -/
theorem Accounted.finish {result : Except StoreError String} (h : Accounted f messages results k)
    (hn : k.tasks[n]? = some task) (hs : task.stage = .writing (.finished result)) :
    Accounted f messages results ({ k with filer := k.filer.account result.isOk }.put n task .ended) := by
  have hput (written : Bool) := owed_put (k := { k with filer := k.filer.account result.isOk }) hn .ended written
  have howed (written : Bool) :
      ({ k with filer := k.filer.account result.isOk }.put n task .ended).owed written +
        (if result.isOk == written then 1 else 0) = k.owed written := by
    simpa [WriteTask.owed?, hs, Writing.result?, owed] using hput written
  refine ⟨?_, (congrArg (· ++ k.unscheduled) (requests_put hn _)).trans h.requests, ?_, ?_, fun written => ?_,
    fun j => ?_⟩
  · rw [← h.rule]
    cases result.isOk <;> rfl
  · rw [← h.received]
    cases result.isOk <;> rfl
  · rw [← h.filtered]
    cases result.isOk <;> rfl
  · have hcounted : ({ k with filer := k.filer.account result.isOk }.put n task
        .ended).filer.counters.counted written = _ := Filer.counted_account k.filer result.isOk written
    rw [← h.counted, ← howed, hcounted, Nat.add_right_comm, Nat.add_assoc]
  · rw [h.once, getElem?_put (k := { k with filer := k.filer.account result.isOk }) hn]
    by_cases hj : j = n
    · simp [hj, hn, WriteTask.hasReturned, WriteTask.owed?, hs, Writing.result?, WriteStage.isEnded]
    · rw [if_neg hj]

/-- A turn does nothing to a task that has ended or has to wait; it brings a write nearer to its end; or it
counts a write that has returned. -/
theorem proceedUnder_cases (k : Worker) (trouble : Nat → Trouble) (n : Nat) (t : FileTree) :
    ((k.proceedUnder trouble n t).1 = k ∧ ∀ task, k.tasks[n]? = some task →
        task.stage = .ended ∨ task.stage = .waiting ∧ k.isReleased task = false) ∨
      (∃ task w, k.tasks[n]? = some task ∧ task.hasReturned = false ∧
        { task with stage := .writing w : WriteTask }.turnsLeft < task.turnsLeft ∧
        (k.proceedUnder trouble n t).1 = k.put n task (.writing w)) ∨
      ∃ task result, k.tasks[n]? = some task ∧ task.stage = .writing (.finished result) ∧
        (k.proceedUnder trouble n t).1 = { k with filer := k.filer.account result.isOk }.put n task .ended := by
  cases hn : k.tasks[n]? with
  | none => exact .inl ⟨by simp only [proceedUnder, Worker.proceed, hn], fun task h => by cases h⟩
  | some task =>
      cases hs : task.stage with
      | ended =>
          refine .inl ⟨by simp only [proceedUnder, Worker.proceed, hn, hs], fun task' h => ?_⟩
          cases h
          exact .inl hs
      | waiting =>
          rw [proceedUnder_of_waiting hn hs]
          cases hr : k.isReleased task with
          | false =>
              refine .inl ⟨rfl, fun task' h => ?_⟩
              cases h
              exact .inr ⟨hs, hr⟩
          | true =>
              refine .inr (.inl ⟨task, _, rfl, ?_, ?_, rfl⟩)
              · simp [WriteTask.hasReturned, WriteTask.owed?, hs, WriteStage.isEnded]
              · simp only [WriteTask.turnsLeft, hs]
                exact Nat.lt_succ_self _
      | writing w =>
          cases hw : w.result? with
          | none =>
              rw [proceedUnder_of_writing hn hs hw]
              refine .inr (.inl ⟨task, _, rfl, ?_, ?_, rfl⟩)
              · simp [WriteTask.hasReturned, WriteTask.owed?, hs, hw, WriteStage.isEnded]
              · simp only [WriteTask.turnsLeft, hs]
                exact Nat.succ_lt_succ (Writing.left_stepUnder hw)
          | some result =>
              cases w with
              | finished result =>
                  rw [proceedUnder_of_finished hn hs]
                  exact .inr (.inr ⟨task, result, rfl, hs, rfl⟩)
              | _ => cases hw

theorem Accounted.proceed (h : Accounted f messages results k) (trouble : Nat → Trouble) (n : Nat)
    (t : FileTree) :
    Accounted f messages (results ++ k.returned n (k.proceedUnder trouble n t).1)
      (k.proceedUnder trouble n t).1 := by
  obtain ⟨he, -⟩ | ⟨task, w, hn, hr, -, he⟩ | ⟨task, result, hn, hs, he⟩ := proceedUnder_cases k trouble n t
  · rw [he, returned_self, List.append_nil]
    exact h
  · rw [he]
    exact h.put hn hr w
  · rw [he, returned_put hn]
    simp only [WriteTask.owed?, hs, Writing.result?, List.append_nil]
    exact h.finish hn hs

/-- When all writes have ended, the counters account for them. -/
theorem Accounted.idle (h : Accounted f messages results k) (hi : k.isIdle = true) :
    f.Accounts messages (results.map Prod.snd) k.filer.counters ∧
      k.tasks.map WriteTask.request = f.requests messages ∧
      (results.map Prod.fst).Perm (List.range k.tasks.length) := by
  simp only [isIdle, Bool.and_eq_true, List.isEmpty_iff, List.all_eq_true, isEnded_iff] at hi
  obtain ⟨hun, hall⟩ := hi
  have hrequests := h.requests
  rw [hun, List.append_nil] at hrequests
  have howed (written : Bool) : k.owed written = 0 :=
    List.countP_eq_zero.2 fun task hm => by simp [WriteTask.owed?, hall task hm]
  have hcounted (written : Bool) := h.counted written
  simp only [howed, Nat.add_zero, FilerCounters.counted] at hcounted
  have hstored : k.filer.counters.stored = f.counters.stored + results.countP (·.2.isOk) := by
    simpa using hcounted true
  have hfailed : k.filer.counters.failed = f.counters.failed + results.countP (!·.2.isOk) := by
    simpa using hcounted false
  have hsplit : results.length = results.countP (·.2.isOk) + results.countP (!·.2.isOk) := by
    simpa using List.length_eq_countP_add_countP (p := (·.2.isOk)) (l := results)
  have hperm : (results.map Prod.fst).Perm (List.range k.tasks.length) := by
    refine List.perm_iff_count.2 fun n => ?_
    rw [h.once, List.nodup_range.count]
    by_cases hn : n < k.tasks.length
    · have hget := List.getElem?_eq_getElem hn
      simp [hn, WriteTask.hasReturned, hall _ (List.mem_of_getElem? hget)]
    · simp [hn]
  refine ⟨⟨h.received, h.filtered, ?_, ?_⟩, hrequests, hperm⟩
  · have hlength := hperm.length_eq
    rw [List.length_map, List.length_range] at hlength
    rw [FilerCounters.written, FilerCounters.written, hstored, hfailed, ← Filer.length_requests, ← hrequests,
      List.length_map, ← hlength, hsplit]
    omega
  · rw [hstored, List.countP_map]
    rfl

end Worker

end FeedFiler
