import FeedFiler.Filer

/-!
# Messages stored one after the other

A filer that stores messages carries out the requests of all of them, one after the other, and counts
the messages and the results.
-/

namespace FeedFiler

/-- Carries out requests one after the other; which of them succeed. -/
def FileTree.storeEach (mode : StoreMode) : List WriteRequest → FileTree → FileTree × List Bool
  | [], t => (t, [])
  | r :: requests, t =>
    let (t, result) := t.store mode r
    let (t, results) := storeEach mode requests t
    (t, result.isOk :: results)

open FileTree

theorem storeEach_append (mode : StoreMode) (requests more : List WriteRequest) (t : FileTree) :
    storeEach mode (requests ++ more) t =
      ((storeEach mode more (storeEach mode requests t).1).1,
        (storeEach mode requests t).2 ++ (storeEach mode more (storeEach mode requests t).1).2) := by
  induction requests generalizing t with
  | nil => rfl
  | cons r requests ih => simp only [List.cons_append, storeEach, ih]

/-- The counters after some messages and some results of requests. -/
def FilerCounters.after (c : FilerCounters) (rule : FilerRule) (messages : List Document)
    (results : List Bool) : FilerCounters where
  received := c.received + messages.length
  filtered := c.filtered + messages.countP fun message => !rule.admits message
  stored := c.stored + results.count true
  failed := c.failed + results.count false

namespace Filer

def after (f : Filer) (messages : List Document) (results : List Bool) : Filer :=
  { f with counters := f.counters.after f.rule messages results }

def requests (f : Filer) (messages : List Document) : List WriteRequest := messages.flatMap f.rule.requests

variable (f : Filer) (messages : List Document) (results : List Bool)

@[simp] theorem after_rule : (f.after messages results).rule = f.rule := rfl

theorem prepare_after (message : Document) :
    (f.after messages results).prepare message =
      (f.rule.requests message, f.after (messages ++ [message]) results) := by
  simp only [prepare, after, FilerCounters.after, List.length_append, List.length_singleton,
    List.countP_append, List.countP_singleton]
  by_cases h : f.rule.admits message = true
  · simp [h, Nat.add_assoc]
  · simp [h, Nat.add_assoc]

theorem account_after (written : Bool) :
    (f.after messages results).account written = f.after messages (results ++ [written]) := by
  cases written with
  | true => simp [account, after, FilerCounters.after, Nat.add_assoc]
  | false => simp [account, after, FilerCounters.after, Nat.add_assoc]

theorem carryOut_after (requests : List WriteRequest) (t : FileTree) :
    (carryOut requests (f.after messages results) t).2 =
      (f.after messages (results ++ (storeEach f.rule.mode requests t).2),
        (storeEach f.rule.mode requests t).1) := by
  induction requests generalizing results t with
  | nil => simp [carryOut, storeEach]
  | cons r requests ih => simp [carryOut, storeEach, account_after, ih]

theorem store_after (message : Document) (t : FileTree) :
    (store (f.after messages results) t message).2 =
      (f.after (messages ++ [message]) (results ++ (storeEach f.rule.mode (f.rule.requests message) t).2),
        (storeEach f.rule.mode (f.rule.requests message) t).1) := by
  rw [← carryOut_after]
  simp only [store, prepare_after]

theorem foldl_store_after (more : List Document) (t : FileTree) :
    more.foldl (fun (f, t) message => (store f t message).2) (f.after messages results, t) =
      (f.after (messages ++ more) (results ++ (storeEach f.rule.mode (f.requests more) t).2),
        (storeEach f.rule.mode (f.requests more) t).1) := by
  induction more generalizing messages results t with
  | nil => simp [requests, storeEach]
  | cons message more ih =>
      have hr : f.requests (message :: more) = f.rule.requests message ++ f.requests more := rfl
      have hs := store_after f messages results message t
      simp only [List.foldl_cons]
      rw [hs, ih, hr, storeEach_append, List.append_assoc, List.append_assoc]
      rfl

/-- **Storing messages is carrying out the requests of all of them.** -/
theorem storeAll_eq (t : FileTree) :
    f.storeAll t messages =
      (f.after messages (storeEach f.rule.mode (f.requests messages) t).2,
        (storeEach f.rule.mode (f.requests messages) t).1) :=
  foldl_store_after f [] [] messages t

end Filer

end FeedFiler
