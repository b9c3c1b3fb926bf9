import FeedFiler.Proofs.Files.Trouble
import FeedFiler.Proofs.Filer.Storing

/-!
# Messages stored one after the other while writes may go wrong

Each write of a filer has its own trouble. The filer counts a write that went wrong and goes on with the
next one.
-/

namespace FeedFiler

/-- Carries out requests one after the other, the first of them as the `n`-th write; which of them
succeed. -/
def FileTree.storeEachUnder (trouble : Nat → Trouble) (mode : StoreMode) :
    Nat → List WriteRequest → FileTree → FileTree × List Bool
  | _, [], t => (t, [])
  | n, r :: requests, t =>
    let (t, result) := t.storeUnder (trouble n) mode r
    let (t, results) := storeEachUnder trouble mode (n + 1) requests t
    (t, result.isOk :: results)

namespace Filer

/-- Carries out requests and counts them; the first of them is the `n`-th write. -/
def carryOutUnder (trouble : Nat → Trouble) :
    List WriteRequest → Nat × Filer × FileTree → Nat × Filer × FileTree
  | [], s => s
  | r :: requests, (n, f, t) =>
    let (t, result) := t.storeUnder (trouble n) f.rule.mode r
    carryOutUnder trouble requests (n + 1, f.account result.isOk, t)

/-- Stores a message. -/
def storeUnder (trouble : Nat → Trouble) : Nat × Filer × FileTree → Document → Nat × Filer × FileTree
  | (n, f, t), message =>
    let (requests, f) := f.prepare message
    carryOutUnder trouble requests (n, f, t)

/-- Stores messages one after the other. -/
def storeAllUnder (trouble : Nat → Trouble) (f : Filer) (t : FileTree) (messages : List Document) :
    Filer × FileTree :=
  (messages.foldl (storeUnder trouble) (0, f, t)).2

end Filer

open FileTree

variable {trouble : Nat → Trouble} {mode : StoreMode}

theorem storeEachUnder_append (trouble : Nat → Trouble) (mode : StoreMode) (n : Nat)
    (requests more : List WriteRequest) (t : FileTree) :
    storeEachUnder trouble mode n (requests ++ more) t =
      ((storeEachUnder trouble mode (n + requests.length) more (storeEachUnder trouble mode n requests t).1).1,
        (storeEachUnder trouble mode n requests t).2 ++
          (storeEachUnder trouble mode (n + requests.length) more
            (storeEachUnder trouble mode n requests t).1).2) := by
  induction requests generalizing n t with
  | nil => rfl
  | cons r requests ih =>
      simp only [List.cons_append, storeEachUnder, ih, List.length_cons, Nat.add_assoc, Nat.add_comm 1]

theorem storeEachUnder_calm (mode : StoreMode) (n : Nat) (requests : List WriteRequest) (t : FileTree) :
    storeEachUnder (fun _ => .calm) mode n requests t = storeEach mode requests t := by
  induction requests generalizing n t with
  | nil => rfl
  | cons r requests ih => simp only [storeEachUnder, storeEach, storeUnder_calm, ih]

namespace Filer

variable (f : Filer) (messages : List Document) (results : List Bool)

theorem carryOutUnder_after (requests : List WriteRequest) (n : Nat) (t : FileTree) :
    carryOutUnder trouble requests (n, f.after messages results, t) =
      (n + requests.length,
        f.after messages (results ++ (storeEachUnder trouble f.rule.mode n requests t).2),
        (storeEachUnder trouble f.rule.mode n requests t).1) := by
  induction requests generalizing n results t with
  | nil => simp [carryOutUnder, storeEachUnder]
  | cons r requests ih =>
      simp [carryOutUnder, storeEachUnder, account_after, ih, Nat.add_assoc, Nat.add_comm 1]

theorem foldl_storeUnder_after (more : List Document) (n : Nat) (t : FileTree) :
    more.foldl (storeUnder trouble) (n, f.after messages results, t) =
      (n + (f.requests more).length,
        f.after (messages ++ more)
          (results ++ (storeEachUnder trouble f.rule.mode n (f.requests more) t).2),
        (storeEachUnder trouble f.rule.mode n (f.requests more) t).1) := by
  induction more generalizing messages results n t with
  | nil => simp [requests, storeEachUnder]
  | cons message more ih =>
      have hr : f.requests (message :: more) = f.rule.requests message ++ f.requests more := rfl
      rw [List.foldl_cons, storeUnder, prepare_after]
      simp only
      rw [carryOutUnder_after, ih, hr, storeEachUnder_append]
      simp only [List.length_append, List.append_assoc, List.singleton_append, Nat.add_assoc]

/-- **Storing messages is carrying out the requests of all of them, also if some go wrong.** -/
theorem storeAllUnder_eq (trouble : Nat → Trouble) (t : FileTree) :
    f.storeAllUnder trouble t messages =
      (f.after messages (storeEachUnder trouble f.rule.mode 0 (f.requests messages) t).2,
        (storeEachUnder trouble f.rule.mode 0 (f.requests messages) t).1) :=
  congrArg Prod.snd (foldl_storeUnder_after f [] [] messages 0 t)

theorem storeAllUnder_calm (t : FileTree) :
    f.storeAllUnder (fun _ => .calm) t messages = f.storeAll t messages := by
  rw [storeAllUnder_eq, storeEachUnder_calm, storeAll_eq]

end Filer

end FeedFiler
