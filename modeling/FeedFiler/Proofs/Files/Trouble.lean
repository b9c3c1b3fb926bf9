import FeedFiler.Proofs.Files.Writing

/-!
# Writes that may go wrong

What happens outside of the tree, such as a full disk, can make a write fail at any of its operations. A
write comes to an end all the same, and when it has no trouble it is the request carried out at once.
-/

namespace FeedFiler

/-- What goes wrong with a write from outside, instead of its next operation: what it leaves, and the
cause. -/
abbrev Trouble := FileTree → Writing → Option (FileTree × StoreError)

/-- Nothing goes wrong. -/
def Trouble.calm : Trouble := fun _ _ => none

namespace Writing

/-- How a write ended. -/
def result? : Writing → Option (Except StoreError String)
  | .finished result => some result
  | _ => none

/-- A write that has finished cannot go wrong any more. -/
def strike? (trouble : Trouble) (t : FileTree) (w : Writing) : Option (FileTree × StoreError) :=
  match w.result? with
  | some _ => none
  | none => trouble t w

/-- The next operation of a write, unless it goes wrong. -/
def stepUnder (trouble : Trouble) (mode : StoreMode) (r : WriteRequest) (t : FileTree) (w : Writing) :
    FileTree × Writing :=
  match strike? trouble t w with
  | some (t, cause) => (t, .finished (.error cause))
  | none => step mode r t w

/-- A bound on the operations that are left of a write. -/
def left : Writing → Nat
  | .descend _ above below => 6 + 3 * above.length + 2 * below.length
  | .check _ _ below => 4 + 2 * below.length
  | .ascend below => 3 + 2 * below.length
  | .rotate => 2
  | .replace => 1
  | .finished _ => 0

variable {trouble : Trouble} {mode : StoreMode} {r : WriteRequest} {t : FileTree} {w : Writing}

theorem left_step (hw : w.result? = none) (mode : StoreMode) (r : WriteRequest) (t : FileTree) :
    (step mode r t w).2.left < w.left := by
  cases w with
  | finished result => cases hw
  | rotate => exact Nat.lt_succ_self 1
  | replace => exact Nat.lt_succ_self 0
  | check path cause below =>
      simp only [step]
      split
      · simp only [left]
        omega
      · simp only [left]
        omega
  | ascend below =>
      cases below with
      | nil =>
          cases mode with
          | overwrite => exact Nat.lt_succ_self 2
          | append => exact Nat.succ_pos 2
      | cons path below =>
          simp only [step]
          split
          · simp only [left, List.length_cons]
            omega
          · simp only [left, List.length_cons]
            omega
  | descend path above below =>
      simp only [step]
      split
      · simp only [left]
        omega
      · split
        · simp only [left, List.length_cons, List.length_nil]
          omega
        · simp only [left, List.length_cons]
          omega
      · simp only [left]
        omega

theorem left_pos (hw : w.result? = none) : 0 < w.left := by
  cases w with
  | finished result => cases hw
  | _ => simp only [left]; omega

theorem left_stepUnder (hw : w.result? = none) : (stepUnder trouble mode r t w).2.left < w.left := by
  rw [stepUnder]
  split
  · exact left_pos hw
  · exact left_step hw mode r t

/-- Brings a write to its end. -/
def complete (trouble : Trouble) (mode : StoreMode) (r : WriteRequest) (t : FileTree) (w : Writing) :
    FileTree × Except StoreError String :=
  match _hw : w.result? with
  | some result => (t, result)
  | none => complete trouble mode r (stepUnder trouble mode r t w).1 (stepUnder trouble mode r t w).2
termination_by w.left
decreasing_by exact left_stepUnder _hw

theorem complete_finished (result : Except StoreError String) :
    complete trouble mode r t (.finished result) = (t, result) := by
  rw [complete]
  rfl

/-- An operation of a write brings it nearer to the same end. -/
theorem complete_stepUnder (trouble : Trouble) (mode : StoreMode) (r : WriteRequest) (t : FileTree)
    (w : Writing) :
    complete trouble mode r (stepUnder trouble mode r t w).1 (stepUnder trouble mode r t w).2 =
      complete trouble mode r t w := by
  cases hw : w.result? with
  | some result =>
      cases w with
      | finished result => rfl
      | _ => cases hw
  | none =>
      conv => rhs; rw [complete]
      split
      · next h =>
          rw [hw] at h
          cases h
      · rfl

theorem stepUnder_calm (mode : StoreMode) (r : WriteRequest) (t : FileTree) (w : Writing) :
    stepUnder .calm mode r t w = step mode r t w := by
  cases w with
  | _ => rfl

theorem Alone.complete_eq {p q : FileTree × Writing} (h : Alone mode r p q) :
    complete .calm mode r p.1 p.2 = complete .calm mode r q.1 q.2 := by
  induction h with
  | refl => rfl
  | tail _ hq ih => rw [ih, hq, ← stepUnder_calm, complete_stepUnder]

end Writing

namespace FileTree

/-- Carries out a request that may go wrong. -/
def storeUnder (t : FileTree) (trouble : Trouble) (mode : StoreMode) (r : WriteRequest) :
    FileTree × Except StoreError String :=
  Writing.complete trouble mode r t (.start r)

/-- **A write that has no trouble is the request carried out at once.** -/
theorem storeUnder_calm (t : FileTree) (mode : StoreMode) (r : WriteRequest) :
    t.storeUnder .calm mode r = t.store mode r := by
  rw [storeUnder, (Writing.alone_store mode r t).complete_eq, Writing.complete_finished]

end FileTree

end FeedFiler
