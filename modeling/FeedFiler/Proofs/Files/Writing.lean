import Mathlib.Logic.Relation
import FeedFiler.Files.Store

/-!
# A write, operation by operation

A request is carried out by operations on files, between which other writes may have their turn. When
nobody else has a turn, a request is carried out as `FileTree.store` says.
-/

namespace FeedFiler

/-- What is left to do of a write. -/
inductive Writing where
  /-- Make the directory `path`; `above` are those to try if it cannot be made yet, and `below` those to
  make after it. -/
  | descend (path : String) (above below : List String)
  /-- See whether `path`, which could not be made, is a directory. -/
  | check (path : String) (cause : FileError) (below : List String)
  /-- Make the directories, and then write the file. -/
  | ascend (below : List String)
  /-- Make the file the version before, and then write it. -/
  | rotate
  /-- Write the file in place of the one that was rotated away. -/
  | replace
  | finished (result : Except StoreError String)

namespace Writing

def start (r : WriteRequest) : Writing :=
  if r.dir.isEmpty then .ascend [] else .descend r.dir (FileTree.parents r.dir) []

def fill (mode : StoreMode) (r : WriteRequest) (t : FileTree) : FileTree × Except StoreError String :=
  match t.storeFile mode r with
  | .ok t => (t, .ok r.path)
  | .error cause => (t, .error (.file r.path cause))

def finish (mode : StoreMode) (r : WriteRequest) (t : FileTree) : FileTree × Writing :=
  ((fill mode r t).1, .finished (fill mode r t).2)

/-- The next operation of a write. -/
def step (mode : StoreMode) (r : WriteRequest) (t : FileTree) : Writing → FileTree × Writing
  | .descend path above below =>
    match t.makeDir path with
    | .ok t => (t, .ascend below)
    | .error .notFound =>
      match above with
      | [] => (t, .ascend (path :: below))
      | p :: above => (t, .descend p above (path :: below))
    | .error cause => (t, .check path cause below)
  | .check path cause below =>
    (t, if t.isDir path then .ascend below else .finished (.error (.directory r.dir cause)))
  | .ascend (path :: below) =>
    match t.makeDir path with
    | .ok t => (t, .ascend below)
    | .error cause => (t, .check path cause below)
  | .ascend [] =>
    match mode with
    | .overwrite => (t.attempt fun t => t.remove (prevPath r.path), .rotate)
    | .append => finish mode r t
  | .rotate => (t.attempt fun t => t.rename r.path (prevPath r.path), .replace)
  | .replace => finish mode r t
  | .finished result => (t, .finished result)

variable {mode : StoreMode} {r : WriteRequest} {t t' : FileTree} {w : Writing} {path : String}
  {above below : List String}

theorem step_descend_of_ok (h : t.makeDir path = .ok t') :
    step mode r t (.descend path above below) = (t', .ascend below) := by
  simp only [step, h]

theorem step_descend_of_error {cause : FileError} (h : t.makeDir path = .error cause)
    (hc : cause ≠ .notFound) :
    step mode r t (.descend path above below) = (t, .check path cause below) := by
  cases cause with
  | notFound => exact absurd rfl hc
  | _ => simp only [step, h]

/-! ## Nobody else has a turn -/

/-- Some operations of a write, one after the other. -/
def Alone (mode : StoreMode) (r : WriteRequest) : FileTree × Writing → FileTree × Writing → Prop :=
  Relation.ReflTransGen fun p q => q = step mode r p.1 p.2

theorem Alone.head {p : FileTree × Writing} (h : Alone mode r (step mode r t w) p) :
    Alone mode r (t, w) p :=
  Relation.ReflTransGen.head rfl h

/-- Makes a directory if it is missing. -/
def settle (t : FileTree) (path : String) : FileTree × Except FileError Unit :=
  match t.makeDir path with
  | .ok t => (t, .ok ())
  | .error cause => (t, if t.isDir path then .ok () else .error cause)

theorem makeChain_cons (t : FileTree) (path : String) (above : List String) :
    t.makeChain (path :: above) =
      match t.makeDir path with
      | .error .notFound =>
        match t.makeChain above with
        | (t, .ok ()) => settle t path
        | (t, .error cause) => (t, .error cause)
      | _ => settle t path := rfl

/-- What is left to do when directories have been made or not. -/
def resume (r : WriteRequest) (below : List String) :
    FileTree × Except FileError Unit → FileTree × Writing
  | (t, .ok ()) => (t, .ascend below)
  | (t, .error cause) => (t, .finished (.error (.directory r.dir cause)))

theorem alone_check (t : FileTree) {path : String} {cause : FileError} (below : List String)
    (h : t.makeDir path = .error cause) :
    Alone mode r (t, .check path cause below) (resume r below (settle t path)) := by
  refine Alone.head ?_
  rw [step, settle, h]
  cases t.isDir path with
  | true => exact .refl
  | false => exact .refl

theorem alone_ascend (t : FileTree) (path : String) (below : List String) :
    Alone mode r (t, .ascend (path :: below)) (resume r below (settle t path)) := by
  refine Alone.head ?_
  rw [step]
  cases h : t.makeDir path with
  | ok t' =>
      rw [settle, h]
      exact .refl
  | error cause => exact alone_check t below h

theorem alone_descend (above : List String) : ∀ (t : FileTree) (path : String) (below : List String),
    Alone mode r (t, .descend path above below) (resume r below (t.makeChain (path :: above))) := by
  induction above with
  | nil =>
      intro t path below
      refine Alone.head ?_
      rw [step, makeChain_cons]
      cases h : t.makeDir path with
      | ok t' =>
          rw [settle, h]
          exact .refl
      | error cause =>
          cases cause with
          | notFound => exact alone_ascend t path below
          | _ => exact alone_check t below h
  | cons p above ih =>
      intro t path below
      refine Alone.head ?_
      rw [step, makeChain_cons]
      cases h : t.makeDir path with
      | ok t' =>
          rw [settle, h]
          exact .refl
      | error cause =>
          cases cause with
          | notFound =>
              -- The directories above are made, and then this one is tried again.
              have hi := ih t p (path :: below)
              cases hc : t.makeChain (p :: above) with
              | mk t' made =>
                  rw [hc] at hi
                  cases made with
                  | error cause => exact hi
                  | ok u => exact hi.trans (alone_ascend t' path below)
          | _ => exact alone_check t below h

theorem alone_makeDirs (mode : StoreMode) (r : WriteRequest) (t : FileTree) :
    Alone mode r (t, start r) (resume r [] (t.makeDirs r.dir)) := by
  rw [start, FileTree.makeDirs]
  split
  · exact .refl
  · exact alone_descend _ t r.dir []

/-- **A write that nobody interrupts is the request carried out at once.** -/
theorem alone_store (mode : StoreMode) (r : WriteRequest) (t : FileTree) :
    Alone mode r (t, start r) ((t.store mode r).1, .finished (t.store mode r).2) := by
  refine (alone_makeDirs mode r t).trans ?_
  rw [FileTree.store]
  cases hm : t.makeDirs r.dir with
  | mk t' made =>
      cases made with
      | error cause => exact .refl
      | ok u =>
          cases mode with
          | append => exact Alone.head .refl
          | overwrite => exact Alone.head (Alone.head (Alone.head .refl))

end Writing

end FeedFiler
