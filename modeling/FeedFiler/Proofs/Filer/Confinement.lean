import FeedFiler.Proofs.Files.Inside
import FeedFiler.Proofs.Filer.Storing
import FeedFiler.Proofs.Message.Pieces
import FeedFiler.Proofs.Number.Digits

/-!
# Where a filer may write

The name of a file is what a template makes of a document. Only its own text and the fields that it takes as
they are can bring a slash into the name. Without one, everything that the filer writes for a message stands in
the directory that it asks for.
-/

namespace FeedFiler

open FileTree

namespace Template

/-- A piece that has a slash for a document: text of the template, or a field that is taken as it is. -/
def Piece.BringsSlash (record : Document) : Piece → Prop
  | .literal text => '/' ∈ text
  | .placeholder inner =>
    match fillingOf inner with
    | .field key => '/' ∈ fieldChars (record.get? key)
    | .verbatim text => '/' ∈ text
    | _ => False

theorem slash_notMem_of_isDigit {s : List Char} (h : ∀ c ∈ s, c.isDigit = true) : '/' ∉ s :=
  fun hs => absurd (h '/' hs) (by decide)

theorem slash_notMem_paddedChars (width n : Nat) : '/' ∉ paddedChars width n :=
  slash_notMem_of_isDigit fun _ => isDigit_of_mem_paddedChars

theorem slash_notMem_intChars (n : Int) : '/' ∉ intChars n := by
  have hdigits (n : Nat) : '/' ∉ natChars n := slash_notMem_of_isDigit fun _ => isDigit_of_mem_natChars
  cases n with
  | ofNat n => exact hdigits n
  | negSucc n => simp [intChars, hdigits]

theorem slash_notMem_yearChars (year : Int) : '/' ∉ Instant.yearChars year := by
  rw [Instant.yearChars]
  split
  · exact slash_notMem_paddedChars 4 _
  · rw [List.mem_cons, not_or]
    refine ⟨?_, slash_notMem_paddedChars 4 _⟩
    split <;> decide

/-- A number or a date never brings a slash. -/
theorem Piece.slash_mem_expand (record : Document) (piece : Piece) :
    '/' ∈ piece.expand record ↔ piece.BringsSlash record := by
  cases piece with
  | literal text => rfl
  | placeholder inner =>
      rw [Piece.expand, Piece.BringsSlash]
      cases fillingOf inner with
      | field key => rfl
      | verbatim text => rfl
      | int key => exact iff_false_intro (slash_notMem_intChars _)
      | year key => exact iff_false_intro (slash_notMem_yearChars _)
      | month key => exact iff_false_intro (slash_notMem_paddedChars 2 _)
      | day key => exact iff_false_intro (slash_notMem_paddedChars 2 _)

theorem slash_mem_expand (template : String) (record : Document) :
    '/' ∈ (expand template record).toList ↔ ∃ piece ∈ pieces template.toList, piece.BringsSlash record := by
  rw [expand_eq, String.toList_ofList, List.mem_flatMap]
  simp only [Piece.slash_mem_expand]

end Template

open Template

namespace FilerRule

/-- No piece of the template of the name brings a slash for the document. -/
def NameIsFlat (rule : FilerRule) (doc : Document) : Prop :=
  ∀ piece ∈ pieces rule.storeName.toList, ¬ piece.BringsSlash doc

theorem slash_notMem_name (rule : FilerRule) (doc : Document) :
    '/' ∉ (rule.requestOf doc).name.toList ↔ rule.NameIsFlat doc := by
  rw [requestOf, slash_mem_expand, NameIsFlat]
  simp

theorem mem_requests {rule : FilerRule} {message : Document} {r : WriteRequest} :
    r ∈ rule.requests message ↔
      rule.admits message = true ∧ ∃ doc ∈ rule.reshape.apply message, rule.requestOf doc = r := by
  rw [requests]
  split
  · next h => simp [h]
  · next h => simp [h]

end FilerRule

namespace Filer

/-- **Every write that is prepared for a message stays in its directory, unless the name takes a slash from the
document.** Its path is that of the directory and one ordinary name behind it exactly if the name is not empty
and no `.` or `..`, and none of the pieces of its template brings a slash. Numbers and dates never do. -/
theorem prepared_inside (f : Filer) (message : Document) : ∀ r ∈ (f.prepare message).1,
    ∃ doc ∈ f.rule.reshape.apply message, r = f.rule.requestOf doc ∧
      (r.InDir ↔ PlainName r.name ∧ f.rule.NameIsFlat doc) ∧
      (f.rule.NameIsFlat doc → ∀ mode (t : FileTree), t.StaysInside mode r) := by
  intro r hr
  obtain ⟨-, doc, hdoc, rfl⟩ := FilerRule.mem_requests.1 hr
  refine ⟨doc, hdoc, rfl, ?_, fun hflat => ?_⟩
  · rw [WriteRequest.inDir_iff, FilerRule.slash_notMem_name]
  · exact WriteRequest.staysInside ((FilerRule.slash_notMem_name f.rule doc).2 hflat)

/-- A filer that names its files after their id. -/
def namedById : Filer where
  rule := { name := "r", source := ⟨"a"⟩, storePath := "d", storeName := "\x7b\x7bid\x7d\x7d" }

/-- The request for a message with an id. -/
def requestOfId (id : String) : WriteRequest := namedById.rule.requestOf [("id", .string id)]

theorem requestOfId_mem (id : String) : requestOfId id ∈ (namedById.prepare [("id", .string id)]).1 :=
  FilerRule.mem_requests.2 ⟨rfl, _, List.mem_singleton_self _, rfl⟩

theorem prepared_inside_plain :
    requestOfId "x" ∈ (namedById.prepare [("id", .string "x")]).1 ∧ (requestOfId "x").path = "d/x" ∧
      (requestOfId "x").InDir ∧ ({} : FileTree).StaysInside .overwrite (requestOfId "x") := by
  obtain ⟨doc, hdoc, -, hin, hstays⟩ := prepared_inside namedById _ _ (requestOfId_mem "x")
  obtain rfl := List.mem_singleton.1 hdoc
  have hflat : namedById.rule.NameIsFlat [("id", .string "x")] :=
    (FilerRule.slash_notMem_name _ _).1 (by decide +kernel)
  exact ⟨requestOfId_mem "x", by decide +kernel, hin.2 ⟨by decide +kernel, hflat⟩, hstays hflat .overwrite {}⟩

/-- An id that climbs out of the directory. -/
theorem prepared_outside :
    requestOfId "../x" ∈ (namedById.prepare [("id", .string "../x")]).1 ∧ (requestOfId "../x").dir = "d" ∧
      (requestOfId "../x").path = "d/../x" ∧ ¬ (requestOfId "../x").InDir ∧
        ((({} : FileTree).store .overwrite (requestOfId "../x")).1.fileAt? ["x"]).isSome = true := by
  refine ⟨requestOfId_mem "../x", by decide +kernel, by decide +kernel, ?_, by decide +kernel⟩
  rw [WriteRequest.inDir_iff]
  decide +kernel

/-! ## All messages -/

theorem fileAt?_storeEach {mode : StoreMode} {requests : List WriteRequest} {t : FileTree} {l : Location}
    (hn : ∀ r ∈ requests, '/' ∉ r.name.toList) (hl : ∀ r ∈ requests, ¬ r.Reaches t.current l) :
    (storeEach mode requests t).1.fileAt? l = t.fileAt? l := by
  induction requests generalizing t with
  | nil => rfl
  | cons r requests ih =>
      rw [List.forall_mem_cons] at hn hl
      have hrest := ih (t := (t.store mode r).1) hn.2 (by rw [current_store]; exact hl.2)
      exact hrest.trans (WriteRequest.fileAt?_store hn.1 hl.1)

/-- **No feed makes a filer write elsewhere.** However many messages are stored, a file that no request reaches
from its directory stays as it is. -/
theorem fileAt?_storeAll (f : Filer) (messages : List Document) (t : FileTree) {l : Location}
    (hflat : ∀ message ∈ messages, ∀ doc ∈ f.rule.reshape.apply message, f.rule.NameIsFlat doc)
    (hl : ∀ r ∈ f.requests messages, ¬ r.Reaches t.current l) :
    (f.storeAll t messages).2.fileAt? l = t.fileAt? l := by
  rw [storeAll_eq]
  refine fileAt?_storeEach (fun r hr => ?_) hl
  obtain ⟨message, hm, hr⟩ := List.mem_flatMap.1 hr
  obtain ⟨-, doc, hdoc, rfl⟩ := FilerRule.mem_requests.1 hr
  exact (FilerRule.slash_notMem_name f.rule doc).2 (hflat message hm doc hdoc)

end Filer

end FeedFiler
