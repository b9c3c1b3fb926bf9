import Mathlib.Data.List.DropRight
import FeedFiler.Proofs.Json.OneLine
import FeedFiler.Proofs.Text.Lines

/-!
# Transcripts

A transcript is the text of some documents, each on a line of its own. Behind a text whose last line lacks
its ending, the first document goes on with that line.
-/

namespace FeedFiler

/-- The text with each of some messages on a line of its own. -/
def transcript (docs : List Document) : String :=
  String.ofList (docs.flatMap fun doc => doc.render.toList ++ ['\n'])

theorem transcript_cons (doc : Document) (docs : List Document) :
    transcript (doc :: docs) = doc.render ++ "\n" ++ transcript docs := by
  rw [← String.toList_inj]
  simp [transcript]

theorem newline_notMem_render (doc : Document) : '\n' ∉ doc.render.toList := by
  rw [Document.render, Json.render, String.toList_ofList]
  exact Json.newline_notMem_chars _

theorem getLast?_render (doc : Document) : doc.render.toList.getLast? = some '\x7d' := by
  rw [Document.render, Json.render, String.toList_ofList, Json.chars, List.getLast?_concat]

theorem lines_transcript (docs : List Document) :
    Text.lines (transcript docs).toList = docs.map fun doc => doc.render.toList := by
  have h : (transcript docs).toList = (docs.map fun doc => doc.render.toList).flatMap (· ++ ['\n']) := by
    rw [transcript, String.toList_ofList, List.flatMap_map]
  rw [h]
  refine Text.lines_flatMap ?_ ?_
  · intro l hl
    obtain ⟨doc, -, rfl⟩ := List.mem_map.1 hl
    exact newline_notMem_render doc
  · intro l hl
    obtain ⟨doc, -, rfl⟩ := List.mem_map.1 hl
    rw [getLast?_render]
    decide

/-- Behind any text each document takes one line, the first one together with what the last line of the
text has if it lacks its ending. -/
theorem lines_append_transcript (before : List Char) (doc : Document) (docs : List Document) :
    Text.lines (before ++ (transcript (doc :: docs)).toList) =
      Text.lines (before.rdropWhile (· ≠ '\n')) ++
        (before.rtakeWhile (· ≠ '\n') ++ doc.render.toList) :: docs.map fun doc => doc.render.toList := by
  have hsplit : before ++ (transcript (doc :: docs)).toList = before.rdropWhile (· ≠ '\n') ++
      ((before.rtakeWhile (· ≠ '\n') ++ doc.render.toList) ++ '\n' :: (transcript docs).toList) := by
    rw [List.append_assoc, ← List.append_assoc, List.rdropWhile_append_rtakeWhile, transcript_cons]
    simp
  have hended (hne : before.rdropWhile (· ≠ '\n') ≠ []) :
      (before.rdropWhile (· ≠ '\n')).getLast? = some '\n' := by
    rw [List.getLast?_eq_some_getLast hne]
    simpa using List.rdropWhile_last_not _ _ hne
  have hline : '\n' ∉ before.rtakeWhile (· ≠ '\n') ++ doc.render.toList := by
    rw [List.mem_append, not_or]
    exact ⟨fun hm => by simpa using List.mem_rtakeWhile_imp hm, newline_notMem_render doc⟩
  have hlast : (before.rtakeWhile (· ≠ '\n') ++ doc.render.toList).getLast? ≠ some '\r' := by
    rw [List.getLast?_append, getLast?_render]
    nofun
  rw [hsplit, Text.lines_append_of_ended hended, Text.lines_line hline hlast, lines_transcript]

end FeedFiler
