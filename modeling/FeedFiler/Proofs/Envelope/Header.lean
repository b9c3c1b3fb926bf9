import FeedFiler.Proofs.Envelope.RoundTrip

/-!
# The names of the header

In the document of an envelope the names of the header belong to the envelope: a further member with one of
them is passed over. The one exception is the stamp. Without a stamp nothing else stands under its name, and a
further member of that name takes the place.
-/

namespace FeedFiler.Envelope

/-- The envelopes that a producer gets: stamped ones, the empty one and those that are read, with the records
replaced and members added any number of times. -/
inductive Built : Envelope → Prop
  | stamped (moduleName moduleId stamp : String) : Built { moduleName, moduleId, stamp := some stamp }
  | empty : Built {}
  | read {members : List (String × Json)} {e : Envelope} (h : ofMembers? members = some e) : Built e
  | withRecords {e : Envelope} (h : Built e) (records : List Record) : Built { e with records }
  | withField {e : Envelope} (h : Built e) (name : String) (value : Json) : Built (e.withField name value)

/-- The document consists of the header, the further members with names of their own in their order, and the
records. -/
def HeaderProtected (e : Envelope) : Prop :=
  e.toDocument =
    e.header ++ e.extra.filter (fun member => member.1 ∉ headerNames) ++ [("request_data", e.recordsJson)]

variable {e : Envelope}

theorem extra_of_ofMembers? {members : List (String × Json)} (h : ofMembers? members = some e) :
    e.extra = Document.settle (members.filter fun (name, _) => !headerNames.contains name) := by
  simp only [ofMembers?, Option.bind_eq_bind, Option.bind_eq_some_iff] at h
  obtain ⟨-, -, moduleName, -, moduleId, -, stamp, -, records, -, he⟩ := h
  cases he
  rfl

/-- No further member is there twice, whatever an envelope went through. -/
theorem Built.distinct_extra (h : e.Built) : e.extra.Distinct := by
  induction h with
  | stamped | empty => exact List.nodup_nil
  | read h => exact extra_of_ofMembers? h ▸ (Document.settle_distinct _).1
  | withRecords _ _ ih => exact ih
  | withField _ name value ih => exact ih.insert name value

theorem mem_keys_header {name : String} :
    name ∈ Document.keys e.header ↔
      name = "module_name" ∨ name = "module_id" ∨ name = "acp_ts" ∧ e.stamp.isSome := by
  cases h : e.stamp <;> simp [header, Document.keys, h]

/-- A further member is shown if its name is none of the header's, or is the stamp's and there is no stamp. -/
theorem shown_eq (e : Envelope) :
    e.shown = e.extra.filter fun member =>
      member.1 ∉ headerNames ∨ member.1 = "acp_ts" ∧ e.stamp = none := by
  refine List.filter_congr fun member _ => decide_eq_decide.2 ?_
  rw [mem_keys_header, headerNames, ← Option.not_isSome_iff_eq_none]
  by_cases hstamp : member.1 = "acp_ts"
  · simp [hstamp]
  · simp only [hstamp, List.mem_cons, List.not_mem_nil, false_and, false_or, or_false, not_or]
    tauto

theorem distinct_toDocument (e : Envelope) : e.toDocument.Distinct := by
  rw [toDocument]
  refine Document.Distinct.insert (List.foldlRecOn e.extra _ e.header_distinct ?_) _ _
  rintro doc hdoc ⟨name, value⟩ -
  dsimp only
  split
  · exact hdoc.insert name value
  · exact hdoc

theorem Built.toDocument_eq (h : e.Built) :
    e.toDocument = e.header ++ (e.extra.filter fun member =>
      member.1 ∉ headerNames ∨ member.1 = "acp_ts" ∧ e.stamp = none) ++ [("request_data", e.recordsJson)] := by
  rw [Envelope.toDocument_eq h.distinct_extra, shown_eq]
  rfl

/-- The names are protected unless a member takes the place of a stamp that is not there. -/
theorem Built.headerProtected_iff (h : e.Built) :
    e.HeaderProtected ↔ (e.stamp = none → "acp_ts" ∉ e.extra.keys) := by
  rw [HeaderProtected, h.toDocument_eq, List.append_left_inj, List.append_right_inj]
  constructor
  · intro hsame hstamp hk
    obtain ⟨member, hm, heq⟩ := List.mem_map.1 hk
    have hshown : member ∈ e.extra.filter fun member => member.1 ∉ headerNames :=
      hsame ▸ List.mem_filter.2 ⟨hm, decide_eq_true (.inr ⟨heq, hstamp⟩)⟩
    exact of_decide_eq_true (List.mem_filter.1 hshown).2 (heq ▸ by decide)
  · intro hno
    refine List.filter_congr fun member hm => decide_eq_decide.2 (or_iff_left ?_)
    rintro ⟨heq, hstamp⟩
    exact hno hstamp (heq ▸ List.mem_map_of_mem hm)

/-- **The header keeps its names.** The document of an envelope, however it was made, is its header, the further
members with names of their own in their order, and the records; no name is there twice. A further member with
a name of the header's is shown in one case only: it has the name of the stamp, and there is no stamp. -/
theorem document_of_built (h : e.Built) :
    e.toDocument = e.header ++ (e.extra.filter fun member =>
        member.1 ∉ headerNames ∨ member.1 = "acp_ts" ∧ e.stamp = none) ++ [("request_data", e.recordsJson)] ∧
      e.toDocument.Distinct ∧
      (e.HeaderProtected ↔ (e.stamp = none → "acp_ts" ∉ e.extra.keys)) :=
  ⟨h.toDocument_eq, e.distinct_toDocument, h.headerProtected_iff⟩

/-- A written envelope with or without a stamp. -/
def written (stamp : Option String) : List (String × Json) :=
  ("ts", .bool true) :: ("module_id", .string "vix") :: stamp.toList.map fun stamp => ("acp_ts", .string stamp)

/-- The envelope that was read from it, and members with three of the header's names added. -/
def renamed (stamp : Option String) : Envelope :=
  let e : Envelope := { moduleId := "vix", stamp, extra := [("ts", .bool true)] }
  ((e.withField "module_id" (.string "other")).withField "request_data" .null).withField "acp_ts" (.string "late")

theorem built_renamed (stamp : Option String) : (renamed stamp).Built := by
  have hread : ofMembers? (written stamp) =
      some { moduleId := "vix", stamp, extra := [("ts", .bool true)] } := by
    cases stamp <;> rfl
  exact .withField (.withField (.withField (.read hread) _ _) _ _) _ _

theorem document_of_built_stamped :
    (renamed (some "1.000")).Built ∧ (renamed (some "1.000")).HeaderProtected ∧
      (renamed (some "1.000")).toDocument = [("module_name", .string ""), ("module_id", .string "vix"),
        ("acp_ts", .string "1.000"), ("ts", .bool true), ("request_data", .array [])] := by
  obtain ⟨hdoc, -, hprotected⟩ := document_of_built (built_renamed (some "1.000"))
  exact ⟨built_renamed _, hprotected.2 nofun, hdoc.trans rfl⟩

/-- Without a stamp a member takes its place. -/
theorem built_unprotected :
    (renamed none).Built ∧ (renamed none).stamp = none ∧
      (renamed none).toDocument = [("module_name", .string ""), ("module_id", .string "vix"), ("ts", .bool true),
        ("acp_ts", .string "late"), ("request_data", .array [])] ∧ ¬ (renamed none).HeaderProtected := by
  refine ⟨built_renamed none, rfl, rfl, fun hprotected => ?_⟩
  exact (built_renamed none).headerProtected_iff.1 hprotected rfl (by decide)

end FeedFiler.Envelope
