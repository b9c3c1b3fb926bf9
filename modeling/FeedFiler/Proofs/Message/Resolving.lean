import FeedFiler.Proofs.Message.PathGrammar

/-!
# What a path selects

All steps of a path but the last one lead from an object to an object in it, and the last one selects a list. So
a path is followed part by part, and no list that was passed on the way is ever the result.
-/

namespace FeedFiler

/-- The name of the member that a step looks at. -/
def PathStep.name : PathStep → String
  | .object name => name
  | .array name => name
  | .element name _ => name

namespace RecordPath

/-! ## Following steps -/

/-- The object in which the steps after this one go on. -/
def enter? (doc : Document) : PathStep → Option Document
  | .object name => objectAt? doc name
  | .array _ => none
  | .element name index => ((arrayAt? doc name).bind (·[index]?)).bind Json.object?

/-- The object that some steps lead to. -/
def lead? (steps : List PathStep) (doc : Document) : Option Document := steps.foldlM enter? doc

/-- The list that a last step selects in an object. -/
def choose? (doc : Document) : PathStep → Option (List Json)
  | .object _ => none
  | .array name => arrayAt? doc name
  | .element name index =>
    (arrayAt? doc name).filter fun items => (items[index]?.bind Json.object?).isSome

variable {before after steps : List PathStep} {last step : PathStep} {doc : Document}

theorem lead?_cons (step : PathStep) (steps : List PathStep) (doc : Document) :
    lead? (step :: steps) doc = (enter? doc step).bind (lead? steps) := rfl

theorem lead?_singleton (step : PathStep) (doc : Document) : lead? [step] doc = enter? doc step := by
  rw [lead?_cons]
  cases enter? doc step <;> rfl

theorem lead?_append (before after : List PathStep) (doc : Document) :
    lead? (before ++ after) doc = (lead? before doc).bind (lead? after) :=
  List.foldlM_append

theorem choose?_eq_some {items : List Json} (h : choose? doc step = some items) :
    arrayAt? doc step.name = some items := by
  cases step with
  | object name => cases h
  | array name => exact h
  | element name index => exact (Option.filter_eq_some_iff.1 h).1

theorem follow_single (h : last.Selects) (doc : Document) (list : Option (List Json)) :
    follow [last] doc list = choose? doc last := by
  cases last with
  | object name => exact h.elim
  | array name =>
      rw [follow, choose?]
      cases arrayAt? doc name <;> rfl
  | element name index =>
      simp only [follow, choose?, bind, Option.bind]
      cases arrayAt? doc name with
      | none => rfl
      | some items =>
          simp only [Option.filter_some]
          cases items[index]? with
          | none => rfl
          | some item => cases hitem : item.object? <;> simp [hitem]

/-- The list that was kept before the steps does not matter. -/
theorem follow_concat (hbefore : ∀ s ∈ before, s.Descends) (hlast : last.Selects) (doc : Document)
    (list : Option (List Json)) :
    follow (before ++ [last]) doc list = (lead? before doc).bind (choose? · last) := by
  -- Each element on the way is kept in place of the list before it, so both are generalized.
  induction before generalizing doc list with
  | nil => exact follow_single hlast doc list
  | cons step before ih =>
      rw [List.forall_mem_cons] at hbefore
      rw [lead?_cons, Option.bind_assoc, List.cons_append]
      cases step with
      | object name =>
          rw [follow, enter?]
          exact congrArg _ (funext fun sub => ih hbefore.2 sub list)
      | array name => exact hbefore.1.elim
      | element name index =>
          simp only [follow, enter?, bind, Option.bind_assoc]
          exact congrArg _ (funext fun items => congrArg _ (funext fun item =>
            congrArg _ (funext fun sub => ih hbefore.2 sub (some items))))

/-- The steps are those of a path: each but the last one goes on below, and the last one selects. -/
def IsPath (steps : List PathStep) : Prop :=
  ∃ before last, steps = before ++ [last] ∧ (∀ s ∈ before, s.Descends) ∧ last.Selects

theorem follow_append (hbefore : ∀ s ∈ before, s.Descends) (hafter : IsPath after) (doc : Document)
    (list : Option (List Json)) :
    follow (before ++ after) doc list = (lead? before doc).bind fun sub => follow after sub none := by
  obtain ⟨mid, last, rfl, hmid, hlast⟩ := hafter
  rw [← List.append_assoc, follow_concat (List.forall_mem_append.2 ⟨hbefore, hmid⟩) hlast, lead?_append,
    Option.bind_assoc]
  exact congrArg _ (funext fun sub => (follow_concat hmid hlast sub none).symm)

/-! ## The parts of a path -/

/-- The path with some parts. -/
def ofParts (parts : List (List Char)) : String := String.ofList (['>'].intercalate parts)

/-- The part that writes a name with the text of an index. -/
def indexed (name text : List Char) : List Char := name ++ '[' :: (text ++ [']'])

variable {parts front rest : List (List Char)} {part name text : List Char} {index : Nat} {p : RecordPath}

theorem compile_ofParts_iff (hne : parts ≠ []) (hparts : ∀ part ∈ parts, '>' ∉ part) :
    compile (ofParts parts) = .ok p ↔ p.source = ofParts parts ∧ Spells parts p.steps := by
  rw [compile_eq_ok_iff, ofParts, String.toList_ofList, List.splitOn_intercalate '>' hparts hne]

theorem compile_ofParts (h : Spells parts steps) (hne : parts ≠ []) (hparts : ∀ part ∈ parts, '>' ∉ part) :
    compile (ofParts parts) = .ok ⟨ofParts parts, steps⟩ :=
  (compile_ofParts_iff hne hparts).2 ⟨rfl, h⟩

theorem Spells.isPath (h : Spells parts steps) (hne : parts ≠ []) : IsPath steps := by
  obtain ⟨front, part, before, last, -, rfl, hbefore, hlast⟩ := h.exists_last hne
  exact ⟨before, last, rfl, descends_of_mem hbefore, hlast.selects⟩

theorem spells_append_iff (hne : rest ≠ []) : Spells (front ++ rest) steps ↔
    ∃ before after, steps = before ++ after ∧ List.Forall₂ (Means false) front before ∧ Spells rest after := by
  induction front generalizing steps with
  | nil => simp
  | cons part front ih =>
      have hempty : (front ++ rest).isEmpty = false := by simp [hne]
      constructor
      · rintro (_ | ⟨hstep, hsteps⟩)
        obtain ⟨before, after, rfl, hbefore, hafter⟩ := ih.1 hsteps
        exact ⟨_ :: before, after, rfl, .cons (hempty ▸ hstep) hbefore, hafter⟩
      · rintro ⟨_, after, rfl, _ | ⟨hstep, hbefore⟩, hafter⟩
        exact .cons (hempty.symm ▸ hstep) (ih.2 ⟨_, after, rfl, hbefore, hafter⟩)

/-! ## The meaning of a part is unique -/

theorem Means.unique {last : Bool} {step step' : PathStep} (h : Means last part step) (h' : Means last part step') :
    step = step' :=
  Except.ok.inj ((stepOf_eq_ok_iff.2 h).symm.trans (stepOf_eq_ok_iff.2 h'))

theorem IsIndex.notMem (h : IsIndex text index) {c : Char} (hblank : Text.isBlank c = false)
    (hdigit : c.isDigit = false) (hplus : c ≠ '+') : c ∉ text := by
  obtain ⟨hfront, hback, hsign, -, hdigits, -⟩ := h
  simp only [List.mem_append, not_or]
  refine ⟨⟨fun hm => ?_, ?_, fun hm => ?_⟩, fun hm => ?_⟩
  · exact Bool.false_ne_true (hblank.symm.trans (hfront c hm))
  · rcases hsign with rfl | rfl <;> simp [hplus]
  · exact Bool.false_ne_true (hdigit.symm.trans (hdigits c hm))
  · exact Bool.false_ne_true (hblank.symm.trans (hback c hm))

theorem IsIndex.notMem_indexed (h : IsIndex text index) (hmark : '>' ∉ name) : '>' ∉ indexed name text := by
  have htext := h.notMem (c := '>') (by decide) (by decide) (by decide)
  simp [indexed, hmark, htext]

theorem getLast?_indexed (name text : List Char) : (indexed name text).getLast? = some ']' := by
  rw [indexed, ← List.cons_append, ← List.append_assoc, List.getLast?_concat]

/-- If the text in the brackets of a part is an index, the text in front of them is a name without a bracket. -/
theorem IsIndexed.of_means {last : Bool} (h : Means last (indexed name text) step) (hindex : IsIndex text index) :
    IsIndexed (indexed name text) name index := by
  obtain hn | ⟨name', index', hn⟩ := exists_means_iff.1 ⟨step, h⟩
  · exact absurd (getLast?_indexed name text) hn.2
  · -- Neither index has an opening bracket, so both parts are cut at the same place.
    generalize hpart : indexed name text = part at hn
    obtain ⟨hne, hname, hindex'⟩ := hn
    have hclose : ∀ {t i}, IsIndex t i → '[' ∉ t ++ [']'] := fun ht hm =>
      (List.mem_append.1 hm).elim (ht.notMem (by decide) (by decide) (by decide)) (by decide)
    obtain ⟨rfl, -, htext⟩ := (List.append_cons_inj_of_notMem hname (hclose hindex')).1 hpart.symm
    rw [htext]
    exact .of hne hname hindex

theorem Means.of_indexed {last : Bool} (h : Means last (indexed name text) step) (hindex : IsIndex text index) :
    step = .element (String.ofList name) index :=
  h.unique (.element (.of_means h hindex))

/-! ## Paths that share parts -/

section Parts

variable (hname : IsName name)
include hname

theorem Means.of_name (h : Means false name step) : step = .object (String.ofList name) :=
  h.unique (.object hname)

theorem spells_array (hfront : List.Forall₂ (Means false) front before) :
    Spells (front ++ [name]) (before ++ [.array (String.ofList name)]) :=
  (spells_append_iff (List.cons_ne_nil _ _)).2 ⟨before, _, rfl, hfront, .cons (.array hname) .nil⟩

variable (hmark : '>' ∉ name) (hrest : ∀ part ∈ rest, '>' ∉ part)
include hmark hrest

/-- A path with an index compiles like the path to its list, then goes on from an element of the list. -/
theorem compile_through (hfront : ∀ part ∈ front, '>' ∉ part) (hindex : IsIndex text index)
    (h : compile (ofParts (front ++ indexed name text :: rest)) = .ok p) :
    ∃ before after, p.steps = before ++ .element (String.ofList name) index :: after ∧
      (∀ s ∈ before, s.Descends) ∧ Spells rest after ∧
      compile (ofParts (front ++ [name])) =
        .ok ⟨ofParts (front ++ [name]), before ++ [.array (String.ofList name)]⟩ := by
  have hparts : ∀ part ∈ front ++ indexed name text :: rest, '>' ∉ part :=
    List.forall_mem_append.2 ⟨hfront, List.forall_mem_cons.2 ⟨hindex.notMem_indexed hmark, hrest⟩⟩
  obtain ⟨-, hsteps⟩ := (compile_ofParts_iff (by simp) hparts).1 h
  obtain ⟨before, _, hsteps, hbefore, _ | ⟨hstep, hafter⟩⟩ := (spells_append_iff (List.cons_ne_nil _ _)).1 hsteps
  refine ⟨before, _, by rw [hsteps, hstep.of_indexed hindex], descends_of_mem hbefore, hafter, ?_⟩
  exact compile_ofParts (spells_array hname hbefore) (by simp)
    (List.forall_mem_append.2 ⟨hfront, List.forall_mem_singleton.2 hmark⟩)

theorem compile_below (hne : rest ≠ []) (h : compile (ofParts (name :: rest)) = .ok p) :
    ∃ after, p.steps = .object (String.ofList name) :: after ∧ Spells rest after := by
  have hparts : ∀ part ∈ name :: rest, '>' ∉ part := List.forall_mem_cons.2 ⟨hmark, hrest⟩
  obtain ⟨-, hsteps⟩ := (compile_ofParts_iff (List.cons_ne_nil _ _) hparts).1 h
  generalize p.steps = steps at hsteps
  obtain _ | ⟨hstep, hafter⟩ := hsteps
  rw [List.isEmpty_eq_false_iff.2 hne] at hstep
  exact ⟨_, by rw [hstep.of_name hname], hafter⟩

end Parts

/-! ## Selecting -/

variable {key : String}

theorem resolve_of_steps (h : p.steps = before ++ [last]) (hbefore : ∀ s ∈ before, s.Descends)
    (hlast : last.Selects) (doc : Document) :
    p.resolve doc = ((lead? before doc).bind (choose? · last)).getD [] := by
  rw [resolve, h, follow_concat hbefore hlast]

theorem resolve_array (hbefore : ∀ s ∈ before, s.Descends) (source key : String) (doc : Document) :
    resolve ⟨source, before ++ [.array key]⟩ doc = ((lead? before doc).bind (arrayAt? · key)).getD [] := by
  have hlast : (PathStep.array key).Selects := trivial
  exact resolve_of_steps rfl hbefore hlast doc

theorem getElem?_resolve_array (hbefore : ∀ s ∈ before, s.Descends) (source key : String) (index : Nat)
    (doc : Document) :
    (resolve ⟨source, before ++ [.array key]⟩ doc)[index]? =
      (lead? before doc).bind fun sub => (arrayAt? sub key).bind (·[index]?) := by
  rw [resolve_array hbefore]
  cases lead? before doc with
  | none => rfl
  | some sub => cases h : arrayAt? sub key <;> simp [h]

theorem getD_bind_object? (value : Option Json) (f : Document → Option (List Json)) :
    ((value.bind Json.object?).bind f).getD [] =
      match value with
      | some (.object sub) => (f sub).getD []
      | _ => [] := by
  cases value with
  | none => rfl
  | some value => cases value <;> rfl

theorem resolve_through (h : p.steps = before ++ .element key index :: after) (hbefore : ∀ s ∈ before, s.Descends)
    (hafter : IsPath after) (source source' : String) (doc : Document) :
    p.resolve doc =
      match (resolve ⟨source, before ++ [.array key]⟩ doc)[index]? with
      | some (.object sub) => resolve ⟨source', after⟩ sub
      | _ => [] := by
  have hsteps : ∀ s ∈ before ++ [.element key index], s.Descends :=
    List.forall_mem_append.2 ⟨hbefore, List.forall_mem_singleton.2 trivial⟩
  have hlead : lead? (before ++ [.element key index]) doc =
      ((lead? before doc).bind fun sub => (arrayAt? sub key).bind (·[index]?)).bind Json.object? := by
    rw [lead?_append, Option.bind_assoc]
    exact congrArg _ (funext fun sub => lead?_singleton _ sub)
  rw [resolve, h, List.append_cons, follow_append hsteps hafter, hlead, getElem?_resolve_array hbefore]
  exact getD_bind_object? _ _

theorem resolve_element (h : p.steps = before ++ [.element key index]) (hbefore : ∀ s ∈ before, s.Descends)
    (source : String) (doc : Document) :
    p.resolve doc =
      match (resolve ⟨source, before ++ [.array key]⟩ doc)[index]? with
      | some (.object _) => resolve ⟨source, before ++ [.array key]⟩ doc
      | _ => [] := by
  rw [resolve_of_steps h hbefore trivial, getElem?_resolve_array hbefore, resolve_array hbefore]
  cases lead? before doc with
  | none => rfl
  | some sub =>
      rw [Option.bind_some, Option.bind_some, Option.bind_some, choose?]
      cases arrayAt? sub key with
      | none => rfl
      | some items =>
          rw [Option.filter_some, Option.bind_some]
          cases items[index]? with
          | none => rfl
          | some item => cases item <;> rfl

theorem resolve_below (h : p.steps = .object key :: after) (source : String) (doc : Document) :
    p.resolve doc =
      match doc.get? key with
      | some (.object sub) => resolve ⟨source, after⟩ sub
      | _ => [] := by
  rw [resolve, h, follow, objectAt?]
  exact getD_bind_object? _ _

theorem resolve_plain (source key : String) (doc : Document) :
    resolve ⟨source, [.array key]⟩ doc =
      match doc.get? key with
      | some (.array items) => items
      | _ => [] := by
  have hnone : ∀ s ∈ ([] : List PathStep), s.Descends := List.forall_mem_nil _
  have h : resolve ⟨source, [.array key]⟩ doc = (arrayAt? doc key).getD [] := resolve_array hnone source key doc
  rw [h, arrayAt?]
  cases doc.get? key with
  | none => rfl
  | some value => cases value <;> rfl

/-- **Paths are resolved part by part.** A path through an element of a list goes on in that element of the list
that the path without the index selects, and a path below a member goes on in the object of that member; what
is no object ends in nothing. A path that ends in an element selects the list of the element, and a name alone
the list of that name. Every path that compiles selects nothing, or the list under the name of its last step
in the object that the steps before it lead to. -/
theorem resolve_compositional (hfront : ∀ part ∈ front, '>' ∉ part) (hrest : ∀ part ∈ rest, '>' ∉ part)
    (hne : rest ≠ []) (hname : IsName name) (hmark : '>' ∉ name) (hindex : IsIndex text index) :
    (∀ p, compile (ofParts (front ++ indexed name text :: rest)) = .ok p →
      ∃ list next, compile (ofParts (front ++ [name])) = .ok list ∧ compile (ofParts rest) = .ok next ∧
        ∀ doc, p.resolve doc =
          match (list.resolve doc)[index]? with
          | some (.object sub) => next.resolve sub
          | _ => []) ∧
    (∀ p, compile (ofParts (name :: rest)) = .ok p →
      ∃ next, compile (ofParts rest) = .ok next ∧
        ∀ doc, p.resolve doc =
          match doc.get? (String.ofList name) with
          | some (.object sub) => next.resolve sub
          | _ => []) ∧
    (∀ p, compile (ofParts (front ++ [indexed name text])) = .ok p →
      ∃ list, compile (ofParts (front ++ [name])) = .ok list ∧
        ∀ doc, p.resolve doc =
          match (list.resolve doc)[index]? with
          | some (.object _) => list.resolve doc
          | _ => []) ∧
    (∃ p, compile (ofParts [name]) = .ok p ∧
      ∀ doc, p.resolve doc =
        match doc.get? (String.ofList name) with
        | some (.array items) => items
        | _ => []) ∧
    ∀ source p, compile source = .ok p → ∃ before last, p.steps = before ++ [last] ∧
      ∀ doc, p.resolve doc = [] ∨
        ∃ sub, lead? before doc = some sub ∧ arrayAt? sub last.name = some (p.resolve doc) := by
  refine ⟨fun p hp => ?_, fun p hp => ?_, fun p hp => ?_, ?_, fun source p hp => ?_⟩
  · obtain ⟨before, after, hsteps, hbefore, hafter, hlist⟩ := compile_through hname hmark hrest hfront hindex hp
    exact ⟨_, _, hlist, compile_ofParts hafter hne hrest,
      resolve_through hsteps hbefore (hafter.isPath hne) _ _⟩
  · obtain ⟨after, hsteps, hafter⟩ := compile_below hname hmark hrest hne hp
    exact ⟨_, compile_ofParts hafter hne hrest, resolve_below hsteps _⟩
  · obtain ⟨before, _, hsteps, hbefore, ⟨⟩, hlist⟩ :=
      compile_through hname hmark (List.forall_mem_nil _) hfront hindex hp
    exact ⟨_, hlist, resolve_element hsteps hbefore _⟩
  · refine ⟨_, compile_ofParts (.cons (.array hname) .nil) (List.cons_ne_nil _ _)
      (List.forall_mem_singleton.2 hmark), resolve_plain _ _⟩
  · obtain ⟨-, hsteps⟩ := compile_eq_ok_iff.1 hp
    obtain ⟨before, last, hsteps, hbefore, hlast⟩ := hsteps.isPath (List.splitOn_ne_nil _ _)
    refine ⟨before, last, hsteps, fun doc => ?_⟩
    rw [resolve_of_steps hsteps hbefore hlast]
    cases hlead : lead? before doc with
    | none => exact .inl rfl
    | some sub =>
        rw [Option.bind_some]
        cases hlist : choose? sub last with
        | none => exact .inl rfl
        | some items => exact .inr ⟨sub, rfl, choose?_eq_some hlist⟩

/-- A list of a value and an object, inside of an object. -/
def nestedDocument : Document :=
  [("a", .object [("b", .array [.null, .object [("c", .array [.bool true])]])])]

theorem resolve_compositional_nested :
    ∃ p list next, compile "a>b[ +1 ]>c" = .ok p ∧ compile "a>b" = .ok list ∧ compile "c" = .ok next ∧
      (list.resolve nestedDocument)[1]? = some (.object [("c", .array [.bool true])]) ∧
      p.resolve nestedDocument = next.resolve [("c", .array [.bool true])] ∧
      next.resolve [("c", .array [.bool true])] = [.bool true] := by
  have hindex : IsIndex [' ', '+', '1', ' '] 1 := readIndex?_trim_eq_some_iff.1 (by decide)
  have hfront : ∀ part ∈ [['a']], '>' ∉ part := by decide
  have hrest : ∀ part ∈ [['c']], '>' ∉ part := by decide
  have hname : IsName ['b'] := ⟨by decide, by decide⟩
  have h := resolve_compositional hfront hrest (by decide) hname (by decide) hindex
  have hparts : ofParts ([['a']] ++ indexed ['b'] [' ', '+', '1', ' '] :: [['c']]) = "a>b[ +1 ]>c" := by decide
  have hlist : ofParts ([['a']] ++ [['b']]) = "a>b" := by decide
  have hnext : ofParts [['c']] = "c" := by decide
  rw [hparts, hlist, hnext] at h
  have hp : compile "a>b[ +1 ]>c" = .ok ⟨"a>b[ +1 ]>c", [.object "a", .element "b" 1, .array "c"]⟩ := by
    decide +kernel
  obtain ⟨list, next, hlist, hnext, hresolve⟩ := h.1 _ hp
  have hselected : (list.resolve nestedDocument)[1]? = some (.object [("c", .array [.bool true])]) := by
    have hsteps : compile "a>b" = .ok ⟨"a>b", [.object "a", .array "b"]⟩ := by decide +kernel
    cases hlist.symm.trans hsteps
    rfl
  have hlast : next.resolve [("c", .array [.bool true])] = [.bool true] := by
    have hsteps : compile "c" = .ok ⟨"c", [.array "c"]⟩ := by decide +kernel
    cases hnext.symm.trans hsteps
    rfl
  have hvalue := hresolve nestedDocument
  rw [hselected] at hvalue
  exact ⟨_, list, next, hp, hlist, hnext, hselected, hvalue, hlast⟩

end RecordPath

end FeedFiler
