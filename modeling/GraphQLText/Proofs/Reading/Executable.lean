import GraphQLText.Proofs.Reading.Value
import GraphQLText.Reading.Executable

/-!
# The readers of selections, operations and fragments

The readers of the parts of executable documents succeed with a tree exactly on the JSON
values that represent it.  A missing selection set represents the empty one.  The lemmas
about selections are proved together, by induction on the tree that is read.
-/

namespace GraphQLText

open Json Reading

variable {json : Json}

/-! ## Selections -/

theorem FragmentSpread.ofTagged_eq_ok {node : Tagged json} {s : FragmentSpread} :
  FragmentSpread.ofTagged node = .ok s ↔ s.Fields json
  := by
  simp only [FragmentSpread.ofTagged, bind_eq_ok, pure_eq_ok, Tagged.name_eq_ok,
    Tagged.directives_eq_ok]
  constructor
  · rintro ⟨name, hname, directives, hdirectives, rfl⟩
    exact ⟨hname, hdirectives⟩
  · rintro ⟨hname, hdirectives⟩
    exact ⟨s.name, hname, s.directives, hdirectives, rfl⟩

theorem FragmentSpread.read_eq_ok {s : FragmentSpread} :
  FragmentSpread.read json = .ok s ↔ s.Represents json
  := Tagged.expect_bind_eq_ok_of_fields fun _ => ofTagged_eq_ok

/-- What is read from a node of a selection is a selection of its kind. -/
theorem Selection.kind_of_ofTagged {node : Tagged json} {s : Selection}
    (h : Selection.ofTagged node = .ok s) :
  s.kind = node.kind
  := by
  rw [Selection.ofTagged] at h
  split at h
  case h_4 => contradiction
  all_goals
    obtain ⟨part, -, rfl⟩ := map_eq_ok.mp h
    symm
    assumption

theorem SelectionSet.ofTagged_eq_list {node : Tagged json} :
  SelectionSet.ofTagged node = node.list "selections" Selection.read
  := by
  rw [SelectionSet.ofTagged]
  rfl

/-- The selections made on a node are read by the items of its selection set. -/
theorem Tagged.selections_eq_ok_items {node : Tagged json} {ss : SelectionSet} :
  node.selections = .ok ss ↔
    ∃ items, json.HasSelections items ∧
      List.Forall₂ (fun item s => Selection.read item = .ok s) items ss
  := by
  simp only [Tagged.selections, map_eq_ok, optional_eq_ok, SelectionSet.read,
    Tagged.expect_bind_eq_ok, SelectionSet.ofTagged_eq_list, Tagged.list_eq_ok]
  constructor
  · rintro ⟨_ | found, hfound, rfl⟩
    · exact ⟨[], .inr ⟨hfound, rfl⟩, .nil⟩
    · obtain ⟨set, hset, hnode, items, hitems, hall⟩ := hfound
      exact ⟨items, .inl ⟨set, hset, hnode, hitems⟩, hall⟩
  · rintro ⟨items, ⟨set, hset, hnode, hitems⟩ | ⟨hmissing, rfl⟩, hall⟩
    · exact ⟨some ss, ⟨set, hset, hnode, items, hitems, hall⟩, rfl⟩
    · cases hall
      exact ⟨none, hmissing, rfl⟩

/-- A field reads its selections as the other nodes that have some do. -/
theorem Field.ofTagged_eq (node : Tagged json) :
  Field.ofTagged node = do
    let alias? ← node.name? "alias"
    let name ← node.name "name"
    let arguments ← node.list "arguments" Argument.read
    let directives ← node.directives
    let selections ← node.selections
    return ⟨alias?, name, arguments, directives, selections⟩
  := by
  rw [Field.ofTagged]
  simp only [Tagged.selections, bind_map_left, Tagged.optionalWithin_eq_optional]

theorem InlineFragment.ofTagged_eq (node : Tagged json) :
  InlineFragment.ofTagged node = do
    let typeCondition? ← node.optional "typeCondition" NamedType.read
    let directives ← node.directives
    let selections ← node.selections
    return ⟨typeCondition?, directives, selections⟩
  := by
  rw [InlineFragment.ofTagged]
  simp only [Tagged.selections, bind_map_left, Tagged.optionalWithin_eq_optional]

mutual

theorem Selection.ofTagged_eq_ok (s : Selection) {json : Json} (h : json.IsNode s.kind) :
  Selection.ofTagged (⟨s.kind, h⟩ : Tagged json) = .ok s ↔ s.Fields json
  := by
  rw [Selection.ofTagged]
  cases s with
  | field f =>
    have hread : Field.read json = .ok f ↔ json.IsNode .field ∧ Field.Fields json f := by
      rw [Field.read]
      exact Tagged.expect_bind_eq_ok_of_fields fun _ => Field.ofTagged_eq_ok f
    apply map_eq_ok_iff_right (fun _ _ => Selection.field.inj) hread h
  | fragmentSpread s =>
    apply map_eq_ok_iff_right (fun _ _ => Selection.fragmentSpread.inj) FragmentSpread.read_eq_ok h
  | inlineFragment f =>
    have hread :
        InlineFragment.read json = .ok f ↔
          json.IsNode .inlineFragment ∧ InlineFragment.Fields json f := by
      rw [InlineFragment.read]
      exact Tagged.expect_bind_eq_ok_of_fields fun _ => InlineFragment.ofTagged_eq_ok f
    apply map_eq_ok_iff_right (fun _ _ => Selection.inlineFragment.inj) hread h

theorem Field.ofTagged_eq_ok (f : Field) {json : Json} {node : Tagged json} :
  Field.ofTagged node = .ok f ↔ f.Fields json
  := by
  obtain ⟨alias?, name, arguments, directives, selections⟩ := f
  rw [Field.ofTagged_eq]
  simp only [bind_eq_ok, pure_eq_ok, Tagged.name?_eq_ok, Tagged.name_eq_ok, Tagged.list_eq_ok,
    Argument.read_eq_ok, Tagged.directives_eq_ok, Tagged.selections_eq_ok_items, Field.mk.injEq,
    Field.Fields, ← Selection.forall₂_read selections]
  constructor
  · rintro ⟨a, halias, n, hname, as, harguments, ds, hdirectives, ss, hselections, rfl, rfl, rfl,
      rfl, rfl⟩
    exact ⟨halias, hname, harguments, hdirectives, hselections⟩
  · rintro ⟨halias, hname, harguments, hdirectives, hselections⟩
    exact ⟨_, halias, _, hname, _, harguments, _, hdirectives, _, hselections, rfl, rfl, rfl, rfl,
      rfl⟩

theorem InlineFragment.ofTagged_eq_ok (f : InlineFragment) {json : Json} {node : Tagged json} :
  InlineFragment.ofTagged node = .ok f ↔ f.Fields json
  := by
  obtain ⟨typeCondition?, directives, selections⟩ := f
  rw [InlineFragment.ofTagged_eq]
  simp only [bind_eq_ok, pure_eq_ok, Tagged.optional_eq_ok, NamedType.read_eq_ok,
    Tagged.directives_eq_ok, Tagged.selections_eq_ok_items, InlineFragment.mk.injEq,
    InlineFragment.Fields, ← Selection.forall₂_read selections]
  constructor
  · rintro ⟨t, htype, ds, hdirectives, ss, hselections, rfl, rfl, rfl⟩
    exact ⟨htype, hdirectives, hselections⟩
  · rintro ⟨htype, hdirectives, hselections⟩
    exact ⟨_, htype, _, hdirectives, _, hselections, rfl, rfl, rfl⟩

theorem Selection.forall₂_read (ss : List Selection) {items : List Json} :
  List.Forall₂ (fun item s => Selection.read item = .ok s) items ss ↔
    Selection.RepresentsAll items ss
  := by
  cases ss with
  | nil => cases items <;> simp [Selection.RepresentsAll]
  | cons s ss =>
    cases items with
    | nil => simp [Selection.RepresentsAll]
    | cons item items =>
      rw [List.forall₂_cons, Selection.RepresentsAll, Selection.forall₂_read ss, Selection.read,
        Tagged.of_bind_eq_ok_of_kind (fun _ => Selection.kind_of_ofTagged)
          (Selection.ofTagged_eq_ok s)]

end

theorem Selection.read_eq_ok {s : Selection} :
  Selection.read json = .ok s ↔ s.Represents json
  := by
  rw [Selection.read]
  exact Tagged.of_bind_eq_ok_of_kind (fun _ => kind_of_ofTagged) (ofTagged_eq_ok s)

theorem Field.read_eq_ok {f : Field} :
  Field.read json = .ok f ↔ f.Represents json
  := by
  rw [Field.read]
  exact Tagged.expect_bind_eq_ok_of_fields fun _ => ofTagged_eq_ok f

theorem InlineFragment.read_eq_ok {f : InlineFragment} :
  InlineFragment.read json = .ok f ↔ f.Represents json
  := by
  rw [InlineFragment.read]
  exact Tagged.expect_bind_eq_ok_of_fields fun _ => ofTagged_eq_ok f

theorem SelectionSet.ofTagged_eq_ok {node : Tagged json} {ss : SelectionSet} :
  SelectionSet.ofTagged node = .ok ss ↔ SelectionSet.Fields json ss
  := by simp only [ofTagged_eq_list, Tagged.list_eq_ok, Selection.read_eq_ok, Fields]

theorem SelectionSet.read_eq_ok {ss : SelectionSet} :
  SelectionSet.read json = .ok ss ↔ SelectionSet.Represents json ss
  := by
  rw [SelectionSet.read]
  exact Tagged.expect_bind_eq_ok_of_fields fun _ => ofTagged_eq_ok

theorem Tagged.selections_eq_ok {node : Tagged json} {ss : SelectionSet} :
  node.selections = .ok ss ↔ Selections json ss
  := by simp only [selections_eq_ok_items, Selection.read_eq_ok, Selections]

/-! ## Executable definitions -/

theorem VariableDefinition.ofTagged_eq_ok {node : Tagged json} {d : VariableDefinition} :
  VariableDefinition.ofTagged node = .ok d ↔ d.Fields json
  := by
  simp only [VariableDefinition.ofTagged, bind_eq_ok, pure_eq_ok, Tagged.required_eq_ok,
    Variable.read_eq_ok, TypeRef.read_eq_ok, Tagged.optional_eq_ok, Value.read_eq_ok,
    Tagged.directives_eq_ok]
  constructor
  · rintro ⟨var, hvar, type, htype, default?, hdefault, directives, hdirectives, rfl⟩
    exact ⟨hvar, htype, hdefault, hdirectives⟩
  · rintro ⟨hvar, htype, hdefault, hdirectives⟩
    exact ⟨d.var, hvar, d.type, htype, d.default?, hdefault, d.directives, hdirectives, rfl⟩

theorem VariableDefinition.read_eq_ok {d : VariableDefinition} :
  VariableDefinition.read json = .ok d ↔ d.Represents json
  := Tagged.expect_bind_eq_ok_of_fields fun _ => ofTagged_eq_ok

theorem OperationDefinition.ofTagged_eq_ok {node : Tagged json} {d : OperationDefinition} :
  OperationDefinition.ofTagged node = .ok d ↔ d.Fields json
  := by
  simp only [OperationDefinition.ofTagged, bind_eq_ok, pure_eq_ok, Tagged.required_eq_ok,
    OperationKind.read_eq_ok, Tagged.name?_eq_ok, Tagged.list_eq_ok,
    VariableDefinition.read_eq_ok, Tagged.directives_eq_ok, Tagged.selections_eq_ok]
  constructor
  · rintro ⟨operation, hoperation, name?, hname, variableDefinitions, hdefinitions, directives,
      hdirectives, selections, hselections, rfl⟩
    exact ⟨hoperation, hname, hdefinitions, hdirectives, hselections⟩
  · rintro ⟨hoperation, hname, hdefinitions, hdirectives, hselections⟩
    exact ⟨d.operation, hoperation, d.name?, hname, d.variableDefinitions, hdefinitions,
      d.directives, hdirectives, d.selections, hselections, rfl⟩

theorem OperationDefinition.read_eq_ok {d : OperationDefinition} :
  OperationDefinition.read json = .ok d ↔ d.Represents json
  := Tagged.expect_bind_eq_ok_of_fields fun _ => ofTagged_eq_ok

theorem FragmentDefinition.ofTagged_eq_ok {node : Tagged json} {d : FragmentDefinition} :
  FragmentDefinition.ofTagged node = .ok d ↔ d.Fields json
  := by
  simp only [FragmentDefinition.ofTagged, bind_eq_ok, pure_eq_ok, Tagged.name_eq_ok,
    Tagged.required_eq_ok, NamedType.read_eq_ok, Tagged.directives_eq_ok,
    Tagged.selections_eq_ok]
  constructor
  · rintro ⟨name, hname, typeCondition, htype, directives, hdirectives, selections, hselections,
      rfl⟩
    exact ⟨hname, htype, hdirectives, hselections⟩
  · rintro ⟨hname, htype, hdirectives, hselections⟩
    exact ⟨d.name, hname, d.typeCondition, htype, d.directives, hdirectives, d.selections,
      hselections, rfl⟩

theorem FragmentDefinition.read_eq_ok {d : FragmentDefinition} :
  FragmentDefinition.read json = .ok d ↔ d.Represents json
  := Tagged.expect_bind_eq_ok_of_fields fun _ => ofTagged_eq_ok

end GraphQLText
