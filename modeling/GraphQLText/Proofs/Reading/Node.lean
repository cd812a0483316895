import GraphQLText.Proofs.Reading.Executable
import GraphQLText.Proofs.Reading.TypeSystem
import GraphQLText.Reading.Node

/-!
# The readers of definitions, documents and nodes

The readers at the top succeed with a tree exactly on the JSON values that represent it.
What is read from a node has the kind of the node, and it is by this that a reader of nodes
of several kinds is exact: `Node.read_eq_ok_iff` says so of nodes of any kind.
-/

namespace GraphQLText

open Json Reading

variable {json : Json}

/-! ## Definitions -/

/-- What is read as a definition or extension of a given kind has that kind. -/
theorem Definition.kind_of_readOf {kind : Kind} {d : Definition}
    (h : Definition.readOf kind json = .ok d) :
  d.kind = kind
  := by
  obtain ⟨hnode, h⟩ := Tagged.expect_bind_eq_ok.mp h
  rw [ofDeclaration] at h
  split at h
  case h_1 form hkind =>
    simp only [bind_eq_ok, pure_eq_ok] at h
    obtain ⟨description?, -, declaration, hdeclaration, rfl⟩ := h
    have hform := Declaration.form_of_ofTagged hdeclaration
    rw [Definition.kind, hform]
    exact hkind.symm
  case h_2 form hkind =>
    obtain ⟨declaration, hdeclaration, rfl⟩ := map_eq_ok.mp h
    have hform := Declaration.form_of_ofTagged hdeclaration
    rw [Definition.kind, hform]
    exact hkind.symm
  case h_3 => contradiction

theorem Definition.readOf_define_eq_ok {description? : Option StringValue} {d : Declaration} :
  Definition.readOf (.definition d.form) json = .ok (.define description? d) ↔
    (Definition.define description? d).Represents json
  := by
  rw [readOf, Tagged.expect_bind_eq_ok]
  simp only [ofDeclaration, bind_eq_ok, pure_eq_ok, Tagged.description?_eq_ok]
  constructor
  · rintro ⟨hnode, _, hdescription, _, hdeclaration, ⟨⟩⟩
    exact ⟨hnode, hdescription, Declaration.ofTagged_eq_ok.mp hdeclaration⟩
  · rintro ⟨hnode, hdescription, hdeclaration⟩
    exact ⟨hnode, _, hdescription, _, Declaration.ofTagged_eq_ok.mpr hdeclaration, rfl⟩

theorem Definition.readOf_extend_eq_ok {d : Declaration} :
  Definition.readOf (.extension d.form) json = .ok (.extend d) ↔
    (Definition.extend d).Represents json
  := by
  rw [readOf, Tagged.expect_bind_eq_ok]
  simp only [ofDeclaration, map_eq_ok]
  constructor
  · rintro ⟨hnode, _, hdeclaration, ⟨⟩⟩
    exact ⟨hnode, Declaration.ofTagged_eq_ok.mp hdeclaration⟩
  · rintro ⟨hnode, hdeclaration⟩
    exact ⟨hnode, d, Declaration.ofTagged_eq_ok.mpr hdeclaration, rfl⟩

/-- What is read from a node of a definition is a definition of its kind. -/
theorem Definition.kind_of_ofTagged {node : Tagged json} {d : Definition}
    (h : Definition.ofTagged node = .ok d) :
  d.kind = node.kind
  := by
  rw [Definition.ofTagged] at h
  split at h
  case h_4 form hkind | h_5 form hkind =>
    rw [kind_of_readOf h]
    exact hkind.symm
  case h_6 => contradiction
  all_goals
    obtain ⟨part, -, rfl⟩ := map_eq_ok.mp h
    symm
    assumption

theorem Definition.ofTagged_eq_ok {d : Definition} (h : json.IsNode d.kind) :
  Definition.ofTagged (⟨d.kind, h⟩ : Tagged json) = .ok d ↔ d.Fields json
  := by
  cases d with
  | operation d =>
    apply map_eq_ok_iff_right (fun _ _ => operation.inj) OperationDefinition.read_eq_ok h
  | fragment d =>
    apply map_eq_ok_iff_right (fun _ _ => fragment.inj) FragmentDefinition.read_eq_ok h
  | define description? d =>
    apply readOf_define_eq_ok.trans
    exact and_iff_right h
  | directive d =>
    apply map_eq_ok_iff_right (fun _ _ => directive.inj) DirectiveDefinition.read_eq_ok h
  | extend d =>
    apply readOf_extend_eq_ok.trans
    exact and_iff_right h

theorem Definition.read_eq_ok {d : Definition} :
  Definition.read json = .ok d ↔ d.Represents json
  := by
  rw [Definition.read]
  exact Tagged.of_bind_eq_ok_of_kind (fun _ => kind_of_ofTagged) ofTagged_eq_ok

/-! ## Documents -/

theorem Document.ofTagged_eq_ok {node : Tagged json} {d : Document} :
  Document.ofTagged node = .ok d ↔ d.Fields json
  := by
  simp only [Document.ofTagged, map_eq_ok, Tagged.list_eq_ok, Definition.read_eq_ok]
  constructor
  · rintro ⟨definitions, hdefinitions, rfl⟩
    exact hdefinitions
  · intro h
    exact ⟨d.definitions, h, rfl⟩

theorem Document.read_eq_ok {d : Document} :
  Document.read json = .ok d ↔ d.Represents json
  := Tagged.expect_bind_eq_ok_of_fields fun _ => ofTagged_eq_ok

/-! ## Nodes -/

/-- A name node is read as the text in it. -/
theorem readName_eq_ok_of_isNode {text : String} (h : json.IsNode .name) :
  readName json = .ok text ↔ json.HasText "value" text
  := by
  rw [readName_eq_ok, IsName]
  constructor
  · rintro (rfl | ⟨-, htext⟩)
    · have hobject := h.object
      contradiction
    · exact htext
  · intro htext
    exact .inr ⟨h, htext⟩

/-- What is read from a node is a node of its kind. -/
theorem Node.kind_of_ofTagged {node : Tagged json} {n : Node} (h : Node.ofTagged node = .ok n) :
  n.kind = node.kind
  := by
  obtain ⟨kind, hnode⟩ := node
  cases kind with
  | var | intValue | floatValue | stringValue | booleanValue | nullValue | enumValue | listValue
  | objectValue =>
    obtain ⟨v, hv, rfl⟩ := map_eq_ok.mp h
    exact (Value.read_eq_ok.mp hv).1.kind_eq hnode
  | namedType | listType | nonNullType =>
    obtain ⟨t, ht, rfl⟩ := map_eq_ok.mp h
    exact (TypeRef.read_eq_ok.mp ht).1.kind_eq hnode
  | definition form | extension form =>
    obtain ⟨d, hd, rfl⟩ := map_eq_ok.mp h
    exact Definition.kind_of_readOf hd
  | _ =>
    obtain ⟨part, -, rfl⟩ := map_eq_ok.mp h
    rfl

theorem Node.ofTagged_eq_ok {n : Node} (h : json.IsNode n.kind) :
  Node.ofTagged (⟨n.kind, h⟩ : Tagged json) = .ok n ↔ n.Fields json
  := by
  cases n with
  | name text =>
    have hread : readName json = .ok text ↔ json.IsNode .name ∧ json.HasText "value" text :=
      (readName_eq_ok_of_isNode h).trans (and_iff_right h).symm
    apply map_eq_ok_iff_right (fun _ _ => name.inj) hread h
  | document part =>
    apply map_eq_ok_iff_right (fun _ _ => document.inj) Document.read_eq_ok h
  | definition d =>
    cases d with
    | operation d =>
      apply map_eq_ok_iff_right (fun _ _ hd => Definition.operation.inj (definition.inj hd))
        OperationDefinition.read_eq_ok h
    | fragment d =>
      apply map_eq_ok_iff_right (fun _ _ hd => Definition.fragment.inj (definition.inj hd))
        FragmentDefinition.read_eq_ok h
    | define description? d =>
      apply map_eq_ok_iff_right (fun _ _ => definition.inj) Definition.readOf_define_eq_ok h
    | directive d =>
      apply map_eq_ok_iff_right (fun _ _ hd => Definition.directive.inj (definition.inj hd))
        DirectiveDefinition.read_eq_ok h
    | extend d =>
      apply map_eq_ok_iff_right (fun _ _ => definition.inj) Definition.readOf_extend_eq_ok h
  | variableDefinition part =>
    apply map_eq_ok_iff_right (fun _ _ => variableDefinition.inj) VariableDefinition.read_eq_ok h
  | selectionSet part =>
    apply map_eq_ok_iff_right (fun _ _ => selectionSet.inj) SelectionSet.read_eq_ok h
  | selection s =>
    cases s with
    | field f =>
      apply map_eq_ok_iff_right (fun _ _ hs => Selection.field.inj (selection.inj hs))
        Field.read_eq_ok h
    | fragmentSpread s =>
      apply map_eq_ok_iff_right (fun _ _ hs => Selection.fragmentSpread.inj (selection.inj hs))
        FragmentSpread.read_eq_ok h
    | inlineFragment f =>
      apply map_eq_ok_iff_right (fun _ _ hs => Selection.inlineFragment.inj (selection.inj hs))
        InlineFragment.read_eq_ok h
  | argument part =>
    apply map_eq_ok_iff_right (fun _ _ => argument.inj) Argument.read_eq_ok h
  | value v =>
    have hread : ofTagged (⟨v.kind, h⟩ : Tagged json) = .value <$> Value.read json := by
      cases v <;> rfl
    change ofTagged (⟨v.kind, h⟩ : Tagged json) = _ ↔ _
    rw [hread]
    apply map_eq_ok_iff_right (fun _ _ => value.inj) Value.read_eq_ok h
  | objectField part =>
    apply map_eq_ok_iff_right (fun _ _ => objectField.inj) ObjectField.read_eq_ok h
  | directive part =>
    apply map_eq_ok_iff_right (fun _ _ => directive.inj) Directive.read_eq_ok h
  | type t =>
    have hread : ofTagged (⟨t.kind, h⟩ : Tagged json) = .type <$> TypeRef.read json := by
      cases t <;> rfl
    change ofTagged (⟨t.kind, h⟩ : Tagged json) = _ ↔ _
    rw [hread]
    apply map_eq_ok_iff_right (fun _ _ => type.inj) TypeRef.read_eq_ok h
  | operationType part =>
    apply map_eq_ok_iff_right (fun _ _ => operationType.inj) OperationTypeDefinition.read_eq_ok h
  | fieldDefinition part =>
    apply map_eq_ok_iff_right (fun _ _ => fieldDefinition.inj) FieldDefinition.read_eq_ok h
  | inputValue part =>
    apply map_eq_ok_iff_right (fun _ _ => inputValue.inj) InputValueDefinition.read_eq_ok h
  | enumValue part =>
    apply map_eq_ok_iff_right (fun _ _ => enumValue.inj) EnumValueDefinition.read_eq_ok h

/-- What is read as a node tells the kind of which the JSON value is a node. -/
theorem Node.isNode_of_read {n : Node} (h : Node.read json = .ok n) :
  json.IsNode n.kind
  := by
  obtain ⟨node, hn⟩ := Tagged.of_bind_eq_ok.mp h
  rw [kind_of_ofTagged hn]
  exact node.isNode

/-- A JSON value is read as a node just if it represents the node. -/
theorem Node.read_eq_ok_iff {n : Node} :
  Node.read json = .ok n ↔ n.Represents json
  := by
  rw [Node.read]
  exact Tagged.of_bind_eq_ok_of_kind (fun _ => kind_of_ofTagged) ofTagged_eq_ok

end GraphQLText
