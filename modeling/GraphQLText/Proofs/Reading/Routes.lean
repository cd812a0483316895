import GraphQLText.Proofs.Reading.Node

/-!
# The readers agree

Each type of tree has a reader of its own, and so has the type of all nodes.  On the kinds
that a reader covers it reads what the reader of nodes reads, up to the way from its trees to
nodes, and fails with the same error; what is no node of any kind they refuse alike; and a
node of any other kind a reader refuses as invalid.  `Reader` names the readers, and
`Reader.agrees_with_node` says all this of each of them.
-/

namespace GraphQLText

open Json Reading

/-! ## What is no node of any kind -/

/-- The causes for which a JSON value is a node of no kind, each with its error. -/
inductive Json.Refused (json : Json) : ReadError → Prop where
  /-- It is no object. -/
  | notAnObject (h : ¬json.isObject) : Refused json (.notAnObject json)
  /-- It has no tag that is a string. -/
  | untagged (hobject : json.isObject)
      (h : ∀ label, json.member? "kind" ≠ some (.string label)) : Refused json .untagged
  /-- Its tag is the label of no kind. -/
  | unknownKind {label : String} (hobject : json.isObject)
      (hlabel : json.member? "kind" = some (.string label))
      (h : ∀ kind : Kind, kind.label ≠ label) : Refused json (.unknownKind label)
  /-- It has a description that its kind cannot take. -/
  | strayDescription {kind : Kind} {description : Json} (hobject : json.isObject)
      (hkind : json.HasKind kind) (htakes : ¬kind.takesDescription)
      (h : json.field? "description" = some description) :
      Refused json (.strayDescription kind description)

variable {json : Json}

theorem Json.HasKind.isObject {kind : Kind} (h : json.HasKind kind) :
  json.isObject
  := by
  cases json with
  | object members => rfl
  | _ => contradiction

/-- A JSON value with a known tag is a node of its kind, or has a description that is stray. -/
theorem Json.HasKind.isNode_or_refused {kind : Kind} (h : json.HasKind kind) :
  json.IsNode kind ∨
    ∃ description, json.Refused (.strayDescription kind description)
  := by
  by_cases htakes : kind.takesDescription
  · left
    exact ⟨h.isObject, h, .inl htakes⟩
  · cases hdescription : json.field? "description" with
    | none =>
      left
      exact ⟨h.isObject, h, .inr hdescription⟩
    | some description =>
      right
      use description
      exact .strayDescription h.isObject h htakes hdescription

/-- A JSON value is a node of a kind, or is refused for one of the causes for which it is
none. -/
theorem Json.isNode_or_refused (json : Json) :
  (∃ kind, json.IsNode kind) ∨ ∃ e, json.Refused e
  := by
  by_cases hobject : json.isObject
  · by_cases htag : ∃ label, json.member? "kind" = some (.string label)
    · obtain ⟨label, hlabel⟩ := htag
      by_cases hknown : ∃ kind : Kind, kind.label = label
      · obtain ⟨kind, rfl⟩ := hknown
        rcases HasKind.isNode_or_refused hlabel with hnode | ⟨description, hrefused⟩
        · exact .inl ⟨kind, hnode⟩
        · exact .inr ⟨_, hrefused⟩
      · right
        exact ⟨_, .unknownKind hobject hlabel (not_exists.mp hknown)⟩
    · right
      exact ⟨_, .untagged hobject (not_exists.mp htag)⟩
  · right
    exact ⟨_, .notAnObject hobject⟩

namespace Tagged

theorem kindOf_untagged (h : ∀ label, json.member? "kind" ≠ some (.string label)) :
  kindOf json = .error .untagged
  := by
  rw [kindOf]
  split
  case h_1 label hlabel => exact absurd hlabel (h label)
  case h_2 => rfl

theorem kindOf_unknownKind {label : String} (hlabel : json.member? "kind" = some (.string label))
    (h : ∀ kind : Kind, kind.label ≠ label) :
  kindOf json = .error (.unknownKind label)
  := by
  rw [kindOf]
  split
  case h_1 found hfound =>
    obtain rfl : found = label := by simpa [hlabel] using hfound.symm
    split
    case h_1 kind hkind => exact absurd (Kind.label_eq_of_ofLabel? hkind) (h kind)
    case h_2 => rfl
  case h_2 hother => exact absurd hlabel (hother label)

theorem ofKind_strayDescription {kind : Kind} {description : Json} (hobject : json.isObject)
    (hkind : json.HasKind kind) (htakes : ¬kind.takesDescription)
    (h : json.field? "description" = some description) :
  ofKind hobject ⟨kind, hkind⟩ = .error (.strayDescription kind description)
  := by
  rw [ofKind]
  split
  case h_1 found hfound =>
    obtain rfl : found = description := by simpa [h] using hfound.symm
    apply dif_neg htakes
  case h_2 hnone =>
    rw [h] at hnone
    contradiction

/-- What is refused fails the check of its tag with the error of the cause. -/
theorem of_eq_error {e : ReadError} (h : json.Refused e) :
  of json = .error e
  := by
  rw [of]
  cases h with
  | notAnObject h => rw [dif_neg h]
  | untagged hobject h =>
    rw [dif_pos hobject, kindOf_untagged h]
    rfl
  | unknownKind hobject hlabel h =>
    rw [dif_pos hobject, kindOf_unknownKind hlabel h]
    rfl
  | strayDescription hobject hkind htakes h =>
    rw [dif_pos hobject, kindOf_eq_ok hkind]
    apply ofKind_strayDescription hobject hkind htakes h

end Tagged

/-- A node passes the check of its tag. -/
theorem Json.IsNode.of_eq_ok {kind : Kind} (h : json.IsNode kind) :
  Tagged.of json = .ok ⟨kind, h⟩
  := Tagged.of_eq_ok ⟨kind, h⟩

/-- A node passes the check of its tag where its kind is expected. -/
theorem Json.IsNode.expect_bind {α : Type} {kind : Kind} (h : json.IsNode kind)
    (f : Tagged json → Reading α) :
  (Tagged.expect kind json >>= f) = f ⟨kind, h⟩
  := by
  rw [Tagged.expect_eq_ok h]
  rfl

/-! ## The readers -/

/-- The readers of trees of one type.  Most read nodes of one kind, the last four those of
several. -/
inductive Reader where
  | var
  | stringValue
  | objectField
  | argument
  | directive
  | namedType
  | fragmentSpread
  | field
  | inlineFragment
  | selectionSet
  | variableDefinition
  | operationDefinition
  | fragmentDefinition
  | operationTypeDefinition
  | inputValueDefinition
  | fieldDefinition
  | enumValueDefinition
  | directiveDefinition
  | document
  /-- The reader of the definitions of schemas or types of a form. -/
  | declared (form : Form)
  /-- The reader of the extensions of schemas or types of a form. -/
  | extended (form : Form)
  | value
  | type
  | selection
  | definition
deriving DecidableEq, Repr

namespace Reader

/-- The trees that a reader reads. -/
def Tree : Reader → Type
  | .var => Variable
  | .stringValue => StringValue
  | .objectField => ObjectField
  | .argument => Argument
  | .directive => Directive
  | .namedType => NamedType
  | .fragmentSpread => FragmentSpread
  | .field => Field
  | .inlineFragment => InlineFragment
  | .selectionSet => SelectionSet
  | .variableDefinition => VariableDefinition
  | .operationDefinition => OperationDefinition
  | .fragmentDefinition => FragmentDefinition
  | .operationTypeDefinition => OperationTypeDefinition
  | .inputValueDefinition => InputValueDefinition
  | .fieldDefinition => FieldDefinition
  | .enumValueDefinition => EnumValueDefinition
  | .directiveDefinition => DirectiveDefinition
  | .document => Document
  | .declared _ => Definition
  | .extended _ => Definition
  | .value => Value
  | .type => TypeRef
  | .selection => Selection
  | .definition => Definition

/-- The tree that a JSON value is read as. -/
def read : (r : Reader) → Json → Reading r.Tree
  | .var => Variable.read
  | .stringValue => StringValue.read
  | .objectField => ObjectField.read
  | .argument => Argument.read
  | .directive => Directive.read
  | .namedType => NamedType.read
  | .fragmentSpread => FragmentSpread.read
  | .field => Field.read
  | .inlineFragment => InlineFragment.read
  | .selectionSet => SelectionSet.read
  | .variableDefinition => VariableDefinition.read
  | .operationDefinition => OperationDefinition.read
  | .fragmentDefinition => FragmentDefinition.read
  | .operationTypeDefinition => OperationTypeDefinition.read
  | .inputValueDefinition => InputValueDefinition.read
  | .fieldDefinition => FieldDefinition.read
  | .enumValueDefinition => EnumValueDefinition.read
  | .directiveDefinition => DirectiveDefinition.read
  | .document => Document.read
  | .declared form => Definition.readOf (.definition form)
  | .extended form => Definition.readOf (.extension form)
  | .value => Value.read
  | .type => TypeRef.read
  | .selection => Selection.read
  | .definition => Definition.read

/-- The kinds of nodes that a reader covers. -/
def kinds : Reader → List Kind
  | .var => [.var]
  | .stringValue => [.stringValue]
  | .objectField => [.objectField]
  | .argument => [.argument]
  | .directive => [.directive]
  | .namedType => [.namedType]
  | .fragmentSpread => [.fragmentSpread]
  | .field => [.field]
  | .inlineFragment => [.inlineFragment]
  | .selectionSet => [.selectionSet]
  | .variableDefinition => [.variableDefinition]
  | .operationDefinition => [.operationDefinition]
  | .fragmentDefinition => [.fragmentDefinition]
  | .operationTypeDefinition => [.operationTypeDefinition]
  | .inputValueDefinition => [.inputValueDefinition]
  | .fieldDefinition => [.fieldDefinition]
  | .enumValueDefinition => [.enumValueDefinition]
  | .directiveDefinition => [.directiveDefinition]
  | .document => [.document]
  | .declared form => [.definition form]
  | .extended form => [.extension form]
  | .value =>
    [.var, .intValue, .floatValue, .stringValue, .booleanValue, .nullValue, .enumValue, .listValue,
      .objectValue]
  | .type => [.namedType, .listType, .nonNullType]
  | .selection => [.field, .fragmentSpread, .inlineFragment]
  | .definition =>
    [.operationDefinition, .fragmentDefinition, .directiveDefinition] ++ Form.all.map .definition ++
      Form.all.map .extension

/-- The node that a tree is. -/
def toNode : (r : Reader) → r.Tree → Node
  | .var, x => .value (.var x)
  | .stringValue, x => .value (.string x)
  | .objectField, x => .objectField x
  | .argument, x => .argument x
  | .directive, x => .directive x
  | .namedType, x => .type (.named x)
  | .fragmentSpread, x => .selection (.fragmentSpread x)
  | .field, x => .selection (.field x)
  | .inlineFragment, x => .selection (.inlineFragment x)
  | .selectionSet, x => .selectionSet x
  | .variableDefinition, x => .variableDefinition x
  | .operationDefinition, x => .definition (.operation x)
  | .fragmentDefinition, x => .definition (.fragment x)
  | .operationTypeDefinition, x => .operationType x
  | .inputValueDefinition, x => .inputValue x
  | .fieldDefinition, x => .fieldDefinition x
  | .enumValueDefinition, x => .enumValue x
  | .directiveDefinition, x => .definition (.directive x)
  | .document, x => .document x
  | .declared _, x => .definition x
  | .extended _, x => .definition x
  | .value, x => .value x
  | .type, x => .type x
  | .selection, x => .selection x
  | .definition, x => .definition x

/-- The kind of a tree, where trees of its type have kinds of their own. -/
def kind? : (r : Reader) → r.Tree → Option Kind
  | .value, v => some (Value.kind v)
  | .type, t => some (TypeRef.kind t)
  | .selection, s => some (Selection.kind s)
  | .definition, d => some (Definition.kind d)
  | _, _ => none

/-- The layout by which a tree prints. -/
def layout : (r : Reader) → r.Tree → Layout
  | .var, x => Variable.layout x
  | .stringValue, x => Layout.literal x
  | .objectField, x => ObjectField.layout x
  | .argument, x => Argument.layout x
  | .directive, x => Directive.layout x
  | .namedType, x => NamedType.layout x
  | .fragmentSpread, x => FragmentSpread.layout x
  | .field, x => Field.layout x
  | .inlineFragment, x => InlineFragment.layout x
  | .selectionSet, x => SelectionSet.layout x
  | .variableDefinition, x => VariableDefinition.layout x
  | .operationDefinition, x => OperationDefinition.layout x
  | .fragmentDefinition, x => FragmentDefinition.layout x
  | .operationTypeDefinition, x => OperationTypeDefinition.layout x
  | .inputValueDefinition, x => InputValueDefinition.layout x
  | .fieldDefinition, x => FieldDefinition.layout x
  | .enumValueDefinition, x => EnumValueDefinition.layout x
  | .directiveDefinition, x => DirectiveDefinition.layout x
  | .document, x => Document.layout x
  | .declared _, x => Definition.layout x
  | .extended _, x => Definition.layout x
  | .value, x => Value.layout x
  | .type, x => TypeRef.layout x
  | .selection, x => Selection.layout x
  | .definition, x => Definition.layout x

/-- The description of a tree. -/
def description? : (r : Reader) → r.Tree → Option StringValue
  | .inputValueDefinition, x => InputValueDefinition.description? x
  | .fieldDefinition, x => FieldDefinition.description? x
  | .enumValueDefinition, x => EnumValueDefinition.description? x
  | .directiveDefinition, x => DirectiveDefinition.description? x
  | .declared _, x | .extended _, x | .definition, x => Definition.description? x
  | _, _ => none

/-! ### Trees as nodes -/

/-- A tree has its kind as a node. -/
theorem kind_toNode {r : Reader} {x : r.Tree} {kind : Kind} (h : r.kind? x = some kind) :
  (r.toNode x).kind = kind
  := by
  cases r with
  | value | type | selection | definition => exact Option.some.inj h
  | _ => contradiction

/-- A tree prints as it does as a node. -/
theorem layout_toNode (r : Reader) (x : r.Tree) :
  (r.toNode x).layout = r.layout x
  := by
  cases r <;> rfl

/-- A tree has its description as a node. -/
theorem description?_toNode (r : Reader) (x : r.Tree) :
  (r.toNode x).description? = r.description? x
  := by
  cases r <;> rfl

end Reader

/-! ## The kinds that a reader does not cover -/

/-- A reader of the kinds in a list: it checks the tag first, and refuses a node of any other
kind as invalid. -/
def Guarded {α : Type} (json : Json) (kinds : List Kind) (outcome : Reading α) : Prop :=
  ∃ f : Tagged json → Reading α, outcome = Tagged.of json >>= f ∧
    ∀ kind ∉ kinds, ∀ h, ∃ e, f ⟨kind, h⟩ = .error e ∧ e.rejection = .invalidNode

/-- A reader that expects a kind covers just this kind. -/
theorem guarded_expect {α : Type} (kind : Kind) (f : Tagged json → Reading α) :
  Guarded json [kind] (Tagged.expect kind json >>= f)
  := by
  use fun node => if node.kind = kind then f node else .error (.wrongKind kind node.kind json)
  constructor
  · rw [Tagged.expect, bind_assoc]
    apply bind_congr
    intro node
    split <;> rfl
  · intro other hother hnode
    rw [List.mem_singleton] at hother
    use .wrongKind kind other json
    exact ⟨if_neg hother, rfl⟩

theorem guarded_value (json : Json) :
  Guarded json Reader.value.kinds (Value.read json)
  := by
  rw [Value.read]
  use fun node => Value.ofTagged node, rfl
  intro kind hkind hnode
  use .wrongFamily .value kind
  rw [Value.ofTagged]
  cases kind with
  | var | intValue | floatValue | stringValue | booleanValue | nullValue | enumValue | listValue
  | objectValue => exact absurd (by decide) hkind
  | _ => exact ⟨rfl, rfl⟩

theorem guarded_type (json : Json) :
  Guarded json Reader.type.kinds (TypeRef.read json)
  := by
  rw [TypeRef.read]
  use fun node => TypeRef.ofTagged node, rfl
  intro kind hkind hnode
  use .wrongFamily .type kind
  rw [TypeRef.ofTagged]
  cases kind with
  | namedType | listType | nonNullType => exact absurd (by decide) hkind
  | _ => exact ⟨rfl, rfl⟩

theorem guarded_selection (json : Json) :
  Guarded json Reader.selection.kinds (Selection.read json)
  := by
  rw [Selection.read]
  use fun node => Selection.ofTagged node, rfl
  intro kind hkind hnode
  use .wrongFamily .selection kind
  rw [Selection.ofTagged]
  cases kind with
  | field | fragmentSpread | inlineFragment => exact absurd (by decide) hkind
  | _ => exact ⟨rfl, rfl⟩

theorem guarded_definition (json : Json) :
  Guarded json Reader.definition.kinds (Definition.read json)
  := by
  use Definition.ofTagged, rfl
  intro kind hkind hnode
  use .wrongFamily .definition kind
  cases kind with
  | operationDefinition | fragmentDefinition | directiveDefinition =>
    exact absurd (by decide) hkind
  | definition form | extension form => exact absurd (by cases form <;> decide) hkind
  | _ => exact ⟨rfl, rfl⟩

/-- Each reader refuses the nodes of the kinds that it does not cover as invalid. -/
theorem Reader.guarded (r : Reader) (json : Json) :
  Guarded json r.kinds (r.read json)
  := by
  cases r with
  | value => exact guarded_value json
  | type => exact guarded_type json
  | selection => exact guarded_selection json
  | definition => exact guarded_definition json
  | objectField =>
    rw [Reader.read, ObjectField.read]
    apply guarded_expect
  | field =>
    rw [Reader.read, Field.read]
    apply guarded_expect
  | inlineFragment =>
    rw [Reader.read, InlineFragment.read]
    apply guarded_expect
  | selectionSet =>
    rw [Reader.read, SelectionSet.read]
    apply guarded_expect
  | _ => apply guarded_expect

/-! ## The kinds that a reader covers -/

theorem Value.read_of_isNode {kind : Kind} (h : json.IsNode kind) :
  Value.read json = Value.ofTagged (⟨kind, h⟩ : Tagged json)
  := by
  rw [Value.read, h.of_eq_ok]
  rfl

theorem TypeRef.read_of_isNode {kind : Kind} (h : json.IsNode kind) :
  TypeRef.read json = TypeRef.ofTagged (⟨kind, h⟩ : Tagged json)
  := by
  rw [TypeRef.read, h.of_eq_ok]
  rfl

theorem Selection.read_of_isNode {kind : Kind} (h : json.IsNode kind) :
  Selection.read json = Selection.ofTagged (⟨kind, h⟩ : Tagged json)
  := by
  rw [Selection.read, h.of_eq_ok]
  rfl

theorem Definition.read_of_isNode {kind : Kind} (h : json.IsNode kind) :
  Definition.read json = Definition.ofTagged (⟨kind, h⟩ : Tagged json)
  := by
  rw [Definition.read, h.of_eq_ok]
  rfl

theorem Node.read_of_isNode {kind : Kind} (h : json.IsNode kind) :
  Node.read json = Node.ofTagged (⟨kind, h⟩ : Tagged json)
  := by
  rw [Node.read, h.of_eq_ok]
  rfl

/-- What is refused is refused as a node. -/
theorem Node.read_of_refused {e : ReadError} (h : json.Refused e) :
  Node.read json = .error e
  := by
  rw [Node.read, Tagged.of_eq_error h]
  rfl

/-- A node of a kind that a reader covers is read by it as by the reader of nodes. -/
theorem Reader.map_toNode_read (r : Reader) {kind : Kind} (h : json.IsNode kind)
    (hkind : kind ∈ r.kinds) :
  r.toNode <$> r.read json = Node.read json
  := by
  rw [Node.read_of_isNode h]
  cases r with
  | value =>
    simp only [kinds, List.mem_cons, List.not_mem_nil, or_false] at hkind
    obtain rfl | rfl | rfl | rfl | rfl | rfl | rfl | rfl | rfl := hkind
    all_goals rfl
  | type =>
    simp only [kinds, List.mem_cons, List.not_mem_nil, or_false] at hkind
    obtain rfl | rfl | rfl := hkind
    all_goals rfl
  | selection =>
    change Node.selection <$> Selection.read json = _
    rw [Selection.read_of_isNode h, Selection.ofTagged]
    simp only [kinds, List.mem_cons, List.not_mem_nil, or_false] at hkind
    obtain rfl | rfl | rfl := hkind
    all_goals exact (comp_map _ _ _).symm
  | definition =>
    change Node.definition <$> Definition.read json = _
    rw [Definition.read_of_isNode h]
    cases kind with
    | operationDefinition | fragmentDefinition | directiveDefinition =>
      exact (comp_map _ _ _).symm
    | definition form | extension form => rfl
    | _ => exact absurd hkind (by decide)
  -- the reader of nodes takes a variable for a value, and a string and a named type likewise
  | var =>
    cases List.mem_singleton.mp hkind
    change _ = Node.value <$> Value.read json
    rw [Value.read_of_isNode h, Value.ofTagged]
    exact comp_map _ _ _
  | stringValue =>
    cases List.mem_singleton.mp hkind
    change _ = Node.value <$> Value.read json
    rw [Value.read_of_isNode h, Value.ofTagged]
    exact comp_map _ _ _
  | namedType =>
    cases List.mem_singleton.mp hkind
    change _ = Node.type <$> TypeRef.read json
    rw [TypeRef.read_of_isNode h, TypeRef.ofTagged]
    exact comp_map _ _ _
  | _ =>
    cases List.mem_singleton.mp hkind
    rfl

/-! ## Agreement -/

namespace Reader

variable {r : Reader} {x : r.Tree}

/-- What is refused is refused by each reader, with the error of the cause. -/
theorem read_of_refused (r : Reader) {e : ReadError} (h : json.Refused e) :
  r.read json = .error e
  := by
  obtain ⟨f, hf, -⟩ := r.guarded json
  rw [hf, Tagged.of_eq_error h]
  rfl

/-- A reader succeeds only on nodes of the kinds that it covers. -/
theorem isNode_of_read (h : r.read json = .ok x) :
  ∃ kind ∈ r.kinds, json.IsNode kind
  := by
  obtain ⟨f, hf, hother⟩ := r.guarded json
  rw [hf, Tagged.of_bind_eq_ok] at h
  obtain ⟨⟨kind, hnode⟩, hx⟩ := h
  use kind
  constructor
  · by_contra hkind
    obtain ⟨e, he, -⟩ := hother kind hkind hnode
    rw [hx] at he
    contradiction
  · exact hnode

/-- What a reader reads, the reader of nodes reads. -/
theorem read_toNode (h : r.read json = .ok x) :
  Node.read json = .ok (r.toNode x)
  := by
  obtain ⟨kind, hkind, hnode⟩ := isNode_of_read h
  rw [← r.map_toNode_read hnode hkind, h]
  rfl

/-- A reader agrees with that of nodes on all JSON values with a tag of a kind that it
covers. -/
theorem map_toNode_read_of_hasKind (r : Reader) {kind : Kind} (h : json.HasKind kind)
    (hkind : kind ∈ r.kinds) :
  r.toNode <$> r.read json = Node.read json
  := by
  obtain hnode | ⟨description, hrefused⟩ := h.isNode_or_refused
  · exact r.map_toNode_read hnode hkind
  · rw [r.read_of_refused hrefused, Node.read_of_refused hrefused]
    rfl

/-- A reader refuses a JSON value with a tag of any other known kind as invalid. -/
theorem invalid_of_hasKind (r : Reader) {kind : Kind} (h : json.HasKind kind)
    (hkind : kind ∉ r.kinds) :
  ∃ e, r.read json = .error e ∧ e.rejection = .invalidNode
  := by
  obtain hnode | ⟨description, hrefused⟩ := h.isNode_or_refused
  · obtain ⟨f, hf, hother⟩ := r.guarded json
    obtain ⟨e, he, hinvalid⟩ := hother kind hkind hnode
    use e
    rw [hf, hnode.of_eq_ok]
    exact ⟨he, hinvalid⟩
  · use .strayDescription kind description
    exact ⟨r.read_of_refused hrefused, rfl⟩

end Reader

/-- The readers of all types agree with the reader of nodes.  What is a node of no kind, both
refuse with the same error; a node of a kind that a reader covers, both read alike or refuse
with the same error; a node of another kind, the reader refuses as invalid.  What is read has
the kind that the tag names, and the same kind, text and description as a tree and as a
node. -/
theorem Reader.agrees_with_node (r : Reader) (json : Json) :
  (∀ e, json.Refused e → r.read json = .error e ∧ Node.read json = .error e) ∧
  (∀ kind ∈ r.kinds, json.HasKind kind → r.toNode <$> r.read json = Node.read json) ∧
  (∀ kind ∉ r.kinds, json.HasKind kind →
    ∃ e, r.read json = .error e ∧ e.rejection = .invalidNode) ∧
  (∀ n, Node.read json = .ok n → json.HasKind n.kind) ∧
  ∀ x, r.read json = .ok x →
    Node.read json = .ok (r.toNode x) ∧ json.HasKind (r.toNode x).kind ∧
    (∀ kind, r.kind? x = some kind → (r.toNode x).kind = kind) ∧
    (r.toNode x).text = (r.layout x).text ∧ (r.toNode x).description? = r.description? x
  := by
  refine ⟨?_, ?_, ?_, ?_, ?_⟩
  · intro e he
    exact ⟨r.read_of_refused he, Node.read_of_refused he⟩
  · intro kind hkind h
    exact r.map_toNode_read_of_hasKind h hkind
  · intro kind hkind h
    exact r.invalid_of_hasKind h hkind
  · intro n hn
    exact (Node.isNode_of_read hn).label
  · intro x hx
    have hn := r.read_toNode hx
    refine ⟨hn, (Node.isNode_of_read hn).label, fun kind => kind_toNode, ?_, ?_⟩
    · rw [Node.text, layout_toNode]
    · exact r.description?_toNode x

/-- The reader of values and a misspelt label, which it refuses as the reader of nodes does, an
integer, which both read, and a field, which is no value. -/
theorem Reader.value_agrees_with_node :
  let misspelt : Json := .object [("kind", .string "IntVaule")]
  let three : Json := .object [("kind", .string "IntValue"), ("value", .string "3")]
  let field : Json := .object [("kind", .string "Field"), ("name", .string "id")]
  (misspelt.Refused (.unknownKind "IntVaule") ∧
    Reader.value.read misspelt = .error (.unknownKind "IntVaule") ∧
    Node.read misspelt = .error (.unknownKind "IntVaule")) ∧
  (Kind.intValue ∈ Reader.value.kinds ∧ three.HasKind .intValue ∧
    Node.value <$> Value.read three = Node.read three) ∧
  (Kind.field ∉ Reader.value.kinds ∧ field.HasKind .field ∧
    ∃ e, Reader.value.read field = .error e ∧ e.rejection = .invalidNode) ∧
  Reader.value.read three = .ok (.int "3") ∧ Node.read three = .ok (.value (.int "3")) ∧
  three.HasKind (Node.value (.int "3")).kind ∧ (Node.value (.int "3")).kind = .intValue ∧
  (Node.value (.int "3")).text = (Value.int "3").layout.text
  := by
  intro misspelt three field
  have hunknown : ∀ kind : Kind, kind.label ≠ "IntVaule" := by
    intro kind hlabel
    have hnone : Kind.ofLabel? "IntVaule" = none := by decide
    rw [← hlabel, Kind.ofLabel?_label] at hnone
    contradiction
  have hrefused : misspelt.Refused (.unknownKind "IntVaule") := .unknownKind rfl rfl hunknown
  have hthree : Value.read three = .ok (.int "3") := by
    apply Value.read_eq_ok.mpr
    exact ⟨⟨rfl, rfl, .inr rfl⟩, .string "3", rfl, .inl rfl⟩
  obtain ⟨hrefuse, -, -, -, -⟩ := agrees_with_node .value misspelt
  obtain ⟨-, hagree, -, -, hread⟩ := agrees_with_node .value three
  obtain ⟨-, -, hother, -, -⟩ := agrees_with_node .value field
  obtain ⟨hnode, hlabel, hkind, htext, -⟩ := hread (.int "3") hthree
  refine ⟨⟨hrefused, hrefuse _ hrefused⟩, ⟨by decide, rfl, hagree .intValue (by decide) rfl⟩,
    ⟨by decide, rfl, hother .field (by decide) rfl⟩, hthree, hnode, hlabel, ?_, htext⟩
  exact hkind .intValue rfl

end GraphQLText
