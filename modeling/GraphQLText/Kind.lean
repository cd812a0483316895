/-!
# Node kinds

`Kind` lists the kinds of nodes of a GraphQL syntax tree.  Each has a label, by which a node
of the JSON form of a tree is tagged; labels tell kinds apart, and `Kind.ofLabel?` finds the
kind of a label.  The seven forms of declarations that can be both defined and extended are a
type of their own, `Form`, so that a definition and the extension of the same form are kinds
`.definition f` and `.extension f` of one shape.
-/

namespace GraphQLText

/-- The forms of declarations that can be defined and extended. -/
inductive Form where
  | schema
  | scalar
  | object
  | interface
  | union
  | enum
  | inputObject
deriving DecidableEq, Repr

namespace Form

/-- All forms. -/
def all : List Form := [.schema, .scalar, .object, .interface, .union, .enum, .inputObject]

/-- What the labels of the definition and of the extension begin with. -/
def stem : Form → String
  | .schema => "Schema"
  | .scalar => "ScalarType"
  | .object => "ObjectType"
  | .interface => "InterfaceType"
  | .union => "UnionType"
  | .enum => "EnumType"
  | .inputObject => "InputObjectType"

end Form

/-- The kinds of nodes of a GraphQL syntax tree. -/
inductive Kind where
  | name
  | document
  | operationDefinition
  | variableDefinition
  | selectionSet
  | field
  | argument
  | fragmentSpread
  | inlineFragment
  | fragmentDefinition
  /-- A variable in the place of a value. -/
  | var
  | intValue
  | floatValue
  | stringValue
  | booleanValue
  | nullValue
  | enumValue
  | listValue
  | objectValue
  | objectField
  | directive
  | namedType
  | listType
  | nonNullType
  | operationTypeDefinition
  | fieldDefinition
  | inputValueDefinition
  | enumValueDefinition
  | directiveDefinition
  /-- The definition of a schema or type. -/
  | definition (form : Form)
  /-- The extension of a schema or type. -/
  | extension (form : Form)
deriving DecidableEq, Repr

namespace Kind

/-- The label of a kind. -/
def label : Kind → String
  | .name => "Name"
  | .document => "Document"
  | .operationDefinition => "OperationDefinition"
  | .variableDefinition => "VariableDefinition"
  | .selectionSet => "SelectionSet"
  | .field => "Field"
  | .argument => "Argument"
  | .fragmentSpread => "FragmentSpread"
  | .inlineFragment => "InlineFragment"
  | .fragmentDefinition => "FragmentDefinition"
  | .var => "Variable"
  | .intValue => "IntValue"
  | .floatValue => "FloatValue"
  | .stringValue => "StringValue"
  | .booleanValue => "BooleanValue"
  | .nullValue => "NullValue"
  | .enumValue => "EnumValue"
  | .listValue => "ListValue"
  | .objectValue => "ObjectValue"
  | .objectField => "ObjectField"
  | .directive => "Directive"
  | .namedType => "NamedType"
  | .listType => "ListType"
  | .nonNullType => "NonNullType"
  | .operationTypeDefinition => "OperationTypeDefinition"
  | .fieldDefinition => "FieldDefinition"
  | .inputValueDefinition => "InputValueDefinition"
  | .enumValueDefinition => "EnumValueDefinition"
  | .directiveDefinition => "DirectiveDefinition"
  | .definition form => form.stem ++ "Definition"
  | .extension form => form.stem ++ "Extension"

/-- All kinds. -/
def all : List Kind :=
  [.name, .document, .operationDefinition, .variableDefinition, .selectionSet, .field,
    .argument, .fragmentSpread, .inlineFragment, .fragmentDefinition, .var, .intValue,
    .floatValue, .stringValue, .booleanValue, .nullValue, .enumValue, .listValue,
    .objectValue, .objectField, .directive, .namedType, .listType, .nonNullType,
    .operationTypeDefinition, .fieldDefinition, .inputValueDefinition, .enumValueDefinition,
    .directiveDefinition] ++ Form.all.map definition ++ Form.all.map extension

/-- The kind with the given label. -/
def ofLabel? (label : String) : Option Kind := all.find? (·.label = label)

theorem mem_all (k : Kind) :
  k ∈ all
  := by
  cases k with
  | definition form => cases form <;> decide
  | extension form => cases form <;> decide
  | _ => decide

/-- Labels tell kinds apart. -/
@[simp]
theorem ofLabel?_label (k : Kind) :
  ofLabel? k.label = some k
  := by
  have h : ∀ k ∈ all, ofLabel? k.label = some k := by decide
  exact h k (mem_all k)

theorem label_injective {k k' : Kind} (h : k.label = k'.label) :
  k = k'
  := by
  have h' := ofLabel?_label k
  rw [h, ofLabel?_label] at h'
  cases h'
  rfl

theorem label_eq_of_ofLabel? {label : String} {k : Kind} (h : ofLabel? label = some k) :
  k.label = label
  := by
  have h' := List.find?_some h
  simpa using h'

/-- The kind of definition that an extension extends. -/
def base? : Kind → Option Kind
  | .extension form => some (.definition form)
  | _ => none

/-- Whether nodes of this kind extend a definition. -/
def isExtension (k : Kind) : Bool := k.base?.isSome

/-- Whether nodes of this kind may be preceded by a description: definitions of the type
system and their members are, executable nodes, values and extensions are not. -/
def takesDescription : Kind → Bool
  | .definition _ => true
  | .directiveDefinition => true
  | .fieldDefinition => true
  | .inputValueDefinition => true
  | .enumValueDefinition => true
  | _ => false

end Kind

end GraphQLText
