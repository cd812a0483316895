import GraphQLText.Reading.Executable
import GraphQLText.Reading.TypeSystem
import GraphQLText.Layout.Node

/-!
# Reading definitions, documents and nodes

The readers at the top: of any definition, of a document and of any node.  A reader of nodes
of several kinds checks the tag of an object and hands the object to the reader of its kind,
which checks the tag again.  `printJson` reads a node and prints it.
-/

namespace GraphQLText

namespace Definition

/-- The definition or extension of a schema or type, by its node. -/
def ofDeclaration {json : Json} (node : Tagged json) : Reading Definition :=
  match node.kind with
  | .definition form => do
    let description? ← node.description?
    let declaration ← Declaration.ofTagged form node
    return .define description? declaration
  | .extension form => .extend <$> Declaration.ofTagged form node
  | kind => .error (.wrongFamily .definition kind)

/-- The definition or extension of a schema or type, of the given kind. -/
def readOf (kind : Kind) (json : Json) : Reading Definition :=
  Tagged.expect kind json >>= ofDeclaration

/-- A definition, by its node. -/
def ofTagged {json : Json} (node : Tagged json) : Reading Definition :=
  match node.kind with
  | .operationDefinition => .operation <$> OperationDefinition.read json
  | .fragmentDefinition => .fragment <$> FragmentDefinition.read json
  | .directiveDefinition => .directive <$> DirectiveDefinition.read json
  | .definition form => readOf (.definition form) json
  | .extension form => readOf (.extension form) json
  | kind => .error (.wrongFamily .definition kind)

/-- A definition. -/
def read (json : Json) : Reading Definition := Tagged.of json >>= ofTagged

end Definition

/-- A document, by its node. -/
def Document.ofTagged {json : Json} (node : Tagged json) : Reading Document :=
  .mk <$> node.list "definitions" Definition.read

/-- A document. -/
def Document.read (json : Json) : Reading Document :=
  Tagged.expect .document json >>= ofTagged

namespace Node

/-- A node, by the object that it is. -/
def ofTagged {json : Json} (node : Tagged json) : Reading Node :=
  match node.kind with
  | .name => .name <$> readName json
  | .document => .document <$> Document.read json
  | .operationDefinition =>
    (fun d => .definition (.operation d)) <$> OperationDefinition.read json
  | .variableDefinition => .variableDefinition <$> VariableDefinition.read json
  | .selectionSet => .selectionSet <$> SelectionSet.read json
  | .field => (fun f => .selection (.field f)) <$> Field.read json
  | .argument => .argument <$> Argument.read json
  | .fragmentSpread => (fun s => .selection (.fragmentSpread s)) <$> FragmentSpread.read json
  | .inlineFragment => (fun f => .selection (.inlineFragment f)) <$> InlineFragment.read json
  | .fragmentDefinition =>
    (fun d => .definition (.fragment d)) <$> FragmentDefinition.read json
  | .var | .intValue | .floatValue | .stringValue | .booleanValue | .nullValue | .enumValue
  | .listValue | .objectValue => .value <$> Value.read json
  | .objectField => .objectField <$> ObjectField.read json
  | .directive => .directive <$> Directive.read json
  | .namedType | .listType | .nonNullType => .type <$> TypeRef.read json
  | .operationTypeDefinition => .operationType <$> OperationTypeDefinition.read json
  | .fieldDefinition => .fieldDefinition <$> FieldDefinition.read json
  | .inputValueDefinition => .inputValue <$> InputValueDefinition.read json
  | .enumValueDefinition => .enumValue <$> EnumValueDefinition.read json
  | .directiveDefinition =>
    (fun d => .definition (.directive d)) <$> DirectiveDefinition.read json
  | .definition form => .definition <$> Definition.readOf (.definition form) json
  | .extension form => .definition <$> Definition.readOf (.extension form) json

/-- A node. -/
def read (json : Json) : Reading Node := Tagged.of json >>= ofTagged

end Node

/-- The printed text of the node that a JSON value is; `null` prints to nothing. -/
def printJson (json : Json) : Reading String :=
  (fun node? => node?.elim "" Node.text) <$> readOptional Node.read json

end GraphQLText
