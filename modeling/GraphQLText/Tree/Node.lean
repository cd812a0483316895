import GraphQLText.Tree.Executable
import GraphQLText.Tree.TypeSystem

/-!
# Definitions, documents and nodes

A document is a list of definitions, of which an extension is one too: `Definition.define`
and `Definition.extend` hold a declaration of the same type, and `Definition.retag?` turns
the latter into the former.  `Node` is any part of a document that can be read and printed by
itself.
-/

namespace GraphQLText

/-- A definition in a document. -/
inductive Definition where
  | operation (d : OperationDefinition)
  | fragment (d : FragmentDefinition)
  /-- The definition of a schema or type. -/
  | define (description? : Option StringValue) (d : Declaration)
  | directive (d : DirectiveDefinition)
  /-- The extension of a schema or type. -/
  | extend (d : Declaration)
deriving DecidableEq

namespace Definition

/-- The kind of a definition. -/
def kind : Definition → Kind
  | .operation _ => .operationDefinition
  | .fragment _ => .fragmentDefinition
  | .define _ d => .definition d.form
  | .directive _ => .directiveDefinition
  | .extend d => .extension d.form

/-- The description of a definition. -/
def description? : Definition → Option StringValue
  | .define description? _ => description?
  | .directive d => d.description?
  | _ => none

/-- The definition, without a description, of what an extension declares. -/
def retag? : Definition → Option Definition
  | .extend d => some (.define none d)
  | _ => none

end Definition

/-- A whole document. -/
structure Document where
  definitions : List Definition
deriving DecidableEq

/-- A part of a document. -/
inductive Node where
  | name (text : String)
  | document (d : Document)
  | definition (d : Definition)
  | variableDefinition (d : VariableDefinition)
  | selectionSet (s : SelectionSet)
  | selection (s : Selection)
  | argument (a : Argument)
  | value (v : Value)
  | objectField (f : ObjectField)
  | directive (d : Directive)
  | type (t : TypeRef)
  | operationType (d : OperationTypeDefinition)
  | fieldDefinition (d : FieldDefinition)
  | inputValue (d : InputValueDefinition)
  | enumValue (d : EnumValueDefinition)
deriving DecidableEq

namespace Node

/-- The kind of a node. -/
def kind : Node → Kind
  | .name _ => .name
  | .document _ => .document
  | .definition d => d.kind
  | .variableDefinition _ => .variableDefinition
  | .selectionSet _ => .selectionSet
  | .selection s => s.kind
  | .argument _ => .argument
  | .value v => v.kind
  | .objectField _ => .objectField
  | .directive _ => .directive
  | .type t => t.kind
  | .operationType _ => .operationTypeDefinition
  | .fieldDefinition _ => .fieldDefinition
  | .inputValue _ => .inputValueDefinition
  | .enumValue _ => .enumValueDefinition

/-- The description of a node. -/
def description? : Node → Option StringValue
  | .definition d => d.description?
  | .fieldDefinition d => d.description?
  | .inputValue d => d.description?
  | .enumValue d => d.description?
  | _ => none

end Node

end GraphQLText
