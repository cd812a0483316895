import GraphQLText.Tree.Node

/-!
# Editing nodes

The edits that make a larger node from smaller ones.  `Node.append?` adds a node at the end
of the list of another one that holds nodes of its type, and `Node.describe?` and
`Node.rename?` set or clear a description and an alias.  All are undefined on nodes that
have no place for the part.
-/

namespace GraphQLText

namespace Declaration

/-- The declaration with one more directive. -/
def addDirective (new : Directive) : Declaration → Declaration
  | .schema ds operationTypes => .schema (ds ++ [new]) operationTypes
  | .scalar name ds => .scalar name (ds ++ [new])
  | .object name interfaces ds fields => .object name interfaces (ds ++ [new]) fields
  | .interface name interfaces ds fields => .interface name interfaces (ds ++ [new]) fields
  | .union name ds members => .union name (ds ++ [new]) members
  | .enum name ds values => .enum name (ds ++ [new]) values
  | .inputObject name ds fields => .inputObject name (ds ++ [new]) fields

/-- The declaration with one more interface or member type. -/
def addType? (new : NamedType) : Declaration → Option Declaration
  | .object name interfaces ds fields => some (.object name (interfaces ++ [new]) ds fields)
  | .interface name interfaces ds fields =>
    some (.interface name (interfaces ++ [new]) ds fields)
  | .union name ds members => some (.union name ds (members ++ [new]))
  | _ => none

/-- The declaration with one more field of a type with fields. -/
def addField? (new : FieldDefinition) : Declaration → Option Declaration
  | .object name interfaces ds fields => some (.object name interfaces ds (fields ++ [new]))
  | .interface name interfaces ds fields =>
    some (.interface name interfaces ds (fields ++ [new]))
  | _ => none

/-- The declaration with one more value of an enum. -/
def addEnumValue? (new : EnumValueDefinition) : Declaration → Option Declaration
  | .enum name ds values => some (.enum name ds (values ++ [new]))
  | _ => none

/-- The declaration with one more field of an input object. -/
def addInputValue? (new : InputValueDefinition) : Declaration → Option Declaration
  | .inputObject name ds fields => some (.inputObject name ds (fields ++ [new]))
  | _ => none

/-- The declaration with one more root operation type. -/
def addOperationType? (new : OperationTypeDefinition) : Declaration → Option Declaration
  | .schema ds operationTypes => some (.schema ds (operationTypes ++ [new]))
  | _ => none

end Declaration

namespace Definition

/-- The definition or extension with its declaration changed. -/
def mapDeclaration? (f : Declaration → Option Declaration) : Definition → Option Definition
  | .define description? d => (f d).map (.define description?)
  | .extend d => (f d).map .extend
  | _ => none

/-- The definition with one more directive applied to it. -/
def addDirective? (new : Directive) : Definition → Option Definition
  | .operation d => some (.operation { d with directives := d.directives ++ [new] })
  | .fragment d => some (.fragment { d with directives := d.directives ++ [new] })
  | .directive _ => none
  | d => d.mapDeclaration? fun declaration => some (declaration.addDirective new)

/-- The definition with one more selection. -/
def addSelection? (new : Selection) : Definition → Option Definition
  | .operation d => some (.operation { d with selections := d.selections ++ [new] })
  | .fragment d => some (.fragment { d with selections := d.selections ++ [new] })
  | _ => none

/-- The definition with one more argument or field of an input object. -/
def addInputValue? (new : InputValueDefinition) : Definition → Option Definition
  | .directive d => some (.directive { d with arguments := d.arguments ++ [new] })
  | d => d.mapDeclaration? (·.addInputValue? new)

/-- The definition with another description. -/
def describe? (description? : Option StringValue) : Definition → Option Definition
  | .define _ d => some (.define description? d)
  | .directive d => some (.directive { d with description? })
  | _ => none

end Definition

namespace Selection

/-- The selection with one more directive. -/
def addDirective (new : Directive) : Selection → Selection
  | .field f => .field { f with directives := f.directives ++ [new] }
  | .fragmentSpread s => .fragmentSpread { s with directives := s.directives ++ [new] }
  | .inlineFragment f => .inlineFragment { f with directives := f.directives ++ [new] }

/-- The selection with one more selection below it. -/
def addSelection? (parent new : Selection) : Option Selection :=
  match parent with
  | .field f => some (.field { f with selections := f.selections ++ [new] })
  | .fragmentSpread _ => none
  | .inlineFragment f => some (.inlineFragment { f with selections := f.selections ++ [new] })

end Selection

namespace Node

/-- The node with one more directive. -/
def addDirective? (new : Directive) : Node → Option Node
  | .definition d => (d.addDirective? new).map .definition
  | .variableDefinition d =>
    some (.variableDefinition { d with directives := d.directives ++ [new] })
  | .selection s => some (.selection (s.addDirective new))
  | .fieldDefinition d => some (.fieldDefinition { d with directives := d.directives ++ [new] })
  | .inputValue d => some (.inputValue { d with directives := d.directives ++ [new] })
  | .enumValue d => some (.enumValue { d with directives := d.directives ++ [new] })
  | _ => none

/-- The node with one more selection. -/
def addSelection? (new : Selection) : Node → Option Node
  | .selectionSet s => some (.selectionSet (s ++ [new]))
  | .selection s => (s.addSelection? new).map .selection
  | .definition d => (d.addSelection? new).map .definition
  | _ => none

/-- The node with one more argument. -/
def addArgument? (new : Argument) : Node → Option Node
  | .selection (.field f) => some (.selection (.field { f with arguments := f.arguments ++ [new] }))
  | .directive d => some (.directive { d with arguments := d.arguments ++ [new] })
  | _ => none

/-- The node with one more input value. -/
def addInputValue? (new : InputValueDefinition) : Node → Option Node
  | .definition d => (d.addInputValue? new).map .definition
  | .fieldDefinition d => some (.fieldDefinition { d with arguments := d.arguments ++ [new] })
  | _ => none

/-- The definition or extension with its declaration changed. -/
def mapDeclaration? (f : Declaration → Option Declaration) : Node → Option Node
  | .definition d => (d.mapDeclaration? f).map .definition
  | _ => none

/-- The node with `child` at the end of its list of such nodes. -/
def append? (parent child : Node) : Option Node :=
  match child, parent with
  | .directive d, _ => parent.addDirective? d
  | .selection s, _ => parent.addSelection? s
  | .argument a, _ => parent.addArgument? a
  | .inputValue d, _ => parent.addInputValue? d
  | .type (.named t), _ => parent.mapDeclaration? (·.addType? t)
  | .fieldDefinition d, _ => parent.mapDeclaration? (·.addField? d)
  | .enumValue d, _ => parent.mapDeclaration? (·.addEnumValue? d)
  | .operationType d, _ => parent.mapDeclaration? (·.addOperationType? d)
  | .value v, .value (.list items) => some (.value (.list (items ++ [v])))
  | .objectField f, .value (.object fields) => some (.value (.object (fields ++ [f])))
  | .variableDefinition d, .definition (.operation o) =>
    some (.definition (.operation { o with variableDefinitions := o.variableDefinitions ++ [d] }))
  | .definition d, .document ⟨definitions⟩ => some (.document ⟨definitions ++ [d]⟩)
  | _, _ => none

/-- The node with another description, if its kind takes one. -/
def describe? (description? : Option StringValue) : Node → Option Node
  | .definition d => (d.describe? description?).map .definition
  | .fieldDefinition d => some (.fieldDefinition { d with description? })
  | .inputValue d => some (.inputValue { d with description? })
  | .enumValue d => some (.enumValue { d with description? })
  | _ => none

/-- The field with another alias. -/
def rename? (alias? : Option String) : Node → Option Node
  | .selection (.field f) => some (.selection (.field { f with alias? }))
  | _ => none

/-- The definition of what an extension declares. -/
def retag? : Node → Option Node
  | .definition d => d.retag?.map .definition
  | _ => none

/-- The type reference with its wrappers changed. -/
def mapType? (f : TypeRef → TypeRef) : Node → Option Node
  | .type t => some (.type (f t))
  | _ => none

end Node

end GraphQLText
