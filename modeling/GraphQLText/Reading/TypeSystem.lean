import GraphQLText.Reading.Value
import GraphQLText.Tree.TypeSystem

/-!
# Reading the type system

The readers of the members of type system definitions and of declarations.  A declaration is
read in the same way from the node of a definition and from that of an extension; only the
definition reads its description, and reads it first.
-/

namespace GraphQLText

/-- A root operation type, by its node. -/
def OperationTypeDefinition.ofTagged {json : Json} (node : Tagged json) :
    Reading OperationTypeDefinition := do
  let operation ← node.required "operation" OperationKind.read
  let type ← node.required "type" NamedType.read
  return ⟨operation, type⟩

/-- A root operation type. -/
def OperationTypeDefinition.read (json : Json) : Reading OperationTypeDefinition :=
  Tagged.expect .operationTypeDefinition json >>= ofTagged

/-- An input value, by its node. -/
def InputValueDefinition.ofTagged {json : Json} (node : Tagged json) :
    Reading InputValueDefinition := do
  let description? ← node.description?
  let name ← node.name "name"
  let type ← node.required "type" TypeRef.read
  let default? ← node.optional "defaultValue" Value.read
  let directives ← node.directives
  return ⟨description?, name, type, default?, directives⟩

/-- An input value. -/
def InputValueDefinition.read (json : Json) : Reading InputValueDefinition :=
  Tagged.expect .inputValueDefinition json >>= ofTagged

/-- A field of a type, by its node. -/
def FieldDefinition.ofTagged {json : Json} (node : Tagged json) : Reading FieldDefinition := do
  let description? ← node.description?
  let name ← node.name "name"
  let arguments ← node.list "arguments" InputValueDefinition.read
  let type ← node.required "type" TypeRef.read
  let directives ← node.directives
  return ⟨description?, name, arguments, type, directives⟩

/-- A field of a type. -/
def FieldDefinition.read (json : Json) : Reading FieldDefinition :=
  Tagged.expect .fieldDefinition json >>= ofTagged

/-- A value of an enum, by its node. -/
def EnumValueDefinition.ofTagged {json : Json} (node : Tagged json) :
    Reading EnumValueDefinition := do
  let description? ← node.description?
  let name ← node.name "name"
  let directives ← node.directives
  return ⟨description?, name, directives⟩

/-- A value of an enum. -/
def EnumValueDefinition.read (json : Json) : Reading EnumValueDefinition :=
  Tagged.expect .enumValueDefinition json >>= ofTagged

/-- The definition of a directive, by its node. -/
def DirectiveDefinition.ofTagged {json : Json} (node : Tagged json) :
    Reading DirectiveDefinition := do
  let description? ← node.description?
  let name ← node.name "name"
  let arguments ← node.list "arguments" InputValueDefinition.read
  let locations ← node.list "locations" DirectiveLocation.read
  return ⟨description?, name, arguments, node.flag "repeatable", locations⟩

/-- The definition of a directive. -/
def DirectiveDefinition.read (json : Json) : Reading DirectiveDefinition :=
  Tagged.expect .directiveDefinition json >>= ofTagged

/-- A declaration of the given form, by its node. -/
def Declaration.ofTagged {json : Json} (form : Form) (node : Tagged json) :
    Reading Declaration :=
  match form with
  | .schema => do
    let directives ← node.directives
    let operationTypes ← node.list "operationTypes" OperationTypeDefinition.read
    return .schema directives operationTypes
  | .scalar => do
    let name ← node.name "name"
    let directives ← node.directives
    return .scalar name directives
  | .object => do
    let name ← node.name "name"
    let interfaces ← node.list "interfaces" NamedType.read
    let directives ← node.directives
    let fields ← node.list "fields" FieldDefinition.read
    return .object name interfaces directives fields
  | .interface => do
    let name ← node.name "name"
    let interfaces ← node.list "interfaces" NamedType.read
    let directives ← node.directives
    let fields ← node.list "fields" FieldDefinition.read
    return .interface name interfaces directives fields
  | .union => do
    let name ← node.name "name"
    let directives ← node.directives
    let members ← node.list "types" NamedType.read
    return .union name directives members
  | .enum => do
    let name ← node.name "name"
    let directives ← node.directives
    let values ← node.list "values" EnumValueDefinition.read
    return .enum name directives values
  | .inputObject => do
    let name ← node.name "name"
    let directives ← node.directives
    let fields ← node.list "fields" InputValueDefinition.read
    return .inputObject name directives fields

end GraphQLText
