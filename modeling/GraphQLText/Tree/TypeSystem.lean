import GraphQLText.Tree.Keyword
import GraphQLText.Tree.Value
import GraphQLText.Tree.TypeRef

/-!
# The type system

The members of type system definitions, the definitions of directives, and `Declaration`,
the content that a definition of a schema or type shares with the extension of the same
form.  Members and definitions may be described, extensions may not; so the description is
no part of a declaration.
-/

namespace GraphQLText

/-- The type at the root of one kind of operations. -/
structure OperationTypeDefinition where
  operation : OperationKind
  type : NamedType
deriving DecidableEq

/-- An argument of a field or directive, or a field of an input object. -/
structure InputValueDefinition where
  description? : Option StringValue
  name : String
  type : TypeRef
  default? : Option Value
  directives : List Directive
deriving DecidableEq

/-- A field of an object or interface. -/
structure FieldDefinition where
  description? : Option StringValue
  name : String
  arguments : List InputValueDefinition
  type : TypeRef
  directives : List Directive
deriving DecidableEq

/-- A value of an enum. -/
structure EnumValueDefinition where
  description? : Option StringValue
  name : String
  directives : List Directive
deriving DecidableEq

/-- A directive, with the places where it may be applied. -/
structure DirectiveDefinition where
  description? : Option StringValue
  name : String
  arguments : List InputValueDefinition
  repeatable : Bool
  locations : List DirectiveLocation
deriving DecidableEq

/-- What is said about a schema or type, by its definition or an extension. -/
inductive Declaration where
  | schema (directives : List Directive) (operationTypes : List OperationTypeDefinition)
  | scalar (name : String) (directives : List Directive)
  | object (name : String) (interfaces : List NamedType) (directives : List Directive)
      (fields : List FieldDefinition)
  | interface (name : String) (interfaces : List NamedType) (directives : List Directive)
      (fields : List FieldDefinition)
  | union (name : String) (directives : List Directive) (members : List NamedType)
  | enum (name : String) (directives : List Directive) (values : List EnumValueDefinition)
  | inputObject (name : String) (directives : List Directive)
      (fields : List InputValueDefinition)
deriving DecidableEq

/-- The form of a declaration. -/
def Declaration.form : Declaration → Form
  | .schema .. => .schema
  | .scalar .. => .scalar
  | .object .. => .object
  | .interface .. => .interface
  | .union .. => .union
  | .enum .. => .enum
  | .inputObject .. => .inputObject

end GraphQLText
