import GraphQLText.Tree.Keyword
import GraphQLText.Tree.Selection

/-!
# Operations and fragments

The definitions of an executable document: an operation, with the variables that it takes,
and a named fragment.
-/

namespace GraphQLText

/-- A variable of an operation.  An absent default differs from the default `null`. -/
structure VariableDefinition where
  var : Variable
  type : TypeRef
  default? : Option Value
  directives : List Directive
deriving DecidableEq

/-- An operation.  An anonymous one has no name. -/
structure OperationDefinition where
  operation : OperationKind
  name? : Option String
  variableDefinitions : List VariableDefinition
  directives : List Directive
  selections : SelectionSet
deriving DecidableEq

/-- A named fragment on a type. -/
structure FragmentDefinition where
  name : String
  typeCondition : NamedType
  directives : List Directive
  selections : SelectionSet
deriving DecidableEq

end GraphQLText
