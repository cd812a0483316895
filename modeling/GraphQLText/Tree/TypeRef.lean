import GraphQLText.Kind

/-!
# Type references

A type reference is a named type inside any number of list and non-null wrappers, in any
order.  `TypeRef.innermost` is the named type at its core.
-/

namespace GraphQLText

/-- A reference to a type by its name. -/
structure NamedType where
  name : String
deriving DecidableEq, Repr

/-- A type reference. -/
inductive TypeRef where
  | named (type : NamedType)
  /-- The lists of items of a type. -/
  | list (item : TypeRef)
  /-- The type without null. -/
  | nonNull (type : TypeRef)
deriving DecidableEq, Repr

namespace TypeRef

/-- The named type inside all wrappers. -/
def innermost : TypeRef → NamedType
  | .named type => type
  | .list item => item.innermost
  | .nonNull type => type.innermost

/-- The kind of a type reference. -/
def kind : TypeRef → Kind
  | .named _ => .namedType
  | .list _ => .listType
  | .nonNull _ => .nonNullType

end TypeRef

end GraphQLText
