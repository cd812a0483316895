/-!
# Keywords

The two closed sets of words that stand for themselves in a GraphQL document: the kinds of
operations and the places where a directive may be applied.  Each word stands for one
member, and `ofText?` finds the member of a word.
-/

namespace GraphQLText

/-- The kinds of operations. -/
inductive OperationKind where
  | query
  | mutation
  | subscription
deriving DecidableEq, Repr

namespace OperationKind

/-- The keyword of an operation. -/
def text : OperationKind → String
  | .query => "query"
  | .mutation => "mutation"
  | .subscription => "subscription"

/-- All kinds of operations. -/
def all : List OperationKind := [.query, .mutation, .subscription]

/-- The kind of operation with the given keyword. -/
def ofText? (text : String) : Option OperationKind := all.find? (·.text = text)

@[simp]
theorem ofText?_text (k : OperationKind) :
  ofText? k.text = some k
  := by
  cases k <;> decide

theorem text_eq_of_ofText? {text : String} {k : OperationKind} (h : ofText? text = some k) :
  k.text = text
  := by
  have h' := List.find?_some h
  simpa using h'

end OperationKind

/-- The places where a directive may be applied. -/
inductive DirectiveLocation where
  | query
  | mutation
  | subscription
  | field
  | fragmentDefinition
  | fragmentSpread
  | inlineFragment
  | variableDefinition
  | schema
  | scalar
  | object
  | fieldDefinition
  | argumentDefinition
  | interface
  | union
  | enum
  | enumValue
  | inputObject
  | inputFieldDefinition
deriving DecidableEq, Repr

namespace DirectiveLocation

/-- The keyword of a location. -/
def text : DirectiveLocation → String
  | .query => "QUERY"
  | .mutation => "MUTATION"
  | .subscription => "SUBSCRIPTION"
  | .field => "FIELD"
  | .fragmentDefinition => "FRAGMENT_DEFINITION"
  | .fragmentSpread => "FRAGMENT_SPREAD"
  | .inlineFragment => "INLINE_FRAGMENT"
  | .variableDefinition => "VARIABLE_DEFINITION"
  | .schema => "SCHEMA"
  | .scalar => "SCALAR"
  | .object => "OBJECT"
  | .fieldDefinition => "FIELD_DEFINITION"
  | .argumentDefinition => "ARGUMENT_DEFINITION"
  | .interface => "INTERFACE"
  | .union => "UNION"
  | .enum => "ENUM"
  | .enumValue => "ENUM_VALUE"
  | .inputObject => "INPUT_OBJECT"
  | .inputFieldDefinition => "INPUT_FIELD_DEFINITION"

/-- All locations. -/
def all : List DirectiveLocation :=
  [.query, .mutation, .subscription, .field, .fragmentDefinition, .fragmentSpread,
    .inlineFragment, .variableDefinition, .schema, .scalar, .object, .fieldDefinition,
    .argumentDefinition, .interface, .union, .enum, .enumValue, .inputObject,
    .inputFieldDefinition]

/-- The location with the given keyword. -/
def ofText? (text : String) : Option DirectiveLocation := all.find? (·.text = text)

@[simp]
theorem ofText?_text (l : DirectiveLocation) :
  ofText? l.text = some l
  := by
  cases l <;> decide

theorem text_eq_of_ofText? {text : String} {l : DirectiveLocation}
    (h : ofText? text = some l) :
  l.text = text
  := by
  have h' := List.find?_some h
  simpa using h'

end DirectiveLocation

end GraphQLText
