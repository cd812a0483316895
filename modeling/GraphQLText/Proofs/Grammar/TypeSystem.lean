import GraphQLText.Proofs.Grammar.Executable
import GraphQLText.Proofs.Grammar.Lexer
import GraphQLText.Proofs.Tree.WellFormed

/-!
# The grammar of type system documents

The rules for the definitions and extensions of a schema, its types and directives.
-/

namespace GraphQLText.Grammar.Rule

/-- Whether a token is a string. -/
def IsStringToken : Token → Prop
  | .string _ => True
  | _ => False

instance : DecidablePred IsStringToken
  | .string _ => .isTrue trivial
  | .punctuator _ | .int _ | .float _ | .name _ => .isFalse id

/-- The description before a definition or a member of one. -/
def description : Rule (Option StringValue) := optional IsStringToken string

/-- A root operation type. -/
def operationType : Rule OperationTypeDefinition := do
  let kind ← operationKind
  punctuator .colon
  return ⟨kind, ← namedType⟩

/-- An argument of a field or directive, or a field of an input object. -/
def inputValue : Rule InputValueDefinition := do
  let description? ← description
  let name ← name
  punctuator .colon
  let type ← type
  let default? ← led (.punctuator .equals) (value true)
  return ⟨description?, name, type, default?, ← directives true⟩

/-- The arguments that a field or directive takes. -/
def parameters : Rule (List InputValueDefinition) := group .parenL .parenR inputValue

/-- A field of an object or interface. -/
def fieldDefinition : Rule FieldDefinition := do
  let description? ← description
  let name ← name
  let args ← parameters
  punctuator .colon
  let type ← type
  return ⟨description?, name, args, type, ← directives true⟩

/-- A value of an enum. -/
def enumValue : Rule EnumValueDefinition := do
  let description? ← description
  let name ← checked (fun text => text ≠ "true" ∧ text ≠ "false" ∧ text ≠ "null") name
  return ⟨description?, name, ← directives true⟩

/-- Named types after a token of theirs, with a separator between each two, or none at all. -/
def typesAfter (t : Token) (separator : Punctuator) : Rule (List NamedType) :=
  ifNext (· = t)
    (do
      exactly t
      separated separator namedType)
    (return [])

/-- The interfaces of a type. -/
def interfaces : Rule (List NamedType) := typesAfter (.name "implements") .ampersand

/-- The members of a union. -/
def unionMembers : Rule (List NamedType) := typesAfter (.punctuator .equals) .pipe

/-- The content of a type with fields. -/
def fieldsType
    (make : String → List NamedType → List Directive → List FieldDefinition → Declaration) :
    Rule Declaration := do
  let name ← name
  let types ← interfaces
  let ds ← directives true
  return make name types ds (← group .braceL .braceR fieldDefinition)

/-- A declaration that begins with the given name. -/
def declarationOf : String → Rule Declaration
  | "schema" => do
    let ds ← directives true
    return .schema ds (← group .braceL .braceR operationType)
  | "scalar" => do
    let name ← name
    return .scalar name (← directives true)
  | "type" => fieldsType .object
  | "interface" => fieldsType .interface
  | "union" => do
    let name ← name
    let ds ← directives true
    return .union name ds (← unionMembers)
  | "enum" => do
    let name ← name
    let ds ← directives true
    return .enum name ds (← group .braceL .braceR enumValue)
  | "input" => do
    let name ← name
    let ds ← directives true
    return .inputObject name ds (← group .braceL .braceR inputValue)
  | _ => failure

/-- The content of a definition or extension of a schema or type. -/
def declaration : Rule Declaration := do declarationOf (← name)

/-- The place where a directive may be applied that has the given name: first those in
executable documents, then those in type system documents. -/
def locationOf : String → Rule DirectiveLocation
  | "QUERY" => return .query
  | "MUTATION" => return .mutation
  | "SUBSCRIPTION" => return .subscription
  | "FIELD" => return .field
  | "FRAGMENT_DEFINITION" => return .fragmentDefinition
  | "FRAGMENT_SPREAD" => return .fragmentSpread
  | "INLINE_FRAGMENT" => return .inlineFragment
  | "VARIABLE_DEFINITION" => return .variableDefinition
  | "SCHEMA" => return .schema
  | "SCALAR" => return .scalar
  | "OBJECT" => return .object
  | "FIELD_DEFINITION" => return .fieldDefinition
  | "ARGUMENT_DEFINITION" => return .argumentDefinition
  | "INTERFACE" => return .interface
  | "UNION" => return .union
  | "ENUM" => return .enum
  | "ENUM_VALUE" => return .enumValue
  | "INPUT_OBJECT" => return .inputObject
  | "INPUT_FIELD_DEFINITION" => return .inputFieldDefinition
  | _ => failure

/-- A place where a directive may be applied. -/
def location : Rule DirectiveLocation := do locationOf (← name)

/-- The definition of a directive after its description. -/
def directiveDefinition (description? : Option StringValue) : Rule DirectiveDefinition := do
  keyword "directive"
  punctuator .atSign
  let name ← name
  let args ← parameters
  let repeatable? ← optional (· = .name "repeatable") (keyword "repeatable")
  keyword "on"
  return ⟨description?, name, args, repeatable?.isSome, ← separated .pipe location⟩

/-- A definition or extension of a type system document. -/
def typeSystemDefinition : Rule Definition :=
  ifNext (· = .name "extend")
    (do
      keyword "extend"
      return .extend (← checked Declaration.Extends declaration))
    (do
      let description? ← description
      ifNext (· = .name "directive")
        (.directive <$> directiveDefinition description?)
        (.define description? <$> checked Declaration.Defines declaration))

end GraphQLText.Grammar.Rule

namespace GraphQLText.Grammar

/-- The document that a text is, by a rule for its definitions: one or more definitions and
nothing else. -/
def document? (definition : Rule Definition) (text : String) : Option Document := do
  let ts ← tokens text.toList
  let (first, ts) ← definition ts
  let (others, ts) ← Rule.whileNext (fun _ => True) definition ts
  if ts = [] then return ⟨first :: others⟩ else none

/-- The executable document that a text is. -/
def executableDocument? : String → Option Document := document? Rule.executableDefinition

/-- The type system document that a text is. -/
def typeSystemDocument? : String → Option Document := document? Rule.typeSystemDefinition

end GraphQLText.Grammar
