import GraphQLText.Proofs.Grammar.Rule
import GraphQLText.Tree.Value
import GraphQLText.Tree.TypeRef

/-!
# The grammar of values, directives and types

The rules for the parts below the selections.  In a place for constants a value has no
variables in it.
-/

namespace GraphQLText.Grammar.Rule

/-- A variable. -/
def var : Rule Variable := do
  punctuator .dollar
  return ⟨← name⟩

/-- A name, a colon and what is named. -/
def named {α β : Type} (make : String → α → β) (part : Rule α) : Rule β := do
  let key ← name
  punctuator .colon
  return make key (← part)

/-- A value that begins with the given name. -/
def valueOfName : String → Value
  | "true" => .boolean true
  | "false" => .boolean false
  | "null" => .null
  | text => .enum text

/-- One level of a value, with a rule for the values in it. -/
def valueStep (constant : Bool) (value : Rule Value) : Rule Value := do
  match ← next with
  | .punctuator .dollar => if constant then failure else return .var ⟨← name⟩
  | .int text => return .int text
  | .float text => return .float text
  | .string s => return .string s
  | .name text => return valueOfName text
  | .punctuator .bracketL =>
    let items ← whileNext (· ≠ .punctuator .bracketR) value
    punctuator .bracketR
    return .list items
  | .punctuator .braceL =>
    let fields ← whileNext (· ≠ .punctuator .braceR) (named ObjectField.mk value)
    punctuator .braceR
    return .object fields
  | _ => failure

/-- A value. -/
def value (constant : Bool) : Rule Value := nested (valueStep constant)

/-- An argument. -/
def argument (constant : Bool) : Rule Argument := named Argument.mk (value constant)

/-- A directive. -/
def directive (constant : Bool) : Rule Directive := do
  punctuator .atSign
  let name ← name
  return ⟨name, ← group .parenL .parenR (argument constant)⟩

/-- The directives that are applied to a node. -/
def directives (constant : Bool) : Rule (List Directive) :=
  whileNext (· = .punctuator .atSign) (directive constant)

/-- A named type. -/
def namedType : Rule NamedType := do return ⟨← name⟩

/-- A type reference without the mark of a non-null type, with a rule for the type in a
list. -/
def nullable (type : Rule TypeRef) : Rule TypeRef :=
  ifNext (· = .punctuator .bracketL)
    (do
      punctuator .bracketL
      let item ← type
      punctuator .bracketR
      return .list item)
    (do return .named (← namedType))

/-- One level of a type reference, with a rule for the type in a list. -/
def typeStep (type : Rule TypeRef) : Rule TypeRef := do
  let t ← nullable type
  ifNext (· = .punctuator .bang)
    (do
      punctuator .bang
      return .nonNull t)
    (return t)

/-- A type reference. -/
def type : Rule TypeRef := nested typeStep

end GraphQLText.Grammar.Rule
