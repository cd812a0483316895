import GraphQLText.Proofs.Grammar.Value
import GraphQLText.Tree.Node

/-!
# The grammar of executable documents

The rules for selections, operations and fragments.  An operation may be written without its
keyword, as a selection set alone.
-/

namespace GraphQLText.Grammar.Rule

/-- The alias of a field, if it has one, and its name. -/
def fieldName : Rule (Option String × String) := do
  let first ← name
  let second? ← led (.punctuator .colon) name
  return second?.elim (none, first) fun second => (some first, second)

/-- A field, with a rule for the selections in it. -/
def field (selection : Rule Selection) : Rule Selection := do
  let key ← fieldName
  let args ← group .parenL .parenR (argument false)
  let ds ← directives false
  return .field ⟨key.1, key.2, args, ds, ← group .braceL .braceR selection⟩

/-- What goes on as an inline fragment, with a rule for the selections in it. -/
def inlineFragment (selection : Rule Selection) : Rule Selection := do
  let typeCondition? ← led (.name "on") namedType
  let ds ← directives false
  return .inlineFragment ⟨typeCondition?, ds, ← block .braceL .braceR selection⟩

/-- What goes on as the spread of a named fragment. -/
def fragmentSpread : Rule Selection := do
  let name ← name
  return .fragmentSpread ⟨name, ← directives false⟩

/-- Whether a token is a name. -/
def IsNameToken : Token → Prop
  | .name _ => True
  | _ => False

instance : DecidablePred IsNameToken
  | .name _ => .isTrue trivial
  | .punctuator _ | .int _ | .float _ | .string _ => .isFalse id

/-- One level of a selection, with a rule for the selections in it. -/
def selectionStep (selection : Rule Selection) : Rule Selection :=
  ifNext (· = .punctuator .spread)
    (do
      punctuator .spread
      ifNext (fun t => IsNameToken t ∧ t ≠ .name "on") fragmentSpread (inlineFragment selection))
    (field selection)

/-- A selection. -/
def selection : Rule Selection := nested selectionStep

/-- The selection set of an operation or a fragment. -/
def selectionSet : Rule SelectionSet := block .braceL .braceR selection

/-- A variable of an operation. -/
def variableDefinition : Rule VariableDefinition := do
  let v ← var
  punctuator .colon
  let type ← type
  let default? ← led (.punctuator .equals) (value true)
  return ⟨v, type, default?, ← directives true⟩

/-- The kind of operations that begin with the given name. -/
def operationKindOf : String → Rule OperationKind
  | "query" => return .query
  | "mutation" => return .mutation
  | "subscription" => return .subscription
  | _ => failure

/-- A kind of operations. -/
def operationKind : Rule OperationKind := do operationKindOf (← name)

/-- An operation. -/
def operation : Rule OperationDefinition := do
  let kind ← operationKind
  let name? ← optional IsNameToken name
  let inputs ← group .parenL .parenR variableDefinition
  let ds ← directives false
  return ⟨kind, name?, inputs, ds, ← selectionSet⟩

/-- A named fragment. -/
def fragment : Rule FragmentDefinition := do
  keyword "fragment"
  let name ← checked (· ≠ "on") name
  keyword "on"
  let typeCondition ← namedType
  let ds ← directives false
  return ⟨name, typeCondition, ds, ← selectionSet⟩

/-- A definition of an executable document. -/
def executableDefinition : Rule Definition :=
  ifNext (· = .punctuator .braceL)
    (do return .operation ⟨.query, none, [], [], ← selectionSet⟩)
    (ifNext (· = .name "fragment") (.fragment <$> fragment) (.operation <$> operation))

end GraphQLText.Grammar.Rule
