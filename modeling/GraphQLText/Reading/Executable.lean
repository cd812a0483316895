import GraphQLText.Reading.Value
import GraphQLText.Tree.Executable

/-!
# Reading selections, operations and fragments

The readers of the parts of executable documents.  A missing selection set reads as an empty
one.  The readers of selections call themselves on smaller JSON values.
-/

namespace GraphQLText

/-! ## Selections -/

/-- The spread of a fragment, by its node. -/
def FragmentSpread.ofTagged {json : Json} (node : Tagged json) : Reading FragmentSpread := do
  let name ← node.name "name"
  let directives ← node.directives
  return ⟨name, directives⟩

/-- The spread of a fragment. -/
def FragmentSpread.read (json : Json) : Reading FragmentSpread :=
  Tagged.expect .fragmentSpread json >>= ofTagged

mutual

/-- A selection set. -/
def SelectionSet.read (json : Json) : Reading SelectionSet :=
  Tagged.expect .selectionSet json >>= fun node => SelectionSet.ofTagged node
termination_by (sizeOf json, 1)

/-- A selection set, by its node. -/
def SelectionSet.ofTagged {json : Json} (node : Tagged json) : Reading SelectionSet :=
  node.listWithin "selections" fun item _ => Selection.read item
termination_by (sizeOf json, 0)

/-- A selection. -/
def Selection.read (json : Json) : Reading Selection :=
  Tagged.of json >>= fun node => Selection.ofTagged node
termination_by (sizeOf json, 3)

/-- A selection, by its node. -/
def Selection.ofTagged {json : Json} (node : Tagged json) : Reading Selection :=
  match node.kind with
  | .field => .field <$> Field.read json
  | .fragmentSpread => .fragmentSpread <$> FragmentSpread.read json
  | .inlineFragment => .inlineFragment <$> InlineFragment.read json
  | kind => .error (.wrongFamily .selection kind)
termination_by (sizeOf json, 2)

/-- A field. -/
def Field.read (json : Json) : Reading Field :=
  Tagged.expect .field json >>= fun node => Field.ofTagged node
termination_by (sizeOf json, 1)

/-- A field, by its node. -/
def Field.ofTagged {json : Json} (node : Tagged json) : Reading Field := do
  let alias? ← node.name? "alias"
  let name ← node.name "name"
  let arguments ← node.list "arguments" Argument.read
  let directives ← node.directives
  let selections ← node.optionalWithin "selectionSet" fun set _ => SelectionSet.read set
  return ⟨alias?, name, arguments, directives, selections.getD []⟩
termination_by (sizeOf json, 0)

/-- An inline fragment. -/
def InlineFragment.read (json : Json) : Reading InlineFragment :=
  Tagged.expect .inlineFragment json >>= fun node => InlineFragment.ofTagged node
termination_by (sizeOf json, 1)

/-- An inline fragment, by its node. -/
def InlineFragment.ofTagged {json : Json} (node : Tagged json) : Reading InlineFragment := do
  let typeCondition? ← node.optional "typeCondition" NamedType.read
  let directives ← node.directives
  let selections ← node.optionalWithin "selectionSet" fun set _ => SelectionSet.read set
  return ⟨typeCondition?, directives, selections.getD []⟩
termination_by (sizeOf json, 0)

end

/-- The selections made on a node, none where it has no selection set. -/
def Tagged.selections {json : Json} (node : Tagged json) : Reading SelectionSet :=
  (·.getD []) <$> node.optional "selectionSet" SelectionSet.read

/-! ## Definitions -/

/-- A variable of an operation, by its node. -/
def VariableDefinition.ofTagged {json : Json} (node : Tagged json) :
    Reading VariableDefinition := do
  let var ← node.required "variable" Variable.read
  let type ← node.required "type" TypeRef.read
  let default? ← node.optional "defaultValue" Value.read
  let directives ← node.directives
  return ⟨var, type, default?, directives⟩

/-- A variable of an operation. -/
def VariableDefinition.read (json : Json) : Reading VariableDefinition :=
  Tagged.expect .variableDefinition json >>= ofTagged

/-- An operation, by its node. -/
def OperationDefinition.ofTagged {json : Json} (node : Tagged json) :
    Reading OperationDefinition := do
  let operation ← node.required "operation" OperationKind.read
  let name? ← node.name? "name"
  let variableDefinitions ← node.list "variableDefinitions" VariableDefinition.read
  let directives ← node.directives
  let selections ← node.selections
  return ⟨operation, name?, variableDefinitions, directives, selections⟩

/-- An operation. -/
def OperationDefinition.read (json : Json) : Reading OperationDefinition :=
  Tagged.expect .operationDefinition json >>= ofTagged

/-- A named fragment, by its node. -/
def FragmentDefinition.ofTagged {json : Json} (node : Tagged json) :
    Reading FragmentDefinition := do
  let name ← node.name "name"
  let typeCondition ← node.required "typeCondition" NamedType.read
  let directives ← node.directives
  let selections ← node.selections
  return ⟨name, typeCondition, directives, selections⟩

/-- A named fragment. -/
def FragmentDefinition.read (json : Json) : Reading FragmentDefinition :=
  Tagged.expect .fragmentDefinition json >>= ofTagged

end GraphQLText
