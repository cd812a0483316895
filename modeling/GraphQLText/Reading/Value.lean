import GraphQLText.Reading.Basic
import GraphQLText.Tree.Value
import GraphQLText.Tree.TypeRef

/-!
# Reading values, directives and types

The readers of the parts below the selections.  Each type has a `read` for a JSON value and,
where nodes of several kinds or readers need it, an `ofTagged` for one whose kind has been
checked.  The readers of values and of types call themselves on smaller JSON values.
-/

namespace GraphQLText

/-! ## Leaves -/

/-- A variable, by its node. -/
def Variable.ofTagged {json : Json} (node : Tagged json) : Reading Variable :=
  .mk <$> node.name "name"

/-- A variable. -/
def Variable.read (json : Json) : Reading Variable :=
  Tagged.expect .var json >>= ofTagged

/-- A string value, by its node. -/
def StringValue.ofTagged {json : Json} (node : Tagged json) : Reading StringValue := do
  let value ← node.text "value"
  return ⟨value, node.flag "block"⟩

/-- A string value. -/
def StringValue.read (json : Json) : Reading StringValue :=
  Tagged.expect .stringValue json >>= ofTagged

/-- The description of a node. -/
def Tagged.description? {json : Json} (node : Tagged json) : Reading (Option StringValue) :=
  node.optional "description" StringValue.read

/-- The truth value of a node, which has to be one. -/
def Tagged.truth {json : Json} (_ : Tagged json) : Reading Bool :=
  match json.member? "value" with
  | some (.bool value) => .ok value
  | _ => .error .notATruthValue

/-- A named type, by its node. -/
def NamedType.ofTagged {json : Json} (node : Tagged json) : Reading NamedType :=
  .mk <$> node.name "name"

/-- A named type. -/
def NamedType.read (json : Json) : Reading NamedType :=
  Tagged.expect .namedType json >>= ofTagged

/-! ## Values -/

mutual

/-- A value. -/
def Value.read (json : Json) : Reading Value :=
  Tagged.of json >>= fun node => Value.ofTagged node
termination_by (sizeOf json, 1)

/-- A value, by its node. -/
def Value.ofTagged {json : Json} (node : Tagged json) : Reading Value :=
  match node.kind with
  | .var => .var <$> Variable.read json
  | .intValue => .int <$> node.text "value"
  | .floatValue => .float <$> node.text "value"
  | .stringValue => .string <$> StringValue.read json
  | .booleanValue => .boolean <$> node.truth
  | .nullValue => .ok .null
  | .enumValue => .enum <$> node.text "value"
  | .listValue => .list <$> node.listWithin "values" fun item _ => Value.read item
  | .objectValue => .object <$> node.listWithin "fields" fun item _ => ObjectField.read item
  | kind => .error (.wrongFamily .value kind)
termination_by (sizeOf json, 0)

/-- A field of an object literal. -/
def ObjectField.read (json : Json) : Reading ObjectField :=
  Tagged.expect .objectField json >>= fun node => ObjectField.ofTagged node
termination_by (sizeOf json, 1)

/-- A field of an object literal, by its node. -/
def ObjectField.ofTagged {json : Json} (node : Tagged json) : Reading ObjectField := do
  let name ← node.name "name"
  let value ← node.requiredWithin "value" fun value _ => Value.read value
  return ⟨name, value⟩
termination_by (sizeOf json, 0)

end

/-! ## Named values -/

/-- An argument, by its node. -/
def Argument.ofTagged {json : Json} (node : Tagged json) : Reading Argument := do
  let name ← node.name "name"
  let value ← node.required "value" Value.read
  return ⟨name, value⟩

/-- An argument. -/
def Argument.read (json : Json) : Reading Argument :=
  Tagged.expect .argument json >>= ofTagged

/-- A directive, by its node. -/
def Directive.ofTagged {json : Json} (node : Tagged json) : Reading Directive := do
  let name ← node.name "name"
  let arguments ← node.list "arguments" Argument.read
  return ⟨name, arguments⟩

/-- A directive. -/
def Directive.read (json : Json) : Reading Directive :=
  Tagged.expect .directive json >>= ofTagged

/-- The directives that are applied to a node. -/
def Tagged.directives {json : Json} (node : Tagged json) : Reading (List Directive) :=
  node.list "directives" Directive.read

/-! ## Types -/

mutual

/-- A type reference. -/
def TypeRef.read (json : Json) : Reading TypeRef :=
  Tagged.of json >>= fun node => TypeRef.ofTagged node
termination_by (sizeOf json, 1)

/-- A type reference, by its node. -/
def TypeRef.ofTagged {json : Json} (node : Tagged json) : Reading TypeRef :=
  match node.kind with
  | .namedType => .named <$> NamedType.read json
  | .listType => .list <$> node.requiredWithin "type" fun inner _ => TypeRef.read inner
  | .nonNullType => .nonNull <$> node.requiredWithin "type" fun inner _ => TypeRef.read inner
  | kind => .error (.wrongFamily .type kind)
termination_by (sizeOf json, 0)

end

end GraphQLText
