import GraphQLText.Proofs.Reading.Basic
import GraphQLText.Tree.Node

/-!
# The JSON form of a tree

`Node.Represents json n` says that a JSON value represents a node: it is an object with the
label of the kind of the node, and each of its keys holds what the node has there.  `Fields`
says the latter for each type of node.  Keys that are not mentioned may hold anything.
-/

namespace GraphQLText

open Json

/-! ## Leaves -/

/-- The fields of a variable. -/
def Variable.Fields (json : Json) (v : Variable) : Prop := json.HasName "name" v.name

/-- A variable. -/
def Variable.Represents (json : Json) (v : Variable) : Prop :=
  json.IsNode .var ∧ v.Fields json

/-- The fields of a string value. -/
structure StringValue.Fields (json : Json) (s : StringValue) : Prop where
  value : json.HasText "value" s.value
  block : s.block = true ↔ json.HasFlag "block"

/-- A string value. -/
def StringValue.Represents (json : Json) (s : StringValue) : Prop :=
  json.IsNode .stringValue ∧ s.Fields json

/-- The fields of a named type. -/
def NamedType.Fields (json : Json) (t : NamedType) : Prop := json.HasName "name" t.name

/-- A named type. -/
def NamedType.Represents (json : Json) (t : NamedType) : Prop :=
  json.IsNode .namedType ∧ t.Fields json

/-- The description of a node that takes one. -/
def HasDescription (json : Json) (description? : Option StringValue) : Prop :=
  json.HasOptional "description" StringValue.Represents description?

/-! ## Values and directives -/

mutual

/-- The fields of a value. -/
def Value.Fields : Json → Value → Prop
  | json, .var v => v.Fields json
  | json, .string s => s.Fields json
  | json, .float text => json.HasText "value" text
  | json, .int text => json.HasText "value" text
  | json, .boolean value => json.member? "value" = some (.bool value)
  | json, .enum name => json.HasText "value" name
  | json, .list values => ∃ items, json.HasItems "values" items ∧ Value.RepresentsAll items values
  | json, .object fields =>
    ∃ items, json.HasItems "fields" items ∧ ObjectField.RepresentsAll items fields
  | _, .null => True

/-- The fields of a field of an object literal. -/
def ObjectField.Fields : Json → ObjectField → Prop
  | json, ⟨name, value⟩ =>
    json.HasName "name" name ∧
      json.Has "value" fun item => item.IsNode value.kind ∧ Value.Fields item value

/-- Several values. -/
def Value.RepresentsAll : List Json → List Value → Prop
  | [], [] => True
  | item :: items, v :: vs =>
    (item.IsNode v.kind ∧ Value.Fields item v) ∧ Value.RepresentsAll items vs
  | _, _ => False

/-- Several fields of an object literal. -/
def ObjectField.RepresentsAll : List Json → List ObjectField → Prop
  | [], [] => True
  | item :: items, f :: fs =>
    (item.IsNode .objectField ∧ ObjectField.Fields item f) ∧ ObjectField.RepresentsAll items fs
  | _, _ => False

end

/-- A value. -/
def Value.Represents (json : Json) (v : Value) : Prop := json.IsNode v.kind ∧ v.Fields json

/-- A field of an object literal. -/
def ObjectField.Represents (json : Json) (f : ObjectField) : Prop :=
  json.IsNode .objectField ∧ f.Fields json

/-- The fields of an argument. -/
structure Argument.Fields (json : Json) (a : Argument) : Prop where
  name : json.HasName "name" a.name
  value : json.Has "value" (Value.Represents · a.value)

/-- An argument. -/
def Argument.Represents (json : Json) (a : Argument) : Prop :=
  json.IsNode .argument ∧ a.Fields json

/-- The fields of a directive. -/
structure Directive.Fields (json : Json) (d : Directive) : Prop where
  name : json.HasName "name" d.name
  arguments : json.HasList "arguments" Argument.Represents d.arguments

/-- A directive. -/
def Directive.Represents (json : Json) (d : Directive) : Prop :=
  json.IsNode .directive ∧ d.Fields json

/-- The directives that are applied to a node. -/
def HasDirectives (json : Json) (ds : List Directive) : Prop :=
  json.HasList "directives" Directive.Represents ds

/-! ## Types -/

/-- The fields of a type reference. -/
def TypeRef.Fields : Json → TypeRef → Prop
  | json, .named t => t.Fields json
  | json, .list item => json.Has "type" fun inner => inner.IsNode item.kind ∧ item.Fields inner
  | json, .nonNull t => json.Has "type" fun inner => inner.IsNode t.kind ∧ t.Fields inner

/-- A type reference. -/
def TypeRef.Represents (json : Json) (t : TypeRef) : Prop := json.IsNode t.kind ∧ t.Fields json

/-! ## Selections -/

/-- The fields of the spread of a fragment. -/
structure FragmentSpread.Fields (json : Json) (s : FragmentSpread) : Prop where
  name : json.HasName "name" s.name
  directives : HasDirectives json s.directives

/-- The spread of a fragment. -/
def FragmentSpread.Represents (json : Json) (s : FragmentSpread) : Prop :=
  json.IsNode .fragmentSpread ∧ s.Fields json

/-- The items of the selection set of a node; there are none where it is missing. -/
def Json.HasSelections (json : Json) (items : List Json) : Prop :=
  json.Has "selectionSet" (fun set => set.IsNode .selectionSet ∧ set.HasItems "selections" items) ∨
    json.field? "selectionSet" = none ∧ items = []

mutual

/-- The fields of a selection. -/
def Selection.Fields : Json → Selection → Prop
  | json, .field f => Field.Fields json f
  | json, .fragmentSpread s => s.Fields json
  | json, .inlineFragment f => InlineFragment.Fields json f

/-- The fields of a selected field. -/
def Field.Fields : Json → Field → Prop
  | json, ⟨alias?, name, args, ds, selections⟩ =>
    json.HasOptional "alias" IsName alias? ∧ json.HasName "name" name ∧
      json.HasList "arguments" Argument.Represents args ∧ HasDirectives json ds ∧
      ∃ items, json.HasSelections items ∧ Selection.RepresentsAll items selections

/-- The fields of an inline fragment. -/
def InlineFragment.Fields : Json → InlineFragment → Prop
  | json, ⟨typeCondition?, ds, selections⟩ =>
    json.HasOptional "typeCondition" NamedType.Represents typeCondition? ∧
      HasDirectives json ds ∧
      ∃ items, json.HasSelections items ∧ Selection.RepresentsAll items selections

/-- Several selections. -/
def Selection.RepresentsAll : List Json → List Selection → Prop
  | [], [] => True
  | item :: items, s :: ss =>
    (item.IsNode s.kind ∧ Selection.Fields item s) ∧ Selection.RepresentsAll items ss
  | _, _ => False

end

/-- A selection. -/
def Selection.Represents (json : Json) (s : Selection) : Prop :=
  json.IsNode s.kind ∧ s.Fields json

/-- A selected field. -/
def Field.Represents (json : Json) (f : Field) : Prop := json.IsNode .field ∧ f.Fields json

/-- An inline fragment. -/
def InlineFragment.Represents (json : Json) (f : InlineFragment) : Prop :=
  json.IsNode .inlineFragment ∧ f.Fields json

/-- The fields of a selection set. -/
def SelectionSet.Fields (json : Json) (ss : SelectionSet) : Prop :=
  json.HasList "selections" Selection.Represents ss

/-- A selection set. -/
def SelectionSet.Represents (json : Json) (ss : SelectionSet) : Prop :=
  json.IsNode .selectionSet ∧ SelectionSet.Fields json ss

/-- The selections made on a node. -/
def Selections (json : Json) (ss : SelectionSet) : Prop :=
  ∃ items, json.HasSelections items ∧ List.Forall₂ Selection.Represents items ss

/-! ## Executable definitions -/

/-- The fields of a variable of an operation. -/
structure VariableDefinition.Fields (json : Json) (d : VariableDefinition) : Prop where
  var : json.Has "variable" (Variable.Represents · d.var)
  type : json.Has "type" (TypeRef.Represents · d.type)
  default : json.HasOptional "defaultValue" Value.Represents d.default?
  directives : HasDirectives json d.directives

/-- A variable of an operation. -/
def VariableDefinition.Represents (json : Json) (d : VariableDefinition) : Prop :=
  json.IsNode .variableDefinition ∧ d.Fields json

/-- The fields of an operation. -/
structure OperationDefinition.Fields (json : Json) (d : OperationDefinition) : Prop where
  operation : json.Has "operation" (· = .string d.operation.text)
  name : json.HasOptional "name" IsName d.name?
  variableDefinitions :
    json.HasList "variableDefinitions" VariableDefinition.Represents d.variableDefinitions
  directives : HasDirectives json d.directives
  selections : Selections json d.selections

/-- An operation. -/
def OperationDefinition.Represents (json : Json) (d : OperationDefinition) : Prop :=
  json.IsNode .operationDefinition ∧ d.Fields json

/-- The fields of a named fragment. -/
structure FragmentDefinition.Fields (json : Json) (d : FragmentDefinition) : Prop where
  name : json.HasName "name" d.name
  typeCondition : json.Has "typeCondition" (NamedType.Represents · d.typeCondition)
  directives : HasDirectives json d.directives
  selections : Selections json d.selections

/-- A named fragment. -/
def FragmentDefinition.Represents (json : Json) (d : FragmentDefinition) : Prop :=
  json.IsNode .fragmentDefinition ∧ d.Fields json

/-! ## The type system -/

/-- The fields of a root operation type. -/
structure OperationTypeDefinition.Fields (json : Json) (d : OperationTypeDefinition) : Prop where
  operation : json.Has "operation" (· = .string d.operation.text)
  type : json.Has "type" (NamedType.Represents · d.type)

/-- A root operation type. -/
def OperationTypeDefinition.Represents (json : Json) (d : OperationTypeDefinition) : Prop :=
  json.IsNode .operationTypeDefinition ∧ d.Fields json

/-- The fields of an input value. -/
structure InputValueDefinition.Fields (json : Json) (d : InputValueDefinition) : Prop where
  description : HasDescription json d.description?
  name : json.HasName "name" d.name
  type : json.Has "type" (TypeRef.Represents · d.type)
  default : json.HasOptional "defaultValue" Value.Represents d.default?
  directives : HasDirectives json d.directives

/-- An input value. -/
def InputValueDefinition.Represents (json : Json) (d : InputValueDefinition) : Prop :=
  json.IsNode .inputValueDefinition ∧ d.Fields json

/-- The fields of a field of a type. -/
structure FieldDefinition.Fields (json : Json) (d : FieldDefinition) : Prop where
  description : HasDescription json d.description?
  name : json.HasName "name" d.name
  arguments : json.HasList "arguments" InputValueDefinition.Represents d.arguments
  type : json.Has "type" (TypeRef.Represents · d.type)
  directives : HasDirectives json d.directives

/-- A field of a type. -/
def FieldDefinition.Represents (json : Json) (d : FieldDefinition) : Prop :=
  json.IsNode .fieldDefinition ∧ d.Fields json

/-- The fields of a value of an enum. -/
structure EnumValueDefinition.Fields (json : Json) (d : EnumValueDefinition) : Prop where
  description : HasDescription json d.description?
  name : json.HasName "name" d.name
  directives : HasDirectives json d.directives

/-- A value of an enum. -/
def EnumValueDefinition.Represents (json : Json) (d : EnumValueDefinition) : Prop :=
  json.IsNode .enumValueDefinition ∧ d.Fields json

/-- The fields of the definition of a directive. -/
structure DirectiveDefinition.Fields (json : Json) (d : DirectiveDefinition) : Prop where
  description : HasDescription json d.description?
  name : json.HasName "name" d.name
  arguments : json.HasList "arguments" InputValueDefinition.Represents d.arguments
  repeatable : d.repeatable = true ↔ json.HasFlag "repeatable"
  locations : json.HasList "locations" (fun item l => item.IsName l.text) d.locations

/-- The definition of a directive. -/
def DirectiveDefinition.Represents (json : Json) (d : DirectiveDefinition) : Prop :=
  json.IsNode .directiveDefinition ∧ d.Fields json

/-- The fields of a declaration. -/
def Declaration.Fields (json : Json) : Declaration → Prop
  | .schema ds types =>
    HasDirectives json ds ∧
      json.HasList "operationTypes" OperationTypeDefinition.Represents types
  | .scalar name ds => json.HasName "name" name ∧ HasDirectives json ds
  | .object name interfaces ds fields
  | .interface name interfaces ds fields =>
    json.HasName "name" name ∧
      json.HasList "interfaces" NamedType.Represents interfaces ∧
      HasDirectives json ds ∧ json.HasList "fields" FieldDefinition.Represents fields
  | .union name ds types =>
    json.HasName "name" name ∧ HasDirectives json ds ∧
      json.HasList "types" NamedType.Represents types
  | .enum name ds values =>
    json.HasName "name" name ∧ HasDirectives json ds ∧
      json.HasList "values" EnumValueDefinition.Represents values
  | .inputObject name ds fields =>
    json.HasName "name" name ∧ HasDirectives json ds ∧
      json.HasList "fields" InputValueDefinition.Represents fields

/-! ## Definitions and nodes -/

/-- The fields of a definition. -/
def Definition.Fields (json : Json) : Definition → Prop
  | .operation d => d.Fields json
  | .fragment d => d.Fields json
  | .define description? d => HasDescription json description? ∧ d.Fields json
  | .directive d => d.Fields json
  | .extend d => d.Fields json

/-- A definition. -/
def Definition.Represents (json : Json) (d : Definition) : Prop :=
  json.IsNode d.kind ∧ d.Fields json

/-- The fields of a document. -/
def Document.Fields (json : Json) (d : Document) : Prop :=
  json.HasList "definitions" Definition.Represents d.definitions

/-- A document. -/
def Document.Represents (json : Json) (d : Document) : Prop :=
  json.IsNode .document ∧ d.Fields json

/-- The fields of a node. -/
def Node.Fields (json : Json) : Node → Prop
  | .name text => json.HasText "value" text
  | .document d => d.Fields json
  | .definition d => d.Fields json
  | .variableDefinition d => d.Fields json
  | .selectionSet ss => SelectionSet.Fields json ss
  | .selection s => s.Fields json
  | .argument a => a.Fields json
  | .value v => v.Fields json
  | .objectField f => f.Fields json
  | .directive d => d.Fields json
  | .type t => t.Fields json
  | .operationType d => d.Fields json
  | .fieldDefinition d => d.Fields json
  | .inputValue d => d.Fields json
  | .enumValue d => d.Fields json

/-- A node of any kind. -/
def Node.Represents (json : Json) (n : Node) : Prop := json.IsNode n.kind ∧ n.Fields json

end GraphQLText
