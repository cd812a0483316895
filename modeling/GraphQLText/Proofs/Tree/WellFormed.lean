import GraphQLText.Proofs.Grammar.Token
import GraphQLText.Tree.Node

/-!
# Well-formed trees

The trees that the grammar has a text for: names are names and numbers are numbers, a variable
stands only where a constant is not asked for, and what must not be empty is not.  `constant`
says whether a value is in a place for constants.  Descriptions and strings are arbitrary.
-/

namespace GraphQLText

open Grammar

/-! ## Values, directives and types -/

mutual

/-- A value that can be written, in a place for constants or not. -/
def Value.WellFormed (constant : Bool) : Value → Prop
  | .var v => constant = false ∧ IsName v.name
  | .string _ => True
  | .float text => IsFloatValue text
  | .int text => IsIntValue text
  | .boolean _ => True
  | .enum name => IsEnumName name
  | .list items => Value.AllWellFormed constant items
  | .object fields => ObjectField.AllWellFormed constant fields
  | .null => True

/-- A field of an object literal that can be written. -/
def ObjectField.WellFormed (constant : Bool) : ObjectField → Prop
  | ⟨name, value⟩ => IsName name ∧ value.WellFormed constant

/-- Several values that can be written. -/
def Value.AllWellFormed (constant : Bool) : List Value → Prop
  | [] => True
  | v :: vs => v.WellFormed constant ∧ Value.AllWellFormed constant vs

/-- Several fields that can be written. -/
def ObjectField.AllWellFormed (constant : Bool) : List ObjectField → Prop
  | [] => True
  | f :: fs => f.WellFormed constant ∧ ObjectField.AllWellFormed constant fs

end

@[simp]
theorem Value.allWellFormed_iff {constant : Bool} {vs : List Value} :
  Value.AllWellFormed constant vs ↔ ∀ v ∈ vs, v.WellFormed constant
  := by
  induction vs with
  | nil => simp [Value.AllWellFormed]
  | cons v vs ih => simp [Value.AllWellFormed, ih]

@[simp]
theorem ObjectField.allWellFormed_iff {constant : Bool} {fs : List ObjectField} :
  ObjectField.AllWellFormed constant fs ↔ ∀ f ∈ fs, f.WellFormed constant
  := by
  induction fs with
  | nil => simp [ObjectField.AllWellFormed]
  | cons f fs ih => simp [ObjectField.AllWellFormed, ih]

theorem ObjectField.wellFormed_iff {constant : Bool} {f : ObjectField} :
  f.WellFormed constant ↔ IsName f.name ∧ f.value.WellFormed constant
  := by
  cases f
  exact Iff.rfl

/-- An argument that can be written. -/
structure Argument.WellFormed (constant : Bool) (a : Argument) : Prop where
  name : IsName a.name
  value : a.value.WellFormed constant

/-- A directive that can be written. -/
structure Directive.WellFormed (constant : Bool) (d : Directive) : Prop where
  name : IsName d.name
  arguments : ∀ a ∈ d.arguments, a.WellFormed constant

/-- A type reference that can be written: no two marks of non-null types in a row. -/
def TypeRef.WellFormed : TypeRef → Prop
  | .named t => IsName t.name
  | .list item => item.WellFormed
  | .nonNull t => (∀ u, t ≠ .nonNull u) ∧ t.WellFormed

/-! ## Selections and executable definitions -/

/-- The names of fragments. -/
def Grammar.IsFragmentName (text : String) : Prop := IsName text ∧ text ≠ "on"

mutual

/-- A selection that can be written. -/
def Selection.WellFormed : Selection → Prop
  | .field f => f.WellFormed
  | .fragmentSpread ⟨name, ds⟩ => IsFragmentName name ∧ ∀ d ∈ ds, d.WellFormed false
  | .inlineFragment f => f.WellFormed

/-- A field that can be written. -/
def Field.WellFormed : Field → Prop
  | ⟨alias?, name, args, ds, selections⟩ =>
    (∀ key ∈ alias?, IsName key) ∧ IsName name ∧ (∀ a ∈ args, a.WellFormed false) ∧
      (∀ d ∈ ds, d.WellFormed false) ∧ Selection.AllWellFormed selections

/-- An inline fragment that can be written. -/
def InlineFragment.WellFormed : InlineFragment → Prop
  | ⟨typeCondition?, ds, selections⟩ =>
    (∀ t ∈ typeCondition?, IsName t.name) ∧ (∀ d ∈ ds, d.WellFormed false) ∧
      selections ≠ [] ∧ Selection.AllWellFormed selections

/-- Several selections that can be written. -/
def Selection.AllWellFormed : List Selection → Prop
  | [] => True
  | s :: ss => s.WellFormed ∧ Selection.AllWellFormed ss

end

@[simp]
theorem Selection.allWellFormed_iff {ss : List Selection} :
  Selection.AllWellFormed ss ↔ ∀ s ∈ ss, s.WellFormed
  := by
  induction ss with
  | nil => simp [Selection.AllWellFormed]
  | cons s ss ih => simp [Selection.AllWellFormed, ih]

theorem Field.WellFormed.selections {f : Field} (h : f.WellFormed) :
  ∀ s ∈ f.selections, s.WellFormed
  := by
  cases f
  exact Selection.allWellFormed_iff.mp h.2.2.2.2

theorem InlineFragment.WellFormed.selections {f : InlineFragment} (h : f.WellFormed) :
  ∀ s ∈ f.selections, s.WellFormed
  := by
  cases f
  exact Selection.allWellFormed_iff.mp h.2.2.2

/-- A variable of an operation that can be written. -/
structure VariableDefinition.WellFormed (d : VariableDefinition) : Prop where
  name : IsName d.var.name
  type : d.type.WellFormed
  default : ∀ v ∈ d.default?, v.WellFormed true
  directives : ∀ a ∈ d.directives, a.WellFormed true

/-- An operation that can be written. -/
structure OperationDefinition.WellFormed (d : OperationDefinition) : Prop where
  name : ∀ name ∈ d.name?, IsName name
  inputs : ∀ v ∈ d.variableDefinitions, v.WellFormed
  directives : ∀ a ∈ d.directives, a.WellFormed false
  selects : d.selections ≠ []
  selections : ∀ s ∈ d.selections, s.WellFormed

/-- A named fragment that can be written. -/
structure FragmentDefinition.WellFormed (d : FragmentDefinition) : Prop where
  name : IsFragmentName d.name
  typeCondition : IsName d.typeCondition.name
  directives : ∀ a ∈ d.directives, a.WellFormed false
  selects : d.selections ≠ []
  selections : ∀ s ∈ d.selections, s.WellFormed

/-! ## The type system -/

/-- A root operation type that can be written. -/
def OperationTypeDefinition.WellFormed (d : OperationTypeDefinition) : Prop :=
  IsName d.type.name

/-- An input value that can be written. -/
structure InputValueDefinition.WellFormed (d : InputValueDefinition) : Prop where
  name : IsName d.name
  type : d.type.WellFormed
  default : ∀ v ∈ d.default?, v.WellFormed true
  directives : ∀ a ∈ d.directives, a.WellFormed true

/-- A field of a type that can be written. -/
structure FieldDefinition.WellFormed (d : FieldDefinition) : Prop where
  name : IsName d.name
  arguments : ∀ a ∈ d.arguments, a.WellFormed
  type : d.type.WellFormed
  directives : ∀ a ∈ d.directives, a.WellFormed true

/-- A value of an enum that can be written. -/
structure EnumValueDefinition.WellFormed (d : EnumValueDefinition) : Prop where
  name : IsEnumName d.name
  directives : ∀ a ∈ d.directives, a.WellFormed true

/-- The definition of a directive that can be written. -/
structure DirectiveDefinition.WellFormed (d : DirectiveDefinition) : Prop where
  name : IsName d.name
  arguments : ∀ a ∈ d.arguments, a.WellFormed
  located : d.locations ≠ []

/-- A declaration whose parts can be written. -/
def Declaration.WellFormed : Declaration → Prop
  | .schema ds types => (∀ a ∈ ds, a.WellFormed true) ∧ ∀ t ∈ types, t.WellFormed
  | .scalar name ds => IsName name ∧ ∀ a ∈ ds, a.WellFormed true
  | .object name interfaces ds fields
  | .interface name interfaces ds fields =>
    IsName name ∧ (∀ t ∈ interfaces, IsName t.name) ∧ (∀ a ∈ ds, a.WellFormed true) ∧
      ∀ f ∈ fields, f.WellFormed
  | .union name ds types =>
    IsName name ∧ (∀ a ∈ ds, a.WellFormed true) ∧ ∀ t ∈ types, IsName t.name
  | .enum name ds values =>
    IsName name ∧ (∀ a ∈ ds, a.WellFormed true) ∧ ∀ v ∈ values, v.WellFormed
  | .inputObject name ds fields =>
    IsName name ∧ (∀ a ∈ ds, a.WellFormed true) ∧ ∀ f ∈ fields, f.WellFormed

/-- A declaration that can be a definition: a schema has a root operation type. -/
def Declaration.Defines : Declaration → Prop
  | .schema _ types => types ≠ []
  | _ => True

/-- A declaration that can be an extension, since it says something. -/
def Declaration.Extends : Declaration → Prop
  | .schema ds types => ds ≠ [] ∨ types ≠ []
  | .scalar _ ds => ds ≠ []
  | .object _ interfaces ds fields
  | .interface _ interfaces ds fields => interfaces ≠ [] ∨ ds ≠ [] ∨ fields ≠ []
  | .union _ ds types => ds ≠ [] ∨ types ≠ []
  | .enum _ ds values => ds ≠ [] ∨ values ≠ []
  | .inputObject _ ds fields => ds ≠ [] ∨ fields ≠ []

instance : DecidablePred Declaration.Defines
  | .schema _ types => inferInstanceAs (Decidable (types ≠ []))
  | .scalar .. | .object .. | .interface .. | .union .. | .enum .. | .inputObject .. =>
    .isTrue trivial

instance : DecidablePred Declaration.Extends
  | .schema ds types => inferInstanceAs (Decidable (ds ≠ [] ∨ types ≠ []))
  | .scalar _ ds => inferInstanceAs (Decidable (ds ≠ []))
  | .object _ interfaces ds fields
  | .interface _ interfaces ds fields =>
    inferInstanceAs (Decidable (interfaces ≠ [] ∨ ds ≠ [] ∨ fields ≠ []))
  | .union _ ds types => inferInstanceAs (Decidable (ds ≠ [] ∨ types ≠ []))
  | .enum _ ds values => inferInstanceAs (Decidable (ds ≠ [] ∨ values ≠ []))
  | .inputObject _ ds fields => inferInstanceAs (Decidable (ds ≠ [] ∨ fields ≠ []))

/-! ## Definitions -/

/-- Whether a definition belongs to an executable document. -/
def Definition.IsExecutable : Definition → Prop
  | .operation _ | .fragment _ => True
  | _ => False

/-- Whether a definition belongs to a description of a type system. -/
def Definition.IsTypeSystem : Definition → Prop
  | .define .. | .directive _ | .extend _ => True
  | _ => False

/-- A definition that can be written. -/
def Definition.WellFormed : Definition → Prop
  | .operation d => d.WellFormed
  | .fragment d => d.WellFormed
  | .define _ d => d.WellFormed ∧ d.Defines
  | .directive d => d.WellFormed
  | .extend d => d.WellFormed ∧ d.Extends

/-- A document that can be written: it has definitions, and each of them can be written. -/
structure Document.WellFormed (d : Document) : Prop where
  defines : d.definitions ≠ []
  definitions : ∀ x ∈ d.definitions, x.WellFormed

end GraphQLText
