import GraphQLText.Layout.Value
import GraphQLText.Tree.TypeSystem

/-!
# Printing the type system

The printing rules of the members of type system definitions and of declarations.  The
`body` of a described member is its text without the description, and its `layout` has the
description on the lines before.
-/

namespace GraphQLText

open Layout

/-- The layout of a root operation type. -/
def OperationTypeDefinition.layout (d : OperationTypeDefinition) : Layout :=
  named d.operation.text d.type.layout

namespace InputValueDefinition

/-- The layout of an input value, without its description. -/
def body (d : InputValueDefinition) : Layout :=
  named d.name d.type.layout ++ led " = " (d.default?.elim [] Value.layout) ++
    led " " (applied d.directives)

/-- The layout of an input value. -/
def layout (d : InputValueDefinition) : Layout := described d.description? d.body

end InputValueDefinition

/-- The arguments that a field or directive takes. -/
def Layout.parameters (ds : List InputValueDefinition) : Layout :=
  enclosed "(" (glue ", " (ds.map InputValueDefinition.layout)) ")"

namespace FieldDefinition

/-- The layout of a field of a type, without its description. -/
def body (d : FieldDefinition) : Layout :=
  word d.name ++ parameters d.arguments ++
    (led ": " d.type.layout ++ led " " (applied d.directives))

/-- The layout of a field of a type. -/
def layout (d : FieldDefinition) : Layout := described d.description? d.body

end FieldDefinition

namespace EnumValueDefinition

/-- The layout of a value of an enum, without its description. -/
def body (d : EnumValueDefinition) : Layout := word d.name ++ led " " (applied d.directives)

/-- The layout of a value of an enum. -/
def layout (d : EnumValueDefinition) : Layout := described d.description? d.body

end EnumValueDefinition

namespace DirectiveDefinition

/-- The layout of the definition of a directive, without its description. -/
def body (d : DirectiveDefinition) : Layout :=
  led "directive @" (word d.name) ++ parameters d.arguments ++
    (if d.repeatable then led " " (word "repeatable") else []) ++
    led " on " (glue " | " (d.locations.map fun l => word l.text))

/-- The layout of the definition of a directive. -/
def layout (d : DirectiveDefinition) : Layout := described d.description? d.body

end DirectiveDefinition

/-- The members of a declaration between its braces. -/
def Layout.members (parts : List Layout) : Layout :=
  enclosed " \x7b " (glue ", " parts) " \x7d"

/-- The declaration of a type with fields, after the mark that introduces it. -/
def Layout.fieldsType (introducer name : String) (interfaces : List NamedType)
    (ds : List Directive) (fields : List FieldDefinition) : Layout :=
  led introducer (word name) ++
    led " implements " (glue " & " (interfaces.map NamedType.layout)) ++
    led " " (applied ds) ++ members (fields.map FieldDefinition.layout)

/-- The layout of a declaration. -/
def Declaration.layout : Declaration → Layout
  | .schema ds operationTypes =>
    word "schema" ++ led " " (applied ds) ++
      members (operationTypes.map OperationTypeDefinition.layout)
  | .scalar name ds => led "scalar " (word name) ++ led " " (applied ds)
  | .object name interfaces ds fields => fieldsType "type " name interfaces ds fields
  | .interface name interfaces ds fields => fieldsType "interface " name interfaces ds fields
  | .union name ds types =>
    led "union " (word name) ++ led " " (applied ds) ++
      led " = " (glue " | " (types.map NamedType.layout))
  | .enum name ds values =>
    led "enum " (word name) ++ led " " (applied ds) ++
      members (values.map EnumValueDefinition.layout)
  | .inputObject name ds fields =>
    led "input " (word name) ++ led " " (applied ds) ++
      members (fields.map InputValueDefinition.layout)

end GraphQLText
