import GraphQLText.Layout.Basic
import GraphQLText.Tree.Value
import GraphQLText.Tree.TypeRef

/-!
# Printing values, directives and types

The printing rules for the parts below the selections: values and what holds them, and type
references.  The brackets of list and object literals are always printed, the parentheses
around arguments only when there are any.
-/

namespace GraphQLText

open Layout

/-- A variable after its dollar sign, which is printed even before an empty name. -/
def Variable.layout (v : Variable) : Layout := mark "$" ++ word v.name

/-- A name and, after a colon, the part that it names. -/
def Layout.named (name : String) (part : Layout) : Layout := word name ++ led ": " part

/-- The word of a truth value. -/
def Layout.truth (value : Bool) : Layout := word (if value then "true" else "false")

mutual

/-- The layout of a value. -/
def Value.layout : Value → Layout
  | .var v => v.layout
  | .string s => literal s
  | .float text => word text
  | .int text => word text
  | .boolean value => truth value
  | .enum name => word name
  | .list items => mark "[" ++ glue ", " (Value.layouts items) ++ mark "]"
  | .object fields => mark "\x7b" ++ glue ", " (ObjectField.layouts fields) ++ mark "\x7d"
  | .null => word "null"

/-- The layout of a field of an object literal. -/
def ObjectField.layout : ObjectField → Layout
  | ⟨name, value⟩ => named name value.layout

/-- The layouts of several values. -/
def Value.layouts : List Value → List Layout
  | [] => []
  | v :: vs => v.layout :: Value.layouts vs

/-- The layouts of several fields. -/
def ObjectField.layouts : List ObjectField → List Layout
  | [] => []
  | f :: fs => f.layout :: ObjectField.layouts fs

end

@[simp]
theorem Value.layouts_eq_map (vs : List Value) :
  Value.layouts vs = vs.map Value.layout
  := by
  induction vs with
  | nil => rfl
  | cons v vs ih => simp [Value.layouts, ih]

@[simp]
theorem ObjectField.layouts_eq_map (fs : List ObjectField) :
  ObjectField.layouts fs = fs.map ObjectField.layout
  := by
  induction fs with
  | nil => rfl
  | cons f fs ih => simp [ObjectField.layouts, ih]

/-- The layout of an argument. -/
def Argument.layout (a : Argument) : Layout := named a.name a.value.layout

/-- The layout of a directive. -/
def Directive.layout (d : Directive) : Layout :=
  led "@" (word d.name) ++ enclosed "(" (glue ", " (d.arguments.map Argument.layout)) ")"

/-- The directives that are applied to a node. -/
def Layout.applied (ds : List Directive) : Layout := glue " " (ds.map Directive.layout)

/-- The layout of a named type. -/
def NamedType.layout (t : NamedType) : Layout := word t.name

/-- The layout of a type reference. -/
def TypeRef.layout : TypeRef → Layout
  | .named t => t.layout
  | .list item => enclosed "[" item.layout "]"
  | .nonNull t => enclosed "" t.layout "!"

end GraphQLText
