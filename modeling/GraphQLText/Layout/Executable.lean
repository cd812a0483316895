import GraphQLText.Layout.Value
import GraphQLText.Tree.Executable

/-!
# Printing selections, operations and fragments

The printing rules of executable documents.  An empty selection set prints to nothing, so
the braces around the selections of a leaf do not appear; the one of an operation follows
without a space.
-/

namespace GraphQLText

open Layout

/-- A selection set with the given parts. -/
def Layout.braced (parts : List Layout) : Layout := enclosed "\x7b " (glue ", " parts) " \x7d"

/-- The layout of the spread of a fragment. -/
def FragmentSpread.layout (s : FragmentSpread) : Layout :=
  led "..." (word s.name) ++ led " " (applied s.directives)

mutual

/-- The layout of a selection. -/
def Selection.layout : Selection → Layout
  | .field f => f.layout
  | .fragmentSpread s => s.layout
  | .inlineFragment f => f.layout

/-- The layout of a field. -/
def Field.layout : Field → Layout
  | ⟨alias?, name, args, ds, selections⟩ =>
    enclosed "" (word? alias?) ": " ++
      (word name ++ enclosed "(" (glue ", " (args.map Argument.layout)) ")") ++
      (led " " (applied ds) ++ led " " (braced (Selection.layouts selections)))

/-- The layout of an inline fragment. -/
def InlineFragment.layout : InlineFragment → Layout
  | ⟨typeCondition?, ds, selections⟩ =>
    mark "..." ++ led " on " (typeCondition?.elim [] NamedType.layout) ++
      (led " " (applied ds) ++ led " " (braced (Selection.layouts selections)))

/-- The layouts of several selections. -/
def Selection.layouts : List Selection → List Layout
  | [] => []
  | s :: ss => s.layout :: Selection.layouts ss

end

@[simp]
theorem Selection.layouts_eq_map (ss : List Selection) :
  Selection.layouts ss = ss.map Selection.layout
  := by
  induction ss with
  | nil => rfl
  | cons s ss ih => simp [Selection.layouts, ih]

/-- The layout of a selection set. -/
def SelectionSet.layout (s : SelectionSet) : Layout := braced (s.map Selection.layout)

/-- The layout of a variable of an operation. -/
def VariableDefinition.layout (d : VariableDefinition) : Layout :=
  d.var.layout ++ led ": " d.type.layout ++ led " = " (d.default?.elim [] Value.layout) ++
    led " " (applied d.directives)

/-- The layout of an operation.  Its keyword is always printed. -/
def OperationDefinition.layout (d : OperationDefinition) : Layout :=
  word d.operation.text ++ led " " (word? d.name?) ++
    enclosed "(" (glue ", " (d.variableDefinitions.map VariableDefinition.layout)) ")" ++
    led " " (applied d.directives) ++ SelectionSet.layout d.selections

/-- The layout of a named fragment. -/
def FragmentDefinition.layout (d : FragmentDefinition) : Layout :=
  led "fragment " (word d.name) ++ led " on " d.typeCondition.layout ++
    led " " (applied d.directives) ++ led " " (SelectionSet.layout d.selections)

end GraphQLText
