import GraphQLText.Layout.Executable
import GraphQLText.Layout.TypeSystem
import GraphQLText.Tree.Node

/-!
# Printing definitions, documents and nodes

The printing rules at the top.  An extension prints as its declaration behind a word of its
own, a document as its definitions with a blank line between each two.  `Node.layout` is
the body of a node under its description, and `Node.text` is the text of that.
-/

namespace GraphQLText

open Layout

namespace Definition

/-- The layout of a definition, without its description. -/
def body : Definition → Layout
  | .operation d => d.layout
  | .fragment d => d.layout
  | .define _ d => d.layout
  | .directive d => d.body
  | .extend d => mark "extend " ++ d.layout

/-- The layout of a definition. -/
def layout (d : Definition) : Layout := described d.description? d.body

end Definition

/-- The layout of a document. -/
def Document.layout (d : Document) : Layout := glue "\n\n" (d.definitions.map Definition.layout)

namespace Node

/-- The layout of a node, without its description. -/
def body : Node → Layout
  | .name text => word text
  | .document d => d.layout
  | .definition d => d.body
  | .variableDefinition d => d.layout
  | .selectionSet s => s.layout
  | .selection s => s.layout
  | .argument a => a.layout
  | .value v => v.layout
  | .objectField f => f.layout
  | .directive d => d.layout
  | .type t => t.layout
  | .operationType d => d.layout
  | .fieldDefinition d => d.body
  | .inputValue d => d.body
  | .enumValue d => d.body

/-- The layout of a node. -/
def layout (n : Node) : Layout := described n.description? n.body

/-- The printed text of a node. -/
def text (n : Node) : String := n.layout.text

end Node

end GraphQLText
