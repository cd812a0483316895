import GraphQLText.Tree.Edit

/-!
# Assembling trees

Trees are assembled on a stack of nodes, the top first.  A step pushes a node, puts a node
around those on top or edits the top; `Step.apply?` is the stack after a step, and is
undefined where the stack does not hold what the step needs.
-/

namespace GraphQLText

/-- A step of an assembly. -/
inductive Step where
  /-- A new node goes on top. -/
  | push (node : Node)
  /-- The value on top becomes an argument. -/
  | argument (name : String)
  /-- The value on top becomes a field of an object literal. -/
  | objectField (name : String)
  /-- The type on top, below its default value if there is one, becomes a variable. -/
  | variableDefinition (name : String) (hasDefault : Bool)
  /-- The type on top becomes a list. -/
  | list
  /-- The type on top becomes non-null. -/
  | nonNull
  /-- The type on top loses all wrappers. -/
  | innermost
  /-- The node on top goes into the one below. -/
  | append
  /-- The field on top gets another alias. -/
  | rename (alias? : Option String)
  /-- The node on top gets another description. -/
  | describe (description? : Option StringValue)
  /-- The extension on top becomes a definition. -/
  | retag
  /-- The node on top is there twice. -/
  | dup
  /-- The node on top goes. -/
  | pop
  /-- The two nodes on top change places. -/
  | swap

/-- The nodes of an assembly, the top first. -/
abbrev Stack := List Node

namespace Stack

/-- The stack with its top changed. -/
def mapTop? (f : Node → Option Node) : Stack → Option Stack
  | top :: rest => (f top).map (· :: rest)
  | [] => none

/-- Whether the two nodes on top are the same tree. -/
def compareTop? : Stack → Option Bool
  | a :: b :: _ => some (a = b)
  | _ => none

end Stack

/-- The stack after a step. -/
def Step.apply? : Step → Stack → Option Stack
  | .push node, stack => some (node :: stack)
  | .argument name, .value v :: rest => some (.argument ⟨name, v⟩ :: rest)
  | .objectField name, .value v :: rest => some (.objectField ⟨name, v⟩ :: rest)
  | .variableDefinition name true, .value v :: .type t :: rest =>
    some (.variableDefinition ⟨⟨name⟩, t, some v, []⟩ :: rest)
  | .variableDefinition name false, .type t :: rest =>
    some (.variableDefinition ⟨⟨name⟩, t, none, []⟩ :: rest)
  | .list, stack => Stack.mapTop? (Node.mapType? .list) stack
  | .nonNull, stack => Stack.mapTop? (Node.mapType? .nonNull) stack
  | .innermost, stack => Stack.mapTop? (Node.mapType? fun t => .named t.innermost) stack
  | .append, child :: parent :: rest => (parent.append? child).map (· :: rest)
  | .rename alias?, stack => Stack.mapTop? (Node.rename? alias?) stack
  | .describe description?, stack => Stack.mapTop? (Node.describe? description?) stack
  | .retag, stack => Stack.mapTop? Node.retag? stack
  | .dup, top :: rest => some (top :: top :: rest)
  | .pop, _ :: rest => some rest
  | .swap, a :: b :: rest => some (b :: a :: rest)
  | _, _ => none

end GraphQLText
