import GraphQLText.StringLiteral.Quoted
import GraphQLText.StringLiteral.Block

/-!
# String values

A string value is the string that it denotes together with the wish to have it written as a
block literal.  The wish is granted where the string has a placement in one; all other
strings are written quoted, so that the literal always denotes the string.
-/

namespace GraphQLText

/-- A string value.  The string is the one denoted, without any escapes. -/
structure StringValue where
  value : String
  block : Bool
deriving DecidableEq, Repr

namespace StringValue

/-- A string to be written quoted. -/
def quoted (value : String) : StringValue := ⟨value, false⟩

/-- A string to be written as a block. -/
def ofBlock (value : String) : StringValue := ⟨value, true⟩

/-- The placement of the string in a block literal, unless it is written quoted. -/
def placement? (s : StringValue) : Option Block.Placement :=
  if s.block then Block.placement? s.value.toList else none

/-- The characters of the literal. -/
def chars (s : StringValue) : List Char :=
  match s.placement? with
  | some placement => Block.encode placement s.value.toList
  | none => Quoted.encode s.value.toList

/-- The literal. -/
def text (s : StringValue) : String := String.ofList s.chars

end StringValue

end GraphQLText
