/-!
# Block strings

The literal of a string between triple quotes.  Who reads a block literal takes away the
indentation that all lines but the first have in common, and the blank lines at both ends.
`Block.placement?` places the string so that this leaves it intact: on a line of its own,
where some line is flush left and so nothing is in common, or right behind the opening
quotes, where the first line keeps its indentation.  Some strings have neither, and no block
literal is written for them.
-/

namespace GraphQLText.Block

/-- The two places where the text of a block literal begins. -/
inductive Placement where
  /-- Right behind the opening quotes. -/
  | inline
  /-- On a line of its own. -/
  | ownLine
deriving DecidableEq, Repr

/-- Whether a character indents a line. -/
def isIndent (c : Char) : Bool := c = ' ' ∨ c = '\t'

/-- Whether a character cannot stand in a block literal as itself and be read back. -/
def isControl (c : Char) : Bool := c.toNat < 0x20 ∧ c ≠ '\t' ∧ c ≠ '\n'

/-- The first line of a string and the lines after it. -/
def lines : List Char → List Char × List (List Char)
  | [] => ([], [])
  | c :: rest =>
    let (first, others) := lines rest
    if c = '\n' then ([], first :: others) else (c :: first, others)

/-- Whether a line holds indentation only. -/
def isBlank (line : List Char) : Bool := line.all isIndent

/-- The number of characters that indent a line. -/
def indent (line : List Char) : Nat := (line.takeWhile isIndent).length

/-- The indentation that the non-blank lines among the given ones have in common, if there
are any. -/
def commonIndent? (ls : List (List Char)) : Option Nat :=
  ((ls.filter fun line => !isBlank line).map indent).min?

/-- Where a non-empty string of the given lines is placed. -/
def linesPlacement? (first : List Char) (others : List (List Char)) : Option Placement :=
  if isBlank first ∨ isBlank (others.getLastD first) then none
  else
    match indent first, commonIndent? others with
    | 0, _ => some .ownLine
    | _, some 0 => some .ownLine
    | _, none => some .inline
    | _, some _ => none

/-- Where a block literal has to place a string for it to be read back. -/
def placement? (s : List Char) : Option Placement :=
  if s.any isControl then none
  else if s = [] then some .inline
  else linesPlacement? (lines s).1 (lines s).2

/-- The string with a backslash before each three quotes, from left to right. -/
def escapeTriples : List Char → List Char
  | '"' :: '"' :: '"' :: rest => '\\' :: '"' :: '"' :: '"' :: escapeTriples rest
  | c :: rest => c :: escapeTriples rest
  | [] => []

/-- The block literal of a string, placed as given. -/
def encode (placement : Placement) (s : List Char) : List Char :=
  let opening :=
    match placement with
    | .inline => ['"', '"', '"']
    | .ownLine => ['"', '"', '"', '\n']
  opening ++ escapeTriples s ++ ['\n', '"', '"', '"']

end GraphQLText.Block
