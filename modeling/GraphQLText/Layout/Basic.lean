import GraphQLText.StringLiteral.Basic

/-!
# Layouts

A layout is the printed form of a part of a document before its characters are strung
together: a list of pieces, each a mark that a printing rule contributes, a word of the
document or a string literal.  No piece of a layout made here is without text, so a part
prints to nothing exactly when its layout is empty, and then it counts as absent: `led` and
`enclosed` drop the marks around an absent part, and `glue` passes over it.  With these
three every printing rule is a plain concatenation, and no mark ever stands beside a
missing part.
-/

namespace GraphQLText

/-- A piece of printed text. -/
inductive Piece where
  /-- A fixed text of a printing rule. -/
  | mark (text : String)
  /-- A name, number or keyword of the document. -/
  | word (text : String)
  /-- The literal of a string. -/
  | literal (s : StringValue)
deriving DecidableEq, Repr

/-- The text of a piece. -/
def Piece.text : Piece → String
  | .mark text => text
  | .word text => text
  | .literal s => s.text

/-- The pieces of a printed part, from left to right. -/
abbrev Layout := List Piece

namespace Layout

/-- The characters of all pieces. -/
def text (l : Layout) : String := String.join (l.map Piece.text)

@[simp]
theorem text_nil :
  text [] = ""
  := rfl

@[simp]
theorem text_append (l m : Layout) :
  text (l ++ m) = text l ++ text m
  := by
  simp [text, String.join_append]

/-- The layout of a mark. -/
def mark (text : String) : Layout := if text = "" then [] else [.mark text]

/-- The layout of a word. -/
def word (text : String) : Layout := if text = "" then [] else [.word text]

/-- The layout of a word that may be missing. -/
def word? (text? : Option String) : Layout := text?.elim [] word

/-- The layout of a string literal. -/
def literal (s : StringValue) : Layout := [.literal s]

/-- A part between two marks, which are dropped with it. -/
def enclosed (lead : String) (part : Layout) (close : String) : Layout :=
  if part = [] then [] else mark lead ++ part ++ mark close

/-- A part after a mark, which is dropped with it. -/
def led (lead : String) (part : Layout) : Layout := if part = [] then [] else mark lead ++ part

/-- The parts that are present, with a mark between each two. -/
def glue (separator : String) : List Layout → Layout
  | [] => []
  | part :: rest =>
    if part = [] then glue separator rest else part ++ led separator (glue separator rest)

/-- A part with its description on the lines before it. -/
def described (description? : Option StringValue) (body : Layout) : Layout :=
  description?.elim [] (fun s => literal s ++ mark "\n") ++ body

@[simp]
theorem mark_empty :
  mark "" = []
  := rfl

@[simp]
theorem led_nil (lead : String) :
  led lead [] = []
  := rfl

@[simp]
theorem enclosed_nil (lead close : String) :
  enclosed lead [] close = []
  := rfl

@[simp]
theorem word?_none :
  word? none = []
  := rfl

@[simp]
theorem word?_some (text : String) :
  word? (some text) = word text
  := rfl

@[simp]
theorem described_none (body : Layout) :
  described none body = body
  := rfl

end Layout

end GraphQLText
