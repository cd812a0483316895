/-!
# Diagnostics

What is said to a person about a rejected node: one of two headings, a message and possibly
a piece of the input.  A diagnostic has a short text, which is one line where the message
is, and a long one, which shows the piece of the input on the lines after it.
-/

namespace GraphQLText

/-- The two ways in which a node is rejected. -/
inductive Rejection where
  /-- Its kind is not known. -/
  | unknownKind
  /-- It is malformed or stands where it may not. -/
  | invalidNode
deriving DecidableEq, Repr

/-- What a diagnostic begins with. -/
def Rejection.heading : Rejection → String
  | .unknownKind => "Unknown Node Kind: "
  | .invalidNode => "Invalid Node: "

/-- What is said about a rejected node. -/
structure Diagnostic where
  rejection : Rejection
  message : String
  /-- A piece of the input. -/
  context? : Option String
deriving DecidableEq, Repr

namespace Diagnostic

/-- The heading and the message. -/
def short (d : Diagnostic) : String := d.rejection.heading ++ d.message

/-- The short text, and the piece of the input on a line of its own. -/
def long (d : Diagnostic) : String :=
  match d.context? with
  | none => d.short
  | some context => d.short ++ "\n" ++ context

/-- The long text between line ends, apart from whatever it is shown with. -/
def framed (d : Diagnostic) : String := "\n" ++ d.long ++ "\n"

end Diagnostic

end GraphQLText
