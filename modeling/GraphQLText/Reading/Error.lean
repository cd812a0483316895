import GraphQLText.Json.Text
import GraphQLText.Kind
import GraphQLText.Reading.Diagnostic

/-!
# Errors of reading

The causes for which a JSON value is refused as a node, each with what it is about.
`ReadError.diagnostic` is what is said about a cause; the wording stands here and nowhere
else.  Where a cause points at a value of the input, the diagnostic shows its snippet.
-/

namespace GraphQLText

/-- The families of kinds of which a place may require one. -/
inductive Family where
  | value
  | type
  | selection
  | definition
deriving DecidableEq, Repr

/-- The name of a member of a family, with its article. -/
def Family.member : Family → String
  | .value => "a value node"
  | .type => "a type node"
  | .selection => "a selection"
  | .definition => "a definition"

/-- Why a JSON value is refused. -/
inductive ReadError where
  /-- A node is no object. -/
  | notAnObject (found : Json)
  /-- A node has no kind that is a string. -/
  | untagged
  /-- The kind of a node is not known. -/
  | unknownKind (label : String)
  /-- A node of a kind that takes no description has one. -/
  | strayDescription (kind : Kind) (description : Json)
  /-- A node of one kind stands in the place of another. -/
  | wrongKind (expected received : Kind) (found : Json)
  /-- A node stands in a place for another family. -/
  | wrongFamily (expected : Family) (received : Kind)
  /-- A required field is missing. -/
  | missing (kind : Kind) (key : String)
  /-- A field that is to hold several nodes is no array. -/
  | notAList (key : String) (found : Json)
  /-- A field that is to hold a text is neither a string nor a number. -/
  | notAText (key : String) (found : Json)
  /-- A truth value has none. -/
  | notATruthValue
  /-- The kind of an operation is no string. -/
  | notAnOperation (found : Json)
  /-- A word is not among those that may stand in its place. -/
  | notAKeyword (word : String)
deriving Repr

namespace ReadError

/-- What is wrong. -/
def message : ReadError → String
  | .notAnObject _ => "Expected a node object"
  | .untagged => "Node is missing its 'kind' tag"
  | .unknownKind label => "No printer exists for node kind '" ++ label ++ "'"
  | .strayDescription kind _ => kind.label ++ " can't carry a description"
  | .wrongKind expected received _ =>
    "Expected " ++ expected.label ++ " node but received " ++ received.label
  | .wrongFamily expected received =>
    "Expected " ++ expected.member ++ " but received " ++ received.label
  | .missing kind key => kind.label ++ " is missing its required '" ++ key ++ "' field"
  | .notAList key _ => "Expected '" ++ key ++ "' to be a list"
  | .notAText key _ => "Expected '" ++ key ++ "' to be a string"
  | .notATruthValue => "BooleanValue requires a boolean 'value'"
  | .notAnOperation _ => "Expected an operation keyword"
  | .notAKeyword word => "'" ++ word ++ "' is not a valid keyword here"

/-- The way in which the node is rejected. -/
def rejection : ReadError → Rejection
  | .unknownKind _ => .unknownKind
  | _ => .invalidNode

/-- The value of the input that is at fault, where the error points at one. -/
def found? : ReadError → Option Json
  | .notAnObject found => some found
  | .strayDescription _ description => some description
  | .wrongKind _ _ found => some found
  | .notAList _ found => some found
  | .notAText _ found => some found
  | .notAnOperation found => some found
  | _ => none

/-- What is said about an error. -/
def diagnostic (e : ReadError) : Diagnostic :=
  ⟨e.rejection, e.message, e.found?.map Json.snippet⟩

end ReadError

end GraphQLText
