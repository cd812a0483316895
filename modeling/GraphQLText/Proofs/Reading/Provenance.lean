import GraphQLText.Proofs.Reading.Respects

/-!
# Where errors come from

An error of a reader is about something that is really in its input.  The label of which no kind
is known is that of an object of the input, at some depth, and the piece of JSON that an error
shows is the beginning of the text of a value of the input (`AnyReader.error_of_input`).  For a
reader and its input, equality of values that occur in the input is a simulation, so that no
reader is ever led out of what it was given.
-/

namespace GraphQLText

open Json

/-! ## What occurs in a value -/

/-- A value is an item of an array or what is found at a key of an object. -/
inductive Json.HasPart : Json → Json → Prop where
  | item {items : List Json} {part : Json} (h : part ∈ items) : HasPart (.array items) part
  | member {json part : Json} {key : String} (h : json.member? key = some part) :
      HasPart json part

/-- A value occurs in another at some depth, or is the value itself. -/
def Json.Contains : Json → Json → Prop := Relation.ReflTransGen Json.HasPart

variable {root json json' : Json}

theorem Json.Contains.field {value : Json} {key : String} (h : root.Contains json)
    (hvalue : json.field? key = some value) :
  root.Contains value
  := h.tail (.member (member?_eq_of_field? hvalue))

/-- Two values are the same value of an input. -/
def Json.SameWithin (root json json' : Json) : Prop := json' = json ∧ root.Contains json

theorem Json.rel_field?_of_contains (h : root.Contains json) (key : String) :
  Option.Rel root.SameWithin (json.field? key) (json.field? key)
  := by
  cases hvalue : json.field? key with
  | none => exact .none
  | some value => exact .some ⟨rfl, h.field hvalue⟩

theorem Json.simulation_sameWithin (root : Json) :
  Simulation root.SameWithin
  := by
  constructor
  case shape =>
    rintro _ json ⟨rfl, h⟩
    cases json with
    | null => exact .null
    | bool value => exact .bool value
    | number value => exact .number value
    | string value => exact .string value
    | array items =>
      apply SameShape.array
      apply List.forall₂_same.mpr
      intro item hitem
      exact ⟨rfl, h.tail (.item hitem)⟩
    | object members => exact .object members members
  case tag =>
    rintro _ json ⟨rfl, h⟩
    exact rel_field?_of_contains h "kind"
  case field =>
    rintro _ json kind key ⟨rfl, h⟩ - -
    exact rel_field?_of_contains h key

/-! ## Errors -/

/-- An error about values of an input reports the label of no kind, which an object of the input
has, or shows nothing but a value of the input. -/
theorem ReadError.Matches.of_input {e e' : ReadError} (h : e.Matches root.SameWithin e') :
  (∃ object label, e = .unknownKind label ∧ root.Contains object ∧
    object.member? "kind" = some (.string label) ∧ ∀ kind : Kind, kind.label ≠ label) ∨
  e.rejection = .invalidNode ∧ ∀ found, e.found? = some found → root.Contains found
  := by
  cases h with
  | @unknownKind object _ label h hlabel hunknown =>
    left
    exact ⟨object, label, rfl, h.2, hlabel, hunknown⟩
  | notAnObject h | strayDescription _ h | wrongKind _ _ h | notAList _ h | notAText _ h
  | notAnOperation h =>
    right
    use rfl
    rintro found ⟨⟩
    exact h.2
  | untagged | wrongFamily | missing | notATruthValue | notAKeyword =>
    right
    use rfl
    rintro found ⟨⟩

theorem AnyReader.matches_sameWithin (r : AnyReader) (json : Json) :
  Reading.Matches json.SameWithin (r.read json) (r.read json)
  := (simulation_sameWithin json).read r ⟨rfl, .refl⟩

/-- Every error of a reader is about its input.  Either it says that no kind has a label, and
shows nothing: then the label is the tag of an object that occurs in the input.  Or it says that
a node is invalid, and what it shows, if anything, is the first 80 characters of the compact text
of a value that occurs in the input.  An input in which all tags are labels of kinds is thus
never refused for a kind that is not known. -/
theorem AnyReader.error_of_input (r : AnyReader) (json : Json) :
  (∀ e, r.read json = .error e →
    (e.rejection = .unknownKind ∧ e.diagnostic.context? = none ∧
      ∃ object label, json.Contains object ∧ object.member? "kind" = some (.string label) ∧
        (∀ kind : Kind, kind.label ≠ label) ∧
        e.message = "No printer exists for node kind '" ++ label ++ "'") ∨
    (e.rejection = .invalidNode ∧
      ∀ context, e.diagnostic.context? = some context →
        ∃ value, json.Contains value ∧ context.toList = value.compact.toList.take 80)) ∧
  ((∀ object label, json.Contains object → object.member? "kind" = some (.string label) →
      ∃ kind : Kind, kind.label = label) →
    ∀ e, r.read json = .error e → e.rejection = .invalidNode)
  := by
  have horigin : ∀ e, r.read json = .error e → e.Matches json.SameWithin e := by
    intro e he
    have h := r.matches_sameWithin json
    rw [he] at h
    cases h with
    | error h => exact h
  constructor
  · intro e he
    rcases (horigin e he).of_input with
      ⟨object, label, rfl, hobject, hlabel, hunknown⟩ | ⟨hinvalid, hfound⟩
    · left
      exact ⟨rfl, rfl, object, label, hobject, hlabel, hunknown, rfl⟩
    · right
      use hinvalid
      intro context hcontext
      obtain ⟨found, hvalue, rfl⟩ := Option.map_eq_some_iff.mp hcontext
      exact ⟨found, hfound found hvalue, String.toList_ofList⟩
  · intro hknown e he
    rcases (horigin e he).of_input with
      ⟨object, label, rfl, hobject, hlabel, hunknown⟩ | ⟨hinvalid, -⟩
    · obtain ⟨kind, hkind⟩ := hknown object label hobject hlabel
      exact absurd hkind (hunknown kind)
    · exact hinvalid

/-- A document whose second definition has a misspelt kind. -/
def misspeltDocument : Json :=
  .object [("definitions", .array [.object [("kind", .string "SchemaDefinition")],
    .object [("kind", .string "SchemaDefinitoin")]]), ("kind", .string "Document")]

/-- The document is refused for the label of an object in it. -/
theorem AnyReader.error_of_misspeltDocument :
  Node.read misspeltDocument = .error (.unknownKind "SchemaDefinitoin") ∧
  ∃ object label, misspeltDocument.Contains object ∧
    object.member? "kind" = some (.string label) ∧ (∀ kind : Kind, kind.label ≠ label) ∧
    ReadError.message (.unknownKind "SchemaDefinitoin") =
      "No printer exists for node kind '" ++ label ++ "'"
  := by
  use rfl
  rcases (AnyReader.error_of_input .node misspeltDocument).1 _ rfl with
    ⟨-, -, hobject⟩ | ⟨hinvalid, -⟩
  · exact hobject
  · contradiction

end GraphQLText
