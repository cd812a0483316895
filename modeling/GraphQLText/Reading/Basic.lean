import GraphQLText.Reading.Error
import GraphQLText.Tree.Keyword

/-!
# Reading fields

The readers of the parts that all nodes have in common.  A node is a JSON object that is
tagged by its kind, and `Tagged.of` checks the tag before anything else is read; a `Tagged`
value is one that has passed the check, and holds the proof that it is a node.  Its fields
are read by key: required or optional, one node or a list of them, where `null` counts as
missing and a missing list as empty.  The readers with a bound hand a proof that the value
read is smaller than the node on to the reader of that value, for readers that are recursive.
-/

namespace GraphQLText

/-- The outcome of reading. -/
abbrev Reading := Except ReadError

/-- An object whose tag is the label of a kind. -/
def Json.HasKind (json : Json) (kind : Kind) : Prop :=
  json.member? "kind" = some (.string kind.label)

/-- A node of a kind: an object with the label of the kind, and with a description only if
the kind takes one. -/
structure Json.IsNode (json : Json) (kind : Kind) : Prop where
  object : json.isObject
  label : json.HasKind kind
  undescribed : kind.takesDescription ∨ json.field? "description" = none

/-- A JSON value that is a node, by its kind. -/
structure Tagged (json : Json) where
  kind : Kind
  isNode : json.IsNode kind

/-- The values read from several items, in order, up to the first that is refused.  The
reader is handed a proof of what is known of each item. -/
def readAll {α : Type} {P : Json → Prop} (read : (item : Json) → P item → Reading α) :
    (items : List Json) → (∀ item ∈ items, P item) → Reading (List α)
  | [], _ => .ok []
  | item :: rest, h => do
    let value ← read item (h item List.mem_cons_self)
    let values ← readAll read rest fun other hmem => h other (List.mem_cons_of_mem item hmem)
    return value :: values

/-- What is read from a value that may be `null`. -/
def readOptional {α : Type} (read : Json → Reading α) : Json → Reading (Option α)
  | .null => .ok none
  | json => some <$> read json

namespace Tagged

/-- The kind that the tag of an object names. -/
def kindOf (json : Json) : Reading { kind : Kind // json.HasKind kind } :=
  match hlabel : json.member? "kind" with
  | some (.string label) =>
    match hkind : Kind.ofLabel? label with
    | some kind => .ok ⟨kind, by rw [Json.HasKind, hlabel, Kind.label_eq_of_ofLabel? hkind]⟩
    | none => .error (.unknownKind label)
  | _ => .error .untagged

/-- The node that an object is, unless it has a description that its kind cannot take. -/
def ofKind {json : Json} (hobject : json.isObject) :
    { kind : Kind // json.HasKind kind } → Reading (Tagged json)
  | ⟨kind, hkind⟩ =>
    match h : json.field? "description" with
    | some description =>
      if htakes : kind.takesDescription then .ok ⟨kind, hobject, hkind, .inl htakes⟩
      else .error (.strayDescription kind description)
    | none => .ok ⟨kind, hobject, hkind, .inr h⟩

/-- The node that a JSON value is. -/
def of (json : Json) : Reading (Tagged json) :=
  if hobject : json.isObject then kindOf json >>= ofKind hobject
  else .error (.notAnObject json)

/-- The node that a JSON value is, if it is of the given kind. -/
def expect (kind : Kind) (json : Json) : Reading (Tagged json) := do
  let node ← of json
  if node.kind = kind then return node else throw (.wrongKind kind node.kind json)

variable {json : Json} {α : Type}

/-! ## Fields by key -/

/-- A field that has to be there. -/
def requiredWithin (node : Tagged json) (key : String)
    (read : (value : Json) → sizeOf value < sizeOf json → Reading α) : Reading α :=
  match h : json.field? key with
  | some value => read value (Json.sizeOf_lt_of_field? h)
  | none => .error (.missing node.kind key)

/-- A field that may be missing. -/
def optionalWithin (_ : Tagged json) (key : String)
    (read : (value : Json) → sizeOf value < sizeOf json → Reading α) : Reading (Option α) :=
  match h : json.field? key with
  | some value => some <$> read value (Json.sizeOf_lt_of_field? h)
  | none => .ok none

/-- The list of nodes in a field, which is empty where the field is missing. -/
def listWithin (_ : Tagged json) (key : String)
    (read : (item : Json) → sizeOf item < sizeOf json → Reading α) : Reading (List α) :=
  match h : json.field? key with
  | some (.array items) =>
    readAll read items fun _ hmem =>
      Nat.lt_trans (Json.sizeOf_lt_of_mem_items hmem) (Json.sizeOf_lt_of_field? h)
  | some other => .error (.notAList key other)
  | none => .ok []

/-- A field that has to be there. -/
def required (node : Tagged json) (key : String) (read : Json → Reading α) : Reading α :=
  node.requiredWithin key fun value _ => read value

/-- A field that may be missing. -/
def optional (node : Tagged json) (key : String) (read : Json → Reading α) :
    Reading (Option α) :=
  node.optionalWithin key fun value _ => read value

/-- The list of nodes in a field, which is empty where the field is missing. -/
def list (node : Tagged json) (key : String) (read : Json → Reading α) : Reading (List α) :=
  node.listWithin key fun item _ => read item

/-! ## Texts and flags -/

/-- The text in a field: a string, or a number, which stands for the text by which it is
written. -/
def text (node : Tagged json) (key : String) : Reading String :=
  node.required key fun
    | .string text => .ok text
    | .number n => .ok n.text
    | other => .error (.notAText key other)

/-- Whether a field is `true`; anything else counts as `false`. -/
def flag (_ : Tagged json) (key : String) : Bool :=
  match json.member? key with
  | some (.bool value) => value
  | _ => false

end Tagged

/-! ## Names and keywords -/

/-- A name: a string, or a node that holds one. -/
def readName : Json → Reading String
  | .string name => .ok name
  | json => do
    let node ← Tagged.expect .name json
    node.text "value"

/-- The name in a field. -/
def Tagged.name {json : Json} (node : Tagged json) (key : String) : Reading String :=
  node.required key readName

/-- The name in a field that may be missing. -/
def Tagged.name? {json : Json} (node : Tagged json) (key : String) : Reading (Option String) :=
  node.optional key readName

/-- The member of a closed set that a word stands for. -/
def readKeyword {α : Type} (ofText? : String → Option α) (word : String) : Reading α :=
  match ofText? word with
  | some k => .ok k
  | none => .error (.notAKeyword word)

/-- The kind of an operation. -/
def OperationKind.read : Json → Reading OperationKind
  | .string word => readKeyword OperationKind.ofText? word
  | other => .error (.notAnOperation other)

/-- A location, by its name. -/
def DirectiveLocation.read (json : Json) : Reading DirectiveLocation :=
  readName json >>= readKeyword DirectiveLocation.ofText?

end GraphQLText
