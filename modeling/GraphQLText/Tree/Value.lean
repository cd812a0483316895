import GraphQLText.Kind
import GraphQLText.StringLiteral.Basic

/-!
# Values, arguments and directives

The input values of a GraphQL document, and the named values that are passed to fields and
directives.  Names, numbers and enum values are kept as the text by which they are written.
Equality is that of the trees; `Value.same` decides it.
-/

namespace GraphQLText

/-- A variable, written with a dollar sign before its name. -/
structure Variable where
  name : String
deriving DecidableEq, Repr

mutual

/-- An input value. -/
inductive Value where
  | var (v : Variable)
  | string (s : StringValue)
  /-- A floating point literal, by its text. -/
  | float (text : String)
  /-- An integer literal, by its text. -/
  | int (text : String)
  | boolean (value : Bool)
  /-- An enum value, by its name. -/
  | enum (name : String)
  | list (items : List Value)
  | object (fields : List ObjectField)
  | null

/-- A named value in an object literal. -/
structure ObjectField where
  name : String
  value : Value

end

/-! ## Equality -/

mutual

/-- Whether two values are the same tree. -/
def Value.same : Value → Value → Bool
  | .var v, .var w => v = w
  | .string s, .string t => s = t
  | .float s, .float t => s = t
  | .int s, .int t => s = t
  | .boolean b, .boolean c => b = c
  | .enum n, .enum m => n = m
  | .list items, .list others => Value.sameAll items others
  | .object fields, .object others => ObjectField.sameAll fields others
  | .null, .null => true
  | _, _ => false

/-- Whether two fields are the same tree. -/
def ObjectField.same : ObjectField → ObjectField → Bool
  | ⟨n, v⟩, ⟨m, w⟩ => n = m && Value.same v w

/-- Whether two lists hold the same values in the same order. -/
def Value.sameAll : List Value → List Value → Bool
  | [], [] => true
  | v :: vs, w :: ws => Value.same v w && Value.sameAll vs ws
  | _, _ => false

/-- Whether two lists hold the same fields in the same order. -/
def ObjectField.sameAll : List ObjectField → List ObjectField → Bool
  | [], [] => true
  | f :: fs, g :: gs => ObjectField.same f g && ObjectField.sameAll fs gs
  | _, _ => false

end

mutual

theorem Value.same_iff (v w : Value) :
  Value.same v w = true ↔ v = w
  := by
  cases v with
  | list items => cases w <;> simp [Value.same, Value.sameAll_iff items]
  | object fields => cases w <;> simp [Value.same, ObjectField.sameAll_iff fields]
  | _ => cases w <;> simp [Value.same]

theorem ObjectField.same_iff (f g : ObjectField) :
  ObjectField.same f g = true ↔ f = g
  := by
  obtain ⟨n, v⟩ := f
  obtain ⟨m, w⟩ := g
  simp [ObjectField.same, Value.same_iff v]

theorem Value.sameAll_iff (vs ws : List Value) :
  Value.sameAll vs ws = true ↔ vs = ws
  := by
  cases vs with
  | nil => cases ws <;> simp [Value.sameAll]
  | cons v vs => cases ws <;> simp [Value.sameAll, Value.same_iff v, Value.sameAll_iff vs]

theorem ObjectField.sameAll_iff (fs gs : List ObjectField) :
  ObjectField.sameAll fs gs = true ↔ fs = gs
  := by
  cases fs with
  | nil => cases gs <;> simp [ObjectField.sameAll]
  | cons f fs =>
    cases gs <;> simp [ObjectField.sameAll, ObjectField.same_iff f, ObjectField.sameAll_iff fs]

end

instance : DecidableEq Value := fun v w => decidable_of_iff _ (Value.same_iff v w)

instance : DecidableEq ObjectField := fun f g => decidable_of_iff _ (ObjectField.same_iff f g)

/-! ## Named values -/

/-- A named value passed to a field or directive. -/
structure Argument where
  name : String
  value : Value
deriving DecidableEq

/-- A directive that is applied to a node. -/
structure Directive where
  name : String
  arguments : List Argument
deriving DecidableEq

/-- The directive without arguments. -/
def Directive.ofName (name : String) : Directive := ⟨name, []⟩

/-- The kind of a value. -/
def Value.kind : Value → Kind
  | .var _ => .var
  | .string _ => .stringValue
  | .float _ => .floatValue
  | .int _ => .intValue
  | .boolean _ => .booleanValue
  | .enum _ => .enumValue
  | .list _ => .listValue
  | .object _ => .objectValue
  | .null => .nullValue

end GraphQLText
