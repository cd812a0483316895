import GraphQLText.Number.Basic

/-!
# JSON values

`Json` is the type of JSON values.  An object is the list of its members; `Json.text` and
the reader of JSON texts keep it in the order of its keys, each key once, which
`Json.insertMember` maintains.  `Json.member?` looks a key up and `Json.field?` does the
same with a `null` member counting as missing; what either finds is smaller than the
object, and so is every item of an array, which is what recursion on JSON values rests on.
-/

namespace GraphQLText

/-- A JSON value. -/
inductive Json where
  | null
  | bool (value : Bool)
  | number (value : Number)
  | string (value : String)
  | array (items : List Json)
  | object (members : List (String × Json))
deriving Repr

namespace Json

/-- The members with `key` bound to `value`: put before the first greater key, or in the
place of an equal one. -/
def insertMember (key : String) (value : Json) : List (String × Json) → List (String × Json)
  | [] => [(key, value)]
  | (k, v) :: rest =>
    if key < k then (key, value) :: (k, v) :: rest
    else if key = k then (key, value) :: rest
    else (k, v) :: insertMember key value rest

/-- The object with the given members; a later one replaces an earlier one of its key. -/
def ofMembers (members : List (String × Json)) : Json :=
  .object (members.foldl (fun ms (key, value) => insertMember key value ms) [])

/-- Whether a value is an object. -/
def isObject : Json → Bool
  | .object _ => true
  | _ => false

/-- The value of the first member with the given key. -/
def lookup (key : String) : List (String × Json) → Option Json
  | [] => none
  | (k, v) :: rest => if k = key then some v else lookup key rest

/-- The member of an object with the given key; other values have no members. -/
def member? (key : String) : Json → Option Json
  | .object members => lookup key members
  | _ => none

/-- The member with the given key, `null` counting as missing. -/
def field? (json : Json) (key : String) : Option Json :=
  match json.member? key with
  | some .null => none
  | found => found

theorem mem_of_lookup {key : String} {members : List (String × Json)} {value : Json}
    (h : lookup key members = some value) :
  (key, value) ∈ members
  := by
  induction members with
  | nil => simp [lookup] at h
  | cons member rest ih =>
    obtain ⟨k, v⟩ := member
    rw [lookup] at h
    split at h
    case isTrue hk =>
      cases h
      simp [hk]
    case isFalse => exact List.mem_cons_of_mem _ (ih h)

theorem sizeOf_lt_of_member? {json value : Json} {key : String}
    (h : json.member? key = some value) :
  sizeOf value < sizeOf json
  := by
  cases json with
  | object members =>
    have hmem : (key, value) ∈ members := mem_of_lookup h
    have hlt := List.sizeOf_lt_of_mem hmem
    simp only [Prod.mk.sizeOf_spec] at hlt
    simp only [object.sizeOf_spec]
    omega
  | _ => simp [member?] at h

theorem member?_eq_of_field? {json value : Json} {key : String}
    (h : json.field? key = some value) :
  json.member? key = some value
  := by
  rw [field?] at h
  split at h
  case h_1 => contradiction
  case h_2 => exact h

theorem sizeOf_lt_of_field? {json value : Json} {key : String}
    (h : json.field? key = some value) :
  sizeOf value < sizeOf json
  := sizeOf_lt_of_member? (member?_eq_of_field? h)

theorem sizeOf_lt_of_mem_items {items : List Json} {item : Json} (h : item ∈ items) :
  sizeOf item < sizeOf (Json.array items)
  := by
  have hlt := List.sizeOf_lt_of_mem h
  simp only [array.sizeOf_spec]
  omega

end Json

end GraphQLText
