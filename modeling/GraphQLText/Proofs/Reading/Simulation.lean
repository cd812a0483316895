import GraphQLText.Proofs.Reading.Position

/-!
# Readers under a relation of JSON values

A relation of JSON values is a simulation when related values have the same shape, related
objects have related tags and related nodes have related values at each key that is looked up in
nodes of their kind.  Every reader takes related values to the same tree or to errors of one
cause that are about related values.  So what bears on the outcome of reading are the keys that
are looked up and nothing else, and an error is about nothing but values to which the readers
have been led.  Here this is shown of the readers of tags and fields.
-/

namespace GraphQLText

open Json Reading

/-! ## The keys of a kind -/

namespace Kind

/-- The keys of a kind that hold a text, a keyword or a truth value. -/
def textKeys : Kind → List String
  | .name | .intValue | .floatValue | .enumValue | .booleanValue => ["value"]
  | .stringValue => ["value", "block"]
  | .operationDefinition | .operationTypeDefinition => ["operation"]
  | .directiveDefinition => ["repeatable"]
  | _ => []

/-- The keys that are looked up in a node of a kind.  A description is looked for in every node,
for a node that cannot take one is refused if it has one. -/
def keys (kind : Kind) : List String :=
  ["kind", "description"] ++ kind.nodeKeys ++ kind.listKeys ++ kind.textKeys

end Kind

/-! ## Simulations -/

/-- Values of the same shape: equal scalars, two arrays of which the items are related one by
one, or any two objects. -/
inductive Json.SameShape (R : Json → Json → Prop) : Json → Json → Prop where
  | null : SameShape R .null .null
  | bool (value : Bool) : SameShape R (.bool value) (.bool value)
  | number (value : Number) : SameShape R (.number value) (.number value)
  | string (value : String) : SameShape R (.string value) (.string value)
  | array {items items' : List Json} (h : List.Forall₂ R items items') :
      SameShape R (.array items) (.array items')
  | object (members members' : List (String × Json)) :
      SameShape R (.object members) (.object members')

/-- A relation that respects all that the readers find out about a value. -/
structure Json.Simulation (R : Json → Json → Prop) : Prop where
  shape {json json' : Json} (h : R json json') : SameShape R json json'
  tag {json json' : Json} (h : R json json') :
    Option.Rel R (json.field? "kind") (json'.field? "kind")
  field {json json' : Json} {kind : Kind} {key : String} (h : R json json')
    (hkind : json.HasKind kind) (hkey : key ∈ kind.keys) :
    Option.Rel R (json.field? key) (json'.field? key)

/-- Errors of one cause, about related values.  The label of no kind is that of an object to
which the readers have been led. -/
inductive ReadError.Matches (R : Json → Json → Prop) : ReadError → ReadError → Prop where
  | notAnObject {json json' : Json} (h : R json json') :
      Matches R (.notAnObject json) (.notAnObject json')
  | untagged : Matches R .untagged .untagged
  | unknownKind {json json' : Json} {label : String} (h : R json json')
      (hlabel : json.member? "kind" = some (.string label))
      (hunknown : ∀ kind : Kind, kind.label ≠ label) :
      Matches R (.unknownKind label) (.unknownKind label)
  | strayDescription (kind : Kind) {json json' : Json} (h : R json json') :
      Matches R (.strayDescription kind json) (.strayDescription kind json')
  | wrongKind (expected received : Kind) {json json' : Json} (h : R json json') :
      Matches R (.wrongKind expected received json) (.wrongKind expected received json')
  | wrongFamily (expected : Family) (received : Kind) :
      Matches R (.wrongFamily expected received) (.wrongFamily expected received)
  | missing (kind : Kind) (key : String) : Matches R (.missing kind key) (.missing kind key)
  | notAList (key : String) {json json' : Json} (h : R json json') :
      Matches R (.notAList key json) (.notAList key json')
  | notAText (key : String) {json json' : Json} (h : R json json') :
      Matches R (.notAText key json) (.notAText key json')
  | notATruthValue : Matches R .notATruthValue .notATruthValue
  | notAnOperation {json json' : Json} (h : R json json') :
      Matches R (.notAnOperation json) (.notAnOperation json')
  | notAKeyword (word : String) : Matches R (.notAKeyword word) (.notAKeyword word)

/-- The same outcome, or errors of one cause. -/
inductive Reading.Matches (R : Json → Json → Prop) {α : Type} : Reading α → Reading α → Prop where
  | ok (a : α) : Matches R (.ok a) (.ok a)
  | error {e e' : ReadError} (h : e.Matches R e') : Matches R (.error e) (.error e')

namespace Reading.Matches

variable {R : Json → Json → Prop} {α β : Type}

theorem bind {x y : Reading α} {f g : α → Reading β} (h : Matches R x y)
    (hfg : ∀ a, Matches R (f a) (g a)) :
  Matches R (x >>= f) (y >>= g)
  := by
  cases h with
  | ok a => exact hfg a
  | error he => exact .error he

theorem map {x y : Reading α} (f : α → β) (h : Matches R x y) :
  Matches R (f <$> x) (f <$> y)
  := by
  cases h with
  | ok a => exact .ok (f a)
  | error he => exact .error he

/-- Several related items are read alike if each of them is. -/
theorem readAll {P Q : Json → Prop} {read : Json → Reading α} {items items' : List Json}
    (h : List.Forall₂ R items items')
    (hread : ∀ item ∈ items, ∀ item', R item item' → Matches R (read item) (read item'))
    (hP : ∀ item ∈ items, P item) (hQ : ∀ item ∈ items', Q item) :
  Matches R (GraphQLText.readAll (fun item (_ : P item) => read item) items hP)
    (GraphQLText.readAll (fun item (_ : Q item) => read item) items' hQ)
  := by
  induction h with
  | nil => exact .ok []
  | cons hitem _ ih =>
    apply bind (hread _ List.mem_cons_self _ hitem)
    intro a
    apply bind
    · apply ih
      intro other hother
      exact hread other (List.mem_cons_of_mem _ hother)
    · intro as
      exact .ok (a :: as)

end Reading.Matches

/-! ## Tags -/

namespace Json

variable {R : Json → Json → Prop} {json json' : Json} {kind : Kind} {key : String}

theorem SameShape.isObject_eq (h : SameShape R json json') :
  json'.isObject = json.isObject
  := by
  cases h <;> rfl

/-- Nothing stands at a key of one of two related values just if nothing stands there in the
other. -/
theorem eq_none_iff {found? found?' : Option Json} (h : Option.Rel R found? found?') :
  found?' = none ↔ found? = none
  := by
  cases h with
  | none => rfl
  | some => simp

/-- What stands at a key of one of two related values has a partner in the other. -/
theorem exists_of_rel {found : Json} {found?' : Option Json}
    (h : Option.Rel R (some found) found?') :
  ∃ found', found?' = some found' ∧ R found found'
  := by
  cases h with
  | some h => exact ⟨_, rfl, h⟩

/-- A value that is neither an array nor an object. -/
def IsScalar : Json → Prop
  | .array _ | .object _ => False
  | _ => True

namespace Simulation

variable (hR : Simulation R)

include hR

/-- A scalar stands at a key of one of two related values just if it stands there in the
other. -/
theorem eq_some_iff {value : Json} (hvalue : value.IsScalar) {found? found?' : Option Json}
    (h : Option.Rel R found? found?') :
  found?' = some value ↔ found? = some value
  := by
  cases h with
  | none => rfl
  | some h =>
    cases hR.shape h with
    | array _ | object _ _ => constructor <;> rintro ⟨⟩ <;> contradiction
    | _ => rfl

theorem member?_eq_some_iff {value : Json} (hvalue : value.IsScalar) (hnull : value ≠ .null)
    (h : Option.Rel R (json.field? key) (json'.field? key)) :
  json'.member? key = some value ↔ json.member? key = some value
  := by
  have hfield := hR.eq_some_iff hvalue h
  simpa only [field?_eq_some_iff, hnull, ne_eq, not_false_eq_true, and_true] using hfield

theorem tag_iff (h : R json json') {label : String} :
  json'.member? "kind" = some (.string label) ↔ json.member? "kind" = some (.string label)
  := hR.member?_eq_some_iff trivial (by simp) (hR.tag h)

theorem isNode (h : R json json') (hnode : json.IsNode kind) :
  json'.IsNode kind
  := by
  refine ⟨?_, (hR.tag_iff h).mpr hnode.label, ?_⟩
  · rw [(hR.shape h).isObject_eq]
    exact hnode.object
  · rw [eq_none_iff (hR.field h hnode.label (by simp [Kind.keys]))]
    exact hnode.undescribed

/-- What is related to a value that is refused is refused for the same cause. -/
theorem exists_refused (h : R json json') {e : ReadError} (hrefused : json.Refused e) :
  ∃ e', json'.Refused e' ∧ e.Matches R e'
  := by
  have hobject' : json'.isObject = json.isObject := (hR.shape h).isObject_eq
  cases hrefused with
  | notAnObject hobject =>
    use .notAnObject json'
    exact ⟨.notAnObject (hobject' ▸ hobject), .notAnObject h⟩
  | untagged hobject htag =>
    use .untagged
    refine ⟨.untagged (hobject' ▸ hobject) ?_, .untagged⟩
    intro label hlabel
    exact htag label ((hR.tag_iff h).mp hlabel)
  | @unknownKind label hobject hlabel hunknown =>
    use .unknownKind label
    refine ⟨.unknownKind (hobject' ▸ hobject) ((hR.tag_iff h).mpr hlabel) hunknown, ?_⟩
    exact .unknownKind h hlabel hunknown
  | @strayDescription kind description hobject hkind htakes hdescription =>
    have hfield : Option.Rel R (json.field? "description") (json'.field? "description") :=
      hR.field h hkind (by simp [Kind.keys])
    rw [hdescription] at hfield
    obtain ⟨description', hdescription', hrelated⟩ := exists_of_rel hfield
    use .strayDescription kind description'
    refine ⟨?_, .strayDescription kind hrelated⟩
    exact .strayDescription (hobject' ▸ hobject) ((hR.tag_iff h).mpr hkind) htakes hdescription'

end Simulation

/-- Two related nodes of a kind. -/
structure RelatedNodes (R : Json → Json → Prop) (kind : Kind) (json json' : Json) : Prop where
  simulation : Simulation R
  related : R json json'
  isNode : json.IsNode kind

/-- The first of two related nodes. -/
abbrev RelatedNodes.node {kind : Kind} {json json' : Json} (h : RelatedNodes R kind json json') :
    Tagged json :=
  ⟨kind, h.isNode⟩

/-- The second of two related nodes. -/
abbrev RelatedNodes.node' {kind : Kind} {json json' : Json} (h : RelatedNodes R kind json json') :
    Tagged json' :=
  ⟨kind, h.simulation.isNode h.related h.isNode⟩

namespace Simulation

variable (hR : Simulation R) {α : Type}

include hR

/-- Readers of nodes of any kind. -/
theorem of_bind (h : R json json') {f : Tagged json → Reading α} {f' : Tagged json' → Reading α}
    (hf : ∀ kind, ∀ h : RelatedNodes R kind json json',
      Reading.Matches R (f h.node) (f' h.node')) :
  Reading.Matches R (Tagged.of json >>= f) (Tagged.of json' >>= f')
  := by
  rcases json.isNode_or_refused with ⟨kind, hnode⟩ | ⟨e, hrefused⟩
  · rw [hnode.of_eq_ok, (hR.isNode h hnode).of_eq_ok]
    exact hf kind ⟨hR, h, hnode⟩
  · obtain ⟨e', hrefused', he⟩ := hR.exists_refused h hrefused
    rw [Tagged.of_eq_error hrefused, Tagged.of_eq_error hrefused']
    exact .error he

/-- Readers of nodes of one kind. -/
theorem expect_bind (h : R json json') {f : Tagged json → Reading α}
    {f' : Tagged json' → Reading α}
    (hf : ∀ h : RelatedNodes R kind json json', Reading.Matches R (f h.node) (f' h.node')) :
  Reading.Matches R (Tagged.expect kind json >>= f) (Tagged.expect kind json' >>= f')
  := by
  rw [Tagged.expect, Tagged.expect, bind_assoc, bind_assoc]
  apply hR.of_bind h
  intro found hnodes
  by_cases hkind : found = kind
  · subst hkind
    simpa [pure_bind] using hf hnodes
  · simp only [hkind, if_false]
    exact .error (.wrongKind kind found h)

end Simulation

end Json

/-! ## Fields -/

/-- A reader that takes related values to the same outcome, or to errors of one cause. -/
def Respects (R : Json → Json → Prop) {α : Type} (read : Json → Reading α) : Prop :=
  ∀ ⦃json json'⦄, R json json' → Reading.Matches R (read json) (read json')

namespace Json.RelatedNodes

variable {R : Json → Json → Prop} {kind : Kind} {json json' : Json} {key : String} {α : Type}
variable (h : RelatedNodes R kind json json')

include h

theorem field (hkey : key ∈ kind.keys) :
  Option.Rel R (json.field? key) (json'.field? key)
  := h.simulation.field h.related h.isNode.label hkey

/-- A required field is read alike if the values there are, which are smaller than the nodes. -/
theorem requiredWithin (hkey : key ∈ kind.keys) {read : Json → Reading α}
    (hread : ∀ value value', sizeOf value < sizeOf json → R value value' →
      Reading.Matches R (read value) (read value')) :
  Reading.Matches R (h.node.required key read) (h.node'.required key read)
  := by
  have hfield := h.field hkey
  rw [Tagged.required_eq_match, Tagged.required_eq_match]
  cases hvalue : json.field? key with
  | none =>
    rw [hvalue] at hfield
    rw [(eq_none_iff hfield).mpr rfl]
    exact .error (.missing kind key)
  | some value =>
    rw [hvalue] at hfield
    obtain ⟨value', hvalue', hrelated⟩ := exists_of_rel hfield
    rw [hvalue']
    exact hread value value' (sizeOf_lt_of_field? hvalue) hrelated

theorem optionalWithin (hkey : key ∈ kind.keys) {read : Json → Reading α}
    (hread : ∀ value value', sizeOf value < sizeOf json → R value value' →
      Reading.Matches R (read value) (read value')) :
  Reading.Matches R (h.node.optional key read) (h.node'.optional key read)
  := by
  have hfield := h.field hkey
  rw [Tagged.optional_eq_match, Tagged.optional_eq_match]
  cases hvalue : json.field? key with
  | none =>
    rw [hvalue] at hfield
    rw [(eq_none_iff hfield).mpr rfl]
    exact .ok none
  | some value =>
    rw [hvalue] at hfield
    obtain ⟨value', hvalue', hrelated⟩ := exists_of_rel hfield
    rw [hvalue']
    exact (hread value value' (sizeOf_lt_of_field? hvalue) hrelated).map some

theorem listWithin (hkey : key ∈ kind.keys) {read : Json → Reading α}
    (hread : ∀ item item', sizeOf item < sizeOf json → R item item' →
      Reading.Matches R (read item) (read item')) :
  Reading.Matches R (h.node.list key read) (h.node'.list key read)
  := by
  have hfield := h.field hkey
  rw [Tagged.list_eq_match, Tagged.list_eq_match]
  cases hvalue : json.field? key with
  | none =>
    rw [hvalue] at hfield
    rw [(eq_none_iff hfield).mpr rfl]
    exact .ok []
  | some value =>
    rw [hvalue] at hfield
    obtain ⟨value', hvalue', hrelated⟩ := exists_of_rel hfield
    rw [hvalue']
    have hsize := sizeOf_lt_of_field? hvalue
    cases h.simulation.shape hrelated with
    | array hitems =>
      apply Reading.Matches.readAll hitems
      intro item hitem item'
      exact hread item item' (Nat.lt_trans (sizeOf_lt_of_mem_items hitem) hsize)
    | _ => exact .error (.notAList key hrelated)

theorem required (hkey : key ∈ kind.keys) {read : Json → Reading α} (hread : Respects R read) :
  Reading.Matches R (h.node.required key read) (h.node'.required key read)
  := h.requiredWithin hkey fun _ _ _ hvalue => hread hvalue

theorem optional (hkey : key ∈ kind.keys) {read : Json → Reading α} (hread : Respects R read) :
  Reading.Matches R (h.node.optional key read) (h.node'.optional key read)
  := h.optionalWithin hkey fun _ _ _ hvalue => hread hvalue

theorem list (hkey : key ∈ kind.keys) {read : Json → Reading α} (hread : Respects R read) :
  Reading.Matches R (h.node.list key read) (h.node'.list key read)
  := h.listWithin hkey fun _ _ _ hitem => hread hitem

theorem text (hkey : key ∈ kind.keys) :
  Reading.Matches R (h.node.text key) (h.node'.text key)
  := by
  apply h.required hkey
  intro value value' hvalue
  cases h.simulation.shape hvalue with
  | string text => exact .ok text
  | number n => exact .ok n.text
  | _ => exact .error (.notAText key hvalue)

/-- A flag is raised in one of two related nodes just if it is in the other. -/
theorem flag_eq (hkey : key ∈ kind.keys) :
  h.node'.flag key = h.node.flag key
  := by
  rw [Bool.eq_iff_iff, Tagged.flag_eq_true, Tagged.flag_eq_true]
  exact h.simulation.member?_eq_some_iff trivial (by simp) (h.field hkey)

theorem truth (hkey : "value" ∈ kind.keys) :
  Reading.Matches R h.node.truth h.node'.truth
  := by
  have hmember (value : Bool) :
      json'.member? "value" = some (.bool value) ↔ json.member? "value" = some (.bool value) :=
    h.simulation.member?_eq_some_iff trivial (by simp) (h.field hkey)
  by_cases hvalue : ∃ value, json.member? "value" = some (.bool value)
  · obtain ⟨value, hvalue⟩ := hvalue
    rw [Tagged.truth_eq_ok.mpr hvalue, Tagged.truth_eq_ok.mpr ((hmember value).mpr hvalue)]
    exact .ok value
  · have hnone : ∀ value, json.member? "value" ≠ some (.bool value) := not_exists.mp hvalue
    have hnone' : ∀ value, json'.member? "value" ≠ some (.bool value) :=
      fun value hvalue' => hnone value ((hmember value).mp hvalue')
    rw [Tagged.truth_eq_error hnone, Tagged.truth_eq_error hnone']
    exact .error .notATruthValue

end Json.RelatedNodes

end GraphQLText
