import GraphQLText.Proofs.Reading.Respects

/-!
# Members that do not matter

A member of an object that is `null`, and a member of a node under a key that is not looked up in
nodes of its kind, may as well be missing.  `Json.Pruned` relates a value to what is left of it
when any such members are deleted, at any depth.  Pruning is a simulation, so every reader reads
the same from what is left, or refuses it with the same message (`AnyReader.read_pruned`).
-/

namespace GraphQLText

open Json

/-! ## Pruning -/

/-- A member of an object that may be deleted: it is `null`, or no reader of nodes of the kind of
the object looks its key up. -/
def Json.Omissible (json : Json) (key : String) (value : Json) : Prop :=
  value = .null ∨ ∃ kind, json.HasKind kind ∧ key ∉ kind.keys

mutual

/-- What is left of a value when members that may be deleted are deleted from any of the objects
in it.  Arrays keep their items. -/
inductive Json.Pruned : Json → Json → Prop where
  | null : Pruned .null .null
  | bool (value : Bool) : Pruned (.bool value) (.bool value)
  | number (value : Number) : Pruned (.number value) (.number value)
  | string (value : String) : Pruned (.string value) (.string value)
  | array {items items' : List Json} (h : List.Forall₂ Pruned items items') :
      Pruned (.array items) (.array items')
  | object {members members' : List (String × Json)}
      (h : ∀ key, PrunedAt (.object members) key (lookup key members) (lookup key members')) :
      Pruned (.object members) (.object members')

/-- What is left at a key of an object. -/
inductive Json.PrunedAt : Json → String → Option Json → Option Json → Prop where
  | missing {json : Json} {key : String} : PrunedAt json key none none
  | kept {json : Json} {key : String} {value value' : Json} (h : Pruned value value') :
      PrunedAt json key (some value) (some value')
  | deleted {json : Json} {key : String} {value : Json} (h : json.Omissible key value) :
      PrunedAt json key (some value) none

end

variable {json json' : Json}

theorem Json.Pruned.at (h : json.Pruned json') (key : String) :
  PrunedAt json key (json.member? key) (json'.member? key)
  := by
  cases h with
  | object h => exact h key
  | _ => exact .missing

/-- At a key that is looked up in every node of the kind of an object, what can be deleted is
`null` only, which counts as missing. -/
theorem Json.Pruned.rel_field? (h : json.Pruned json') {key : String}
    (hkey : ∀ kind, json.HasKind kind → key ∈ kind.keys) :
  Option.Rel Pruned (json.field? key) (json'.field? key)
  := by
  have hat := h.at key
  rw [field?, field?]
  generalize json.member? key = found? at hat
  generalize json'.member? key = found?' at hat
  cases hat with
  | missing => exact .none
  | kept hvalue =>
    cases hvalue with
    | null => exact .none
    | _ => exact .some (by constructor <;> assumption)
  | deleted homissible =>
    rcases homissible with rfl | ⟨kind, hkind, hunread⟩
    · exact .none
    · exact absurd (hkey kind hkind) hunread

/-- The readers cannot tell a value from what is left of it. -/
theorem Json.simulation_pruned :
  Simulation Pruned
  := by
  constructor
  case shape =>
    intro json json' h
    cases h with
    | null => exact .null
    | bool value => exact .bool value
    | number value => exact .number value
    | string value => exact .string value
    | array h => exact .array h
    | object => exact .object _ _
  case tag =>
    intro json json' h
    apply h.rel_field?
    intro kind _
    simp [Kind.keys]
  case field =>
    intro json json' kind key h hkind hkey
    apply h.rel_field?
    intro kind' hkind'
    rw [hkind'.kind_eq hkind]
    exact hkey

/-! ## Deleting members -/

mutual

/-- Nothing need be deleted. -/
theorem Json.Pruned.refl : (json : Json) → json.Pruned json
  | .null => .null
  | .bool value => .bool value
  | .number value => .number value
  | .string value => .string value
  | .array items => .array (Json.Pruned.refl_items items)
  | .object members => .object (Json.PrunedAt.refl_members (.object members) members)

theorem Json.Pruned.refl_items : (items : List Json) → List.Forall₂ Pruned items items
  | [] => .nil
  | item :: items => .cons (Json.Pruned.refl item) (Json.Pruned.refl_items items)

theorem Json.PrunedAt.refl_members (json : Json) :
    (members : List (String × Json)) → (key : String) →
      PrunedAt json key (lookup key members) (lookup key members)
  | [], _ => .missing
  | (k, value) :: members, key => by
    rw [lookup]
    split
    · exact .kept (Json.Pruned.refl value)
    · exact Json.PrunedAt.refl_members json members key

end

theorem Json.lookup_filter (deleted : String → Bool) (key : String)
    (members : List (String × Json)) :
  lookup key (members.filter fun member => !deleted member.1) =
    if deleted key then none else lookup key members
  := by
  induction members with
  | nil => simp [lookup]
  | cons member members ih =>
    obtain ⟨k, value⟩ := member
    rw [List.filter_cons, lookup]
    by_cases hkey : k = key
    · subst hkey
      by_cases hdeleted : deleted k <;> simp [hdeleted, lookup, ih]
    · by_cases hdeleted : deleted k <;> simp [hdeleted, hkey, lookup, ih]

/-- Deleting the members of an object under some keys is pruning, if they may be deleted. -/
theorem Json.pruned_filter {members : List (String × Json)} (deleted : String → Bool)
    (h : ∀ key value, deleted key → lookup key members = some value →
      (Json.object members).Omissible key value) :
  (Json.object members).Pruned (.object (members.filter fun member => !deleted member.1))
  := by
  apply Json.Pruned.object
  intro key
  rw [lookup_filter]
  split
  case isTrue hdeleted =>
    cases hvalue : lookup key members with
    | none => exact .missing
    | some value => exact .deleted (h key value hdeleted hvalue)
  case isFalse => exact PrunedAt.refl_members _ members key

/-! ## Reading what is left -/

/-- Outcomes that match are one value, or errors of the same rejection and message. -/
theorem Reading.Matches.exists_eq {R : Json → Json → Prop} {α : Type} {x y : Reading α}
    (h : Matches R x y) :
  (∃ a, x = .ok a ∧ y = .ok a) ∨
    ∃ e e', x = .error e ∧ y = .error e' ∧ e'.rejection = e.rejection ∧ e'.message = e.message
  := by
  cases h with
  | ok a =>
    left
    exact ⟨a, rfl, rfl⟩
  | @error e e' h =>
    right
    refine ⟨e, e', rfl, rfl, ?_⟩
    cases h <;> exact ⟨rfl, rfl⟩

/-- What may be deleted does not matter.  From a value and from what is left of it when members
that are `null`, and members of nodes that are not looked up, are deleted at any depth, every
reader reads the same, or refuses both in the same way and with the same message; and so the same
is printed for both. -/
theorem AnyReader.read_pruned (r : AnyReader) (json json' : Json) (h : json.Pruned json') :
  ((∃ x, r.read json = .ok x ∧ r.read json' = .ok x) ∨
    ∃ e e', r.read json = .error e ∧ r.read json' = .error e' ∧
      e'.rejection = e.rejection ∧ e'.message = e.message) ∧
  ((∃ text, printJson json = .ok text ∧ printJson json' = .ok text) ∨
    ∃ e e', printJson json = .error e ∧ printJson json' = .error e' ∧
      e'.rejection = e.rejection ∧ e'.message = e.message)
  := by
  have hread (r : AnyReader) : Reading.Matches Pruned (r.read json) (r.read json') :=
    simulation_pruned.read r h
  constructor
  · exact (hread r).exists_eq
  · exact ((hread (.optional .node)).map _).exists_eq

/-- A directive with the places in the source at which it and its name were found, and without
arguments. -/
def locatedDirective : Json :=
  .object [("arguments", .null), ("kind", .string "Directive"), ("loc", .bool true),
    ("name", .object [("kind", .string "Name"), ("loc", .bool true), ("value", .string "live")])]

/-- What is left of the directive when nothing is kept but what is looked up and there. -/
def bareDirective : Json :=
  .object [("kind", .string "Directive"),
    ("name", .object [("kind", .string "Name"), ("value", .string "live")])]

theorem locatedDirective_pruned :
  locatedDirective.Pruned bareDirective
  := by
  have hname : (Json.object [("kind", .string "Name"), ("loc", .bool true),
      ("value", .string "live")]).Pruned
        (.object [("kind", .string "Name"), ("value", .string "live")]) := by
    apply pruned_filter (fun key => key = "loc")
    intro key value hkey _
    right
    use .name, rfl
    rw [of_decide_eq_true hkey]
    decide
  apply Json.Pruned.object
  intro key
  by_cases harguments : "arguments" = key
  · subst harguments
    exact .deleted (.inl rfl)
  · by_cases hloc : "loc" = key
    · subst hloc
      exact .deleted (.inr ⟨.directive, rfl, by decide⟩)
    · simp only [lookup, harguments, hloc, if_false]
      split
      · exact .kept (.string "Directive")
      · split
        · exact .kept hname
        · exact .missing

/-- The bare directive is read as the one from which it is left. -/
theorem AnyReader.read_bareDirective :
  locatedDirective.Pruned bareDirective ∧ Directive.read locatedDirective = .ok ⟨"live", []⟩ ∧
    Directive.read bareDirective = .ok ⟨"live", []⟩
  := by
  have hlocated : Directive.read locatedDirective = .ok ⟨"live", []⟩ := rfl
  use locatedDirective_pruned, hlocated
  rcases (AnyReader.read_pruned (.tree .directive) locatedDirective bareDirective
    locatedDirective_pruned).1 with ⟨d, hd, hd'⟩ | ⟨e, _, he, -⟩
  · obtain rfl := Except.ok.inj (hlocated.symm.trans hd)
    exact hd'
  · exact absurd (hlocated.symm.trans he) (by simp)

end GraphQLText
