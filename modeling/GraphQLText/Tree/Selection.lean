import GraphQLText.Tree.Value
import GraphQLText.Tree.TypeRef

/-!
# Selections

A selection set is a list of selections: fields, spreads of named fragments and inline
fragments.  Fields and inline fragments have selection sets of their own, which are empty
for the leaves.  Equality is that of the trees; `Selection.same` decides it.
-/

namespace GraphQLText

/-- A named fragment spread into a selection set. -/
structure FragmentSpread where
  name : String
  directives : List Directive
deriving DecidableEq

mutual

/-- An entry of a selection set. -/
inductive Selection where
  | field (f : Field)
  | fragmentSpread (s : FragmentSpread)
  | inlineFragment (f : InlineFragment)

/-- A selected field, under its own name or an alias. -/
structure Field where
  alias? : Option String
  name : String
  arguments : List Argument
  directives : List Directive
  selections : List Selection

/-- A fragment without a name, possibly on a condition on the type. -/
structure InlineFragment where
  typeCondition? : Option NamedType
  directives : List Directive
  selections : List Selection

end

/-- The selections made on an object. -/
abbrev SelectionSet := List Selection

/-! ## Equality -/

mutual

/-- Whether two selections are the same tree. -/
def Selection.same : Selection → Selection → Bool
  | .field f, .field g => Field.same f g
  | .fragmentSpread s, .fragmentSpread t => s = t
  | .inlineFragment f, .inlineFragment g => InlineFragment.same f g
  | _, _ => false

/-- Whether two fields are the same tree. -/
def Field.same : Field → Field → Bool
  | ⟨a, n, as, ds, ss⟩, ⟨a', n', as', ds', ss'⟩ =>
    (a = a' ∧ n = n' ∧ as = as' ∧ ds = ds') && Selection.sameAll ss ss'

/-- Whether two inline fragments are the same tree. -/
def InlineFragment.same : InlineFragment → InlineFragment → Bool
  | ⟨t, ds, ss⟩, ⟨t', ds', ss'⟩ => (t = t' ∧ ds = ds') && Selection.sameAll ss ss'

/-- Whether two lists hold the same selections in the same order. -/
def Selection.sameAll : List Selection → List Selection → Bool
  | [], [] => true
  | s :: ss, t :: ts => Selection.same s t && Selection.sameAll ss ts
  | _, _ => false

end

mutual

theorem Selection.same_iff (s t : Selection) :
  Selection.same s t = true ↔ s = t
  := by
  cases s with
  | field f => cases t <;> simp [Selection.same, Field.same_iff f]
  | fragmentSpread s => cases t <;> simp [Selection.same]
  | inlineFragment f => cases t <;> simp [Selection.same, InlineFragment.same_iff f]

theorem Field.same_iff (f g : Field) :
  Field.same f g = true ↔ f = g
  := by
  obtain ⟨a, n, as, ds, ss⟩ := f
  obtain ⟨a', n', as', ds', ss'⟩ := g
  simp [Field.same, Selection.sameAll_iff ss, and_assoc]

theorem InlineFragment.same_iff (f g : InlineFragment) :
  InlineFragment.same f g = true ↔ f = g
  := by
  obtain ⟨t, ds, ss⟩ := f
  obtain ⟨t', ds', ss'⟩ := g
  simp [InlineFragment.same, Selection.sameAll_iff ss, and_assoc]

theorem Selection.sameAll_iff (ss ts : List Selection) :
  Selection.sameAll ss ts = true ↔ ss = ts
  := by
  cases ss with
  | nil => cases ts <;> simp [Selection.sameAll]
  | cons s ss =>
    cases ts <;> simp [Selection.sameAll, Selection.same_iff s, Selection.sameAll_iff ss]

end

instance : DecidableEq Selection := fun s t => decidable_of_iff _ (Selection.same_iff s t)

instance : DecidableEq Field := fun f g => decidable_of_iff _ (Field.same_iff f g)

instance : DecidableEq InlineFragment :=
  fun f g => decidable_of_iff _ (InlineFragment.same_iff f g)

/-! ## Simple selections -/

/-- The field selected without arguments, directives and selections of its own. -/
def Field.leaf (name : String) : Field := ⟨none, name, [], [], []⟩

/-- The same field under an alias. -/
def Field.aliasedLeaf (key name : String) : Field := { Field.leaf name with alias? := some key }

/-- The kind of a selection. -/
def Selection.kind : Selection → Kind
  | .field _ => .field
  | .fragmentSpread _ => .fragmentSpread
  | .inlineFragment _ => .inlineFragment

end GraphQLText
