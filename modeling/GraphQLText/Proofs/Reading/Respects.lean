import GraphQLText.Proofs.Reading.Simulation

/-!
# The readers respect simulations

Each reader takes values that a simulation relates to the same tree, or to errors of one cause.
The readers of values, of types and of selections, which call themselves, are followed by
induction on the size of the value; all others are chains of readers of fields.  `AnyReader`
names all readers there are, and `Json.Simulation.read` says of each of them that it respects a
simulation.
-/

namespace GraphQLText

open Json

section Readers

variable {R : Json → Json → Prop} (hR : Simulation R)

include hR

/-! ## Leaves -/

theorem respects_readName :
  Respects R readName
  := by
  intro json json' h
  have hnode : Reading.Matches R (Tagged.expect .name json >>= fun node => node.text "value")
      (Tagged.expect .name json' >>= fun node => node.text "value") := by
    apply hR.expect_bind h
    intro hnodes
    exact hnodes.text (by decide)
  cases hR.shape h with
  | string name => exact .ok name
  | _ => exact hnode

omit hR in
theorem matches_readKeyword {α : Type} (ofText? : String → Option α) (word : String) :
  Reading.Matches R (readKeyword ofText? word) (readKeyword ofText? word)
  := by
  rw [readKeyword]
  split
  · exact .ok _
  · exact .error (.notAKeyword word)

theorem OperationKind.respects :
  Respects R OperationKind.read
  := by
  intro json json' h
  cases hR.shape h with
  | string word => exact matches_readKeyword _ word
  | _ => exact .error (.notAnOperation h)

theorem DirectiveLocation.respects :
  Respects R DirectiveLocation.read
  := by
  intro json json' h
  apply (respects_readName hR h).bind
  exact matches_readKeyword _

theorem Variable.respects :
  Respects R Variable.read
  := by
  intro json json' h
  apply hR.expect_bind h
  intro hnodes
  exact (hnodes.required (by decide) (respects_readName hR)).map _

theorem StringValue.respects :
  Respects R StringValue.read
  := by
  intro json json' h
  apply hR.expect_bind h
  intro hnodes
  apply (hnodes.text (by decide)).bind
  intro value
  rw [hnodes.flag_eq (by decide)]
  exact .ok _

theorem NamedType.respects :
  Respects R NamedType.read
  := by
  intro json json' h
  apply hR.expect_bind h
  intro hnodes
  exact (hnodes.required (by decide) (respects_readName hR)).map _

/-! ## Values -/

mutual

theorem Value.matches_read {json json' : Json} (h : R json json') :
  Reading.Matches R (Value.read json) (Value.read json')
  := by
  rw [Value.read, Value.read]
  apply hR.of_bind h
  intro kind hnodes
  rw [Value.ofTagged, Value.ofTagged]
  cases kind with
  | var => exact (Variable.respects hR h).map _
  | intValue | floatValue | enumValue => exact (hnodes.text (by decide)).map _
  | stringValue => exact (StringValue.respects hR h).map _
  | booleanValue => exact (hnodes.truth (by decide)).map _
  | nullValue => exact .ok Value.null
  | listValue =>
    apply Reading.Matches.map
    apply hnodes.listWithin (by decide)
    intro item item' hsize hitem
    exact Value.matches_read hitem
  | objectValue =>
    apply Reading.Matches.map
    apply hnodes.listWithin (by decide)
    intro item item' hsize hitem
    exact ObjectField.matches_read hitem
  | _ => exact .error (.wrongFamily .value _)
termination_by sizeOf json

theorem ObjectField.matches_read {json json' : Json} (h : R json json') :
  Reading.Matches R (ObjectField.read json) (ObjectField.read json')
  := by
  rw [ObjectField.read, ObjectField.read]
  apply hR.expect_bind h
  intro hnodes
  rw [ObjectField.ofTagged, ObjectField.ofTagged]
  apply (hnodes.required (by decide) (respects_readName hR)).bind
  intro name
  have hvalue : Reading.Matches R (hnodes.node.required "value" Value.read)
      (hnodes.node'.required "value" Value.read) := by
    apply hnodes.requiredWithin (by decide)
    intro value value' hsize hvalue
    exact Value.matches_read hvalue
  apply hvalue.bind
  intro value
  exact .ok _
termination_by sizeOf json

end

theorem Value.respects :
  Respects R Value.read
  := fun _ _ => Value.matches_read hR

theorem ObjectField.respects :
  Respects R ObjectField.read
  := fun _ _ => ObjectField.matches_read hR

/-! ## Directives -/

theorem Argument.respects :
  Respects R Argument.read
  := by
  intro json json' h
  apply hR.expect_bind h
  intro hnodes
  apply (hnodes.required (by decide) (respects_readName hR)).bind
  intro name
  apply (hnodes.required (by decide) (Value.respects hR)).bind
  intro value
  exact .ok _

theorem Directive.respects :
  Respects R Directive.read
  := by
  intro json json' h
  apply hR.expect_bind h
  intro hnodes
  apply (hnodes.required (by decide) (respects_readName hR)).bind
  intro name
  apply (hnodes.list (by decide) (Argument.respects hR)).bind
  intro arguments
  exact .ok _

/-! ## Types -/

theorem TypeRef.matches_read {json json' : Json} (h : R json json') :
  Reading.Matches R (TypeRef.read json) (TypeRef.read json')
  := by
  rw [TypeRef.read, TypeRef.read]
  apply hR.of_bind h
  intro kind hnodes
  rw [TypeRef.ofTagged, TypeRef.ofTagged]
  cases kind with
  | namedType => exact (NamedType.respects hR h).map _
  | listType | nonNullType =>
    apply Reading.Matches.map
    apply hnodes.requiredWithin (by decide)
    intro inner inner' hsize hinner
    exact TypeRef.matches_read hinner
  | _ => exact .error (.wrongFamily .type _)
termination_by sizeOf json

theorem TypeRef.respects :
  Respects R TypeRef.read
  := fun _ _ => TypeRef.matches_read hR

/-! ## Selections -/

theorem matches_directives {kind : Kind} {json json' : Json}
    (hnodes : RelatedNodes R kind json json') (hkey : "directives" ∈ kind.keys) :
  Reading.Matches R hnodes.node.directives hnodes.node'.directives
  := hnodes.list hkey (Directive.respects hR)

theorem FragmentSpread.respects :
  Respects R FragmentSpread.read
  := by
  intro json json' h
  apply hR.expect_bind h
  intro hnodes
  apply (hnodes.required (by decide) (respects_readName hR)).bind
  intro name
  apply (matches_directives hR hnodes (by decide)).bind
  intro ds
  exact .ok _

omit hR in
/-- The selections of a node are read alike if the selection sets there are, which are smaller
than the nodes. -/
theorem matches_selectionsWithin {kind : Kind} {json json' : Json}
    (hnodes : RelatedNodes R kind json json') (hkey : "selectionSet" ∈ kind.keys)
    (hread : ∀ set set', sizeOf set < sizeOf json → R set set' →
      Reading.Matches R (SelectionSet.read set) (SelectionSet.read set')) :
  Reading.Matches R hnodes.node.selections hnodes.node'.selections
  := (hnodes.optionalWithin hkey hread).map _

mutual

theorem Selection.matches_read {json json' : Json} (h : R json json') :
  Reading.Matches R (Selection.read json) (Selection.read json')
  := by
  rw [Selection.read, Selection.read]
  apply hR.of_bind h
  intro kind hnodes
  rw [Selection.ofTagged, Selection.ofTagged]
  cases kind with
  | field => exact (Field.matches_read h).map _
  | fragmentSpread => exact (FragmentSpread.respects hR h).map _
  | inlineFragment => exact (InlineFragment.matches_read h).map _
  | _ => exact .error (.wrongFamily .selection _)
termination_by (sizeOf json, 1)

theorem Field.matches_read {json json' : Json} (h : R json json') :
  Reading.Matches R (Field.read json) (Field.read json')
  := by
  rw [Field.read, Field.read]
  apply hR.expect_bind h
  intro hnodes
  rw [Field.ofTagged_eq, Field.ofTagged_eq]
  apply (hnodes.optional (by decide) (respects_readName hR)).bind
  intro alias?
  apply (hnodes.required (by decide) (respects_readName hR)).bind
  intro name
  apply (hnodes.list (by decide) (Argument.respects hR)).bind
  intro args
  apply (matches_directives hR hnodes (by decide)).bind
  intro ds
  have hselections := matches_selectionsWithin hnodes (by decide)
    fun set set' hsize hset => SelectionSet.matches_read hset
  apply hselections.bind
  intro selections
  exact .ok _
termination_by (sizeOf json, 0)

theorem InlineFragment.matches_read {json json' : Json} (h : R json json') :
  Reading.Matches R (InlineFragment.read json) (InlineFragment.read json')
  := by
  rw [InlineFragment.read, InlineFragment.read]
  apply hR.expect_bind h
  intro hnodes
  rw [InlineFragment.ofTagged_eq, InlineFragment.ofTagged_eq]
  apply (hnodes.optional (by decide) (NamedType.respects hR)).bind
  intro typeCondition?
  apply (matches_directives hR hnodes (by decide)).bind
  intro ds
  have hselections := matches_selectionsWithin hnodes (by decide)
    fun set set' hsize hset => SelectionSet.matches_read hset
  apply hselections.bind
  intro selections
  exact .ok _
termination_by (sizeOf json, 0)

theorem SelectionSet.matches_read {json json' : Json} (h : R json json') :
  Reading.Matches R (SelectionSet.read json) (SelectionSet.read json')
  := by
  rw [SelectionSet.read, SelectionSet.read]
  apply hR.expect_bind h
  intro hnodes
  rw [SelectionSet.ofTagged_eq_list, SelectionSet.ofTagged_eq_list]
  apply hnodes.listWithin (by decide)
  intro item item' hsize hitem
  exact Selection.matches_read hitem
termination_by (sizeOf json, 0)

end

theorem Selection.respects :
  Respects R Selection.read
  := fun _ _ => Selection.matches_read hR

theorem Field.respects :
  Respects R Field.read
  := fun _ _ => Field.matches_read hR

theorem InlineFragment.respects :
  Respects R InlineFragment.read
  := fun _ _ => InlineFragment.matches_read hR

theorem SelectionSet.respects :
  Respects R SelectionSet.read
  := fun _ _ => SelectionSet.matches_read hR

theorem matches_selections {kind : Kind} {json json' : Json}
    (hnodes : RelatedNodes R kind json json') (hkey : "selectionSet" ∈ kind.keys) :
  Reading.Matches R hnodes.node.selections hnodes.node'.selections
  := matches_selectionsWithin hnodes hkey fun _ _ _ hset => SelectionSet.respects hR hset

/-! ## Executable definitions -/

theorem VariableDefinition.respects :
  Respects R VariableDefinition.read
  := by
  intro json json' h
  apply hR.expect_bind h
  intro hnodes
  apply (hnodes.required (by decide) (Variable.respects hR)).bind
  intro var
  apply (hnodes.required (by decide) (TypeRef.respects hR)).bind
  intro type
  apply (hnodes.optional (by decide) (Value.respects hR)).bind
  intro default?
  apply (matches_directives hR hnodes (by decide)).bind
  intro ds
  exact .ok _

theorem OperationDefinition.respects :
  Respects R OperationDefinition.read
  := by
  intro json json' h
  apply hR.expect_bind h
  intro hnodes
  apply (hnodes.required (by decide) (OperationKind.respects hR)).bind
  intro operation
  apply (hnodes.optional (by decide) (respects_readName hR)).bind
  intro name?
  apply (hnodes.list (by decide) (VariableDefinition.respects hR)).bind
  intro variableDefinitions
  apply (matches_directives hR hnodes (by decide)).bind
  intro ds
  apply (matches_selections hR hnodes (by decide)).bind
  intro selections
  exact .ok _

theorem FragmentDefinition.respects :
  Respects R FragmentDefinition.read
  := by
  intro json json' h
  apply hR.expect_bind h
  intro hnodes
  apply (hnodes.required (by decide) (respects_readName hR)).bind
  intro name
  apply (hnodes.required (by decide) (NamedType.respects hR)).bind
  intro typeCondition
  apply (matches_directives hR hnodes (by decide)).bind
  intro ds
  apply (matches_selections hR hnodes (by decide)).bind
  intro selections
  exact .ok _

/-! ## The type system -/

theorem matches_description {kind : Kind} {json json' : Json}
    (hnodes : RelatedNodes R kind json json') :
  Reading.Matches R hnodes.node.description? hnodes.node'.description?
  := hnodes.optional (by simp [Kind.keys]) (StringValue.respects hR)

theorem OperationTypeDefinition.respects :
  Respects R OperationTypeDefinition.read
  := by
  intro json json' h
  apply hR.expect_bind h
  intro hnodes
  apply (hnodes.required (by decide) (OperationKind.respects hR)).bind
  intro operation
  apply (hnodes.required (by decide) (NamedType.respects hR)).bind
  intro type
  exact .ok _

theorem InputValueDefinition.respects :
  Respects R InputValueDefinition.read
  := by
  intro json json' h
  apply hR.expect_bind h
  intro hnodes
  apply (matches_description hR hnodes).bind
  intro description?
  apply (hnodes.required (by decide) (respects_readName hR)).bind
  intro name
  apply (hnodes.required (by decide) (TypeRef.respects hR)).bind
  intro type
  apply (hnodes.optional (by decide) (Value.respects hR)).bind
  intro default?
  apply (matches_directives hR hnodes (by decide)).bind
  intro ds
  exact .ok _

theorem FieldDefinition.respects :
  Respects R FieldDefinition.read
  := by
  intro json json' h
  apply hR.expect_bind h
  intro hnodes
  apply (matches_description hR hnodes).bind
  intro description?
  apply (hnodes.required (by decide) (respects_readName hR)).bind
  intro name
  apply (hnodes.list (by decide) (InputValueDefinition.respects hR)).bind
  intro arguments
  apply (hnodes.required (by decide) (TypeRef.respects hR)).bind
  intro type
  apply (matches_directives hR hnodes (by decide)).bind
  intro ds
  exact .ok _

theorem EnumValueDefinition.respects :
  Respects R EnumValueDefinition.read
  := by
  intro json json' h
  apply hR.expect_bind h
  intro hnodes
  apply (matches_description hR hnodes).bind
  intro description?
  apply (hnodes.required (by decide) (respects_readName hR)).bind
  intro name
  apply (matches_directives hR hnodes (by decide)).bind
  intro ds
  exact .ok _

theorem DirectiveDefinition.respects :
  Respects R DirectiveDefinition.read
  := by
  intro json json' h
  apply hR.expect_bind h
  intro hnodes
  apply (matches_description hR hnodes).bind
  intro description?
  apply (hnodes.required (by decide) (respects_readName hR)).bind
  intro name
  apply (hnodes.list (by decide) (InputValueDefinition.respects hR)).bind
  intro arguments
  apply (hnodes.list (by decide) (DirectiveLocation.respects hR)).bind
  intro locations
  rw [hnodes.flag_eq (by decide)]
  exact .ok _

/-- The keys of a form are looked up in its definitions and in its extensions. -/
theorem Declaration.matches_ofTagged {kind : Kind} {form : Form} {json json' : Json}
    (hkind : kind = .definition form ∨ kind = .extension form)
    (hnodes : RelatedNodes R kind json json') :
  Reading.Matches R (Declaration.ofTagged form hnodes.node)
    (Declaration.ofTagged form hnodes.node')
  := by
  have hkey : ∀ key ∈ form.nodeKeys ++ form.listKeys, key ∈ kind.keys := by
    intro key hkey
    rcases hkind with rfl | rfl <;>
      rcases List.mem_append.mp hkey with h | h <;>
      simp [Kind.keys, Kind.nodeKeys, Kind.listKeys, h]
  have hname (h : "name" ∈ form.nodeKeys ++ form.listKeys) :=
    hnodes.required (hkey "name" h) (respects_readName hR)
  have hdirectives (h : "directives" ∈ form.nodeKeys ++ form.listKeys) :=
    matches_directives hR hnodes (hkey "directives" h)
  cases form with
  | schema =>
    apply (hdirectives (by decide)).bind
    intro ds
    apply (hnodes.list (hkey _ (by decide)) (OperationTypeDefinition.respects hR)).bind
    intro operationTypes
    exact .ok _
  | scalar =>
    apply (hname (by decide)).bind
    intro name
    apply (hdirectives (by decide)).bind
    intro ds
    exact .ok _
  | object | interface =>
    apply (hname (by decide)).bind
    intro name
    apply (hnodes.list (hkey _ (by decide)) (NamedType.respects hR)).bind
    intro interfaces
    apply (hdirectives (by decide)).bind
    intro ds
    apply (hnodes.list (hkey _ (by decide)) (FieldDefinition.respects hR)).bind
    intro fields
    exact .ok _
  | union =>
    apply (hname (by decide)).bind
    intro name
    apply (hdirectives (by decide)).bind
    intro ds
    apply (hnodes.list (hkey _ (by decide)) (NamedType.respects hR)).bind
    intro members
    exact .ok _
  | enum =>
    apply (hname (by decide)).bind
    intro name
    apply (hdirectives (by decide)).bind
    intro ds
    apply (hnodes.list (hkey _ (by decide)) (EnumValueDefinition.respects hR)).bind
    intro values
    exact .ok _
  | inputObject =>
    apply (hname (by decide)).bind
    intro name
    apply (hdirectives (by decide)).bind
    intro ds
    apply (hnodes.list (hkey _ (by decide)) (InputValueDefinition.respects hR)).bind
    intro fields
    exact .ok _

/-! ## Definitions and nodes -/

theorem Definition.respects_define (form : Form) :
  Respects R (Definition.readOf (.definition form))
  := by
  intro json json' h
  apply hR.expect_bind h
  intro hnodes
  apply (matches_description hR hnodes).bind
  intro description?
  apply (Declaration.matches_ofTagged hR (.inl rfl) hnodes).bind
  intro declaration
  exact .ok _

theorem Definition.respects_extend (form : Form) :
  Respects R (Definition.readOf (.extension form))
  := by
  intro json json' h
  apply hR.expect_bind h
  intro hnodes
  exact (Declaration.matches_ofTagged hR (.inr rfl) hnodes).map _

theorem Definition.respects :
  Respects R Definition.read
  := by
  intro json json' h
  apply hR.of_bind h
  intro kind hnodes
  cases kind with
  | operationDefinition => exact (OperationDefinition.respects hR h).map _
  | fragmentDefinition => exact (FragmentDefinition.respects hR h).map _
  | directiveDefinition => exact (DirectiveDefinition.respects hR h).map _
  | definition form => exact Definition.respects_define hR form h
  | extension form => exact Definition.respects_extend hR form h
  | _ => exact .error (.wrongFamily .definition _)

theorem Document.respects :
  Respects R Document.read
  := by
  intro json json' h
  apply hR.expect_bind h
  intro hnodes
  exact (hnodes.list (by decide) (Definition.respects hR)).map _

theorem Node.respects :
  Respects R Node.read
  := by
  intro json json' h
  apply hR.of_bind h
  intro kind hnodes
  cases kind with
  | name => exact (respects_readName hR h).map _
  | document => exact (Document.respects hR h).map _
  | operationDefinition => exact (OperationDefinition.respects hR h).map _
  | variableDefinition => exact (VariableDefinition.respects hR h).map _
  | selectionSet => exact (SelectionSet.respects hR h).map _
  | field => exact (Field.respects hR h).map _
  | argument => exact (Argument.respects hR h).map _
  | fragmentSpread => exact (FragmentSpread.respects hR h).map _
  | inlineFragment => exact (InlineFragment.respects hR h).map _
  | fragmentDefinition => exact (FragmentDefinition.respects hR h).map _
  | var | intValue | floatValue | stringValue | booleanValue | nullValue | enumValue | listValue
  | objectValue => exact (Value.respects hR h).map _
  | objectField => exact (ObjectField.respects hR h).map _
  | directive => exact (Directive.respects hR h).map _
  | namedType | listType | nonNullType => exact (TypeRef.respects hR h).map _
  | operationTypeDefinition => exact (OperationTypeDefinition.respects hR h).map _
  | fieldDefinition => exact (FieldDefinition.respects hR h).map _
  | inputValueDefinition => exact (InputValueDefinition.respects hR h).map _
  | enumValueDefinition => exact (EnumValueDefinition.respects hR h).map _
  | directiveDefinition => exact (DirectiveDefinition.respects hR h).map _
  | definition form => exact (Definition.respects_define hR form h).map _
  | extension form => exact (Definition.respects_extend hR form h).map _

theorem respects_readOptional {α : Type} {read : Json → Reading α} (hread : Respects R read) :
  Respects R (readOptional read)
  := by
  intro json json' h
  have hsome := (hread h).map some
  cases hR.shape h with
  | null => exact .ok none
  | _ => exact hsome

end Readers

/-! ## All readers -/

/-- The readers of trees of one type and of nodes of any kind, of the two sorts of keywords and,
with each of them, of what may be `null`. -/
inductive AnyReader where
  | tree (r : Reader)
  | node
  | operationKind
  | location
  | optional (r : AnyReader)
deriving DecidableEq, Repr

namespace AnyReader

/-- What a reader reads. -/
def Part : AnyReader → Type
  | .tree r => r.Tree
  | .node => Node
  | .operationKind => OperationKind
  | .location => DirectiveLocation
  | .optional r => Option r.Part

/-- The part that a JSON value is read as. -/
def read : (r : AnyReader) → Json → Reading r.Part
  | .tree r => r.read
  | .node => Node.read
  | .operationKind => OperationKind.read
  | .location => DirectiveLocation.read
  | .optional r => readOptional r.read

end AnyReader

theorem Reader.respects {R : Json → Json → Prop} (hR : Simulation R) (r : Reader) :
  Respects R r.read
  := by
  cases r with
  | var => exact Variable.respects hR
  | stringValue => exact StringValue.respects hR
  | objectField => exact ObjectField.respects hR
  | argument => exact Argument.respects hR
  | directive => exact Directive.respects hR
  | namedType => exact NamedType.respects hR
  | fragmentSpread => exact FragmentSpread.respects hR
  | field => exact Field.respects hR
  | inlineFragment => exact InlineFragment.respects hR
  | selectionSet => exact SelectionSet.respects hR
  | variableDefinition => exact VariableDefinition.respects hR
  | operationDefinition => exact OperationDefinition.respects hR
  | fragmentDefinition => exact FragmentDefinition.respects hR
  | operationTypeDefinition => exact OperationTypeDefinition.respects hR
  | inputValueDefinition => exact InputValueDefinition.respects hR
  | fieldDefinition => exact FieldDefinition.respects hR
  | enumValueDefinition => exact EnumValueDefinition.respects hR
  | directiveDefinition => exact DirectiveDefinition.respects hR
  | document => exact Document.respects hR
  | declared form => exact Definition.respects_define hR form
  | extended form => exact Definition.respects_extend hR form
  | value => exact Value.respects hR
  | type => exact TypeRef.respects hR
  | selection => exact Selection.respects hR
  | definition => exact Definition.respects hR

/-- Every reader respects every simulation. -/
theorem Json.Simulation.read {R : Json → Json → Prop} (hR : Simulation R) (r : AnyReader) :
  Respects R r.read
  := by
  induction r with
  | tree r => exact r.respects hR
  | node => exact Node.respects hR
  | operationKind => exact OperationKind.respects hR
  | location => exact DirectiveLocation.respects hR
  | optional r ih => exact respects_readOptional hR ih

end GraphQLText
