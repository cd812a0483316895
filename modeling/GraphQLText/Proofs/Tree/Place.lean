import GraphQLText.Proofs.Tree.Content

/-!
# The places in a node

A place in a node is the node with one part left open: a function `fill` from what can stand there
to the node around it, along with the function `toNode` by which the part is a node of its own.
There are places for a whole list of parts (`Node.HasList`), for a part that may be missing
(`Node.HasOption`) and for a single part (`Node.HasPart`); an entry of a list and an optional part
that is there are single parts too.  Every node in the contents of another stands at such a place,
names apart (`Node.hasChild_of_mem_contents`).  A name is all there is of itself, and so nothing
can change inside it.
-/

namespace GraphQLText

/-! ## Lists -/

/-- The places for lists in a declaration. -/
inductive Declaration.HasList : {α : Type} → (α → Node) → (List α → Declaration) → Prop
  | schemaDirectives (operationTypes : List OperationTypeDefinition) :
    HasList .directive fun ds => .schema ds operationTypes
  | operationTypes (ds : List Directive) :
    HasList .operationType fun operationTypes => .schema ds operationTypes
  | scalarDirectives (name : String) : HasList .directive fun ds => .scalar name ds
  | objectInterfaces (name : String) (ds : List Directive) (fields : List FieldDefinition) :
    HasList (fun t => .type (.named t)) fun interfaces => .object name interfaces ds fields
  | objectDirectives (name : String) (interfaces : List NamedType)
      (fields : List FieldDefinition) :
    HasList .directive fun ds => .object name interfaces ds fields
  | objectFields (name : String) (interfaces : List NamedType) (ds : List Directive) :
    HasList .fieldDefinition fun fields => .object name interfaces ds fields
  | interfaceInterfaces (name : String) (ds : List Directive) (fields : List FieldDefinition) :
    HasList (fun t => .type (.named t)) fun interfaces => .interface name interfaces ds fields
  | interfaceDirectives (name : String) (interfaces : List NamedType)
      (fields : List FieldDefinition) :
    HasList .directive fun ds => .interface name interfaces ds fields
  | interfaceFields (name : String) (interfaces : List NamedType) (ds : List Directive) :
    HasList .fieldDefinition fun fields => .interface name interfaces ds fields
  | unionDirectives (name : String) (members : List NamedType) :
    HasList .directive fun ds => .union name ds members
  | unionMembers (name : String) (ds : List Directive) :
    HasList (fun t => .type (.named t)) fun members => .union name ds members
  | enumDirectives (name : String) (values : List EnumValueDefinition) :
    HasList .directive fun ds => .enum name ds values
  | enumValues (name : String) (ds : List Directive) :
    HasList .enumValue fun values => .enum name ds values
  | inputObjectDirectives (name : String) (fields : List InputValueDefinition) :
    HasList .directive fun ds => .inputObject name ds fields
  | inputObjectFields (name : String) (ds : List Directive) :
    HasList .inputValue fun fields => .inputObject name ds fields

/-- The places for lists in a node.  The location of a directive stands there as the name that it
is written as. -/
inductive Node.HasList : {α : Type} → (α → Node) → (List α → Node) → Prop
  | definitions : HasList .definition fun ds => .document ⟨ds⟩
  | selections : HasList .selection fun ss => .selectionSet ss
  | items : HasList .value fun vs => .value (.list vs)
  | objectFields : HasList .objectField fun fs => .value (.object fs)
  | directiveArguments (d : Directive) :
    HasList .argument fun as => .directive { d with arguments := as }
  | fieldArguments (f : Field) :
    HasList .argument fun as => .selection (.field { f with arguments := as })
  | fieldDirectives (f : Field) :
    HasList .directive fun ds => .selection (.field { f with directives := ds })
  | spreadDirectives (s : FragmentSpread) :
    HasList .directive fun ds => .selection (.fragmentSpread { s with directives := ds })
  | inlineDirectives (f : InlineFragment) :
    HasList .directive fun ds => .selection (.inlineFragment { f with directives := ds })
  | variableDirectives (d : VariableDefinition) :
    HasList .directive fun ds => .variableDefinition { d with directives := ds }
  | variableDefinitions (d : OperationDefinition) :
    HasList .variableDefinition fun vs =>
      .definition (.operation { d with variableDefinitions := vs })
  | operationDirectives (d : OperationDefinition) :
    HasList .directive fun ds => .definition (.operation { d with directives := ds })
  | fragmentDirectives (d : FragmentDefinition) :
    HasList .directive fun ds => .definition (.fragment { d with directives := ds })
  | fieldDefinitionArguments (d : FieldDefinition) :
    HasList .inputValue fun as => .fieldDefinition { d with arguments := as }
  | fieldDefinitionDirectives (d : FieldDefinition) :
    HasList .directive fun ds => .fieldDefinition { d with directives := ds }
  | inputValueDirectives (d : InputValueDefinition) :
    HasList .directive fun ds => .inputValue { d with directives := ds }
  | enumValueDirectives (d : EnumValueDefinition) :
    HasList .directive fun ds => .enumValue { d with directives := ds }
  | directiveDefinitionArguments (d : DirectiveDefinition) :
    HasList .inputValue fun as => .definition (.directive { d with arguments := as })
  | locations (d : DirectiveDefinition) :
    HasList (fun l => .name l.text) fun ls => .definition (.directive { d with locations := ls })
  | define (description? : Option StringValue) {α : Type} {toNode : α → Node}
      {fill : List α → Declaration} (h : Declaration.HasList toNode fill) :
    HasList toNode fun xs => .definition (.define description? (fill xs))
  | extend {α : Type} {toNode : α → Node} {fill : List α → Declaration}
      (h : Declaration.HasList toNode fill) :
    HasList toNode fun xs => .definition (.extend (fill xs))

/-! ## Optional parts -/

/-- The places in a node for parts that may be missing. -/
inductive Node.HasOption : {α : Type} → (α → Node) → (Option α → Node) → Prop
  | fieldAlias (f : Field) : HasOption .name fun alias? => .selection (.field { f with alias? })
  | operationName (d : OperationDefinition) :
    HasOption .name fun name? => .definition (.operation { d with name? })
  | typeCondition (f : InlineFragment) :
    HasOption (fun t => .type (.named t)) fun typeCondition? =>
      .selection (.inlineFragment { f with typeCondition? })
  | variableDefault (d : VariableDefinition) :
    HasOption .value fun default? => .variableDefinition { d with default? }
  | inputValueDefault (d : InputValueDefinition) :
    HasOption .value fun default? => .inputValue { d with default? }
  | declarationDescription (d : Declaration) :
    HasOption (fun s => .value (.string s)) fun description? =>
      .definition (.define description? d)
  | directiveDescription (d : DirectiveDefinition) :
    HasOption (fun s => .value (.string s)) fun description? =>
      .definition (.directive { d with description? })
  | fieldDescription (d : FieldDefinition) :
    HasOption (fun s => .value (.string s)) fun description? =>
      .fieldDefinition { d with description? }
  | inputValueDescription (d : InputValueDefinition) :
    HasOption (fun s => .value (.string s)) fun description? => .inputValue { d with description? }
  | enumValueDescription (d : EnumValueDefinition) :
    HasOption (fun s => .value (.string s)) fun description? => .enumValue { d with description? }

/-! ## Single parts -/

/-- The places in a node for single parts. -/
inductive Node.HasPart : {α : Type} → (α → Node) → (α → Node) → Prop
  | entry {α : Type} {toNode : α → Node} {fill : List α → Node} (h : HasList toNode fill)
      (before after : List α) :
    HasPart toNode fun x => fill (before ++ x :: after)
  | present {α : Type} {toNode : α → Node} {fill : Option α → Node} (h : HasOption toNode fill) :
    HasPart toNode fun x => fill (some x)
  | argumentValue (name : String) : HasPart .value fun v => .argument ⟨name, v⟩
  | objectFieldValue (name : String) : HasPart .value fun v => .objectField ⟨name, v⟩
  | listItem : HasPart .type fun t => .type (.list t)
  | nonNull : HasPart .type fun t => .type (.nonNull t)
  | fieldSelections (f : Field) :
    HasPart .selectionSet fun ss => .selection (.field { f with selections := ss })
  | inlineSelections (f : InlineFragment) :
    HasPart .selectionSet fun ss => .selection (.inlineFragment { f with selections := ss })
  | definedVariable (d : VariableDefinition) :
    HasPart (fun v => .value (.var v)) fun v => .variableDefinition { d with var := v }
  | variableType (d : VariableDefinition) :
    HasPart .type fun t => .variableDefinition { d with type := t }
  | operationSelections (d : OperationDefinition) :
    HasPart .selectionSet fun ss => .definition (.operation { d with selections := ss })
  | fragmentCondition (d : FragmentDefinition) :
    HasPart (fun t => .type (.named t)) fun t =>
      .definition (.fragment { d with typeCondition := t })
  | fragmentSelections (d : FragmentDefinition) :
    HasPart .selectionSet fun ss => .definition (.fragment { d with selections := ss })
  | operationType (d : OperationTypeDefinition) :
    HasPart (fun t => .type (.named t)) fun t => .operationType { d with type := t }
  | fieldType (d : FieldDefinition) : HasPart .type fun t => .fieldDefinition { d with type := t }
  | inputValueType (d : InputValueDefinition) :
    HasPart .type fun t => .inputValue { d with type := t }

/-! ## Completeness -/

/-- One node stands at a place in another, or is a name. -/
def Node.HasChild (n m : Node) : Prop :=
  (∃ text, m = .name text) ∨
    ∃ (α : Type) (toNode fill : α → Node) (x : α), HasPart toNode fill ∧ fill x = n ∧ toNode x = m

namespace Node

variable {α : Type} {toNode : α → Node} {m : Node}

theorem HasPart.hasChild {fill : α → Node} (h : HasPart toNode fill) (x : α) :
  (fill x).HasChild (toNode x)
  := .inr ⟨α, toNode, fill, x, h, rfl, rfl⟩

theorem HasList.hasChild {fill : List α → Node} (h : HasList toNode fill) {xs : List α}
    (hm : .node m ∈ Content.each toNode xs) :
  (fill xs).HasChild m
  := by
  obtain ⟨x, hx, rfl⟩ := Content.mem_each.mp hm
  obtain ⟨before, after, rfl⟩ := List.append_of_mem hx
  apply (HasPart.entry h before after).hasChild

theorem HasOption.hasChild {fill : Option α → Node} (h : HasOption toNode fill) {x? : Option α}
    (hm : .node m ∈ Content.each toNode x?.toList) :
  (fill x?).HasChild m
  := by
  obtain ⟨x, hx, rfl⟩ := Content.mem_each.mp hm
  obtain rfl := Option.mem_toList.mp hx
  apply (HasPart.present h).hasChild

theorem hasChild_of_mem_named {n : Node} {text : String} (hm : .node m ∈ Content.named text) :
  n.HasChild m
  := .inl ⟨text, Content.mem_named.mp hm⟩

theorem HasPart.hasChild_of_mem {fill : α → Node} (h : HasPart toNode fill) {x : α}
    (hm : Content.node m ∈ [.node (toNode x)]) :
  (fill x).HasChild m
  := by
  simp only [List.mem_singleton, Content.node.injEq] at hm
  rw [hm]
  apply h.hasChild

end Node

open Node Content

variable {m : Node}

/-- Each part of a declaration stands at a place in the nodes around the declaration. -/
theorem Declaration.hasChild_of_mem_contents {d : Declaration} {around : Declaration → Node}
    (haround : ∀ {α : Type} {toNode : α → Node} {fill : List α → Declaration},
      Declaration.HasList toNode fill → Node.HasList toNode fun xs => around (fill xs))
    (h : .node m ∈ d.contents) :
  (around d).HasChild m
  := by
  cases d with
  | schema ds operationTypes =>
    simp only [contents, List.mem_append, not_mem_keyword, false_or] at h
    rcases h with h | h
    · apply (haround (.schemaDirectives operationTypes)).hasChild h
    · apply (haround (.operationTypes ds)).hasChild h
  | scalar name ds =>
    rcases List.mem_append.mp h with h | h
    · apply hasChild_of_mem_named h
    · apply (haround (.scalarDirectives name)).hasChild h
  | object name interfaces ds fields =>
    simp only [contents, List.mem_append] at h
    rcases h with ((h | h) | h) | h
    · apply hasChild_of_mem_named h
    · apply (haround (.objectInterfaces name ds fields)).hasChild h
    · apply (haround (.objectDirectives name interfaces fields)).hasChild h
    · apply (haround (.objectFields name interfaces ds)).hasChild h
  | interface name interfaces ds fields =>
    simp only [contents, List.mem_append] at h
    rcases h with ((h | h) | h) | h
    · apply hasChild_of_mem_named h
    · apply (haround (.interfaceInterfaces name ds fields)).hasChild h
    · apply (haround (.interfaceDirectives name interfaces fields)).hasChild h
    · apply (haround (.interfaceFields name interfaces ds)).hasChild h
  | union name ds members =>
    simp only [contents, List.mem_append] at h
    rcases h with (h | h) | h
    · apply hasChild_of_mem_named h
    · apply (haround (.unionDirectives name members)).hasChild h
    · apply (haround (.unionMembers name ds)).hasChild h
  | enum name ds values =>
    simp only [contents, List.mem_append] at h
    rcases h with (h | h) | h
    · apply hasChild_of_mem_named h
    · apply (haround (.enumDirectives name values)).hasChild h
    · apply (haround (.enumValues name ds)).hasChild h
  | inputObject name ds fields =>
    simp only [contents, List.mem_append] at h
    rcases h with (h | h) | h
    · apply hasChild_of_mem_named h
    · apply (haround (.inputObjectDirectives name fields)).hasChild h
    · apply (haround (.inputObjectFields name ds)).hasChild h

theorem Definition.hasChild_of_mem_contents {d : Definition} (h : .node m ∈ d.contents) :
  (Node.definition d).HasChild m
  := by
  cases d with
  | operation d =>
    simp only [contents, List.mem_append, not_mem_keyword, false_or] at h
    rcases h with ((h | h) | h) | h
    · apply (HasOption.operationName d).hasChild h
    · apply (HasList.variableDefinitions d).hasChild h
    · apply (HasList.operationDirectives d).hasChild h
    · apply (HasPart.operationSelections d).hasChild_of_mem h
  | fragment d =>
    simp only [contents, List.mem_append] at h
    rcases h with ((h | h) | h) | h
    · apply hasChild_of_mem_named h
    · apply (HasPart.fragmentCondition d).hasChild_of_mem h
    · apply (HasList.fragmentDirectives d).hasChild h
    · apply (HasPart.fragmentSelections d).hasChild_of_mem h
  | define description? d =>
    rcases List.mem_append.mp h with h | h
    · apply (HasOption.declarationDescription d).hasChild h
    · apply d.hasChild_of_mem_contents (.define description?) h
  | directive d =>
    simp only [contents, List.mem_append, List.mem_flatMap, not_mem_keyword, and_false,
      exists_false, or_false] at h
    rcases h with ((h | h) | h) | h
    · apply (HasOption.directiveDescription d).hasChild h
    · apply hasChild_of_mem_named h
    · apply (HasList.directiveDefinitionArguments d).hasChild h
    · split at h
      · exact absurd h not_mem_keyword
      · contradiction
  | extend d => apply d.hasChild_of_mem_contents .extend h

theorem Selection.hasChild_of_mem_contents {s : Selection} (h : .node m ∈ s.contents) :
  (Node.selection s).HasChild m
  := by
  cases s with
  | field f =>
    obtain ⟨alias?, name, args, ds, ss⟩ := f
    simp only [contents, List.mem_append] at h
    rcases h with (((h | h) | h) | h) | h
    · apply (HasOption.fieldAlias ⟨alias?, name, args, ds, ss⟩).hasChild h
    · apply hasChild_of_mem_named h
    · apply (HasList.fieldArguments ⟨alias?, name, args, ds, ss⟩).hasChild h
    · apply (HasList.fieldDirectives ⟨alias?, name, args, ds, ss⟩).hasChild h
    · apply (HasPart.fieldSelections ⟨alias?, name, args, ds, ss⟩).hasChild_of_mem h
  | fragmentSpread s =>
    rcases List.mem_append.mp h with h | h
    · apply hasChild_of_mem_named h
    · apply (HasList.spreadDirectives s).hasChild h
  | inlineFragment f =>
    obtain ⟨typeCondition?, ds, ss⟩ := f
    simp only [contents, List.mem_append] at h
    rcases h with (h | h) | h
    · apply (HasOption.typeCondition ⟨typeCondition?, ds, ss⟩).hasChild h
    · apply (HasList.inlineDirectives ⟨typeCondition?, ds, ss⟩).hasChild h
    · apply (HasPart.inlineSelections ⟨typeCondition?, ds, ss⟩).hasChild_of_mem h

theorem Value.hasChild_of_mem_contents {v : Value} (h : .node m ∈ v.contents) :
  (Node.value v).HasChild m
  := by
  cases v with
  | var v => apply hasChild_of_mem_named h
  | list items => apply HasList.items.hasChild h
  | object fields => apply HasList.objectFields.hasChild h
  | boolean value => cases value <;> exact absurd h not_mem_keyword
  | null => exact absurd h not_mem_keyword
  | float text | int text | enum text => exact absurd h not_mem_raw
  | string s => simp [contents] at h

theorem TypeRef.hasChild_of_mem_contents {t : TypeRef} (h : .node m ∈ t.contents) :
  (Node.type t).HasChild m
  := by
  cases t with
  | named t => apply hasChild_of_mem_named h
  | list t => apply HasPart.listItem.hasChild_of_mem h
  | nonNull t => apply HasPart.nonNull.hasChild_of_mem h

/-- Each node in the contents of another stands at a place in it, names apart. -/
theorem Node.hasChild_of_mem_contents {n : Node} (h : .node m ∈ n.contents) :
  n.HasChild m
  := by
  cases n with
  | name text => exact absurd h not_mem_raw
  | document d => apply HasList.definitions.hasChild h
  | definition d => apply d.hasChild_of_mem_contents h
  | variableDefinition d =>
    simp only [contents, List.mem_append, List.mem_cons, node.injEq, List.not_mem_nil, or_false]
      at h
    rcases h with ((rfl | rfl) | h) | h
    · apply (HasPart.definedVariable d).hasChild
    · apply (HasPart.variableType d).hasChild
    · apply (HasOption.variableDefault d).hasChild h
    · apply (HasList.variableDirectives d).hasChild h
  | selectionSet ss => apply HasList.selections.hasChild h
  | selection s => apply s.hasChild_of_mem_contents h
  | argument a =>
    rcases List.mem_append.mp h with h | h
    · apply hasChild_of_mem_named h
    · apply (HasPart.argumentValue a.name).hasChild_of_mem h
  | value v => apply v.hasChild_of_mem_contents h
  | objectField f =>
    obtain ⟨name, value⟩ := f
    rcases List.mem_append.mp h with h | h
    · apply hasChild_of_mem_named h
    · apply (HasPart.objectFieldValue name).hasChild_of_mem h
  | directive d =>
    rcases List.mem_append.mp h with h | h
    · apply hasChild_of_mem_named h
    · apply (HasList.directiveArguments d).hasChild h
  | type t => apply t.hasChild_of_mem_contents h
  | operationType d =>
    simp only [contents, List.mem_append, not_mem_keyword, false_or] at h
    apply (HasPart.operationType d).hasChild_of_mem h
  | fieldDefinition d =>
    simp only [contents, List.mem_append] at h
    rcases h with (((h | h) | h) | h) | h
    · apply (HasOption.fieldDescription d).hasChild h
    · apply hasChild_of_mem_named h
    · apply (HasList.fieldDefinitionArguments d).hasChild h
    · apply (HasPart.fieldType d).hasChild_of_mem h
    · apply (HasList.fieldDefinitionDirectives d).hasChild h
  | inputValue d =>
    simp only [contents, List.mem_append] at h
    rcases h with (((h | h) | h) | h) | h
    · apply (HasOption.inputValueDescription d).hasChild h
    · apply hasChild_of_mem_named h
    · apply (HasPart.inputValueType d).hasChild_of_mem h
    · apply (HasOption.inputValueDefault d).hasChild h
    · apply (HasList.inputValueDirectives d).hasChild h
  | enumValue d =>
    simp only [contents, List.mem_append] at h
    rcases h with (h | h) | h
    · apply (HasOption.enumValueDescription d).hasChild h
    · apply hasChild_of_mem_named h
    · apply (HasList.enumValueDirectives d).hasChild h

end GraphQLText
