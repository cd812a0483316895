import GraphQLText.Proofs.Tree.Place
import GraphQLText.Tree.Edit

/-!
# What edits change

An edit changes what stands at one place in a node.  `Node.append?` finds the list that a node
belongs to, in another one or in the selection set of that, and puts it at the end
(`Node.append?_eq_some_iff`); `Node.describe?` and `Node.rename?` change an optional part.  The
kind of a node does not depend on what stands at its places, so all these edits keep it, whereas
`Node.retag?` turns the kind of an extension into that of what it extends.
-/

namespace GraphQLText

/-! ## Kinds -/

/-- The form of a declaration is the same whatever its lists hold. -/
theorem Declaration.HasList.form_eq {α : Type} {toNode : α → Node} {fill : List α → Declaration}
    (h : Declaration.HasList toNode fill) (xs ys : List α) :
  (fill xs).form = (fill ys).form
  := by cases h <;> rfl

namespace Node

variable {α : Type} {toNode : α → Node}

/-- The kind of a node is the same whatever its lists hold. -/
theorem HasList.kind_eq {fill : List α → Node} (h : HasList toNode fill) (xs ys : List α) :
  (fill xs).kind = (fill ys).kind
  := by
  cases h with
  | define _ h => apply congrArg Kind.definition (h.form_eq xs ys)
  | extend h => apply congrArg Kind.extension (h.form_eq xs ys)
  | _ => rfl

/-- The kind of a node is the same whether an optional part is there or not. -/
theorem HasOption.kind_eq {fill : Option α → Node} (h : HasOption toNode fill) (x? y? : Option α) :
  (fill x?).kind = (fill y?).kind
  := by cases h <;> rfl

end Node

/-! ## Appending -/

namespace Declaration

/-- One declaration is another with a node more at the end of one of its lists. -/
inductive Appended : Declaration → Node → Declaration → Prop
  | list {α : Type} {toNode : α → Node} {fill : List α → Declaration}
      (h : Declaration.HasList toNode fill) (xs : List α) (x : α) :
    Appended (fill xs) (toNode x) (fill (xs ++ [x]))

theorem appended_addDirective (d : Declaration) (new : Directive) :
  d.Appended (.directive new) (d.addDirective new)
  := by
  cases d with
  | schema ds operationTypes => apply Appended.list (.schemaDirectives operationTypes)
  | scalar name ds => apply Appended.list (.scalarDirectives name)
  | object name interfaces ds fields =>
    apply Appended.list (.objectDirectives name interfaces fields)
  | interface name interfaces ds fields =>
    apply Appended.list (.interfaceDirectives name interfaces fields)
  | union name ds members => apply Appended.list (.unionDirectives name members)
  | enum name ds values => apply Appended.list (.enumDirectives name values)
  | inputObject name ds fields => apply Appended.list (.inputObjectDirectives name fields)

variable {d d' : Declaration}

theorem appended_addType? {new : NamedType} (h : d.addType? new = some d') :
  d.Appended (.type (.named new)) d'
  := by
  cases d with
  | object name interfaces ds fields =>
    cases h
    apply Appended.list (.objectInterfaces name ds fields)
  | interface name interfaces ds fields =>
    cases h
    apply Appended.list (.interfaceInterfaces name ds fields)
  | union name ds members =>
    cases h
    apply Appended.list (.unionMembers name ds)
  | _ => contradiction

theorem appended_addField? {new : FieldDefinition} (h : d.addField? new = some d') :
  d.Appended (.fieldDefinition new) d'
  := by
  cases d with
  | object name interfaces ds fields =>
    cases h
    apply Appended.list (.objectFields name interfaces ds)
  | interface name interfaces ds fields =>
    cases h
    apply Appended.list (.interfaceFields name interfaces ds)
  | _ => contradiction

theorem appended_addEnumValue? {new : EnumValueDefinition} (h : d.addEnumValue? new = some d') :
  d.Appended (.enumValue new) d'
  := by
  cases d with
  | enum name ds values =>
    cases h
    apply Appended.list (.enumValues name ds)
  | _ => contradiction

theorem appended_addInputValue? {new : InputValueDefinition}
    (h : d.addInputValue? new = some d') :
  d.Appended (.inputValue new) d'
  := by
  cases d with
  | inputObject name ds fields =>
    cases h
    apply Appended.list (.inputObjectFields name ds)
  | _ => contradiction

theorem appended_addOperationType? {new : OperationTypeDefinition}
    (h : d.addOperationType? new = some d') :
  d.Appended (.operationType new) d'
  := by
  cases d with
  | schema ds operationTypes =>
    cases h
    apply Appended.list (.operationTypes ds)
  | _ => contradiction

end Declaration

namespace Node

/-- The places for the selection set of a node. -/
inductive HasSelections : (SelectionSet → Node) → Prop
  | field (f : Field) : HasSelections fun ss => .selection (.field { f with selections := ss })
  | inlineFragment (f : InlineFragment) :
    HasSelections fun ss => .selection (.inlineFragment { f with selections := ss })
  | operation (d : OperationDefinition) :
    HasSelections fun ss => .definition (.operation { d with selections := ss })
  | fragment (d : FragmentDefinition) :
    HasSelections fun ss => .definition (.fragment { d with selections := ss })

/-- One node is another with a node more at the end of one of its lists, or at the end of its
selection set. -/
inductive Appended : Node → Node → Node → Prop
  | list {α : Type} {toNode : α → Node} {fill : List α → Node} (h : HasList toNode fill)
      (xs : List α) (x : α) :
    Appended (fill xs) (toNode x) (fill (xs ++ [x]))
  | selection {fill : SelectionSet → Node} (h : HasSelections fill) (ss : SelectionSet)
      (s : Selection) :
    Appended (fill ss) (.selection s) (fill (ss ++ [s]))

variable {parent child n : Node}

/-- What is appended to a node does not change its kind. -/
theorem Appended.kind_eq (h : parent.Appended child n) :
  n.kind = parent.kind
  := by
  cases h with
  | list h xs x => apply h.kind_eq
  | selection h => cases h <;> rfl

end Node

open Node

namespace Definition

variable {d d' : Definition} {child : Node}

theorem appended_mapDeclaration? {f : Declaration → Option Declaration}
    (hf : ∀ e e', f e = some e' → e.Appended child e') (h : d.mapDeclaration? f = some d') :
  Node.Appended (.definition d) child (.definition d')
  := by
  cases d with
  | define description? e =>
    obtain ⟨e', he, rfl⟩ := Option.map_eq_some_iff.mp h
    obtain ⟨hlist, xs, x⟩ := hf e e' he
    apply Appended.list (.define description? hlist)
  | extend e =>
    obtain ⟨e', he, rfl⟩ := Option.map_eq_some_iff.mp h
    obtain ⟨hlist, xs, x⟩ := hf e e' he
    apply Appended.list (.extend hlist)
  | _ => contradiction

theorem appended_addDirective? {new : Directive} (h : d.addDirective? new = some d') :
  Node.Appended (.definition d) (.directive new) (.definition d')
  := by
  cases d with
  | operation d =>
    cases h
    apply Appended.list (.operationDirectives d)
  | fragment d =>
    cases h
    apply Appended.list (.fragmentDirectives d)
  | directive d => contradiction
  | define description? d | extend d =>
    refine @appended_mapDeclaration? _ _ _ (fun e => some (e.addDirective new)) ?_ h
    intro e e' he
    cases he
    apply e.appended_addDirective

theorem appended_addSelection? {new : Selection} (h : d.addSelection? new = some d') :
  Node.Appended (.definition d) (.selection new) (.definition d')
  := by
  cases d with
  | operation d =>
    cases h
    apply Appended.selection (.operation d)
  | fragment d =>
    cases h
    apply Appended.selection (.fragment d)
  | _ => contradiction

theorem appended_addInputValue? {new : InputValueDefinition}
    (h : d.addInputValue? new = some d') :
  Node.Appended (.definition d) (.inputValue new) (.definition d')
  := by
  cases d with
  | directive d =>
    cases h
    apply Appended.list (.directiveDefinitionArguments d)
  | operation d | fragment d => contradiction
  | define description? d | extend d =>
    refine @appended_mapDeclaration? _ _ _ (fun e => e.addInputValue? new) ?_ h
    intro e e'
    apply Declaration.appended_addInputValue?

end Definition

namespace Selection

variable {s s' : Selection}

theorem appended_addDirective (s : Selection) (new : Directive) :
  Node.Appended (.selection s) (.directive new) (.selection (s.addDirective new))
  := by
  cases s with
  | field f =>
    obtain ⟨alias?, name, args, ds, ss⟩ := f
    apply Appended.list (.fieldDirectives ⟨alias?, name, args, ds, ss⟩)
  | fragmentSpread s => apply Appended.list (.spreadDirectives s)
  | inlineFragment f =>
    obtain ⟨typeCondition?, ds, ss⟩ := f
    apply Appended.list (.inlineDirectives ⟨typeCondition?, ds, ss⟩)

theorem appended_addSelection? {new : Selection} (h : s.addSelection? new = some s') :
  Node.Appended (.selection s) (.selection new) (.selection s')
  := by
  cases s with
  | field f =>
    obtain ⟨alias?, name, args, ds, ss⟩ := f
    cases h
    apply Appended.selection (.field ⟨alias?, name, args, ds, ss⟩)
  | fragmentSpread s => contradiction
  | inlineFragment f =>
    obtain ⟨typeCondition?, ds, ss⟩ := f
    cases h
    apply Appended.selection (.inlineFragment ⟨typeCondition?, ds, ss⟩)

end Selection

namespace Node

variable {parent child n n' : Node}

theorem appended_addDirective? {new : Directive} (h : parent.addDirective? new = some n) :
  parent.Appended (.directive new) n
  := by
  cases parent with
  | definition d =>
    obtain ⟨d', hd, rfl⟩ := Option.map_eq_some_iff.mp h
    apply Definition.appended_addDirective? hd
  | variableDefinition d =>
    cases h
    apply Appended.list (.variableDirectives d)
  | selection s =>
    cases h
    apply s.appended_addDirective
  | fieldDefinition d =>
    cases h
    apply Appended.list (.fieldDefinitionDirectives d)
  | inputValue d =>
    cases h
    apply Appended.list (.inputValueDirectives d)
  | enumValue d =>
    cases h
    apply Appended.list (.enumValueDirectives d)
  | _ => contradiction

theorem appended_addSelection? {new : Selection} (h : parent.addSelection? new = some n) :
  parent.Appended (.selection new) n
  := by
  cases parent with
  | selectionSet ss =>
    cases h
    apply Appended.list .selections
  | selection s =>
    obtain ⟨s', hs, rfl⟩ := Option.map_eq_some_iff.mp h
    apply Selection.appended_addSelection? hs
  | definition d =>
    obtain ⟨d', hd, rfl⟩ := Option.map_eq_some_iff.mp h
    apply Definition.appended_addSelection? hd
  | _ => contradiction

theorem appended_addArgument? {new : Argument} (h : parent.addArgument? new = some n) :
  parent.Appended (.argument new) n
  := by
  cases parent with
  | selection s =>
    cases s with
    | field f =>
      obtain ⟨alias?, name, args, ds, ss⟩ := f
      cases h
      apply Appended.list (.fieldArguments ⟨alias?, name, args, ds, ss⟩)
    | _ => contradiction
  | directive d =>
    cases h
    apply Appended.list (.directiveArguments d)
  | _ => contradiction

theorem appended_addInputValue? {new : InputValueDefinition}
    (h : parent.addInputValue? new = some n) :
  parent.Appended (.inputValue new) n
  := by
  cases parent with
  | definition d =>
    obtain ⟨d', hd, rfl⟩ := Option.map_eq_some_iff.mp h
    apply Definition.appended_addInputValue? hd
  | fieldDefinition d =>
    cases h
    apply Appended.list (.fieldDefinitionArguments d)
  | _ => contradiction

theorem appended_mapDeclaration? {f : Declaration → Option Declaration}
    (hf : ∀ d d', f d = some d' → d.Appended child d') (h : parent.mapDeclaration? f = some n) :
  parent.Appended child n
  := by
  cases parent with
  | definition d =>
    obtain ⟨d', hd, rfl⟩ := Option.map_eq_some_iff.mp h
    apply Definition.appended_mapDeclaration? hf hd
  | _ => contradiction

theorem appended_append? (h : parent.append? child = some n) :
  parent.Appended child n
  := by
  cases child with
  | directive d => apply appended_addDirective? h
  | selection s => apply appended_addSelection? h
  | argument a => apply appended_addArgument? h
  | inputValue d => apply appended_addInputValue? h
  | fieldDefinition d =>
    apply appended_mapDeclaration? (fun _ _ => Declaration.appended_addField?) h
  | enumValue d =>
    apply appended_mapDeclaration? (fun _ _ => Declaration.appended_addEnumValue?) h
  | operationType d =>
    apply appended_mapDeclaration? (fun _ _ => Declaration.appended_addOperationType?) h
  | type t =>
    cases t with
    | named t => apply appended_mapDeclaration? (fun _ _ => Declaration.appended_addType?) h
    | _ => contradiction
  | value v =>
    cases parent with
    | value w =>
      cases w with
      | list items =>
        cases h
        apply Appended.list .items
      | _ => contradiction
    | _ => contradiction
  | objectField f =>
    cases parent with
    | value w =>
      cases w with
      | object fields =>
        cases h
        apply Appended.list .objectFields
      | _ => contradiction
    | _ => contradiction
  | variableDefinition v =>
    cases parent with
    | definition d =>
      cases d with
      | operation d =>
        cases h
        apply Appended.list (.variableDefinitions d)
      | _ => contradiction
    | _ => contradiction
  | definition d =>
    cases parent with
    | document doc =>
      cases h
      apply Appended.list .definitions
    | _ => contradiction
  | _ => contradiction

/-- A node can be appended to another just if that has a list for such nodes, in which it then
comes last.  A name cannot be appended, although the locations of a directive are a list of
names. -/
theorem append?_eq_some_iff :
  parent.append? child = some n ↔ parent.Appended child n ∧ ∀ text, child ≠ .name text
  := by
  constructor
  · intro h
    refine ⟨appended_append? h, ?_⟩
    rintro text rfl
    simp [append?] at h
  · rintro ⟨h, hname⟩
    cases h with
    | selection h => cases h <;> rfl
    | list h xs x =>
      cases h with
      | locations d => exact absurd rfl (hname x.text)
      | define description? h | extend h => cases h <;> rfl
      | _ => rfl

theorem kind_append? (h : parent.append? child = some n) :
  n.kind = parent.kind
  := (appended_append? h).kind_eq

/-! ## Optional parts -/

/-- A description goes to the place for it. -/
theorem hasOption_describe? {new? : Option StringValue} (h : n.describe? new? = some n') :
  ∃ fill old?, HasOption (fun s => .value (.string s)) fill ∧ fill old? = n ∧ fill new? = n'
  := by
  cases n with
  | definition d =>
    cases d with
    | define description? d =>
      cases h
      exact ⟨_, description?, .declarationDescription d, rfl, rfl⟩
    | directive d =>
      cases h
      exact ⟨_, d.description?, .directiveDescription d, rfl, rfl⟩
    | _ => contradiction
  | fieldDefinition d =>
    cases h
    exact ⟨_, d.description?, .fieldDescription d, rfl, rfl⟩
  | inputValue d =>
    cases h
    exact ⟨_, d.description?, .inputValueDescription d, rfl, rfl⟩
  | enumValue d =>
    cases h
    exact ⟨_, d.description?, .enumValueDescription d, rfl, rfl⟩
  | _ => contradiction

theorem kind_describe? {new? : Option StringValue} (h : n.describe? new? = some n') :
  n'.kind = n.kind
  := by
  obtain ⟨fill, old?, hfill, rfl, rfl⟩ := hasOption_describe? h
  apply hfill.kind_eq

theorem description?_describe? {new? : Option StringValue} (h : n.describe? new? = some n') :
  n'.description? = new?
  := by
  cases n with
  | definition d =>
    obtain ⟨d', hd, rfl⟩ := Option.map_eq_some_iff.mp h
    cases d <;> cases hd <;> rfl
  | fieldDefinition d | inputValue d | enumValue d =>
    cases h
    rfl
  | _ => contradiction

/-- The nodes that can be described are those whose kind takes a description. -/
theorem isSome_describe? (n : Node) (new? : Option StringValue) :
  (n.describe? new?).isSome = n.kind.takesDescription
  := by
  cases n with
  | definition d => cases d <;> rfl
  | selection s => cases s <;> rfl
  | value v => cases v <;> rfl
  | type t => cases t <;> rfl
  | _ => rfl

/-- An alias goes to the place for it. -/
theorem hasOption_rename? {new? : Option String} (h : n.rename? new? = some n') :
  ∃ fill old?, HasOption .name fill ∧ fill old? = n ∧ fill new? = n'
  := by
  cases n with
  | selection s =>
    cases s with
    | field f =>
      obtain ⟨alias?, name, args, ds, ss⟩ := f
      cases h
      exact ⟨_, alias?, .fieldAlias ⟨alias?, name, args, ds, ss⟩, rfl, rfl⟩
    | _ => contradiction
  | _ => contradiction

theorem kind_rename? {new? : Option String} (h : n.rename? new? = some n') :
  n'.kind = n.kind
  := by
  obtain ⟨fill, old?, hfill, rfl, rfl⟩ := hasOption_rename? h
  apply hfill.kind_eq

/-! ## Retagging -/

/-- The kind of a retagged extension is the one that its own kind extends. -/
theorem base?_kind_of_retag? (h : n.retag? = some n') :
  n.kind.base? = some n'.kind
  := by
  cases n with
  | definition d =>
    obtain ⟨d', hd, rfl⟩ := Option.map_eq_some_iff.mp h
    cases d with
    | extend d =>
      cases hd
      rfl
    | _ => contradiction
  | _ => contradiction

end Node

end GraphQLText
