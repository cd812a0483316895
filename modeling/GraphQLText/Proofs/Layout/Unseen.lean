import GraphQLText.Proofs.Layout.Solid
import GraphQLText.Proofs.Tree.Place

/-!
# Parts that print to nothing

The text of a node is made from the texts of its parts alone: of a list it has the texts that are
not empty (`Node.HasList.text_congr`), of an optional part its text, with a missing part counted
as one without text (`Node.HasOption.text_congr`), and of a single part its text
(`Node.HasPart.text_congr`).  So a part without text may come and go anywhere in a tree and a part
may give way to another one with its text, and the text of the tree stays what it is
(`Node.text_of_changes`).
-/

namespace GraphQLText

open Layout

/-! ## Texts of parts -/

/-- The texts of the parts in a list that have any. -/
def Node.visible {α : Type} (toNode : α → Node) (xs : List α) : List String :=
  (xs.map fun x => (toNode x).text).filter (· ≠ "")

/-- The text of a part that may be missing. -/
def Node.optional {α : Type} (toNode : α → Node) (x? : Option α) : String :=
  x?.elim "" fun x => (toNode x).text

namespace Layout

variable {l m : Layout}

/-- Two layouts without empty pieces have the same text. -/
structure Alike (l m : Layout) : Prop where
  left : l.Solid
  right : m.Solid
  text : l.text = m.text

theorem Alike.led (h : l.Alike m) (lead : String) :
  (led lead l).Alike (led lead m)
  := by
  constructor
  · apply (solid_led lead).mpr h.left
  · apply (solid_led lead).mpr h.right
  · rw [text_led lead h.left, text_led lead h.right, h.text]

theorem Alike.enclosed (h : l.Alike m) (lead close : String) :
  (enclosed lead l close).Alike (enclosed lead m close)
  := by
  constructor
  · apply (solid_enclosed lead close).mpr h.left
  · apply (solid_enclosed lead close).mpr h.right
  · rw [text_enclosed lead close h.left, text_enclosed lead close h.right, h.text]

theorem alike_node {n n' : Node} (h : n.text = n'.text) :
  n.layout.Alike n'.layout
  := ⟨n.solid, n'.solid, h⟩

section

variable {α : Type} {toNode : α → Node} {layout : α → Layout}

/-- Glued parts have the texts of the parts that are not empty. -/
theorem alike_glue (separator : String) {xs ys : List α}
    (hxs : Node.visible toNode xs = Node.visible toNode ys)
    (hlayout : ∀ x, (toNode x).layout = layout x) :
  (glue separator (xs.map layout)).Alike (glue separator (ys.map layout))
  := by
  have hsolid (xs : List α) : ∀ part ∈ xs.map layout, part.Solid := by
    rw [List.forall_mem_map]
    intro x _
    rw [← hlayout]
    apply Node.solid
  have htexts (xs : List α) :
      ((xs.map layout).map text).filter (· ≠ "") = Node.visible toNode xs := by
    rw [Node.visible, List.map_map]
    congr 2
    funext x
    rw [Function.comp_apply, ← hlayout, Node.text]
  constructor
  · apply (solid_glue separator _).mpr (hsolid xs)
  · apply (solid_glue separator _).mpr (hsolid ys)
  · rw [text_glue separator (hsolid xs), text_glue separator (hsolid ys), htexts, htexts, hxs]

/-- A part that may be missing has its text. -/
theorem alike_option {x? y? : Option α} (hx : Node.optional toNode x? = Node.optional toNode y?)
    (hlayout : ∀ x, (toNode x).layout = layout x) :
  Alike (x?.elim [] layout) (y?.elim [] layout)
  := by
  have hoption (x? : Option α) : Solid (x?.elim [] layout)
      ∧ Layout.text (x?.elim [] layout) = Node.optional toNode x? := by
    cases x? with
    | none => exact ⟨solid_nil, rfl⟩
    | some x =>
      rw [Option.elim_some, ← hlayout]
      exact ⟨(toNode x).solid, rfl⟩
  constructor
  · apply (hoption x?).1
  · apply (hoption y?).1
  · rw [(hoption x?).2, (hoption y?).2, hx]

theorem text_members_congr {xs ys : List α}
    (hxs : Node.visible toNode xs = Node.visible toNode ys)
    (hlayout : ∀ x, (toNode x).layout = layout x) :
  (members (xs.map layout)).text = (members (ys.map layout)).text
  := ((alike_glue ", " hxs hlayout).enclosed " \x7b " " \x7d").text

end

theorem text_applied_congr {ds ds' : List Directive}
    (h : Node.visible .directive ds = Node.visible .directive ds') :
  (led " " (applied ds)).text = (led " " (applied ds')).text
  := ((alike_glue " " h fun _ => rfl).led " ").text

theorem text_arguments_congr {args args' : List Argument}
    (h : Node.visible .argument args = Node.visible .argument args') :
  (enclosed "(" (glue ", " (args.map Argument.layout)) ")").text
    = (enclosed "(" (glue ", " (args'.map Argument.layout)) ")").text
  := ((alike_glue ", " h fun _ => rfl).enclosed "(" ")").text

theorem text_parameters_congr {ds ds' : List InputValueDefinition}
    (h : Node.visible .inputValue ds = Node.visible .inputValue ds') :
  (parameters ds).text = (parameters ds').text
  := ((alike_glue ", " h fun _ => rfl).enclosed "(" ")").text

theorem text_types_congr {ts ts' : List NamedType} (lead separator : String)
    (h : Node.visible (fun t => .type (.named t)) ts
      = Node.visible (fun t => .type (.named t)) ts') :
  (led lead (glue separator (ts.map NamedType.layout))).text
    = (led lead (glue separator (ts'.map NamedType.layout))).text
  := ((alike_glue separator h fun _ => rfl).led lead).text

theorem text_described_congr (description? : Option StringValue) (h : l.text = m.text) :
  (described description? l).text = (described description? m).text
  := by rw [described, described, text_append, text_append, h]

/-- A description has its text.  It is never without one. -/
theorem text_description_congr {x? y? : Option StringValue}
    (h : Node.optional (fun s => .value (.string s)) x?
      = Node.optional (fun s => .value (.string s)) y?) :
  (described x? l).text = (described y? l).text
  := by
  have hne (s : StringValue) : (Node.value (.string s)).text ≠ "" := by
    apply (Node.solid _).text_eq_empty_iff.not.mpr
    simp [Node.layout, Node.body, Node.description?, Value.layout, literal]
  cases x? with
  | none =>
    cases y? with
    | none => rfl
    | some t => exact absurd h.symm (hne t)
  | some s =>
    cases y? with
    | none => exact absurd h (hne s)
    | some t =>
      have htext : (literal s).text = (literal t).text := h
      simp only [described, Option.elim_some, text_append, htext]

end Layout

variable {α : Type} {toNode : α → Node}

/-! ## Lists in a node -/

/-- The text of a declaration has the texts of a list in it that are not empty. -/
theorem Declaration.HasList.text_congr {fill : List α → Declaration} {xs ys : List α}
    (h : Declaration.HasList toNode fill) (hxs : Node.visible toNode xs = Node.visible toNode ys) :
  (fill xs).layout.text = (fill ys).layout.text
  := by
  cases h with
  | schemaDirectives | scalarDirectives | unionDirectives | enumDirectives
  | inputObjectDirectives => simp only [layout, text_append, text_applied_congr hxs]
  | objectDirectives | interfaceDirectives =>
    simp only [layout, fieldsType, text_append, text_applied_congr hxs]
  | objectInterfaces | interfaceInterfaces =>
    simp only [layout, fieldsType, text_append, text_types_congr " implements " " & " hxs]
  | unionMembers => simp only [layout, text_append, text_types_congr " = " " | " hxs]
  | operationTypes | enumValues | inputObjectFields =>
    simp only [layout, text_append]
    congr 1
    exact text_members_congr hxs fun _ => rfl
  | objectFields | interfaceFields =>
    simp only [layout, fieldsType, text_append]
    congr 1
    exact text_members_congr hxs fun _ => rfl

namespace Node

/-- The text of a node has the texts of a list in it that are not empty. -/
theorem HasList.text_congr {fill : List α → Node} {xs ys : List α} (h : HasList toNode fill)
    (hxs : visible toNode xs = visible toNode ys) :
  (fill xs).text = (fill ys).text
  := by
  cases h with
  | definitions => exact (alike_glue "\n\n" hxs fun _ => rfl).text
  | selections => exact ((alike_glue ", " hxs fun _ => rfl).enclosed "\x7b " " \x7d").text
  | items =>
    have hitems : (glue ", " (xs.map Value.layout)).text = (glue ", " (ys.map Value.layout)).text :=
      (alike_glue ", " hxs fun _ => rfl).text
    simp only [text, layout, body, description?, described_none, Value.layout,
      Value.layouts_eq_map, text_append, hitems]
  | objectFields =>
    have hfields : (glue ", " (xs.map ObjectField.layout)).text
        = (glue ", " (ys.map ObjectField.layout)).text :=
      (alike_glue ", " hxs fun _ => rfl).text
    simp only [text, layout, body, description?, described_none, Value.layout,
      ObjectField.layouts_eq_map, text_append, hfields]
  | directiveArguments | fieldArguments =>
    simp only [text, layout, body, description?, described_none, Selection.layout, Field.layout,
      Directive.layout, text_append, text_arguments_congr hxs]
  | fieldDirectives | spreadDirectives | inlineDirectives | variableDirectives =>
    simp only [text, layout, body, description?, described_none, Selection.layout, Field.layout,
      FragmentSpread.layout, InlineFragment.layout, VariableDefinition.layout, text_append,
      text_applied_congr hxs]
  | operationDirectives | fragmentDirectives | fieldDefinitionDirectives | inputValueDirectives
  | enumValueDirectives =>
    apply text_described_congr
    simp only [body, Definition.body, OperationDefinition.layout, FragmentDefinition.layout,
      FieldDefinition.body, InputValueDefinition.body, EnumValueDefinition.body, text_append,
      text_applied_congr hxs]
  | variableDefinitions =>
    have hvariables : (enclosed "(" (glue ", " (xs.map VariableDefinition.layout)) ")").text
        = (enclosed "(" (glue ", " (ys.map VariableDefinition.layout)) ")").text :=
      ((alike_glue ", " hxs fun _ => rfl).enclosed "(" ")").text
    apply text_described_congr
    simp only [body, Definition.body, OperationDefinition.layout, text_append, hvariables]
  | fieldDefinitionArguments | directiveDefinitionArguments =>
    apply text_described_congr
    simp only [body, Definition.body, FieldDefinition.body, DirectiveDefinition.body, text_append,
      text_parameters_congr hxs]
  | locations =>
    have hlocations : (led " on " (glue " | " (xs.map fun l => word l.text))).text
        = (led " on " (glue " | " (ys.map fun l => word l.text))).text :=
      ((alike_glue " | " hxs fun _ => rfl).led " on ").text
    apply text_described_congr
    simp only [body, Definition.body, DirectiveDefinition.body, text_append, hlocations]
  | define description? h =>
    apply text_described_congr
    apply h.text_congr hxs
  | extend h =>
    apply text_described_congr
    simp only [body, Definition.body, text_append, h.text_congr hxs]

/-! ## Optional and single parts -/

/-- The text of a node has the text of a part that may be missing, which is none where the part
is missing. -/
theorem HasOption.text_congr {fill : Option α → Node} {x? y? : Option α}
    (h : HasOption toNode fill) (hx : optional toNode x? = optional toNode y?) :
  (fill x?).text = (fill y?).text
  := by
  cases h with
  | fieldAlias =>
    have halias : (enclosed "" (word? x?) ": ").text = (enclosed "" (word? y?) ": ").text :=
      ((alike_option hx fun _ => rfl).enclosed "" ": ").text
    simp only [text, layout, body, description?, described_none, Selection.layout, Field.layout,
      text_append, halias]
  | operationName =>
    have hname : (led " " (word? x?)).text = (led " " (word? y?)).text :=
      ((alike_option hx fun _ => rfl).led " ").text
    apply text_described_congr
    simp only [body, Definition.body, OperationDefinition.layout, text_append, hname]
  | typeCondition =>
    have hcondition : (led " on " (x?.elim [] NamedType.layout)).text
        = (led " on " (y?.elim [] NamedType.layout)).text :=
      ((alike_option hx fun _ => rfl).led " on ").text
    simp only [text, layout, body, description?, described_none, Selection.layout,
      InlineFragment.layout, text_append, hcondition]
  | variableDefault | inputValueDefault =>
    have hdefault : (led " = " (x?.elim [] Value.layout)).text
        = (led " = " (y?.elim [] Value.layout)).text :=
      ((alike_option hx fun _ => rfl).led " = ").text
    apply text_described_congr
    simp only [body, VariableDefinition.layout, InputValueDefinition.body, text_append, hdefault]
  | declarationDescription | directiveDescription | fieldDescription | inputValueDescription
  | enumValueDescription => apply text_description_congr hx

/-- The text of a node has the text of each part. -/
theorem HasPart.text_congr {fill : α → Node} {x y : α} (h : HasPart toNode fill)
    (hx : (toNode x).text = (toNode y).text) :
  (fill x).text = (fill y).text
  := by
  have hpart : (toNode x).layout.Alike (toNode y).layout := alike_node hx
  cases h with
  | entry h before after =>
    apply h.text_congr
    simp [visible, hx]
  | present h =>
    apply h.text_congr
    simpa [optional] using hx
  | argumentValue | objectFieldValue =>
    have hvalue : (led ": " x.layout).text = (led ": " y.layout).text := (hpart.led ": ").text
    simp only [text, layout, body, description?, described_none, Argument.layout,
      ObjectField.layout, named, text_append, hvalue]
  | listItem => exact (hpart.enclosed "[" "]").text
  | nonNull => exact (hpart.enclosed "" "!").text
  | fieldSelections | inlineSelections =>
    have hselections : (led " " (braced (x.map Selection.layout))).text
        = (led " " (braced (y.map Selection.layout))).text := (hpart.led " ").text
    simp only [text, layout, body, description?, described_none, Selection.layout, Field.layout,
      InlineFragment.layout, Selection.layouts_eq_map, text_append, hselections]
  | operationSelections =>
    have hselections : (SelectionSet.layout x).text = (SelectionSet.layout y).text := hx
    apply text_described_congr
    simp only [body, Definition.body, OperationDefinition.layout, text_append, hselections]
  | fragmentSelections =>
    have hselections : (led " " (SelectionSet.layout x)).text
        = (led " " (SelectionSet.layout y)).text := (hpart.led " ").text
    apply text_described_congr
    simp only [body, Definition.body, FragmentDefinition.layout, text_append, hselections]
  | definedVariable =>
    have hvariable : x.layout.text = y.layout.text := hx
    apply text_described_congr
    simp only [body, VariableDefinition.layout, text_append, hvariable]
  | variableType | fieldType | inputValueType =>
    have htype : (led ": " x.layout).text = (led ": " y.layout).text := (hpart.led ": ").text
    apply text_described_congr
    simp only [body, VariableDefinition.layout, FieldDefinition.body, InputValueDefinition.body,
      named, text_append, htype]
  | fragmentCondition =>
    have hcondition : (led " on " x.layout).text = (led " on " y.layout).text :=
      (hpart.led " on ").text
    apply text_described_congr
    simp only [body, Definition.body, FragmentDefinition.layout, text_append, hcondition]
  | operationType =>
    have htype : (led ": " x.layout).text = (led ": " y.layout).text := (hpart.led ": ").text
    apply text_described_congr
    simp only [body, OperationTypeDefinition.layout, named, text_append, htype]

/-! ## Changes that are not seen -/

/-- One node is another one with a part changed that prints to nothing before or after, or with
its text: such a part has come or gone, in a list or where it may be missing, or a part with the
same text has taken its place, in the node itself or anywhere inside it. -/
inductive Change : Node → Node → Prop
  | insert {α : Type} {toNode : α → Node} {fill : List α → Node} (h : HasList toNode fill)
      (before after : List α) (x : α) (hx : (toNode x).text = "") :
    Change (fill (before ++ after)) (fill (before ++ x :: after))
  | delete {α : Type} {toNode : α → Node} {fill : List α → Node} (h : HasList toNode fill)
      (before after : List α) (x : α) (hx : (toNode x).text = "") :
    Change (fill (before ++ x :: after)) (fill (before ++ after))
  | add {α : Type} {toNode : α → Node} {fill : Option α → Node} (h : HasOption toNode fill)
      (x : α) (hx : (toNode x).text = "") :
    Change (fill none) (fill (some x))
  | remove {α : Type} {toNode : α → Node} {fill : Option α → Node} (h : HasOption toNode fill)
      (x : α) (hx : (toNode x).text = "") :
    Change (fill (some x)) (fill none)
  | replace {α : Type} {toNode fill : α → Node} (h : HasPart toNode fill) (x y : α)
      (hx : (toNode x).text = (toNode y).text) :
    Change (fill x) (fill y)
  | inside {α : Type} {toNode fill : α → Node} (h : HasPart toNode fill) (x y : α)
      (hx : Change (toNode x) (toNode y)) :
    Change (fill x) (fill y)

theorem visible_insert (before after : List α) {x : α} (hx : (toNode x).text = "") :
  visible toNode (before ++ x :: after) = visible toNode (before ++ after)
  := by simp [visible, hx]

theorem optional_some {x : α} (hx : (toNode x).text = "") :
  optional toNode (some x) = optional toNode none
  := hx

/-- A single change leaves the text of the node as it is. -/
theorem Change.text_eq {n m : Node} (h : Change n m) :
  m.text = n.text
  := by
  induction h with
  | insert h before after x hx => apply h.text_congr (visible_insert before after hx)
  | delete h before after x hx => apply h.text_congr (visible_insert before after hx).symm
  | add h x hx => apply h.text_congr (optional_some hx)
  | remove h x hx => apply h.text_congr (optional_some hx).symm
  | replace h x y hx => apply h.text_congr hx.symm
  | inside h x y hx ih => apply h.text_congr ih

/-- However many parts that print to nothing have come or gone in a tree, and however many parts
have been replaced by others with their texts, the text of the tree is the same. -/
theorem text_of_changes {n m : Node} (h : Relation.ReflTransGen Change n m) :
  m.text = n.text
  := by
  induction h with
  | refl => rfl
  | tail _ hchange ih => rw [hchange.text_eq, ih]

/-- A selection set, and the same one with a spread before its field, an alias and a directive of
the field, and a selection below the field, none of which is printed, and with another value that
is written alike. -/
theorem text_of_changes_limit :
  Relation.ReflTransGen Change
      (.selectionSet [.field ⟨none, "id", [⟨"limit", .int "1"⟩], [], []⟩])
      (.selectionSet [.fragmentSpread ⟨"", []⟩,
        .field ⟨some "", "id", [⟨"limit", .enum "1"⟩], [⟨"", []⟩], [.fragmentSpread ⟨"", []⟩]⟩])
    ∧ (Node.selectionSet [.fragmentSpread ⟨"", []⟩,
        .field ⟨some "", "id", [⟨"limit", .enum "1"⟩], [⟨"", []⟩],
          [.fragmentSpread ⟨"", []⟩]⟩]).text
      = (Node.selectionSet [.field ⟨none, "id", [⟨"limit", .int "1"⟩], [], []⟩]).text
  := by
  have hspread : (Node.selection (.fragmentSpread ⟨"", []⟩)).text = "" := rfl
  have hdirective : (Node.directive ⟨"", []⟩).text = "" := rfl
  have hentry : HasPart .selection fun s => .selectionSet [.fragmentSpread ⟨"", []⟩, s] :=
    .entry .selections [.fragmentSpread ⟨"", []⟩] []
  have hargument (f : Field) : HasPart .argument fun a =>
      .selection (.field { f with arguments := [a] }) :=
    .entry (.fieldArguments f) [] []
  have h : Relation.ReflTransGen Change
      (.selectionSet [.field ⟨none, "id", [⟨"limit", .int "1"⟩], [], []⟩])
      (.selectionSet [.fragmentSpread ⟨"", []⟩,
        .field ⟨some "", "id", [⟨"limit", .enum "1"⟩], [⟨"", []⟩],
          [.fragmentSpread ⟨"", []⟩]⟩]) := by
    apply Relation.ReflTransGen.head
    · apply Change.insert .selections [] _ _ hspread
    apply Relation.ReflTransGen.head
    · apply Change.inside hentry
      apply Change.add (.fieldAlias ⟨none, "id", [⟨"limit", .int "1"⟩], [], []⟩) "" rfl
    apply Relation.ReflTransGen.head
    · apply Change.inside hentry
      apply Change.insert (.fieldDirectives ⟨some "", "id", [⟨"limit", .int "1"⟩], [], []⟩) [] []
      apply hdirective
    apply Relation.ReflTransGen.head
    · apply Change.inside hentry
      apply Change.inside (hargument ⟨some "", "id", [], [⟨"", []⟩], []⟩)
      apply Change.replace (.argumentValue "limit") (.int "1") (.enum "1") rfl
    apply Relation.ReflTransGen.single
    apply Change.inside hentry
    apply Change.inside (.fieldSelections ⟨some "", "id", [⟨"limit", .enum "1"⟩], [⟨"", []⟩], []⟩)
    apply Change.insert .selections [] [] _ hspread
  exact ⟨h, text_of_changes h⟩

end Node

end GraphQLText
