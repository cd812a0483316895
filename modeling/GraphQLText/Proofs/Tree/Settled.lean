import GraphQLText.Proofs.Grammar.Literal
import GraphQLText.Layout.Node

/-!
# Settled trees

A block string that no block literal denotes is written as a quoted string and comes back as
one.  A tree is settled when this has been done to all strings in it.  Nothing else about the
tree is different, and neither is its text (`Document.settled_text`).
-/

namespace GraphQLText

/-! ## Trees -/

mutual

/-- A value after it has been written and read. -/
def Value.settled : Value → Value
  | .string s => .string s.settled
  | .list items => .list (Value.settledAll items)
  | .object fields => .object (ObjectField.settledAll fields)
  | v => v

/-- A field of an object literal after it has been written and read. -/
def ObjectField.settled : ObjectField → ObjectField
  | ⟨name, value⟩ => ⟨name, value.settled⟩

/-- Several values after they have been written and read. -/
def Value.settledAll : List Value → List Value
  | [] => []
  | v :: vs => v.settled :: Value.settledAll vs

/-- Several fields after they have been written and read. -/
def ObjectField.settledAll : List ObjectField → List ObjectField
  | [] => []
  | f :: fs => f.settled :: ObjectField.settledAll fs

end

@[simp]
theorem Value.settledAll_eq_map (vs : List Value) :
  Value.settledAll vs = vs.map Value.settled
  := by
  induction vs with
  | nil => rfl
  | cons v vs ih => simp [Value.settledAll, ih]

@[simp]
theorem ObjectField.settledAll_eq_map (fs : List ObjectField) :
  ObjectField.settledAll fs = fs.map ObjectField.settled
  := by
  induction fs with
  | nil => rfl
  | cons f fs ih => simp [ObjectField.settledAll, ih]

theorem ObjectField.settled_eq (f : ObjectField) :
  f.settled = ⟨f.name, f.value.settled⟩
  := by
  cases f
  rfl

/-- An argument after it has been written and read. -/
def Argument.settled (a : Argument) : Argument := { a with value := a.value.settled }

/-- A directive after it has been written and read. -/
def Directive.settled (d : Directive) : Directive :=
  { d with arguments := d.arguments.map Argument.settled }

mutual

/-- A selection after it has been written and read. -/
def Selection.settled : Selection → Selection
  | .field f => .field f.settled
  | .fragmentSpread ⟨name, ds⟩ => .fragmentSpread ⟨name, ds.map Directive.settled⟩
  | .inlineFragment f => .inlineFragment f.settled

/-- A field after it has been written and read. -/
def Field.settled : Field → Field
  | ⟨alias?, name, args, ds, selections⟩ =>
    ⟨alias?, name, args.map Argument.settled, ds.map Directive.settled,
      Selection.settledAll selections⟩

/-- An inline fragment after it has been written and read. -/
def InlineFragment.settled : InlineFragment → InlineFragment
  | ⟨typeCondition?, ds, selections⟩ =>
    ⟨typeCondition?, ds.map Directive.settled, Selection.settledAll selections⟩

/-- Several selections after they have been written and read. -/
def Selection.settledAll : List Selection → List Selection
  | [] => []
  | s :: ss => s.settled :: Selection.settledAll ss

end

@[simp]
theorem Selection.settledAll_eq_map (ss : List Selection) :
  Selection.settledAll ss = ss.map Selection.settled
  := by
  induction ss with
  | nil => rfl
  | cons s ss ih => simp [Selection.settledAll, ih]

/-- A variable of an operation after it has been written and read. -/
def VariableDefinition.settled (d : VariableDefinition) : VariableDefinition :=
  { d with
    default? := d.default?.map Value.settled
    directives := d.directives.map Directive.settled }

/-- An operation after it has been written and read. -/
def OperationDefinition.settled (d : OperationDefinition) : OperationDefinition :=
  { d with
    variableDefinitions := d.variableDefinitions.map VariableDefinition.settled
    directives := d.directives.map Directive.settled
    selections := d.selections.map Selection.settled }

/-- A named fragment after it has been written and read. -/
def FragmentDefinition.settled (d : FragmentDefinition) : FragmentDefinition :=
  { d with
    directives := d.directives.map Directive.settled
    selections := d.selections.map Selection.settled }

/-- An input value after it has been written and read. -/
def InputValueDefinition.settled (d : InputValueDefinition) : InputValueDefinition :=
  { d with
    description? := d.description?.map StringValue.settled
    default? := d.default?.map Value.settled
    directives := d.directives.map Directive.settled }

/-- A field of a type after it has been written and read. -/
def FieldDefinition.settled (d : FieldDefinition) : FieldDefinition :=
  { d with
    description? := d.description?.map StringValue.settled
    arguments := d.arguments.map InputValueDefinition.settled
    directives := d.directives.map Directive.settled }

/-- A value of an enum after it has been written and read. -/
def EnumValueDefinition.settled (d : EnumValueDefinition) : EnumValueDefinition :=
  { d with
    description? := d.description?.map StringValue.settled
    directives := d.directives.map Directive.settled }

/-- The definition of a directive after it has been written and read. -/
def DirectiveDefinition.settled (d : DirectiveDefinition) : DirectiveDefinition :=
  { d with
    description? := d.description?.map StringValue.settled
    arguments := d.arguments.map InputValueDefinition.settled }

/-- A declaration after it has been written and read. -/
def Declaration.settled : Declaration → Declaration
  | .schema ds types => .schema (ds.map Directive.settled) types
  | .scalar name ds => .scalar name (ds.map Directive.settled)
  | .object name interfaces ds fields =>
    .object name interfaces (ds.map Directive.settled) (fields.map FieldDefinition.settled)
  | .interface name interfaces ds fields =>
    .interface name interfaces (ds.map Directive.settled) (fields.map FieldDefinition.settled)
  | .union name ds types => .union name (ds.map Directive.settled) types
  | .enum name ds values =>
    .enum name (ds.map Directive.settled) (values.map EnumValueDefinition.settled)
  | .inputObject name ds fields =>
    .inputObject name (ds.map Directive.settled) (fields.map InputValueDefinition.settled)

/-- A definition after it has been written and read. -/
def Definition.settled : Definition → Definition
  | .operation d => .operation d.settled
  | .fragment d => .fragment d.settled
  | .define description? d => .define (description?.map StringValue.settled) d.settled
  | .directive d => .directive d.settled
  | .extend d => .extend d.settled

/-- A document after it has been written and read. -/
def Document.settled (d : Document) : Document := ⟨d.definitions.map Definition.settled⟩

/-! ## Layouts -/

/-- The piece with the string of a literal settled. -/
def Piece.settled : Piece → Piece
  | .literal s => .literal s.settled
  | p => p

/-- The layout with the strings of all literals settled. -/
def Layout.settled (l : Layout) : Layout := l.map Piece.settled

/-- A string has the same placement when it has been settled. -/
theorem StringValue.settled_placement? (s : StringValue) :
  s.settled.placement? = s.placement?
  := by
  obtain ⟨value, block⟩ := s
  cases hplace : Block.placement? value.toList with
  | none => simp [settled, placement?, hplace]
  | some p => simp [settled, placement?, hplace]

/-- A string is written in the same way when it has been settled. -/
theorem StringValue.settled_text (s : StringValue) :
  s.settled.text = s.text
  := by
  rw [text, text, chars, chars, settled_placement?]
  rfl

namespace Layout

/-- Settling the strings of a layout does not change its text. -/
theorem settled_text (l : Layout) :
  l.settled.text = l.text
  := by
  have hpiece : Piece.text ∘ Piece.settled = Piece.text := by
    funext p
    cases p with
    | literal s => exact s.settled_text
    | mark text => rfl
    | word text => rfl
  rw [text, text, settled, List.map_map, hpiece]

@[simp]
theorem settled_nil :
  settled [] = []
  := rfl

@[simp]
theorem settled_append (l m : Layout) :
  (l ++ m).settled = l.settled ++ m.settled
  := List.map_append

@[simp]
theorem settled_eq_nil {l : Layout} :
  l.settled = [] ↔ l = []
  := List.map_eq_nil_iff

@[simp]
theorem settled_mark (text : String) :
  (mark text).settled = mark text
  := by
  rw [mark]
  split
  · rfl
  · rfl

@[simp]
theorem settled_word (text : String) :
  (word text).settled = word text
  := by
  rw [word]
  split
  · rfl
  · rfl

@[simp]
theorem settled_word? (text? : Option String) :
  (word? text?).settled = word? text?
  := by cases text? <;> simp

@[simp]
theorem settled_literal (s : StringValue) :
  (literal s).settled = literal s.settled
  := rfl

@[simp]
theorem settled_led (lead : String) (part : Layout) :
  (led lead part).settled = led lead part.settled
  := by
  by_cases h : part = []
  · simp [h]
  · simp [led, h]

@[simp]
theorem settled_enclosed (lead : String) (part : Layout) (close : String) :
  (enclosed lead part close).settled = enclosed lead part.settled close
  := by
  by_cases h : part = []
  · simp [h]
  · simp [enclosed, h]

@[simp]
theorem settled_glue (separator : String) (parts : List Layout) :
  (glue separator parts).settled = glue separator (parts.map settled)
  := by
  induction parts with
  | nil => rfl
  | cons part parts ih =>
    by_cases h : part = []
    · simp [glue, h, ih]
    · simp [glue, h, ih]

@[simp]
theorem settled_described (description? : Option StringValue) (body : Layout) :
  (described description? body).settled
    = described (description?.map StringValue.settled) body.settled
  := by
  cases description? with
  | none => rfl
  | some s => simp [described]

/-- The layouts of settled parts are the settled layouts of the parts. -/
theorem settled_map {ι : Type} {layout : ι → Layout} {change : ι → ι}
    (h : ∀ x, layout (change x) = (layout x).settled) (xs : List ι) :
  (xs.map layout).map settled = (xs.map change).map layout
  := by
  rw [List.map_map, List.map_map]
  exact List.map_congr_left fun x _ => (h x).symm

end Layout

/-! ## The layout of a settled tree -/

open Layout

mutual

theorem Value.settled_layout (v : Value) :
  v.settled.layout = v.layout.settled
  := by
  cases v with
  | list items =>
    have h := Value.settledAll_layouts items
    simp only [Value.settled, Value.layout, settled_append, settled_mark, settled_glue, h]
  | object fields =>
    have h := ObjectField.settledAll_layouts fields
    simp only [Value.settled, Value.layout, settled_append, settled_mark, settled_glue, h]
  | string s => rfl
  | _ => simp [Value.settled, Value.layout, Variable.layout, truth]

theorem ObjectField.settled_layout (f : ObjectField) :
  f.settled.layout = f.layout.settled
  := by
  obtain ⟨name, value⟩ := f
  simp [ObjectField.settled, ObjectField.layout, named, value.settled_layout]

theorem Value.settledAll_layouts (vs : List Value) :
  Value.layouts (Value.settledAll vs) = (Value.layouts vs).map Layout.settled
  := by
  cases vs with
  | nil => rfl
  | cons v vs =>
    simp only [Value.settledAll, Value.layouts, List.map_cons, v.settled_layout,
      Value.settledAll_layouts vs]

theorem ObjectField.settledAll_layouts (fs : List ObjectField) :
  ObjectField.layouts (ObjectField.settledAll fs) = (ObjectField.layouts fs).map Layout.settled
  := by
  cases fs with
  | nil => rfl
  | cons f fs =>
    simp only [ObjectField.settledAll, ObjectField.layouts, List.map_cons, f.settled_layout,
      ObjectField.settledAll_layouts fs]

end

theorem Value.settled_layout? (v? : Option Value) :
  Layout.settled (v?.elim [] Value.layout) = v?.elim [] (Value.layout ∘ Value.settled)
  := by
  cases v? with
  | none => rfl
  | some v => exact v.settled_layout.symm

theorem Argument.settled_layout (a : Argument) :
  a.settled.layout = a.layout.settled
  := by
  simp [Argument.settled, Argument.layout, named, Value.settled_layout]

theorem Directive.settled_layout (d : Directive) :
  d.settled.layout = d.layout.settled
  := by
  simp [Directive.settled, Directive.layout, settled_map Argument.settled_layout]

@[simp]
theorem Layout.settled_applied (ds : List Directive) :
  (applied ds).settled = applied (ds.map Directive.settled)
  := by
  rw [applied, settled_glue, settled_map Directive.settled_layout, applied]

@[simp]
theorem TypeRef.layout_settled (t : TypeRef) :
  t.layout.settled = t.layout
  := by
  induction t with
  | named t => simp [TypeRef.layout, NamedType.layout]
  | list item ih => simp [TypeRef.layout, ih]
  | nonNull t ih => simp [TypeRef.layout, ih]

mutual

theorem Selection.settled_layout (s : Selection) :
  s.settled.layout = s.layout.settled
  := by
  cases s with
  | field f => exact f.settled_layout
  | fragmentSpread s => simp [Selection.settled, Selection.layout, FragmentSpread.layout]
  | inlineFragment f => exact f.settled_layout

theorem Field.settled_layout (f : Field) :
  f.settled.layout = f.layout.settled
  := by
  obtain ⟨alias?, name, args, ds, selections⟩ := f
  have h := Selection.settledAll_layouts selections
  have hargs := settled_map Argument.settled_layout args
  simp [Field.settled, Field.layout, braced, h, hargs, -Selection.settledAll_eq_map,
    -Selection.layouts_eq_map]

theorem InlineFragment.settled_layout (f : InlineFragment) :
  f.settled.layout = f.layout.settled
  := by
  obtain ⟨typeCondition?, ds, selections⟩ := f
  have h := Selection.settledAll_layouts selections
  cases typeCondition? with
  | none =>
    simp [InlineFragment.settled, InlineFragment.layout, braced, h,
      -Selection.settledAll_eq_map, -Selection.layouts_eq_map]
  | some t =>
    simp [InlineFragment.settled, InlineFragment.layout, NamedType.layout, braced, h,
      -Selection.settledAll_eq_map, -Selection.layouts_eq_map]

theorem Selection.settledAll_layouts (ss : List Selection) :
  Selection.layouts (Selection.settledAll ss) = (Selection.layouts ss).map Layout.settled
  := by
  cases ss with
  | nil => rfl
  | cons s ss =>
    simp only [Selection.settledAll, Selection.layouts, List.map_cons, s.settled_layout,
      Selection.settledAll_layouts ss]

end

@[simp]
theorem SelectionSet.settled_layout (ss : SelectionSet) :
  (SelectionSet.layout ss).settled = SelectionSet.layout (ss.map Selection.settled)
  := by
  rw [SelectionSet.layout, braced, settled_enclosed, settled_glue,
    settled_map Selection.settled_layout, SelectionSet.layout, braced]

theorem VariableDefinition.settled_layout (d : VariableDefinition) :
  d.settled.layout = d.layout.settled
  := by
  simp [VariableDefinition.settled, VariableDefinition.layout, Variable.layout,
    Value.settled_layout?]

theorem OperationDefinition.settled_layout (d : OperationDefinition) :
  d.settled.layout = d.layout.settled
  := by
  simp [OperationDefinition.settled, OperationDefinition.layout,
    settled_map VariableDefinition.settled_layout]

theorem FragmentDefinition.settled_layout (d : FragmentDefinition) :
  d.settled.layout = d.layout.settled
  := by
  simp [FragmentDefinition.settled, FragmentDefinition.layout, NamedType.layout]

theorem InputValueDefinition.settled_layout (d : InputValueDefinition) :
  d.settled.layout = d.layout.settled
  := by
  simp [InputValueDefinition.settled, InputValueDefinition.layout, InputValueDefinition.body,
    named, Value.settled_layout?]

@[simp]
theorem Layout.settled_parameters (ds : List InputValueDefinition) :
  (parameters ds).settled = parameters (ds.map InputValueDefinition.settled)
  := by
  rw [parameters, settled_enclosed, settled_glue,
    settled_map InputValueDefinition.settled_layout, parameters]

theorem FieldDefinition.settled_layout (d : FieldDefinition) :
  d.settled.layout = d.layout.settled
  := by
  simp [FieldDefinition.settled, FieldDefinition.layout, FieldDefinition.body]

theorem EnumValueDefinition.settled_layout (d : EnumValueDefinition) :
  d.settled.layout = d.layout.settled
  := by
  simp [EnumValueDefinition.settled, EnumValueDefinition.layout, EnumValueDefinition.body]

/-- A layout of words and marks is settled. -/
theorem Layout.settled_map_word {ι : Type} (word : ι → Layout)
    (h : ∀ x, (word x).settled = word x) (xs : List ι) :
  (xs.map word).map settled = xs.map word
  := by
  rw [List.map_map]
  exact List.map_congr_left fun x _ => h x

theorem DirectiveDefinition.settled_body (d : DirectiveDefinition) :
  d.settled.body = d.body.settled
  := by
  obtain ⟨description?, name, args, repeatable, locations⟩ := d
  have h := settled_map_word (fun l : DirectiveLocation => word l.text) (by simp) locations
  cases repeatable <;> simp [DirectiveDefinition.settled, DirectiveDefinition.body, h]

theorem OperationTypeDefinition.layout_settled (d : OperationTypeDefinition) :
  d.layout.settled = d.layout
  := by
  simp [OperationTypeDefinition.layout, named, NamedType.layout]

@[simp]
theorem NamedType.layout_settled (t : NamedType) :
  t.layout.settled = t.layout
  := settled_word t.name

@[simp]
theorem Layout.settled_members (parts : List Layout) :
  (members parts).settled = members (parts.map settled)
  := by
  rw [members, settled_enclosed, settled_glue, members]

theorem Declaration.settled_layout (d : Declaration) :
  d.settled.layout = d.layout.settled
  := by
  cases d with
  | schema ds types =>
    simp [Declaration.settled, Declaration.layout,
      settled_map_word _ OperationTypeDefinition.layout_settled]
  | scalar name ds => simp [Declaration.settled, Declaration.layout]
  | object name interfaces ds fields
  | interface name interfaces ds fields =>
    simp [Declaration.settled, Declaration.layout, fieldsType,
      settled_map_word _ NamedType.layout_settled, settled_map FieldDefinition.settled_layout]
  | union name ds types =>
    simp [Declaration.settled, Declaration.layout, settled_map_word _ NamedType.layout_settled]
  | enum name ds values =>
    simp [Declaration.settled, Declaration.layout, settled_map EnumValueDefinition.settled_layout]
  | inputObject name ds fields =>
    simp [Declaration.settled, Declaration.layout,
      settled_map InputValueDefinition.settled_layout]

theorem Definition.settled_layout (d : Definition) :
  d.settled.layout = d.layout.settled
  := by
  cases d with
  | operation d => exact d.settled_layout
  | fragment d => exact d.settled_layout
  | define description? d =>
    simp [Definition.settled, Definition.layout, Definition.body, Definition.description?,
      d.settled_layout]
  | directive d =>
    simp only [Definition.settled, Definition.layout, Definition.body, Definition.description?,
      settled_described, d.settled_body]
    rfl
  | extend d =>
    simp [Definition.settled, Definition.layout, Definition.body, Definition.description?,
      d.settled_layout]

/-- Settling the strings of a document does not change its text. -/
theorem Document.settled_text (d : Document) :
  d.settled.layout.text = d.layout.text
  := by
  have h := settled_map Definition.settled_layout d.definitions
  rw [← d.layout.settled_text, Document.layout, Document.layout, Document.settled, settled_glue, h]

end GraphQLText
