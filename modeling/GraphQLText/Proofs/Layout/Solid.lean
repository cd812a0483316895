import GraphQLText.Layout.Node
import GraphQLText.Proofs.Layout.Content

/-!
# Pieces without text

No piece of a layout that is printed is without text (`Node.solid`), so a part prints to nothing
exactly when its layout is empty (`Layout.Solid.text_eq_empty_iff`).  Therefore the text of parts
that are glued together can be told from the texts of the parts: it is those that are not empty,
with the separator between each two (`Layout.text_glue`).
-/

namespace GraphQLText

open Layout

/-! ## Solid layouts -/

/-- No piece is without text. -/
def Layout.Solid (l : Layout) : Prop := ∀ p ∈ l, p.text ≠ ""

namespace Layout

variable {l m part : Layout}

theorem Solid.text_eq_empty_iff (h : l.Solid) :
  l.text = "" ↔ l = []
  := by
  cases l with
  | nil => simp
  | cons p l =>
    have hp : p.text ≠ "" := h p List.mem_cons_self
    simp [text, String.join_cons, hp]

@[simp]
theorem solid_nil :
  Solid []
  := by simp [Solid]

@[simp]
theorem solid_append :
  (l ++ m).Solid ↔ l.Solid ∧ m.Solid
  := List.forall_mem_append

@[simp]
theorem solid_mark (text : String) :
  (mark text).Solid
  := by
  rw [mark]
  split
  case isTrue => exact solid_nil
  case isFalse htext => simpa [Solid, Piece.text] using htext

@[simp]
theorem solid_word (text : String) :
  (word text).Solid
  := by
  rw [word]
  split
  case isTrue => exact solid_nil
  case isFalse htext => simpa [Solid, Piece.text] using htext

@[simp]
theorem solid_word? (text? : Option String) :
  (word? text?).Solid
  := by
  cases text? with
  | none => exact solid_nil
  | some text => exact solid_word text

@[simp]
theorem solid_literal (s : StringValue) :
  (literal s).Solid
  := by simpa [Solid, literal, Piece.text] using s.text_ne_empty

@[simp]
theorem solid_led (lead : String) :
  (led lead part).Solid ↔ part.Solid
  := by
  rw [led]
  split
  case isTrue hpart => simp [hpart]
  case isFalse => simp

@[simp]
theorem solid_enclosed (lead close : String) :
  (enclosed lead part close).Solid ↔ part.Solid
  := by
  rw [enclosed]
  split
  case isTrue hpart => simp [hpart]
  case isFalse => simp

@[simp]
theorem solid_glue (separator : String) (parts : List Layout) :
  (glue separator parts).Solid ↔ ∀ part ∈ parts, part.Solid
  := by
  induction parts with
  | nil => simp [glue]
  | cons part parts ih =>
    rw [glue, List.forall_mem_cons, ← ih]
    split
    case isTrue hpart => simp [hpart]
    case isFalse => simp

@[simp]
theorem solid_described (description? : Option StringValue) :
  (described description? part).Solid ↔ part.Solid
  := by cases description? <;> simp [described]

@[simp]
theorem solid_named (name : String) :
  (named name part).Solid ↔ part.Solid
  := by simp [named]

end Layout

/-! ## Solid nodes -/

@[simp]
theorem Variable.solid (v : Variable) :
  v.layout.Solid
  := by simp [layout]

@[simp]
theorem NamedType.solid (t : NamedType) :
  t.layout.Solid
  := solid_word t.name

mutual

@[simp]
theorem Value.solid : (v : Value) → v.layout.Solid
  | .var v => v.solid
  | .string s => solid_literal s
  | .float text | .int text | .enum text => solid_word text
  | .boolean value => solid_word _
  | .list vs => by simpa [Value.layout] using Value.solid_all vs
  | .object fs => by simpa [Value.layout] using ObjectField.solid_all fs
  | .null => solid_word "null"

@[simp]
theorem ObjectField.solid : (f : ObjectField) → f.layout.Solid
  | ⟨name, value⟩ => by simpa [ObjectField.layout] using Value.solid value

theorem Value.solid_all : (vs : List Value) → ∀ v ∈ vs, v.layout.Solid
  | [] => List.forall_mem_nil _
  | v :: vs => List.forall_mem_cons.mpr ⟨Value.solid v, Value.solid_all vs⟩

theorem ObjectField.solid_all : (fs : List ObjectField) → ∀ f ∈ fs, f.layout.Solid
  | [] => List.forall_mem_nil _
  | f :: fs => List.forall_mem_cons.mpr ⟨ObjectField.solid f, ObjectField.solid_all fs⟩

end

@[simp]
theorem solid_default (default? : Option Value) :
  Solid (default?.elim [] Value.layout)
  := by cases default? <;> simp

@[simp]
theorem Argument.solid (a : Argument) :
  a.layout.Solid
  := by simp [layout]

@[simp]
theorem Directive.solid (d : Directive) :
  d.layout.Solid
  := by simp [layout]

@[simp]
theorem solid_applied (ds : List Directive) :
  (applied ds).Solid
  := by simp [applied]

@[simp]
theorem TypeRef.solid (t : TypeRef) :
  t.layout.Solid
  := by induction t <;> simp_all [layout]

@[simp]
theorem FragmentSpread.solid (s : FragmentSpread) :
  s.layout.Solid
  := by simp [layout]

@[simp]
theorem solid_braced (parts : List Layout) :
  (braced parts).Solid ↔ ∀ part ∈ parts, part.Solid
  := by simp [braced]

mutual

@[simp]
theorem Selection.solid : (s : Selection) → s.layout.Solid
  | .field f => Field.solid f
  | .fragmentSpread s => s.solid
  | .inlineFragment f => InlineFragment.solid f

@[simp]
theorem Field.solid : (f : Field) → f.layout.Solid
  | ⟨alias?, name, args, ds, ss⟩ => by simpa [Field.layout] using Selection.solid_all ss

@[simp]
theorem InlineFragment.solid : (f : InlineFragment) → f.layout.Solid
  | ⟨typeCondition?, ds, ss⟩ => by
    cases typeCondition? <;> simpa [InlineFragment.layout] using Selection.solid_all ss

theorem Selection.solid_all : (ss : List Selection) → ∀ s ∈ ss, s.layout.Solid
  | [] => List.forall_mem_nil _
  | s :: ss => List.forall_mem_cons.mpr ⟨Selection.solid s, Selection.solid_all ss⟩

end

@[simp]
theorem SelectionSet.solid (ss : SelectionSet) :
  (SelectionSet.layout ss).Solid
  := by simp [SelectionSet.layout]

@[simp]
theorem VariableDefinition.solid (d : VariableDefinition) :
  d.layout.Solid
  := by simp [layout]

@[simp]
theorem OperationTypeDefinition.solid (d : OperationTypeDefinition) :
  d.layout.Solid
  := by simp [layout]

@[simp]
theorem InputValueDefinition.solid (d : InputValueDefinition) :
  d.layout.Solid
  := by simp [layout, body]

@[simp]
theorem solid_parameters (ds : List InputValueDefinition) :
  (parameters ds).Solid
  := by simp [parameters]

@[simp]
theorem FieldDefinition.solid (d : FieldDefinition) :
  d.layout.Solid
  := by simp [layout, body]

@[simp]
theorem EnumValueDefinition.solid (d : EnumValueDefinition) :
  d.layout.Solid
  := by simp [layout, body]

@[simp]
theorem DirectiveDefinition.solid_body (d : DirectiveDefinition) :
  d.body.Solid
  := by
  rw [body]
  split <;> simp

@[simp]
theorem solid_members (parts : List Layout) :
  (members parts).Solid ↔ ∀ part ∈ parts, part.Solid
  := by simp [members]

@[simp]
theorem Declaration.solid (d : Declaration) :
  d.layout.Solid
  := by cases d <;> simp [layout, fieldsType]

@[simp]
theorem Definition.solid (d : Definition) :
  d.layout.Solid
  := by cases d <;> simp [layout, body, OperationDefinition.layout, FragmentDefinition.layout]

/-- No piece of the layout of a node is without text. -/
theorem Node.solid (n : Node) :
  n.layout.Solid
  := by
  cases n with
  | document d => simp [layout, body, Document.layout]
  | definition d => exact d.solid
  | fieldDefinition d => exact d.solid
  | inputValue d => exact d.solid
  | enumValue d => exact d.solid
  | _ => simp [layout, body]

/-! ## Texts of composed layouts -/

namespace Layout

variable {part : Layout}

@[simp]
theorem text_mark (text : String) :
  (mark text).text = text
  := by
  rw [mark]
  split
  case isTrue hempty => rw [hempty, text_nil]
  case isFalse => simp [Layout.text, Piece.text, String.join_cons]

@[simp]
theorem text_word (text : String) :
  (word text).text = text
  := by
  rw [word]
  split
  case isTrue hempty => rw [hempty, text_nil]
  case isFalse => simp [Layout.text, Piece.text, String.join_cons]

/-- A mark is printed before a part just if the part has a text. -/
theorem text_led (lead : String) (h : part.Solid) :
  (led lead part).text = if part.text = "" then "" else lead ++ part.text
  := by
  simp only [led, h.text_eq_empty_iff]
  split
  · rfl
  · rw [text_append, text_mark]

/-- Two marks are printed around a part just if the part has a text. -/
theorem text_enclosed (lead close : String) (h : part.Solid) :
  (enclosed lead part close).text
    = if part.text = "" then "" else lead ++ part.text ++ close
  := by
  simp only [enclosed, h.text_eq_empty_iff]
  split
  · rfl
  · rw [text_append, text_append, text_mark, text_mark]

theorem glue_eq_nil_iff (separator : String) (parts : List Layout) :
  glue separator parts = [] ↔ ∀ part ∈ parts, part = []
  := by
  induction parts with
  | nil => simp [glue]
  | cons part parts ih =>
    rw [glue, List.forall_mem_cons]
    split
    case isTrue hpart => simp [hpart, ih]
    case isFalse hpart => simp [hpart]

/-- No part has a text just if nothing is glued. -/
theorem texts_eq_nil_iff (separator : String) {parts : List Layout}
    (h : ∀ part ∈ parts, part.Solid) :
  (parts.map text).filter (· ≠ "") = [] ↔ glue separator parts = []
  := by
  rw [glue_eq_nil_iff, List.filter_eq_nil_iff, List.forall_mem_map]
  apply forall₂_congr
  intro part hpart
  simp [(h part hpart).text_eq_empty_iff]

/-- The texts of parts that are not empty, with the separator between each two. -/
theorem text_glue (separator : String) {parts : List Layout} (h : ∀ part ∈ parts, part.Solid) :
  (glue separator parts).text = separator.intercalate ((parts.map text).filter (· ≠ ""))
  := by
  induction parts with
  | nil => rfl
  | cons part parts ih =>
    obtain ⟨hpart, hparts⟩ := List.forall_mem_cons.mp h
    have hrest := ih hparts
    have hnone := texts_eq_nil_iff separator hparts
    rw [glue, List.map_cons, List.filter_cons]
    split
    case isTrue hnil => simpa [hnil] using hrest
    case isFalse hne =>
      have htext : part.text ≠ "" := hpart.text_eq_empty_iff.not.mpr hne
      rw [if_pos (by simpa using htext), text_append, led]
      split
      case isTrue hglue =>
        rw [hnone.mpr hglue, String.intercalate_singleton, text_nil, String.append_empty]
      case isFalse hglue =>
        rw [String.intercalate_cons_of_ne_nil (hnone.not.mpr hglue), text_append, text_mark, hrest,
          String.append_assoc]

end Layout

end GraphQLText
