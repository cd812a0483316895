import GraphQLText.Layout.Node
import GraphQLText.Proofs.Layout.Tokens
import GraphQLText.Proofs.Tree.Content

/-!
# The contents of a layout

Each printing rule prints the contents of its node and nothing else: between marks of its own
it has the layouts of the entries, in their order and each as one piece (`Node.prints`).  By
induction the words and literals of the layout of a node are its leaves, but for the leaves
without text (`Node.text_content`), and the text of a node stands in that of every node around
it (`Node.Contains.infix_layout`).
-/

namespace GraphQLText

open Layout

/-! ## Layouts of contents -/

/-- The text of a leaf. -/
def Leaf.text : Leaf → String
  | .keyword text => text
  | .raw text => text
  | .string s => s.text

/-- The piece that a leaf is printed as. -/
def Leaf.piece : Leaf → Piece
  | .keyword text => .word text
  | .raw text => .word text
  | .string s => .literal s

/-- The layout of a leaf, which is empty where the leaf has no text. -/
def Leaf.layout (l : Leaf) : Layout := if l.text = "" then [] else [l.piece]

/-- The layout of an entry of the contents of a node. -/
def Content.layout : Content → Layout
  | .leaf l => l.layout
  | .node n => n.layout

/-- The words and literals of a layout. -/
def Layout.words (l : Layout) : List Piece := l.filter fun p => !p.isMark

theorem StringValue.text_ne_empty (s : StringValue) :
  s.text ≠ ""
  := by
  obtain ⟨cs, hcs⟩ := s.chars_eq_cons
  intro h
  have hchars := congrArg String.toList h
  simp [text, hcs] at hchars

namespace Layout

@[simp]
theorem words_append (l m : Layout) :
  (l ++ m).words = l.words ++ m.words
  := List.filter_append l m

@[simp]
theorem words_mark (text : String) :
  (mark text).words = []
  := by
  rw [mark]
  split
  · rfl
  · rfl

theorem mem_mark {text text' : String} (h : .mark text ∈ mark text') :
  text = text'
  := by
  rw [mark] at h
  split at h
  · contradiction
  · simpa using h

end Layout

/-! ## Printing contents -/

/-- A layout prints the given contents: it has their words and literals in their order, no marks
but theirs and the fixed ones, and the layout of each entry in one piece. -/
structure Layout.Prints (l : Layout) (cs : List Content) : Prop where
  words : l.words = cs.flatMap fun c => c.layout.words
  marks : ∀ text, .mark text ∈ l → text ∈ marks ∨ ∃ c ∈ cs, .mark text ∈ c.layout
  contiguous : ∀ c ∈ cs, c.layout <:+: l

namespace Layout

variable {l m part : Layout} {cs ds : List Content}

theorem prints_nil :
  Prints [] []
  := ⟨rfl, by simp, by simp⟩

theorem prints_entry (c : Content) :
  Prints c.layout [c]
  := by
  constructor
  · simp
  · intro text h
    right
    exact ⟨c, List.mem_singleton_self c, h⟩
  · intro d hd
    obtain rfl := List.mem_singleton.mp hd
    exact List.infix_rfl

theorem prints_append (hl : l.Prints cs) (hm : m.Prints ds) :
  (l ++ m).Prints (cs ++ ds)
  := by
  constructor
  · rw [words_append, List.flatMap_append, hl.words, hm.words]
  · intro text h
    rcases List.mem_append.mp h with h | h
    · apply (hl.marks text h).imp_right
      rintro ⟨c, hc, htext⟩
      exact ⟨c, List.mem_append_left ds hc, htext⟩
    · apply (hm.marks text h).imp_right
      rintro ⟨c, hc, htext⟩
      exact ⟨c, List.mem_append_right cs hc, htext⟩
  · intro c hc
    rcases List.mem_append.mp hc with hc | hc
    · apply (hl.contiguous c hc).trans
      exact (List.prefix_append l m).isInfix
    · apply (hm.contiguous c hc).trans
      exact (List.suffix_append l m).isInfix

theorem prints_mark {text : String} (h : text ∈ GraphQLText.marks) :
  (mark text).Prints []
  := by
  constructor
  · simp
  · intro text' h'
    left
    rwa [mem_mark h']
  · simp

theorem prints_after {lead : String} (hlead : lead ∈ GraphQLText.marks) (h : part.Prints cs) :
  (mark lead ++ part).Prints cs
  := prints_append (prints_mark hlead) h

/-- Unlike those of `enclosed`, these marks stay where the part is absent. -/
theorem prints_fenced {lead close : String} (hlead : lead ∈ GraphQLText.marks)
    (hclose : close ∈ GraphQLText.marks) (h : part.Prints cs) :
  (mark lead ++ part ++ mark close).Prints cs
  := by
  have h' := prints_append (prints_after hlead h) (prints_mark hclose)
  rwa [List.append_nil] at h'

theorem prints_led {lead : String} (hlead : lead ∈ GraphQLText.marks) (h : part.Prints cs) :
  (led lead part).Prints cs
  := by
  rw [led]
  split
  case isTrue hpart => rwa [← hpart]
  case isFalse => exact prints_after hlead h

theorem prints_enclosed {lead close : String} (hlead : lead ∈ GraphQLText.marks)
    (hclose : close ∈ GraphQLText.marks) (h : part.Prints cs) :
  (enclosed lead part close).Prints cs
  := by
  rw [enclosed]
  split
  case isTrue hpart => rwa [← hpart]
  case isFalse => exact prints_fenced hlead hclose h

theorem prints_glue {separator : String} (hseparator : separator ∈ GraphQLText.marks)
    {α : Type} {layout : α → Layout} {contents : α → List Content} (xs : List α)
    (h : ∀ x, (layout x).Prints (contents x)) :
  (glue separator (xs.map layout)).Prints (xs.flatMap contents)
  := by
  induction xs with
  | nil => exact prints_nil
  | cons x xs ih =>
    have hx := h x
    rw [List.map_cons, List.flatMap_cons, glue]
    split
    case isTrue hnil =>
      rw [hnil] at hx
      exact prints_append hx ih
    case isFalse => exact prints_append hx (prints_led hseparator ih)

theorem prints_each {separator : String} (hseparator : separator ∈ GraphQLText.marks)
    {α : Type} {layout : α → Layout} {toNode : α → Node} (xs : List α)
    (h : ∀ x, (toNode x).layout = layout x) :
  (glue separator (xs.map layout)).Prints (Content.each toNode xs)
  := by
  have heach : Content.each toNode xs = xs.flatMap fun x => [.node (toNode x)] :=
    List.map_eq_flatMap
  rw [heach]
  apply prints_glue hseparator
  intro x
  rw [← h]
  exact prints_entry (.node (toNode x))

theorem prints_option {α : Type} {layout : α → Layout} {toNode : α → Node} (x? : Option α)
    (h : ∀ x, (toNode x).layout = layout x) :
  Prints (x?.elim [] layout) (Content.each toNode x?.toList)
  := by
  cases x? with
  | none => exact prints_nil
  | some x =>
    have hx := prints_entry (.node (toNode x))
    rwa [Content.layout, h] at hx

theorem prints_string (s : StringValue) :
  (literal s).Prints [.leaf (.string s)]
  := by
  have hs := prints_entry (.leaf (.string s))
  rw [Content.layout, Leaf.layout, if_neg] at hs
  · exact hs
  · exact s.text_ne_empty

theorem prints_described (description? : Option StringValue) (h : part.Prints cs) :
  (described description? part).Prints (Content.described description? ++ cs)
  := by
  cases description? with
  | none => exact h
  | some s =>
    have hs := prints_entry (.node (.value (.string s)))
    have hline : (mark "\n").Prints [] := prints_mark (by decide)
    exact prints_append (prints_append hs hline) h

theorem prints_raw (text : String) :
  (word text).Prints (Content.raw text)
  := prints_entry (.leaf (.raw text))

theorem prints_keyword (text : String) :
  (word text).Prints (Content.keyword text)
  := prints_entry (.leaf (.keyword text))

theorem prints_named (text : String) :
  (word text).Prints (Content.named text)
  := prints_entry (.node (.name text))

theorem prints_locations (locations : List DirectiveLocation) :
  (glue " | " (locations.map fun l => word l.text)).Prints
    (locations.flatMap fun l => Content.keyword l.text)
  := prints_glue (by decide) locations fun l => prints_keyword l.text

theorem prints_types {separator : String} (hseparator : separator ∈ GraphQLText.marks)
    (ts : List NamedType) :
  (glue separator (ts.map NamedType.layout)).Prints (Content.types ts)
  := prints_each hseparator ts fun _ => rfl

theorem prints_applied (ds : List Directive) :
  (led " " (applied ds)).Prints (Content.applied ds)
  := by
  apply prints_led (by decide)
  exact prints_each (by decide) ds fun _ => rfl

theorem prints_arguments (args : List Argument) :
  (enclosed "(" (glue ", " (args.map Argument.layout)) ")").Prints
    (Content.each .argument args)
  := by
  apply prints_enclosed (by decide) (by decide)
  exact prints_each (by decide) args fun _ => rfl

theorem prints_parameters (ds : List InputValueDefinition) :
  (parameters ds).Prints (Content.each .inputValue ds)
  := by
  apply prints_enclosed (by decide) (by decide)
  exact prints_each (by decide) ds fun _ => rfl

theorem prints_selections (ss : SelectionSet) :
  ss.layout.Prints [.node (.selectionSet ss)]
  := prints_entry (.node (.selectionSet ss))

theorem prints_members {α : Type} {layout : α → Layout} {toNode : α → Node} (xs : List α)
    (h : ∀ x, (toNode x).layout = layout x) :
  (members (xs.map layout)).Prints (Content.each toNode xs)
  := by
  apply prints_enclosed (by decide) (by decide)
  exact prints_each (by decide) xs h

end Layout

/-! ## The printing rules -/

theorem Value.prints (v : Value) :
  v.layout.Prints v.contents
  := by
  cases v with
  | var v =>
    rw [layout, Variable.layout]
    exact prints_append (prints_mark (by decide)) (prints_named v.name)
  | string s =>
    rw [layout]
    exact prints_string s
  | float text | int text | enum text =>
    rw [layout]
    exact prints_raw text
  | boolean value =>
    rw [layout, truth]
    cases value with
    | false => exact prints_keyword "false"
    | true => exact prints_keyword "true"
  | list items =>
    rw [layout, layouts_eq_map]
    exact prints_fenced (by decide) (by decide) (prints_each (by decide) items fun _ => rfl)
  | object fields =>
    rw [layout, ObjectField.layouts_eq_map]
    exact prints_fenced (by decide) (by decide) (prints_each (by decide) fields fun _ => rfl)
  | null =>
    rw [layout]
    exact prints_keyword "null"

theorem TypeRef.prints (t : TypeRef) :
  t.layout.Prints t.contents
  := by
  cases t with
  | named t => exact prints_named t.name
  | list t =>
    rw [layout]
    exact prints_enclosed (by decide) (by decide) (prints_entry (.node (.type t)))
  | nonNull t =>
    rw [layout]
    exact prints_enclosed (by decide) (by decide) (prints_entry (.node (.type t)))

theorem Selection.prints (s : Selection) :
  s.layout.Prints s.contents
  := by
  cases s with
  | field f =>
    obtain ⟨alias?, name, args, ds, ss⟩ := f
    simp only [layout, Field.layout, contents, layouts_eq_map, List.append_assoc]
    apply prints_append
    · exact prints_enclosed (by decide) (by decide) (prints_option alias? fun _ => rfl)
    apply prints_append (prints_named name)
    apply prints_append (prints_arguments args)
    apply prints_append (prints_applied ds)
    exact prints_led (by decide) (prints_selections ss)
  | fragmentSpread s =>
    apply prints_append
    · exact prints_led (by decide) (prints_named s.name)
    · exact prints_applied s.directives
  | inlineFragment f =>
    obtain ⟨typeCondition?, ds, ss⟩ := f
    simp only [layout, InlineFragment.layout, contents, layouts_eq_map, List.append_assoc]
    apply prints_after (by decide)
    apply prints_append
    · exact prints_led (by decide) (prints_option typeCondition? fun _ => rfl)
    apply prints_append (prints_applied ds)
    exact prints_led (by decide) (prints_selections ss)

theorem prints_fieldsType {introducer : String} (hintroducer : introducer ∈ marks)
    (name : String) (interfaces : List NamedType) (ds : List Directive)
    (fields : List FieldDefinition) :
  (fieldsType introducer name interfaces ds fields).Prints
    (Content.named name ++ Content.types interfaces ++ Content.applied ds ++
      Content.each .fieldDefinition fields)
  := by
  apply prints_append
  · apply prints_append
    · apply prints_append
      · exact prints_led hintroducer (prints_named name)
      · exact prints_led (by decide) (prints_types (by decide) interfaces)
    · exact prints_applied ds
  · exact prints_members fields fun _ => rfl

theorem Declaration.prints (d : Declaration) :
  d.layout.Prints d.contents
  := by
  cases d with
  | schema ds operationTypes =>
    apply prints_append
    · exact prints_append (prints_keyword "schema") (prints_applied ds)
    · exact prints_members operationTypes fun _ => rfl
  | scalar name ds =>
    exact prints_append (prints_led (by decide) (prints_named name)) (prints_applied ds)
  | object name interfaces ds fields | interface name interfaces ds fields =>
    exact prints_fieldsType (by decide) name interfaces ds fields
  | union name ds members =>
    apply prints_append
    · exact prints_append (prints_led (by decide) (prints_named name)) (prints_applied ds)
    · exact prints_led (by decide) (prints_types (by decide) members)
  | enum name ds values =>
    apply prints_append
    · exact prints_append (prints_led (by decide) (prints_named name)) (prints_applied ds)
    · exact prints_members values fun _ => rfl
  | inputObject name ds fields =>
    apply prints_append
    · exact prints_append (prints_led (by decide) (prints_named name)) (prints_applied ds)
    · exact prints_members fields fun _ => rfl

theorem Definition.prints (d : Definition) :
  d.layout.Prints d.contents
  := by
  cases d with
  | operation d =>
    change d.layout.Prints _
    apply prints_append
    · apply prints_append
      · apply prints_append
        · apply prints_append (prints_keyword d.operation.text)
          exact prints_led (by decide) (prints_option d.name? fun _ => rfl)
        · apply prints_enclosed (by decide) (by decide)
          exact prints_each (by decide) d.variableDefinitions fun _ => rfl
      · exact prints_applied d.directives
    · exact prints_selections d.selections
  | fragment d =>
    change d.layout.Prints _
    apply prints_append
    · apply prints_append
      · apply prints_append
        · exact prints_led (by decide) (prints_named d.name)
        · exact prints_led (by decide) (prints_entry (.node (.type (.named d.typeCondition))))
      · exact prints_applied d.directives
    · exact prints_led (by decide) (prints_selections d.selections)
  | define description? d => exact prints_described description? d.prints
  | directive d =>
    simp only [contents, List.append_assoc]
    apply prints_described
    simp only [body, DirectiveDefinition.body, List.append_assoc]
    apply prints_append (prints_led (by decide) (prints_named d.name))
    apply prints_append (prints_parameters d.arguments)
    apply prints_append
    · split
      · exact prints_led (by decide) (prints_keyword "repeatable")
      · exact prints_nil
    · exact prints_led (by decide) (prints_locations d.locations)
  | extend d => exact prints_after (by decide) d.prints

/-- The layout of a node prints the contents of the node. -/
theorem Node.prints (n : Node) :
  n.layout.Prints n.contents
  := by
  cases n with
  | name text => exact prints_raw text
  | document d => exact prints_each (by decide) d.definitions fun _ => rfl
  | definition d => exact d.prints
  | variableDefinition d =>
    change d.layout.Prints _
    apply prints_append
    · apply prints_append
      · apply prints_append (prints_entry (.node (.value (.var d.var))))
        exact prints_led (by decide) (prints_entry (.node (.type d.type)))
      · exact prints_led (by decide) (prints_option d.default? fun _ => rfl)
    · exact prints_applied d.directives
  | selectionSet ss =>
    apply prints_enclosed (by decide) (by decide)
    exact prints_each (by decide) ss fun _ => rfl
  | selection s => exact s.prints
  | argument a =>
    apply prints_append (prints_named a.name)
    exact prints_led (by decide) (prints_entry (.node (.value a.value)))
  | value v => exact v.prints
  | objectField f =>
    obtain ⟨name, value⟩ := f
    apply prints_append (prints_named name)
    exact prints_led (by decide) (prints_entry (.node (.value value)))
  | directive d =>
    change d.layout.Prints _
    apply prints_append
    · exact prints_led (by decide) (prints_named d.name)
    · exact prints_arguments d.arguments
  | type t => exact t.prints
  | operationType d =>
    apply prints_append (prints_keyword d.operation.text)
    exact prints_led (by decide) (prints_entry (.node (.type (.named d.type))))
  | fieldDefinition d =>
    simp only [contents, List.append_assoc]
    apply prints_described
    simp only [body, FieldDefinition.body, List.append_assoc]
    apply prints_append (prints_named d.name)
    apply prints_append (prints_parameters d.arguments)
    apply prints_append
    · exact prints_led (by decide) (prints_entry (.node (.type d.type)))
    · exact prints_applied d.directives
  | inputValue d =>
    simp only [contents, List.append_assoc]
    apply prints_described
    simp only [body, InputValueDefinition.body, named, List.append_assoc]
    apply prints_append (prints_named d.name)
    apply prints_append
    · exact prints_led (by decide) (prints_entry (.node (.type d.type)))
    apply prints_append
    · exact prints_led (by decide) (prints_option d.default? fun _ => rfl)
    · exact prints_applied d.directives
  | enumValue d =>
    simp only [contents, List.append_assoc]
    apply prints_described
    exact prints_append (prints_named d.name) (prints_applied d.directives)

/-! ## What a whole tree prints -/

@[simp]
theorem Leaf.words_layout (l : Leaf) :
  l.layout.words = l.layout
  := by
  rw [layout]
  split
  · rfl
  · cases l <;> rfl

theorem Leaf.layouts_eq_map (ls : List Leaf) :
  ls.flatMap layout = (ls.filter fun l => l.text ≠ "").map piece
  := by
  induction ls with
  | nil => rfl
  | cons l ls ih =>
    rw [List.flatMap_cons, ih, layout]
    by_cases h : l.text = ""
    · simp [h]
    · simp [h]

theorem Node.words_layout (n : Node) :
  n.layout.words = n.leaves.flatMap Leaf.layout
  := by
  induction n using Node.induction with
  | step n ih =>
    calc
      n.layout.words = n.contents.flatMap fun c => c.layout.words := n.prints.words
      _ = n.contents.flatMap fun c => c.leaves.flatMap Leaf.layout := by
        apply List.flatMap_congr
        intro c hc
        cases c with
        | leaf l => simp [Content.layout, Content.leaves]
        | node m => exact ih m hc
      _ = n.leaves.flatMap Leaf.layout := by rw [n.leaves_eq, List.flatMap_assoc]

theorem Node.mem_marks_of_mem_layout (n : Node) {text : String} (h : .mark text ∈ n.layout) :
  text ∈ marks
  := by
  induction n using Node.induction with
  | step n ih =>
    rcases n.prints.marks text h with h | ⟨c, hc, h⟩
    · exact h
    · cases c with
      | leaf l =>
        rw [Content.layout, Leaf.layout] at h
        split at h
        · contradiction
        · cases l <;> simp [Leaf.piece] at h
      | node m => exact ih m hc h

/-- A node is printed as one piece of the nodes around it. -/
theorem Node.Contains.infix_layout {n m : Node} (h : n.Contains m) :
  m.layout <:+: n.layout
  := by
  induction h with
  | refl => exact List.infix_rfl
  | @tail k _ _ hm ih => exact (k.prints.contiguous _ hm).trans ih

theorem Layout.text_of_infix {l m : Layout} (h : l <:+: m) :
  ∃ before after, m.text = before ++ l.text ++ after
  := by
  obtain ⟨before, after, rfl⟩ := h
  use Layout.text before, Layout.text after
  rw [text_append, text_append]

/-- The value that a node gives to an argument, or by default to a variable or input value. -/
def Node.given? : Node → Option Value
  | .argument a => some a.value
  | .variableDefinition d => d.default?
  | .inputValue d => d.default?
  | _ => none

theorem Node.mem_contents_of_given? {n : Node} {v : Value} (h : n.given? = some v) :
  .node (.value v) ∈ n.contents
  := by
  cases n with
  | argument a | variableDefinition d | inputValue d =>
    simp_all [given?, contents]
  | _ => simp [given?] at h

/-- The values that a test of truth would take for absent, with their texts. -/
def Value.falsy : List (Value × String) :=
  [(.boolean false, "false"), (.int "0", "0"), (.null, "null"), (.string (.quoted ""), "\"\""),
    (.string (.ofBlock ""), "\"\"\"\n\"\"\"")]

theorem Value.text_of_mem_falsy {v : Value} {text : String} (h : (v, text) ∈ falsy) :
  (Node.value v).text = text
  := by
  simp [falsy] at h
  rcases h with ⟨rfl, rfl⟩ | ⟨rfl, rfl⟩ | ⟨rfl, rfl⟩ | ⟨rfl, rfl⟩ | ⟨rfl, rfl⟩ <;> rfl

/-- The text of a node is made of the fixed texts of the printing rules and of the leaves of the
node, each once and in order, but for those without text.  The values that are given to
arguments and the defaults are all in it, the ones included that are easily taken for
absent. -/
theorem Node.text_content (n : Node) :
  (∃ pieces : List Piece,
    n.text = String.join (pieces.map Piece.text) ∧
    (∀ text, .mark text ∈ pieces → text ∈ marks) ∧
    (pieces.filter fun p => !p.isMark) =
      (n.leaves.filter fun l => l.text ≠ "").map Leaf.piece) ∧
  (∀ m v, n.Contains m → m.given? = some v →
    ∃ before after, n.text = before ++ (Node.value v).text ++ after) ∧
  ∀ v text, (v, text) ∈ Value.falsy → (Node.value v).text = text
  := by
  refine ⟨?_, ?_, fun v text => Value.text_of_mem_falsy⟩
  · use n.layout, rfl, fun text => n.mem_marks_of_mem_layout
    rw [← Leaf.layouts_eq_map]
    exact n.words_layout
  · intro m v hm hv
    apply text_of_infix
    apply Contains.infix_layout
    exact hm.trans (contains_of_mem (mem_contents_of_given? hv))

end GraphQLText
