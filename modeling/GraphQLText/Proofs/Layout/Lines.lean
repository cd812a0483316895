import GraphQLText.Proofs.Grammar.Lossless
import GraphQLText.Proofs.Layout.Solid
import Mathlib.Algebra.GroupWithZero.Nat

/-!
# Lines of a printed text

A node is printed on a single line, but for three things: a description stands on lines of its
own, a block literal has the lines of its string and its quotes around them, and there is a blank
line between each two definitions in a document.  No separator and no other mark of a printing
rule ends a line, so a node has the newlines of what is in it, one more for its description, and
two for each gap between definitions (`Node.newlines_contents`).  By induction the newlines of a
whole text are counted by the descriptions and the literals in the tree (`Node.newlines_text`).
-/

namespace GraphQLText

open Layout

/-- The number of newlines in a text. -/
def newlines (text : String) : Nat := text.toList.count '\n'

@[simp]
theorem newlines_append (s t : String) :
  newlines (s ++ t) = newlines s + newlines t
  := by simp [newlines]

theorem newlines_eq_zero_iff (text : String) :
  newlines text = 0 ↔ '\n' ∉ text.toList
  := List.count_eq_zero

@[simp]
theorem newlines_of_not_mem {text : String} (h : '\n' ∉ text.toList) :
  newlines text = 0
  := (newlines_eq_zero_iff text).mpr h

/-! ## Newlines in literals -/

/-- A block literal escapes three quotes by a backslash and changes nothing else. -/
theorem Block.count_escapeTriples {c : Char} (hc : c ≠ '\\') (s : List Char) :
  (escapeTriples s).count c = s.count c
  := by
  fun_induction escapeTriples s with
  | case1 rest ih => simp [List.count_cons, ih, hc.symm]
  | case2 d rest _ ih => simp [List.count_cons, ih]
  | case3 => rfl

/-- A quoted literal keeps to one line. -/
theorem Quoted.newline_not_mem_encode (s : List Char) :
  '\n' ∉ encode s
  := by
  intro h
  have hge := encode_ge s '\n' h
  contradiction

namespace StringValue

/-- The newlines of the literal of a string.  A quoted literal has none.  A block literal has those
of the string and one before its closing quotes, and one more if the string begins on a line of
its own. -/
def breaks (s : StringValue) : Nat :=
  match s.placement? with
  | none => 0
  | some .inline => newlines s.value + 1
  | some .ownLine => newlines s.value + 2

theorem newlines_text (s : StringValue) :
  newlines s.text = s.breaks
  := by
  have hescape : (Block.escapeTriples s.value.toList).count '\n' = newlines s.value :=
    Block.count_escapeTriples (by decide) s.value.toList
  rw [newlines, toList_text, chars, breaks]
  cases hplacement : s.placement? with
  | none => exact List.count_eq_zero.mpr (Quoted.newline_not_mem_encode s.value.toList)
  | some placement =>
    cases placement with
    | inline =>
      have hopening : ['"', '"', '"'].count '\n' = 0 := rfl
      have hclosing : ['\n', '"', '"', '"'].count '\n' = 1 := rfl
      simp only [Block.encode, List.count_append, hescape, hopening, hclosing]
      omega
    | ownLine =>
      have hopening : ['"', '"', '"', '\n'].count '\n' = 1 := rfl
      have hclosing : ['\n', '"', '"', '"'].count '\n' = 1 := rfl
      simp only [Block.encode, List.count_append, hescape, hopening, hclosing]
      omega

end StringValue

/-! ## Newlines in layouts -/

namespace Layout

variable {lead close separator : String} {α : Type} {layout : α → Layout}

@[simp]
theorem newlines_led (h : '\n' ∉ lead.toList) (part : Layout) :
  newlines (led lead part).text = newlines part.text
  := by
  rw [led]
  split
  case isTrue hpart => rw [hpart]
  case isFalse => simp [newlines_of_not_mem h]

@[simp]
theorem newlines_enclosed (hlead : '\n' ∉ lead.toList) (hclose : '\n' ∉ close.toList)
    (part : Layout) :
  newlines (enclosed lead part close).text = newlines part.text
  := by
  rw [enclosed]
  split
  case isTrue hpart => rw [hpart]
  case isFalse => simp [newlines_of_not_mem hlead, newlines_of_not_mem hclose]

@[simp]
theorem newlines_glue (h : '\n' ∉ separator.toList) (xs : List α) :
  newlines (glue separator (xs.map layout)).text = (xs.map fun x => newlines (layout x).text).sum
  := by
  induction xs with
  | nil => rfl
  | cons x xs ih =>
    rw [List.map_cons, glue]
    split
    case isTrue hx => simp [hx, ih]
    case isFalse => simp [newlines_led h, ih]

@[simp]
theorem newlines_literal (s : StringValue) :
  newlines (literal s).text = s.breaks
  := by
  rw [← s.newlines_text]
  simp [literal, text, Piece.text]

@[simp]
theorem newlines_option (x? : Option α) :
  newlines (Layout.text (x?.elim [] layout))
    = (x?.toList.map fun x => newlines (layout x).text).sum
  := by cases x? <;> simp

@[simp]
theorem newlines_described (description? : Option StringValue) (body : Layout) :
  newlines (described description? body).text =
    description?.toList.length
      + ((description?.toList.map StringValue.breaks).sum + newlines body.text)
  := by
  cases description? with
  | none => simp
  | some s =>
    have hline : newlines "\n" = 1 := rfl
    simp only [described, Option.elim_some, text_append, text_mark, newlines_append,
      newlines_literal, hline, Option.toList_some, List.length_singleton, List.map_cons,
      List.map_nil, List.sum_singleton]
    omega

@[simp]
theorem newlines_applied (ds : List Directive) :
  newlines (applied ds).text = (ds.map fun d => newlines d.layout.text).sum
  := newlines_glue (by decide) ds

@[simp]
theorem newlines_braced (xs : List α) :
  newlines (braced (xs.map layout)).text = (xs.map fun x => newlines (layout x).text).sum
  := by rw [braced, newlines_enclosed (by decide) (by decide), newlines_glue (by decide)]

@[simp]
theorem newlines_members (xs : List α) :
  newlines (members (xs.map layout)).text = (xs.map fun x => newlines (layout x).text).sum
  := by rw [members, newlines_enclosed (by decide) (by decide), newlines_glue (by decide)]

@[simp]
theorem newlines_parameters (ds : List InputValueDefinition) :
  newlines (parameters ds).text = (ds.map fun d => newlines d.layout.text).sum
  := by rw [parameters, newlines_enclosed (by decide) (by decide), newlines_glue (by decide)]

theorem newlines_intercalate (separator : String) (texts : List String) :
  newlines (separator.intercalate texts)
    = (texts.map newlines).sum + newlines separator * texts.tail.length
  := by
  induction texts with
  | nil => simp
  | cons text texts ih =>
    cases texts with
    | nil => simp
    | cons other texts =>
      simp only [String.intercalate_cons_cons, newlines_append, ih, List.map_cons, List.sum_cons,
        List.tail_cons, List.length_cons, Nat.mul_succ]
      omega

/-- Texts that are empty have no newlines. -/
theorem sum_newlines_filter (texts : List String) :
  ((texts.filter (· ≠ "")).map newlines).sum = (texts.map newlines).sum
  := by
  induction texts with
  | nil => rfl
  | cons text texts ih =>
    by_cases htext : text = ""
    · simpa [htext] using ih
    · simpa [htext] using ih

end Layout

@[simp]
theorem OperationKind.newlines_text (k : OperationKind) :
  newlines k.text = 0
  := by cases k <;> rfl

@[simp]
theorem DirectiveLocation.newlines_text (l : DirectiveLocation) :
  newlines l.text = 0
  := by cases l <;> rfl

/-! ## Newlines in contents -/

/-- The newlines of a leaf, of which the words of the language have none. -/
def Leaf.breaks : Leaf → Nat
  | .keyword _ => 0
  | .raw text => newlines text
  | .string s => s.breaks

/-- The string that a leaf is. -/
def Leaf.string? : Leaf → Option StringValue
  | .string s => some s
  | _ => none

/-- Where no raw text has a newline, the newlines of leaves are those of the strings. -/
theorem Leaf.sum_breaks {ls : List Leaf} (h : ∀ text, .raw text ∈ ls → '\n' ∉ text.toList) :
  (ls.map breaks).sum = ((ls.filterMap string?).map StringValue.breaks).sum
  := by
  induction ls with
  | nil => rfl
  | cons l ls ih =>
    have hls := ih fun text htext => h text (List.mem_cons_of_mem l htext)
    cases l with
    | keyword text => simpa [breaks, string?, List.filterMap_cons] using hls
    | raw text =>
      simpa [breaks, string?, List.filterMap_cons, h text List.mem_cons_self] using hls
    | string s => simpa [breaks, string?, List.filterMap_cons] using hls

namespace Content

/-- The newlines of an entry. -/
def breaks : Content → Nat
  | .leaf l => l.breaks
  | .node n => newlines n.text

/-- The newlines of several entries. -/
def total (cs : List Content) : Nat := (cs.map breaks).sum

@[simp]
theorem total_nil :
  total [] = 0
  := rfl

@[simp]
theorem total_cons (c : Content) (cs : List Content) :
  total (c :: cs) = c.breaks + total cs
  := rfl

@[simp]
theorem total_append (cs ds : List Content) :
  total (cs ++ ds) = total cs + total ds
  := by simp [total]

@[simp]
theorem breaks_leaf (l : Leaf) :
  breaks (.leaf l) = l.breaks
  := rfl

@[simp]
theorem breaks_node (n : Node) :
  breaks (.node n) = newlines n.text
  := rfl

@[simp]
theorem total_each {α : Type} (toNode : α → Node) (xs : List α) :
  total (each toNode xs) = (xs.map fun x => newlines (toNode x).text).sum
  := by simp [total, each, Function.comp_def]

@[simp]
theorem total_keyword (text : String) :
  total (keyword text) = 0
  := rfl

@[simp]
theorem total_raw (text : String) :
  total (raw text) = newlines text
  := rfl

@[simp]
theorem total_named (text : String) :
  total (named text) = newlines text
  := by simp [named, Node.text, Node.layout, Node.body, Node.description?]

@[simp]
theorem total_types (ts : List NamedType) :
  total (types ts) = (ts.map fun t => newlines t.layout.text).sum
  := total_each _ ts

@[simp]
theorem total_applied (ds : List Directive) :
  total (applied ds) = (ds.map fun d => newlines d.layout.text).sum
  := total_each _ ds

@[simp]
theorem total_described (description? : Option StringValue) :
  total (described description?) = (description?.toList.map StringValue.breaks).sum
  := by simp [described, Node.text, Node.layout, Node.body, Node.description?, Value.layout]

@[simp]
theorem total_locations (locations : List DirectiveLocation) :
  total (locations.flatMap fun l => keyword l.text) = 0
  := by
  induction locations with
  | nil => rfl
  | cons l locations ih => simp [ih]

end Content

open Content

/-! ## The printing rules

What `decide` discharges is that a mark of a rule has no newline in it. -/

theorem Node.text_eq (n : Node) :
  n.text = (described n.description? n.body).text
  := rfl

theorem Value.newlines_text (v : Value) :
  newlines v.layout.text = total v.contents
  := by
  cases v with
  | string s => simp [layout, contents, Leaf.breaks]
  | boolean value => cases value <;> rfl
  | list items | object fields =>
    simp (disch := decide) [layout, contents, Node.text_eq, Node.body, Node.description?]
  | _ => simp (disch := decide) [layout, contents, Variable.layout]

theorem TypeRef.newlines_text (t : TypeRef) :
  newlines t.layout.text = total t.contents
  := by
  cases t with
  | named t => simp [layout, contents, NamedType.layout]
  | list t | nonNull t =>
    simp (disch := decide) [layout, contents, Node.text_eq, Node.body, Node.description?]

theorem Selection.newlines_text (s : Selection) :
  newlines s.layout.text = total s.contents
  := by
  cases s with
  | field f =>
    obtain ⟨alias?, name, args, ds, ss⟩ := f
    simp (disch := decide) [layout, contents, Field.layout, word?, SelectionSet.layout,
      Node.text_eq, Node.body, Node.description?]
  | fragmentSpread s => simp (disch := decide) [layout, contents, FragmentSpread.layout]
  | inlineFragment f =>
    obtain ⟨typeCondition?, ds, ss⟩ := f
    simp (disch := decide) [layout, contents, InlineFragment.layout, SelectionSet.layout,
      Node.text_eq, Node.body, Node.description?]

theorem Declaration.newlines_text (d : Declaration) :
  newlines d.layout.text = total d.contents
  := by
  cases d with
  | schema ds operationTypes =>
    simp (disch := decide) [layout, contents, Node.text_eq, Node.body, Node.description?]
  | scalar name ds => simp (disch := decide) [layout, contents]
  | object name interfaces ds fields | interface name interfaces ds fields =>
    simp (disch := decide) [layout, contents, fieldsType, FieldDefinition.layout, Node.text_eq,
      Node.body, Node.description?]
  | union name ds members => simp (disch := decide) [layout, contents]
  | enum name ds values =>
    simp (disch := decide) [layout, contents, EnumValueDefinition.layout, Node.text_eq, Node.body,
      Node.description?]
  | inputObject name ds fields =>
    simp (disch := decide) [layout, contents, InputValueDefinition.layout, Node.text_eq, Node.body,
      Node.description?]

theorem Definition.newlines_text (d : Definition) :
  newlines d.layout.text = d.description?.toList.length + total d.contents
  := by
  cases d with
  | operation d =>
    simp (disch := decide) [layout, contents, body, Definition.description?,
      OperationDefinition.layout, SelectionSet.layout, word?, Node.text_eq, Node.body,
      Node.description?]
  | fragment d =>
    simp (disch := decide) [layout, contents, body, Definition.description?,
      FragmentDefinition.layout, Node.text_eq, Node.body, Node.description?]
  | define description? d =>
    simp [layout, contents, body, Definition.description?, d.newlines_text]
  | directive d =>
    cases hrepeatable : d.repeatable <;>
      simp (disch := decide) [layout, contents, body, Definition.description?,
        DirectiveDefinition.body, hrepeatable, InputValueDefinition.layout, Node.text_eq,
        Node.body, Node.description?]
  | extend d =>
    simp (disch := decide) [layout, contents, body, Definition.description?, d.newlines_text]

namespace Node

/-- The number of blank lines in a document, of which there is one before each definition with a
text but the first. -/
def gaps : Node → Nat
  | .document d => (d.definitions.filter fun d => (Node.definition d).text ≠ "").tail.length
  | _ => 0

theorem newlines_document (d : Document) :
  newlines (Node.document d).text = total (Node.document d).contents + 2 * (Node.document d).gaps
  := by
  have hsolid : ∀ part ∈ d.definitions.map Definition.layout, part.Solid := by simp
  have htext : (Node.document d).text = _ := text_glue "\n\n" hsolid
  have hgap : newlines "\n\n" = 2 := rfl
  have hgaps : (((d.definitions.map Definition.layout).map Layout.text).filter (· ≠ "")).tail.length
      = (Node.document d).gaps := by
    rw [List.map_map, List.filter_map, ← List.map_tail, List.length_map]
    rfl
  rw [htext, newlines_intercalate, sum_newlines_filter, hgap, hgaps, contents, total_each,
    List.map_map, List.map_map]
  rfl

/-- A node has a newline for its description, those of its contents, and two for each gap. -/
theorem newlines_contents (n : Node) :
  newlines n.text = n.description?.toList.length + total n.contents + 2 * n.gaps
  := by
  cases n with
  | name text => simp [text_eq, body, description?, contents, gaps]
  | document d => simpa [description?] using newlines_document d
  | definition d => exact d.newlines_text
  | variableDefinition d =>
    simp (disch := decide) [text_eq, body, description?, contents, gaps, VariableDefinition.layout,
      Value.layout]
  | selectionSet ss => simp [text_eq, body, description?, contents, gaps, SelectionSet.layout]
  | selection s => simpa [text_eq, body, description?, contents, gaps] using s.newlines_text
  | argument a =>
    simp (disch := decide) [text_eq, body, description?, contents, gaps, Argument.layout,
      Layout.named]
  | value v => simpa [text_eq, body, description?, contents, gaps] using v.newlines_text
  | objectField f =>
    obtain ⟨name, value⟩ := f
    simp (disch := decide) [text_eq, body, description?, contents, gaps, ObjectField.layout,
      Layout.named]
  | directive d =>
    simp (disch := decide) [text_eq, body, description?, contents, gaps, Directive.layout]
  | type t => simpa [text_eq, body, description?, contents, gaps] using t.newlines_text
  | operationType d =>
    simp (disch := decide) [text_eq, body, description?, contents, gaps,
      OperationTypeDefinition.layout, Layout.named]
  | fieldDefinition d =>
    simp (disch := decide) [text_eq, body, description?, contents, gaps, FieldDefinition.body,
      InputValueDefinition.layout]
  | inputValue d =>
    simp (disch := decide) [text_eq, body, description?, contents, gaps, InputValueDefinition.body,
      Layout.named]
  | enumValue d =>
    simp (disch := decide) [text_eq, body, description?, contents, gaps, EnumValueDefinition.body]

/-! ## Newlines of a whole tree -/

/-- The descriptions in a tree. -/
def descriptions (n : Node) : List StringValue := n.nodes.filterMap description?

/-- The strings in a tree, those of the descriptions included. -/
def strings (n : Node) : List StringValue := n.leaves.filterMap Leaf.string?

/-- The description of a node is followed by those in its contents. -/
theorem length_descriptions (n : Node) :
  n.descriptions.length = n.description?.toList.length
    + ((n.contents.flatMap Content.nodes).filterMap description?).length
  := by
  rw [descriptions, nodes_eq, List.filterMap_cons]
  cases n.description? with
  | none => simp
  | some s => simp [Nat.add_comm]

theorem gaps_of_mem_contents {n m : Node} (h : .node m ∈ n.contents) :
  m.gaps = 0
  := by
  cases m with
  | document d =>
    exfalso
    apply n.document_not_mem_contents d h
  | _ => rfl

/-- If the newlines of each node in some contents are those of the descriptions and leaves of the
node, so are the newlines of the contents. -/
theorem total_eq (cs : List Content)
    (h : ∀ m, .node m ∈ cs →
      newlines m.text = m.descriptions.length + (m.leaves.map Leaf.breaks).sum) :
  total cs = ((cs.flatMap Content.nodes).filterMap description?).length
    + ((cs.flatMap Content.leaves).map Leaf.breaks).sum
  := by
  induction cs with
  | nil => rfl
  | cons c cs ih =>
    have hcs := ih fun m hm => h m (List.mem_cons_of_mem c hm)
    simp only [total_cons, List.flatMap_cons, List.filterMap_append, List.length_append,
      List.map_append, List.sum_append_nat, hcs]
    cases c with
    | leaf l =>
      simp [Content.nodes, Content.leaves]
      omega
    | node m =>
      have hm := h m List.mem_cons_self
      rw [descriptions] at hm
      simp only [Content.nodes, Content.leaves, breaks_node, hm]
      omega

/-- The newlines of a text are those for the descriptions, of the leaves and between the
definitions of a document. -/
theorem newlines_text (n : Node) :
  newlines n.text = n.descriptions.length + (n.leaves.map Leaf.breaks).sum + 2 * n.gaps
  := by
  induction n using Node.induction with
  | step n ih =>
    have hcontents := total_eq n.contents
    -- only a whole document has gaps, and none is inside another node
    rw [newlines_contents, length_descriptions, leaves_eq, hcontents]
    · omega
    · intro m hm
      rw [ih m hm, gaps_of_mem_contents hm]
      rfl

/-- Where no name, number or enum value has a newline in it, the newlines of a text are one for
each description, those of the literals, and two for each definition of a document with a text but
the first.  So any other node without descriptions and block literals is printed on a single
line. -/
theorem text_lines (n : Node) (h : ∀ text, .raw text ∈ n.leaves → '\n' ∉ text.toList) :
  newlines n.text = n.descriptions.length + (n.strings.map StringValue.breaks).sum + 2 * n.gaps ∧
  ((∀ d, n ≠ .document d) → (∀ m, n.Contains m → m.description? = none) →
    (∀ s ∈ n.strings, s.placement? = none) → '\n' ∉ n.text.toList)
  := by
  have hcount : newlines n.text
      = n.descriptions.length + (n.strings.map StringValue.breaks).sum + 2 * n.gaps := by
    rw [newlines_text, Leaf.sum_breaks h, strings]
  use hcount
  intro hdocument hdescribed hquoted
  have hdescriptions : n.descriptions = [] := by
    rw [descriptions, List.filterMap_eq_nil_iff]
    intro m hm
    apply hdescribed
    apply (mem_nodes_iff n m).mp hm
  have hbreaks : (n.strings.map StringValue.breaks).sum = 0 := by
    rw [List.sum_eq_zero_iff_forall_eq_nat, List.forall_mem_map]
    intro s hs
    rw [StringValue.breaks, hquoted s hs]
  have hgaps : n.gaps = 0 := by
    cases n with
    | document d =>
      exfalso
      apply hdocument d rfl
    | _ => rfl
  rw [← newlines_eq_zero_iff, hcount, hdescriptions, hbreaks, hgaps]
  rfl

/-- Two scalar types, of which the first is described and has a block literal in a directive, and
between them a fragment that prints to nothing. -/
def dateDocument : Node :=
  .document ⟨[
    .define (some (.ofBlock "A day.\nIn UTC."))
      (.scalar "Date" [⟨"link", [⟨"to", .string (.ofBlock "  x")⟩]⟩]),
    .fragment ⟨"", ⟨""⟩, [], []⟩,
    .define none (.scalar "Url" [])]⟩

/-- An argument with a newline in its value, which is written quoted. -/
def noteArgument : Node := .argument ⟨"note", .string (.quoted "a\nb")⟩

theorem text_lines_dateDocument :
  (∀ text, .raw text ∈ dateDocument.leaves → '\n' ∉ text.toList)
    ∧ newlines dateDocument.text = 1 + (3 + 1) + 2 * 1
    ∧ (∀ text, .raw text ∈ noteArgument.leaves → '\n' ∉ text.toList)
    ∧ (∀ d, noteArgument ≠ .document d)
    ∧ (∀ m, noteArgument.Contains m → m.description? = none)
    ∧ (∀ s ∈ noteArgument.strings, s.placement? = none)
    ∧ '\n' ∉ noteArgument.text.toList
  := by
  have hleaves : dateDocument.leaves =
      [.string (.ofBlock "A day.\nIn UTC."), .raw "Date", .raw "link", .raw "to",
        .string (.ofBlock "  x"), .raw "", .raw "", .raw "Url"] := by cbv
  have hraw : ∀ text, .raw text ∈ dateDocument.leaves → '\n' ∉ text.toList := by
    intro text htext
    simp only [hleaves, List.mem_cons, List.not_mem_nil, or_false, reduceCtorEq, false_or,
      Leaf.raw.injEq] at htext
    rcases htext with rfl | rfl | rfl | rfl | rfl | rfl <;> decide
  have hdescriptions : dateDocument.descriptions = [.ofBlock "A day.\nIn UTC."] := by cbv
  have hstrings : dateDocument.strings = [.ofBlock "A day.\nIn UTC.", .ofBlock "  x"] := by
    rw [strings, hleaves]
    rfl
  have hgaps : dateDocument.gaps = 1 := by decide
  have hcount := (text_lines dateDocument hraw).1
  rw [hdescriptions, hstrings, hgaps] at hcount
  have hleaves' : noteArgument.leaves = [.raw "note", .string (.quoted "a\nb")] := by cbv
  have hraw' : ∀ text, .raw text ∈ noteArgument.leaves → '\n' ∉ text.toList := by
    intro text htext
    simp only [hleaves', List.mem_cons, List.not_mem_nil, or_false, reduceCtorEq,
      Leaf.raw.injEq] at htext
    obtain rfl := htext
    decide
  have hdocument : ∀ d, noteArgument ≠ .document d := by simp [noteArgument]
  have hdescribed : ∀ m, noteArgument.Contains m → m.description? = none := by
    intro m hm
    have hnodes : noteArgument.nodes =
        [noteArgument, .name "note", .value (.string (.quoted "a\nb"))] := by cbv
    rw [← mem_nodes_iff, hnodes] at hm
    simp only [List.mem_cons, List.not_mem_nil, or_false] at hm
    rcases hm with rfl | rfl | rfl <;> rfl
  have hquoted : ∀ s ∈ noteArgument.strings, s.placement? = none := by
    rw [strings, hleaves']
    decide
  exact ⟨hraw, hcount, hraw', hdocument, hdescribed, hquoted,
    (text_lines noteArgument hraw').2 hdocument hdescribed hquoted⟩

end Node

end GraphQLText
