import GraphQLText.Tree.Node
import Mathlib.Logic.Relation

/-!
# What a node is made of

`Node.contents` lists what a node is made of, in the order of the grammar: its description
first, then its keyword, alias or name, and then all else.  Each entry is a leaf, which is
written as it stands, or a smaller node; so `Node.induction` proves a property of all nodes
from that of the nodes in their contents.  `Node.leaves` are the leaves of the whole tree and
`Node.nodes` its nodes, and `Node.Contains` says that one node is somewhere inside another.
-/

namespace GraphQLText

/-- What is written as it stands. -/
inductive Leaf where
  /-- A word of the language: a truth value, `null`, the kind of an operation and the like. -/
  | keyword (text : String)
  /-- A name, a number or an enum value, by its text. -/
  | raw (text : String)
  | string (s : StringValue)
deriving DecidableEq, Repr

/-- An entry of the contents of a node. -/
inductive Content where
  | leaf (l : Leaf)
  | node (n : Node)

namespace Content

/-- Several parts, each of which is a node. -/
def each {α : Type} (toNode : α → Node) (xs : List α) : List Content :=
  xs.map fun x => .node (toNode x)

/-- A word of the language. -/
def keyword (text : String) : List Content := [.leaf (.keyword text)]

/-- A text of the document. -/
def raw (text : String) : List Content := [.leaf (.raw text)]

/-- The name of a node. -/
def named (text : String) : List Content := [.node (.name text)]

/-- References to types by their names. -/
def types (ts : List NamedType) : List Content := each (fun t => .type (.named t)) ts

/-- The directives that are applied to a node. -/
def applied (ds : List Directive) : List Content := each .directive ds

/-- The description of a node. -/
def described (description? : Option StringValue) : List Content :=
  each (fun s => .value (.string s)) description?.toList

variable {n : Node}

@[simp]
theorem mem_each {α : Type} {toNode : α → Node} {xs : List α} :
  .node n ∈ each toNode xs ↔ ∃ x ∈ xs, toNode x = n
  := by simp [each]

@[simp]
theorem not_mem_keyword {text : String} :
  .node n ∉ keyword text
  := by simp [keyword]

@[simp]
theorem not_mem_raw {text : String} :
  .node n ∉ raw text
  := by simp [raw]

@[simp]
theorem mem_named {text : String} :
  .node n ∈ named text ↔ n = .name text
  := by simp [named]

@[simp]
theorem mem_types {ts : List NamedType} :
  .node n ∈ types ts ↔ ∃ t ∈ ts, .type (.named t) = n
  := by simp [types]

@[simp]
theorem mem_applied {ds : List Directive} :
  .node n ∈ applied ds ↔ ∃ d ∈ ds, .directive d = n
  := by simp [applied]

@[simp]
theorem mem_described {description? : Option StringValue} :
  .node n ∈ described description? ↔ ∃ s, description? = some s ∧ .value (.string s) = n
  := by simp [described]

end Content

open Content

/-! ## Contents -/

/-- The contents of a value. -/
def Value.contents : Value → List Content
  | .var v => named v.name
  | .string s => [.leaf (.string s)]
  | .float text => raw text
  | .int text => raw text
  | .boolean true => keyword "true"
  | .boolean false => keyword "false"
  | .enum name => raw name
  | .list items => each .value items
  | .object fields => each .objectField fields
  | .null => keyword "null"

/-- The contents of a type reference. -/
def TypeRef.contents : TypeRef → List Content
  | .named ⟨name⟩ => Content.named name
  | .list item => [.node (.type item)]
  | .nonNull t => [.node (.type t)]

/-- The contents of a selection. -/
def Selection.contents : Selection → List Content
  | .field f =>
    each .name f.alias?.toList ++ named f.name ++ each .argument f.arguments ++
      applied f.directives ++ [.node (.selectionSet f.selections)]
  | .fragmentSpread s => named s.name ++ applied s.directives
  | .inlineFragment f =>
    types f.typeCondition?.toList ++ applied f.directives ++ [.node (.selectionSet f.selections)]

/-- The contents of a declaration. -/
def Declaration.contents : Declaration → List Content
  | .schema ds operationTypes =>
    keyword "schema" ++ applied ds ++ each .operationType operationTypes
  | .scalar name ds => named name ++ applied ds
  | .object name interfaces ds fields
  | .interface name interfaces ds fields =>
    named name ++ types interfaces ++ applied ds ++ each .fieldDefinition fields
  | .union name ds members => named name ++ applied ds ++ types members
  | .enum name ds values => named name ++ applied ds ++ each .enumValue values
  | .inputObject name ds fields => named name ++ applied ds ++ each .inputValue fields

/-- The contents of a definition. -/
def Definition.contents : Definition → List Content
  | .operation d =>
    keyword d.operation.text ++ each .name d.name?.toList ++
      each .variableDefinition d.variableDefinitions ++ applied d.directives ++
      [.node (.selectionSet d.selections)]
  | .fragment d =>
    named d.name ++ types [d.typeCondition] ++ applied d.directives ++
      [.node (.selectionSet d.selections)]
  | .define description? d => described description? ++ d.contents
  | .directive d =>
    described d.description? ++ named d.name ++ each .inputValue d.arguments ++
      (if d.repeatable then keyword "repeatable" else []) ++
      d.locations.flatMap fun l => keyword l.text
  | .extend d => d.contents

/-- The contents of a node. -/
def Node.contents : Node → List Content
  | .name text => raw text
  | .document d => each .definition d.definitions
  | .definition d => d.contents
  | .variableDefinition d =>
    [.node (.value (.var d.var)), .node (.type d.type)] ++ each .value d.default?.toList ++
      applied d.directives
  | .selectionSet ss => each .selection ss
  | .selection s => s.contents
  | .argument a => named a.name ++ [.node (.value a.value)]
  | .value v => v.contents
  | .objectField f => named f.name ++ [.node (.value f.value)]
  | .directive d => named d.name ++ each .argument d.arguments
  | .type t => t.contents
  | .operationType d => keyword d.operation.text ++ types [d.type]
  | .fieldDefinition d =>
    described d.description? ++ named d.name ++ each .inputValue d.arguments ++
      [.node (.type d.type)] ++ applied d.directives
  | .inputValue d =>
    described d.description? ++ named d.name ++ [.node (.type d.type)] ++
      each .value d.default?.toList ++ applied d.directives
  | .enumValue d => described d.description? ++ named d.name ++ applied d.directives

/-! ## The nodes inside a node -/

theorem TypeRef.sizeOf_pos (t : TypeRef) :
  0 < sizeOf t
  := by
  cases t with
  | named t => simp only [named.sizeOf_spec]; omega
  | list t => simp only [list.sizeOf_spec]; omega
  | nonNull t => simp only [nonNull.sizeOf_spec]; omega

/-- A node is larger than each node in its contents. -/
theorem Node.sizeOf_lt_of_mem_contents {n m : Node} (h : .node m ∈ n.contents) :
  sizeOf m < sizeOf n
  := by
  cases n with
  | name text => simp [contents] at h
  | document d | argument d | objectField d | directive d | fieldDefinition d | inputValue d
  | enumValue d =>
    cases d
    simp [contents] at h
    grind [→ List.sizeOf_lt_of_mem]
  | selectionSet ss =>
    simp [contents] at h
    grind [→ List.sizeOf_lt_of_mem]
  | variableDefinition d =>
    obtain ⟨var, type, default?, ds⟩ := d
    have htype := type.sizeOf_pos
    simp [contents] at h
    grind [→ List.sizeOf_lt_of_mem]
  | operationType d =>
    obtain ⟨operation, type⟩ := d
    simp [contents] at h
    cases operation <;> grind
  | definition d =>
    cases d with
    | operation d | fragment d | directive d =>
      cases d
      simp [contents, Definition.contents] at h
      grind [→ List.sizeOf_lt_of_mem]
    | define description? d | extend d =>
      simp [contents, Definition.contents] at h
      cases d <;>
      · simp [Declaration.contents] at h
        grind [→ List.sizeOf_lt_of_mem]
  | selection s =>
    cases s with
    | field s | fragmentSpread s | inlineFragment s =>
      cases s
      simp [contents, Selection.contents] at h
      grind [→ List.sizeOf_lt_of_mem]
  | value v =>
    cases v with
    | var v =>
      cases v
      simp [contents, Value.contents] at h
      grind
    | list xs | object xs =>
      simp [contents, Value.contents] at h
      grind [→ List.sizeOf_lt_of_mem]
    | boolean value => cases value <;> simp [contents, Value.contents] at h
    | _ => simp [contents, Value.contents] at h
  | type t =>
    cases t with
    | named t =>
      cases t
      simp [contents, TypeRef.contents] at h
      grind
    | list t | nonNull t =>
      simp [contents, TypeRef.contents] at h
      grind

/-- A document is not inside any node. -/
theorem Node.document_not_mem_contents (n : Node) (d : Document) :
  .node (.document d) ∉ n.contents
  := by
  cases n with
  | definition n =>
    cases n with
    | define description? n | extend n =>
      cases n <;> simp [contents, Definition.contents, Declaration.contents]
    | directive n => cases h : n.repeatable <;> simp [contents, Definition.contents, h]
    | _ => simp [contents, Definition.contents]
  | selection n => cases n <;> simp [contents, Selection.contents]
  | value n =>
    cases n with
    | boolean value => cases value <;> simp [contents, Value.contents]
    | _ => simp [contents, Value.contents]
  | type n => cases n <;> simp [contents, TypeRef.contents]
  | _ => simp [contents]

/-- A property that each node has if all nodes in its contents do, all nodes have. -/
theorem Node.induction {P : Node → Prop}
    (step : ∀ n : Node, (∀ m, .node m ∈ n.contents → P m) → P n) (n : Node) :
  P n
  := by
  apply step
  intro m hm
  apply induction step m
termination_by sizeOf n
decreasing_by exact sizeOf_lt_of_mem_contents hm

/-- One node is another or somewhere inside it. -/
def Node.Contains : Node → Node → Prop :=
  Relation.ReflTransGen fun n m => .node m ∈ n.contents

theorem Node.contains_of_mem {n m : Node} (h : .node m ∈ n.contents) :
  n.Contains m
  := .single h

theorem Node.Contains.trans {n m k : Node} (h : n.Contains m) (h' : m.Contains k) :
  n.Contains k
  := Relation.ReflTransGen.trans h h'

/-! ## Leaves -/

/-- The leaves of a node, from left to right. -/
def Node.leaves (n : Node) : List Leaf :=
  n.contents.attach.flatMap fun
    | ⟨.leaf l, _⟩ => [l]
    | ⟨.node m, _⟩ => m.leaves
termination_by sizeOf n
decreasing_by
  apply sizeOf_lt_of_mem_contents
  assumption

/-- The leaves of an entry. -/
def Content.leaves : Content → List Leaf
  | .leaf l => [l]
  | .node n => n.leaves

theorem Node.leaves_eq (n : Node) :
  n.leaves = n.contents.flatMap Content.leaves
  := by
  rw [leaves, List.flatMap_subtype (g := Content.leaves), List.unattach_attach]
  intro c _
  cases c <;> rfl

/-- The leaves of a node inside another are leaves of the latter. -/
theorem Node.Contains.mem_leaves {n m : Node} (h : n.Contains m) {l : Leaf} (hl : l ∈ m.leaves) :
  l ∈ n.leaves
  := by
  induction h with
  | refl => exact hl
  | @tail k m _ hm ih =>
    apply ih
    rw [k.leaves_eq]
    apply List.mem_flatMap.mpr
    exact ⟨.node m, hm, hl⟩

/-! ## All nodes -/

/-- A node and the nodes inside it, each before those inside it. -/
def Node.nodes (n : Node) : List Node :=
  n :: n.contents.attach.flatMap fun
    | ⟨.leaf _, _⟩ => []
    | ⟨.node m, _⟩ => m.nodes
termination_by sizeOf n
decreasing_by
  apply sizeOf_lt_of_mem_contents
  assumption

/-- The nodes of an entry. -/
def Content.nodes : Content → List Node
  | .leaf _ => []
  | .node n => n.nodes

theorem Node.nodes_eq (n : Node) :
  n.nodes = n :: n.contents.flatMap Content.nodes
  := by
  rw [nodes, List.flatMap_subtype (g := Content.nodes), List.unattach_attach]
  intro c _
  cases c <;> rfl

/-- The nodes listed are the node and those inside it. -/
theorem Node.mem_nodes_iff (n m : Node) :
  m ∈ n.nodes ↔ n.Contains m
  := by
  induction n using Node.induction with
  | step n ih =>
    rw [n.nodes_eq, List.mem_cons, List.mem_flatMap]
    constructor
    · rintro (rfl | ⟨c, hc, hm⟩)
      · exact .refl
      · cases c with
        | leaf l => simp [Content.nodes] at hm
        | node k => exact (contains_of_mem hc).trans ((ih k hc).mp hm)
    · intro h
      rcases Relation.ReflTransGen.cases_head h with rfl | ⟨k, hk, hm⟩
      · exact .inl rfl
      · exact .inr ⟨.node k, hk, (ih k hk).mpr hm⟩

end GraphQLText
