import GraphQLText.Proofs.Layout.Content
import GraphQLText.Proofs.Reading.Routes

/-!
# Positions in the JSON form of a tree

The readers descend from a node only at the keys of its kind, into a node or into the items of
a list.  What stands at the positions that are reached so from the root is printed: the node
that a position holds is printed as one piece of the text of the root
(`Node.Represents.exists_of_reaches`).  A description is at its node, or the node is refused; so
none is lost on the way from JSON to text (`printJson_description`).
-/

namespace GraphQLText

open Json Reading

/-! ## Keys -/

/-- The keys of a declaration of a form that hold one node. -/
def Form.nodeKeys : Form → List String
  | .schema => []
  | _ => ["name"]

/-- The keys of a declaration of a form that hold a list of nodes. -/
def Form.listKeys : Form → List String
  | .schema => ["directives", "operationTypes"]
  | .scalar => ["directives"]
  | .object | .interface => ["interfaces", "directives", "fields"]
  | .union => ["directives", "types"]
  | .enum => ["directives", "values"]
  | .inputObject => ["directives", "fields"]

namespace Kind

/-- The keys of a kind that hold one node. -/
def nodeKeys : Kind → List String
  | .operationDefinition => ["name", "selectionSet"]
  | .variableDefinition => ["variable", "type", "defaultValue"]
  | .field => ["alias", "name", "selectionSet"]
  | .argument | .objectField => ["name", "value"]
  | .fragmentSpread | .var | .directive | .namedType => ["name"]
  | .inlineFragment => ["typeCondition", "selectionSet"]
  | .fragmentDefinition => ["name", "typeCondition", "selectionSet"]
  | .listType | .nonNullType | .operationTypeDefinition => ["type"]
  | .fieldDefinition => ["description", "name", "type"]
  | .inputValueDefinition => ["description", "name", "type", "defaultValue"]
  | .enumValueDefinition | .directiveDefinition => ["description", "name"]
  | .definition form => "description" :: form.nodeKeys
  | .extension form => form.nodeKeys
  | _ => []

/-- The keys of a kind that hold a list of nodes. -/
def listKeys : Kind → List String
  | .document => ["definitions"]
  | .operationDefinition => ["variableDefinitions", "directives"]
  | .selectionSet => ["selections"]
  | .field => ["arguments", "directives"]
  | .directive => ["arguments"]
  | .listValue => ["values"]
  | .objectValue => ["fields"]
  | .variableDefinition | .fragmentSpread | .inlineFragment | .fragmentDefinition
  | .inputValueDefinition | .enumValueDefinition => ["directives"]
  | .fieldDefinition => ["arguments", "directives"]
  | .directiveDefinition => ["arguments", "locations"]
  | .definition form | .extension form => form.listKeys
  | _ => []

end Kind

/-- A value at a key of a node, or an item of the list there. -/
inductive Json.Holds (json : Json) : Json → Prop where
  | node {kind : Kind} {key : String} {child : Json} (hkind : json.HasKind kind)
      (hkey : key ∈ kind.nodeKeys) (h : json.field? key = some child) : Holds json child
  | item {kind : Kind} {key : String} {items : List Json} {child : Json}
      (hkind : json.HasKind kind) (hkey : key ∈ kind.listKeys)
      (h : json.field? key = some (.array items)) (hitem : child ∈ items) : Holds json child

/-- A value is at the root or at a position that the readers reach from there. -/
def Json.Reaches : Json → Json → Prop := Relation.ReflTransGen Json.Holds

theorem Json.Holds.isObject {json child : Json} (h : json.Holds child) :
  json.isObject
  := by
  cases h with
  | node hkind => exact hkind.isObject
  | item hkind => exact hkind.isObject

/-- There are no positions but in objects. -/
theorem Json.Reaches.isObject {json child : Json} (h : json.Reaches child)
    (hchild : child.isObject) :
  json.isObject
  := by
  rcases h.cases_head with rfl | ⟨middle, hholds, -⟩
  · exact hchild
  · exact hholds.isObject

theorem Json.isObject_of_field? {json value : Json} {key : String}
    (h : json.field? key = some value) :
  json.isObject
  := by
  have hmember := member?_eq_of_field? h
  cases json with
  | object members => rfl
  | _ => contradiction

/-! ## What the positions of a node hold -/

namespace Node

variable {json child : Json} {n : Node} {key : String}

/-- A value that, if it is an object, stands for a node that is printed as one piece of `n`. -/
def Shows (n : Node) (child : Json) : Prop :=
  child.isObject → ∃ m : Node, m.Represents child ∧ m.layout <:+: n.layout

/-- The value at a key, if there is one, is shown. -/
def ShowsNode (n : Node) (json : Json) (key : String) : Prop :=
  ∀ child, json.field? key = some child → n.Shows child

/-- The items of the list at a key, if there is one, are shown. -/
def ShowsItems (n : Node) (json : Json) (key : String) : Prop :=
  ∀ items, json.field? key = some (.array items) → ∀ child ∈ items, n.Shows child

theorem shows_of_mem {m : Node} (hm : .node m ∈ n.contents) (h : m.Represents child) :
  n.Shows child
  := by
  intro _
  use m, h
  exact n.prints.contiguous (.node m) hm

/-- The text of a name is shown with the node around it. -/
theorem shows_name {name : String} (hname : Layout.word name <:+: n.layout)
    (h : child.IsName name) :
  n.Shows child
  := by
  intro hobject
  rcases h with rfl | h
  · contradiction
  · use .name name, h
    exact hname

theorem infix_of_name {name : String} (h : .node (.name name) ∈ n.contents) :
  Layout.word name <:+: n.layout
  := n.prints.contiguous (.node (.name name)) h

theorem infix_of_keyword {text : String} (h : .leaf (.keyword text) ∈ n.contents) :
  Layout.word text <:+: n.layout
  := n.prints.contiguous (.leaf (.keyword text)) h

theorem showsNode_of_has {p : Json → Prop} (h : json.Has key p)
    (hp : ∀ child, p child → n.Shows child) :
  n.ShowsNode json key
  := by
  intro child hchild
  obtain ⟨value, hvalue, h⟩ := h
  rw [hvalue, Option.some.injEq] at hchild
  rw [← hchild]
  exact hp value h

theorem showsNode_of_missing (h : json.field? key = none) :
  n.ShowsNode json key
  := by
  intro child hchild
  rw [h] at hchild
  contradiction

theorem showsNode_of_mem {m : Node} (h : json.Has key (Node.Represents · m))
    (hm : .node m ∈ n.contents) :
  n.ShowsNode json key
  := showsNode_of_has h fun _ => shows_of_mem hm

theorem showsNode_of_option {α : Type} (toNode : α → Node) {x? : Option α}
    (h : json.HasOptional key (fun child x => (toNode x).Represents child) x?)
    (hmem : ∀ x, x? = some x → .node (toNode x) ∈ n.contents) :
  n.ShowsNode json key
  := by
  cases x? with
  | none => exact showsNode_of_missing h
  | some x => exact showsNode_of_mem h (hmem x rfl)

theorem showsNode_of_name {name : String} (h : json.HasName key name)
    (hname : .node (.name name) ∈ n.contents) :
  n.ShowsNode json key
  := showsNode_of_has h fun _ => shows_name (infix_of_name hname)

theorem showsNode_of_name? {name? : Option String} (h : json.HasOptional key IsName name?)
    (hname : ∀ name, name? = some name → .node (.name name) ∈ n.contents) :
  n.ShowsNode json key
  := by
  cases name? with
  | none => exact showsNode_of_missing h
  | some name => exact showsNode_of_name h (hname name rfl)

theorem showsNode_of_selections {ss : SelectionSet} (h : Selections json ss)
    (hmem : .node (.selectionSet ss) ∈ n.contents) :
  n.ShowsNode json "selectionSet"
  := by
  obtain ⟨items, ⟨set, hset, hnode, hitems⟩ | ⟨hmissing, -⟩, hall⟩ := h
  · apply showsNode_of_mem _ hmem
    exact ⟨set, hset, hnode, items, hitems, hall⟩
  · exact showsNode_of_missing hmissing

theorem showsItems_of_list {α : Type} {represents : Json → α → Prop} {xs : List α}
    (h : json.HasList key represents xs)
    (hrepresents : ∀ x ∈ xs, ∀ child, represents child x → n.Shows child) :
  n.ShowsItems json key
  := by
  intro items hitems child hchild
  obtain ⟨found, hfound | ⟨hmissing, -⟩, hall⟩ := h
  · rw [hitems, Option.some.injEq, Json.array.injEq] at hfound
    rw [← hfound] at hall
    obtain ⟨x, hx, hxchild⟩ := exists_of_forall₂ hall hchild
    exact hrepresents x hx child hxchild
  · rw [hitems] at hmissing
    contradiction

theorem showsItems_of_each {α : Type} (toNode : α → Node) {xs : List α}
    (h : json.HasList key (fun child x => (toNode x).Represents child) xs)
    (hmem : ∀ x ∈ xs, .node (toNode x) ∈ n.contents) :
  n.ShowsItems json key
  := by
  apply showsItems_of_list h
  intro x hx child
  exact shows_of_mem (hmem x hx)

/-! ## Declarations -/

theorem showsNode_of_declaration {d : Declaration} (h : d.Fields json)
    (hcontents : d.contents ⊆ n.contents) :
  d.form.nodeKeys.Forall (n.ShowsNode json)
  := by
  cases d with
  | schema ds operationTypes => trivial
  | scalar name ds | object name interfaces ds fields | interface name interfaces ds fields
  | union name ds members | enum name ds values | inputObject name ds fields =>
    apply showsNode_of_name h.1
    apply hcontents
    simp [Declaration.contents]

theorem showsItems_of_declaration {d : Declaration} (h : d.Fields json)
    (hcontents : d.contents ⊆ n.contents) :
  d.form.listKeys.Forall (n.ShowsItems json)
  := by
  have each : ∀ {α : Type} {key : String} (toNode : α → Node) {xs : List α},
      json.HasList key (fun child x => (toNode x).Represents child) xs →
      (∀ x ∈ xs, .node (toNode x) ∈ d.contents) → n.ShowsItems json key := by
    intro α key toNode xs hxs hmem
    exact showsItems_of_each toNode hxs fun x hx => hcontents (hmem x hx)
  cases d with
  | schema ds operationTypes =>
    obtain ⟨hds, hoperationTypes⟩ := h
    refine ⟨each .directive hds ?_, each .operationType hoperationTypes ?_⟩ <;>
      simp +contextual [Declaration.contents]
  | scalar name ds =>
    apply each .directive h.2
    simp [Declaration.contents]
  | object name interfaces ds fields | interface name interfaces ds fields =>
    obtain ⟨-, hinterfaces, hds, hfields⟩ := h
    refine ⟨each (fun t => .type (.named t)) hinterfaces ?_, each .directive hds ?_,
      each .fieldDefinition hfields ?_⟩ <;>
      simp +contextual [Declaration.contents]
  | union name ds members =>
    obtain ⟨-, hds, hmembers⟩ := h
    refine ⟨each .directive hds ?_, each (fun t => .type (.named t)) hmembers ?_⟩ <;>
      simp +contextual [Declaration.contents]
  | enum name ds values =>
    obtain ⟨-, hds, hvalues⟩ := h
    refine ⟨each .directive hds ?_, each .enumValue hvalues ?_⟩ <;>
      simp +contextual [Declaration.contents]
  | inputObject name ds fields =>
    obtain ⟨-, hds, hfields⟩ := h
    refine ⟨each .directive hds ?_, each .inputValue hfields ?_⟩ <;>
      simp +contextual [Declaration.contents]

/-! ## Nodes -/

/-- The items of a list of values represent its values. -/
theorem hasList_of_values {vs : List Value} (h : (Value.list vs).Fields json) :
  json.HasList "values" Value.Represents vs
  := by
  obtain ⟨items, hitems, hall⟩ := h
  use items, hitems
  apply ((Value.forall₂_read vs).mpr hall).imp
  intro item v
  exact Value.read_eq_ok.mp

/-- The items of an object literal represent its fields. -/
theorem hasList_of_fields {fs : List ObjectField} (h : (Value.object fs).Fields json) :
  json.HasList "fields" ObjectField.Represents fs
  := by
  obtain ⟨items, hitems, hall⟩ := h
  use items, hitems
  apply ((ObjectField.forall₂_read fs).mpr hall).imp
  intro item f
  exact ObjectField.read_eq_ok.mp

theorem selections_of_representsAll {ss : List Selection}
    (h : ∃ items, json.HasSelections items ∧ Selection.RepresentsAll items ss) :
  Selections json ss
  := by
  obtain ⟨items, hitems, hall⟩ := h
  use items, hitems
  apply ((Selection.forall₂_read ss).mpr hall).imp
  intro item s
  exact Selection.read_eq_ok.mp

/-- What a node has at the keys that hold one node is shown. -/
theorem showsNode_of_represents (h : n.Represents json) :
  n.kind.nodeKeys.Forall (n.ShowsNode json)
  := by
  obtain ⟨-, h⟩ := h
  cases n with
  | name text | document d | selectionSet ss => trivial
  | definition d =>
    cases d with
    | operation d =>
      refine ⟨showsNode_of_name? h.name ?_, showsNode_of_selections h.selections ?_⟩ <;>
        simp [contents, Definition.contents]
    | fragment d =>
      refine ⟨showsNode_of_name h.name ?_,
        showsNode_of_mem (m := .type (.named d.typeCondition)) h.typeCondition ?_,
        showsNode_of_selections h.selections ?_⟩ <;>
        simp [contents, Definition.contents]
    | define description? d =>
      apply (List.forall_cons _ _ _).mpr
      constructor
      · apply showsNode_of_option (fun s => .value (.string s)) h.1
        simp +contextual [contents, Definition.contents]
      · apply showsNode_of_declaration h.2
        simp [contents, Definition.contents]
    | directive d =>
      refine ⟨showsNode_of_option (fun s => .value (.string s)) h.description ?_,
        showsNode_of_name h.name ?_⟩ <;>
        simp [contents, Definition.contents]
    | extend d =>
      apply showsNode_of_declaration h
      simp [contents, Definition.contents]
  | variableDefinition d =>
    refine ⟨showsNode_of_mem (m := .value (.var d.var)) h.var ?_,
      showsNode_of_mem (m := .type d.type) h.type ?_, showsNode_of_option .value h.default ?_⟩ <;>
      simp +contextual [contents]
  | selection s =>
    cases s with
    | field f =>
      obtain ⟨alias?, name, args, ds, ss⟩ := f
      obtain ⟨halias, hname, -, -, hselections⟩ := h
      refine ⟨showsNode_of_name? halias ?_, showsNode_of_name hname ?_,
        showsNode_of_selections (selections_of_representsAll hselections) ?_⟩ <;>
        simp +contextual [contents, Selection.contents]
    | fragmentSpread s =>
      apply showsNode_of_name h.name
      simp [contents, Selection.contents]
    | inlineFragment f =>
      obtain ⟨typeCondition?, ds, ss⟩ := f
      obtain ⟨htypeCondition, -, hselections⟩ := h
      refine ⟨showsNode_of_option (fun t => .type (.named t)) htypeCondition ?_,
        showsNode_of_selections (selections_of_representsAll hselections) ?_⟩ <;>
        simp [contents, Selection.contents]
  | argument a =>
    refine ⟨showsNode_of_name h.name ?_, showsNode_of_mem (m := .value a.value) h.value ?_⟩ <;>
      simp [contents]
  | value v =>
    cases v with
    | var v =>
      apply showsNode_of_name h
      simp [contents, Value.contents]
    | _ => trivial
  | objectField f =>
    obtain ⟨name, value⟩ := f
    obtain ⟨hname, hvalue⟩ := h
    refine ⟨showsNode_of_name hname ?_, showsNode_of_mem (m := .value value) hvalue ?_⟩ <;>
      simp [contents]
  | directive d =>
    apply showsNode_of_name h.name
    simp [contents]
  | type t =>
    cases t with
    | named t =>
      apply showsNode_of_name h
      simp [contents, TypeRef.contents]
    | list t | nonNull t =>
      apply showsNode_of_mem (m := .type t) h
      simp [contents, TypeRef.contents]
  | operationType d =>
    apply showsNode_of_mem (m := .type (.named d.type)) h.type
    simp [contents]
  | fieldDefinition d =>
    refine ⟨showsNode_of_option (fun s => .value (.string s)) h.description ?_,
      showsNode_of_name h.name ?_, showsNode_of_mem (m := .type d.type) h.type ?_⟩ <;>
      simp [contents]
  | inputValue d =>
    refine ⟨showsNode_of_option (fun s => .value (.string s)) h.description ?_,
      showsNode_of_name h.name ?_, showsNode_of_mem (m := .type d.type) h.type ?_,
      showsNode_of_option .value h.default ?_⟩ <;>
      simp +contextual [contents]
  | enumValue d =>
    refine ⟨showsNode_of_option (fun s => .value (.string s)) h.description ?_,
      showsNode_of_name h.name ?_⟩ <;>
      simp [contents]

/-- What a node has at the keys that hold a list of nodes is shown. -/
theorem showsItems_of_represents (h : n.Represents json) :
  n.kind.listKeys.Forall (n.ShowsItems json)
  := by
  obtain ⟨-, h⟩ := h
  cases n with
  | name text | argument a | objectField f | operationType d => trivial
  | document d =>
    apply showsItems_of_each .definition h
    simp [contents]
  | definition d =>
    cases d with
    | operation d =>
      refine ⟨showsItems_of_each .variableDefinition h.variableDefinitions ?_,
        showsItems_of_each .directive h.directives ?_⟩ <;>
        simp +contextual [contents, Definition.contents]
    | fragment d =>
      apply showsItems_of_each .directive h.directives
      simp +contextual [contents, Definition.contents]
    | define description? d =>
      apply showsItems_of_declaration h.2
      simp [contents, Definition.contents]
    | directive d =>
      refine ⟨showsItems_of_each .inputValue h.arguments ?_, showsItems_of_list h.locations ?_⟩
      · simp +contextual [contents, Definition.contents]
      · intro l hl child
        apply shows_name
        apply infix_of_keyword
        simp only [contents, Definition.contents, List.mem_append, List.mem_flatMap]
        exact .inr ⟨l, hl, List.mem_singleton_self _⟩
    | extend d =>
      apply showsItems_of_declaration h
      simp [contents, Definition.contents]
  | variableDefinition d | inputValue d | enumValue d =>
    apply showsItems_of_each .directive h.directives
    simp +contextual [contents]
  | fieldDefinition d =>
    refine ⟨showsItems_of_each .inputValue h.arguments ?_,
      showsItems_of_each .directive h.directives ?_⟩ <;>
      simp +contextual [contents]
  | selectionSet ss =>
    apply showsItems_of_each .selection h
    simp [contents]
  | selection s =>
    cases s with
    | field f =>
      obtain ⟨alias?, name, args, ds, ss⟩ := f
      obtain ⟨-, -, hargs, hds, -⟩ := h
      refine ⟨showsItems_of_each .argument hargs ?_, showsItems_of_each .directive hds ?_⟩ <;>
        simp +contextual [contents, Selection.contents]
    | fragmentSpread s =>
      apply showsItems_of_each .directive h.directives
      simp [contents, Selection.contents]
    | inlineFragment f =>
      obtain ⟨typeCondition?, ds, ss⟩ := f
      apply showsItems_of_each .directive h.2.1
      simp [contents, Selection.contents]
  | value v =>
    cases v with
    | list vs =>
      apply showsItems_of_each .value (hasList_of_values h)
      simp [contents, Value.contents]
    | object fs =>
      apply showsItems_of_each .objectField (hasList_of_fields h)
      simp [contents, Value.contents]
    | _ => trivial
  | directive d =>
    apply showsItems_of_each .argument h.arguments
    simp [contents]
  | type t => cases t <;> trivial

/-- An object that a node holds stands for a node that is printed as one piece of it. -/
theorem Represents.exists_of_holds (h : n.Represents json) (hholds : json.Holds child)
    (hobject : child.isObject) :
  ∃ m : Node, m.Represents child ∧ m.layout <:+: n.layout
  := by
  cases hholds with
  | @node kind key _ hkind hkey hchild =>
    rw [hkind.kind_eq h.1.label] at hkey
    have hshows := List.forall_iff_forall_mem.mp (showsNode_of_represents h) key hkey
    exact hshows child hchild hobject
  | @item kind key items _ hkind hkey hitems hchild =>
    rw [hkind.kind_eq h.1.label] at hkey
    have hshows := List.forall_iff_forall_mem.mp (showsItems_of_represents h) key hkey
    exact hshows items hitems child hchild hobject

/-- An object at a position stands for a node that is printed as one piece of the root. -/
theorem Represents.exists_of_reaches (h : n.Represents json) (hreaches : json.Reaches child)
    (hobject : child.isObject) :
  ∃ m : Node, m.Represents child ∧ m.layout <:+: n.layout
  := by
  induction hreaches with
  | refl => exact ⟨n, h, List.infix_rfl⟩
  | tail _ hholds ih =>
    obtain ⟨m, hm, hmn⟩ := ih hholds.isObject
    obtain ⟨m', hm', hm'm⟩ := hm.exists_of_holds hholds hobject
    exact ⟨m', hm', hm'm.trans hmn⟩

/-! ## Descriptions -/

/-- A node with a description is of a kind that takes one. -/
theorem takesDescription_of_description? (h : n.description?.isSome) :
  n.kind.takesDescription
  := by
  cases n with
  | definition d =>
    cases d with
    | define description? d | directive d => rfl
    | _ => contradiction
  | fieldDefinition d | inputValue d | enumValue d => rfl
  | _ => contradiction

/-- A node of a kind that takes a description has the one at its key. -/
theorem Represents.hasDescription (h : n.Represents json) (htakes : n.kind.takesDescription) :
  HasDescription json n.description?
  := by
  obtain ⟨-, h⟩ := h
  cases n with
  | definition d =>
    cases d with
    | define description? d => exact h.1
    | directive d => exact h.description
    | _ => contradiction
  | fieldDefinition d | inputValue d | enumValue d => exact h.description
  | value v => cases v <;> contradiction
  | type t => cases t <;> contradiction
  | selection s => cases s <;> contradiction
  | _ => contradiction

theorem represents_of_read (h : Node.read json = .ok n) :
  n.Represents json
  := by
  have hnode := isNode_of_read h
  rw [Node.read, hnode.of_eq_ok] at h
  exact ⟨hnode, (ofTagged_eq_ok hnode).mp h⟩

theorem Represents.read_eq_ok (h : n.Represents json) :
  Node.read json = .ok n
  := by
  rw [Node.read, h.1.of_eq_ok]
  exact (ofTagged_eq_ok h.1).mpr h.2

end Node

/-- A description at its key is there in the tree, and is read as a string. -/
theorem HasDescription.exists_of_field? {json description : Json}
    {description? : Option StringValue} (h : HasDescription json description?)
    (hdescription : json.field? "description" = some description) :
  ∃ s, description? = some s ∧ StringValue.read description = .ok s
  := by
  cases description? with
  | none =>
    rw [HasDescription, HasOptional, hdescription] at h
    contradiction
  | some s =>
    obtain ⟨value, hvalue, hs⟩ := h
    rw [hdescription, Option.some.injEq] at hvalue
    rw [← hvalue] at hs
    exact ⟨s, rfl, StringValue.read_eq_ok.mpr hs⟩

theorem exists_of_printJson {json : Json} {text : String} (h : printJson json = .ok text)
    (hobject : json.isObject) :
  ∃ n, Node.read json = .ok n ∧ n.text = text
  := by
  cases json with
  | object members =>
    obtain ⟨n?, hn?, htext⟩ := map_eq_ok.mp h
    obtain ⟨n, hn, rfl⟩ := map_eq_ok.mp hn?
    exact ⟨n, hn, htext⟩
  | _ => contradiction

/-- The text of a described node is its description on a line of its own and its body. -/
theorem Node.text_of_description? {n : Node} {s : StringValue} (h : n.description? = some s) :
  n.layout.text = (Node.value (.string s)).text ++ "\n" ++ n.body.text
  := by
  rw [layout, h]
  exact Layout.text_append _ _

/-- No description is lost on the way from JSON to text.  Where a JSON value is printed, a
description at any position of it is read as a string, its node is of a kind that takes a
description, and the text has the literal of the string, on a line of its own, right before the
text of the node without its description.  A node that has a description is always of a kind
that takes one. -/
theorem printJson_description :
  (∀ json text, printJson json = .ok text →
    ∀ object description, json.Reaches object → object.field? "description" = some description →
      ∃ n s before after,
        Node.read object = .ok n ∧ object.HasKind n.kind ∧ n.kind.takesDescription ∧
        StringValue.read description = .ok s ∧
        text = before ++ ((Node.value (.string s)).text ++ "\n" ++ n.body.text) ++ after) ∧
  ∀ n : Node, n.description?.isSome → n.kind.takesDescription
  := by
  refine ⟨?_, fun n => Node.takesDescription_of_description?⟩
  intro json text htext object description hreaches hdescription
  have hobject := isObject_of_field? hdescription
  obtain ⟨root, hroot, rfl⟩ := exists_of_printJson htext (hreaches.isObject hobject)
  obtain ⟨n, hn, hwithin⟩ := (Node.represents_of_read hroot).exists_of_reaches hreaches hobject
  have htakes : n.kind.takesDescription := by
    apply hn.1.undescribed.resolve_right
    rw [hdescription]
    exact Option.some_ne_none description
  obtain ⟨s, hs, hread⟩ := (hn.hasDescription htakes).exists_of_field? hdescription
  obtain ⟨before, after, htext⟩ := Layout.text_of_infix hwithin
  refine ⟨n, s, before, after, hn.read_eq_ok, hn.1.label, htakes, hread, ?_⟩
  rw [← Node.text_of_description? hs]
  exact htext

/-- An argument with a description. -/
def limitArgument : Json :=
  .object [("description", .object [("kind", .string "StringValue"), ("value", .string "most")]),
    ("kind", .string "InputValueDefinition"), ("name", .string "to"),
    ("type", .object [("kind", .string "NamedType"), ("name", .string "Int")])]

/-- The definition of a directive that takes the argument. -/
def limitDirective : Json :=
  .object [("arguments", .array [limitArgument]), ("kind", .string "DirectiveDefinition"),
    ("locations", .array [.string "FIELD"]), ("name", .string "limit")]

/-- The document with the definition. -/
def limitDocument : Json :=
  .object [("definitions", .array [limitDirective]), ("kind", .string "Document")]

theorem printJson_limitDocument :
  printJson limitDocument = .ok "directive @limit(\"most\"\nto: Int) on FIELD"
  := by
  let argument : InputValueDefinition :=
    ⟨some ⟨"most", false⟩, "to", .named ⟨"Int"⟩, none, []⟩
  let directive : DirectiveDefinition := ⟨none, "limit", [argument], false, [.field]⟩
  have htype : (TypeRef.named ⟨"Int"⟩).Represents
      (.object [("kind", .string "NamedType"), ("name", .string "Int")]) :=
    ⟨⟨rfl, rfl, .inr rfl⟩, _, rfl, .inl rfl⟩
  have hargument : argument.Represents limitArgument :=
    ⟨⟨rfl, rfl, .inl rfl⟩, ⟨_, rfl, StringValue.read_eq_ok.mp rfl⟩, ⟨_, rfl, .inl rfl⟩,
      ⟨_, rfl, htype⟩, rfl, [], .inr ⟨rfl, rfl⟩, .nil⟩
  have hdirective : directive.Represents limitDirective :=
    ⟨⟨rfl, rfl, .inl rfl⟩, rfl, ⟨_, rfl, .inl rfl⟩, ⟨_, .inl rfl, .cons hargument .nil⟩,
      ⟨nofun, nofun⟩, _, .inl rfl, .cons (.inl rfl) .nil⟩
  have hdocument : (Node.document ⟨[.directive directive]⟩).Represents limitDocument :=
    ⟨⟨rfl, rfl, .inr rfl⟩, _, .inl rfl, .cons hdirective .nil⟩
  change (fun node? => Option.elim node? "" Node.text) <$> some <$> Node.read limitDocument = _
  rw [hdocument.read_eq_ok]
  rfl

/-- The argument stands at a position of the document, and its description right before it in the
text. -/
theorem printJson_description_limitArgument :
  printJson limitDocument = .ok "directive @limit(\"most\"\nto: Int) on FIELD" ∧
    limitDocument.Reaches limitArgument ∧
    (∃ description, limitArgument.field? "description" = some description ∧
      ∃ n s before after,
        Node.read limitArgument = .ok n ∧ limitArgument.HasKind n.kind ∧
        n.kind.takesDescription ∧ StringValue.read description = .ok s ∧
        "directive @limit(\"most\"\nto: Int) on FIELD" =
          before ++ ((Node.value (.string s)).text ++ "\n" ++ n.body.text) ++ after) ∧
    (Node.enumValue ⟨some ⟨"most", false⟩, "MANY", []⟩).kind.takesDescription
  := by
  have hdirective : limitDocument.Holds limitDirective :=
    @Holds.item _ .document "definitions" _ _ rfl (by decide) rfl List.mem_cons_self
  have hargument : limitDirective.Holds limitArgument :=
    @Holds.item _ .directiveDefinition "arguments" _ _ rfl (by decide) rfl List.mem_cons_self
  have hreaches : limitDocument.Reaches limitArgument := .tail (.single hdirective) hargument
  refine ⟨printJson_limitDocument, hreaches, ⟨_, rfl, ?_⟩, printJson_description.2 _ rfl⟩
  exact printJson_description.1 _ _ printJson_limitDocument _ _ hreaches rfl

end GraphQLText
