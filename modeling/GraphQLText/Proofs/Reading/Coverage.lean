import GraphQLText.Proofs.Reading.Position

/-!
# Every node has a position

The positions in the JSON form of a tree are all there are: what represents a node holds each
node in the contents of that node (`Node.Represents.covers`), so that every node of a tree
stands at a position (`Node.Represents.reaches_of_contains`).  The exceptions have no object of
their own: a name may be a string, and the empty selection set may be missing.  In particular
each description of a tree is read from a position of its JSON form.
-/

namespace GraphQLText

open Json Reading

/-- A node has its place in a value: what represents it, or a string that is its name.  The empty
selection set needs none. -/
def Json.Accounts (json : Json) (m : Node) : Prop :=
  (∃ child, json.Holds child ∧ m.Represents child) ∨
    (∃ name, m = .name name ∧ json.Holds (.string name)) ∨ m = .selectionSet []

/-- All nodes among some contents have their places in a value. -/
def Json.Covers (json : Json) (cs : List Content) : Prop :=
  ∀ m, .node m ∈ cs → json.Accounts m

/-! ## Contents by their keys -/

namespace Node

section Covers

variable {json : Json} {kind : Kind} {key : String} {cs ds : List Content}

theorem covers_nil :
  json.Covers []
  := by
  intro m hm
  contradiction

theorem covers_keyword (text : String) :
  json.Covers (Content.keyword text)
  := fun _ hm => absurd hm Content.not_mem_keyword

theorem covers_raw (text : String) :
  json.Covers (Content.raw text)
  := fun _ hm => absurd hm Content.not_mem_raw

theorem covers_append (h : json.Covers cs) (h' : json.Covers ds) :
  json.Covers (cs ++ ds)
  := by
  intro m hm
  exact (List.mem_append.mp hm).elim (h m) (h' m)

variable (hkind : json.HasKind kind)

include hkind

theorem covers_node (hkey : key ∈ kind.nodeKeys) {m : Node}
    (h : json.Has key (Node.Represents · m)) :
  json.Covers [.node m]
  := by
  intro m' hm'
  obtain ⟨child, hchild, h⟩ := h
  cases List.mem_singleton.mp hm'
  left
  exact ⟨child, .node hkind hkey hchild, h⟩

theorem covers_name (hkey : key ∈ kind.nodeKeys) {name : String} (h : json.HasName key name) :
  json.Covers (Content.named name)
  := by
  intro m hm
  obtain rfl := Content.mem_named.mp hm
  obtain ⟨child, hchild, rfl | h⟩ := h
  · right; left
    exact ⟨name, rfl, .node hkind hkey hchild⟩
  · left
    exact ⟨child, .node hkind hkey hchild, h⟩

theorem covers_name? (hkey : key ∈ kind.nodeKeys) {name? : Option String}
    (h : json.HasOptional key IsName name?) :
  json.Covers (Content.each .name name?.toList)
  := by
  cases name? with
  | none => exact covers_nil
  | some name => exact covers_name hkind hkey h

theorem covers_option (hkey : key ∈ kind.nodeKeys) {α : Type} (toNode : α → Node) {x? : Option α}
    (h : json.HasOptional key (fun child x => (toNode x).Represents child) x?) :
  json.Covers (Content.each toNode x?.toList)
  := by
  cases x? with
  | none => exact covers_nil
  | some x => exact covers_node hkind hkey h

theorem covers_list (hkey : key ∈ kind.listKeys) {α : Type} (toNode : α → Node) {xs : List α}
    (h : json.HasList key (fun child x => (toNode x).Represents child) xs) :
  json.Covers (Content.each toNode xs)
  := by
  intro m hm
  obtain ⟨x, hx, rfl⟩ := Content.mem_each.mp hm
  obtain ⟨items, hitems | ⟨-, rfl⟩, hall⟩ := h
  · obtain ⟨child, hchild, h⟩ := exists_of_forall₂ hall.flip hx
    left
    exact ⟨child, .item hkind hkey hitems hchild, h⟩
  · cases hall
    contradiction

theorem covers_selections (hkey : "selectionSet" ∈ kind.nodeKeys) {ss : SelectionSet}
    (h : Selections json ss) :
  json.Covers [.node (.selectionSet ss)]
  := by
  obtain ⟨items, ⟨set, hset, hnode, hitems⟩ | ⟨-, rfl⟩, hall⟩ := h
  · apply covers_node hkind hkey
    exact ⟨set, hset, hnode, items, hitems, hall⟩
  · cases hall
    intro m hm
    cases List.mem_singleton.mp hm
    right; right
    rfl

theorem covers_declaration {d : Declaration} (h : d.Fields json)
    (hnodes : d.form.nodeKeys.Forall (· ∈ kind.nodeKeys))
    (hlists : d.form.listKeys.Forall (· ∈ kind.listKeys)) :
  json.Covers d.contents
  := by
  cases d with
  | schema ds operationTypes =>
    obtain ⟨hds, hoperationTypes⟩ := h
    obtain ⟨hdsKey, htypesKey⟩ := hlists
    apply covers_append
    · apply covers_append (covers_keyword "schema")
      exact covers_list hkind hdsKey .directive hds
    · exact covers_list hkind htypesKey .operationType hoperationTypes
  | scalar name ds =>
    obtain ⟨hname, hds⟩ := h
    apply covers_append
    · exact covers_name hkind hnodes hname
    · exact covers_list hkind hlists .directive hds
  | object name interfaces ds fields | interface name interfaces ds fields =>
    obtain ⟨hname, hinterfaces, hds, hfields⟩ := h
    obtain ⟨hinterfacesKey, hdsKey, hfieldsKey⟩ := hlists
    apply covers_append
    · apply covers_append
      · apply covers_append
        · exact covers_name hkind hnodes hname
        · exact covers_list hkind hinterfacesKey (fun t => .type (.named t)) hinterfaces
      · exact covers_list hkind hdsKey .directive hds
    · exact covers_list hkind hfieldsKey .fieldDefinition hfields
  | union name ds members =>
    obtain ⟨hname, hds, hmembers⟩ := h
    obtain ⟨hdsKey, hmembersKey⟩ := hlists
    apply covers_append
    · apply covers_append
      · exact covers_name hkind hnodes hname
      · exact covers_list hkind hdsKey .directive hds
    · exact covers_list hkind hmembersKey (fun t => .type (.named t)) hmembers
  | enum name ds values =>
    obtain ⟨hname, hds, hvalues⟩ := h
    obtain ⟨hdsKey, hvaluesKey⟩ := hlists
    apply covers_append
    · apply covers_append
      · exact covers_name hkind hnodes hname
      · exact covers_list hkind hdsKey .directive hds
    · exact covers_list hkind hvaluesKey .enumValue hvalues
  | inputObject name ds fields =>
    obtain ⟨hname, hds, hfields⟩ := h
    obtain ⟨hdsKey, hfieldsKey⟩ := hlists
    apply covers_append
    · apply covers_append
      · exact covers_name hkind hnodes hname
      · exact covers_list hkind hdsKey .directive hds
    · exact covers_list hkind hfieldsKey .inputValue hfields

theorem covers_description (hkey : "description" ∈ kind.nodeKeys)
    {description? : Option StringValue} (h : HasDescription json description?) :
  json.Covers (Content.described description?)
  := covers_option hkind hkey (fun s => .value (.string s)) h

theorem covers_applied (hkey : "directives" ∈ kind.listKeys) {ds : List Directive}
    (h : HasDirectives json ds) :
  json.Covers (Content.applied ds)
  := covers_list hkind hkey .directive h

end Covers

variable {json : Json} {n m : Node}

theorem covers_locations (locations : List DirectiveLocation) :
  json.Covers (locations.flatMap fun l => Content.keyword l.text)
  := by
  intro m hm
  obtain ⟨l, -, hm⟩ := List.mem_flatMap.mp hm
  exact absurd hm Content.not_mem_keyword

/-! ## Nodes by their contents -/

theorem covers_value {v : Value} (h : v.Represents json) :
  json.Covers v.contents
  := by
  obtain ⟨hnode, h⟩ := h
  cases v with
  | var v =>
    have hkind : json.HasKind .var := hnode.label
    exact covers_name hkind (by decide) h
  | string s => simp [Covers, Value.contents]
  | float text | int text | enum text => exact covers_raw text
  | boolean value => cases value <;> exact covers_keyword _
  | list vs =>
    have hkind : json.HasKind .listValue := hnode.label
    exact covers_list hkind (by decide) .value (hasList_of_values h)
  | object fs =>
    have hkind : json.HasKind .objectValue := hnode.label
    exact covers_list hkind (by decide) .objectField (hasList_of_fields h)
  | null => exact covers_keyword "null"

theorem covers_type {t : TypeRef} (h : t.Represents json) :
  json.Covers t.contents
  := by
  obtain ⟨hnode, h⟩ := h
  cases t with
  | named t =>
    have hkind : json.HasKind .namedType := hnode.label
    exact covers_name hkind (by decide) h
  | list t =>
    have hkind : json.HasKind .listType := hnode.label
    exact covers_node (m := .type t) hkind (by decide) h
  | nonNull t =>
    have hkind : json.HasKind .nonNullType := hnode.label
    exact covers_node (m := .type t) hkind (by decide) h

theorem covers_selection {s : Selection} (h : s.Represents json) :
  json.Covers s.contents
  := by
  obtain ⟨hnode, h⟩ := h
  cases s with
  | field f =>
    have hkind : json.HasKind .field := hnode.label
    obtain ⟨alias?, name, args, ds, ss⟩ := f
    obtain ⟨halias, hname, hargs, hds, hselections⟩ := h
    apply covers_append
    · apply covers_append
      · apply covers_append
        · apply covers_append
          · exact covers_name? hkind (by decide) halias
          · exact covers_name hkind (by decide) hname
        · exact covers_list hkind (by decide) .argument hargs
      · exact covers_applied hkind (by decide) hds
    · apply covers_selections hkind (by decide)
      exact selections_of_representsAll hselections
  | fragmentSpread s =>
    have hkind : json.HasKind .fragmentSpread := hnode.label
    apply covers_append
    · exact covers_name hkind (by decide) h.name
    · exact covers_applied hkind (by decide) h.directives
  | inlineFragment f =>
    have hkind : json.HasKind .inlineFragment := hnode.label
    obtain ⟨typeCondition?, ds, ss⟩ := f
    obtain ⟨htypeCondition, hds, hselections⟩ := h
    apply covers_append
    · apply covers_append
      · exact covers_option hkind (by decide) (fun t => .type (.named t)) htypeCondition
      · exact covers_applied hkind (by decide) hds
    · apply covers_selections hkind (by decide)
      exact selections_of_representsAll hselections

theorem covers_definition {d : Definition} (h : d.Represents json) :
  json.Covers d.contents
  := by
  obtain ⟨hnode, h⟩ := h
  cases d with
  | operation d =>
    have hkind : json.HasKind .operationDefinition := hnode.label
    apply covers_append
    · apply covers_append
      · apply covers_append
        · apply covers_append (covers_keyword d.operation.text)
          exact covers_name? hkind (by decide) h.name
        · exact covers_list hkind (by decide) .variableDefinition h.variableDefinitions
      · exact covers_applied hkind (by decide) h.directives
    · exact covers_selections hkind (by decide) h.selections
  | fragment d =>
    have hkind : json.HasKind .fragmentDefinition := hnode.label
    apply covers_append
    · apply covers_append
      · apply covers_append
        · exact covers_name hkind (by decide) h.name
        · exact covers_node (m := .type (.named d.typeCondition)) hkind (by decide)
            h.typeCondition
      · exact covers_applied hkind (by decide) h.directives
    · exact covers_selections hkind (by decide) h.selections
  | define description? d =>
    have hkind : json.HasKind (.definition d.form) := hnode.label
    apply covers_append
    · exact covers_description hkind List.mem_cons_self h.1
    · apply covers_declaration hkind h.2
      · exact List.forall_iff_forall_mem.mpr fun key => List.mem_cons_of_mem "description"
      · exact List.forall_iff_forall_mem.mpr fun key hkey => hkey
  | directive d =>
    have hkind : json.HasKind .directiveDefinition := hnode.label
    apply covers_append
    · apply covers_append
      · apply covers_append
        · apply covers_append
          · exact covers_description hkind (by decide) h.description
          · exact covers_name hkind (by decide) h.name
        · exact covers_list hkind (by decide) .inputValue h.arguments
      · split
        · exact covers_keyword "repeatable"
        · exact covers_nil
    · exact covers_locations d.locations
  | extend d =>
    have hkind : json.HasKind (.extension d.form) := hnode.label
    apply covers_declaration hkind h
    · exact List.forall_iff_forall_mem.mpr fun key hkey => hkey
    · exact List.forall_iff_forall_mem.mpr fun key hkey => hkey

/-- What represents a node holds all nodes in the contents of the node. -/
theorem Represents.covers (h : n.Represents json) :
  json.Covers n.contents
  := by
  obtain ⟨hnode, h⟩ := h
  cases n with
  | name text => exact covers_raw text
  | document d =>
    have hkind : json.HasKind .document := hnode.label
    exact covers_list hkind (by decide) .definition h
  | definition d => exact covers_definition ⟨hnode, h⟩
  | variableDefinition d =>
    have hkind : json.HasKind .variableDefinition := hnode.label
    apply covers_append
    · apply covers_append
      · have hvar := covers_node (m := .value (.var d.var)) hkind (by decide) h.var
        have htype := covers_node (m := .type d.type) hkind (by decide) h.type
        exact covers_append hvar htype
      · exact covers_option hkind (by decide) .value h.default
    · exact covers_applied hkind (by decide) h.directives
  | selectionSet ss =>
    have hkind : json.HasKind .selectionSet := hnode.label
    exact covers_list hkind (by decide) .selection h
  | selection s => exact covers_selection ⟨hnode, h⟩
  | argument a =>
    have hkind : json.HasKind .argument := hnode.label
    apply covers_append
    · exact covers_name hkind (by decide) h.name
    · exact covers_node (m := .value a.value) hkind (by decide) h.value
  | value v => exact covers_value ⟨hnode, h⟩
  | objectField f =>
    have hkind : json.HasKind .objectField := hnode.label
    obtain ⟨name, value⟩ := f
    obtain ⟨hname, hvalue⟩ := h
    apply covers_append
    · exact covers_name hkind (by decide) hname
    · exact covers_node (m := .value value) hkind (by decide) hvalue
  | directive d =>
    have hkind : json.HasKind .directive := hnode.label
    apply covers_append
    · exact covers_name hkind (by decide) h.name
    · exact covers_list hkind (by decide) .argument h.arguments
  | type t => exact covers_type ⟨hnode, h⟩
  | operationType d =>
    have hkind : json.HasKind .operationTypeDefinition := hnode.label
    apply covers_append (covers_keyword d.operation.text)
    exact covers_node (m := .type (.named d.type)) hkind (by decide) h.type
  | fieldDefinition d =>
    have hkind : json.HasKind .fieldDefinition := hnode.label
    apply covers_append
    · apply covers_append
      · apply covers_append
        · apply covers_append
          · exact covers_description hkind (by decide) h.description
          · exact covers_name hkind (by decide) h.name
        · exact covers_list hkind (by decide) .inputValue h.arguments
      · exact covers_node (m := .type d.type) hkind (by decide) h.type
    · exact covers_applied hkind (by decide) h.directives
  | inputValue d =>
    have hkind : json.HasKind .inputValueDefinition := hnode.label
    apply covers_append
    · apply covers_append
      · apply covers_append
        · apply covers_append
          · exact covers_description hkind (by decide) h.description
          · exact covers_name hkind (by decide) h.name
        · exact covers_node (m := .type d.type) hkind (by decide) h.type
      · exact covers_option hkind (by decide) .value h.default
    · exact covers_applied hkind (by decide) h.directives
  | enumValue d =>
    have hkind : json.HasKind .enumValueDefinition := hnode.label
    apply covers_append
    · apply covers_append
      · exact covers_description hkind (by decide) h.description
      · exact covers_name hkind (by decide) h.name
    · exact covers_applied hkind (by decide) h.directives

/-! ## Trees -/

/-- Every node of a tree stands at a position of what represents the tree. -/
theorem Represents.reaches_of_contains (h : n.Represents json) (hm : n.Contains m) :
  (∃ child, json.Reaches child ∧ m.Represents child) ∨
    (∃ name, m = .name name ∧ json.Reaches (.string name)) ∨ m = .selectionSet []
  := by
  induction hm with
  | refl =>
    left
    exact ⟨json, .refl, h⟩
  | @tail k m _ hm ih =>
    rcases ih with ⟨middle, hreaches, hk⟩ | ⟨name, rfl, -⟩ | rfl
    · rcases hk.covers m hm with ⟨child, hchild, hm⟩ | ⟨name, hname, hchild⟩ | hempty
      · left
        exact ⟨child, hreaches.tail hchild, hm⟩
      · right; left
        exact ⟨name, hname, hreaches.tail hchild⟩
      · right; right
        exact hempty
    -- There are no nodes inside a name or an empty selection set.
    · simp [contents] at hm
    · simp [contents] at hm

/-- Every description of a tree is read from a position of what represents the tree. -/
theorem Represents.exists_description (h : n.Represents json) (hm : n.Contains m)
    {s : StringValue} (hs : m.description? = some s) :
  ∃ object description, json.Reaches object ∧ m.Represents object ∧
    object.field? "description" = some description ∧ StringValue.read description = .ok s
  := by
  rcases h.reaches_of_contains hm with ⟨object, hreaches, hobject⟩ | ⟨name, rfl, -⟩ | rfl
  · have htakes : m.kind.takesDescription := by
      apply takesDescription_of_description?
      rw [hs]
      rfl
    have hdescription := hobject.hasDescription htakes
    rw [hs] at hdescription
    obtain ⟨description, hfield, hread⟩ := hdescription
    exact ⟨object, description, hreaches, hobject, hfield, StringValue.read_eq_ok.mpr hread⟩
  · contradiction
  · contradiction

end Node

end GraphQLText
