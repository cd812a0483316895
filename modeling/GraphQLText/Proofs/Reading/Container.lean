import GraphQLText.Proofs.Layout.Solid
import GraphQLText.Proofs.Reading.Routes

/-!
# Printing containers

A document, a selection set and a list of values hold nodes of one family each and nothing else.
What is printed for such a container is composed of what is printed for its items: their texts,
without those that are empty, between separators and brackets of the container, or the error of
the first item that is refused (`Container.printJson_json`).  An item of another family makes the
whole invalid, unless an item before it has been refused.
-/

namespace GraphQLText

open Json Layout Reading

/-- The nodes that hold a list of nodes of one family and nothing else. -/
inductive Container where
  | document
  | selectionSet
  | listValue
deriving DecidableEq, Repr

namespace Container

/-- The kind of a container. -/
def kind : Container → Kind
  | .document => .document
  | .selectionSet => .selectionSet
  | .listValue => .listValue

/-- The key of its items. -/
def key : Container → String
  | .document => "definitions"
  | .selectionSet => "selections"
  | .listValue => "values"

/-- The reader of its items. -/
def reader : Container → Reader
  | .document => .definition
  | .selectionSet => .selection
  | .listValue => .value

/-- The family of kinds of its items. -/
def family (c : Container) : List Kind := c.reader.kinds

/-- What stands between the texts of its items. -/
def separator : Container → String
  | .document => "\n\n"
  | .selectionSet | .listValue => ", "

/-- The text of a container whose items have the given texts. -/
def text (c : Container) (texts : List String) : String :=
  let present := texts.filter (· ≠ "")
  let joined := c.separator.intercalate present
  match c with
  | .document => joined
  | .selectionSet => if present = [] then "" else "\x7b " ++ joined ++ " \x7d"
  | .listValue => "[" ++ joined ++ "]"

/-- The container of the given items. -/
def json (c : Container) (items : List Json) : Json :=
  .ofMembers [("kind", .string c.kind.label), (c.key, .array items)]

/-- The container of the given trees, as a node. -/
def node : (c : Container) → List c.reader.Tree → Node
  | .document, definitions => .document ⟨definitions⟩
  | .selectionSet, selections => .selectionSet selections
  | .listValue, values => .value (.list values)

/-! ## Reading containers -/

variable (c : Container) (items : List Json)

theorem isNode_json :
  (c.json items).IsNode c.kind
  := by
  constructor
  case object => rfl
  case label => cases c <;> rfl
  case undescribed =>
    right
    cases c <;> rfl

theorem field?_json :
  (c.json items).field? c.key = some (.array items)
  := by cases c <;> rfl

theorem list_json {α : Type} (node : Tagged (c.json items)) (read : Json → Reading α) :
  node.list c.key read = readAll (fun item (_ : True) => read item) items fun _ _ => trivial
  := by rw [Tagged.list_eq_match, field?_json]

/-- A container is read by reading its items. -/
theorem read_json :
  Node.read (c.json items) =
    c.node <$> readAll (fun item (_ : True) => c.reader.read item) items fun _ _ => trivial
  := by
  have hnode := c.isNode_json items
  rw [Node.read_of_isNode hnode, ← c.list_json items ⟨c.kind, hnode⟩]
  cases c with
  | document =>
    have hread : Document.read (document.json items) =
        Document.ofTagged (⟨.document, hnode⟩ : Tagged (document.json items)) :=
      hnode.expect_bind Document.ofTagged
    change Node.document <$> Document.read _ = _
    rw [hread]
    exact (comp_map _ _ _).symm
  | selectionSet =>
    have hread : SelectionSet.read (selectionSet.json items) =
        (⟨.selectionSet, hnode⟩ : Tagged (selectionSet.json items)).list "selections"
          Selection.read := by
      rw [SelectionSet.read, ← SelectionSet.ofTagged_eq_list]
      exact hnode.expect_bind fun node => SelectionSet.ofTagged node
    change Node.selectionSet <$> SelectionSet.read _ = _
    rw [hread]
    rfl
  | listValue =>
    change Node.value <$> Value.read _ = _
    rw [Value.read_of_isNode hnode, Value.ofTagged]
    exact (comp_map _ _ _).symm

/-! ## The text of a container -/

variable {c items}

theorem text_document (ds : List Definition) :
  (Node.document ⟨ds⟩).text = text .document (ds.map fun d => (Node.definition d).text)
  := by
  have hsolid : ∀ part ∈ ds.map Definition.layout, part.Solid := by simp
  change (glue "\n\n" (ds.map Definition.layout)).text = _
  rw [text_glue "\n\n" hsolid, List.map_map]
  rfl

theorem text_selectionSet (ss : List Selection) :
  (Node.selectionSet ss).text = text .selectionSet (ss.map fun s => (Node.selection s).text)
  := by
  have hsolid : ∀ part ∈ ss.map Selection.layout, part.Solid := by simp
  have hglue := text_glue ", " hsolid
  have hnone := texts_eq_nil_iff ", " hsolid
  rw [List.map_map] at hglue hnone
  change (enclosed "\x7b " (glue ", " (ss.map Selection.layout)) " \x7d").text = _
  rw [enclosed]
  split
  case isTrue hempty => exact (if_pos (hnone.mpr hempty)).symm
  case isFalse hne =>
    rw [text_append, text_append, text_mark, text_mark, hglue]
    exact (if_neg (hnone.not.mpr hne)).symm

theorem text_listValue (vs : List Value) :
  (Node.value (.list vs)).text = text .listValue (vs.map fun v => (Node.value v).text)
  := by
  have hsolid : ∀ part ∈ vs.map Value.layout, part.Solid := by simp
  have hglue := text_glue ", " hsolid
  rw [List.map_map] at hglue
  change (Value.layout (.list vs)).text = _
  rw [Value.layout, Value.layouts_eq_map, text_append, text_append, text_mark, text_mark, hglue]
  rfl

/-- The text of a container is composed of the texts of the nodes in it. -/
theorem text_node (trees : List c.reader.Tree) :
  (c.node trees).text = c.text (trees.map fun tree => (c.reader.toNode tree).text)
  := by
  cases c with
  | document => exact text_document trees
  | selectionSet => exact text_selectionSet trees
  | listValue => exact text_listValue trees

/-! ## Printing items -/

theorem printJson_of_isObject {item : Json} (h : item.isObject) :
  printJson item = Node.text <$> Node.read item
  := by
  cases item with
  | object members => exact (comp_map _ _ _).symm
  | _ => contradiction

/-- A node of the family of a container is printed as the tree that is read as an item of the
container. -/
theorem printJson_item {item : Json} {kind : Kind} (h : item.HasKind kind)
    (hkind : kind ∈ c.family) :
  printJson item = (fun tree => (c.reader.toNode tree).text) <$> c.reader.read item
  := by
  rw [printJson_of_isObject h.isObject, ← c.reader.map_toNode_read_of_hasKind h hkind]
  exact (comp_map _ _ _).symm

/-- What a container refuses as an item is invalid there, or is refused alike by itself. -/
theorem invalid_or_printJson {item : Json} {e : ReadError} (h : c.reader.read item = .error e) :
  e.rejection = .invalidNode ∨ printJson item = .error e
  := by
  rcases item.isNode_or_refused with ⟨kind, hnode⟩ | ⟨e', hrefused⟩
  · by_cases hkind : kind ∈ c.family
    · right
      rw [printJson_item hnode.label hkind, h]
      rfl
    · left
      obtain ⟨e', he', hinvalid⟩ := c.reader.invalid_of_hasKind hnode.label hkind
      rw [h] at he'
      cases he'
      exact hinvalid
  · obtain rfl : e = e' := Except.error.inj (h.symm.trans (c.reader.read_of_refused hrefused))
    by_cases hobject : item.isObject
    · right
      rw [printJson_of_isObject hobject, Node.read_of_refused hrefused]
      rfl
    · left
      cases hrefused with
      | notAnObject => rfl
      | untagged hobject' | unknownKind hobject' | strayDescription hobject' =>
        exact absurd hobject' hobject

/-! ## Printing containers -/

theorem printJson_json_eq (items : List Json) :
  printJson (c.json items) =
    (fun trees => c.text (trees.map fun tree => (c.reader.toNode tree).text)) <$>
      readAll (fun item (_ : True) => c.reader.read item) items fun _ _ => trivial
  := by
  rw [printJson_of_isObject (c.isNode_json items).object, read_json]
  simp only [Functor.map_map, text_node]

/-- A container of nodes of its family is printed, or is refused with the error of the first of
them that is refused. -/
theorem printJson_of_family (h : ∀ item ∈ items, ∃ kind ∈ c.family, item.HasKind kind) :
  (∃ texts, List.Forall₂ (fun item text => printJson item = .ok text) items texts ∧
    printJson (c.json items) = .ok (c.text texts)) ∨
  ∃ before item after e, items = before ++ item :: after ∧
    (∀ earlier ∈ before, ∃ text, printJson earlier = .ok text) ∧
    printJson item = .error e ∧ printJson (c.json items) = .error e
  := by
  have hprint : ∀ item ∈ items,
      printJson item = (fun tree => (c.reader.toNode tree).text) <$> c.reader.read item := by
    intro item hitem
    obtain ⟨kind, hkind, hitem⟩ := h item hitem
    exact printJson_item hitem hkind
  rw [printJson_json_eq]
  cases hread : readAll (fun item (_ : True) => c.reader.read item) items fun _ _ => trivial with
  | ok trees =>
    left
    use trees.map fun tree => (c.reader.toNode tree).text
    constructor
    · rw [List.forall₂_map_right_iff]
      apply ((List.forall₂_and_left items trees).mpr ⟨hprint, (readAll_eq_ok _).mp hread⟩).imp
      rintro item tree ⟨hitem, htree⟩
      rw [hitem, htree]
      rfl
    · rfl
  | error e =>
    right
    obtain ⟨before, item, after, rfl, hbefore, hitem⟩ := (readAll_eq_error _).mp hread
    refine ⟨before, item, after, e, rfl, ?_, ?_, rfl⟩
    · intro earlier hearlier
      obtain ⟨tree, htree⟩ := hbefore earlier hearlier
      use (c.reader.toNode tree).text
      rw [hprint earlier (List.mem_append_left _ hearlier), htree]
      rfl
    · rw [hprint item (List.mem_append_right _ List.mem_cons_self), hitem]
      rfl

/-- A container with a node of another family is refused, at that node or before it. -/
theorem printJson_of_stranger {before after : List Json} {item : Json} {kind : Kind}
    (h : item.HasKind kind) (hkind : kind ∉ c.family) :
  ∃ e, printJson (c.json (before ++ item :: after)) = .error e ∧
    (e.rejection = .invalidNode ∨ ∃ earlier ∈ before, printJson earlier = .error e)
  := by
  obtain ⟨e, hitem, hinvalid⟩ := c.reader.invalid_of_hasKind h hkind
  obtain ⟨e', hread, he'⟩ := readAll_of_error hitem before after fun _ _ => trivial
  use e'
  rw [printJson_json_eq, hread]
  use rfl
  rcases he' with rfl | ⟨earlier, hearlier, hrefused⟩
  · left
    exact hinvalid
  · apply (invalid_or_printJson hrefused).imp_right
    intro hprint
    exact ⟨earlier, hearlier, hprint⟩

/-- What is printed for a container is composed of what is printed for its items.  Where each
item has a tag of the family of the container, either all of them are printed, and the text of
the container is composed of their texts, or the container is refused with the error of the first
of them that is refused.  Where an item has a known tag that is not of the family, the container
is refused: as invalid, or with the error of an item before it that is refused. -/
theorem printJson_json (c : Container) (items : List Json) :
  ((∀ item ∈ items, ∃ kind ∈ c.family, item.HasKind kind) →
    (∃ texts, List.Forall₂ (fun item text => printJson item = .ok text) items texts ∧
      printJson (c.json items) = .ok (c.text texts)) ∨
    ∃ before item after e, items = before ++ item :: after ∧
      (∀ earlier ∈ before, ∃ text, printJson earlier = .ok text) ∧
      printJson item = .error e ∧ printJson (c.json items) = .error e) ∧
  ∀ before item after kind, items = before ++ item :: after → item.HasKind kind →
    kind ∉ c.family →
      ∃ e, printJson (c.json items) = .error e ∧
        (e.rejection = .invalidNode ∨ ∃ earlier ∈ before, printJson earlier = .error e)
  := by
  constructor
  · exact printJson_of_family
  · rintro before item after kind rfl
    exact printJson_of_stranger

/-- Two scalar types, each on its own and both in a document. -/
theorem printJson_scalarDocument :
  let date : Json := .ofMembers [("kind", .string "ScalarTypeDefinition"), ("name", .string "Date")]
  let url : Json := .ofMembers [("kind", .string "ScalarTypeDefinition"), ("name", .string "Url")]
  (∀ item ∈ [date, url], ∃ kind ∈ document.family, item.HasKind kind) ∧
    printJson date = .ok "scalar Date" ∧ printJson url = .ok "scalar Url" ∧
    printJson (document.json [date, url]) = .ok "scalar Date\n\nscalar Url"
  := by
  intro date url
  have hfamily : ∀ item ∈ [date, url], ∃ kind ∈ document.family, item.HasKind kind := by
    intro item hitem
    use .definition .scalar
    constructor
    · decide
    · rcases List.mem_pair.mp hitem with rfl | rfl
      · rfl
      · rfl
  have hdate : printJson date = .ok "scalar Date" := rfl
  have hurl : printJson url = .ok "scalar Url" := rfl
  refine ⟨hfamily, hdate, hurl, ?_⟩
  rcases (printJson_json document [date, url]).1 hfamily with
    ⟨texts, hitems, hprint⟩ | ⟨before, item, after, e, hitems, -, hitem, -⟩
  · cases hitems with
    | cons h₁ hrest =>
      cases hrest with
      | cons h₂ hnil =>
        cases hnil
        cases hdate.symm.trans h₁
        cases hurl.symm.trans h₂
        exact hprint
  · have hmem : item ∈ [date, url] := by
      rw [hitems]
      simp
    rcases List.mem_pair.mp hmem with rfl | rfl
    · cases hdate.symm.trans hitem
    · cases hurl.symm.trans hitem

end Container

end GraphQLText
