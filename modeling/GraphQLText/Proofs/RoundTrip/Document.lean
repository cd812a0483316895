import GraphQLText.Proofs.RoundTrip.TypeSystem

/-!
# Reading back documents

The text of a well-formed document reads back as the document: an executable one by the
grammar of executable documents, and the description of a type system by its own.  Only block
strings that no block literal denotes come back as quoted strings, and the document that is
read back has the same text again.
-/

namespace GraphQLText

open Grammar Layout

/-- A definition has tokens. -/
theorem Definition.WellFormed.begins {d : Definition} (h : d.WellFormed) :
  Begins (fun _ => True) d.layout.tokens
  := by
  cases d with
  | operation d =>
    have htokens : (Definition.operation d).layout.tokens = _ :=
      OperationDefinition.WellFormed.tokens_layout h
    simp [htokens]
  | fragment d =>
    have htokens : (Definition.fragment d).layout.tokens = _ :=
      FragmentDefinition.WellFormed.tokens_layout h
    simp [htokens]
  | define description? d =>
    obtain ⟨t, us, htokens, -⟩ := exists_described h.1.tokens_layout description?
    exact ⟨t, by simp [layout, body, Definition.description?, htokens], trivial⟩
  | directive d =>
    have hbody := DirectiveDefinition.WellFormed.tokens_body h
    obtain ⟨t, us, htokens, -⟩ := exists_described hbody d.description?
    exact ⟨t, by simp [layout, body, Definition.description?, htokens], trivial⟩
  | extend d => simp [tokens_extend]

namespace Document

theorem WellFormed.lexable {d : Document} (h : d.WellFormed) :
  d.layout.Lexable
  := by
  apply lexable_glue (by decide)
  exact List.forall_mem_map.mpr fun x hx => (h.definitions x hx).lexable

theorem tokens_layout (d : Document) :
  d.layout.tokens = d.definitions.flatMap fun x => x.layout.tokens
  := by
  rw [layout, tokens_glue (by rfl), List.flatMap_map]

/-- A document is read back by a rule that reads its definitions one after the other. -/
theorem document?_text {definition : Rule Definition} {follow : List Token → Prop} {d : Document}
    (h : d.WellFormed)
    (hreads : ReadsEach definition follow (fun x => x.layout.tokens) Definition.settled
      d.definitions)
    (hnil : follow []) :
  document? definition (Node.document d).text = some d.settled
  := by
  obtain ⟨definitions⟩ := d
  have htokens : Grammar.tokens (Node.document ⟨definitions⟩).text.toList
      = some (definitions.flatMap fun x => x.layout.tokens) := by
    rw [← tokens_layout ⟨definitions⟩]
    exact tokens_text h.lexable
  cases definitions with
  | nil => exact absurd rfl h.defines
  | cons first others =>
    have hfirst := hreads.reads first List.mem_cons_self _ (hreads.tail.follow_flatMap hnil)
    have hbegin : ∀ x ∈ others, Begins (fun _ => True) x.layout.tokens :=
      fun x hx => (h.definitions x (List.mem_cons_of_mem first hx)).begins
    have hothers := reads_whileNext hreads.tail hbegin hnil not_begins_nil
    simp only [List.flatMap_cons] at htokens
    simp only [Reads, List.append_nil] at hfirst hothers
    simp [document?, htokens, hfirst, hothers, settled]

/-- The text of an executable document reads back as the document, with its strings settled,
and the document that is read has the same text. -/
theorem read_executable_text {d : Document} (h : d.WellFormed)
    (hd : ∀ x ∈ d.definitions, x.IsExecutable) :
  executableDocument? (Node.document d).text = some d.settled ∧
    (Node.document d.settled).text = (Node.document d).text
  := by
  constructor
  · apply @document?_text _ (fun _ => True) d h
    · constructor
      · intro x hx rest _
        exact Definition.reads_executable (h.definitions x hx) (hd x hx) rest
      · simp
    · trivial
  · exact d.settled_text

/-- A query with a variable, a note, an inline fragment and a spread of a fragment after it. -/
def nodesQuery : Document :=
  ⟨[.operation
      ⟨.query, some "Q", [⟨⟨"first"⟩, .nonNull (.named ⟨"Int"⟩), some (.int "10"), []⟩],
        [⟨"note", [⟨"text", .string (.ofBlock " ")⟩]⟩],
        [.field ⟨some "all", "nodes", [⟨"first", .var ⟨"first"⟩⟩], [],
          [.inlineFragment ⟨some ⟨"User"⟩, [], [.field (.leaf "name")]⟩,
            .fragmentSpread ⟨"F", []⟩]⟩]⟩,
    .fragment ⟨"F", ⟨"Node"⟩, [], [.field (.leaf "id")]⟩]⟩

theorem nodesQuery_wellFormed :
  nodesQuery.WellFormed
  := by
  have hleaf : ∀ name, IsName name → (Field.leaf name).WellFormed :=
    fun name hname => ⟨by simp, hname, by simp, by simp, trivial⟩
  have hten : IsIntValue "10" :=
    ⟨[], ['1', '0'], rfl, .inl rfl, ⟨by simp, by simp⟩, by simp⟩
  have hInt : IsName "Int" := by decide
  have hUser : IsName "User" := by decide
  have hnodes : (Field.mk (some "all") "nodes" [⟨"first", .var ⟨"first"⟩⟩] []
      [.inlineFragment ⟨some ⟨"User"⟩, [], [.field (.leaf "name")]⟩,
        .fragmentSpread ⟨"F", []⟩]).WellFormed := by
    refine ⟨?_, by decide, ?_, by simp, ?_⟩
    · simpa using (by decide : IsName "all")
    · simpa using ⟨by decide, rfl, by decide⟩
    · refine ⟨⟨by simpa using hUser, by simp, by simp, hleaf "name" (by decide), trivial⟩, ?_⟩
      exact ⟨⟨⟨by decide, by decide⟩, by simp⟩, trivial⟩
  refine ⟨by simp [nodesQuery], ?_⟩
  simp only [nodesQuery, List.forall_mem_cons, List.not_mem_nil, false_implies, implies_true,
    and_true]
  constructor
  · constructor
    · simpa using (by decide : IsName "Q")
    · simpa using ⟨by decide, ⟨by simp, hInt⟩, by simpa [Value.WellFormed] using hten, by simp⟩
    · simpa using ⟨by decide, by simpa using ⟨by decide, trivial⟩⟩
    · simp
    · simpa [Selection.WellFormed] using hnodes
  · refine ⟨⟨by decide, by decide⟩, by decide, by simp, by simp, ?_⟩
    simpa [Selection.WellFormed] using hleaf "id" (by decide)

/-- The note of the query cannot be written as a block and comes back quoted. -/
theorem read_nodesQuery_text :
  executableDocument? (Node.document nodesQuery).text = some nodesQuery.settled ∧
    nodesQuery.settled ≠ nodesQuery
  := by
  constructor
  · apply (read_executable_text nodesQuery_wellFormed _).1
    simp [nodesQuery, Definition.IsExecutable]
  · decide +kernel

/-- The text of a type system document reads back as the document, with its strings settled,
and the document that is read has the same text. -/
theorem read_typeSystem_text {d : Document} (h : d.WellFormed)
    (hd : ∀ x ∈ d.definitions, x.IsTypeSystem) :
  typeSystemDocument? (Node.document d).text = some d.settled ∧
    (Node.document d.settled).text = (Node.document d).text
  := by
  constructor
  · apply document?_text h
    · constructor
      · intro x hx rest hrest
        exact Definition.reads_typeSystem (h.definitions x hx) (hd x hx) hrest
      · intro x hx rest
        exact (h.definitions x hx).endsDeclaration (hd x hx) rest
    · exact ⟨by simp, by simp⟩
  · exact d.settled_text

/-- A described type after a scalar without a body, with a string before a description, the
definition of a directive and an extension. -/
def userSchema : Document :=
  ⟨[.define none (.scalar "Date" []),
    .define (some (.ofBlock "A user.")) (.object "User" [⟨"Node"⟩] []
      [⟨none, "name",
        [⟨none, "title", .named ⟨"String"⟩, some (.string (.quoted "Dr")), []⟩,
          ⟨some (.quoted "Letters."), "most", .named ⟨"Int"⟩, some .null, []⟩],
        .nonNull (.named ⟨"String"⟩), []⟩]),
    .directive ⟨none, "key", [], true, [.object, .interface]⟩,
    .extend (.scalar "Date" [⟨"key", []⟩])]⟩

theorem userSchema_wellFormed :
  userSchema.WellFormed
  := by
  have hString : IsName "String" := by decide
  have hInt : IsName "Int" := by decide
  have htitle : InputValueDefinition.WellFormed
      ⟨none, "title", .named ⟨"String"⟩, some (.string (.quoted "Dr")), []⟩ :=
    ⟨by decide, hString, by simp [Value.WellFormed], by simp⟩
  have hmost : InputValueDefinition.WellFormed
      ⟨some (.quoted "Letters."), "most", .named ⟨"Int"⟩, some .null, []⟩ :=
    ⟨by decide, hInt, by simp [Value.WellFormed], by simp⟩
  refine ⟨by simp [userSchema], ?_⟩
  simp only [userSchema, List.forall_mem_cons, List.not_mem_nil, false_implies, implies_true,
    and_true]
  refine ⟨?_, ?_, ?_, ?_⟩
  · exact ⟨⟨by decide, by simp⟩, trivial⟩
  · refine ⟨⟨by decide, by simpa using (by decide : IsName "Node"), by simp, ?_⟩, trivial⟩
    simpa using ⟨by decide, by simpa using ⟨htitle, hmost⟩, ⟨by simp, hString⟩, by simp⟩
  · exact ⟨by decide, by simp, by simp⟩
  · exact ⟨⟨by decide, by simpa using ⟨by decide, by simp⟩⟩, by simp [Declaration.Extends]⟩

/-- Each description of the schema is read with its own part, and nothing is lost. -/
theorem read_userSchema_text :
  typeSystemDocument? (Node.document userSchema).text = some userSchema
  := by
  have hread := (read_typeSystem_text userSchema_wellFormed
    (by simp [userSchema, Definition.IsTypeSystem])).1
  have hsettled : userSchema.settled = userSchema := by decide +kernel
  rwa [hsettled] at hread

end Document

end GraphQLText
