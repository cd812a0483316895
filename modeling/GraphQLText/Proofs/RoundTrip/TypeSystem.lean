import GraphQLText.Proofs.Grammar.TypeSystem
import GraphQLText.Proofs.RoundTrip.Executable

/-!
# Reading back the type system

The parts of type system documents.  A description is read with the part that it comes
before, also where the text before it ends with a string.
-/

namespace GraphQLText

open Grammar Layout

/-! ## Descriptions -/

namespace Layout

theorem tokens_described (description? : Option StringValue) (body : Layout) :
  (described description? body).tokens
    = description?.elim [] (fun s => [.string s.settled]) ++ body.tokens
  := by
  cases description? with
  | none => rfl
  | some s => simp [described, markTokens]

/-- A part that begins with a name is read with the description before it. -/
theorem reads_described {α : Type} {r : Option StringValue → Rule α} {body : Layout}
    {description? : Option StringValue} {a : α} {rest : List Token}
    (hname : ¬Begins Rule.IsStringToken (body.tokens ++ rest))
    (hbody : Reads (r (description?.map StringValue.settled)) body.tokens a rest) :
  Reads (Rule.description >>= r) (described description? body).tokens a rest
  := by
  rw [tokens_described]
  apply Reads.bind _ hbody
  cases description? with
  | none => exact reads_optional_none hname
  | some s =>
    apply reads_optional
    · simp [Rule.IsStringToken]
    · exact reads_string s.settled

theorem readAs_described {α : Type} {r : Option StringValue → Rule α} {body : Layout}
    {description? : Option StringValue} {a : α} (hlexable : body.Lexable)
    (hname : ∃ name ts, body.tokens = .name name :: ts)
    (hbody : ∀ rest, Avoids continuing rest →
      Reads (r (description?.map StringValue.settled)) body.tokens a rest) :
  (described description? body).ReadAs (Rule.description >>= r) a
  := by
  obtain ⟨name, ts, htokens⟩ := hname
  constructor
  · exact lexable_described description? hlexable
  · cases description? <;> simp [tokens_described, htokens, Token.Opens]
  · intro rest hrest
    apply reads_described
    · simp [htokens, Rule.IsStringToken]
    · exact hbody rest hrest

/-! ## Separated lists -/

/-- The parts of a list with a punctuator between each two. -/
theorem tokens_glue_separator {ι : Type} {layout : ι → Layout} {xs : List ι}
    {separator : String} {p : Punctuator} (hseparator : markTokens separator = [.punctuator p])
    (h : ∀ x ∈ xs, (layout x).tokens ≠ []) :
  (glue separator (xs.map layout)).tokens = spaced p (xs.map fun x => (layout x).tokens)
  := by
  induction xs with
  | nil => rfl
  | cons x xs ih =>
    have hx := h x List.mem_cons_self
    have hxs := ih fun y hy => h y (List.mem_cons_of_mem x hy)
    rw [List.map_cons, glue, if_neg (ne_nil_of_tokens hx), tokens_append, List.map_cons, spaced]
    cases xs with
    | nil => simp [glue]
    | cons y ys =>
      have hy := h y (by simp)
      have hrest : (glue separator ((y :: ys).map layout)).tokens ≠ [] := by
        rw [hxs]
        simp [spaced, hy]
      rw [tokens_led hrest, hxs, hseparator]
      simp [spaced]

end Layout

namespace Layout

variable {lead separator : String} {t : Token} {p : Punctuator} {types : List NamedType}

theorem tokens_typesAfter (hlead : markTokens lead = [t])
    (hseparator : markTokens separator = [.punctuator p]) (h : ∀ t ∈ types, IsName t.name)
    (hne : types ≠ []) :
  (led lead (glue separator (types.map NamedType.layout))).tokens
    = t :: spaced p (types.map fun t => t.layout.tokens)
  := by
  have hname : ∀ t ∈ types, t.layout.tokens ≠ [] := by
    intro t ht
    simp [NamedType.layout, tokens_name (h t ht)]
  have hglue := tokens_glue_separator hseparator hname
  cases types with
  | nil => contradiction
  | cons first others =>
    have hpart : (glue separator ((first :: others).map NamedType.layout)).tokens ≠ [] := by
      rw [hglue]
      simp [spaced, hname first]
    rw [tokens_led hpart, hlead, hglue]
    rfl

/-- Named types after a mark are read back. -/
theorem reads_typesAfter (hlead : markTokens lead = [t])
    (hseparator : markTokens separator = [.punctuator p]) (h : ∀ t ∈ types, IsName t.name)
    {rest : List Token} (hrest : ¬Begins (· = t) rest) (hrest' : Avoids [p] rest) :
  Reads (Rule.typesAfter t p) (led lead (glue separator (types.map NamedType.layout))).tokens
    types rest
  := by
  by_cases hne : types = []
  · subst hne
    exact reads_ifNext_not hrest reads_pure
  · have hname : ∀ t ∈ types, t.layout.tokens = [.name t.name] := fun t ht => tokens_name (h t ht)
    have hreads := @reads_separated _ _ Rule.namedType (fun t => t.layout.tokens) id types rest p
    rw [List.map_id] at hreads
    rw [tokens_typesAfter hlead hseparator h hne]
    apply reads_ifNext
    · simp
    · apply (reads_exactly t).bind_cons
      apply hreads
      · intro t ht us
        rw [hname t ht]
        exact (reads_name t.name).bind_pure
      · intro t ht
        simp [hname t ht, Token.isWord]
      · exact hne
      · exact hrest'

theorem avoids_typesAfter {q : Punctuator} (hlead : markTokens lead = [.punctuator q])
    (hseparator : markTokens separator = [.punctuator p]) (h : ∀ t ∈ types, IsName t.name)
    {ps : List Punctuator} (hps : q ∉ ps) :
  Avoids ps (led lead (glue separator (types.map NamedType.layout))).tokens
  := by
  by_cases hne : types = []
  · subst hne
    exact avoids_nil
  · rw [tokens_typesAfter hlead hseparator h hne]
    exact avoids_punctuator hps

end Layout

theorem Layout.lexable_typesAfter {lead separator : String} (hlead : lead ∈ marks)
    (hseparator : IsDelimiting separator) {types : List NamedType}
    (h : ∀ t ∈ types, IsName t.name) :
  (led lead (glue separator (types.map NamedType.layout))).Lexable
  := by
  apply lexable_led hlead
  apply lexable_glue hseparator
  exact List.forall_mem_map.mpr fun t ht => lexable_name (h t ht)

/-! ## Members -/

theorem InputValueDefinition.WellFormed.readAs {d : InputValueDefinition} (h : d.WellFormed) :
  d.layout.ReadAs Rule.inputValue d.settled
  := by
  have htokens : d.body.tokens = _ := tokens_typed (word d.name) h.type d.default? d.directives
  rw [tokens_name h.name] at htokens
  apply readAs_described
  · exact lexable_typed (lexable_name h.name) h.type h.default h.directives
  · exact ⟨d.name, _, htokens⟩
  · intro rest hrest
    rw [htokens]
    apply (reads_name d.name).bind
    exact reads_typed h.type h.default h.directives hrest

namespace Layout

variable {ds : List InputValueDefinition}

theorem lexable_parameters (h : ∀ d ∈ ds, d.WellFormed) :
  (parameters ds).Lexable
  := lexable_parts (by decide) (by decide) fun d hd => (h d hd).readAs.lexable

theorem opening_parameters (ds : List InputValueDefinition) :
  (parameters ds).Opening
  := opening_enclosed (by decide) _ _

theorem reads_parameters (h : ∀ d ∈ ds, d.WellFormed) {rest : List Token}
    (hrest : Avoids [.parenL] rest) :
  Reads Rule.parameters (parameters ds).tokens (ds.map InputValueDefinition.settled) rest
  := reads_parts (by rfl) (by rfl) (.inl rfl) (fun d hd => (h d hd).readAs) hrest

end Layout

namespace FieldDefinition

theorem WellFormed.lexable_body {d : FieldDefinition} (h : d.WellFormed) :
  d.body.Lexable
  := by
  apply lexable_append
  · apply lexable_append (lexable_name h.name) (lexable_parameters h.arguments)
    exact .inr (opening_parameters _)
  · apply lexable_append_applied _ h.directives
    exact lexable_led (by decide) h.type.lexable
  · exact .inr (opening_append (opening_led (by decide) _) (opening_led (by decide) _))

theorem WellFormed.tokens_body {d : FieldDefinition} (h : d.WellFormed) :
  d.body.tokens
    = .name d.name :: ((parameters d.arguments).tokens ++
      .punctuator .colon :: (d.type.layout.tokens ++ (applied d.directives).tokens))
  := by
  simp [body, tokens_name h.name, tokens_led h.type.tokens_ne_nil, markTokens]

theorem WellFormed.readAs {d : FieldDefinition} (h : d.WellFormed) :
  d.layout.ReadAs Rule.fieldDefinition d.settled
  := by
  apply readAs_described h.lexable_body
  · exact ⟨d.name, _, h.tokens_body⟩
  · intro rest hrest
    rw [h.tokens_body]
    apply (reads_name d.name).bind_cons
    apply Reads.bind
    · apply reads_parameters h.arguments
      simp
    · apply (reads_punctuator .colon).bind_cons
      apply Reads.bind
      · apply h.type.reads
        exact (avoids_applied h.directives (by decide)).append (hrest.mono (by decide))
      · apply Reads.bind_pure
        exact reads_applied h.directives (hrest.mono (by decide))

end FieldDefinition

theorem EnumValueDefinition.WellFormed.readAs {d : EnumValueDefinition} (h : d.WellFormed) :
  d.layout.ReadAs Rule.enumValue d.settled
  := by
  have htokens : d.body.tokens = .name d.name :: (applied d.directives).tokens := by
    simp [EnumValueDefinition.body, tokens_name h.name.1]
  apply readAs_described
  · apply lexable_append_applied _ h.directives
    exact lexable_name h.name.1
  · exact ⟨d.name, _, htokens⟩
  · intro rest hrest
    rw [htokens]
    apply ((reads_name d.name).checked h.name.2).bind_cons
    apply Reads.bind_pure
    exact reads_applied h.directives (hrest.mono (by decide))

theorem OperationTypeDefinition.WellFormed.readAs {d : OperationTypeDefinition}
    (h : d.WellFormed) :
  d.layout.ReadAs Rule.operationType d
  := by
  have htype : d.type.layout.tokens = [.name d.type.name] := tokens_name h
  have htokens : d.layout.tokens = _ :=
    tokens_named d.operation.isName_text (show d.type.layout.tokens ≠ [] by simp [htype])
  constructor
  · exact lexable_named d.operation.isName_text (lexable_name h)
  · simp [htokens, Token.Opens]
  · intro rest _
    rw [htokens, htype]
    apply (reads_operationKind d.operation).bind_cons
    apply (reads_punctuator .colon).bind_cons
    exact (reads_name d.type.name).bind_pure.bind_pure

/-! ## Directives -/

theorem DirectiveLocation.isName_text (l : DirectiveLocation) :
  IsName l.text
  := by cases l <;> decide

theorem Grammar.reads_location (l : DirectiveLocation) {rest : List Token} :
  Reads Rule.location [.name l.text] l rest
  := by
  apply (reads_name l.text).bind_cons
  cases l <;> apply reads_pure

namespace DirectiveDefinition

/-- The layout of the word that says that a directive is repeatable. -/
def repetition (d : DirectiveDefinition) : Layout :=
  if d.repeatable then led " " (word "repeatable") else []

theorem tokens_repetition (d : DirectiveDefinition) :
  d.repetition.tokens = if d.repeatable then [.name "repeatable"] else []
  := by
  rw [repetition]
  split
  · exact (tokens_led_space _).trans (tokens_name (by decide))
  · rfl

theorem WellFormed.lexable_body {d : DirectiveDefinition} (h : d.WellFormed) :
  d.body.Lexable
  := by
  have hrepetition : d.repetition.Lexable ∧ d.repetition.Opening := by
    rw [repetition]
    split
    · exact ⟨lexable_led (by decide) (lexable_name (by decide)), opening_led (by decide) _⟩
    · exact ⟨lexable_nil, opening_nil⟩
  apply lexable_append_led (by decide)
  · apply lexable_append _ hrepetition.1 (.inr hrepetition.2)
    apply lexable_append
    · exact lexable_led (by decide) (lexable_name h.name)
    · exact lexable_parameters h.arguments
    · exact .inr (opening_parameters _)
  · apply lexable_glue (by decide)
    exact List.forall_mem_map.mpr fun l _ => lexable_name l.isName_text

theorem WellFormed.tokens_body {d : DirectiveDefinition} (h : d.WellFormed) :
  d.body.tokens
    = .name "directive" :: .punctuator .atSign :: .name d.name ::
      ((parameters d.arguments).tokens ++
        ((if d.repeatable then [.name "repeatable"] else []) ++
          .name "on" :: spaced .pipe (d.locations.map fun l => [.name l.text])))
  := by
  have hname := tokens_name h.name
  have hlocation : ∀ l : DirectiveLocation, tokens (word l.text) = [.name l.text] :=
    fun l => tokens_name l.isName_text
  have hglue := @tokens_glue_separator _ (fun l : DirectiveLocation => word l.text) d.locations
    " | " .pipe (by rfl) (by simp [hlocation])
  simp only [hlocation] at hglue
  have hne : (glue " | " (d.locations.map fun l => word l.text)).tokens ≠ [] := by
    rw [hglue]
    cases hd : d.locations with
    | nil => exact absurd hd h.located
    | cons l ls => simp [spaced]
  have hbody : d.body = led "directive @" (word d.name) ++ parameters d.arguments ++
      d.repetition ++ led " on " (glue " | " (d.locations.map fun l => word l.text)) := rfl
  rw [hbody, tokens_append, tokens_led hne, hglue]
  simp [tokens_led, hname, tokens_repetition, markTokens]

theorem WellFormed.reads_body {d : DirectiveDefinition} (h : d.WellFormed) {rest : List Token}
    (hrest : Avoids [.pipe] rest) :
  Reads (Rule.directiveDefinition (d.description?.map StringValue.settled)) d.body.tokens
    d.settled rest
  := by
  rw [h.tokens_body]
  have hlocations := @reads_separated _ _ Rule.location (fun l => [.name l.text]) id
    d.locations rest .pipe (fun l _ us => reads_location l) (by simp [Token.isWord]) h.located
    hrest
  rw [List.map_id] at hlocations
  apply (reads_keyword "directive").bind_cons
  apply (reads_punctuator .atSign).bind_cons
  apply (reads_name d.name).bind_cons
  apply Reads.bind
  · apply reads_parameters h.arguments
    cases d.repeatable <;> simp
  · obtain ⟨description?, name, args, repeatable, locations⟩ := d
    cases repeatable with
    | false =>
      apply Reads.bind_nil (reads_optional_none (by simp))
      exact (reads_keyword "on").bind_cons hlocations.bind_pure
    | true =>
      apply Reads.bind_cons (reads_optional (by simp) (reads_keyword "repeatable"))
      exact (reads_keyword "on").bind_cons hlocations.bind_pure

end DirectiveDefinition

/-! ## Declarations -/

/-- Tokens that do not go on with a declaration before them. -/
structure Grammar.EndsDeclaration (ts : List Token) : Prop where
  avoids : Avoids continuing ts
  implements : ¬Begins (· = .name "implements") ts

namespace Layout

variable {α ι : Type} {item : Rule α} {layout : ι → Layout} {val : ι → α} {xs : List ι}
  {ds : List Directive}

/-- The members of a declaration with the layouts of the given parts. -/
theorem members_eq_parts (layout : ι → Layout) (xs : List ι) :
  members (xs.map layout) = parts " \x7b " layout xs " \x7d"
  := rfl

theorem lexable_declared {head : Layout} (hhead : head.Lexable)
    (hds : ∀ d ∈ ds, d.WellFormed true) (h : ∀ x ∈ xs, (layout x).ReadAs item (val x)) :
  (head ++ led " " (applied ds) ++ members (xs.map layout)).Lexable
  := by
  apply lexable_append
  · exact lexable_append_applied hhead hds
  · exact lexable_parts (by decide) (by decide) fun x hx => (h x hx).lexable
  · exact .inr (opening_enclosed (by decide) _ _)

/-- The directives and members of a declaration are read back. -/
theorem reads_declared {β : Type} {make : List Directive → List α → β}
    (hds : ∀ d ∈ ds, d.WellFormed true) (h : ∀ x ∈ xs, (layout x).ReadAs item (val x))
    {rest : List Token} (hrest : Avoids continuing rest) :
  Reads (do
      let ds ← Rule.directives true
      return make ds (← Rule.group .braceL .braceR item))
    ((applied ds).tokens ++ (members (xs.map layout)).tokens)
    (make (ds.map Directive.settled) (xs.map val)) rest
  := by
  have hmembers : Avoids [.atSign, .parenL] (members (xs.map layout)).tokens :=
    avoids_parts (by rfl) (by rfl) (fun x hx => (h x hx).begins.ne_nil) (by decide)
  apply Reads.bind
  · apply reads_applied hds
    exact hmembers.append (hrest.mono (by decide))
  · apply Reads.bind_pure
    exact reads_parts (by rfl) (by rfl) (.inr rfl) h (hrest.mono (by decide))

/-- Directives and members do not begin with a token that is not a punctuator of theirs. -/
theorem not_begins_declared {p : Token → Prop} (hds : ∀ d ∈ ds, d.WellFormed true)
    (h : ∀ x ∈ xs, (layout x).ReadAs item (val x)) (hp : ¬p (.punctuator .atSign))
    (hp' : ¬p (.punctuator .braceL)) :
  ¬Begins p ((applied ds).tokens ++ (members (xs.map layout)).tokens)
  := by
  apply not_begins_append
  · cases ds with
    | nil => exact not_begins_nil
    | cons d ds =>
      rw [tokens_applied_cons (hds d List.mem_cons_self), begins_cons]
      exact hp
  · cases xs with
    | nil => exact not_begins_nil
    | cons x xs =>
      have htokens := @tokens_parts_cons _ _ xs " \x7b " " \x7d" .braceL .braceR (by rfl) (by rfl) x
        (h x List.mem_cons_self).begins.ne_nil
      rw [members_eq_parts, htokens, begins_cons]
      exact hp'

/-! A type with fields, after the mark that introduces it. -/

variable {introducer keyword name : String} {types : List NamedType}
  {fields : List FieldDefinition}

theorem lexable_fieldsType (hintroducer : introducer ∈ marks) (hname : IsName name)
    (htypes : ∀ t ∈ types, IsName t.name) (hds : ∀ d ∈ ds, d.WellFormed true)
    (hfields : ∀ f ∈ fields, f.WellFormed) :
  (fieldsType introducer name types ds fields).Lexable
  := by
  apply lexable_declared _ hds fun f hf => (hfields f hf).readAs
  apply lexable_append
  · exact lexable_led hintroducer (lexable_name hname)
  · exact lexable_typesAfter (by decide) (by decide) htypes
  · exact .inr (opening_led (by decide) _)

theorem tokens_fieldsType (hintroducer : markTokens introducer = [.name keyword])
    (hname : IsName name) :
  (fieldsType introducer name types ds fields).tokens
    = .name keyword :: .name name ::
      ((led " implements " (glue " & " (types.map NamedType.layout))).tokens ++
        ((applied ds).tokens ++ (members (fields.map FieldDefinition.layout)).tokens))
  := by
  simp [fieldsType, tokens_led, tokens_name hname, hintroducer]

theorem reads_fieldsType
    {make : String → List NamedType → List Directive → List FieldDefinition → Declaration}
    (htypes : ∀ t ∈ types, IsName t.name) (hds : ∀ d ∈ ds, d.WellFormed true)
    (hfields : ∀ f ∈ fields, f.WellFormed) {rest : List Token} (hrest : EndsDeclaration rest) :
  Reads (Rule.fieldsType make)
    (.name name :: ((led " implements " (glue " & " (types.map NamedType.layout))).tokens ++
      ((applied ds).tokens ++ (members (fields.map FieldDefinition.layout)).tokens)))
    (make name types (ds.map Directive.settled) (fields.map FieldDefinition.settled)) rest
  := by
  have hreads : ∀ f ∈ fields, f.layout.ReadAs Rule.fieldDefinition f.settled :=
    fun f hf => (hfields f hf).readAs
  apply (reads_name name).bind_cons
  apply Reads.bind
  · apply reads_typesAfter (by rfl) (by rfl) htypes
    · exact not_begins_append (not_begins_declared hds hreads (by simp) (by simp)) hrest.implements
    · apply Avoids.append _ (hrest.avoids.mono (by decide))
      exact avoids_singleton.mpr (not_begins_declared hds hreads (by simp) (by simp))
  · exact reads_declared hds hreads hrest.avoids

end Layout

namespace Declaration

/-- The keyword of a declaration. -/
def keyword : Declaration → String
  | .schema .. => "schema"
  | .scalar .. => "scalar"
  | .object .. => "type"
  | .interface .. => "interface"
  | .union .. => "union"
  | .enum .. => "enum"
  | .inputObject .. => "input"

theorem WellFormed.lexable {d : Declaration} (h : d.WellFormed) :
  d.layout.Lexable
  := by
  cases d with
  | schema ds types =>
    obtain ⟨hds, htypes⟩ := h
    exact lexable_declared (lexable_name (by decide)) hds fun t ht => (htypes t ht).readAs
  | scalar name ds =>
    obtain ⟨hname, hds⟩ := h
    apply lexable_append_applied _ hds
    exact lexable_led (by decide) (lexable_name hname)
  | object name types ds fields
  | interface name types ds fields =>
    obtain ⟨hname, htypes, hds, hfields⟩ := h
    exact lexable_fieldsType (by decide) hname htypes hds hfields
  | union name ds types =>
    obtain ⟨hname, hds, htypes⟩ := h
    apply lexable_append
    · apply lexable_append_applied _ hds
      exact lexable_led (by decide) (lexable_name hname)
    · exact lexable_typesAfter (by decide) (by decide) htypes
    · exact .inr (opening_led (by decide) _)
  | enum name ds values =>
    obtain ⟨hname, hds, hvalues⟩ := h
    apply lexable_declared _ hds fun v hv => (hvalues v hv).readAs
    exact lexable_led (by decide) (lexable_name hname)
  | inputObject name ds fields =>
    obtain ⟨hname, hds, hfields⟩ := h
    apply lexable_declared _ hds fun f hf => (hfields f hf).readAs
    exact lexable_led (by decide) (lexable_name hname)

/-- The tokens of a declaration after its keyword. -/
def content : Declaration → List Token
  | .schema ds types =>
    (applied ds).tokens ++ (members (types.map OperationTypeDefinition.layout)).tokens
  | .scalar name ds => .name name :: (applied ds).tokens
  | .object name types ds fields
  | .interface name types ds fields =>
    .name name :: ((led " implements " (glue " & " (types.map NamedType.layout))).tokens ++
      ((applied ds).tokens ++ (members (fields.map FieldDefinition.layout)).tokens))
  | .union name ds types =>
    .name name :: ((applied ds).tokens ++
      (led " = " (glue " | " (types.map NamedType.layout))).tokens)
  | .enum name ds values =>
    .name name :: ((applied ds).tokens ++
      (members (values.map EnumValueDefinition.layout)).tokens)
  | .inputObject name ds fields =>
    .name name :: ((applied ds).tokens ++
      (members (fields.map InputValueDefinition.layout)).tokens)

theorem WellFormed.tokens_layout {d : Declaration} (h : d.WellFormed) :
  d.layout.tokens = .name d.keyword :: d.content
  := by
  cases d with
  | schema ds types => simp [layout, keyword, content, @tokens_name "schema" (by decide)]
  | scalar name ds =>
    simp [layout, keyword, content, tokens_led, tokens_name h.1, markTokens]
  | object name types ds fields
  | interface name types ds fields => exact tokens_fieldsType (by rfl) h.1
  | union name ds types
  | enum name ds values
  | inputObject name ds fields =>
    simp [layout, keyword, content, tokens_led, tokens_name h.1, markTokens]

theorem WellFormed.reads {d : Declaration} (h : d.WellFormed) {rest : List Token}
    (hrest : EndsDeclaration rest) :
  Reads Rule.declaration d.layout.tokens d.settled rest
  := by
  rw [h.tokens_layout]
  apply (reads_name d.keyword).bind_cons
  cases d with
  | schema ds types =>
    obtain ⟨hds, htypes⟩ := h
    rw [keyword, Rule.declarationOf]
    have hreads := @reads_declared _ _ _ OperationTypeDefinition.layout id types ds _
      Declaration.schema hds (fun t ht => (htypes t ht).readAs) _ hrest.avoids
    rwa [List.map_id] at hreads
  | scalar name ds =>
    obtain ⟨hname, hds⟩ := h
    rw [keyword, Rule.declarationOf]
    apply (reads_name name).bind_cons
    apply Reads.bind_pure
    exact reads_applied hds (hrest.avoids.mono (by decide))
  | object name types ds fields =>
    obtain ⟨hname, htypes, hds, hfields⟩ := h
    rw [keyword, Rule.declarationOf]
    exact reads_fieldsType htypes hds hfields hrest
  | interface name types ds fields =>
    obtain ⟨hname, htypes, hds, hfields⟩ := h
    rw [keyword, Rule.declarationOf]
    exact reads_fieldsType htypes hds hfields hrest
  | union name ds types =>
    obtain ⟨hname, hds, htypes⟩ := h
    rw [keyword, Rule.declarationOf]
    apply (reads_name name).bind_cons
    apply Reads.bind
    · apply reads_applied hds
      apply Avoids.append _ (hrest.avoids.mono (by decide))
      exact avoids_typesAfter (by rfl) (by rfl) htypes (by decide)
    · apply Reads.bind_pure
      apply reads_typesAfter (by rfl) (by rfl) htypes
      · exact hrest.avoids.not_begins (by decide)
      · exact hrest.avoids.mono (by decide)
  | enum name ds values =>
    obtain ⟨hname, hds, hvalues⟩ := h
    rw [keyword, Rule.declarationOf]
    apply (reads_name name).bind_cons
    apply reads_declared hds _ hrest.avoids
    exact fun v hv => (hvalues v hv).readAs
  | inputObject name ds fields =>
    obtain ⟨hname, hds, hfields⟩ := h
    rw [keyword, Rule.declarationOf]
    apply (reads_name name).bind_cons
    apply reads_declared hds _ hrest.avoids
    exact fun f hf => (hfields f hf).readAs

end Declaration

/-! ## Definitions -/

namespace Declaration

theorem keyword_ne (d : Declaration) :
  d.keyword ≠ "extend" ∧ d.keyword ≠ "directive" ∧ d.keyword ≠ "implements"
  := by cases d <;> simp [keyword]

theorem settled_defines {d : Declaration} (h : d.Defines) :
  d.settled.Defines
  := by
  cases d with
  | schema ds types => exact h
  | _ => trivial

theorem settled_extends {d : Declaration} (h : d.Extends) :
  d.settled.Extends
  := by cases d <;> simpa [settled, Extends] using h

end Declaration

namespace Definition

theorem layout_extend (d : Declaration) :
  (extend d).layout = mark "extend " ++ d.layout
  := rfl

theorem tokens_extend (d : Declaration) :
  (extend d).layout.tokens = .name "extend" :: d.layout.tokens
  := by simp [layout_extend, markTokens]

theorem WellFormed.lexable {d : Definition} (h : d.WellFormed) :
  d.layout.Lexable
  := by
  cases d with
  | operation d => exact OperationDefinition.WellFormed.lexable h
  | fragment d => exact FragmentDefinition.WellFormed.lexable h
  | define description? d => exact lexable_described description? h.1.lexable
  | directive d =>
    exact lexable_described d.description? (DirectiveDefinition.WellFormed.lexable_body h)
  | extend d =>
    rw [layout_extend]
    exact lexable_append (lexable_mark (by decide)) h.1.lexable (.inl (closed_mark _))

/-- What begins with a name begins, when it is described, with that name or a string. -/
theorem exists_described {name : String} {ts : List Token} {body : Layout}
    (htokens : body.tokens = .name name :: ts) (description? : Option StringValue) :
  ∃ t us, (described description? body).tokens = t :: us ∧ (t = .name name ∨ ∃ s, t = .string s)
  := by
  rw [tokens_described, htokens]
  cases description? with
  | none => exact ⟨_, _, rfl, .inl rfl⟩
  | some s => exact ⟨_, _, rfl, .inr ⟨s.settled, rfl⟩⟩

/-- A described part is not taken for one that begins with another name. -/
theorem not_begins_described {name other : String} {ts : List Token} {body : Layout}
    (htokens : body.tokens = .name name :: ts) (hname : name ≠ other)
    (description? : Option StringValue) (rest : List Token) :
  ¬Begins (· = .name other) ((described description? body).tokens ++ rest)
  := by
  obtain ⟨t, us, hdescribed, rfl | ⟨s, rfl⟩⟩ := exists_described htokens description?
  · simp [hdescribed, hname]
  · simp [hdescribed]

/-- A described definition does not go on with a declaration before it. -/
theorem endsDeclaration_described {name : String} {ts : List Token} {body : Layout}
    (htokens : body.tokens = .name name :: ts) (hname : name ≠ "implements")
    (description? : Option StringValue) (rest : List Token) :
  EndsDeclaration ((described description? body).tokens ++ rest)
  := by
  constructor
  · obtain ⟨t, us, hdescribed, rfl | ⟨s, rfl⟩⟩ := exists_described htokens description?
    · simp [hdescribed]
    · simp [hdescribed]
  · exact not_begins_described htokens hname description? rest

/-- A type system definition is read back, if what follows does not go on with it. -/
theorem reads_typeSystem {d : Definition} (h : d.WellFormed) (hd : d.IsTypeSystem)
    {rest : List Token} (hrest : EndsDeclaration rest) :
  Reads Rule.typeSystemDefinition d.layout.tokens d.settled rest
  := by
  cases d with
  | operation d => exact hd.elim
  | fragment d => exact hd.elim
  | define description? d =>
    obtain ⟨hwf, hdefines⟩ := h
    obtain ⟨hextend, hdirective, -⟩ := d.keyword_ne
    have htokens := hwf.tokens_layout
    apply reads_ifNext_not (not_begins_described htokens hextend description? rest)
    apply reads_described
    · simp [htokens, Rule.IsStringToken]
    · apply reads_ifNext_not
      · simp [htokens, hdirective]
      · exact ((hwf.reads hrest).checked (Declaration.settled_defines hdefines)).map
  | directive d =>
    have htokens := DirectiveDefinition.WellFormed.tokens_body h
    apply reads_ifNext_not (not_begins_described htokens (by decide) d.description? rest)
    apply reads_described
    · simp [htokens, Rule.IsStringToken]
    · apply reads_ifNext
      · simp [htokens]
      · exact (DirectiveDefinition.WellFormed.reads_body h (hrest.avoids.mono (by decide))).map
  | extend d =>
    obtain ⟨hwf, hextends⟩ := h
    rw [tokens_extend]
    apply reads_ifNext
    · simp
    · apply (reads_keyword "extend").bind_cons
      exact ((hwf.reads hrest).checked (Declaration.settled_extends hextends)).bind_pure

/-- A definition does not go on with a declaration before it. -/
theorem WellFormed.endsDeclaration {d : Definition} (h : d.WellFormed) (hd : d.IsTypeSystem)
    (rest : List Token) :
  EndsDeclaration (d.layout.tokens ++ rest)
  := by
  cases d with
  | operation d => exact hd.elim
  | fragment d => exact hd.elim
  | define description? d =>
    exact endsDeclaration_described h.1.tokens_layout d.keyword_ne.2.2 description? rest
  | directive d =>
    have htokens := DirectiveDefinition.WellFormed.tokens_body h
    exact endsDeclaration_described htokens (by decide) d.description? rest
  | extend d => exact endsDeclaration_described (tokens_extend d) (by decide) none rest

end Definition

end GraphQLText
