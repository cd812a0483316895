import GraphQLText.Proofs.Grammar.Executable
import GraphQLText.Proofs.RoundTrip.Value

/-!
# Reading back selections, operations and fragments

The parts of executable documents.  A selection set without selections is not printed, so a
field is read back with or without one, while operations, fragments and inline fragments
must have selections.
-/

namespace GraphQLText

open Grammar Layout

/-! ## Selections -/

namespace Layout

theorem braced_layouts (ss : List Selection) :
  braced (Selection.layouts ss) = SelectionSet.layout ss
  := by
  rw [Selection.layouts_eq_map]
  rfl

/-- What comes after the name of a field, the condition of a fragment or the head of an
operation: directives and selections. -/
theorem lexable_tail {ds : List Directive} {body : Layout}
    (hds : ∀ d ∈ ds, d.WellFormed false) (hbody : body.Lexable) :
  (led " " (applied ds) ++ led " " body).Lexable
  := by
  apply lexable_append_led (by decide) _ hbody
  exact lexable_led (by decide) (lexable_applied hds)

theorem opening_tail (ds : List Directive) (body : Layout) :
  (led " " (applied ds) ++ led " " body).Opening
  := opening_append (opening_led (by decide) _) (opening_led (by decide) _)

end Layout

mutual

theorem Selection.WellFormed.lexable {s : Selection} (h : s.WellFormed) :
  s.layout.Lexable
  := by
  cases s with
  | field f => exact Field.WellFormed.lexable h
  | fragmentSpread s =>
    obtain ⟨hname, hds⟩ := h
    apply lexable_append_applied _ hds
    exact lexable_led (by decide) (lexable_name hname.1)
  | inlineFragment f => exact InlineFragment.WellFormed.lexable h

theorem Field.WellFormed.lexable {f : Field} (h : f.WellFormed) :
  f.layout.Lexable
  := by
  obtain ⟨alias?, name, args, ds, ss⟩ := f
  obtain ⟨halias, hname, hargs, hds, hss⟩ := h
  have hbody : (braced (Selection.layouts ss)).Lexable := by
    apply lexable_enclosed (by decide) (by decide)
    exact lexable_glue (by decide) (Selection.AllWellFormed.lexable hss)
  have hhead : (word name ++ passed args).Lexable :=
    lexable_append (lexable_name hname) (lexable_passed hargs) (.inr (opening_passed args))
  apply lexable_append _ (lexable_tail hds hbody) (.inr (opening_tail ds _))
  apply lexable_append _ hhead (.inl (closed_enclosed "" _ (by decide)))
  apply lexable_enclosed (by decide) (by decide)
  exact lexable_elim fun key hkey => lexable_name (halias key hkey)

theorem InlineFragment.WellFormed.lexable {f : InlineFragment} (h : f.WellFormed) :
  f.layout.Lexable
  := by
  obtain ⟨typeCondition?, ds, ss⟩ := f
  obtain ⟨htype, hds, -, hss⟩ := h
  have hbody : (braced (Selection.layouts ss)).Lexable := by
    apply lexable_enclosed (by decide) (by decide)
    exact lexable_glue (by decide) (Selection.AllWellFormed.lexable hss)
  apply lexable_append _ (lexable_tail hds hbody) (.inr (opening_tail ds _))
  apply lexable_append (lexable_mark (by decide)) _ (.inl (closed_mark _))
  apply lexable_led (by decide)
  exact lexable_elim fun t ht => lexable_name (htype t ht)

theorem Selection.AllWellFormed.lexable {ss : List Selection} (h : Selection.AllWellFormed ss) :
  ∀ part ∈ Selection.layouts ss, part.Lexable
  := by
  cases ss with
  | nil => simp [Selection.layouts]
  | cons s ss =>
    obtain ⟨hs, hss⟩ := h
    rw [Selection.layouts, List.forall_mem_cons]
    exact ⟨Selection.WellFormed.lexable hs, Selection.AllWellFormed.lexable hss⟩

end

/-- The tokens of an alias. -/
def Field.aliasTokens (alias? : Option String) : List Token :=
  alias?.elim [] fun key => [.name key, .punctuator .colon]

theorem Field.tokens_layout {f : Field} (h : f.WellFormed) :
  f.layout.tokens
    = Field.aliasTokens f.alias? ++
      (.name f.name :: ((passed f.arguments).tokens ++
        ((applied f.directives).tokens ++ (SelectionSet.layout f.selections).tokens)))
  := by
  obtain ⟨alias?, name, args, ds, ss⟩ := f
  obtain ⟨halias, hname, -⟩ := h
  have hlayout : (Field.mk alias? name args ds ss).layout
      = enclosed "" (word? alias?) ": " ++ (word name ++ passed args) ++
        (led " " (applied ds) ++ led " " (SelectionSet.layout ss)) := by
    rw [Field.layout, braced_layouts]
    rfl
  cases alias? with
  | none => simp [hlayout, tokens_name hname, aliasTokens]
  | some key =>
    have hkey := tokens_name (halias key rfl)
    simp [hlayout, tokens_name hname, tokens_enclosed, hkey, markTokens, aliasTokens]

theorem InlineFragment.tokens_layout {f : InlineFragment} (h : f.WellFormed) :
  f.layout.tokens
    = .punctuator .spread ::
      (f.typeCondition?.elim [] (fun t => [.name "on", .name t.name]) ++
        ((applied f.directives).tokens ++ (SelectionSet.layout f.selections).tokens))
  := by
  obtain ⟨typeCondition?, ds, ss⟩ := f
  obtain ⟨htype, -⟩ := h
  rw [InlineFragment.layout, braced_layouts]
  cases typeCondition? with
  | none => simp [markTokens]
  | some t =>
    have ht := tokens_name (htype t rfl)
    simp [tokens_led, NamedType.layout, ht, markTokens]

theorem FragmentSpread.tokens_layout {s : FragmentSpread} (h : IsName s.name) :
  s.layout.tokens = .punctuator .spread :: .name s.name :: (applied s.directives).tokens
  := by
  simp [FragmentSpread.layout, tokens_led, tokens_name h, markTokens]

/-- A selection begins with a name or with a spread. -/
theorem Selection.WellFormed.begins {s : Selection} (h : s.WellFormed) :
  Begins Token.Opens s.layout.tokens
  := by
  cases s with
  | field f =>
    rw [Selection.layout, Field.tokens_layout h]
    cases f.alias? with
    | none => simp [Token.Opens, Field.aliasTokens]
    | some key => simp [Token.Opens, Field.aliasTokens]
  | fragmentSpread s =>
    obtain ⟨hname, -⟩ := h
    rw [Selection.layout, FragmentSpread.tokens_layout hname.1]
    simp [Token.Opens]
  | inlineFragment f =>
    rw [Selection.layout, InlineFragment.tokens_layout h]
    simp [Token.Opens]

/-- A selection set avoids the punctuators other than its brace. -/
theorem SelectionSet.avoids {ss : SelectionSet} (h : ∀ s ∈ ss, s.WellFormed)
    {ps : List Punctuator} (hps : .braceL ∉ ps) :
  Avoids ps ss.layout.tokens
  := avoids_parts (by rfl) (by rfl) (fun s hs => (h s hs).begins.ne_nil) hps

/-- A selection set that is not empty begins with a brace. -/
theorem SelectionSet.exists_tokens {ss : SelectionSet} (h : ∀ s ∈ ss, s.WellFormed)
    (hne : ss ≠ []) :
  ∃ ts, ss.layout.tokens = .punctuator .braceL :: ts
  := by
  cases ss with
  | nil => contradiction
  | cons s ss =>
    exact ⟨_, tokens_parts_cons (by rfl) (by rfl) (h s List.mem_cons_self).begins.ne_nil⟩

namespace Layout

variable {ds : List Directive} {ss : SelectionSet}

/-- Directives and a selection set begin with a punctuator of theirs. -/
theorem exists_tail (hds : ∀ d ∈ ds, d.WellFormed false) (hss : ∀ s ∈ ss, s.WellFormed)
    (hne : ss ≠ []) :
  ∃ p ts, (p = .atSign ∨ p = .braceL) ∧
    (applied ds).tokens ++ ss.layout.tokens = .punctuator p :: ts
  := by
  cases ds with
  | nil =>
    obtain ⟨ts, hts⟩ := SelectionSet.exists_tokens hss hne
    exact ⟨.braceL, ts, .inr rfl, hts⟩
  | cons d ds =>
    rw [tokens_applied_cons (hds d List.mem_cons_self)]
    exact ⟨.atSign, _, .inl rfl, rfl⟩

/-- Directives and a selection set are read back at the end of any part. -/
theorem reads_tail {α : Type} {selection : Rule Selection}
    {make : List Directive → List Selection → α} (hds : ∀ d ∈ ds, d.WellFormed false)
    (hss : ∀ s ∈ ss, s.WellFormed) (hne : ss ≠ [])
    (hreads : ∀ s ∈ ss, s.layout.ReadAs selection s.settled) (rest : List Token) :
  Reads (do
      let ds ← Rule.directives false
      return make ds (← Rule.block .braceL .braceR selection))
    ((applied ds).tokens ++ ss.layout.tokens)
    (make (ds.map Directive.settled) (ss.map Selection.settled)) rest
  := by
  apply Reads.bind
  · apply reads_applied hds
    obtain ⟨ts, hts⟩ := SelectionSet.exists_tokens hss hne
    simp [hts]
  · apply Reads.bind_pure
    exact reads_block_parts (by rfl) (by rfl) (.inr rfl) hreads hne rest

end Layout

/-- The name of a field is read with its alias, if no colon follows it. -/
theorem Grammar.reads_fieldName (alias? : Option String) (name : String) {rest : List Token}
    (hrest : Avoids [.colon] rest) :
  Reads Rule.fieldName (Field.aliasTokens alias? ++ [.name name]) (alias?, name) rest
  := by
  cases alias? with
  | none =>
    apply (reads_name name).bind_cons
    have hsecond := @reads_led_none _ Rule.name _ _ (hrest.not_begins List.mem_cons_self)
    exact hsecond.bind_pure
  | some key =>
    apply (reads_name key).bind_cons
    have hsecond := @reads_led _ _ _ rest _ (.punctuator .colon) (reads_name name)
    exact hsecond.bind_pure

/-- A field is read by a rule that reads the selections in it. -/
theorem Field.reads {selection : Rule Selection} {f : Field} (h : f.WellFormed)
    (hss : ∀ s ∈ f.selections, s.layout.ReadAs selection s.settled) {rest : List Token}
    (hrest : Avoids continuing rest) :
  Reads (Rule.field selection) f.layout.tokens (.field f.settled) rest
  := by
  rw [Field.tokens_layout h, ← List.singleton_append, ← List.append_assoc]
  obtain ⟨alias?, name, args, ds, ss⟩ := f
  obtain ⟨-, -, hargs, hds, hwf⟩ := h
  rw [Field.settled, Selection.settledAll_eq_map]
  rw [Selection.allWellFormed_iff] at hwf
  have h3 : Avoids [.atSign, .parenL, .colon] ((SelectionSet.layout ss).tokens ++ rest) :=
    (SelectionSet.avoids hwf (by decide)).append (hrest.mono (by decide))
  have h2 : Avoids [.parenL, .colon]
      ((applied ds).tokens ++ ((SelectionSet.layout ss).tokens ++ rest)) :=
    (avoids_applied hds (by decide)).append (h3.mono (by decide))
  have h1 : Avoids [.colon] ((passed args).tokens ++
      ((applied ds).tokens ++ ((SelectionSet.layout ss).tokens ++ rest))) :=
    (avoids_passed hargs (by decide)).append (h2.mono (by decide))
  apply Reads.bind
  · apply reads_fieldName alias? name
    simpa using h1
  · apply Reads.bind
    · apply reads_passed hargs
      simpa using h2.mono (by decide)
    · apply Reads.bind
      · apply reads_applied hds
        exact h3.mono (by decide)
      · apply Reads.bind_pure
        exact reads_parts (by rfl) (by rfl) (.inr rfl) hss (hrest.mono (by decide))

/-- What comes after the name of a spread or the condition of a fragment. -/
theorem FragmentSpread.reads {s : FragmentSpread} (hname : IsFragmentName s.name)
    (hds : ∀ d ∈ s.directives, d.WellFormed false) {rest : List Token}
    (hrest : Avoids continuing rest) (selection : Rule Selection) :
  Reads (Rule.selectionStep selection) s.layout.tokens
    (.fragmentSpread ⟨s.name, s.directives.map Directive.settled⟩) rest
  := by
  rw [FragmentSpread.tokens_layout hname.1]
  apply reads_ifNext
  · simp
  · apply (reads_punctuator .spread).bind_cons
    apply reads_ifNext
    · simp [Rule.IsNameToken, hname.2]
    · apply (reads_name s.name).bind_cons
      apply Reads.bind_pure
      exact reads_applied hds (hrest.mono (by decide))

/-- An inline fragment is read by a rule that reads the selections in it. -/
theorem InlineFragment.reads {selection : Rule Selection} {f : InlineFragment}
    (h : f.WellFormed) (hss : ∀ s ∈ f.selections, s.layout.ReadAs selection s.settled)
    (rest : List Token) :
  Reads (Rule.selectionStep selection) f.layout.tokens (.inlineFragment f.settled) rest
  := by
  rw [InlineFragment.tokens_layout h]
  obtain ⟨typeCondition?, ds, ss⟩ := f
  obtain ⟨-, hds, hne, hwf⟩ := h
  rw [InlineFragment.settled, Selection.settledAll_eq_map]
  rw [Selection.allWellFormed_iff] at hwf
  obtain ⟨p, ts, hp, htail⟩ := exists_tail hds hwf hne
  apply reads_ifNext
  · simp
  · apply (reads_punctuator .spread).bind_cons
    cases typeCondition? with
    | none =>
      apply reads_ifNext_not
      · simp [htail, Rule.IsNameToken]
      · apply Reads.bind_nil
        · apply reads_led_none
          simp [htail]
        · exact reads_tail hds hwf hne hss rest
    | some t =>
      apply reads_ifNext_not
      · simp
      · apply Reads.bind
        · exact reads_led (reads_name t.name).bind_pure
        · exact reads_tail hds hwf hne hss rest

theorem Field.not_begins_spread {f : Field} (h : f.WellFormed) (rest : List Token) :
  ¬Begins (· = .punctuator .spread) (f.layout.tokens ++ rest)
  := by
  rw [Field.tokens_layout h]
  cases f.alias? with
  | none => simp [Field.aliasTokens]
  | some key => simp [Field.aliasTokens]

/-- A selection is longer than those in its selection set. -/
theorem SelectionSet.length_lt {ss : SelectionSet} (h : ∀ s ∈ ss, s.WellFormed) {s : Selection}
    (hs : s ∈ ss) :
  s.layout.tokens.length < ss.layout.tokens.length
  := length_lt_parts (by rfl) (by rfl) (fun s hs => (h s hs).begins.ne_nil) hs

/-- A selection is read back. -/
theorem Selection.WellFormed.readAs {s : Selection} (h : s.WellFormed) :
  s.layout.ReadAs Rule.selection s.settled
  := by
  refine ⟨h.lexable, h.begins, fun rest hrest => ?_⟩
  apply @reads_nested _ Selection _ _ (fun s => s.layout.tokens) Selection.settled
    (fun _ us => Avoids continuing us) Selection.WellFormed _ _ h hrest
  intro selection s hs hselection us hus
  have hss : ∀ ss : SelectionSet, (∀ s' ∈ ss, s'.WellFormed) →
      ss.layout.tokens.length ≤ s.layout.tokens.length →
      ∀ s' ∈ ss, s'.layout.ReadAs selection s'.settled := by
    intro ss hwf hle s' hmem
    have hlt := SelectionSet.length_lt hwf hmem
    exact ⟨(hwf s' hmem).lexable, (hwf s' hmem).begins, hselection s' (hwf s' hmem) (by omega)⟩
  cases s with
  | field f =>
    apply reads_ifNext_not
    · exact Field.not_begins_spread hs us
    · apply Field.reads hs _ hus
      apply hss f.selections hs.selections
      simp only [Selection.layout, Field.tokens_layout hs, List.length_append, List.length_cons]
      omega
  | fragmentSpread s =>
    obtain ⟨hname, hds⟩ := hs
    exact FragmentSpread.reads hname hds hus selection
  | inlineFragment f =>
    apply InlineFragment.reads hs
    apply hss f.selections hs.selections
    simp only [Selection.layout, InlineFragment.tokens_layout hs, List.length_append,
      List.length_cons]
    omega

/-! ## Operations and fragments -/

namespace Layout

theorem lexable_selectionSet {ss : SelectionSet} (h : ∀ s ∈ ss, s.WellFormed) :
  ss.layout.Lexable
  := lexable_parts (by decide) (by decide) fun s hs => (h s hs).lexable

end Layout

theorem OperationKind.isName_text (kind : OperationKind) :
  IsName kind.text
  := by cases kind <;> decide

theorem Grammar.reads_operationKind (kind : OperationKind) {rest : List Token} :
  Reads Rule.operationKind [.name kind.text] kind rest
  := by
  apply (reads_name kind.text).bind_cons
  cases kind <;> apply reads_pure

theorem VariableDefinition.WellFormed.readAs {d : VariableDefinition} (h : d.WellFormed) :
  d.layout.ReadAs Rule.variableDefinition d.settled
  := by
  have htokens : d.layout.tokens = _ :=
    tokens_typed d.var.layout h.type d.default? d.directives
  rw [Value.tokens_var h.name] at htokens
  constructor
  · apply lexable_typed _ h.type h.default h.directives
    exact lexable_append (lexable_mark (by decide)) (lexable_name h.name) (.inl (closed_mark _))
  · simp [htokens, Token.Opens]
  · intro rest hrest
    rw [htokens]
    apply @Reads.bind _ _ _ [.punctuator .dollar, .name d.var.name]
    · exact (reads_punctuator .dollar).bind_cons (reads_name d.var.name).bind_pure
    · exact reads_typed h.type h.default h.directives hrest

/-- The variables that an operation takes. -/
def Layout.taken (ds : List VariableDefinition) : Layout :=
  parts "(" VariableDefinition.layout ds ")"

namespace OperationDefinition

theorem WellFormed.lexable {d : OperationDefinition} (h : d.WellFormed) :
  d.layout.Lexable
  := by
  have hname : (word? d.name?).Lexable :=
    lexable_elim fun name hd => lexable_name (h.name name hd)
  have hhead : (word d.operation.text ++ led " " (word? d.name?)).Lexable :=
    lexable_append_led (by decide) (lexable_name d.operation.isName_text) hname
  apply lexable_append
  · apply lexable_append_applied _ h.directives
    apply lexable_append hhead
    · exact lexable_parts (by decide) (by decide) fun v hv => (h.inputs v hv).readAs.lexable
    · exact .inr (opening_enclosed (by decide) _ _)
  · exact lexable_selectionSet h.selections
  · exact .inr (opening_enclosed (by decide) _ _)

theorem WellFormed.tokens_layout {d : OperationDefinition} (h : d.WellFormed) :
  d.layout.tokens
    = .name d.operation.text :: (d.name?.elim [] (fun name => [.name name]) ++
      ((taken d.variableDefinitions).tokens ++
        ((applied d.directives).tokens ++ (SelectionSet.layout d.selections).tokens)))
  := by
  have hlayout : d.layout = word d.operation.text ++ led " " (word? d.name?) ++
      taken d.variableDefinitions ++ led " " (applied d.directives) ++
      SelectionSet.layout d.selections := rfl
  rw [hlayout]
  cases hd : d.name? with
  | none => simp [tokens_name d.operation.isName_text]
  | some name => simp [tokens_name d.operation.isName_text, tokens_name (h.name name hd)]

/-- An operation has a name only if a name follows its keyword. -/
theorem not_begins_taken {ds : List VariableDefinition} (h : ∀ d ∈ ds, d.WellFormed)
    (p : Punctuator) (ts : List Token) :
  ¬Begins Rule.IsNameToken ((taken ds).tokens ++ .punctuator p :: ts)
  := by
  cases ds with
  | nil => simp [taken, parts, glue, Rule.IsNameToken]
  | cons d ds =>
    have hd := (h d List.mem_cons_self).readAs.begins.ne_nil
    have htokens := @tokens_parts_cons _ _ ds "(" ")" .parenL .parenR (by rfl) (by rfl) _ hd
    simp [taken, htokens, Rule.IsNameToken]

theorem WellFormed.reads {d : OperationDefinition} (h : d.WellFormed) (rest : List Token) :
  Reads Rule.operation d.layout.tokens d.settled rest
  := by
  obtain ⟨p, ts, hp, htail⟩ := exists_tail h.directives h.selections h.selects
  rw [h.tokens_layout]
  apply (reads_operationKind d.operation).bind_cons
  apply @Reads.bind _ _ _ _ _ _ d.name?
  · cases d.name? with
    | none =>
      apply reads_optional_none
      simpa [htail] using not_begins_taken h.inputs p (ts ++ rest)
    | some name =>
      apply reads_optional
      · simp [Rule.IsNameToken]
      · exact reads_name name
  · apply Reads.bind
    · apply reads_parts (by rfl) (by rfl) (.inl rfl)
      · exact fun v hv => (h.inputs v hv).readAs
      · rw [htail]
        rcases hp with rfl | rfl
        · simp
        · simp
    · apply reads_tail h.directives h.selections h.selects
      exact fun s hs => (h.selections s hs).readAs

end OperationDefinition

namespace FragmentDefinition

theorem WellFormed.lexable {d : FragmentDefinition} (h : d.WellFormed) :
  d.layout.Lexable
  := by
  apply lexable_append_led (by decide) _ (lexable_selectionSet h.selections)
  apply lexable_append_applied _ h.directives
  apply lexable_append_led (by decide) _ (lexable_name h.typeCondition)
  exact lexable_led (by decide) (lexable_name h.name.1)

theorem WellFormed.tokens_layout {d : FragmentDefinition} (h : d.WellFormed) :
  d.layout.tokens
    = .name "fragment" :: .name d.name :: .name "on" :: .name d.typeCondition.name ::
      ((applied d.directives).tokens ++ (SelectionSet.layout d.selections).tokens)
  := by
  have hname := tokens_name h.name.1
  have htype := tokens_name h.typeCondition
  simp [FragmentDefinition.layout, NamedType.layout, tokens_led, hname, htype, markTokens]

theorem WellFormed.reads {d : FragmentDefinition} (h : d.WellFormed) (rest : List Token) :
  Reads Rule.fragment d.layout.tokens d.settled rest
  := by
  rw [h.tokens_layout]
  apply (reads_keyword "fragment").bind_cons
  apply ((reads_name d.name).checked h.name.2).bind_cons
  apply (reads_keyword "on").bind_cons
  apply Reads.bind_cons
  · exact (reads_name d.typeCondition.name).bind_pure
  · apply reads_tail h.directives h.selections h.selects
    exact fun s hs => (h.selections s hs).readAs

end FragmentDefinition

/-- An executable definition is read back, whatever follows it. -/
theorem Definition.reads_executable {d : Definition} (h : d.WellFormed) (hd : d.IsExecutable)
    (rest : List Token) :
  Reads Rule.executableDefinition d.layout.tokens d.settled rest
  := by
  cases d with
  | operation d =>
    have htokens := OperationDefinition.WellFormed.tokens_layout h
    have hkeyword : d.operation.text ≠ "fragment" := by cases d.operation <;> decide
    apply reads_ifNext_not
    · simp [Definition.layout, Definition.body, Definition.description?, htokens]
    · apply reads_ifNext_not
      · simp [Definition.layout, Definition.body, Definition.description?, htokens, hkeyword]
      · exact (OperationDefinition.WellFormed.reads h rest).map
  | fragment d =>
    have htokens := FragmentDefinition.WellFormed.tokens_layout h
    apply reads_ifNext_not
    · simp [Definition.layout, Definition.body, Definition.description?, htokens]
    · apply reads_ifNext
      · simp [Definition.layout, Definition.body, Definition.description?, htokens]
      · exact (FragmentDefinition.WellFormed.reads h rest).map
  | define description? d => exact hd.elim
  | directive d => exact hd.elim
  | extend d => exact hd.elim

end GraphQLText
