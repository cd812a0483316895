import GraphQLText.Proofs.Grammar.Value
import GraphQLText.Proofs.RoundTrip.Part
import GraphQLText.Proofs.Tree.Settled
import GraphQLText.Proofs.Tree.WellFormed

/-!
# Reading back values, directives and types

For each sort of part there are three facts about its layout: it is lexable, it begins with a
token of a certain kind, and the rule of the grammar reads its tokens as the settled part.
The third asks only that what follows does not go on with the part.
-/

namespace GraphQLText

open Grammar Layout

namespace Layout

/-- A name and what it names are read, if the latter is. -/
theorem reads_named {α β : Type} {make : String → α → β} {part : Rule α} {key : String}
    {ts rest : List Token} {a : α} (h : Reads part ts a rest) :
  Reads (Rule.named make part) (.name key :: .punctuator .colon :: ts) (make key a) rest
  := by
  apply (reads_name key).bind_cons
  apply (reads_punctuator .colon).bind_cons
  exact h.bind_pure

theorem lexable_named {name : String} {part : Layout} (hname : IsName name)
    (hpart : part.Lexable) :
  (named name part).Lexable
  := by
  apply lexable_append_led (by decide) _ hpart
  exact lexable_name hname

theorem tokens_named {name : String} {part : Layout} (hname : IsName name)
    (hpart : part.tokens ≠ []) :
  (named name part).tokens = .name name :: .punctuator .colon :: part.tokens
  := by
  rw [named, tokens_append, tokens_name hname, tokens_led hpart]
  rfl

end Layout

/-! ## Values -/

mutual

theorem Value.WellFormed.lexable {constant : Bool} {v : Value} (h : v.WellFormed constant) :
  v.layout.Lexable
  := by
  cases v with
  | var v =>
    exact lexable_append (lexable_mark (by decide)) (lexable_name h.2) (.inl (closed_mark _))
  | string s => exact lexable_literal s
  | float text => exact lexable_word (.inr (.inr h))
  | int text => exact lexable_word (.inr (.inl h))
  | boolean value =>
    cases value
    · exact @lexable_name "false" (by decide)
    · exact @lexable_name "true" (by decide)
  | enum name => exact lexable_name h.1
  | list items =>
    apply lexable_bracketed (by decide) (by decide)
    exact lexable_glue (by decide) (Value.AllWellFormed.lexable h)
  | object fields =>
    apply lexable_bracketed (by decide) (by decide)
    exact lexable_glue (by decide) (ObjectField.AllWellFormed.lexable h)
  | null => exact @lexable_name "null" (by decide)

theorem ObjectField.WellFormed.lexable {constant : Bool} {f : ObjectField}
    (h : f.WellFormed constant) :
  f.layout.Lexable
  := by
  obtain ⟨name, value⟩ := f
  obtain ⟨hname, hvalue⟩ := h
  exact lexable_named hname (Value.WellFormed.lexable hvalue)

theorem Value.AllWellFormed.lexable {constant : Bool} {vs : List Value}
    (h : Value.AllWellFormed constant vs) :
  ∀ part ∈ Value.layouts vs, part.Lexable
  := by
  cases vs with
  | nil => simp [Value.layouts]
  | cons v vs =>
    obtain ⟨hv, hvs⟩ := h
    rw [Value.layouts, List.forall_mem_cons]
    exact ⟨Value.WellFormed.lexable hv, Value.AllWellFormed.lexable hvs⟩

theorem ObjectField.AllWellFormed.lexable {constant : Bool} {fs : List ObjectField}
    (h : ObjectField.AllWellFormed constant fs) :
  ∀ part ∈ ObjectField.layouts fs, part.Lexable
  := by
  cases fs with
  | nil => simp [ObjectField.layouts]
  | cons f fs =>
    obtain ⟨hf, hfs⟩ := h
    rw [ObjectField.layouts, List.forall_mem_cons]
    exact ⟨ObjectField.WellFormed.lexable hf, ObjectField.AllWellFormed.lexable hfs⟩

end

namespace Value

theorem tokens_list (items : List Value) :
  (list items).layout.tokens
    = .punctuator .bracketL ::
      (items.flatMap (fun v => v.layout.tokens) ++ [.punctuator .bracketR])
  := by
  simp [layout, markTokens, tokens_glue, List.flatMap_map]

theorem tokens_object (fields : List ObjectField) :
  (object fields).layout.tokens
    = .punctuator .braceL ::
      (fields.flatMap (fun f => f.layout.tokens) ++ [.punctuator .braceR])
  := by
  simp [layout, markTokens, tokens_glue, List.flatMap_map]

theorem tokens_boolean (value : Bool) :
  (boolean value).layout.tokens = [.name (if value then "true" else "false")]
  := by
  cases value
  · exact @tokens_name "false" (by decide)
  · exact @tokens_name "true" (by decide)

theorem tokens_null :
  null.layout.tokens = [.name "null"]
  := @tokens_name "null" (by decide)

theorem tokens_var {v : Variable} (h : IsName v.name) :
  v.layout.tokens = [.punctuator .dollar, .name v.name]
  := by
  simp [Variable.layout, markTokens, tokens_name h]

variable {constant : Bool}

/-- A value does not begin with a bracket that closes. -/
theorem WellFormed.begins {v : Value} (h : v.WellFormed constant) :
  Begins (· ≠ .punctuator .bracketR) v.layout.tokens
  := by
  cases v with
  | var v => simp [layout, tokens_var h.2]
  | string s => simp [layout]
  | float text => simp [layout, tokens_float h]
  | int text => simp [layout, tokens_int h]
  | boolean value => simp [tokens_boolean]
  | enum name => simp [layout, tokens_name h.1]
  | list items => simp [tokens_list]
  | object fields => simp [tokens_object]
  | null => simp [tokens_null]

end Value

theorem ObjectField.WellFormed.tokens_layout {constant : Bool} {f : ObjectField}
    (h : f.WellFormed constant) :
  f.layout.tokens = .name f.name :: .punctuator .colon :: f.value.layout.tokens
  := by
  obtain ⟨name, value⟩ := f
  obtain ⟨hname, hvalue⟩ := h
  exact tokens_named hname hvalue.begins.ne_nil

/-- The name of an enum value is read as one. -/
theorem Grammar.Rule.valueOfName_of_isEnumName {text : String} (h : IsEnumName text) :
  valueOfName text = .enum text
  := by
  obtain ⟨-, htrue, hfalse, hnull⟩ := h
  unfold valueOfName
  split
  · contradiction
  · contradiction
  · contradiction
  · rfl

namespace Value

variable {constant : Bool}

/-- A list is read by a rule that reads its items. -/
theorem reads_list {value : Rule Value} {items : List Value}
    (hvalue : ∀ v ∈ items, ∀ us, Reads value v.layout.tokens v.settled us)
    (hitems : ∀ v ∈ items, v.WellFormed constant) (rest : List Token) :
  Reads (Rule.valueStep constant value) (list items).layout.tokens (list (items.map settled))
    rest
  := by
  have hreads : ReadsEach value (fun _ => True) (fun v => v.layout.tokens) settled items :=
    ⟨fun v hmem us _ => hvalue v hmem us, by simp⟩
  rw [tokens_list]
  apply (reads_next _).bind_cons
  apply Reads.bind
  · apply reads_whileNext hreads
    · intro v hmem
      exact (hitems v hmem).begins
    · trivial
    · simp
  · exact (reads_punctuator _).bind_pure

/-- An object is read by a rule that reads the values of its fields. -/
theorem reads_object {value : Rule Value} {fields : List ObjectField}
    (hvalue : ∀ f ∈ fields, ∀ us, Reads value f.value.layout.tokens f.value.settled us)
    (hfields : ∀ f ∈ fields, f.WellFormed constant) (rest : List Token) :
  Reads (Rule.valueStep constant value) (object fields).layout.tokens
    (object (fields.map ObjectField.settled)) rest
  := by
  have hreads : ReadsEach (Rule.named ObjectField.mk value) (fun _ => True)
      (fun f => f.layout.tokens) ObjectField.settled fields := by
    constructor
    · intro f hmem us _
      rw [(hfields f hmem).tokens_layout, ObjectField.settled_eq]
      exact reads_named (hvalue f hmem us)
    · simp
  rw [tokens_object]
  apply (reads_next _).bind_cons
  apply Reads.bind
  · apply reads_whileNext hreads
    · intro f hmem
      simp [(hfields f hmem).tokens_layout]
    · trivial
    · simp
  · exact (reads_punctuator _).bind_pure

/-- A value is read whatever follows it. -/
theorem WellFormed.reads {v : Value} (h : v.WellFormed constant) (rest : List Token) :
  Reads (Rule.value constant) v.layout.tokens v.settled rest
  := by
  apply @reads_nested _ Value _ _ (fun v => v.layout.tokens) settled (fun _ _ => True)
    (fun v => v.WellFormed constant)
  · intro value v hv hvalue us _
    cases v with
    | var v =>
      obtain ⟨rfl, hname⟩ := hv
      rw [layout, tokens_var hname]
      exact (reads_next _).bind_cons (reads_name v.name).bind_pure
    | string s =>
      rw [layout, tokens_literal, settled]
      exact (reads_next _).bind_cons reads_pure
    | float text =>
      rw [layout, tokens_float hv]
      exact (reads_next _).bind_cons reads_pure
    | int text =>
      rw [layout, tokens_int hv]
      exact (reads_next _).bind_cons reads_pure
    | boolean value =>
      rw [tokens_boolean]
      cases value
      · exact (reads_next _).bind_cons reads_pure
      · exact (reads_next _).bind_cons reads_pure
    | enum name =>
      have hname : (enum name).settled = Rule.valueOfName name :=
        (Rule.valueOfName_of_isEnumName hv).symm
      rw [layout, tokens_name hv.1, hname]
      exact (reads_next _).bind_cons reads_pure
    | list items =>
      rw [Value.WellFormed, allWellFormed_iff] at hv
      rw [settled, settledAll_eq_map]
      apply reads_list _ hv
      intro v hmem us
      apply hvalue v (hv v hmem) _ us trivial
      have hle := @length_le_of_mem _ (fun v => v.layout.tokens) _ _ hmem
      rw [tokens_list, List.length_cons, List.length_append]
      omega
    | object fields =>
      rw [Value.WellFormed, ObjectField.allWellFormed_iff] at hv
      rw [settled, ObjectField.settledAll_eq_map]
      apply reads_object _ hv
      intro f hmem us
      apply hvalue f.value (ObjectField.wellFormed_iff.mp (hv f hmem)).2 _ us trivial
      have hle := @length_le_of_mem _ (fun f => f.layout.tokens) _ _ hmem
      rw [(hv f hmem).tokens_layout, List.length_cons, List.length_cons] at hle
      rw [tokens_object, List.length_cons, List.length_append]
      omega
    | null =>
      rw [tokens_null]
      exact (reads_next _).bind_cons reads_pure
  · exact h
  · trivial

end Value

/-! ## Arguments and directives -/

theorem Argument.WellFormed.readAs {constant : Bool} {a : Argument} (h : a.WellFormed constant) :
  a.layout.ReadAs (Rule.argument constant) a.settled
  := by
  have htokens : a.layout.tokens = .name a.name :: .punctuator .colon :: a.value.layout.tokens :=
    tokens_named h.name h.value.begins.ne_nil
  constructor
  · exact lexable_named h.name h.value.lexable
  · simp [htokens, Token.Opens]
  · intro rest _
    rw [htokens]
    exact reads_named (h.value.reads rest)

/-- The arguments of a field or directive. -/
def Layout.passed (args : List Argument) : Layout := parts "(" Argument.layout args ")"

namespace Layout

variable {constant : Bool} {args : List Argument}

theorem lexable_passed (h : ∀ a ∈ args, a.WellFormed constant) :
  (passed args).Lexable
  := lexable_parts (by decide) (by decide) fun a ha => (h a ha).readAs.lexable

theorem opening_passed (args : List Argument) :
  (passed args).Opening
  := opening_enclosed (by decide) _ _

theorem avoids_passed (h : ∀ a ∈ args, a.WellFormed constant) {ps : List Punctuator}
    (hps : .parenL ∉ ps) :
  Avoids ps (passed args).tokens
  := avoids_parts (by rfl) (by rfl) (fun a ha => (h a ha).readAs.begins.ne_nil) hps

theorem reads_passed (h : ∀ a ∈ args, a.WellFormed constant) {rest : List Token}
    (hrest : Avoids [.parenL] rest) :
  Reads (Rule.group .parenL .parenR (Rule.argument constant)) (passed args).tokens
    (args.map Argument.settled) rest
  := reads_parts (by rfl) (by rfl) (.inl rfl) (fun a ha => (h a ha).readAs) hrest

end Layout

namespace Directive

variable {constant : Bool} {d : Directive}

theorem layout_eq (d : Directive) :
  d.layout = led "@" (word d.name) ++ passed d.arguments
  := rfl

theorem WellFormed.lexable (h : d.WellFormed constant) :
  d.layout.Lexable
  := by
  rw [layout_eq]
  apply lexable_append
  · exact lexable_led (by decide) (lexable_name h.name)
  · exact lexable_passed h.arguments
  · exact .inr (opening_passed _)

theorem WellFormed.tokens_layout (h : d.WellFormed constant) :
  d.layout.tokens = .punctuator .atSign :: .name d.name :: (passed d.arguments).tokens
  := by
  have hname := tokens_name h.name
  rw [layout_eq, tokens_append, tokens_led (by simp [hname]), hname]
  rfl

theorem WellFormed.reads (h : d.WellFormed constant) {rest : List Token}
    (hrest : Avoids [.parenL] rest) :
  Reads (Rule.directive constant) d.layout.tokens d.settled rest
  := by
  rw [h.tokens_layout]
  apply (reads_punctuator .atSign).bind_cons
  apply (reads_name d.name).bind_cons
  apply Reads.bind_pure
  exact reads_passed h.arguments hrest

end Directive

namespace Layout

variable {constant : Bool} {ds : List Directive}

theorem lexable_applied (h : ∀ d ∈ ds, d.WellFormed constant) :
  (applied ds).Lexable
  := by
  apply lexable_glue (by decide)
  exact List.forall_mem_map.mpr fun d hd => (h d hd).lexable

/-- Directives may follow anything. -/
theorem lexable_append_applied {l : Layout} (hl : l.Lexable)
    (h : ∀ d ∈ ds, d.WellFormed constant) :
  (l ++ led " " (applied ds)).Lexable
  := lexable_append_led (by decide) hl (lexable_applied h)

theorem tokens_applied (ds : List Directive) :
  (applied ds).tokens = ds.flatMap fun d => d.layout.tokens
  := by
  rw [applied, tokens_glue (by rfl), List.flatMap_map]

theorem tokens_applied_cons {d : Directive} (hd : d.WellFormed constant) (ds : List Directive) :
  (applied (d :: ds)).tokens
    = .punctuator .atSign :: .name d.name :: ((passed d.arguments).tokens ++ (applied ds).tokens)
  := by
  rw [tokens_applied, List.flatMap_cons, hd.tokens_layout, ← tokens_applied]
  rfl

/-- Directives avoid the punctuators other than the one that each begins with. -/
theorem avoids_applied {ps : List Punctuator} (h : ∀ d ∈ ds, d.WellFormed constant)
    (hps : .atSign ∉ ps) :
  Avoids ps (applied ds).tokens
  := by
  cases ds with
  | nil => exact avoids_nil
  | cons d ds =>
    rw [tokens_applied_cons (h d List.mem_cons_self)]
    exact avoids_punctuator hps

/-- Directives are read back, if what follows is not one more of them or the arguments of the
last. -/
theorem reads_applied (h : ∀ d ∈ ds, d.WellFormed constant) {rest : List Token}
    (hrest : Avoids [.atSign, .parenL] rest) :
  Reads (Rule.directives constant) (applied ds).tokens (ds.map Directive.settled) rest
  := by
  rw [tokens_applied]
  apply @reads_whileNext _ _ _ (Avoids [.parenL])
  · constructor
    · intro d hd us hus
      exact (h d hd).reads hus
    · intro d hd us
      simp [(h d hd).tokens_layout]
  · intro d hd
    simp [(h d hd).tokens_layout]
  · exact hrest.mono (by decide)
  · exact hrest.not_begins (by simp)

end Layout

/-! ## Type references -/

namespace TypeRef

theorem WellFormed.lexable {t : TypeRef} (h : t.WellFormed) :
  t.layout.Lexable
  := by
  induction t with
  | named t => exact lexable_name h
  | list item ih => exact lexable_enclosed (by decide) (by decide) (ih h)
  | nonNull t ih => exact lexable_enclosed (by decide) (by decide) (ih h.2)

theorem WellFormed.tokens_ne_nil {t : TypeRef} (h : t.WellFormed) :
  t.layout.tokens ≠ []
  := by
  induction t with
  | named t => simp [layout, NamedType.layout, tokens_name h]
  | list item ih => simp [layout, tokens_enclosed (ih h), markTokens]
  | nonNull t ih => simp [layout, tokens_enclosed (ih h.2), markTokens]

theorem tokens_list {item : TypeRef} (h : item.WellFormed) :
  (list item).layout.tokens
    = .punctuator .bracketL :: (item.layout.tokens ++ [.punctuator .bracketR])
  := by
  rw [layout, tokens_enclosed h.tokens_ne_nil]
  rfl

theorem tokens_nonNull {t : TypeRef} (h : t.WellFormed) :
  (nonNull t).layout.tokens = t.layout.tokens ++ [.punctuator .bang]
  := by
  rw [layout, tokens_enclosed h.tokens_ne_nil]
  rfl

/-- A type that is not marked as non-null is read by a rule that reads the type in it. -/
theorem reads_nullable {type : Rule TypeRef} {t : TypeRef} (h : t.WellFormed)
    (hnullable : ∀ u, t ≠ .nonNull u)
    (htype : ∀ item, t = .list item → ∀ us, Avoids [.bang] us →
      Reads type item.layout.tokens item us)
    (rest : List Token) :
  Reads (Rule.nullable type) t.layout.tokens t rest
  := by
  cases t with
  | named t =>
    rw [layout, NamedType.layout, tokens_name h]
    apply reads_ifNext_not
    · simp
    · exact (reads_name t.name).bind_pure.bind_pure
  | list item =>
    rw [@tokens_list item h]
    apply reads_ifNext
    · simp
    · apply (reads_punctuator .bracketL).bind_cons
      apply Reads.bind
      · apply htype item rfl
        simp
      · exact (reads_punctuator .bracketR).bind_pure
  | nonNull t => exact absurd rfl (hnullable t)

/-- A type reference is read back, if no mark of a non-null type follows it. -/
theorem WellFormed.reads {t : TypeRef} (h : t.WellFormed) {rest : List Token}
    (hrest : Avoids [.bang] rest) :
  Reads Rule.type t.layout.tokens t rest
  := by
  apply @reads_nested _ TypeRef _ _ (fun t => t.layout.tokens) id (fun _ us => Avoids [.bang] us)
    TypeRef.WellFormed _ _ h hrest
  intro type t ht htype us hus
  have hlist : ∀ item : TypeRef, item.WellFormed →
      (list item).layout.tokens.length ≤ t.layout.tokens.length →
      ∀ us, Avoids [.bang] us → Reads type item.layout.tokens item us := by
    intro item hitem hle
    apply htype item hitem
    rw [tokens_list hitem, List.length_cons, List.length_append] at hle
    omega
  by_cases hnull : ∃ u, t = .nonNull u
  · obtain ⟨u, rfl⟩ := hnull
    obtain ⟨hu, hwf⟩ := ht
    rw [tokens_nonNull hwf] at hlist ⊢
    apply Reads.bind
    · apply reads_nullable hwf hu
      rintro item rfl
      apply hlist item hwf
      simp
    · apply reads_ifNext
      · simp
      · exact (reads_punctuator .bang).bind_pure
  · have hnullable : ∀ u, t ≠ .nonNull u := fun u heq => hnull ⟨u, heq⟩
    rw [← List.append_nil t.layout.tokens]
    apply Reads.bind
    · apply reads_nullable ht hnullable
      rintro item rfl
      exact hlist item ht le_rfl
    · apply reads_ifNext_not
      · exact hus.not_begins List.mem_cons_self
      · exact reads_pure

end TypeRef

/-! ## Typed variables

What a variable of an operation and an input value have in common: after a colon the type,
then the default and the directives.
-/

namespace Layout

variable {t : TypeRef} {v? : Option Value} {ds : List Directive}

theorem avoids_default (h : ∀ v ∈ v?, v.WellFormed true) {ps : List Punctuator}
    (hps : .equals ∉ ps) :
  Avoids ps (led " = " (v?.elim [] Value.layout)).tokens
  := by
  cases v? with
  | none => exact avoids_nil
  | some v =>
    rw [Option.elim_some, tokens_led (h v rfl).begins.ne_nil]
    exact avoids_punctuator hps

theorem reads_default (h : ∀ v ∈ v?, v.WellFormed true) {rest : List Token}
    (hrest : Avoids [.equals] rest) :
  Reads (Rule.led (.punctuator .equals) (Rule.value true))
    (led " = " (v?.elim [] Value.layout)).tokens (v?.map Value.settled) rest
  := by
  cases v? with
  | none => exact reads_led_none (hrest.not_begins List.mem_cons_self)
  | some v =>
    rw [Option.elim_some, tokens_led (h v rfl).begins.ne_nil]
    exact reads_led ((h v rfl).reads rest)

theorem lexable_typed {head : Layout} (hhead : head.Lexable) (ht : t.WellFormed)
    (hv : ∀ v ∈ v?, v.WellFormed true) (hds : ∀ d ∈ ds, d.WellFormed true) :
  (head ++ led ": " t.layout ++ led " = " (v?.elim [] Value.layout) ++
    led " " (applied ds)).Lexable
  := by
  apply lexable_append_applied _ hds
  apply lexable_append_led (by decide) _ (lexable_elim fun v h => (hv v h).lexable)
  exact lexable_append_led (by decide) hhead ht.lexable

theorem tokens_typed (head : Layout) (ht : t.WellFormed) (v? : Option Value)
    (ds : List Directive) :
  (head ++ led ": " t.layout ++ led " = " (v?.elim [] Value.layout) ++
      led " " (applied ds)).tokens
    = head.tokens ++ .punctuator .colon :: (t.layout.tokens ++
      ((led " = " (v?.elim [] Value.layout)).tokens ++ (applied ds).tokens))
  := by
  simp [tokens_led ht.tokens_ne_nil, markTokens]

theorem reads_typed {α : Type} {make : TypeRef → Option Value → List Directive → α}
    (ht : t.WellFormed) (hv : ∀ v ∈ v?, v.WellFormed true) (hds : ∀ d ∈ ds, d.WellFormed true)
    {rest : List Token} (hrest : Avoids continuing rest) :
  Reads (do
      Rule.punctuator .colon
      let type ← Rule.type
      let default? ← Rule.led (.punctuator .equals) (Rule.value true)
      return make type default? (← Rule.directives true))
    (.punctuator .colon :: (t.layout.tokens ++
      ((led " = " (v?.elim [] Value.layout)).tokens ++ (applied ds).tokens)))
    (make t (v?.map Value.settled) (ds.map Directive.settled)) rest
  := by
  have hds' : Avoids [.bang, .equals] ((applied ds).tokens ++ rest) :=
    (avoids_applied hds (by decide)).append (hrest.mono (by decide))
  have hv' : Avoids [.bang]
      ((led " = " (v?.elim [] Value.layout)).tokens ++ ((applied ds).tokens ++ rest)) :=
    (avoids_default hv (by decide)).append (hds'.mono (by decide))
  apply (reads_punctuator .colon).bind_cons
  apply Reads.bind
  · apply ht.reads
    simpa using hv'
  · apply Reads.bind
    · apply reads_default hv
      exact hds'.mono (by decide)
    · apply Reads.bind_pure
      exact reads_applied hds (hrest.mono (by decide))

end Layout

end GraphQLText
