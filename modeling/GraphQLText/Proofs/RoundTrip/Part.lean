import GraphQLText.Proofs.Grammar.Rule
import GraphQLText.Proofs.Layout.Tokens

/-!
# Parts that are read back

`ReadAs` is what there is to say about the layout of a part: it is lexable, it begins with a
token that nothing before it goes on with, and a rule of the grammar reads its tokens as a
given tree, if what follows does not go on with the part.  Parts that are read back may be put
in brackets, any number of them, and are read back by a rule for the group.
-/

namespace GraphQLText

open Grammar

namespace Layout

/-! ## Words -/

theorem lexable_name {text : String} (h : IsName text) :
  (word text).Lexable
  := lexable_word (.inl h)

/-- A name is a single token. -/
theorem tokens_name {text : String} (h : IsName text) :
  tokens (word text) = [.name text]
  := by
  have hne : text ≠ "" := by
    rintro rfl
    exact absurd h (by decide)
  rw [tokens_word hne, Token.ofWord_of_isName h]

theorem tokens_int {text : String} (h : IsIntValue text) :
  tokens (word text) = [.int text]
  := by
  have hne : text ≠ "" := by
    rintro rfl
    obtain ⟨c, cs, hcs, -⟩ := h.exists_cons
    contradiction
  rw [tokens_word hne, Token.ofWord_of_isIntValue h]

theorem tokens_float {text : String} (h : IsFloatValue text) :
  tokens (word text) = [.float text]
  := by
  have hne : text ≠ "" := by
    rintro rfl
    obtain ⟨whole, fraction, exponent, htext, -, -, -, hpart⟩ := h
    have hnil := (List.nil_eq_append_iff.mp htext).2
    contradiction
  rw [tokens_word hne, Token.ofWord_of_isFloatValue h]

/-- A part that is always between two marks. -/
theorem lexable_bracketed {lead close : String} {part : Layout} (hlead : lead ∈ marks)
    (hclose : IsDelimiting close) (hpart : part.Lexable) :
  (mark lead ++ part ++ mark close).Lexable
  := by
  apply lexable_append _ (lexable_mark hclose.1) (.inr (opening_mark hclose))
  exact lexable_append (lexable_mark hlead) hpart (.inl (closed_mark lead))

end Layout

/-! ## Parts -/

namespace Grammar

/-- The punctuators with which a part that has been read may go on. -/
def continuing : List Punctuator :=
  [.bang, .ampersand, .parenL, .colon, .equals, .atSign, .braceL, .pipe]

/-- Whether a token begins a new part: a name, a string, a dollar sign or a spread. -/
def Token.Opens : Token → Prop
  | .name _ | .string _ => True
  | .punctuator p => p = .dollar ∨ p = .spread
  | .int _ | .float _ => False

theorem Begins.avoids_continuing {ts : List Token} (h : Begins Token.Opens ts) :
  Avoids continuing ts
  := by
  obtain ⟨t, ht, hopens⟩ := h
  intro p hp hhead
  rw [Option.mem_def, hhead] at ht
  cases ht
  rcases hopens with rfl | rfl
  · exact absurd hp (by decide)
  · exact absurd hp (by decide)

/-- The items of a list are shorter than the list. -/
theorem length_le_of_mem {ι : Type} {tok : ι → List Token} {x : ι} {xs : List ι}
    (h : x ∈ xs) :
  (tok x).length ≤ (xs.flatMap tok).length
  := by
  rw [List.flatMap_def]
  exact (List.sublist_flatten_of_mem (List.mem_map_of_mem h)).length_le

end Grammar

namespace Layout

/-- A layout is read back by a rule as the given tree. -/
structure ReadAs {α : Type} (l : Layout) (r : Rule α) (a : α) : Prop where
  lexable : l.Lexable
  begins : Begins Token.Opens l.tokens
  reads : ∀ rest, Avoids continuing rest → Reads r l.tokens a rest

/-! ## Groups of parts -/

section Groups

variable {α ι : Type} {item : Rule α} {layout : ι → Layout} {val : ι → α} {xs : List ι}
  {lead close : String} {before after : Punctuator}

/-- The parts between two marks, which are left out when there are none. -/
def parts (lead : String) (layout : ι → Layout) (xs : List ι) (close : String) : Layout :=
  enclosed lead (glue ", " (xs.map layout)) close

theorem lexable_parts (hlead : lead ∈ marks) (hclose : IsDelimiting close)
    (h : ∀ x ∈ xs, (layout x).Lexable) :
  (parts lead layout xs close).Lexable
  := by
  apply lexable_enclosed hlead hclose
  apply lexable_glue (by decide)
  exact List.forall_mem_map.mpr h

/-- A group that is not empty is its parts between two punctuators. -/
theorem tokens_parts_cons (hlead : markTokens lead = [.punctuator before])
    (hclose : markTokens close = [.punctuator after]) {x : ι} (hx : (layout x).tokens ≠ []) :
  (parts lead layout (x :: xs) close).tokens
    = .punctuator before ::
      ((x :: xs).flatMap (fun x => (layout x).tokens) ++ [.punctuator after])
  := by
  have hpart : (tokens (glue ", " ((x :: xs).map layout))) ≠ [] := by
    simp [tokens_glue, markTokens, hx]
  rw [parts, tokens_enclosed hpart, hlead, hclose, tokens_glue (by rfl), List.flatMap_map,
    List.singleton_append]

theorem tokens_parts (hlead : markTokens lead = [.punctuator before])
    (hclose : markTokens close = [.punctuator after]) (h : ∀ x ∈ xs, (layout x).tokens ≠ []) :
  (parts lead layout xs close).tokens
    = grouped before after (xs.map fun x => (layout x).tokens)
  := by
  cases xs with
  | nil => rfl
  | cons x xs =>
    rw [tokens_parts_cons hlead hclose (h x List.mem_cons_self), List.flatMap_def]
    rfl

/-- A group avoids the punctuators other than the one that it begins with. -/
theorem avoids_parts (hlead : markTokens lead = [.punctuator before])
    (hclose : markTokens close = [.punctuator after]) (h : ∀ x ∈ xs, (layout x).tokens ≠ [])
    {ps : List Punctuator} (hps : before ∉ ps) :
  Avoids ps (parts lead layout xs close).tokens
  := by
  cases xs with
  | nil => exact avoids_nil
  | cons x xs =>
    rw [tokens_parts_cons hlead hclose (h x List.mem_cons_self)]
    exact avoids_punctuator hps

/-- A part is shorter than the group that it is in. -/
theorem length_lt_parts (hlead : markTokens lead = [.punctuator before])
    (hclose : markTokens close = [.punctuator after]) (h : ∀ x ∈ xs, (layout x).tokens ≠ [])
    {x : ι} (hx : x ∈ xs) :
  (layout x).tokens.length < (parts lead layout xs close).tokens.length
  := by
  have hle := @length_le_of_mem _ (fun x => (layout x).tokens) _ _ hx
  rw [tokens_parts hlead hclose h, grouped, if_neg (by simp [List.ne_nil_of_mem hx]),
    ← List.flatMap_def, List.length_cons, List.length_append]
  omega

/-- Parts that are read back make a list of which each is read. -/
theorem readsEach_of_readAs (h : ∀ x ∈ xs, (layout x).ReadAs item (val x)) :
  ReadsEach item (Avoids continuing) (fun x => (layout x).tokens) val xs
  := by
  constructor
  · intro x hx
    exact (h x hx).reads
  · intro x hx us
    exact ((h x hx).begins.append us).avoids_continuing

/-- The punctuators that close a group. -/
def IsClosing (p : Punctuator) : Prop := p = .parenR ∨ p = .braceR

/-- Parts that are read back do not begin like the end of their group. -/
theorem begins_of_readAs (hafter : IsClosing after)
    (h : ∀ x ∈ xs, (layout x).ReadAs item (val x)) :
  ∀ x ∈ xs, Begins (· ≠ .punctuator after) (layout x).tokens
  := by
  intro x hx
  apply (h x hx).begins.mono
  rintro t ht rfl
  rcases hafter with rfl | rfl
  · simp [Token.Opens] at ht
  · simp [Token.Opens] at ht

theorem avoids_closing (hafter : IsClosing after) (us : List Token) :
  Avoids continuing (.punctuator after :: us)
  := by
  rcases hafter with rfl | rfl
  · simp [continuing]
  · simp [continuing]

/-- A group of parts that are read back is read back. -/
theorem reads_parts (hlead : markTokens lead = [.punctuator before])
    (hclose : markTokens close = [.punctuator after]) (hafter : IsClosing after)
    (h : ∀ x ∈ xs, (layout x).ReadAs item (val x)) {rest : List Token}
    (hrest : Avoids [before] rest) :
  Reads (Rule.group before after item) (parts lead layout xs close).tokens (xs.map val) rest
  := by
  rw [tokens_parts hlead hclose fun x hx => (h x hx).begins.ne_nil]
  apply reads_group (readsEach_of_readAs h) (begins_of_readAs hafter h)
  · exact avoids_closing hafter
  · exact hrest

/-- A block of parts that are read back is read back. -/
theorem reads_block_parts (hlead : markTokens lead = [.punctuator before])
    (hclose : markTokens close = [.punctuator after]) (hafter : IsClosing after)
    (h : ∀ x ∈ xs, (layout x).ReadAs item (val x)) (hne : xs ≠ []) (rest : List Token) :
  Reads (Rule.block before after item) (parts lead layout xs close).tokens (xs.map val) rest
  := by
  rw [tokens_parts hlead hclose fun x hx => (h x hx).begins.ne_nil, grouped,
    if_neg (by simpa using hne), ← List.flatMap_def]
  apply reads_block (readsEach_of_readAs h) (begins_of_readAs hafter h) hne
  exact avoids_closing hafter

end Groups

end Layout

end GraphQLText
