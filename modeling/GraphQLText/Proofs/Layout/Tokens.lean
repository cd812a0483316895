import GraphQLText.Layout.Basic
import GraphQLText.Proofs.Grammar.Lexer
import Mathlib.Data.List.Chain

/-!
# The tokens of a layout

Every piece of a layout stands for tokens of its own: a mark for those of a table, a word and
a literal for one each.  In a layout that is `Lexable` all words are tokens, and a word or
literal is followed by a mark that it does not go on into; the tokens of its text are then
the tokens of its pieces (`tokens_text`), none merged with the next and none split.
-/

namespace GraphQLText

open Grammar

/-! ## The tokens of a piece -/

/-- Whether a character tells a floating point number from an integer. -/
def Grammar.isFloatMark (c : Char) : Bool := c = '.' ∨ c = 'e' ∨ c = 'E'

/-- The token that a word is. -/
def Grammar.Token.ofWord (text : String) : Token :=
  if text.toList.head?.any isNameStart then .name text
  else if text.toList.any isFloatMark then .float text
  else .int text

/-- The tokens of the fixed texts of the printing rules. -/
def markTokens : String → List Token
  | "\x7b " | " \x7b " | "\x7b" => [.punctuator .braceL]
  | " \x7d" | "\x7d" => [.punctuator .braceR]
  | "(" => [.punctuator .parenL]
  | ")" => [.punctuator .parenR]
  | "[" => [.punctuator .bracketL]
  | "]" => [.punctuator .bracketR]
  | "!" => [.punctuator .bang]
  | "$" => [.punctuator .dollar]
  | "@" => [.punctuator .atSign]
  | "..." => [.punctuator .spread]
  | ": " => [.punctuator .colon]
  | " = " => [.punctuator .equals]
  | " & " => [.punctuator .ampersand]
  | " | " => [.punctuator .pipe]
  | " on " => [.name "on"]
  | " implements " => [.name "implements"]
  | "fragment " => [.name "fragment"]
  | "extend " => [.name "extend"]
  | "scalar " => [.name "scalar"]
  | "type " => [.name "type"]
  | "interface " => [.name "interface"]
  | "union " => [.name "union"]
  | "enum " => [.name "enum"]
  | "input " => [.name "input"]
  | "directive @" => [.name "directive", .punctuator .atSign]
  | _ => []

/-- The fixed texts of the printing rules, and the empty one, which stands where a rule has
none. -/
def marks : List String :=
  ["", " ", ", ", "\n", "\n\n", "\x7b ", " \x7b ", "\x7b", " \x7d", "\x7d", "(", ")", "[", "]",
    "!", "$", "@", "...", ": ", " = ", " & ", " | ", " on ", " implements ", "fragment ",
    "extend ", "scalar ", "type ", "interface ", "union ", "enum ", "input ", "directive @"]

/-- The tokens of a piece. -/
def Piece.tokens : Piece → List Token
  | .mark text => markTokens text
  | .word text => [.ofWord text]
  | .literal s => [.string s.settled]

/-- The tokens of all pieces. -/
def Layout.tokens (l : Layout) : List Token := l.flatMap Piece.tokens

/-- Whether a piece is a mark. -/
def Piece.isMark : Piece → Bool
  | .mark _ => true
  | _ => false

/-- Whether a piece is a mark that no token before it goes on into. -/
def Piece.delimits : Piece → Bool
  | .mark text => text.toList.head?.any isDelimiter
  | _ => false

/-- The pieces that are read as their tokens: the known marks, the words that are names or
numbers, and all literals. -/
def Piece.Lexes : Piece → Prop
  | .mark text => text ∈ marks
  | .word text => IsName text ∨ IsIntValue text ∨ IsFloatValue text
  | .literal _ => True

theorem Grammar.Token.ofWord_of_isName {text : String} (h : IsName text) :
  ofWord text = .name text
  := by
  obtain ⟨c, rest, htext, hc, -⟩ := h
  simp [ofWord, htext, hc]

/-- A text whose first part is the whole part of a number does not begin like a name. -/
theorem not_nameStart_of_integerPart {whole rest : List Char} (h : IntegerPart whole) :
  (whole ++ rest).head?.any isNameStart = false
  := by
  obtain ⟨c, cs, rfl, hc⟩ := h.exists_cons
  rcases hc with rfl | hc
  · rfl
  · simpa using not_nameStart_of_isDigit hc

theorem not_isFloatMark_of_isDigit {c : Char} (h : c.isDigit) :
  isFloatMark c = false
  := by
  simp only [isFloatMark, decide_eq_false_iff_not, not_or]
  refine ⟨?_, ?_, ?_⟩ <;>
  · rintro rfl
    simp at h

theorem Grammar.Token.ofWord_of_isIntValue {text : String} (h : IsIntValue text) :
  ofWord text = .int text
  := by
  have hstart : text.toList.head?.any isNameStart = false := by
    simpa using @not_nameStart_of_integerPart _ [] h
  have hmark : text.toList.any isFloatMark = false := by
    obtain ⟨sign, ds, htext, hsign, ⟨-, hds⟩, -⟩ := h
    rw [htext, List.any_append, Bool.or_eq_false_iff]
    constructor
    · rcases hsign with rfl | rfl
      · rfl
      · rfl
    · apply List.any_eq_false.mpr
      intro c hc
      simp [not_isFloatMark_of_isDigit (hds c hc)]
  simp [ofWord, hstart, hmark]

theorem Grammar.Token.ofWord_of_isFloatValue {text : String} (h : IsFloatValue text) :
  ofWord text = .float text
  := by
  obtain ⟨whole, fraction, exponent, htext, hwhole, hfraction, hexponent, hne⟩ := h
  have hstart : text.toList.head?.any isNameStart = false := by
    rw [htext]
    exact not_nameStart_of_integerPart hwhole
  have hmark : text.toList.any isFloatMark = true := by
    rw [htext, List.any_append, List.any_append]
    rcases hfraction with rfl | ⟨ds, rfl, -⟩
    · rcases hexponent with rfl | ⟨e, sign, ds, rfl, rfl | rfl, -⟩
      · contradiction
      · simp [isFloatMark]
      · simp [isFloatMark]
    · simp [isFloatMark]
  simp [ofWord, hstart, hmark]

/-- A mark is read as its tokens, whatever follows it. -/
theorem tokens_mark {text : String} (h : text ∈ marks) (rest : List Char) :
  Grammar.tokens (text.toList ++ rest) = (Grammar.tokens rest).map (markTokens text ++ ·)
  := by
  simp only [marks, List.mem_cons, List.not_mem_nil, or_false] at h
  rcases h with rfl | rfl | rfl | rfl | rfl | rfl | rfl | rfl | rfl | rfl | rfl | rfl | rfl | rfl |
    rfl | rfl | rfl | rfl | rfl | rfl | rfl | rfl | rfl | rfl | rfl | rfl | rfl | rfl | rfl |
    rfl | rfl | rfl | rfl
  all_goals simp [tokens_cons, token?, isIgnored, isWhiteSpace, isLineEnd, Punctuator.ofChar?,
    isNameStart, isNameContinue, markTokens, Function.comp_def]

/-- A piece is read as its tokens, if the text after it does not go on with it. -/
theorem Piece.tokens_append {p : Piece} (hp : p.Lexes) {rest : List Char}
    (hrest : p.isMark ∨ Delimited rest) :
  Grammar.tokens (p.text.toList ++ rest) = (Grammar.tokens rest).map (p.tokens ++ ·)
  := by
  cases p with
  | mark text => exact tokens_mark hp rest
  | word text =>
    have hrest' : Delimited rest := by simpa [isMark] using hrest
    rcases hp with h | h | h
    · rw [Piece.tokens, Token.ofWord_of_isName h]
      exact tokens_of_token? (token?_name h hrest')
    · rw [Piece.tokens, Token.ofWord_of_isIntValue h]
      exact tokens_of_token? (token?_int h hrest')
    · rw [Piece.tokens, Token.ofWord_of_isFloatValue h]
      exact tokens_of_token? (token?_float h hrest')
  | literal s =>
    have hrest' : Delimited rest := by simpa [isMark] using hrest
    have htext : (Piece.literal s).text.toList = s.chars := by
      simp [Piece.text, StringValue.text]
    rw [htext]
    exact tokens_of_token? (token?_literal s hrest')

/-! ## Layouts that are read as their tokens -/

namespace Layout

/-- Each piece is read as its tokens, and a word or literal is followed by a mark that it
does not go on into. -/
structure Lexable (l : Layout) : Prop where
  lexes : ∀ p ∈ l, p.Lexes
  apart : l.IsChain fun p q => p.isMark ∨ q.delimits

/-- A layout that may stand directly behind a word. -/
def Opening (l : Layout) : Prop := ∀ p ∈ l.head?, p.delimits

/-- A layout that does not end with a word or literal. -/
def Closed (l : Layout) : Prop := ∀ p ∈ l.getLast?, p.isMark

theorem text_toList (l : Layout) :
  l.text.toList = l.flatMap fun p => p.text.toList
  := by
  simp only [text, String.toList_join, List.flatMap_map]

theorem delimited_of_opening {l : Layout} (h : l.Opening) :
  Delimited l.text.toList
  := by
  rw [text_toList]
  cases l with
  | nil => exact delimited_nil
  | cons p l =>
    have hp : p.delimits := h p rfl
    cases p with
    | mark text =>
      cases hcs : text.toList with
      | nil => simp [Piece.delimits, hcs] at hp
      | cons c cs =>
        have hc : isDelimiter c := by simpa [Piece.delimits, hcs] using hp
        simp only [List.flatMap_cons, Piece.text, hcs, List.cons_append]
        exact delimited_cons hc
    | word text => contradiction
    | literal s => contradiction

/-- The tokens of the text of a layout are the tokens of its pieces. -/
theorem tokens_text {l : Layout} (h : l.Lexable) :
  Grammar.tokens l.text.toList = some l.tokens
  := by
  induction l with
  | nil => exact tokens_nil
  | cons p l ih =>
    obtain ⟨hlexes, hapart⟩ := h
    obtain ⟨hhead, htail⟩ := List.isChain_cons.mp hapart
    have hl := ih ⟨fun q hq => hlexes q (List.mem_cons_of_mem p hq), htail⟩
    have hrest : p.isMark ∨ Delimited (text l).toList := by
      by_cases hmark : p.isMark
      · exact .inl hmark
      · right
        apply delimited_of_opening
        intro q hq
        exact (hhead q hq).resolve_left hmark
    have htext : (text (p :: l)).toList = p.text.toList ++ (text l).toList := by
      simp only [text_toList, List.flatMap_cons]
    rw [htext, Piece.tokens_append (hlexes p List.mem_cons_self) hrest, hl]
    rfl

/-! ## Building lexable layouts -/

@[simp]
theorem opening_nil :
  Opening []
  := by simp [Opening]

theorem lexable_nil :
  Lexable []
  := ⟨by simp, .nil⟩

/-- A part that may be missing. -/
theorem lexable_elim {α : Type} {layout : α → Layout} {a? : Option α}
    (h : ∀ a ∈ a?, (layout a).Lexable) :
  Lexable (a?.elim [] layout)
  := by
  cases a? with
  | none => exact lexable_nil
  | some a => exact h a rfl

theorem lexable_append {l m : Layout} (hl : l.Lexable) (hm : m.Lexable)
    (h : l.Closed ∨ m.Opening) :
  (l ++ m).Lexable
  := by
  constructor
  · intro p hp
    rcases List.mem_append.mp hp with hp | hp
    · exact hl.lexes p hp
    · exact hm.lexes p hp
  · apply List.isChain_append.mpr
    use hl.apart, hm.apart
    intro p hp q hq
    rcases h with h | h
    · exact .inl (h p hp)
    · exact .inr (h q hq)

theorem opening_append {l m : Layout} (hl : l.Opening) (hm : m.Opening) :
  (l ++ m).Opening
  := by
  cases l with
  | nil => exact hm
  | cons p l => exact hl

theorem lexable_mark {text : String} (h : text ∈ marks) :
  (mark text).Lexable
  := by
  rw [mark]
  split
  · exact lexable_nil
  · exact ⟨by simpa [Piece.Lexes] using h, .singleton _⟩

theorem closed_mark (text : String) :
  (mark text).Closed
  := by
  rw [mark]
  split
  · simp [Closed]
  · simp [Closed, Piece.isMark]

/-- The marks that may stand directly behind a word. -/
def IsDelimiting (text : String) : Prop := text ∈ marks ∧ text.toList.head?.any isDelimiter

instance (text : String) : Decidable (IsDelimiting text) := inferInstanceAs (Decidable (_ ∧ _))

theorem opening_mark {text : String} (h : IsDelimiting text) :
  (mark text).Opening
  := by
  rw [mark]
  split
  · exact opening_nil
  · simpa [Opening, Piece.delimits] using h.2

theorem lexable_word {text : String} (h : IsName text ∨ IsIntValue text ∨ IsFloatValue text) :
  (word text).Lexable
  := by
  rw [word]
  split
  · exact lexable_nil
  · exact ⟨by simpa [Piece.Lexes] using h, .singleton _⟩

theorem lexable_literal (s : StringValue) :
  (literal s).Lexable
  := ⟨by simp [literal, Piece.Lexes], .singleton _⟩

theorem lexable_led {lead : String} {part : Layout} (hlead : lead ∈ marks)
    (hpart : part.Lexable) :
  (led lead part).Lexable
  := by
  rw [led]
  split
  · exact lexable_nil
  · exact lexable_append (lexable_mark hlead) hpart (.inl (closed_mark lead))

theorem mark_of_isDelimiting {text : String} (h : IsDelimiting text) :
  mark text = [.mark text]
  := by
  have hne : text ≠ "" := by
    rintro rfl
    exact absurd h (by decide)
  rw [mark, if_neg hne]

theorem opening_led {lead : String} (hlead : IsDelimiting lead) (part : Layout) :
  (led lead part).Opening
  := by
  rw [led, mark_of_isDelimiting hlead]
  split
  · exact opening_nil
  · simpa [Opening, Piece.delimits] using hlead.2

/-- A part that is led by a delimiter may follow any other. -/
theorem lexable_append_led {lead : String} {l part : Layout} (hlead : IsDelimiting lead)
    (hl : l.Lexable) (hpart : part.Lexable) :
  (l ++ led lead part).Lexable
  := by
  apply lexable_append hl
  · exact lexable_led hlead.1 hpart
  · exact .inr (opening_led hlead part)

theorem lexable_enclosed {lead close : String} {part : Layout} (hlead : lead ∈ marks)
    (hclose : IsDelimiting close) (hpart : part.Lexable) :
  (enclosed lead part close).Lexable
  := by
  rw [enclosed]
  split
  · exact lexable_nil
  · apply lexable_append _ (lexable_mark hclose.1) (.inr (opening_mark hclose))
    exact lexable_append (lexable_mark hlead) hpart (.inl (closed_mark lead))

theorem opening_enclosed {lead : String} (hlead : IsDelimiting lead) (part : Layout)
    (close : String) :
  (enclosed lead part close).Opening
  := by
  rw [enclosed, mark_of_isDelimiting hlead]
  split
  · exact opening_nil
  · simpa [Opening, Piece.delimits] using hlead.2

theorem closed_enclosed (lead : String) (part : Layout) {close : String}
    (hclose : IsDelimiting close) :
  (enclosed lead part close).Closed
  := by
  rw [enclosed, mark_of_isDelimiting hclose]
  split
  · simp [Closed]
  · simp [Closed, Piece.isMark]

theorem lexable_glue {separator : String} (hseparator : IsDelimiting separator)
    {parts : List Layout} (hparts : ∀ part ∈ parts, part.Lexable) :
  (glue separator parts).Lexable
  := by
  induction parts with
  | nil => exact lexable_nil
  | cons part parts ih =>
    have hrest := ih fun other hmem => hparts other (List.mem_cons_of_mem part hmem)
    rw [glue]
    split
    · exact hrest
    · apply lexable_append (hparts part List.mem_cons_self) (lexable_led hseparator.1 hrest)
      exact .inr (opening_led hseparator _)

theorem lexable_described (description? : Option StringValue) {body : Layout}
    (hbody : body.Lexable) :
  (described description? body).Lexable
  := by
  cases description? with
  | none => exact hbody
  | some s =>
    have hend : IsDelimiting "\n" := by decide
    apply lexable_append _ hbody
    · left
      rw [mark_of_isDelimiting hend]
      simp [Closed, Piece.isMark, literal]
    · exact lexable_append (lexable_literal s) (lexable_mark hend.1) (.inr (opening_mark hend))

/-! ## Tokens of layouts -/

@[simp]
theorem tokens_nil :
  tokens [] = []
  := rfl

@[simp]
theorem tokens_append (l m : Layout) :
  tokens (l ++ m) = tokens l ++ tokens m
  := List.flatMap_append

@[simp]
theorem tokens_mark (text : String) :
  tokens (mark text) = markTokens text
  := by
  rw [mark]
  split
  case isTrue h =>
    subst h
    rfl
  case isFalse => simp [tokens, Piece.tokens]

@[simp]
theorem tokens_literal (s : StringValue) :
  tokens (literal s) = [.string s.settled]
  := rfl

theorem tokens_word {text : String} (h : text ≠ "") :
  tokens (word text) = [.ofWord text]
  := by
  rw [word, if_neg h]
  rfl

theorem ne_nil_of_tokens {l : Layout} (h : l.tokens ≠ []) :
  l ≠ []
  := by
  rintro rfl
  exact h rfl

theorem tokens_led {lead : String} {part : Layout} (h : part.tokens ≠ []) :
  tokens (led lead part) = markTokens lead ++ tokens part
  := by
  rw [led, if_neg (ne_nil_of_tokens h), tokens_append, tokens_mark]

/-- The space before a part is no token. -/
@[simp]
theorem tokens_led_space (part : Layout) :
  tokens (led " " part) = tokens part
  := by
  rw [led]
  split
  case isTrue h => rw [h]
  case isFalse => simp [markTokens]

theorem tokens_enclosed {lead close : String} {part : Layout} (h : part.tokens ≠ []) :
  tokens (enclosed lead part close) = markTokens lead ++ (tokens part ++ markTokens close)
  := by
  rw [enclosed, if_neg (ne_nil_of_tokens h), tokens_append, tokens_append, tokens_mark,
    tokens_mark, List.append_assoc]

/-- A separator that is ignored between tokens leaves no trace among them. -/
theorem tokens_glue {separator : String} (h : markTokens separator = []) (parts : List Layout) :
  tokens (glue separator parts) = parts.flatMap tokens
  := by
  induction parts with
  | nil => rfl
  | cons part parts ih =>
    rw [glue, List.flatMap_cons, ← ih]
    split
    case isTrue hnil =>
      subst hnil
      rfl
    case isFalse =>
      rw [tokens_append, led]
      split
      case isTrue hnil => rw [hnil]
      case isFalse => rw [tokens_append, tokens_mark, h, List.nil_append]

end Layout

end GraphQLText
