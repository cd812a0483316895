import GraphQLText.StringLiteral.Basic

/-!
# Tokens

The lexical grammar of GraphQL documents.  A token is a punctuator, a name, a number or the
literal of a string; the predicates `IsName`, `IsIntValue` and `IsFloatValue` say which texts
are tokens of the three kinds that are written as they stand.  Space, line terminators and
commas between tokens mean nothing, nor does a comment.
-/

namespace GraphQLText.Grammar

/-- The punctuators. -/
inductive Punctuator where
  | bang
  | dollar
  | ampersand
  | parenL
  | parenR
  | spread
  | colon
  | equals
  | atSign
  | bracketL
  | bracketR
  | braceL
  | pipe
  | braceR
deriving DecidableEq, Repr

/-- A token.  Names and numbers are kept as the text by which they are written, a string as
what its literal denotes. -/
inductive Token where
  | punctuator (p : Punctuator)
  | name (text : String)
  | int (text : String)
  | float (text : String)
  | string (s : StringValue)
deriving DecidableEq, Repr

/-! ## Characters -/

/-- Whether a character may stand in a document. -/
def isSource (c : Char) : Bool := c = '\t' ∨ c = '\n' ∨ c = '\r' ∨ 0x20 ≤ c.toNat

/-- Whether a character ends a line. -/
def isLineEnd (c : Char) : Bool := c = '\n' ∨ c = '\r'

/-- Whether a character is white space. -/
def isWhiteSpace (c : Char) : Bool := c = ' ' ∨ c = '\t'

/-- Whether a character between tokens means nothing: white space, the end of a line, a
comma or the mark of the byte order. -/
def isIgnored (c : Char) : Bool := isWhiteSpace c ∨ isLineEnd c ∨ c = ',' ∨ c = '\ufeff'

/-- Whether a name may begin with a character. -/
def isNameStart (c : Char) : Bool := c.isAlpha ∨ c = '_'

/-- Whether a name may go on with a character. -/
def isNameContinue (c : Char) : Bool := isNameStart c ∨ c.isDigit

/-- The punctuator that a character is by itself. -/
def Punctuator.ofChar? : Char → Option Punctuator
  | '!' => some .bang
  | '$' => some .dollar
  | '&' => some .ampersand
  | '(' => some .parenL
  | ')' => some .parenR
  | ':' => some .colon
  | '=' => some .equals
  | '@' => some .atSign
  | '[' => some .bracketL
  | ']' => some .bracketR
  | '\x7b' => some .braceL
  | '|' => some .pipe
  | '\x7d' => some .braceR
  | _ => none

/-! ## Names and numbers -/

/-- The texts that are names. -/
def IsName (text : String) : Prop :=
  ∃ c rest, text.toList = c :: rest ∧ isNameStart c ∧ ∀ d ∈ rest, isNameContinue d

theorem isName_iff {text : String} {c : Char} {rest : List Char} (h : text.toList = c :: rest) :
  IsName text ↔ (isNameStart c && rest.all isNameContinue) = true
  := by
  rw [Bool.and_eq_true, List.all_eq_true]
  constructor
  · rintro ⟨c', rest', htext, hname⟩
    rw [h] at htext
    cases htext
    exact hname
  · intro hname
    exact ⟨c, rest, h, hname⟩

instance (text : String) : Decidable (IsName text) :=
  match h : text.toList with
  | [] => .isFalse fun ⟨_, _, htext, _⟩ => by simp [h] at htext
  | _ :: _ => decidable_of_iff _ (isName_iff h).symm

/-- One or more digits. -/
def Digits (ds : List Char) : Prop := ds ≠ [] ∧ ∀ d ∈ ds, d.isDigit

/-- The whole part of a number: digits after an optional minus sign, the first of several
not a zero. -/
def IntegerPart (cs : List Char) : Prop :=
  ∃ sign ds, cs = sign ++ ds ∧ (sign = [] ∨ sign = ['-']) ∧ Digits ds ∧
    (ds.head? = some '0' → ds = ['0'])

/-- The digits of a number after a point. -/
def FractionalPart (cs : List Char) : Prop := ∃ ds, cs = '.' :: ds ∧ Digits ds

/-- The decimal exponent of a number. -/
def ExponentPart (cs : List Char) : Prop :=
  ∃ e sign ds, cs = e :: (sign ++ ds) ∧ (e = 'e' ∨ e = 'E') ∧
    (sign = [] ∨ sign = ['+'] ∨ sign = ['-']) ∧ Digits ds

/-- The texts that are integers. -/
def IsIntValue (text : String) : Prop := IntegerPart text.toList

/-- The texts that are floating point numbers, which have a fraction, an exponent or both. -/
def IsFloatValue (text : String) : Prop :=
  ∃ whole fraction exponent, text.toList = whole ++ (fraction ++ exponent) ∧
    IntegerPart whole ∧ (fraction = [] ∨ FractionalPart fraction) ∧
    (exponent = [] ∨ ExponentPart exponent) ∧ fraction ++ exponent ≠ []

/-- The names of enum values. -/
def IsEnumName (text : String) : Prop :=
  IsName text ∧ text ≠ "true" ∧ text ≠ "false" ∧ text ≠ "null"

/-! ## What may follow -/

/-- Whether a character neither goes on with a name or number nor begins a string. -/
def isDelimiter (c : Char) : Bool := ¬(isNameContinue c ∨ c = '.' ∨ c = '"')

/-- The texts that no name, number or string before them goes on into. -/
def Delimited (cs : List Char) : Prop := ∀ c ∈ cs.head?, isDelimiter c

theorem delimited_nil :
  Delimited []
  := by simp [Delimited]

theorem delimited_cons {c : Char} {cs : List Char} (h : isDelimiter c) :
  Delimited (c :: cs)
  := by simpa [Delimited] using h

/-- A text that no token goes on into begins with no character that a name goes on with. -/
theorem Delimited.not_nameContinue {cs : List Char} (h : Delimited cs) :
  ∀ c ∈ cs.head?, isNameContinue c = false
  := by
  intro c hc
  have hd := h c hc
  simp only [isDelimiter, decide_eq_true_eq, not_or] at hd
  simpa using hd.1

/-! ## Reading at the front of a text -/

/-- A string with one more character in front, and what is left after it. -/
def consFirst (c : Char) : List Char × List Char → List Char × List Char :=
  fun (s, rest) => (c :: s, rest)

/-- What a predicate on characters takes from a text that it holds on throughout and one
that it fails at the beginning of. -/
theorem takeWhile_append_of_head {p : Char → Bool} {cs rest : List Char}
    (hcs : ∀ c ∈ cs, p c) (hrest : ∀ c ∈ rest.head?, p c = false) :
  (cs ++ rest).takeWhile p = cs ∧ (cs ++ rest).dropWhile p = rest
  := by
  rw [List.takeWhile_append_of_pos hcs, List.dropWhile_append_of_pos hcs]
  cases rest with
  | nil => simp
  | cons c rest =>
    have hc : p c = false := hrest c rfl
    simp [hc]

end GraphQLText.Grammar
