import GraphQLText.Proofs.Grammar.Token
import GraphQLText.StringLiteral.Quoted

/-!
# Reading quoted literals

`unquote` reads a quoted literal after its opening quote.  A quoted literal that is printed
reads back as its string, whatever follows it (`unquote_encode`), and it does not begin like a
block literal unless it is empty and another quote follows (`escape_ne_quotes`).
-/

namespace GraphQLText.Grammar

/-- The value of a hexadecimal digit. -/
def hexValue? (c : Char) : Option Nat :=
  if c.isDigit then some (c.toNat - '0'.toNat)
  else if 'a' ≤ c ∧ c ≤ 'f' then some (c.toNat - 'a'.toNat + 10)
  else if 'A' ≤ c ∧ c ≤ 'F' then some (c.toNat - 'A'.toNat + 10)
  else none

/-- The character with the code that four hexadecimal digits write. -/
def codePoint? (a b c d : Char) : Option Char := do
  let a ← hexValue? a
  let b ← hexValue? b
  let c ← hexValue? c
  let d ← hexValue? d
  let code := ((a * 16 + b) * 16 + c) * 16 + d
  if code.isValidChar then some (Char.ofNat code) else none

/-- The character that a letter stands for behind a backslash. -/
def ofEscape? : Char → Option Char
  | '"' => some '"'
  | '\\' => some '\\'
  | '/' => some '/'
  | 'b' => some '\x08'
  | 'f' => some '\x0c'
  | 'n' => some '\n'
  | 'r' => some '\r'
  | 't' => some '\t'
  | _ => none

/-- What a quoted literal denotes after its opening quote, and what is left after its closing
one. -/
def unquote : List Char → Option (List Char × List Char)
  | '"' :: rest => some ([], rest)
  | '\\' :: 'u' :: a :: b :: c :: d :: rest =>
    (codePoint? a b c d).bind fun code => (unquote rest).map (consFirst code)
  | '\\' :: e :: rest => (ofEscape? e).bind fun c => (unquote rest).map (consFirst c)
  | c :: rest =>
    if isSource c ∧ ¬isLineEnd c then (unquote rest).map (consFirst c) else none
  | [] => none

theorem hexValue?_hexDigit (n : Nat) :
  hexValue? (Quoted.hexDigit n) = some (n % 16)
  := by
  have h : ∀ d < 16, hexValue? (Nat.digitChar d).toUpper = some d := by decide
  exact h (n % 16) (Nat.mod_lt n (by decide))

/-- The code of a control character reads back as the character. -/
theorem codePoint?_hexDigits {c : Char} (h : c.toNat < 0x20) :
  codePoint? '0' '0' (Quoted.hexDigit (c.toNat / 16)) (Quoted.hexDigit c.toNat) = some c
  := by
  have hzero : hexValue? '0' = some 0 := rfl
  have hcode : ((0 * 16 + 0) * 16 + c.toNat / 16 % 16) * 16 + c.toNat % 16 = c.toNat := by
    omega
  have hvalid : c.toNat.isValidChar := c.valid
  simp only [codePoint?, hzero, hexValue?_hexDigit, Option.bind_eq_bind, Option.bind_some,
    hcode, hvalid, if_true, Char.ofNat_toNat]

/-- A character that is written in a quoted literal reads back as itself. -/
theorem unquote_escapeChar (c : Char) (rest : List Char) :
  unquote (Quoted.escapeChar c ++ rest) = (unquote rest).map (consFirst c)
  := by
  rw [Quoted.escapeChar]
  split
  case isTrue h => subst h; rfl
  split
  case isTrue h => subst h; rfl
  split
  case isTrue h => subst h; rfl
  split
  case isTrue h => subst h; rfl
  split
  case isTrue h => subst h; rfl
  split
  case isTrue h =>
    have hcode := codePoint?_hexDigits h
    simp only [List.cons_append, List.nil_append, unquote, hcode, Option.bind_some]
  case isFalse hcr hlf _ hquote hback hcontrol =>
    have hplain : isSource c ∧ ¬isLineEnd c := by
      constructor
      · simp [isSource, Nat.le_of_not_lt hcontrol]
      · simp [isLineEnd, hcr, hlf]
    rw [List.singleton_append, unquote]
    · rw [if_pos hplain]
    · exact hquote
    · intro _ _ _ _ _ hc
      exact absurd hc hback
    · intro _ _ hc
      exact absurd hc hback

theorem unquote_encode (s rest : List Char) :
  unquote (s.flatMap Quoted.escapeChar ++ '"' :: rest) = some (s, rest)
  := by
  induction s with
  | nil => rfl
  | cons c s ih =>
    rw [List.flatMap_cons, List.append_assoc, unquote_escapeChar, ih]
    rfl

/-- No two quotes stand behind the opening quote of a literal, unless it is empty and a quote
follows it. -/
theorem escape_ne_quotes (s rest u : List Char) (hrest : rest.head? ≠ some '"') :
  s.flatMap Quoted.escapeChar ++ '"' :: rest ≠ '"' :: '"' :: u
  := by
  intro h
  have hread := unquote_encode s rest
  rw [h, unquote] at hread
  simp only [Option.some.injEq, Prod.mk.injEq] at hread
  rw [← hread.2] at hrest
  exact hrest rfl

end GraphQLText.Grammar
