import GraphQLText.Number.Decimal

/-!
# Numbers as JSON text writes them

A number of a JSON text is an exact integer where its literal has neither a fraction nor
an exponent and fits a signed or unsigned word of 64 bits, and the binary64 number of its
decimal otherwise.  `Number.ofLiteral?` reads a literal and `Number.text` writes the canonical
one: integers in full, binary64 numbers with the fewest digits that read back, in
positional notation for decimal orders from −5 to 15 and with an exponent beyond them.
-/

namespace GraphQLText

/-- A JSON number. -/
inductive Number where
  /-- An exact integer. -/
  | integer (value : Int)
  /-- A number with a fraction or an exponent, or an integer beyond 64 bits. -/
  | binary (value : Binary64)
deriving DecidableEq, Repr

namespace Number

/-- The decimal digits of a natural number. -/
def digits (n : Nat) : List Char := Nat.toDigits 10 n

/-- The least integer that is kept exactly. -/
def minInteger : Int := -Int.ofNat (Nat.pow 2 63)

/-- The greatest integer that is kept exactly. -/
def maxInteger : Int := Int.ofNat (Nat.pow 2 64) - 1

/-! ## Writing -/

/-- The decimal orders that are written in positional notation. -/
def isPositional (order : Int) : Bool := -5 ≤ order ∧ order ≤ 15

/-- The decimal `ds * 10 ^ scale` in positional notation, with a digit on either side of
the point. -/
def positional (ds : List Char) (scale : Int) : List Char :=
  if 0 ≤ scale then ds ++ List.replicate scale.toNat '0' ++ ['.', '0']
  else
    let places := (-scale).toNat
    if places < ds.length then
      ds.take (ds.length - places) ++ '.' :: ds.drop (ds.length - places)
    else '0' :: '.' :: List.replicate (places - ds.length) '0' ++ ds

/-- The decimal with the digits `ds` and the given order in exponent notation: a point
only after the first of several digits, and a sign always before the exponent. -/
def exponential (ds : List Char) (order : Int) : List Char :=
  let mantissa :=
    match ds with
    | first :: second :: rest => first :: '.' :: second :: rest
    | ds => ds
  mantissa ++ 'e' :: (if order < 0 then '-' else '+') :: digits order.natAbs

/-- The text of a binary64 magnitude. -/
def magnitudeText (x : Binary64) : List Char :=
  if x.significand = 0 then ['0', '.', '0']
  else
    let (n, scale) := x.shortest
    let ds := digits n
    let order := scale + ds.length - 1
    if isPositional order then positional ds scale else exponential ds order

/-- The sign of a number, where it is written. -/
def sign (negative : Bool) : List Char := if negative then ['-'] else []

/-- The canonical text of a number. -/
def text : Number → String
  | .integer value => String.ofList (sign (value < 0) ++ digits value.natAbs)
  | .binary x => String.ofList (sign x.negative ++ magnitudeText x)

/-! ## Reading -/

/-- The binary64 number of a decimal, with its sign. -/
def ofDecimal? (negative : Bool) (d : Decimal) : Option Number :=
  d.toBinary64?.map fun x => .binary { x with negative }

/-- The integer written by the digits `ds`: exact within 64 bits, except for the negative
zero, and a binary64 number otherwise. -/
def ofInteger? (negative : Bool) (ds : List Char) : Option Number :=
  let n := Decimal.ofDigits ds
  let value : Int := if negative then -n else n
  if (negative ∧ n = 0) ∨ value < minInteger ∨ maxInteger < value then
    ofDecimal? negative (.ofWhole ds)
  else some (.integer value)

/-- The exponent written after the letter that introduces it: an optional sign and at
least one digit. -/
def exponent? : List Char → Option Int
  | '-' :: ds => if ds ≠ [] ∧ ds.all Char.isDigit then some (-Decimal.ofDigits ds) else none
  | '+' :: ds => if ds ≠ [] ∧ ds.all Char.isDigit then some (Decimal.ofDigits ds) else none
  | ds => if ds ≠ [] ∧ ds.all Char.isDigit then some (Decimal.ofDigits ds) else none

/-- The number with the decimal `d` before the exponent written in `rest`. -/
def ofParts? (negative : Bool) (d : Decimal) : List Char → Option Number
  | [] => ofDecimal? negative d
  | c :: rest =>
    if c = 'e' ∨ c = 'E' then
      (exponent? rest).bind fun e => ofDecimal? negative { d with scale := d.scale + e }
    else none

/-- The number that a literal without its sign denotes.  The whole part has no leading
zero, and a point is followed by a digit. -/
def ofUnsigned? (negative : Bool) (cs : List Char) : Option Number :=
  let whole := cs.takeWhile Char.isDigit
  if whole = [] ∨ (whole.head? = some '0' ∧ whole ≠ ['0']) then none
  else
    match cs.dropWhile Char.isDigit with
    | [] => ofInteger? negative whole
    | '.' :: rest =>
      let fraction := rest.takeWhile Char.isDigit
      if fraction = [] then none
      else
        ofParts? negative ((Decimal.ofWhole whole).addFraction fraction)
          (rest.dropWhile Char.isDigit)
    | rest => ofParts? negative (.ofWhole whole) rest

/-- The number that a literal denotes, unless it is no JSON number or out of range. -/
def ofLiteral? : List Char → Option Number
  | '-' :: cs => ofUnsigned? true cs
  | cs => ofUnsigned? false cs

end Number

end GraphQLText
