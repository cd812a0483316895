import GraphQLText.Json.Basic

/-!
# Reading JSON texts

A JSON text is read in one pass over its characters.  `Scan` is where the reader stands
inside a token, `Stage` what the grammar expects next and `Frame` an array or object that
is still open, so that the whole state is a finite word, a stage and a stack of frames, and
nesting costs no recursion.  `Json.parse?` runs the machine from its start to the end of
the text.
-/

namespace GraphQLText

namespace Json

/-- A token of a JSON text. -/
inductive Token where
  /-- One of the six characters of the grammar. -/
  | mark (c : Char)
  /-- A string, with its escapes resolved. -/
  | quoted (text : String)
  /-- A number or one of the three words. -/
  | bare (text : List Char)

/-- An array or object that is still open.  The items are kept last first; the key is that
of the member whose value comes next. -/
inductive Frame where
  | items (before : List Json)
  | members (before : List (String × Json)) (key : String)

/-- What the grammar expects next. -/
inductive Stage where
  /-- A value, or also the end of the array that has just been opened. -/
  | value (canClose : Bool)
  /-- A key, or also the end of the object that has just been opened. -/
  | key (canClose : Bool)
  /-- The colon after a key. -/
  | colon
  /-- A comma or the end of the innermost open array or object. -/
  | next
  /-- Nothing more: the value of the whole text. -/
  | done (result : Json)

/-- What has been read up to a point between two tokens. -/
structure Progress where
  frames : List Frame
  stage : Stage

namespace Progress

/-- Nothing has been read. -/
def start : Progress := ⟨[], .value false⟩

/-- A value is complete and goes where the innermost frame wants it. -/
def complete (value : Json) : List Frame → Progress
  | [] => ⟨[], .done value⟩
  | .items before :: frames => ⟨.items (value :: before) :: frames, .next⟩
  | .members before key :: frames =>
    ⟨.members (insertMember key value before) key :: frames, .next⟩

/-- The innermost frame ends with the mark `c`. -/
def close? (c : Char) : List Frame → Option Progress
  | .items before :: frames =>
    if c = ']' then some (complete (.array before.reverse) frames) else none
  | .members before _ :: frames =>
    if c = '\x7d' then some (complete (.object before) frames) else none
  | [] => none

/-- The value of a bare word. -/
def bareValue? (text : List Char) : Option Json :=
  if text = ['n', 'u', 'l', 'l'] then some .null
  else if text = ['t', 'r', 'u', 'e'] then some (.bool true)
  else if text = ['f', 'a', 'l', 's', 'e'] then some (.bool false)
  else (Number.ofLiteral? text).map .number

/-- The progress after one more token, unless the grammar forbids it. -/
def step? (p : Progress) : Token → Option Progress
  | .quoted text =>
    match p.stage with
    | .value _ => some (complete (.string text) p.frames)
    | .key _ =>
      match p.frames with
      | .members before _ :: frames => some ⟨.members before text :: frames, .colon⟩
      | _ => none
    | _ => none
  | .bare text =>
    match p.stage with
    | .value _ => (bareValue? text).map fun value => complete value p.frames
    | _ => none
  | .mark c =>
    match p.stage with
    | .value canClose =>
      if c = '[' then some ⟨.items [] :: p.frames, .value true⟩
      else if c = '\x7b' then some ⟨.members [] "" :: p.frames, .key true⟩
      else if canClose then close? c p.frames
      else none
    | .key canClose => if canClose then close? c p.frames else none
    | .colon => if c = ':' then some ⟨p.frames, .value false⟩ else none
    | .next =>
      if c = ',' then
        match p.frames with
        | .items _ :: _ => some ⟨p.frames, .value false⟩
        | .members _ _ :: _ => some ⟨p.frames, .key false⟩
        | [] => none
      else close? c p.frames
    | .done _ => none

end Progress

/-- Where the reader stands inside a token.  Texts are kept last character first. -/
inductive Scan where
  /-- Between two tokens. -/
  | between
  /-- In a number or a word. -/
  | bare (text : List Char)
  /-- In a string. -/
  | quoted (text : List Char)
  /-- After a backslash in a string. -/
  | escape (text : List Char)
  /-- In the four digits of a code unit of which `left` are still to come.  `high` is the
  first half of a surrogate pair, where this is the second one. -/
  | code (text : List Char) (high : Option Nat) (left : Nat) (value : Nat)
  /-- After the first half of a surrogate pair. -/
  | half (text : List Char) (high : Nat)
  /-- After the backslash between the two halves of a surrogate pair. -/
  | halfEscape (text : List Char) (high : Nat)

/-- The reader in the middle of a text. -/
structure Reader where
  scan : Scan
  progress : Progress

namespace Reader

/-- The reader before the first character. -/
def start : Reader := ⟨.between, .start⟩

/-- The value of a hexadecimal digit of either case. -/
def hexValue? (c : Char) : Option Nat :=
  if c.isDigit then some (c.toNat - '0'.toNat)
  else if 'a' ≤ c ∧ c ≤ 'f' then some (c.toNat - 'a'.toNat + 10)
  else if 'A' ≤ c ∧ c ≤ 'F' then some (c.toNat - 'A'.toNat + 10)
  else none

/-- The character that a letter after a backslash stands for. -/
def shortEscape? (c : Char) : Option Char :=
  if c = '"' ∨ c = '\\' ∨ c = '/' then some c
  else if c = 'b' then some '\x08'
  else if c = 'f' then some '\x0c'
  else if c = 'n' then some '\n'
  else if c = 'r' then some '\r'
  else if c = 't' then some '\t'
  else none

/-- The scan after a complete code unit: a first half waits for its second one, and a half
without its partner is refused. -/
def unit? (text : List Char) (high : Option Nat) (value : Nat) : Option Scan :=
  let isHigh := 0xD800 ≤ value ∧ value < 0xDC00
  let isLow := 0xDC00 ≤ value ∧ value < 0xE000
  match high with
  | none =>
    if isHigh then some (.half text value)
    else if isLow then none
    else some (.quoted (Char.ofNat value :: text))
  | some first =>
    if isLow then
      some (.quoted (Char.ofNat (0x10000 + (first - 0xD800) * 0x400 + (value - 0xDC00)) :: text))
    else none

/-- Whether a character may stand between two tokens. -/
def isBlank (c : Char) : Bool := c = ' ' ∨ c = '\t' ∨ c = '\n' ∨ c = '\r'

/-- Whether a character is a token of its own. -/
def isMark (c : Char) : Bool := c ∈ ['[', ']', '\x7b', '\x7d', ',', ':']

/-- The reader after a character that starts a token or stands between two. -/
def open? (progress : Progress) (c : Char) : Option Reader :=
  if isBlank c then some ⟨.between, progress⟩
  else if isMark c then (progress.step? (.mark c)).map (⟨.between, ·⟩)
  else if c = '"' then some ⟨.quoted [], progress⟩
  else some ⟨.bare [c], progress⟩

/-- The reader after one more character. -/
def step? (r : Reader) (c : Char) : Option Reader :=
  let within (scan : Scan) : Option Reader := some ⟨scan, r.progress⟩
  match r.scan with
  | .between => open? r.progress c
  | .bare text =>
    if isBlank c ∨ isMark c then
      (r.progress.step? (.bare text.reverse)).bind (open? · c)
    else within (.bare (c :: text))
  | .quoted text =>
    if c = '"' then
      (r.progress.step? (.quoted (String.ofList text.reverse))).map (⟨.between, ·⟩)
    else if c = '\\' then within (.escape text)
    else if c.toNat < 0x20 then none
    else within (.quoted (c :: text))
  | .escape text =>
    if c = 'u' then within (.code text none 4 0)
    else (shortEscape? c).bind fun d => within (.quoted (d :: text))
  | .code text high left value =>
    (hexValue? c).bind fun d =>
      let value := 16 * value + d
      if left ≤ 1 then (unit? text high value).bind within
      else within (.code text high (left - 1) value)
  | .half text high => if c = '\\' then within (.halfEscape text high) else none
  | .halfEscape text high => if c = 'u' then within (.code text (some high) 4 0) else none

/-- The value of a text that ends here. -/
def result? (r : Reader) : Option Json :=
  let last :=
    match r.scan with
    | .between => some r.progress
    | .bare text => r.progress.step? (.bare text.reverse)
    | _ => none
  match last with
  | some ⟨_, .done result⟩ => some result
  | _ => none

end Reader

/-- The value that a JSON text denotes. -/
def parse? (text : String) : Option Json :=
  (text.toList.foldlM Reader.step? Reader.start).bind Reader.result?

end Json

end GraphQLText
