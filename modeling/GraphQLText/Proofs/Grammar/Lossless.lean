import GraphQLText.Proofs.Grammar.Lexer

/-!
# Strings are written without loss

`literal?` reads along a text and takes escapes away as it meets them.  Here a literal is taken
apart instead: a block literal is a raw text between two fences of three quotes, the closing
one being the first that is not escaped (`IsBlockLiteral`), and a quoted literal is a text
between two quotes in which every quote is escaped (`IsQuotedLiteral`).  Whatever `literal?`
accepts is one of the two (`isLiteral_of_literal?`); so a string that is to be written as a
block is denoted by its literal, whichever of the two was printed (`ofBlock_lossless`).  One that
is to be written quoted keeps to one line of its document and tells itself apart from all others
(`quoted_lossless`).
-/

namespace GraphQLText

namespace Grammar

/-! ## The parts of a literal -/

/-- The quotes at either end of a block literal. -/
def fence : List Char := ['"', '"', '"']

/-- The number of characters before the first fence that is not escaped. -/
def fenceAt? : List Char → Option Nat
  | '\\' :: '"' :: '"' :: '"' :: rest => (fenceAt? rest).map (· + 4)
  | '"' :: '"' :: '"' :: _ => some 0
  | _ :: rest => (fenceAt? rest).map (· + 1)
  | [] => none

/-- The raw text of a block literal with a fence in the place of each escaped one. -/
def unescapeTriples : List Char → List Char
  | '\\' :: '"' :: '"' :: '"' :: rest => '"' :: '"' :: '"' :: unescapeTriples rest
  | c :: rest => c :: unescapeTriples rest
  | [] => []

/-- The text of a quoted literal with a character in the place of each escape, unless a quote
or another character in it had to be escaped. -/
def unescape : List Char → Option (List Char)
  | '\\' :: 'u' :: a :: b :: c :: d :: rest =>
    (codePoint? a b c d).bind fun code => (unescape rest).map (code :: ·)
  | '\\' :: e :: rest => (ofEscape? e).bind fun c => (unescape rest).map (c :: ·)
  | c :: rest =>
    if c ≠ '"' ∧ isSource c ∧ ¬isLineEnd c then (unescape rest).map (c :: ·) else none
  | [] => some []

/-- A text is the block literal of a string, before the text `rest`: behind the opening fence
the first fence that is not escaped is at its very end, and the raw text between them denotes
the string. -/
def IsBlockLiteral (literal rest value : List Char) : Prop :=
  ∃ raw, literal = fence ++ raw ++ fence
    ∧ fenceAt? (raw ++ fence ++ rest) = some raw.length
    ∧ (∀ c ∈ raw, isSource c)
    ∧ blockValue (unescapeTriples raw) = value

/-- A text is the quoted literal of a string: between its first quote and its last it has no
other quote that is not escaped, and what is escaped there denotes the string. -/
def IsQuotedLiteral (literal value : List Char) : Prop :=
  ∃ raw, literal = '"' :: raw ++ ['"'] ∧ unescape raw = some value

/-! ## What is read is a literal -/

/-- What is read behind an opening fence is what stands before the next one. -/
theorem exists_of_unfence {cs value rest : List Char} (h : unfence cs = some (value, rest)) :
  ∃ raw, cs = raw ++ fence ++ rest
    ∧ fenceAt? cs = some raw.length
    ∧ (∀ c ∈ raw, isSource c)
    ∧ unescapeTriples raw = value
  := by
  fun_induction unfence cs generalizing value with
  | case1 others ih =>
    obtain ⟨⟨value, rest⟩, h, heq⟩ := Option.map_eq_some_iff.mp h
    cases heq
    obtain ⟨raw, rfl, hat, hsource, rfl⟩ := ih h
    use '\\' :: '"' :: '"' :: '"' :: raw
    simp only [List.cons_append, fenceAt?, hat, unescapeTriples, true_and, and_true]
    constructor
    · rfl
    · simpa [isSource] using hsource
  | case2 others =>
    cases h
    use []
    simp [fence, fenceAt?, unescapeTriples]
  | case3 c others hopen hclose hc ih =>
    obtain ⟨⟨value, rest⟩, h, heq⟩ := Option.map_eq_some_iff.mp h
    cases heq
    obtain ⟨raw, rfl, hat, hsource, rfl⟩ := ih h
    use c :: raw
    refine ⟨rfl, ?_, by simpa [hc] using hsource, ?_⟩
    · rw [fenceAt?, hat]
      · rfl
      · exact hopen
      · exact hclose
    · rw [unescapeTriples]
      rintro raw' rfl rfl
      exact hopen (raw' ++ fence ++ rest) rfl rfl
  | case4 => contradiction
  | case5 => contradiction

/-- No escape is a `u` alone. -/
theorem ne_u_of_ofEscape? {e c : Char} (h : ofEscape? e = some c) :
  e ≠ 'u'
  := by
  rintro rfl
  simp [ofEscape?] at h

/-- What is read behind an opening quote is what stands before the next one. -/
theorem exists_of_unquote {cs value rest : List Char} (h : unquote cs = some (value, rest)) :
  ∃ raw, cs = raw ++ '"' :: rest ∧ unescape raw = some value
  := by
  fun_induction unquote cs generalizing value with
  | case1 others =>
    cases h
    exact ⟨[], rfl, rfl⟩
  | case2 a b c d others ih =>
    obtain ⟨code, hcode, h⟩ := Option.bind_eq_some_iff.mp h
    obtain ⟨⟨value, rest⟩, h, heq⟩ := Option.map_eq_some_iff.mp h
    cases heq
    obtain ⟨raw, rfl, hraw⟩ := ih h
    use '\\' :: 'u' :: a :: b :: c :: d :: raw, rfl
    simp only [unescape, hcode, hraw, Option.bind_some, Option.map_some]
  | case3 e others _ ih =>
    obtain ⟨c, hescape, h⟩ := Option.bind_eq_some_iff.mp h
    obtain ⟨⟨value, rest⟩, h, heq⟩ := Option.map_eq_some_iff.mp h
    cases heq
    obtain ⟨raw, rfl, hraw⟩ := ih h
    use '\\' :: e :: raw, rfl
    rw [unescape]
    · rw [hescape, hraw]
      rfl
    · intro _ _ _ _ _ hu
      exact absurd hu (ne_u_of_ofEscape? hescape)
  | case4 c others hquote hcode hescape hc ih =>
    obtain ⟨⟨value, rest⟩, h, heq⟩ := Option.map_eq_some_iff.mp h
    cases heq
    obtain ⟨raw, rfl, hraw⟩ := ih h
    use c :: raw, rfl
    rw [unescape]
    · rw [if_pos ⟨hquote, hc⟩, hraw]
      rfl
    · rintro a b c d raw' rfl rfl
      exact hcode a b c d (raw' ++ '"' :: rest) rfl rfl
    · rintro e raw' rfl rfl
      exact hescape e (raw' ++ '"' :: rest) rfl rfl
  | case5 => contradiction
  | case6 => contradiction

/-- A text of which a string is read to its end is a literal of the string. -/
theorem isLiteral_of_literal? {literal rest : List Char} {s : StringValue}
    (h : literal? (literal ++ rest) = some (s, rest)) :
  if s.block then IsBlockLiteral literal rest s.value.toList
  else IsQuotedLiteral literal s.value.toList
  := by
  generalize htext : literal ++ rest = text at h
  revert h
  fun_cases literal? text with
  | case1 others =>
    intro h
    obtain ⟨⟨value, rest⟩, h, heq⟩ := Option.map_eq_some_iff.mp h
    cases heq
    obtain ⟨raw, rfl, hat, hsource, rfl⟩ := exists_of_unfence h
    have hsplit : literal ++ rest = (fence ++ raw ++ fence) ++ rest := by
      simpa [fence] using htext
    simpa using ⟨raw, List.append_cancel_right hsplit, hat, hsource, rfl⟩
  | case2 others =>
    intro h
    obtain ⟨⟨value, rest⟩, h, heq⟩ := Option.map_eq_some_iff.mp h
    cases heq
    obtain ⟨raw, rfl, hraw⟩ := exists_of_unquote h
    have hsplit : literal ++ rest = ('"' :: raw ++ ['"']) ++ rest := by
      simpa using htext
    simpa using ⟨raw, List.append_cancel_right hsplit, hraw⟩
  | case3 =>
    intro h
    contradiction

end Grammar

open Grammar

/-! ## Strings printed as blocks -/

/-- The literal of a string that is to be written as a block is one token before any text that
does not begin with a quote, and it denotes the string.  It is a block literal where the string
has a placement, and a quoted one otherwise. -/
theorem StringValue.ofBlock_lossless (v : String) (rest : List Char)
    (hrest : rest.head? ≠ some '"') :
  token? ((ofBlock v).text.toList ++ rest)
      = some (.string ⟨v, (Block.placement? v.toList).isSome⟩, rest)
    ∧ if (Block.placement? v.toList).isSome then
        IsBlockLiteral (ofBlock v).text.toList rest v.toList
      else IsQuotedLiteral (ofBlock v).text.toList v.toList
  := by
  have hsettled : (ofBlock v).settled = ⟨v, (Block.placement? v.toList).isSome⟩ := by
    simp [settled, ofBlock]
  have htext : (ofBlock v).text.toList = (ofBlock v).chars := by
    simp [text]
  rw [htext, ← hsettled]
  constructor
  · exact token?_chars (ofBlock v) hrest
  · have hliteral := isLiteral_of_literal? (literal?_chars (ofBlock v) rest hrest)
    rw [hsettled] at hliteral
    exact hliteral

/-- A string with one line flush left, which has quotes behind a backslash, three quotes in a
row and quotes next to the closing ones. -/
theorem StringValue.ofBlock_quotation_lossless :
  " @a".toList.head? ≠ some '"'
    ∧ token? ((ofBlock "  a \\\"\"\"\"\n\tb\nc\"\"").text.toList ++ " @a".toList)
        = some (.string (ofBlock "  a \\\"\"\"\"\n\tb\nc\"\""), " @a".toList)
    ∧ IsBlockLiteral "\"\"\"\n  a \\\\\"\"\"\"\n\tb\nc\"\"\n\"\"\"".toList " @a".toList
        "  a \\\"\"\"\"\n\tb\nc\"\"".toList
  := by
  have hrest : " @a".toList.head? ≠ some '"' := by decide
  have h := ofBlock_lossless "  a \\\"\"\"\"\n\tb\nc\"\"" " @a".toList hrest
  exact ⟨hrest, h⟩

/-! ## Strings printed quoted -/

theorem Quoted.hexDigit_ge (n : Nat) :
  0x20 ≤ (hexDigit n).toNat
  := by
  have h : ∀ d < 16, 0x20 ≤ (Nat.digitChar d).toUpper.toNat := by decide
  apply h (n % 16)
  apply Nat.mod_lt n (by decide)

/-- A character is written without any control characters. -/
theorem Quoted.escapeChar_ge (c : Char) :
  ∀ d ∈ escapeChar c, 0x20 ≤ d.toNat
  := by
  fun_cases escapeChar c with
  | case1 | case2 | case3 | case4 | case5 => simp
  | case6 => simp [hexDigit_ge]
  | case7 _ _ _ _ _ hcontrol =>
    intro d hd
    obtain rfl := List.mem_singleton.mp hd
    apply Nat.le_of_not_lt hcontrol

/-- A quoted literal has no control characters. -/
theorem Quoted.encode_ge (s : List Char) :
  ∀ c ∈ encode s, 0x20 ≤ c.toNat
  := by
  intro c hc
  simp only [encode, List.cons_append, List.mem_cons, List.mem_append, List.mem_flatMap,
    List.not_mem_nil, or_false] at hc
  rcases hc with rfl | ⟨d, -, hc⟩ | rfl
  · decide
  · apply escapeChar_ge d c hc
  · decide

theorem StringValue.toList_text (s : StringValue) :
  s.text.toList = s.chars
  := by simp [text]

/-- The literal of a string that is to be written quoted, before a text that does not begin with a
quote. -/
theorem StringValue.token?_quoted (v : String) {rest : List Char} (hrest : rest.head? ≠ some '"') :
  token? ((quoted v).text.toList ++ rest) = some (.string (quoted v), rest)
  := by
  have hread := token?_chars (quoted v) hrest
  rwa [← toList_text] at hread

/-- Strings that are to be written quoted are told apart by their literals. -/
theorem StringValue.eq_of_quoted_text_eq {v w : String} (h : (quoted v).text = (quoted w).text) :
  v = w
  := by
  have hrest : ([] : List Char).head? ≠ some '"' := by simp
  have hread := token?_quoted v hrest
  rw [h, token?_quoted w hrest] at hread
  cases hread
  rfl

/-- The literal of a string that is to be written quoted is one token before any text that does
not begin with a quote, and it denotes the string.  It has no control characters, and no other
string has the same literal. -/
theorem StringValue.quoted_lossless (v : String) :
  (∀ rest : List Char, rest.head? ≠ some '"' →
      token? ((quoted v).text.toList ++ rest) = some (.string (quoted v), rest))
    ∧ IsQuotedLiteral (quoted v).text.toList v.toList
    ∧ (∀ c ∈ (quoted v).text.toList, 0x20 ≤ c.toNat)
    ∧ ∀ w, w ≠ v → (quoted w).text ≠ (quoted v).text
  := by
  have hread := literal?_chars (quoted v) [] (by simp)
  refine ⟨?_, ?_, ?_, ?_⟩
  · intro rest hrest
    apply token?_quoted v hrest
  · rw [toList_text]
    apply isLiteral_of_literal? hread
  · rw [toList_text]
    apply Quoted.encode_ge
  · intro w hne heq
    apply hne
    apply eq_of_quoted_text_eq heq

/-- A string with a control character before what looks like more of its code, a backslash before
a quote and the ends of lines, and another one that spells the code out. -/
theorem StringValue.quoted_controls_lossless :
  " @a".toList.head? ≠ some '"'
    ∧ token? ((quoted "\x1f00\\\"\r\n").text.toList ++ " @a".toList)
        = some (.string (quoted "\x1f00\\\"\r\n"), " @a".toList)
    ∧ (quoted "\x1f00\\\"\r\n").text = "\"\\u001F00\\\\\\\"\\r\\n\""
    ∧ '\\' ∈ (quoted "\x1f00\\\"\r\n").text.toList ∧ 0x20 ≤ '\\'.toNat
    ∧ "\\u001F00\\\"\r\n" ≠ "\x1f00\\\"\r\n"
    ∧ (quoted "\\u001F00\\\"\r\n").text ≠ (quoted "\x1f00\\\"\r\n").text
  := by
  have hrest : " @a".toList.head? ≠ some '"' := by decide
  have hmem : '\\' ∈ (quoted "\x1f00\\\"\r\n").text.toList := by decide
  have hne : "\\u001F00\\\"\r\n" ≠ "\x1f00\\\"\r\n" := by decide
  obtain ⟨hread, -, hcontrol, hinjective⟩ := quoted_lossless "\x1f00\\\"\r\n"
  exact ⟨hrest, hread _ hrest, by decide, hmem, hcontrol _ hmem, hne, hinjective _ hne⟩

end GraphQLText
