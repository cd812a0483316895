import GraphQLText.Proofs.Grammar.Block
import GraphQLText.Proofs.Grammar.Quoted

/-!
# Reading string literals

`literal?` reads a string literal of either sort.  A literal that is printed reads back as the
string that it was printed for, whatever follows it other than another quote
(`literal?_chars`); only a block that could not be written as one comes back quoted.
-/

namespace GraphQLText

namespace Grammar

/-- The string that a literal at the front of a text denotes, and what is left after it. -/
def literal? : List Char → Option (StringValue × List Char)
  | '"' :: '"' :: '"' :: rest =>
    (unfence rest).map fun (raw, rest) => (⟨String.ofList (blockValue raw), true⟩, rest)
  | '"' :: rest => (unquote rest).map fun (s, rest) => (⟨String.ofList s, false⟩, rest)
  | _ => none

end Grammar

/-- A string as it comes back after it has been written: a block that has no placement has
become a quoted string. -/
def StringValue.settled (s : StringValue) : StringValue :=
  ⟨s.value, s.block && (Block.placement? s.value.toList).isSome⟩

/-- A literal begins with a quote. -/
theorem StringValue.chars_eq_cons (s : StringValue) :
  ∃ cs, s.chars = '"' :: cs
  := by
  rw [chars]
  split
  case h_1 placement _ => cases placement <;> simp [Block.encode]
  case h_2 => simp [Quoted.encode]

namespace Grammar

/-- The block literal of a string that has a placement reads back as the string. -/
theorem literal?_encode_block {s : List Char} {p : Block.Placement}
    (h : Block.placement? s = some p) (rest : List Char) :
  literal? (Block.encode p s ++ rest) = some (⟨String.ofList s, true⟩, rest)
  := by
  have hraw := blockValue_of_placement? h
  have hread := unfence_escapeTriples s rest (source_of_placement? h).1
  cases p with
  | inline =>
    have hencode : Block.encode .inline s ++ rest
        = '"' :: '"' :: '"' :: (Block.escapeTriples s ++ '\n' :: '"' :: '"' :: '"' :: rest) := by
      simp [Block.encode]
    rw [hencode, literal?, hread]
    exact congrArg (fun v => some ((⟨String.ofList v, true⟩ : StringValue), rest)) hraw
  | ownLine =>
    have hencode : Block.encode .ownLine s ++ rest
        = '"' :: '"' :: '"' :: '\n' ::
          (Block.escapeTriples s ++ '\n' :: '"' :: '"' :: '"' :: rest) := by
      simp [Block.encode]
    have hopen : unfence ('\n' :: (Block.escapeTriples s ++ '\n' :: '"' :: '"' :: '"' :: rest))
        = some ('\n' :: s ++ ['\n'], rest) := by
      rw [unfence, if_pos (by rfl), hread]
      · rfl
      · simp
      · simp
    rw [hencode, literal?, hopen]
    exact congrArg (fun v => some ((⟨String.ofList v, true⟩ : StringValue), rest)) hraw

theorem literal?_encode_quoted (s rest : List Char) (hrest : rest.head? ≠ some '"') :
  literal? (Quoted.encode s ++ rest) = some (⟨String.ofList s, false⟩, rest)
  := by
  have hencode : Quoted.encode s ++ rest
      = '"' :: (s.flatMap Quoted.escapeChar ++ '"' :: rest) := by
    simp [Quoted.encode]
  rw [hencode, literal?, unquote_encode]
  · rfl
  · intro u h
    exact escape_ne_quotes s rest u hrest h

/-- What is read of the literal of a string is the string, settled. -/
theorem literal?_chars (s : StringValue) (rest : List Char) (hrest : rest.head? ≠ some '"') :
  literal? (s.chars ++ rest) = some (s.settled, rest)
  := by
  obtain ⟨value, block⟩ := s
  cases block with
  | false =>
    have h := literal?_encode_quoted value.toList rest hrest
    simpa [StringValue.chars, StringValue.placement?, StringValue.settled] using h
  | true =>
    cases hplace : Block.placement? value.toList with
    | none =>
      have h := literal?_encode_quoted value.toList rest hrest
      simpa [StringValue.chars, StringValue.placement?, StringValue.settled, hplace] using h
    | some p =>
      have h := literal?_encode_block hplace rest
      simpa [StringValue.chars, StringValue.placement?, StringValue.settled, hplace] using h

end Grammar

end GraphQLText
