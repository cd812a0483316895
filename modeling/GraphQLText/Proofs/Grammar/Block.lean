import GraphQLText.Proofs.Grammar.Token
import GraphQLText.StringLiteral.Block
import Mathlib.Data.List.DropRight

/-!
# Reading block literals

`unfence` reads the raw text of a block literal after its opening quotes, and `blockValue` is
the string that a raw text denotes.  A string that has a placement is what the literal printed
for it denotes (`unfence_escapeTriples`, `blockValue_of_placement?`).
-/

namespace GraphQLText.Grammar

/-! ## The raw text -/

/-- The raw text of a block literal after its opening quotes, with three quotes in the place
of three escaped ones, and what is left after its closing quotes. -/
def unfence : List Char → Option (List Char × List Char)
  | '\\' :: '"' :: '"' :: '"' :: rest =>
    (unfence rest).map fun (raw, rest) => ('"' :: '"' :: '"' :: raw, rest)
  | '"' :: '"' :: '"' :: rest => some ([], rest)
  | c :: rest => if isSource c then (unfence rest).map (consFirst c) else none
  | [] => none

/-- A quote at the front of an escaped text that goes on with the end of a line is a quote of
the text itself. -/
theorem eq_cons_of_escapeTriples {s tail u : List Char}
    (h : Block.escapeTriples s ++ '\n' :: tail = '"' :: u) :
  ∃ s', s = '"' :: s' ∧ u = Block.escapeTriples s' ++ '\n' :: tail
  := by
  revert h
  fun_cases Block.escapeTriples s with
  | case1 rest =>
    intro h
    simp at h
  | case2 c rest =>
    intro h
    simp only [List.cons_append, List.cons.injEq] at h
    obtain ⟨rfl, rfl⟩ := h
    use rest
  | case3 =>
    intro h
    simp at h

/-- No three quotes begin an escaped text that goes on with the end of a line. -/
theorem escapeTriples_ne_quotes (s tail u : List Char) :
  Block.escapeTriples s ++ '\n' :: tail ≠ '"' :: '"' :: '"' :: u
  := by
  intro h
  obtain ⟨s, rfl, h₁⟩ := eq_cons_of_escapeTriples h
  obtain ⟨s, rfl, h₂⟩ := eq_cons_of_escapeTriples h₁.symm
  obtain ⟨s, rfl, -⟩ := eq_cons_of_escapeTriples h₂.symm
  simp [Block.escapeTriples] at h

/-- An escaped text that ends its last line before the closing quotes is read back with the
end of that line. -/
theorem unfence_escapeTriples (s rest : List Char) (hs : ∀ c ∈ s, isSource c) :
  unfence (Block.escapeTriples s ++ '\n' :: '"' :: '"' :: '"' :: rest)
    = some (s ++ ['\n'], rest)
  := by
  fun_induction Block.escapeTriples s with
  | case1 others ih =>
    have hothers : ∀ c ∈ others, isSource c := fun c hc => hs c (by simp [hc])
    simp only [List.cons_append, unfence, ih hothers, Option.map_some]
  | case2 c others hc ih =>
    have hothers : ∀ c ∈ others, isSource c := fun c hc => hs c (by simp [hc])
    have hsource : isSource c := hs c (by simp)
    rw [List.cons_append, unfence]
    · rw [if_pos hsource, ih hothers]
      rfl
    · intro u _ hu
      exact escapeTriples_ne_quotes others _ u hu
    · intro u hquote hu
      -- two more quotes would make a triple of the text, which is another case
      obtain ⟨s, rfl, h⟩ := eq_cons_of_escapeTriples hu
      obtain ⟨s, rfl, -⟩ := eq_cons_of_escapeTriples h.symm
      exact hc s hquote rfl
  | case3 => rfl

/-! ## The string denoted -/

/-- The first line of a raw text and the lines after it.  A line ends with a line feed, with
a carriage return or with both. -/
def splitLines : List Char → List Char × List (List Char)
  | [] => ([], [])
  | '\r' :: '\n' :: rest => ([], (splitLines rest).1 :: (splitLines rest).2)
  | c :: rest =>
    if isLineEnd c then ([], (splitLines rest).1 :: (splitLines rest).2)
    else (c :: (splitLines rest).1, (splitLines rest).2)

/-- The number of characters of white space at the front of a line. -/
def leadingSpace (line : List Char) : Nat := (line.takeWhile isWhiteSpace).length

/-- Whether a line holds white space only. -/
def isWhite (line : List Char) : Bool := line.all isWhiteSpace

/-- The least indentation of the lines that hold more than white space. -/
def leastIndent? (lines : List (List Char)) : Option Nat :=
  ((lines.filter fun line => leadingSpace line < line.length).map leadingSpace).min?

/-- The lines without the indentation that they have in common. -/
def dedent (lines : List (List Char)) : List (List Char) :=
  match leastIndent? lines with
  | some n => lines.map (·.drop n)
  | none => lines

/-- The lines without those of white space at both ends. -/
def trimLines (lines : List (List Char)) : List (List Char) :=
  (lines.dropWhile isWhite).rdropWhile isWhite

/-- The string that a raw text denotes: all lines but the first lose the indentation that
they have in common, and the white lines at both ends go. -/
def blockValue (raw : List Char) : List Char :=
  List.intercalate ['\n'] (trimLines ((splitLines raw).1 :: dedent (splitLines raw).2))

theorem isWhite_eq_isBlank (line : List Char) :
  isWhite line = Block.isBlank line
  := rfl

theorem leadingSpace_eq_indent (line : List Char) :
  leadingSpace line = Block.indent line
  := rfl

theorem leadingSpace_lt_iff (line : List Char) :
  leadingSpace line < line.length ↔ isWhite line = false
  := by
  induction line with
  | nil => simp [leadingSpace, isWhite]
  | cons c line ih =>
    by_cases hc : isWhiteSpace c
    · simpa [leadingSpace, isWhite, hc] using ih
    · simp [leadingSpace, isWhite, hc]

theorem leastIndent?_eq_commonIndent? (lines : List (List Char)) :
  leastIndent? lines = Block.commonIndent? lines
  := by
  have hfilter : (lines.filter fun line => leadingSpace line < line.length)
      = lines.filter fun line => !Block.isBlank line := by
    apply List.filter_congr
    intro line _
    simp [leadingSpace_lt_iff, isWhite_eq_isBlank]
  rw [leastIndent?, hfilter]
  rfl

/-- A line of more than white space that is flush left leaves nothing in common. -/
theorem leastIndent?_eq_zero {lines : List (List Char)} {line : List Char}
    (hmem : line ∈ lines) (hwhite : isWhite line = false) (hflush : leadingSpace line = 0) :
  leastIndent? lines = some 0
  := by
  have hzero : 0 ∈ (lines.filter fun line => leadingSpace line < line.length).map leadingSpace := by
    apply List.mem_map.mpr
    use line
    simp only [List.mem_filter, hmem, true_and, hflush, and_true, decide_eq_true_eq]
    rw [← hflush, leadingSpace_lt_iff]
    exact hwhite
  exact List.min?_eq_some_iff.mpr ⟨hzero, fun n _ => Nat.zero_le n⟩

/-- Lines without indentation in common have one that is flush left. -/
theorem exists_of_leastIndent? {lines : List (List Char)} (h : leastIndent? lines = some 0) :
  ∃ line ∈ lines, isWhite line = false ∧ leadingSpace line = 0
  := by
  have hzero := (List.min?_eq_some_iff.mp h).1
  simp only [List.mem_map, List.mem_filter, decide_eq_true_eq, leadingSpace_lt_iff] at hzero
  obtain ⟨line, ⟨hmem, hwhite⟩, hflush⟩ := hzero
  use line

/-- Where no line holds more than white space, a last line that does is the only one. -/
theorem eq_nil_of_leastIndent? {first : List Char} {others : List (List Char)}
    (h : leastIndent? others = none) (hlast : isWhite (others.getLastD first) = false) :
  others = []
  := by
  rw [leastIndent?, List.min?_eq_none_iff, List.map_eq_nil_iff, List.filter_eq_nil_iff] at h
  by_contra hne
  have hmem : others.getLastD first ∈ others := by
    rw [List.getLastD_eq_getLast?, List.getLast?_eq_some_getLast hne]
    exact List.getLast_mem hne
  apply h _ hmem
  rw [decide_eq_true_eq, leadingSpace_lt_iff]
  exact hlast

theorem dedent_eq_self {lines : List (List Char)} (h : leastIndent? lines = some 0) :
  dedent lines = lines
  := by simp [dedent, h]

/-- White lines around lines of which the first and the last hold more are trimmed. -/
theorem trimLines_eq {first : List Char} {others : List (List Char)}
    (hfirst : isWhite first = false) (hlast : isWhite (others.getLastD first) = false) :
  trimLines (first :: (others ++ [[]])) = first :: others
  := by
  have hne : first :: others ≠ [] := by simp
  have hlast' : isWhite ((first :: others).getLast hne) = false := by
    rw [← hlast, List.getLast_eq_getLastD]
  rw [trimLines, List.dropWhile_cons_of_neg (by simp [hfirst]), ← List.cons_append,
    List.rdropWhile_concat_pos _ _ _ (by rfl), List.rdropWhile_eq_self_iff]
  simp [hlast']

/-! ## Printed literals -/

/-- A text without carriage returns has the lines of which it was laid out. -/
theorem splitLines_eq_lines {s : List Char} (h : '\r' ∉ s) :
  splitLines s = Block.lines s
  := by
  fun_induction splitLines s with
  | case1 => rfl
  | case2 => simp at h
  | case3 c rest hc hend ih =>
    obtain ⟨hreturn, hrest⟩ : '\r' ≠ c ∧ '\r' ∉ rest := by simpa using h
    have hline : c = '\n' := by
      simp only [isLineEnd, decide_eq_true_eq] at hend
      exact hend.resolve_right (Ne.symm hreturn)
    simp [Block.lines, ih hrest, hline]
  | case4 c rest hc hend ih =>
    obtain ⟨-, hrest⟩ : '\r' ≠ c ∧ '\r' ∉ rest := by simpa using h
    have hline : c ≠ '\n' := by
      rintro rfl
      simp [isLineEnd] at hend
    simp [Block.lines, ih hrest, hline]

theorem lines_concat (s : List Char) :
  Block.lines (s ++ ['\n']) = ((Block.lines s).1, (Block.lines s).2 ++ [[]])
  := by
  induction s with
  | nil => rfl
  | cons c s ih =>
    simp only [List.cons_append, Block.lines, ih]
    split
    · rfl
    · rfl

/-- The lines of a text, put together again. -/
theorem intercalate_lines (s : List Char) :
  List.intercalate ['\n'] ((Block.lines s).1 :: (Block.lines s).2) = s
  := by
  induction s with
  | nil => rfl
  | cons c s ih =>
    simp only [Block.lines]
    split
    case isTrue hc => rw [List.intercalate_cons_cons, ih, hc]; rfl
    case isFalse hc =>
      cases hothers : (Block.lines s).2 with
      | nil => simp_all
      | cons => simp_all [List.intercalate_cons_cons]

/-- What stands between the opening quotes of a block literal and its string. -/
def leadIn : Block.Placement → List Char
  | .inline => []
  | .ownLine => ['\n']

theorem isSource_of_not_isControl {c : Char} (h : Block.isControl c = false) :
  isSource c
  := by
  simp only [Block.isControl, decide_eq_false_iff_not, not_and] at h
  simp only [isSource, decide_eq_true_eq]
  grind

theorem not_mem_return {s : List Char} (h : s.any Block.isControl = false) :
  '\r' ∉ s
  := by
  intro hmem
  have hcontrol := List.any_eq_false.mp h '\r' hmem
  simp [Block.isControl] at hcontrol

/-- A string with a placement holds only characters that may stand in a document, and no
carriage return. -/
theorem source_of_placement? {s : List Char} {p : Block.Placement}
    (h : Block.placement? s = some p) :
  (∀ c ∈ s, isSource c) ∧ '\r' ∉ s
  := by
  rw [Block.placement?] at h
  split at h
  case isTrue => contradiction
  case isFalse hcontrol =>
    have hcontrol' : s.any Block.isControl = false := by simpa using hcontrol
    constructor
    · intro c hc
      apply isSource_of_not_isControl
      simpa using List.any_eq_false.mp hcontrol' c hc
    · exact not_mem_return hcontrol'

/-- A string of which a line is flush left is what its block literal denotes when it begins on
a line of its own. -/
theorem blockValue_ownLine {s : List Char} (hreturn : '\r' ∉ s)
    (hfirst : isWhite (Block.lines s).1 = false)
    (hlast : isWhite ((Block.lines s).2.getLastD (Block.lines s).1) = false)
    (hflush : leadingSpace (Block.lines s).1 = 0 ∨ leastIndent? (Block.lines s).2 = some 0) :
  blockValue ('\n' :: s ++ ['\n']) = s
  := by
  have hlines : splitLines ('\n' :: s ++ ['\n'])
      = ([], (Block.lines s).1 :: ((Block.lines s).2 ++ [[]])) := by
    rw [splitLines_eq_lines (by simp [hreturn]), lines_concat]
    rfl
  have hcommon : leastIndent? ((Block.lines s).1 :: ((Block.lines s).2 ++ [[]])) = some 0 := by
    rcases hflush with h | h
    · exact leastIndent?_eq_zero List.mem_cons_self hfirst h
    · obtain ⟨line, hmem, hline⟩ := exists_of_leastIndent? h
      apply leastIndent?_eq_zero _ hline.1 hline.2
      simp [hmem]
  rw [blockValue, hlines, dedent_eq_self hcommon, trimLines, List.dropWhile_cons_of_pos (by rfl),
    ← trimLines, trimLines_eq hfirst hlast, intercalate_lines]

/-- A string of a single line is what its block literal denotes when it begins right behind
the quotes. -/
theorem blockValue_inline {s : List Char} (hreturn : '\r' ∉ s)
    (hfirst : isWhite (Block.lines s).1 = false) (hsingle : (Block.lines s).2 = []) :
  blockValue (s ++ ['\n']) = s
  := by
  have hlines : splitLines (s ++ ['\n']) = ((Block.lines s).1, [[]]) := by
    rw [splitLines_eq_lines (by simp [hreturn]), lines_concat, hsingle]
    rfl
  have htrim : trimLines [(Block.lines s).1, []] = [(Block.lines s).1] :=
    @trimLines_eq _ [] hfirst hfirst
  have hjoin := intercalate_lines s
  rw [hsingle] at hjoin
  rw [blockValue, hlines]
  exact htrim ▸ hjoin

/-- A string that has a placement is what its block literal denotes. -/
theorem blockValue_of_placement? {s : List Char} {p : Block.Placement}
    (h : Block.placement? s = some p) :
  blockValue (leadIn p ++ s ++ ['\n']) = s
  := by
  obtain ⟨-, hreturn⟩ := source_of_placement? h
  rw [Block.placement?] at h
  split at h
  case isTrue => contradiction
  split at h
  case isTrue hnil =>
    cases h
    subst hnil
    rfl
  case isFalse =>
  rw [Block.linesPlacement?] at h
  split at h
  case isTrue => contradiction
  case isFalse hblank =>
  obtain ⟨hfirst, hlast⟩ := not_or.mp hblank
  simp only [Bool.not_eq_true, ← isWhite_eq_isBlank] at hfirst hlast
  simp only [← leadingSpace_eq_indent, ← leastIndent?_eq_commonIndent?] at h
  split at h
  case h_1 hflush =>
    cases h
    exact blockValue_ownLine hreturn hfirst hlast (.inl hflush)
  case h_2 hzero _ =>
    cases h
    exact blockValue_ownLine hreturn hfirst hlast (.inr hzero)
  case h_3 hnone _ =>
    cases h
    exact blockValue_inline hreturn hfirst (eq_nil_of_leastIndent? hnone hlast)
  case h_4 => contradiction

end GraphQLText.Grammar
