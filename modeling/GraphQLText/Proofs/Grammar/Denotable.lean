import GraphQLText.Proofs.Grammar.Lossless

/-!
# What block literals denote

`Block.placement?` finds a place for a string in a block literal whenever any block literal
denotes the string.  The lines of a string that a raw text denotes hold source characters only,
the first and the last of them hold more than white space, and once the indentation that they
have in common is gone one of them is flush left, unless it is a single line that kept its own
(`flush_of_trimLines`).  These are all the conditions that a placement asks for, so a string that
is to be written as a block is quoted only where it has to be (`placement?_isSome_iff`).
-/

namespace GraphQLText

namespace Grammar

/-! ## Lines of a raw text -/

/-- A line of a raw text holds characters of it, none of which ends a line. -/
theorem mem_of_mem_splitLines {raw line : List Char} {c : Char}
    (h : line ∈ (splitLines raw).1 :: (splitLines raw).2) (hc : c ∈ line) :
  c ∈ raw ∧ isLineEnd c = false
  := by
  fun_induction splitLines raw generalizing line with
  | case1 =>
    obtain rfl := List.mem_singleton.mp h
    simp at hc
  | case2 rest ih =>
    rcases List.mem_cons.mp h with rfl | h
    · simp at hc
    · apply (ih h hc).imp_left
      intro hrest
      simp [hrest]
  | case3 d rest _ hend ih =>
    rcases List.mem_cons.mp h with rfl | h
    · simp at hc
    · apply (ih h hc).imp_left
      exact List.mem_cons_of_mem d
  | case4 d rest _ hend ih =>
    have hrest : ∀ {line}, line ∈ (splitLines rest).1 :: (splitLines rest).2 → c ∈ line →
        c ∈ d :: rest ∧ isLineEnd c = false :=
      fun h hc => (ih h hc).imp_left (List.mem_cons_of_mem d)
    rcases List.mem_cons.mp h with rfl | h
    · rcases List.mem_cons.mp hc with rfl | hc
      · simpa using hend
      · apply hrest List.mem_cons_self hc
    · apply hrest (List.mem_cons_of_mem _ h) hc

/-- Characters within a line at the front of a text go on with its first line. -/
theorem lines_append {line : List Char} (h : '\n' ∉ line) (cs : List Char) :
  Block.lines (line ++ cs) = (line ++ (Block.lines cs).1, (Block.lines cs).2)
  := by
  induction line with
  | nil => rfl
  | cons c line ih =>
    obtain ⟨hc, hline⟩ : '\n' ≠ c ∧ '\n' ∉ line := by simpa using h
    simp [Block.lines, ih hline, Ne.symm hc]

/-- The lines of a text that was put together from lines. -/
theorem lines_intercalate {first : List Char} {others : List (List Char)}
    (h : ∀ line ∈ first :: others, '\n' ∉ line) :
  Block.lines (List.intercalate ['\n'] (first :: others)) = (first, others)
  := by
  induction others generalizing first with
  | nil =>
    have hfirst : '\n' ∉ first := h first List.mem_cons_self
    rw [List.intercalate_singleton]
    simpa [Block.lines] using lines_append hfirst []
  | cons second others ih =>
    obtain ⟨hfirst, hothers⟩ := List.forall_mem_cons.mp h
    have hline : Block.lines ('\n' :: List.intercalate ['\n'] (second :: others))
        = ([], second :: others) := by
      simp [Block.lines, ih hothers]
    rw [List.intercalate_cons_cons, List.append_assoc, lines_append hfirst, List.singleton_append,
      hline, List.append_nil]

/-! ## Trimmed lines -/

/-- No line of more than white space is trimmed. -/
theorem filter_trimLines (lines : List (List Char)) :
  (trimLines lines).filter (!isWhite ·) = lines.filter (!isWhite ·)
  := by
  have hdrop (ls : List (List Char)) :
      (ls.dropWhile isWhite).filter (!isWhite ·) = ls.filter (!isWhite ·) := by
    induction ls with
    | nil => rfl
    | cons line ls ih =>
      by_cases hline : isWhite line
      · simp [hline, ih]
      · simp [hline]
  rw [trimLines, List.rdropWhile, List.filter_reverse, hdrop, List.filter_reverse, hdrop,
    List.reverse_reverse]

theorem mem_of_mem_trimLines {lines : List (List Char)} {line : List Char}
    (h : line ∈ trimLines lines) :
  line ∈ lines
  := by
  apply (List.dropWhile_sublist isWhite).mem
  apply (List.rdropWhile_prefix isWhite _).mem h

/-- Trimmed lines begin and end with one of more than white space. -/
theorem not_isWhite_of_trimLines {lines others : List (List Char)} {first : List Char}
    (h : trimLines lines = first :: others) :
  isWhite first = false ∧ isWhite (others.getLastD first) = false
  := by
  have hne : trimLines lines ≠ [] := by simp [h]
  constructor
  · obtain ⟨rest, hrest⟩ := List.rdropWhile_prefix isWhite (lines.dropWhile isWhite)
    rw [← trimLines, h, List.cons_append] at hrest
    have hhead := List.head?_dropWhile_not isWhite lines
    rw [← hrest] at hhead
    simpa using hhead
  · have hlast := List.rdropWhile_last_not isWhite (lines.dropWhile isWhite) hne
    have heq : (lines.dropWhile isWhite).rdropWhile isWhite = first :: others := h
    simp only [heq, List.getLast_eq_getLastD] at hlast
    simpa using hlast

/-! ## Lines without common indentation -/

/-- The indentation that lines have in common is that of the lines of more than white space. -/
theorem leastIndent?_eq (lines : List (List Char)) :
  leastIndent? lines = ((lines.filter (!isWhite ·)).map leadingSpace).min?
  := by
  rw [leastIndent?]
  congr 3
  funext line
  simp [leadingSpace_lt_iff]

/-- What is left of a line without its leading white space. -/
theorem drop_leadingSpace (line : List Char) :
  line.drop (leadingSpace line) = line.dropWhile isWhiteSpace
  := by
  induction line with
  | nil => rfl
  | cons c line ih =>
    by_cases hc : isWhiteSpace c
    · simpa [leadingSpace, hc] using ih
    · simp [leadingSpace, hc]

/-- Lines without the indentation that they had in common have no more of it. -/
theorem leastIndent?_dedent {lines : List (List Char)} {n : Nat}
    (h : leastIndent? lines = some n) :
  leastIndent? (dedent lines) = some 0
  := by
  have hn := h
  rw [leastIndent?_eq] at hn
  obtain ⟨line, hline, rfl⟩ := List.mem_map.mp (List.min?_eq_some_iff.mp hn).1
  obtain ⟨hmem, hwhite⟩ := List.mem_filter.mp hline
  have hleft : line.dropWhile isWhiteSpace ∈ dedent lines := by
    rw [dedent, h, ← drop_leadingSpace]
    apply List.mem_map_of_mem hmem
  have hflush : leadingSpace (line.dropWhile isWhiteSpace) = 0 := by
    rw [leadingSpace, List.length_eq_zero_iff, List.takeWhile_eq_nil_iff]
    apply List.dropWhile_get_zero_not
  have hwhite' : isWhite (line.dropWhile isWhiteSpace) = false := by
    rw [← leadingSpace_lt_iff, hflush, List.length_pos_iff, ne_eq, List.dropWhile_eq_nil_iff]
    simpa [isWhite] using hwhite
  apply leastIndent?_eq_zero hleft hwhite' hflush

/-- Trimmed lines of which all but the first were freed from common indentation: one of them is
flush left, or all after the first hold white space only. -/
theorem flush_of_trimLines {first first' : List Char} {others others' : List (List Char)}
    (h : trimLines (first' :: dedent others') = first :: others) :
  leadingSpace first = 0 ∨ leastIndent? others = some 0 ∨ leastIndent? others = none
  := by
  have hcommon : leastIndent? (dedent others') = some 0 ∨ leastIndent? (dedent others') = none := by
    cases hothers : leastIndent? others' with
    | none => simp [dedent, hothers]
    | some n => simp [leastIndent?_dedent hothers]
  have hfirst : isWhite first = false := (not_isWhite_of_trimLines h).1
  have hfilter := filter_trimLines (first' :: dedent others')
  rw [h] at hfilter
  cases hfirst' : isWhite first' with
  | false =>
    -- the first line is still the first, so the others have kept their indentation
    right
    simp only [List.filter_cons, hfirst, hfirst', Bool.not_false, if_true, List.cons.injEq]
      at hfilter
    rwa [leastIndent?_eq, hfilter.2, ← leastIndent?_eq]
  | true =>
    -- the first line is one of those that were freed from their indentation
    have hothers : (first' :: dedent others').filter (!isWhite ·)
        = (dedent others').filter (!isWhite ·) := by
      simp [hfirst']
    rw [leastIndent?_eq, ← hothers, ← hfilter, ← leastIndent?_eq] at hcommon
    rcases hcommon with hzero | hnone
    · obtain ⟨line, hmem, hwhite, hflush⟩ := exists_of_leastIndent? hzero
      rcases List.mem_cons.mp hmem with rfl | hmem
      · left
        apply hflush
      · right
        left
        apply leastIndent?_eq_zero hmem hwhite hflush
    · simp [leastIndent?_eq, hfirst] at hnone

/-! ## The placement of what is denoted -/

theorem not_isControl_of_isSource {c : Char} (hc : isSource c) (hend : isLineEnd c = false) :
  Block.isControl c = false
  := by
  simp only [isSource, isLineEnd, Block.isControl, decide_eq_true_eq, decide_eq_false_iff_not]
    at hc hend ⊢
  grind

/-- A character of lines that were put together is one of a line or the end of a line. -/
theorem mem_of_mem_intercalate {lines : List (List Char)} {c : Char}
    (h : c ∈ List.intercalate ['\n'] lines) :
  c = '\n' ∨ ∃ line ∈ lines, c ∈ line
  := by
  induction lines with
  | nil => simp at h
  | cons first others ih =>
    cases others with
    | nil =>
      right
      use first, List.mem_cons_self
      rwa [List.intercalate_singleton] at h
    | cons second others =>
      rw [List.intercalate_cons_cons, List.append_assoc] at h
      rcases List.mem_append.mp h with h | h
      · right
        use first, List.mem_cons_self
      · rcases List.mem_cons.mp h with rfl | h
        · left
          rfl
        · apply (ih h).imp_right
          rintro ⟨line, hline, hc⟩
          use line, List.mem_cons_of_mem first hline

/-- A line of the string that a raw text denotes holds characters of the text, none of which ends
a line. -/
theorem mem_of_mem_blockLines {raw line : List Char} {c : Char}
    (h : line ∈ trimLines ((splitLines raw).1 :: dedent (splitLines raw).2)) (hc : c ∈ line) :
  c ∈ raw ∧ isLineEnd c = false
  := by
  rcases List.mem_cons.mp (mem_of_mem_trimLines h) with rfl | h
  · apply mem_of_mem_splitLines List.mem_cons_self hc
  · obtain ⟨line', hmem, hsub⟩ : ∃ line' ∈ (splitLines raw).2, c ∈ line' := by
      rw [dedent] at h
      split at h
      case h_1 n _ =>
        obtain ⟨line', hmem, rfl⟩ := List.mem_map.mp h
        use line', hmem, List.mem_of_mem_drop hc
      case h_2 => use line
    apply mem_of_mem_splitLines (List.mem_cons_of_mem _ hmem) hsub

/-- Lines of which the first and the last hold more than white space have a placement, if one is
flush left or none after the first holds more than white space. -/
theorem linesPlacement?_isSome {first : List Char} {others : List (List Char)}
    (hfirst : isWhite first = false) (hlast : isWhite (others.getLastD first) = false)
    (hflush : leadingSpace first = 0 ∨ leastIndent? others = some 0 ∨ leastIndent? others = none) :
  (Block.linesPlacement? first others).isSome
  := by
  simp only [leadingSpace_eq_indent, leastIndent?_eq_commonIndent?] at hflush
  rw [Block.linesPlacement?, ← isWhite_eq_isBlank, ← isWhite_eq_isBlank, hfirst, hlast,
    if_neg (by simp)]
  split
  case h_4 => simp_all
  all_goals rfl

/-- What a raw text of source characters denotes has a placement. -/
theorem placement?_blockValue {raw : List Char} (h : ∀ c ∈ raw, isSource c) :
  (Block.placement? (blockValue raw)).isSome
  := by
  rw [blockValue]
  cases hlines : trimLines ((splitLines raw).1 :: dedent (splitLines raw).2) with
  | nil => rfl
  | cons first others =>
    have hmem : ∀ line ∈ first :: others, ∀ c ∈ line, c ∈ raw ∧ isLineEnd c = false := by
      rw [← hlines]
      intro line hline c hc
      apply mem_of_mem_blockLines hline hc
    have hcontrol : (List.intercalate ['\n'] (first :: others)).any Block.isControl = false := by
      apply List.any_eq_false.mpr
      intro c hc
      rw [Bool.not_eq_true]
      rcases mem_of_mem_intercalate hc with rfl | ⟨line, hline, hc⟩
      · rfl
      · obtain ⟨hraw, hend⟩ := hmem line hline c hc
        apply not_isControl_of_isSource (h c hraw) hend
    have hsplit : Block.lines (List.intercalate ['\n'] (first :: others)) = (first, others) := by
      apply lines_intercalate
      intro line hline hc
      have hend := (hmem line hline '\n' hc).2
      contradiction
    obtain ⟨hfirst, hlast⟩ := not_isWhite_of_trimLines hlines
    rw [Block.placement?, if_neg (by simp [hcontrol]), hsplit]
    split
    · rfl
    · apply linesPlacement?_isSome hfirst hlast (flush_of_trimLines hlines)

/-- A string has a placement just if it is what some text of source characters denotes in a block
literal. -/
theorem placement?_isSome_iff (s : List Char) :
  (Block.placement? s).isSome ↔ ∃ raw, (∀ c ∈ raw, isSource c) ∧ blockValue raw = s
  := by
  constructor
  · intro h
    obtain ⟨p, hp⟩ := Option.isSome_iff_exists.mp h
    use leadIn p ++ s ++ ['\n']
    constructor
    · intro c hc
      rw [List.mem_append, List.mem_append] at hc
      rcases hc with (hc | hc) | hc
      · cases p with
        | inline => contradiction
        | ownLine =>
          obtain rfl := List.mem_singleton.mp hc
          rfl
      · apply (source_of_placement? hp).1 c hc
      · obtain rfl := List.mem_singleton.mp hc
        rfl
    · apply blockValue_of_placement? hp
  · rintro ⟨raw, hraw, rfl⟩
    apply placement?_blockValue hraw

/-! ## Literals of a string -/

theorem mem_of_mem_unescapeTriples {raw : List Char} {c : Char} (h : c ∈ unescapeTriples raw) :
  c ∈ raw
  := by
  fun_induction unescapeTriples raw with
  | case1 rest ih =>
    simp only [List.mem_cons] at h ⊢
    tauto
  | case2 d rest _ ih =>
    simp only [List.mem_cons] at h ⊢
    apply h.imp_right ih
  | case3 => contradiction

/-- Every string with a placement has a block literal. -/
theorem exists_isBlockLiteral {s : List Char} (h : (Block.placement? s).isSome) :
  ∃ literal, IsBlockLiteral literal [] s
  := by
  obtain ⟨p, hp⟩ := Option.isSome_iff_exists.mp h
  use Block.encode p s
  have hliteral := isLiteral_of_literal? (literal?_encode_block hp [])
  simpa using hliteral

theorem placement?_of_isBlockLiteral {literal rest s : List Char}
    (h : IsBlockLiteral literal rest s) :
  (Block.placement? s).isSome
  := by
  obtain ⟨raw, -, -, hsource, rfl⟩ := h
  apply placement?_blockValue
  intro c hc
  apply hsource c (mem_of_mem_unescapeTriples hc)

end Grammar

open Grammar

/-- A string that is to be written as a block has a placement just if a raw text of source
characters denotes it, and it is quoted just if no block literal does, whatever follows the
literal. -/
theorem StringValue.ofBlock_placed_iff (v : String) :
  ((ofBlock v).placement?.isSome
      ↔ ∃ raw : List Char, (∀ c ∈ raw, isSource c) ∧ blockValue raw = v.toList)
    ∧ ((ofBlock v).placement? = none
      ↔ ∀ literal rest, ¬IsBlockLiteral literal rest v.toList)
  := by
  have hplace : (ofBlock v).placement? = Block.placement? v.toList := rfl
  rw [hplace]
  constructor
  · apply placement?_isSome_iff
  · constructor
    · intro hnone literal rest hliteral
      have hsome := placement?_of_isBlockLiteral hliteral
      rw [hnone] at hsome
      contradiction
    · intro h
      by_contra hne
      obtain ⟨literal, hliteral⟩ := exists_isBlockLiteral (Option.isSome_iff_ne_none.mpr hne)
      apply h literal [] hliteral

end GraphQLText
