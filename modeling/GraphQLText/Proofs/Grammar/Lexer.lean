import GraphQLText.Proofs.Grammar.Literal

/-!
# Reading tokens

`token?` reads the longest token at the front of a text and `tokens` all tokens of a text.
Each sort of token is read back where the text after it does not go on with it
(`token?_name`, `token?_int`, `token?_float`, `token?_literal`).
-/

namespace GraphQLText.Grammar

/-! ## Numbers -/

/-- A sign at the front of a text, if it is one of the given ones, and the text after it. -/
def splitSign (signs : List Char) : List Char → List Char × List Char
  | c :: rest => if c ∈ signs then ([c], rest) else ([], c :: rest)
  | [] => ([], [])

/-- The whole part of a number at the front of a text. -/
def integerPart? (cs : List Char) : Option (List Char × List Char) :=
  let split := splitSign ['-'] cs
  let ds := split.2.takeWhile Char.isDigit
  if ds = [] ∨ (ds.head? = some '0' ∧ ds ≠ ['0']) then none
  else some (split.1 ++ ds, split.2.dropWhile Char.isDigit)

/-- The fraction of a number at the front of a text, which may be missing. -/
def fractionalPart? : List Char → Option (List Char × List Char)
  | '.' :: rest =>
    let ds := rest.takeWhile Char.isDigit
    if ds = [] then none else some ('.' :: ds, rest.dropWhile Char.isDigit)
  | cs => some ([], cs)

/-- The exponent of a number at the front of a text, which may be missing. -/
def exponentPart? : List Char → Option (List Char × List Char)
  | [] => some ([], [])
  | c :: cs =>
    if c = 'e' ∨ c = 'E' then
      let split := splitSign ['+', '-'] cs
      let ds := split.2.takeWhile Char.isDigit
      if ds = [] then none
      else some (c :: (split.1 ++ ds), split.2.dropWhile Char.isDigit)
    else some ([], c :: cs)

/-- Whether a number may not be followed by a character. -/
def clingsToNumber (c : Char) : Bool := c.isDigit ∨ c = '.' ∨ isNameStart c

/-- The number at the front of a text. -/
def number? (cs : List Char) : Option (Token × List Char) :=
  (integerPart? cs).bind fun (whole, cs) =>
    (fractionalPart? cs).bind fun (fraction, cs) =>
      (exponentPart? cs).bind fun (exponent, rest) =>
        if rest.head?.any clingsToNumber then none
        else
          let text := String.ofList (whole ++ (fraction ++ exponent))
          some (if fraction ++ exponent = [] then .int text else .float text, rest)

/-! ## Tokens -/

/-- The token at the front of a text, and what is left after it. -/
def token? : List Char → Option (Token × List Char)
  | [] => none
  | '.' :: '.' :: '.' :: rest => some (.punctuator .spread, rest)
  | c :: rest =>
    if c = '"' then (literal? (c :: rest)).map fun (s, rest) => (.string s, rest)
    else if isNameStart c then
      some (.name (String.ofList (c :: rest.takeWhile isNameContinue)),
        rest.dropWhile isNameContinue)
    else
      match Punctuator.ofChar? c with
      | some p => some (.punctuator p, rest)
      | none => number? (c :: rest)

/-! ## What is left is shorter -/

theorem length_dropWhile_le (p : Char → Bool) (cs : List Char) :
  (cs.dropWhile p).length ≤ cs.length
  := (List.dropWhile_sublist p).length_le

theorem length_splitSign_le (signs cs : List Char) :
  (splitSign signs cs).2.length ≤ cs.length
  := by
  cases cs with
  | nil => simp [splitSign]
  | cons c cs =>
    rw [splitSign]
    split
    · simp
    · simp

theorem eq_some_of_map_consFirst {c : Char} {r : Option (List Char × List Char)}
    {s rest : List Char} (h : r.map (consFirst c) = some (s, rest)) :
  ∃ s', r = some (s', rest)
  := by
  obtain ⟨⟨s', rest'⟩, h, heq⟩ := Option.map_eq_some_iff.mp h
  cases heq
  use s'

theorem length_unquote_lt {cs s rest : List Char} (h : unquote cs = some (s, rest)) :
  rest.length < cs.length
  := by
  fun_induction unquote cs generalizing s with
  | case1 rest =>
    cases h
    simp
  | case2 a b c d others ih =>
    obtain ⟨code, -, h⟩ := Option.bind_eq_some_iff.mp h
    obtain ⟨s', h⟩ := eq_some_of_map_consFirst h
    have hlt := ih h
    simp only [List.length_cons]
    omega
  | case3 e others _ ih =>
    obtain ⟨c, -, h⟩ := Option.bind_eq_some_iff.mp h
    obtain ⟨s', h⟩ := eq_some_of_map_consFirst h
    have hlt := ih h
    simp only [List.length_cons]
    omega
  | case4 c others _ _ _ _ ih =>
    obtain ⟨s', h⟩ := eq_some_of_map_consFirst h
    have hlt := ih h
    simp only [List.length_cons]
    omega
  | case5 => contradiction
  | case6 => contradiction

theorem length_unfence_lt {cs raw rest : List Char} (h : unfence cs = some (raw, rest)) :
  rest.length < cs.length
  := by
  fun_induction unfence cs generalizing raw with
  | case1 others ih =>
    obtain ⟨⟨raw', rest'⟩, h, heq⟩ := Option.map_eq_some_iff.mp h
    cases heq
    have hlt := ih h
    simp only [List.length_cons]
    omega
  | case2 rest =>
    cases h
    simp only [List.length_cons]
    omega
  | case3 c others _ _ _ ih =>
    obtain ⟨raw', h⟩ := eq_some_of_map_consFirst h
    have hlt := ih h
    simp only [List.length_cons]
    omega
  | case4 => contradiction
  | case5 => contradiction

theorem length_literal?_lt {cs rest : List Char} {s : StringValue}
    (h : literal? cs = some (s, rest)) :
  rest.length < cs.length
  := by
  revert h
  fun_cases literal? cs with
  | case1 others =>
    intro h
    obtain ⟨⟨raw, rest'⟩, h, heq⟩ := Option.map_eq_some_iff.mp h
    cases heq
    have hlt := length_unfence_lt h
    simp only [List.length_cons]
    omega
  | case2 others =>
    intro h
    obtain ⟨⟨raw, rest'⟩, h, heq⟩ := Option.map_eq_some_iff.mp h
    cases heq
    have hlt := length_unquote_lt h
    simp only [List.length_cons]
    omega
  | case3 =>
    intro h
    contradiction

theorem length_integerPart?_lt {cs whole rest : List Char}
    (h : integerPart? cs = some (whole, rest)) :
  rest.length < cs.length
  := by
  rw [integerPart?] at h
  split at h
  case isTrue => contradiction
  case isFalse hds =>
    cases h
    have hsign := length_splitSign_le ['-'] cs
    have hsplit := List.takeWhile_append_dropWhile (p := Char.isDigit)
      (l := (splitSign ['-'] cs).2)
    have hlength := congrArg List.length hsplit
    have hpos : 0 < ((splitSign ['-'] cs).2.takeWhile Char.isDigit).length :=
      List.length_pos_iff.mpr fun hnil => hds (.inl hnil)
    rw [List.length_append] at hlength
    omega

theorem length_fractionalPart?_le {cs fraction rest : List Char}
    (h : fractionalPart? cs = some (fraction, rest)) :
  rest.length ≤ cs.length
  := by
  revert h
  fun_cases fractionalPart? cs with
  | case1 =>
    intro h
    contradiction
  | case2 others =>
    intro h
    cases h
    exact (length_dropWhile_le _ _).trans (Nat.le_succ _)
  | case3 =>
    intro h
    cases h
    exact Nat.le_refl _

theorem length_exponentPart?_le {cs exponent rest : List Char}
    (h : exponentPart? cs = some (exponent, rest)) :
  rest.length ≤ cs.length
  := by
  revert h
  fun_cases exponentPart? cs with
  | case1 =>
    intro h
    cases h
    exact Nat.le_refl _
  | case2 =>
    intro h
    contradiction
  | case3 c others =>
    intro h
    cases h
    have hsign := length_splitSign_le ['+', '-'] others
    have hdrop := length_dropWhile_le Char.isDigit (splitSign ['+', '-'] others).2
    exact (hdrop.trans hsign).trans (Nat.le_succ _)
  | case4 =>
    intro h
    cases h
    exact Nat.le_refl _

theorem length_number?_lt {cs rest : List Char} {t : Token} (h : number? cs = some (t, rest)) :
  rest.length < cs.length
  := by
  obtain ⟨⟨whole, cs₁⟩, hwhole, h⟩ := Option.bind_eq_some_iff.mp h
  obtain ⟨⟨fraction, cs₂⟩, hfraction, h⟩ := Option.bind_eq_some_iff.mp h
  obtain ⟨⟨exponent, cs₃⟩, hexponent, h⟩ := Option.bind_eq_some_iff.mp h
  have h₁ := length_integerPart?_lt hwhole
  have h₂ := length_fractionalPart?_le hfraction
  have h₃ := length_exponentPart?_le hexponent
  dsimp only at h
  split at h
  case isTrue => contradiction
  case isFalse =>
    cases h
    omega

/-- A token takes at least one character. -/
theorem length_token?_lt {cs rest : List Char} {t : Token} (h : token? cs = some (t, rest)) :
  rest.length < cs.length
  := by
  revert h
  fun_cases token? cs with
  | case1 =>
    intro h
    contradiction
  | case2 others =>
    intro h
    cases h
    simp only [List.length_cons]
    omega
  | case3 others =>
    intro h
    obtain ⟨⟨s, rest'⟩, h, heq⟩ := Option.map_eq_some_iff.mp h
    cases heq
    exact length_literal?_lt h
  | case4 c others =>
    intro h
    cases h
    exact Nat.lt_succ_of_le (length_dropWhile_le _ _)
  | case5 c others =>
    intro h
    cases h
    exact Nat.lt_succ_self _
  | case6 c others =>
    intro h
    exact length_number?_lt h

/-- Whether a character goes on with a comment. -/
def isCommentChar (c : Char) : Bool := isSource c ∧ ¬isLineEnd c

/-- The tokens of a text, without what is ignored between them. -/
def tokens : List Char → Option (List Token)
  | [] => some []
  | c :: cs =>
    if isIgnored c then tokens cs
    else if c = '#' then tokens (cs.dropWhile isCommentChar)
    else
      match _h : token? (c :: cs) with
      | some (t, rest) => (tokens rest).map (t :: ·)
      | none => none
termination_by cs => cs.length
decreasing_by
  · exact Nat.lt_succ_self _
  · exact Nat.lt_succ_of_le (length_dropWhile_le _ _)
  · exact length_token?_lt _h

/-! ## Tokens that are read back -/

theorem splitSign_append {signs sign : List Char} {rest : List Char}
    (hsign : sign = [] ∨ ∃ c ∈ signs, sign = [c]) (hrest : ∀ c ∈ rest.head?, c ∉ signs) :
  splitSign signs (sign ++ rest) = (sign, rest)
  := by
  rcases hsign with rfl | ⟨c, hc, rfl⟩
  · cases rest with
    | nil => rfl
    | cons d rest =>
      have hd : d ∉ signs := hrest d rfl
      simp [splitSign, hd]
  · simp [splitSign, hc]

theorem Digits.head_mem {ds : List Char} (h : Digits ds) {rest : List Char} :
  ∀ c ∈ (ds ++ rest).head?, c.isDigit
  := by
  obtain ⟨hne, hds⟩ := h
  cases ds with
  | nil => contradiction
  | cons d ds => simp [hds]

theorem integerPart?_append {whole rest : List Char} (hwhole : IntegerPart whole)
    (hrest : ∀ c ∈ rest.head?, c.isDigit = false) :
  integerPart? (whole ++ rest) = some (whole, rest)
  := by
  obtain ⟨sign, ds, rfl, hsign, hds, hzero⟩ := hwhole
  have hsplit : splitSign ['-'] (sign ++ (ds ++ rest)) = (sign, ds ++ rest) := by
    apply splitSign_append
    · simpa using hsign
    · intro c hc hminus
      have hdigit := hds.head_mem c hc
      simp only [List.mem_singleton] at hminus
      subst hminus
      simp at hdigit
  obtain ⟨htake, hdrop⟩ := takeWhile_append_of_head hds.2 hrest
  have hfirst : ¬(ds = [] ∨ (ds.head? = some '0' ∧ ds ≠ ['0'])) := by
    simpa [hds.1] using hzero
  rw [integerPart?, List.append_assoc]
  simp only [hsplit, htake, hdrop, if_neg hfirst]

theorem fractionalPart?_append {fraction rest : List Char}
    (hfraction : fraction = [] ∨ FractionalPart fraction)
    (hrest : ∀ c ∈ rest.head?, c.isDigit = false ∧ c ≠ '.') :
  fractionalPart? (fraction ++ rest) = some (fraction, rest)
  := by
  rcases hfraction with rfl | ⟨ds, rfl, hne, hds⟩
  · rw [List.nil_append, fractionalPart?]
    rintro others rfl
    exact (hrest '.' rfl).2 rfl
  · obtain ⟨htake, hdrop⟩ := takeWhile_append_of_head hds fun c hc => (hrest c hc).1
    rw [List.cons_append, fractionalPart?]
    simp only [htake, hdrop, if_neg hne]

theorem exponentPart?_append {exponent rest : List Char}
    (hexponent : exponent = [] ∨ ExponentPart exponent)
    (hrest : ∀ c ∈ rest.head?, c.isDigit = false ∧ isNameStart c = false) :
  exponentPart? (exponent ++ rest) = some (exponent, rest)
  := by
  rcases hexponent with rfl | ⟨e, sign, ds, rfl, he, hsign, hds⟩
  · cases rest with
    | nil => rfl
    | cons c rest =>
      have hc : ¬(c = 'e' ∨ c = 'E') := by
        rintro (rfl | rfl)
        · exact absurd (hrest 'e' rfl).2 (by decide)
        · exact absurd (hrest 'E' rfl).2 (by decide)
      rw [List.nil_append, exponentPart?, if_neg hc]
  · have hsplit : splitSign ['+', '-'] (sign ++ (ds ++ rest)) = (sign, ds ++ rest) := by
      apply splitSign_append
      · simpa using hsign
      · intro c hc hmem
        have hdigit := hds.head_mem c hc
        simp only [List.mem_cons, List.not_mem_nil, or_false] at hmem
        rcases hmem with rfl | rfl
        · simp at hdigit
        · simp at hdigit
    obtain ⟨htake, hdrop⟩ := takeWhile_append_of_head hds.2 fun c hc => (hrest c hc).1
    rw [List.cons_append, List.append_assoc, exponentPart?, if_pos he]
    simp only [hsplit, htake, hdrop, if_neg hds.1]

/-- A text that no token goes on into may follow a number. -/
theorem not_clingsToNumber {rest : List Char} (hrest : Delimited rest) :
  rest.head?.any clingsToNumber = false
  := by
  cases rest with
  | nil => rfl
  | cons c rest =>
    have hc : isDelimiter c := hrest c rfl
    simp only [isDelimiter, isNameContinue, decide_eq_true_eq, not_or] at hc
    simp [clingsToNumber, hc]

theorem head_of_delimited {rest : List Char} (hrest : Delimited rest) :
  ∀ c ∈ rest.head?, c.isDigit = false ∧ c ≠ '.' ∧ isNameStart c = false
  := by
  intro c hc
  have hd := hrest c hc
  simp only [isDelimiter, isNameContinue, decide_eq_true_eq, not_or] at hd
  simp [hd]

/-- The exponent of a number before a text that no token goes on into begins neither with a
digit nor with a point. -/
theorem head_of_exponent {exponent rest : List Char}
    (hexponent : exponent = [] ∨ ExponentPart exponent) (hrest : Delimited rest) :
  ∀ c ∈ (exponent ++ rest).head?, c.isDigit = false ∧ c ≠ '.'
  := by
  intro c hc
  rcases hexponent with rfl | ⟨e, sign, ds, rfl, he, -⟩
  · have h := head_of_delimited hrest c hc
    exact ⟨h.1, h.2.1⟩
  · cases hc
    rcases he with rfl | rfl
    · decide
    · decide

theorem number?_int {text : String} {rest : List Char} (htext : IsIntValue text)
    (hrest : Delimited rest) :
  number? (text.toList ++ rest) = some (.int text, rest)
  := by
  have hhead := head_of_delimited hrest
  have hwhole := integerPart?_append htext fun c hc => (hhead c hc).1
  have hfraction := fractionalPart?_append (.inl rfl) fun c hc => ⟨(hhead c hc).1, (hhead c hc).2.1⟩
  have hexponent := exponentPart?_append (.inl rfl) fun c hc => ⟨(hhead c hc).1, (hhead c hc).2.2⟩
  rw [List.nil_append] at hfraction hexponent
  simp only [number?, hwhole, hfraction, hexponent, Option.bind_some, not_clingsToNumber hrest]
  simp

theorem number?_float {text : String} {rest : List Char} (htext : IsFloatValue text)
    (hrest : Delimited rest) :
  number? (text.toList ++ rest) = some (.float text, rest)
  := by
  obtain ⟨whole, fraction, exponent, htext, hwhole, hfraction, hexponent, hne⟩ := htext
  have hhead := head_of_delimited hrest
  have hmiddle := head_of_exponent hexponent hrest
  have hfirst : ∀ c ∈ (fraction ++ (exponent ++ rest)).head?, c.isDigit = false := by
    intro c hc
    rcases hfraction with rfl | ⟨ds, rfl, -⟩
    · exact (hmiddle c hc).1
    · cases hc
      decide
  have h₁ := integerPart?_append hwhole hfirst
  have h₂ := fractionalPart?_append hfraction hmiddle
  have h₃ := exponentPart?_append hexponent fun c hc => ⟨(hhead c hc).1, (hhead c hc).2.2⟩
  have hsplit : text.toList ++ rest = whole ++ (fraction ++ (exponent ++ rest)) := by
    simp [htext]
  rw [hsplit]
  simp only [number?, h₁, h₂, h₃, Option.bind_some, not_clingsToNumber hrest, if_neg hne]
  simp [← htext]

theorem not_nameStart_of_isDigit {c : Char} (h : c.isDigit) :
  isNameStart c = false
  := by
  have hrange : 48 ≤ c.toNat ∧ c.toNat ≤ 57 := by
    simpa [Char.isDigit, UInt32.le_iff_toNat_le] using h
  have halpha : ¬c.isAlpha := by
    change ¬(decide ('A'.val ≤ c.val ∧ c.val ≤ 'Z'.val) ||
      (decide ('a'.val ≤ c.val) && decide (c.val ≤ 'z'.val))) = true
    simp only [Bool.or_eq_true, Bool.and_eq_true, decide_eq_true_eq, UInt32.le_iff_toNat_le]
    intro hletter
    change (65 ≤ c.toNat ∧ c.toNat ≤ 90) ∨ (97 ≤ c.toNat ∧ c.toNat ≤ 122) at hletter
    omega
  have hline : c ≠ '_' := by
    rintro rfl
    simp at h
  simp [isNameStart, halpha, hline]

theorem ofChar?_of_isDigit {c : Char} (h : c.isDigit) :
  Punctuator.ofChar? c = none
  := by
  revert h
  fun_cases Punctuator.ofChar? c <;> simp

/-- A digit or a minus sign begins a number and nothing else. -/
theorem token?_eq_number? {c : Char} (hc : c = '-' ∨ c.isDigit) (rest : List Char) :
  token? (c :: rest) = number? (c :: rest)
  := by
  have hstart : isNameStart c = false := by
    rcases hc with rfl | hc
    · rfl
    · exact not_nameStart_of_isDigit hc
  have hpunctuator : Punctuator.ofChar? c = none := by
    rcases hc with rfl | hc
    · rfl
    · exact ofChar?_of_isDigit hc
  have hquote : c ≠ '"' := by
    rintro rfl
    simp at hc
  rw [token?]
  · simp [hstart, hpunctuator, hquote]
  · intro others hpoint
    subst hpoint
    simp at hc

theorem IntegerPart.exists_cons {whole : List Char} (h : IntegerPart whole) :
  ∃ c cs, whole = c :: cs ∧ (c = '-' ∨ c.isDigit)
  := by
  obtain ⟨sign, ds, rfl, hsign, ⟨hne, hds⟩, -⟩ := h
  obtain ⟨d, ds, rfl⟩ := List.exists_cons_of_ne_nil hne
  rcases hsign with rfl | rfl
  · use d, ds, rfl
    exact .inr (hds d List.mem_cons_self)
  · use '-', d :: ds, rfl
    exact .inl rfl

theorem token?_int {text : String} {rest : List Char} (htext : IsIntValue text)
    (hrest : Delimited rest) :
  token? (text.toList ++ rest) = some (.int text, rest)
  := by
  obtain ⟨c, cs, hcs, hc⟩ := IntegerPart.exists_cons htext
  rw [← number?_int htext hrest, hcs]
  exact token?_eq_number? hc _

theorem token?_float {text : String} {rest : List Char} (htext : IsFloatValue text)
    (hrest : Delimited rest) :
  token? (text.toList ++ rest) = some (.float text, rest)
  := by
  have hnumber := number?_float htext hrest
  obtain ⟨whole, fraction, exponent, htext, hwhole, -⟩ := htext
  obtain ⟨c, cs, rfl, hc⟩ := hwhole.exists_cons
  rw [← hnumber, htext]
  exact token?_eq_number? hc _

theorem token?_name {text : String} {rest : List Char} (htext : IsName text)
    (hrest : Delimited rest) :
  token? (text.toList ++ rest) = some (.name text, rest)
  := by
  obtain ⟨c, cs, htext, hc, hcs⟩ := htext
  obtain ⟨htake, hdrop⟩ := takeWhile_append_of_head hcs hrest.not_nameContinue
  have hquote : c ≠ '"' := by
    rintro rfl
    exact absurd hc (by decide)
  rw [htext, List.cons_append, token?]
  · simp [hquote, hc, htake, hdrop, ← htext]
  · intro others hpoint
    subst hpoint
    exact absurd hc (by decide)

/-- A quote begins a literal and nothing else. -/
theorem token?_quote (cs : List Char) :
  token? ('"' :: cs) = (literal? ('"' :: cs)).map fun (s, rest) => (.string s, rest)
  := by
  rw [token?]
  · simp
  · simp

/-- A literal before a text that does not begin with a quote. -/
theorem token?_chars (s : StringValue) {rest : List Char} (hrest : rest.head? ≠ some '"') :
  token? (s.chars ++ rest) = some (.string s.settled, rest)
  := by
  have hread := literal?_chars s rest hrest
  obtain ⟨cs, hcs⟩ := s.chars_eq_cons
  rw [hcs, List.cons_append] at hread
  rw [hcs, List.cons_append, token?_quote, hread, Option.map_some]

theorem token?_literal (s : StringValue) {rest : List Char} (hrest : Delimited rest) :
  token? (s.chars ++ rest) = some (.string s.settled, rest)
  := by
  apply token?_chars
  intro hhead
  have hd := hrest '"' hhead
  exact absurd hd (by decide)

/-! ## The tokens of a text -/

@[simp]
theorem tokens_nil :
  tokens [] = some []
  := by rw [tokens]

/-- The tokens of a text, by its first character. -/
theorem tokens_cons (c : Char) (cs : List Char) :
  tokens (c :: cs)
    = if isIgnored c then tokens cs
      else if c = '#' then tokens (cs.dropWhile isCommentChar)
      else (token? (c :: cs)).bind fun p => (tokens p.2).map (p.1 :: ·)
  := by
  rw [tokens]
  split
  · rfl
  split
  · rfl
  split
  case h_1 heq =>
    rw [heq]
    rfl
  case h_2 heq =>
    rw [heq]
    rfl

theorem token?_of_isIgnored {c : Char} (h : isIgnored c) (rest : List Char) :
  token? (c :: rest) = none
  := by
  simp only [isIgnored, isWhiteSpace, isLineEnd, decide_eq_true_eq] at h
  rcases h with (rfl | rfl) | (rfl | rfl) | rfl | rfl <;> rfl

/-- A token at the front of a text is the first of its tokens. -/
theorem tokens_of_token? {cs rest : List Char} {t : Token} (h : token? cs = some (t, rest)) :
  tokens cs = (tokens rest).map (t :: ·)
  := by
  cases cs with
  | nil => contradiction
  | cons c cs =>
    have hignored : ¬isIgnored c := by
      intro hc
      rw [token?_of_isIgnored hc] at h
      contradiction
    have hcomment : c ≠ '#' := by
      rintro rfl
      contradiction
    rw [tokens_cons, if_neg hignored, if_neg hcomment, h, Option.bind_some]

end GraphQLText.Grammar
