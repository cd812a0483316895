import GraphQLText.Layout.Basic
import GraphQLText.Proofs.Grammar.Lexer
import GraphQLText.Proofs.Layout.Tokens

/-!
# The punctuation of a text

A text is scanned into symbols: its characters, but each string literal as one symbol.  In a
text whose punctuation is `Tidy` brackets are nested, a separator is followed by one space and
then by something that it separates, and no space is at an end or beside another space.  Such
texts are accepted by a machine that goes over the symbols one by one (`tidy_of_run`) and
remembers only what the last one was, so that the text of a layout can be judged part by part.
-/

namespace GraphQLText

/-! ## Symbols -/

/-- A symbol of a text. -/
inductive Symbol where
  | char (c : Char)
  /-- A complete string literal. -/
  | literal
deriving DecidableEq, Repr

/-- Whether a character is white space. -/
def isSpace (c : Char) : Bool :=
  (0x09 ≤ c.toNat && c.toNat ≤ 0x0d) || (0x2000 ≤ c.toNat && c.toNat ≤ 0x200a) ||
    [0x20, 0x85, 0xa0, 0x1680, 0x2028, 0x2029, 0x202f, 0x205f, 0x3000].contains c.toNat

/-- The characters of the punctuation, and the quote. -/
def punctuation : List Char :=
  ['"', '!', '$', '&', '(', ')', ':', '=', '@', '[', ']', '\x7b', '|', '\x7d', ',']

/-- Whether a character is part of a leaf: neither white space nor punctuation. -/
def isLeafChar (c : Char) : Bool := !isSpace c && !punctuation.contains c

namespace Symbol

/-- Whether a symbol is part of a leaf. -/
def isLeaf : Symbol → Bool
  | .char c => isLeafChar c
  | .literal => true

/-- The characters that separate what stands on their two sides. -/
def separators : List Symbol := [.char ',', .char ':', .char '=', .char '|', .char '&']

/-- The closing brackets. -/
def closers : List Symbol := [.char ')', .char ']', .char '\x7d']

/-- The characters that begin a leaf. -/
def sigils : List Symbol := [.char '@', .char '$']

end Symbol

/-- A text as symbols, unless there is a quote in it at which no string literal begins. -/
def scan : List Char → Option (List Symbol)
  | [] => some []
  | c :: rest =>
    if c = '"' then
      match _h : Grammar.literal? (c :: rest) with
      | some (_, rest') => (.literal :: ·) <$> scan rest'
      | none => none
    else (.char c :: ·) <$> scan rest
termination_by cs => cs.length
decreasing_by
  · exact Grammar.length_literal?_lt _h
  · exact Nat.lt_succ_self _

/-! ## Brackets -/

/-- The three sorts of brackets. -/
inductive Bracket where
  | round
  | square
  | curly
deriving DecidableEq, Repr

/-- The part that a symbol plays in the punctuation of a text. -/
inductive Role where
  | word
  | literal
  | bang
  | space
  | line
  /-- A separator that follows a word. -/
  | separator
  /-- A separator that follows a space. -/
  | operator
  | sigil
  | opening (b : Bracket)
  | closing (b : Bracket)
  | other
deriving DecidableEq, Repr

/-- The role of a character. -/
def Role.ofChar (c : Char) : Role :=
  if isLeafChar c then .word
  else match c with
  | ' ' => .space
  | '\n' => .line
  | '!' => .bang
  | ',' | ':' => .separator
  | '=' | '|' | '&' => .operator
  | '@' | '$' => .sigil
  | '(' => .opening .round
  | ')' => .closing .round
  | '[' => .opening .square
  | ']' => .closing .square
  | '\x7b' => .opening .curly
  | '\x7d' => .closing .curly
  | _ => .other

/-- The role of a symbol. -/
def Symbol.role : Symbol → Role
  | .char c => .ofChar c
  | .literal => .literal

/-- The open brackets after a symbol, the last one first; a closing bracket closes that one. -/
def Symbol.shift (opened : List Bracket) (s : Symbol) : Option (List Bracket) :=
  match s.role, opened with
  | .opening b, _ => some (b :: opened)
  | .closing b, b' :: rest => if b = b' then some rest else none
  | .closing _, [] => none
  | _, _ => some opened

/-- The brackets among the symbols are in pairs and properly nested. -/
def Nested (symbols : List Symbol) : Prop := symbols.foldlM Symbol.shift [] = some []

/-- Punctuation in good order. -/
structure Tidy (symbols : List Symbol) : Prop where
  nested : Nested symbols
  /-- There are no empty parentheses. -/
  parens : ¬[.char '(', .char ')'] <:+: symbols
  /-- There are no empty braces with a space between them. -/
  braces : ¬[.char '\x7b', .char ' ', .char '\x7d'] <:+: symbols
  /-- A separator is followed by just one space, and this by what is separated. -/
  separated : ∀ before s after, symbols = before ++ s :: after → s ∈ Symbol.separators →
    ∃ next rest, after = .char ' ' :: next :: rest ∧ next ≠ .char ' ' ∧
      next ∉ Symbol.separators ∧ next ∉ Symbol.closers
  /-- A sigil is followed by a leaf. -/
  sigils : ∀ before s after, symbols = before ++ s :: after → s ∈ Symbol.sigils →
    ∃ next rest, after = next :: rest ∧ next.isLeaf
  /-- There are no two spaces beside each other. -/
  spaces : ¬[.char ' ', .char ' '] <:+: symbols
  start : symbols.head? ≠ some (.char ' ')
  stop : symbols.getLast? ≠ some (.char ' ')

/-! ## A machine for tidy punctuation -/

/-- What the last symbol was. -/
inductive Mode where
  /-- There was none on this line. -/
  | start
  /-- The end of something that may stand on either side of a separator. -/
  | operand
  /-- The space after an operand. -/
  | space
  | separator
  /-- The space after a separator or a brace. -/
  | gap
  | sigil
  | opened (b : Bracket)
deriving DecidableEq, Repr

/-- The literals that may occur without anything between their brackets. -/
structure Empties where
  objects : Bool
  lists : Bool

namespace Mode

/-- The mode after a symbol that begins an operand. -/
def enter : Role → Option Mode
  | .word | .literal => some .operand
  | .sigil => some .sigil
  | .opening .square => some (.opened .square)
  | .opening .curly => some (.opened .curly)
  | _ => none

/-- The mode after a symbol, if it may stand there. -/
def next (e : Empties) : Mode → Role → Option Mode
  | .start, .line => some .start
  | .operand, .word | .operand, .bang | .operand, .closing _ => some .operand
  | .operand, .line => some .start
  | .operand, .space => some .space
  | .operand, .separator => some .separator
  | .operand, .opening .round => some (.opened .round)
  | .operand, .opening .curly => some (.opened .curly)
  | .space, .closing .curly => some .operand
  | .space, .operator => some .separator
  | .separator, .space => some .gap
  | .sigil, .word => some .operand
  | .opened .curly, .space => some .gap
  | .opened .curly, .closing .curly => if e.objects then some .operand else none
  | .opened .square, .closing .square => if e.lists then some .operand else none
  | .start, r | .space, r | .gap, r | .opened _, r => enter r
  | _, _ => none

end Mode

/-- A state of the machine. -/
structure State where
  mode : Mode
  opened : List Bracket

namespace State

/-- The state after one symbol, if it may stand there. -/
def step (e : Empties) (σ : State) (s : Symbol) : Option State := do
  let mode ← σ.mode.next e s.role
  let opened ← s.shift σ.opened
  return ⟨mode, opened⟩

/-- The state after several symbols. -/
def run (e : Empties) (σ : State) (symbols : List Symbol) : Option State :=
  symbols.foldlM (step e) σ

variable {e : Empties} {σ τ : State} {s : Symbol} {symbols before after : List Symbol}

theorem run_append :
  σ.run e (before ++ after) = (σ.run e before).bind fun ρ => ρ.run e after
  := List.foldlM_append

theorem step_eq_some :
  σ.step e s = some τ ↔ σ.mode.next e s.role = some τ.mode ∧ s.shift σ.opened = some τ.opened
  := by
  obtain ⟨mode, opened⟩ := τ
  simp [step, Option.bind_eq_some_iff]

theorem run_cons :
  σ.run e (s :: after) = some τ ↔ ∃ ρ, σ.step e s = some ρ ∧ ρ.run e after = some τ
  := by simp [run, Option.bind_eq_some_iff]

theorem exists_of_run_append (h : σ.run e (before ++ after) = some τ) :
  ∃ ρ, σ.run e before = some ρ ∧ ρ.run e after = some τ
  := by
  rw [run_append] at h
  exact Option.bind_eq_some_iff.mp h

theorem foldlM_shift_of_run (h : σ.run e symbols = some τ) :
  symbols.foldlM Symbol.shift σ.opened = some τ.opened
  := by
  induction symbols generalizing σ with
  | nil =>
    cases h
    rfl
  | cons s symbols ih =>
    obtain ⟨ρ, hs, hrun⟩ := run_cons.mp h
    rw [List.foldlM_cons, (step_eq_some.mp hs).2]
    exact ih hrun

end State

namespace Mode

variable {e : Empties} {m m' : Mode} {r : Role}

theorem next_space (h : m.next e .space = some m') :
  m' = .space ∨ m' = .gap
  := by
  cases m with
  | operand => exact .inl (Option.some.inj h).symm
  | separator => exact .inr (Option.some.inj h).symm
  | opened b =>
    cases b with
    | curly => exact .inr (Option.some.inj h).symm
    | round | square => contradiction
  | _ => contradiction

theorem next_separator (hr : r = .separator ∨ r = .operator) (h : m.next e r = some m') :
  m' = .separator
  := by
  rcases hr with rfl | rfl
  · cases m with
    | opened b => cases b <;> contradiction
    | operand => exact (Option.some.inj h).symm
    | _ => contradiction
  · cases m with
    | opened b => cases b <;> contradiction
    | space => exact (Option.some.inj h).symm
    | _ => contradiction

/-- Only a space comes after a separator. -/
theorem next_of_separator (h : Mode.separator.next e r = some m') :
  r = .space ∧ m' = .gap
  := by
  cases r with
  | space => exact ⟨rfl, (Option.some.inj h).symm⟩
  | _ => contradiction

/-- Only a word comes after a sigil. -/
theorem next_of_sigil (h : Mode.sigil.next e r = some m') :
  r = .word
  := by
  cases r with
  | word => rfl
  | _ => contradiction

theorem next_gap :
  Mode.gap.next e r = enter r
  := by cases r <;> rfl

/-- What begins an operand neither separates nor closes anything. -/
theorem not_enter (hr : r = .space ∨ r = .separator ∨ r = .operator ∨ ∃ b, r = .closing b) :
  enter r = none
  := by
  rcases hr with rfl | rfl | rfl | ⟨b, rfl⟩ <;> rfl

theorem next_sigil (h : m.next e .sigil = some m') :
  m' = .sigil
  := by
  cases m with
  | start | space | gap => exact (Option.some.inj h).symm
  | opened b => cases b <;> exact (Option.some.inj h).symm
  | _ => contradiction

theorem next_opening {b : Bracket} (h : m.next e (.opening b) = some m') :
  m' = .opened b
  := by
  cases m with
  | opened b' => cases b' <;> cases b <;> first | contradiction | exact (Option.some.inj h).symm
  | _ => cases b <;> first | contradiction | exact (Option.some.inj h).symm

theorem next_literal (h : m.next e .literal = some m') :
  m' = .operand
  := by
  cases m with
  | start | space | gap => exact (Option.some.inj h).symm
  | opened b => cases b <;> exact (Option.some.inj h).symm
  | _ => contradiction

theorem next_other :
  m.next e .other = none
  := by
  cases m with
  | opened b => cases b <;> rfl
  | _ => rfl

end Mode

/-! ## What the machine accepts -/

namespace Symbol

variable {s : Symbol}

theorem eq_of_role_space (h : s.role = .space) :
  s = .char ' '
  := by
  cases s with
  | literal => contradiction
  | char c =>
    rw [role, Role.ofChar.eq_def] at h
    split at h
    · contradiction
    · split at h <;> first | rfl | contradiction

theorem isLeaf_of_role_word (h : s.role = .word) :
  s.isLeaf
  := by
  cases s with
  | literal => rfl
  | char c =>
    rw [role, Role.ofChar.eq_def] at h
    split at h
    case isTrue hc => exact hc
    case isFalse => split at h <;> contradiction

theorem role_of_mem_separators (h : s ∈ separators) :
  s.role = .separator ∨ s.role = .operator
  := by
  simp only [separators, List.mem_cons, List.not_mem_nil, or_false] at h
  rcases h with rfl | rfl | rfl | rfl | rfl <;> decide

theorem role_of_mem_sigils (h : s ∈ sigils) :
  s.role = .sigil
  := by
  simp only [sigils, List.mem_cons, List.not_mem_nil, or_false] at h
  rcases h with rfl | rfl <;> rfl

theorem role_of_mem_closers (h : s ∈ closers) :
  ∃ b, s.role = .closing b
  := by
  simp only [closers, List.mem_cons, List.not_mem_nil, or_false] at h
  rcases h with rfl | rfl | rfl
  · exact ⟨.round, rfl⟩
  · exact ⟨.square, rfl⟩
  · exact ⟨.curly, rfl⟩

end Symbol

namespace State

variable {e : Empties} {σ τ : State} {symbols : List Symbol}

/-- The states around a symbol in a text that is accepted. -/
theorem exists_of_run {before after : List Symbol} {s : Symbol}
    (h : σ.run e (before ++ s :: after) = some τ) :
  ∃ ρ ρ' : State, ρ.mode.next e s.role = some ρ'.mode ∧ ρ'.run e after = some τ
  := by
  obtain ⟨ρ, -, h⟩ := exists_of_run_append h
  obtain ⟨ρ', hs, h⟩ := run_cons.mp h
  exact ⟨ρ, ρ', (step_eq_some.mp hs).1, h⟩

/-- Something follows a symbol at which a text may not end. -/
theorem exists_cons_of_run {after : List Symbol} (h : σ.run e after = some τ)
    (hmode : σ.mode ≠ τ.mode) :
  ∃ s rest, ∃ ρ : State, after = s :: rest ∧ σ.mode.next e s.role = some ρ.mode ∧
    ρ.run e rest = some τ
  := by
  cases after with
  | nil =>
    cases h
    contradiction
  | cons s rest =>
    obtain ⟨ρ, hs, h⟩ := run_cons.mp h
    exact ⟨s, rest, ρ, rfl, (step_eq_some.mp hs).1, h⟩

end State

section Accepted

variable {e : Empties} {m : Mode} {symbols : List Symbol}
    (h : State.run e ⟨.start, []⟩ symbols = some ⟨m, []⟩) (hm : m = .start ∨ m = .operand)

include h

/-- An opening bracket that is closed at once is that of an empty literal. -/
theorem empties_of_run {o c : Symbol} {b : Bracket} (ho : o.role = .opening b)
    (hc : c.role = .closing b) (hwithin : [o, c] <:+: symbols) :
  b = .square ∧ e.lists ∨ b = .curly ∧ e.objects
  := by
  obtain ⟨before, after, rfl⟩ := hwithin
  rw [List.append_assoc] at h
  obtain ⟨ρ, ρ', ho', h⟩ := State.exists_of_run h
  rw [ho] at ho'
  obtain ⟨ρ'', hc', -⟩ := State.run_cons.mp h
  have hnext := (State.step_eq_some.mp hc').1
  rw [hc, Mode.next_opening ho'] at hnext
  cases b <;> simp_all [Mode.next, Mode.enter]

theorem braces_of_run :
  ¬[.char '\x7b', .char ' ', .char '\x7d'] <:+: symbols
  := by
  rintro ⟨before, after, rfl⟩
  rw [List.append_assoc] at h
  obtain ⟨ρ₁, ρ₂, hopen, h⟩ := State.exists_of_run h
  obtain ⟨ρ₃, hspace, h⟩ := State.run_cons.mp h
  obtain ⟨ρ₄, hclose, -⟩ := State.run_cons.mp h
  have hspace' := (State.step_eq_some.mp hspace).1
  have hclose' := (State.step_eq_some.mp hclose).1
  rw [Mode.next_opening hopen] at hspace'
  have hgap : ρ₃.mode = .gap := (Option.some.inj hspace').symm
  rw [hgap] at hclose'
  contradiction

theorem spaces_of_run :
  ¬[.char ' ', .char ' '] <:+: symbols
  := by
  rintro ⟨before, after, rfl⟩
  rw [List.append_assoc] at h
  obtain ⟨ρ, ρ', hspace, h⟩ := State.exists_of_run h
  obtain ⟨ρ'', hspace', -⟩ := State.run_cons.mp h
  have hnext := (State.step_eq_some.mp hspace').1
  rcases Mode.next_space hspace with hmode | hmode <;>
  · rw [hmode] at hnext
    contradiction

theorem start_of_run :
  symbols.head? ≠ some (.char ' ')
  := by
  intro hhead
  obtain ⟨rest, rfl⟩ := List.head?_eq_some_iff.mp hhead
  obtain ⟨ρ, hs, -⟩ := State.run_cons.mp h
  have hnone := (State.step_eq_some.mp hs).1
  contradiction

include hm

theorem stop_of_run :
  symbols.getLast? ≠ some (.char ' ')
  := by
  intro hlast
  obtain ⟨before, rfl⟩ := List.getLast?_eq_some_iff.mp hlast
  obtain ⟨ρ, ρ', hspace, h⟩ := State.exists_of_run h
  cases h
  rcases Mode.next_space hspace with rfl | rfl <;> simp at hm

theorem separated_of_run {before after : List Symbol} {s : Symbol}
    (hsymbols : symbols = before ++ s :: after) (hs : s ∈ Symbol.separators) :
  ∃ next rest, after = .char ' ' :: next :: rest ∧ next ≠ .char ' ' ∧
    next ∉ Symbol.separators ∧ next ∉ Symbol.closers
  := by
  rw [hsymbols] at h
  obtain ⟨ρ, ρ₁, hnext, h⟩ := State.exists_of_run h
  have hmode₁ := Mode.next_separator (Symbol.role_of_mem_separators hs) hnext
  obtain ⟨space, rest, ρ₂, rfl, hspace, h⟩ := State.exists_cons_of_run h (by grind)
  rw [hmode₁] at hspace
  obtain ⟨hrole, hmode₂⟩ := Mode.next_of_separator hspace
  rw [Symbol.eq_of_role_space hrole]
  obtain ⟨next, rest, ρ₃, rfl, hnext, -⟩ := State.exists_cons_of_run h (by grind)
  rw [hmode₂] at hnext
  have hbegins : ¬(next.role = .space ∨ next.role = .separator ∨ next.role = .operator ∨
      ∃ b, next.role = .closing b) := by
    intro hrole
    rw [Mode.next_gap, Mode.not_enter hrole] at hnext
    contradiction
  refine ⟨next, rest, rfl, ?_, ?_, ?_⟩
  · rintro rfl
    exact hbegins (.inl rfl)
  · intro hseparator
    apply hbegins
    exact .inr ((Symbol.role_of_mem_separators hseparator).imp_right .inl)
  · intro hcloser
    apply hbegins
    exact .inr (.inr (.inr (Symbol.role_of_mem_closers hcloser)))

theorem sigils_of_run {before after : List Symbol} {s : Symbol}
    (hsymbols : symbols = before ++ s :: after) (hs : s ∈ Symbol.sigils) :
  ∃ next rest, after = next :: rest ∧ next.isLeaf
  := by
  rw [hsymbols] at h
  obtain ⟨ρ, ρ₁, hnext, h⟩ := State.exists_of_run h
  rw [Symbol.role_of_mem_sigils hs] at hnext
  have hmode := Mode.next_sigil hnext
  obtain ⟨next, rest, ρ₂, rfl, hnext, -⟩ := State.exists_cons_of_run h (by grind)
  rw [hmode] at hnext
  exact ⟨next, rest, rfl, Symbol.isLeaf_of_role_word (Mode.next_of_sigil hnext)⟩

/-- What the machine accepts is tidy. -/
theorem tidy_of_run :
  Tidy symbols where
  nested := State.foldlM_shift_of_run h
  parens := by
    intro hwithin
    have hempties := empties_of_run h (b := .round) rfl rfl hwithin
    simp at hempties
  braces := braces_of_run h
  separated _ _ _ := separated_of_run h hm
  sigils _ _ _ := sigils_of_run h hm
  spaces := spaces_of_run h
  start := start_of_run h
  stop := stop_of_run h hm

end Accepted

/-! ## The symbols of a layout -/

/-- The symbols of a piece. -/
def Piece.symbols : Piece → List Symbol
  | .mark text => text.toList.map .char
  | .word text => text.toList.map .char
  | .literal _ => [.literal]

/-- The symbols of a layout. -/
def Layout.symbols (l : Layout) : List Symbol := l.flatMap Piece.symbols

theorem scan_cons_of_ne {c : Char} (h : c ≠ '"') (rest : List Char) :
  scan (c :: rest) = (.char c :: ·) <$> scan rest
  := by rw [scan, if_neg h]

theorem scan_append {cs : List Char} (h : '"' ∉ cs) (rest : List Char) :
  scan (cs ++ rest) = (cs.map .char ++ ·) <$> scan rest
  := by
  induction cs with
  | nil => simp
  | cons c cs ih =>
    obtain ⟨hc, hcs⟩ := List.ne_and_not_mem_of_not_mem_cons h
    rw [List.cons_append, scan_cons_of_ne hc.symm, ih hcs, Functor.map_map]
    rfl

theorem scan_literal (s : StringValue) {rest : List Char} (h : rest.head? ≠ some '"') :
  scan (s.chars ++ rest) = (.literal :: ·) <$> scan rest
  := by
  have hread := Grammar.literal?_chars s rest h
  obtain ⟨cs, hcs⟩ := s.chars_eq_cons
  rw [hcs, List.cons_append] at hread ⊢
  rw [scan, if_pos rfl]
  split
  case h_1 heq =>
    rw [hread] at heq
    cases heq
    rfl
  case h_2 heq =>
    rw [hread] at heq
    contradiction

namespace State

variable {e : Empties} {σ τ : State}

/-- There are no quotes in what is accepted, but for those of string literals. -/
theorem quote_not_mem_of_run {cs : List Char} (h : σ.run e (cs.map .char) = some τ) :
  '"' ∉ cs
  := by
  intro hmem
  obtain ⟨before, after, rfl⟩ := List.append_of_mem hmem
  rw [List.map_append, List.map_cons] at h
  obtain ⟨ρ, ρ', hnext, -⟩ := exists_of_run h
  have hnone : ρ.mode.next e (Symbol.char '"').role = none := Mode.next_other
  rw [hnext] at hnone
  contradiction

/-- No quote comes right after an operand. -/
theorem head_ne_quote_of_run {l : Layout} (h : σ.run e l.symbols = some τ)
    (hmode : σ.mode = .operand) :
  l.text.toList.head? ≠ some '"'
  := by
  induction l with
  | nil => simp
  | cons p l ih =>
    rw [Layout.symbols, List.flatMap_cons] at h
    obtain ⟨ρ, hp, hl⟩ := exists_of_run_append h
    rw [Layout.text_toList, List.flatMap_cons, ← Layout.text_toList]
    cases p with
    | mark text | word text =>
      rw [Piece.text]
      cases hcs : text.toList with
      | nil =>
        rw [Piece.symbols, hcs] at hp
        cases hp
        exact ih hl
      | cons c cs =>
        have hquote := quote_not_mem_of_run hp
        rw [hcs] at hquote
        intro hc
        rw [Option.some.inj hc] at hquote
        exact hquote List.mem_cons_self
    | literal s =>
      obtain ⟨ρ', hs, -⟩ := run_cons.mp hp
      have hnone := (step_eq_some.mp hs).1
      rw [hmode] at hnone
      contradiction

end State

/-- The text of a layout that is accepted is scanned into the symbols of the layout. -/
theorem scan_text {e : Empties} {σ τ : State} {l : Layout} (h : σ.run e l.symbols = some τ) :
  scan l.text.toList = some l.symbols
  := by
  induction l generalizing σ with
  | nil =>
    change scan [] = some []
    rw [scan]
  | cons p l ih =>
    rw [Layout.symbols, List.flatMap_cons] at h
    obtain ⟨ρ, hp, hl⟩ := State.exists_of_run_append h
    rw [Layout.text_toList, List.flatMap_cons, ← Layout.text_toList]
    cases p with
    | mark text | word text =>
      rw [Piece.text, scan_append (State.quote_not_mem_of_run hp), ih hl]
      rfl
    | literal s =>
      obtain ⟨ρ', hs, hrun⟩ := State.run_cons.mp hp
      cases hrun
      have hmode := Mode.next_literal (State.step_eq_some.mp hs).1
      rw [Piece.text, StringValue.text, String.toList_ofList,
        scan_literal s (State.head_ne_quote_of_run hl hmode), ih hl]
      rfl

end GraphQLText
