import GraphQLText.Proofs.Layout.Content
import GraphQLText.Proofs.Layout.Symbol

/-!
# Punctuation of layouts

No printing rule leaves punctuation dangling, whatever parts of a node are absent.  A part of a
layout is an `Operand` where it leads from any place at which one may begin to the end of one,
and a `Suffix` where it leads from the end of an operand to there again; every rule is an operand
followed by suffixes, each of them made of smaller parts or absent.  So the text of a tree whose
leaves are free of punctuation themselves is tidy (`Node.text_tidy`).
-/

namespace GraphQLText

/-- Whether an operand may begin. -/
def Mode.begins : Mode → Bool
  | .start | .space | .gap | .opened _ => true
  | _ => false

/-- Whether a word may begin or go on. -/
def Mode.takesWord (m : Mode) : Bool := m.begins || m = .sigil || m = .operand

theorem Mode.next_of_enter {e : Empties} {m m' : Mode} {r : Role} (hm : m.begins)
    (h : Mode.enter r = some m') :
  m.next e r = some m'
  := by
  cases r with
  | word | literal | sigil | opening =>
    cases m with
    | start | space | gap => exact h
    | opened b => cases b <;> exact h
    | _ => contradiction
  | _ => contradiction

/-- What begins an operand is taken in the same way wherever one may begin. -/
theorem State.run_of_begins {e : Empties} {m m' : Mode} {opened : List Bracket} {s : Symbol}
    {symbols : List Symbol} (hm : m.begins) (hs : Mode.enter s.role = some m') :
  State.run e ⟨m, opened⟩ (s :: symbols) = State.run e ⟨.start, opened⟩ (s :: symbols)
  := by
  have hstep : State.step e ⟨m, opened⟩ s = State.step e ⟨.start, opened⟩ s := by
    rw [step, step, Mode.next_of_enter hm hs, Mode.next_of_enter (m := .start) rfl hs]
  rw [run, run, List.foldlM_cons, List.foldlM_cons, hstep]

/-- A text without white space and punctuation. -/
def IsLeafText (text : String) : Prop := text ≠ "" ∧ ∀ c ∈ text.toList, isLeafChar c

instance : DecidablePred IsLeafText := fun text =>
  decidable_of_iff (text ≠ "" ∧ text.toList.all isLeafChar) (by rw [IsLeafText, List.all_eq_true])

/-! ## Parts of layouts -/

namespace Layout

variable {e : Empties} {l part : Layout} {text lead close : String}

/-- Something complete, which may stand wherever an operand may begin. -/
def Operand (e : Empties) (l : Layout) : Prop :=
  ∀ m opened, m.begins → State.run e ⟨m, opened⟩ l.symbols = some ⟨.operand, opened⟩

/-- Something that may follow an operand, with which it makes another one. -/
def Suffix (e : Empties) (l : Layout) : Prop :=
  ∀ opened, State.run e ⟨.operand, opened⟩ l.symbols = some ⟨.operand, opened⟩

/-- An operand, if present. -/
def Neat (e : Empties) (l : Layout) : Prop := l ≠ [] → l.Operand e

/-- A mark after an operand at which another one may begin. -/
def Separates (e : Empties) (lead : String) : Prop :=
  ∀ opened, ∃ m : Mode, m.begins ∧
    State.run e ⟨.operand, opened⟩ (mark lead).symbols = some ⟨m, opened⟩

/-- A mark at the beginning of an operand that a word may follow. -/
def Introduces (e : Empties) (lead : String) : Prop :=
  ∀ m opened, m.begins → ∃ m' : Mode, m'.takesWord ∧
    State.run e ⟨m, opened⟩ (mark lead).symbols = some ⟨m', opened⟩

theorem symbols_append (l m : Layout) :
  symbols (l ++ m) = symbols l ++ symbols m
  := List.flatMap_append

theorem run_append {σ ρ : State} (h : σ.run e l.symbols = some ρ) :
  σ.run e (symbols (l ++ part)) = ρ.run e part.symbols
  := by rw [symbols_append, State.run_append, h, Option.bind_some]

theorem Operand.ne_nil (h : l.Operand e) :
  l ≠ []
  := by
  rintro rfl
  have hrun := h .start [] rfl
  cases hrun

theorem Operand.neat (h : l.Operand e) :
  l.Neat e
  := fun _ => h

theorem neat_nil :
  Neat e []
  := fun h => absurd rfl h

theorem suffix_nil :
  Suffix e []
  := fun _ => rfl

theorem operand_append (hl : l.Operand e) (hpart : part.Suffix e) :
  Operand e (l ++ part)
  := by
  intro m opened hm
  rw [run_append (hl m opened hm)]
  exact hpart opened

theorem suffix_append (hl : l.Suffix e) (hpart : part.Suffix e) :
  Suffix e (l ++ part)
  := by
  intro opened
  rw [run_append (hl opened)]
  exact hpart opened

/-! ### Words -/

theorem step_leafChar {m : Mode} {opened : List Bracket} {c : Char} (hm : m.takesWord)
    (hc : isLeafChar c) :
  State.step e ⟨m, opened⟩ (.char c) = some ⟨.operand, opened⟩
  := by
  have hrole : (Symbol.char c).role = .word := by
    rw [Symbol.role, Role.ofChar.eq_def, if_pos hc]
  rw [State.step_eq_some, Symbol.shift.eq_def, hrole]
  cases m with
  | separator => contradiction
  | opened b => cases b <;> exact ⟨rfl, rfl⟩
  | _ => exact ⟨rfl, rfl⟩

theorem run_leafChars {opened : List Bracket} {cs : List Char} (h : ∀ c ∈ cs, isLeafChar c) :
  State.run e ⟨.operand, opened⟩ (cs.map .char) = some ⟨.operand, opened⟩
  := by
  induction cs with
  | nil => rfl
  | cons c cs ih =>
    rw [List.map_cons, State.run_cons]
    use ⟨.operand, opened⟩, step_leafChar rfl (h c List.mem_cons_self)
    exact ih fun c' hc' => h c' (List.mem_cons_of_mem c hc')

theorem run_word {m : Mode} {opened : List Bracket} (hm : m.takesWord) (h : IsLeafText text) :
  State.run e ⟨m, opened⟩ (word text).symbols = some ⟨.operand, opened⟩
  := by
  obtain ⟨hne, hleaf⟩ := h
  rw [word, if_neg hne, symbols, List.flatMap_singleton, Piece.symbols]
  cases hcs : text.toList with
  | nil => exact absurd (String.toList_eq_nil_iff.mp hcs) hne
  | cons c cs =>
    rw [hcs] at hleaf
    rw [List.map_cons, State.run_cons]
    use ⟨.operand, opened⟩, step_leafChar hm (hleaf c List.mem_cons_self)
    exact run_leafChars fun c' hc' => hleaf c' (List.mem_cons_of_mem c hc')

theorem operand_word (h : IsLeafText text) :
  Operand e (word text)
  := by
  intro m opened hm
  apply run_word _ h
  rw [Mode.takesWord, hm]
  rfl

/-- The marks of the printing rules before a word with which a part begins. -/
def introducers : List String :=
  ["@", "$", "...", "fragment ", "scalar ", "type ", "interface ", "union ", "enum ", "input ",
    "directive @"]

theorem introduces_of_mem (h : lead ∈ introducers) :
  Introduces e lead
  := by
  intro m opened hm
  simp only [introducers, List.mem_cons, List.not_mem_nil, or_false] at h
  rcases h with rfl | rfl | rfl | rfl | rfl | rfl | rfl | rfl | rfl | rfl | rfl <;>
  · refine ⟨_, ?_, (State.run_of_begins hm rfl).trans rfl⟩
    rfl

theorem operand_introduced (hlead : lead ∈ introducers) (h : IsLeafText text) :
  Operand e (mark lead ++ word text)
  := by
  intro m opened hm
  obtain ⟨m', hm', hrun⟩ := introduces_of_mem hlead m opened hm
  rw [run_append hrun]
  exact run_word hm' h

theorem operand_led_word (hlead : lead ∈ introducers) (h : IsLeafText text) :
  Operand e (led lead (word text))
  := by
  have hword : Operand e (word text) := operand_word h
  rw [led, if_neg hword.ne_nil]
  exact operand_introduced hlead h

theorem operand_literal (s : StringValue) :
  Operand e (literal s)
  := by
  intro m opened hm
  exact (State.run_of_begins hm rfl).trans rfl

/-! ### Parts after a separator -/

/-- The marks of the printing rules between two parts. -/
def separators : List String :=
  [" ", ", ", ": ", " = ", " & ", " | ", " on ", " implements ", "\n\n"]

theorem separates_of_mem (h : lead ∈ separators) :
  Separates e lead
  := by
  intro opened
  simp only [separators, List.mem_cons, List.not_mem_nil, or_false] at h
  rcases h with rfl | rfl | rfl | rfl | rfl | rfl | rfl | rfl | rfl <;> exact ⟨_, rfl, rfl⟩

theorem suffix_led (hlead : lead ∈ separators) (h : part.Neat e) :
  Suffix e (led lead part)
  := by
  rw [led]
  split
  case isTrue => exact suffix_nil
  case isFalse hpart =>
    intro opened
    obtain ⟨m, hm, hrun⟩ := separates_of_mem hlead opened
    rw [run_append hrun]
    exact h hpart m opened hm

theorem neat_glue {separator : String} (hseparator : separator ∈ separators) {parts : List Layout}
    (h : ∀ part ∈ parts, part.Neat e) :
  Neat e (glue separator parts)
  := by
  induction parts with
  | nil => exact neat_nil
  | cons part parts ih =>
    have hparts := ih fun part' hpart' => h part' (List.mem_cons_of_mem part hpart')
    rw [glue]
    split
    case isTrue => exact hparts
    case isFalse hpart =>
      intro _
      apply operand_append (h part List.mem_cons_self hpart)
      exact suffix_led hseparator hparts

theorem eq_nil_of_glue {separator : String} {parts : List Layout}
    (h : ∀ part ∈ parts, part ≠ []) (hnil : glue separator parts = []) :
  parts = []
  := by
  cases parts with
  | nil => rfl
  | cons part parts =>
    have hpart := h part List.mem_cons_self
    rw [glue, if_neg hpart, List.append_eq_nil_iff] at hnil
    exact absurd hnil.1 hpart

/-! ### Parts between brackets -/

/-- A part between brackets is run through with the opening bracket among the open ones. -/
theorem run_enclosed {m m' : Mode} {opened : List Bracket} (b : Bracket)
    (hlead : State.run e ⟨m, opened⟩ (mark lead).symbols = some ⟨m', b :: opened⟩)
    (hm' : m'.begins)
    (hclose : State.run e ⟨.operand, b :: opened⟩ (mark close).symbols = some ⟨.operand, opened⟩)
    (h : part.Operand e) :
  State.run e ⟨m, opened⟩ (symbols (mark lead ++ part ++ mark close)) = some ⟨.operand, opened⟩
  := by
  rw [List.append_assoc, run_append hlead, run_append (h m' _ hm')]
  exact hclose

theorem suffix_parens (h : part.Neat e) :
  Suffix e (enclosed "(" part ")")
  := by
  rw [enclosed]
  split
  case isTrue => exact suffix_nil
  case isFalse hpart =>
    intro opened
    exact run_enclosed .round rfl rfl rfl (h hpart)

theorem neat_braced {parts : List Layout} (h : ∀ part ∈ parts, part.Neat e) :
  Neat e (braced parts)
  := by
  have hparts : Neat e (glue ", " parts) := neat_glue (by decide) h
  rw [braced, enclosed]
  split
  case isTrue => exact neat_nil
  case isFalse hne =>
    intro _ m opened hm
    have hlead : State.run e ⟨m, opened⟩ (mark "\x7b ").symbols = some ⟨.gap, .curly :: opened⟩ :=
      (State.run_of_begins hm rfl).trans rfl
    exact run_enclosed .curly hlead rfl rfl (hparts hne)

/-- Parts in braces, which may stand right after an operand or behind a space. -/
theorem suffix_enclosed_curly (hlead : lead = "\x7b " ∨ lead = " \x7b ") {parts : List Layout}
    (h : ∀ part ∈ parts, part.Neat e) :
  Suffix e (enclosed lead (glue ", " parts) " \x7d")
  := by
  have hparts : Neat e (glue ", " parts) := neat_glue (by decide) h
  rw [enclosed]
  split
  case isTrue => exact suffix_nil
  case isFalse hne =>
    intro opened
    rcases hlead with rfl | rfl
    · exact run_enclosed .curly rfl rfl rfl (hparts hne)
    · exact run_enclosed .curly rfl rfl rfl (hparts hne)

theorem run_square {m : Mode} {opened : List Bracket} (hm : m.begins) :
  State.run e ⟨m, opened⟩ (mark "[").symbols = some ⟨.opened .square, .square :: opened⟩
  := (State.run_of_begins hm rfl).trans rfl

theorem operand_bracketed (h : part.Operand e) :
  Operand e (enclosed "[" part "]")
  := by
  rw [enclosed, if_neg h.ne_nil]
  intro m opened hm
  exact run_enclosed .square (run_square hm) rfl rfl h

/-- A list literal, with something in it or where it may be empty. -/
theorem operand_list (hlists : part = [] → e.lists) (h : part.Neat e) :
  Operand e (mark "[" ++ part ++ mark "]")
  := by
  intro m opened hm
  by_cases hpart : part = []
  · obtain ⟨objects, lists⟩ := e
    obtain rfl : lists = true := hlists hpart
    rw [hpart, List.append_nil, run_append (run_square hm)]
    rfl
  · exact run_enclosed .square (run_square hm) rfl rfl (h hpart)

/-- An object literal, with something in it or where it may be empty. -/
theorem operand_object (hobjects : part = [] → e.objects) (h : part.Neat e) :
  Operand e (mark "\x7b" ++ part ++ mark "\x7d")
  := by
  intro m opened hm
  have hlead : State.run e ⟨m, opened⟩ (mark "\x7b").symbols
      = some ⟨.opened .curly, .curly :: opened⟩ := (State.run_of_begins hm rfl).trans rfl
  by_cases hpart : part = []
  · obtain ⟨objects, lists⟩ := e
    obtain rfl : objects = true := hobjects hpart
    rw [hpart, List.append_nil, run_append hlead]
    rfl
  · exact run_enclosed .curly hlead rfl rfl (h hpart)

/-- A part behind an alias. -/
theorem operand_aliased {alias? : Option String}
    (halias : ∀ text, alias? = some text → IsLeafText text) (h : part.Operand e) :
  Operand e (enclosed "" (word? alias?) ": " ++ part)
  := by
  cases alias? with
  | none => exact h
  | some text =>
    have htext : Operand e (word text) := operand_word (halias text rfl)
    intro m opened hm
    rw [word?_some, enclosed, if_neg htext.ne_nil, mark_empty, List.nil_append, List.append_assoc,
      run_append (htext m opened hm), run_append (ρ := ⟨.gap, opened⟩) rfl]
    exact h .gap opened rfl

theorem operand_spread :
  Operand e (mark "...")
  := by
  intro m opened hm
  exact (State.run_of_begins hm rfl).trans rfl

theorem operand_extend (h : part.Operand e) :
  Operand e (mark "extend " ++ part)
  := by
  intro m opened hm
  have hlead : State.run e ⟨m, opened⟩ (mark "extend ").symbols = some ⟨.space, opened⟩ :=
    (State.run_of_begins hm rfl).trans rfl
  rw [run_append hlead]
  exact h .space opened rfl

theorem suffix_word? {text? : Option String} (h : ∀ text, text? = some text → IsLeafText text) :
  Suffix e (led " " (word? text?))
  := by
  apply suffix_led (by decide)
  cases text? with
  | none => exact neat_nil
  | some text => exact (operand_word (h text rfl)).neat

theorem suffix_locations (locations : List DirectiveLocation) :
  Suffix e (led " on " (glue " | " (locations.map fun l => word l.text)))
  := by
  apply suffix_led (by decide)
  apply neat_glue (by decide)
  intro part hpart
  obtain ⟨l, -, rfl⟩ := List.mem_map.mp hpart
  apply Operand.neat
  apply operand_word
  cases l <;> decide

theorem operand_described (description? : Option StringValue) (h : part.Operand e) :
  Operand e (described description? part)
  := by
  cases description? with
  | none => exact h
  | some s =>
    intro m opened hm
    rw [described, Option.elim, List.append_assoc, run_append (operand_literal s m opened hm)]
    exact h .start opened rfl

end Layout

open Layout

/-! ## The printing rules -/

namespace Node

/-- What is required of the leaves of a node, and what there may be in it. -/
structure Fits (n : Node) (e : Empties) : Prop where
  raw : ∀ text, .raw text ∈ n.leaves → IsLeafText text
  objects : n.Contains (.value (.object [])) → e.objects
  lists : n.Contains (.value (.list [])) → e.lists

/-- Whether a node prints to nothing where it has no parts. -/
def isGroup : Node → Bool
  | .document _ => true
  | .selectionSet _ => true
  | _ => false

/-- How a node is printed: as an operand, or possibly not at all if it is a group. -/
structure Neat (n : Node) (e : Empties) : Prop where
  neat : n.layout.Neat e
  operand : n.isGroup = false → n.layout.Operand e
  /-- A selection set may also follow an operand without a space. -/
  follows : ∀ ss, n = .selectionSet ss → n.layout.Suffix e

variable {e : Empties} {n m : Node}

theorem neat_of_operand (hn : n.isGroup = false) (h : n.layout.Operand e) :
  n.Neat e
  := by
  constructor
  · exact h.neat
  · exact fun _ => h
  · rintro ss rfl
    contradiction

theorem neat_of_body (hn : n.isGroup = false) (h : n.body.Operand e) :
  n.Neat e
  := neat_of_operand hn (operand_described n.description? h)

theorem Fits.of_mem (h : n.Fits e) (hm : .node m ∈ n.contents) :
  m.Fits e
  := by
  have hcontains := contains_of_mem hm
  constructor
  · intro text htext
    exact h.raw text (hcontains.mem_leaves htext)
  · intro hobject
    exact h.objects (hcontains.trans hobject)
  · intro hlist
    exact h.lists (hcontains.trans hlist)

theorem Fits.isLeafText (h : n.Fits e) {text : String} (htext : n.contents = Content.raw text) :
  IsLeafText text
  := by
  apply h.raw
  rw [n.leaves_eq, htext]
  exact List.mem_singleton_self _

theorem Fits.name (h : n.Fits e) {text : String} (hname : .node (.name text) ∈ n.contents) :
  IsLeafText text
  := (h.of_mem hname).isLeafText rfl

section Rules

variable (ih : ∀ m, .node m ∈ n.contents → m.Neat e)

include ih

theorem neat_each {separator : String} (hseparator : separator ∈ separators) {α : Type}
    {layout : α → Layout} (toNode : α → Node) {xs : List α}
    (hlayout : ∀ x, (toNode x).layout = layout x)
    (hmem : ∀ x ∈ xs, .node (toNode x) ∈ n.contents) :
  Layout.Neat e (glue separator (xs.map layout))
  := by
  apply neat_glue hseparator
  intro part hpart
  obtain ⟨x, hx, rfl⟩ := List.mem_map.mp hpart
  rw [← hlayout]
  exact (ih (toNode x) (hmem x hx)).neat

theorem eq_nil_of_each {separator : String} {α : Type} {layout : α → Layout} (toNode : α → Node)
    {xs : List α} (hlayout : ∀ x, (toNode x).layout = layout x)
    (hgroup : ∀ x, (toNode x).isGroup = false)
    (hmem : ∀ x ∈ xs, .node (toNode x) ∈ n.contents)
    (hnil : glue separator (xs.map layout) = []) :
  xs = []
  := by
  apply List.map_eq_nil_iff.mp (eq_nil_of_glue _ hnil)
  intro part hpart
  obtain ⟨x, hx, rfl⟩ := List.mem_map.mp hpart
  rw [← hlayout]
  exact ((ih (toNode x) (hmem x hx)).operand (hgroup x)).ne_nil

theorem neat_option {α : Type} {layout : α → Layout} (toNode : α → Node) {x? : Option α}
    (hlayout : ∀ x, (toNode x).layout = layout x)
    (hmem : ∀ x, x? = some x → .node (toNode x) ∈ n.contents) :
  Layout.Neat e (x?.elim [] layout)
  := by
  cases x? with
  | none => exact neat_nil
  | some x =>
    rw [Option.elim, ← hlayout]
    exact (ih (toNode x) (hmem x rfl)).neat

theorem suffix_applied {ds : List Directive}
    (hmem : ∀ d ∈ ds, .node (.directive d) ∈ n.contents) :
  Suffix e (led " " (applied ds))
  := by
  apply suffix_led (by decide)
  exact neat_each ih (by decide) .directive (fun _ => rfl) hmem

theorem suffix_arguments {args : List Argument}
    (hmem : ∀ a ∈ args, .node (.argument a) ∈ n.contents) :
  Suffix e (enclosed "(" (glue ", " (args.map Argument.layout)) ")")
  := by
  apply suffix_parens
  exact neat_each ih (by decide) .argument (fun _ => rfl) hmem

theorem suffix_parameters {ds : List InputValueDefinition}
    (hmem : ∀ d ∈ ds, .node (.inputValue d) ∈ n.contents) :
  Suffix e (parameters ds)
  := by
  apply suffix_parens
  exact neat_each ih (by decide) .inputValue (fun _ => rfl) hmem

theorem suffix_node {lead : String} (hlead : lead ∈ separators) (m : Node)
    (hmem : .node m ∈ n.contents) :
  Suffix e (led lead m.layout)
  := suffix_led hlead (ih m hmem).neat

theorem suffix_selections {ss : SelectionSet} (hmem : .node (.selectionSet ss) ∈ n.contents) :
  Suffix e (led " " ss.layout)
  := suffix_node ih (by decide) (.selectionSet ss) hmem

theorem suffix_types {lead separator : String} (hlead : lead ∈ separators)
    (hseparator : separator ∈ separators) {ts : List NamedType}
    (hmem : ∀ t ∈ ts, .node (.type (.named t)) ∈ n.contents) :
  Suffix e (led lead (glue separator (ts.map NamedType.layout)))
  := by
  apply suffix_led hlead
  exact neat_each ih hseparator (fun t => .type (.named t)) (fun _ => rfl) hmem

theorem suffix_default {v? : Option Value}
    (hmem : ∀ v, v? = some v → .node (.value v) ∈ n.contents) :
  Suffix e (led " = " (v?.elim [] Value.layout))
  := by
  apply suffix_led (by decide)
  exact neat_option ih .value (fun _ => rfl) hmem

theorem suffix_each {α : Type} {layout : α → Layout} (toNode : α → Node) {xs : List α}
    (hlayout : ∀ x, (toNode x).layout = layout x)
    (hmem : ∀ x ∈ xs, .node (toNode x) ∈ n.contents) :
  Suffix e (members (xs.map layout))
  := by
  apply suffix_enclosed_curly (.inr rfl)
  intro part hpart
  obtain ⟨x, hx, rfl⟩ := List.mem_map.mp hpart
  rw [← hlayout]
  exact (ih (toNode x) (hmem x hx)).neat

end Rules

theorem operand_value {v : Value} (h : (Node.value v).Fits e)
    (ih : ∀ m, .node m ∈ (Node.value v).contents → m.Neat e) :
  v.layout.Operand e
  := by
  cases v with
  | var v =>
    rw [Value.layout]
    apply operand_introduced (by decide)
    apply h.name
    simp [contents, Value.contents]
  | string s =>
    rw [Value.layout]
    exact operand_literal s
  | float text | int text | enum text =>
    rw [Value.layout]
    exact operand_word (h.isLeafText rfl)
  | boolean value =>
    rw [Value.layout, truth]
    cases value <;> exact operand_word (by decide)
  | list vs =>
    have hmem : ∀ v ∈ vs, .node (.value v) ∈ (Node.value (.list vs)).contents := by
      simp [contents, Value.contents]
    rw [Value.layout, Value.layouts_eq_map]
    apply operand_list
    · intro hnil
      obtain rfl := eq_nil_of_each ih .value (fun _ => rfl) (fun _ => rfl) hmem hnil
      exact h.lists .refl
    · exact neat_each ih (by decide) .value (fun _ => rfl) hmem
  | object fs =>
    have hmem : ∀ f ∈ fs, .node (.objectField f) ∈ (Node.value (.object fs)).contents := by
      simp [contents, Value.contents]
    rw [Value.layout, ObjectField.layouts_eq_map]
    apply operand_object
    · intro hnil
      obtain rfl := eq_nil_of_each ih .objectField (fun _ => rfl) (fun _ => rfl) hmem hnil
      exact h.objects .refl
    · exact neat_each ih (by decide) .objectField (fun _ => rfl) hmem
  | null =>
    rw [Value.layout]
    exact operand_word (by decide)

theorem operand_type {t : TypeRef} (h : (Node.type t).Fits e)
    (ih : ∀ m, .node m ∈ (Node.type t).contents → m.Neat e) :
  t.layout.Operand e
  := by
  cases t with
  | named t =>
    apply operand_word
    apply h.name
    simp [contents, TypeRef.contents]
  | list t =>
    rw [TypeRef.layout]
    apply operand_bracketed
    exact (ih (.type t) (by simp [contents, TypeRef.contents])).operand rfl
  | nonNull t =>
    have ht : t.layout.Operand e :=
      (ih (.type t) (by simp [contents, TypeRef.contents])).operand rfl
    rw [TypeRef.layout, enclosed, if_neg ht.ne_nil]
    exact operand_append ht fun _ => rfl

theorem operand_selection {s : Selection} (h : (Node.selection s).Fits e)
    (ih : ∀ m, .node m ∈ (Node.selection s).contents → m.Neat e) :
  s.layout.Operand e
  := by
  cases s with
  | field f =>
    obtain ⟨alias?, name, args, ds, ss⟩ := f
    rw [Selection.layout, Field.layout, Selection.layouts_eq_map, List.append_assoc]
    apply operand_aliased
    · rintro text rfl
      apply h.name
      simp [contents, Selection.contents]
    · apply operand_append
      · apply operand_append
        · apply operand_word
          apply h.name
          simp [contents, Selection.contents]
        · apply suffix_arguments ih
          simp [contents, Selection.contents]
      · apply suffix_append
        · apply suffix_applied ih
          simp [contents, Selection.contents]
        · exact suffix_selections ih (by simp [contents, Selection.contents])
  | fragmentSpread s =>
    apply operand_append
    · apply operand_led_word (by decide)
      apply h.name
      simp [contents, Selection.contents]
    · apply suffix_applied ih
      simp [contents, Selection.contents]
  | inlineFragment f =>
    obtain ⟨typeCondition?, ds, ss⟩ := f
    rw [Selection.layout, InlineFragment.layout, Selection.layouts_eq_map]
    apply operand_append
    · apply operand_append operand_spread
      apply suffix_led (by decide)
      apply neat_option ih (fun t => .type (.named t)) fun _ => rfl
      simp [contents, Selection.contents]
    · apply suffix_append
      · apply suffix_applied ih
        simp [contents, Selection.contents]
      · exact suffix_selections ih (by simp [contents, Selection.contents])

section Declarations

variable (h : n.Fits e) (ih : ∀ m, .node m ∈ n.contents → m.Neat e)

include h ih

/-- The beginning of a declaration with a name. -/
theorem operand_declared {lead name : String} {ds : List Directive}
    (hlead : lead ∈ introducers)
    (hname : .node (.name name) ∈ n.contents)
    (hds : ∀ d ∈ ds, .node (.directive d) ∈ n.contents) :
  Operand e (led lead (word name) ++ led " " (applied ds))
  := by
  apply operand_append
  · exact operand_led_word hlead (h.name hname)
  · exact suffix_applied ih hds

theorem operand_fieldsType {lead name : String} {interfaces : List NamedType}
    {ds : List Directive} {fields : List FieldDefinition}
    (hlead : lead ∈ introducers)
    (hname : .node (.name name) ∈ n.contents)
    (hinterfaces : ∀ t ∈ interfaces, .node (.type (.named t)) ∈ n.contents)
    (hds : ∀ d ∈ ds, .node (.directive d) ∈ n.contents)
    (hfields : ∀ d ∈ fields, .node (.fieldDefinition d) ∈ n.contents) :
  Operand e (fieldsType lead name interfaces ds fields)
  := by
  apply operand_append
  · apply operand_append
    · apply operand_append
      · exact operand_led_word hlead (h.name hname)
      · exact suffix_types ih (by decide) (by decide)
          hinterfaces
    · exact suffix_applied ih hds
  · exact suffix_each ih .fieldDefinition (fun _ => rfl) hfields

theorem operand_declaration {d : Declaration} (hd : d.contents ⊆ n.contents) :
  d.layout.Operand e
  := by
  cases d with
  | schema ds operationTypes =>
    apply operand_append
    · apply operand_append (operand_word (by decide))
      exact suffix_applied ih fun d hmem => hd (by simp [Declaration.contents, hmem])
    · apply suffix_each ih .operationType fun _ => rfl
      exact fun d hmem => hd (by simp [Declaration.contents, hmem])
  | scalar name ds =>
    apply operand_declared h ih (by decide)
    · exact hd (by simp [Declaration.contents])
    · exact fun d hmem => hd (by simp [Declaration.contents, hmem])
  | object name interfaces ds fields | interface name interfaces ds fields =>
    apply operand_fieldsType h ih (by decide)
    · exact hd (by simp [Declaration.contents])
    · exact fun d hmem => hd (by simp [Declaration.contents, hmem])
    · exact fun d hmem => hd (by simp [Declaration.contents, hmem])
    · exact fun d hmem => hd (by simp [Declaration.contents, hmem])
  | union name ds members =>
    apply operand_append
    · apply operand_declared h ih (by decide)
      · exact hd (by simp [Declaration.contents])
      · exact fun d hmem => hd (by simp [Declaration.contents, hmem])
    · apply suffix_types ih (by decide) (by decide)
      exact fun d hmem => hd (by simp [Declaration.contents, hmem])
  | enum name ds values =>
    apply operand_append
    · apply operand_declared h ih (by decide)
      · exact hd (by simp [Declaration.contents])
      · exact fun d hmem => hd (by simp [Declaration.contents, hmem])
    · apply suffix_each ih .enumValue fun _ => rfl
      exact fun d hmem => hd (by simp [Declaration.contents, hmem])
  | inputObject name ds fields =>
    apply operand_append
    · apply operand_declared h ih (by decide)
      · exact hd (by simp [Declaration.contents])
      · exact fun d hmem => hd (by simp [Declaration.contents, hmem])
    · apply suffix_each ih .inputValue fun _ => rfl
      exact fun d hmem => hd (by simp [Declaration.contents, hmem])

theorem operand_operation {d : OperationDefinition}
    (hd : (Definition.operation d).contents ⊆ n.contents) :
  d.layout.Operand e
  := by
  apply operand_append
  · apply operand_append
    · apply operand_append
      · apply operand_append
        · apply operand_word
          cases d.operation <;> decide
        · apply suffix_word?
          intro text htext
          exact h.name (hd (by simp [Definition.contents, htext]))
      · apply suffix_parens
        apply neat_each ih (by decide) .variableDefinition fun _ => rfl
        exact fun d hmem => hd (by simp [Definition.contents, hmem])
    · exact suffix_applied ih fun d hmem => hd (by simp [Definition.contents, hmem])
  · exact (ih (.selectionSet d.selections) (hd (by simp [Definition.contents]))).follows _ rfl

theorem operand_fragment {d : FragmentDefinition}
    (hd : (Definition.fragment d).contents ⊆ n.contents) :
  d.layout.Operand e
  := by
  apply operand_append
  · apply operand_append
    · apply operand_append
      · apply operand_led_word (by decide)
        exact h.name (hd (by simp [Definition.contents]))
      · exact suffix_node ih (by decide) (.type (.named d.typeCondition))
          (hd (by simp [Definition.contents]))
    · exact suffix_applied ih fun d hmem => hd (by simp [Definition.contents, hmem])
  · exact suffix_selections ih (hd (by simp [Definition.contents]))

theorem operand_directive {d : DirectiveDefinition}
    (hd : (Definition.directive d).contents ⊆ n.contents) :
  d.body.Operand e
  := by
  apply operand_append
  · apply operand_append
    · apply operand_append
      · apply operand_led_word (by decide)
        exact h.name (hd (by simp [Definition.contents]))
      · exact suffix_parameters ih fun d hmem => hd (by simp [Definition.contents, hmem])
    · split
      · apply suffix_led (by decide)
        exact (operand_word (by decide)).neat
      · exact suffix_nil
  · exact suffix_locations d.locations

end Declarations

theorem operand_definition {d : Definition} (h : (Node.definition d).Fits e)
    (ih : ∀ m, .node m ∈ (Node.definition d).contents → m.Neat e) :
  d.layout.Operand e
  := by
  cases d with
  | operation d => exact operand_operation h ih (List.Subset.refl _)
  | fragment d => exact operand_fragment h ih (List.Subset.refl _)
  | define description? d =>
    apply operand_described
    apply operand_declaration h ih
    simp [contents, Definition.contents]
  | directive d =>
    apply operand_described
    exact operand_directive h ih (List.Subset.refl _)
  | extend d =>
    apply operand_extend
    exact operand_declaration h ih (List.Subset.refl _)

/-- A node is printed neatly if the nodes in its contents are. -/
theorem neat_of_contents (h : n.Fits e) (ih : ∀ m, .node m ∈ n.contents → m.Neat e) :
  n.Neat e
  := by
  cases n with
  | name text => exact neat_of_body rfl (operand_word (h.isLeafText rfl))
  | document d =>
    constructor
    · apply neat_each ih (by decide) .definition fun _ => rfl
      simp [contents]
    · intro hgroup
      contradiction
    · intro ss hss
      contradiction
  | definition d => exact neat_of_operand rfl (operand_definition h ih)
  | variableDefinition d =>
    apply neat_of_body rfl
    apply operand_append
    · apply operand_append
      · apply operand_append
        · exact (ih (.value (.var d.var)) (by simp [contents])).operand rfl
        · exact suffix_node ih (by decide) (.type d.type) (by simp [contents])
      · apply suffix_default ih
        simp +contextual [contents]
    · apply suffix_applied ih
      simp +contextual [contents]
  | selectionSet ss =>
    have hparts : ∀ part ∈ ss.map Selection.layout, part.Neat e := by
      intro part hpart
      obtain ⟨s, hs, rfl⟩ := List.mem_map.mp hpart
      exact (ih (.selection s) (by simp [contents, hs])).neat
    constructor
    · exact neat_braced hparts
    · intro hgroup
      contradiction
    · intro _ _
      exact suffix_enclosed_curly (.inl rfl) hparts
  | selection s => exact neat_of_body rfl (operand_selection h ih)
  | argument a =>
    apply neat_of_body rfl
    apply operand_append
    · exact operand_word (h.name (by simp [contents]))
    · exact suffix_node ih (by decide) (.value a.value) (by simp [contents])
  | value v => exact neat_of_body rfl (operand_value h ih)
  | objectField f =>
    obtain ⟨name, value⟩ := f
    apply neat_of_body rfl
    apply operand_append
    · exact operand_word (h.name (by simp [contents]))
    · exact suffix_node ih (by decide) (.value value) (by simp [contents])
  | directive d =>
    apply neat_of_body rfl
    apply operand_append
    · exact operand_led_word (by decide) (h.name (by simp [contents]))
    · apply suffix_arguments ih
      simp [contents]
  | type t => exact neat_of_body rfl (operand_type h ih)
  | operationType d =>
    apply neat_of_body rfl
    apply operand_append
    · apply operand_word
      cases d.operation <;> decide
    · exact suffix_node ih (by decide) (.type (.named d.type)) (by simp [contents])
  | fieldDefinition d =>
    apply neat_of_body rfl
    apply operand_append
    · apply operand_append
      · exact operand_word (h.name (by simp [contents]))
      · apply suffix_parameters ih
        simp +contextual [contents]
    · apply suffix_append
      · exact suffix_node ih (by decide) (.type d.type) (by simp [contents])
      · apply suffix_applied ih
        simp +contextual [contents]
  | inputValue d =>
    apply neat_of_body rfl
    apply operand_append
    · apply operand_append
      · apply operand_append
        · exact operand_word (h.name (by simp [contents]))
        · exact suffix_node ih (by decide) (.type d.type) (by simp [contents])
      · apply suffix_default ih
        simp +contextual [contents]
    · apply suffix_applied ih
      simp +contextual [contents]
  | enumValue d =>
    apply neat_of_body rfl
    apply operand_append
    · exact operand_word (h.name (by simp [contents]))
    · apply suffix_applied ih
      simp +contextual [contents]

theorem Fits.neat (h : n.Fits e) :
  n.Neat e
  := by
  induction n using Node.induction with
  | step n ih => exact neat_of_contents h fun m hm => ih m hm (h.of_mem hm)

theorem Fits.run (h : n.Fits e) :
  ∃ m : Mode, (m = .start ∨ m = .operand) ∧
    State.run e ⟨.start, []⟩ n.layout.symbols = some ⟨m, []⟩
  := by
  by_cases hnil : n.layout = []
  · use .start, .inl rfl
    rw [hnil]
    rfl
  · use .operand, .inr rfl
    exact h.neat.neat hnil .start [] rfl

/-- The punctuation of the text of a node is tidy where no name, number or enum value is empty
or has white space or punctuation in it.  The braces of an object literal and the brackets of a
list literal are the only ones that may have nothing between them. -/
theorem text_tidy (n : Node) (h : ∀ text, .raw text ∈ n.leaves → IsLeafText text) :
  ∃ symbols, scan n.text.toList = some symbols ∧ Tidy symbols ∧
    ([.char '\x7b', .char '\x7d'] <:+: symbols → n.Contains (.value (.object []))) ∧
    ([.char '[', .char ']'] <:+: symbols → n.Contains (.value (.list [])))
  := by
  classical
  let e : Empties := ⟨n.Contains (.value (.object [])), n.Contains (.value (.list []))⟩
  have hfits : n.Fits e := ⟨h, by simp [e], by simp [e]⟩
  obtain ⟨m, hm, hrun⟩ := hfits.run
  refine ⟨n.layout.symbols, scan_text hrun, tidy_of_run hrun hm, ?_, ?_⟩
  · intro hwithin
    have hempties := empties_of_run hrun (b := .curly) rfl rfl hwithin
    simpa [e] using hempties
  · intro hwithin
    have hempties := empties_of_run hrun (b := .square) rfl rfl hwithin
    simpa [e] using hempties

/-- A field with an empty list for an argument and a selection of its own. -/
def userField : Node :=
  .selection (.field ⟨none, "user", [⟨"ids", .list []⟩], [], [.field (.leaf "name")]⟩)

theorem leaves_userField :
  userField.leaves = [.raw "user", .raw "ids", .raw "name"]
  := by
  simp [userField, Field.leaf, leaves_eq, contents, Selection.contents, Value.contents,
    Content.each, Content.named, Content.raw, Content.applied, Content.leaves]

theorem userField_text_tidy :
  (∀ text, .raw text ∈ userField.leaves → IsLeafText text) ∧
    ∃ symbols, scan userField.text.toList = some symbols ∧ Tidy symbols ∧
      ([.char '\x7b', .char '\x7d'] <:+: symbols → userField.Contains (.value (.object []))) ∧
      ([.char '[', .char ']'] <:+: symbols → userField.Contains (.value (.list [])))
  := by
  have h : ∀ text, .raw text ∈ userField.leaves → IsLeafText text := by
    intro text htext
    simp only [leaves_userField, List.mem_cons, List.not_mem_nil, or_false,
      Leaf.raw.injEq] at htext
    rcases htext with rfl | rfl | rfl <;> decide
  exact ⟨h, text_tidy userField h⟩

end Node

end GraphQLText
