import GraphQLText.Proofs.Layout.Unseen

/-!
# Slots

What a printing rule puts together are slots: parts that may be absent, and are absent exactly
where they have no text.  `Layout.slot` is the slot of a layout.  The slot of several nodes is
what `glue` makes of their layouts, and it is also what comes out when the texts are written into
one buffer from left to right, with a separator before each that does not meet an empty buffer
(`Slot.join`): no part is without text, so the buffer is empty just before the first part, and
from then on it is not (`Slot.foldl_write_of_ne_empty`).  Hence the slot of nodes is put together
from the slots of the front and the rest of them (`Node.joined_append`).
-/

namespace GraphQLText

open Layout

/-- A part of a text, which may be absent. -/
abbrev Slot := Option String

namespace Slot

/-! ## Writing parts one after the other -/

/-- A text as a slot.  Only the empty text is absent. -/
def ofText (text : String) : Slot := if text = "" then none else some text

/-- A part is added to what has been written, behind a separator if that is anything. -/
def write (separator written part : String) : String :=
  (if written = "" then written else written ++ separator) ++ part

/-- The texts that are not empty, written one after the other. -/
def join (separator : String) (texts : List String) : Slot :=
  ofText ((texts.filterMap ofText).foldl (write separator) "")

variable {separator written : String}

theorem ofText_ne_empty (text : String) :
  ofText text ≠ some ""
  := by
  rw [ofText]
  split
  case isTrue => simp
  case isFalse h => simpa using h

theorem filterMap_ofText (texts : List String) :
  texts.filterMap ofText = texts.filter (· ≠ "")
  := by
  rw [← List.filterMap_eq_filter]
  apply List.filterMap_congr
  intro text _
  simp [ofText, Option.guard]

theorem write_empty (part : String) :
  write separator "" part = part
  := by simp [write]

/-- Once anything is written, each part comes behind a separator. -/
theorem foldl_write_of_ne_empty (h : written ≠ "") (parts : List String) :
  parts.foldl (write separator) written = separator.intercalate (written :: parts)
  := by
  -- a buffer that is not empty stays so, whatever is added
  induction parts generalizing written with
  | nil => simp
  | cons part parts ih =>
    have hwrite : write separator written part = written ++ separator ++ part := by
      rw [write, if_neg h]
    have hne : written ++ separator ++ part ≠ "" := by simp [h]
    rw [List.foldl_cons, hwrite, ih hne, String.intercalate_cons_append,
      String.intercalate_cons_cons]

/-- Parts that all have a text are written with the separator between each two. -/
theorem foldl_write {parts : List String} (h : ∀ part ∈ parts, part ≠ "") :
  parts.foldl (write separator) "" = separator.intercalate parts
  := by
  cases parts with
  | nil => simp
  | cons part parts =>
    have hpart : part ≠ "" := h part List.mem_cons_self
    rw [List.foldl_cons, write_empty, foldl_write_of_ne_empty hpart]

theorem intercalate_eq_empty_iff {parts : List String} (h : ∀ part ∈ parts, part ≠ "") :
  separator.intercalate parts = "" ↔ parts = []
  := by
  cases parts with
  | nil => simp
  | cons part parts =>
    have hpart : part ≠ "" := h part List.mem_cons_self
    cases parts with
    | nil => simpa using hpart
    | cons other parts => simp [hpart]

/-- Texts are written as those that are not empty, with the separator between each two. -/
theorem join_eq (separator : String) (texts : List String) :
  join separator texts =
    if texts.filter (· ≠ "") = [] then none
    else some (separator.intercalate (texts.filter (· ≠ "")))
  := by
  have hpresent : ∀ text ∈ texts.filter (· ≠ ""), text ≠ "" := by
    intro text htext
    simpa using (List.mem_filter.mp htext).2
  rw [join, filterMap_ofText, foldl_write hpresent, ofText]
  congr 1
  rw [intercalate_eq_empty_iff hpresent]

end Slot

/-! ## Slots of layouts -/

/-- The slot of a layout, which is absent without any pieces. -/
def Layout.slot (l : Layout) : Slot := if l = [] then none else some l.text

/-- A layout is absent just if it has no text. -/
theorem Layout.Solid.slot_eq {l : Layout} (h : l.Solid) :
  l.slot = .ofText l.text
  := by
  rw [slot, Slot.ofText]
  congr 1
  rw [h.text_eq_empty_iff]

theorem Layout.Solid.slot_ne_empty {l : Layout} (h : l.Solid) :
  l.slot ≠ some ""
  := by
  rw [h.slot_eq]
  apply Slot.ofText_ne_empty

namespace Node

variable {α : Type} {toNode : α → Node} {separator : String}

/-- The slot of several nodes with a separator between each two. -/
def joined (toNode : α → Node) (separator : String) (xs : List α) : Slot :=
  (glue separator (xs.map fun x => (toNode x).layout)).slot

theorem solid_glue_layouts (toNode : α → Node) (separator : String) (xs : List α) :
  (glue separator (xs.map fun x => (toNode x).layout)).Solid
  := by
  apply (solid_glue separator _).mpr
  rw [List.forall_mem_map]
  intro x _
  apply Node.solid

/-- The slot of several nodes has the texts that are not empty, with the separator between each
two, and is absent if there are none. -/
theorem joined_eq (separator : String) (xs : List α) :
  joined toNode separator xs =
    if visible toNode xs = [] then none else some (separator.intercalate (visible toNode xs))
  := by
  have hsolid : ∀ part ∈ xs.map fun x => (toNode x).layout, part.Solid :=
    (solid_glue separator _).mp (solid_glue_layouts toNode separator xs)
  have htext := text_glue separator hsolid
  have hnone := texts_eq_nil_iff separator hsolid
  rw [List.map_map] at htext hnone
  rw [joined, slot, htext]
  congr 1
  rw [← hnone]
  rfl

/-- The nodes can be written into a buffer from left to right. -/
theorem joined_eq_join (separator : String) (xs : List α) :
  joined toNode separator xs = Slot.join separator (xs.map fun x => (toNode x).text)
  := by
  rw [joined_eq, Slot.join_eq]
  rfl

theorem visible_eq_nil_iff (xs : List α) :
  visible toNode xs = [] ↔ ∀ x ∈ xs, (toNode x).text = ""
  := by simp [visible]

theorem visible_append (xs ys : List α) :
  visible toNode (xs ++ ys) = visible toNode xs ++ visible toNode ys
  := by simp [visible]

theorem joined_eq_none_iff (separator : String) (xs : List α) :
  joined toNode separator xs = none ↔ ∀ x ∈ xs, (toNode x).text = ""
  := by
  rw [joined_eq, ← visible_eq_nil_iff]
  simp

theorem joined_eq_some_iff (separator : String) (xs : List α) (text : String) :
  joined toNode separator xs = some text
    ↔ (∃ x ∈ xs, (toNode x).text ≠ "") ∧ text = separator.intercalate (visible toNode xs)
  := by
  have hsome : (∃ x ∈ xs, (toNode x).text ≠ "") ↔ visible toNode xs ≠ [] := by
    simp [visible_eq_nil_iff]
  rw [joined_eq, hsome]
  split
  case isTrue hnone => simp [hnone]
  case isFalse hsome => simp [hsome, eq_comm]

/-- The slot of some nodes and more nodes has the separator between the slots of the two if both
are present, and else is the one that is. -/
theorem joined_append (separator : String) (xs ys : List α) :
  joined toNode separator (xs ++ ys) =
    (joined toNode separator xs).merge (fun s t => s ++ separator ++ t)
      (joined toNode separator ys)
  := by
  rw [joined_eq, joined_eq, joined_eq, visible_append]
  by_cases hxs : visible toNode xs = []
  · simp [hxs]
  · by_cases hys : visible toNode ys = []
    · simp [hxs, hys]
    · simp [hxs, hys, String.intercalate_append_of_ne_nil]

/-- The slot of several nodes is absent just if each of them prints to nothing.  Otherwise it has
the texts that are not empty, in their order and with the separator between each two, as if they
had been written into one buffer.  The slot of two lists of nodes one after the other is put
together from theirs.  No slot of a node, of a text or of several nodes is present and empty. -/
theorem joined_slot (toNode : α → Node) (separator : String) (xs ys : List α) :
  (joined toNode separator xs = none ↔ ∀ x ∈ xs, (toNode x).text = "") ∧
  (∀ text, joined toNode separator xs = some text ↔
    (∃ x ∈ xs, (toNode x).text ≠ "") ∧ text = separator.intercalate (visible toNode xs)) ∧
  joined toNode separator xs = Slot.join separator (xs.map fun x => (toNode x).text) ∧
  joined toNode separator (xs ++ ys) =
    (joined toNode separator xs).merge (fun s t => s ++ separator ++ t)
      (joined toNode separator ys) ∧
  (∀ n : Node, n.layout.slot ≠ some "") ∧
  (∀ text, (word text).slot ≠ some "") ∧
  joined toNode separator xs ≠ some ""
  := by
  refine ⟨?_, ?_, ?_, ?_, ?_, ?_, ?_⟩
  · apply joined_eq_none_iff
  · apply joined_eq_some_iff
  · apply joined_eq_join
  · apply joined_append
  · intro n
    apply n.solid.slot_ne_empty
  · intro text
    apply (solid_word text).slot_ne_empty
  · apply (solid_glue_layouts toNode separator xs).slot_ne_empty

end Node

end GraphQLText
