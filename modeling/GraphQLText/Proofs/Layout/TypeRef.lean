import GraphQLText.Proofs.Layout.Solid

/-!
# Texts of type references

A type reference can be told from its text.  A list wrapper writes its brackets on both sides of
the type inside, a non-null wrapper its mark behind it; so the last character of a text is that of
the outermost wrapper, if there is any (`TypeRef.getLast?_list`, `TypeRef.getLast?_nonNull`), and
no two type references on plain names have one text (`TypeRef.eq_of_text_eq`).  Without the marks
of the wrappers a text is the name of the innermost type, and where this has no name the whole
text is empty.
-/

namespace GraphQLText

open Layout

namespace TypeRef

/-- Whether a character is a mark of a wrapper. -/
def isMark (c : Char) : Bool := c = '[' ∨ c = ']' ∨ c = '!'

end TypeRef

/-- A name that is not empty and has no marks of wrappers in it. -/
def NamedType.IsPlain (t : NamedType) : Prop :=
  t.name ≠ "" ∧ ∀ c ∈ t.name.toList, TypeRef.isMark c = false

instance (t : NamedType) : Decidable t.IsPlain :=
  decidable_of_iff (t.name ≠ "" ∧ (t.name.toList.all fun c => !TypeRef.isMark c) = true)
    (by simp [NamedType.IsPlain])

namespace TypeRef

/-! ## The text of a wrapper -/

theorem text_named (t : NamedType) :
  (named t).layout.text = t.name
  := text_word t.name

theorem text_list (t : TypeRef) :
  (list t).layout.text = if t.layout.text = "" then "" else "[" ++ t.layout.text ++ "]"
  := text_enclosed "[" "]" t.solid

theorem text_nonNull (t : TypeRef) :
  (nonNull t).layout.text = if t.layout.text = "" then "" else t.layout.text ++ "!"
  := by
  rw [layout, text_enclosed "" "!" t.solid, String.empty_append]

/-- A wrapper around a type without a name has no text. -/
theorem text_eq_empty_iff (t : TypeRef) :
  t.layout.text = "" ↔ t.innermost.name = ""
  := by
  induction t with
  | named t => rw [text_named, innermost]
  | list t ih =>
    rw [text_list, innermost, ← ih]
    split <;> simp_all
  | nonNull t ih =>
    rw [text_nonNull, innermost, ← ih]
    split <;> simp_all

theorem toList_text_list (t : TypeRef) (h : t.innermost.name ≠ "") :
  (list t).layout.text.toList = '[' :: t.layout.text.toList ++ [']']
  := by
  rw [text_list, if_neg (t.text_eq_empty_iff.not.mpr h), String.toList_append, String.toList_append]
  rfl

theorem toList_text_nonNull (t : TypeRef) (h : t.innermost.name ≠ "") :
  (nonNull t).layout.text.toList = t.layout.text.toList ++ ['!']
  := by
  rw [text_nonNull, if_neg (t.text_eq_empty_iff.not.mpr h), String.toList_append]
  rfl

/-! ## What the text tells -/

theorem getLast?_list (t : TypeRef) (h : t.innermost.name ≠ "") :
  (list t).layout.text.toList.getLast? = some ']'
  := by rw [toList_text_list t h, List.getLast?_concat]

theorem getLast?_nonNull (t : TypeRef) (h : t.innermost.name ≠ "") :
  (nonNull t).layout.text.toList.getLast? = some '!'
  := by rw [toList_text_nonNull t h, List.getLast?_concat]

/-- A text that ends with the mark of a wrapper is not a plain name. -/
theorem text_named_ne {n : NamedType} {u : TypeRef} (h : n.IsPlain) {c : Char}
    (hc : isMark c = true) (hlast : u.layout.text.toList.getLast? = some c) :
  (named n).layout.text ≠ u.layout.text
  := by
  intro heq
  rw [← heq, text_named] at hlast
  have hplain := h.2 c (List.mem_of_getLast? hlast)
  rw [hc] at hplain
  contradiction

theorem text_list_ne_nonNull (t u : TypeRef) (ht : t.innermost.name ≠ "")
    (hu : u.innermost.name ≠ "") :
  (list t).layout.text ≠ (nonNull u).layout.text
  := by
  intro heq
  have hlast := getLast?_list t ht
  rw [heq, getLast?_nonNull u hu] at hlast
  simp at hlast

/-- Type references on plain names are told apart by their texts. -/
theorem eq_of_text_eq {t u : TypeRef} (ht : t.innermost.IsPlain) (hu : u.innermost.IsPlain)
    (h : t.layout.text = u.layout.text) :
  t = u
  := by
  induction t generalizing u with
  | named t =>
    cases u with
    | named u =>
      rw [text_named, text_named] at h
      congr 1
      cases t
      congr 1
    | list u =>
      exfalso
      apply text_named_ne ht (by rfl) (getLast?_list u hu.1) h
    | nonNull u =>
      exfalso
      apply text_named_ne ht (by rfl) (getLast?_nonNull u hu.1) h
  | list t ih =>
    cases u with
    | named u =>
      exfalso
      apply text_named_ne hu (by rfl) (getLast?_list t ht.1) h.symm
    | list u =>
      have hinner := congrArg String.toList h
      rw [toList_text_list t ht.1, toList_text_list u hu.1, List.append_cancel_right_eq,
        List.cons.injEq, String.toList_inj] at hinner
      rw [ih (u := u) ht hu hinner.2]
    | nonNull u =>
      exfalso
      apply text_list_ne_nonNull t u ht.1 hu.1 h
  | nonNull t ih =>
    cases u with
    | named u =>
      exfalso
      apply text_named_ne hu (by rfl) (getLast?_nonNull t ht.1) h.symm
    | list u =>
      exfalso
      apply text_list_ne_nonNull u t hu.1 ht.1 h.symm
    | nonNull u =>
      have hinner := congrArg String.toList h
      rw [toList_text_nonNull t ht.1, toList_text_nonNull u hu.1, List.append_cancel_right_eq,
        String.toList_inj] at hinner
      rw [ih (u := u) ht hu hinner]

/-- The text without the marks of the wrappers is the innermost name. -/
theorem filter_text {t : TypeRef} (h : t.innermost.IsPlain) :
  t.layout.text.toList.filter (!isMark ·) = t.innermost.name.toList
  := by
  induction t with
  | named t =>
    rw [text_named, innermost, List.filter_eq_self]
    intro c hc
    simpa using h.2 c hc
  | list t ih =>
    rw [toList_text_list t h.1, List.filter_append, List.filter_cons, ih h]
    simp [isMark, innermost]
  | nonNull t ih =>
    rw [toList_text_nonNull t h.1, List.filter_append, ih h]
    simp [isMark, innermost]

end TypeRef

/-- The text of a type reference on a plain name determines it, however it is wrapped, and has the
name in it between the marks of the wrappers.  A type reference on an empty name has no text. -/
theorem TypeRef.text_determines (t u : TypeRef) :
  (t.innermost.IsPlain → u.innermost.IsPlain →
      ((Node.type t).text = (Node.type u).text ↔ t = u))
    ∧ (t.innermost.IsPlain →
      (Node.type t).text.toList.filter (!isMark ·) = t.innermost.name.toList)
    ∧ (t.innermost.name = "" → (Node.type t).text = "")
  := by
  refine ⟨?_, filter_text, t.text_eq_empty_iff.mpr⟩
  intro ht hu
  constructor
  · apply eq_of_text_eq ht hu
  · intro h
    rw [h]

/-- Two type references that differ only in where their non-null wrappers stand, and one that is
wrapped around nothing. -/
theorem TypeRef.text_determines_nonNull :
  (⟨"Int"⟩ : NamedType).IsPlain
    ∧ ((Node.type (.nonNull (.nonNull (.list (.nonNull (.named ⟨"Int"⟩)))))).text
        = (Node.type (.nonNull (.list (.nonNull (.nonNull (.named ⟨"Int"⟩)))))).text
      ↔ nonNull (.nonNull (.list (.nonNull (.named ⟨"Int"⟩))))
        = nonNull (.list (.nonNull (.nonNull (.named ⟨"Int"⟩)))))
    ∧ (Node.type (.nonNull (.nonNull (.list (.nonNull (.named ⟨"Int"⟩)))))).text.toList.filter
        (!isMark ·) = "Int".toList
    ∧ (nonNull (.list (.named ⟨""⟩))).innermost.name = ""
    ∧ (Node.type (.nonNull (.list (.named ⟨""⟩)))).text = ""
  := by
  have hplain : (⟨"Int"⟩ : NamedType).IsPlain := by decide
  have hempty : (nonNull (.list (.named ⟨""⟩))).innermost.name = "" := rfl
  obtain ⟨htext, hname, -⟩ :=
    text_determines (.nonNull (.nonNull (.list (.nonNull (.named ⟨"Int"⟩)))))
      (.nonNull (.list (.nonNull (.nonNull (.named ⟨"Int"⟩)))))
  obtain ⟨-, -, hnone⟩ :=
    text_determines (.nonNull (.list (.named ⟨""⟩))) (.nonNull (.list (.named ⟨""⟩)))
  exact ⟨hplain, htext hplain hplain, hname hplain, hempty, hnone hempty⟩

end GraphQLText
