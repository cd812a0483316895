import GraphQLText.Reading.Basic
import Mathlib.Data.List.Forall2

/-!
# What the readers of fields accept

What is asked of a JSON value at each of its keys, and that the readers of fields accept just
that.  A key with `null` counts as missing, and a missing list as the empty one.  Each reader
has a lemma that says when it succeeds with a given outcome; they are what the readers of
nodes are taken apart with.
-/

namespace GraphQLText

/-! ## Outcomes -/

namespace Reading

variable {α β : Type}

theorem bind_eq_ok {x : Reading α} {f : α → Reading β} {b : β} :
  (x >>= f) = .ok b ↔ ∃ a, x = .ok a ∧ f a = .ok b
  := by
  cases x with
  | error e => simp [bind, Except.bind]
  | ok a => simp [bind, Except.bind]

theorem map_eq_ok {x : Reading α} {f : α → β} {b : β} :
  (f <$> x) = .ok b ↔ ∃ a, x = .ok a ∧ f a = b
  := by
  cases x with
  | error e => simp [Functor.map, Except.map]
  | ok a => simp [Functor.map, Except.map]

theorem bind_eq_error {x : Reading α} {f : α → Reading β} {e : ReadError} :
  (x >>= f) = .error e ↔ x = .error e ∨ ∃ a, x = .ok a ∧ f a = .error e
  := by
  cases x with
  | error e' => simp [bind, Except.bind]
  | ok a => simp [bind, Except.bind]

theorem pure_eq_error {a : α} {e : ReadError} :
  (pure a : Reading α) = .error e ↔ False
  := by simp [pure, Except.pure]

/-- Where a part is read just from what has two properties, and one of them is known, what is
made of the part is read just from what has the other. -/
theorem map_eq_ok_iff_right {x : Reading α} {f : α → β} (hf : f.Injective) {a : α} {p q : Prop}
    (hx : x = .ok a ↔ p ∧ q) (hp : p) :
  (f <$> x) = .ok (f a) ↔ q
  := by
  rw [map_eq_ok]
  constructor
  · rintro ⟨b, hb, hfb⟩
    obtain rfl := hf hfb
    exact (hx.mp hb).2
  · intro hq
    use a
    exact ⟨hx.mpr ⟨hp, hq⟩, rfl⟩

theorem pure_eq_ok {a b : α} :
  (pure a : Reading α) = .ok b ↔ a = b
  := by simp [pure, Except.pure]

end Reading

open Reading

/-! ## What a JSON value holds -/

namespace Json

/-- A value that stands for a text: the string itself, or a number that is written so. -/
def IsText (json : Json) (text : String) : Prop :=
  json = .string text ∨ ∃ n : Number, json = .number n ∧ n.text = text

/-- The value at a key, which has to be there, has a property. -/
def Has (json : Json) (key : String) (p : Json → Prop) : Prop :=
  ∃ value, json.field? key = some value ∧ p value

/-- The value at a key stands for a part, or is missing with it. -/
def HasOptional {α : Type} (json : Json) (key : String) (represents : Json → α → Prop) :
    Option α → Prop
  | none => json.field? key = none
  | some a => json.Has key fun value => represents value a

/-- The items of the array at a key; there are none where it is missing. -/
def HasItems (json : Json) (key : String) (items : List Json) : Prop :=
  json.field? key = some (.array items) ∨ json.field? key = none ∧ items = []

/-- The items of the array at a key stand for several parts, in their order. -/
def HasList {α : Type} (json : Json) (key : String) (represents : Json → α → Prop)
    (as : List α) : Prop :=
  ∃ items, json.HasItems key items ∧ List.Forall₂ represents items as

/-- The value at a key stands for a text. -/
def HasText (json : Json) (key text : String) : Prop := json.Has key (IsText · text)

/-- A value that stands for a name: the string itself, or a node of the kind of names with
the text in it. -/
def IsName (json : Json) (name : String) : Prop :=
  json = .string name ∨ json.IsNode .name ∧ json.HasText "value" name

/-- The value at a key stands for a name. -/
def HasName (json : Json) (key name : String) : Prop := json.Has key (IsName · name)

/-- The value at a key is just the truth value `true`. -/
def HasFlag (json : Json) (key : String) : Prop := json.member? key = some (.bool true)

/-- What is found at a key, if `null` counts as missing, is what is there other than `null`. -/
theorem field?_eq_some_iff {json value : Json} {key : String} :
  json.field? key = some value ↔ json.member? key = some value ∧ value ≠ .null
  := by
  rw [field?]
  split
  case h_1 hnull =>
    rw [hnull]
    simp only [reduceCtorEq, Option.some.injEq, ne_eq, false_iff, not_and, not_not]
    exact Eq.symm
  case h_2 hother =>
    constructor
    · intro h
      refine ⟨h, ?_⟩
      rintro rfl
      exact hother h
    · exact And.left

theorem HasKind.kind_eq {json : Json} {kind kind' : Kind} (h : json.HasKind kind)
    (h' : json.HasKind kind') :
  kind = kind'
  := by
  rw [HasKind] at h h'
  rw [h', Option.some.injEq, Json.string.injEq] at h
  exact Kind.label_injective h.symm

theorem IsNode.kind_eq {json : Json} {kind kind' : Kind} (h : json.IsNode kind)
    (h' : json.IsNode kind') :
  kind = kind'
  := h.label.kind_eq h'.label

end Json

/-! ## Tags -/

namespace Tagged

variable {json : Json} {α : Type}

theorem kindOf_eq_ok {kind : Kind} (h : json.HasKind kind) :
  kindOf json = .ok ⟨kind, h⟩
  := by
  rw [kindOf]
  split
  case h_1 label hlabel =>
    obtain rfl : label = kind.label := by
      rw [Json.HasKind, hlabel] at h
      simpa using h
    split
    case h_1 found hfound =>
      obtain rfl : found = kind := by simpa using hfound.symm
      rfl
    case h_2 hnone => simp at hnone
  case h_2 hother => exact absurd h (hother kind.label)

theorem ofKind_eq_ok (node : Tagged json) :
  ofKind node.isNode.object ⟨node.kind, node.isNode.label⟩ = .ok node
  := by
  rw [ofKind]
  split
  case h_1 description hdescription =>
    apply dif_pos
    apply node.isNode.undescribed.resolve_right
    simp [hdescription]
  case h_2 => rfl

/-- A JSON value that is a node passes the check of its tag. -/
theorem of_eq_ok (node : Tagged json) :
  of json = .ok node
  := by
  rw [of, dif_pos node.isNode.object, kindOf_eq_ok node.isNode.label]
  apply ofKind_eq_ok

/-- A node passes the check of its tag where its kind is expected. -/
theorem expect_eq_ok {kind : Kind} (h : json.IsNode kind) :
  expect kind json = .ok ⟨kind, h⟩
  := by
  rw [expect, of_eq_ok ⟨kind, h⟩]
  apply if_pos rfl

/-- A node of any kind is read by its fields. -/
theorem of_bind_eq_ok {f : Tagged json → Reading α} {a : α} :
  (of json >>= f) = .ok a ↔ ∃ node, f node = .ok a
  := by
  rw [bind_eq_ok]
  apply exists_congr
  intro node
  rw [of_eq_ok node]
  apply and_iff_right rfl

/-- A node of a given kind is read by its fields. -/
theorem expect_bind_eq_ok {kind : Kind} {f : Tagged json → Reading α} {a : α} :
  (expect kind json >>= f) = .ok a ↔ ∃ h : json.IsNode kind, f ⟨kind, h⟩ = .ok a
  := by
  rw [expect, bind_assoc, of_bind_eq_ok]
  constructor
  · rintro ⟨⟨found, hnode⟩, h⟩
    by_cases hkind : found = kind
    · subst hkind
      use hnode
      simpa [pure_bind] using h
    · simp [hkind, bind, Except.bind] at h
  · rintro ⟨hnode, h⟩
    use ⟨kind, hnode⟩
    simpa using h

/-- A node of a given kind is read just if its fields are. -/
theorem expect_bind_eq_ok_of_fields {kind : Kind} {f : Tagged json → Reading α} {a : α} {p : Prop}
    (hfields : ∀ node, f node = .ok a ↔ p) :
  (expect kind json >>= f) = .ok a ↔ json.IsNode kind ∧ p
  := by simp only [expect_bind_eq_ok, hfields, exists_prop]

/-- A node of one of several kinds is read by the fields of its kind, where what is read from
it tells the kind. -/
theorem of_bind_eq_ok_of_kind {f : Tagged json → Reading α} {kind : Kind} {a : α} {p : Prop}
    (hkind : ∀ node, f node = .ok a → kind = node.kind)
    (hfields : ∀ h : json.IsNode kind, f ⟨kind, h⟩ = .ok a ↔ p) :
  (of json >>= f) = .ok a ↔ json.IsNode kind ∧ p
  := by
  rw [of_bind_eq_ok]
  constructor
  · rintro ⟨⟨found, hnode⟩, h⟩
    obtain rfl : kind = found := hkind ⟨found, hnode⟩ h
    exact ⟨hnode, (hfields hnode).mp h⟩
  · rintro ⟨hnode, h⟩
    exact ⟨⟨kind, hnode⟩, (hfields hnode).mpr h⟩

/-! ## Fields

The readers with a bound are the readers without it when they make no use of it.
-/

theorem requiredWithin_eq_required (node : Tagged json) (key : String)
    (read : Json → Reading α) :
  (node.requiredWithin key fun value _ => read value) = node.required key read
  := rfl

theorem optionalWithin_eq_optional (node : Tagged json) (key : String)
    (read : Json → Reading α) :
  (node.optionalWithin key fun value _ => read value) = node.optional key read
  := rfl

theorem listWithin_eq_list (node : Tagged json) (key : String) (read : Json → Reading α) :
  (node.listWithin key fun item _ => read item) = node.list key read
  := rfl

theorem required_eq_ok {node : Tagged json} {key : String} {read : Json → Reading α} {a : α} :
  node.required key read = .ok a ↔ json.Has key fun value => read value = .ok a
  := by
  rw [required, requiredWithin, Json.Has]
  split
  case h_1 value hvalue => simp [hvalue]
  case h_2 hmissing => simp [hmissing]

theorem optional_eq_ok {node : Tagged json} {key : String} {read : Json → Reading α}
    {a? : Option α} :
  node.optional key read = .ok a? ↔
    json.HasOptional key (fun value a => read value = .ok a) a?
  := by
  rw [optional, optionalWithin]
  split
  case h_1 value hvalue =>
    cases a? with
    | none => simp [map_eq_ok, Json.HasOptional, hvalue]
    | some a => simp [map_eq_ok, Json.HasOptional, Json.Has, hvalue]
  case h_2 hmissing =>
    cases a? with
    | none => simp [Json.HasOptional, hmissing]
    | some a => simp [Json.HasOptional, Json.Has, hmissing]

end Tagged

/-- Several items are read if each of them is. -/
theorem readAll_eq_ok {α : Type} {P : Json → Prop} {read : Json → Reading α} {items : List Json}
    (h : ∀ item ∈ items, P item) {as : List α} :
  @readAll α P (fun item _ => read item) items h = .ok as ↔
    List.Forall₂ (fun item a => read item = .ok a) items as
  := by
  induction items generalizing as with
  | nil =>
    rw [readAll, List.forall₂_nil_left_iff, Except.ok.injEq]
    exact eq_comm
  | cons item items ih =>
    simp only [readAll, bind_eq_ok, pure_eq_ok, ih, List.forall₂_cons_left_iff]
    constructor
    · rintro ⟨a, ha, as, has, rfl⟩
      exact ⟨a, as, ha, has, rfl⟩
    · rintro ⟨a, as, ha, has, rfl⟩
      exact ⟨a, ha, as, has, rfl⟩

/-- What stands in one of two lists that are related item by item has a partner in the other. -/
theorem exists_of_forall₂ {α β : Type} {r : α → β → Prop} {as : List α} {bs : List β}
    (h : List.Forall₂ r as bs) {a : α} (ha : a ∈ as) :
  ∃ b ∈ bs, r a b
  := by
  induction h with
  | nil => contradiction
  | @cons a' b as bs hab _ ih =>
    rcases List.mem_cons.mp ha with rfl | ha
    · exact ⟨b, List.mem_cons_self, hab⟩
    · obtain ⟨b', hb', hab'⟩ := ih ha
      exact ⟨b', List.mem_cons_of_mem b hb', hab'⟩

/-- Several items are refused with the error of the first of them that is refused. -/
theorem readAll_eq_error {α : Type} {P : Json → Prop} {read : Json → Reading α}
    {items : List Json} (h : ∀ item ∈ items, P item) {e : ReadError} :
  @readAll α P (fun item _ => read item) items h = .error e ↔
    ∃ before item after, items = before ++ item :: after ∧
      (∀ earlier ∈ before, ∃ a, read earlier = .ok a) ∧ read item = .error e
  := by
  induction items with
  | nil => simp [readAll]
  | cons first items ih =>
    simp only [readAll, bind_eq_error, pure_eq_error, and_false, exists_false, or_false, ih]
    constructor
    · rintro (hfirst | ⟨a, hfirst, before, item, after, rfl, hbefore, hitem⟩)
      · exact ⟨[], first, items, rfl, List.forall_mem_nil _, hfirst⟩
      · refine ⟨first :: before, item, after, rfl, ?_, hitem⟩
        exact List.forall_mem_cons.mpr ⟨⟨a, hfirst⟩, hbefore⟩
    · rintro ⟨before, item, after, hitems, hbefore, hitem⟩
      cases before with
      | nil =>
        cases hitems
        left
        exact hitem
      | cons earlier before =>
        cases hitems
        obtain ⟨⟨a, hfirst⟩, hbefore⟩ := List.forall_mem_cons.mp hbefore
        right
        exact ⟨a, hfirst, before, item, after, rfl, hbefore, hitem⟩

/-- Several items of which one is refused are refused, with the error of that one or of one
before it. -/
theorem readAll_of_error {α : Type} {P : Json → Prop} {read : Json → Reading α} {item : Json}
    {e : ReadError} (hitem : read item = .error e) (before after : List Json)
    (h : ∀ item' ∈ before ++ item :: after, P item') :
  ∃ e', @readAll α P (fun item _ => read item) (before ++ item :: after) h = .error e' ∧
    (e' = e ∨ ∃ earlier ∈ before, read earlier = .error e')
  := by
  induction before with
  | nil =>
    refine ⟨e, ?_, .inl rfl⟩
    simp only [List.nil_append, readAll, bind_eq_error]
    exact .inl hitem
  | cons first before ih =>
    cases hfirst : read first with
    | error e' =>
      refine ⟨e', ?_, .inr ⟨first, List.mem_cons_self, hfirst⟩⟩
      simp only [List.cons_append, readAll, bind_eq_error]
      exact .inl hfirst
    | ok a =>
      obtain ⟨e', hrest, he'⟩ := ih fun item' hitem' => h item' (List.mem_cons_of_mem _ hitem')
      use e'
      constructor
      · simp only [List.cons_append, readAll, bind_eq_error]
        exact .inr ⟨a, hfirst, .inl hrest⟩
      · apply he'.imp_right
        rintro ⟨earlier, hearlier, hrefused⟩
        exact ⟨earlier, List.mem_cons_of_mem _ hearlier, hrefused⟩

/-- What is read from several items does not depend on what is known of them. -/
theorem readAll_congr {α : Type} {P Q : Json → Prop} (read : Json → Reading α)
    (items : List Json) (hP : ∀ item ∈ items, P item) (hQ : ∀ item ∈ items, Q item) :
  readAll (fun item (_ : P item) => read item) items hP =
    readAll (fun item (_ : Q item) => read item) items hQ
  := by
  induction items with
  | nil => rfl
  | cons item items ih => rw [readAll, readAll, ih]

namespace Tagged

variable {json : Json} {α : Type}

theorem required_eq_match (node : Tagged json) (key : String) (read : Json → Reading α) :
  node.required key read =
    match json.field? key with
    | some value => read value
    | none => .error (.missing node.kind key)
  := by
  rw [required, requiredWithin]
  split <;> simp_all

theorem optional_eq_match (node : Tagged json) (key : String) (read : Json → Reading α) :
  node.optional key read =
    match json.field? key with
    | some value => some <$> read value
    | none => .ok none
  := by
  rw [optional, optionalWithin]
  split <;> simp_all

theorem list_eq_match (node : Tagged json) (key : String) (read : Json → Reading α) :
  node.list key read =
    match json.field? key with
    | some (.array items) => readAll (fun item (_ : True) => read item) items fun _ _ => trivial
    | some other => .error (.notAList key other)
    | none => .ok []
  := by
  rw [list, listWithin]
  split
  case h_1 items hitems =>
    simp only [hitems]
    exact readAll_congr read items _ _
  case h_2 other hother hfield =>
    cases other with
    | array items => exact absurd rfl (hother items)
    | _ => simp only [hfield]
  case h_3 hmissing => simp only [hmissing]

theorem list_eq_ok {node : Tagged json} {key : String} {read : Json → Reading α}
    {as : List α} :
  node.list key read = .ok as ↔ json.HasList key (fun item a => read item = .ok a) as
  := by
  rw [list, listWithin, Json.HasList]
  split
  case h_1 items hitems => simp [readAll_eq_ok, Json.HasItems, hitems]
  case h_2 other hother hfield =>
    constructor
    · intro h
      contradiction
    · rintro ⟨items, hitems | ⟨hmissing, -⟩, -⟩
      · rw [hfield, Option.some.injEq] at hitems
        exact absurd hitems (hother items)
      · rw [hfield] at hmissing
        contradiction
  case h_3 hmissing =>
    simp only [Json.HasItems, hmissing, Except.ok.injEq, reduceCtorEq, false_or, true_and,
      exists_eq_left, List.forall₂_nil_left_iff]
    exact eq_comm

theorem text_eq_ok {node : Tagged json} {key text : String} :
  node.text key = .ok text ↔ json.HasText key text
  := by
  rw [Tagged.text, required_eq_ok, Json.HasText]
  apply exists_congr
  intro value
  apply and_congr_right
  intro _
  cases value with
  | string found => simp [Json.IsText]
  | number n => simp [Json.IsText]
  | _ => simp [Json.IsText]

theorem flag_eq_true {node : Tagged json} {key : String} :
  node.flag key = true ↔ json.HasFlag key
  := by
  rw [flag, Json.HasFlag]
  split
  case h_1 value hvalue => simp [hvalue]
  case h_2 hother =>
    rw [Bool.false_eq_true, false_iff]
    exact hother true

end Tagged

/-! ## Names and keywords -/

theorem readName_eq_ok {json : Json} {name : String} :
  readName json = .ok name ↔ json.IsName name
  := by
  rw [readName.eq_def, Json.IsName]
  split
  case h_1 text =>
    have hnode : ¬(Json.string text).IsNode .name := by
      intro h
      have hobject := h.object
      contradiction
    simp [hnode]
  case h_2 hother =>
    simp only [Tagged.expect_bind_eq_ok, Tagged.text_eq_ok, exists_prop]
    constructor
    · exact .inr
    · rintro (hstring | h)
      · exact absurd hstring (hother name)
      · exact h

theorem Tagged.name_eq_ok {json : Json} {node : Tagged json} {key name : String} :
  node.name key = .ok name ↔ json.HasName key name
  := by simp only [Tagged.name, required_eq_ok, readName_eq_ok, Json.HasName]

theorem Tagged.name?_eq_ok {json : Json} {node : Tagged json} {key : String}
    {name? : Option String} :
  node.name? key = .ok name? ↔ json.HasOptional key Json.IsName name?
  := by simp only [Tagged.name?, optional_eq_ok, readName_eq_ok]

/-- A word is read as the member of a closed set of which it is the text. -/
theorem readKeyword_eq_ok {α : Type} {ofText? : String → Option α} {text : α → String}
    (hof : ∀ a, ofText? (text a) = some a) (htext : ∀ word a, ofText? word = some a → text a = word)
    {word : String} {a : α} :
  readKeyword ofText? word = .ok a ↔ word = text a
  := by
  rw [readKeyword]
  constructor
  · intro h
    split at h
    case h_1 k hk =>
      cases h
      exact (htext word a hk).symm
    case h_2 => contradiction
  · rintro rfl
    rw [hof]

theorem OperationKind.read_eq_ok {json : Json} {kind : OperationKind} :
  OperationKind.read json = .ok kind ↔ json = .string kind.text
  := by
  rw [OperationKind.read.eq_def]
  split
  case h_1 word =>
    rw [readKeyword_eq_ok ofText?_text fun _ _ => text_eq_of_ofText?, Json.string.injEq]
  case h_2 hother =>
    constructor
    · intro h
      contradiction
    · intro h
      exact absurd h (hother kind.text)

theorem DirectiveLocation.read_eq_ok {json : Json} {l : DirectiveLocation} :
  DirectiveLocation.read json = .ok l ↔ json.IsName l.text
  := by
  simp only [DirectiveLocation.read, bind_eq_ok, readName_eq_ok,
    readKeyword_eq_ok ofText?_text fun _ _ => text_eq_of_ofText?]
  constructor
  · rintro ⟨word, hword, rfl⟩
    exact hword
  · intro h
    exact ⟨l.text, h, rfl⟩

end GraphQLText
