import GraphQLText.Proofs.Reading.Represents
import GraphQLText.Reading.Value

/-!
# The readers of values, directives and types

A reader succeeds with a tree exactly on the JSON values that represent it.  For each type of
node there is a lemma about its reader by the fields and, from it, one about its reader.  The
lemmas about values and the fields of object literals are proved together, by induction on
the tree that is read.
-/

namespace GraphQLText

open Json Reading

variable {json : Json}

/-! ## Leaves -/

theorem Variable.ofTagged_eq_ok {node : Tagged json} {v : Variable} :
  Variable.ofTagged node = .ok v ↔ v.Fields json
  := by
  simp only [Variable.ofTagged, map_eq_ok, Tagged.name_eq_ok]
  constructor
  · rintro ⟨name, hname, rfl⟩
    exact hname
  · intro h
    exact ⟨v.name, h, rfl⟩

theorem Variable.read_eq_ok {v : Variable} :
  Variable.read json = .ok v ↔ v.Represents json
  := Tagged.expect_bind_eq_ok_of_fields fun _ => ofTagged_eq_ok

theorem StringValue.ofTagged_eq_ok {node : Tagged json} {s : StringValue} :
  StringValue.ofTagged node = .ok s ↔ s.Fields json
  := by
  simp only [StringValue.ofTagged, bind_eq_ok, pure_eq_ok, Tagged.text_eq_ok]
  constructor
  · rintro ⟨value, hvalue, rfl⟩
    exact ⟨hvalue, node.flag_eq_true⟩
  · rintro ⟨hvalue, hblock⟩
    refine ⟨s.value, hvalue, ?_⟩
    rw [Bool.eq_iff_iff.mpr (node.flag_eq_true.trans hblock.symm)]

theorem StringValue.read_eq_ok {s : StringValue} :
  StringValue.read json = .ok s ↔ s.Represents json
  := Tagged.expect_bind_eq_ok_of_fields fun _ => ofTagged_eq_ok

theorem Tagged.description?_eq_ok {node : Tagged json} {description? : Option StringValue} :
  node.description? = .ok description? ↔ HasDescription json description?
  := by simp only [Tagged.description?, optional_eq_ok, StringValue.read_eq_ok, HasDescription]

theorem Tagged.truth_eq_ok {node : Tagged json} {value : Bool} :
  node.truth = .ok value ↔ json.member? "value" = some (.bool value)
  := by
  rw [truth]
  split
  case h_1 found hfound => simp [hfound]
  case h_2 hother =>
    constructor
    · intro h
      contradiction
    · intro h
      exact absurd h (hother value)

theorem Tagged.truth_eq_error {node : Tagged json}
    (h : ∀ value, json.member? "value" ≠ some (.bool value)) :
  node.truth = .error .notATruthValue
  := by
  rw [truth]
  split
  case h_1 value hvalue => exact absurd hvalue (h value)
  case h_2 => rfl

theorem NamedType.ofTagged_eq_ok {node : Tagged json} {t : NamedType} :
  NamedType.ofTagged node = .ok t ↔ t.Fields json
  := by
  simp only [NamedType.ofTagged, map_eq_ok, Tagged.name_eq_ok]
  constructor
  · rintro ⟨name, hname, rfl⟩
    exact hname
  · intro h
    exact ⟨t.name, h, rfl⟩

theorem NamedType.read_eq_ok {t : NamedType} :
  NamedType.read json = .ok t ↔ t.Represents json
  := Tagged.expect_bind_eq_ok_of_fields fun _ => ofTagged_eq_ok

/-! ## Values -/

/-- What is read from a node of a value is a value of its kind. -/
theorem Value.kind_of_ofTagged {node : Tagged json} {v : Value}
    (h : Value.ofTagged node = .ok v) :
  v.kind = node.kind
  := by
  rw [Value.ofTagged] at h
  split at h
  case h_6 hkind =>
    cases h
    exact hkind.symm
  case h_10 => contradiction
  all_goals
    obtain ⟨part, -, rfl⟩ := map_eq_ok.mp h
    symm
    assumption

mutual

theorem Value.ofTagged_eq_ok (v : Value) {json : Json} (h : json.IsNode v.kind) :
  Value.ofTagged (⟨v.kind, h⟩ : Tagged json) = .ok v ↔ v.Fields json
  := by
  rw [Value.ofTagged]
  cases v with
  | var v => apply map_eq_ok_iff_right (fun _ _ => Value.var.inj) Variable.read_eq_ok h
  | string s =>
    apply map_eq_ok_iff_right (fun _ _ => Value.string.inj) StringValue.read_eq_ok h
  | float text | int text | enum name =>
    simp [Value.kind, Value.Fields, map_eq_ok, Tagged.text_eq_ok]
  | boolean value => simp [Value.kind, Value.Fields, map_eq_ok, Tagged.truth_eq_ok]
  | list values =>
    simp only [Value.kind, map_eq_ok, Tagged.listWithin_eq_list, Tagged.list_eq_ok, HasList,
      Value.list.injEq, exists_eq_right, Value.forall₂_read values, Value.Fields]
  | object fields =>
    simp only [Value.kind, map_eq_ok, Tagged.listWithin_eq_list, Tagged.list_eq_ok, HasList,
      Value.object.injEq, exists_eq_right, ObjectField.forall₂_read fields, Value.Fields]
  | null => simp [Value.kind, Value.Fields]

theorem ObjectField.ofTagged_eq_ok (f : ObjectField) {json : Json} {node : Tagged json} :
  ObjectField.ofTagged node = .ok f ↔ f.Fields json
  := by
  obtain ⟨name, value⟩ := f
  rw [ObjectField.ofTagged]
  simp only [bind_eq_ok, pure_eq_ok, Tagged.name_eq_ok, Tagged.requiredWithin_eq_required,
    Tagged.required_eq_ok, ObjectField.mk.injEq, ObjectField.Fields]
  have hread {item : Json} : Value.read item = .ok value ↔ value.Represents item := by
    rw [Value.read]
    exact Tagged.of_bind_eq_ok_of_kind (fun _ => Value.kind_of_ofTagged)
      (Value.ofTagged_eq_ok value)
  constructor
  · rintro ⟨found, hname, held, ⟨item, hitem, hvalue⟩, rfl, rfl⟩
    exact ⟨hname, item, hitem, hread.mp hvalue⟩
  · rintro ⟨hname, item, hitem, hvalue⟩
    exact ⟨name, hname, value, ⟨item, hitem, hread.mpr hvalue⟩, rfl, rfl⟩

theorem Value.forall₂_read (vs : List Value) {items : List Json} :
  List.Forall₂ (fun item v => Value.read item = .ok v) items vs ↔ Value.RepresentsAll items vs
  := by
  cases vs with
  | nil => cases items <;> simp [Value.RepresentsAll]
  | cons v vs =>
    cases items with
    | nil => simp [Value.RepresentsAll]
    | cons item items =>
      rw [List.forall₂_cons, Value.RepresentsAll, Value.forall₂_read vs, Value.read,
        Tagged.of_bind_eq_ok_of_kind (fun _ => Value.kind_of_ofTagged) (Value.ofTagged_eq_ok v)]

theorem ObjectField.forall₂_read (fs : List ObjectField) {items : List Json} :
  List.Forall₂ (fun item f => ObjectField.read item = .ok f) items fs ↔
    ObjectField.RepresentsAll items fs
  := by
  cases fs with
  | nil => cases items <;> simp [ObjectField.RepresentsAll]
  | cons f fs =>
    cases items with
    | nil => simp [ObjectField.RepresentsAll]
    | cons item items =>
      rw [List.forall₂_cons, ObjectField.RepresentsAll, ObjectField.forall₂_read fs,
        ObjectField.read,
        Tagged.expect_bind_eq_ok_of_fields fun _ => ObjectField.ofTagged_eq_ok f]

end

theorem Value.read_eq_ok {v : Value} :
  Value.read json = .ok v ↔ v.Represents json
  := by
  rw [Value.read]
  exact Tagged.of_bind_eq_ok_of_kind (fun _ => kind_of_ofTagged) (ofTagged_eq_ok v)

theorem ObjectField.read_eq_ok {f : ObjectField} :
  ObjectField.read json = .ok f ↔ f.Represents json
  := by
  rw [ObjectField.read]
  exact Tagged.expect_bind_eq_ok_of_fields fun _ => ofTagged_eq_ok f

/-! ## Directives -/

theorem Argument.ofTagged_eq_ok {node : Tagged json} {a : Argument} :
  Argument.ofTagged node = .ok a ↔ a.Fields json
  := by
  simp only [Argument.ofTagged, bind_eq_ok, pure_eq_ok, Tagged.name_eq_ok, Tagged.required_eq_ok,
    Value.read_eq_ok]
  constructor
  · rintro ⟨name, hname, value, hvalue, rfl⟩
    exact ⟨hname, hvalue⟩
  · rintro ⟨hname, hvalue⟩
    exact ⟨a.name, hname, a.value, hvalue, rfl⟩

theorem Argument.read_eq_ok {a : Argument} :
  Argument.read json = .ok a ↔ a.Represents json
  := Tagged.expect_bind_eq_ok_of_fields fun _ => ofTagged_eq_ok

theorem Directive.ofTagged_eq_ok {node : Tagged json} {d : Directive} :
  Directive.ofTagged node = .ok d ↔ d.Fields json
  := by
  simp only [Directive.ofTagged, bind_eq_ok, pure_eq_ok, Tagged.name_eq_ok, Tagged.list_eq_ok,
    Argument.read_eq_ok]
  constructor
  · rintro ⟨name, hname, arguments, harguments, rfl⟩
    exact ⟨hname, harguments⟩
  · rintro ⟨hname, harguments⟩
    exact ⟨d.name, hname, d.arguments, harguments, rfl⟩

theorem Directive.read_eq_ok {d : Directive} :
  Directive.read json = .ok d ↔ d.Represents json
  := Tagged.expect_bind_eq_ok_of_fields fun _ => ofTagged_eq_ok

theorem Tagged.directives_eq_ok {node : Tagged json} {ds : List Directive} :
  node.directives = .ok ds ↔ HasDirectives json ds
  := by simp only [directives, list_eq_ok, Directive.read_eq_ok, HasDirectives]

/-! ## Types -/

/-- What is read from a node of a type reference is a type reference of its kind. -/
theorem TypeRef.kind_of_ofTagged {node : Tagged json} {t : TypeRef}
    (h : TypeRef.ofTagged node = .ok t) :
  t.kind = node.kind
  := by
  rw [TypeRef.ofTagged] at h
  split at h
  case h_4 => contradiction
  all_goals
    obtain ⟨part, -, rfl⟩ := map_eq_ok.mp h
    symm
    assumption

theorem TypeRef.ofTagged_eq_ok {t : TypeRef} (h : json.IsNode t.kind) :
  TypeRef.ofTagged (⟨t.kind, h⟩ : Tagged json) = .ok t ↔ t.Fields json
  := by
  induction t generalizing json with
  | named t =>
    rw [TypeRef.ofTagged]
    apply map_eq_ok_iff_right (fun _ _ => TypeRef.named.inj) NamedType.read_eq_ok h
  | list item ih | nonNull item ih =>
    have hread {inner : Json} :
        TypeRef.read inner = .ok item ↔ inner.IsNode item.kind ∧ item.Fields inner := by
      rw [TypeRef.read]
      exact Tagged.of_bind_eq_ok_of_kind (fun _ => kind_of_ofTagged) ih
    rw [TypeRef.ofTagged]
    simp [TypeRef.kind, TypeRef.Fields, map_eq_ok, Tagged.requiredWithin_eq_required,
      Tagged.required_eq_ok, hread]

theorem TypeRef.read_eq_ok {t : TypeRef} :
  TypeRef.read json = .ok t ↔ t.Represents json
  := by
  rw [TypeRef.read]
  exact Tagged.of_bind_eq_ok_of_kind (fun _ => kind_of_ofTagged) ofTagged_eq_ok

end GraphQLText
