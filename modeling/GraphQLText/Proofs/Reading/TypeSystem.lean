import GraphQLText.Proofs.Reading.Value
import GraphQLText.Reading.TypeSystem

/-!
# The readers of the type system

The readers of the parts of type system definitions succeed with a tree exactly on the JSON
values that represent it.  What a declaration of a form is read from is the same in the
definition and in the extension of that form.
-/

namespace GraphQLText

open Json Reading

variable {json : Json}

theorem OperationTypeDefinition.ofTagged_eq_ok {node : Tagged json}
    {d : OperationTypeDefinition} :
  OperationTypeDefinition.ofTagged node = .ok d ↔ d.Fields json
  := by
  simp only [OperationTypeDefinition.ofTagged, bind_eq_ok, pure_eq_ok, Tagged.required_eq_ok,
    OperationKind.read_eq_ok, NamedType.read_eq_ok]
  constructor
  · rintro ⟨operation, hoperation, type, htype, rfl⟩
    exact ⟨hoperation, htype⟩
  · rintro ⟨hoperation, htype⟩
    exact ⟨d.operation, hoperation, d.type, htype, rfl⟩

theorem OperationTypeDefinition.read_eq_ok {d : OperationTypeDefinition} :
  OperationTypeDefinition.read json = .ok d ↔ d.Represents json
  := Tagged.expect_bind_eq_ok_of_fields fun _ => ofTagged_eq_ok

theorem InputValueDefinition.ofTagged_eq_ok {node : Tagged json} {d : InputValueDefinition} :
  InputValueDefinition.ofTagged node = .ok d ↔ d.Fields json
  := by
  simp only [InputValueDefinition.ofTagged, bind_eq_ok, pure_eq_ok, Tagged.description?_eq_ok,
    Tagged.name_eq_ok, Tagged.required_eq_ok, TypeRef.read_eq_ok, Tagged.optional_eq_ok,
    Value.read_eq_ok, Tagged.directives_eq_ok]
  constructor
  · rintro ⟨description?, hdescription, name, hname, type, htype, default?, hdefault, directives,
      hdirectives, rfl⟩
    exact ⟨hdescription, hname, htype, hdefault, hdirectives⟩
  · rintro ⟨hdescription, hname, htype, hdefault, hdirectives⟩
    exact ⟨d.description?, hdescription, d.name, hname, d.type, htype, d.default?, hdefault,
      d.directives, hdirectives, rfl⟩

theorem InputValueDefinition.read_eq_ok {d : InputValueDefinition} :
  InputValueDefinition.read json = .ok d ↔ d.Represents json
  := Tagged.expect_bind_eq_ok_of_fields fun _ => ofTagged_eq_ok

theorem FieldDefinition.ofTagged_eq_ok {node : Tagged json} {d : FieldDefinition} :
  FieldDefinition.ofTagged node = .ok d ↔ d.Fields json
  := by
  simp only [FieldDefinition.ofTagged, bind_eq_ok, pure_eq_ok, Tagged.description?_eq_ok,
    Tagged.name_eq_ok, Tagged.list_eq_ok, InputValueDefinition.read_eq_ok, Tagged.required_eq_ok,
    TypeRef.read_eq_ok, Tagged.directives_eq_ok]
  constructor
  · rintro ⟨description?, hdescription, name, hname, arguments, harguments, type, htype,
      directives, hdirectives, rfl⟩
    exact ⟨hdescription, hname, harguments, htype, hdirectives⟩
  · rintro ⟨hdescription, hname, harguments, htype, hdirectives⟩
    exact ⟨d.description?, hdescription, d.name, hname, d.arguments, harguments, d.type, htype,
      d.directives, hdirectives, rfl⟩

theorem FieldDefinition.read_eq_ok {d : FieldDefinition} :
  FieldDefinition.read json = .ok d ↔ d.Represents json
  := Tagged.expect_bind_eq_ok_of_fields fun _ => ofTagged_eq_ok

theorem EnumValueDefinition.ofTagged_eq_ok {node : Tagged json} {d : EnumValueDefinition} :
  EnumValueDefinition.ofTagged node = .ok d ↔ d.Fields json
  := by
  simp only [EnumValueDefinition.ofTagged, bind_eq_ok, pure_eq_ok, Tagged.description?_eq_ok,
    Tagged.name_eq_ok, Tagged.directives_eq_ok]
  constructor
  · rintro ⟨description?, hdescription, name, hname, directives, hdirectives, rfl⟩
    exact ⟨hdescription, hname, hdirectives⟩
  · rintro ⟨hdescription, hname, hdirectives⟩
    exact ⟨d.description?, hdescription, d.name, hname, d.directives, hdirectives, rfl⟩

theorem EnumValueDefinition.read_eq_ok {d : EnumValueDefinition} :
  EnumValueDefinition.read json = .ok d ↔ d.Represents json
  := Tagged.expect_bind_eq_ok_of_fields fun _ => ofTagged_eq_ok

theorem DirectiveDefinition.ofTagged_eq_ok {node : Tagged json} {d : DirectiveDefinition} :
  DirectiveDefinition.ofTagged node = .ok d ↔ d.Fields json
  := by
  simp only [DirectiveDefinition.ofTagged, bind_eq_ok, pure_eq_ok, Tagged.description?_eq_ok,
    Tagged.name_eq_ok, Tagged.list_eq_ok, InputValueDefinition.read_eq_ok,
    DirectiveLocation.read_eq_ok]
  constructor
  · rintro ⟨description?, hdescription, name, hname, arguments, harguments, locations, hlocations,
      rfl⟩
    exact ⟨hdescription, hname, harguments, node.flag_eq_true, hlocations⟩
  · rintro ⟨hdescription, hname, harguments, hrepeatable, hlocations⟩
    refine ⟨d.description?, hdescription, d.name, hname, d.arguments, harguments, d.locations,
      hlocations, ?_⟩
    rw [Bool.eq_iff_iff.mpr (node.flag_eq_true.trans hrepeatable.symm)]

theorem DirectiveDefinition.read_eq_ok {d : DirectiveDefinition} :
  DirectiveDefinition.read json = .ok d ↔ d.Represents json
  := Tagged.expect_bind_eq_ok_of_fields fun _ => ofTagged_eq_ok

/-- What is read as a declaration of a form has that form. -/
theorem Declaration.form_of_ofTagged {form : Form} {node : Tagged json} {d : Declaration}
    (h : Declaration.ofTagged form node = .ok d) :
  d.form = form
  := by
  cases form with
  | schema | scalar =>
    simp only [Declaration.ofTagged, bind_eq_ok, pure_eq_ok] at h
    obtain ⟨_, _, _, _, rfl⟩ := h
    rfl
  | object | interface =>
    simp only [Declaration.ofTagged, bind_eq_ok, pure_eq_ok] at h
    obtain ⟨_, _, _, _, _, _, _, _, rfl⟩ := h
    rfl
  | union | enum | inputObject =>
    simp only [Declaration.ofTagged, bind_eq_ok, pure_eq_ok] at h
    obtain ⟨_, _, _, _, _, _, rfl⟩ := h
    rfl

/-- A declaration is read exactly from its fields, in the definition and in the extension of
its form. -/
theorem Declaration.ofTagged_eq_ok {node : Tagged json} {d : Declaration} :
  Declaration.ofTagged d.form node = .ok d ↔ d.Fields json
  := by
  cases d with
  | schema directives types =>
    simp only [Declaration.form, Declaration.ofTagged, bind_eq_ok, pure_eq_ok,
      Tagged.directives_eq_ok, Tagged.list_eq_ok, OperationTypeDefinition.read_eq_ok]
    constructor
    · rintro ⟨_, hdirectives, _, htypes, ⟨⟩⟩
      exact ⟨hdirectives, htypes⟩
    · rintro ⟨hdirectives, htypes⟩
      exact ⟨_, hdirectives, _, htypes, rfl⟩
  | scalar name directives =>
    simp only [Declaration.form, Declaration.ofTagged, bind_eq_ok, pure_eq_ok, Tagged.name_eq_ok,
      Tagged.directives_eq_ok]
    constructor
    · rintro ⟨_, hname, _, hdirectives, ⟨⟩⟩
      exact ⟨hname, hdirectives⟩
    · rintro ⟨hname, hdirectives⟩
      exact ⟨_, hname, _, hdirectives, rfl⟩
  | object name interfaces directives fields | interface name interfaces directives fields =>
    simp only [Declaration.form, Declaration.ofTagged, bind_eq_ok, pure_eq_ok, Tagged.name_eq_ok,
      Tagged.list_eq_ok, NamedType.read_eq_ok, Tagged.directives_eq_ok,
      FieldDefinition.read_eq_ok]
    constructor
    · rintro ⟨_, hname, _, hinterfaces, _, hdirectives, _, hfields, ⟨⟩⟩
      exact ⟨hname, hinterfaces, hdirectives, hfields⟩
    · rintro ⟨hname, hinterfaces, hdirectives, hfields⟩
      exact ⟨_, hname, _, hinterfaces, _, hdirectives, _, hfields, rfl⟩
  | union name directives members =>
    simp only [Declaration.form, Declaration.ofTagged, bind_eq_ok, pure_eq_ok, Tagged.name_eq_ok,
      Tagged.directives_eq_ok, Tagged.list_eq_ok, NamedType.read_eq_ok]
    constructor
    · rintro ⟨_, hname, _, hdirectives, _, hmembers, ⟨⟩⟩
      exact ⟨hname, hdirectives, hmembers⟩
    · rintro ⟨hname, hdirectives, hmembers⟩
      exact ⟨_, hname, _, hdirectives, _, hmembers, rfl⟩
  | enum name directives values =>
    simp only [Declaration.form, Declaration.ofTagged, bind_eq_ok, pure_eq_ok, Tagged.name_eq_ok,
      Tagged.directives_eq_ok, Tagged.list_eq_ok, EnumValueDefinition.read_eq_ok]
    constructor
    · rintro ⟨_, hname, _, hdirectives, _, hvalues, ⟨⟩⟩
      exact ⟨hname, hdirectives, hvalues⟩
    · rintro ⟨hname, hdirectives, hvalues⟩
      exact ⟨_, hname, _, hdirectives, _, hvalues, rfl⟩
  | inputObject name directives fields =>
    simp only [Declaration.form, Declaration.ofTagged, bind_eq_ok, pure_eq_ok, Tagged.name_eq_ok,
      Tagged.directives_eq_ok, Tagged.list_eq_ok, InputValueDefinition.read_eq_ok]
    constructor
    · rintro ⟨_, hname, _, hdirectives, _, hfields, ⟨⟩⟩
      exact ⟨hname, hdirectives, hfields⟩
    · rintro ⟨hname, hdirectives, hfields⟩
      exact ⟨_, hname, _, hdirectives, _, hfields, rfl⟩

end GraphQLText
