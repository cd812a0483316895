import GraphQLText.Proofs.Reading.Routes
import GraphQLText.Tree.Edit

/-!
# Extensions and their base definitions

An extension without a description and the definition of the same form differ in the label of
their kind and in nothing else: put the one label in the place of the other and the same parts
are read in the same order.  Either both are read, and the definition is what the extension
declares, or both are refused alike (`Node.read_relabelled`).  For a declaration misses its
required keys under the kind of its node, the outcomes of the two readers are compared by
`Alike`, which allows for just this difference.
-/

namespace GraphQLText

open Json Reading

/-! ## Putting another label on a node -/

/-- The object with the label of another kind. -/
def Json.relabelled (kind : Kind) : Json → Json
  | .object members => .object (insertMember "kind" (.string kind.label) members)
  | other => other

namespace Json

theorem lookup_insertMember (key : String) (value : Json) (members : List (String × Json)) :
  lookup key (insertMember key value members) = some value
  := by
  induction members with
  | nil => simp [insertMember, lookup]
  | cons member rest ih =>
    obtain ⟨k, v⟩ := member
    rw [insertMember]
    split
    · simp [lookup]
    · split
      · simp [lookup]
      case isFalse hk => rw [lookup, if_neg (Ne.symm hk), ih]

theorem lookup_insertMember_of_ne {key key' : String} (h : key' ≠ key) (value : Json)
    (members : List (String × Json)) :
  lookup key' (insertMember key value members) = lookup key' members
  := by
  induction members with
  | nil => simp [insertMember, lookup, h.symm]
  | cons member rest ih =>
    obtain ⟨k, v⟩ := member
    rw [insertMember]
    split
    · rw [lookup, if_neg h.symm]
    · split
      case isTrue hk => rw [lookup, lookup, if_neg h.symm, if_neg (hk ▸ h.symm)]
      case isFalse => rw [lookup, lookup, ih]

theorem hasKind_relabelled {json : Json} (hobject : json.isObject) (kind : Kind) :
  (json.relabelled kind).HasKind kind
  := by
  cases json with
  | object members => exact lookup_insertMember "kind" _ members
  | _ => contradiction

theorem member?_relabelled {json : Json} {kind : Kind} {key : String} (h : key ≠ "kind") :
  (json.relabelled kind).member? key = json.member? key
  := by
  cases json with
  | object members => exact lookup_insertMember_of_ne h _ members
  | _ => rfl

theorem field?_relabelled {json : Json} {kind : Kind} {key : String} (h : key ≠ "kind") :
  (json.relabelled kind).field? key = json.field? key
  := by rw [field?, field?, member?_relabelled h]

end Json

/-! ## Outcomes that are alike -/

/-- Two outcomes are alike when they are equal, or both report the same missing key of the same
object, under one kind each. -/
inductive Alike (json : Json) (kind kind' : Kind) {α : Type} : Reading α → Reading α → Prop where
  | refl (outcome : Reading α) : Alike json kind kind' outcome outcome
  | missing {key : String} (h : json.field? key = none) :
      Alike json kind kind' (.error (.missing kind key)) (.error (.missing kind' key))

namespace Alike

variable {json : Json} {kind kind' : Kind} {α β : Type}

theorem bind {x y : Reading α} {f g : α → Reading β} (h : Alike json kind kind' x y)
    (hfg : ∀ a, Alike json kind kind' (f a) (g a)) :
  Alike json kind kind' (x >>= f) (y >>= g)
  := by
  cases h with
  | refl =>
    cases x with
    | error e => exact refl _
    | ok a => exact hfg a
  | missing hkey => exact missing hkey

/-- Alike outcomes are one value, or two errors that say the same but for the kind of the object
that misses a key. -/
theorem exists_eq {x y : Reading α} (h : Alike json kind kind' x y) :
  (∃ a, x = .ok a ∧ y = .ok a) ∨
    ∃ e e', x = .error e ∧ y = .error e' ∧
      (e' = e ∨ ∃ key, json.field? key = none ∧ e = .missing kind key ∧ e' = .missing kind' key)
  := by
  cases h with
  | refl =>
    cases x with
    | ok a =>
      left
      exact ⟨a, rfl, rfl⟩
    | error e =>
      right
      exact ⟨e, e, rfl, rfl, .inl rfl⟩
  | @missing key hkey =>
    right
    exact ⟨_, _, rfl, rfl, .inr ⟨key, hkey, rfl, rfl⟩⟩

end Alike

/-! ## Reading under another label -/

namespace Tagged

variable {json json' : Json} {α : Type}

theorem alike_required (node : Tagged json) (node' : Tagged json') {key : String}
    {read : Json → Reading α} (h : json'.field? key = json.field? key) :
  Alike json node.kind node'.kind (node.required key read) (node'.required key read)
  := by
  rw [required_eq_match, required_eq_match, h]
  split
  case h_1 => exact .refl _
  case h_2 hmissing => exact .missing hmissing

theorem alike_list (node : Tagged json) (node' : Tagged json') {key : String}
    {read : Json → Reading α} (h : json'.field? key = json.field? key) :
  Alike json node.kind node'.kind (node.list key read) (node'.list key read)
  := by
  rw [list_eq_match, list_eq_match, h]
  exact .refl _

end Tagged

/-- The readers of a declaration of a form, from the node of a definition and from that of an
extension, read the same keys in the same order. -/
theorem Declaration.alike_ofTagged {json json' : Json} (node : Tagged json) (node' : Tagged json')
    (h : ∀ key, key ≠ "kind" → json'.field? key = json.field? key) (form : Form) :
  Alike json node.kind node'.kind (Declaration.ofTagged form node)
    (Declaration.ofTagged form node')
  := by
  have hname : Alike json node.kind node'.kind (node.name "name") (node'.name "name") :=
    node.alike_required node' (h "name" (by decide))
  have hlist : ∀ {α : Type} (key : String) (read : Json → Reading α), key ≠ "kind" →
      Alike json node.kind node'.kind (node.list key read) (node'.list key read) :=
    fun key _ hkey => node.alike_list node' (h key hkey)
  have hdirectives : Alike json node.kind node'.kind node.directives node'.directives :=
    hlist "directives" Directive.read (by decide)
  cases form with
  | schema =>
    apply hdirectives.bind
    intro ds
    apply (hlist "operationTypes" _ (by decide)).bind
    intro operationTypes
    exact .refl _
  | scalar =>
    apply hname.bind
    intro name
    apply hdirectives.bind
    intro ds
    exact .refl _
  | object | interface =>
    apply hname.bind
    intro name
    apply (hlist "interfaces" _ (by decide)).bind
    intro interfaces
    apply hdirectives.bind
    intro ds
    apply (hlist "fields" _ (by decide)).bind
    intro fields
    exact .refl _
  | union =>
    apply hname.bind
    intro name
    apply hdirectives.bind
    intro ds
    apply (hlist "types" _ (by decide)).bind
    intro members
    exact .refl _
  | enum =>
    apply hname.bind
    intro name
    apply hdirectives.bind
    intro ds
    apply (hlist "values" _ (by decide)).bind
    intro values
    exact .refl _
  | inputObject =>
    apply hname.bind
    intro name
    apply hdirectives.bind
    intro ds
    apply (hlist "fields" _ (by decide)).bind
    intro fields
    exact .refl _

/-! ## Extensions -/

variable {json : Json} {form : Form}

/-- An extension is read from its declaration. -/
theorem Node.read_extension (h : json.IsNode (.extension form)) :
  Node.read json =
    (fun d => .definition (.extend d)) <$>
      Declaration.ofTagged form (⟨.extension form, h⟩ : Tagged json)
  := by
  calc
    Node.read json
      = .definition <$> Definition.readOf (.extension form) json := by
        rw [Node.read, h.of_eq_ok]
        rfl
    _ = .definition <$> .extend <$>
          Declaration.ofTagged form (⟨.extension form, h⟩ : Tagged json) := by
        rw [Definition.readOf, h.expect_bind]
        rfl
    _ = _ := by rw [Functor.map_map]

/-- A definition without a description is read from its declaration. -/
theorem Node.read_definition (h : json.IsNode (.definition form))
    (hdescription : json.field? "description" = none) :
  Node.read json =
    (fun d => .definition (.define none d)) <$>
      Declaration.ofTagged form (⟨.definition form, h⟩ : Tagged json)
  := by
  calc
    Node.read json
      = .definition <$> Definition.readOf (.definition form) json := by
        rw [Node.read, h.of_eq_ok]
        rfl
    _ = .definition <$> .define none <$>
          Declaration.ofTagged form (⟨.definition form, h⟩ : Tagged json) := by
        rw [Definition.readOf, h.expect_bind]
        congr 1
        have hnone : (⟨.definition form, h⟩ : Tagged json).description? = .ok none :=
          Tagged.description?_eq_ok.mpr hdescription
        change ((⟨.definition form, h⟩ : Tagged json).description? >>= _) = _
        rw [hnone]
        rfl
    _ = _ := by rw [Functor.map_map]

/-- The definition of what an extension declares has the text of the extension but for its
first word. -/
theorem Node.text_of_base? {n : Node} {base : Kind} (h : n.kind.base? = some base) :
  ∃ n', n.retag? = some n' ∧ n'.description? = none ∧ n'.kind = base ∧
    n.text = "extend " ++ n'.text
  := by
  cases n with
  | definition d =>
    cases d with
    | extend d =>
      cases h
      use .definition (.define none d), rfl, rfl, rfl
      exact Layout.text_append (Layout.mark "extend ") d.layout
    | _ => contradiction
  | value v => cases v <;> contradiction
  | type t => cases t <;> contradiction
  | selection s => cases s <;> contradiction
  | _ => contradiction

/-- An extension without a description and the definition of the same form, which has the label
of the other kind in the place of its own, are read alike.  Either both are read, and the
definition is the extension retagged and has its text but for the first word, or both are
refused in the same way, with the same piece of the input and the same message, in which only
the label of the node differs where it misses a key.  An extension that is not read but made in
any other way is retagged to a definition of the same text, too. -/
theorem Node.read_relabelled :
  (∀ json kind base, kind.base? = some base → json.HasKind kind →
    json.field? "description" = none →
      (∃ e d, Node.read json = .ok e ∧ Node.read (json.relabelled base) = .ok d ∧
        e.retag? = some d ∧ d.description? = none ∧ d.kind = base ∧
        e.text = "extend " ++ d.text) ∨
      (∃ e e', Node.read json = .error e ∧ Node.read (json.relabelled base) = .error e' ∧
        e'.rejection = e.rejection ∧ e'.diagnostic.context? = e.diagnostic.context? ∧
        (e'.message = e.message ∨
          ∃ key, json.field? key = none ∧
            e.message = kind.label ++ " is missing its required '" ++ key ++ "' field" ∧
            e'.message = base.label ++ " is missing its required '" ++ key ++ "' field"))) ∧
  ∀ n : Node, ∀ base, n.kind.base? = some base →
    ∃ n', n.retag? = some n' ∧ n'.description? = none ∧ n'.kind = base ∧
      n.text = "extend " ++ n'.text
  := by
  refine ⟨?_, fun _ _ => text_of_base?⟩
  intro json kind base hbase hkind hdescription
  cases kind with
  | extension form =>
    cases hbase
    have hkind' := hasKind_relabelled hkind.isObject (.definition form)
    have hdescription' : (json.relabelled (.definition form)).field? "description" = none := by
      rw [field?_relabelled (by decide)]
      exact hdescription
    have hnode : json.IsNode (.extension form) := ⟨hkind.isObject, hkind, .inr hdescription⟩
    have hnode' : (json.relabelled (.definition form)).IsNode (.definition form) :=
      ⟨hkind'.isObject, hkind', .inr hdescription'⟩
    have halike := Declaration.alike_ofTagged ⟨_, hnode⟩ ⟨_, hnode'⟩
      (fun _ => field?_relabelled) form
    rw [read_extension hnode, read_definition hnode' hdescription']
    rcases halike.exists_eq with ⟨d, hd, hd'⟩ | ⟨e, e', he, he', heq⟩
    · left
      obtain rfl := Declaration.form_of_ofTagged hd
      rw [hd, hd']
      use .definition (.extend d), .definition (.define none d), rfl, rfl, rfl, rfl, rfl
      exact Layout.text_append (Layout.mark "extend ") d.layout
    · right
      rw [he, he']
      use e, e', rfl, rfl
      rcases heq with rfl | ⟨key, hkey, rfl, rfl⟩
      · exact ⟨rfl, rfl, .inl rfl⟩
      · exact ⟨rfl, rfl, .inr ⟨key, hkey, rfl, rfl⟩⟩
  | _ => contradiction

/-- The extension of a scalar type, which is read as the definition is, and one without the name
of the type, which is refused as the definition is. -/
theorem Node.read_relabelled_scalar :
  let named : Json := .object [("kind", .string "ScalarTypeExtension"), ("name", .string "Date")]
  let nameless : Json := .object [("kind", .string "ScalarTypeExtension")]
  (∃ e d, Node.read named = .ok e ∧ Node.read (named.relabelled (.definition .scalar)) = .ok d ∧
    e.retag? = some d ∧ d.description? = none ∧ d.kind = .definition .scalar ∧
    e.text = "extend " ++ d.text ∧ e.text = "extend scalar Date") ∧
  (∃ e e', Node.read nameless = .error e ∧
    Node.read (nameless.relabelled (.definition .scalar)) = .error e' ∧
    e'.rejection = e.rejection ∧ e'.diagnostic.context? = e.diagnostic.context? ∧
    e.message = "ScalarTypeExtension is missing its required 'name' field" ∧
    e'.message = "ScalarTypeDefinition is missing its required 'name' field") ∧
  ∃ n', (Node.definition (.extend (.scalar "Date" []))).retag? = some n' ∧ n'.description? = none ∧
    n'.kind = .definition .scalar ∧
    (Node.definition (.extend (.scalar "Date" []))).text = "extend " ++ n'.text
  := by
  intro named nameless
  have hnamed : Node.read named = .ok (.definition (.extend (.scalar "Date" []))) := rfl
  have hnameless : Node.read nameless = .error (.missing (.extension .scalar) "name") := rfl
  have hnameless' : Node.read (nameless.relabelled (.definition .scalar)) =
      .error (.missing (.definition .scalar) "name") := rfl
  refine ⟨?_, ?_, read_relabelled.2 _ _ rfl⟩
  · rcases read_relabelled.1 named (.extension .scalar) (.definition .scalar) rfl rfl rfl with
      ⟨e, d, he, hd, hretag, hdescription, hkind, htext⟩ | ⟨e, -, he, -⟩
    · cases hnamed.symm.trans he
      exact ⟨_, d, hnamed, hd, hretag, hdescription, hkind, htext, rfl⟩
    · cases hnamed.symm.trans he
  · rcases read_relabelled.1 nameless (.extension .scalar) (.definition .scalar) rfl rfl rfl with
      ⟨e, -, he, -⟩ | ⟨e, e', he, he', hrejection, hcontext, -⟩
    · cases hnameless.symm.trans he
    · cases hnameless.symm.trans he
      cases hnameless'.symm.trans he'
      exact ⟨_, _, hnameless, hnameless', hrejection, hcontext, rfl, rfl⟩

end GraphQLText
