import GraphQLText.Assembly
import GraphQLText.Proofs.Tree.Edit

/-!
# What assemblies keep

A step of an assembly works on the top of the stack.  What is below the nodes that it uses makes no
difference to it and stays as it is (`Step.apply?_append`), and the steps that edit a node keep the
kind of the node (`Step.IsEdit.edited`).  Both carry over to runs of several steps: a node that has
been assembled by itself can be assembled above any other one, in which it then goes last.
-/

namespace GraphQLText

namespace Stack

variable {stack stack' : Stack}

theorem mapTop?_eq_some {f : Node → Option Node} :
  mapTop? f stack = some stack' ↔
    ∃ n n' below, stack = n :: below ∧ f n = some n' ∧ n' :: below = stack'
  := by
  cases stack with
  | nil => simp [mapTop?]
  | cons n below =>
    constructor
    · intro h
      obtain ⟨n', hn, rfl⟩ := Option.map_eq_some_iff.mp h
      exact ⟨n, n', below, rfl, hn, rfl⟩
    · rintro ⟨n, n', below, ⟨⟩, hn, rfl⟩
      exact Option.map_eq_some_iff.mpr ⟨n', hn, rfl⟩

theorem mapTop?_append {f : Node → Option Node} (h : mapTop? f stack = some stack')
    (below : Stack) :
  mapTop? f (stack ++ below) = some (stack' ++ below)
  := by
  obtain ⟨n, n', rest, rfl, hn, rfl⟩ := mapTop?_eq_some.mp h
  apply mapTop?_eq_some.mpr
  exact ⟨n, n', rest ++ below, rfl, hn, rfl⟩

/-- The node on top of one stack is a node of another with a part of it changed, but not its kind.
The nodes below are as they were, and those above are gone. -/
def Edited (stack stack' : Stack) : Prop :=
  ∃ above n n' below, stack = above ++ n :: below ∧ stack' = n' :: below ∧ n'.kind = n.kind

theorem edited_self (h : stack ≠ []) :
  stack.Edited stack
  := by
  obtain ⟨n, below, rfl⟩ := List.exists_cons_of_ne_nil h
  use [], n, n, below
  simp

theorem Edited.ne_nil (h : stack.Edited stack') :
  stack' ≠ []
  := by
  obtain ⟨above, n, n', below, rfl, rfl, hkind⟩ := h
  apply List.cons_ne_nil

theorem Edited.trans {stack'' : Stack} (h : stack.Edited stack') (h' : stack'.Edited stack'') :
  stack.Edited stack''
  := by
  obtain ⟨above, n, n', below, rfl, hstack, hkind⟩ := h
  obtain ⟨above', m, m', below', hstack', rfl, hkind'⟩ := h'
  rw [hstack] at hstack'
  rcases List.cons_eq_append_iff.mp hstack' with ⟨rfl, hcons⟩ | ⟨others, rfl, rfl⟩
  · -- the node that the first edit has left on top is edited once more
    cases hcons
    exact ⟨above, n, m', below, rfl, rfl, hkind'.trans hkind⟩
  · -- a node further down is edited
    refine ⟨above ++ n :: others, m, m', below', ?_, rfl, hkind'⟩
    rw [List.append_assoc, List.cons_append]

end Stack

open Stack

/-! ## One step -/

namespace Step

variable {step : Step} {stack stack' : Stack}

/-- The steps that change a part of a node. -/
inductive IsEdit : Step → Prop
  | append : IsEdit .append
  | rename (alias? : Option String) : IsEdit (.rename alias?)
  | describe (description? : Option StringValue) : IsEdit (.describe description?)

/-- An edit keeps the kind of the node that it changes and all nodes below. -/
theorem IsEdit.edited (hstep : step.IsEdit) (h : step.apply? stack = some stack') :
  stack.Edited stack'
  := by
  cases hstep with
  | append =>
    match stack with
    | child :: parent :: below =>
      obtain ⟨n, hn, rfl⟩ := Option.map_eq_some_iff.mp h
      exact ⟨[child], parent, n, below, rfl, rfl, Node.kind_append? hn⟩
  | rename alias? =>
    obtain ⟨n, n', below, rfl, hn, rfl⟩ := mapTop?_eq_some.mp h
    exact ⟨[], n, n', below, rfl, rfl, Node.kind_rename? hn⟩
  | describe description? =>
    obtain ⟨n, n', below, rfl, hn, rfl⟩ := mapTop?_eq_some.mp h
    exact ⟨[], n, n', below, rfl, rfl, Node.kind_describe? hn⟩

/-- A step does the same above any other nodes, and leaves them as they are. -/
theorem apply?_append (h : step.apply? stack = some stack') (below : Stack) :
  step.apply? (stack ++ below) = some (stack' ++ below)
  := by
  -- the other stacks are those on which the step is undefined
  cases step with
  | push node =>
    cases h
    rfl
  | argument name | objectField name =>
    match stack with
    | .value v :: rest =>
      cases h
      rfl
  | variableDefinition name hasDefault =>
    match hasDefault, stack with
    | true, .value v :: .type t :: rest | false, .type t :: rest =>
      cases h
      rfl
  | append =>
    match stack with
    | child :: parent :: rest =>
      obtain ⟨n, hn, rfl⟩ := Option.map_eq_some_iff.mp h
      exact Option.map_eq_some_iff.mpr ⟨n, hn, rfl⟩
  | list | nonNull | innermost | rename | describe | retag => apply mapTop?_append h
  | dup | pop =>
    match stack with
    | top :: rest =>
      cases h
      rfl
  | swap =>
    match stack with
    | a :: b :: rest =>
      cases h
      rfl

end Step

/-! ## Several steps -/

namespace Stack

variable {steps : List Step} {stack stack' : Stack}

/-- The stack after several steps. -/
def run? (steps : List Step) (stack : Stack) : Option Stack :=
  steps.foldlM (fun stack step => step.apply? stack) stack

theorem run?_cons_eq_some {step : Step} :
  run? (step :: steps) stack = some stack' ↔
    ∃ next, step.apply? stack = some next ∧ run? steps next = some stack'
  := Option.bind_eq_some_iff

/-- Several steps do the same above any other nodes, and leave them as they are. -/
theorem run?_append (h : run? steps stack = some stack') (below : Stack) :
  run? steps (stack ++ below) = some (stack' ++ below)
  := by
  induction steps generalizing stack with
  | nil =>
    cases h
    rfl
  | cons step steps ih =>
    obtain ⟨next, hstep, hsteps⟩ := run?_cons_eq_some.mp h
    apply run?_cons_eq_some.mpr
    use next ++ below, step.apply?_append hstep below
    apply ih hsteps

/-- Several edits leave a node of the stack on top, with its kind, and those below it as they
were. -/
theorem edited_run? (hsteps : ∀ step ∈ steps, step.IsEdit) (hstack : stack ≠ [])
    (h : run? steps stack = some stack') :
  stack.Edited stack'
  := by
  induction steps generalizing stack with
  | nil =>
    cases h
    apply edited_self hstack
  | cons step steps ih =>
    obtain ⟨next, hstep, hrest⟩ := run?_cons_eq_some.mp h
    have hnext := (hsteps step List.mem_cons_self).edited hstep
    apply hnext.trans
    apply ih _ hnext.ne_nil hrest
    intro other hother
    exact hsteps other (List.mem_cons_of_mem step hother)

/-- A node that several steps assemble by itself they assemble above any other one, to which it can
then be appended. -/
theorem run?_concat_append {child parent n : Node} (h : run? steps [] = some [child])
    (hn : parent.append? child = some n) (below : Stack) :
  run? (steps ++ [.append]) (parent :: below) = some (n :: below) ∧ n.kind = parent.kind
  := by
  refine ⟨?_, Node.kind_append? hn⟩
  have hchild := run?_append h (parent :: below)
  rw [run?, List.foldlM_append]
  apply Option.bind_eq_some_iff.mpr
  use child :: parent :: below, hchild
  apply run?_cons_eq_some.mpr
  exact ⟨n :: below, Option.map_eq_some_iff.mpr ⟨n, hn, rfl⟩, rfl⟩

end Stack

end GraphQLText
