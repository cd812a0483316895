import GraphQLText.Proofs.Grammar.Token

/-!
# Rules

A rule of the syntactic grammar reads a part of a document from the front of its tokens.
Rules are put together by `bind`, by a look at the next token (`ifNext`) and by `nested`,
which lets a rule go on inside itself; lists of parts are an instance of that.  `Reads` says
what a rule makes of given tokens, and each way to put rules together has a law for it.
-/

namespace GraphQLText.Grammar

/-- A rule, which reads a part at the front of the tokens and leaves the rest. -/
abbrev Rule (α : Type) := StateT (List Token) Option α

namespace Rule

variable {α : Type}

/-! ## Single tokens -/

/-- The next token. -/
def next : Rule Token
  | [] => none
  | t :: ts => some (t, ts)

/-- A given token. -/
def exactly (t : Token) : Rule Unit := do
  let u ← next
  if u = t then pure () else failure

/-- A given punctuator. -/
def punctuator (p : Punctuator) : Rule Unit := exactly (.punctuator p)

/-- A given name. -/
def keyword (text : String) : Rule Unit := exactly (.name text)

/-- Any name. -/
def name : Rule String := do
  match ← next with
  | .name text => pure text
  | _ => failure

/-- A string. -/
def string : Rule StringValue := do
  match ← next with
  | .string s => pure s
  | _ => failure

/-- What was read, if it passes a check. -/
def checked (p : α → Prop) [DecidablePred p] (r : Rule α) : Rule α := do
  let a ← r
  if p a then pure a else failure

/-! ## Choices and repetition -/

/-- One of two rules, by a look at the next token. -/
def ifNext (p : Token → Prop) [DecidablePred p] (r s : Rule α) : Rule α := fun ts =>
  if ts.head?.any p then r ts else s ts

/-- A rule whose parts are nested up to a depth. -/
def nestedWithin (step : Rule α → Rule α) : Nat → Rule α
  | 0 => failure
  | n + 1 => step (nestedWithin step n)

/-- A rule that goes on inside itself.  Each part is longer than those nested in it, so as
many levels as there are tokens are enough. -/
def nested (step : Rule α → Rule α) : Rule α := fun ts =>
  nestedWithin step (ts.length + 1) ts

/-- Parts for as long as the next token passes a test. -/
def whileNext (p : Token → Prop) [DecidablePred p] (item : Rule α) : Rule (List α) :=
  nested fun more => ifNext p (do return (← item) :: (← more)) (pure [])

/-- A part that is present when the next token passes a test. -/
def optional (p : Token → Prop) [DecidablePred p] (r : Rule α) : Rule (Option α) :=
  ifNext p (some <$> r) (pure none)

/-- A part after a given token, or neither. -/
def led (t : Token) (r : Rule α) : Rule (Option α) :=
  optional (· = t) (do
    exactly t
    r)

/-- One or more parts between two punctuators. -/
def block (before after : Punctuator) (item : Rule α) : Rule (List α) := do
  punctuator before
  let first ← item
  let others ← whileNext (· ≠ .punctuator after) item
  punctuator after
  return first :: others

/-- A block that may be absent. -/
def group (before after : Punctuator) (item : Rule α) : Rule (List α) :=
  ifNext (· = .punctuator before) (block before after item) (pure [])

/-- One or more parts with a punctuator between each two and possibly before the first. -/
def separated (separator : Punctuator) (item : Rule α) : Rule (List α) := do
  let _ ← optional (· = .punctuator separator) (punctuator separator)
  let first ← item
  let others ← whileNext (· = .punctuator separator) (do punctuator separator; item)
  return first :: others

end Rule

/-! ## How tokens begin -/

/-- The tokens begin with one that passes a test. -/
def Begins (p : Token → Prop) (ts : List Token) : Prop := ∃ t ∈ ts.head?, p t

/-- The tokens do not begin with any of the given punctuators. -/
def Avoids (ps : List Punctuator) (ts : List Token) : Prop :=
  ∀ p ∈ ps, ts.head? ≠ some (.punctuator p)

/-- Whether a token is a name or a string. -/
def Token.isWord : Token → Prop
  | .name _ | .string _ => True
  | _ => False

@[simp]
theorem begins_cons {p : Token → Prop} {t : Token} {ts : List Token} :
  Begins p (t :: ts) ↔ p t
  := by simp [Begins]

@[simp]
theorem not_begins_nil {p : Token → Prop} :
  ¬Begins p []
  := by simp [Begins]

@[simp]
theorem avoids_nil {ps : List Punctuator} :
  Avoids ps []
  := by simp [Avoids]

@[simp]
theorem avoids_cons {ps : List Punctuator} {t : Token} {ts : List Token} :
  Avoids ps (t :: ts) ↔ ∀ p ∈ ps, t ≠ .punctuator p
  := by simp [Avoids]

theorem avoids_punctuator {ps : List Punctuator} {q : Punctuator} {ts : List Token} (h : q ∉ ps) :
  Avoids ps (.punctuator q :: ts)
  := by
  rw [avoids_cons]
  rintro p hp heq
  cases heq
  exact h hp

theorem any_head_iff {p : Token → Prop} [DecidablePred p] {ts : List Token} :
  ts.head?.any p ↔ Begins p ts
  := by cases ts <;> simp

theorem Begins.append {p : Token → Prop} {ts : List Token} (h : Begins p ts) (us : List Token) :
  Begins p (ts ++ us)
  := by
  cases ts with
  | nil => exact absurd h not_begins_nil
  | cons t ts => exact begins_cons.mpr (begins_cons.mp h)

theorem Begins.mono {p q : Token → Prop} {ts : List Token} (h : Begins p ts)
    (hpq : ∀ t, p t → q t) :
  Begins q ts
  := by
  obtain ⟨t, ht, hp⟩ := h
  exact ⟨t, ht, hpq t hp⟩

theorem not_begins_append {p : Token → Prop} {ts us : List Token} (h : ¬Begins p ts)
    (h' : ¬Begins p us) :
  ¬Begins p (ts ++ us)
  := by
  cases ts with
  | nil => exact h'
  | cons t ts => exact fun hbegin => h (begins_cons.mpr (begins_cons.mp hbegin))

theorem Begins.ne_nil {p : Token → Prop} {ts : List Token} (h : Begins p ts) :
  ts ≠ []
  := by
  rintro rfl
  exact not_begins_nil h

theorem Avoids.append {ps : List Punctuator} {ts us : List Token} (h : Avoids ps ts)
    (h' : Avoids ps us) :
  Avoids ps (ts ++ us)
  := by
  cases ts with
  | nil => exact h'
  | cons t ts => exact avoids_cons.mpr (avoids_cons.mp h)

theorem Avoids.mono {ps qs : List Punctuator} {ts : List Token} (h : Avoids qs ts)
    (hsub : ∀ p ∈ ps, p ∈ qs) :
  Avoids ps ts
  := fun p hp => h p (hsub p hp)

/-- Tokens that begin with a name or a string avoid all punctuators. -/
theorem Begins.avoids {ps : List Punctuator} {ts : List Token} (h : Begins Token.isWord ts) :
  Avoids ps ts
  := by
  obtain ⟨t, ht, hword⟩ := h
  intro p hp hhead
  rw [Option.mem_def, hhead] at ht
  cases ht
  exact hword

/-- Tokens that avoid a punctuator do not begin with it. -/
theorem Avoids.not_begins {ps : List Punctuator} {ts : List Token} (h : Avoids ps ts)
    {p : Punctuator} (hp : p ∈ ps) :
  ¬Begins (· = .punctuator p) ts
  := by
  rintro ⟨t, ht, rfl⟩
  exact h p hp ht

theorem avoids_singleton {p : Punctuator} {ts : List Token} :
  Avoids [p] ts ↔ ¬Begins (· = .punctuator p) ts
  := by simp [Avoids, Begins]

/-! ## What a rule reads -/

variable {α β ι : Type}

/-- A rule reads the tokens as the given part, if they are followed by the rest. -/
def Reads (r : Rule α) (ts : List Token) (a : α) (rest : List Token) : Prop :=
  r (ts ++ rest) = some (a, rest)

section Laws

variable {r s : Rule α} {ts us rest : List Token} {a : α} {b : β}

theorem reads_pure :
  Reads (pure a) [] a rest
  := rfl

theorem Reads.bind {f : α → Rule β} (h : Reads r ts a (us ++ rest)) (h' : Reads (f a) us b rest) :
  Reads (r >>= f) (ts ++ us) b rest
  := by
  have hr : r (ts ++ (us ++ rest)) = some (a, us ++ rest) := h
  simp only [Reads, List.append_assoc, Bind.bind, StateT.bind, hr]
  exact h'

/-- The first part is a single token. -/
theorem Reads.bind_cons {t : Token} {f : α → Rule β} (h : Reads r [t] a (us ++ rest))
    (h' : Reads (f a) us b rest) :
  Reads (r >>= f) (t :: us) b rest
  := h.bind h'

/-- The first part is absent. -/
theorem Reads.bind_nil {f : α → Rule β} (h : Reads r [] a (ts ++ rest))
    (h' : Reads (f a) ts b rest) :
  Reads (r >>= f) ts b rest
  := h.bind h'

/-- After the last part nothing is left to be read. -/
theorem Reads.bind_pure {f : α → β} (h : Reads r ts a rest) :
  Reads (r >>= fun a => pure (f a)) ts (f a) rest
  := by
  have h' := @Reads.bind _ _ r ts [] rest a _ (fun a => pure (f a)) h reads_pure
  rwa [List.append_nil] at h'

theorem Reads.map {f : α → β} (h : Reads r ts a rest) :
  Reads (f <$> r) ts (f a) rest
  := by
  have hr : r (ts ++ rest) = some (a, rest) := h
  simp [Reads, Functor.map, StateT.map, hr]

theorem reads_next (t : Token) :
  Reads Rule.next [t] t rest
  := rfl

theorem reads_exactly (t : Token) :
  Reads (Rule.exactly t) [t] () rest
  := by
  apply @Reads.bind _ _ _ [t] []
  · exact reads_next t
  · rw [if_pos rfl]
    exact reads_pure

theorem reads_punctuator (p : Punctuator) :
  Reads (Rule.punctuator p) [.punctuator p] () rest
  := reads_exactly _

theorem reads_keyword (text : String) :
  Reads (Rule.keyword text) [.name text] () rest
  := reads_exactly _

theorem reads_name (text : String) :
  Reads Rule.name [.name text] text rest
  := rfl

theorem reads_string (s : StringValue) :
  Reads Rule.string [.string s] s rest
  := rfl

theorem Reads.checked {p : α → Prop} [DecidablePred p] (h : Reads r ts a rest) (hp : p a) :
  Reads (r.checked p) ts a rest
  := by
  have h' := @Reads.bind _ _ r ts [] rest a a (fun a => if p a then pure a else failure) h
    (by rw [if_pos hp]; exact reads_pure)
  rwa [List.append_nil] at h'

theorem reads_ifNext {p : Token → Prop} [DecidablePred p] (h : Begins p (ts ++ rest))
    (hr : Reads r ts a rest) :
  Reads (Rule.ifNext p r s) ts a rest
  := by
  rw [Reads, Rule.ifNext, if_pos (any_head_iff.mpr h)]
  exact hr

theorem reads_ifNext_not {p : Token → Prop} [DecidablePred p] (h : ¬Begins p (ts ++ rest))
    (hs : Reads s ts a rest) :
  Reads (Rule.ifNext p r s) ts a rest
  := by
  rw [Reads, Rule.ifNext, if_neg (fun hany => h (any_head_iff.mp hany))]
  exact hs

theorem reads_optional {p : Token → Prop} [DecidablePred p] (h : Begins p (ts ++ rest))
    (hr : Reads r ts a rest) :
  Reads (Rule.optional p r) ts (some a) rest
  := reads_ifNext h hr.map

theorem reads_optional_none {p : Token → Prop} [DecidablePred p] (h : ¬Begins p rest) :
  Reads (Rule.optional p r) [] none rest
  := reads_ifNext_not h reads_pure

theorem reads_led {t : Token} (hr : Reads r ts a rest) :
  Reads (Rule.led t r) (t :: ts) (some a) rest
  := by
  apply reads_optional
  · exact begins_cons.mpr rfl
  · exact (reads_exactly t).bind_cons hr

theorem reads_led_none {t : Token} (h : ¬Begins (· = t) rest) :
  Reads (Rule.led t r) [] none rest
  := reads_optional_none h

/-- A rule that goes on inside itself reads every part, if one step of it does so with a rule
that reads all shorter parts. -/
theorem reads_nested {step : Rule α → Rule α} {tok : ι → List Token} {val : ι → α}
    {follow : ι → List Token → Prop} {good : ι → Prop}
    (hstep : ∀ (r : Rule α) (x : ι), good x →
      (∀ y, good y → (tok y).length < (tok x).length →
        ∀ us, follow y us → Reads r (tok y) (val y) us) →
      ∀ us, follow x us → Reads (step r) (tok x) (val x) us)
    {x : ι} (hx : good x) (hrest : follow x rest) :
  Reads (Rule.nested step) (tok x) (val x) rest
  := by
  have hwithin : ∀ n, ∀ y, good y → (tok y).length < n → ∀ us, follow y us →
      Reads (Rule.nestedWithin step n) (tok y) (val y) us := by
    intro n
    induction n with
    | zero => intro y _ hlt; omega
    | succ n ih =>
      intro y hy hlt
      apply hstep (Rule.nestedWithin step n) y hy
      intro z hz hzy
      exact ih z hz (by omega)
  apply hwithin _ x hx _ rest hrest
  rw [List.length_append]
  omega

end Laws

/-! ## Lists of parts -/

/-- A rule reads each of several parts, when it is followed by tokens of the kind that the
parts themselves are. -/
structure ReadsEach (item : Rule α) (follow : List Token → Prop) (tok : ι → List Token)
    (val : ι → α) (xs : List ι) : Prop where
  reads : ∀ x ∈ xs, ∀ us, follow us → Reads item (tok x) (val x) us
  follows : ∀ x ∈ xs, ∀ us, follow (tok x ++ us)

section Lists

variable {item : Rule α} {follow : List Token → Prop} {tok : ι → List Token} {val : ι → α}
  {xs : List ι} {rest : List Token}

theorem ReadsEach.tail {x : ι} (h : ReadsEach item follow tok val (x :: xs)) :
  ReadsEach item follow tok val xs
  := by
  constructor
  · intro y hy
    exact h.reads y (List.mem_cons_of_mem x hy)
  · intro y hy
    exact h.follows y (List.mem_cons_of_mem x hy)

/-- What follows the first of several parts is another of them or what follows them all. -/
theorem ReadsEach.follow_flatMap (h : ReadsEach item follow tok val xs) (hrest : follow rest) :
  follow (xs.flatMap tok ++ rest)
  := by
  cases xs with
  | nil => exact hrest
  | cons x xs =>
    rw [List.flatMap_cons, List.append_assoc]
    exact h.follows x List.mem_cons_self _

theorem reads_whileNext {p : Token → Prop} [DecidablePred p]
    (h : ReadsEach item follow tok val xs) (hbegin : ∀ x ∈ xs, Begins p (tok x))
    (hrest : follow rest) (hstop : ¬Begins p rest) :
  Reads (Rule.whileNext p item) (xs.flatMap tok) (xs.map val) rest
  := by
  apply @reads_nested _ (List ι) _ _ (fun xs => xs.flatMap tok) (fun xs => xs.map val)
    (fun _ us => follow us ∧ ¬Begins p us)
    (fun xs => ReadsEach item follow tok val xs ∧ ∀ x ∈ xs, Begins p (tok x))
  · rintro more xs ⟨hxs, hbegin⟩ hmore us ⟨hus, hstop⟩
    cases xs with
    | nil => exact reads_ifNext_not hstop reads_pure
    | cons x xs =>
      have hx := hbegin x List.mem_cons_self
      apply reads_ifNext
      · rw [List.flatMap_cons, List.append_assoc]
        exact hx.append _
      · rw [List.flatMap_cons]
        apply Reads.bind
        · exact hxs.reads x List.mem_cons_self _ (hxs.tail.follow_flatMap hus)
        · apply Reads.bind_pure
          apply hmore xs
          · exact ⟨hxs.tail, fun y hy => hbegin y (List.mem_cons_of_mem x hy)⟩
          · have hpos := List.length_pos_iff.mpr hx.ne_nil
            rw [List.flatMap_cons, List.length_append]
            omega
          · exact ⟨hus, hstop⟩
  · exact ⟨h, hbegin⟩
  · exact ⟨hrest, hstop⟩

theorem reads_block {before after : Punctuator} (h : ReadsEach item follow tok val xs)
    (hbegin : ∀ x ∈ xs, Begins (· ≠ .punctuator after) (tok x)) (hne : xs ≠ [])
    (hafter : ∀ us, follow (.punctuator after :: us)) :
  Reads (Rule.block before after item)
    (.punctuator before :: (xs.flatMap tok ++ [.punctuator after])) (xs.map val) rest
  := by
  cases xs with
  | nil => contradiction
  | cons x xs =>
    rw [List.flatMap_cons, List.append_assoc, ← List.singleton_append]
    apply (reads_punctuator before).bind
    apply Reads.bind
    · apply h.reads x List.mem_cons_self
      rw [List.append_assoc]
      exact h.tail.follow_flatMap (hafter _)
    · apply Reads.bind
      · apply reads_whileNext h.tail
        · intro y hy
          exact hbegin y (List.mem_cons_of_mem x hy)
        · exact hafter _
        · simp
      · exact (reads_punctuator after).bind_pure

/-- The items between two punctuators, which are left out when there are none. -/
def grouped (before after : Punctuator) (tss : List (List Token)) : List Token :=
  if tss = [] then [] else .punctuator before :: (tss.flatten ++ [.punctuator after])

theorem reads_group {before after : Punctuator} (h : ReadsEach item follow tok val xs)
    (hbegin : ∀ x ∈ xs, Begins (· ≠ .punctuator after) (tok x))
    (hafter : ∀ us, follow (.punctuator after :: us)) (hrest : Avoids [before] rest) :
  Reads (Rule.group before after item) (grouped before after (xs.map tok)) (xs.map val) rest
  := by
  by_cases hne : xs = []
  · subst hne
    apply reads_ifNext_not
    · exact hrest.not_begins List.mem_cons_self
    · exact reads_pure
  · rw [grouped, if_neg (by simpa using hne), ← List.flatMap_def]
    apply reads_ifNext
    · exact begins_cons.mpr rfl
    · exact reads_block h hbegin hne hafter

/-- The items with a punctuator between each two. -/
def spaced (separator : Punctuator) : List (List Token) → List Token
  | [] => []
  | ts :: tss => ts ++ tss.flatMap (.punctuator separator :: ·)

theorem reads_separated {separator : Punctuator}
    (h : ∀ x ∈ xs, ∀ us, Reads item (tok x) (val x) us)
    (hbegin : ∀ x ∈ xs, Begins Token.isWord (tok x)) (hne : xs ≠ [])
    (hrest : Avoids [separator] rest) :
  Reads (Rule.separated separator item) (spaced separator (xs.map tok)) (xs.map val) rest
  := by
  cases xs with
  | nil => contradiction
  | cons x xs =>
    rw [List.map_cons, spaced, List.flatMap_map, ← List.nil_append (_ ++ _)]
    apply @Reads.bind _ _ _ _ _ _ none
    · apply reads_ifNext_not
      · apply @Avoids.not_begins [separator]
        · apply Begins.avoids
          rw [List.append_assoc]
          exact (hbegin x List.mem_cons_self).append _
        · exact List.mem_cons_self
      · exact reads_pure
    · apply (h x List.mem_cons_self _).bind
      apply Reads.bind_pure
      apply @reads_whileNext _ _ _ (fun _ => True)
      · constructor
        · intro y hy us _
          apply (reads_punctuator separator).bind
          exact h y (List.mem_cons_of_mem x hy) us
        · simp
      · simp
      · trivial
      · exact hrest.not_begins List.mem_cons_self

end Lists

end GraphQLText.Grammar
