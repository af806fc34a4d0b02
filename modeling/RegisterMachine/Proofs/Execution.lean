/-
# What an instruction does

An instruction passes four stages: it must have its three words, its operand
words must stand for values, its operation must have a value at them, and the
destination must take it. `Evaluates` says that the first three succeed and
with what, `Writable` and `Written` what the last one needs and does,
`FirstFailure` which report each stage gives when it is the first to fail. An
instruction succeeds exactly when all four do, and then changes one place; in
all other cases it gives the report of the first failure and changes nothing
(`executeWith_outcome`).

Nothing is assumed of the resolver, and nothing of the state: registers may be
called `&` or `+r` or have no name at all, and the selected stack may be missing.

Key definitions: `Resolves`, `Evaluates`, `Writable`, `Written`, `Refused`,
`Unevaluated`, `FirstFailure`.
Key theorems: `resolveAll_eq_ok_iff`, `evaluate_eq_error_iff`,
`Destination.write_eq_ok_iff`, `Destination.write_eq_error_iff`,
`executeWith_outcome`.
-/
import Mathlib.Data.List.Forall2
import RegisterMachine.Instruction

namespace RegisterMachine

/-! ### Operands -/

/-- The words stand for these values, one by one. -/
abbrev Resolves (resolve : Resolver) (tokens : List String) (values : List Value) : Prop :=
  List.Forall₂ (fun token value => resolve token = .ok value) tokens values

theorem resolveAll_eq_ok_iff {resolve : Resolver} {tokens : List String} {values : List Value} :
    resolveAll resolve tokens = .ok values ↔ Resolves resolve tokens values := by
  induction tokens generalizing values with
  | nil => cases values <;> simp [resolveAll, Resolves]
  | cons token tokens ih =>
    unfold resolveAll
    cases hv : resolve token with
    | error report => cases values <;> simp [Resolves, hv]
    | ok v =>
      cases hvs : resolveAll resolve tokens with
      | error report =>
        have hnone : ∀ values, ¬ Resolves resolve tokens values := fun values hr => by
          rw [ih.2 hr] at hvs
          cases hvs
        cases values <;> simp [Resolves, Except.map, hv, hnone]
      | ok vs =>
        have hrest : ∀ values, vs = values ↔ Resolves resolve tokens values := fun values => by
          rw [← ih, hvs, Except.ok.injEq]
        cases values <;> simp [Resolves, Except.map, hv, hrest]

/-- The first word that stands for no value decides the report. -/
theorem resolveAll_eq_error_iff {resolve : Resolver} {tokens : List String} {report : Report} :
    resolveAll resolve tokens = .error report ↔
      ∃ before token after values, tokens = before ++ token :: after ∧
        Resolves resolve before values ∧ resolve token = .error report := by
  induction tokens with
  | nil => simp [resolveAll]
  | cons first tokens ih =>
    unfold resolveAll
    cases hv : resolve first with
    | error r =>
      constructor
      · rintro ⟨⟩
        exact ⟨[], first, tokens, [], rfl, .nil, hv⟩
      · intro h'
        obtain ⟨before, token, after, values, heq, hres, hfail⟩ := h'
        cases before with
        | nil =>
          obtain ⟨rfl, -⟩ := List.cons.inj heq
          rw [← hv, hfail]
        | cons other before =>
          obtain ⟨rfl, -⟩ := List.cons.inj heq
          cases hres with
          | cons h _ => rw [hv] at h; cases h
    | ok v =>
      have hmap : ((resolveAll resolve tokens).map (v :: ·) = .error report) ↔
          resolveAll resolve tokens = .error report := by
        cases resolveAll resolve tokens <;> simp [Except.map]
      rw [hmap, ih]
      constructor
      · intro h'
        obtain ⟨before, token, after, values, rfl, hres, hfail⟩ := h'
        exact ⟨first :: before, token, after, v :: values, rfl, .cons hv hres, hfail⟩
      · intro h'
        obtain ⟨before, token, after, values, heq, hres, hfail⟩ := h'
        cases before with
        | nil =>
          obtain ⟨rfl, -⟩ := List.cons.inj heq
          rw [hv] at hfail
          cases hfail
        | cons other before =>
          obtain ⟨rfl, rfl⟩ := List.cons.inj heq
          cases hres with
          | cons _ hrest => exact ⟨before, token, after, _, rfl, hrest, hfail⟩

theorem forall_of_resolves {resolve : Resolver} {tokens : List String} {values : List Value}
    {p : Value → Prop} (h : Resolves resolve tokens values)
    (hp : ∀ token ∈ tokens, ∀ v, resolve token = .ok v → p v) : ∀ v ∈ values, p v := by
  induction h with
  | nil => exact fun v hv => absurd hv List.not_mem_nil
  | cons hhead _ ih =>
    intro v hv
    rcases List.mem_cons.1 hv with rfl | hv
    · exact hp _ List.mem_cons_self _ hhead
    · exact ih (fun token htoken => hp token (List.mem_cons_of_mem _ htoken)) v hv

/-! ### Evaluation -/

theorem lookup?_eq_some_iff {name : String} {count : Nat} {d : Descriptor} :
    lookup? name count = some d ↔
      ∃ operation, Operation.ofName? name = some operation ∧ d = operation.descriptor ∧
        d.accepts count = true := by
  unfold lookup?
  cases Operation.ofName? name with
  | none => simp
  | some operation =>
    by_cases h : operation.descriptor.accepts count = true
    · simp only [Option.bind_some, if_pos h, Option.some.injEq]
      constructor
      · rintro rfl
        exact ⟨operation, rfl, rfl, h⟩
      · intro h'
        obtain ⟨_, rfl, rfl, _⟩ := h'
        rfl
    · simp only [Option.bind_some, if_neg h, Option.some.injEq]
      constructor
      · rintro ⟨⟩
      · intro h'
        obtain ⟨_, rfl, rfl, ha⟩ := h'
        exact absurd ha h

theorem Operation.operation_descriptor (op : Operation) : op.descriptor.operation = op := by
  cases op <;> rfl

theorem Descriptor.invoke_of_accepts {d : Descriptor} {operands : List Value}
    (h : d.accepts operands.length = true) :
    d.invoke operands =
      d.domain.check d.operation operands >>= fun _ => d.operation.compute operands := by
  rw [Descriptor.invoke, if_pos h]

theorem Descriptor.invoke_of_not_accepts {d : Descriptor} {operands : List Value}
    (h : ¬ d.accepts operands.length = true) :
    d.invoke operands = .error (.unknownOperation d.operation.name) := if_neg h

/-- Why a name and operands have no value, in the order in which it is found
out: no operation of this name takes so many operands, its domain refuses them,
or it cannot be computed. -/
inductive Unevaluated (name : String) (values : List Value) (line : Nat) : Report → Prop
  | unknown (absent : lookup? name values.length = none) :
      Unevaluated name values line
        ⟨⟨.syntaxError, "Unknown AMATH operation '" ++ upperCase name ++
          "' or incorrect number/types of arguments."⟩, line⟩
  | domain {d : Descriptor} {cause : Cause} (found : lookup? name values.length = some d)
      (refused : d.domain.check d.operation values = .error cause) :
      Unevaluated name values line ((cause.failure.inOperation d.operation.name).atLine line)
  | computation {d : Descriptor} {cause : Cause} (found : lookup? name values.length = some d)
      (admitted : d.domain.check d.operation values = .ok ())
      (failed : d.operation.compute values = .error cause) :
      Unevaluated name values line ((cause.failure.inOperation d.operation.name).atLine line)

theorem evaluate_eq_error_iff {name : String} {values : List Value} {line : Nat}
    {report : Report} :
    evaluate name values line = .error report ↔ Unevaluated name values line report := by
  unfold evaluate
  cases hd : lookup? name values.length with
  | none =>
    constructor
    · rintro ⟨⟩
      exact .unknown hd
    · intro h'
      rcases h' with _ | ⟨found, _⟩ | ⟨found, _, _⟩
      · rfl
      · rw [hd] at found; cases found
      · rw [hd] at found; cases found
  | some d =>
    have hacc : d.accepts values.length = true := by
      obtain ⟨_, _, rfl, h⟩ := lookup?_eq_some_iff.1 hd
      exact h
    dsimp only
    rw [Descriptor.invoke_of_accepts hacc]
    constructor
    · cases hc : d.domain.check d.operation values with
      | error cause =>
        rintro ⟨⟩
        exact .domain hd hc
      | ok _ =>
        cases hv : d.operation.compute values with
        | error cause =>
          intro h
          simp only [bind, Except.bind, Except.mapError, Except.error.injEq] at h
          rw [← h]
          exact .computation hd hc hv
        | ok v =>
          intro h
          simp [bind, Except.bind, Except.mapError] at h
    · intro h'
      rcases h' with absent | ⟨found, refused⟩ | ⟨found, admitted, failed⟩
      · rw [hd] at absent; cases absent
      · obtain rfl := Option.some.inj (hd.symm.trans found)
        rw [refused]
        rfl
      · obtain rfl := Option.some.inj (hd.symm.trans found)
        rw [admitted]
        simp [bind, Except.bind, failed, Except.mapError]

/-- The words of an instruction give its destination this value to take. -/
inductive Evaluates (resolve : Resolver) (line : Nat) : List String → String → Value → Prop
  | intro {word name destination : String} {operands : List String} {values : List Value}
      {value : Value} (resolved : Resolves resolve operands values)
      (evaluated : evaluate name values line = .ok value) :
      Evaluates resolve line (word :: name :: destination :: operands) destination value

/-! ### Destinations -/

/-- The word names a place that results can be written to: the top of a selected
stack that has a name and exists, or a register that exists. -/
def Writable (s : State) (token : String) : Prop :=
  if token = "&" then ∃ name stack, s.selected = some name ∧ name ≠ "" ∧
    s.stacks.get? name = some stack
  else token.toList.head? ≠ some '+' ∧ ∃ value, s.registers.get? token = some value

/-- The states differ in the place that the word names and nowhere else: there
the second one has the value on top of the stack, or in the register. -/
structure Written (token : String) (value : Value) (s s' : State) : Prop where
  registers : ∀ name, s'.registers.get? name =
    if token ≠ "&" ∧ name = token then some value else s.registers.get? name
  «stacks» : ∀ name, s'.stacks.get? name =
    if token = "&" ∧ s.selected = some name then (s.stacks.get? name).map (· ++ [value])
    else s.stacks.get? name
  immutables : s'.immutables = s.immutables
  selected : s'.selected = s.selected
  position : s'.position = s.position

theorem Written.unique {token : String} {value : Value} {s s' s'' : State}
    (h' : Written token value s s') (h'' : Written token value s s'') : s' = s'' :=
  State.ext (Table.ext_get? fun name => (h'.registers name).trans (h''.registers name).symm)
    (Table.ext_get? fun name => (h'.stacks name).trans (h''.stacks name).symm)
    (h'.immutables.trans h''.immutables.symm) (h'.selected.trans h''.selected.symm)
    (h'.position.trans h''.position.symm)

/-- Why the place that the word names takes no value. The mark of an immutable
is looked at before the registers are. -/
inductive Refused (s : State) (line : Nat) : String → Report → Prop
  | unselected (none : s.selected = none ∨ s.selected = some "") :
      Refused s line "&" ⟨⟨.lookupError, "No stack selected for '&' destination."⟩, line⟩
  | missing {name : String} (selected : s.selected = some name) (named : name ≠ "")
      (missing : s.stacks.get? name = none) :
      Refused s line "&"
        ⟨⟨.lookupError, "Selected stack '" ++ name ++ "' does not exist."⟩, line⟩
  | immutable {token : String} (marked : token.toList.head? = some '+') :
      Refused s line token ⟨⟨.typeError, "Cannot assign to immutable '" ++ token ++ "'."⟩, line⟩
  | undeclared {token : String} (word : token ≠ "&") (unmarked : token.toList.head? ≠ some '+')
      (missing : s.registers.get? token = none) :
      Refused s line token
        ⟨⟨.nameError, "Invalid destination '" ++ token ++ "'. Must be a register or '&'."⟩, line⟩

theorem Refused.not_writable {s : State} {line : Nat} {token : String} {report : Report}
    (h : Refused s line token report) : ¬ Writable s token := by
  unfold Writable
  cases h with
  | unselected none =>
    rw [if_pos rfl]
    intro h'
    obtain ⟨name, _, hsel, hne, -⟩ := h'
    rcases none with h | h
    · rw [h] at hsel; cases hsel
    · rw [h] at hsel; exact hne (Option.some.inj hsel).symm
  | missing selected _ missing =>
    rw [if_pos rfl]
    intro h'
    obtain ⟨name, _, hsel, -, hget⟩ := h'
    obtain rfl := Option.some.inj (selected.symm.trans hsel)
    rw [missing] at hget
    cases hget
  | immutable marked =>
    rw [if_neg (by rintro rfl; simp at marked)]
    exact fun h => h.1 marked
  | undeclared word _ missing =>
    rw [if_neg word]
    intro h'
    obtain ⟨-, _, hget⟩ := h'
    rw [missing] at hget
    cases hget

theorem Refused.unique {s : State} {line : Nat} {token : String} {report report' : Report}
    (h : Refused s line token report) (h' : Refused s line token report') : report = report' := by
  cases h with
  | unselected none =>
    cases h' with
    | unselected _ => rfl
    | missing selected named _ =>
      rcases none with h | h
      · rw [h] at selected; cases selected
      · rw [h] at selected; exact absurd (Option.some.inj selected).symm named
    | immutable marked => simp at marked
    | undeclared word => exact absurd rfl word
  | missing selected named _ =>
    cases h' with
    | unselected none =>
      rcases none with h | h
      · rw [h] at selected; cases selected
      · rw [h] at selected; exact absurd (Option.some.inj selected).symm named
    | missing selected' =>
      obtain rfl := Option.some.inj (selected.symm.trans selected')
      rfl
    | immutable marked => simp at marked
    | undeclared word => exact absurd rfl word
  | immutable marked =>
    cases h' with
    | unselected _ => simp at marked
    | missing _ _ _ => simp at marked
    | immutable _ => rfl
    | undeclared _ unmarked => exact absurd marked unmarked
  | undeclared word unmarked _ =>
    cases h' with
    | unselected _ => exact absurd rfl word
    | missing _ _ _ => exact absurd rfl word
    | immutable marked => exact absurd marked unmarked
    | undeclared _ _ _ => rfl

/-- A write is done or refused; one that is refused changes nothing. -/
theorem Destination.write_cases (token : String) (value : Value) (s : State) (line : Nat) :
    (∃ s', (ofToken token).write value s line = (.ok (), s') ∧ Writable s token ∧
      Written token value s s') ∨
    ∃ report, (ofToken token).write value s line = (.error report, s) ∧
      Refused s line token report := by
  by_cases ht : token = "&"
  · subst ht
    rw [ofToken, if_pos rfl]
    cases hsel : s.selected with
    | none => exact .inr ⟨_, by simp [write, hsel], .unselected (.inl hsel)⟩
    | some name =>
      by_cases hne : name = ""
      · have hf : (s.selected.filter fun name => name ≠ "") = none := by
          simp [hsel, Option.filter, hne]
        exact .inr ⟨_, by rw [write, hf], .unselected (.inr (hne ▸ hsel))⟩
      · have hf : (s.selected.filter fun name => name ≠ "") = some name := by
          simp [hsel, Option.filter, hne]
        cases hget : s.stacks.get? name with
        | none => exact .inr ⟨_, by simp only [write, hf, hget], .missing hsel hne hget⟩
        | some stack =>
          refine .inl ⟨{ s with «stacks» := s.stacks.insert name (stack ++ [value]) },
            by simp only [write, hf, hget], ?_, ?_⟩
          · rw [Writable, if_pos rfl]
            exact ⟨name, stack, hsel, hne, hget⟩
          · refine ⟨fun other => by simp, fun other => ?_, rfl, rfl, rfl⟩
            by_cases ho : name = other
            · subst ho
              simp [Table.get?_insert, hsel, hget]
            · simp [Table.get?_insert, hsel, ho]
  · by_cases hp : token.toList.head? = some '+'
    · rw [ofToken, if_neg ht, if_pos hp]
      exact .inr ⟨_, rfl, .immutable hp⟩
    · rw [ofToken, if_neg ht, if_neg hp]
      cases hget : s.registers.get? token with
      | none =>
        exact .inr ⟨_, by simp [write, Table.contains, hget], .undeclared ht hp hget⟩
      | some old =>
        refine .inl ⟨{ s with registers := s.registers.insert token value },
          by simp [write, Table.contains, hget], ?_, ?_⟩
        · rw [Writable, if_neg ht]
          exact ⟨hp, old, hget⟩
        · refine ⟨fun other => ?_, fun other => by simp [ht], rfl, rfl, rfl⟩
          by_cases ho : token = other
          · simp [Table.get?_insert, ho, ho ▸ ht]
          · simp [Table.get?_insert, ho, Ne.symm ho]

theorem Destination.write_eq_ok_iff {token : String} {value : Value} {s s' : State} {line : Nat} :
    (ofToken token).write value s line = (.ok (), s') ↔
      Writable s token ∧ Written token value s s' := by
  rcases write_cases token value s line with ⟨s'', hw, hable, hdone⟩ | ⟨report, hw, hwhy⟩
  · rw [hw]
    constructor
    · rintro ⟨⟩
      exact ⟨hable, hdone⟩
    · intro h'
      obtain ⟨-, h⟩ := h'
      rw [h.unique hdone]
  · rw [hw]
    constructor
    · intro h
      cases (Prod.ext_iff.1 h).1
    · intro h'
      obtain ⟨hable, -⟩ := h'
      exact absurd hable hwhy.not_writable

theorem Destination.write_eq_error_iff {token : String} {value : Value} {s s' : State}
    {line : Nat} {report : Report} :
    (ofToken token).write value s line = (.error report, s') ↔
      Refused s line token report ∧ s' = s := by
  rcases write_cases token value s line with ⟨s'', hw, hable, -⟩ | ⟨report', hw, hwhy⟩
  · rw [hw]
    constructor
    · intro h
      cases (Prod.ext_iff.1 h).1
    · intro h'
      obtain ⟨hwhy, -⟩ := h'
      exact absurd hable hwhy.not_writable
  · rw [hw]
    constructor
    · rintro ⟨⟩
      exact ⟨hwhy, rfl⟩
    · intro h'
      obtain ⟨h, rfl⟩ := h'
      rw [hwhy.unique h]

/-! ### Instructions -/

/-- The report of the first stage at which an instruction fails. -/
inductive FirstFailure (resolve : Resolver) (s : State) : List String → Report → Prop
  | shape {parts : List String} (short : parts.length < 3) :
      FirstFailure resolve s parts ⟨⟨.syntaxError,
        "Invalid AMATH syntax. Expected 'AMATH <operation> <destination> [arg1] [arg2...]'."⟩,
        s.line⟩
  | operand {word name destination token : String} {before after : List String}
      {values : List Value} {report : Report} (resolved : Resolves resolve before values)
      (failed : resolve token = .error report) :
      FirstFailure resolve s (word :: name :: destination :: (before ++ token :: after)) report
  | evaluation {word name destination : String} {operands : List String} {values : List Value}
      {report : Report} (resolved : Resolves resolve operands values)
      (failed : Unevaluated name values s.line report) :
      FirstFailure resolve s (word :: name :: destination :: operands) report
  | destination {parts : List String} {token : String} {value : Value} {report : Report}
      (evaluated : Evaluates resolve s.line parts token value)
      (refused : Refused s s.line token report) : FirstFailure resolve s parts report

theorem executeWith_eq_ok_iff {resolve : Resolver} {parts : List String} {s s' : State} :
    executeWith resolve parts s = (.ok (), s') ↔ ∃ token value,
      Evaluates resolve s.line parts token value ∧ Writable s token ∧
        Written token value s s' := by
  constructor
  · intro h
    unfold executeWith at h
    split at h
    · rename_i word name destination operands
      cases hr : resolveAll resolve operands with
      | error report => simp [hr] at h
      | ok values =>
        simp only [hr] at h
        cases hv : evaluate name values s.line with
        | error report => simp [hv] at h
        | ok value =>
          simp only [hv] at h
          obtain ⟨hable, hdone⟩ := Destination.write_eq_ok_iff.1 h
          exact ⟨destination, value, .intro (resolveAll_eq_ok_iff.1 hr) hv, hable, hdone⟩
    · cases (Prod.ext_iff.1 h).1
  · intro h'
    obtain ⟨token, value, ⟨resolved, evaluated⟩, hable, hdone⟩ := h'
    simp only [executeWith, resolveAll_eq_ok_iff.2 resolved, evaluated]
    exact Destination.write_eq_ok_iff.2 ⟨hable, hdone⟩

theorem executeWith_eq_error_iff {resolve : Resolver} {parts : List String} {s s' : State}
    {report : Report} :
    executeWith resolve parts s = (.error report, s') ↔
      FirstFailure resolve s parts report ∧ s' = s := by
  constructor
  · intro h
    refine ⟨?_, executeWith_error h⟩
    unfold executeWith at h
    split at h
    · rename_i word name destination operands
      cases hr : resolveAll resolve operands with
      | error r =>
        simp only [hr, Prod.mk.injEq, Except.error.injEq] at h
        obtain ⟨before, token, after, values, rfl, hres, hfail⟩ := resolveAll_eq_error_iff.1 hr
        exact h.1 ▸ .operand hres hfail
      | ok values =>
        have hres := resolveAll_eq_ok_iff.1 hr
        simp only [hr] at h
        cases hv : evaluate name values s.line with
        | error r =>
          simp only [hv, Prod.mk.injEq, Except.error.injEq] at h
          exact h.1 ▸ .evaluation hres (evaluate_eq_error_iff.1 hv)
        | ok value =>
          simp only [hv] at h
          exact .destination (.intro hres hv) (Destination.write_eq_error_iff.1 h).1
    · rename_i hshape
      cases (Prod.ext_iff.1 h).1
      refine .shape (Nat.not_le.1 fun hlen => ?_)
      match parts, hlen with
      | word :: name :: destination :: operands, _ => exact hshape word name destination operands rfl
  · intro h'
    obtain ⟨hfail, rfl⟩ := h'
    cases hfail with
    | shape short =>
      match parts, short with
      | [], _ => rfl
      | [_], _ => rfl
      | [_, _], _ => rfl
    | operand resolved failed =>
      rw [executeWith, resolveAll_eq_error_iff.2 ⟨_, _, _, _, rfl, resolved, failed⟩]
    | evaluation resolved failed =>
      simp only [executeWith, resolveAll_eq_ok_iff.2 resolved, evaluate_eq_error_iff.2 failed]
    | destination evaluated refused =>
      obtain ⟨resolved, evaluated⟩ := evaluated
      simp only [executeWith, resolveAll_eq_ok_iff.2 resolved, evaluated]
      exact Destination.write_eq_error_iff.2 ⟨refused, rfl⟩

/-- **An instruction changes one place or nothing.** It succeeds exactly when it
has a value for its destination and the destination can be written; then the
value is in that place and all else is as it was. In every other case it gives
the report of the first stage that fails and leaves the state. The state
itself is one of the resolvers. -/
theorem executeWith_outcome (resolve : Resolver) (parts : List String) (s : State) :
    ((executeWith resolve parts s).1 = .ok () ↔
      ∃ token value, Evaluates resolve s.line parts token value ∧ Writable s token) ∧
    (∀ s', executeWith resolve parts s = (.ok (), s') ↔ ∃ token value,
      Evaluates resolve s.line parts token value ∧ Writable s token ∧
        Written token value s s') ∧
    (∀ report s', executeWith resolve parts s = (.error report, s') ↔
      FirstFailure resolve s parts report ∧ s' = s) ∧
    execute parts s = executeWith s.resolve parts s := by
  refine ⟨?_, fun s' => executeWith_eq_ok_iff, fun report s' => executeWith_eq_error_iff, rfl⟩
  constructor
  · intro h
    obtain ⟨token, value, hev, hable, -⟩ := executeWith_eq_ok_iff.1 (Prod.ext h rfl)
    exact ⟨token, value, hev, hable⟩
  · intro h'
    obtain ⟨token, value, hev, hable⟩ := h'
    rcases Destination.write_cases token value s s.line with ⟨s', -, -, hdone⟩ | ⟨_, -, hwhy⟩
    · rw [executeWith_eq_ok_iff.2 ⟨token, value, hev, hable, hdone⟩]
    · exact absurd hable hwhy.not_writable

end RegisterMachine
