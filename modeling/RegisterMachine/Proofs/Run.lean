/-
# Runs, and whether they can be saved

A host takes turns: it sets the position and hands over a line. Every step of a
run that starts with finite doubles and reads finite literals keeps the doubles
finite, with one exception: an arithmetic instruction whose operation overflows
on its operands, and whose destination can be written, stores the infinity that
is answered. So every state of a run can be restored from its text exactly if
no turn stores an overflow (`evaluate_finite_and_run_saves_iff`).

The lines may call other instructions than the arithmetic one, if these keep
what can be restored. A session has no others if none is given to it
(`Session.sound_after`), and the three instructions of `Host` are such.

Key definitions: `State.Restorable`, `FiniteLiterals`, `StoresOverflow`,
`LibrarySet.Sound`, `LibrarySet.run`.
Key theorems: `isFinite_execute_iff`, `LibrarySet.restorable_perform_iff`,
`LibrarySet.restorable_run_iff`, `Session.sound_after`,
`evaluate_finite_and_run_saves_iff`.
-/
import RegisterMachine.Arithmetic
import RegisterMachine.Host
import RegisterMachine.Proofs.Holding
import RegisterMachine.Proofs.Installation
import RegisterMachine.Proofs.Overflow
import RegisterMachine.Proofs.Table

namespace RegisterMachine

/-! ### Finite states -/

namespace State

theorem isFinite_iff_every (s : State) :
    s.isFinite = true ↔ s.Every fun v => v.isFinite = true := by
  simp only [isFinite, Bool.and_eq_true, List.all_eq_true, and_assoc]
  rw [Table.forall_entries_iff (p := fun v : Value => v.isFinite = true),
    Table.forall_entries_iff (p := fun vs : List Value => ∀ v ∈ vs, v.isFinite = true),
    Table.forall_entries_iff (p := fun v : Value => v.isFinite = true)]
  constructor
  · rintro ⟨hregisters, hstacks, himmutables⟩ v hv
    cases hv with
    | register h => exact hregisters _ v h
    | stack h hv => exact hstacks _ _ h v hv
    | immutable h => exact himmutables _ v h
  · intro h
    exact ⟨fun name v hv => h v (.register hv), fun name vs hvs v hv => h v (.stack hvs hv),
      fun name v hv => h v (.immutable hv)⟩

/-- A value that a finite state has for a word is finite, if the word is no
literal of an infinity or NaN. -/
theorem isFinite_of_resolve {s : State} {token : String} {v : Value} (hs : s.isFinite = true)
    (hliteral : ∀ w, readLiteral? token = some w → w.isFinite = true)
    (h : s.resolve token = .ok v) : v.isFinite = true :=
  (s.isFinite_iff_every.1 hs).of_resolve hliteral h

end State

/-- **A write keeps a state finite exactly if its value is finite.** -/
theorem Written.isFinite_iff {token : String} {value : Value} {s s' : State}
    (hs : s.isFinite = true) (hable : Writable s token) (h : Written token value s s') :
    s'.isFinite = true ↔ value.isFinite = true := by
  rw [State.isFinite_iff_every] at hs ⊢
  constructor
  · intro hs'
    exact hs' value (h.holds_value hable)
  · exact h.every hs

/-! ### One instruction -/

/-- No word of the line is a literal of an infinity or NaN. -/
def FiniteLiterals (parts : List String) : Prop :=
  ∀ word ∈ parts, ∀ v, readLiteral? word = some v → v.isFinite = true

instance (parts : List String) : Decidable (FiniteLiterals parts) :=
  decidable_of_iff (parts.all fun word => (readLiteral? word).all Value.isFinite) (by
    simp [FiniteLiterals, List.all_eq_true, Option.all_eq_true])

/-- The words make the arithmetic instruction write an overflow. -/
def StoresOverflow (parts : List String) (s : State) : Prop :=
  ∃ word name token operands values, parts = word :: name :: token :: operands ∧
    Resolves s.resolve operands values ∧
    (∃ op : Operation, op.Named name values.length ∧ op.Overflows values) ∧ Writable s token

theorem execute_of_evaluates {parts : List String} {token : String} {value : Value} {s : State}
    (h : Evaluates s.resolve s.line parts token value) (hable : Writable s token) :
    ∃ s', execute parts s = (.ok (), s') := by
  rcases Destination.write_cases token value s s.line with ⟨s', hwrite, -, hdone⟩ | ⟨_, -, hwhy⟩
  · exact ⟨s', executeWith_eq_ok_iff.2 ⟨token, value, h, hable, hdone⟩⟩
  · exact absurd hable hwhy.not_writable

theorem Evaluates.unique {resolve : Resolver} {line : Nat} {parts : List String}
    {token token' : String} {value value' : Value} (h : Evaluates resolve line parts token value)
    (h' : Evaluates resolve line parts token' value') : token = token' ∧ value = value' := by
  obtain ⟨hvalues, hv⟩ := h
  obtain ⟨hvalues', hv'⟩ := h'
  have hsame := (resolveAll_eq_ok_iff.2 hvalues).symm.trans (resolveAll_eq_ok_iff.2 hvalues')
  obtain rfl := Except.ok.inj hsame
  exact ⟨rfl, Except.ok.inj (hv.symm.trans hv')⟩

/-- In a finite state an overflow is stored where the value is not finite. -/
theorem storesOverflow_iff {parts : List String} {s : State} (hs : s.isFinite = true)
    (hliterals : FiniteLiterals parts) :
    StoresOverflow parts s ↔ ∃ token value, Evaluates s.resolve s.line parts token value ∧
      Writable s token ∧ value.isFinite = false := by
  have hoperands : ∀ {word name token : String} {operands : List String} {values : List Value},
      parts = word :: name :: token :: operands → Resolves s.resolve operands values →
        ∀ v ∈ values, v.isFinite = true := by
    intro word name token operands values hparts hvalues
    refine forall_of_resolves hvalues fun operand hoperand v => ?_
    exact State.isFinite_of_resolve hs (hliterals operand (by simp [hparts, hoperand]))
  constructor
  · intro h
    obtain ⟨word, name, token, operands, values, hparts, hvalues, hover, hable⟩ := h
    obtain ⟨v, hv, hnot⟩ := (evaluate_not_finite_iff (hoperands hparts hvalues)).2 hover
    refine ⟨token, v, ?_, hable, hnot⟩
    rw [hparts]
    exact .intro hvalues hv
  · intro h
    obtain ⟨token, value, hvalue, hable, hnot⟩ := h
    obtain @⟨word, name, token, operands, values, value, hvalues, hv⟩ := hvalue
    have hover := (evaluate_not_finite_iff (hoperands rfl hvalues)).1 ⟨value, hv, hnot⟩
    exact ⟨word, name, token, operands, values, rfl, hvalues, hover, hable⟩

/-- **The arithmetic instruction keeps a state finite unless it stores an
overflow.** -/
theorem isFinite_execute_iff {parts : List String} {s : State} (hs : s.isFinite = true)
    (hliterals : FiniteLiterals parts) :
    (execute parts s).2.isFinite = true ↔ ¬ StoresOverflow parts s := by
  rw [storesOverflow_iff hs hliterals]
  match hout : execute parts s with
  | (.error report, s') =>
    have hsame : s' = s := executeWith_error hout
    rw [hsame]
    apply iff_of_true hs
    intro h
    obtain ⟨token, value, hvalue, hable, -⟩ := h
    obtain ⟨s'', hok⟩ := execute_of_evaluates hvalue hable
    cases (Prod.ext_iff.1 (hout.symm.trans hok)).1
  | (.ok (), s') =>
    obtain ⟨token, value, hvalue, hable, hdone⟩ := executeWith_eq_ok_iff.1 hout
    rw [hdone.isFinite_iff hs hable]
    constructor
    · intro hfinite h
      obtain ⟨token', value', hvalue', -, hnot⟩ := h
      rw [← (hvalue.unique hvalue').2, hfinite] at hnot
      cases hnot
    · intro hnone
      by_contra hnot
      exact hnone ⟨token, value, hvalue, hable, Bool.eq_false_of_not_eq_true hnot⟩

theorem position_execute (parts : List String) (s : State) :
    (execute parts s).2.position = s.position := by
  match hout : execute parts s with
  | (.error report, s') => rw [executeWith_error hout]
  | (.ok (), s') =>
    obtain ⟨token, value, -, -, hdone⟩ := executeWith_eq_ok_iff.1 hout
    exact hdone.position

/-! ### One line -/

/-- The state can be read back from its text. -/
def State.Restorable (s : State) : Prop := (State.restore? s.snapshot).isSome = true

theorem State.restorable_iff (s : State) :
    s.Restorable ↔ s.isFinite = true ∧ s.position < 2 ^ 64 := by
  rw [Restorable, restore?_snapshot]
  split
  · rename_i h
    exact iff_of_true rfl h
  · rename_i h
    exact iff_of_false (by simp) h

/-- The instruction leaves states that can be restored, if it is not given
literals of infinities or NaN. -/
def Handler.KeepsRestorable (handler : Handler) : Prop :=
  ∀ parts s, FiniteLiterals parts → s.Restorable → (handler parts s).2.Restorable

namespace LibrarySet

/-- Every instruction is the arithmetic one or keeps what can be restored. -/
def Sound (l : LibrarySet) : Prop :=
  ∀ instruction owned, l.handlers.get? instruction = some owned →
    owned.handler = execute ∨ owned.handler.KeepsRestorable

/-- The line calls the arithmetic instruction, which writes an overflow. -/
def Stores (l : LibrarySet) (line : String) (s : State) : Prop :=
  ∃ first rest owned, words line = first :: rest ∧
    l.handlers.get? (upperCase first) = some owned ∧ owned.handler = execute ∧
    StoresOverflow (first :: rest) s

theorem stores_iff {l : LibrarySet} {line first : String} {rest : List String} {owned : Owned}
    {s : State} (hwords : words line = first :: rest)
    (hget : l.handlers.get? (upperCase first) = some owned) :
    l.Stores line s ↔ owned.handler = execute ∧ StoresOverflow (first :: rest) s := by
  constructor
  · intro h
    obtain ⟨first', rest', owned', hcons, hsome, hexecute, hover⟩ := h
    obtain ⟨rfl, rfl⟩ := List.cons.inj (hwords.symm.trans hcons)
    obtain rfl := Option.some.inj (hget.symm.trans hsome)
    exact ⟨hexecute, hover⟩
  · intro h
    exact ⟨first, rest, owned, hwords, hget, h.1, h.2⟩

theorem restorable_execute_iff {parts : List String} {s : State} (hs : s.Restorable)
    (hliterals : FiniteLiterals parts) :
    (execute parts s).2.Restorable ↔ ¬ StoresOverflow parts s := by
  obtain ⟨hfinite, hposition⟩ := s.restorable_iff.1 hs
  rw [State.restorable_iff, position_execute, isFinite_execute_iff hfinite hliterals]
  exact and_iff_left hposition

/-- **A line keeps what can be restored unless it stores an overflow.** -/
theorem restorable_executeLine_iff {l : LibrarySet} (hl : l.Sound) {line : String} {s : State}
    (hs : s.Restorable) (hliterals : FiniteLiterals (words line)) :
    (l.executeLine line s).2.Restorable ↔ ¬ l.Stores line s := by
  unfold executeLine
  match hwords : words line with
  | [] =>
    apply iff_of_true hs
    intro h
    obtain ⟨first, rest, owned, hcons, -⟩ := h
    rw [hwords] at hcons
    cases hcons
  | first :: rest =>
    rw [hwords] at hliterals
    dsimp only
    cases hget : l.handlers.get? (upperCase first) with
    | none =>
      apply iff_of_true hs
      intro h
      obtain ⟨first', rest', owned, hcons, hsome, -⟩ := h
      obtain ⟨rfl, rfl⟩ := List.cons.inj (hwords.symm.trans hcons)
      rw [hget] at hsome
      cases hsome
    | some owned =>
      show (owned.handler (first :: rest) s).2.Restorable ↔ _
      rw [stores_iff hwords hget]
      rcases hl _ owned hget with hexecute | hkeeps
      · rw [hexecute, restorable_execute_iff hs hliterals]
        simp
      · have hafter := hkeeps _ s hliterals hs
        apply iff_of_true hafter
        intro h
        rw [h.1, restorable_execute_iff hs hliterals] at hafter
        exact hafter h.2

/-! ### Runs -/

/-- What a host does before an instruction: it sets the position and hands over
the line. -/
structure Turn where
  position : Nat
  line : String

/-- The line of a turn, carried out at its position. -/
def perform (l : LibrarySet) (s : State) (turn : Turn) : State :=
  (l.executeLine turn.line { s with position := turn.position }).2

/-- The state after some turns. -/
def run (l : LibrarySet) (turns : List Turn) (s : State) : State := turns.foldl l.perform s

/-- The position fits sixty-four bits, and the line has finite literals only. -/
def Turn.Finite (turn : Turn) : Prop :=
  turn.position < 2 ^ 64 ∧ FiniteLiterals (words turn.line)

/-- The turn stores an overflow. -/
def Turn.Stores (turn : Turn) (l : LibrarySet) (s : State) : Prop :=
  l.Stores turn.line { s with position := turn.position }

theorem restorable_perform_iff {l : LibrarySet} (hl : l.Sound) {s : State} (hs : s.Restorable)
    {turn : Turn} (hturn : turn.Finite) :
    (l.perform s turn).Restorable ↔ ¬ turn.Stores l s := by
  refine restorable_executeLine_iff hl ?_ hturn.2
  rw [State.restorable_iff] at hs ⊢
  exact ⟨hs.1, hturn.1⟩

/-- Every state that a run reaches can be restored. -/
def Saves (l : LibrarySet) (turns : List Turn) (s : State) : Prop :=
  ∀ before after, turns = before ++ after → (l.run before s).Restorable

/-- No turn of a run stores an overflow. -/
def NeverStores (l : LibrarySet) (turns : List Turn) (s : State) : Prop :=
  ∀ before turn after, turns = before ++ turn :: after → ¬ turn.Stores l (l.run before s)

theorem saves_nil_iff {l : LibrarySet} {s : State} : l.Saves [] s ↔ s.Restorable := by
  constructor
  · intro h
    exact h [] [] rfl
  · intro hs before after hsplit
    obtain ⟨rfl, rfl⟩ := List.append_eq_nil_iff.1 hsplit.symm
    exact hs

theorem saves_cons_iff {l : LibrarySet} {turn : Turn} {turns : List Turn} {s : State}
    (hs : s.Restorable) : l.Saves (turn :: turns) s ↔ l.Saves turns (l.perform s turn) := by
  constructor
  · rintro h before after rfl
    exact h (turn :: before) after rfl
  · intro h before after hsplit
    cases before with
    | nil => exact hs
    | cons first before =>
      obtain ⟨rfl, rfl⟩ := List.cons.inj hsplit
      exact h before after rfl

theorem neverStores_cons_iff {l : LibrarySet} {turn : Turn} {turns : List Turn} {s : State} :
    l.NeverStores (turn :: turns) s ↔
      ¬ turn.Stores l s ∧ l.NeverStores turns (l.perform s turn) := by
  constructor
  · intro h
    refine ⟨h [] turn turns rfl, ?_⟩
    rintro before next after rfl
    exact h (turn :: before) next after rfl
  · rintro ⟨hfirst, hrest⟩ before next after hsplit
    cases before with
    | nil =>
      obtain ⟨rfl, rfl⟩ := List.cons.inj hsplit
      exact hfirst
    | cons first before =>
      obtain ⟨rfl, rfl⟩ := List.cons.inj hsplit
      exact hrest before next after rfl

/-- **A run can be saved at every point exactly if it never stores an
overflow.** -/
theorem restorable_run_iff {l : LibrarySet} (hl : l.Sound) {turns : List Turn} {s : State}
    (hs : s.Restorable) (hturns : ∀ turn ∈ turns, turn.Finite) :
    l.Saves turns s ↔ l.NeverStores turns s := by
  induction turns generalizing s with
  | nil =>
    refine iff_of_true (saves_nil_iff.2 hs) fun before turn after hsplit => ?_
    simp at hsplit
  | cons turn turns ih =>
    have hstep := restorable_perform_iff hl hs (hturns turn List.mem_cons_self)
    have hrest : ∀ next ∈ turns, next.Finite := fun next hnext =>
      hturns next (List.mem_cons_of_mem _ hnext)
    rw [saves_cons_iff hs, neverStores_cons_iff, ← hstep]
    constructor
    · intro h
      have hnext : (l.perform s turn).Restorable := h [] turns rfl
      exact ⟨hnext, (ih hnext hrest).1 h⟩
    · intro h'
      obtain ⟨hnext, h⟩ := h'
      exact (ih hnext hrest).2 h

end LibrarySet

/-- **Whatever is installed, a set is sound if all handlers that were given are.** -/
theorem Session.sound_after (s : State) {calls : List Call}
    (hgiven : ∀ r, Call.install r ∈ calls → ∀ e ∈ r.given,
      e.2 = execute ∨ e.2.KeepsRestorable) :
    ((⟨.empty, s⟩ : Session).after calls).libraries.Sound := by
  have hroutes := @routes_after ⟨.empty, s⟩ [] routes_empty calls
  intro key owned howned
  obtain ⟨r, hr, -, hhandler⟩ := (hroutes.handlers key owned).1 howned
  rw [← Recipe.upperCase_of_get?_library hhandler, Recipe.get?_library] at hhandler
  obtain ⟨e, he, hlast⟩ := Option.map_eq_some_iff.1 hhandler
  rw [← hlast]
  exact hgiven r (mem_calls_of_mem_accepted hr) e (List.mem_of_mem_filter (List.mem_of_getLast? he))

/-! ### Instructions of a host -/

namespace State

theorem restorable_declareRegister {s : State} {name : String} {v : Value} (hs : s.Restorable)
    (hv : v.isFinite = true) : (s.declareRegister name v).Restorable := by
  rw [restorable_iff, isFinite_iff_every] at hs ⊢
  refine ⟨fun w hw => ?_, hs.2⟩
  rcases holds_of_declareRegister hw with rfl | hw
  · exact hv
  · exact hs.1 w hw

end State

namespace Host

theorem keepsRestorable_skip : Handler.KeepsRestorable skip := fun _ _ _ hs => hs

theorem keepsRestorable_countOperands : Handler.KeepsRestorable countOperands := by
  intro parts s _ hs
  exact State.restorable_declareRegister hs (Value.isFinite_ofInt _)

theorem keepsRestorable_load : Handler.KeepsRestorable load := by
  intro parts s hliterals hs
  unfold load
  split
  · exact hs
  · rename_i token htoken
    have hmem : token ∈ parts := List.mem_of_mem_drop (List.mem_of_getLast? htoken)
    split
    · exact hs
    · rename_i value hvalue
      have hfinite := (s.restorable_iff.1 hs).1
      apply State.restorable_declareRegister hs
      exact State.isFinite_of_resolve hfinite (hliterals token hmem) hvalue

/-- A library of these instructions. -/
def recipe : Recipe :=
  ⟨"host", [("SKIP", skip), ("COUNT", countOperands), ("LOAD", load)], some seed⟩

theorem keepsRestorable_of_mem_recipe : ∀ e ∈ recipe.given, e.2.KeepsRestorable := by
  simp [recipe, keepsRestorable_skip, keepsRestorable_countOperands, keepsRestorable_load]

end Host

/-! ### Overflows, and what they do to runs -/

/-- **When an infinity is answered, and when a run can be saved.** Finite operands
have a value that is not finite exactly where the operation overflows on them,
and never one with a NaN. So the states of a run, from a finite one over lines
with finite literals, can all be restored exactly if no turn stores an overflow. -/
theorem evaluate_finite_and_run_saves_iff (name : String) {operands : List Value} (line : Nat)
    (hoperands : ∀ x ∈ operands, x.isFinite = true) {l : LibrarySet}
    {turns : List LibrarySet.Turn} {s : State} (hl : l.Sound) (hs : s.isFinite = true)
    (hposition : s.position < 2 ^ 64) (hturns : ∀ turn ∈ turns, turn.Finite) :
    ((∃ v, evaluate name operands line = .ok v ∧ v.isFinite = false) ↔
      ∃ op : Operation, op.Named name operands.length ∧ op.Overflows operands) ∧
    (∀ v, evaluate name operands line = .ok v → ∀ a ∈ v.floats, a.isNaN = false) ∧
    (l.Saves turns s ↔ l.NeverStores turns s) := by
  refine ⟨evaluate_not_finite_iff hoperands, fun v hv a ha => ?_, ?_⟩
  · exact isNaN_of_evaluate hoperands hv ha
  · exact LibrarySet.restorable_run_iff hl (s.restorable_iff.2 ⟨hs, hposition⟩) hturns

/-- The magnitude of `3 + 4i` is finite, and a run that loads the number by an instruction of
the host and stores its magnitude can be saved. -/
theorem evaluate_finite_and_run_saves_three_four :
    let z := Value.complex ⟨.ofBits 0x4008000000000000, .ofBits 0x4010000000000000⟩
    let calls := [Call.install ⟨"amath", [("AMATH", execute)], some installConstants⟩,
      Call.install Host.recipe]
    let host := (⟨.empty, State.initial.declareRegister "r" z⟩ : Session).after calls
    let turns := [⟨0, "LOAD r"⟩, ⟨1, "AMATH MAGNITUDE acc acc"⟩]
    (¬ ∃ op : Operation, op.Named "MAGNITUDE" 1 ∧ op.Overflows [z]) ∧
      host.libraries.NeverStores turns host.state := by
  intro z calls host turns
  have hz : ∀ x ∈ [z], x.isFinite = true := by decide +kernel
  have hsound : host.libraries.Sound := by
    refine Session.sound_after _ fun r hr e he => ?_
    simp only [calls, List.mem_cons, Call.install.injEq, List.not_mem_nil, or_false] at hr
    rcases hr with rfl | rfl
    · exact .inl (by rw [List.mem_singleton.1 he])
    · exact .inr (Host.keepsRestorable_of_mem_recipe e he)
  have hs : host.state.isFinite = true := by decide +kernel
  have hposition : host.state.position < 2 ^ 64 := by decide +kernel
  have hturns : ∀ turn ∈ turns, turn.Finite := by
    intro turn hturn
    simp only [turns, List.mem_cons, List.not_mem_nil, or_false] at hturn
    rcases hturn with rfl | rfl <;> exact ⟨by decide, by decide +kernel⟩
  have hsaves : host.libraries.Saves turns host.state := by
    rw [LibrarySet.saves_cons_iff (State.restorable_iff _ |>.2 ⟨hs, hposition⟩),
      LibrarySet.saves_cons_iff (State.restorable_iff _ |>.2 (by decide +kernel)),
      LibrarySet.saves_nil_iff, State.restorable_iff]
    decide +kernel
  have hvalue : (evaluate "MAGNITUDE" [z] 1).toOption =
      some (.float (.ofBits 0x4014000000000000)) := by decide +kernel
  obtain ⟨hover_iff, -, hsaves_iff⟩ :=
    evaluate_finite_and_run_saves_iff "MAGNITUDE" 1 hz hsound hs hposition hturns
  refine ⟨fun hover => ?_, hsaves_iff.1 hsaves⟩
  obtain ⟨v, hv, hnot⟩ := hover_iff.2 hover
  rw [hv] at hvalue
  obtain rfl := Option.some.inj hvalue
  revert hnot
  decide +kernel

/-- The magnitude of the complex number with both parts the greatest double is
answered with an infinity, and the state that stores it is lost. -/
theorem evaluate_not_finite_and_run_lost :
    let z := Value.complex ⟨.finite false .greatest, .finite false .greatest⟩
    let s := State.initial.declareRegister "r" z
    let line := "AMATH MAGNITUDE r r"
    z.isFinite = true ∧ s.isFinite = true ∧ FiniteLiterals (words line) ∧
      evaluate "MAGNITUDE" [z] 1 = .ok (.float (.infinite false)) ∧
      ¬ ((LibrarySet.empty.claim arithmeticLibrary).executeLine line s).2.Restorable := by
  intro z s line
  have hvalue : (evaluate "MAGNITUDE" [z] 1).toOption = some (.float (.infinite false)) := by
    decide +kernel
  have hlost : ((LibrarySet.empty.claim arithmeticLibrary).executeLine line s).2.isFinite =
      false := by decide +kernel
  refine ⟨by decide +kernel, by decide +kernel, by decide +kernel, ?_, ?_⟩
  · cases hout : evaluate "MAGNITUDE" [z] 1 with
    | error report => rw [hout] at hvalue; cases hvalue
    | ok v =>
      rw [hout] at hvalue
      rw [Option.some.inj hvalue]
  · rw [State.restorable_iff, hlost]
    exact fun h => Bool.false_ne_true h.1

end RegisterMachine
