/-
# What a run of lines leaves

A line of the arithmetic library either fails and changes nothing, or has a
result and sends it to one destination. What a run of lines leaves is told by
the results of its successful lines alone, in their order (`Leaves`): a register
has the last value sent to it, the selected stack has all values sent to it on
top of what it held, and everything else is as it was. Two runs one after the
other leave what their results together leave.

No word that means a register is `&` or starts with a plus sign
(`Destination.ofToken`), so registers of such names are never written, although
registers are the first place in which a word is looked up.

Key definitions: `LibrarySet.executeLines`, `LibrarySet.results`, `sentTo`,
`Leaves`, `sends`, `arithmeticSet`.
Key theorems: `Leaves.append`, `Written.leaves`, `leaves_execute`,
`leaves_executeLine`, `leaves_executeLines`, `executeLines_history`.
-/
import RegisterMachine.Arithmetic
import RegisterMachine.Proofs.Execution

namespace RegisterMachine

/-! ### Results of lines -/

/-- The destination and the value that the words of an arithmetic instruction
stand for, if its operands can be resolved and its operation evaluated. -/
def result? (parts : List String) (s : State) : Option (Destination × Value) :=
  match parts with
  | _ :: name :: destination :: operands =>
    match resolveAll s.resolve operands with
    | .error _ => none
    | .ok values => (evaluate name values s.line).toOption.map fun v => (.ofToken destination, v)
  | _ => none

theorem result?_of_evaluates {parts : List String} {token : String} {value : Value} {s : State}
    (h : Evaluates s.resolve s.line parts token value) :
    result? parts s = some (.ofToken token, value) := by
  obtain ⟨resolved, evaluated⟩ := h
  rw [result?, resolveAll_eq_ok_iff.2 resolved]
  dsimp only
  rw [evaluated]
  rfl

theorem exists_ofToken_of_result? {parts : List String} {s : State} {r : Destination × Value}
    (h : result? parts s = some r) : ∃ token, r.1 = .ofToken token := by
  unfold result? at h
  split at h
  · rename_i word name destination operands
    split at h
    · cases h
    · obtain ⟨v, -, rfl⟩ := Option.map_eq_some_iff.1 h
      exact ⟨destination, rfl⟩
  · cases h

namespace LibrarySet

/-- The state after some lines, each of which may succeed or fail. -/
def executeLines (l : LibrarySet) (lines : List String) (s : State) : State :=
  lines.foldl (fun s line => (l.executeLine line s).2) s

/-- The result of a line, if it succeeds and has one. -/
def lineResult (l : LibrarySet) (line : String) (s : State) : List (Destination × Value) :=
  match (l.executeLine line s).1 with
  | .ok () => (result? (words line) s).toList
  | .error _ => []

/-- The results of the lines of a run that succeed, in their order. -/
def results (l : LibrarySet) : List String → State → List (Destination × Value)
  | [], _ => []
  | line :: lines, s => l.lineResult line s ++ l.results lines (l.executeLine line s).2

theorem exists_ofToken_of_mem_results {l : LibrarySet} {lines : List String} {s : State}
    {r : Destination × Value} (h : r ∈ l.results lines s) : ∃ token, r.1 = .ofToken token := by
  induction lines generalizing s with
  | nil => cases h
  | cons line lines ih =>
    rcases List.mem_append.1 h with h | h
    · unfold lineResult at h
      split at h
      · exact exists_ofToken_of_result? (Option.mem_toList.1 h)
      · cases h
    · exact ih h

end LibrarySet

/-! ### What results leave -/

/-- The values sent to a destination, in their order. -/
def sentTo (d : Destination) (results : List (Destination × Value)) : List Value :=
  (results.filter fun r => r.1 = d).map fun r => r.2

@[simp]
theorem sentTo_nil (d : Destination) : sentTo d [] = [] := rfl

@[simp]
theorem sentTo_append (d : Destination) (rs rs' : List (Destination × Value)) :
    sentTo d (rs ++ rs') = sentTo d rs ++ sentTo d rs' := by
  simp [sentTo]

theorem sentTo_singleton (d e : Destination) (v : Value) :
    sentTo d [(e, v)] = if e = d then [v] else [] := by
  by_cases h : e = d <;> simp [sentTo, h]

/-- The second state is the first one after these results: each register has the
last value sent to it, if any, and the selected stack has all that were sent to
it on top. -/
structure Leaves (results : List (Destination × Value)) (s s' : State) : Prop where
  registers : ∀ name, s'.registers.get? name =
    (s.registers.get? name).map fun v => (sentTo (.register name) results).getLast?.getD v
  «stacks» : ∀ name, s'.stacks.get? name =
    if s.selected = some name then
      (s.stacks.get? name).map fun stack => stack ++ sentTo .selectedStack results
    else s.stacks.get? name
  immutables : s'.immutables = s.immutables
  selected : s'.selected = s.selected
  position : s'.position = s.position

theorem leaves_nil (s : State) : Leaves [] s s := ⟨by simp, by simp, rfl, rfl, rfl⟩

/-- **Results one after the other leave what they leave together.** -/
theorem Leaves.append {rs rs' : List (Destination × Value)} {s s' s'' : State}
    (h : Leaves rs s s') (h' : Leaves rs' s' s'') : Leaves (rs ++ rs') s s'' := by
  refine ⟨fun name => ?_, fun name => ?_, h'.immutables.trans h.immutables,
    h'.selected.trans h.selected, h'.position.trans h.position⟩
  · rw [h'.registers, h.registers, Option.map_map, sentTo_append, List.getLast?_append]
    apply congrArg (fun f => Option.map f _)
    funext v
    show (sentTo _ rs').getLast?.getD ((sentTo _ rs).getLast?.getD v) = _
    cases (sentTo (.register name) rs').getLast? <;> rfl
  · rw [h'.stacks, h.stacks, h.selected]
    by_cases hsel : s.selected = some name
    · rw [if_pos hsel, if_pos hsel, if_pos hsel, Option.map_map, sentTo_append]
      apply congrArg (fun f => Option.map f _)
      funext stack
      exact List.append_assoc _ _ _
    · rw [if_neg hsel, if_neg hsel, if_neg hsel]

theorem Written.leaves {token : String} {value : Value} {s s' : State} (hable : Writable s token)
    (h : Written token value s s') : Leaves [(.ofToken token, value)] s s' := by
  by_cases ht : token = "&"
  case pos =>
    subst ht
    have hd : Destination.ofToken "&" = .selectedStack := rfl
    rw [hd]
    refine ⟨fun name => ?_, fun name => ?_, h.immutables, h.selected, h.position⟩
    · rw [h.registers, sentTo_singleton]
      simp
    · rw [h.stacks, sentTo_singleton]
      simp
  case neg =>
    rw [Writable, if_neg ht] at hable
    obtain ⟨hmark, old, hold⟩ := hable
    have hd : Destination.ofToken token = .register token := by
      rw [Destination.ofToken, if_neg ht, if_neg hmark]
    rw [hd]
    refine ⟨fun name => ?_, fun name => ?_, h.immutables, h.selected, h.position⟩
    · rw [h.registers, sentTo_singleton]
      by_cases hname : name = token
      · subst hname
        simp [ht, hold]
      · simp [hname, Ne.symm hname]
    · rw [h.stacks, sentTo_singleton]
      simp [ht]

/-- What an instruction sends to its destination: its result, if it succeeds. -/
def sends (parts : List String) (s : State) : List (Destination × Value) :=
  match (execute parts s).1 with
  | .ok () => (result? parts s).toList
  | .error _ => []

/-- **An instruction leaves what it sends.** -/
theorem leaves_execute (parts : List String) (s : State) :
    Leaves (sends parts s) s (execute parts s).2 := by
  unfold sends
  match hout : execute parts s with
  | (.error report, s') =>
    rw [executeWith_error hout]
    exact leaves_nil s
  | (.ok (), s') =>
    obtain ⟨token, value, hvalue, hable, hdone⟩ := executeWith_eq_ok_iff.1 hout
    dsimp only
    rw [result?_of_evaluates hvalue]
    exact hdone.leaves hable

/-! ### The arithmetic library alone -/

/-- The set in which the arithmetic library is installed, and no other. -/
def arithmeticSet : LibrarySet := LibrarySet.empty.claim arithmeticLibrary

/-- The library is accepted where there is no other, and makes its constants
immutables. -/
theorem install_arithmeticLibrary (s : State) :
    LibrarySet.empty.install arithmeticLibrary s = (.ok (), arithmeticSet, installConstants s) :=
  rfl

theorem handlers_arithmeticSet :
    arithmeticSet.handlers =
      Table.empty.insert (upperCase arithmeticInstruction) ⟨"amath", execute⟩ := rfl

/-- A line is empty, calls the arithmetic instruction, or is refused. -/
theorem executeLine_arithmeticSet (line : String) (s : State) :
    (words line = [] ∧ arithmeticSet.executeLine line s = (.ok (), s)) ∨
      arithmeticSet.executeLine line s = execute (words line) s ∨
        ∃ report, arithmeticSet.executeLine line s = (.error report, s) := by
  unfold LibrarySet.executeLine
  match words line with
  | [] => exact .inl ⟨rfl, rfl⟩
  | first :: rest =>
    dsimp only
    rw [handlers_arithmeticSet, Table.get?_insert]
    by_cases hname : upperCase arithmeticInstruction = upperCase first
    · rw [if_pos hname]
      exact .inr (.inl rfl)
    · rw [if_neg hname]
      exact .inr (.inr ⟨_, rfl⟩)

/-- **A line leaves its result, or nothing.** -/
theorem leaves_executeLine (line : String) (s : State) :
    Leaves (arithmeticSet.lineResult line s) s (arithmeticSet.executeLine line s).2 := by
  unfold LibrarySet.lineResult
  rcases executeLine_arithmeticSet line s with ⟨hblank, hline⟩ | hline | ⟨report, hline⟩
  · rw [hline, hblank]
    exact leaves_nil s
  · rw [hline]
    exact leaves_execute (words line) s
  · rw [hline]
    exact leaves_nil s

/-- **A run leaves its results.** -/
theorem leaves_executeLines (lines : List String) (s : State) :
    Leaves (arithmeticSet.results lines s) s (arithmeticSet.executeLines lines s) := by
  induction lines generalizing s with
  | nil => exact leaves_nil s
  | cons line lines ih => exact (leaves_executeLine line s).append (ih _)

/-! ### What a run reads and writes -/

section Protected

variable {token : String}

theorem ofToken_ne_register (h : token = "&" ∨ token.toList.head? = some '+') (other : String) :
    Destination.ofToken other ≠ .register token := by
  intro hd
  have hother : other = token := by
    rw [← Destination.token_ofToken other, hd]
    rfl
  subst hother
  unfold Destination.ofToken at hd
  rcases h with h | h
  · rw [if_pos h] at hd
    cases hd
  · rw [if_pos h] at hd
    split at hd <;> cases hd

/-- Nothing is sent to a register of such a name. -/
theorem sentTo_protected (h : token = "&" ∨ token.toList.head? = some '+') {l : LibrarySet}
    (lines : List String) (s : State) : sentTo (.register token) (l.results lines s) = [] := by
  unfold sentTo
  rw [List.map_eq_nil_iff, List.filter_eq_nil_iff]
  intro r hr
  obtain ⟨other, hother⟩ := LibrarySet.exists_ofToken_of_mem_results hr
  rw [hother, decide_eq_true_iff]
  exact ofToken_ne_register h other

end Protected

namespace Leaves

variable {results : List (Destination × Value)} {s s' : State}

theorem contains_registers (h : Leaves results s s') (name : String) :
    s'.registers.contains name = s.registers.contains name := by
  rw [Table.contains, h.registers, Option.isSome_map]
  rfl

theorem contains_stacks (h : Leaves results s s') (name : String) :
    s'.stacks.contains name = s.stacks.contains name := by
  rw [Table.contains, h.stacks]
  split
  · rw [Option.isSome_map]
    rfl
  · rfl

theorem line_eq (h : Leaves results s s') : s'.line = s.line := by
  rw [State.line, State.line, h.position]

/-- A word to whose register nothing is sent keeps its value, or its failure. -/
theorem resolve_eq (h : Leaves results s s') {token : String}
    (hnone : sentTo (.register token) results = []) : s'.resolve token = s.resolve token := by
  have hregister : s'.registers.get? token = s.registers.get? token := by
    rw [h.registers, hnone]
    simp
  simp only [State.resolve, State.report, hregister, h.immutables, h.line_eq]

end Leaves

/-- **The history of a run is in its registers and on its stack.** Whatever the
lines are and whichever of them fail, the arithmetic library alone leaves the
names of registers and stacks, the immutables, the selected name, the position
and all stacks but the selected one as they were. The selected stack has the
results sent to it on top of what it held, in the order of the lines. A register
has the last result sent to it, or else the value it had. A word that means the
stack or an immutable stands for what it stood for, even as the name of a
register. -/
theorem executeLines_history (host s : State) (lines : List String) :
    let l := (LibrarySet.empty.install arithmeticLibrary host).2.1
    let results := l.results lines s
    let s' := l.executeLines lines s
    (∀ name, s'.registers.contains name = s.registers.contains name) ∧
    (∀ name, s'.stacks.contains name = s.stacks.contains name) ∧
    s'.immutables = s.immutables ∧ s'.selected = s.selected ∧ s'.position = s.position ∧
    (∀ name, s.selected ≠ some name → s'.stacks.get? name = s.stacks.get? name) ∧
    (∀ name stack, s.selected = some name → s.stacks.get? name = some stack →
      s'.stacks.get? name = some (stack ++ sentTo .selectedStack results)) ∧
    (∀ name v, s.registers.get? name = some v →
      s'.registers.get? name = some ((sentTo (.register name) results).getLast?.getD v)) ∧
    ∀ token, token = "&" ∨ token.toList.head? = some '+' →
      s'.resolve token = s.resolve token := by
  intro l results s'
  have h : Leaves results s s' := leaves_executeLines lines s
  refine ⟨h.contains_registers, h.contains_stacks, h.immutables, h.selected, h.position,
    fun name hother => ?_, fun name stack hsel hstack => ?_, fun name v hv => ?_,
    fun token hmark => ?_⟩
  · rw [h.stacks, if_neg hother]
  · rw [h.stacks, if_pos hsel, hstack]
    rfl
  · rw [h.registers, hv]
    rfl
  · exact h.resolve_eq (sentTo_protected hmark lines s)

/-- A register may be called `&`: it is read, and never written. -/
example :
    let s := ((State.initial.declareRegister "&" (.ofInt 7)).declareStack "main").select "main"
    let lines := ["AMATH ABS & -3", "AMATH ABS +e 1", "AMATH GCD & 8 &"]
    let s' := arithmeticSet.executeLines lines s
    s'.stacks.get? "main" = some [.ofInt 3, .ofInt 1] ∧
      s'.registers.get? "&" = some (.ofInt 7) := by
  decide +kernel

end RegisterMachine
