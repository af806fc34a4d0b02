/-
# Instructions that do not concern each other

What an instruction does depends on what its operand words stand for, on which
registers and stacks there are, and on the line; what it leaves is its result in
one place. So an instruction is not concerned by another one whose destination
is no operand of its own: it answers what it would answer before the other, a
failure included, and sends the same (`Independent.fst_execute`,
`Independent.sends_execute`). If this holds both ways and the destinations
differ, both orders leave the same state.

It is the words that are compared. A word may be read as one thing and written
as another (a register may be called `&`), but different words are never
written to one place.

A whole program any two instructions of which are independent leaves the same
state in every order (`executeAll_perm`), and what an instruction answers does
not depend on how many of the others came before it.

Key definitions: `Independent`, `executeAll`.
Key theorems: `Leaves.fst_execute`, `Independent.execute_comm`, `executeAll_perm`,
`execute_independent`.
-/
import RegisterMachine.Proofs.History

namespace RegisterMachine

/-! ### What an instruction depends on -/

theorem resolveAll_congr {resolve resolve' : Resolver} {tokens : List String}
    (h : ∀ token ∈ tokens, resolve' token = resolve token) :
    resolveAll resolve' tokens = resolveAll resolve tokens := by
  induction tokens with
  | nil => rfl
  | cons token tokens ih =>
    rw [resolveAll, resolveAll, h token List.mem_cons_self,
      ih fun other hother => h other (List.mem_cons_of_mem _ hother)]

namespace Leaves

variable {results results' : List (Destination × Value)} {s s' s'' : State}

/-- What is left is determined by what was sent to each destination. -/
theorem unique (hsame : ∀ d, sentTo d results = sentTo d results') (h : Leaves results s s')
    (h' : Leaves results' s s'') : s' = s'' := by
  apply State.ext
  · apply Table.ext_get?
    intro name
    rw [h.registers, h'.registers, hsame]
  · apply Table.ext_get?
    intro name
    rw [h.stacks, h'.stacks, hsame]
  · exact h.immutables.trans h'.immutables.symm
  · exact h.selected.trans h'.selected.symm
  · exact h.position.trans h'.position.symm

/-- What a write answers depends on which registers and stacks there are. -/
theorem fst_write (h : Leaves results s s') (d : Destination) (value : Value) (line : Nat) :
    (d.write value s' line).1 = (d.write value s line).1 := by
  cases d with
  | immutable name => rfl
  | register name =>
    have hname := h.contains_registers name
    rw [Destination.write, Destination.write, hname]
    by_cases hdeclared : s.registers.contains name = true
    · rw [if_pos hdeclared, if_pos hdeclared]
    · rw [if_neg hdeclared, if_neg hdeclared]
  | selectedStack =>
    rw [Destination.write, Destination.write, h.selected]
    cases s.selected.filter fun name => name ≠ "" with
    | none => rfl
    | some name =>
      have hname := h.contains_stacks name
      rw [Table.contains, Table.contains] at hname
      cases hget : s.stacks.get? name with
      | none =>
        rw [hget, Option.isSome_none, Option.isSome_eq_false_iff,
          Option.isNone_iff_eq_none] at hname
        dsimp only
        rw [hname, hget]
      | some stack =>
        rw [hget, Option.isSome_some, Option.isSome_iff_exists] at hname
        obtain ⟨stack', hstack'⟩ := hname
        dsimp only
        rw [hstack', hget]

section Unread

variable {parts : List String}
  (h : Leaves results s s')
  (hunread : ∀ token ∈ parts.drop 3, sentTo (.register token) results = [])

include h hunread

theorem resolveAll_eq :
    resolveAll s'.resolve (parts.drop 3) = resolveAll s.resolve (parts.drop 3) := by
  apply resolveAll_congr
  intro token htoken
  exact h.resolve_eq (hunread token htoken)

/-- **An instruction that reads nothing of what was sent answers as before.** -/
theorem fst_execute : (execute parts s').1 = (execute parts s).1 := by
  match parts with
  | [] | [_] | [_, _] =>
    show Except.error (s'.report _ _) = Except.error (s.report _ _)
    rw [State.report, State.report, h.line_eq]
  | word :: name :: token :: operands =>
    have hoperands : resolveAll s'.resolve operands = resolveAll s.resolve operands :=
      h.resolveAll_eq hunread
    rw [execute, execute, executeWith, executeWith, hoperands, h.line_eq]
    cases resolveAll s.resolve operands with
    | error report => rfl
    | ok values =>
      dsimp only
      cases evaluate name values s.line with
      | error report => rfl
      | ok value => exact h.fst_write _ _ _

theorem sends_eq : sends parts s' = sends parts s := by
  have hresult : result? parts s' = result? parts s := by
    match parts with
    | [] | [_] | [_, _] => rfl
    | word :: name :: token :: operands =>
      have hoperands : resolveAll s'.resolve operands = resolveAll s.resolve operands :=
        h.resolveAll_eq hunread
      rw [result?, result?, hoperands, h.line_eq]
  rw [sends, sends, h.fst_execute hunread, hresult]

end Unread

end Leaves

/-! ### What an instruction sends -/

theorem Destination.ofToken_injective : Function.Injective ofToken := by
  intro token token' h
  rw [← token_ofToken token, h, token_ofToken]

theorem Destination.eq_of_ofToken_eq_register {token name : String}
    (h : ofToken token = .register name) : token = name := by
  rw [← token_ofToken token, h]
  rfl

theorem destination_of_mem_sends {parts : List String} {s : State} {r : Destination × Value}
    (h : r ∈ sends parts s) : ∃ token, parts[2]? = some token ∧ r.1 = .ofToken token := by
  unfold sends at h
  split at h
  · rw [Option.mem_toList] at h
    match parts with
    | [] | [_] | [_, _] => cases h
    | word :: name :: token :: operands =>
      rw [result?] at h
      split at h
      · cases h
      · obtain ⟨v, -, rfl⟩ := Option.map_eq_some_iff.1 h
        exact ⟨token, rfl, rfl⟩
  · cases h

theorem sentTo_eq_nil_iff {d : Destination} {results : List (Destination × Value)} :
    sentTo d results = [] ↔ ∀ r ∈ results, r.1 ≠ d := by
  simp [sentTo]

/-- Results for different destinations can be sent in either order. -/
theorem sentTo_append_comm {results results' : List (Destination × Value)}
    (h : ∀ r ∈ results, ∀ r' ∈ results', r.1 ≠ r'.1) (d : Destination) :
    sentTo d (results ++ results') = sentTo d (results' ++ results) := by
  rw [sentTo_append, sentTo_append]
  by_cases hnone : sentTo d results = []
  · rw [hnone, List.nil_append, List.append_nil]
  · have hnone' : sentTo d results' = [] := by
      rw [sentTo_eq_nil_iff] at hnone ⊢
      push Not at hnone
      obtain ⟨r, hr, rfl⟩ := hnone
      exact fun r' hr' => (h r hr r' hr').symm
    rw [hnone', List.nil_append, List.append_nil]

/-! ### Independent instructions -/

/-- The instructions have different destinations, and neither reads the other's. -/
structure Independent (parts parts' : List String) : Prop where
  distinct : parts[2]? ≠ parts'[2]?
  unread : ∀ token, parts[2]? = some token → token ∉ parts'.drop 3
  unread' : ∀ token, parts'[2]? = some token → token ∉ parts.drop 3

namespace Independent

variable {parts parts' : List String} (h : Independent parts parts') (s : State)

include h

theorem symm : Independent parts' parts := ⟨h.distinct.symm, h.unread', h.unread⟩

theorem sentTo_sends {token : String} (htoken : token ∈ parts'.drop 3) :
    sentTo (.register token) (sends parts s) = [] := by
  rw [sentTo_eq_nil_iff]
  intro r hr heq
  obtain ⟨destination, hdestination, hsent⟩ := destination_of_mem_sends hr
  rw [hsent] at heq
  obtain rfl := Destination.eq_of_ofToken_eq_register heq
  exact h.unread destination hdestination htoken

/-- **The second instruction answers what it would answer without the first.** -/
theorem fst_execute : (execute parts' (execute parts s).2).1 = (execute parts' s).1 :=
  (leaves_execute parts s).fst_execute fun _ => h.sentTo_sends s

theorem sends_execute : sends parts' (execute parts s).2 = sends parts' s :=
  (leaves_execute parts s).sends_eq fun _ => h.sentTo_sends s

theorem fst_ne_fst {r r' : Destination × Value} (hr : r ∈ sends parts s)
    (hr' : r' ∈ sends parts' s) : r.1 ≠ r'.1 := by
  obtain ⟨token, htoken, hsent⟩ := destination_of_mem_sends hr
  obtain ⟨token', htoken', hsent'⟩ := destination_of_mem_sends hr'
  intro heq
  rw [hsent, hsent'] at heq
  apply h.distinct
  rw [htoken, htoken', Destination.ofToken_injective heq]

/-- **Either order leaves the same state.** -/
theorem execute_comm :
    (execute parts' (execute parts s).2).2 = (execute parts (execute parts' s).2).2 := by
  have hfirst := (leaves_execute parts s).append (leaves_execute parts' (execute parts s).2)
  have hsecond := (leaves_execute parts' s).append (leaves_execute parts (execute parts' s).2)
  rw [h.sends_execute s] at hfirst
  rw [h.symm.sends_execute s] at hsecond
  apply Leaves.unique _ hfirst hsecond
  intro d
  apply sentTo_append_comm
  intro r hr r' hr'
  exact h.fst_ne_fst s hr hr'

end Independent

/-- **Independent instructions commute.** Two instructions with different
destinations, neither of which is an operand of the other, leave the same state
in either order, and each of them answers the same first and second, whether
or not it fails. -/
theorem execute_independent {word name token word' name' token' : String}
    {operands operands' : List String} (s : State) (hne : token ≠ token')
    (hunread : token ∉ operands') (hunread' : token' ∉ operands) :
    let first := word :: name :: token :: operands
    let second := word' :: name' :: token' :: operands'
    (execute second (execute first s).2).2 = (execute first (execute second s).2).2 ∧
    (execute first (execute second s).2).1 = (execute first s).1 ∧
    (execute second (execute first s).2).1 = (execute second s).1 := by
  intro first second
  have h : Independent first second := by
    refine ⟨fun heq => hne (Option.some.inj heq), ?_, ?_⟩
    · rintro _ ⟨⟩
      exact hunread
    · rintro _ ⟨⟩
      exact hunread'
  exact ⟨h.execute_comm s, h.symm.fst_execute s, h.fst_execute s⟩

/-- One instruction sends six to the stack, the other one fails at its destination. -/
theorem execute_independent_stack_immutable :
    let s := ((State.withRegisters ["x", "&"]).declareStack "main").select "main"
    let first := ["AMATH", "GCD", "&", "x", "6"]
    let second := ["AMATH", "ABS", "+pi", "x"]
    (execute first s).2.stacks.get? "main" = some [.ofInt 6] ∧
    (execute second s).1 = .error ⟨⟨.typeError, "Cannot assign to immutable '+pi'."⟩, 1⟩ ∧
    (execute second (execute first s).2).2 = (execute first (execute second s).2).2 ∧
    (execute first (execute second s).2).1 = (execute first s).1 ∧
    (execute second (execute first s).2).1 = (execute second s).1 :=
  ⟨by decide +kernel, by decide +kernel,
    execute_independent _ (by decide) (by decide) (by decide)⟩

/-! ### Programs -/

/-- The state after some instructions, each of which may succeed or fail. -/
def executeAll (program : List (List String)) (s : State) : State :=
  program.foldl (fun s parts => (execute parts s).2) s

/-- **A program of independent instructions can be carried out in any order.** -/
theorem executeAll_perm {program program' : List (List String)} (hperm : program.Perm program')
    (hprogram : program.Pairwise Independent) (s : State) :
    executeAll program s = executeAll program' s := by
  induction hperm generalizing s with
  | nil => rfl
  | cons parts _ ih => exact ih (List.pairwise_cons.1 hprogram).2 (execute parts s).2
  | swap parts parts' rest =>
    have h : Independent parts' parts := (List.pairwise_cons.1 hprogram).1 _ List.mem_cons_self
    have hswap := h.execute_comm s
    show executeAll rest (execute parts (execute parts' s).2).2 =
      executeAll rest (execute parts' (execute parts s).2).2
    rw [hswap]
  | trans hfirst _ ih ih' =>
    have hmiddle := (hfirst.pairwise_iff Independent.symm).1 hprogram
    exact (ih hprogram s).trans (ih' hmiddle s)

/-- **What an instruction answers does not depend on independent ones before it.** -/
theorem fst_execute_executeAll {program : List (List String)} {parts : List String}
    (h : ∀ other ∈ program, Independent other parts) (s : State) :
    (execute parts (executeAll program s)).1 = (execute parts s).1 := by
  induction program generalizing s with
  | nil => rfl
  | cons other program ih =>
    have hrest := ih (fun _ hmem => h _ (List.mem_cons_of_mem _ hmem)) (execute other s).2
    exact hrest.trans ((h other List.mem_cons_self).fst_execute s)

end RegisterMachine
