/-
# Installations, and where lines go

A library is built from a name, instructions with a handler each, and an
initializer or none (`Recipe`). A session is a library set and a state, which
are changed by two calls: to install a library, and to carry out a line. Calls
come in any order.

The library set of a session says no more and no less than the list of the
libraries accepted so far (`Routes`): their names in order, and for every
instruction the one library that gave it and the handler that it gave last. A
library is accepted if it is compatible with each of them. So what is refused
leaves no trace, and an instruction that has a handler keeps it.

Key definitions: `Recipe`, `Recipe.library`, `Recipe.Compatible`, `Routes`,
`Session`, `Session.accepted`.
Key theorems: `Recipe.get?_library`, `Routes.install_cases`, `Routes.claim`,
`Session.routes_call`, `Session.routes_after`,
`Session.installation_and_routing`.
-/
import Mathlib.Data.List.Pairwise
import RegisterMachine.Host
import RegisterMachine.Proofs.Table

namespace RegisterMachine

/-! ### How libraries are built -/

/-- What a library is built from: the instructions are in the order in which
they are given. -/
structure Recipe where
  name : String
  given : List (String × Handler)
  initializer : Option Initializer

namespace Recipe

/-- The library built. -/
def library (r : Recipe) : Library :=
  let l := r.given.foldl (fun l e => l.withInstruction e.1 e.2) (.named r.name)
  match r.initializer with
  | none => l
  | some initializer => l.withInitializer initializer

/-- The recipe gives an instruction of this name, in any case. -/
def Registers (r : Recipe) (instruction : String) : Prop :=
  ∃ e ∈ r.given, upperCase e.1 = upperCase instruction

/-- The handler given last for an instruction, in any case. -/
def last? (r : Recipe) (instruction : String) : Option Handler :=
  (r.given.filter fun e => upperCase e.1 = upperCase instruction).getLast?.map fun e => e.2

/-- The names differ, and no instruction is given by both, in any case. -/
def Compatible (q r : Recipe) : Prop :=
  q.name ≠ r.name ∧ ∀ d ∈ q.given, ∀ e ∈ r.given, upperCase d.1 ≠ upperCase e.1

instance : Std.Symm Compatible where
  symm _ _ h := ⟨h.1.symm, fun e he d hd => (h.2 d hd e he).symm⟩

theorem Compatible.not_registers {q r : Recipe} {instruction : String} (h : q.Compatible r)
    (hq : q.Registers instruction) : ¬ r.Registers instruction := by
  obtain ⟨d, hd, hname⟩ := hq
  intro hr
  obtain ⟨e, he, hname'⟩ := hr
  exact h.2 d hd e he (hname.trans hname'.symm)

/-- What is given last is given. -/
theorem exists_last?_iff {r : Recipe} {instruction : String} :
    (∃ handler, r.last? instruction = some handler) ↔ r.Registers instruction := by
  rw [last?, ← Option.isSome_iff_exists, Option.isSome_map, List.getLast?_isSome]
  simp [Registers, List.filter_eq_nil_iff]

theorem foldl_withInstruction (given : List (String × Handler)) (l : Library) :
    given.foldl (fun l e => l.withInstruction e.1 e.2) l =
      { l with
        instructions := given.foldl (fun t e => t.insert (upperCase e.1) e.2) l.instructions } := by
  induction given generalizing l with
  | nil => rfl
  | cons e es ih => exact ih (l.withInstruction e.1 e.2)

@[simp]
theorem name_library (r : Recipe) : r.library.name = r.name := by
  unfold library
  rw [foldl_withInstruction]
  cases r.initializer <;> rfl

@[simp]
theorem initializer_library (r : Recipe) : r.library.initializer = r.initializer := by
  unfold library
  rw [foldl_withInstruction]
  cases r.initializer <;> rfl

theorem instructions_library (r : Recipe) :
    r.library.instructions =
      r.given.foldl (fun t e => t.insert (upperCase e.1) e.2) Table.empty := by
  unfold library
  rw [foldl_withInstruction]
  cases r.initializer <;> rfl

/-- **A library has for a name in upper case the handler given last for it.** -/
theorem get?_library (r : Recipe) (instruction : String) :
    r.library.instructions.get? (upperCase instruction) = r.last? instruction := by
  rw [instructions_library,
    Table.get?_foldl_insert (fun e : String × Handler => upperCase e.1) (fun e => e.2),
    Table.get?_empty, Option.or_none]
  rfl

theorem upperCase_of_get?_library {r : Recipe} {key : String} {handler : Handler}
    (h : r.library.instructions.get? key = some handler) : upperCase key = key := by
  rw [instructions_library,
    Table.get?_foldl_insert (fun e : String × Handler => upperCase e.1) (fun e => e.2),
    Table.get?_empty, Option.or_none] at h
  obtain ⟨e, he, -⟩ := Option.map_eq_some_iff.1 h
  have hkey := (List.mem_filter.1 (List.mem_of_getLast? he)).2
  rw [← of_decide_eq_true hkey, upperCase_upperCase]

theorem mem_names_library {r : Recipe} {e : String × Handler} (he : e ∈ r.given) :
    upperCase e.1 ∈ r.library.instructions.names := by
  rw [Table.mem_names_iff, get?_library, exists_last?_iff]
  exact ⟨e, he, rfl⟩

end Recipe

/-! ### Library sets and accepted libraries -/

namespace LibrarySet

theorem conflict?_eq_none_iff {l : LibrarySet} {instructions : List String} :
    l.conflict? instructions = none ↔
      ∀ instruction ∈ instructions, l.handlers.get? instruction = none := by
  induction instructions with
  | nil => simp [conflict?]
  | cons instruction rest ih =>
    rw [conflict?, List.forall_mem_cons, ← ih]
    cases l.handlers.get? instruction <;> simp

/-- A claim adds the instructions of the library, with the library as owner. -/
theorem get?_claim (l : LibrarySet) (library : Library) (key : String) :
    (l.claim library).handlers.get? key =
      ((library.instructions.get? key).map (Owned.mk library.name)).or (l.handlers.get? key) := by
  rw [claim, Table.get?_foldl_insert (fun e : String × Handler => e.1)
    (fun e => Owned.mk library.name e.2),
    ← library.instructions.getLast?_filter_entries, Option.map_map]
  rfl

end LibrarySet

/-- The set is what has become of installing these libraries, which are
compatible with each other. -/
structure Routes (accepted : List Recipe) (l : LibrarySet) : Prop where
  installed : l.installed = accepted.map Recipe.name
  compatible : accepted.Pairwise Recipe.Compatible
  handlers : ∀ key owned, l.handlers.get? key = some owned ↔
    ∃ r ∈ accepted, r.name = owned.owner ∧ r.library.instructions.get? key = some owned.handler

theorem routes_empty : Routes [] .empty :=
  ⟨rfl, .nil, fun key owned => by simp [LibrarySet.empty]⟩

namespace Routes

variable {accepted : List Recipe} {l : LibrarySet}

theorem nodup_names (h : Routes accepted l) : (accepted.map Recipe.name).Nodup := by
  rw [List.Nodup, List.pairwise_map]
  exact h.compatible.imp fun hqr => hqr.1

/-- **An instruction is given by one accepted library at most.** -/
theorem eq_of_registers (h : Routes accepted l) {q r : Recipe} (hq : q ∈ accepted)
    (hr : r ∈ accepted) {instruction : String} (hqi : q.Registers instruction)
    (hri : r.Registers instruction) : q = r := by
  by_contra hne
  have hcompatible : q.Compatible r :=
    h.compatible.forall hq hr hne
  exact hcompatible.not_registers hqi hri

theorem exists_get?_iff (h : Routes accepted l) (instruction : String) :
    (∃ owned, l.handlers.get? (upperCase instruction) = some owned) ↔
      ∃ r ∈ accepted, r.Registers instruction := by
  constructor
  · intro h'
    obtain ⟨owned, howned⟩ := h'
    obtain ⟨r, hr, -, hget⟩ := (h.handlers _ _).1 howned
    rw [Recipe.get?_library] at hget
    exact ⟨r, hr, Recipe.exists_last?_iff.1 ⟨_, hget⟩⟩
  · intro h'
    obtain ⟨r, hr, hregisters⟩ := h'
    obtain ⟨handler, hlast⟩ := Recipe.exists_last?_iff.2 hregisters
    rw [← Recipe.get?_library] at hlast
    exact ⟨⟨r.name, handler⟩, (h.handlers _ _).2 ⟨r, hr, rfl, hlast⟩⟩

theorem conflict?_eq_none_iff (h : Routes accepted l) (r : Recipe) :
    l.conflict? r.library.instructions.names = none ↔
      ∀ q ∈ accepted, ∀ d ∈ q.given, ∀ e ∈ r.given, upperCase d.1 ≠ upperCase e.1 := by
  rw [LibrarySet.conflict?_eq_none_iff]
  constructor
  · intro hfree q hq d hd e he hname
    obtain ⟨owned, howned⟩ := (h.exists_get?_iff e.1).2 ⟨q, hq, d, hd, hname⟩
    rw [hfree _ (Recipe.mem_names_library he)] at howned
    cases howned
  · intro hnone key hkey
    obtain ⟨handler, hget⟩ := Table.mem_names_iff.1 hkey
    have hupper : upperCase key = key := Recipe.upperCase_of_get?_library hget
    rw [← hupper, Recipe.get?_library] at hget
    obtain ⟨e, he, hname⟩ := Recipe.exists_last?_iff.1 ⟨_, hget⟩
    rw [← hupper, Option.eq_none_iff_forall_ne_some]
    intro owned howned
    obtain ⟨q, hq, d, hd, hname'⟩ := (h.exists_get?_iff _).1 ⟨owned, howned⟩
    exact hnone q hq d hd e he (hname'.trans hname.symm)

/-- **A library is accepted if it is compatible with all accepted before, and is
refused without a trace if not.** -/
theorem install_cases (h : Routes accepted l) (r : Recipe) (s : State) :
    (∀ q ∈ accepted, q.Compatible r) ∧
        l.install r.library s = (.ok (), l.claim r.library, (r.initializer.getD id) s) ∨
      (¬ ∀ q ∈ accepted, q.Compatible r) ∧
        ∃ failure, l.install r.library s = (.error failure, l, s) := by
  have hinstalled : l.isInstalled r.library.name = true ↔ ∃ q ∈ accepted, q.name = r.name := by
    rw [LibrarySet.isInstalled, h.installed, r.name_library, List.contains_iff_mem, List.mem_map]
  unfold LibrarySet.install
  by_cases hname : l.isInstalled r.library.name = true
  · rw [if_pos hname]
    obtain ⟨q, hq, heq⟩ := hinstalled.1 hname
    exact .inr ⟨fun hall => (hall q hq).1 heq, _, rfl⟩
  · rw [if_neg hname]
    cases hconflict : l.conflict? r.library.instructions.names with
    | some conflict =>
      refine .inr ⟨fun hall => ?_, _, rfl⟩
      rw [(h.conflict?_eq_none_iff r).2 fun q hq => (hall q hq).2] at hconflict
      cases hconflict
    | none =>
      have hfree := (h.conflict?_eq_none_iff r).1 hconflict
      refine .inl ⟨fun q hq => ⟨fun heq => hname (hinstalled.2 ⟨q, hq, heq⟩), hfree q hq⟩, ?_⟩
      rw [r.initializer_library]

/-- **The set in which one more library has claimed its instructions.** -/
theorem claim (h : Routes accepted l) {r : Recipe} (hr : ∀ q ∈ accepted, q.Compatible r) :
    Routes (accepted ++ [r]) (l.claim r.library) := by
  refine ⟨?_, ?_, fun key owned => ?_⟩
  · rw [LibrarySet.claim, h.installed, r.name_library, List.map_append]
    rfl
  · rw [List.pairwise_append]
    refine ⟨h.compatible, List.pairwise_singleton _ _, fun q hq r' hr' => ?_⟩
    obtain rfl := List.mem_singleton.1 hr'
    exact hr q hq
  · rw [LibrarySet.get?_claim, r.name_library]
    simp only [List.mem_append, List.mem_singleton, or_and_right, exists_or, exists_eq_left]
    rw [← h.handlers]
    cases hget : r.library.instructions.get? key with
    | none => simp
    | some handler =>
      -- no accepted library has the instruction, so the claim overwrites nothing
      have hfree := (h.conflict?_eq_none_iff r).2 fun q hq => (hr q hq).2
      have hnone := LibrarySet.conflict?_eq_none_iff.1 hfree key
        (Table.mem_names_iff.2 ⟨handler, hget⟩)
      rw [hnone]
      cases owned
      simp

end Routes

/-! ### Sessions -/

/-- What a host asks for: to install a library, or to carry out a line. -/
inductive Call where
  | install (r : Recipe)
  | line (text : String)

/-- A library set and a state. -/
structure Session where
  libraries : LibrarySet
  state : State

namespace Session

/-- The session after a call, whether or not it succeeds. -/
def call (s : Session) : Call → Session
  | .install r =>
    let out := s.libraries.install r.library s.state
    ⟨out.2.1, out.2.2⟩
  | .line text => ⟨s.libraries, (s.libraries.executeLine text s.state).2⟩

/-- The session after some calls. -/
def after (s : Session) (calls : List Call) : Session := calls.foldl call s

/-- Would the library be accepted? -/
def accepts (s : Session) (r : Recipe) : Bool := (s.libraries.install r.library s.state).1.isOk

/-- The library that a call adds, if it adds one. -/
def newcomer (s : Session) : Call → List Recipe
  | .install r => if s.accepts r then [r] else []
  | .line _ => []

/-- The libraries that calls add, in their order. -/
def accepted (s : Session) : List Call → List Recipe
  | [] => []
  | c :: calls => s.newcomer c ++ (s.call c).accepted calls

theorem mem_calls_of_mem_accepted {s : Session} {calls : List Call} {r : Recipe}
    (hr : r ∈ s.accepted calls) : Call.install r ∈ calls := by
  induction calls generalizing s with
  | nil => cases hr
  | cons c calls ih =>
    rw [accepted, List.mem_append] at hr
    rcases hr with hr | hr
    · cases c with
      | line text => cases hr
      | install q =>
        rw [newcomer] at hr
        split at hr
        · rw [List.mem_singleton.1 hr]
          exact List.mem_cons_self
        · cases hr
    · exact List.mem_cons_of_mem _ (ih hr)

section Routes

variable {s : Session} {before : List Recipe}

theorem accepts_iff (h : Routes before s.libraries) (r : Recipe) :
    s.accepts r = true ↔ ∀ q ∈ before, q.Compatible r := by
  unfold accepts
  rcases h.install_cases r s.state with ⟨hall, hout⟩ | ⟨hnot, failure, hout⟩
  · rw [hout]
    exact iff_of_true rfl hall
  · rw [hout]
    exact iff_of_false Bool.false_ne_true hnot

/-- What is accepted claims its instructions and initializes the state, once. -/
theorem call_install_of_accepts (h : Routes before s.libraries) {r : Recipe}
    (hr : s.accepts r = true) :
    s.call (.install r) = ⟨s.libraries.claim r.library, (r.initializer.getD id) s.state⟩ := by
  rcases h.install_cases r s.state with ⟨-, hout⟩ | ⟨hnot, -⟩
  · rw [call, hout]
  · exact absurd ((accepts_iff h r).1 hr) hnot

theorem call_install_of_not_accepts (h : Routes before s.libraries) {r : Recipe}
    (hr : ¬ s.accepts r = true) : s.call (.install r) = s := by
  rcases h.install_cases r s.state with ⟨hall, -⟩ | ⟨-, failure, hout⟩
  · exact absurd ((accepts_iff h r).2 hall) hr
  · rw [call, hout]

/-- **A call adds what it accepts.** -/
theorem routes_call (h : Routes before s.libraries) (c : Call) :
    Routes (before ++ s.newcomer c) (s.call c).libraries := by
  cases c with
  | line text =>
    rw [newcomer, List.append_nil]
    exact h
  | install r =>
    rw [newcomer]
    by_cases hr : s.accepts r = true
    · rw [if_pos hr, call_install_of_accepts h hr]
      exact h.claim ((accepts_iff h r).1 hr)
    · rw [if_neg hr, call_install_of_not_accepts h hr, List.append_nil]
      exact h

/-- **Calls add what they accept.** -/
theorem routes_after (h : Routes before s.libraries) (calls : List Call) :
    Routes (before ++ s.accepted calls) (s.after calls).libraries := by
  induction calls generalizing s before with
  | nil =>
    rw [accepted, List.append_nil]
    exact h
  | cons c calls ih =>
    rw [accepted, ← List.append_assoc]
    exact ih (routes_call h c)

/-- An instruction that has a handler keeps it, and its owner. -/
theorem get?_after (h : Routes before s.libraries) {key : String} {owned : Owned}
    (hget : s.libraries.handlers.get? key = some owned) (calls : List Call) :
    (s.after calls).libraries.handlers.get? key = some owned := by
  obtain ⟨r, hr, howner⟩ := (h.handlers key owned).1 hget
  exact ((routes_after h calls).handlers key owned).2 ⟨r, List.mem_append_left _ hr, howner⟩

/-- Every route leads to the one library that gives the instruction. -/
theorem exists_owner (h : Routes before s.libraries) {key : String} {owned : Owned}
    (hget : s.libraries.handlers.get? key = some owned) :
    ∃ r ∈ before, r.name = owned.owner ∧ r.last? key = some owned.handler ∧
      ∀ q ∈ before, q.Registers key ↔ q = r := by
  obtain ⟨r, hr, howner, hhandler⟩ := (h.handlers key owned).1 hget
  have hlast : r.last? key = some owned.handler := by
    rw [← Recipe.get?_library, Recipe.upperCase_of_get?_library hhandler, hhandler]
  have hregisters : r.Registers key := Recipe.exists_last?_iff.1 ⟨_, hlast⟩
  refine ⟨r, hr, howner, hlast, fun q hq => ⟨fun hqkey => ?_, fun heq => heq ▸ hregisters⟩⟩
  exact h.eq_of_registers hq hr hqkey hregisters

theorem hasInstruction_iff (h : Routes before s.libraries) (instruction : String) :
    s.libraries.hasInstruction instruction = true ↔ ∃ r ∈ before, r.Registers instruction := by
  rw [LibrarySet.hasInstruction, Table.contains, Option.isSome_iff_exists, h.exists_get?_iff]

/-- **A line calls the handler given last by the library that gives its
instruction.** -/
theorem executeLine_of_registers (h : Routes before s.libraries) {r : Recipe} (hr : r ∈ before)
    {first : String} (hregisters : r.Registers first) :
    ∃ handler, r.last? first = some handler ∧ ∀ line rest, words line = first :: rest →
      ∀ t, s.libraries.executeLine line t = handler (first :: rest) t := by
  obtain ⟨handler, hlast⟩ := Recipe.exists_last?_iff.2 hregisters
  have hget : s.libraries.handlers.get? (upperCase first) = some ⟨r.name, handler⟩ := by
    rw [h.handlers]
    exact ⟨r, hr, rfl, by rw [Recipe.get?_library, hlast]⟩
  refine ⟨handler, hlast, fun line rest hwords t => ?_⟩
  rw [LibrarySet.executeLine, hwords]
  dsimp only
  rw [hget]

theorem executeLine_of_not_registers (h : Routes before s.libraries) {first : String}
    (hnone : ¬ ∃ r ∈ before, r.Registers first) {line : String} {rest : List String}
    (hwords : words line = first :: rest) (t : State) :
    s.libraries.executeLine line t =
      (.error (t.report .syntaxError ("Unknown instruction '" ++ first ++ "'.")), t) := by
  have hget : s.libraries.handlers.get? (upperCase first) = none := by
    rw [Option.eq_none_iff_forall_ne_some]
    exact fun owned howned => hnone ((h.exists_get?_iff _).1 ⟨owned, howned⟩)
  rw [LibrarySet.executeLine, hwords]
  dsimp only
  rw [hget]

end Routes

/-- **Installation is atomic, and routes are stable.** After any calls, made of
a session without libraries and with any state, the accepted names are
different. A library is accepted exactly if it is compatible with each accepted
one; it then initializes the state, once, and otherwise nothing changes. Every
route leads to the one accepted library that gives the instruction, and to the
handler it gave last, and no later calls change it. There is an instruction of a
name exactly if an accepted library gives it, and a line whose first word it is
goes to that handler with all its words; other lines are refused, or do nothing
if they have no words. -/
theorem installation_and_routing (initial : State) (calls : List Call) :
    let start : Session := ⟨.empty, initial⟩
    let s := start.after calls
    let accepted := start.accepted calls
    (s.libraries.installed = accepted.map Recipe.name ∧ s.libraries.installed.Nodup) ∧
    (∀ r, s.accepts r = true ↔ ∀ q ∈ accepted, q.Compatible r) ∧
    (∀ r, s.accepts r = false → s.call (.install r) = s) ∧
    (∀ r, s.accepts r = true →
      (s.call (.install r)).state = (r.initializer.getD id) s.state) ∧
    (∀ key owned, s.libraries.handlers.get? key = some owned →
      (∃ r ∈ accepted, r.name = owned.owner ∧ r.last? key = some owned.handler ∧
        ∀ q ∈ accepted, q.Registers key ↔ q = r) ∧
      ∀ later, (s.after later).libraries.handlers.get? key = some owned) ∧
    (∀ instruction, s.libraries.hasInstruction instruction = true ↔
      ∃ r ∈ accepted, r.Registers instruction) ∧
    (∀ r ∈ accepted, ∀ first, r.Registers first →
      ∃ handler, r.last? first = some handler ∧ ∀ line rest, words line = first :: rest →
        ∀ t, s.libraries.executeLine line t = handler (first :: rest) t) ∧
    (∀ line first rest, words line = first :: rest → (¬ ∃ r ∈ accepted, r.Registers first) →
      ∀ t, s.libraries.executeLine line t =
        (.error (t.report .syntaxError ("Unknown instruction '" ++ first ++ "'.")), t)) ∧
    ∀ line, words line = [] → ∀ t, s.libraries.executeLine line t = (.ok (), t) := by
  intro start s accepted
  have h : Routes accepted s.libraries := @routes_after start [] routes_empty calls
  refine ⟨⟨h.installed, ?_⟩, accepts_iff h, fun r hr => ?_, fun r hr => ?_,
    fun key owned hget => ⟨exists_owner h hget, get?_after h hget⟩, hasInstruction_iff h,
    fun r hr first => executeLine_of_registers h hr,
    fun line first rest hwords hnone => executeLine_of_not_registers h hnone hwords,
    fun line hblank t => ?_⟩
  · rw [h.installed]
    exact h.nodup_names
  · exact call_install_of_not_accepts h (by rw [hr]; exact Bool.false_ne_true)
  · rw [call_install_of_accepts h hr]
  · rw [LibrarySet.executeLine, hblank]

/-- A conflict is found also at the last instruction, and in another case. -/
example :
    let s := (⟨.empty, .initial⟩ : Session).call (.install ⟨"a", [("OP", Host.skip)], none⟩)
    s.accepts ⟨"b", [("new", Host.load), ("op", Host.load)], some Host.seed⟩ = false := by
  decide +kernel

end Session

end RegisterMachine
