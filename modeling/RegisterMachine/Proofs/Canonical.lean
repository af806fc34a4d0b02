/-
# One encoding for every integer

A value is canonical unless it is an unbounded integer that would fit a word.
Operations answer no integer but by `Value.ofInt` or by handing an operand on
(`Answers`), and literals are read by it, so runs of the arithmetic library keep
a state canonical: in the states they reach, an integer has one encoding only
(`executeLines_canonical`).

That runs keep it is shown for any property of values that literals have and
that evaluation hands on from operands to results (`every_executeLines`).

Key definitions: `Value.Canonical`.
Key theorems: `Value.canonical_iff_fold_eq`, `canonical_of_evaluate`,
`every_executeLines`, `executeLines_canonical`.
-/
import RegisterMachine.Proofs.Encoding
import RegisterMachine.Proofs.Holding
import RegisterMachine.Proofs.History
import RegisterMachine.Proofs.Overflow

namespace RegisterMachine

/-! ### Canonical values -/

namespace Value

/-- The value is not an unbounded integer that would fit a word. -/
def Canonical : Value → Prop
  | .big n => ¬ (-2 ^ 63 ≤ n ∧ n < 2 ^ 63)
  | _ => True

instance : DecidablePred Canonical
  | .small _ => .isTrue trivial
  | .big n => inferInstanceAs (Decidable (¬ (-2 ^ 63 ≤ n ∧ n < 2 ^ 63)))
  | .float _ => .isTrue trivial
  | .complex _ => .isTrue trivial

theorem canonical_ofInt (n : Int) : (ofInt n).Canonical := by
  unfold ofInt Word.ofInt?
  by_cases h : -2 ^ 63 ≤ n ∧ n < 2 ^ 63
  · rw [dif_pos h]
    trivial
  · rw [dif_neg h]
    exact h

/-- **The canonical values are those that folding leaves as they are.** -/
theorem canonical_iff_fold_eq (v : Value) : v.Canonical ↔ v.fold = v := by
  constructor
  · intro h
    cases v with
    | big n =>
      show ofInt n = .big n
      unfold ofInt Word.ofInt?
      rw [dif_neg h]
    | small n => rfl
    | float x => rfl
    | complex z => rfl
  · intro h
    cases v with
    | big n =>
      rw [← h]
      exact canonical_ofInt n
    | small n => trivial
    | float x => trivial
    | complex z => trivial

theorem eq_of_exactInt? {v w : Value} {n : Int} (hv : v.Canonical) (hw : w.Canonical)
    (hvn : v.exactInt? = some n) (hwn : w.exactInt? = some n) : v = w :=
  calc v = v.fold := ((canonical_iff_fold_eq v).1 hv).symm
    _ = .ofInt n := fold_eq_of_exactInt? hvn
    _ = w.fold := (fold_eq_of_exactInt? hwn).symm
    _ = w := (canonical_iff_fold_eq w).1 hw

end Value

theorem canonical_of_readLiteral? {token : String} {v : Value} (h : readLiteral? token = some v) :
    v.Canonical := by
  unfold readLiteral? at h
  split at h
  · obtain rfl := Option.some.inj h
    exact Value.canonical_ofInt _
  · obtain ⟨x, -, rfl⟩ := Option.map_eq_some_iff.1 h
    trivial

theorem Answers.canonical {operands : List Value} {v : Value} (h : Answers operands v)
    (hoperands : ∀ x ∈ operands, x.Canonical) : v.Canonical := by
  cases h with
  | integer n => exact Value.canonical_ofInt n
  | operand h => exact hoperands v h
  | float x => trivial
  | complex z => trivial

/-- **Evaluation keeps values canonical.** -/
theorem canonical_of_evaluate {name : String} {values : List Value} {line : Nat} {v : Value}
    (h : evaluate name values line = .ok v) (hvalues : ∀ x ∈ values, x.Canonical) :
    v.Canonical := by
  obtain ⟨op, hop, hinvoke⟩ := exists_invoke_of_evaluate h
  rw [Descriptor.invoke_eq hop.2] at hinvoke
  obtain ⟨_, -, hcompute⟩ := bind_eq_ok_iff.1 hinvoke
  exact (Operation.answers_compute hcompute).canonical hvalues

/-! ### Properties that runs keep -/

section Every

variable {p : Value → Prop}

theorem every_installConstants {s : State} (hfloat : ∀ x, p (.float x)) (hs : s.Every p) :
    (installConstants s).Every p := by
  unfold installConstants
  induction constants generalizing s with
  | nil => exact hs
  | cons e es ih =>
    refine ih fun v hv => ?_
    rcases State.holds_of_setImmutable hv with rfl | hv
    · exact hfloat e.2
    · exact hs v hv

section Runs

variable {s : State} (hliteral : ∀ token v, readLiteral? token = some v → p v)
  (hevaluate : ∀ name values line v, evaluate name values line = .ok v →
    (∀ x ∈ values, p x) → p v)
include hliteral hevaluate

theorem every_execute (hs : s.Every p) (parts : List String) : (execute parts s).2.Every p := by
  match hout : execute parts s with
  | (.error report, s') =>
    rw [executeWith_error hout]
    exact hs
  | (.ok (), s') =>
    obtain ⟨token, value, hvalue, -, hdone⟩ := executeWith_eq_ok_iff.1 hout
    obtain ⟨hresolves, hvalue⟩ := hvalue
    have hvalues := forall_of_resolves hresolves fun token _ _ => hs.of_resolve (hliteral token)
    exact hdone.every hs (hevaluate _ _ _ _ hvalue hvalues)

theorem every_executeLine (hs : s.Every p) (line : String) :
    (arithmeticSet.executeLine line s).2.Every p := by
  rcases executeLine_arithmeticSet line s with ⟨-, hline⟩ | hline | ⟨report, hline⟩
  · rw [hline]
    exact hs
  · rw [hline]
    exact every_execute hliteral hevaluate hs _
  · rw [hline]
    exact hs

/-- **A property that literals have and evaluation keeps is kept by runs.** -/
theorem every_executeLines (hs : s.Every p) (lines : List String) :
    (arithmeticSet.executeLines lines s).Every p := by
  induction lines generalizing s with
  | nil => exact hs
  | cons line lines ih => exact ih (every_executeLine hliteral hevaluate hs line)

end Runs

end Every

/-! ### Canonical states -/

/-- **Runs keep one encoding for every integer.** A state that holds canonical
values only is taken by the arithmetic library, its constants and any lines to a
state that does so too, and that reads canonical values only; two values that
it reads and that are the same integer are the same value. -/
theorem executeLines_canonical {s : State} (hs : s.Every Value.Canonical) (lines : List String) :
    let installed := LibrarySet.empty.install arithmeticLibrary s
    let s' := installed.2.1.executeLines lines installed.2.2
    s'.Every Value.Canonical ∧
      (∀ token v, s'.resolve token = .ok v → v.Canonical) ∧
      ∀ v w n, s'.Reads v → s'.Reads w → v.exactInt? = some n → w.exactInt? = some n → v = w := by
  intro installed s'
  have hliteral : ∀ token v, readLiteral? token = some v → v.Canonical :=
    fun _ _ => canonical_of_readLiteral?
  have hconstants : (installConstants s).Every Value.Canonical :=
    every_installConstants (fun _ => trivial) hs
  have hinstalled : installed = (.ok (), arithmeticSet, installConstants s) :=
    install_arithmeticLibrary s
  have hs' : s'.Every Value.Canonical := by
    show (installed.2.1.executeLines lines installed.2.2).Every Value.Canonical
    rw [hinstalled]
    exact every_executeLines hliteral (fun _ _ _ _ => canonical_of_evaluate) hconstants lines
  have hresolve : ∀ token v, s'.resolve token = .ok v → v.Canonical :=
    fun token _ => hs'.of_resolve (hliteral token)
  have hreads : ∀ v, s'.Reads v → v.Canonical := by
    intro v hv
    rcases hv with hv | ⟨token, hv⟩
    · exact hs' v hv
    · exact hresolve token v hv
  exact ⟨hs', hresolve, fun v w n hv hw => Value.eq_of_exactInt? (hreads v hv) (hreads w hw)⟩

/-- The least word has an absolute value that is none, and the register that had
the one takes the other. -/
theorem executeLines_canonical_abs :
    let s := State.initial.declareRegister "r" (.ofInt (-2 ^ 63))
    let installed := LibrarySet.empty.install arithmeticLibrary s
    let s' := installed.2.1.executeLines ["AMATH ABS r r"] installed.2.2
    s.Every Value.Canonical ∧ s'.Every Value.Canonical ∧
      s'.registers.get? "r" = some (.big (2 ^ 63)) := by
  intro s installed s'
  have hs : s.Every Value.Canonical := by
    intro v hv
    rcases State.holds_of_declareRegister hv with rfl | hv
    · exact Value.canonical_ofInt _
    · exact absurd hv State.not_holds_initial
  exact ⟨hs, (executeLines_canonical hs ["AMATH ABS r r"]).1, by decide +kernel⟩

end RegisterMachine
