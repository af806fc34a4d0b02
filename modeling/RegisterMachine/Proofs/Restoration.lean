/-
# What is restored, and restored again

Reading is more liberal than writing: records may be arrays, members may stand
in any order with others between them, a name may stand several times, integers
and doubles have many spellings. Whatever is accepted, what is read can be
written: doubles come out of products and quotients that are checked or cannot
leave the range (`Json.isFinite_of_toFloat?`), and what is read from the parts of a
text holds of the tables and lists made of them. So every restored state is
restored again from its own text, up to its doubles; and whether it is the same
state, or only its text the same, is a matter of its doubles alone
(`State.restore?_accepted`).

That it need not be the same is no matter of precision that is lost once: a
double and its neighbour may be read from the texts of each other
(`State.restore?_snapshot_alternates`).

Key theorems: `Json.isFinite_of_toFloat?`, `Json.toTable?_forall`,
`State.isFinite_of_restore?`, `Json.ofFloat_injective`, `State.restore?_accepted`.
-/
import RegisterMachine.Proofs.Snapshot

namespace RegisterMachine

/-! ### Numbers -/

namespace Binary64

theorem exists_powerOfTen_unit_le {k : Nat} (hk : k ≤ greatestPowerOfTen) :
    ∃ m : Magnitude, powerOfTen k = .finite false m ∧ unit ≤ m.quanta := by
  obtain ⟨one, -, hone⟩ := exists_powerOfTen_eq (Nat.zero_le 22)
  obtain ⟨m, hm, hordinal⟩ := nearest_one_eq (ten_pow_lt_overflow hk)
  refine ⟨m, (powerOfTen_eq hk).trans hm, ?_⟩
  have hle : one.ordinal ≤ m.ordinal := by
    rw [hordinal, ← nearestOrdinal_quanta one Nat.one_pos, hone]
    apply nearestOrdinal_mono Nat.one_pos Nat.one_pos
    rw [Nat.mul_one, Nat.mul_one, Nat.mul_one]
    exact Nat.mul_le_mul_right _ (Nat.pow_le_pow_right (by omega) (Nat.zero_le k))
  calc unit = one.quanta := by rw [hone, Nat.pow_zero, Nat.one_mul]
    _ ≤ m.quanta := ordinalQuanta_strictMono.monotone hle

section Quotients

variable {x : Binary64} (hx : x.isFinite = true)

include hx

theorem isFinite_div_powerOfTen {k : Nat} (hk : k ≤ greatestPowerOfTen) :
    (x.div (powerOfTen k)).isFinite = true := by
  match x, hx with
  | .finite s m, _ =>
    obtain ⟨n, hn, hunit⟩ := exists_powerOfTen_unit_le hk
    have hpos : 0 < n.quanta := Nat.lt_of_lt_of_le unit_pos hunit
    have hne : n.ordinal ≠ 0 := by
      intro hzero
      rw [Magnitude.quanta_eq, hzero, ordinalQuanta_zero] at hpos
      exact Nat.lt_irrefl 0 hpos
    rw [hn, div, if_pos hne, isFinite_nearest_iff _ _ hpos]
    calc m.quanta * unit < overflowQuanta * unit :=
          Nat.mul_lt_mul_of_pos_right m.quanta_lt_overflowQuanta unit_pos
      _ ≤ overflowQuanta * n.quanta := Nat.mul_le_mul_left _ hunit

theorem isFinite_divGreatest (times : Nat) : (divGreatest times x).isFinite = true := by
  induction times generalizing x with
  | zero => exact hx
  | succ times ih =>
    rw [divGreatest]
    split
    · rfl
    · exact ih (isFinite_div_powerOfTen hx (Nat.le_refl _))

theorem isFinite_divPowerOfTen (k : Nat) : (x.divPowerOfTen k).isFinite = true := by
  have hrest : k - (k - 1) / greatestPowerOfTen * greatestPowerOfTen ≤ greatestPowerOfTen := by
    unfold greatestPowerOfTen
    omega
  exact isFinite_div_powerOfTen (isFinite_divGreatest hx _) hrest

/-- **A double times a power of ten is in range or refused.** -/
theorem isFinite_timesPowerOfTen? {exponent : Int} {y : Binary64}
    (h : x.timesPowerOfTen? exponent = some y) : y.isFinite = true := by
  unfold timesPowerOfTen? at h
  split at h
  · rw [← Option.some.inj h]
    exact isFinite_divPowerOfTen hx _
  · split at h
    · dsimp only at h
      split at h
      · rename_i hproduct
        rw [← Option.some.inj h]
        exact hproduct
      · cases h
    · split at h
      · rw [← Option.some.inj h]
        rfl
      · cases h

end Quotients

end Binary64

/-- A word of gathered digits is in the range of the doubles. -/
theorem Numeral.isFinite_of_toBinary64? {n : Numeral} {x : Binary64} (h : n.toBinary64? = some x) :
    x.isFinite = true := by
  have hzero : 0 < gatherBound := by decide
  have hword : n.gathered.coefficient < gatherBound := gather_lt (gather_lt hzero _) _
  have hbound : gatherBound < integerOverflow := by decide +kernel
  apply Binary64.isFinite_timesPowerOfTen? _ h
  rw [Binary64.isFinite_ofInt_iff]
  omega

namespace Json

/-- **Every double that is read is finite.** -/
theorem isFinite_of_toFloat? {j : Json} {x : Binary64} (h : j.toFloat? = some x) :
    x.isFinite = true := by
  unfold toFloat? at h
  split at h
  · obtain ⟨n, -, hn⟩ := Option.bind_eq_some_iff.1 h
    obtain ⟨y, hy, rfl⟩ := Option.map_eq_some_iff.1 hn
    rw [Binary64.isFinite_withSign]
    exact n.isFinite_of_toBinary64? hy
  · cases h

/-! ### Lists and tables -/

section Forall

variable {α : Type} {f : Json → Option α} {p : α → Prop} (hf : ∀ j a, f j = some a → p a)

include hf

theorem readAll?_forall {items : List Json} {as : List α} (h : readAll? f items = some as) :
    ∀ a ∈ as, p a := by
  induction items generalizing as with
  | nil =>
    rw [← Option.some.inj h]
    exact fun a ha => absurd ha List.not_mem_nil
  | cons item items ih =>
    obtain ⟨a, ha, hrest⟩ := Option.bind_eq_some_iff.1 h
    obtain ⟨as, has, rfl⟩ := Option.map_eq_some_iff.1 hrest
    exact List.forall_mem_cons.2 ⟨hf item a ha, ih has⟩

theorem readNamed?_forall {members : List (String × Json)} {es : List (String × α)}
    (h : readNamed? f members = some es) : ∀ e ∈ es, p e.2 := by
  induction members generalizing es with
  | nil =>
    rw [← Option.some.inj h]
    exact fun e he => absurd he List.not_mem_nil
  | cons member members ih =>
    obtain ⟨name, value⟩ := member
    obtain ⟨a, ha, hrest⟩ := Option.bind_eq_some_iff.1 h
    obtain ⟨es, hes, rfl⟩ := Option.map_eq_some_iff.1 hrest
    exact List.forall_mem_cons.2 ⟨hf value a ha, ih hes⟩

theorem toList?_forall {j : Json} {as : List α} (h : j.toList? f = some as) : ∀ a ∈ as, p a := by
  unfold toList? at h
  split at h
  · exact readAll?_forall hf h
  · cases h

/-- **What holds of all that is read holds of a table of it,** of whichever of the
members with one name counts. -/
theorem toTable?_forall {j : Json} {t : Table α} (h : j.toTable? f = some t) :
    ∀ e ∈ t.entries, p e.2 := by
  unfold toTable? at h
  split at h
  · obtain ⟨es, hes, rfl⟩ := Option.map_eq_some_iff.1 h
    obtain ⟨members, -, hread⟩ := Option.bind_eq_some_iff.1 hes
    have hall := readNamed?_forall hf hread
    rw [Table.forall_entries_iff]
    intro name v hv
    rw [Table.ofList, Table.get?_foldl_insert (fun e : String × α => e.1) (fun e => e.2),
      Table.get?_empty, Option.or_none] at hv
    obtain ⟨e, he, rfl⟩ := Option.map_eq_some_iff.1 hv
    exact hall e (List.mem_filter.1 (List.mem_of_getLast? he)).1
  · cases h

end Forall

theorem lt_of_toNatBelow? {bound n : Nat} {j : Json} (h : j.toNatBelow? bound = some n) :
    n < bound := by
  obtain ⟨k, -, hk⟩ := Option.bind_eq_some_iff.1 h
  split at hk
  · rename_i hrange
    obtain rfl := Option.some.inj hk
    omega
  · cases hk

end Json

/-! ### Values and states -/

theorem ComplexNumber.isFinite_of_ofParts? {re im : Json} {z : ComplexNumber}
    (h : ofParts? re im = some z) : z.isFinite = true := by
  obtain ⟨x, hx, hrest⟩ := Option.bind_eq_some_iff.1 h
  obtain ⟨y, hy, rfl⟩ := Option.map_eq_some_iff.1 hrest
  rw [isFinite, Json.isFinite_of_toFloat? hx, Json.isFinite_of_toFloat? hy]
  rfl

theorem ComplexNumber.isFinite_of_ofJson? {j : Json} {z : ComplexNumber}
    (h : ofJson? j = some z) : z.isFinite = true := by
  unfold ofJson? at h
  split at h
  · exact isFinite_of_ofParts? h
  · obtain ⟨members, -, hmembers⟩ := Option.bind_eq_some_iff.1 h
    obtain ⟨re, -, hre⟩ := Option.bind_eq_some_iff.1 hmembers
    obtain ⟨im, -, him⟩ := Option.bind_eq_some_iff.1 hre
    exact isFinite_of_ofParts? him
  · cases h

theorem Value.isFinite_of_ofJson? (j : Json) (v : Value) (h : ofJson? j = some v) :
    v.isFinite = true := by
  unfold ofJson? at h
  split at h
  · obtain ⟨kind, -, hkind⟩ := Option.bind_eq_some_iff.1 h
    unfold ofMember? at hkind
    split at hkind
    · obtain ⟨w, -, rfl⟩ := Option.map_eq_some_iff.1 hkind
      rfl
    · split at hkind
      · obtain ⟨n, -, rfl⟩ := Option.map_eq_some_iff.1 hkind
        rfl
      · split at hkind
        · obtain ⟨x, hx, rfl⟩ := Option.map_eq_some_iff.1 hkind
          simpa [isFinite, floats] using Json.isFinite_of_toFloat? hx
        · split at hkind
          · obtain ⟨z, hz, rfl⟩ := Option.map_eq_some_iff.1 hkind
            simpa [isFinite, floats, ComplexNumber.isFinite] using
              ComplexNumber.isFinite_of_ofJson? hz
          · cases hkind
  · cases h

namespace State

theorem isFinite_of_ofParts? {registers piles immutables selected position : Json} {s : State}
    (h : ofParts? registers piles immutables selected position = some s) :
    s.isFinite = true ∧ s.position < 2 ^ 64 := by
  obtain ⟨rs, hrs, h⟩ := Option.bind_eq_some_iff.1 h
  obtain ⟨ps, hps, h⟩ := Option.bind_eq_some_iff.1 h
  obtain ⟨is, his, h⟩ := Option.bind_eq_some_iff.1 h
  obtain ⟨name, -, h⟩ := Option.bind_eq_some_iff.1 h
  obtain ⟨n, hn, rfl⟩ := Option.map_eq_some_iff.1 h
  have hstack : ∀ j vs, Json.toList? Value.ofJson? j = some vs → ∀ v ∈ vs, v.isFinite = true :=
    fun j vs => Json.toList?_forall Value.isFinite_of_ofJson?
  have hregisters := Json.toTable?_forall Value.isFinite_of_ofJson? hrs
  have hpiles := Json.toTable?_forall hstack hps
  have himmutables := Json.toTable?_forall Value.isFinite_of_ofJson? his
  refine ⟨?_, Json.lt_of_toNatBelow? hn⟩
  simp only [isFinite, Bool.and_eq_true, List.all_eq_true]
  exact ⟨⟨hregisters, hpiles⟩, himmutables⟩

/-- **Every restored state can be saved:** its doubles are finite and its position has
sixty-four bits. -/
theorem isFinite_of_restore? {text : String} {s : State} (h : restore? text = some s) :
    s.isFinite = true ∧ s.position < 2 ^ 64 := by
  obtain ⟨j, -, hj⟩ := Option.bind_eq_some_iff.1 h
  unfold ofJson? at hj
  split at hj
  · exact isFinite_of_ofParts? hj
  · obtain ⟨members, -, hj⟩ := Option.bind_eq_some_iff.1 hj
    obtain ⟨registers, -, hj⟩ := Option.bind_eq_some_iff.1 hj
    obtain ⟨piles, -, hj⟩ := Option.bind_eq_some_iff.1 hj
    obtain ⟨immutables, -, hj⟩ := Option.bind_eq_some_iff.1 hj
    obtain ⟨selected, -, hj⟩ := Option.bind_eq_some_iff.1 hj
    obtain ⟨position, -, hj⟩ := Option.bind_eq_some_iff.1 hj
    exact isFinite_of_ofParts? hj
  · cases hj

end State

/-! ### Texts tell states -/

/-- **Different finite doubles are written differently.** -/
theorem Json.ofFloat_injective {x y : Binary64} (hx : x.isFinite = true) (hy : y.isFinite = true)
    (h : ofFloat x = ofFloat y) : x = y := by
  match x, y, hx, hy with
  | .finite s m, .finite t k, _, _ =>
    obtain ⟨n, tail, hn, hvalue⟩ := spells_magnitudeText m fun h =>
      (Magnitude.shortest_spec .even h).2.1
    obtain ⟨n', tail', hn', hvalue'⟩ := spells_magnitudeText k fun h =>
      (Magnitude.shortest_spec .even h).2.1
    have hsplit := hn.splitSign_eq s
    rw [Json.number.inj h, hn'.splitSign_eq t, Prod.mk.injEq] at hsplit
    obtain ⟨rfl, htext⟩ := hsplit
    have hread := hn.read?_eq
    rw [← htext, hn'.read?_eq, Option.some.injEq] at hread
    have hordinal : m.ordinal = k.ordinal := by
      rw [← m.ordinal_written, ← k.ordinal_written, ← hvalue, ← hvalue', hread]
    rw [show m = k from Magnitude.quanta_injective (congrArg ordinalQuanta hordinal)]

section MapFloats

variable {f : Binary64 → Binary64}

theorem Json.ofTable_map_eq_iff {α : Type} (g : α → Json) (m : α → α) (t : Table α) :
    ofTable g (t.map m) = ofTable g t ↔ ∀ e ∈ t.entries, g (m e.2) = g e.2 := by
  simp only [ofTable, record, Table.map, Json.object.injEq, List.map_map, List.map_inj_left,
    Function.comp_apply, Prod.mk.injEq, true_and]

theorem Value.toJson_mapFloats_eq_iff (v : Value) :
    (v.mapFloats f).toJson = v.toJson ↔ ∀ x ∈ v.floats, Json.ofFloat (f x) = Json.ofFloat x := by
  cases v with
  | small n => simp [mapFloats, floats]
  | big n => simp [mapFloats, floats]
  | float x => simp [mapFloats, floats, toJson, Json.record]
  | complex z =>
    simp [mapFloats, floats, toJson, Json.record, ComplexNumber.mapFloats, ComplexNumber.toJson]

/-- **Changed doubles change the text of a state** unless each is written as before. -/
theorem State.toJson_mapFloats_eq_iff (s : State) :
    (s.mapFloats f).toJson = s.toJson ↔ ∀ x ∈ s.floats, Json.ofFloat (f x) = Json.ofFloat x := by
  have hstack : ∀ vs : List Value,
      Json.array ((vs.map (Value.mapFloats f)).map Value.toJson) = .array (vs.map Value.toJson) ↔
        ∀ v ∈ vs, ∀ x ∈ v.floats, Json.ofFloat (f x) = Json.ofFloat x := by
    intro vs
    simp only [Json.array.injEq, List.map_map, List.map_inj_left, Function.comp_apply,
      Value.toJson_mapFloats_eq_iff]
  have hregisters := Json.ofTable_map_eq_iff Value.toJson (Value.mapFloats f) s.registers
  have hpiles := Json.ofTable_map_eq_iff (fun stack => .array (stack.map Value.toJson))
    (List.map (Value.mapFloats f)) s.stacks
  have himmutables := Json.ofTable_map_eq_iff Value.toJson (Value.mapFloats f) s.immutables
  simp only [hstack, Value.toJson_mapFloats_eq_iff] at hregisters hpiles himmutables
  simp only [toJson, mapFloats, Json.record, Json.object.injEq, List.map_cons, List.map_nil,
    List.cons.injEq, Prod.mk.injEq, true_and, and_true, hregisters, hpiles, himmutables,
    forall_floats_iff]

end MapFloats

namespace State

/-- The text of a state tells the value that was written. -/
theorem toJson_eq_of_snapshot_eq {s s' : State} (h : s.snapshot = s'.snapshot) :
    s.toJson = s'.toJson := by
  have hread := Json.read?_render s.wellFormed_toJson
  rw [← snapshot, h, snapshot, Json.read?_render s'.wellFormed_toJson] at hread
  exact (Option.some.inj hread).symm

theorem isFinite_reread {x : Binary64} (hx : x.isFinite = true) : x.reread.isFinite = true := by
  apply Json.isFinite_of_toFloat? (j := Json.ofFloat x)
  rw [Json.toFloat?_ofFloat, Binary64.reread?_eq, if_pos hx]

/-- **What is accepted can be saved and restored again.** Whatever text a state is
restored from, its doubles are finite, its position has sixty-four bits, and the
text it is saved as is accepted: that gives the state again, with every double
replaced by the one its text is read into. It is the same state, and it is saved
as the same text, exactly if the text of each of its doubles is read into the
nearest double. -/
theorem restore?_accepted {text : String} {s : State} (h : restore? text = some s) :
    (∀ x ∈ s.floats, x.isFinite = true) ∧ s.position < 2 ^ 64 ∧
    restore? s.snapshot = some (s.mapFloats Binary64.reread) ∧
    (restore? s.snapshot = some s ↔ ∀ x ∈ s.floats, x.reread? = some x.nearestToText) ∧
    ((restore? s.snapshot).map snapshot = some s.snapshot ↔
      ∀ x ∈ s.floats, x.reread? = some x.nearestToText) := by
  obtain ⟨hfinite, hposition⟩ := isFinite_of_restore? h
  have hread : restore? s.snapshot = some (s.mapFloats Binary64.reread) := by
    rw [restore?_snapshot, if_pos ⟨hfinite, hposition⟩]
  rw [isFinite_iff] at hfinite
  have hnearest : (∀ x ∈ s.floats, x.reread? = some x.nearestToText) ↔
      ∀ x ∈ s.floats, x.reread = x := by
    apply forall₂_congr
    intro x hx
    rw [x.nearestToText_eq, Binary64.reread_eq_self_iff (hfinite x hx)]
  refine ⟨hfinite, hposition, hread, ?_, ?_⟩
  · rw [hread, hnearest, Option.some.injEq, mapFloats_eq_self_iff]
  · rw [hread, hnearest, Option.map_some, Option.some.injEq]
    constructor
    · intro hsnapshot x hx
      have hwritten := (toJson_mapFloats_eq_iff s).1 (toJson_eq_of_snapshot_eq hsnapshot) x hx
      exact Json.ofFloat_injective (isFinite_reread (hfinite x hx)) (hfinite x hx) hwritten
    · intro hsame
      rw [(mapFloats_eq_self_iff _ s).2 hsame]

/-- Two spellings of doubles and of an unbounded zero, a register that stands twice
and a member that nothing reads are gone from the text that is saved, and the state
is restored from it. -/
theorem restore?_accepted_liberal :
    let text := "[ \x7b\"x\":\x7b\"Int\":1\x7d, \"x\":\x7b\"Complex\":"
      ++ "\x7b\"im\":25e-1,\"re\":-0.0,\"t\":[]\x7d\x7d\x7d,"
      ++ " \x7b\"main\":[\x7b\"BigInt\":[0,[5,0]]\x7d]\x7d, \x7b\x7d, null, 3 ]"
    let z : ComplexNumber := ⟨.ofBits 0x8000000000000000, .ofBits 0x4004000000000000⟩
    let s : State := ⟨.ofList [("x", .complex z)], .ofList [("main", [.big 0])], .empty, none, 3⟩
    restore? text = some s ∧ restore? s.snapshot = some s := by
  intro text z s
  have hread : restore? text = some s := by decide +kernel
  exact ⟨hread, (restore?_accepted hread).2.2.2.1.2 (by decide +kernel)⟩

/-- A text after which saving and restoring has no end: five times `10 ^ 32` is read
as the next double, and the text of that one as five times `10 ^ 32`. -/
theorem restore?_snapshot_alternates :
    let text := "\x7b\"registers\":\x7b\"x\":\x7b\"Float\":50e31\x7d\x7d,\"stacks\":\x7b\x7d,"
      ++ "\"immutables\":\x7b\x7d,\"current_stack_name\":null,\"instruction_pointer\":0\x7d"
    let s := initial.declareRegister "x" (.float (.ofBits 0x46b8a6e32246c99c))
    let s' := initial.declareRegister "x" (.float (.ofBits 0x46b8a6e32246c99d))
    restore? text = some s ∧ restore? s.snapshot = some s' ∧ restore? s'.snapshot = some s ∧
      s ≠ s' ∧ restore? s.snapshot ≠ some s := by
  intro text s s'
  have hread : restore? text = some s := by decide +kernel
  have hne : s ≠ s' := by decide +kernel
  have hrestored : ∀ t t' : State, t.isFinite = true → t.position = 0 →
      t.mapFloats Binary64.reread = t' → restore? t.snapshot = some t' := by
    intro t t' hfinite hposition hreread
    have hbound : (0 : Nat) < 2 ^ 64 := Nat.two_pow_pos 64
    rw [restore?_snapshot, if_pos ⟨hfinite, hposition ▸ hbound⟩, hreread]
  have hfirst := hrestored s s' (by decide +kernel) rfl (by decide +kernel)
  have hsecond := hrestored s' s (by decide +kernel) rfl (by decide +kernel)
  refine ⟨hread, hfirst, hsecond, hne, ?_⟩
  rw [hfirst, Ne, Option.some.injEq]
  exact hne.symm

end State

end RegisterMachine
