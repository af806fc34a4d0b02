/-
# States that are saved and restored

Reading undoes writing part by part: names and texts, integers of both kinds,
lists, records and tables come back as they were, and a double comes back as
the one its text is read into (`Binary64.reread`) if it is finite, and not at
all if it is not. So a state is restored exactly if all its doubles are finite
and its position has sixty-four bits, and it is then the state that was saved up
to its doubles (`State.restore?_snapshot_iff`). The doubles stay the same, for
one, where their digits and powers of ten are doubles
(`State.restore?_snapshot_of_writtenExactly`).

Key definitions: `Table.map`, `Binary64.reread`, `Value.floats`, `State.floats`,
`State.mapFloats`.
Key theorems: `Json.toTable?_ofTable`, `bigOfJson?_bigToJson`,
`Value.ofJson?_toJson`, `State.restore?_snapshot`,
`State.restore?_snapshot_of_writtenExactly`, `State.restore?_snapshot_iff`.
-/
import RegisterMachine.Snapshot
import RegisterMachine.Proofs.Json.Float
import RegisterMachine.Proofs.Json.Text
import RegisterMachine.Proofs.Table

namespace RegisterMachine

/-! ### Tables -/

namespace Table

variable {α β : Type}

/-- The table with a function applied to every value. -/
def map (f : α → β) (t : Table α) : Table β :=
  ⟨t.entries.map fun e => (e.1, f e.2), by
    rw [List.pairwise_map]
    exact t.increasing⟩

theorem map_eq_self_iff (f : α → α) (t : Table α) :
    t.map f = t ↔ ∀ e ∈ t.entries, f e.2 = e.2 := by
  rw [Table.ext_iff, map]
  dsimp only
  conv_lhs => rhs; rw [← List.map_id t.entries]
  rw [List.map_inj_left]
  simp [Prod.ext_iff]

end Table

/-! ### Reading lists, records and tables -/

namespace Json

variable {α β : Type} {f : Json → Option β} {g : α → Json} {m : α → β} {p : α → Bool}

theorem wellFormed_ofText (s : String) : (ofText s).WellFormed := by
  rw [ofText, WellFormed]
  exact scanBody?_escape s.toList

theorem toText?_ofText (s : String) : (ofText s).toText? = some s := by
  simp [ofText, toText?, unescape?_escape]

theorem wellFormed_array {items : List Json} (h : ∀ item ∈ items, item.WellFormed) :
    (array items).WellFormed := by
  rw [WellFormed, wellFormedItems_iff]
  exact h

theorem wellFormed_record {members : List (String × Json)}
    (h : ∀ member ∈ members, member.2.WellFormed) : (record members).WellFormed := by
  rw [record, WellFormed, wellFormedMembers_iff]
  intro member hmember
  obtain ⟨⟨key, value⟩, hmem, rfl⟩ := List.mem_map.1 hmember
  exact ⟨scanBody?_escape key.toList, h _ hmem⟩

theorem wellFormed_ofTable {t : Table α} (h : ∀ e ∈ t.entries, (g e.2).WellFormed) :
    (ofTable g t).WellFormed := by
  refine wellFormed_record fun member hmember => ?_
  obtain ⟨e, he, rfl⟩ := List.mem_map.1 hmember
  exact h e he

theorem named?_escape (members : List (String × Json)) :
    named? (members.map fun (key, value) => (escape key.toList, value)) = some members := by
  induction members with
  | nil => rfl
  | cons member members ih =>
    rw [List.map_cons, named?, unescape?_escape, Option.bind_some, ih, Option.map_some,
      String.ofList_toList]

theorem readAll?_map (h : ∀ a, f (g a) = if p a then some (m a) else none) (xs : List α) :
    readAll? f (xs.map g) = if xs.all p then some (xs.map m) else none := by
  induction xs with
  | nil => rfl
  | cons x xs ih =>
    rw [List.map_cons, readAll?, h, ih]
    cases hx : p x <;> cases hxs : xs.all p <;> simp [hx, hxs]

theorem readNamed?_map (h : ∀ a, f (g a) = if p a then some (m a) else none)
    (es : List (String × α)) :
    readNamed? f (es.map fun e => (e.1, g e.2)) =
      if es.all (fun e => p e.2) then some (es.map fun e => (e.1, m e.2)) else none := by
  induction es with
  | nil => rfl
  | cons e es ih =>
    rw [List.map_cons, readNamed?, h, ih]
    cases hx : p e.2 <;> cases hxs : es.all (fun e => p e.2) <;> simp [hx, hxs]

theorem toList?_array (h : ∀ a, f (g a) = if p a then some (m a) else none) (xs : List α) :
    (array (xs.map g)).toList? f = if xs.all p then some (xs.map m) else none :=
  readAll?_map h xs

/-- **A table is read back value by value.** -/
theorem toTable?_ofTable (h : ∀ a, f (g a) = if p a then some (m a) else none) (t : Table α) :
    (ofTable g t).toTable? f =
      if t.entries.all (fun e => p e.2) then some (t.map m) else none := by
  have hnamed := named?_escape (t.entries.map fun e => (e.1, g e.2))
  have hread := readNamed?_map h t.entries
  rw [ofTable, record, toTable?, hnamed, Option.bind_some, hread]
  split
  · rw [Option.map_some]
    exact congrArg some (Table.ofList_entries (t.map m))
  · rfl

theorem toNatBelow?_ofInt (bound n : Nat) :
    toNatBelow? bound (ofInt n) = if n < bound then some n else none := by
  rw [toNatBelow?, toInt?_ofInt, Option.bind_some]
  simp

end Json

/-! ### Unbounded integers -/

theorem ofLimbs_limbsFrom {fuel n : Nat} (h : n < limbBound ^ fuel) :
    ofLimbs (limbsFrom fuel n) = n := by
  induction fuel generalizing n with
  | zero =>
    rw [Nat.pow_zero] at h
    rw [limbsFrom, ofLimbs]
    omega
  | succ fuel ih =>
    rw [limbsFrom]
    split
    · rename_i hzero
      rw [hzero, ofLimbs]
    · have hquot : n / limbBound < limbBound ^ fuel := by
        rw [Nat.div_lt_iff_lt_mul (by decide), ← Nat.pow_succ]
        exact h
      rw [ofLimbs, ih hquot]
      exact Nat.mod_add_div n limbBound

theorem limbsFrom_lt {fuel n limb : Nat} (h : limb ∈ limbsFrom fuel n) : limb < limbBound := by
  induction fuel generalizing n with
  | zero => cases h
  | succ fuel ih =>
    rw [limbsFrom] at h
    split at h
    · cases h
    · rcases List.mem_cons.1 h with rfl | h
      · exact Nat.mod_lt _ (by decide)
      · exact ih h

theorem ofLimbs_limbs (n : Nat) : ofLimbs (limbs n) = n := by
  apply ofLimbs_limbsFrom
  rw [limbBound, ← Nat.pow_mul]
  by_cases hn : n = 0
  · rw [hn]
    exact Nat.two_pow_pos _
  · exact (Nat.log2_lt hn).1 (by omega)

theorem wellFormed_bigToJson (n : Int) : (bigToJson n).WellFormed := by
  refine Json.wellFormed_array fun item hitem => ?_
  rcases List.mem_cons.1 hitem with rfl | hitem
  · exact Json.wellFormed_ofInt _
  · rw [List.mem_singleton.1 hitem]
    refine Json.wellFormed_array fun limb hlimb => ?_
    obtain ⟨k, -, rfl⟩ := List.mem_map.1 hlimb
    exact Json.wellFormed_ofInt k

/-- **An unbounded integer is read back from its sign and digits.** -/
theorem bigOfJson?_bigToJson (n : Int) : bigOfJson? (bigToJson n) = some n := by
  have hlimb : ∀ k : Nat, Json.toNatBelow? limbBound (.ofInt k) =
      if decide (k < limbBound) then some (id k) else none := by
    intro k
    rw [Json.toNatBelow?_ofInt]
    simp
  have hall : (limbs n.natAbs).all (fun k => decide (k < limbBound)) = true := by
    rw [List.all_eq_true]
    exact fun k hk => decide_eq_true (limbsFrom_lt hk)
  have hsign : -1 ≤ n.sign ∧ n.sign ≤ 1 := by
    rcases Int.lt_trichotomy n 0 with h | h | h
    · rw [Int.sign_eq_neg_one_of_neg h]; decide
    · rw [h]; decide
    · rw [Int.sign_eq_one_of_pos h]; decide
  rw [bigToJson, bigOfJson?, Json.toInt?_ofInt, Option.bind_some, if_pos hsign,
    Json.toList?_array hlimb, if_pos hall, List.map_id, Option.map_some, ofLimbs_limbs,
    Int.sign_mul_natAbs]

/-! ### Values -/

namespace Binary64

/-- The double that the text of a double is read into; what has none stays as it
is. -/
def reread (x : Binary64) : Binary64 := x.reread?.getD x

theorem reread?_eq (x : Binary64) : x.reread? = if x.isFinite then some x.reread else none := by
  have h := isSome_reread?_iff x
  cases hx : x.reread? with
  | none =>
    rw [hx] at h
    have hfin : ¬ x.isFinite = true := fun hfin => by cases h.2 hfin
    rw [if_neg hfin]
  | some y =>
    rw [hx] at h
    rw [if_pos (h.1 rfl), reread, hx, Option.getD_some]

theorem reread_eq_self_iff {x : Binary64} (h : x.isFinite = true) :
    x.reread = x ↔ x.reread? = some x := by
  rw [reread?_eq, if_pos h, Option.some.injEq]

end Binary64

namespace ComplexNumber

/-- Are both parts finite? -/
def isFinite (z : ComplexNumber) : Bool := z.re.isFinite && z.im.isFinite

/-- The number with a function applied to both parts. -/
def mapFloats (f : Binary64 → Binary64) (z : ComplexNumber) : ComplexNumber := ⟨f z.re, f z.im⟩

theorem wellFormed_toJson (z : ComplexNumber) : z.toJson.WellFormed := by
  refine Json.wellFormed_record fun member hmember => ?_
  rcases List.mem_cons.1 hmember with rfl | hmember
  · exact Json.wellFormed_ofFloat _
  · rw [List.mem_singleton.1 hmember]
    exact Json.wellFormed_ofFloat _

theorem ofJson?_toJson (z : ComplexNumber) :
    ofJson? z.toJson = if z.isFinite then some (z.mapFloats Binary64.reread) else none := by
  have hnamed := Json.named?_escape [("re", .ofFloat z.re), ("im", .ofFloat z.im)]
  have hre : Json.only? "re" [("re", Json.ofFloat z.re), ("im", .ofFloat z.im)] =
      some (.ofFloat z.re) := by simp [Json.only?, Json.allNamed]
  have him : Json.only? "im" [("re", Json.ofFloat z.re), ("im", .ofFloat z.im)] =
      some (.ofFloat z.im) := by simp [Json.only?, Json.allNamed]
  rw [toJson, Json.record, ofJson?, hnamed, Option.bind_some, hre, Option.bind_some, him,
    Option.bind_some, ofParts?, Json.toFloat?_ofFloat, Json.toFloat?_ofFloat,
    Binary64.reread?_eq, Binary64.reread?_eq, isFinite]
  cases z.re.isFinite <;> cases z.im.isFinite <;> simp [mapFloats]

end ComplexNumber

namespace Value

/-- The doubles of a value: itself, both parts of a complex number, or none. -/
def floats : Value → List Binary64
  | .small _ => []
  | .big _ => []
  | .float x => [x]
  | .complex z => [z.re, z.im]

/-- Are the doubles of the value finite? -/
def isFinite (v : Value) : Bool := v.floats.all Binary64.isFinite

/-- The value with a function applied to its doubles. -/
def mapFloats (f : Binary64 → Binary64) : Value → Value
  | .small n => .small n
  | .big n => .big n
  | .float x => .float (f x)
  | .complex z => .complex (z.mapFloats f)

theorem mapFloats_eq_self_iff (f : Binary64 → Binary64) (v : Value) :
    v.mapFloats f = v ↔ ∀ x ∈ v.floats, f x = x := by
  cases v with
  | small n => simp [mapFloats, floats]
  | big n => simp [mapFloats, floats]
  | float x => simp [mapFloats, floats]
  | complex z =>
    obtain ⟨re, im⟩ := z
    simp [mapFloats, floats, ComplexNumber.mapFloats]

theorem wellFormed_toJson (v : Value) : v.toJson.WellFormed := by
  cases v with
  | small n => exact Json.wellFormed_record (by simp [Json.wellFormed_ofInt])
  | big n => exact Json.wellFormed_record (by simp [wellFormed_bigToJson])
  | float x => exact Json.wellFormed_record (by simp [Json.wellFormed_ofFloat])
  | complex z => exact Json.wellFormed_record (by simp [ComplexNumber.wellFormed_toJson])

theorem ofJson?_record (kind : String) (content : Json) :
    ofJson? (.record [(kind, content)]) = ofMember? kind content := by
  rw [Json.record, List.map_singleton, ofJson?, Json.unescape?_escape, Option.bind_some,
    String.ofList_toList]

/-- **A value is read back exactly if its doubles are finite,** of the same kind,
the same integer and the doubles as they are read. -/
theorem ofJson?_toJson (v : Value) :
    ofJson? v.toJson = if v.isFinite then some (v.mapFloats Binary64.reread) else none := by
  cases v with
  | small n =>
    rw [toJson, ofJson?_record]
    simp [ofMember?, Json.toInt?_ofInt, Word.ofInt?_val, isFinite, floats, mapFloats]
  | big n =>
    rw [toJson, ofJson?_record]
    simp [ofMember?, bigOfJson?_bigToJson, isFinite, floats, mapFloats]
  | float x =>
    rw [toJson, ofJson?_record]
    simp only [ofMember?, Json.toFloat?_ofFloat, Binary64.reread?_eq, isFinite, floats,
      mapFloats, String.reduceEq, if_false, if_true, List.all_cons, List.all_nil, Bool.and_true]
    cases x.isFinite <;> simp
  | complex z =>
    have hfinite : (Value.complex z).isFinite = z.isFinite := by
      simp [isFinite, floats, ComplexNumber.isFinite]
    rw [toJson, ofJson?_record, hfinite]
    simp only [ofMember?, ComplexNumber.ofJson?_toJson, mapFloats, String.reduceEq, if_false,
      if_true]
    cases z.isFinite <;> simp

end Value

/-! ### States -/

namespace State

/-- The doubles stored anywhere in a state. -/
def floats (s : State) : List Binary64 :=
  (s.registers.entries.flatMap fun e => e.2.floats) ++
    (s.stacks.entries.flatMap fun e => e.2.flatMap Value.floats) ++
      s.immutables.entries.flatMap fun e => e.2.floats

/-- Are the doubles of the state finite? -/
def isFinite (s : State) : Bool :=
  (s.registers.entries.all fun e => e.2.isFinite) &&
    (s.stacks.entries.all fun e => e.2.all Value.isFinite) &&
      s.immutables.entries.all fun e => e.2.isFinite

/-- The state with a function applied to its doubles. -/
def mapFloats (f : Binary64 → Binary64) (s : State) : State :=
  { s with
    registers := s.registers.map (Value.mapFloats f)
    «stacks» := s.stacks.map (List.map (Value.mapFloats f))
    immutables := s.immutables.map (Value.mapFloats f) }

/-- What holds of the doubles of a state holds of those in its registers, on its
stacks and in its immutables. -/
theorem forall_floats_iff (s : State) (p : Binary64 → Prop) :
    (∀ x ∈ s.floats, p x) ↔
      (∀ e ∈ s.registers.entries, ∀ x ∈ e.2.floats, p x) ∧
      (∀ e ∈ s.stacks.entries, ∀ v ∈ e.2, ∀ x ∈ v.floats, p x) ∧
      ∀ e ∈ s.immutables.entries, ∀ x ∈ e.2.floats, p x := by
  simp only [floats, List.mem_append, List.mem_flatMap]
  constructor
  · intro h
    exact ⟨fun e he x hx => h x (.inl (.inl ⟨e, he, hx⟩)),
      fun e he v hv x hx => h x (.inl (.inr ⟨e, he, v, hv, hx⟩)),
      fun e he x hx => h x (.inr ⟨e, he, hx⟩)⟩
  · rintro ⟨hr, hs, hi⟩ x ((⟨e, he, hx⟩ | ⟨e, he, v, hv, hx⟩) | ⟨e, he, hx⟩)
    · exact hr e he x hx
    · exact hs e he v hv x hx
    · exact hi e he x hx

theorem isFinite_iff (s : State) :
    s.isFinite = true ↔ ∀ x ∈ s.floats, x.isFinite = true := by
  simp only [isFinite, Value.isFinite, Bool.and_eq_true, List.all_eq_true, and_assoc,
    forall_floats_iff]

theorem mapFloats_eq_self_iff (f : Binary64 → Binary64) (s : State) :
    s.mapFloats f = s ↔ ∀ x ∈ s.floats, f x = x := by
  have hstack : ∀ vs : List Value, vs.map (Value.mapFloats f) = vs ↔
      ∀ v ∈ vs, ∀ x ∈ v.floats, f x = x := by
    intro vs
    conv_lhs => rhs; rw [← List.map_id vs]
    rw [List.map_inj_left]
    simp only [id, Value.mapFloats_eq_self_iff]
  simp only [State.ext_iff, mapFloats, Table.map_eq_self_iff, Value.mapFloats_eq_self_iff, hstack,
    and_true, forall_floats_iff]

theorem wellFormed_toJson (s : State) : s.toJson.WellFormed := by
  refine Json.wellFormed_record fun member hmember => ?_
  simp only [List.mem_cons, List.not_mem_nil, or_false] at hmember
  rcases hmember with rfl | rfl | rfl | rfl | rfl
  · exact Json.wellFormed_ofTable fun e _ => e.2.wellFormed_toJson
  · refine Json.wellFormed_ofTable (g := fun stack : List Value => .array (stack.map Value.toJson))
      fun e _ => Json.wellFormed_array fun item hitem => ?_
    obtain ⟨v, -, rfl⟩ := List.mem_map.1 hitem
    exact v.wellFormed_toJson
  · exact Json.wellFormed_ofTable fun e _ => e.2.wellFormed_toJson
  · cases s.selected with
    | none => trivial
    | some name => exact Json.wellFormed_ofText name
  · exact Json.wellFormed_ofInt _

theorem toOptionalText?_selected (selected : Option String) :
    (selected.elim .null Json.ofText).toOptionalText? = some selected := by
  cases selected with
  | none => rfl
  | some name =>
    have htext := Json.toText?_ofText name
    rw [Option.elim_some, Json.ofText, Json.toOptionalText?]
    · rw [← Json.ofText, htext]
      rfl
    · simp

theorem ofParts?_toJson (s : State) :
    ofParts? (.ofTable Value.toJson s.registers)
        (.ofTable (fun stack => .array (stack.map Value.toJson)) s.stacks)
        (.ofTable Value.toJson s.immutables) (s.selected.elim .null .ofText)
        (.ofInt s.position) =
      if s.isFinite = true ∧ s.position < 2 ^ 64 then some (s.mapFloats Binary64.reread)
      else none := by
  have hstack := fun stack : List Value => Json.toList?_array Value.ofJson?_toJson stack
  rw [ofParts?, Json.toTable?_ofTable Value.ofJson?_toJson, Json.toTable?_ofTable hstack,
    Json.toTable?_ofTable Value.ofJson?_toJson, toOptionalText?_selected,
    Json.toNatBelow?_ofInt, isFinite]
  cases s.registers.entries.all fun e => e.2.isFinite <;>
    cases s.stacks.entries.all fun e => e.2.all Value.isFinite <;>
      cases s.immutables.entries.all fun e => e.2.isFinite <;> simp [mapFloats]

theorem ofJson?_toJson (s : State) :
    ofJson? s.toJson =
      if s.isFinite = true ∧ s.position < 2 ^ 64 then some (s.mapFloats Binary64.reread)
      else none := by
  rw [← ofParts?_toJson, toJson, Json.record, ofJson?, Json.named?_escape, Option.bind_some]
  simp [Json.only?, Json.onlyOrNull?, Json.allNamed]

/-- **What is restored from the text of a state.** -/
theorem restore?_snapshot (s : State) :
    restore? s.snapshot =
      if s.isFinite = true ∧ s.position < 2 ^ 64 then some (s.mapFloats Binary64.reread)
      else none := by
  rw [restore?, snapshot, Json.read?_render s.wellFormed_toJson, Option.bind_some, ofJson?_toJson]

/-- **States that are restored as they were.** No double of at most fifteen digits, and with
a power of ten up to the twenty-second, is changed by saving and restoring. -/
theorem restore?_snapshot_of_writtenExactly {s : State} (hs : ∀ x ∈ s.floats, x.WrittenExactly)
    (hposition : s.position < 2 ^ 64) : restore? s.snapshot = some s := by
  have hfinite : s.isFinite = true := s.isFinite_iff.2 fun x hx => (hs x hx).isFinite
  have hsame : s.mapFloats Binary64.reread = s := by
    rw [mapFloats_eq_self_iff]
    intro x hx
    exact (Binary64.reread_eq_self_iff (hs x hx).isFinite).2 (hs x hx).reread?_eq
  rw [restore?_snapshot, if_pos ⟨hfinite, hposition⟩, hsame]

/-- A tenth and ten to the twenty-second are among these doubles. -/
example :
    let s := (initial.declareRegister "x" (.float (.ofBits 0x3fb999999999999a))).setImmutable "y"
      (.float (.ofBits 0x4480f0cf064dd592))
    restore? s.snapshot = some s :=
  restore?_snapshot_of_writtenExactly (by decide +kernel) (by decide)

/-- **Which states are restored, and which of them as they were.** Every state
with finite doubles and a position of sixty-four bits is restored, and no other.
It is the state that was saved, with every double replaced by the one its text
is read into; so it is the same state exactly if the text of each of its doubles is
read into the nearest double. -/
theorem restore?_snapshot_iff (s : State) :
    ((restore? s.snapshot).isSome = true ↔
      (∀ x ∈ s.floats, x.isFinite = true) ∧ s.position < 2 ^ 64) ∧
    (∀ s', restore? s.snapshot = some s' → s' = s.mapFloats Binary64.reread) ∧
    (restore? s.snapshot = some s ↔
      (∀ x ∈ s.floats, x.reread? = some x.nearestToText) ∧ s.position < 2 ^ 64) := by
  simp only [Binary64.nearestToText_eq]
  rw [restore?_snapshot]
  by_cases h : s.isFinite = true ∧ s.position < 2 ^ 64
  · have hfinite := s.isFinite_iff.1 h.1
    rw [if_pos h]
    refine ⟨iff_of_true rfl ⟨hfinite, h.2⟩, ?_, ?_⟩
    · intro s' hs'
      exact (Option.some.inj hs').symm
    · rw [Option.some.injEq, mapFloats_eq_self_iff]
      constructor
      · intro hreread
        exact ⟨fun x hx => (Binary64.reread_eq_self_iff (hfinite x hx)).1 (hreread x hx), h.2⟩
      · rintro ⟨hreread, -⟩ x hx
        exact (Binary64.reread_eq_self_iff (hfinite x hx)).2 (hreread x hx)
  · rw [if_neg h]
    refine ⟨iff_of_false (by simp) ?_, by simp, iff_of_false (by simp) ?_⟩
    · intro h'
      obtain ⟨hfinite, hposition⟩ := h'
      exact h ⟨s.isFinite_iff.2 hfinite, hposition⟩
    · intro h'
      obtain ⟨hreread, hposition⟩ := h'
      refine h ⟨s.isFinite_iff.2 fun x hx => ?_, hposition⟩
      rw [← Binary64.isSome_reread?_iff, hreread x hx]
      rfl

/-- A finite state that is not restored as it was: one double of it has seventeen
digits and comes back as its neighbour. -/
theorem restore?_snapshot_ne :
    let saved := initial.declareRegister "x" (.float (.ofBits 0x256ae7de1d74bd1d))
    let restored := initial.declareRegister "x" (.float (.ofBits 0x256ae7de1d74bd1c))
    (∀ x ∈ saved.floats, x.isFinite = true) ∧ saved.position < 2 ^ 64 ∧
      restore? saved.snapshot = some restored ∧ restore? saved.snapshot ≠ some saved := by
  intro saved restored
  have hfinite : saved.isFinite = true := by decide +kernel
  have hrestored : saved.mapFloats Binary64.reread = restored := by decide +kernel
  have hne : restored ≠ saved := by decide +kernel
  have hposition : saved.position < 2 ^ 64 := Nat.two_pow_pos 64
  have hread : restore? saved.snapshot = some restored := by
    rw [restore?_snapshot, if_pos ⟨hfinite, hposition⟩, hrestored]
  refine ⟨saved.isFinite_iff.1 hfinite, hposition, hread, ?_⟩
  rw [hread, Ne, Option.some.injEq]
  exact hne

end State

end RegisterMachine
