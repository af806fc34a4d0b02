/-
# Tables keyed by names

A table gives some names a value each. It is kept as a list in increasing order
of the names (by code points), each name once, so two tables that answer every
question alike are the same table, and the entries are always listed in the
order in which they are written out.

Key definitions: `Table`, `Table.get?`, `Table.insert`, `Table.ofList`.
Key theorems: `Table.get?_insert`, `Table.ext_get?`.
-/

namespace RegisterMachine

/-- Names with a value each, in increasing order. -/
@[ext]
structure Table (α : Type) where
  entries : List (String × α)
  increasing : entries.Pairwise fun a b => a.1 < b.1
  deriving DecidableEq

namespace Table

variable {α : Type}

/-- The table without names. -/
def empty : Table α := ⟨[], .nil⟩

instance : Inhabited (Table α) := ⟨empty⟩

/-- The value that a list of entries gives a name. -/
def find? (name : String) : List (String × α) → Option α
  | [] => none
  | e :: es => if e.1 = name then some e.2 else find? name es

/-- The value of a name. -/
def get? (t : Table α) (name : String) : Option α := find? name t.entries

/-- Does the table have the name? -/
def contains (t : Table α) (name : String) : Bool := (t.get? name).isSome

/-- The names, in increasing order. -/
def names (t : Table α) : List String := t.entries.map (·.1)

/-- A list of entries with the value of one name set, in its place in the order. -/
def insertEntry (name : String) (value : α) : List (String × α) → List (String × α)
  | [] => [(name, value)]
  | e :: es =>
    if name < e.1 then (name, value) :: e :: es
    else if name = e.1 then (name, value) :: es
    else e :: insertEntry name value es

theorem mem_insertEntry {name : String} {value : α} {e : String × α} {es : List (String × α)}
    (h : e ∈ insertEntry name value es) : e.1 = name ∨ e ∈ es := by
  induction es with
  | nil =>
    simp only [insertEntry, List.mem_singleton] at h
    exact Or.inl (by rw [h])
  | cons d ds ih =>
    unfold insertEntry at h
    split at h
    · rcases List.mem_cons.1 h with he | he
      · exact Or.inl (by rw [he])
      · exact Or.inr he
    · split at h
      · rcases List.mem_cons.1 h with he | he
        · exact Or.inl (by rw [he])
        · exact Or.inr (List.mem_cons_of_mem _ he)
      · rcases List.mem_cons.1 h with he | he
        · exact Or.inr (by rw [he]; exact List.mem_cons_self)
        · rcases ih he with hn | hm
          · exact Or.inl hn
          · exact Or.inr (List.mem_cons_of_mem _ hm)

theorem increasing_insertEntry (name : String) (value : α) {es : List (String × α)}
    (h : es.Pairwise fun a b => a.1 < b.1) :
    (insertEntry name value es).Pairwise fun a b => a.1 < b.1 := by
  induction es with
  | nil => exact List.pairwise_singleton _ _
  | cons d ds ih =>
    have hd := List.pairwise_cons.1 h
    unfold insertEntry
    split
    · rename_i hlt
      refine List.pairwise_cons.2 ⟨fun e he => ?_, h⟩
      rcases List.mem_cons.1 he with rfl | he
      · exact hlt
      · exact String.lt_trans hlt (hd.1 e he)
    · split
      · rename_i heq
        subst heq
        exact List.pairwise_cons.2 ⟨hd.1, hd.2⟩
      · rename_i hnlt hne
        refine List.pairwise_cons.2 ⟨fun e he => ?_, ih hd.2⟩
        rcases mem_insertEntry he with hn | hm
        · rw [hn]
          rcases Decidable.em (d.1 < name) with hlt | hge
          · exact hlt
          · exact absurd (String.le_antisymm (String.not_lt.1 hge) (String.not_lt.1 hnlt)) hne
        · exact hd.1 e hm

/-- The table with the value of one name set, whether or not it had one. -/
def insert (t : Table α) (name : String) (value : α) : Table α :=
  ⟨insertEntry name value t.entries, increasing_insertEntry name value t.increasing⟩

/-- The table of a list of entries. Of several for one name the last counts. -/
def ofList (es : List (String × α)) : Table α :=
  es.foldl (fun t e => t.insert e.1 e.2) empty

theorem find?_insertEntry (name other : String) (value : α) (es : List (String × α)) :
    find? other (insertEntry name value es) =
      if name = other then some value else find? other es := by
  induction es with
  | nil => simp [insertEntry, find?]
  | cons d ds ih =>
    unfold insertEntry
    split
    · simp [find?]
    · split
      · rename_i heq
        by_cases ho : name = other
        · simp [find?, ho]
        · simp [find?, ho, ← heq]
      · rename_i hne
        by_cases hd : d.1 = other
        · have hno : ¬ name = other := fun h => hne (h.trans hd.symm)
          simp [find?, hd, hno]
        · simp [find?, hd, ih]

/-- **Setting a name changes the value of this name alone.** -/
theorem get?_insert (t : Table α) (name other : String) (value : α) :
    (t.insert name value).get? other = if name = other then some value else t.get? other :=
  find?_insertEntry name other value t.entries

@[simp]
theorem get?_empty (name : String) : (empty : Table α).get? name = none := rfl

theorem find?_eq_none_of_lt {name : String} {es : List (String × α)}
    (h : ∀ e ∈ es, name < e.1) : find? name es = none := by
  induction es with
  | nil => rfl
  | cons d ds ih =>
    have hd := h d List.mem_cons_self
    have hne : ¬ d.1 = name := fun he => String.lt_irrefl name (by rw [he] at hd; exact hd)
    simp only [find?, if_neg hne]
    exact ih fun e he => h e (List.mem_cons_of_mem _ he)

theorem entries_eq_of_find? {es fs : List (String × α)}
    (he : es.Pairwise fun a b => a.1 < b.1) (hf : fs.Pairwise fun a b => a.1 < b.1)
    (h : ∀ name, find? name es = find? name fs) : es = fs := by
  induction es generalizing fs with
  | nil =>
    cases fs with
    | nil => rfl
    | cons f fs => simpa [find?] using h f.1
  | cons e es ih =>
    cases fs with
    | nil => simpa [find?] using h e.1
    | cons f fs =>
      have he' := List.pairwise_cons.1 he
      have hf' := List.pairwise_cons.1 hf
      have hkey : e.1 = f.1 := by
        rcases Decidable.em (e.1 < f.1) with hlt | hge
        · have hnone : find? e.1 (f :: fs) = none :=
            find?_eq_none_of_lt fun g hg => by
              rcases List.mem_cons.1 hg with rfl | hg
              · exact hlt
              · exact String.lt_trans hlt (hf'.1 g hg)
          have := h e.1
          rw [hnone] at this
          simp [find?] at this
        · rcases Decidable.em (f.1 < e.1) with hlt | hge'
          · have hnone : find? f.1 (e :: es) = none :=
              find?_eq_none_of_lt fun g hg => by
                rcases List.mem_cons.1 hg with rfl | hg
                · exact hlt
                · exact String.lt_trans hlt (he'.1 g hg)
            have := h f.1
            rw [hnone] at this
            simp [find?] at this
          · exact String.le_antisymm (String.not_lt.1 hge') (String.not_lt.1 hge)
      have hval : e.2 = f.2 := by simpa [find?, hkey] using h e.1
      have hhead : e = f := Prod.ext hkey hval
      subst hhead
      have htail : es = fs := ih he'.2 hf'.2 fun name => by
        by_cases hn : e.1 = name
        · have h1 : find? name es = none :=
            find?_eq_none_of_lt fun g hg => hn ▸ he'.1 g hg
          have h2 : find? name fs = none :=
            find?_eq_none_of_lt fun g hg => hn ▸ hf'.1 g hg
          rw [h1, h2]
        · simpa [find?, hn] using h name
      rw [htail]

/-- **Tables that give every name the same value are the same.** -/
theorem ext_get? {t u : Table α} (h : ∀ name, t.get? name = u.get? name) : t = u :=
  Table.ext (entries_eq_of_find? t.increasing u.increasing h)

end Table

end RegisterMachine
