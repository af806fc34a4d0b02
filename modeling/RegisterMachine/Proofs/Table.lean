/-
# Entries and lookups of tables

The entries of a table and what is found in it are two accounts of the same
thing. Insertions one after the other set each name to the last value given for
it, and leave other names as they were (`Table.get?_foldl_insert`).

Key theorems: `Table.forall_entries_iff`, `Table.ofList_entries`,
`Table.get?_foldl_insert`, `Table.mem_names_iff`.
-/
import RegisterMachine.Table

namespace RegisterMachine

namespace Table

variable {α : Type}

/-! ### What is found is an entry -/

theorem mem_of_find? {name : String} {v : α} {es : List (String × α)}
    (h : find? name es = some v) : (name, v) ∈ es := by
  induction es with
  | nil => cases h
  | cons e es ih =>
    rw [find?] at h
    split at h
    · rename_i hname
      obtain rfl := Option.some.inj h
      rw [← hname]
      exact List.mem_cons_self
    · exact List.mem_cons_of_mem _ (ih h)

theorem find?_of_mem {e : String × α} {es : List (String × α)}
    (hes : es.Pairwise fun a b => a.1 < b.1) (h : e ∈ es) : find? e.1 es = some e.2 := by
  induction es with
  | nil => cases h
  | cons d ds ih =>
    obtain ⟨hd, hds⟩ := List.pairwise_cons.1 hes
    rw [find?]
    rcases List.mem_cons.1 h with rfl | hmem
    · rw [if_pos rfl]
    · have hne : ¬ d.1 = e.1 := by
        intro heq
        have hlt := hd e hmem
        rw [heq] at hlt
        exact String.lt_irrefl _ hlt
      rw [if_neg hne]
      exact ih hds hmem

theorem forall_entries_iff {p : α → Prop} (t : Table α) :
    (∀ e ∈ t.entries, p e.2) ↔ ∀ name v, t.get? name = some v → p v := by
  constructor
  · intro h name v hv
    exact h (name, v) (mem_of_find? hv)
  · intro h e he
    exact h e.1 e.2 (find?_of_mem t.increasing he)

theorem mem_names_iff {t : Table α} {name : String} :
    name ∈ t.names ↔ ∃ v, t.get? name = some v := by
  constructor
  · intro h
    obtain ⟨e, he, rfl⟩ := List.mem_map.1 h
    exact ⟨e.2, find?_of_mem t.increasing he⟩
  · intro h
    obtain ⟨v, hv⟩ := h
    exact List.mem_map.2 ⟨(name, v), mem_of_find? hv, rfl⟩

/-! ### Insertions -/

theorem insertEntry_of_lt {name : String} (value : α) {es : List (String × α)}
    (h : ∀ e ∈ es, e.1 < name) : insertEntry name value es = es ++ [(name, value)] := by
  induction es with
  | nil => rfl
  | cons d ds ih =>
    have hlt := h d List.mem_cons_self
    have hnot : ¬ name < d.1 := fun hgt => String.lt_irrefl name (String.lt_trans hgt hlt)
    have hne : ¬ name = d.1 := by
      intro heq
      rw [heq] at hlt
      exact String.lt_irrefl _ hlt
    rw [insertEntry, if_neg hnot, if_neg hne, ih fun e he => h e (List.mem_cons_of_mem _ he)]
    rfl

theorem entries_foldl_insert (es : List (String × α)) (t : Table α)
    (h : (t.entries ++ es).Pairwise fun a b => a.1 < b.1) :
    (es.foldl (fun t e => t.insert e.1 e.2) t).entries = t.entries ++ es := by
  induction es generalizing t with
  | nil => simp
  | cons e es ih =>
    have hlt : ∀ d ∈ t.entries, d.1 < e.1 := fun d hd =>
      (List.pairwise_append.1 h).2.2 d hd e List.mem_cons_self
    have hinsert : (t.insert e.1 e.2).entries = t.entries ++ [e] := insertEntry_of_lt e.2 hlt
    have hstep := ih (t.insert e.1 e.2) (by rw [hinsert]; simpa using h)
    rw [List.foldl_cons, hstep, hinsert]
    simp

theorem ofList_entries (t : Table α) : ofList t.entries = t :=
  Table.ext (entries_foldl_insert t.entries empty t.increasing)

/-- **Of several insertions of one name the last counts.** -/
theorem get?_foldl_insert {β : Type} (key : β → String) (value : β → α) (es : List β)
    (t : Table α) (name : String) :
    (es.foldl (fun t e => t.insert (key e) (value e)) t).get? name =
      ((es.filter fun e => key e = name).getLast?.map value).or (t.get? name) := by
  induction es generalizing t with
  | nil => rfl
  | cons e es ih =>
    rw [List.foldl_cons, ih, get?_insert]
    by_cases h : key e = name
    · rw [if_pos h, List.filter_cons_of_pos (by simpa using h), List.getLast?_cons]
      cases (es.filter fun e => key e = name).getLast? <;> rfl
    · rw [if_neg h, List.filter_cons_of_neg (by simpa using h)]

theorem getLast?_filter_entries (t : Table α) (name : String) :
    (t.entries.filter fun e => e.1 = name).getLast?.map (fun e => e.2) = t.get? name := by
  have h := get?_foldl_insert (fun e : String × α => e.1) (fun e => e.2) t.entries empty name
  rw [get?_empty, Option.or_none] at h
  rw [← h, ← ofList, ofList_entries]

end Table

end RegisterMachine
